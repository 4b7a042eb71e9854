import MishaOS.Native.TcpRecv

/-!
# TCP over an interface that delivers at once

`loop_send` hands a packet to `ipv4_recv` before it returns, so the answer to a
segment can arrive inside `tcp_send_packet`.  Here `during` is what happens in
`intf->send`; `some`, where nothing happens, gives the functions of `tcp.c` as
they are over other interfaces.
-/

namespace MishaOS

section Frames

variable (frames : Nat → Nat) (during : TcpWorld → Option TcpWorld)

/-- `tcp_send_packet`: `snd.nxt` is read again after the segment has been handed over. -/
def tcpSendPacketDuring (w : TcpWorld) (conn : Nat) (seq : BitVec 32) (flags : BitVec 8)
    (data : List Byte) : Option TcpWorld :=
  (during (tcpTransmit frames w conn (w.conn conn) seq flags data)).map fun w =>
    w.setSnd conn { (w.conn conn).snd with nxt := tcpSndNxt (w.conn conn).snd.nxt flags data }

/-- `tcp_connect` -/
def tcpConnectDuring (w : TcpWorld) (conn : Nat) (addr : Ipv4Addr) (port : BitVec 16) :
    Option (Bool × TcpWorld) :=
  (netFindRoute w.routes addr).bind fun route =>
    if route = 0 then some (false, w)
    else
      let c := tcpConnectConn w conn route addr port
      let w := { w with nextPort := (netEphemeralPort w.nextPort).2 }.setConn conn c
      let w := tcpConnectLink w conn
      (tcpSendPacketDuring frames during w conn (w.conn conn).snd.nxt TCP_SYN []).map fun w =>
        (true, tcpSetState w conn .synSent)

/-- `tcp_close` -/
def tcpCloseDuring (w : TcpWorld) (conn : Nat) : Option TcpWorld :=
  match (w.conn conn).state with
  | .closed | .listen | .synSent => tcpFree w conn
  | .synReceived | .established =>
    (tcpSendPacketDuring frames during w conn (w.conn conn).snd.nxt (TCP_FIN ||| TCP_ACK) []).map
      fun w =>
      tcpSetState w conn .finWait1
  | .finWait1 | .finWait2 | .closing | .lastAck | .timeWait =>
    some (if (w.conn conn).onError then w.emit (.onError conn TCP_CONN_CLOSING) else w)
  | .closeWait =>
    (tcpSendPacketDuring frames during w conn (w.conn conn).snd.nxt (TCP_FIN ||| TCP_ACK) []).map
      fun w =>
      tcpSetState w conn .lastAck

/-- The calls that start and end a connection. -/
inductive TcpCall
  | connect (addr : Ipv4Addr) (port : BitVec 16)
  | close

def tcpCallDuring (w : TcpWorld) (conn : Nat) : TcpCall → Option TcpWorld
  | .connect addr port => (tcpConnectDuring frames during w conn addr port).map (·.2)
  | .close => tcpCloseDuring frames during w conn

end Frames

end MishaOS
