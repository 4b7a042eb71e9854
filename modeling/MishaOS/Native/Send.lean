import MishaOS.Native.Ipv4
import MishaOS.Native.Vfs

/-!
# Sending packets

The ways of a packet down to an interface: `udp.c`, `icmp.c`, `dns.c`, `ipv4.c`
and `tcp_send_packet`, over `eth.c`, `arp.c` and `loopback.c`.  `none` stands
for a read through the null pointer, or a walk that does not end.

The loopback interface passes a packet to the receive path and then drops its
reference.  What the protocols do in response are calls of their own.  Of the
packet itself only `tcp_recv` keeps something, when it queues a segment for
reassembly, and then it has taken a reference.
-/

namespace MishaOS

def ICMP_TYPE_ECHO_REPLY : Byte := 0
def ICMP_TYPE_ECHO_REQUEST : Byte := 8

def PORT_DNS : BitVec 16 := 53

/-- `dns_entry_t`: a query that waits for its answer. -/
structure DnsEntry where
  page : Nat
  id : BitVec 32
  host : CString

structure SendWorld where
  net : NetWorld
  routes : RouteTable
  /-- The interfaces whose `send` is `loop_send`, and not `eth_intf_send`. -/
  isLoop : Nat → Bool
  dnsServer : Ipv4Addr
  dnsEntries : List DnsEntry
  nextPort : BitVec 16

def SendWorld.setNet (w : SendWorld) (net : NetWorld) : SendWorld := { w with net := net }

/-- The bytes from `start` to `end` of a packet are replaced. -/
def NetWorld.setData (w : NetWorld) (packet : Nat) (data : List Byte) : NetWorld :=
  { w with bufs := w.bufs.setBuf packet { w.bufs.buf packet with data := data } }

/-! ## Headers -/

/-- `udp_header_t` -/
def udpHeader (srcPort dstPort : BitVec 16) (len : Nat) : List Byte :=
  be16 srcPort ++ be16 dstPort ++ be16 (BitVec.ofNat 16 len) ++ [0, 0]

/-- An echo packet, with its checksum. -/
def icmpEcho (type : Byte) (id sequence : BitVec 16) (data : List Byte) : List Byte :=
  let body := be16 id ++ be16 sequence ++ data
  [type, 0] ++ be16 (netChecksum ([type, 0, 0, 0] ++ body)) ++ body

/-- The labels of a host name, each behind its length; `label` is what has been read of
    the current one. -/
def dnsLabels : List Byte → List Byte → List Byte
  | [], label => BitVec.ofNat 8 label.length :: label ++ [0]
  | c :: host, label =>
    if c = 46 then BitVec.ofNat 8 label.length :: label ++ dnsLabels host []
    else dnsLabels host (label ++ [c])

/-- `dns_header_t` and one question. -/
def dnsQuery (id : BitVec 32) (host : CString) : List Byte :=
  be16 (id.setWidth 16) ++ be16 0x0100 ++ be16 1 ++ [0, 0, 0, 0, 0, 0] ++ dnsLabels host.bytes [] ++
    be16 1 ++ be16 1

/-! ## Interfaces -/

section Frames

-- `frames k` is what the `k`-th call of `pfa_request_page` returns.
variable (frames : Nat → Nat)

/-- `net_alloc_buf`, filled with `data`. -/
def allocPacket (w : NetWorld) (data : List Byte) : Nat × NetWorld :=
  let (packet, bufs) := netAllocBuf frames w.bufs
  (packet, ({ w with bufs := bufs }.emit (.alloc packet)).setData packet data)

/-- `loop_send`; `kept` says whether the receive path has taken a reference: see `tcpKept`. -/
def loopSend (w : NetWorld) (packet : Nat) (kept : Bool) : NetWorld :=
  let bufs :=
    if kept then
      w.bufs.setBuf packet
        { w.bufs.buf packet with refCount := u32 ((w.bufs.buf packet).refCount + 1) }
    else w.bufs
  { w with bufs := netFreeBuf bufs packet }.emit (.freeBuf packet false)

/-- `intf->send(intf, next_addr, ET_IPV4, packet)` -/
def intfSend (w : SendWorld) (intf : Nat) (nextAddr : Ipv4Addr) (packet : Nat)
    (kept : Bool) : SendWorld :=
  w.setNet
    (if w.isLoop intf then loopSend w.net packet kept
    else ethIntfSend frames w.net intf nextAddr.toBytes ET_IPV4 packet)

/-- `ipv4_intf_send` -/
def ipv4IntfSend (w : SendWorld) (intf : Nat) (nextAddr dst : Ipv4Addr) (protocol : Byte)
    (packet : Nat) (kept : Bool) : SendWorld :=
  let data := (w.net.bufs.buf packet).data
  let header := ipv4Header (w.net.intf intf).ipAddr dst protocol (20 + data.length)
  let net := w.net.setData packet (header ++ data)
  w.setNet
    (if w.isLoop intf then loopSend net packet kept
    else ethIntfSend frames net intf nextAddr.toBytes ET_IPV4 packet)

/-- `ipv4_send`.  Without a route nothing is done.  `udp_send` and the echo packets come
    here, and nothing keeps a reference to those. -/
def ipv4Send (w : SendWorld) (dst : Ipv4Addr) (protocol : Byte) (packet : Nat) : Option SendWorld :=
  match netFindRoute w.routes dst with
  | none => none
  | some 0 => some w
  | some route =>
    some (ipv4IntfSend frames w (w.routes.route route).intf (netNextAddr w.routes route dst) dst
      protocol packet false)

/-! ## Protocols -/

/-- `udp_send` -/
def udpSend (w : SendWorld) (dst : Ipv4Addr) (dstPort srcPort : BitVec 16) (packet : Nat) :
    Option SendWorld :=
  let data := (w.net.bufs.buf packet).data
  let net := w.net.setData packet (udpHeader srcPort dstPort (8 + data.length) ++ data)
  ipv4Send frames (w.setNet net) dst IP_PROTOCOL_UDP packet

/-- `udp_intf_send` -/
def udpIntfSend (w : SendWorld) (intf : Nat) (dst : Ipv4Addr) (dstPort srcPort : BitVec 16)
    (packet : Nat) : SendWorld :=
  let data := (w.net.bufs.buf packet).data
  let net := w.net.setData packet (udpHeader srcPort dstPort (8 + data.length) ++ data)
  ipv4IntfSend frames (w.setNet net) intf dst dst IP_PROTOCOL_UDP packet false

/-- `icmp_echo_request` and `icmp_echo_reply`, which differ in the type: the packet, and
    what is left of it. -/
def icmpEchoSend (w : SendWorld) (type : Byte) (addr : Ipv4Addr) (id sequence : BitVec 16)
    (data : List Byte) : Option (Nat × SendWorld) :=
  let (packet, net) := allocPacket frames w.net (icmpEcho type id sequence data)
  (ipv4Send frames (w.setNet net) addr IP_PROTOCOL_ICMP packet).map fun w => (packet, w)

def icmpEchoRequest (w : SendWorld) (addr : Ipv4Addr) (id sequence : BitVec 16) (data : List Byte) :
    Option (Nat × SendWorld) :=
  icmpEchoSend frames w ICMP_TYPE_ECHO_REQUEST addr id sequence data

def icmpEchoReply (w : SendWorld) (addr : Ipv4Addr) (id sequence : BitVec 16) (data : List Byte) :
    Option (Nat × SendWorld) :=
  icmpEchoSend frames w ICMP_TYPE_ECHO_REPLY addr id sequence data

/-- `tcp_send_packet` for the connection `c`: what `tcpTransmit` hands to `ipv4_intf_send`
    goes out. -/
def tcpSendSegment (w : SendWorld) (c : TcpConn) (seq : BitVec 32) (flags : BitVec 8)
    (data : List Byte) (kept : Bool) : Nat × SendWorld :=
  let (packet, net) := allocPacket frames w.net (tcpSegment c seq flags data).toBytes
  (packet, ipv4IntfSend frames (w.setNet net) c.intf c.nextAddr c.remoteAddr IP_PROTOCOL_TCP packet
    kept)

/-- Whether a connection of `tcp` keeps this segment when the loopback interface hands it to
    `ipv4_recv`; `none` when the receive path does not return. -/
def tcpKept (tcp : TcpWorld) (w : SendWorld) (c : TcpConn) (seq : BitVec 32) (flags : BitVec 8)
    (data : List Byte) : Option Bool :=
  if w.isLoop c.intf then
    let bytes := (tcpSegment c seq flags data).toBytes
    let (packet, net) := allocPacket frames w.net bytes
    let bytes := ipv4Packet (w.net.intf c.intf) c.remoteAddr IP_PROTOCOL_TCP bytes
    let net := net.setData packet bytes
    (ipv4Recv frames (fun _ tcp _ => some tcp) (tcp.setBufs net.bufs) packet).map fun tcp =>
      (net.bufs.buf packet).refCount < (tcp.bufs.buf packet).refCount
  else some false

/-- `dns_query_host`; there is no packet when no server is known. -/
def dnsQueryHost (w : SendWorld) (host : CString) (id : BitVec 32) (callback : Bool) :
    Option (Option Nat × SendWorld) :=
  if w.dnsServer.bits = ipv4NullAddr.bits then some (none, w)
  else
    let (packet, net) := allocPacket frames w.net []
    let w := w.setNet net
    if host.bytes.length ≥ 256 then some (some packet, w)
    else
      let w := w.setNet (w.net.setData packet (dnsQuery id host))
      let (srcPort, nextPort) := netEphemeralPort w.nextPort
      let w := { w with nextPort := nextPort }
      let w :=
        if callback then
          let page := frames w.net.bufs.requests
          { w.setNet { w.net with
              bufs := { w.net.bufs with requests := w.net.bufs.requests + 1 } } with
            dnsEntries := ⟨page, id, host⟩ :: w.dnsEntries }
        else w
      (udpSend frames w w.dnsServer PORT_DNS srcPort packet).map fun w => (some packet, w)

end Frames

/-! ## Calls -/

inductive SendOp
  | udpSend (dst : Ipv4Addr) (dstPort srcPort : BitVec 16) (packet : Nat)
  | udpIntfSend (intf : Nat) (dst : Ipv4Addr) (dstPort srcPort : BitVec 16) (packet : Nat)
  | icmpEchoRequest (addr : Ipv4Addr) (id sequence : BitVec 16) (data : List Byte)
  | icmpEchoReply (addr : Ipv4Addr) (id sequence : BitVec 16) (data : List Byte)
  /-- `tcp`: the connections, to one of which the segment may be looped back. -/
  | tcpSendPacket (tcp : TcpWorld) (c : TcpConn) (seq : BitVec 32) (flags : BitVec 8)
    (data : List Byte)
  | arpSend (intf : Nat) (op : BitVec 16) (tha : EthAddr) (tpa : Ipv4Addr)
  | dnsQueryHost (host : CString) (id : BitVec 32) (callback : Bool)

/-- The buffer of the packet, if there is one, and the state when the call returns. -/
def sendCall (frames : Nat → Nat) (w : SendWorld) : SendOp → Option (Option Nat × SendWorld)
  | .udpSend dst dstPort srcPort packet =>
    (udpSend frames w dst dstPort srcPort packet).map fun w => (some packet, w)
  | .udpIntfSend intf dst dstPort srcPort packet =>
    some (some packet, udpIntfSend frames w intf dst dstPort srcPort packet)
  | .icmpEchoRequest addr id sequence data =>
    (icmpEchoRequest frames w addr id sequence data).map fun r => (some r.1, r.2)
  | .icmpEchoReply addr id sequence data =>
    (icmpEchoReply frames w addr id sequence data).map fun r => (some r.1, r.2)
  | .tcpSendPacket tcp c seq flags data =>
    (tcpKept frames tcp w c seq flags data).map fun kept =>
      let (packet, w) := tcpSendSegment frames w c seq flags data kept
      (some packet, w)
  | .arpSend intf op tha tpa =>
    some (some (netAllocBuf frames w.net.bufs).1, w.setNet (arpSend frames w.net intf op tha tpa))
  | .dnsQueryHost host id callback => dnsQueryHost frames w host id callback

end MishaOS
