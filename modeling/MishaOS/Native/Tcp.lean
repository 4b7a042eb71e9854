import MishaOS.Native.Arp
import MishaOS.Native.Checksum
import MishaOS.Native.Route

/-!
# TCP

`tcp.c` as functions on one state: the connection structures by address, the
two connection lists that run through their `next` fields, the network
buffers, the routing table and the clock.  `none` stands for a walk that does
not end or a read through the null pointer.  Segments are handed to the
network through `ipv4_intf_send` and callbacks are called; both are recorded
in `log`, newest first.  A callback is there or not; what it does is not
modelled, and interfaces deliver after the call.
-/

namespace MishaOS

/-! ## Constants and structures of tcp.h -/

def TCP_WINDOW_SIZE : BitVec 32 := 8192
def TCP_MSL : BitVec 32 := 120000

def TCP_FIN : BitVec 8 := 1
def TCP_SYN : BitVec 8 := 2
def TCP_RST : BitVec 8 := 4
def TCP_ACK : BitVec 8 := 16

def TCP_CONN_RESET : Nat := 1
def TCP_CONN_REFUSED : Nat := 2
def TCP_CONN_CLOSING : Nat := 3

def IP_PROTOCOL_TCP : Byte := 6

/-- `TCP_CLOSED` to `TCP_TIME_WAIT`. -/
inductive TcpState
  | closed | listen | synSent | synReceived | established | finWait1 | finWait2 | closeWait
  | closing | lastAck | timeWait
deriving DecidableEq, Repr

/-- `flags & f` -/
def hasFlag (flags f : BitVec 8) : Bool := flags &&& f ≠ 0

/-- The difference `SEQ_CMP` compares with 0. -/
def seqDiff (x y : BitVec 32) : Int := (x - y).toInt

/-- `tcp_header_t`, in host order. -/
structure TcpHeader where
  srcPort : BitVec 16
  dstPort : BitVec 16
  seq : BitVec 32
  ack : BitVec 32
  off : Byte
  flags : Byte
  windowSize : BitVec 16
  checksum : BitVec 16
  urgent : BitVec 16
deriving DecidableEq, Repr

def be32 (x : BitVec 32) : List Byte :=
  [x.extractLsb' 24 8, x.extractLsb' 16 8, x.extractLsb' 8 8, x.extractLsb' 0 8]

def readBe32 (p : List Byte) : BitVec 32 := p.getD 0 0 ++ p.getD 1 0 ++ p.getD 2 0 ++ p.getD 3 0

def TcpHeader.toBytes (h : TcpHeader) : List Byte :=
  be16 h.srcPort ++ be16 h.dstPort ++ be32 h.seq ++ be32 h.ack ++ [h.off, h.flags] ++
    be16 h.windowSize ++ be16 h.checksum ++ be16 h.urgent

/-- The header at a pointer, after `tcp_swap`. -/
def TcpHeader.read (p : List Byte) : TcpHeader where
  srcPort := readBe16 p
  dstPort := readBe16 (p.drop 2)
  seq := readBe32 (p.drop 4)
  ack := readBe32 (p.drop 8)
  off := p.getD 12 0
  flags := p.getD 13 0
  windowSize := readBe16 (p.drop 14)
  checksum := readBe16 (p.drop 16)
  urgent := readBe16 (p.drop 18)

/-- `header->off >> 2` -/
def TcpHeader.headerLen (h : TcpHeader) : Nat := h.off.toNat / 4

/-- What `tcp_swap` does to the bytes of a packet. -/
def tcpSwap (p : List Byte) : List Byte :=
  [1, 0, 3, 2, 7, 6, 5, 4, 11, 10, 9, 8, 12, 13, 15, 14,
    17, 16, 19, 18].map (fun i => p.getD i 0) ++
    p.drop 20

theorem length_tcpSwap {p : List Byte} (h : 20 ≤ p.length) : (tcpSwap p).length = p.length := by
  unfold tcpSwap
  rw [List.length_append, List.length_map, List.length_drop]
  show 20 + (p.length - 20) = p.length
  omega

/-- A segment as `tcp_send_packet` hands it to `ipv4_intf_send`. -/
structure TcpSegment where
  src : Ipv4Addr
  dst : Ipv4Addr
  header : TcpHeader
  options : List Byte
  payload : List Byte
deriving DecidableEq, Repr

def TcpSegment.toBytes (s : TcpSegment) : List Byte := s.header.toBytes ++ s.options ++ s.payload

/-- `checksum_header_t`, for a TCP packet of `len` bytes. -/
def checksumHeader (src dst : Ipv4Addr) (protocol : Byte) (len : Nat) : List Byte :=
  src.toBytes ++ dst.toBytes ++ [0, protocol] ++ be16 (BitVec.ofNat 16 len)

structure TcpSndState where
  una : BitVec 32
  nxt : BitVec 32
  wnd : BitVec 32
  urp : BitVec 32
  wl1 : BitVec 32
  wl2 : BitVec 32
  iss : BitVec 32
deriving DecidableEq, Repr

structure TcpRcvState where
  nxt : BitVec 32
  wnd : BitVec 32
  urp : BitVec 32
  irs : BitVec 32
deriving DecidableEq, Repr

/-- `tcp_conn_t`; of a callback only whether it is set. -/
structure TcpConn where
  prev : Nat
  next : Nat
  state : TcpState
  intf : Nat
  localAddr : Ipv4Addr
  nextAddr : Ipv4Addr
  remoteAddr : Ipv4Addr
  localPort : BitVec 16
  remotePort : BitVec 16
  snd : TcpSndState
  rcv : TcpRcvState
  resequence : Nat
  mslWait : BitVec 32
  onConnect : Bool
  onError : Bool
  onState : Bool
  onData : Bool
deriving DecidableEq, Repr

/-- The structure after `memset(conn, 0, ..)`. -/
def TcpConn.zero : TcpConn :=
  ⟨0, 0, .closed, 0, ⟨0⟩, ⟨0⟩, ⟨0⟩, 0, 0, ⟨0, 0, 0, 0, 0, 0, 0⟩, ⟨0, 0, 0, 0⟩, 0, 0,
    false, false, false, false⟩

/-- What can be observed of a run; `conn` is the connection concerned, null for
    the temporary one of `tcp_recv_closed`. -/
inductive TcpEvent
  | newConn (conn : Nat)
  /-- `tcp_connect` put the connection on the list. -/
  | connect (conn : Nat)
  | freeConn (conn : Nat)
  /-- `ipv4_intf_send` -/
  | ipSend (conn intf : Nat) (nextAddr : Ipv4Addr) (packet : Nat) (seg : TcpSegment)
  | onConnect (conn : Nat)
  | onError (conn : Nat) (error : Nat)
  | onState (conn : Nat) (oldState newState : TcpState)
  /-- `on_data`, with the bytes and the length passed. -/
  | onData (conn : Nat) (data : List Byte) (len : BitVec 32)
  /-- A driver dropped its reference to a buffer. -/
  | release (packet : Nat)
deriving DecidableEq, Repr

structure TcpWorld where
  conn : Nat → TcpConn
  tcpConnList : Nat
  freeConnList : Nat
  bufs : BufPool
  routes : RouteTable
  intf : Nat → NetIntf
  nextPort : BitVec 16
  baseIsn : BitVec 32
  /-- The low 32 bits of `pit_get_ticks()`: nothing more is used. -/
  ticks : BitVec 32
  log : List TcpEvent

def TcpWorld.emit (w : TcpWorld) (e : TcpEvent) : TcpWorld := { w with log := e :: w.log }

def TcpWorld.setConn (w : TcpWorld) (p : Nat) (c : TcpConn) : TcpWorld :=
  { w with conn := Function.update w.conn p c }

def TcpWorld.setState (w : TcpWorld) (p : Nat) (x : TcpState) : TcpWorld :=
  w.setConn p { w.conn p with state := x }

def TcpWorld.setSnd (w : TcpWorld) (p : Nat) (x : TcpSndState) : TcpWorld :=
  w.setConn p { w.conn p with snd := x }

def TcpWorld.setRcv (w : TcpWorld) (p : Nat) (x : TcpRcvState) : TcpWorld :=
  w.setConn p { w.conn p with rcv := x }

def TcpWorld.setResequence (w : TcpWorld) (p x : Nat) : TcpWorld :=
  w.setConn p { w.conn p with resequence := x }

def TcpWorld.setMslWait (w : TcpWorld) (p : Nat) (x : BitVec 32) : TcpWorld :=
  w.setConn p { w.conn p with mslWait := x }

def TcpWorld.setBufs (w : TcpWorld) (b : BufPool) : TcpWorld := { w with bufs := b }

def TcpWorld.setBuf (w : TcpWorld) (p : Nat) (b : NetBuf) : TcpWorld :=
  { w with bufs := w.bufs.setBuf p b }

/-! ## Connections -/

/-- `tcp_set_state` -/
def tcpSetState (w : TcpWorld) (conn : Nat) (state : TcpState) : TcpWorld :=
  let oldState := (w.conn conn).state
  let w := w.setState conn state
  if (w.conn conn).onState then w.emit (.onState conn oldState state) else w

/-- The loop of `tcp_free` over the resequence list. -/
def tcpFreeQueue : (fuel : Nat) → BufPool → (packet : Nat) → Option BufPool
  | 0, _, _ => none
  | fuel + 1, b, packet =>
    if packet = 0 then some b
    else tcpFreeQueue fuel (netFreeBuf b packet) (b.buf packet).link

/-- The end of `tcp_free`: the connection goes in front of `free_conn_list`. -/
def tcpFreeLink (w : TcpWorld) (conn : Nat) : TcpWorld :=
  let w :=
    if w.freeConnList ≠ 0 then w.setConn w.freeConnList { w.conn w.freeConnList with prev := conn }
      else w
  let w := w.setConn conn { w.conn conn with next := w.freeConnList, prev := 0 }
  { w with freeConnList := conn }.emit (.freeConn conn)

/-- `tcp_free` -/
def tcpFree (w : TcpWorld) (conn : Nat) : Option TcpWorld :=
  if (w.conn conn).state ≠ .closed then
    let w := tcpSetState w conn .closed
    (tcpFreeQueue walkFuel w.bufs (w.conn conn).resequence).map fun b =>
      tcpFreeLink (w.setBufs b) conn
  else some (tcpFreeLink w conn)

/-- `tcp_error` -/
def tcpError (w : TcpWorld) (conn error : Nat) : Option TcpWorld :=
  tcpFree (if (w.conn conn).onError then w.emit (.onError conn error) else w) conn

/-- The walk of `tcp_find`. -/
def tcpFindFrom (w : TcpWorld) (srcAddr : Ipv4Addr) (srcPort : BitVec 16) (dstAddr : Ipv4Addr)
    (dstPort : BitVec 16) : (fuel conn : Nat) → Option Nat
  | 0, _ => none
  | fuel + 1, conn =>
    if conn = 0 then some 0
    else if srcAddr.bits = (w.conn conn).remoteAddr.bits ∧
      dstAddr.bits = (w.conn conn).localAddr.bits ∧
        srcPort = (w.conn conn).remotePort ∧ dstPort = (w.conn conn).localPort then some conn
    else tcpFindFrom w srcAddr srcPort dstAddr dstPort fuel (w.conn conn).next

/-- `tcp_find`: the connection, or null. -/
def tcpFind (w : TcpWorld) (srcAddr : Ipv4Addr) (srcPort : BitVec 16) (dstAddr : Ipv4Addr)
    (dstPort : BitVec 16) : Option Nat :=
  tcpFindFrom w srcAddr srcPort dstAddr dstPort walkFuel w.tcpConnList

/-! ## Sending -/

/-- The options `tcp_send_packet` writes: the MSS in a SYN, then padding. -/
def tcpOptions (flags : BitVec 8) : List Byte :=
  let options := if hasFlag flags TCP_SYN then [2, 4] ++ be16 1460 else []
  options ++ List.replicate ((4 - (20 + options.length) % 4) % 4) 0

/-- The segment `tcp_send_packet` builds. -/
def tcpSegment (c : TcpConn) (seq : BitVec 32) (flags : BitVec 8) (data : List Byte) : TcpSegment :=
  let options := tcpOptions flags
  let header : TcpHeader := {
    srcPort := c.localPort
    dstPort := c.remotePort
    seq := seq
    ack := if hasFlag flags TCP_ACK then c.rcv.nxt else 0
    off := BitVec.ofNat 8 ((20 + options.length) * 4)
    flags := flags
    windowSize := 8192
    checksum := 0
    urgent := 0 }
  let bytes := header.toBytes ++ options ++ data
  let checksum :=
    netChecksum (checksumHeader c.localAddr c.remoteAddr IP_PROTOCOL_TCP bytes.length ++ bytes)
  ⟨c.localAddr, c.remoteAddr, { header with checksum := checksum }, options, data⟩

/-- `snd.nxt` after `tcp_send_packet`. -/
def tcpSndNxt (nxt : BitVec 32) (flags : BitVec 8) (data : List Byte) : BitVec 32 :=
  let nxt := nxt + BitVec.ofNat 32 data.length
  if hasFlag flags (TCP_SYN ||| TCP_FIN) then nxt + 1 else nxt

section Frames

-- `frames k` is what the `k`-th call of `pfa_request_page` returns.
variable (frames : Nat → Nat)

/-- `tcp_alloc`, which `tcp_new_conn` calls. -/
def tcpNewConn (w : TcpWorld) : Nat × TcpWorld :=
  let (conn, w) :=
    if w.freeConnList ≠ 0 then
      (w.freeConnList, { w with freeConnList := (w.conn w.freeConnList).next })
    else
      (frames w.bufs.requests, { w with bufs := { w.bufs with requests := w.bufs.requests + 1 } })
  (conn, (w.setConn conn .zero).emit (.newConn conn))

/-- `tcp_send_packet` up to `ipv4_intf_send`, for the connection structure `c`. -/
def tcpTransmit (w : TcpWorld) (conn : Nat) (c : TcpConn) (seq : BitVec 32) (flags : BitVec 8)
    (data : List Byte) : TcpWorld :=
  let (packet, b) := netAllocBuf frames w.bufs
  let seg := tcpSegment c seq flags data
  (w.setBufs (b.setBuf packet { b.buf packet with data := seg.toBytes })).emit
    (.ipSend conn c.intf c.nextAddr packet seg)

/-- `tcp_send_packet` -/
def tcpSendPacket (w : TcpWorld) (conn : Nat) (seq : BitVec 32) (flags : BitVec 8)
    (data : List Byte) :
    TcpWorld :=
  let w := tcpTransmit frames w conn (w.conn conn) seq flags data
  w.setSnd conn { (w.conn conn).snd with nxt := tcpSndNxt (w.conn conn).snd.nxt flags data }

/-- `tcp_send` -/
def tcpSend (w : TcpWorld) (conn : Nat) (data : List Byte) : TcpWorld :=
  tcpSendPacket frames w conn (w.conn conn).snd.nxt TCP_ACK data

/-- `tcp_send_packet(conn, conn->snd.nxt, TCP_ACK, 0, 0)` -/
def tcpSendAck (w : TcpWorld) (conn : Nat) : TcpWorld :=
  tcpSendPacket frames w conn (w.conn conn).snd.nxt TCP_ACK []

end Frames

end MishaOS
