import MishaOS.ForStd.Ring
import MishaOS.Native.Ipv4

/-!
# Received frames

The way of a frame from `eth_recv` to the protocol that reads it, with
`packet->start` and `packet->end` as addresses.  Each layer moves them by what
the frame says.  The result is the protocol whose tests of the length are
passed, with the pointers it goes on with; `none` stands for a packet that is
dropped on the way.  `ethRecv` is the same on the state of TCP, with a packet as
a list of bytes; there `arp` and `other` stand for the protocols but TCP.
-/

namespace MishaOS

/-- `start` and `end` of a packet. -/
structure Window where
  start : Nat
  stop : Nat
deriving DecidableEq

inductive Protocol
  | arp
  | icmp
  | tcp
  | udp
deriving DecidableEq

/-- The bytes a protocol reads behind its tests. -/
def Protocol.headerLen : Protocol → Nat
  | .arp => 28
  | .icmp => 8
  | .tcp => 20
  | .udp => 8

/-- The half word at `p`, most significant byte first. -/
def memBe16 (mem : Nat → Byte) (p : Nat) : BitVec 16 := mem p ++ mem (p + 1)

/-- `eth_packet_t` -/
structure EthPacket where
  ethertype : BitVec 16
  headerLen : Nat

def ethDecode (mem : Nat → Byte) (packet : Window) : Option EthPacket :=
  if packet.start + 14 > packet.stop then none
  else
    let data := packet.start
    let n := memBe16 mem (data + 12)
    if n.toNat ≤ 1500 ∧ packet.start + 22 ≤ packet.stop then
      let dsap := mem (data + 14)
      let ssap := mem (data + 15)
      if dsap ≠ 0xAA ∨ ssap ≠ 0xAA then none
      else some ⟨memBe16 mem (data + 20), 22⟩
    else some ⟨n, 14⟩

/-- `arp_recv` up to the end of its tests. -/
def arpRecvWindow (mem : Nat → Byte) (packet : Window) : Option (Protocol × Window) :=
  if packet.start + 8 > packet.stop then none
  else
    let htype := memBe16 mem packet.start
    let ptype := memBe16 mem (packet.start + 2)
    if htype ≠ ARP_HTYPE_ETH ∨ ptype ≠ ET_IPV4 ∨ packet.start + 28 > packet.stop then none
    else some (.arp, packet)

/-- A protocol that tests the length of its header and nothing else. -/
def lengthTest (protocol : Protocol) (packet : Window) : Option (Protocol × Window) :=
  if packet.start + protocol.headerLen > packet.stop then none else some (protocol, packet)

def icmpRecvWindow : Window → Option (Protocol × Window) := lengthTest .icmp

def tcpRecvWindow : Window → Option (Protocol × Window) := lengthTest .tcp

def udpRecvWindow : Window → Option (Protocol × Window) := lengthTest .udp

/-- `ipv4_recv` up to the switch: the protocol of the header, and the packet behind it. -/
def ipv4Payload (mem : Nat → Byte) (packet : Window) : Option (Byte × Window) :=
  if packet.start + 20 > packet.stop then none
  else
    let header := packet.start
    let version := (mem header >>> 4) &&& 0x0F
    let fragment := memBe16 mem (header + 6) &&& 0x1FFF
    let ihl := mem header &&& 0x0F
    let ipEnd := packet.start + (memBe16 mem (header + 2)).toNat
    if version ≠ 4 then none
    else if fragment ≠ 0 then none
    -- "IPv4: packet too long."
    else if ipEnd > packet.stop then none
    else some (mem (header + 9), ⟨packet.start + ihl.toNat * 4, ipEnd⟩)

def ipv4RecvWindow (mem : Nat → Byte) (packet : Window) : Option (Protocol × Window) :=
  (ipv4Payload mem packet).bind fun (protocol, packet) =>
    if protocol = IP_PROTOCOL_ICMP then icmpRecvWindow packet
    else if protocol = IP_PROTOCOL_TCP then tcpRecvWindow packet
    else if protocol = IP_PROTOCOL_UDP then udpRecvWindow packet
    else none

def ethRecvWindow (mem : Nat → Byte) (packet : Window) : Option (Protocol × Window) :=
  (ethDecode mem packet).bind fun eth =>
    let packet := { packet with start := packet.start + eth.headerLen }
    if eth.ethertype = ET_ARP then arpRecvWindow mem packet
    else if eth.ethertype = ET_IPV4 then ipv4RecvWindow mem packet
    else none

/-! ## Lists of bytes -/

/-- `eth_decode` of a packet with these bytes. -/
def ethDecodeBytes (p : List Byte) : Option EthPacket :=
  if p.length < 14 then none
  else
    let n := readBe16 (p.drop 12)
    if n.toNat ≤ 1500 ∧ 22 ≤ p.length then
      let dsap := p.getD 14 0
      let ssap := p.getD 15 0
      if dsap ≠ 0xAA ∨ ssap ≠ 0xAA then none
      else some ⟨readBe16 (p.drop 20), 22⟩
    else some ⟨n, 14⟩

def ethRecv (frames : Nat → Nat) (arp : TcpWorld → Nat → Option TcpWorld)
    (other : Byte → TcpWorld → Nat → Option TcpWorld) (packet : Nat) (w : TcpWorld) :
    Option TcpWorld :=
  match ethDecodeBytes (w.bufs.buf packet).data with
  | none => some w
  | some eth =>
    let w := w.setBuf packet ((w.bufs.buf packet).advance eth.headerLen)
    if eth.ethertype = ET_ARP then arp w packet
    else if eth.ethertype = ET_IPV4 then ipv4Recv frames other w packet
    else some w

end MishaOS
