import MishaOS.Native.Arp
import MishaOS.Native.TcpRecv

/-!
# IPv4

The packet `ipv4_intf_send` hands to an interface, and `ipv4_recv`, which takes
it apart again.  ICMP and UDP are not modelled on this side: `other protocol`
stands for `icmp_recv` and `udp_recv`.
-/

namespace MishaOS

def IP_PROTOCOL_ICMP : Byte := 1
def IP_PROTOCOL_UDP : Byte := 17

/-- `ipv4_header_t` as `ipv4_intf_send` fills it. -/
def ipv4Header (src dst : Ipv4Addr) (protocol : Byte) (len : Nat) : List Byte :=
  let front : List Byte := [0x45, 0] ++ be16 (BitVec.ofNat 16 len) ++ [0, 0, 0, 0, 64, protocol]
  let back := src.toBytes ++ dst.toBytes
  front ++ be16 (netChecksum (front ++ [0, 0] ++ back)) ++ back

/-- The packet `ipv4_intf_send` hands to `intf->send`. -/
def ipv4Packet (intf : NetIntf) (dst : Ipv4Addr) (protocol : Byte) (data : List Byte) : List Byte :=
  ipv4Header intf.ipAddr dst protocol (20 + data.length) ++ data

/-- `ipv4_recv` -/
def ipv4Recv (frames : Nat → Nat) (other : Byte → TcpWorld → Nat → Option TcpWorld) (w : TcpWorld)
    (packet : Nat) : Option TcpWorld :=
  let p := (w.bufs.buf packet).data
  if p.length < 20 then some w
  else
    let version := (p.getD 0 0 >>> 4) &&& 0x0F
    let fragment := readBe16 (p.drop 6) &&& 0x1FFF
    let ihl := p.getD 0 0 &&& 0x0F
    let len := (readBe16 (p.drop 2)).toNat
    if version ≠ 4 then some w
    else if fragment ≠ 0 then some w
    -- "IPv4: packet too long."
    else if len > p.length then some w
    else
      let w := w.setBuf packet
        ({ w.bufs.buf packet with data := p.take len }.advance (ihl.toNat * 4))
      let protocol := p.getD 9 0
      if protocol = IP_PROTOCOL_TCP then
        tcpRecv frames w (.read (p.drop 12)) (.read (p.drop 16)) protocol packet
      else if protocol = IP_PROTOCOL_ICMP ∨ protocol = IP_PROTOCOL_UDP then other protocol w packet
      else some w

end MishaOS
