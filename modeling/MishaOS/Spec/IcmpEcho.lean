import MishaOS.Native.Icmp
import MishaOS.Spec.TcpWire

/-!
# Checksums of IPv4 headers and echo messages

Both checksums are computed with zeros in their place and then filled in, so
`netChecksum_fill` applies: whoever checks the header or the message gets 0.  An
echo reply differs from its request in the type and the checksum only.

## Key results

- `ipv4Header_checksum`, `icmpEcho_checksum`: what is written verifies.
- `icmpRecv_request`: the reply to an echo request.
-/

namespace MishaOS

variable {frames : Nat → Nat} {w : SendWorld} {src : Ipv4Addr} {data request : List Byte}

theorem length_ipv4Header (src dst : Ipv4Addr) (protocol : Byte) (len : Nat) :
    (ipv4Header src dst protocol len).length = 20 := rfl

theorem ipv4Header_checksum (src dst : Ipv4Addr) (protocol : Byte) (len : Nat) :
    netChecksum (ipv4Header src dst protocol len) = 0 :=
  netChecksum_fill ([0x45, 0] ++ be16 (BitVec.ofNat 16 len) ++ [0, 0, 0, 0, 64, protocol])
    (src.toBytes ++ dst.toBytes) (by simp) (by simp)

theorem ipv4Packet_header (intf : NetIntf) (dst : Ipv4Addr) (protocol : Byte) (data : List Byte) :
    (ipv4Packet intf dst protocol data).take 20 =
      ipv4Header intf.ipAddr dst protocol (20 + data.length) :=
  List.take_left' (length_ipv4Header _ _ _ _)

theorem icmpEcho_checksum (type : Byte) (id sequence : BitVec 16) (hlen : data.length ≤ 1472) :
    netChecksum (icmpEcho type id sequence data) = 0 := by
  -- The checksum field is zero while the sum is formed, and then holds its complement.
  have hfill := netChecksum_fill [type, 0] (be16 id ++ be16 sequence ++ data) (by simp) (by
    simp only [List.length_append, List.length_cons, List.length_nil, length_be16]
    omega)
  exact hfill

/-- Behind the type, the code and the checksum come the identifier, the sequence number and the
    payload. -/
theorem icmpEcho_body (type : Byte) (id sequence : BitVec 16) (data : List Byte) :
    (icmpEcho type id sequence data).take 2 = [type, 0] ∧
      (icmpEcho type id sequence data).drop 4 = be16 id ++ be16 sequence ++ data := ⟨rfl, rfl⟩

/-- The half words a message is read into, written again. -/
theorem be16_append (a b : Byte) : be16 (a ++ b) = [a, b] := by
  -- The low byte is the second one.
  have hlow : BitVec.extractLsb' 0 8 (a ++ b : BitVec (8 + 8)) = b := by
    ext i hi
    rw [BitVec.getElem_extractLsb', BitVec.getLsbD_append]
    simp [hi]
  -- The high byte is the first one.
  have hhigh : BitVec.extractLsb' 8 8 (a ++ b : BitVec (8 + 8)) = a := by
    ext i hi
    rw [BitVec.getElem_extractLsb', BitVec.getLsbD_append]
    simp [hi]
  show [BitVec.extractLsb' 8 8 (a ++ b : BitVec (8 + 8)),
    BitVec.extractLsb' 0 8 (a ++ b : BitVec (8 + 8))] = _
  rw [hhigh, hlow]

/-- The fields an echo request is read into stand for all its bytes from the fourth on. -/
theorem request_body (h : 8 ≤ request.length) :
    be16 (request.getD 4 0 ++ request.getD 5 0) ++ be16 (request.getD 6 0 ++ request.getD 7 0) ++
      request.drop 8 =
      request.drop 4 := by
  match request, h with
  | _ :: _ :: _ :: _ :: a :: b :: c :: d :: rest, _ =>
    show be16 (a ++ b) ++ be16 (c ++ d) ++ rest = a :: b :: c :: d :: rest
    rw [be16_append, be16_append]
    rfl

/-- The message `m`, handed to `ipv4_send`. -/
def icmpSend (frames : Nat → Nat) (w : SendWorld) (addr : Ipv4Addr) (m : List Byte) :
    Option (Nat × SendWorld) :=
  let (packet, net) := allocPacket frames w.net m
  (ipv4Send frames (w.setNet net) addr IP_PROTOCOL_ICMP packet).map fun w => (packet, w)

theorem icmpRecv_request (hlen : 8 ≤ request.length)
    (htype : request.getD 0 0 = ICMP_TYPE_ECHO_REQUEST) :
    icmpRecv frames w src request =
      (icmpSend frames w src (icmpEcho ICMP_TYPE_ECHO_REPLY (request.getD 4 0 ++ request.getD 5 0)
        (request.getD 6 0 ++ request.getD 7 0) (request.drop 8))).map fun r => (some r.1, r.2) := by
  rw [icmpRecv, if_neg (by omega)]
  dsimp only
  rw [if_pos htype]
  rfl

/-- The headers and messages that are written verify, and a reply carries what its request did. -/
theorem ipv4_icmp_checksums :
    (∀ (frames : Nat → Nat) (w : SendWorld) (intf : Nat) (nextAddr dst : Ipv4Addr)
      (protocol : Byte) (packet : Nat)
      (kept : Bool), ∃ p, ipv4IntfSend frames w intf nextAddr dst protocol packet kept =
          intfSend frames (w.setNet (w.net.setData packet p)) intf nextAddr packet kept ∧
        p = ipv4Packet (w.net.intf intf) dst protocol (w.net.bufs.buf packet).data ∧
        netChecksum (p.take 20) = 0) ∧
    (∀ (frames : Nat → Nat) (w : SendWorld) (addr : Ipv4Addr) (id sequence : BitVec 16)
      (data : List Byte),
      data.length ≤ 1472 →
      (∃ m, icmpEchoRequest frames w addr id sequence data = icmpSend frames w addr m ∧
        m.take 2 = [ICMP_TYPE_ECHO_REQUEST, 0] ∧ m.drop 4 = be16 id ++ be16 sequence ++ data ∧
        netChecksum m = 0) ∧
      ∃ m, icmpEchoReply frames w addr id sequence data = icmpSend frames w addr m ∧
        m.take 2 = [ICMP_TYPE_ECHO_REPLY, 0] ∧ m.drop 4 = be16 id ++ be16 sequence ++ data ∧
        netChecksum m = 0) ∧
    ∀ (frames : Nat → Nat) (w : SendWorld) (src : Ipv4Addr)
    (request : List Byte), 8 ≤ request.length →
      request.length ≤ 8 + 1472 → request.getD 0 0 = ICMP_TYPE_ECHO_REQUEST →
      ∃ m, icmpRecv frames w src request =
        (icmpSend frames w src m).map (fun r => (some r.1, r.2)) ∧
        m.take 2 = [ICMP_TYPE_ECHO_REPLY, 0] ∧ m.drop 4 = request.drop 4 ∧ netChecksum m = 0 := by
  refine ⟨fun frames w intf nextAddr dst protocol packet kept => ?_,
    fun frames w addr id sequence data hlen => ⟨?_, ?_⟩,
    fun frames w src request hlen hmax htype => ?_⟩
  · refine ⟨ipv4Packet (w.net.intf intf) dst protocol (w.net.bufs.buf packet).data, rfl, rfl, ?_⟩
    rw [ipv4Packet_header]
    exact ipv4Header_checksum _ _ _ _
  · exact ⟨_, rfl, rfl, rfl, icmpEcho_checksum _ _ _ hlen⟩
  · exact ⟨_, rfl, rfl, rfl, icmpEcho_checksum _ _ _ hlen⟩
  -- The reply goes back with the identifier, the sequence number and the payload it came with.
  · refine ⟨_, icmpRecv_request hlen htype, rfl, ?_, icmpEcho_checksum _ _ _ ?_⟩
    · rw [(icmpEcho_body _ _ _ _).2]
      exact request_body hlen
    · rw [List.length_drop]
      omega

/-- The request of an odd payload, and its reply. -/
theorem ipv4_icmp_checksums_odd : netChecksum (icmpEcho ICMP_TYPE_ECHO_REQUEST 7 1 [0xAB]) = 0 ∧
    ∀ (frames : Nat → Nat) (w : SendWorld) (src : Ipv4Addr), ∃ m,
      icmpRecv frames w src (icmpEcho ICMP_TYPE_ECHO_REQUEST 7 1 [0xAB]) =
        (icmpSend frames w src m).map (fun r => (some r.1, r.2)) ∧ netChecksum m = 0 := by
  refine ⟨by decide, fun frames w src => ?_⟩
  obtain ⟨m, hm, -, -, hsum⟩ :=
    ipv4_icmp_checksums.2.2 frames w src (icmpEcho ICMP_TYPE_ECHO_REQUEST 7 1 [0xAB])
    (by decide) (by decide) (by decide)
  exact ⟨m, hm, hsum⟩

end MishaOS
