import MishaOS.Native.Icmp
import MishaOS.Native.Recv

/-!
# Received frames stay inside

The fields that move `packet->start` are not checked, so `start` can be behind
`end` between two layers.  It is the test at the head of each protocol that
rejects this.

## Key results

- `eth_recv_inside`: a protocol that is reached reads inside the frame.
- `ipv4Recv_window`: the packet as a list of bytes is what stands between the pointers.
-/

namespace MishaOS

open Ring

variable {mem : Nat → Byte} {packet w : Window} {protocol : Protocol}

/-- The packet is a part of the frame `outer`; `start` may be behind `end`. -/
structure Window.Within (packet outer : Window) : Prop where
  start : outer.start ≤ packet.start
  stop : packet.stop ≤ outer.stop

/-- The header of the protocol lies in the packet. -/
def Window.Holds (packet : Window) (protocol : Protocol) : Prop :=
  packet.start + protocol.headerLen ≤ packet.stop

/-- A window is inside itself. -/
theorem Window.Within.refl (packet : Window) : packet.Within packet :=
  ⟨Nat.le_refl _, Nat.le_refl _⟩

/-- Windows may be narrowed twice. -/
theorem Window.Within.trans {inner outer : Window} (h : w.Within inner) (h' : inner.Within outer) :
    w.Within outer :=
  ⟨Nat.le_trans h'.start h.start, Nat.le_trans h.stop h'.stop⟩

/-- `arp_recv` looks at a packet that holds its header. -/
theorem arpRecvWindow_holds (h : arpRecvWindow mem packet = some (protocol, w)) :
    w = packet ∧ w.Holds protocol := by
  unfold arpRecvWindow at h
  split at h
  · simp at h
  · dsimp only at h
    split at h
    · simp at h
    -- the last of the three tests is the one for the length
    · rename_i htest
      obtain ⟨rfl, rfl⟩ := Prod.mk.inj (Option.some.inj h)
      simp only [not_or, Nat.not_lt] at htest
      exact ⟨rfl, htest.2.2⟩

/-- So does every protocol with a test of the length. -/
theorem lengthTest_holds {p : Protocol} (h : lengthTest p packet = some (protocol, w)) :
    w = packet ∧ w.Holds protocol := by
  unfold lengthTest at h
  split at h
  · simp at h
  · rename_i htest
    obtain ⟨rfl, rfl⟩ := Prod.mk.inj (Option.some.inj h)
    exact ⟨rfl, Nat.le_of_not_lt htest⟩

/-- `start` moves forward by at most 60 bytes, `end` backward; they may cross. -/
theorem ipv4Payload_within {number : Byte} (h : ipv4Payload mem packet = some (number, w)) :
    w.Within packet ∧ w.start ≤ packet.start + 60 := by
  unfold ipv4Payload at h
  split at h
  · simp at h
  · dsimp only at h
    split at h
    · simp at h
    · split at h
      · simp at h
      · split at h
        · simp at h
        -- `end` moves to `start + len`, which the last test keeps inside the packet
        · rename_i hend
          obtain ⟨-, rfl⟩ := Prod.mk.inj (Option.some.inj h)
          -- the header length is four times a number of four bits, and is not tested at all
          have hihl : (mem packet.start &&& 0x0F).toNat ≤ 15 := by
            rw [BitVec.toNat_and]
            exact Nat.and_le_right
          exact ⟨⟨Nat.le_add_right _ _, Nat.le_of_not_lt hend⟩, by dsimp only; omega⟩

/-- `ipv4_recv` hands a part of the packet on. -/
theorem ipv4RecvWindow_holds (h : ipv4RecvWindow mem packet = some (protocol, w)) :
    w.Within packet ∧ w.Holds protocol := by
  obtain ⟨⟨number, inner⟩, hpayload, h⟩ := Option.bind_eq_some_iff.mp h
  have hwithin := (ipv4Payload_within hpayload).1
  dsimp only at h
  -- whatever the two pointers are, the protocol that follows tests them
  have hholds : w = inner ∧ w.Holds protocol := by
    split at h
    · exact lengthTest_holds h
    · split at h
      · exact lengthTest_holds h
      · split at h
        · exact lengthTest_holds h
        · simp at h
  exact ⟨hholds.1 ▸ hwithin, hholds.2⟩

/-- Whatever the frame contains, a protocol that is reached finds its header between
    `start` and `end`, and both inside the frame. -/
theorem eth_recv_inside (h : ethRecvWindow mem packet = some (protocol, w)) :
    packet.start ≤ w.start ∧ w.stop ≤ packet.stop ∧ w.start + protocol.headerLen ≤ w.stop := by
  obtain ⟨eth, -, h⟩ := Option.bind_eq_some_iff.mp h
  dsimp only at h
  -- the header of Ethernet has been tested, so `start` is still in the frame for ARP
  have hinner : w.Within { packet with start := packet.start + eth.headerLen } ∧
      w.Holds protocol := by
    split at h
    · obtain ⟨rfl, hholds⟩ := arpRecvWindow_holds h
      exact ⟨.refl _, hholds⟩
    · split at h
      · exact ipv4RecvWindow_holds h
      · simp at h
  exact ⟨Nat.le_trans (Nat.le_add_right _ _) hinner.1.start, hinner.1.stop, hinner.2⟩

/-- An echo request: 14 bytes of Ethernet, 20 of IPv4, 8 of ICMP. -/
theorem eth_recv_inside_echo :
    ∃ mem, ethRecvWindow mem ⟨0x1000, 0x102A⟩ = some (.icmp, ⟨0x1022, 0x102A⟩) ∧
      0x1000 ≤ 0x1022 ∧ 0x102A ≤ 0x102A ∧ 0x1022 + Protocol.icmp.headerLen ≤ 0x102A := by
  have hrecv : ethRecvWindow (fun a =>
    ([(0x100C, 0x08), (0x100E, 0x45), (0x1011, 28), (0x1017, 1)] :
      List (Nat × Byte)).lookup a |>.getD 0) ⟨0x1000, 0x102A⟩ = some (.icmp, ⟨0x1022, 0x102A⟩) := by
    decide +kernel
  exact ⟨_, hrecv, eth_recv_inside hrecv⟩

/-! ## The packet as a list of bytes -/

/-- The buffer shows the bytes between the pointers. -/
structure NetBuf.Shows (b : NetBuf) (mem : Nat → Byte) (w : Window) : Prop where
  data : b.data = slice mem w.start (w.stop - w.start)
  deficit : b.deficit = w.start - w.stop

/-- The test of the length on pointers. -/
theorem NetBuf.Shows.length_lt {b : NetBuf} {n : Nat} (h : b.Shows mem packet) (hn : 0 < n) :
    b.data.length < n ↔ packet.start + n > packet.stop := by
  rw [h.data, length_slice]
  omega

/-- The bytes of the packet. -/
theorem NetBuf.Shows.getD {b : NetBuf} {i : Nat} (h : b.Shows mem packet)
    (hi : packet.start + i < packet.stop) :
    b.data.getD i 0 = mem (packet.start + i) := by
  rw [h.data]
  exact getD_slice (by omega) 0

/-- Its half words. -/
theorem NetBuf.Shows.readBe16 {b : NetBuf} {i : Nat} (h : b.Shows mem packet)
    (hi : packet.start + i + 1 < packet.stop) :
    MishaOS.readBe16 (b.data.drop i) = memBe16 mem (packet.start + i) := by
  have hget : ∀ j, packet.start + i + j < packet.stop →
      (b.data.drop i).getD j 0 = mem (packet.start + i + j) := by
    intro j hj
    rw [List.getD_eq_getElem?_getD, List.getElem?_drop, ← List.getD_eq_getElem?_getD,
      h.getD (by omega),
      Nat.add_assoc]
  have hfirst : (b.data.drop i).getD 0 0 = mem (packet.start + i) := hget 0 (by omega)
  rw [MishaOS.readBe16, hfirst, hget 1 hi]
  rfl

/-- `eth_decode` on the list of bytes is `eth_decode` on the pointers. -/
theorem ethDecode_bytes {b : NetBuf} (h : b.Shows mem packet) :
    ethDecodeBytes b.data = ethDecode mem packet := by
  have hlen : b.data.length = packet.stop - packet.start := by rw [h.data, length_slice]
  unfold ethDecodeBytes ethDecode
  -- the tests of `eth_decode`, in their order
  by_cases hshort : packet.start + 14 > packet.stop
  · rw [if_pos hshort, if_pos ((h.length_lt (by decide)).mpr hshort)]
  rw [if_neg hshort, if_neg fun hlt => hshort ((h.length_lt (by decide)).mp hlt)]
  simp only [h.readBe16 (i := 12) (by omega)]
  by_cases hlong : (memBe16 mem (packet.start + 12)).toNat ≤ 1500 ∧ packet.start + 22 ≤ packet.stop
  · rw [if_pos hlong, if_pos ⟨hlong.1, by omega⟩, h.getD (i := 14) (by omega),
      h.getD (i := 15) (by omega),
      h.readBe16 (i := 20) (by omega)]
  · rw [if_neg hlong, if_neg fun hc => hlong ⟨hc.1, by omega⟩]

/-- Moving `end` to `start + len` and then `start` by `k`. -/
theorem NetBuf.Shows.shrink {b : NetBuf} {len : Nat} (h : b.Shows mem packet)
    (hlen : packet.start + len ≤ packet.stop) (k : Nat) :
    ({ b with data := b.data.take len }.advance k).Shows mem
      ⟨packet.start + k, packet.start + len⟩ where
  data := by
    have hsub : packet.start + len - (packet.start + k) = len - k := by omega
    rw [NetBuf.advance, h.data, take_slice (by omega), drop_slice, hsub]
  deficit := by
    have hdeficit : b.deficit = 0 := by
      have := h.deficit
      omega
    simp only [NetBuf.advance, hdeficit, h.data,
      take_slice (show len ≤ packet.stop - packet.start by omega),
      length_slice]
    omega

/-- `ipv4_recv` on the list of bytes is `ipv4_recv` on the pointers. -/
theorem ipv4Recv_window {frames : Nat → Nat} {other : Byte → TcpWorld → Nat → Option TcpWorld}
    {s : TcpWorld} {p : Nat} (h : (s.bufs.buf p).Shows mem packet) :
    (ipv4Payload mem packet = none ∧ ipv4Recv frames other s p = some s) ∨
      ∃ number w b src dst, ipv4Payload mem packet = some (number, w) ∧ b.Shows mem w ∧
        ipv4Recv frames other s p =
          if number = IP_PROTOCOL_TCP then tcpRecv frames (s.setBuf p b) src dst number p
          else if number = IP_PROTOCOL_ICMP ∨ number = IP_PROTOCOL_UDP
            then other number (s.setBuf p b) p
          else some (s.setBuf p b) := by
  unfold ipv4Payload ipv4Recv
  -- the tests of `ipv4_recv`, in their order
  by_cases hshort : packet.start + 20 > packet.stop
  · exact .inl ⟨if_pos hshort, if_pos ((h.length_lt (by decide)).mpr hshort)⟩
  have hver : (s.bufs.buf p).data.getD 0 0 = mem packet.start := h.getD (i := 0) (by omega)
  have hlen : (s.bufs.buf p).data.length = packet.stop - packet.start := by
    rw [h.data, length_slice]
  rw [if_neg hshort, if_neg (fun hlt => hshort ((h.length_lt (by decide)).mp hlt))]
  simp only [hver, h.readBe16 (i := 6) (by omega), h.readBe16 (i := 2) (by omega),
    h.getD (i := 9) (by omega)]
  by_cases hversion : (mem packet.start >>> 4) &&& 0x0F ≠ 4
  · rw [if_pos hversion, if_pos hversion]
    exact .inl ⟨rfl, rfl⟩
  rw [if_neg hversion, if_neg hversion]
  by_cases hfragment : memBe16 mem (packet.start + 6) &&& 0x1FFF ≠ 0
  · rw [if_pos hfragment, if_pos hfragment]
    exact .inl ⟨rfl, rfl⟩
  rw [if_neg hfragment, if_neg hfragment]
  by_cases hlong : packet.start + (memBe16 mem (packet.start + 2)).toNat > packet.stop
  · rw [if_pos hlong, if_pos (by omega)]
    exact .inl ⟨rfl, rfl⟩
  rw [if_neg hlong, if_neg (by omega)]
  -- what is left is the protocol number
  exact .inr ⟨_, _, _, _, _, rfl, h.shrink (by omega) _, rfl⟩

end MishaOS
