import MishaOS.ForStd.OnesSum
import MishaOS.Native.Checksum
import MishaOS.Spec.ByteOrder

/-!
# The Internet checksum is that of RFC 1071

`net_checksum_update` adds the half words in memory order, `net_checksum_final`
adds the carries back and swaps the bytes.  While the plain sum fits 32 bits the
sum is exact and the result is the checksum of the half words in network order.
A checksum filled in where it was left zero makes the checksum zero.

## Key results

- `netChecksumUpdate_append`: the sum goes on behind an even number of bytes.
- `netChecksum_rfc1071`: the checksum of up to 131070 bytes.
- `netChecksum_fill`: a packet with its checksum filled in passes the test.
-/

namespace MishaOS

open OnesSum

/-! ## The sum -/

theorem netChecksumUpdate_toNat (l : List Byte) (sum : BitVec 32)
    (h : sum.toNat + wordSum l < 4294967296) :
    (netChecksumUpdate l sum).toNat = sum.toNat + wordSum l := by
  -- two bytes a round, and at the end perhaps one
  induction l, sum using netChecksumUpdate.induct with
  | case1 a b l sum ih =>
    have hword : ((b ++ a).zeroExtend 32).toNat = a.toNat + 256 * b.toNat := by
      have hlt := (b ++ a).isLt
      rw [BitVec.toNat_setWidth, Nat.mod_eq_of_lt (by omega), append_toNat]
      omega
    rw [wordSum] at h
    have hadd : (sum + (b ++ a).zeroExtend 32).toNat = sum.toNat + (a.toNat + 256 * b.toNat) := by
      rw [BitVec.toNat_add, hword]
      omega
    rw [netChecksumUpdate, ih (by omega), hadd, wordSum]
    omega
  | case2 a sum =>
    have ha := a.isLt
    rw [wordSum] at h
    rw [netChecksumUpdate, wordSum, BitVec.toNat_add, BitVec.toNat_setWidth]
    omega
  | case3 sum => simp [netChecksumUpdate, wordSum]

/-- Behind an even number of bytes the sum goes on as if it had not been stopped. -/
theorem netChecksumUpdate_append (front back : List Byte) (sum : BitVec 32)
    (heven : front.length % 2 = 0) :
    netChecksumUpdate (front ++ back) sum =
      netChecksumUpdate back (netChecksumUpdate front sum) := by
  induction front, sum using netChecksumUpdate.induct with
  | case1 a b l sum ih =>
    have hl : l.length % 2 = 0 := by
      simp only [List.length_cons] at heven
      omega
    rw [List.cons_append, List.cons_append, netChecksumUpdate, netChecksumUpdate, ih hl]
  | case2 a sum => simp at heven
  | case3 sum => simp [netChecksumUpdate]

/-- The sum of up to 131070 bytes does not overflow. -/
theorem netChecksumUpdate_zero {l : List Byte} (h : l.length ≤ 131070) :
    (netChecksumUpdate l 0).toNat = wordSum l := by
  have hle := two_mul_wordSum_le l
  rw [netChecksumUpdate_toNat l 0 (by simp; omega)]
  simp

/-! ## The result -/

theorem netChecksumFinal_eq (sum : BitVec 32) :
    netChecksumFinal sum = swapBytes (BitVec.ofNat 16 (65535 - fold sum.toNat)) := by
  have hand : (sum &&& 0xFFFF).toNat = sum.toNat % 65536 := by
    rw [BitVec.toNat_and]
    exact Nat.and_two_pow_sub_one_eq_mod sum.toNat 16
  have hsum := sum.isLt
  unfold netChecksumFinal swapBytes
  dsimp only
  -- the two additions of the source, each with its bound
  have hs : ((sum &&& (0xFFFF : BitVec 32)) + (sum >>> 16)).toNat =
      sum.toNat % 65536 + sum.toNat / 65536 := by
    rw [BitVec.toNat_add, hand, BitVec.toNat_ushiftRight, Nat.shiftRight_eq_div_pow]
    omega
  generalize (sum &&& (0xFFFF : BitVec 32)) + (sum >>> 16) = s at hs ⊢
  have hnot : ~~~((s + (s >>> 16)).setWidth 16) = BitVec.ofNat 16 (65535 - fold sum.toNat) := by
    apply BitVec.eq_of_toNat_eq
    unfold fold
    rw [BitVec.toNat_not, BitVec.toNat_setWidth, BitVec.toNat_add, BitVec.toNat_ushiftRight,
      Nat.shiftRight_eq_div_pow, BitVec.toNat_ofNat, hs]
    dsimp only
    omega
  rw [hnot]

theorem netChecksum_eq {l : List Byte} (h : l.length ≤ 131070) :
    netChecksum l = swapBytes (BitVec.ofNat 16 (65535 - ones (wordSum l))) := by
  have hle := two_mul_wordSum_le l
  rw [netChecksum, netChecksumFinal_eq, netChecksumUpdate_zero h, fold_eq_ones (by omega)]

/-- Complement and swap of the sum in memory order: the complement of the sum in network order. -/
theorem netChecksum_eq_internetChecksum {l : List Byte} (h : l.length ≤ 131070) :
    netChecksum l = internetChecksum l := by
  have hle := ones_le (wordSum l)
  apply BitVec.eq_of_toNat_eq
  rw [netChecksum_eq h, swapBytes_toNat, BitVec.toNat_ofNat, internetChecksum,
    BitVec.toNat_not, onesSum_toNat]
  omega

/-- `net_checksum` of up to 131070 bytes is the Internet checksum, no step of the sum
    overflows, and the sum may be taken in two parts, the first of even length. -/
theorem netChecksum_rfc1071 (data : List Byte) (h : data.length ≤ 131070) :
    netChecksum data = internetChecksum data ∧
    (netChecksumUpdate data 0).toNat = wordSum data ∧
    ∀ front back : List Byte, data = front ++ back → front.length % 2 = 0 →
      (netChecksumUpdate front 0).toNat = wordSum front ∧
      netChecksumUpdate back (netChecksumUpdate front 0) = netChecksumUpdate data 0 ∧
      netChecksumFinal (netChecksumUpdate back (netChecksumUpdate front 0)) = netChecksum data := by
  refine ⟨netChecksum_eq_internetChecksum h, netChecksumUpdate_zero h, ?_⟩
  intro front back hdata heven
  have hfront : front.length ≤ 131070 := by
    have hlength := congrArg List.length hdata
    rw [List.length_append] at hlength
    omega
  have hparts : netChecksumUpdate back (netChecksumUpdate front 0) = netChecksumUpdate data 0 := by
    rw [hdata, netChecksumUpdate_append front back 0 heven]
  rw [hparts]
  exact ⟨netChecksumUpdate_zero hfront, rfl, rfl⟩

/-- Five bytes: a carry comes in again and the last byte is padded. -/
theorem netChecksum_rfc1071_odd :
    internetChecksum [0xFF, 0xFF, 0x12, 0x34, 0x56] = 0x97CB ∧
    netChecksum [0xFF, 0xFF, 0x12, 0x34, 0x56] = internetChecksum [0xFF, 0xFF, 0x12, 0x34, 0x56] :=
  ⟨by decide, (netChecksum_rfc1071 [0xFF, 0xFF, 0x12, 0x34, 0x56] (by decide)).1⟩

/-- The checksum, filled in where it was left zero, makes the checksum zero. -/
theorem netChecksum_fill (front back : List Byte) (heven : front.length % 2 = 0)
    (h : front.length + back.length ≤ 131068) :
    netChecksum (front ++ be16 (netChecksum (front ++ [0, 0] ++ back)) ++ back) = 0 := by
  have hwidth : ∀ x y : Byte, (front ++ [x, y] ++ back).length ≤ 131070 := by
    intro x y
    simp only [List.length_append, List.length_cons, List.length_nil]
    omega
  have hsum : ∀ x y : Byte, wordSum (front ++ [x, y] ++ back) =
      wordSum front + wordSum back + (x.toNat + 256 * y.toNat) := by
    intro x y
    rw [List.append_assoc, wordSum_append heven, List.cons_append, List.cons_append,
      List.nil_append, wordSum]
    omega
  -- the sum without the checksum
  have hzero : wordSum (front ++ [0, 0] ++ back) = wordSum front + wordSum back := by
    rw [hsum]
    simp
  rw [netChecksum_eq (hwidth 0 0), hzero, be16_swapBytes, netChecksum_eq (hwidth _ _), hsum,
    ← toNat_eq_bytes, BitVec.toNat_ofNat, Nat.mod_eq_of_lt (by omega), ones_add_compl]
  rfl

end MishaOS
