import Mathlib.Tactic.IntervalCases
import MishaOS.ForStd.OnesSum
import MishaOS.Native.Addr

/-!
# Byte order

Half words and addresses are read back from their bytes, and a half word whose
bytes are exchanged is the one of the other byte order.
-/

namespace MishaOS

open OnesSum

@[simp] theorem length_be16 (x : BitVec 16) : (be16 x).length = 2 := rfl

@[simp] theorem Ipv4Addr.length_toBytes (x : Ipv4Addr) : x.toBytes.length = 4 := rfl

theorem readBe16_be16 (x : BitVec 16) (l : List Byte) : readBe16 (be16 x ++ l) = x := by
  show x.extractLsb' 8 8 ++ x.extractLsb' 0 8 = x
  ext i hi
  simp
  grind

theorem Ipv4Addr.read_toBytes (x : Ipv4Addr) (l : List Byte) :
    Ipv4Addr.read (x.toBytes ++ l) = x := by
  obtain ⟨x⟩ := x
  show (⟨x.extractLsb' 24 8 ++ x.extractLsb' 16 8 ++ x.extractLsb' 8 8 ++ x.extractLsb' 0 8⟩ :
    Ipv4Addr) = ⟨x⟩
  congr 1
  ext i hi
  simp
  grind

/-! ## Exchanged bytes -/

/-- The bytes of a half word change places. -/
def swapBytes (n : BitVec 16) : BitVec 16 := ((n &&& 0x00FF) <<< 8) ||| ((n &&& 0xFF00) >>> 8)

theorem swapBytes_high (n : BitVec 16) : (swapBytes n).extractLsb' 8 8 = n.extractLsb' 0 8 := by
  unfold swapBytes
  ext i hi
  interval_cases i <;> simp

theorem swapBytes_low (n : BitVec 16) : (swapBytes n).extractLsb' 0 8 = n.extractLsb' 8 8 := by
  unfold swapBytes
  ext i hi
  interval_cases i <;> simp

/-- `net_swap16` of swapped bytes: the half word as it lies in memory. -/
theorem be16_swapBytes (n : BitVec 16) :
    be16 (swapBytes n) = [n.extractLsb' 0 8, n.extractLsb' 8 8] := by
  rw [be16, swapBytes_high, swapBytes_low]

/-- A half word is its two bytes. -/
theorem toNat_eq_bytes (n : BitVec 16) :
    n.toNat = (n.extractLsb' 0 8).toNat + 256 * (n.extractLsb' 8 8).toNat := by
  have hn := n.isLt
  rw [BitVec.extractLsb'_toNat, BitVec.extractLsb'_toNat, Nat.shiftRight_zero,
    Nat.shiftRight_eq_div_pow]
  omega

theorem swapBytes_toNat (n : BitVec 16) :
    (swapBytes n).toNat = n.toNat % 256 * 256 + n.toNat / 256 := by
  have hbytes := toNat_eq_bytes n
  have hlow := (n.extractLsb' 0 8).isLt
  rw [toNat_eq_bytes (swapBytes n), swapBytes_high, swapBytes_low]
  omega

end MishaOS
