import Mathlib.Data.BitVec
import Mathlib.Algebra.Group.Basic

/-!
# Serial numbers

Positions of a stream are numbered modulo `2 ^ w` from an arbitrary first
number.  A signed difference of two numbers is the difference of the
positions as long as these are less than half the range apart.
-/

namespace Serial

variable {w : Nat} {base : BitVec w} {a b : Nat}

/-- The number of position `a`. -/
def num (base : BitVec w) (a : Nat) : BitVec w := base + BitVec.ofNat w a

theorem num_add (base : BitVec w) (a b : Nat) :
    num base a + BitVec.ofNat w b = num base (a + b) := by
  simp only [num, BitVec.ofNat_add, BitVec.add_assoc]

@[simp] theorem num_zero (base : BitVec w) : num base 0 = base := by simp [num]

theorem num_sub_toInt_bmod (base : BitVec w) (a b : Nat) :
    (num base a - num base b).toInt = ((a : Int) - b).bmod (2 ^ w) := by
  have hcancel : num base a - num base b = BitVec.ofNat w a - BitVec.ofNat w b :=
    add_sub_add_left_eq_sub _ _ base
  rw [hcancel, BitVec.toInt_sub, BitVec.toInt_ofNat', BitVec.toInt_ofNat']
  simp

/-- Signed differences are exact within half the range. -/
theorem num_sub_toInt (base : BitVec w) (hle : 2 * b ≤ 2 * a + 2 ^ w)
    (hlt : 2 * a < 2 * b + 2 ^ w) :
    (num base a - num base b).toInt = (a : Int) - b := by
  rw [num_sub_toInt_bmod]
  apply Int.bmod_eq_of_le_mul_two
  · have : ((2 * b : Nat) : Int) ≤ (2 * a + 2 ^ w : Nat) := Int.ofNat_le.mpr hle
    push_cast at this ⊢
    omega
  · have : ((2 * a : Nat) : Int) < (2 * b + 2 ^ w : Nat) := Int.ofNat_lt.mpr hlt
    push_cast at this ⊢
    omega

/-- Forward differences are exact within the range. -/
theorem num_sub_toNat (base : BitVec w) (hle : b ≤ a) (hlt : a < b + 2 ^ w) :
    (num base a - num base b).toNat = a - b := by
  obtain ⟨k, rfl⟩ := Nat.exists_eq_add_of_le hle
  have hsub : num base (b + k) - num base b = BitVec.ofNat w k := by
    rw [← num_add, BitVec.add_comm, BitVec.add_sub_cancel]
  rw [hsub, BitVec.toNat_ofNat, Nat.mod_eq_of_lt (by omega)]
  omega

/-- Every number is that of its distance. -/
theorem num_toNat_sub (base n : BitVec w) : num base (n - base).toNat = n := by
  rw [num, BitVec.ofNat_toNat, BitVec.setWidth_eq, add_sub_cancel]

theorem num_sub_base_toNat (base : BitVec w) (hlt : a < 2 ^ w) : (num base a - base).toNat = a := by
  have hnat := num_sub_toNat base (Nat.zero_le a) (by omega)
  rwa [num_zero, Nat.sub_zero] at hnat

/-- Positions less than the range apart have different numbers. -/
theorem num_inj (base : BitVec w) (hle : b ≤ a) (hlt : a < b + 2 ^ w)
    (h : num base a = num base b) : a = b := by
  have hnat := num_sub_toNat base hle hlt
  rw [h, BitVec.sub_self] at hnat
  simp at hnat
  omega

end Serial
