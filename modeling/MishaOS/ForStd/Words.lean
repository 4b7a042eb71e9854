import MishaOS.ForStd.Bytes

/-!
# Reading and writing words

A word is read from its four bytes, so it survives every store beside it.
-/

namespace Bytes

open Ring

variable {data data' : Nat → BitVec 8} {p q v : Nat} {l : List (BitVec 8)}

def write32 (data : Nat → BitVec 8) (p v : Nat) : Nat → BitVec 8 := blit data p (le32 v)

/-- The lower half is stored first. -/
def write64 (data : Nat → BitVec 8) (p v : Nat) : Nat → BitVec 8 :=
  write32 (write32 data p (v % 4294967296)) (p + 4) (v / 4294967296)

def word64 (data : Nat → BitVec 8) (p : Nat) : Nat :=
  word32 data p + 4294967296 * word32 data (p + 4)

/-- A word has 32 bits. -/
theorem word32_lt (data : Nat → BitVec 8) (p : Nat) : word32 data p < 4294967296 := by
  unfold word32
  omega

/-- It only depends on its four bytes. -/
theorem word32_congr (h : ∀ a, q ≤ a → a < q + 4 → data' a = data a) :
    word32 data' q = word32 data q := by
  unfold word32
  rw [h q (by omega) (by omega), h (q + 1) (by omega) (by omega), h (q + 2) (by omega) (by omega),
    h (q + 3) (by omega) (by omega)]

/-- A double word only depends on its eight bytes. -/
theorem word64_congr (h : ∀ a, q ≤ a → a < q + 8 → data' a = data a) :
    word64 data' q = word64 data q := by
  unfold word64
  rw [word32_congr fun a hle hlt => h a hle (by omega),
    word32_congr fun a hle hlt => h a (by omega) (by omega)]

/-- Other bytes stay. -/
theorem write32_outside {a : Nat} (ha : a < p ∨ p + 4 ≤ a) : write32 data p v a = data a :=
  blit_outside ha

/-- The store depends on the rest of the memory cell by cell. -/
theorem write32_congr {a : Nat} (h : data' a = data a) :
    write32 data' p v a = write32 data p v a := by
  unfold write32 blit
  rw [h]

/-- The word that has been written. -/
theorem word32_write32 (hv : v < 4294967296) : word32 (write32 data p v) p = v :=
  word32_le32 blit_at hv

/-- Words apart from it stay. -/
theorem word32_write32_apart (h : p + 4 ≤ q ∨ q + 4 ≤ p) :
    word32 (write32 data p v) q = word32 data q :=
  word32_congr fun a hle hlt => write32_outside (by omega)

/-- A double word has 64 bits. -/
theorem word64_lt (data : Nat → BitVec 8) (p : Nat) : word64 data p < 18446744073709551616 := by
  have hlow := word32_lt data p
  have hhigh := word32_lt data (p + 4)
  unfold word64
  omega

/-- Other bytes stay. -/
theorem write64_outside {a : Nat} (ha : a < p ∨ p + 8 ≤ a) : write64 data p v a = data a := by
  unfold write64
  rw [write32_outside (by omega), write32_outside (by omega)]

/-- The double word that has been written. -/
theorem word64_write64 (hv : v < 18446744073709551616) : word64 (write64 data p v) p = v := by
  unfold word64 write64
  rw [word32_write32_apart (by omega), word32_write32 (by omega), word32_write32 (by omega)]
  omega

/-- Words apart from it stay. -/
theorem word32_write64_apart (h : p + 8 ≤ q ∨ q + 4 ≤ p) :
    word32 (write64 data p v) q = word32 data q :=
  word32_congr fun a hle hlt => write64_outside (by omega)

/-- Double words apart from a word stay. -/
theorem word64_write32_apart (h : p + 4 ≤ q ∨ q + 8 ≤ p) :
    word64 (write32 data p v) q = word64 data q :=
  word64_congr fun a hle hlt => write32_outside (by omega)

/-- So do double words apart from a double word. -/
theorem word64_write64_apart (h : p + 8 ≤ q ∨ q + 8 ≤ p) :
    word64 (write64 data p v) q = word64 data q :=
  word64_congr fun a hle hlt => write64_outside (by omega)

end Bytes
