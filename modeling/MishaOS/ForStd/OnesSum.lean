import Mathlib.Data.List.Basic

/-!
# Ones' complement sums

The sum of the half words of a list of bytes, with the carries added back.
Numbers that differ by a multiple of all ones have the same such sum, and taking
the bytes of every half word in the other order multiplies by 256: so the sum may
be taken in memory order and its bytes swapped at the end.  The complement of a
sum, written anywhere at a half word, turns the sum into all ones: that is what a
receiver tests.
-/

namespace OnesSum

variable {l l' : List (BitVec 8)} {n m : Nat}

/-- The sum of the half words, the first byte of each the lower one; a last odd
    byte is a half word of its own. -/
def wordSum : List (BitVec 8) → Nat
  | a :: b :: l => a.toNat + 256 * b.toNat + wordSum l
  | [a] => a.toNat
  | [] => 0

/-- What comes behind an even number of bytes is added. -/
theorem wordSum_append (h : l.length % 2 = 0) : wordSum (l ++ l') = wordSum l + wordSum l' := by
  induction l using wordSum.induct with
  | case1 a b l ih =>
    have hl : l.length % 2 = 0 := by
      simp only [List.length_cons] at h
      omega
    rw [List.cons_append, List.cons_append, wordSum, wordSum, ih hl]
    omega
  | case2 a => simp at h
  | case3 => simp [wordSum]

/-- At most all ones for every two bytes. -/
theorem two_mul_wordSum_le (l : List (BitVec 8)) : 2 * wordSum l ≤ 65535 * (l.length + 1) := by
  induction l using wordSum.induct with
  | case1 a b l ih =>
    have ha := a.isLt
    have hb := b.isLt
    rw [wordSum, List.length_cons, List.length_cons]
    omega
  | case2 a =>
    have ha := a.isLt
    rw [wordSum, List.length_singleton]
    omega
  | case3 => simp [wordSum]

/-! ## Numbers in ones' complement -/

/-- A number in 16 bits of ones' complement: the rest modulo all ones, and zero
    only for zero. -/
def ones (n : Nat) : Nat := if n = 0 then 0 else (n - 1) % 65535 + 1

/-- The sum has 16 bits. -/
theorem ones_le (n : Nat) : ones n ≤ 65535 := by
  unfold ones
  split <;> omega

/-- It is the same modulo 65535. -/
theorem ones_mod (n : Nat) : ones n % 65535 = n % 65535 := by
  unfold ones
  split <;> omega

/-- Only nothing sums up to nothing. -/
theorem ones_eq_zero : ones n = 0 ↔ n = 0 := by
  unfold ones
  split <;> omega

/-- The rest, and whether it is zero, decide the number. -/
theorem ones_congr (hmod : n % 65535 = m % 65535) (hzero : n = 0 ↔ m = 0) : ones n = ones m := by
  unfold ones
  split <;> split <;> omega

/-- 16 bits are summed up. -/
theorem ones_of_le (h : n ≤ 65535) : ones n = n := by
  unfold ones
  split <;> omega

/-- Parts may be summed up first. -/
theorem ones_add_left (n m : Nat) : ones (ones n + m) = ones (n + m) := by
  have hmod := ones_mod n
  have hzero := ones_eq_zero (n := n)
  apply ones_congr <;> omega

/-- So may factors. -/
theorem ones_mul_right (k n : Nat) : ones (k * ones n) = ones (k * n) := by
  apply ones_congr
  · rw [Nat.mul_mod, ones_mod, ← Nat.mul_mod]
  · rw [Nat.mul_eq_zero, Nat.mul_eq_zero, ones_eq_zero]

/-- A number and its complement are all ones. -/
theorem ones_add_compl (n : Nat) : ones (n + (65535 - ones n)) = 65535 := by
  rw [← ones_add_left, Nat.add_sub_cancel' (ones_le n), ones_of_le (Nat.le_refl _)]

/-- The carries are added back, twice. -/
def fold (n : Nat) : Nat :=
  let s := n % 65536 + n / 65536
  (s + s / 65536) % 65536

/-- Two folds are enough for every sum of 32 bits. -/
theorem fold_eq_ones (h : n < 4294967296) : fold n = ones n := by
  unfold fold
  dsimp only
  have hn : n = 65535 * (n / 65536) + (n % 65536 + n / 65536) := by omega
  have hs : n % 65536 + n / 65536 ≤ 131070 := by omega
  generalize n % 65536 + n / 65536 = s at hn hs ⊢
  by_cases hcarry : s < 65536
  · have hf : (s + s / 65536) % 65536 = s := by omega
    rw [hf, ← ones_of_le (n := s) (by omega)]
    apply ones_congr <;> omega
  · have hf : (s + s / 65536) % 65536 = s - 65535 := by omega
    rw [hf, ← ones_of_le (n := s - 65535) (by omega)]
    apply ones_congr <;> omega

/-- The bytes of a half word change places: the number times 256. -/
theorem swap_eq_ones (h : n ≤ 65535) : n % 256 * 256 + n / 256 = ones (256 * n) := by
  have hle : n % 256 * 256 + n / 256 ≤ 65535 := by omega
  rw [← ones_of_le hle]
  apply ones_congr <;> omega

/-! ## The checksum of RFC 1071 -/

/-- Addition in ones' complement: the carry comes in again at the lower end. -/
def onesAdd (a b : BitVec 16) : BitVec 16 :=
  if a.toNat + b.toNat < 65536 then a + b else a + b + 1

/-- The half words of a list of bytes, the first byte of each the higher one; a
    last odd byte has a zero behind it. -/
def bigWords : List (BitVec 8) → List (BitVec 16)
  | a :: b :: l => (a ++ b) :: bigWords l
  | [a] => [a ++ 0#8]
  | [] => []

/-- The ones' complement sum. -/
def onesSum (l : List (BitVec 16)) : BitVec 16 := l.foldl onesAdd 0

/-- The Internet checksum: the complement of the sum of the half words. -/
def internetChecksum (l : List (BitVec 8)) : BitVec 16 := ~~~ onesSum (bigWords l)

/-- Addition with the carry brought round. -/
theorem onesAdd_toNat (a b : BitVec 16) : (onesAdd a b).toNat = ones (a.toNat + b.toNat) := by
  have ha := a.isLt
  have hb := b.isLt
  unfold onesAdd ones
  split
  · rw [BitVec.toNat_add]
    split <;> omega
  · rw [BitVec.toNat_add, BitVec.toNat_add]
    show ((a.toNat + b.toNat) % 65536 + 1) % 65536 = _
    split <;> omega

/-- Two bytes are a word. -/
theorem append_toNat (a b : BitVec 8) : (a ++ b).toNat = 256 * a.toNat + b.toNat := by
  rw [BitVec.toNat_append, ← Nat.shiftLeft_add_eq_or_of_lt b.isLt, Nat.shiftLeft_eq]
  omega

/-- The sum of the half words of the other byte order. -/
theorem foldl_onesAdd_toNat (l : List (BitVec 8)) (acc : BitVec 16) :
    ((bigWords l).foldl onesAdd acc).toNat = ones (acc.toNat + 256 * wordSum l) := by
  induction l using wordSum.induct generalizing acc with
  | case1 a b l ih =>
    rw [bigWords, List.foldl_cons, ih, onesAdd_toNat, append_toNat, ones_add_left, wordSum]
    apply ones_congr <;> omega
  | case2 a =>
    rw [bigWords, List.foldl_cons, List.foldl_nil, onesAdd_toNat, append_toNat, wordSum]
    rfl
  | case3 =>
    have hacc := acc.isLt
    rw [bigWords, List.foldl_nil, wordSum, ones_of_le (by omega)]
    rfl

/-- The sum in memory order, its bytes swapped. -/
theorem onesSum_toNat (l : List (BitVec 8)) :
    (onesSum (bigWords l)).toNat = ones (wordSum l) % 256 * 256 + ones (wordSum l) / 256 := by
  have hfold := foldl_onesAdd_toNat l 0
  rw [show (0 : BitVec 16).toNat = 0 from rfl, Nat.zero_add] at hfold
  rw [onesSum, hfold, swap_eq_ones (ones_le _), ones_mul_right]

end OnesSum
