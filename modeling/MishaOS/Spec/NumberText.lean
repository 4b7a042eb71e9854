import MishaOS.Native.Stdlib

/-!
# The text of a number

## Key results

- `memrev_eq`: the exchange from both ends reverses the buffer.
- `itoa_eq`: `itoa` writes the sign and the numeral.
-/

namespace MishaOS

open Numeral (numeral digitsLoop)

variable {l buf : List Byte} {target : Int} {radix n k : Nat}

/-- The first `k` cells from both ends have been exchanged. -/
structure Exchanged (l : List Byte) (k : Nat) (buf : List Byte) : Prop where
  length_eq : buf.length = l.length
  cell : ∀ j < l.length, buf[j]? = if j < k ∨ l.length ≤ j + k then l[l.length - 1 - j]? else l[j]?

theorem Exchanged.start (l : List Byte) : Exchanged l 0 l where
  length_eq := rfl
  cell j hj := by rw [if_neg (by omega)]

/-- One round of the loop of `memrev`. -/
theorem Exchanged.step (h : Exchanged l k buf) (hk : k < l.length / 2) :
    Exchanged l (k + 1) ((buf.set k (buf.getD (buf.length - k - 1) 0)).set
      (buf.length - k - 1) (buf.getD k 0)) := by
  have hfirst : buf.getD k 0 = l.getD k 0 := by
    rw [List.getD_eq_getElem?_getD, h.cell k (by omega), if_neg (by omega),
      List.getD_eq_getElem?_getD]
  have hlast : buf.getD (buf.length - k - 1) 0 = l.getD (l.length - k - 1) 0 := by
    rw [List.getD_eq_getElem?_getD, h.length_eq, h.cell _ (by omega), if_neg (by omega),
      List.getD_eq_getElem?_getD]
  -- only the cells `k` and its mirror image are written
  refine ⟨?_, fun j hj => ?_⟩
  · rw [List.length_set, List.length_set, h.length_eq]
  · rw [List.getElem?_set, List.length_set, List.getElem?_set, hfirst, hlast, h.length_eq]
    by_cases hjlast : l.length - k - 1 = j
    · rw [if_pos hjlast, if_pos (by omega), if_pos (by omega), show l.length - 1 - j = k by omega,
        List.getD_eq_getElem?_getD, List.getElem?_eq_getElem (by omega)]
      rfl
    · rw [if_neg hjlast]
      by_cases hjfirst : k = j
      · rw [if_pos hjfirst, if_pos (by omega), if_pos (by omega),
          show l.length - 1 - j = l.length - k - 1 by omega,
          List.getD_eq_getElem?_getD, List.getElem?_eq_getElem (by omega)]
        rfl
      · rw [if_neg hjfirst, h.cell j hj]
        split
        · rw [if_pos (by omega)]
        · rw [if_neg (by omega)]

theorem exchanged_foldl (hk : k ≤ l.length / 2) : Exchanged l k ((List.range k).foldl (fun buf i =>
    let x := buf.getD i 0
    let buf := buf.set i (buf.getD (buf.length - i - 1) 0)
    buf.set (buf.length - i - 1) x) l) := by
  induction k with
  | zero => exact .start l
  | succ k ih =>
    rw [List.range_succ, List.foldl_append, List.foldl_cons, List.foldl_nil]
    have hstep := (ih (by omega)).step (by omega)
    dsimp only
    rw [List.length_set]
    exact hstep

theorem memrev_eq (l : List Byte) : memrev l = l.reverse := by
  have hdone := exchanged_foldl (l := l) (Nat.le_refl _)
  refine List.ext_getElem? fun j => ?_
  by_cases hj : j < l.length
  · rw [memrev, hdone.cell j hj, List.getElem?_reverse hj]
    split
    · rfl
    · -- the middle of an odd number of cells
      rw [show l.length - 1 - j = j by omega]
  · rw [memrev, List.getElem?_eq_none (by rw [hdone.length_eq]; omega),
      List.getElem?_eq_none (by rw [List.length_reverse]; omega)]

/-- The characters of a numeral. -/
def numeralText (radix n : Nat) : List Byte := (numeral radix n).map fun d => alphabet.getD d 0

/-- 63 digits are enough in every radix. -/
theorem natAbs_lt_pow (hlo : 2 ≤ radix) (hge : -9223372036854775808 < target)
    (hlt : target < 9223372036854775808) :
    target.natAbs < radix ^ 63 := by
  calc target.natAbs < 2 ^ 63 := by omega
    _ ≤ radix ^ 63 := Nat.pow_le_pow_left hlo 63

/-- `itoa` writes the sign of a negative number, and its numeral. -/
theorem itoa_eq (hlo : 2 ≤ radix) (hhi : radix ≤ 36) (hge : -9223372036854775808 < target)
    (hlt : target < 9223372036854775808) :
    itoa target radix =
      some ((if target < 0 then ascii "-" else []) ++ numeralText radix target.natAbs) := by
  have hpow := natAbs_lt_pow hlo hge hlt
  rw [itoa, if_neg (by omega), if_neg (by omega), Numeral.digitsLoop_eq (by omega) hpow,
    List.map_reverse]
  dsimp only
  rw [memrev_eq]
  split
  · rw [List.reverse_append, List.reverse_reverse]
    rfl
  · rw [List.reverse_reverse]
    rfl

end MishaOS
