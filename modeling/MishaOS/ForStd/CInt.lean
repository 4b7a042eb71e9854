/-!
# Arithmetic of `int`

The operations of C on `int` are computed exactly and then brought back to 32
bits: `checked` has no result where the exact one does not fit, `wrapped` keeps
the low bits, which is what the machine instructions do.

## Key results

- `checked_eq_some`: when an operation does not overflow.
- `wrapped_add_left`, `wrapped_sub_right` and the like: the operations before the last one
  need not be wrapped.
-/

namespace CInt

/-- A result of `int` arithmetic; `none` is an overflow. -/
def checked (n : Int) : Option Int := if -2147483648 ≤ n ∧ n < 2147483648 then some n else none

/-- The low 32 bits, as a signed number. -/
def wrapped (n : Int) : Int := (n + 2147483648) % 4294967296 - 2147483648

/-- A result of `int64_t` arithmetic; `none` is an overflow. -/
def checked64 (n : Int) : Option Int :=
  if -9223372036854775808 ≤ n ∧ n < 9223372036854775808 then some n else none

variable {n m : Int}

/-- An operation has a result exactly if the exact one fits. -/
theorem checked_eq_some : checked n = some m ↔ n = m ∧ -2147483648 ≤ n ∧ n < 2147483648 := by
  unfold checked
  split
  · rename_i h
    rw [Option.some.injEq, and_iff_left h]
  · rename_i h
    constructor
    · intro hm
      simp at hm
    · intro ⟨_, hle⟩
      exact absurd hle h

/-- An operation whose exact result fits has it. -/
theorem checked_of_le (hle : -2147483648 ≤ n) (hlt : n < 2147483648) : checked n = some n :=
  checked_eq_some.mpr ⟨rfl, hle, hlt⟩

/-- An operation whose exact result is too large has none. -/
theorem checked_overflow (h : 2147483648 ≤ n) : checked n = none :=
  if_neg fun ⟨_, hlt⟩ => Int.not_lt.mpr h hlt

/-- A number that fits keeps its value. -/
theorem wrapped_of_le (hle : -2147483648 ≤ n) (hlt : n < 2147483648) : wrapped n = n := by
  unfold wrapped
  omega

/-- The same for 64 bits. -/
theorem checked64_of_le (hle : -9223372036854775808 ≤ n) (hlt : n < 9223372036854775808) :
    checked64 n = some n :=
  if_pos ⟨hle, hlt⟩

/-- The left summand need not be wrapped. -/
@[simp] theorem wrapped_add_left : wrapped (wrapped n + m) = wrapped (n + m) := by
  unfold wrapped
  omega

/-- Nor the right one. -/
@[simp] theorem wrapped_add_right : wrapped (n + wrapped m) = wrapped (n + m) := by
  unfold wrapped
  omega

/-- The same for a difference. -/
@[simp] theorem wrapped_sub_left : wrapped (wrapped n - m) = wrapped (n - m) := by
  unfold wrapped
  omega

/-- The same for what is taken away. -/
@[simp] theorem wrapped_sub_right : wrapped (n - wrapped m) = wrapped (n - m) := by
  unfold wrapped
  omega

/-- A result that is equal to `m` differs from it by whole turns. -/
theorem wrapped_eq (h : wrapped n = m) : (n - m) % 4294967296 = 0 := by
  unfold wrapped at h
  omega

end CInt
