import Mathlib.Data.Nat.Digits.Lemmas

/-!
# Numerals

The digits of a number, highest first, zero having one.  A loop that divides by
the base and stops at zero finds them from the other end; it always finds one,
because it divides before it tests.

## Key results

- `digitsLoop_eq`: what the loop finds.
- `length_numeral_le`: a number below `base ^ k` has at most `k` digits.
-/

namespace Numeral

/-- The digits of `n` in `base`, highest first. -/
def numeral (base n : Nat) : List Nat := if n = 0 then [0] else (Nat.digits base n).reverse

/-- `do { digit(n % base); n /= base; } while (n)`, at most `fuel` times. -/
def digitsLoop (base : Nat) : Nat → Nat → List Nat
  | 0, _ => []
  | fuel + 1, n => n % base :: if n / base = 0 then [] else digitsLoop base fuel (n / base)

variable {base n k d : Nat}

theorem numeral_of_lt (h : n < base) : numeral base n = [n] := by
  unfold numeral
  split
  · rename_i hn
    rw [hn]
  · rename_i hn
    rw [Nat.digits_of_lt base n hn h]
    rfl

/-- The last digit and the digits in front of it. -/
theorem numeral_of_le (hbase : 1 < base) (h : base ≤ n) :
    numeral base n = numeral base (n / base) ++ [n % base] := by
  have hdiv : n / base ≠ 0 := (Nat.div_pos h (by omega)).ne'
  rw [numeral, if_neg (by omega), numeral, if_neg hdiv, Nat.digits_def' hbase (by omega),
    List.reverse_cons]

theorem digitsLoop_eq {fuel : Nat} (hbase : 1 < base) (h : n < base ^ (fuel + 1)) :
    digitsLoop base (fuel + 1) n = (numeral base n).reverse := by
  induction fuel generalizing n with
  | zero =>
    rw [pow_one] at h
    rw [digitsLoop, if_pos (Nat.div_eq_of_lt h), numeral_of_lt h, Nat.mod_eq_of_lt h]
    rfl
  | succ fuel ih =>
    rw [digitsLoop]
    by_cases hlt : n < base
    · rw [if_pos (Nat.div_eq_of_lt hlt), numeral_of_lt hlt, Nat.mod_eq_of_lt hlt]
      rfl
    · have hdiv : n / base ≠ 0 := (Nat.div_pos (Nat.not_lt.mp hlt) (by omega)).ne'
      have hpow : n / base < base ^ (fuel + 1) := Nat.div_lt_of_lt_mul (by rwa [← pow_succ'])
      rw [if_neg hdiv, ih hpow, numeral_of_le hbase (Nat.not_lt.mp hlt), List.reverse_append]
      rfl

theorem numeral_ne_nil : numeral base n ≠ [] := by
  unfold numeral
  split
  · simp
  · rename_i hn
    exact List.reverse_ne_nil_iff.mpr (Nat.digits_ne_nil_iff_ne_zero.mpr hn)

theorem length_numeral_pos : 0 < (numeral base n).length := List.length_pos_iff.mpr numeral_ne_nil

theorem lt_of_mem_numeral (hbase : 1 < base) (h : d ∈ numeral base n) : d < base := by
  unfold numeral at h
  split at h
  · rw [List.mem_singleton.mp h]
    omega
  · exact Nat.digits_lt_base hbase (List.mem_reverse.mp h)

/-- The number of digits. -/
theorem length_numeral_le (hbase : 1 < base) (hk : 0 < k) : (numeral base n).length ≤ k ↔
    n < base ^ k := by
  unfold numeral
  split
  · rename_i hn
    rw [hn, iff_true_right (Nat.pow_pos (by omega))]
    exact hk
  · rw [List.length_reverse, Nat.digits_length_le_iff hbase]

/-- A number with exactly `k + 1` digits. -/
theorem length_numeral_eq (hbase : 1 < base) (hge : base ^ k ≤ n) (hlt : n < base ^ (k + 1)) :
    (numeral base n).length = k + 1 := by
  have hle := (length_numeral_le hbase (Nat.succ_pos k)).mpr hlt
  by_contra hne
  rcases Nat.eq_zero_or_pos k with rfl | hk
  · have : 0 < (numeral base n).length := length_numeral_pos
    omega
  · have := (length_numeral_le (n := n) hbase hk).mp (by omega)
    omega

/-- No leading zero, except for zero. -/
theorem numeral_eq_cons (hn : 0 < n) : ∃ d ds, numeral base n = d :: ds ∧ d ≠ 0 := by
  have hne : Nat.digits base n ≠ [] := Nat.digits_ne_nil_iff_ne_zero.mpr (by omega)
  refine ⟨(Nat.digits base n).getLast hne, (Nat.digits base n).dropLast.reverse, ?_,
    Nat.getLast_digit_ne_zero base (by omega)⟩
  rw [numeral, if_neg (by omega)]
  conv_lhs => rw [← List.dropLast_append_getLast hne]
  rw [List.reverse_append]
  rfl

/-- The digits read from the front give the number. -/
theorem foldl_numeral (base n : Nat) : (numeral base n).foldl (fun n d => n * base + d) 0 = n := by
  unfold numeral
  split
  · rename_i hn
    rw [hn]
    simp
  · rw [List.foldl_reverse]
    calc (Nat.digits base n).foldr (fun d n => n * base + d) 0
        = Nat.ofDigits base (Nat.digits base n) := by
          rw [Nat.ofDigits_eq_foldr]
          congr 1
          funext d n
          rw [Nat.mul_comm, Nat.add_comm]
          rfl
      _ = n := Nat.ofDigits_digits base n

/-- The canonical numeral of `n`: digits below the base that give the number, none of them
    a leading zero. -/
structure IsNumeral (base n : Nat) (ds : List Nat) : Prop where
  ne_nil : ds ≠ []
  lt_base : ∀ d ∈ ds, d < base
  value : ds.foldl (fun n d => n * base + d) 0 = n
  head_ne_zero : ds ≠ [0] → ds.head? ≠ some 0

theorem isNumeral_numeral (hbase : 1 < base) (n : Nat) : IsNumeral base n (numeral base n) where
  ne_nil := numeral_ne_nil
  lt_base d hd := lt_of_mem_numeral hbase hd
  value := foldl_numeral base n
  head_ne_zero h := by
    rcases Nat.eq_zero_or_pos n with rfl | hn
    · exact absurd rfl h
    · obtain ⟨d, ds, hds, hd⟩ : ∃ d ds, numeral base n = d :: ds ∧ d ≠ 0 := numeral_eq_cons hn
      rw [hds, List.head?_cons, ne_eq, Option.some.injEq]
      exact hd

end Numeral
