import MishaOS.ForStd.Bytes
import MishaOS.Native.Strstr

/-!
# The search finds the first occurrence

A comparison that runs into the end of the first string has a second string that
is longer than what is left, so no later position has room for it.  Up to there
every position that is left behind has a difference.

## Key results

- `strstrCompare_eq`: the comparison in memory is that of the strings.
- `strstrLoop_spec`: the first occurrence from a position on.
- `strstr_first`: the result, and that nothing behind the null bytes is read.
-/

namespace MishaOS

open Ring Bytes

variable {mem : Nat → Byte} {s t : List Byte} {c d : Byte} {a b p i k fuel rounds : Nat}

/-! ## Strings -/

/-- How the comparison of two strings ends. -/
def compareText : List Byte → List Byte → Comparison
  | _, [] => .full
  | [], _ :: _ => .short
  | c :: s, d :: t => if c = d then compareText s t else .differs

theorem compareText_full (s t : List Byte) : compareText s t = .full ↔ t <+: s := by
  induction s, t using compareText.induct with
  | case1 s => simp [compareText]
  | case2 d t => simp [compareText]
  | case3 c s t ih => simp [compareText, ih]
  | case4 c s d t hne => simp [compareText, hne, Ne.symm hne]

/-- The second string is longer. -/
theorem lt_of_compareText_short (h : compareText s t = .short) : s.length < t.length := by
  induction s, t using compareText.induct with
  | case1 s => simp [compareText] at h
  | case2 d t => simp
  | case3 c s t ih =>
    rw [compareText, if_pos rfl] at h
    simpa using ih h
  | case4 c s d t hne => simp [compareText, hne] at h

/-- `t` occurs in `s` at `k`, and nowhere before. -/
def FirstAt (t s : List Byte) (k : Nat) : Prop := t <+: s.drop k ∧ ∀ j < k, ¬ t <+: s.drop j

/-- Nothing at the first position: the first occurrence is that in the rest. -/
theorem FirstAt.succ (h : FirstAt t s k) (hnot : ¬ t <+: c :: s) : FirstAt t (c :: s) (k + 1) := by
  refine ⟨h.1, ?_⟩
  intro j hj
  cases j with
  | zero => exact hnot
  | succ j => exact h.2 j (by omega)

/-! ## The comparison -/

/-- What is read of a string at `p`, its null byte included. -/
def Within (p : Nat) (s : List Byte) (x : Nat) : Prop := p ≤ x ∧ x ≤ p + s.length

/-- What is read of the rest of a string is read of the string. -/
theorem Within.cons {x : Nat} (h : Within (p + 1) s x) : Within p (c :: s) x := by
  simp only [Within, List.length_cons] at h ⊢
  omega

/-- The comparison in memory ends as that of the strings, before their ends are passed. -/
theorem strstrCompare_eq (hs : At mem (p + i) (s ++ [0])) (ht : At mem (b + i) (t ++ [0]))
    (hs0 : 0 ∉ s) (ht0 : 0 ∉ t)
    (hrounds : t.length < rounds) :
    ∃ seen, strstrCompare mem p b rounds i = some (compareText s t, seen) ∧
      ∀ x ∈ seen, Within (p + i) s x ∨ Within (b + i) t x := by
  -- byte by byte; each round compares one of each string
  induction rounds generalizing s t i with
  | zero => omega
  | succ rounds ih =>
    rw [strstrCompare]
    cases t with
    | nil =>
      have hb : mem (b + i) = 0 := (at_cons.mp ht).1
      refine ⟨[b + i], ?_, ?_⟩
      · rw [if_pos hb, compareText]
      · simp [Within]
    | cons d t =>
      have hb : mem (b + i) = d := (at_cons.mp ht).1
      have hd : d ≠ 0 := fun hd => ht0 (hd ▸ List.mem_cons_self)
      rw [if_neg (by rw [hb]; exact hd)]
      -- the first string ends here, or its byte is compared
      cases s with
      | nil =>
        have ha : mem (p + i) = 0 := (at_cons.mp hs).1
        refine ⟨[b + i, p + i], ?_, ?_⟩
        · rw [if_pos ha, compareText]
        · simp [Within]
      | cons c s =>
        have ha : mem (p + i) = c := (at_cons.mp hs).1
        have hc : c ≠ 0 := fun hc => hs0 (hc ▸ List.mem_cons_self)
        have hhere : Within (p + i) (c :: s) (p + i) ∧ Within (b + i) (d :: t) (b + i) := by
          simp [Within]
        rw [if_neg (by rw [ha]; exact hc), ha, hb, compareText]
        by_cases hcd : c = d
        · obtain ⟨seen, heq, hseen⟩ := ih (s := s) (t := t) (i := i + 1) (at_cons.mp hs).2
            (at_cons.mp ht).2
            (fun h => hs0 (List.mem_cons_of_mem c h)) (fun h => ht0 (List.mem_cons_of_mem d h))
            (by rw [List.length_cons] at hrounds; omega)
          refine ⟨(b + i) :: (p + i) :: seen, ?_, ?_⟩
          · rw [if_neg (not_not.mpr hcd), if_pos hcd, heq]
            rfl
          · intro x hx
            rcases List.mem_cons.mp hx with rfl | hx
            · exact .inr hhere.2
            · rcases List.mem_cons.mp hx with rfl | hx
              · exact .inl hhere.1
              · exact (hseen x hx).imp Within.cons Within.cons
        · refine ⟨[b + i, p + i], ?_, ?_⟩
          · rw [if_pos hcd, if_neg hcd]
          · intro x hx
            rcases List.mem_cons.mp hx with rfl | hx
            · exact .inr hhere.2
            · rw [List.mem_singleton.mp hx]
              exact .inl hhere.1

/-! ## The search -/

/-- The result of a search from `p` on, where `s` is: the first occurrence, or none. -/
def StrstrResult (p : Nat) (s t : List Byte) (result : Option Nat) : Prop :=
  (∃ k, FirstAt t s k ∧ result = some (p + k)) ∨ (¬ t <:+: s ∧ result = none)

/-- The search from a position on. -/
theorem strstrLoop_spec (hs : At mem p (s ++ [0])) (ht : At mem b (t ++ [0]))
    (hs0 : 0 ∉ s) (ht0 : 0 ∉ t)
    (hrounds : t.length < rounds) (hfuel : s.length < fuel) :
    ∃ result seen, strstrLoop mem b rounds fuel p = some (result, seen) ∧
      StrstrResult p s t result ∧
      ∀ x ∈ seen, Within p s x ∨ Within b t x := by
  induction fuel generalizing s p with
  | zero => omega
  | succ fuel ih =>
    obtain ⟨seen, heq, hseen⟩ := strstrCompare_eq (i := 0) hs ht hs0 ht0 hrounds
    rw [Nat.add_zero, Nat.add_zero] at hseen
    rw [strstrLoop, heq]
    cases houtcome : compareText s t with
    | full =>
      refine ⟨some p, seen, rfl, .inl ⟨0, ⟨(compareText_full s t).mp houtcome, ?_⟩, rfl⟩, hseen⟩
      intro j hj
      omega
    | short =>
      -- no position further on has room for `t`
      refine ⟨none, seen, rfl, .inr ⟨?_, rfl⟩, hseen⟩
      intro hinfix
      have hlt := lt_of_compareText_short houtcome
      have hle := hinfix.length_le
      omega
    | differs =>
      have hnot : ¬ t <+: s := by
        intro hpre
        rw [(compareText_full s t).mpr hpre] at houtcome
        cases houtcome
      cases s with
      | nil => cases t <;> simp [compareText] at houtcome
      | cons c s =>
        rw [List.length_cons] at hfuel
        obtain ⟨result, seen', hloop, hfound, hseen'⟩ := ih (p := p + 1) (at_cons.mp hs).2
          (fun h => hs0 (List.mem_cons_of_mem c h)) (by omega)
        refine ⟨result, seen ++ seen', ?_, ?_, ?_⟩
        · show (strstrLoop mem b rounds fuel (p + 1)).map _ = _
          rw [hloop]
          rfl
        · rcases hfound with ⟨k, hk, hresult⟩ | ⟨hnone, hresult⟩
          · refine .inl ⟨k + 1, hk.succ hnot, ?_⟩
            rw [hresult, Nat.add_assoc, Nat.add_comm 1]
          · refine .inr ⟨?_, hresult⟩
            rw [List.infix_cons_iff, not_or]
            exact ⟨hnot, hnone⟩
        · intro x hx
          rcases List.mem_append.mp hx with hx | hx
          · exact hseen x hx
          · exact (hseen' x hx).imp_left Within.cons

/-- `strstr` of two strings ends, reads nothing behind their null bytes, and returns the first
    position of `a` at which `b` occurs, or a null pointer if there is none. -/
theorem strstr_first (mem : Nat → Byte) (a b : Nat) (s t : List Byte) (hs : At mem a (s ++ [0]))
    (ht : At mem b (t ++ [0])) (hs0 : 0 ∉ s) (ht0 : 0 ∉ t) (fuel : Nat)
    (hfuel : s.length + t.length < fuel) :
    ∃ result seen, strstr mem a b fuel = some (result, seen) ∧
      (∀ x ∈ seen, a ≤ x ∧ x ≤ a + s.length ∨ b ≤ x ∧ x ≤ b + t.length) ∧
      ((∃ k, (t <+: s.drop k ∧ ∀ j < k, ¬ t <+: s.drop j) ∧ result = some (a + k)) ∨
        (¬ t <:+: s ∧ result = none)) := by
  obtain ⟨result, seen, heq, hfound, hseen⟩ := strstrLoop_spec hs ht hs0 ht0
    (show t.length < fuel by omega) (show s.length < fuel by omega)
  exact ⟨result, seen, heq, hseen, hfound⟩

/-- `"aab"` at `0x1000` and `"ab"` at `0x2000`. -/
def twoStrings : Nat → Byte :=
  blit (blit (fun _ => 0) 0x1000 [0x61, 0x61, 0x62, 0]) 0x2000 [0x61, 0x62, 0]

/-- `"ab"` in `"aab"`: the first comparison has a difference at its second character. -/
theorem strstr_first_overlap :
    ∃ seen, strstr twoStrings 0x1000 0x2000 6 = some (some 0x1001, seen) ∧
      ∀ x ∈ seen, 0x1000 ≤ x ∧ x ≤ 0x1003 ∨ 0x2000 ≤ x ∧ x ≤ 0x2002 := by
  obtain ⟨result, seen, heq, hseen, -⟩ := strstr_first twoStrings 0x1000 0x2000 [0x61, 0x61, 0x62]
    [0x61, 0x62] (streq_iff.mp (by decide)) (streq_iff.mp (by decide)) (by decide) (by decide)
    6 (by decide)
  have hresult : (strstr twoStrings 0x1000 0x2000 6).map Prod.fst = some (some 0x1001) := by
    decide +kernel
  rw [heq, Option.map_some, Option.some.injEq] at hresult
  rw [heq, ← hresult]
  exact ⟨seen, rfl, hseen⟩

end MishaOS
