import Mathlib

/-!
# Insertion behind the first greater element

`insertAfter p x l` puts `x` right behind the first element of `l` that meets
`p`, and at the end when there is none.  `place key n` inserts `0, 1, .., n - 1`
one after the other, each behind the first index with a greater key.  The
order this leaves does not need the list to be described: it is the order
`Before key`, which only looks at the keys and at the order of arrival.

## Key results

- `pairwise_place`: `place key n` is increasing for `Before key`.
-/

namespace InsertAfter

section List

variable {α : Type*}

/-- Insert `x` behind the first element that meets `p`, or at the end. -/
def insertAfter (p : α → Bool) (x : α) : List α → List α
  | [] => [x]
  | y :: ys => if p y then y :: x :: ys else y :: insertAfter p x ys

/-- Into an empty list. -/
@[simp]
theorem insertAfter_nil (p : α → Bool) (x : α) : insertAfter p x [] = [x] := rfl

/-- Behind the first element, or further on. -/
theorem insertAfter_cons (p : α → Bool) (x y : α) (ys : List α) :
    insertAfter p x (y :: ys) = if p y then y :: x :: ys else y :: insertAfter p x ys := rfl

/-- The element goes behind the last one of its kind. -/
theorem insertAfter_append_cons {p : α → Bool} {x a : α} {l k : List α}
    (hl : ∀ y ∈ l, p y = false) (ha : p a = true) :
    insertAfter p x (l ++ a :: k) = l ++ a :: x :: k := by
  induction l with
  | nil => simp [insertAfter_cons, ha]
  | cons y ys ih =>
    have hy : p y = false := hl y List.mem_cons_self
    simp [insertAfter_cons, hy, ih fun z hz => hl z (List.mem_cons_of_mem _ hz)]

/-- Without such an element it goes to the end. -/
theorem insertAfter_of_forall {p : α → Bool} {x : α} {l : List α} (hl : ∀ y ∈ l, p y = false) :
    insertAfter p x l = l ++ [x] := by
  induction l with
  | nil => rfl
  | cons y ys ih =>
    have hy : p y = false := hl y List.mem_cons_self
    simp [insertAfter_cons, hy, ih fun z hz => hl z (List.mem_cons_of_mem _ hz)]

/-- Only the members of the list matter. -/
theorem insertAfter_congr {p q : α → Bool} {x : α} {l : List α} (h : ∀ y ∈ l, p y = q y) :
    insertAfter p x l = insertAfter q x l := by
  induction l with
  | nil => rfl
  | cons y ys ih =>
    simp only [insertAfter_cons, h y List.mem_cons_self,
      ih fun z hz => h z (List.mem_cons_of_mem _ hz)]

/-- Nothing is lost. -/
theorem insertAfter_perm (p : α → Bool) (x : α) (l : List α) :
    (insertAfter p x l).Perm (x :: l) := by
  induction l with
  | nil => exact .refl _
  | cons y ys ih =>
    rw [insertAfter_cons]
    split
    · exact .swap x y ys
    · exact (ih.cons y).trans (.swap x y ys)

/-- Mapping commutes with the insertion. -/
theorem insertAfter_map {β : Type*} (f : α → β) (p : β → Bool) (x : α) (l : List α) :
    (insertAfter (fun y => p (f y)) x l).map f = insertAfter p (f x) (l.map f) := by
  induction l with
  | nil => rfl
  | cons y ys ih =>
    simp only [insertAfter_cons, List.map_cons]
    split
    · rfl
    · rw [List.map_cons, ih]

end List

section Place

variable {κ : Type*} [LinearOrder κ] (key : Nat → κ)

/-- The indices below `n`, each inserted behind the first greater key. -/
def place : Nat → List Nat
  | 0 => []
  | n + 1 => insertAfter (fun j => key n < key j) n (place n)

/-- The index that heads the group of `i`: the first one with a greater key if
    that arrived before `i`, else the first one with the same key. -/
def leader (i : Nat) : Nat :=
  ((List.range i).find? fun j => key i < key j).getD
    (((List.range i).find? fun j => key j = key i).getD i)

/-- Inside a group: the leader, then the smaller keys, then the equal ones. -/
def tier (i : Nat) : Nat :=
  if key i < key (leader key i) then 1 else if leader key i = i then 0 else 2

/-- Groups stand in the order their leaders arrived in; inside a group the
    smaller keys stand latest first and the equal ones earliest first. -/
def Before (i j : Nat) : Prop :=
  leader key i < leader key j ∨ leader key i = leader key j ∧
    (tier key i < tier key j ∨ tier key i = tier key j ∧
      ((tier key i = 1 ∧ j < i) ∨ (tier key i ≠ 1 ∧ i < j)))

instance (i j : Nat) : Decidable (Before key i j) := by
  unfold Before
  infer_instance

variable {key} {i j k n : Nat}

/-- Nothing comes before itself. -/
theorem Before.irrefl : ¬ Before key i i := by
  unfold Before
  omega

/-- The order is transitive. -/
theorem Before.trans (hij : Before key i j) (hjk : Before key j k) : Before key i k := by
  unfold Before at *
  omega

/-- Of two elements at most one comes first. -/
theorem Before.asymm (hij : Before key i j) : ¬ Before key j i :=
  fun hji => Before.irrefl (hij.trans hji)

/-- The first number with a property. -/
private theorem find?_range_eq_some {p : Nat → Bool} {n j : Nat}
    (h : (List.range n).find? p = some j) : j < n ∧ p j = true ∧ ∀ k < j, p k = false := by
  obtain ⟨hp, hj, hfirst⟩ := List.find?_range_eq_some.mp h
  exact ⟨List.mem_range.mp hj, hp, fun k hk => by simpa using hfirst k hk⟩

/-- A leader with a greater key is the first one of these. -/
theorem leader_of_lt (hj : j < n) (hlt : key n < key j) :
    leader key n < n ∧ key n < key (leader key n) ∧ ∀ i < leader key n, key i ≤ key n := by
  unfold leader
  cases hf : (List.range n).find? fun j => decide (key n < key j) with
  | none =>
    have := List.find?_eq_none.mp hf j (by simpa using hj)
    simp [hlt] at this
  | some a =>
    obtain ⟨ha, hkey, hfirst⟩ := find?_range_eq_some hf
    exact ⟨ha, by simpa using hkey, fun i hi => by simpa using hfirst i hi⟩

/-- A leader of a greatest key is the first one with that key. -/
theorem leader_of_ge (hn : ∀ j < n, key j ≤ key n) :
    leader key n ≤ n ∧ key (leader key n) = key n ∧ ∀ i < leader key n, key i < key n := by
  have hnone : ((List.range n).find? fun j => decide (key n < key j)) = none := by
    rw [List.find?_eq_none]
    intro j hj
    simpa using hn j (by simpa using hj)
  unfold leader
  rw [hnone]
  cases hf : (List.range n).find? fun j => decide (key j = key n) with
  | none =>
    refine ⟨Nat.le_refl _, rfl, fun i hi => lt_of_le_of_ne (hn i hi) ?_⟩
    simpa using List.find?_eq_none.mp hf i (by simpa using hi)
  | some a =>
    obtain ⟨ha, hkey, hfirst⟩ := find?_range_eq_some hf
    refine ⟨Nat.le_of_lt ha, by simpa using hkey, fun i hi => lt_of_le_of_ne (hn i ?_) ?_⟩
    · exact Nat.lt_trans hi ha
    · simpa using hfirst i hi

/-- What the leader of `i` is, in both cases. -/
theorem leader_cases (key : Nat → κ) (i : Nat) :
    (leader key i < i ∧ key i < key (leader key i) ∧ ∀ j < leader key i, key j ≤ key i) ∨
      (leader key i ≤ i ∧ key (leader key i) = key i ∧ (∀ j < i, key j ≤ key i) ∧
        ∀ j < leader key i, key j < key i) := by
  by_cases h : ∃ j < i, key i < key j
  · obtain ⟨j, hj, hlt⟩ := h
    exact .inl (leader_of_lt hj hlt)
  · have hn : ∀ j < i, key j ≤ key i := fun j hj => not_lt.mp fun hlt => h ⟨j, hj, hlt⟩
    obtain ⟨h1, h2, h3⟩ := leader_of_ge hn
    exact .inr ⟨h1, h2, hn, h3⟩

/-- The leader does not come later. -/
theorem leader_le (key : Nat → κ) (i : Nat) : leader key i ≤ i := by
  rcases leader_cases key i with h | h
  · exact Nat.le_of_lt h.1
  · exact h.1

/-- Its key is not smaller. -/
theorem key_le_leader (key : Nat → κ) (i : Nat) : key i ≤ key (leader key i) := by
  rcases leader_cases key i with h | h
  · exact le_of_lt h.2.1
  · exact le_of_eq h.2.1.symm

/-- In the first tier everybody leads himself. -/
theorem leader_of_tier_eq_zero (h : tier key i = 0) : leader key i = i := by
  unfold tier at h
  split at h
  · omega
  · split at h <;> omega

/-- The first greater key is in front of the new index; what is in front of
    it stays in front, what is behind it comes behind the new index. -/
theorem before_of_lt (hj : j < n) (hlt : key n < key j) :
    Before key (leader key n) n ∧
      (∀ i, Before key i (leader key n) → key i ≤ key n) ∧
      ∀ i < n, Before key (leader key n) i → Before key n i := by
  obtain ⟨ha, hgt, hfirst⟩ := leader_of_lt hj hlt
  generalize hdef : leader key n = a at *
  -- the leader is greater than all before it, so it leads itself
  have hrecord : ∀ j < a, key j ≤ key a := fun j hj => le_of_lt (lt_of_le_of_lt (hfirst j hj) hgt)
  have hleader : leader key a = a := by
    obtain ⟨hle, heq, -⟩ := leader_of_ge hrecord
    by_contra hne
    have hlow := hfirst _ (lt_of_le_of_ne hle hne)
    rw [heq] at hlow
    exact absurd hgt (not_lt.mpr hlow)
  -- its tier is 0, that of the new index is 1
  have htier : tier key a = 0 := by simp [tier, hleader]
  have htiern : tier key n = 1 := by simp [tier, hdef, hgt]
  refine ⟨?_, fun i hi => ?_, fun i hin hi => ?_⟩
  · unfold Before
    rw [hdef, hleader, htier, htiern]
    omega
  · have hlt : leader key i < a := by
      have := leader_le key i
      unfold Before at hi
      rw [hleader, htier] at hi
      omega
    exact le_trans (key_le_leader key i) (hfirst _ hlt)
  · have := @leader_of_tier_eq_zero _ _ key i
    unfold Before at hi ⊢
    rw [hleader, htier] at hi
    rw [hdef, htiern]
    omega

/-- An index with a greatest key comes behind all that arrived before. -/
theorem before_of_ge (hn : ∀ j < n, key j ≤ key n) (hin : i < n) : Before key i n := by
  obtain ⟨hle, heq, hfirst⟩ := leader_of_ge hn
  unfold Before
  rcases Nat.lt_or_eq_of_le hle with hlt | hself
  · have htier : tier key n = 2 := by simp [tier, heq, Nat.ne_of_lt hlt]
    have hnot : ¬ leader key n < leader key i := by
      intro hlt'
      -- the leader of `n` arrived before the leader of `i`, but has a key at least as great
      have hai : leader key n < i := Nat.lt_of_lt_of_le hlt' (leader_le key i)
      rcases leader_cases key i with ⟨hb, hgt, hlow⟩ | ⟨-, hbeq, hlow, hlow'⟩
      · have h1 := hlow _ hlt'
        have h2 := hn _ (Nat.lt_trans hb hin)
        rw [heq] at h1
        exact absurd (lt_of_lt_of_le hgt h2) (not_lt.mpr h1)
      · have h1 := hlow' _ hlt'
        rw [heq] at h1
        exact absurd h1 (not_lt.mpr (hn i hin))
    have htier' : tier key i ≤ 2 := by
      unfold tier
      split
      · omega
      · split <;> omega
    rw [htier]
    omega
  · have := leader_le key i
    omega

/-- All are placed. -/
theorem place_perm (key : Nat → κ) (n : Nat) : (place key n).Perm (List.range n) := by
  induction n with
  | zero => exact .refl _
  | succ n ih =>
    rw [List.range_succ]
    exact (insertAfter_perm _ _ _).trans ((ih.cons n).trans (List.perm_append_singleton n _).symm)

/-- Those and no others. -/
theorem mem_place (key : Nat → κ) : i ∈ place key n ↔ i < n := by
  rw [(place_perm key n).mem_iff, List.mem_range]

/-- The list insertion leaves is the order `Before`. -/
theorem pairwise_place (key : Nat → κ) (n : Nat) : (place key n).Pairwise (Before key) := by
  induction n with
  | zero => exact .nil
  | succ n ih =>
    unfold place
    -- the new index comes behind its leader, or at the end
    by_cases h : ∃ j < n, key n < key j
    · obtain ⟨j, hj, hlt⟩ := h
      obtain ⟨hbefore, hfront, hback⟩ := before_of_lt hj hlt
      obtain ⟨ha, hgt, -⟩ := leader_of_lt hj hlt
      obtain ⟨l, k, hsplit⟩ := List.append_of_mem ((mem_place key).mpr ha)
      have hmem : ∀ x ∈ k, x < n := fun x hx =>
        (mem_place key).mp (by rw [hsplit]; simp [hx])
      rw [hsplit] at ih ⊢
      obtain ⟨hl, hk, hlk⟩ := List.pairwise_append.mp ih
      obtain ⟨hak, hk⟩ := List.pairwise_cons.mp hk
      have hla : ∀ x ∈ l, Before key x (leader key n) := fun x hx => hlk x hx _ List.mem_cons_self
      rw [insertAfter_append_cons (fun x hx => by simpa using hfront x (hla x hx))
        (by simpa using hgt)]
      refine List.pairwise_append.mpr ⟨hl, ?_, ?_⟩
      · refine List.pairwise_cons.mpr ⟨?_, List.pairwise_cons.mpr ⟨?_, hk⟩⟩
        · intro x hx
          rcases List.mem_cons.mp hx with rfl | hx
          · exact hbefore
          · exact hak x hx
        · exact fun x hx => hback x (hmem x hx) (hak x hx)
      · intro x hx y hy
        rcases List.mem_cons.mp hy with rfl | hy
        · exact hla x hx
        rcases List.mem_cons.mp hy with rfl | hy
        · exact (hla x hx).trans hbefore
        · exact hlk x hx y (List.mem_cons_of_mem _ hy)
    · have hn : ∀ j < n, key j ≤ key n := fun j hj => not_lt.mp fun hlt => h ⟨j, hj, hlt⟩
      rw [insertAfter_of_forall fun x hx => by simpa using hn x ((mem_place key).mp hx)]
      refine List.pairwise_append.mpr ⟨ih, List.pairwise_singleton _ _, fun x hx y hy => ?_⟩
      rw [List.mem_singleton.mp hy]
      exact before_of_ge hn ((mem_place key).mp hx)

end Place

end InsertAfter
