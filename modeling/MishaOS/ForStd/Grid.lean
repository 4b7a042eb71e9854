import Mathlib.Data.List.Basic
import Mathlib.Data.List.Range

/-!
# Loops over a rectangle

`grid rows columns f s` runs `f` for every cell of a rectangle, row after row.

## Key results

- `grid_invariant`: what every cell keeps is kept.
- `grid_establish`: what one cell achieves, and no other destroys, holds at the end.
-/

variable {σ : Type*}

/-- The cells of a rectangle, row by row; `f` gets the column and then the row. -/
def grid (rows columns : Nat) (f : σ → Nat → Nat → σ) (s : σ) : σ :=
  (List.range rows).foldl (fun s y => (List.range columns).foldl (fun s x => f s x y) s) s

variable {rows columns x y : Nat} {f : σ → Nat → Nat → σ} {s : σ} {P : σ → Prop} (Inv : σ → Prop)

theorem foldl_invariant {ι : Type*} {g : σ → ι → σ} {l : List ι}
    (hstep : ∀ s, ∀ i ∈ l, Inv s → Inv (g s i))
    (hs : Inv s) : Inv (l.foldl g s) := by
  induction l generalizing s with
  | nil => exact hs
  | cons i l ih =>
    exact ih (fun s j hj => hstep s j (List.mem_cons_of_mem i hj)) (hstep s i List.mem_cons_self hs)

/-- Element `i` achieves `P` from every state that meets the invariant. -/
theorem foldl_establish {ι : Type*} {g : σ → ι → σ} {l : List ι} {i : ι} (hi : i ∈ l)
    (hkeep : ∀ s, ∀ j ∈ l, Inv s → Inv (g s j) ∧ (P s → P (g s j)))
    (hset : ∀ s, Inv s → P (g s i)) (hs : Inv s) :
    P (l.foldl g s) := by
  induction l generalizing s with
  | nil => exact absurd hi List.not_mem_nil
  | cons j l ih =>
    have hrest : ∀ s, ∀ k ∈ l, Inv s → Inv (g s k) ∧ (P s → P (g s k)) :=
      fun s k hk => hkeep s k (List.mem_cons_of_mem j hk)
    have hhead : Inv (g s j) := (hkeep s j List.mem_cons_self hs).1
    rcases List.mem_cons.mp hi with rfl | hi
    · have hboth : Inv (l.foldl g (g s i)) ∧ P (l.foldl g (g s i)) := by
        refine foldl_invariant (fun s => Inv s ∧ P s) (fun s k hk h => ?_) ⟨hhead, hset s hs⟩
        obtain ⟨hinv, hp⟩ := hrest s k hk h.1
        exact ⟨hinv, hp h.2⟩
      exact hboth.2
    · exact ih hi hrest hhead

theorem grid_invariant (hstep : ∀ s x y, x < columns → y < rows → Inv s → Inv (f s x y))
    (hs : Inv s) :
    Inv (grid rows columns f s) := by
  refine foldl_invariant Inv (fun s y hy h => ?_) hs
  refine foldl_invariant Inv (fun s x hx h => ?_) h
  exact hstep s x y (List.mem_range.mp hx) (List.mem_range.mp hy) h

theorem grid_establish (hx : x < columns) (hy : y < rows)
    (hkeep : ∀ s x y, x < columns → y < rows → Inv s → Inv (f s x y) ∧ (P s → P (f s x y)))
    (hset : ∀ s, Inv s → P (f s x y)) (hs : Inv s) : P (grid rows columns f s) := by
  have hrow : ∀ y < rows, ∀ s, ∀ x ∈ List.range columns, Inv s → Inv (f s x y) ∧
      (P s → P (f s x y)) :=
    fun y hy s x hx => hkeep s x y (List.mem_range.mp hx) hy
  refine foldl_establish Inv (List.mem_range.mpr hy) (fun s y hy h => ?_) (fun s h => ?_) hs
  · have hy := List.mem_range.mp hy
    refine ⟨foldl_invariant Inv (fun s x hx h => (hrow y hy s x hx h).1) h, fun hp => ?_⟩
    have hboth : Inv ((List.range columns).foldl (fun s x => f s x y) s) ∧
        P ((List.range columns).foldl (fun s x => f s x y) s) := by
      refine foldl_invariant (fun s => Inv s ∧ P s) (fun s x hx h => ?_) ⟨h, hp⟩
      obtain ⟨hinv, hp⟩ := hrow y hy s x hx h.1
      exact ⟨hinv, hp h.2⟩
    exact hboth.2
  · exact foldl_establish Inv (List.mem_range.mpr hx) (hrow y hy) hset h
