import Mathlib.Data.List.Perm.Basic
import Mathlib.Data.List.Range
import Mathlib.Data.Nat.ModEq
import Mathlib.Logic.Function.Basic

/-!
# A queue in the slots of a ring

A producer fills the slots of a ring in turn, a consumer empties them in the same
order.  `Pending n slot first q` says that the elements of `q` stand in the slots
from `first` on and that the other slots are empty; the two sides then never meet
as long as one slot is left over.

## Key results

- `Pending.put`, `Pending.take`: the producer appends, the consumer takes the front.
- `map_range_update_perm`: what a write to one slot changes in the list of all slots.
-/

namespace SlotQueue

variable {α : Type*} {n i j k first : Nat} {slot slot' : Nat → Option α} {q : List α} {x : α}

/-- Slots at different distances from one slot are different. -/
theorem add_mod_inj (hi : i < n) (hj : j < n) (h : (first + i) % n = (first + j) % n) : i = j := by
  have hmod : Nat.ModEq n i j := Nat.ModEq.add_left_cancel' first h
  rw [Nat.ModEq, Nat.mod_eq_of_lt hi, Nat.mod_eq_of_lt hj] at hmod
  exact hmod

/-- The elements of `q` stand in the slots from `first` on, in this order. -/
def Pending (n : Nat) (slot : Nat → Option α) (first : Nat) (q : List α) : Prop :=
  ∀ k < n, slot ((first + k) % n) = q[k]?

theorem Pending.congr (h : Pending n slot first q) (hn : 0 < n) (heq : ∀ i < n, slot' i = slot i) :
    Pending n slot' first q := by
  intro k hk
  rw [heq _ (Nat.mod_lt _ hn)]
  exact h k hk

/-- The front of the queue stands in the first slot. -/
theorem Pending.front (h : Pending n slot first (x :: q)) (hn : 0 < n) :
    slot (first % n) = some x :=
  h 0 hn

theorem Pending.empty (h : Pending n slot first []) (hn : 0 < n) : slot (first % n) = none :=
  h 0 hn

/-- The next free slot is filled. -/
theorem Pending.put (h : Pending n slot first q) (hlen : q.length < n)
    (hnew : slot' ((first + q.length) % n) = some x)
    (heq : ∀ i < n, i ≠ (first + q.length) % n → slot' i = slot i) :
    Pending n slot' first (q ++ [x]) := by
  intro k hk
  by_cases hkq : k = q.length
  · rw [hkq, hnew, List.getElem?_concat_length]
  · have hne : (first + k) % n ≠ (first + q.length) % n := fun e => hkq (add_mod_inj hk hlen e)
    rw [heq _ (Nat.mod_lt _ (Nat.zero_lt_of_lt hk)) hne, h k hk]
    obtain hlt | hge := Nat.lt_or_ge k q.length
    · rw [List.getElem?_append_left hlt]
    · rw [List.getElem?_eq_none hge, List.getElem?_eq_none]
      rw [List.length_append, List.length_singleton]
      omega

/-- The first slot is emptied. -/
theorem Pending.take (h : Pending n slot first (x :: q)) (hlen : q.length < n)
    (hnew : slot' (first % n) = none)
    (heq : ∀ i < n, i ≠ first % n → slot' i = slot i) : Pending n slot' ((first + 1) % n) q := by
  intro k hk
  have hn : 0 < n := Nat.zero_lt_of_lt hk
  rw [Nat.mod_add_mod, Nat.add_assoc, Nat.add_comm 1 k]
  obtain hlast | hlt : k + 1 = n ∨ k + 1 < n := by omega
  -- the slot just emptied is the last one now
  · rw [hlast, Nat.add_mod_right, hnew, List.getElem?_eq_none (by omega)]
  · have hne : (first + (k + 1)) % n ≠ first % n := fun e =>
      Nat.succ_ne_zero k (add_mod_inj hlt hn e)
    rw [heq _ (Nat.mod_lt _ hn) hne, h (k + 1) hlt]
    rfl

/-! ## Lists of slots -/

variable {β : Type*}

/-- Of the slots' contents one is exchanged. -/
theorem map_range_update_perm (hi : i < n) (f : Nat → β) (v : β) :
    ∃ rest, ((List.range n).map f).Perm (f i :: rest) ∧
      ((List.range n).map (Function.update f i v)).Perm (v :: rest) := by
  have hmem : i ∈ List.range n := List.mem_range.mpr hi
  have hperm := List.perm_cons_erase hmem
  refine ⟨((List.range n).erase i).map f, hperm.map f, ?_⟩
  have hupdate : ((List.range n).erase i).map (Function.update f i v) =
      ((List.range n).erase i).map f := by
    apply List.map_congr_left
    intro j hj
    have hne : j ≠ i := (List.nodup_range.mem_erase_iff.mp hj).1
    rw [Function.update_of_ne hne]
  have hmap := hperm.map (Function.update f i v)
  rw [List.map_cons, Function.update_self, hupdate] at hmap
  exact hmap

end SlotQueue
