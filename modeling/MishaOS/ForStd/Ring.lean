import Mathlib.Data.List.Basic

/-!
# Circular buffers

A buffer of `n` cells that is read and written from a moving position, with
the cells behind the last one continuing at the first.  `slice` and `blit` copy
a straight piece out of and into the buffer; the lemmas say what the two pieces
of an access that runs over the end amount to.
-/

namespace Ring

variable {α : Type*} {n pos k : Nat} {buf : Nat → α} {l : List α}

/-- The `k` cells from `pos` on. -/
def slice (buf : Nat → α) (pos k : Nat) : List α := (List.range k).map fun i => buf (pos + i)

/-- The cells from `pos` on are overwritten by `l`. -/
def blit (buf : Nat → α) (pos : Nat) (l : List α) (a : Nat) : α :=
  if pos ≤ a then l.getD (a - pos) (buf a) else buf a

/-- The cells from `pos` on, around the end, are `l`. -/
def Holds (n : Nat) (buf : Nat → α) (pos : Nat) (l : List α) : Prop :=
  ∀ i x, l[i]? = some x → buf ((pos + i) % n) = x

/-- The `k` cells from `pos` on, around the end of a buffer of `n`. -/
def around (n : Nat) (buf : Nat → α) (pos k : Nat) : List α :=
  (List.range k).map fun i => buf ((pos + i) % n)

@[simp] theorem length_slice : (slice buf pos k).length = k := by simp [slice]

theorem getElem?_slice {i : Nat} (hi : i < k) : (slice buf pos k)[i]? = some (buf (pos + i)) := by
  simp [slice, hi]

theorem around_add (n : Nat) (buf : Nat → α) (pos k m : Nat) :
    around n buf pos (k + m) = around n buf pos k ++ around n buf ((pos + k) % n) m := by
  simp [around, List.range_add, Function.comp_def, Nat.add_assoc]

theorem getD_slice {i : Nat} (hi : i < k) (x : α) : (slice buf pos k).getD i x = buf (pos + i) := by
  rw [List.getD_eq_getElem?_getD, getElem?_slice hi]
  rfl

theorem take_slice {m : Nat} (hm : m ≤ k) : (slice buf pos k).take m = slice buf pos m := by
  rw [slice, ← List.map_take, List.take_range, Nat.min_eq_left hm]
  rfl

theorem drop_slice {m : Nat} : (slice buf pos k).drop m = slice buf (pos + m) (k - m) := by
  apply List.ext_getElem? fun i => ?_
  rw [List.getElem?_drop]
  by_cases hi : m + i < k
  · rw [getElem?_slice hi, getElem?_slice (by omega), Nat.add_assoc]
  · rw [List.getElem?_eq_none (by simp; omega), List.getElem?_eq_none (by simp; omega)]

/-- A straight piece. -/
theorem around_eq_slice (hend : pos + k ≤ n) : around n buf pos k = slice buf pos k := by
  refine List.map_congr_left fun i hi => ?_
  have hi : i < k := List.mem_range.mp hi
  rw [Nat.mod_eq_of_lt (by omega)]

/-- Two straight pieces, the second one from the start of the buffer. -/
theorem around_eq_slice_append (hpos : pos ≤ n) (hk : n ≤ pos + k) (hle : k ≤ n) :
    around n buf pos k = slice buf pos (n - pos) ++ slice buf 0 (k - (n - pos)) := by
  have hsplit : k = (n - pos) + (k - (n - pos)) := by omega
  have hend : pos + (n - pos) = n := by omega
  conv_lhs => rw [hsplit, around_add, hend, Nat.mod_self]
  rw [around_eq_slice (by omega), around_eq_slice (by omega)]

/-- A piece of the content. -/
theorem Holds.around_eq (h : Holds n buf pos l) (hk : k ≤ l.length) :
    around n buf pos k = l.take k := by
  apply List.ext_getElem? fun i => ?_
  by_cases hi : i < k
  · have hl : i < l.length := by omega
    have hcell := h i l[i] (List.getElem?_eq_getElem hl)
    rw [List.getElem?_take_of_lt hi, List.getElem?_eq_getElem hl, ← hcell]
    simp [around, hi]
  · rw [List.getElem?_eq_none (by simp [around]; omega), List.getElem?_eq_none (by simp; omega)]

/-- The rest of the content is further on, or again at the start of the buffer. -/
theorem Holds.drop {pos' : Nat} (h : Holds n buf pos l) (hpos : pos' % n = (pos + k) % n) :
    Holds n buf pos' (l.drop k) := by
  intro i x hx
  rw [List.getElem?_drop] at hx
  have hcell := h (k + i) x hx
  have heq : (pos' + i) % n = (pos + (k + i)) % n := by
    rw [← Nat.add_assoc, Nat.add_mod pos', hpos, ← Nat.add_mod]
  rw [heq]
  exact hcell

/-- A piece written before the end of the buffer. -/
theorem blit_inside {i : Nat} {x : α} (hx : l[i]? = some x) : blit buf pos l (pos + i) = x := by
  have hsub : pos + i - pos = i := by omega
  rw [blit, if_pos (by omega), hsub, List.getD_eq_getElem?_getD, hx]
  rfl

theorem blit_outside {a : Nat} (ha : a < pos ∨ pos + l.length ≤ a) : blit buf pos l a = buf a := by
  unfold blit
  split
  · rw [List.getD_eq_getElem?_getD, List.getElem?_eq_none (by omega)]
    rfl
  · rfl

/-- Writing into an empty buffer, without reaching the end. -/
theorem Holds.blit (hend : pos + l.length ≤ n) : Holds n (blit buf pos l) pos l := by
  intro i x hx
  have hi : i < l.length := by
    by_contra hge
    rw [List.getElem?_eq_none (by omega)] at hx
    simp at hx
  rw [Nat.mod_eq_of_lt (by omega)]
  exact blit_inside hx

/-- Writing into an empty buffer, around the end. -/
theorem Holds.blit_around (hpos : pos < n) (hlen : l.length ≤ n) :
    Holds n (Ring.blit (Ring.blit buf pos (l.take (n - pos))) 0 (l.drop (n - pos))) pos l := by
  intro i x hx
  have hi : i < l.length := by
    by_contra hge
    rw [List.getElem?_eq_none (by omega)] at hx
    simp at hx
  by_cases hlt : pos + i < n
  · -- this cell is in the first piece, and the second piece ends before `pos`
    have htake : (l.take (n - pos))[i]? = some x := by
      rw [List.getElem?_take_of_lt (by omega)]
      exact hx
    rw [Nat.mod_eq_of_lt hlt, blit_outside (by simp; omega)]
    exact blit_inside htake
  -- this cell is behind the wrap, in the second piece
  · have hdrop : (l.drop (n - pos))[pos + i - n]? = some x := by
      have hidx : n - pos + (pos + i - n) = i := by omega
      rw [List.getElem?_drop, hidx]
      exact hx
    have hmod : (pos + i) % n = 0 + (pos + i - n) := by
      rw [Nat.mod_eq_sub_mod (by omega), Nat.mod_eq_of_lt (by omega), Nat.zero_add]
    rw [hmod]
    exact blit_inside hdrop

end Ring
