import Mathlib.Logic.Function.Basic
import MishaOS.ForStd.Ring

/-!
# Bytes in a memory

Little-endian words and null-terminated strings in a memory of bytes.
`At data pos l` says that the cells from `pos` on hold `l`; a record that is
written field after field is read back by splitting the list.
-/

namespace Bytes

open Ring

variable {α : Type*} {data data' : Nat → α} {pos : Nat} {l l' : List α} {x : α}

/-- The cells from `pos` on hold `l`. -/
def At (data : Nat → α) (pos : Nat) (l : List α) : Prop :=
  ∀ i x, l[i]? = some x → data (pos + i) = x

/-- The empty text is everywhere. -/
theorem at_nil : At data pos [] := by
  intro i x hx
  simp at hx

/-- A text byte by byte. -/
theorem at_cons : At data pos (x :: l) ↔ data pos = x ∧ At data (pos + 1) l := by
  constructor
  · intro h
    constructor
    · exact h 0 x rfl
    · intro i y hy
      rw [Nat.add_assoc, Nat.add_comm 1]
      exact h (i + 1) y hy
  · intro ⟨hx, hl⟩ i y hy
    cases i with
    | zero => simpa [hx] using hy
    | succ i =>
      rw [← hl i y hy]
      congr 1
      omega

/-- A text in two parts. -/
theorem at_append : At data pos (l ++ l') ↔ At data pos l ∧ At data (pos + l.length) l' := by
  induction l generalizing pos with
  | nil => rw [List.nil_append, List.length_nil, Nat.add_zero, and_iff_right at_nil]
  | cons y l ih =>
    rw [List.cons_append, at_cons, at_cons, ih, List.length_cons, and_assoc,
      Nat.add_assoc, Nat.add_comm 1]

/-- Only the cells that hold `l` matter. -/
theorem At.congr (h : At data pos l)
    (hdata : ∀ a, pos ≤ a → a < pos + l.length → data' a = data a) : At data' pos l := by
  intro i x hx
  obtain ⟨hi, -⟩ := List.getElem?_eq_some_iff.mp hx
  rw [hdata (pos + i) (by omega) (by omega)]
  exact h i x hx

/-- What has been written is there. -/
theorem blit_at : At (blit data pos l) pos l := fun _ _ hx => blit_inside hx

/-- Nothing is written. -/
theorem blit_nil : blit data pos [] = data := by
  funext a
  exact blit_outside (by simp; omega)

/-- The first cell is written, then the others. -/
theorem blit_cons : blit data pos (x :: l) = blit (Function.update data pos x) (pos + 1) l := by
  funext a
  rcases Nat.lt_trichotomy a pos with hlt | rfl | hgt
  · rw [blit_outside (.inl hlt), blit_outside (.inl (by omega)), Function.update_of_ne (by omega)]
  · have hhead : blit data a (x :: l) a = x := blit_inside (i := 0) rfl
    rw [hhead, blit_outside (.inl (Nat.lt_succ_self a)), Function.update_self]
  · have hsub : a - pos = a - (pos + 1) + 1 := by omega
    rw [blit, if_pos (by omega), hsub, List.getD_cons_succ, blit, if_pos (by omega),
      Function.update_of_ne (by omega)]

/-- A piece is written right behind another. -/
theorem blit_append : blit (blit data pos l) (pos + l.length) l' = blit data pos (l ++ l') := by
  induction l generalizing data pos with
  | nil => rw [blit_nil, List.nil_append, List.length_nil, Nat.add_zero]
  | cons x l ih => rw [blit_cons, List.cons_append, blit_cons, List.length_cons, ← ih,
    Nat.add_assoc, Nat.add_comm 1]

/-- One byte is written. -/
theorem blit_singleton : blit data pos [x] = Function.update data pos x := by
    rw [blit_cons, blit_nil]

/-- One of the cells is written again. -/
theorem update_blit {i : Nat} (hi : i < l.length) :
    Function.update (blit data pos l) (pos + i) x = blit data pos (l.set i x) := by
  funext a
  by_cases ha : a = pos + i
  · rw [ha, Function.update_self, blit_inside (List.getElem?_set_self hi)]
  · rw [Function.update_of_ne ha]
    by_cases hle : pos ≤ a
    · obtain ⟨j, rfl⟩ := Nat.exists_eq_add_of_le hle
      rw [blit, blit, if_pos hle, if_pos hle, Nat.add_sub_cancel_left, List.getD_eq_getElem?_getD,
        List.getD_eq_getElem?_getD, List.getElem?_set_ne (by omega)]
    · rw [blit_outside (by omega), blit_outside (by omega)]

/-! ## Pieces written one after the other -/

/-- The pieces are written in order, each from its own place on. -/
def writeAll (data : Nat → α) (ws : List (Nat × List α)) : Nat → α :=
  ws.foldl (fun data w => blit data w.1 w.2) data

/-- No cell belongs to both pieces. -/
def Apart (w w' : Nat × List α) : Prop :=
  w.1 + w.2.length ≤ w'.1 ∨ w'.1 + w'.2.length ≤ w.1

/-- Two lists of pieces are written one after the other. -/
theorem writeAll_append (data : Nat → α) (ws ws' : List (Nat × List α)) :
    writeAll data (ws ++ ws') = writeAll (writeAll data ws) ws' := List.foldl_append

/-- A text stays when all pieces are apart from it. -/
theorem At.writeAll {ws : List (Nat × List α)} (h : At data pos l)
    (hws : ∀ w ∈ ws, Apart (pos, l) w) :
    At (Bytes.writeAll data ws) pos l := by
  induction ws generalizing data with
  | nil => exact h
  | cons w ws ih =>
    apply ih _ fun w' hw' => hws w' (List.mem_cons_of_mem _ hw')
    apply h.congr
    intro a hle hlt
    have hw := hws w List.mem_cons_self
    unfold Apart at hw
    dsimp only at hw
    exact blit_outside (by omega)

/-- Pieces that are apart are all there in the end. -/
theorem at_writeAll {ws : List (Nat × List α)} {w : Nat × List α} (hpair : ws.Pairwise Apart)
    (hw : w ∈ ws) :
    At (writeAll data ws) w.1 w.2 := by
  induction ws generalizing data with
  | nil => simp at hw
  | cons w' ws ih =>
    rw [List.pairwise_cons] at hpair
    rcases List.mem_cons.mp hw with rfl | hw
    · exact blit_at.writeAll hpair.1
    · exact ih hpair.2 hw

/-- The text is read back. -/
theorem At.slice_eq (h : At data pos l) : slice data pos l.length = l := by
  apply List.ext_getElem? fun i => ?_
  by_cases hi : i < l.length
  · rw [getElem?_slice hi, List.getElem?_eq_getElem hi, h i l[i] (List.getElem?_eq_getElem hi)]
  · rw [List.getElem?_eq_none (by simp; omega), List.getElem?_eq_none (by omega)]

/-! ## Words -/

/-- The four bytes of a 32-bit word, lowest first. -/
def le32 (n : Nat) : List (BitVec 8) :=
  [BitVec.ofNat 8 n, BitVec.ofNat 8 (n / 256), BitVec.ofNat 8 (n / 65536),
    BitVec.ofNat 8 (n / 16777216)]

/-- The two bytes of a 16-bit word, lowest first. -/
def le16 (n : Nat) : List (BitVec 8) := [BitVec.ofNat 8 n, BitVec.ofNat 8 (n / 256)]

def word32 (data : Nat → BitVec 8) (p : Nat) : Nat :=
  (data p).toNat + 256 * (data (p + 1)).toNat + 65536 * (data (p + 2)).toNat
    + 16777216 * (data (p + 3)).toNat

def word16 (data : Nat → BitVec 8) (p : Nat) : Nat :=
  (data p).toNat + 256 * (data (p + 1)).toNat

/-- A word has four bytes. -/
@[simp] theorem length_le32 (n : Nat) : (le32 n).length = 4 := rfl

/-- It is read back. -/
theorem word32_le32 {data : Nat → BitVec 8} {n : Nat} (h : At data pos (le32 n))
    (hn : n < 4294967296) : word32 data pos = n := by
  simp only [le32, at_cons] at h
  obtain ⟨h0, h1, h2, h3, -⟩ := h
  rw [word32, h0, h1, h2, h3]
  simp only [BitVec.toNat_ofNat]
  omega

/-- So is a half word. -/
theorem word16_le16 {data : Nat → BitVec 8} {n : Nat} (h : At data pos (le16 n))
    (hn : n < 65536) : word16 data pos = n := by
  simp only [le16, at_cons] at h
  obtain ⟨h0, h1, -⟩ := h
  rw [word16, h0, h1]
  simp only [BitVec.toNat_ofNat]
  omega

/-! ## Strings -/

/-- `strcmp` of the string `s` and the string at `p` finds no difference. -/
def streq (data : Nat → BitVec 8) (p : Nat) : List (BitVec 8) → Bool
  | [] => data p == 0
  | c :: s => data p == c && streq data (p + 1) s

/-- The comparison sees the string with its null byte. -/
theorem streq_iff {data : Nat → BitVec 8} {p : Nat} {s : List (BitVec 8)} :
    streq data p s = true ↔ At data p (s ++ [0]) := by
  induction s generalizing p with
  | nil => rw [streq, List.nil_append, at_cons, beq_iff_eq, and_iff_left at_nil]
  | cons c s ih => rw [streq, List.cons_append, at_cons, Bool.and_eq_true, ih, beq_iff_eq]

/-- At most one string without a null byte is found at a place. -/
theorem At.string_unique {data : Nat → BitVec 8} {p : Nat} {s t : List (BitVec 8)}
    (hs : At data p (s ++ [0])) (ht : At data p (t ++ [0])) (hs0 : 0 ∉ s) (ht0 : 0 ∉ t) :
    s = t := by
  -- byte by byte; the terminator ends both strings at the same place
  induction s generalizing p t with
  | nil =>
    cases t with
    | nil => rfl
    | cons d t =>
      have h0 : data p = 0 := (at_cons.mp hs).1
      have hd : data p = d := (at_cons.mp ht).1
      exact absurd (List.mem_cons.mpr (Or.inl (h0.symm.trans hd))) ht0
  | cons c s ih =>
    have hc : data p = c := (at_cons.mp hs).1
    cases t with
    | nil =>
      have h0 : data p = 0 := (at_cons.mp ht).1
      exact absurd (List.mem_cons.mpr (Or.inl (h0.symm.trans hc))) hs0
    | cons d t =>
      have hd : data p = d := (at_cons.mp ht).1
      have hcd : c = d := hc.symm.trans hd
      rw [hcd, ih (at_cons.mp hs).2 (at_cons.mp ht).2 (fun h => hs0 (List.mem_cons_of_mem _ h))
        (fun h => ht0 (List.mem_cons_of_mem _ h))]

end Bytes
