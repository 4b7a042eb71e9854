import Mathlib.Data.Finset.Card
import MishaOS.ForStd.LinkedList

/-!
# Doubly linked FIFO queues

The nodes of an intrusive queue carry `next` and `prev`; the queue itself is
the pair of its ends.  `push` links a node behind the last one and does not
write its `next`, `pop` unlinks the first node and clears its links.  So a node
off the queue has null links, which is what `push` relies on.

A node that is pushed while it waits is in the queue twice.  The links still
lead to it a second time (`Lined`), since `pop` clears them the first time; but
the next `push` loses one of the two, and what waits between them.
-/

namespace Fifo

open LinkedList

/-- The links of a node. -/
structure Links (α : Type*) where
  next : α
  prev : α
deriving DecidableEq

/-- The ends of a queue. -/
structure Ends (α : Type*) where
  first : α
  last : α
deriving DecidableEq

variable {α : Type*} {node : α → Links α} {q : Ends α} {null x y : α} {l : List α}

/-- Link `x` behind the last node. -/
def push [DecidableEq α] (null : α) (node : α → Links α) (q : Ends α) (x : α) :
    (α → Links α) × Ends α :=
  if q.last = null then (node, ⟨x, x⟩)
  else
    let node := Function.update node x { node x with prev := q.last }
    (Function.update node q.last { node q.last with next := x }, ⟨q.first, x⟩)

/-- Unlink the first node. -/
def pop [DecidableEq α] (null : α) (node : α → Links α) (q : Ends α) : (α → Links α) × Ends α :=
  let next := (node q.first).next
  let node' := if next = null then node
    else Function.update node next { node next with prev := null }
  (Function.update node' q.first ⟨null, null⟩,
    if next = null then ⟨next, null⟩ else ⟨next, q.last⟩)

/-- Each node's `prev` names the node before it, that of the first is `p`. -/
def Backward (node : α → Links α) : α → List α → Prop
  | _, [] => True
  | p, x :: l => (node x).prev = p ∧ Backward node x l

/-- The nodes of `l`, in order, are the queue with the ends `q`. -/
structure IsQueue (null : α) (node : α → Links α) (q : Ends α) (l : List α) : Prop where
  chain : Chain (fun x => (node x).next) null q.first l
  last : q.last = l.getLastD null
  backward : Backward node null l

/-- Only the backward links matter. -/
theorem Backward.congr {node' : α → Links α} {p : α} (h : Backward node p l)
    (heq : ∀ x ∈ l, (node' x).prev = (node x).prev) : Backward node' p l := by
  induction l generalizing p with
  | nil => trivial
  | cons x l ih =>
    have hrest := ih h.2 fun y hy => heq y (List.mem_cons_of_mem _ hy)
    exact ⟨(heq x List.mem_cons_self).trans h.1, hrest⟩

/-- An element is linked at the end. -/
theorem Backward.concat {p : α} (h : Backward node p l) (hx : (node x).prev = l.getLastD p) :
    Backward node p (l ++ [x]) := by
  induction l generalizing p with
  | nil => exact ⟨hx, trivial⟩
  | cons y l ih => exact ⟨h.1, ih h.2 (by rw [hx, List.getLastD_cons])⟩

/-- Only the links of the queued nodes matter. -/
theorem IsQueue.congr {node' : α → Links α} (h : IsQueue null node q l)
    (heq : ∀ x ∈ l, node' x = node x) : IsQueue null node' q l where
  chain := h.chain.congr fun x hx => by rw [heq x hx]
  last := h.last
  backward := h.backward.congr fun x hx => by rw [heq x hx]

/-- Nothing waits twice. -/
theorem IsQueue.nodup (h : IsQueue null node q l) : l.Nodup := h.chain.nodup

/-- A queue is empty exactly when its first node is null. -/
theorem IsQueue.first_eq_null (h : IsQueue null node q l) : q.first = null ↔ l = [] := by
  cases l with
  | nil => exact iff_of_true h.chain rfl
  | cons x l => exact iff_of_false (fun e => h.chain.2.1 (h.chain.1.symm.trans e)) (by simp)

section

variable [DecidableEq α]

/-- `push` writes the links of the new node and of the queued ones. -/
theorem IsQueue.push_off (h : IsQueue null node q l) (hx : y ≠ x) (hy : y ∉ l) :
    (push null node q x).1 y = node y := by
  rcases List.eq_nil_or_concat l with rfl | ⟨k, a, rfl⟩
  · have hlast : q.last = null := h.last
    rw [push, if_pos hlast]
  · have hlast : q.last = a := by simpa using h.last
    have hya : y ≠ a := fun e => hy (by simp [e])
    rw [push]
    split
    · rfl
    · simp [hlast, hya, hx]

/-- `push` enqueues a node that is off the queue. -/
theorem IsQueue.push (h : IsQueue null node q l) (hx : x ∉ l) (hx0 : x ≠ null)
    (hoff : node x = ⟨null, null⟩) :
    IsQueue null (push null node q x).1 (push null node q x).2 (l ++ [x]) := by
  -- an empty queue, or one with a last node
  rcases List.eq_nil_or_concat l with rfl | ⟨k, a, rfl⟩
  · have hlast : q.last = null := h.last
    rw [Fifo.push, if_pos hlast]
    exact ⟨⟨rfl, hx0, by simp [hoff]⟩, rfl, ⟨by simp [hoff], trivial⟩⟩
  · -- the links written are those of `x` and of the last node `a`
    rw [List.concat_eq_append] at h hx ⊢
    have hlast : q.last = a := by simpa using h.last
    have ha0 : a ≠ null := h.chain.ne_null (by simp)
    have hxa : x ≠ a := fun e => hx (by simp [e])
    rw [Fifo.push, if_neg (by rw [hlast]; exact ha0), hlast]
    simp only [Function.update_of_ne hxa.symm]
    have hnext : (fun y => (Function.update (Function.update node x { node x with prev := a }) a
        { node a with next := x } y).next) =
        Function.update (Function.update (fun y => (node y).next) x (node a).next) a x := by
      have ha : (node a).next = null := (Chain.of_append h.chain).2.2
      funext y
      rcases eq_or_ne y a with rfl | hya
      · simp
      rcases eq_or_ne y x with rfl | hyx
      · simp [hya, ha, hoff]
      · simp [hya, hyx]
    refine ⟨?_, by simp, Backward.concat (h.backward.congr ?_) (by simp [hxa])⟩
    · rw [hnext]
      simpa using Chain.insert (l := []) h.chain hx hx0
    -- the node behind the old last one is `x`, and nothing else has changed
    · intro y hy
      have hyx : y ≠ x := fun e => hx (e ▸ hy)
      rcases eq_or_ne y a with rfl | hya
      · simp
      · simp [hya, hyx]

/-- `pop` writes the links of the queued nodes only. -/
theorem IsQueue.pop_off (h : IsQueue null node q (x :: l)) (hy : y ∉ x :: l) :
    (pop null node q).1 y = node y := by
  obtain ⟨hfirst, -, hrest⟩ := h.chain
  simp only [List.mem_cons, not_or] at hy
  simp only [pop, hfirst, Function.update_of_ne hy.1]
  split
  · rfl
  · rename_i hne
    obtain ⟨k, rfl, -⟩ := hrest.exists_cons hne
    have hyn : y ≠ (node x).next := fun e => hy.2 (by simp [e])
    exact Function.update_of_ne hyn _ _

/-- `pop` dequeues the first node and clears its links. -/
theorem IsQueue.pop (h : IsQueue null node q (x :: l)) :
    q.first = x ∧ (pop null node q).1 x = ⟨null, null⟩ ∧
      IsQueue null (pop null node q).1 (pop null node q).2 l := by
  have hnd := List.nodup_cons.mp h.nodup
  obtain ⟨hfirst, -, hrest⟩ := h.chain
  refine ⟨hfirst, by simp [Fifo.pop, hfirst], ?_⟩
  simp only [Fifo.pop, hfirst]
  -- the last node leaves, or the second becomes the first
  cases l with
  | nil =>
    have hnext : (node x).next = null := hrest
    rw [if_pos hnext, if_pos hnext]
    exact ⟨hnext, rfl, trivial⟩
  | cons z l =>
    obtain ⟨hz, hz0, hrest⟩ := hrest
    have hnext : (node x).next = z := hz
    have hzx : z ≠ x := fun e => hnd.1 (by simp [e])
    rw [hnext, if_neg hz0, if_neg hz0]
    refine ⟨⟨rfl, hz0, ?_⟩, ?_, ⟨by simp [hzx], ?_⟩⟩
    · simp only [Function.update_of_ne hzx, Function.update_self]
      apply hrest.congr
      intro y hy
      have hyx : y ≠ x := fun e => hnd.1 (by simp [← e, hy])
      -- the node `z` is written, and keeps its `next`
      rcases eq_or_ne y z with rfl | hyz
      · simp [hyx]
      · simp [hyx, hyz]
    · simp [h.last]
    · apply h.backward.2.2.congr
      intro y hy
      have hyx : y ≠ x := fun e => hnd.1 (by simp [← e, hy])
      have hyz : y ≠ z := fun e => (List.nodup_cons.mp hnd.2).1 (e ▸ hy)
      simp [hyx, hyz]

end

/-! ## Nodes that wait twice -/

/-- The nodes of `l` come out in this order.  Only the last one can be a repetition;
    of the nodes in `on`, all but those before the last one have no `next`. -/
structure Lined (null : α) (on : α → Prop) (node : α → Links α) (q : Ends α)
    (l : List α) : Prop where
  first : q.first = l.headD null
  last : q.last = l.getLastD null
  next : ∀ k y z r, l = k ++ y :: z :: r → (node y).next = z
  nodup : l.dropLast.Nodup
  ne : null ∉ l
  known : ∀ x ∈ l, on x
  off : ∀ x, on x → x ∉ l.dropLast → (node x).next = null

variable {on : α → Prop}

/-- Nothing waits. -/
theorem Lined.nil (hoff : ∀ x, on x → (node x).next = null) : Lined null on node ⟨null, null⟩ [] :=
  ⟨rfl, rfl, by simp, by simp, by simp, by simp, fun x hx _ => hoff x hx⟩

/-- The queue is empty if and only if it has no first element. -/
theorem Lined.first_eq_null (h : Lined null on node q l) : q.first = null ↔ l = [] := by
  cases l with
  | nil => exact iff_of_true h.first rfl
  | cons x l =>
    refine iff_of_false (fun hx => h.ne ?_) (by simp)
    rw [← hx, h.first]
    exact List.mem_cons_self

/-- Before the last node, the links stay in the queue. -/
theorem Lined.next_mem {k : List α} {a : α} (h : Lined null on node q (k ++ [a])) (hy : y ∈ k) :
    (node y).next ∈ k ++ [a] := by
  obtain ⟨k₁, k₂, rfl⟩ := List.append_of_mem hy
  cases k₂ with
  | nil =>
    rw [h.next k₁ y a [] (by simp)]
    simp
  | cons z k₂ =>
    rw [h.next k₁ y z (k₂ ++ [a]) (by simp)]
    simp

section

variable [DecidableEq α]

/-- The forward links behind `push`. -/
theorem push_next (null : α) (node : α → Links α) (q : Ends α) (x y : α) :
    ((push null node q x).1 y).next = if q.last ≠ null ∧ y = q.last then x else (node y).next := by
  rw [push]
  split
  · simp [*]
  · rename_i hlast
    rcases eq_or_ne y q.last with rfl | hy
    · simp [hlast]
    · rcases eq_or_ne y x with rfl | hyx <;> simp [*]

/-- The forward links behind `pop`. -/
theorem pop_next (null : α) (node : α → Links α) (q : Ends α) (y : α) :
    ((pop null node q).1 y).next = if y = q.first then null else (node y).next := by
  rw [pop]
  dsimp only
  rcases eq_or_ne y q.first with rfl | hy
  · simp
  · rw [Function.update_of_ne hy, if_neg hy]
    split
    · rfl
    · rcases eq_or_ne y (node q.first).next with rfl | hyn <;> simp [*]

/-- While no node waits twice, `push` lines up any node, also one that waits already. -/
theorem Lined.push (h : Lined null on node q l) (hnd : l.Nodup) (hx0 : x ≠ null) (hx : on x) :
    Lined null on (push null node q x).1 (push null node q x).2 (l ++ [x]) := by
  have hne : null ∉ l ++ [x] := by simp [h.ne, hx0.symm]
  have hknown : ∀ y ∈ l ++ [x], on y := by
    intro y hy
    rcases List.mem_append.mp hy with hy | hy
    · exact h.known y hy
    · exact List.mem_singleton.mp hy ▸ hx
  have hnodup : (l ++ [x]).dropLast.Nodup := by rwa [List.dropLast_concat]
  rcases List.eq_nil_or_concat l with rfl | ⟨k, a, rfl⟩
  · have hlast : q.last = null := h.last
    rw [Fifo.push, if_pos hlast]
    refine ⟨rfl, rfl, fun l' y z r hl => ?_, hnodup, hne, hknown,
      fun y hy _ => h.off y hy (by simp)⟩
    have hlen := congrArg List.length hl
    simp only [List.length_append, List.length_cons, List.length_nil] at hlen
    omega
  · rw [List.concat_eq_append] at *
    have hlast : q.last = a := by simpa using h.last
    have ha0 : a ≠ null := fun e => h.ne (by simp [e])
    have hends : (Fifo.push null node q x).2 = ⟨q.first, x⟩ := by
      rw [Fifo.push, if_neg (hlast ▸ ha0)]
    have ha : a ∉ k := fun hak => (List.nodup_append.mp hnd).2.2 a hak a (by simp) rfl
    refine ⟨?_, by simp [hends], ?_, hnodup, hne, hknown, ?_⟩
    · rw [hends, h.first]
      cases k <;> rfl
    · intro l' y z r hl
      rw [push_next, hlast]
      rcases List.eq_nil_or_concat r with rfl | ⟨r, b, rfl⟩
      · -- the last link is the one that was written
        obtain ⟨hk, hz⟩ := List.append_inj' (hl.trans (List.append_cons l' y [z])) rfl
        obtain ⟨-, hy⟩ := List.append_inj' hk rfl
        obtain rfl : a = y := (List.cons.inj hy).1
        obtain rfl : x = z := (List.cons.inj hz).1
        exact if_pos ⟨ha0, rfl⟩
      · obtain ⟨hk, -⟩ : k ++ [a] = l' ++ y :: z :: r ∧ [x] = [b] := by
          refine List.append_inj' (hl.trans ?_) rfl
          simp
        -- `y` is not the last one
        have hya : y ≠ a := by
          rintro rfl
          have hmem : y ∈ (k ++ [y]).dropLast := by
            rw [hk, List.dropLast_append_cons]
            simp
          rw [List.dropLast_concat] at hmem
          exact ha hmem
        rw [if_neg fun e => hya e.2]
        exact h.next l' y z r hk
    · intro y hy hyl
      rw [List.dropLast_concat] at hyl
      have hya : y ≠ a := fun e => hyl (by simp [e])
      rw [push_next, hlast, if_neg fun e => hya e.2]
      exact h.off y hy fun hyk => hyl (List.mem_of_mem_dropLast hyk)

/-- `pop` takes the first node, the links of which are cleared. -/
theorem Lined.pop (h : Lined null on node q (x :: l)) :
    q.first = x ∧ Lined null on (pop null node q).1 (pop null node q).2 l := by
  have hfirst : q.first = x := h.first
  refine ⟨hfirst, ?_⟩
  have hnext : (node x).next = l.headD null := by
    cases l with
    | nil => exact h.off x (h.known x (by simp)) (by simp)
    | cons y l => exact h.next [] x y l rfl
  -- both ends, also when the queue becomes empty
  have hends : (Fifo.pop null node q).2 = ⟨l.headD null, l.getLastD null⟩ := by
    have hlast := h.last
    simp only [Fifo.pop, hfirst, hnext]
    cases l with
    | nil => simp
    | cons y l =>
      have hy : y ≠ null := fun e => h.ne (by simp [e])
      simp [hy, hlast]
  have hnodup : x ∉ l.dropLast ∧ l.dropLast.Nodup := by
    have hnd := h.nodup
    cases l with
    | nil => simp
    | cons y l => rwa [List.dropLast_cons_cons, List.nodup_cons] at hnd
  refine ⟨by rw [hends], by rw [hends], ?_, hnodup.2, fun hm => h.ne (by simp [hm]),
    fun y hy => h.known y (by simp [hy]), ?_⟩
  -- only the node that leaves loses its `next`
  · intro k y z r hl
    have hyx : y ≠ x := by
      rintro rfl
      apply hnodup.1
      rw [hl, List.dropLast_append_cons]
      simp
    rw [pop_next, hfirst, if_neg hyx]
    exact h.next (x :: k) y z r (by rw [hl, List.cons_append])
  · intro y hy hyl
    rw [pop_next, hfirst]
    split
    · rfl
    · rename_i hyx
      apply h.off y hy
      cases l with
      | nil => simp
      | cons z l => simpa [hyx] using hyl

/-- A new node with null links. -/
theorem Lined.update (h : Lined null on node q l) (hx : x ∉ l) :
    Lined null (fun y => y = x ∨ on y) (Function.update node x ⟨null, null⟩) q l where
  first := h.first
  last := h.last
  next k y z r hl := by
    have hyx : y ≠ x := fun e => hx (by simp [hl, e])
    rw [Function.update_of_ne hyx]
    exact h.next k y z r hl
  nodup := h.nodup
  ne := h.ne
  known y hy := .inr (h.known y hy)
  off y hy hyl := by
    rcases eq_or_ne y x with rfl | hyx
    · rw [Function.update_self]
    · rw [Function.update_of_ne hyx]
      exact h.off y (hy.resolve_left hyx) hyl

/-- Take the first node until the queue is empty, at most `n` times. -/
def drain (null : α) : Nat → (α → Links α) → Ends α → Option (List α)
  | 0, _, q => if q.first = null then some [] else none
  | n + 1, node, q =>
    if q.first = null then some []
    else (drain null n (pop null node q).1 (pop null node q).2).map (q.first :: ·)

/-- Nothing comes out of an empty queue. -/
theorem drain_of_empty (h : q.first = null) (n : Nat) : drain null n node q = some [] := by
  cases n <;> simp [drain, h]

/-- All come out, in order. -/
theorem Lined.drain (h : Lined null on node q l) : drain null l.length node q = some l := by
  induction l generalizing node q with
  | nil => exact drain_of_empty h.first 0
  | cons x l ih =>
    obtain ⟨hfirst, hpop⟩ := h.pop
    have hx : q.first ≠ null := fun e => by simp [h.first_eq_null] at e
    rw [List.length_cons, Fifo.drain, if_neg hx, ih hpop, hfirst]
    rfl

/-- Each node but the last one that comes out had a `next`, which is cleared then. -/
theorem drain_length_le {n : Nat} {k s : List α}
    (hs : ∀ x, on x → (node x).next ≠ null → x ∈ s ∧ on (node x).next)
    (hfirst : q.first ≠ null → on q.first) (h : drain null n node q = some k) :
    k.length ≤ s.length + 1 := by
  -- on the fuel; each node that comes out takes one off `s`
  induction n generalizing node q k s with
  | zero =>
    rw [Fifo.drain, Option.ite_none_right_eq_some] at h
    simp [← Option.some.inj h.2]
  | succ n ih =>
    rw [Fifo.drain] at h
    split at h
    · simp [← Option.some.inj h]
    rename_i hne
    obtain ⟨k', hk, rfl⟩ := Option.map_eq_some_iff.mp h
    have hrest : (Fifo.pop null node q).2.first = (node q.first).next := by
      rw [pop]
      dsimp only
      split <;> rfl
    -- the last node: nothing comes out behind it
    by_cases hnext : (node q.first).next = null
    · rw [drain_of_empty (hrest.trans hnext)] at hk
      simp [← Option.some.inj hk]
    -- a node with a `next` cannot come out a second time, since the `next` is cleared
    · obtain ⟨hmem, hon⟩ := hs q.first (hfirst hne) hnext
      have hlen := List.length_erase_of_mem hmem
      have hpos := List.length_pos_of_mem hmem
      have hle : k'.length ≤ (s.erase q.first).length + 1 := by
        refine ih (fun y hy hny => ?_) (fun _ => hrest ▸ hon) hk
        rw [pop_next] at hny ⊢
        split at hny
        · exact absurd rfl hny
        · rename_i hyx
          rw [if_neg hyx]
          obtain ⟨hys, hony⟩ := hs y hy hny
          exact ⟨(List.mem_erase_of_ne hyx).mpr hys, hony⟩
      rw [List.length_cons]
      omega

/-- A `push` while a node waits twice loses a node. -/
theorem Lined.drain_push_ne (h : Lined null on node q l) (hdup : ¬ l.Nodup) (hx : on x) (n : Nat) :
    Fifo.drain null n (Fifo.push null node q x).1 (Fifo.push null node q x).2 ≠
      some (l ++ [x]) := by
  rcases List.eq_nil_or_concat l with rfl | ⟨k, a, rfl⟩
  · exact absurd List.nodup_nil hdup
  rw [List.concat_eq_append] at *
  have hlast : q.last = a := by simpa using h.last
  have ha0 : a ≠ null := fun e => h.ne (by simp [e])
  have hends : (Fifo.push null node q x).2 = ⟨q.first, x⟩ := by rw [Fifo.push, if_neg (hlast ▸ ha0)]
  -- the last node is one of those before it
  have hak : a ∈ k := by
    by_contra hak
    apply hdup
    have hk := h.nodup
    rw [List.dropLast_concat] at hk
    rw [← List.concat_eq_append]
    exact List.Nodup.concat hak hk
  have hnext : ∀ y, on y → ((Fifo.push null node q x).1 y).next ≠ null →
      y ∈ k ∧ on ((Fifo.push null node q x).1 y).next := by
    intro y hy hny
    rw [push_next, hlast] at hny ⊢
    split
    · rename_i hya
      exact ⟨hya.2 ▸ hak, hx⟩
    · rename_i hya
      rw [if_neg hya] at hny
      have hyk : y ∈ k := by
        by_contra hyk
        exact hny (h.off y hy (by rwa [List.dropLast_concat]))
      exact ⟨hyk, h.known _ (h.next_mem hyk)⟩
  have hfirst : on (Fifo.push null node q x).2.first := by
    rw [hends, h.first]
    exact h.known _ (by cases k <;> simp)
  intro hd
  have hle := drain_length_le hnext (fun _ => hfirst) hd
  simp at hle

end

end Fifo
