import Mathlib.Data.List.Nodup
import Mathlib.Data.List.Infix
import Mathlib.Logic.Function.Basic

/-!
# Null-terminated chains of a `next` function

An intrusive linked list is a store of nodes, a `next` field and a head
pointer.  `Chain next null p l` says that following `next` from `p` visits
exactly the nodes of `l`, in order, and then reaches `null`.  A chain is a
finite object, so it carries acyclicity: the visited nodes are determined by
the head (`Chain.unique`) and repeat no node (`Chain.nodup`).

Nothing here fixes the type of pointers or what else a node stores.
-/

namespace LinkedList

variable {α : Type*} {next next' : α → α} {null p q x y : α} {l l' k : List α}

/-- Following `next` from `p` visits exactly `l` and then reaches `null`. -/
def Chain (next : α → α) (null : α) : α → List α → Prop
  | p, [] => p = null
  | p, x :: xs => p = x ∧ x ≠ null ∧ Chain next null (next x) xs

@[simp] theorem chain_nil : Chain next null p [] ↔ p = null := Iff.rfl

@[simp] theorem chain_cons :
    Chain next null p (x :: l) ↔ p = x ∧ x ≠ null ∧ Chain next null (next x) l := Iff.rfl

/-- A non-null head is the first node of its chain. -/
theorem Chain.exists_cons (h : Chain next null p l) (hp : p ≠ null) :
    ∃ k, l = p :: k ∧ Chain next null (next p) k := by
  cases l with
  | nil => exact absurd h hp
  | cons x xs =>
    obtain ⟨rfl, _, hrest⟩ := h
    exact ⟨xs, rfl, hrest⟩

/-- The nodes visited are determined by the head pointer. -/
theorem Chain.unique (h : Chain next null p l) (h' : Chain next null p l') : l = l' := by
  induction l generalizing p l' with
  | nil =>
    cases l' with
    | nil => rfl
    | cons y ys => exact absurd (h'.1.symm.trans h) h'.2.1
  | cons x xs ih =>
    cases l' with
    | nil => exact absurd (h.1.symm.trans h') h.2.1
    | cons y ys =>
      obtain ⟨rfl, _, hxs⟩ := h
      obtain ⟨rfl, _, hys⟩ := h'
      rw [ih hxs hys]

/-- `null` is never visited. -/
theorem Chain.ne_null (h : Chain next null p l) (hx : x ∈ l) : x ≠ null := by
  induction l generalizing p with
  | nil => simp at hx
  | cons y ys ih =>
    rcases List.mem_cons.mp hx with rfl | hx
    · exact h.2.1
    · exact ih h.2.2 hx

/-- Every suffix of the visited nodes is the chain of its own first node. -/
theorem Chain.of_append (h : Chain next null p (k ++ x :: l)) : Chain next null x (x :: l) := by
  induction k generalizing p with
  | nil => exact ⟨rfl, h.2.1, h.2.2⟩
  | cons y ys ih => exact ih h.2.2

/-- Every suffix is a chain, also the empty one. -/
theorem Chain.suffix (h : Chain next null p (k ++ l)) : Chain next null (l.head?.getD null) l := by
  cases l with
  | nil => rfl
  | cons x xs => exact Chain.of_append h

/-- A chain visits no node twice. -/
theorem Chain.nodup (h : Chain next null p l) : l.Nodup := by
  induction l generalizing p with
  | nil => exact List.nodup_nil
  | cons x xs ih =>
    refine List.nodup_cons.mpr ⟨fun hmem => ?_, ih h.2.2⟩
    -- a second visit of `x` would be a chain of `x` shorter than the first
    obtain ⟨k, m, rfl⟩ := List.append_of_mem hmem
    have hlong : Chain next null x (x :: (k ++ x :: m)) := ⟨rfl, h.2.1, h.2.2⟩
    have hshort : Chain next null x (x :: m) := Chain.of_append (k := x :: k) hlong
    have hlen := congrArg List.length (hlong.unique hshort)
    simp at hlen
    omega

/-- Only the `next` fields of the visited nodes matter. -/
theorem Chain.congr (h : Chain next null p l) (hnext : ∀ x ∈ l, next' x = next x) :
    Chain next' null p l := by
  induction l generalizing p with
  | nil => exact h
  | cons x xs ih =>
    refine ⟨h.1, h.2.1, ?_⟩
    rw [hnext x List.mem_cons_self]
    exact ih h.2.2 fun y hy => hnext y (List.mem_cons_of_mem _ hy)

/-- Writing the `next` field of a node off the chain leaves the chain alone. -/
theorem Chain.update [DecidableEq α] (h : Chain next null p l) (hx : x ∉ l) (v : α) :
    Chain (Function.update next x v) null p l :=
  h.congr fun _ hy => Function.update_of_ne (ne_of_mem_of_not_mem hy hx) _ _

/-- Linking a new node `x` behind the visited node `a`. -/
theorem Chain.insert [DecidableEq α] {a : α} (h : Chain next null p (k ++ a :: l))
    (hx : x ∉ k ++ a :: l) (hx0 : x ≠ null) :
    Chain (Function.update (Function.update next x (next a)) a x) null p (k ++ a :: x :: l) := by
  have hnodup := h.nodup
  -- along the list, down to the node the value is put behind
  induction k generalizing p with
  | nil =>
    obtain ⟨rfl, ha, hl⟩ := h
    have hxa : x ≠ p := fun e => hx (by simp [e])
    refine ⟨rfl, ha, by simp, hx0, ?_⟩
    rw [Function.update_of_ne hxa, Function.update_self]
    refine (hl.update (fun hm => hx (by simp [hm])) _).update ?_ _
    exact (List.nodup_cons.mp hnodup).1
  | cons y ys ih =>
    obtain ⟨rfl, hp, hrest⟩ := h
    have hpx : p ≠ x := fun e => hx (by simp [e])
    have hpa : p ≠ a := fun e => (List.nodup_cons.mp hnodup).1 (by simp [e])
    refine ⟨rfl, hp, ?_⟩
    rw [Function.update_of_ne hpa, Function.update_of_ne hpx]
    exact ih hrest (fun hm => hx (List.mem_cons_of_mem _ hm)) (List.nodup_cons.mp hnodup).2

/-- A chain of pointers below `n` is shorter than `n`. -/
theorem Chain.length_lt {next : Nat → Nat} {p n : Nat} {l : List Nat} (h : Chain next 0 p l)
    (hn : 0 < n) (hl : ∀ x ∈ l, x < n) : l.length < n := by
  have hsub : (0 :: l).length ≤ (List.range n).length := by
    refine List.Nodup.length_le_of_subset ?_ fun x hx => ?_
    · exact List.nodup_cons.mpr ⟨fun h0 => h.ne_null h0 rfl, h.nodup⟩
    · rcases List.mem_cons.mp hx with rfl | hx
      · exact List.mem_range.mpr hn
      · exact List.mem_range.mpr (hl x hx)
  rwa [List.length_cons, List.length_range] at hsub

end LinkedList
