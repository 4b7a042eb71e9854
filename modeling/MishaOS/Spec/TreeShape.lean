import MishaOS.Native.Tree
import Mathlib.Data.List.Perm.Basic

/-!
# Shapes of trees

A tree in the store, described by its nodes and child entries, and what the
functions that walk a whole tree or take a node out of it do to it.

## Key results

- `treeFreedNodes_perm`: `tree_free_nodes` frees each node and each entry once.
- `tree_free_releases_iff`: `tree_free` returns for a single node only.
- `tree_remove_and_merge_never`: the removed node stays in the tree.
-/

namespace MishaOS

/-- The child entries of a node in order, each with its node, the value of this, and
    what is below it. -/
inductive Forest
  | nil
  | cons (entry node value : Nat) (below rest : Forest)

structure Tree where
  root : Nat
  value : Nat
  below : Forest

namespace Forest

def nodes : Forest → List Nat
  | nil => []
  | cons _ a _ below rest => a :: (below.nodes ++ rest.nodes)

def entries : Forest → List Nat
  | nil => []
  | cons e _ _ below rest => e :: (below.entries ++ rest.entries)

def values : Forest → List Nat
  | nil => []
  | cons _ _ v below rest => v :: (below.values ++ rest.values)

/-- The nodes of the entries themselves, with what they hold and what is below them. -/
def top : Forest → List (Nat × Nat × Forest)
  | nil => []
  | cons _ a v below rest => (a, v, below) :: rest.top

/-- The children of `p`. -/
def childrenOf (p : Nat) : Forest → List (Nat × Nat × Forest)
  | nil => []
  | cons _ a _ below rest =>
    (if a = p then below.top else []) ++ (below.childrenOf p ++ rest.childrenOf p)

/-- Rounds that suffice for a walk. -/
def rounds : Forest → Nat
  | nil => 1
  | cons _ _ _ below rest => below.rounds + rest.rounds + 2

end Forest

def Tree.nodes (t : Tree) : List Nat := t.root :: t.below.nodes

def Tree.entries (t : Tree) : List Nat := t.below.entries

def Tree.values (t : Tree) : List Nat := t.value :: t.below.values

def Tree.childrenOf (t : Tree) (p : Nat) : List (Nat × Nat × Forest) :=
  (if t.root = p then t.below.top else []) ++ t.below.childrenOf p

variable {s s' : TreeStore} {t t' : Tree} {f : Forest} {a c n p q x : Nat} {l : List Nat}

/-- From `child` on, the entries of the node `parent` are those of the forest; `prev` is
    the entry before. -/
def IsForest (s : TreeStore) (parent : Nat) : (prev child : Nat) → Forest → Prop
  | _, child, .nil => child = 0
  | prev, child, .cons e a v below rest =>
    child = e ∧ e ≠ 0 ∧ (s.child e).prev = prev ∧ (s.child e).value = a ∧
      a ≠ 0 ∧ (s.node a).parent = parent ∧ (s.node a).value = v ∧
      IsForest s a 0 (s.node a).children below ∧ IsForest s parent e (s.child e).next rest

/-- A well-formed tree: the entries are doubly linked, each node names its parent, and
    all blocks are different. -/
structure IsTree (s : TreeStore) (t : Tree) : Prop where
  root : t.root ≠ 0
  parent : (s.node t.root).parent = 0
  value : (s.node t.root).value = t.value
  below : IsForest s t.root 0 (s.node t.root).children t.below
  distinct : (t.nodes ++ t.entries).Nodup

/-! ## Freeing a tree -/

/-- Only the contents of the blocks matter for a walk. -/
theorem treeFreed_congr (hnode : s'.node = s.node) (hchild : s'.child = s.child) (n x : Nat) :
    treeFreedNodes s' n x = treeFreedNodes s n x ∧
    treeFreedChildren s' n x = treeFreedChildren s n x := by
  -- the two walks call each other, so both are followed at once
  induction n generalizing x with
  | zero => exact ⟨rfl, rfl⟩
  | succ n ih => simp [treeFreedNodes, treeFreedChildren, hnode, hchild, ih]

theorem foldl_free_contents (l : List Nat) (s : TreeStore) :
    (l.foldl TreeStore.free s).node = s.node ∧ (l.foldl TreeStore.free s).child = s.child := by
  induction l generalizing s with
  | nil => exact ⟨rfl, rfl⟩
  | cons x l ih => exact ih (s.free x)

/-- `tree_free_nodes` does nothing but free blocks. -/
theorem treeFreeNodes_eq (n : Nat) (s : TreeStore) (x : Nat) :
    treeFreeNodes n s x = (treeFreedNodes s n x).map (·.foldl TreeStore.free s) ∧
      treeFreeChildren n s x = (treeFreedChildren s n x).map (·.foldl TreeStore.free s) := by
  -- blocks that have been freed keep their contents, so the walk goes on as in `s`
  induction n generalizing s x with
  | zero => exact ⟨rfl, rfl⟩
  | succ n ih =>
    constructor
    · rw [treeFreeNodes, treeFreedNodes]
      split
      · rfl
      · rw [(ih s _).2]
        cases treeFreedChildren s n (s.node x).children <;> simp
    · rw [treeFreeChildren, treeFreedChildren]
      split
      · rfl
      · simp only [(ih s _).1]
        cases treeFreedNodes s n (s.child x).value with
        | none => rfl
        | some freed =>
          -- the rest of the list is read after the child has been freed
          have hsame : treeFreedChildren ((freed.foldl TreeStore.free s).free x) n
            (s.child x).next =
              treeFreedChildren s n (s.child x).next := by
            obtain ⟨hnode, hchild⟩ := foldl_free_contents freed s
            have hnode' : ((freed.foldl TreeStore.free s).free x).node = s.node := hnode
            exact (treeFreed_congr hnode' hchild n _).2
          simp only [Option.map_some, Option.bind_eq_bind, Option.bind_some, (ih _ _).2, hsame]
          cases treeFreedChildren s n (s.child x).next <;> simp

/-- Each node and each entry of the list is freed once. -/
theorem treeFreedChildren_perm (h : IsForest s p q c f) (hn : f.rounds ≤ n) :
    ∃ l, treeFreedChildren s n c = some l ∧ l.Perm (f.nodes ++ f.entries) := by
  -- the induction is on the forest: first what is below the child, then the rest of the list
  induction f generalizing p q c n with
  | nil =>
    obtain ⟨n, rfl⟩ : ∃ k, n = k + 1 := ⟨n - 1, by simp [Forest.rounds] at hn; omega⟩
    have hc : c = 0 := h
    exact ⟨[], by rw [treeFreedChildren, if_pos hc], .nil⟩
  | cons e a v below rest ihb ihr =>
    obtain ⟨rfl, hc, -, hvalue, ha, -, -, hbelow, hrest⟩ := h
    rw [Forest.rounds] at hn
    obtain ⟨n, rfl⟩ : ∃ k, n = k + 2 := ⟨n - 2, by omega⟩
    obtain ⟨lb, hlb, hpb⟩ := ihb (n := n) hbelow (by omega)
    obtain ⟨lr, hlr, hpr⟩ := ihr (n := n + 1) hrest (by omega)
    have hnodes : treeFreedNodes s (n + 1) (s.child c).value = some (lb ++ [a]) := by
      rw [hvalue, treeFreedNodes, if_neg ha, hlb]
      rfl
    refine ⟨lb ++ [a] ++ c :: lr, ?_, ?_⟩
    · rw [treeFreedChildren, if_neg hc, hnodes, hlr]
      rfl
    -- a node comes after what is below it, an entry after its node
    · rw [List.perm_iff_count] at hpb hpr ⊢
      intro y
      have hb := hpb y
      have hr := hpr y
      simp only [Forest.nodes, Forest.entries, List.count_append, List.count_cons, List.count_nil]
        at hb hr ⊢
      omega

/-- `tree_free_nodes` frees each node and each entry once. -/
theorem treeFreedNodes_perm (h : IsTree s t) (hn : t.below.rounds < n) :
    ∃ l, treeFreedNodes s n t.root = some l ∧ l.Perm (t.nodes ++ t.entries) := by
  obtain ⟨n, rfl⟩ : ∃ k, n = k + 1 := ⟨n - 1, by omega⟩
  obtain ⟨l, hl, hperm⟩ := treeFreedChildren_perm h.below (Nat.le_of_lt_succ hn)
  refine ⟨l ++ [t.root], ?_, List.perm_append_comm.trans (hperm.cons t.root)⟩
  rw [treeFreedNodes, if_neg h.root, hl]
  rfl

/-- Where there is a child, `tree_free_values` calls itself with the same tree. -/
theorem treeFreeValues_none (hx : x ≠ 0) (hchild : (s.node x).children ≠ 0) (n : Nat) :
    treeFreeValues s n x = none := by
  -- the loop over the children costs one round more than the call
  induction n using Nat.strongRecOn with
  | ind n ih =>
    cases n with
    | zero => rfl
    | succ n =>
      rw [treeFreeValues, if_neg hx]
      cases n with
      | zero => rfl
      | succ n => rw [treeFreeValuesLoop, if_neg hchild, ih n (by omega)]; rfl

/-- The blocks of a tree: its nodes, its entries and the values, unless they are null. -/
def Tree.blocks (t : Tree) : List Nat := t.nodes ++ t.entries ++ t.values.filter (· ≠ 0)

/-- `tree_free` returns, with each block freed once, exactly for a single node with a value. -/
theorem tree_free_releases_iff (h : IsTree s t) :
    (∃ n l, treeFree s n t.root = some l ∧ l.Perm t.blocks) ↔ t.below = .nil ∧ t.value ≠ 0 := by
  obtain ⟨root, value, below⟩ := t
  have hroot : root ≠ 0 := h.root
  have hbelow : IsForest s root 0 (s.node root).children below := h.below
  have hvalue : (s.node root).value = value := h.value
  cases below with
  | nil =>
    have hc : (s.node root).children = 0 := hbelow
    -- the value is freed first, then the only node
    have hfree : ∀ n, treeFree s (n + 2) root = some [value, root] := by
      intro n
      simp [treeFree, treeFreeValues, treeFreeValuesLoop, treeFreedNodes, treeFreedChildren,
        hroot, hc, hvalue]
    constructor
    · rintro ⟨n, l, hl, hperm⟩
      refine ⟨rfl, fun h0 => ?_⟩
      -- a null value is freed as well
      have hl2 : l = [value, root] := by
        match n, hl with
        | 0, hl => simp [treeFree, treeFreeValues, hroot] at hl
        | 1, hl => simp [treeFree, treeFreeValues, treeFreeValuesLoop, hroot] at hl
        | n + 2, hl => exact (Option.some.inj ((hfree n).symm.trans hl)).symm
      have hlen := hperm.length_eq
      obtain rfl : value = 0 := h0
      simp [hl2, Tree.blocks, Tree.nodes, Tree.entries, Tree.values, Forest.nodes, Forest.entries,
        Forest.values] at hlen
    · rintro ⟨-, h0⟩
      have hne : value ≠ 0 := h0
      refine ⟨2, _, hfree 0, ?_⟩
      have hblocks : Tree.blocks ⟨root, value, .nil⟩ = [root, value] := by
        simp [Tree.blocks, Tree.nodes, Tree.entries, Tree.values, Forest.nodes, Forest.entries,
          Forest.values, hne]
      rw [hblocks]
      exact .swap _ _ _
  | cons e a v below rest =>
    -- the first child is enough
    obtain ⟨hc, he, -⟩ := hbelow
    have hchild : (s.node root).children ≠ 0 := hc ▸ he
    refine iff_of_false ?_ (by simp)
    rintro ⟨n, l, hl, -⟩
    rw [treeFree, if_neg hroot, treeFreeValues_none hroot hchild] at hl
    simp at hl

/-! ### Two trees -/

/-- The root 0x10; below it 0x30 and, below that, 0x50. -/
def TreeStore.line : TreeStore where
  allocated _ := true
  node a := if a = 0x10 then ⟨0x20, 0, 1⟩ else if a = 0x30 then ⟨0x40, 0x10, 2⟩ else ⟨0, 0x30, 3⟩
  child e := if e = 0x20 then ⟨0, 0, 0x30⟩ else ⟨0, 0, 0x50⟩

def Tree.line : Tree := ⟨0x10, 1, .cons 0x20 0x30 2 (.cons 0x40 0x50 3 .nil .nil) .nil⟩

theorem line_isTree : IsTree .line .line where
  root := by decide
  parent := rfl
  value := rfl
  below :=
    ⟨rfl, by decide, rfl, rfl, by decide, rfl, rfl,
      ⟨rfl, by decide, rfl, rfl, by decide, rfl, rfl, rfl, rfl⟩, rfl⟩
  distinct := by decide

/-- A single node is freed with its value. -/
theorem tree_free_releases_node :
    ∃ n l, treeFree ⟨fun _ => true, fun _ => ⟨0, 0, 1⟩, fun _ => ⟨0, 0, 0⟩⟩ n 0x10 = some l ∧
      l.Perm (Tree.blocks ⟨0x10, 1, .nil⟩) := by
  have htree : IsTree ⟨fun _ => true, fun _ => ⟨0, 0, 1⟩, fun _ => ⟨0, 0, 0⟩⟩ ⟨0x10, 1, .nil⟩ :=
    ⟨by decide, rfl, rfl, rfl, by decide⟩
  exact (tree_free_releases_iff htree).mpr ⟨rfl, by decide⟩

/-- With a child, `tree_free` does not return. -/
theorem tree_free_does_not_return :
    IsTree .line .line ∧ ∀ n, treeFree .line n Tree.line.root = none := by
  refine ⟨line_isTree, fun n => ?_⟩
  have hroot : Tree.line.root ≠ 0 := by decide
  rw [treeFree, if_neg hroot, treeFreeValues_none hroot (by decide)]
  rfl

/-! ## Taking a node out -/

/-- `x` is the node of an entry from `child` on, or below one. -/
inductive Under (s : TreeStore) : Nat → Nat → Prop
  | here {c : Nat} : c ≠ 0 → Under s c (s.child c).value
  | down {c x : Nat} : c ≠ 0 → Under s (s.node (s.child c).value).children x → Under s c x
  | next {c x : Nat} : c ≠ 0 → Under s (s.child c).next x → Under s c x

theorem not_under_zero : ¬ Under s 0 x := by
  rintro (⟨h⟩ | ⟨h, -⟩ | ⟨h, -⟩) <;> exact h rfl

/-- The nodes of a forest are those its entries lead to. -/
theorem IsForest.mem_nodes (h : IsForest s p q c f) : x ∈ f.nodes ↔ Under s c x := by
  -- the induction is on the forest, the three cases of `Under` are its parts
  induction f generalizing p q c with
  | nil =>
    obtain rfl : c = 0 := h
    exact iff_of_false (by simp [Forest.nodes]) not_under_zero
  | cons e a v below rest ihb ihr =>
    obtain ⟨rfl, hc, -, rfl, -, -, -, hbelow, hrest⟩ := h
    rw [Forest.nodes, List.mem_cons, List.mem_append, ihb hbelow, ihr hrest]
    constructor
    · rintro (rfl | hx | hx)
      · exact .here hc
      · exact .down hc hx
      · exact .next hc hx
    · intro hx
      cases hx with
      | here _ => exact .inl rfl
      | down _ hx => exact .inr (.inl hx)
      | next _ hx => exact .inr (.inr hx)

/-- A list can be continued behind its end; all that was there stays. -/
theorem Under.extend (hx : Under s c x) (hnode : ∀ a, (s'.node a).children = (s.node a).children)
    (hvalue : ∀ e, (s'.child e).value = (s.child e).value)
    (hnext : ∀ e, (s.child e).next = 0 ∨ (s'.child e).next = (s.child e).next) : Under s' c x := by
  -- the last entry of the list is the only one whose `next` may change
  induction hx with
  | @here c hc =>
    rw [← hvalue]
    exact .here hc
  | @down c x hc _ ih => exact .down hc (by rwa [hvalue, hnode])
  | @next c x hc hx ih =>
    rcases hnext c with h0 | heq
    · exact absurd (h0 ▸ hx) not_under_zero
    · exact .next hc (heq ▸ ih)

theorem treeLastChild_next (h : treeLastChild s n c = some x) : (s.child x).next = 0 := by
  induction n generalizing c with
  | zero => simp [treeLastChild] at h
  | succ n ih =>
    rw [treeLastChild] at h
    split at h
    · rename_i h0
      exact Option.some.inj h ▸ h0
    · exact ih h

/-- `tree_remove_and_merge` appends to the list of the siblings, and frees the node. -/
theorem treeRemoveAndMerge_eq (hx : x ≠ 0) (hp : (s.node x).parent ≠ 0)
    (h : treeRemoveAndMerge s x = some s') :
    ∃ e, (s.child e).next = 0 ∧
      s' = (s.setChild e { s.child e with next := (s.node x).children }).free x := by
  simp only [treeRemoveAndMerge, if_neg hx, if_neg hp, Option.bind_eq_bind,
    Option.bind_eq_some_iff] at h
  obtain ⟨e, he, h⟩ := h
  exact ⟨e, treeLastChild_next he, (Option.some.inj h).symm⟩

/-- `n` is out of the tree `t`: in the tree `t'` its children, with all that is below
    them, are children of the node that was its parent. -/
structure TakenOut (s' : TreeStore) (t : Tree) (p n : Nat) (t' : Tree) : Prop where
  tree : IsTree s' t'
  root : t'.root = t.root
  nodes : t'.nodes.Perm (t.nodes.erase n)
  children : (t'.childrenOf p).Perm ((t.childrenOf p).filter (·.1 ≠ n) ++ t.childrenOf n)

theorem IsForest.node_ne_zero (h : IsForest s p q c f) (hp : p ≠ 0) (hx : x ∈ f.nodes) :
    x ≠ 0 ∧ (s.node x).parent ≠ 0 := by
  -- a node of the forest has the node above it as its parent
  induction f generalizing p q c with
  | nil => simp [Forest.nodes] at hx
  | cons e a v below rest ihb ihr =>
    obtain ⟨-, -, -, -, ha, hparent, -, hbelow, hrest⟩ := h
    rw [Forest.nodes, List.mem_cons, List.mem_append] at hx
    rcases hx with rfl | hx | hx
    · exact ⟨ha, hparent ▸ hp⟩
    · exact ihb hbelow ha hx
    · exact ihr hrest hp hx

/-- A node that is removed can still be reached from the root. -/
theorem under_removeAndMerge (h : IsTree s t) (hn : n ∈ t.below.nodes)
    (hs : treeRemoveAndMerge s n = some s') : Under s' (s'.node t.root).children n := by
  obtain ⟨hn0, hp⟩ := h.below.node_ne_zero h.root hn
  obtain ⟨e, he, rfl⟩ := treeRemoveAndMerge_eq hn0 hp hs
  have hbelow := (h.below.mem_nodes).mp hn
  -- one field of one entry is written, and freeing writes nothing
  have hchild : ∀ e', e' ≠ e →
      ((s.setChild e { s.child e with next := (s.node n).children }).free n).child e' =
        s.child e' :=
    fun e' hne => Function.update_of_ne hne _ _
  have hself : ((s.setChild e { s.child e with next := (s.node n).children }).free n).child e =
      { s.child e with next := (s.node n).children } := Function.update_self _ _ _
  refine hbelow.extend (fun _ => rfl) (fun e' => ?_) (fun e' => ?_)
  · rcases eq_or_ne e' e with rfl | hne
    · rw [hself]
    · rw [hchild e' hne]
  · rcases eq_or_ne e' e with rfl | hne
    · exact .inl he
    · exact .inr (by rw [hchild e' hne])

/-- Whatever tree is found from the root afterwards, it contains the node. -/
theorem mem_of_removeAndMerge (h : IsTree s t) (hn : n ∈ t.below.nodes)
    (hs : treeRemoveAndMerge s n = some s') (ht : IsTree s' t') (hroot : t'.root = t.root) :
    n ∈ t'.nodes := by
  have hbelow := under_removeAndMerge h hn hs
  rw [← hroot] at hbelow
  exact List.mem_cons_of_mem _ ((ht.below.mem_nodes).mpr hbelow)

theorem not_takenOut (h : IsTree s t) (hn : n ∈ t.below.nodes)
    (hs : treeRemoveAndMerge s n = some s') :
    ¬ TakenOut s' t p n t' := by
  intro hm
  -- the node is found again, in any tree with this root
  have hmem := hm.nodes.mem_iff.mp (mem_of_removeAndMerge h hn hs hm.tree hm.root)
  have hnd : t.nodes.Nodup := (List.nodup_append.mp h.distinct).1
  exact (List.Nodup.not_mem_erase hnd) hmem

/-- `tree_remove_and_merge` takes out no node of any tree. -/
theorem tree_remove_and_merge_never (h : IsTree s t) (hn : n ∈ t.nodes) (hroot : n ≠ t.root) :
    ¬ ∃ s' t', treeRemoveAndMerge s n = some s' ∧ TakenOut s' t (s.node n).parent n t' := by
  rintro ⟨s', t', hs, hm⟩
  exact not_takenOut h ((List.mem_cons.mp hn).resolve_left hroot) hs hm

/-- What taking out 0x30 should leave. -/
example : TakenOut ⟨fun _ => true,
    fun a => if a = 0x10 then ⟨0x40, 0, 1⟩ else ⟨0, 0x10, 3⟩, fun _ => ⟨0, 0, 0x50⟩⟩
    .line 0x10 0x30 ⟨0x10, 1, .cons 0x40 0x50 3 .nil .nil⟩ where
  tree := ⟨by decide, rfl, rfl, ⟨rfl, by decide, rfl, rfl, by decide, rfl, rfl, rfl, rfl⟩,
    by decide⟩
  root := rfl
  nodes := by decide
  children := .refl _

theorem tree_remove_and_merge_never_line :
    ¬ ∃ s' t', treeRemoveAndMerge .line 0x30 = some s' ∧ TakenOut s' .line 0x10 0x30 t' :=
  tree_remove_and_merge_never line_isTree (by decide) (by decide)

/-- 0x30 is freed, but its entry is still the one below the root, and it is still the
    parent of 0x50. -/
theorem removed_node_stays :
    ∃ s', treeRemoveAndMerge .line 0x30 = some s' ∧ s'.allocated 0x30 = false ∧
      (s'.child (s'.node 0x10).children).value = 0x30 ∧ (s'.node 0x50).parent = 0x30 ∧
      ¬ ∃ t', TakenOut s' .line 0x10 0x30 t' := by
  have hsome : (treeRemoveAndMerge .line 0x30).map (fun s' =>
      (s'.allocated 0x30, (s'.child (s'.node 0x10).children).value, (s'.node 0x50).parent)) =
      some (false, 0x30, 0x30) := by
    decide +kernel
  obtain ⟨s', hs, hfacts⟩ := Option.map_eq_some_iff.mp hsome
  obtain ⟨hfreed, hrest⟩ := Prod.mk.inj hfacts
  obtain ⟨hvalue, hparent⟩ := Prod.mk.inj hrest
  exact ⟨s', hs, hfreed, hvalue, hparent, fun ⟨_, hm⟩ => not_takenOut line_isTree (by decide) hs hm⟩

end MishaOS
