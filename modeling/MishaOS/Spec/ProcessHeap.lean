import MishaOS.ForStd.Ownership
import MishaOS.Native.Process

/-!
# The blocks of a process

A process owns its structure, its two strings, its node in the process tree
with the child entries that hang on it, and its descriptor list.  `BlockInv`
says that all of these are allocated, that no block has two owners, and that
the node of a process stands alone: `tree_insert_node` links it to no parent
and stores no node in a child entry.

## Key results

- `BlockInv.spawnProcess`, `BlockInv.deleteProcess`: both calls keep the invariant.
- `deleteProcess_eq`: deleting a process frees its node, the entries on it and the process.
-/

namespace MishaOS

open LinkedList

/-- `malloc` can return these addresses, one after the other. -/
def MallocOk (s : TreeStore) (l : List Nat) : Prop :=
  l.Nodup ∧ ∀ a ∈ l, 0 < a ∧ a < 4294967296 ∧ s.allocated a = false

instance (s : TreeStore) (l : List Nat) : Decidable (MallocOk s l) :=
  inferInstanceAs (Decidable (_ ∧ _))

/-! ## What a process owns -/

/-- `x` is on the list that starts at `p`. -/
def Reaches (next : Nat → Nat) (p x : Nat) : Prop := ∃ l, Chain next 0 p l ∧ x ∈ l

/-- `e` is a child entry of the node of `p`. -/
def ProcWorld.childEntry (w : ProcWorld) (p e : Nat) : Prop :=
  Reaches (fun e => (w.heap.child e).next) (w.heap.node (w.proc p).processTree).children e

/-- `a` is on the descriptor list of `p`. -/
def ProcWorld.fdNode (w : ProcWorld) (p a : Nat) : Prop :=
  Reaches (fun a => (w.fd a).link) (w.proc p).fds a

def ownBlocks (w : ProcWorld) (p a : Nat) : Prop :=
  a ∈ [p, (w.proc p).name, (w.proc p).workingDirPath, (w.proc p).processTree] ∨
    w.childEntry p a ∨ w.fdNode p a

/-- The lists of `p` end, and its node is linked to no other node. -/
structure ProcessOk (w : ProcWorld) (p : Nat) : Prop where
  ne : p ≠ 0
  tree : (w.proc p).processTree ≠ 0
  orphan : (w.heap.node (w.proc p).processTree).parent = 0
  children : ∃ l, Chain (fun e => (w.heap.child e).next) 0
    (w.heap.node (w.proc p).processTree).children l ∧ ∀ e ∈ l, (w.heap.child e).value = 0
  fds : ∃ l, Chain (fun a => (w.fd a).link) 0 (w.proc p).fds l

structure BlockInv (init : Nat) (w : ProcWorld) : Prop where
  owned : Owned (· ∈ w.live) (ownBlocks w) (fun a => w.heap.allocated a = true)
  proc : ∀ p ∈ w.live, ProcessOk w p
  lt : ∀ p ∈ w.live, ∀ a, ownBlocks w p a → a < 4294967296
  nodup : w.live.Nodup
  mem : init ∈ w.live
  root : w.processTree = (w.proc init).processTree
  value : (w.heap.node w.processTree).value = init

/-- What `spawn_process` needs of the blocks; processes may share descriptors. -/
structure ProcessesOk (w : ProcWorld) : Prop where
  used : ∀ p ∈ w.live, ∀ a, ownBlocks w p a → w.heap.allocated a = true
  tree : ∀ p ∈ w.live, ∀ q ∈ w.live, (w.proc p).processTree = (w.proc q).processTree → p = q
  proc : ∀ p ∈ w.live, ProcessOk w p

variable {w w' : ProcWorld} {m : SpawnMem} {s s' : TreeStore}
    {init p q a x parent : Nat} {l : List Nat}

/-- The processes are well formed. -/
theorem BlockInv.processesOk (h : BlockInv init w) : ProcessesOk w where
  used p hp a := h.owned.used p a hp
  tree p hp q hq heq := by
    apply h.owned.apart p q (w.proc p).processTree hp hq
    · exact .inl (by simp)
    · exact .inl (by simp [heq])
  proc := h.proc

/-- What can be reached in a list is what is on it. -/
theorem Reaches.of_chain {next : Nat → Nat} (h : Chain next 0 p l) : Reaches next p x ↔ x ∈ l := by
  constructor
  · rintro ⟨k, hk, hx⟩
    rwa [h.unique hk]
  · exact fun hx => ⟨l, h, hx⟩

/-- What the blocks of `p` are read from is the same in both states. -/
structure BlocksKept (w w' : ProcWorld) (p : Nat) : Prop where
  name : (w'.proc p).name = (w.proc p).name
  path : (w'.proc p).workingDirPath = (w.proc p).workingDirPath
  tree : (w'.proc p).processTree = (w.proc p).processTree
  fds : (w'.proc p).fds = (w.proc p).fds
  node : w'.heap.node (w.proc p).processTree = w.heap.node (w.proc p).processTree
  child : ∀ e, w.childEntry p e →
    (w'.heap.child e).next = (w.heap.child e).next ∧
      (w'.heap.child e).value = (w.heap.child e).value
  fd : ∀ a, w.fdNode p a → w'.fd a = w.fd a

/-- A process whose blocks are kept stays well formed. -/
theorem BlocksKept.processOk (h : BlocksKept w w' p) (hp : ProcessOk w p) : ProcessOk w' p := by
  obtain ⟨l, hl, hvalue⟩ := hp.children
  obtain ⟨k, hk⟩ := hp.fds
  have hchild := fun e he => h.child e ⟨l, hl, he⟩
  have hl' : Chain (fun e => (w'.heap.child e).next) 0
      (w.heap.node (w.proc p).processTree).children l := hl.congr fun e he => (hchild e he).1
  constructor
  · exact hp.ne
  · exact h.tree ▸ hp.tree
  · rw [h.tree, h.node]
    exact hp.orphan
  · rw [h.tree, h.node]
    exact ⟨l, hl', fun e he => (hchild e he).2.trans (hvalue e he)⟩
  · rw [h.fds]
    exact ⟨k, hk.congr fun a ha => by rw [h.fd a ⟨k, hk, ha⟩]⟩

/-- It has the same entries of children. -/
theorem BlocksKept.childEntry (h : BlocksKept w w' p) (hp : ProcessOk w p) (e : Nat) :
    w'.childEntry p e ↔ w.childEntry p e := by
  obtain ⟨l, hl, -⟩ := hp.children
  have hl' : Chain (fun e => (w'.heap.child e).next) 0
      (w'.heap.node (w'.proc p).processTree).children l := by
    rw [h.tree, h.node]
    exact hl.congr fun e he => (h.child e ⟨l, hl, he⟩).1
  exact (Reaches.of_chain hl').trans (Reaches.of_chain hl).symm

/-- It has the same file descriptors. -/
theorem BlocksKept.fdNode (h : BlocksKept w w' p) (hp : ProcessOk w p) (a : Nat) :
    w'.fdNode p a ↔ w.fdNode p a := by
  obtain ⟨l, hl⟩ := hp.fds
  have hl' : Chain (fun a => (w'.fd a).link) 0 (w'.proc p).fds l := by
    rw [h.fds]
    exact hl.congr fun a ha => by rw [h.fd a ⟨l, hl, ha⟩]
  exact (Reaches.of_chain hl').trans (Reaches.of_chain hl).symm

/-- So it owns the same blocks. -/
theorem BlocksKept.ownBlocks (h : BlocksKept w w' p) (hp : ProcessOk w p) (a : Nat) :
    ownBlocks w' p a ↔ ownBlocks w p a := by
  unfold MishaOS.ownBlocks
  rw [h.childEntry hp, h.fdNode hp, h.name, h.path, h.tree]

/-! ## Allocating and freeing lists -/

/-- Freeing blocks leaves the nodes as they are. -/
@[simp] theorem TreeStore.foldl_free_node (s : TreeStore) (l : List Nat) :
    (l.foldl TreeStore.free s).node = s.node := by
  induction l generalizing s with
  | nil => rfl
  | cons a l ih => exact ih _

/-- It leaves the entries of children as they are. -/
@[simp] theorem TreeStore.foldl_free_child (s : TreeStore) (l : List Nat) :
    (l.foldl TreeStore.free s).child = s.child := by
  induction l generalizing s with
  | nil => rfl
  | cons a l ih => exact ih _

/-- The blocks of the list are no longer allocated. -/
theorem TreeStore.foldl_free_allocated (s : TreeStore) (l : List Nat) (a : Nat) :
    (l.foldl TreeStore.free s).allocated a = (s.allocated a && decide (a ∉ l)) := by
  induction l generalizing s with
  | nil => simp
  | cons b l ih =>
    rw [List.foldl_cons, ih]
    rcases eq_or_ne a b with rfl | hab
    · simp [TreeStore.free]
    · simp [TreeStore.free, hab]

/-- The blocks of the list are allocated, besides those before. -/
theorem TreeStore.foldl_alloc_allocated (s : TreeStore) (l : List Nat) (a : Nat) :
    (l.foldl TreeStore.alloc s).allocated a = true ↔ a ∈ l ∨ s.allocated a = true := by
  induction l generalizing s with
  | nil => simp
  | cons b l ih =>
    rw [List.foldl_cons, ih, List.mem_cons]
    rcases eq_or_ne a b with rfl | hab
    · simp [TreeStore.alloc]
    · simp [TreeStore.alloc, hab]

/-- The loop over children without values frees their entries. -/
theorem treeFreeChildren_eq {n c : Nat} (h : Chain (fun e => (s.child e).next) 0 c l)
    (hvalue : ∀ e ∈ l, (s.child e).value = 0) (hn : l.length < n) :
    treeFreeChildren n s c = some (l.foldl TreeStore.free s) := by
  induction l generalizing n s c with
  | nil =>
    obtain ⟨n, rfl⟩ : ∃ k, n = k + 1 := ⟨n - 1, by simp at hn; omega⟩
    have hc : c = 0 := h
    simp [treeFreeChildren, hc]
  | cons e l ih =>
    obtain ⟨rfl, hc, hrest⟩ := h
    rw [List.length_cons] at hn
    obtain ⟨n, rfl⟩ : ∃ k, n = k + 2 := ⟨n - 2, by omega⟩
    -- the entry holds no node, so only the entry itself is freed
    have hnull : treeFreeNodes (n + 1) s (s.child c).value = some s := by
      rw [hvalue c List.mem_cons_self, treeFreeNodes, if_pos rfl]
    have hrec := ih (s := s.free c) (n := n + 1) hrest
      (fun e he => hvalue e (List.mem_cons_of_mem _ he)) (by omega)
    rw [treeFreeChildren, if_neg hc]
    simpa [hnull] using hrec

/-- The loop over the file descriptors frees them. -/
theorem freeFds_eq {n fd : Nat} (h : Chain (fun a => (w.fd a).link) 0 fd l) (hn : l.length < n) :
    freeFds n w fd = some { w with heap := l.foldl TreeStore.free w.heap } := by
  induction l generalizing n w fd with
  | nil =>
    obtain ⟨n, rfl⟩ : ∃ k, n = k + 1 := ⟨n - 1, by simp at hn; omega⟩
    have hfd : fd = 0 := h
    simp [freeFds, hfd]
  | cons a l ih =>
    obtain ⟨rfl, hfd, hrest⟩ := h
    rw [List.length_cons] at hn
    obtain ⟨n, rfl⟩ : ∃ k, n = k + 1 := ⟨n - 1, by omega⟩
    rw [freeFds, if_neg hfd]
    exact ih (w := w.free fd) hrest (by omega)

/-- Deleting a process frees the entries on its node, the node and the process. -/
theorem deleteProcess_eq (h : ProcessOk w p) (hroot : (w.proc p).processTree ≠ w.processTree)
    (hl : Chain (fun e => (w.heap.child e).next) 0 (w.heap.node (w.proc p).processTree).children l)
    (hvalue : ∀ e ∈ l, (w.heap.child e).value = 0) (hlen : l.length < walkFuel) :
    deleteProcess w p = some { w with
      heap := (l ++ [(w.proc p).processTree, p]).foldl TreeStore.free w.heap
      live := w.live.erase p } := by
  have hfree : treeFreeNodes treeFuel w.heap (w.proc p).processTree =
      some ((l.foldl TreeStore.free w.heap).free (w.proc p).processTree) := by
    obtain ⟨n, hn⟩ : ∃ n, treeFuel = n + 1 := ⟨treeFuel - 1, rfl⟩
    have hln : l.length < n := by
      have htwo : treeFuel = 2 * walkFuel := rfl
      have hwalk : walkFuel = 4294967296 := rfl
      omega
    rw [hn, treeFreeNodes, if_neg h.tree, treeFreeChildren_eq hl hvalue hln]
    rfl
  unfold deleteProcess treeRemoveAndMerge treeRemoveBranch
  simp [h.ne, hroot, h.tree, h.orphan, hfree, List.foldl_append]

/-! ## The invariant -/

/-- A process below the root is not `init`. -/
theorem BlockInv.ne_of_not_root (h : BlockInv init w)
    (hroot : (w.proc p).processTree ≠ w.processTree) :
    p ≠ init := by
  rintro rfl
  exact hroot h.root.symm

/-- The invariant is about the heap, the descriptor lists and four fields of each process. -/
theorem BlockInv.congr (h : BlockInv init w) (hheap : w'.heap = w.heap) (hfd : w'.fd = w.fd)
    (hlive : w'.live = w.live) (hroot : w'.processTree = w.processTree)
    (hproc : ∀ p, (w'.proc p).name = (w.proc p).name ∧
      (w'.proc p).workingDirPath = (w.proc p).workingDirPath ∧
      (w'.proc p).processTree = (w.proc p).processTree ∧ (w'.proc p).fds = (w.proc p).fds) :
    BlockInv init w' := by
  have hkept : ∀ p, BlocksKept w w' p := fun p =>
    { name := (hproc p).1
      path := (hproc p).2.1
      tree := (hproc p).2.2.1
      fds := (hproc p).2.2.2
      node := by rw [hheap]
      child := fun e _ => by simp [hheap]
      fd := fun a _ => by rw [hfd] }
  -- nothing that `own_blocks` looks at has changed
  have hown : ∀ p a, p ∈ w.live → (ownBlocks w' p a ↔ ownBlocks w p a) :=
    fun p a hp => (hkept p).ownBlocks (h.proc p hp) a
  constructor
  · apply h.owned.shrink
    · exact fun p hp => hlive ▸ hp
    · exact fun p a hp ha => (hown p a (hlive ▸ hp)).mp ha
    · exact fun p a _ _ ha => by rwa [hheap]
  · rw [hlive]
    exact fun p hp => (hkept p).processOk (h.proc p hp)
  · rw [hlive]
    exact fun p hp a ha => h.lt p hp a ((hown p a hp).mp ha)
  · rw [hlive]
    exact h.nodup
  · rw [hlive]
    exact h.mem
  · rw [hroot, h.root, (hproc init).2.2.1]
  · rw [hheap, hroot]
    exact h.value

/-- Freeing blocks of a process that is given up with them. -/
theorem BlockInv.release (h : BlockInv init w) (hp : p ∈ w.live) (hne : p ≠ init)
    (hl : ∀ a ∈ l, ownBlocks w p a) :
    BlockInv init { w with heap := l.foldl TreeStore.free w.heap, live := w.live.erase p } := by
  have hmem : ∀ q, q ∈ w.live.erase p → q ∈ w.live ∧ q ≠ p := fun q hq =>
    ⟨List.mem_of_mem_erase hq, fun e => (List.Nodup.not_mem_erase h.nodup) (e ▸ hq)⟩
  have hkept : ∀ q, BlocksKept w
      { w with heap := l.foldl TreeStore.free w.heap, live := w.live.erase p } q := fun q =>
    { name := rfl, path := rfl, tree := rfl, fds := rfl,
      node := by simp, child := by simp, fd := by simp }
  have hown : ∀ q a, q ∈ w.live → _ := fun q a hq => (hkept q).ownBlocks (h.proc q hq) a
  constructor
  · apply h.owned.shrink
    · exact fun q hq => (hmem q hq).1
    · exact fun q a hq ha => (hown q a (hmem q hq).1).mp ha
    · intro q a hq ha hused
      -- a freed block belongs to `p`, so `q` does not own it
      have hal : a ∉ l := fun hal =>
        (hmem q hq).2 (h.owned.apart q p a (hmem q hq).1 hp
          ((hown q a (hmem q hq).1).mp ha) (hl a hal))
      simpa [TreeStore.foldl_free_allocated, hal] using hused
  · exact fun q hq => (hkept q).processOk (h.proc q (hmem q hq).1)
  · exact fun q hq a ha => h.lt q (hmem q hq).1 a ((hown q a (hmem q hq).1).mp ha)
  · exact h.nodup.erase p
  · exact (List.mem_erase_of_ne hne.symm).mpr h.mem
  · exact h.root
  · simpa using h.value

/-- The lists of a process are shorter than the fuel of the walks. -/
theorem BlockInv.length_lt {next : Nat → Nat} {c : Nat} (h : BlockInv init w) (hp : p ∈ w.live)
    (hl : Chain next 0 c l) (hown : ∀ a ∈ l, ownBlocks w p a) : l.length < walkFuel :=
  hl.length_lt (by decide) fun a ha => h.lt p hp a (hown a ha)

/-- `delete_process` keeps the invariant. -/
theorem BlockInv.deleteProcess (h : BlockInv init w) (hp : p ∈ w.live)
    (hd : deleteProcess w p = some w') :
    BlockInv init w' := by
  have hok := h.proc p hp
  by_cases hroot : (w.proc p).processTree = w.processTree
  · -- `init` is not deleted
    rw [MishaOS.deleteProcess, if_neg hok.ne, if_pos hroot] at hd
    rwa [← Option.some.inj hd]
  -- the node has no children any more, as `process_remove_child` left it
  · obtain ⟨l, hl, hvalue⟩ := hok.children
    have hlen := h.length_lt hp hl fun e he => .inr (.inl ⟨l, hl, he⟩)
    rw [deleteProcess_eq hok hroot hl hvalue hlen] at hd
    rw [← Option.some.inj hd]
    apply h.release hp (h.ne_of_not_root hroot)
    intro a ha
    -- every block that is released was one of the process
    rcases List.mem_append.mp ha with ha | ha
    · exact .inr (.inl ⟨l, hl, ha⟩)
    · left
      simp only [List.mem_cons, List.not_mem_nil, or_false] at ha ⊢
      tauto

/-! ## Spawning -/

/-- The descriptor that has been written. -/
@[simp] theorem ProcWorld.setFd_fd (w : ProcWorld) (p : Nat) (x : FdList) :
    (w.setFd p x).fd p = x := by
  simp [ProcWorld.setFd]

/-- Of two writes the last one counts. -/
@[simp] theorem ProcWorld.setFd_setFd (w : ProcWorld) (p : Nat) (x y : FdList) :
    (w.setFd p x).setFd p y = w.setFd p y := by
  simp [ProcWorld.setFd]

/-- `w'` differs from `w` in the descriptor nodes `l`, of which those of `k` are
    allocated. -/
structure FdsCopied (w w' : ProcWorld) (l k : List Nat) : Prop where
  rest : w' = { w with heap := { w.heap with allocated := w'.heap.allocated }, fd := w'.fd }
  sub : ∀ a ∈ k, a ∈ l ∧ w'.heap.allocated a = true
  fd : ∀ a, a ∉ l → w'.fd a = w.fd a
  allocated : ∀ a, w.heap.allocated a = true → w'.heap.allocated a = true

/-- Nothing has been copied. -/
theorem FdsCopied.refl (w : ProcWorld) (l : List Nat) : FdsCopied w w l [] :=
  ⟨rfl, by simp, fun _ _ => rfl, fun _ => id⟩

/-- One descriptor is copied to a new block. -/
theorem FdsCopied.node (w : ProcWorld) (c : Nat) (x : FdList) (l : List Nat) :
    FdsCopied w ((w.malloc [c]).setFd c x) (c :: l) [c] := by
  refine ⟨rfl, ?_, fun a ha => ?_, fun a ha => ?_⟩
  · simp [ProcWorld.setFd, ProcWorld.malloc, TreeStore.alloc]
  · have hac : a ≠ c := fun e => ha (by simp [e])
    simp [ProcWorld.setFd, ProcWorld.malloc, hac]
  · rcases eq_or_ne a c with rfl | hac
    · simp [ProcWorld.setFd, ProcWorld.malloc, TreeStore.alloc]
    · simpa [ProcWorld.setFd, ProcWorld.malloc, TreeStore.alloc, hac] using ha

/-- The others are copied behind it. -/
theorem FdsCopied.cons {w₁ : ProcWorld} {c : Nat} {k : List Nat} (h : FdsCopied w w₁ [c] [c])
    (h' : FdsCopied w₁ w' l k) : FdsCopied w w' (c :: l) (c :: k) := by
  refine ⟨?_, fun a ha => ?_, fun a ha => ?_, fun a ha => h'.allocated a (h.allocated a ha)⟩
  · rw [h'.rest, h.rest]
  · rcases List.mem_cons.mp ha with rfl | ha
    · exact ⟨List.mem_cons_self, h'.allocated a (h.sub a List.mem_cons_self).2⟩
    · exact ⟨List.mem_cons_of_mem _ (h'.sub a ha).1, (h'.sub a ha).2⟩
  · simp only [List.mem_cons, not_or] at ha
    rw [h'.fd a ha.2, h.fd a (by simp [ha.1])]

/-- The numbers and files in the nodes `l`. -/
def fdEntries (w : ProcWorld) (l : List Nat) : List (Nat × Nat) :=
  l.map fun a => ((w.fd a).fd, (w.fd a).value)

/-- The files of a list only depend on its descriptors. -/
theorem fdEntries_congr (h : ∀ a ∈ l, w'.fd a = w.fd a) : fdEntries w' l = fdEntries w l :=
  List.map_congr_left fun a ha => by rw [h a ha]

/-- `spawn_process` copies a descriptor list node by node. -/
theorem copyFds_spec {fd : Nat} {as : List Nat} (h : copyFds w fd as = some w')
    (hfd : Chain (fun a => (w.fd a).link) 0 fd l) (has : as.Nodup) (hne : ∀ a ∈ as, a ≠ 0 ∧ a ∉ l) :
    ∃ k, FdsCopied w w' as k ∧
      Chain (fun a => (w'.fd a).link) 0 (if fd ≠ 0 then as.headD 0 else 0) k ∧
      fdEntries w' k = fdEntries w l := by
  induction as generalizing w fd l with
  | nil =>
    rw [copyFds] at h
    split at h
    · rename_i h0
      obtain rfl := Option.some.inj h
      obtain rfl : l = [] := hfd.unique (chain_nil.mpr h0)
      exact ⟨[], .refl w [], by simp [h0], rfl⟩
    · simp at h
  | cons currentFd rest ih =>
    rw [copyFds.eq_def] at h
    by_cases h0 : fd = 0
    · simp only [h0, if_true] at h
      obtain rfl := Option.some.inj h
      obtain rfl : l = [] := hfd.unique (chain_nil.mpr h0)
      exact ⟨[], .refl w _, by simp [h0], rfl⟩
    obtain ⟨l, rfl, hl⟩ := hfd.exists_cons h0
    obtain ⟨hcur, hrest⟩ := List.nodup_cons.mp has
    obtain ⟨hcur0, hcurl⟩ := hne currentFd List.mem_cons_self
    have hcurfd : fd ≠ currentFd := fun e => hcurl (by simp [e])
    simp only [h0, if_false] at h
    have hlink : ((w.malloc [currentFd]).setFd currentFd (w.fd fd)).fd fd = w.fd fd := by
      simp [ProcWorld.setFd, ProcWorld.malloc, hcurfd]
    rw [hlink] at h
    -- the copy of the last node ends the list
    have hlast : (w.fd fd).link = 0 →
        some ((w.malloc [currentFd]).setFd currentFd (w.fd fd)) = some w' →
        ∃ k, FdsCopied w w' (currentFd :: rest) k ∧ Chain (fun a => (w'.fd a).link) 0 currentFd k ∧
          fdEntries w' k = fdEntries w (fd :: l) := by
      intro hz h
      obtain rfl := Option.some.inj h
      obtain rfl : l = [] := hl.unique (chain_nil.mpr hz)
      exact ⟨[currentFd], .node w currentFd _ rest, ⟨rfl, hcur0, by simp [ProcWorld.setFd, hz]⟩,
        by simp [fdEntries]⟩
    simp only [ne_eq, h0, not_false_eq_true, if_true, List.headD_cons]
    cases rest with
    | nil =>
      simp only at h
      split at h
      · rename_i hz
        exact hlast hz h
      · simp at h
    | cons next rest =>
      simp only at h
      split at h
      · rename_i hz
        exact hlast hz h
      rename_i hz
      -- one node is copied and linked to the next one, the rest by induction
      rw [ProcWorld.setFd_fd, ProcWorld.setFd_setFd] at h
      set x : FdList := { w.fd fd with link := next } with hx
      have hnode : FdsCopied w ((w.malloc [currentFd]).setFd currentFd x) [currentFd] [currentFd] :=
        .node w currentFd x []
      have hl₂ : Chain (fun a => (((w.malloc [currentFd]).setFd currentFd x).fd a).link) 0
          (w.fd fd).link l := by
        apply hl.congr
        intro a ha
        rw [hnode.fd a (by simpa using fun e => hcurl (by simp [← e, ha]))]
      have hne₂ : ∀ a ∈ next :: rest, a ≠ 0 ∧ a ∉ l := fun a ha =>
        have ha' := hne a (List.mem_cons_of_mem _ ha)
        ⟨ha'.1, fun hal => ha'.2 (List.mem_cons_of_mem _ hal)⟩
      obtain ⟨k, hk, hchain, hentries⟩ := ih h hl₂ hrest hne₂
      have hhead : w'.fd currentFd = x := by
        rw [hk.fd currentFd hcur, ProcWorld.setFd_fd]
      refine ⟨currentFd :: k, hnode.cons hk, ⟨rfl, hcur0, ?_⟩, ?_⟩
      · simp only [hhead, hx]
        simpa [hz] using hchain
      · have hold : fdEntries ((w.malloc [currentFd]).setFd currentFd x) l = fdEntries w l :=
          fdEntries_congr fun a ha => hnode.fd a (by simpa using fun e => hcurl (by simp [← e, ha]))
        rw [fdEntries, List.map_cons, hhead]
        rw [fdEntries, List.map_cons]
        exact congrArg₂ List.cons rfl (hentries.trans hold)

/-- What `tree_insert_value` does to the store: a node for the value, and an
    entry without it in front of the children of `parent`. -/
structure ValueInserted (s s' : TreeStore) (tree child parent value : Nat) : Prop where
  parentNode : s'.node parent = { s.node parent with children := child }
  newNode : s'.node tree = ⟨0, parent, value⟩
  node : ∀ n, n ≠ parent → n ≠ tree → s'.node n = s.node n
  next : (s'.child child).next = (s.node parent).children
  entry : (s'.child child).value = 0
  others : ∀ e, e ≠ child →
    (s'.child e).next = (s.child e).next ∧ (s'.child e).value = (s.child e).value
  allocated : ∀ a, s'.allocated a = true ↔ s.allocated a = true ∨ a = tree ∨ a = child

/-- The new node is the first child of its parent. -/
theorem treeInsertValue_spec {tree child value : Nat} (hparent : parent ≠ 0) (htree : tree ≠ 0)
    (hvalue : value ≠ 0) (hne : tree ≠ parent) (hchild : (s.node parent).children ≠ child) :
    ValueInserted s (treeInsertValue s tree child parent value) tree child parent value := by
  set s' := treeInsertValue s tree child parent value with hs'
  have hnode : s'.node = Function.update (Function.update s.node tree ⟨0, parent, value⟩) parent
      { s.node parent with children := child } := by
    rw [hs']
    unfold treeInsertValue treeInsertNode treeCreate
    by_cases hc : (s.node parent).children = 0 <;>
      simp [hvalue, hparent, htree, TreeStore.setNode, TreeStore.alloc,
        TreeStore.setChild, hne.symm, hc]
  have hallocated : s'.allocated = Function.update (Function.update s.allocated tree true)
      child true := by
    rw [hs']
    unfold treeInsertValue treeInsertNode treeCreate
    by_cases hc : (s.node parent).children = 0 <;>
      simp [hvalue, hparent, htree, TreeStore.setNode, TreeStore.alloc,
        TreeStore.setChild, hne.symm, hc]
  have hstore : s'.child child = ⟨(s.node parent).children, 0, 0⟩ ∧ ∀ e, e ≠ child →
      (s'.child e).next = (s.child e).next ∧ (s'.child e).value = (s.child e).value := by
    rw [hs']
    unfold treeInsertValue treeInsertNode treeCreate
    by_cases hc : (s.node parent).children = 0
    · simp +contextual [hvalue, hparent, htree, TreeStore.setNode, TreeStore.alloc,
        TreeStore.setChild,
        hne.symm, hc]
    · simp only [hvalue, hparent, htree, TreeStore.setNode, TreeStore.alloc, TreeStore.setChild,
        Function.update_of_ne hne.symm, Function.update_self, Function.update_idem,
        ne_eq, hc, if_false,
        not_false_eq_true, if_true, or_self, Function.update_of_ne hchild,
        Function.update_of_ne hchild.symm,
        true_and]
      intro e he
      -- the old first entry is written, but not its `next`
      rcases eq_or_ne e (s.node parent).children with rfl | hec
      · simp [he]
      · simp [he, hec]
  constructor
  · simp [hnode]
  · simp [hnode, hne]
  · intro n hp ht
    simp [hnode, hp, ht]
  · rw [hstore.1]
  · rw [hstore.1]
  · exact hstore.2
  · intro a
    rw [hallocated]
    simp only [Function.update_apply]
    split_ifs with hac hat
    · simp [hac]
    · simp [hat]
    · simp [hac, hat]

/-- What `spawn_process` does to the blocks: `l` is the new descriptor list, and
    `s` the heap before the tree is written. -/
structure Spawned (w w' : ProcWorld) (m : SpawnMem) (parent : Nat) (l : List Nat) (s : TreeStore) :
    Prop where
  live : w'.live = m.process :: w.live
  processTree : w'.processTree = w.processTree
  name : (w'.proc m.process).name = m.name
  path : (w'.proc m.process).workingDirPath = m.path
  tree : (w'.proc m.process).processTree = m.tree
  proc : ∀ p, p ≠ m.process → w'.proc p = w.proc p
  fd : ∀ a, a ∉ m.fds → w'.fd a = w.fd a
  fds : Chain (fun a => (w'.fd a).link) 0 (w'.proc m.process).fds l
  entries : ∀ k, Chain (fun a => (w.fd a).link) 0 (w.proc parent).fds k →
    fdEntries w' l = fdEntries w k
  currentFd : (w'.proc m.process).currentFd = (w.proc parent).currentFd
  sub : ∀ a ∈ l, a ∈ m.fds
  old : ∀ a, w.heap.allocated a = true → s.allocated a = true
  new : ∀ a, a ∈ [m.process, m.name, m.path, m.tree] ∨ a ∈ l → s.allocated a = true
  child : s.child = w.heap.child
  node : s.node = Function.update w.heap.node m.tree ⟨0, 0, 0⟩
  heap : w'.heap = treeInsertValue s m.node m.child (w.proc parent).processTree m.process

/-- What `spawn_process` builds. -/
theorem spawnProcess_spec {k : List Nat} (h : spawnProcess w m parent = some w')
    (hfds : Chain (fun a => (w.fd a).link) 0 (w.proc parent).fds k)
    (hm : ∀ a ∈ m.fds, a ≠ 0 ∧ a ∉ k) (hnodup : m.fds.Nodup) (hparent : parent ≠ m.process) :
    ∃ l s, Spawned w w' m parent l s := by
  simp only [spawnProcess, Option.bind_eq_bind, Option.bind_eq_some_iff] at h
  obtain ⟨⟨stack, pfa⟩, -, w₁, hcopy, h⟩ := h
  obtain rfl := Option.some.inj h
  -- `copy_fds` comes first; what follows leaves the descriptors alone
  obtain ⟨l, hcopied, hchain, hentries⟩ := copyFds_spec hcopy hfds hnodup hm
  have hlive : w₁.live = w.live ∧ w₁.processTree = w.processTree := by
    rw [hcopied.rest]
    exact ⟨rfl, rfl⟩
  have hproc : w₁.proc = w.proc := by
    rw [hcopied.rest]
    rfl
  have hnode : w₁.heap.node = Function.update w.heap.node m.tree ⟨0, 0, 0⟩ := by
    rw [hcopied.rest]
    rfl
  have hchild : w₁.heap.child = w.heap.child := by
    rw [hcopied.rest]
    rfl
  -- the blocks of `malloc` and the old ones stay allocated
  have hold : ∀ a, a ∈ [m.process, m.name, m.path, m.tree] ∨ w.heap.allocated a = true →
      w₁.heap.allocated a = true := by
    intro a ha
    apply hcopied.allocated
    simp only [treeCreate, TreeStore.setNode, TreeStore.alloc, ProcWorld.malloc, List.foldl_cons,
      List.foldl_nil, Function.update_apply]
    split_ifs <;> simp_all
  refine ⟨l, w₁.heap, ?_⟩
  -- the fields of `Spawned` in order
  constructor
  · exact congrArg (m.process :: ·) hlive.1
  · exact hlive.2
  · simp [ProcWorld.setProc]
  · simp [ProcWorld.setProc]
  · simp [ProcWorld.setProc]
  · intro p hp
    simp [ProcWorld.setProc, hp, hproc]
  · exact fun a ha => hcopied.fd a ha
  · have hfirst : Chain (fun a => (w₁.fd a).link) 0
        (if (w.proc parent).fds ≠ 0 then m.fds.headD 0 else 0) l := hchain
    simpa [ProcWorld.setProc, hproc] using hfirst
  · intro k' hk'
    rw [hk'.unique hfds]
    exact hentries
  · simp [ProcWorld.setProc, hproc]
  · exact fun a ha => (hcopied.sub a ha).1
  · exact fun a ha => hold a (.inr ha)
  · rintro a (ha | ha)
    · exact hold a (.inl ha)
    · exact (hcopied.sub a ha).2
  · exact hchild
  · exact hnode
  · simp [ProcWorld.setProc, hparent, hproc]

/-- The addresses `malloc` returns belong to nobody. -/
theorem MallocOk.fresh (hm : MallocOk w.heap (m.blocks ++ m.fds)) (h : ProcessesOk w)
    (hp : p ∈ w.live)
    (ha : ownBlocks w p a) : a ∉ m.blocks ++ m.fds := by
  intro hmem
  have hfree := (hm.2 a hmem).2.2
  have hused := h.used p hp a ha
  simp [hfree] at hused

/-- A new block belongs to no process. -/
theorem MallocOk.ne (hm : MallocOk w.heap (m.blocks ++ m.fds)) (h : ProcessesOk w) (hp : p ∈ w.live)
    (ha : ownBlocks w p a) :
    a ≠ m.process ∧ a ≠ m.tree ∧ a ≠ m.node ∧ a ≠ m.child ∧ a ∉ m.fds := by
  have hfresh := hm.fresh h hp ha
  simp only [SpawnMem.blocks, List.cons_append, List.nil_append, List.mem_cons, not_or] at hfresh
  exact ⟨hfresh.1, hfresh.2.2.1, hfresh.2.2.2.2.1, hfresh.2.2.2.2.2⟩

/-- What `spawn_process` builds for a live parent. -/
theorem ProcessesOk.spawned (h : ProcessesOk w) (hparent : parent ∈ w.live)
    (hm : MallocOk w.heap (m.blocks ++ m.fds))
    (hspawn : MishaOS.spawnProcess w m parent = some w') :
    ∃ l s, Spawned w w' m parent l s ∧
      ValueInserted s w'.heap m.node m.child (w.proc parent).processTree m.process := by
  have hok := h.proc parent hparent
  obtain ⟨f, hf⟩ := hok.fds
  -- the new blocks are none of those the processes have
  have hself := hm.ne h hparent (a := parent) (.inl (by simp))
  have htree := hm.ne h hparent (a := (w.proc parent).processTree) (.inl (by simp))
  have hnull : ∀ a ∈ m.blocks, a ≠ 0 := fun a ha => (hm.2 a (List.mem_append_left _ ha)).1.ne'
  obtain ⟨l, s, hs⟩ := spawnProcess_spec hspawn hf (fun a ha =>
    ⟨(hm.2 a (List.mem_append_right _ ha)).1.ne',
      fun hmem => (hm.ne h hparent (.inr (.inr ⟨f, hf, hmem⟩))).2.2.2.2 ha⟩)
    (List.nodup_append.mp hm.1).2.1 hself.1
  -- the entry is new, so it does not head the list of the parent yet
  have hhead : (s.node (w.proc parent).processTree).children ≠ m.child := by
    rw [hs.node, Function.update_of_ne htree.2.1]
    intro heq
    have hne : (w.heap.node (w.proc parent).processTree).children ≠ 0 := by
      rw [heq]
      exact hnull m.child (by simp [SpawnMem.blocks])
    obtain ⟨k, hk, -⟩ := hok.children
    obtain ⟨k', rfl, -⟩ := hk.exists_cons hne
    exact (hm.ne h hparent (.inr (.inl ⟨_, hk, List.mem_cons_self⟩))).2.2.2.1 heq
  have hi := treeInsertValue_spec (s := s) hok.tree
    (hnull m.node (by simp [SpawnMem.blocks])) (hnull m.process (by simp [SpawnMem.blocks]))
    htree.2.2.1.symm hhead
  rw [← hs.heap] at hi
  exact ⟨l, s, hs, hi⟩

section

variable (hs : Spawned w w' m parent l s) (h : ProcessesOk w) (hparent : parent ∈ w.live)
  (hm : MallocOk w.heap (m.blocks ++ m.fds))
  (hi : ValueInserted s w'.heap m.node m.child (w.proc parent).processTree m.process)

include hs h hparent hm hi

/-- The blocks of a process other than the parent are read from what they were. -/
theorem Spawned.others_keep (hq : q ∈ w.live) (hne : q ≠ parent) : BlocksKept w w' q := by
  have hself := hm.ne h hq (a := q) (.inl (by simp))
  have htree := hm.ne h hq (a := (w.proc q).processTree) (.inl (by simp))
  have hproc := hs.proc q hself.1
  constructor
  · rw [hproc]
  · rw [hproc]
  · rw [hproc]
  · rw [hproc]
  · have hroot : (w.proc q).processTree ≠ (w.proc parent).processTree := fun e =>
      hne (h.tree q hq parent hparent e)
    rw [hi.node _ hroot htree.2.2.1, hs.node, Function.update_of_ne htree.2.1]
  · intro e he
    rw [← hs.child]
    exact hi.others e (hm.ne h hq (.inr (.inl he))).2.2.2.1
  · intro a ha
    exact hs.fd a (hm.ne h hq (.inr (.inr ha))).2.2.2.2

/-- The parent gets one child entry more. -/
theorem Spawned.parent_gains :
    ProcessOk w' parent ∧ w'.proc parent = w.proc parent ∧
      (∀ a, w'.childEntry parent a → w.childEntry parent a ∨ a = m.child) ∧
      ∀ a, w'.fdNode parent a → w.fdNode parent a := by
  have hok := h.proc parent hparent
  obtain ⟨k, hk, hvalue⟩ := hok.children
  obtain ⟨f, hf⟩ := hok.fds
  have hself := hm.ne h hparent (a := parent) (.inl (by simp))
  have htree := hm.ne h hparent (a := (w.proc parent).processTree) (.inl (by simp))
  have hproc := hs.proc parent hself.1
  have hsnode : s.node (w.proc parent).processTree = w.heap.node (w.proc parent).processTree := by
    rw [hs.node, Function.update_of_ne htree.2.1]
  have hne : ∀ e ∈ k, e ≠ m.child := fun e he => (hm.ne h hparent (.inr (.inl ⟨k, hk, he⟩))).2.2.2.1
  -- the list of children is the old one behind the new entry
  have hk' : Chain (fun e => (w'.heap.child e).next) 0
      (w'.heap.node (w'.proc parent).processTree).children (m.child :: k) := by
    rw [hproc, hi.parentNode]
    refine ⟨rfl, (hm.2 m.child (by simp [SpawnMem.blocks])).1.ne', ?_⟩
    simp only [hi.next, hsnode]
    apply hk.congr
    intro e he
    rw [(hi.others e (hne e he)).1, hs.child]
  have hf' : Chain (fun a => (w'.fd a).link) 0 (w'.proc parent).fds f := by
    rw [hproc]
    apply hf.congr
    intro a ha
    rw [hs.fd a (hm.ne h hparent (.inr (.inr ⟨f, hf, ha⟩))).2.2.2.2]
  refine ⟨?_, hproc, ?_, ?_⟩
  · constructor
    · exact hok.ne
    · rw [hproc]
      exact hok.tree
    · rw [hproc, hi.parentNode, hsnode]
      exact hok.orphan
    -- each entry of the list has a value, the new one too
    · refine ⟨m.child :: k, hk', fun e he => ?_⟩
      rcases List.mem_cons.mp he with rfl | he
      · exact hi.entry
      · rw [(hi.others e (hne e he)).2, hs.child]
        exact hvalue e he
    · exact ⟨f, hf'⟩
  · intro a ha
    rcases List.mem_cons.mp ((Reaches.of_chain hk').mp ha) with ha | ha
    · exact .inr ha
    · exact .inl ⟨k, hk, ha⟩
  · exact fun a ha => ⟨f, hf, (Reaches.of_chain hf').mp ha⟩

/-- The new process owns blocks `malloc` has just returned. -/
theorem Spawned.child_owns :
    ProcessOk w' m.process ∧ (∀ a, ¬ w'.childEntry m.process a) ∧
    ∀ a, w'.fdNode m.process a → a ∈ l := by
  have hnodup := hm.1
  have htree := hm.ne h hparent (a := (w.proc parent).processTree) (.inl (by simp))
  have htn : m.tree ≠ m.node := by
    rintro heq
    simp [SpawnMem.blocks, heq] at hnodup
  -- the node of the child has no children
  have hnode' : w'.heap.node m.tree = ⟨0, 0, 0⟩ := by
    rw [hi.node m.tree htree.2.1.symm htn, hs.node, Function.update_self]
  have hk : Chain (fun e => (w'.heap.child e).next) 0
      (w'.heap.node (w'.proc m.process).processTree).children [] := by
    rw [hs.tree, hnode']
    rfl
  constructor
  · constructor
    · exact (hm.2 m.process (by simp [SpawnMem.blocks])).1.ne'
    · rw [hs.tree]
      exact (hm.2 m.tree (by simp [SpawnMem.blocks])).1.ne'
    · rw [hs.tree, hnode']
    · exact ⟨[], hk, by simp⟩
    · exact ⟨l, hs.fds⟩
  · refine ⟨fun a ha => ?_, fun a ha => (Reaches.of_chain hs.fds).mp ha⟩
    simpa using (Reaches.of_chain hk).mp ha

/-- Each process keeps its blocks; the parent gains an entry, the new process has
    what was allocated for it. -/
theorem Spawned.ownBlocks (hq : q ∈ w'.live) (ha : ownBlocks w' q a) :
    q ∈ w.live ∧ MishaOS.ownBlocks w q a ∨ (q = parent ∧ a = m.child ∨
      q = m.process ∧ (a ∈ [m.process, m.name, m.path, m.tree] ∨ a ∈ l)) := by
  rw [hs.live] at hq
  rcases List.mem_cons.mp hq with rfl | hq
  -- the new process, its parent, and the others
  · obtain ⟨-, hchild, hfd⟩ := hs.child_owns h hparent hm hi
    rcases ha with ha | ha | ha
    · rw [hs.name, hs.path, hs.tree] at ha
      exact .inr (.inr ⟨rfl, .inl ha⟩)
    · exact absurd ha (hchild a)
    · exact .inr (.inr ⟨rfl, .inr (hfd a ha)⟩)
  rcases eq_or_ne q parent with rfl | hne
  · obtain ⟨-, hproc, hchild, hfd⟩ := hs.parent_gains h hparent hm hi
    rcases ha with ha | ha | ha
    · rw [hproc] at ha
      exact .inl ⟨hq, .inl ha⟩
    · rcases hchild a ha with ha | ha
      · exact .inl ⟨hq, .inr (.inl ha)⟩
      · exact .inr (.inl ⟨rfl, ha⟩)
    · exact .inl ⟨hq, .inr (.inr (hfd a ha))⟩
  · exact .inl ⟨hq, ((hs.others_keep h hparent hm hi hq hne).ownBlocks (h.proc q hq) a).mp ha⟩

end

/-- The new entry is not among the blocks of the new process. -/
theorem MallocOk.ne_child (hm : MallocOk w.heap (m.blocks ++ m.fds)) (hl : ∀ a ∈ l, a ∈ m.fds)
    (ha : a ∈ [m.process, m.name, m.path, m.tree] ∨ a ∈ l) : a ≠ m.child := by
  have hnodup := hm.1
  rintro rfl
  simp only [SpawnMem.blocks, List.cons_append, List.nil_append, List.nodup_cons, List.mem_cons,
    not_or] at hnodup
  rcases ha with ha | ha
  · simp only [List.mem_cons, List.not_mem_nil, or_false] at ha
    obtain ⟨h₁, h₂, h₃, h₄, -⟩ := hnodup
    rcases ha with ha | ha | ha | ha
    · exact h₁.2.2.2.2.1 ha.symm
    · exact h₂.2.2.2.1 ha.symm
    · exact h₄.2.1 ha.symm
    · exact h₃.2.2.1 ha.symm
  · exact hnodup.2.2.2.2.2.1 (hl _ ha)

/-- `spawn_process` keeps the invariant. -/
theorem BlockInv.spawnProcess (h : BlockInv init w) (hparent : parent ∈ w.live)
    (hm : MallocOk w.heap (m.blocks ++ m.fds)) (hspawn : spawnProcess w m parent = some w') :
    BlockInv init w' := by
  have hb := h.processesOk
  obtain ⟨l, s, hs, hi⟩ := hb.spawned hparent hm hspawn
  have hown := fun q a => hs.ownBlocks (q := q) (a := a) hb hparent hm hi
  -- what is gained was returned by `malloc`
  have hfresh : ∀ q a, (q = parent ∧ a = m.child ∨
      q = m.process ∧ (a ∈ [m.process, m.name, m.path, m.tree] ∨ a ∈ l)) →
      a ∈ m.blocks ++ m.fds := by
    rintro q a (⟨-, rfl⟩ | ⟨-, ha | ha⟩)
    · simp [SpawnMem.blocks]
    · simp only [List.mem_cons, List.not_mem_nil, or_false] at ha
      simp only [SpawnMem.blocks, List.mem_append, List.mem_cons]
      tauto
    · exact List.mem_append_right _ (hs.sub a ha)
  constructor
  · apply h.owned.grow hown
    · intro q a ha
      simpa using (hm.2 a (hfresh q a ha)).2.2
    -- the two do not gain the same block
    · rintro p q a (⟨rfl, rfl⟩ | ⟨rfl, ha⟩) (⟨rfl, hb⟩ | ⟨rfl, hb⟩)
      · rfl
      · exact absurd rfl (hm.ne_child hs.sub hb)
      · exact absurd hb (hm.ne_child hs.sub ha)
      · rfl
    · intro q a hq ha
      rcases hown q a hq ha with ⟨hq, ha⟩ | ⟨-, rfl⟩ | ⟨-, ha⟩
      · exact (hi.allocated a).mpr (.inl (hs.old a (h.owned.used q a hq ha)))
      · exact (hi.allocated _).mpr (.inr (.inr rfl))
      · exact (hi.allocated a).mpr (.inl (hs.new a ha))
  · intro q hq
    rw [hs.live] at hq
    -- the new process is well formed, and so are the old ones
    rcases List.mem_cons.mp hq with rfl | hq
    · exact (hs.child_owns hb hparent hm hi).1
    rcases eq_or_ne q parent with rfl | hne
    · exact (hs.parent_gains hb hparent hm hi).1
    · exact (hs.others_keep hb hparent hm hi hq hne).processOk (h.proc q hq)
  · intro q hq a ha
    rcases hown q a hq ha with ⟨hq, ha⟩ | ha
    · exact h.lt q hq a ha
    · exact (hm.2 a (hfresh q a ha)).2.1
  · rw [hs.live]
    have hnew : m.process ∉ w.live := fun hmem =>
      (hm.ne hb hmem (a := m.process) (.inl (by simp))).1 rfl
    exact List.nodup_cons.mpr ⟨hnew, h.nodup⟩
  · rw [hs.live]
    exact List.mem_cons_of_mem _ h.mem
  · rw [hs.processTree, hs.proc init (hm.ne hb h.mem (a := init) (.inl (by simp))).1, h.root]
  · -- the root keeps its value, also when it is the node that gets the entry
    rw [hs.processTree]
    have hroot := hm.ne hb h.mem (a := w.processTree) (.inl (by simp [h.root]))
    have hold : s.node w.processTree = w.heap.node w.processTree := by
      rw [hs.node, Function.update_of_ne hroot.2.1]
    rcases eq_or_ne w.processTree (w.proc parent).processTree with heq | hne
    · rw [heq, hi.parentNode, ← heq, hold]
      exact h.value
    · rw [hi.node _ hne hroot.2.2.1, hold]
      exact h.value

/-! ## The first process -/

/-- Before `spawn_init`: there is no process, and `malloc` returns free blocks. -/
structure InitOk (w : ProcWorld) (i : InitMem) : Prop where
  live : w.live = []
  mem : MallocOk w.heap i.blocks

section

variable {i : InitMem} {rootDir esp : Nat}

/-- A descriptor is put in front of the list. -/
theorem processAddFd_eq {entry process file : Nat} (hp : process ≠ 0) (hf : file ≠ 0) :
    processAddFd w entry process file =
      ((w.malloc [entry]).setFd entry
        ⟨(w.proc process).fds, file, u32 ((w.proc process).currentFd + 1)⟩).setProc process
        { w.proc process with
          currentFd := u32 ((w.proc process).currentFd + 1), fds := entry } := by
  simp [processAddFd, hp, hf]

/-- What `spawn_init` leaves. -/
structure InitSpawned (w' : ProcWorld) (i : InitMem) : Prop where
  live : w'.live = [i.init]
  processTree : w'.processTree = i.tree
  name : (w'.proc i.init).name = i.name
  path : (w'.proc i.init).workingDirPath = i.path
  tree : (w'.proc i.init).processTree = i.tree
  node : w'.heap.node i.tree = ⟨0, 0, i.init⟩
  fds : Chain (fun a => (w'.fd a).link) 0 (w'.proc i.init).fds
    [i.stdinEntry, i.stderrEntry, i.stdoutEntry]
  allocated : ∀ a ∈ i.blocks, w'.heap.allocated a = true

/-- The entries of the descriptors are different blocks. -/
theorem InitOk.entries_ne (h : InitOk w i) :
    i.stderrEntry ≠ i.stdinEntry ∧ i.stdoutEntry ≠ i.stdinEntry ∧
    i.stdoutEntry ≠ i.stderrEntry := by
  have hnodup := h.mem.1
  simp only [InitMem.blocks, List.mem_cons, List.not_mem_nil, or_false, List.nodup_cons, not_or]
    at hnodup
  exact ⟨hnodup.2.2.2.2.2.2.2.1.2, hnodup.2.2.2.2.2.1.2.2.2, hnodup.2.2.2.2.2.1.2.1⟩

/-- What the first process is made of. -/
theorem spawnInit_spec (h : InitOk w i) : InitSpawned (spawnInit w i rootDir esp) i := by
  have hne : ∀ a ∈ i.blocks, a ≠ 0 := fun a ha => (h.mem.2 a ha).1.ne'
  simp only [InitMem.blocks, List.mem_cons, List.not_mem_nil, or_false, forall_eq_or_imp, forall_eq]
    at hne
  obtain ⟨h₁, h₂, h₃⟩ := h.entries_ne
  unfold spawnInit
  simp only [processAddFd_eq hne.1 hne.2.2.2.2.1, processAddFd_eq hne.1 hne.2.2.2.2.2.2.1,
    processAddFd_eq hne.1 hne.2.2.2.2.2.2.2.2.1]
  constructor
  · simp [ProcWorld.setProc, ProcWorld.setFd, ProcWorld.malloc, h.live]
  · simp [ProcWorld.setProc, ProcWorld.setFd, ProcWorld.malloc]
  · simp [ProcWorld.setProc]
  · simp [ProcWorld.setProc]
  · simp [ProcWorld.setProc]
  · simp [ProcWorld.setProc, ProcWorld.setFd, ProcWorld.malloc, treeCreate, TreeStore.setNode,
      TreeStore.alloc]
  · simp [ProcWorld.setProc, ProcWorld.setFd, ProcWorld.malloc, hne, h₁, h₂, h₃]
  · intro a ha
    simp only [InitMem.blocks, List.mem_cons, List.not_mem_nil, or_false] at ha
    -- six blocks at once, the node of the tree, and an entry for each descriptor
    show ([i.stdinEntry].foldl TreeStore.alloc
      ([i.stderrEntry].foldl TreeStore.alloc ([i.stdoutEntry].foldl TreeStore.alloc
      ([i.tree].foldl TreeStore.alloc
        ([i.init, i.name, i.path, i.stdout, i.stderr, i.stdin].foldl TreeStore.alloc w.heap))))
      ).allocated a = true
    simp only [TreeStore.foldl_alloc_allocated, List.mem_cons, List.not_mem_nil, or_false]
    rcases ha with ha | ha | ha | ha | ha | ha | ha | ha | ha | ha <;>
      simp only [ha, true_or, or_true]

/-- It has no children. -/
theorem InitSpawned.childless {w' : ProcWorld} (hs : InitSpawned w' i) :
    Chain (fun e => (w'.heap.child e).next) 0
    (w'.heap.node (w'.proc i.init).processTree).children [] := by
  rw [hs.tree, hs.node]
  rfl

/-- It is well formed. -/
theorem InitSpawned.processOk {w' : ProcWorld} (h : InitOk w i) (hs : InitSpawned w' i) :
    ProcessOk w' i.init := by
  have hne : ∀ a ∈ i.blocks, a ≠ 0 := fun a ha => (h.mem.2 a ha).1.ne'
  constructor
  · exact hne i.init (by simp [InitMem.blocks])
  · rw [hs.tree]
    exact hne i.tree (by simp [InitMem.blocks])
  · rw [hs.tree, hs.node]
  · exact ⟨[], hs.childless, by simp⟩
  · exact ⟨_, hs.fds⟩

/-- `spawn_init` makes a process that owns the blocks it was given. -/
theorem BlockInv.spawnInit (h : InitOk w i) : BlockInv i.init (spawnInit w i rootDir esp) := by
  have hlt : ∀ a ∈ i.blocks, a ≠ 0 ∧ a < 4294967296 := fun a ha =>
    ⟨(h.mem.2 a ha).1.ne', (h.mem.2 a ha).2.1⟩
  have hs : InitSpawned (MishaOS.spawnInit w i rootDir esp) i := spawnInit_spec h
  generalize MishaOS.spawnInit w i rootDir esp = w' at hs ⊢
  have hk := hs.childless
  have hok := hs.processOk h
  -- the only process owns what it was given
  have hown : ∀ a, MishaOS.ownBlocks w' i.init a → a ∈ i.blocks := by
    rintro a (ha | ha | ha)
    · rw [hs.name, hs.path, hs.tree] at ha
      simp only [List.mem_cons, List.not_mem_nil, or_false, InitMem.blocks] at ha ⊢
      tauto
    · simpa using (Reaches.of_chain hk).mp ha
    · have ha := (Reaches.of_chain hs.fds).mp ha
      simp only [List.mem_cons, List.not_mem_nil, or_false, InitMem.blocks] at ha ⊢
      tauto
  have hmem : ∀ p, p ∈ w'.live → p = i.init := by simp [hs.live]
  constructor
  · constructor
    · intro p a hp ha
      obtain rfl := hmem p hp
      exact hs.allocated a (hown a ha)
    · intro p q a hp hq _ _
      rw [hmem p hp, hmem q hq]
  · intro p hp
    obtain rfl := hmem p hp
    exact hok
  · intro p hp a ha
    obtain rfl := hmem p hp
    exact (hlt a (hown a ha)).2
  · simp [hs.live]
  · simp [hs.live]
  · rw [hs.processTree, hs.tree]
  · rw [hs.processTree, hs.node]

end

end MishaOS
