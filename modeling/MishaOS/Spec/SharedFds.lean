import MishaOS.Spec.ExecPages
import MishaOS.Spec.ProcessHeap

/-!
# Shared descriptor lists

`clone` gives the new process the directory and the descriptor list of the old
one.  So the descriptors belong to a directory, whichever processes run in it;
everything else a process has is its own.  The name is kept apart, since `exec`
frees it.

## Key results

- `SharedInv.spawn`, `SharedInv.cloned`: a new process with a list of its own, or without.
- `SharedInv.reap`: a process that is alone in its directory is reaped.
-/

namespace MishaOS

open LinkedList

inductive BlockHolder
  | process (p : Nat)
  | name (p : Nat)
  | fds (d : Nat)

def BlockHolder.Present (w : ProcWorld) : BlockHolder → Prop
  | .process p | .name p => p ∈ w.live
  | .fds _ => True

def holderBlocks (w : ProcWorld) : BlockHolder → Nat → Prop
  | .process p, a => a ∈ [p, (w.proc p).workingDirPath, (w.proc p).processTree] ∨ w.childEntry p a
  | .name p, a => a = (w.proc p).name
  | .fds d, a => ∃ p ∈ w.live, (w.proc p).pageDirectory = d ∧ w.fdNode p a

structure SharedInv (init : Nat) (w : ProcWorld) : Prop where
  owned : Owned (BlockHolder.Present w) (holderBlocks w) (fun a => w.heap.allocated a = true)
  proc : ∀ p ∈ w.live, ProcessOk w p
  lt : ∀ p ∈ w.live, ∀ a, ownBlocks w p a → a < 4294967296
  mem : init ∈ w.live
  root : w.processTree = (w.proc init).processTree

variable {w w' w₁ : ProcWorld} {m : SpawnMem} {s : TreeStore}
    {init p q r a parent : Nat} {l : List Nat}

/-! ## Facts about the holders -/

/-- A block of a process belongs to one of its three holders. -/
theorem holderBlocks_of_own (hp : p ∈ w.live) (ha : ownBlocks w p a) :
    ∃ o, BlockHolder.Present w o ∧ holderBlocks w o a ∧
      (o = .process p ∨ o = .name p ∨ o = .fds (w.proc p).pageDirectory) := by
  rcases ha with ha | ha | ha
  · simp only [List.mem_cons, List.not_mem_nil, or_false] at ha
    rcases ha with rfl | rfl | rfl | rfl
    · exact ⟨.process a, hp, .inl (by simp), .inl rfl⟩
    · exact ⟨.name p, hp, rfl, .inr (.inl rfl)⟩
    · exact ⟨.process p, hp, .inl (by simp), .inl rfl⟩
    · exact ⟨.process p, hp, .inl (by simp), .inl rfl⟩
  · exact ⟨.process p, hp, .inr ha, .inl rfl⟩
  · exact ⟨.fds _, trivial, ⟨p, hp, rfl, ha⟩, .inr (.inr rfl)⟩

/-- What a holder has is owned by a live process. -/
theorem own_of_holderBlocks {o : BlockHolder} (ho : o.Present w) (ha : holderBlocks w o a) :
    ∃ p ∈ w.live, ownBlocks w p a := by
  rcases o with p | p | d
  · refine ⟨p, ho, ?_⟩
    rcases ha with ha | ha
    · left
      simp only [List.mem_cons, List.not_mem_nil, or_false] at ha ⊢
      tauto
    · exact .inr (.inl ha)
  · exact ⟨p, ho, .inl (by simp [show a = _ from ha])⟩
  · obtain ⟨p, hp, -, ha⟩ := ha
    exact ⟨p, hp, .inr (.inr ha)⟩

/-- The processes are well formed. -/
theorem SharedInv.processesOk (h : SharedInv init w) : ProcessesOk w where
  used p hp a ha := by
    obtain ⟨o, ho, ha, -⟩ := holderBlocks_of_own hp ha
    exact h.owned.used o a ho ha
  tree p hp q hq heq := by
    have hsame := h.owned.apart (.process p) (.process q) (w.proc p).processTree hp hq
      (.inl (by simp))
      (.inl (by simp [heq]))
    exact BlockHolder.process.inj hsame
  proc := h.proc

/-- What the invariant reads of a process. -/
structure BlocksSame (w w' : ProcWorld) : Prop where
  heap : w'.heap = w.heap
  fd : w'.fd = w.fd
  live : w'.live = w.live
  processTree : w'.processTree = w.processTree
  proc : ∀ p, (w'.proc p).name = (w.proc p).name ∧
    (w'.proc p).workingDirPath = (w.proc p).workingDirPath ∧
    (w'.proc p).processTree = (w.proc p).processTree ∧ (w'.proc p).fds = (w.proc p).fds

/-- Nothing has changed. -/
theorem BlocksSame.refl (w : ProcWorld) : BlocksSame w w :=
  ⟨rfl, rfl, rfl, rfl, fun _ => ⟨rfl, rfl, rfl, rfl⟩⟩

/-- Two steps that keep the blocks are one. -/
theorem BlocksSame.trans (h : BlocksSame w w₁) (h' : BlocksSame w₁ w') : BlocksSame w w' where
  heap := h'.heap.trans h.heap
  fd := h'.fd.trans h.fd
  live := h'.live.trans h.live
  processTree := h'.processTree.trans h.processTree
  proc p := ⟨(h'.proc p).1.trans (h.proc p).1, (h'.proc p).2.1.trans (h.proc p).2.1,
    (h'.proc p).2.2.1.trans (h.proc p).2.2.1, (h'.proc p).2.2.2.trans (h.proc p).2.2.2⟩

/-- Every process keeps its blocks. -/
theorem BlocksSame.kept (h : BlocksSame w w') (p : Nat) : BlocksKept w w' p where
  name := (h.proc p).1
  path := (h.proc p).2.1
  tree := (h.proc p).2.2.1
  fds := (h.proc p).2.2.2
  node := by rw [h.heap]
  child e _ := by simp [h.heap]
  fd a _ := by rw [h.fd]

/-- The blocks of `p` are the same. -/
theorem BlocksKept.holderBlocks (h : BlocksKept w w' p) (hp : ProcessOk w p) (a : Nat) :
    (holderBlocks w' (.process p) a ↔ holderBlocks w (.process p) a) ∧
      (holderBlocks w' (.name p) a ↔ holderBlocks w (.name p) a) := by
  simp only [MishaOS.holderBlocks, h.childEntry hp, h.path, h.tree, h.name, and_self]

/-- Processes keep their blocks or drop some; blocks are freed that nobody has any more. -/
theorem SharedInv.shrink (h : SharedInv init w) (hlive : ∀ p ∈ w'.live, p ∈ w.live)
    (hkept : ∀ p ∈ w'.live, BlocksKept w w' p)
    (hdir : ∀ p ∈ w'.live, (w'.proc p).pageDirectory = (w.proc p).pageDirectory)
    (hmem : init ∈ w'.live)
    (htree : w'.processTree = w.processTree)
    (hfree : ∀ o a, BlockHolder.Present w' o → holderBlocks w' o a → w.heap.allocated a = true →
      w'.heap.allocated a = true) : SharedInv init w' := by
  -- no holder has gained anything
  have hown : ∀ o a, o.Present w' → holderBlocks w' o a → o.Present w ∧ holderBlocks w o a := by
    rintro (p | p | d) a ho ha
    · exact ⟨hlive p ho, (((hkept p ho).holderBlocks (h.proc p (hlive p ho)) a).1).mp ha⟩
    · exact ⟨hlive p ho, (((hkept p ho).holderBlocks (h.proc p (hlive p ho)) a).2).mp ha⟩
    -- the directory is still the one of some process
    · obtain ⟨p, hp, rfl, ha⟩ := ha
      refine ⟨trivial, p, hlive p hp, (hdir p hp).symm, ?_⟩
      exact ((hkept p hp).fdNode (h.proc p (hlive p hp)) a).mp ha
  constructor
  · constructor
    · exact fun o a ho ha => hfree o a ho ha
        (h.owned.used o a (hown o a ho ha).1 (hown o a ho ha).2)
    · intro o o' a ho ho' ha ha'
      exact h.owned.apart o o' a (hown o a ho ha).1 (hown o' a ho' ha').1 (hown o a ho ha).2
        (hown o' a ho' ha').2
  · exact fun p hp => (hkept p hp).processOk (h.proc p (hlive p hp))
  · exact fun p hp a ha => h.lt p (hlive p hp) a
      (((hkept p hp).ownBlocks (h.proc p (hlive p hp)) a).mp ha)
  · exact hmem
  · rw [htree, h.root, (hkept init hmem).tree]

/-- The invariant only depends on blocks and directories. -/
theorem SharedInv.congr (h : SharedInv init w) (hsame : BlocksSame w w')
    (hdir : ∀ p ∈ w.live, (w'.proc p).pageDirectory = (w.proc p).pageDirectory) :
    SharedInv init w' := by
  apply h.shrink
  · exact fun p hp => hsame.live ▸ hp
  · exact fun p _ => hsame.kept p
  · exact fun p hp => hdir p (hsame.live ▸ hp)
  · rw [hsame.live]
    exact h.mem
  · exact hsame.processTree
  · intro o a _ _ ha
    rw [hsame.heap]
    exact ha

/-! ## New processes -/

/-- A process has been created from `parent`; its descriptors are the blocks `k` or
    those of `parent`, in whose directory it is then. -/
structure Born (w w' : ProcWorld) (m : SpawnMem) (parent : Nat) (k : List Nat) : Prop where
  live : w'.live = m.process :: w.live
  processTree : w'.processTree = w.processTree
  ok : ∀ p ∈ w'.live, ProcessOk w' p
  path : ∀ p ∈ w.live, (w'.proc p).workingDirPath = (w.proc p).workingDirPath
  tree : ∀ p ∈ w.live, (w'.proc p).processTree = (w.proc p).processTree
  name : ∀ p ∈ w.live, (w'.proc p).name = (w.proc p).name
  dir : ∀ p ∈ w.live, (w'.proc p).pageDirectory = (w.proc p).pageDirectory
  entry : ∀ p ∈ w.live, ∀ a, w'.childEntry p a → w.childEntry p a ∨ p = parent ∧ a = m.child
  fds : ∀ p ∈ w.live, ∀ a, w'.fdNode p a → w.fdNode p a
  newPath : (w'.proc m.process).workingDirPath = m.path
  newTree : (w'.proc m.process).processTree = m.tree
  newName : (w'.proc m.process).name = m.name
  newEntry : ∀ a, ¬ w'.childEntry m.process a
  newFds : ∀ a, w'.fdNode m.process a →
    a ∈ k ∨ w.fdNode parent a ∧ (w'.proc m.process).pageDirectory = (w.proc parent).pageDirectory
  sub : ∀ a ∈ k, a ∈ m.fds
  allocated : ∀ a, w.heap.allocated a = true ∨
    a ∈ [m.process, m.name, m.path, m.tree, m.child] ∨ a ∈ k →
    w'.heap.allocated a = true

/-- The blocks that a new process and its parent get; its descriptors are `k`. -/
def NewBlock (w' : ProcWorld) (m : SpawnMem) (parent : Nat) (k : List Nat) (o : BlockHolder)
    (a : Nat) : Prop :=
  o = .process parent ∧ a = m.child ∨ o = .process m.process ∧ a ∈ [m.process, m.path, m.tree] ∨
    o = .name m.process ∧ a = m.name ∨ o = .fds (w'.proc m.process).pageDirectory ∧ a ∈ k

variable {k : List Nat} {o o' : BlockHolder}

/-- A new block comes from the memory that was given out. -/
theorem NewBlock.mem (h : NewBlock w' m parent k o a) (hk : ∀ a ∈ k, a ∈ m.fds) :
    a ∈ m.blocks ++ m.fds ∧ (a ∈ [m.process, m.name, m.path, m.tree, m.child] ∨ a ∈ k) := by
  rcases h with ⟨-, rfl⟩ | ⟨-, ha⟩ | ⟨-, rfl⟩ | ⟨-, ha⟩
  · simp [SpawnMem.blocks]
  · simp only [List.mem_cons, List.not_mem_nil, or_false] at ha
    rcases ha with rfl | rfl | rfl <;> simp [SpawnMem.blocks]
  · simp [SpawnMem.blocks]
  · exact ⟨List.mem_append_right _ (hk a ha), .inr ha⟩

/-- `malloc` returns each block once. -/
theorem NewBlock.share (h : NewBlock w' m parent k o a) (h' : NewBlock w' m parent k o' a)
    (hk : ∀ a ∈ k, a ∈ m.fds) (hnodup : (m.blocks ++ m.fds).Nodup) : o = o' := by
  simp only [SpawnMem.blocks, List.cons_append, List.nil_append, List.nodup_cons,
    List.mem_cons, not_or] at hnodup
  obtain ⟨hprocess, hname, htree, hpath, -, hchild, -⟩ := hnodup
  -- a descriptor is none of the other blocks
  have hfds : a ∈ k → a ≠ m.process ∧ a ≠ m.name ∧ a ≠ m.tree ∧ a ≠ m.path ∧ a ≠ m.child := by
    intro ha
    have hmem := hk a ha
    refine ⟨?_, ?_, ?_, ?_, ?_⟩
    · rintro rfl
      exact hprocess.2.2.2.2.2 hmem
    · rintro rfl
      exact hname.2.2.2.2 hmem
    · rintro rfl
      exact htree.2.2.2 hmem
    · rintro rfl
      exact hpath.2.2 hmem
    · rintro rfl
      exact hchild hmem
  simp only [NewBlock, List.mem_cons, List.not_mem_nil, or_false] at h h'
  grind

/-- What a holder has now it had before, or it is new. -/
theorem Born.holderBlocks (hb : Born w w' m parent k) (hparent : parent ∈ w.live)
    (ho : o.Present w')
    (ha : holderBlocks w' o a) :
    o.Present w ∧ MishaOS.holderBlocks w o a ∨ NewBlock w' m parent k o a := by
  have hold : ∀ p ∈ w'.live, p = m.process ∨ p ∈ w.live :=
    fun p hp => List.mem_cons.mp (hb.live ▸ hp)
  -- the blocks of a process, its name, and the descriptors of a directory
  rcases o with p | p | d
  · rcases hold p ho with rfl | hp
    · right
      rcases ha with ha | ha
      · rw [hb.newPath, hb.newTree] at ha
        exact .inr (.inl ⟨rfl, ha⟩)
      · exact absurd ha (hb.newEntry a)
    · rcases ha with ha | ha
      · rw [hb.path p hp, hb.tree p hp] at ha
        exact .inl ⟨hp, .inl ha⟩
      -- the parent may have gained the entry of the child
      · rcases hb.entry p hp a ha with ha | ⟨rfl, rfl⟩
        · exact .inl ⟨hp, .inr ha⟩
        · exact .inr (.inl ⟨rfl, rfl⟩)
  · have ha : a = (w'.proc p).name := ha
    rcases hold p ho with rfl | hp
    · exact .inr (.inr (.inr (.inl ⟨rfl, ha.trans hb.newName⟩)))
    · exact .inl ⟨hp, ha.trans (hb.name p hp)⟩
  · obtain ⟨p, hp, rfl, ha⟩ := ha
    rcases hold p hp with rfl | hp
    · rcases hb.newFds a ha with ha | ⟨ha, hd⟩
      · exact .inr (.inr (.inr (.inr ⟨rfl, ha⟩)))
      · -- the descriptors of the parent stay with its directory
        exact .inl ⟨trivial, parent, hparent, hd.symm, ha⟩
    · exact .inl ⟨trivial, p, hp, (hb.dir p hp).symm, hb.fds p hp a ha⟩

/-- A new process with blocks of its own keeps the invariant. -/
theorem SharedInv.born (h : SharedInv init w) (hparent : parent ∈ w.live)
    (hm : MallocOk w.heap (m.blocks ++ m.fds)) (hb : Born w w' m parent k) : SharedInv init w' := by
  have hown : ∀ o a, o.Present w' → holderBlocks w' o a →
      o.Present w ∧ holderBlocks w o a ∨ NewBlock w' m parent k o a :=
        fun o a => hb.holderBlocks hparent
  constructor
  -- `malloc` returns blocks that nobody has, and each of them once
  · apply h.owned.grow hown
    · intro o a ha
      simpa using (hm.2 a (ha.mem hb.sub).1).2.2
    · exact fun o o' a ha ha' => ha.share ha' hb.sub hm.1
    · intro o a ho ha
      apply hb.allocated
      rcases hown o a ho ha with ⟨ho, ha⟩ | ha
      · exact .inl (h.owned.used o a ho ha)
      · exact .inr (ha.mem hb.sub).2
  · exact hb.ok
  · intro p hp a ha
    obtain ⟨o, ho, ha, -⟩ := holderBlocks_of_own hp ha
    rcases hown o a ho ha with ⟨ho, ha⟩ | ha
    · obtain ⟨q, hq, ha⟩ := own_of_holderBlocks ho ha
      exact h.lt q hq a ha
    · exact (hm.2 a (ha.mem hb.sub).1).2.1
  · rw [hb.live]
    exact List.mem_cons_of_mem _ h.mem
  · rw [hb.processTree, h.root, hb.tree init h.mem]

/-- The directory is no block. -/
theorem setProcessPageDirectory_blocks (w : ProcWorld) (process pageDir : Nat) :
    BlocksSame w (setProcessPageDirectory w process pageDir) ∧
      ∀ p, p ≠ process → ((setProcessPageDirectory w process pageDir).proc p) = w.proc p := by
  unfold setProcessPageDirectory
  split
  · exact ⟨.refl w, fun _ _ => rfl⟩
  · dsimp only
    generalize List.foldl _ _ _ = x
    refine ⟨⟨rfl, rfl, rfl, rfl, fun p => ?_⟩, fun p hp => by simp [ProcWorld.setProc, hp]⟩
    rcases eq_or_ne p process with rfl | hp
    · simp [ProcWorld.setProc]
    · simp [ProcWorld.setProc, hp]

/-- The ready queue has no blocks of its own. -/
theorem makeProcessReady_blocks (w : ProcWorld) (process : Nat) :
    BlocksSame w (makeProcessReady w process) ∧
      ∀ p, ((makeProcessReady w process).proc p).pageDirectory = (w.proc p).pageDirectory := by
  unfold makeProcessReady
  split
  · exact ⟨.refl w, fun _ => rfl⟩
  · refine ⟨⟨rfl, rfl, rfl, rfl, fun p => ?_⟩, fun p => ?_⟩
    all_goals
      rcases eq_or_ne p process with rfl | hp
      · simp [ProcWorld.setProc]
      · simp [ProcWorld.setProc, hp]

/-- What `spawn_process` makes, with changes to other fields behind it. -/
theorem Spawned.born (hs : Spawned w w₁ m parent l s) (h : ProcessesOk w)
    (hparent : parent ∈ w.live)
    (hm : MallocOk w.heap (m.blocks ++ m.fds))
    (hi : ValueInserted s w₁.heap m.node m.child (w.proc parent).processTree m.process)
    (hsame : BlocksSame w₁ w') (hdir : ∀ p ∈ w.live,
      (w'.proc p).pageDirectory = (w₁.proc p).pageDirectory) :
    Born w w' m parent l := by
  obtain ⟨hcok, hcentry, hcfds⟩ := hs.child_owns h hparent hm hi
  have hproc : ∀ p ∈ w.live, w₁.proc p = w.proc p :=
    fun p hp => hs.proc p (hm.ne h hp (.inl (by simp))).1
  -- the parent gains an entry, the others nothing
  have hold : ∀ p ∈ w.live, ProcessOk w₁ p ∧
      (∀ a, w₁.childEntry p a → w.childEntry p a ∨ p = parent ∧ a = m.child) ∧
      ∀ a, w₁.fdNode p a → w.fdNode p a := by
    intro p hp
    rcases eq_or_ne p parent with rfl | hne
    · obtain ⟨hok, -, hchild, hfd⟩ := hs.parent_gains h hparent hm hi
      exact ⟨hok, fun a ha => (hchild a ha).imp id fun ha => ⟨rfl, ha⟩, hfd⟩
    · have hkept := hs.others_keep h hparent hm hi hp hne
      have hok := h.proc p hp
      exact ⟨hkept.processOk hok, fun a ha => .inl ((hkept.childEntry hok a).mp ha),
        fun a ha => (hkept.fdNode hok a).mp ha⟩
  have hok : ∀ p ∈ w₁.live, ProcessOk w₁ p := by
    intro p hp
    rcases List.mem_cons.mp (hs.live ▸ hp) with rfl | hp
    · exact hcok
    · exact (hold p hp).1
  have hnew : m.process ∈ w₁.live := by simp [hs.live]
  have hmem : ∀ p ∈ w.live, p ∈ w₁.live := fun p hp => hs.live ▸ List.mem_cons_of_mem _ hp
  -- `BlocksSame` carries every field over to `w'`
  constructor
  · exact hsame.live.trans hs.live
  · exact hsame.processTree.trans hs.processTree
  · exact fun p hp => (hsame.kept p).processOk (hok p (hsame.live ▸ hp))
  · exact fun p hp => (hsame.kept p).path.trans (congrArg Process.workingDirPath (hproc p hp))
  · exact fun p hp => (hsame.kept p).tree.trans (congrArg Process.processTree (hproc p hp))
  · exact fun p hp => (hsame.kept p).name.trans (congrArg Process.name (hproc p hp))
  · exact fun p hp => (hdir p hp).trans (congrArg Process.pageDirectory (hproc p hp))
  · exact fun p hp a ha => (hold p hp).2.1 a
      (((hsame.kept p).childEntry (hok p (hmem p hp)) a).mp ha)
  · exact fun p hp a ha => (hold p hp).2.2 a (((hsame.kept p).fdNode (hok p (hmem p hp)) a).mp ha)
  · exact (hsame.kept _).path.trans hs.path
  · exact (hsame.kept _).tree.trans hs.tree
  · exact (hsame.kept _).name.trans hs.name
  · exact fun a ha => hcentry a (((hsame.kept _).childEntry (hok _ hnew) a).mp ha)
  · exact fun a ha => .inl (hcfds a (((hsame.kept _).fdNode (hok _ hnew) a).mp ha))
  · exact hs.sub
  · intro a ha
    rw [hsame.heap]
    apply (hi.allocated a).mpr
    -- what was allocated before, the new blocks, and the new entry
    rcases ha with ha | ha | ha
    · exact .inl (hs.old a ha)
    · simp only [List.mem_cons, List.not_mem_nil, or_false] at ha
      rcases ha with rfl | rfl | rfl | rfl | rfl
      · exact .inl (hs.new _ (.inl (by simp)))
      · exact .inl (hs.new _ (.inl (by simp)))
      · exact .inl (hs.new _ (.inl (by simp)))
      · exact .inl (hs.new _ (.inl (by simp)))
      · exact .inr (.inr rfl)
    · exact .inl (hs.new a (.inr ha))

/-- `clone` gives the new process the descriptors of the parent in place of its own. -/
theorem Born.shareFds (hb : Born w w₁ m parent l) (hparent : parent ∈ w.live)
    (hfresh : m.process ∉ w.live)
    (hm : MallocOk w.heap (m.blocks ++ m.fds)) (hheap : w'.heap = l.foldl TreeStore.free w₁.heap)
    (hfd : w'.fd = w₁.fd) (hlive : w'.live = w₁.live) (hroot : w'.processTree = w₁.processTree)
    (hothers : ∀ p, p ≠ m.process → w'.proc p = w₁.proc p)
    (hnew : w'.proc m.process = { w₁.proc m.process with fds := (w₁.proc parent).fds })
    (hd : (w₁.proc m.process).pageDirectory = (w₁.proc parent).pageDirectory) :
    Born w w' m parent [] := by
  have hparent₁ : parent ∈ w₁.live := hb.live ▸ List.mem_cons_of_mem _ hparent
  have hnew₁ : m.process ∈ w₁.live := by simp [hb.live]
  have hnode : w'.heap.node = w₁.heap.node ∧ w'.heap.child = w₁.heap.child := by
    rw [hheap]
    simp
  -- only the new process is written
  have hkept : ∀ p, p ≠ m.process → BlocksKept w₁ w' p := fun p hp =>
    { name := by rw [hothers p hp]
      path := by rw [hothers p hp]
      tree := by rw [hothers p hp]
      fds := by rw [hothers p hp]
      node := by rw [hnode.1]
      child := fun e _ => by simp [hnode.2]
      fd := fun a _ => by rw [hfd] }
  -- its descriptors are those of the parent
  have hfds : ∀ a, w'.fdNode m.process a ↔ w₁.fdNode parent a := by
    intro a
    unfold ProcWorld.fdNode
    rw [hnew, hfd]
  have hentry : ∀ a, w'.childEntry m.process a ↔ w₁.childEntry m.process a := by
    intro a
    unfold ProcWorld.childEntry
    rw [hnew, hnode.1, hnode.2]
  have hmem : ∀ p ∈ w.live, p ≠ m.process ∧ p ∈ w₁.live := fun p hp =>
    ⟨fun heq => hfresh (heq ▸ hp), hb.live ▸ List.mem_cons_of_mem _ hp⟩
  constructor
  · exact hlive.trans hb.live
  · exact hroot.trans hb.processTree
  · intro p hp
    rw [hlive] at hp
    -- the new process is well formed as before: only its descriptors changed
    rcases eq_or_ne p m.process with rfl | hne
    · have hok := hb.ok _ hnew₁
      constructor
      · exact hok.ne
      · rw [hnew]
        exact hok.tree
      · rw [hnew, hnode.1]
        exact hok.orphan
      · rw [hnew, hnode.1, hnode.2]
        exact hok.children
      · rw [hnew, hfd]
        exact (hb.ok parent hparent₁).fds
    · exact (hkept p hne).processOk (hb.ok p hp)
  · exact fun p hp => (hkept p (hmem p hp).1).path.trans (hb.path p hp)
  · exact fun p hp => (hkept p (hmem p hp).1).tree.trans (hb.tree p hp)
  · exact fun p hp => (hkept p (hmem p hp).1).name.trans (hb.name p hp)
  · intro p hp
    rw [hothers p (hmem p hp).1]
    exact hb.dir p hp
  · intro p hp a ha
    obtain ⟨hne, hp₁⟩ := hmem p hp
    exact hb.entry p hp a (((hkept p hne).childEntry (hb.ok p hp₁) a).mp ha)
  · intro p hp a ha
    obtain ⟨hne, hp₁⟩ := hmem p hp
    exact hb.fds p hp a (((hkept p hne).fdNode (hb.ok p hp₁) a).mp ha)
  · rw [hnew]
    exact hb.newPath
  · rw [hnew]
    exact hb.newTree
  · rw [hnew]
    exact hb.newName
  · exact fun a ha => hb.newEntry a ((hentry a).mp ha)
  -- the directory is shared, so its descriptors stay with it
  · intro a ha
    right
    refine ⟨hb.fds parent hparent a ((hfds a).mp ha), ?_⟩
    rw [hnew, ← hb.dir parent hparent]
    exact hd
  · simp
  · -- what is freed again was free before the call, and is no other new block
    intro a ha
    have hal : a ∉ l := by
      intro hal
      have hafds := hb.sub a hal
      rcases ha with ha | ha | ha
      · have hfree := (hm.2 a (List.mem_append_right _ hafds)).2.2
        exact absurd (hfree.symm.trans ha) (by simp)
      · have hblocks : a ∈ m.blocks := by
          simp only [SpawnMem.blocks, List.mem_cons, List.not_mem_nil, or_false] at ha ⊢
          tauto
        exact (List.nodup_append.mp hm.1).2.2 a hblocks a hafds rfl
      · simp at ha
    have hold : w₁.heap.allocated a = true := by
      apply hb.allocated
      rcases ha with ha | ha | ha
      · exact .inl ha
      · exact .inr (.inl ha)
      · simp at ha
    rw [hheap, TreeStore.foldl_free_allocated, hold]
    simp [hal]

/-! ## `exec` and reaping -/

/-- The block of a name is freed, and another one, which may be the same, takes its place. -/
theorem SharedInv.rename {name : Nat} (h : SharedInv init w) (hp : p ∈ w.live)
    (hm : MallocOk (w.heap.free (w.proc p).name) [name])
    (hheap : w'.heap = (w.heap.free (w.proc p).name).alloc name) (hfd : w'.fd = w.fd)
    (hlive : w'.live = w.live)
    (hroot : w'.processTree = w.processTree) (hothers : ∀ q, q ≠ p → w'.proc q = w.proc q)
    (hself : ∃ image, w'.proc p = { w.proc p with
      name := name, image := image }) : SharedInv init w' := by
  obtain ⟨image, hself⟩ := hself
  have hnode : w'.heap.node = w.heap.node ∧ w'.heap.child = w.heap.child := by
    rw [hheap]
    exact ⟨rfl, rfl⟩
  have hproc : ∀ q, w'.proc q = { w.proc q with
    name := (w'.proc q).name, image := (w'.proc q).image } := by
    intro q
    rcases eq_or_ne q p with rfl | hne
    · rw [hself]
    · rw [hothers q hne]
  have hfields : ∀ q, (w'.proc q).workingDirPath = (w.proc q).workingDirPath ∧
      (w'.proc q).processTree = (w.proc q).processTree ∧ (w'.proc q).fds = (w.proc q).fds ∧
      (w'.proc q).pageDirectory = (w.proc q).pageDirectory := fun q => by
    rw [hproc q]
    exact ⟨rfl, rfl, rfl, rfl⟩
  have hfds : ∀ q a, w'.fdNode q a ↔ w.fdNode q a := by
    intro q a
    unfold ProcWorld.fdNode
    rw [(hfields q).2.2.1, hfd]
  have hentry : ∀ q a, w'.childEntry q a ↔ w.childEntry q a := by
    intro q a
    unfold ProcWorld.childEntry
    rw [(hfields q).2.1, hnode.1, hnode.2]
  have hname : (w'.proc p).name = name := by rw [hself]
  -- all blocks but the name are those of before
  have hown : ∀ o a, o.Present w' → holderBlocks w' o a →
      o.Present w ∧ holderBlocks w o a ∧ a ≠ (w.proc p).name ∨ o = .name p ∧ a = name := by
    intro o a ho ha
    have hrest : o ≠ .name p → o.Present w ∧ holderBlocks w o a → o.Present w ∧ holderBlocks w o a ∧
        a ≠ (w.proc p).name := by
      rintro hne ⟨ho, ha⟩
      refine ⟨ho, ha, ?_⟩
      rintro rfl
      exact hne (h.owned.apart o (.name p) _ ho hp ha rfl)
    have hpresent : o.Present w := by
      rcases o with q | q | d
      · show q ∈ w.live
        rw [← hlive]
        exact ho
      · show q ∈ w.live
        rw [← hlive]
        exact ho
      · trivial
    rcases o with q | q | d
    · left
      apply hrest (by simp)
      refine ⟨hpresent, ?_⟩
      rcases ha with ha | ha
      · rw [(hfields q).1, (hfields q).2.1] at ha
        exact .inl ha
      · exact .inr ((hentry q a).mp ha)
    · have ha : a = (w'.proc q).name := ha
      rcases eq_or_ne q p with rfl | hne
      · exact .inr ⟨rfl, ha.trans hname⟩
      · left
        apply hrest (by simpa using hne)
        rw [hothers q hne] at ha
        exact ⟨hpresent, ha⟩
    · left
      apply hrest (by simp)
      obtain ⟨q, hq, hd, ha⟩ := ha
      rw [(hfields q).2.2.2] at hd
      exact ⟨trivial, q, hlive ▸ hq, hd, (hfds q a).mp ha⟩
  have hfree : ∀ o a, o.Present w → holderBlocks w o a → a ≠ (w.proc p).name →
      (w.heap.free (w.proc p).name).allocated a = true := by
    intro o a ho ha hne
    simpa [TreeStore.free, hne] using h.owned.used o a ho ha
  have hname' : (w.heap.free (w.proc p).name).allocated name = false := (hm.2 name (by simp)).2.2
  constructor
  · constructor
    · intro o a ho ha
      rw [hheap]
      rcases hown o a ho ha with ⟨ho, ha, hne⟩ | ⟨-, rfl⟩
      · have hused := hfree o a ho ha hne
        rcases eq_or_ne a name with rfl | hane
        · simp [TreeStore.alloc]
        · simpa [TreeStore.alloc, hane] using hused
      · simp [TreeStore.alloc]
    · intro o o' a ho ho' ha ha'
      -- the new name was not allocated when the old one had been freed
      have hnew : ∀ o, o.Present w → holderBlocks w o a → a ≠ (w.proc p).name → a ≠ name := by
        rintro o ho ha hne rfl
        exact absurd ((hfree o a ho ha hne).symm.trans hname') (by simp)
      rcases hown o a ho ha with ⟨ho, ha, hne⟩ | ⟨hop, haname⟩
      · rcases hown o' a ho' ha' with ⟨ho', ha', -⟩ | ⟨-, haname⟩
        · exact h.owned.apart o o' a ho ho' ha ha'
        · exact absurd haname (hnew o ho ha hne)
      · rcases hown o' a ho' ha' with ⟨ho', ha', hne'⟩ | ⟨hop', -⟩
        · exact absurd haname (hnew o' ho' ha' hne')
        · exact hop.trans hop'.symm
  · intro q hq
    have hok := h.proc q (hlive ▸ hq)
    constructor
    · exact hok.ne
    · rw [(hfields q).2.1]
      exact hok.tree
    · rw [(hfields q).2.1, hnode.1]
      exact hok.orphan
    · rw [(hfields q).2.1, hnode.1, hnode.2]
      exact hok.children
    · rw [(hfields q).2.2.1, hfd]
      exact hok.fds
  · intro q hq a ha
    obtain ⟨o, ho, ha, -⟩ := holderBlocks_of_own hq ha
    rcases hown o a ho ha with ⟨ho, ha, -⟩ | ⟨-, rfl⟩
    · obtain ⟨q', hq', ha⟩ := own_of_holderBlocks ho ha
      exact h.lt q' hq' a ha
    · exact (hm.2 a (by simp)).2.1
  · rw [hlive]
    exact h.mem
  · rw [hroot, h.root, (hfields init).2.1]

/-- What `reap_process` frees: the descriptors `l` and the child entries `k`, among others. -/
structure Reaped (w w' : ProcWorld) (r : Nat) (l k : List Nat) : Prop where
  fds : Chain (fun a => (w.fd a).link) 0 (w.proc r).fds l
  entries : Chain (fun e => (w.heap.child e).next) 0 (w.heap.node (w.proc r).processTree).children k
  heap : w'.heap =
    ([(w.proc r).workingDirPath, (w.proc r).name] ++ l ++ (k ++ [(w.proc r).processTree, r])).foldl
    TreeStore.free w.heap
  live : w'.live = w.live.erase r
  rest : w' = { w with heap := w'.heap, paging := w'.paging, live := w'.live }

/-- What `reap_process` gives back. -/
theorem SharedInv.reapProcess_eq (h : SharedInv init w) (hr : r ∈ w.live) (hne : r ≠ init)
    (hw : reapProcess w r = some w') : ∃ l k, Reaped w w' r l k := by
  have hok := h.proc r hr
  obtain ⟨l, hl⟩ := hok.fds
  obtain ⟨k, hk, hvalue⟩ := hok.children
  have hllen : l.length < walkFuel :=
    hl.length_lt (by decide) fun a ha => h.lt r hr a (.inr (.inr ⟨l, hl, ha⟩))
  have hklen : k.length < walkFuel :=
    hk.length_lt (by decide) fun a ha => h.lt r hr a (.inr (.inl ⟨k, hk, ha⟩))
  have hroot : (w.proc r).processTree ≠ w.processTree := by
    rw [h.root]
    exact fun heq => hne (h.processesOk.tree r hr init h.mem heq)
  refine ⟨l, k, ?_⟩
  simp only [reapProcess, Option.bind_eq_bind, Option.bind_eq_some_iff] at hw
  obtain ⟨w₁, hfree, hdelete⟩ := hw
  have hl' : Chain (fun a => (((w.free (w.proc r).workingDirPath).free (w.proc r).name).fd a).link)
    0
      (w.proc r).fds l := hl
  rw [freeFds_eq hl' hllen] at hfree
  obtain rfl := Option.some.inj hfree
  -- the frames are another part of the state
  generalize pdeFree _ _ = m at hdelete
  have hheap :
    ((l.foldl TreeStore.free ((w.free (w.proc r).workingDirPath).free (w.proc r).name).heap).node =
      w.heap.node ∧ (l.foldl TreeStore.free
        ((w.free (w.proc r).workingDirPath).free (w.proc r).name).heap).child = w.heap.child) := by
    simp [ProcWorld.free, TreeStore.free]
  have hok' : ProcessOk { { (w.free (w.proc r).workingDirPath).free (w.proc r).name with
      heap := l.foldl TreeStore.free
        ((w.free (w.proc r).workingDirPath).free (w.proc r).name).heap } with
        paging := m } r := by
    constructor
    · exact hok.ne
    · exact hok.tree
    · dsimp only
      rw [hheap.1]
      exact hok.orphan
    · dsimp only
      rw [hheap.1, hheap.2]
      exact hok.children
    · exact hok.fds
  have hdel := deleteProcess_eq (l := k) hok' hroot (by
    dsimp only
    rw [hheap.1, hheap.2]
    exact hk) (by
    dsimp only
    rw [hheap.2]
    exact hvalue) hklen
  obtain rfl := Option.some.inj (hdelete.symm.trans hdel)
  refine ⟨hl, hk, ?_, rfl, rfl⟩
  simp only [List.foldl_append]
  rfl

/-- Reaping a process that is alone in its directory leaves the blocks of the others. -/
theorem SharedInv.reap (h : SharedInv init w) (hnodup : w.live.Nodup) (hr : r ∈ w.live)
    (hne : r ≠ init)
    (halone : ∀ p ∈ w.live, p ≠ r → (w.proc p).pageDirectory ≠ (w.proc r).pageDirectory)
    (hw : reapProcess w r = some w') : SharedInv init w' ∧ w'.live = w.live.erase r ∧
      ∀ p ∈ w'.live, ∀ a, ownBlocks w p a → w'.heap.allocated a = true := by
  obtain ⟨l, k, hreap⟩ := h.reapProcess_eq hr hne hw
  have hmem : ∀ p ∈ w'.live, p ∈ w.live ∧ p ≠ r := by
    intro p hp
    rw [hreap.live] at hp
    exact ⟨List.mem_of_mem_erase hp, fun heq => hnodup.not_mem_erase (heq ▸ hp)⟩
  -- what is freed belongs to the process or to its directory
  have hfreed : ∀ a, a ∈ [(w.proc r).workingDirPath, (w.proc r).name] ++ l ++
    (k ++ [(w.proc r).processTree, r]) →
      ∃ o, o.Present w ∧ holderBlocks w o a ∧
        (o = .process r ∨ o = .name r ∨ o = .fds (w.proc r).pageDirectory) := by
    intro a ha
    apply holderBlocks_of_own hr
    simp only [List.mem_append, List.mem_cons, List.not_mem_nil, or_false] at ha
    rcases ha with ((rfl | rfl) | ha) | ha | rfl | rfl
    · exact .inl (by simp)
    · exact .inl (by simp)
    · exact .inr (.inr ⟨l, hreap.fds, ha⟩)
    · exact .inr (.inl ⟨k, hreap.entries, ha⟩)
    · exact .inl (by simp)
    · exact .inl (by simp)
  have hkeep : ∀ o a, o.Present w → holderBlocks w o a →
      o ≠ .process r → o ≠ .name r → o ≠ .fds (w.proc r).pageDirectory →
        w'.heap.allocated a = true := by
    intro o a ho ha h₁ h₂ h₃
    have hnot : a ∉ [(w.proc r).workingDirPath, (w.proc r).name] ++ l ++
        (k ++ [(w.proc r).processTree, r]) := by
      intro hin
      obtain ⟨o', ho', ha', ho''⟩ := hfreed a hin
      obtain rfl := h.owned.apart o o' a ho ho' ha ha'
      tauto
    have hused : w.heap.allocated a = true := h.owned.used o a ho ha
    rw [hreap.heap, TreeStore.foldl_free_allocated, hused, decide_eq_true hnot, Bool.and_self]
  have hothers : ∀ p ∈ w'.live, ∀ o : BlockHolder, o = .process p ∨ o = .name p ∨
    o = .fds (w.proc p).pageDirectory →
      o ≠ .process r ∧ o ≠ .name r ∧ o ≠ .fds (w.proc r).pageDirectory := by
    intro p hp o ho
    obtain ⟨hp, hpr⟩ := hmem p hp
    have hd := halone p hp hpr
    rcases ho with rfl | rfl | rfl <;> simp [hpr, hd]
  have hproc : w'.proc = w.proc ∧ w'.fd = w.fd ∧ w'.processTree = w.processTree := by
    rw [hreap.rest]
    exact ⟨rfl, rfl, rfl⟩
  have hnode : w'.heap.node = w.heap.node ∧ w'.heap.child = w.heap.child := by
    rw [hreap.heap]
    exact ⟨TreeStore.foldl_free_node .., TreeStore.foldl_free_child ..⟩
  have hkept : ∀ p, BlocksKept w w' p := fun p =>
    { name := by rw [hproc.1]
      path := by rw [hproc.1]
      tree := by rw [hproc.1]
      fds := by rw [hproc.1]
      node := by rw [hnode.1]
      child := fun e _ => by simp [hnode.2]
      fd := fun a _ => by rw [hproc.2.1] }
  have hall : ∀ p ∈ w'.live, ∀ a, ownBlocks w p a → w'.heap.allocated a = true := by
    intro p hp a ha
    obtain ⟨o, ho, ha, hcases⟩ := holderBlocks_of_own (hmem p hp).1 ha
    obtain ⟨h₁, h₂, h₃⟩ := hothers p hp o hcases
    exact hkeep o a ho ha h₁ h₂ h₃
  refine ⟨?_, hreap.live, hall⟩
  apply h.shrink
  · exact fun p hp => (hmem p hp).1
  · exact fun p _ => hkept p
  · intro p _
    rw [hproc.1]
  · rw [hreap.live]
    exact (List.mem_erase_of_ne hne.symm).mpr h.mem
  · exact hproc.2.2
  · intro o a ho ha _
    obtain ⟨p, hp, ha⟩ := own_of_holderBlocks ho ha
    exact hall p hp a (((hkept p).ownBlocks (h.proc p (hmem p hp).1) a).mp ha)

/-! ## The first process -/

section

variable {i : InitMem}

/-- The first process keeps its blocks. -/
theorem InitSpawned.congr (hs : InitSpawned w i) (hsame : BlocksSame w w') : InitSpawned w' i where
  live := hsame.live.trans hs.live
  processTree := hsame.processTree.trans hs.processTree
  name := (hsame.kept _).name.trans hs.name
  path := (hsame.kept _).path.trans hs.path
  tree := (hsame.kept _).tree.trans hs.tree
  node := by
    rw [hsame.heap]
    exact hs.node
  fds := by
    rw [(hsame.kept _).fds, hsame.fd]
    exact hs.fds
  allocated a ha := by
    rw [hsame.heap]
    exact hs.allocated a ha

/-- With the first process nothing is shared. -/
theorem SharedInv.start (h : InitOk w i) (hs : InitSpawned w' i) : SharedInv i.init w' := by
  have hlt : ∀ a ∈ i.blocks, a ≠ 0 ∧ a < 4294967296 := fun a ha =>
    ⟨(h.mem.2 a ha).1.ne', (h.mem.2 a ha).2.1⟩
  have hnodup := h.mem.1
  simp only [InitMem.blocks, List.nodup_cons, List.mem_cons, List.not_mem_nil, or_false, not_or]
    at hnodup
  have hk := hs.childless
  have hmem : ∀ p, p ∈ w'.live ↔ p = i.init := by simp [hs.live]
  have hok := hs.processOk h
  -- each block has one holder
  have hown : ∀ o a, o.Present w' → holderBlocks w' o a →
      o = .process i.init ∧ a ∈ [i.init, i.path, i.tree] ∨ o = .name i.init ∧ a = i.name ∨
        o = .fds (w'.proc i.init).pageDirectory ∧
          a ∈ [i.stdinEntry, i.stderrEntry, i.stdoutEntry] := by
    rintro (p | p | d) a ho ha
    · obtain rfl := (hmem p).mp ho
      left
      rcases ha with ha | ha
      · rw [hs.path, hs.tree] at ha
        exact ⟨rfl, ha⟩
      · simpa using (Reaches.of_chain hk).mp ha
    · obtain rfl := (hmem p).mp ho
      have ha : a = (w'.proc i.init).name := ha
      exact .inr (.inl ⟨rfl, ha.trans hs.name⟩)
    · obtain ⟨p, hp, rfl, ha⟩ := ha
      obtain rfl := (hmem p).mp hp
      exact .inr (.inr ⟨rfl, (Reaches.of_chain hs.fds).mp ha⟩)
  have hblocks : ∀ o a, o.Present w' → holderBlocks w' o a → a ∈ i.blocks := by
    intro o a ho ha
    simp only [InitMem.blocks, List.mem_cons, List.not_mem_nil, or_false]
    rcases hown o a ho ha with ⟨-, ha⟩ | ⟨-, ha⟩ | ⟨-, ha⟩
    · simp only [List.mem_cons, List.not_mem_nil, or_false] at ha
      tauto
    · tauto
    · simp only [List.mem_cons, List.not_mem_nil, or_false] at ha
      tauto
  constructor
  · constructor
    · exact fun o a ho ha => hs.allocated a (hblocks o a ho ha)
    · intro o o' a ho ho' ha ha'
      have h₁ := hown o a ho ha
      have h₂ := hown o' a ho' ha'
      simp only [List.mem_cons, List.not_mem_nil, or_false] at h₁ h₂
      grind
  · intro p hp
    obtain rfl := (hmem p).mp hp
    exact hok
  · intro p hp a ha
    obtain ⟨o, ho, ha, -⟩ := holderBlocks_of_own hp ha
    exact (hlt a (hblocks o a ho ha)).2
  · exact (hmem _).mpr rfl
  · rw [hs.processTree, hs.tree]

end

end MishaOS
