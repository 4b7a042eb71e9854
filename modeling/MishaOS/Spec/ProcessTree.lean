import MishaOS.ForStd.Run
import MishaOS.Spec.ProcessHeap

/-!
# The process tree

`spawn_process` gives a new process a node of its own and inserts another node
below the parent's.  `tree_insert_node` does not store that node in the child
entry, so from `process_tree` no other node can be reached: `get_process` finds
`init` and nothing else.

## Key results

- `getProcess_eq`: what `get_process` returns in every reachable state.
- `tree_run_complete_iff`: the tree contains the live processes exactly while `init` is the only
  one.
- `spawned_process_not_found`: a spawned process that `get_process` does not return.
-/

namespace MishaOS

open LinkedList

/-! ## Calls -/

inductive TreeOp
  | spawn (m : SpawnMem) (parent : Nat)
  | delete (process : Nat)

def treeStep (w : ProcWorld) : TreeOp → Option ProcWorld
  | .spawn m parent => spawnProcess w m parent
  | .delete process => deleteProcess w process

/-- Parents and deleted processes are live, and `malloc` returns free blocks. -/
def TreeOpOk (w : ProcWorld) : TreeOp → Prop
  | .spawn m parent => parent ∈ w.live ∧ MallocOk w.heap (m.blocks ++ m.fds)
  | .delete process => process ∈ w.live

instance (w : ProcWorld) (op : TreeOp) : Decidable (TreeOpOk w op) :=
  match op with
  | .spawn _ _ => inferInstanceAs (Decidable (_ ∧ _))
  | .delete _ => inferInstanceAs (Decidable (_ ∈ _))

/-! ## What the tree is for -/

/-- The nodes below `root`: a child is held by an entry of its parent and names
    its parent. -/
inductive InTree (s : TreeStore) (root : Nat) : Nat → Prop
  | root : InTree s root root
  | child {n e : Nat} : InTree s root n →
      Reaches (fun e => (s.child e).next) (s.node n).children e → (s.child e).value ≠ 0 →
      (s.node (s.child e).value).parent = n → InTree s root (s.child e).value

/-- `get_process` returns the live process with a number, and 0 when there is
    none; the tree contains every live process. -/
structure TreeComplete (w : ProcWorld) : Prop where
  find : ∀ pid, ∃ r, getProcess w pid = some r ∧
    ∀ p, p ≠ 0 → (r = p ↔ p ∈ w.live ∧ (w.proc p).id = pid)
  contains : ∀ p ∈ w.live, ∃ n, InTree w.heap w.processTree n ∧ (w.heap.node n).value = p

/-! ## The search -/

variable {w w' : ProcWorld} {s : TreeStore} {i : InitMem} {init p rootDir esp : Nat} {l : List Nat}

/-- Entries without a node make the search return 0. -/
theorem treeFindChildren_eq {comparator : Nat → Bool} {n c : Nat}
    (h : Chain (fun e => (s.child e).next) 0 c l) (hvalue : ∀ e ∈ l, (s.child e).value = 0)
    (hn : l.length < n) : treeFindChildren s comparator n c = some 0 := by
  induction l generalizing n c with
  | nil =>
    obtain ⟨n, rfl⟩ : ∃ k, n = k + 1 := ⟨n - 1, by simp at hn; omega⟩
    have hc : c = 0 := h
    simp [treeFindChildren, hc]
  | cons e l ih =>
    obtain ⟨rfl, hc, hrest⟩ := h
    rw [List.length_cons] at hn
    obtain ⟨n, rfl⟩ : ∃ k, n = k + 2 := ⟨n - 2, by omega⟩
    have hnull : treeFind s comparator (n + 1) (s.child c).value = some 0 := by
      rw [hvalue c List.mem_cons_self, treeFind, if_pos rfl]
    have hrec := ih (n := n + 1) hrest (fun e he => hvalue e (List.mem_cons_of_mem _ he)) (by omega)
    rw [treeFindChildren, if_neg hc]
    simpa [hnull] using hrec

/-- `get_process` looks at the root only. -/
theorem getProcess_eq (h : BlockInv init w) (pid : BitVec 32) :
    getProcess w pid = some (if (w.proc init).id = pid then init else 0) := by
  have hok := h.proc init h.mem
  have htree : w.processTree ≠ 0 := h.root ▸ hok.tree
  obtain ⟨l, hl, hvalue⟩ := hok.children
  have hlen := h.length_lt h.mem hl fun e he => .inr (.inl ⟨l, hl, he⟩)
  rw [← h.root] at hl
  obtain ⟨n, hn⟩ : ∃ n, treeFuel = n + 1 := ⟨treeFuel - 1, rfl⟩
  -- the root has fewer children than the walk has fuel
  have hln : l.length < n := by
    have htwo : treeFuel = 2 * walkFuel := rfl
    have hwalk : walkFuel = 4294967296 := rfl
    omega
  have hnone : treeFindChildren w.heap (processPidComparator w pid) n
      (w.heap.node w.processTree).children = some 0 := treeFindChildren_eq hl hvalue hln
  rw [getProcess, hn, treeFind, if_neg htree, h.value]
  -- the root is asked first, then its children, which have none of their own
  by_cases hid : (w.proc init).id = pid
  · simp [processPidComparator, hok.ne, hid, htree, h.value]
  · simp [processPidComparator, hid, hnone]

/-- No node but the root can be reached. -/
theorem InTree.eq_root {n : Nat} (h : BlockInv init w) (hn : InTree w.heap w.processTree n) :
    n = w.processTree := by
  induction hn with
  | root => rfl
  | @child n e _ he hne _ heq =>
    -- the entries of the root hold no node, and no other node has been reached before
    obtain ⟨l, hl, hvalue⟩ := (h.proc init h.mem).children
    rw [← h.root, ← heq] at hl
    exact absurd (hvalue e ((Reaches.of_chain hl).mp he)) hne

/-! ## Every run -/

theorem treeStep_blocks {op : TreeOp} (h : BlockInv init w) (hok : TreeOpOk w op)
    (hstep : treeStep w op = some w') : BlockInv init w' := by
  cases op with
  | spawn m parent => exact h.spawnProcess hok.1 hok.2 hstep
  | delete process => exact h.deleteProcess hok hstep

theorem treeComplete_iff (h : BlockInv init w) : TreeComplete w ↔ ∀ p ∈ w.live, p = init := by
  constructor
  · intro hc p hp
    obtain ⟨n, hn, hvalue⟩ := hc.contains p hp
    rw [hn.eq_root h, h.value] at hvalue
    exact hvalue.symm
  · intro honly
    constructor
    · intro pid
      refine ⟨_, getProcess_eq h pid, fun p hp => ?_⟩
      constructor
      · intro hr
        split at hr
        · rename_i hid
          exact hr ▸ ⟨h.mem, hid⟩
        · exact absurd hr.symm hp
      · rintro ⟨hlive, hid⟩
        obtain rfl := honly p hlive
        rw [if_pos hid]
    · intro p hp
      exact ⟨w.processTree, .root, by rw [h.value, honly p hp]⟩

/-- In every reachable state the tree is complete exactly when no spawned process is live. -/
theorem tree_run_complete_iff {ops : List TreeOp} (h : InitOk w i)
    (hrun : Run treeStep TreeOpOk (spawnInit w i rootDir esp) ops w') :
    TreeComplete w' ↔ ∀ p ∈ w'.live, p = i.init :=
  treeComplete_iff (hrun.invariant (BlockInv i.init) (fun _ _ _ => treeStep_blocks) (.spawnInit h))

/-! ## A run -/

def Process.blank : Process :=
  ⟨0, 0, 0, ⟨0, 0, 0, 0, 0, 0, 0⟩, 0, 0, 0, 0, 0, 0, 0, 0, 0, false, false, false⟩

/-- Before `init_process`: the frames below 300 are in use, among them the
    kernel's directory and the table of its heap. -/
def ProcWorld.boot : ProcWorld where
  paging :=
    { pfa := ⟨fun f => f < 300, 300, 0, 0, false⟩
      dir := fun _ => ⟨fun i => if heapTable i then 0x5000 else 0, fun _ => 0, 0x3000⟩
      table := fun _ _ => Page.zero
      currentPageDirectory := 0x2000 }
  kernelDirectory := 0x2000
  heap := ⟨fun _ => false, fun _ => ⟨0, 0, 0⟩, fun _ => ⟨0, 0, 0⟩⟩
  proc := fun _ => Process.blank
  fd := fun _ => ⟨0, 0, 0⟩
  queueNode := fun _ => ⟨0, 0⟩
  reapNode := fun _ => ⟨0, 0⟩
  processTree := 0
  processQueue := ⟨0, 0⟩
  reapQueue := ⟨0, 0⟩
  reapLock := false
  currentProcess := 0
  currentPid := 0
  live := []

def InitMem.boot : InitMem :=
  ⟨0x80000010, 0x80000120, 0x80000140, 0x80000150, 0x80000160, 0x80000180, 0x800001A0, 0x800001C0,
    0x800001E0, 0x80000200, Process.blank⟩

/-- Free blocks from `base` on. -/
def SpawnMem.at (base : Nat) : SpawnMem :=
  ⟨base, base + 0x100, base + 0x110, [base + 0x130, base + 0x150, base + 0x170], base + 0x190,
    base + 0x1A0, base + 0x1C0, Process.blank⟩

theorem boot_initOk : InitOk ProcWorld.boot InitMem.boot := ⟨rfl, by decide +kernel⟩

/-- The tree is complete again once the spawned process is deleted. -/
theorem tree_run_complete_iff_spawn_delete :
    ∃ w, Run treeStep TreeOpOk (spawnInit ProcWorld.boot InitMem.boot 0 0x9FFFF)
      [.spawn (SpawnMem.at 0x80001000) 0x80000010, .delete 0x80001000] w ∧ TreeComplete w := by
  have hsome : (Run.exec treeStep TreeOpOk (spawnInit ProcWorld.boot InitMem.boot 0 0x9FFFF)
      [.spawn (SpawnMem.at 0x80001000) 0x80000010, .delete 0x80001000]).map (·.live) =
      some [0x80000010] := by
    decide +kernel
  obtain ⟨w, hw, hlive⟩ := Option.map_eq_some_iff.mp hsome
  have hrun := Run.of_exec hw
  exact ⟨w, hrun, (tree_run_complete_iff boot_initOk hrun).mpr (by simp [hlive, InitMem.boot])⟩

/-- `init` spawns a process: it gets the number 1, and `get_process(1)` returns 0. -/
theorem spawned_process_not_found :
    ∃ w, Run treeStep TreeOpOk (spawnInit ProcWorld.boot InitMem.boot 0 0x9FFFF)
      [.spawn (SpawnMem.at 0x80001000) 0x80000010] w ∧ 0x80001000 ∈ w.live ∧
        (w.proc 0x80001000).id = 1 ∧ getProcess w 1 = some 0 ∧ ¬ TreeComplete w := by
  have hsome : (Run.exec treeStep TreeOpOk (spawnInit ProcWorld.boot InitMem.boot 0 0x9FFFF)
      [.spawn (SpawnMem.at 0x80001000) 0x80000010]).map
        (fun w => decide (0x80001000 ∈ w.live ∧ (w.proc 0x80001000).id = 1 ∧
          getProcess w 1 = some 0)) =
      some true := by
    decide +kernel
  obtain ⟨w, hw, hfacts⟩ := Option.map_eq_some_iff.mp hsome
  obtain ⟨hlive, hid, hfind⟩ := of_decide_eq_true hfacts
  refine ⟨w, Run.of_exec hw, hlive, hid, hfind, fun hc => ?_⟩
  obtain ⟨r, hr, hiff⟩ := hc.find 1
  obtain rfl : 0 = r := Option.some.inj (hfind.symm.trans hr)
  exact absurd ((hiff 0x80001000 (by decide)).mpr ⟨hlive, hid⟩) (by decide)

end MishaOS
