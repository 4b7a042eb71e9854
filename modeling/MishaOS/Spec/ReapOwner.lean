import MishaOS.Spec.DirPresent
import MishaOS.Spec.FrameCalls
import MishaOS.Spec.SchedRun
import MishaOS.Spec.SharedFds

/-!
# Who has the frames and blocks of processes

The state of the scheduler together with what is noted of the directories, and
with a mark on each process that has called `clone` or was made by it.  No step
reads the notes.  As long as every request of frames has been answered with free
ones, the frames of each process are those of its directory, and a process
without the mark is alone in it.  `reap_process` knows nothing of either: it
releases the directory and the descriptors of a process that shares them, and
the pages it walks are those from the end of the current process's image on.

## Key results

- `Owners.housed`, `Owners.exec`, `Owners.reap`: what the calls do to the invariant.
- `reap_run_keeps`: what reaping a process leaves to the others.
-/

namespace MishaOS

open Fifo LinkedList

/-- The pages of the user heap of a process, from the end of its image on. -/
def ProcWorld.userHeap (w : ProcWorld) (p : Nat) : List Nat :=
  heapPages (w.proc p).image.heapBase (w.proc p).image.heapAligned

/-- The directories of the live processes. -/
def ProcWorld.dirs (w : ProcWorld) : List Nat := w.live.map fun p => (w.proc p).pageDirectory

/-- The scheduler with what is noted beside it. -/
structure OwnWorld where
  sched : SchedWorld
  ledger : Ledger
  /-- The process has called `clone` or was made by it. -/
  marked : Nat → Bool

/-- What a step notes of the frames: those of a new directory, a new stack, a new image. -/
def noteLedger (w w' : ProcWorld) (L : Ledger) : SchedOp → Ledger
  | .fork m | .system m =>
    let c := (w'.proc m.process).pageDirectory
    (L.fork c w.current.pageDirectory).addStack c (w'.stackFrames m.process)
  | .clone m => L.addStack w.current.pageDirectory (w'.stackFrames m.process)
  | .exec _ path (some data) args =>
    if elfMagic data then L.exec w.kernelDirectory w.current.pageDirectory
      (execPages data path args) else L
  | .exec _ _ none _ | .exit _ | .switch | .advance => L

/-- Who calls `clone` and whom it makes is marked. -/
def noteMarked (w : ProcWorld) (marked : Nat → Bool) : SchedOp → Nat → Bool
  | .fork m | .system m => Function.update marked m.process false
  | .clone m => Function.update (Function.update marked w.currentProcess true) m.process true
  | .exec .. | .exit _ | .switch | .advance => marked

/-- A step, and the notes on it. -/
def ownStep (s : OwnWorld) (op : SchedOp) : Option OwnWorld :=
  (schedStep s.sched op).map fun t =>
    ⟨t, noteLedger s.sched.world t.world s.ledger op, noteMarked s.sched.world s.marked op⟩

variable {s s' : SchedWorld} {w w' w₁ : ProcWorld} {m : SpawnMem} {i : InitMem} {L L' : Ledger}
  {marked marked' : Nat → Bool} {op : SchedOp} {l l' z fs : List Nat} {init p q r d parent : Nat}

/-! ## The invariant -/

/-- Each process but `init` has its kernel stack noted for its directory, and processes
    in one directory are marked. -/
structure Owners (init : Nat) (w : ProcWorld) (L : Ledger) (marked : Nat → Bool) : Prop where
  blocks : SharedInv init w
  frames : ∃ k, FrameInv w.kernelDirectory w.paging w.dirs L k
  running : w.currentProcess ∈ w.live
  directory : w.paging.currentPageDirectory = w.current.pageDirectory
  kernel : (w.proc init).pageDirectory = w.kernelDirectory
  stack : ∀ p ∈ w.live, p ≠ init → ∀ f ∈ w.stackFrames p, f ∈ L.stack (w.proc p).pageDirectory
  marked : ∀ p ∈ w.live, ∀ q ∈ w.live, p ≠ q → (w.proc p).pageDirectory = (w.proc q).pageDirectory →
    marked p = true
  number : (w.proc init).id = 0
  unfinished : (w.proc init).finished = false

/-- The directory of a live process is one of the directories in use. -/
theorem ProcWorld.mem_dirs (hp : p ∈ w.live) : (w.proc p).pageDirectory ∈ w.dirs :=
  List.mem_map.mpr ⟨p, hp, rfl⟩

/-- The queues, the flags and the current process may differ. -/
structure SchedFields (w w' : ProcWorld) : Prop where
  rest : ∃ proc queueNode reapNode processQueue reapQueue reapLock currentProcess dir, w' = { w with
    proc := proc, queueNode := queueNode, reapNode := reapNode, processQueue := processQueue
    reapQueue := reapQueue, reapLock := reapLock, currentProcess := currentProcess
    paging := { w.paging with currentPageDirectory := dir } }
  proc : ∀ p, ∃ status finished started queued, w'.proc p = { w.proc p with
    status := status, finished := finished, started := started, queued := queued }

/-- A step that only touches queues and flags changes nothing else. -/
theorem SchedFields.of_only (h : SchedOnly w w') : SchedFields w w' where
  rest := by
    obtain ⟨a, b, c, d, e, rfl⟩ := h.rest
    exact ⟨a, b, _, c, _, _, d, e, rfl⟩
  proc p := by
    obtain ⟨a, b, h⟩ := h.flags p
    exact ⟨_, _, a, b, h⟩

/-- The memory of the processes is the same. -/
theorem SchedFields.blocksSame (h : SchedFields w w') : BlocksSame w w' := by
  have hproc := h.proc
  obtain ⟨a, b, c, d, e, f, g, x, rfl⟩ := h.rest
  refine ⟨rfl, rfl, rfl, rfl, fun p => ?_⟩
  obtain ⟨_, _, _, _, hp⟩ := hproc p
  rw [hp]
  exact ⟨rfl, rfl, rfl, rfl⟩

/-- Directory, image and number of each process stay. -/
theorem SchedFields.kept (h : SchedFields w w') (p : Nat) :
    (w'.proc p).pageDirectory = (w.proc p).pageDirectory ∧ (w'.proc p).image = (w.proc p).image ∧
      (w'.proc p).id = (w.proc p).id := by
  obtain ⟨_, _, _, _, hp⟩ := h.proc p
  rw [hp]
  exact ⟨rfl, rfl, rfl⟩

/-- Who owns a frame does not depend on the queues and flags. -/
theorem Owners.congr (h : Owners init w L marked) (hw : SchedFields w w')
    (hrun : w'.currentProcess ∈ w.live)
    (hdir : w'.paging.currentPageDirectory = (w.proc w'.currentProcess).pageDirectory)
    (hfin : (w'.proc init).finished = false) : Owners init w' L marked := by
  have hsame := hw.blocksSame
  have hrest : w'.kernelDirectory = w.kernelDirectory ∧ w'.paging.dir = w.paging.dir ∧
      w'.paging.table = w.paging.table ∧ w'.paging.pfa = w.paging.pfa := by
    obtain ⟨a, b, c, d, e, f, g, x, rfl⟩ := hw.rest
    exact ⟨rfl, rfl, rfl, rfl⟩
  have hdirs : w'.dirs = w.dirs := by
    unfold ProcWorld.dirs
    rw [hsame.live]
    exact List.map_congr_left fun p _ => (hw.kept p).1
  -- each field only looks at what `SchedFields` leaves as it is
  constructor
  · exact h.blocks.congr hsame fun p _ => (hw.kept p).1
  · obtain ⟨k, hk⟩ := h.frames
    rw [hrest.1, hdirs]
    refine ⟨k, hk.request hrest.2.1 hrest.2.2.1 ?_ ?_⟩
    · rw [hrest.2.2.2]
      exact fun _ => id
    · rw [hrest.2.2.2]
      exact hk.clean
  · exact hsame.live ▸ hrun
  · rw [hdir, ProcWorld.current, (hw.kept _).1]
  · rw [(hw.kept init).1, hrest.1]
    exact h.kernel
  · intro p hp hne f hf
    rw [ProcWorld.stackFrames, (hw.kept p).2.1] at hf
    rw [(hw.kept p).1]
    exact h.stack p (hsame.live ▸ hp) hne f hf
  · intro p hp q hq hne heq
    rw [(hw.kept p).1, (hw.kept q).1] at heq
    exact h.marked p (hsame.live ▸ hp) q (hsame.live ▸ hq) hne heq
  · exact (hw.kept init).2.2.trans h.number
  · exact hfin

/-! ## Switching -/

/-- Another process runs, in its own directory. -/
theorem Owners.switched (h : Owners init s.world L marked) (hsw : Switched False s s' l z) :
    Owners init s'.world L marked := by
  have hlive := hsw.only.reap_eq.2.2.2
  apply h.congr (.of_only hsw.only)
  · exact hlive ▸ hsw.inv.current
  · exact hsw.dir
  · exact (hsw.only.flags.finished init).trans h.unfinished

/-- The owners behind `switch_next`. -/
theorem Owners.switchNext (h : Owners init s.world L marked) (hq : QueueInv False s l z)
    (hs : s.switch (switchNext walkFuel) = some s') : Owners init s'.world L marked := by
  rcases hq.switchNext_or hs with rfl | ⟨l', hsw⟩
  · exact h
  · exact h.switched hsw

/-- The owners behind `switch_task`. -/
theorem Owners.switchTask (h : Owners init s.world L marked) (hinv : SchedInv False s l z)
    (hs : s.switch (fun w => switchTask w true) = some s') : Owners init s'.world L marked := by
  rcases hinv.switchTask hs with ⟨-, rfl⟩ | ⟨-, l', -, -, hsw⟩
  · exact h
  · exact h.switched hsw

/-! ## New processes -/

/-- Directory, image and number of every process but the new one stay. -/
theorem Housed.kept (h : Housed w w' m d) (hp : p ≠ m.process) :
    (w'.proc p).pageDirectory = (w.proc p).pageDirectory ∧ (w'.proc p).image = (w.proc p).image ∧
      (w'.proc p).id = (w.proc p).id ∧ (w'.proc p).finished = (w.proc p).finished := by
  obtain ⟨_, _, heq⟩ := h.others p hp
  rw [heq]
  exact ⟨rfl, rfl, rfl, rfl⟩

/-- There is one directory more. -/
theorem Housed.dirs (h : Housed w w' m d) (hm : m.process ∉ w.live) : w'.dirs = d :: w.dirs := by
  unfold ProcWorld.dirs
  rw [h.live, List.map_cons, h.new]
  congr 1
  exact List.map_congr_left fun p hp => (h.kept fun heq => hm (heq ▸ hp)).1

/-- A new process is there; the notes of the other directories stay. -/
theorem Owners.housed (h : Owners init w L marked) (hm : m.process ∉ w.live) (hp : Housed w w' m d)
    (hblocks : SharedInv init w') (hframes : ∃ k, FrameInv w.kernelDirectory w'.paging w'.dirs L' k)
    (hstack : ∀ e ∈ w.dirs, ∀ f ∈ L.stack e, f ∈ L'.stack e)
    (hnew : ∀ f ∈ w'.stackFrames m.process, f ∈ L'.stack d)
    (hold : ∀ p ∈ w.live, marked p = true → marked' p = true)
    (hshare : ∀ p ∈ w.live, (w.proc p).pageDirectory = d → marked' p = true ∧
      marked' m.process = true) :
    Owners init w' L' marked' := by
  have hne : ∀ p ∈ w.live, p ≠ m.process := fun p hp heq => hm (heq ▸ hp)
  have hmem : ∀ p ∈ w'.live, p = m.process ∨ p ∈ w.live :=
    fun p hmem => List.mem_cons.mp (hp.live ▸ hmem)
  have hinit := hp.kept (hne init h.blocks.mem)
  -- the old processes are not the new one, so they are kept
  constructor
  · exact hblocks
  · rw [hp.kernelDirectory]
    exact hframes
  · rw [hp.currentProcess, hp.live]
    exact List.mem_cons_of_mem _ h.running
  · rw [hp.directory, h.directory, ProcWorld.current, ProcWorld.current, hp.currentProcess,
      (hp.kept (hne _ h.running)).1]
  · rw [hinit.1, hp.kernelDirectory]
    exact h.kernel
  · intro p hplive hpi f hf
    rcases hmem p hplive with rfl | hplive
    · rw [hp.new]
      exact hnew f hf
    · obtain ⟨hdir, himage, -⟩ := hp.kept (hne p hplive)
      rw [ProcWorld.stackFrames, himage] at hf
      rw [hdir]
      exact hstack _ (ProcWorld.mem_dirs hplive) f (h.stack p hplive hpi f hf)
  -- two processes of one directory: one of them may be the new one
  · intro p hplive q hqlive hpq heq
    rcases hmem p hplive with rfl | hplive
    · have hqlive := (hmem q hqlive).resolve_left hpq.symm
      rw [hp.new, (hp.kept (hne q hqlive)).1] at heq
      exact (hshare q hqlive heq.symm).2
    · rw [(hp.kept (hne p hplive)).1] at heq
      rcases hmem q hqlive with rfl | hqlive
      · rw [hp.new] at heq
        exact (hshare p hplive heq).1
      · rw [(hp.kept (hne q hqlive)).1] at heq
        exact hold p hplive (h.marked p hplive q hqlive hpq heq)
  · exact hinit.2.2.1.trans h.number
  · exact hinit.2.2.2.trans h.unfinished

/-- `fork` keeps the invariant of the shared tables. -/
theorem SharedInv.fork (h : SharedInv init w) (hcur : w.currentProcess ∈ w.live)
    (hm : MallocOk w.heap (m.blocks ++ m.fds)) (hf : fork w m = some w') : SharedInv init w' := by
  simp only [MishaOS.fork, Option.bind_eq_bind, Option.bind_eq_some_iff, Prod.exists] at hf
  obtain ⟨c, paging, hclone, w₁, hspawn, hf⟩ := hf
  obtain rfl := Option.some.inj hf
  -- the directory of the child is no block of the heap
  have h₀ : SharedInv init { w with paging := paging } :=
    h.congr ⟨rfl, rfl, rfl, rfl, fun _ => ⟨rfl, rfl, rfl, rfl⟩⟩
    fun _ _ => rfl
  obtain ⟨l, t, hs, hi⟩ := h₀.processesOk.spawned hcur hm hspawn
  obtain ⟨hset, hproc⟩ := setProcessPageDirectory_blocks w₁ m.process c
  obtain ⟨hready, hdir⟩ :=
    makeProcessReady_blocks (setProcessPageDirectory w₁ m.process c) m.process
  -- the steps behind the blocks only write to the child
  apply h₀.born hcur hm
  apply hs.born h₀.processesOk hcur hm hi (hset.trans hready)
  intro p hp
  rw [hdir, hproc p (hm.ne h.processesOk hp (.inl (by simp))).1]

/-- So does `clone`. -/
theorem SharedInv.clone (h : SharedInv init w) (hcur : w.currentProcess ∈ w.live)
    (hm : MallocOk w.heap (m.blocks ++ m.fds))
    (hdir : w.paging.currentPageDirectory = w.current.pageDirectory)
    (hd : w.paging.currentPageDirectory ≠ 0) (hc : clone w m = some w') : SharedInv init w' := by
  simp only [MishaOS.clone, Option.bind_eq_bind, Option.bind_eq_some_iff] at hc
  obtain ⟨w₁, hspawn, w₂, hfree, hc⟩ := hc
  obtain rfl := Option.some.inj hc
  obtain ⟨l, t, hs, hi⟩ := h.processesOk.spawned hcur hm hspawn
  have hne : ∀ p ∈ w.live, p ≠ m.process := fun p hp => (hm.ne h.processesOk hp (.inl (by simp))).1
  have hp0 : m.process ≠ 0 := (hm.2 m.process (by simp [SpawnMem.blocks])).1.ne'
  obtain ⟨hset, hproc⟩ := setProcessPageDirectory_blocks w₁ m.process w.paging.currentPageDirectory
  have hcurrent :=
    ((setProcessPageDirectory_sched w₁ m.process
    w.paging.currentPageDirectory).1.currentProcess).trans
    (spawnProcess_created hspawn).currentProcess
  have hnew : ((setProcessPageDirectory w₁ m.process w.paging.currentPageDirectory).proc
    m.process).pageDirectory =
      w.paging.currentPageDirectory := by
    rw [setProcessPageDirectory_eq hp0 hd]
    simp
  generalize setProcessPageDirectory w₁ m.process w.paging.currentPageDirectory = w₃ at *
  have hb : Born w w₃ m w.currentProcess l := by
    apply hs.born h.processesOk hcur hm hi hset
    intro p hp
    rw [hproc p (hne p hp)]
  -- the descriptors of its own are freed again
  have hl : Chain (fun a => (w₃.fd a).link) 0 (w₃.proc m.process).fds l := by
    rw [hset.fd, (hset.kept m.process).fds]
    exact hs.fds
  have hlen : l.length < walkFuel := hl.length_lt (by decide) fun a ha =>
    (hm.2 a (List.mem_append_right _ (hs.sub a ha))).2.1
  rw [freeFds_eq hl hlen] at hfree
  obtain rfl := Option.some.inj hfree
  have hborn :
    Born w (({ w₃ with heap := l.foldl TreeStore.free w₃.heap } : ProcWorld).setProc m.process
      { w₃.proc m.process with fds := (w₃.proc w₃.currentProcess).fds }) m w.currentProcess [] := by
    apply hb.shareFds hcur (fun hmem => hne _ hmem rfl) hm
    · rfl
    · rfl
    · rfl
    · rfl
    · exact fun p hp => Function.update_of_ne hp _ _
    · rw [hcurrent]
      exact Function.update_self ..
    · rw [hnew, hdir, hproc _ (hne _ hcur), hs.proc _ (hne _ hcur)]
      rfl
  obtain ⟨hready, hkeep⟩ :=
    makeProcessReady_blocks (({ w₃ with heap := l.foldl TreeStore.free w₃.heap } :
    ProcWorld).setProc m.process { w₃.proc m.process with fds := (w₃.proc w₃.currentProcess).fds })
      m.process
  exact (h.born hcur hm hborn).congr hready fun p _ => hkeep p

/-- The directory of the running process is there. -/
theorem Owners.current_mem (h : Owners init w L marked) : w.paging.currentPageDirectory ∈ w.dirs :=
  h.directory ▸ ProcWorld.mem_dirs h.running

/-- The owners behind `fork`, which makes a directory for the child. -/
theorem Owners.fork (h : Owners init w L marked) (hm : MallocOk w.heap (m.blocks ++ m.fds))
    (hf : fork w m = some w') (hclean : w'.paging.pfa.overcommitted = false) :
    Owners init w' (noteLedger w w' L (.fork m)) (noteMarked w marked (.fork m)) := by
  have hfresh : m.process ∉ w.live :=
    fun hmem => (hm.ne h.blocks.processesOk hmem (.inl (by simp))).1 rfl
  have hp0 : m.process ≠ 0 := (hm.2 m.process (by simp [SpawnMem.blocks])).1.ne'
  obtain ⟨k, hk⟩ := h.frames
  obtain ⟨c, hc, hhoused, hframes⟩ := fork_frames hk rfl h.current_mem hp0 hf hclean
  have hledger : noteLedger w w' L (.fork m) =
      (L.fork c w.paging.currentPageDirectory).addStack c (w'.stackFrames m.process) := by
    rw [noteLedger, hhoused.new, h.directory]
  rw [hledger]
  -- the four notes of the ledger, with a directory that is not in use yet
  apply h.housed hfresh hhoused (h.blocks.fork h.running hm hf)
  · rw [hhoused.dirs hfresh]
    exact ⟨k, hframes⟩
  · intro e he f hf
    have hec : e ≠ c := fun heq => hc (heq ▸ he)
    simpa [Ledger.addStack, Ledger.fork, hec] using hf
  · intro f hf
    simp [Ledger.addStack, hf]
  · intro p hp hmark
    have hpm : p ≠ m.process := fun heq => hfresh (heq ▸ hp)
    simpa [noteMarked, hpm] using hmark
  · -- the copy is in a directory of its own
    rintro p hp rfl
    exact absurd (ProcWorld.mem_dirs hp) hc

/-- The owners behind `clone`. -/
theorem Owners.clone (h : Owners init w L marked) (hm : MallocOk w.heap (m.blocks ++ m.fds))
    (hc : clone w m = some w') (hclean : w'.paging.pfa.overcommitted = false) :
    Owners init w' (noteLedger w w' L (.clone m)) (noteMarked w marked (.clone m)) := by
  have hfresh : m.process ∉ w.live :=
    fun hmem => (hm.ne h.blocks.processesOk hmem (.inl (by simp))).1 rfl
  have hp0 : m.process ≠ 0 := (hm.2 m.process (by simp [SpawnMem.blocks])).1.ne'
  obtain ⟨k, hk⟩ := h.frames
  obtain ⟨hhoused, hframes⟩ := clone_frames hk rfl h.current_mem hp0 hc hclean
  have hledger : noteLedger w w' L (.clone m) =
      L.addStack w.paging.currentPageDirectory (w'.stackFrames m.process) := by
    rw [noteLedger, h.directory]
  rw [hledger]
  apply h.housed hfresh hhoused (h.blocks.clone h.running hm h.directory (hk.ne _ h.current_mem) hc)
  · rw [hhoused.dirs hfresh]
    refine ⟨k, hframes.of_mem fun d => ?_⟩
    rw [List.mem_cons]
    exact ⟨fun hd => hd.elim (fun heq => heq ▸ h.current_mem) id, .inr⟩
  -- the child gets the stack of its own in the directory of the caller
  · intro e _ f hf
    unfold Ledger.addStack
    obtain rfl | hne := eq_or_ne e w.paging.currentPageDirectory
    · simp [hf]
    · simpa [hne] using hf
  · intro f hf
    simp [Ledger.addStack, hf]
  · intro p hp hmark
    have hpm : p ≠ m.process := fun heq => hfresh (heq ▸ hp)
    obtain rfl | hne := eq_or_ne p w.currentProcess
    · simp [noteMarked, hpm]
    · simpa [noteMarked, hpm, hne] using hmark
  -- who shares the directory is marked from now on
  · intro p hp hdir
    have hpm : p ≠ m.process := fun heq => hfresh (heq ▸ hp)
    refine ⟨?_, by simp [noteMarked]⟩
    obtain rfl | hne := eq_or_ne p w.currentProcess
    · simp [noteMarked, hpm]
    · -- it was in the directory of the caller before
      have hmark := h.marked p hp _ h.running hne (hdir.trans h.directory)
      simpa [noteMarked, hpm, hne] using hmark

/-! ## `exec` -/

/-- The running process gets another name, and perhaps another image. -/
theorem Owners.renamed {name : Nat} {image : Ximage} {x : Paging} (h : Owners init w L marked)
    (hw : w' = { (w.free w.current.name).malloc [name] with
      paging := x
      proc := Function.update w.proc w.currentProcess { w.current with
        name := name, image := image } })
    (hstack : image.stack = w.current.image.stack)
      (hm : MallocOk (w.heap.free w.current.name) [name])
    (hx : x.currentPageDirectory = w.paging.currentPageDirectory)
    (hframes : ∃ k, FrameInv w.kernelDirectory x w.dirs L' k) (hL : L'.stack = L.stack) :
    Owners init w' L' marked := by
  have hproc : ∀ p, p ≠ w.currentProcess → w'.proc p = w.proc p := fun p hp => by
    rw [hw]
    exact Function.update_of_ne hp _ _
  have hself : w'.proc w.currentProcess = { w.current with name := name, image := image } := by
    rw [hw]
    exact Function.update_self ..
  have hrest : w'.live = w.live ∧ w'.currentProcess = w.currentProcess ∧ w'.paging = x ∧
      w'.kernelDirectory = w.kernelDirectory := by
    rw [hw]
    exact ⟨rfl, rfl, rfl, rfl⟩
  -- all that the owners look at is the same for every process
  have hsame : ∀ p, (w'.proc p).pageDirectory = (w.proc p).pageDirectory ∧
      (w'.proc p).image.stack = (w.proc p).image.stack ∧ (w'.proc p).id = (w.proc p).id ∧
        (w'.proc p).finished = (w.proc p).finished := by
    intro p
    obtain rfl | hne := eq_or_ne p w.currentProcess
    · rw [hself]
      exact ⟨rfl, hstack, rfl, rfl⟩
    · rw [hproc p hne]
      exact ⟨rfl, rfl, rfl, rfl⟩
  have hdirs : w'.dirs = w.dirs := by
    unfold ProcWorld.dirs
    rw [hrest.1]
    exact List.map_congr_left fun p _ => (hsame p).1
  -- the blocks of the heap come first, the rest is read off `hsame`
  constructor
  · apply h.blocks.rename h.running hm
    · rw [hw]
      rfl
    · rw [hw]
      rfl
    · exact hrest.1
    · rw [hw]
      rfl
    · exact hproc
    · exact ⟨image, hself⟩
  · rw [hrest.2.2.2, hrest.2.2.1, hdirs]
    exact hframes
  · rw [hrest.2.1, hrest.1]
    exact h.running
  · rw [hrest.2.2.1, hx, h.directory, ProcWorld.current, ProcWorld.current, hrest.2.1, (hsame _).1]
  · rw [(hsame init).1, hrest.2.2.2]
    exact h.kernel
  · intro p hp hpi f hf
    rw [ProcWorld.stackFrames, (hsame p).2.1] at hf
    rw [(hsame p).1, hL]
    exact h.stack p (hrest.1 ▸ hp) hpi f hf
  · intro p hp q hq hne heq
    rw [(hsame p).1, (hsame q).1] at heq
    exact h.marked p (hrest.1 ▸ hp) q (hrest.1 ▸ hq) hne heq
  · exact (hsame init).2.2.1.trans h.number
  · exact (hsame init).2.2.2.trans h.unfinished

/-- The owners behind `exec`, which maps new frames for its caller. -/
theorem Owners.exec {name : Nat} {path : List (BitVec 8)} {file : Option (Nat → BitVec 8)}
    {args : List (List (BitVec 8))} (h : Owners init w L marked)
    (hm : file ≠ none → MallocOk (w.heap.free w.current.name) [name])
    (hclean : (exec w name path file args).paging.pfa.overcommitted = false) :
    Owners init (exec w name path file args)
      (noteLedger w (exec w name path file args) L (.exec name path file args)) marked := by
  cases file with
  | none => exact h
  | some data =>
    have hm := hm (by simp)
    by_cases hmagic : elfMagic data = true
    · obtain ⟨image, hloaded⟩ : ∃ image,
        Loaded w (MishaOS.exec w name path (some data) args) name data path
          args image := exec_spec name hmagic
      -- a program: the pages of its segments and arguments are new frames
      have hpaging : (MishaOS.exec w name path (some data) args).paging =
          (execPages data path args).foldl mapNewPage w.paging := by
        rw [hloaded.world]
      rw [hpaging] at hclean
      rw [noteLedger, if_pos hmagic]
      obtain ⟨k, hk⟩ := h.frames
      apply h.renamed hloaded.world hloaded.stack hm
      · exact (foldl_mapNewPage_kept _ _).current
      · exact hk.exec (h.directory ▸ h.current_mem) h.directory hclean fun v hv => execPages_lt hv
      · unfold Ledger.exec
        split <;> rfl
    · -- not a program: only the name has changed
      rw [noteLedger, if_neg hmagic]
      have hworld : MishaOS.exec w name path (some data) args =
        { (w.free w.current.name).malloc [name] with
          paging := w.paging
          proc := Function.update w.proc w.currentProcess
            { w.current with name := name, image := w.current.image } } := by
        unfold MishaOS.exec
        dsimp only
        rw [if_neg hmagic]
        rfl
      exact h.renamed hworld rfl hm rfl h.frames rfl

/-! ## Reaping -/

/-- What `reap_process` must leave in use: the directories of the other processes, their
    descriptors, and the frames behind the pages of their user heaps. -/
structure ReapKeeps (w w' : ProcWorld) (r : Nat) : Prop where
  directory : ∀ q ∈ w.live, q ≠ r → ∀ f ∈ runFrames (w.proc q).pageDirectory 3, w'.paging.pfa.used f
  fds : ∀ q ∈ w.live, q ≠ r → ∀ a, w.fdNode q a → w'.heap.allocated a = true
  userHeap : ∀ q ∈ w.live, q ≠ r → ∀ v ∈ w.userHeap q,
    pagePresent w.paging (w.proc q).pageDirectory v = true →
      w'.paging.pfa.used (pageFrame w.paging (w.proc q).pageDirectory v)

/-- There is nothing to walk, or the image is in no other directory and each page that is
    walked is one that `exec` has mapped for it. -/
def WalkOwn (w : ProcWorld) (L : Ledger) (r : Nat) : Prop :=
  reapWalk w r = [] ∨
    (∀ q ∈ w.live, q ≠ r → L.image (w.proc q).pageDirectory ≠ L.image (w.proc r).pageDirectory) ∧
      ∀ v ∈ reapWalk w r, v ∈ L.pages (w.proc r).pageDirectory

/-- The pages in the user heaps of the others are pages that `exec` has mapped. -/
def HeapsLoaded (w : ProcWorld) (L : Ledger) (r : Nat) : Prop :=
  ∀ q ∈ w.live, q ≠ r → ∀ v ∈ w.userHeap q, pagePresent w.paging (w.proc q).pageDirectory v = true →
    v ∈ L.pages (w.proc q).pageDirectory

/-- The process has not shared its directory, and its pages are its own. -/
def ReapFits (w : ProcWorld) (L : Ledger) (marked : Nat → Bool) (r : Nat) : Prop :=
  marked r = false ∧ WalkOwn w L r ∧ HeapsLoaded w L r

instance : Decidable (WalkOwn w L r) := inferInstanceAs (Decidable (_ ∨ _ ∧ _))

instance : Decidable (HeapsLoaded w L r) := inferInstanceAs (Decidable (∀ q ∈ w.live, _))

instance : Decidable (ReapFits w L marked r) := inferInstanceAs (Decidable (_ ∧ _ ∧ _))

/-- `reap_process` releases what its process owns, and no frame of another one. -/
theorem Owners.reap (h : Owners init w L marked) (hnodup : w.live.Nodup) (hr : r ∈ w.live)
    (hrun : r ≠ w.currentProcess) (hri : r ≠ init) (hfits : ReapFits w L marked r)
    (hw : reapProcess w r = some w') : Owners init w' L marked ∧ ReapKeeps w w' r := by
  obtain ⟨hmark, hwalk, hheaps⟩ := hfits
  -- it is alone in its directory
  have halone : ∀ p ∈ w.live, p ≠ r → (w.proc p).pageDirectory ≠ (w.proc r).pageDirectory := by
    intro p hp hpr heq
    exact absurd ((h.marked r hr p hp hpr.symm heq.symm).symm.trans hmark) (by simp)
  obtain ⟨hblocks, hlive, hused⟩ := h.blocks.reap hnodup hr hri halone hw
  obtain ⟨heq, hproc, -⟩ := reapProcess_sched hw
  obtain ⟨hdir, htable, hcur, hclean, hframes⟩ := reapProcess_frames hw
  have hkernel : w'.kernelDirectory = w.kernelDirectory := reapProcess_kernel hw
  have hmem : ∀ p, p ∈ w'.live ↔ p ∈ w.live ∧ p ≠ r := by
    intro p
    rw [hlive, hnodup.mem_erase_iff]
    exact and_comm
  have hdirs : ∀ e ∈ w'.dirs, e ∈ w.dirs ∧ e ≠ (w.proc r).pageDirectory := by
    intro e he
    obtain ⟨p, hp, rfl⟩ := List.mem_map.mp he
    obtain ⟨hp, hpr⟩ := (hmem p).mp hp
    rw [hproc]
    exact ⟨ProcWorld.mem_dirs hp, halone p hp hpr⟩
  have hinit : init ∈ w'.live := (hmem init).mpr ⟨h.blocks.mem, hri.symm⟩
  obtain ⟨k, hk⟩ := h.frames
  have hk' : FrameInv w.kernelDirectory w'.paging w'.dirs L k := by
    apply hk.release hdir htable hclean (ProcWorld.mem_dirs hr) hdirs
    · rw [← h.kernel, ← hproc]
      exact ProcWorld.mem_dirs hinit
    · intro f hf hnot
      rcases hframes f hf hnot with hf' | ⟨v, hv, rfl⟩ | hf' | hf'
      · exact .inl (.inr (.inr (h.stack r hr hri f hf')))
      · -- a page that is walked is one of the image
        rcases hwalk with hnil | ⟨himage, hpages⟩
        · simp [hnil] at hv
        · refine .inr ⟨(hk.maps _ (ProcWorld.mem_dirs hr) v (hpages v hv)).2.2.2, ?_⟩
          intro e he
          obtain ⟨p, hp, rfl⟩ := List.mem_map.mp he
          obtain ⟨hp, hpr⟩ := (hmem p).mp hp
          rw [hproc]
          exact himage p hp hpr
      · exact .inl (.inr (.inl hf'))
      · exact .inl (.inl hf')
  have hother : ∀ q ∈ w.live, q ≠ r → q ∈ w'.live ∧ (w.proc q).pageDirectory ∈ w'.dirs := by
    intro q hq hqr
    have hq' := (hmem q).mpr ⟨hq, hqr⟩
    refine ⟨hq', ?_⟩
    rw [← hproc]
    exact ProcWorld.mem_dirs hq'
  refine ⟨⟨hblocks, ?_, ?_, ?_, ?_, ?_, ?_, ?_, ?_⟩, ?_, ?_, ?_⟩
  · rw [hkernel]
    exact ⟨k, hk'⟩
  · rw [heq.currentProcess]
    exact (hmem _).mpr ⟨h.running, hrun.symm⟩
  · rw [hcur, h.directory, ProcWorld.current, ProcWorld.current, heq.currentProcess, hproc]
  · rw [hproc, hkernel]
    exact h.kernel
  · intro p hp
    rw [ProcWorld.stackFrames, hproc]
    exact h.stack p ((hmem p).mp hp).1
  · intro p hp q hq
    rw [hproc]
    exact h.marked p ((hmem p).mp hp).1 q ((hmem q).mp hq).1
  · rw [hproc]
    exact h.number
  · rw [hproc]
    exact h.unfinished
  · intro q hq hqr f hf
    exact hk'.owned.used (.directory _) f (hother q hq hqr).2 (.inl hf)
  · exact fun q hq hqr a ha => hused q (hother q hq hqr).1 a (.inr (.inr ha))
  · intro q hq hqr v hv hpresent
    have hv := hheaps q hq hqr v hv hpresent
    have hframe := (hk.maps _ (ProcWorld.mem_dirs hq) v hv).2.2.2
    exact hk'.owned.used (.image _) _ ⟨_, (hother q hq hqr).2, rfl⟩ hframe

end MishaOS
