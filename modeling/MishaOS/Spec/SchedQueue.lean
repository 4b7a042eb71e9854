import Mathlib.Tactic.Set
import MishaOS.Native.Sched

/-!
# What the calls do to the queues

The scheduler is about the two queues, the current process and the flags of the
processes.  Each call of `process.c` is described by its effect on these:
nothing (`SchedEq`), a new process (`SchedCreated`), or another current process
(`SwitchedTo`).

## Key results

- `fork_created`, `clone_created`: a new process at the end of the ready queue.
- `switchNext_spec`: the first process that is not finished becomes the current one, those
  before it leave the queue.
- `reapProcess_sched`: reaping a process removes it and touches neither queue.
-/

namespace MishaOS

open Fifo

variable {w w' w₁ : ProcWorld} {m : SpawnMem} {p q : Nat} {l : List Nat}

/-- The queues, the current process and the flags are the same. -/
structure SchedEq (w w' : ProcWorld) : Prop where
  queueNode : w'.queueNode = w.queueNode
  reapNode : w'.reapNode = w.reapNode
  processQueue : w'.processQueue = w.processQueue
  reapQueue : w'.reapQueue = w.reapQueue
  reapLock : w'.reapLock = w.reapLock
  currentProcess : w'.currentProcess = w.currentProcess
  id : ∀ p, (w'.proc p).id = (w.proc p).id
  finished : ∀ p, (w'.proc p).finished = (w.proc p).finished
  started : ∀ p, (w'.proc p).started = (w.proc p).started

/-- Nothing has changed. -/
theorem SchedEq.refl (w : ProcWorld) : SchedEq w w :=
  ⟨rfl, rfl, rfl, rfl, rfl, rfl, fun _ => rfl, fun _ => rfl, fun _ => rfl⟩

/-- Two steps off the queues are one. -/
theorem SchedEq.trans (h : SchedEq w w₁) (h' : SchedEq w₁ w') : SchedEq w w' where
  queueNode := h'.queueNode.trans h.queueNode
  reapNode := h'.reapNode.trans h.reapNode
  processQueue := h'.processQueue.trans h.processQueue
  reapQueue := h'.reapQueue.trans h.reapQueue
  reapLock := h'.reapLock.trans h.reapLock
  currentProcess := h'.currentProcess.trans h.currentProcess
  id p := (h'.id p).trans (h.id p)
  finished p := (h'.finished p).trans (h.finished p)
  started p := (h'.started p).trans (h.started p)

/-- The page tables are no part of the queues. -/
theorem SchedEq.paging (w : ProcWorld) (x : Paging) : SchedEq w { w with paging := x } :=
  ⟨rfl, rfl, rfl, rfl, rfl, rfl, fun _ => rfl, fun _ => rfl, fun _ => rfl⟩

/-- Nor is the heap. -/
theorem SchedEq.heap (w : ProcWorld) (x : TreeStore) : SchedEq w { w with heap := x } :=
  ⟨rfl, rfl, rfl, rfl, rfl, rfl, fun _ => rfl, fun _ => rfl, fun _ => rfl⟩

/-- Writing other fields of a process. -/
theorem SchedEq.setProc (w : ProcWorld) {x : Process} (hid : x.id = (w.proc p).id)
    (hf : x.finished = (w.proc p).finished) (hs : x.started = (w.proc p).started) :
    SchedEq w (w.setProc p x) := by
  refine ⟨rfl, rfl, rfl, rfl, rfl, rfl, fun q => ?_, fun q => ?_, fun q => ?_⟩
  all_goals
    rcases eq_or_ne q p with rfl | hne
    · simp [ProcWorld.setProc, hid, hf, hs]
    · simp [ProcWorld.setProc, hne]

/-! ## Creating a process -/

/-- A process `p` that is in neither queue has been added. -/
structure SchedCreated (w w' : ProcWorld) (p : Nat) : Prop where
  queueNode : w'.queueNode = Function.update w.queueNode p ⟨0, 0⟩
  reapNode : w'.reapNode = Function.update w.reapNode p ⟨0, 0⟩
  processQueue : w'.processQueue = w.processQueue
  reapQueue : w'.reapQueue = w.reapQueue
  reapLock : w'.reapLock = w.reapLock
  currentProcess : w'.currentProcess = w.currentProcess
  live : w'.live = p :: w.live
  id : ∀ q, q ≠ p → (w'.proc q).id = (w.proc q).id
  finished : ∀ q, q ≠ p → (w'.proc q).finished = (w.proc q).finished
  started : ∀ q, q ≠ p → (w'.proc q).started = (w.proc q).started
  new : (w'.proc p).finished = false

/-- A step off the queues can follow the creation. -/
theorem SchedCreated.trans (h : SchedCreated w w₁ p) (h' : SchedEq w₁ w')
    (hlive : w'.live = w₁.live) :
    SchedCreated w w' p where
  queueNode := h'.queueNode.trans h.queueNode
  reapNode := h'.reapNode.trans h.reapNode
  processQueue := h'.processQueue.trans h.processQueue
  reapQueue := h'.reapQueue.trans h.reapQueue
  reapLock := h'.reapLock.trans h.reapLock
  currentProcess := h'.currentProcess.trans h.currentProcess
  live := hlive.trans h.live
  id q hq := (h'.id q).trans (h.id q hq)
  finished q hq := (h'.finished q).trans (h.finished q hq)
  started q hq := (h'.started q).trans (h.started q hq)
  new := (h'.finished p).trans h.new

/-- Copying a descriptor list writes descriptor nodes and the heap only. -/
theorem copyFds_rest {as : List Nat} {fd : Nat} (h : copyFds w fd as = some w') :
    w' = { w with heap := w'.heap, fd := w'.fd } := by
  induction as generalizing w fd with
  | nil =>
    rw [copyFds] at h
    split at h
    · rw [← Option.some.inj h]
    · simp at h
  | cons a as ih =>
    rw [copyFds.eq_def] at h
    dsimp only at h
    split at h
    · rw [← Option.some.inj h]
    -- the last node of the list has no successor to copy
    · cases as with
      | nil =>
        dsimp only at h
        split at h
        · rw [← Option.some.inj h]
          rfl
        · simp at h
      | cons b as =>
        dsimp only at h
        split at h
        · rw [← Option.some.inj h]
          rfl
        · rw [ih h]
          rfl

/-- `spawn_process` creates a process that is in no queue. -/
theorem spawnProcess_created {parent : Nat} (h : spawnProcess w m parent = some w') :
    SchedCreated w w' m.process := by
  simp only [spawnProcess, Option.bind_eq_bind, Option.bind_eq_some_iff] at h
  obtain ⟨⟨stack, pfa⟩, -, w₁, hcopy, h⟩ := h
  obtain rfl := Option.some.inj h
  have hrest := copyFds_rest hcopy
  have hproc : w₁.proc = w.proc := by
    rw [hrest]
    rfl
  -- the fields of `SchedCreated` in order: the node that is written is the new one
  constructor
  · rw [hrest]
    rfl
  · rw [hrest]
    rfl
  · rw [hrest]
    rfl
  · rw [hrest]
    rfl
  · rw [hrest]
    rfl
  · rw [hrest]
    rfl
  · rw [hrest]
    rfl
  · intro q hq
    simp [ProcWorld.setProc, hq, hproc]
  · intro q hq
    simp [ProcWorld.setProc, hq, hproc]
  · intro q hq
    simp [ProcWorld.setProc, hq, hproc]
  · simp [ProcWorld.setProc]

/-- `set_process_page_directory` leaves the queues and the list of processes alone. -/
theorem setProcessPageDirectory_sched (w : ProcWorld) (process pageDir : Nat) :
    SchedEq w (setProcessPageDirectory w process pageDir) ∧
      (setProcessPageDirectory w process pageDir).live = w.live := by
  unfold setProcessPageDirectory
  split
  · exact ⟨.refl w, rfl⟩
  · dsimp only
    generalize List.foldl _ _ _ = x
    exact ⟨(SchedEq.paging w x).trans (.setProc _ rfl rfl rfl), rfl⟩

/-- `fork` creates a process and makes it ready. -/
theorem fork_created (h : fork w m = some w') :
    ∃ w₁, SchedCreated w w₁ m.process ∧ w' = makeProcessReady w₁ m.process := by
  simp only [fork, Option.bind_eq_bind, Option.bind_eq_some_iff, Prod.exists] at h
  obtain ⟨pageDir, paging, -, w₁, hspawn, h⟩ := h
  have hcreated : SchedCreated w w₁ m.process := by
    obtain ⟨h₁, h₂, h₃, h₄, h₅, h₆, h₇, h₈, h₉, h₁₀, h₁₁⟩ := spawnProcess_created hspawn
    exact ⟨h₁, h₂, h₃, h₄, h₅, h₆, h₇, h₈, h₉, h₁₀, h₁₁⟩
  have hset := setProcessPageDirectory_sched w₁ m.process pageDir
  exact ⟨_, hcreated.trans hset.1 hset.2, (Option.some.inj h).symm⟩

/-- Closing files leaves the queues and the processes alone. -/
theorem freeFds_sched {n fd : Nat} (h : freeFds n w fd = some w') :
    SchedEq w w' ∧ w'.live = w.live ∧ w'.proc = w.proc := by
  induction n generalizing w fd with
  | zero => simp [freeFds] at h
  | succ n ih =>
    rw [freeFds] at h
    split at h
    · rw [← Option.some.inj h]
      exact ⟨.refl w, rfl, rfl⟩
    · obtain ⟨heq, hlive, hproc⟩ := ih h
      exact ⟨(SchedEq.heap w (w.heap.free fd)).trans heq, hlive, hproc⟩

/-- `clone` creates a process and makes it ready. -/
theorem clone_created (h : clone w m = some w') :
    ∃ w₁, SchedCreated w w₁ m.process ∧ w' = makeProcessReady w₁ m.process := by
  simp only [clone, Option.bind_eq_bind, Option.bind_eq_some_iff] at h
  obtain ⟨w₁, hspawn, w₂, hfree, h⟩ := h
  have hset := setProcessPageDirectory_sched w₁ m.process w.paging.currentPageDirectory
  obtain ⟨hfreed, hlive, -⟩ := freeFds_sched hfree
  have hcreated := ((spawnProcess_created hspawn).trans hset.1 hset.2).trans hfreed hlive
  have hfds : SchedEq w₂ (w₂.setProc m.process { w₂.proc m.process with fds := w₂.current.fds }) :=
    .setProc w₂ rfl rfl rfl
  exact ⟨_, hcreated.trans hfds rfl, (Option.some.inj h).symm⟩

/-! ## Reaping and `exec` -/

/-- `delete_process` takes at most its process away, and leaves the queues alone. -/
theorem deleteProcess_sched (h : deleteProcess w p = some w') :
    SchedEq w w' ∧ w'.proc = w.proc ∧ (w'.live = w.live ∨ p ≠ 0 ∧ w'.live = w.live.erase p) := by
  unfold deleteProcess at h
  -- nothing happens for a null pointer and for a process that still has children
  split at h
  · rw [← Option.some.inj h]
    exact ⟨.refl w, rfl, .inl rfl⟩
  · rename_i hp
    split at h
    · rw [← Option.some.inj h]
      exact ⟨.refl w, rfl, .inl rfl⟩
    · simp only [Option.bind_eq_bind, Option.bind_eq_some_iff] at h
      obtain ⟨heap, -, h⟩ := h
      rw [← Option.some.inj h]
      exact ⟨⟨rfl, rfl, rfl, rfl, rfl, rfl, fun _ => rfl, fun _ => rfl, fun _ => rfl⟩, rfl,
        .inr ⟨hp, rfl⟩⟩

/-- Reaping a process removes it and touches neither queue. -/
theorem reapProcess_sched (h : reapProcess w p = some w') :
    SchedEq w w' ∧ w'.proc = w.proc ∧ (w'.live = w.live ∨ p ≠ 0 ∧ w'.live = w.live.erase p) := by
  simp only [reapProcess, Option.bind_eq_bind, Option.bind_eq_some_iff] at h
  obtain ⟨w₁, hfree, hdelete⟩ := h
  obtain ⟨h₁, hlive₁, hproc₁⟩ := freeFds_sched hfree
  obtain ⟨h₂, hproc₂, hlive₂⟩ := deleteProcess_sched hdelete
  have hstart : SchedEq w ((w.free (w.proc p).workingDirPath).free (w.proc p).name) := .heap w _
  have hend : SchedEq w₁ w' := ⟨h₂.queueNode, h₂.reapNode, h₂.processQueue,
    h₂.reapQueue, h₂.reapLock,
    h₂.currentProcess, h₂.id, h₂.finished, h₂.started⟩
  refine ⟨(hstart.trans h₁).trans hend, hproc₂.trans hproc₁, ?_⟩
  -- the descriptors go first, then the process itself
  have hlive : w₁.live = w.live := hlive₁
  rw [← hlive]
  exact hlive₂

/-- `exec` leaves the queues and the list of processes alone. -/
theorem exec_sched (w : ProcWorld) (name : Nat) (path : List (BitVec 8))
    (file : Option (Nat → BitVec 8)) (args : List (List (BitVec 8))) :
    SchedEq w (exec w name path file args) ∧ (exec w name path file args).live = w.live := by
  unfold exec
  cases file with
  | none => exact ⟨.refl w, rfl⟩
  | some data =>
    dsimp only
    -- the name is replaced in the heap and in the process, neither of which is a queue
    have hblock : SchedEq w ((w.free w.current.name).malloc [name]) := .heap w _
    have hname : SchedEq w (((w.free w.current.name).malloc [name]).setProc w.currentProcess
        { w.current with name := name }) := hblock.trans (.setProc _ rfl rfl rfl)
    split
    · generalize execArgs _ _ _ = r
      exact ⟨(hname.trans (.paging _ r.1)).trans (.setProc _ rfl rfl rfl), rfl⟩
    · exact ⟨hname, rfl⟩

/-! ## Switching -/

/-- Only the flags `started` and `queued` of processes differ. -/
def FlagsOnly (w w' : ProcWorld) : Prop :=
  ∀ p, ∃ started queued, w'.proc p = { w.proc p with started := started, queued := queued }

/-- Nothing has changed. -/
theorem FlagsOnly.refl (w : ProcWorld) : FlagsOnly w w := fun _ => ⟨_, _, rfl⟩

/-- Two changes of flags are one. -/
theorem FlagsOnly.trans (h : FlagsOnly w w₁) (h' : FlagsOnly w₁ w') : FlagsOnly w w' := by
  intro p
  obtain ⟨a, b, h⟩ := h p
  obtain ⟨a', b', h'⟩ := h' p
  exact ⟨a', b', by rw [h', h]⟩

/-- The two flags of a process are set. -/
theorem FlagsOnly.setProc {a b : Bool} (w : ProcWorld) (p : Nat) :
    FlagsOnly w (w.setProc p { w.proc p with started := a, queued := b }) := by
  intro q
  rcases eq_or_ne q p with rfl | hne
  · exact ⟨a, b, by simp [ProcWorld.setProc]⟩
  · exact ⟨(w.proc q).started, (w.proc q).queued, by simp [ProcWorld.setProc, hne]⟩

/-- No process finishes by it. -/
theorem FlagsOnly.finished (h : FlagsOnly w w') (p : Nat) :
    (w'.proc p).finished = (w.proc p).finished := by
  obtain ⟨a, b, h⟩ := h p
  rw [h]

/-- What scheduling never touches: everything but the queue of ready processes,
    the current process and its directory. -/
structure SchedOnly (w w' : ProcWorld) : Prop where
  flags : FlagsOnly w w'
  rest : ∃ proc queueNode processQueue currentProcess dir,
    w' = { w with
      proc := proc, queueNode := queueNode, processQueue := processQueue
      currentProcess := currentProcess, paging := { w.paging with currentPageDirectory := dir } }

/-- Nothing has changed. -/
theorem SchedOnly.refl (w : ProcWorld) : SchedOnly w w := ⟨.refl w, _, _, _, _, _, rfl⟩

/-- Two steps on queues and flags are one. -/
theorem SchedOnly.trans (h : SchedOnly w w₁) (h' : SchedOnly w₁ w') : SchedOnly w w' := by
  refine ⟨h.flags.trans h'.flags, ?_⟩
  obtain ⟨a, b, c, d, e, h⟩ := h.rest
  obtain ⟨a', b', c', d', e', h'⟩ := h'.rest
  exact ⟨a', b', c', d', e', by rw [h', h]⟩

/-- Setting the two flags is such a step. -/
theorem SchedOnly.setStarted {a b : Bool} (w : ProcWorld) (p : Nat) :
    SchedOnly w (w.setProc p { w.proc p with started := a, queued := b }) :=
  ⟨.setProc w p, _, _, _, _, _, rfl⟩

/-- So is making a process ready. -/
theorem makeProcessReady_only (w : ProcWorld) (p : Nat) : SchedOnly w (makeProcessReady w p) := by
  unfold makeProcessReady
  split
  · exact .refl w
  · exact ⟨fun q => (FlagsOnly.setProc w p) q, _, _, _, _, _, rfl⟩

/-- The finished processes `k` are taken from the front of the ready queue, then `q`, which
    runs; `l` stays behind. -/
structure SwitchedTo (w w' : ProcWorld) (k : List Nat) (q : Nat) (l : List Nat) : Prop where
  only : SchedOnly w w'
  ready : IsQueue 0 w'.queueNode w'.processQueue l
  current : w'.currentProcess = q
  dir : w'.paging.currentPageDirectory = (w.proc q).pageDirectory
  off : ∀ p, p ∉ k ++ q :: l → w'.queueNode p = w.queueNode p
  cleared : ∀ p ∈ k ++ [q], w'.queueNode p = ⟨0, 0⟩
  started : (w'.proc q).started = true

/-- `process_available` says whether the ready queue has a process. -/
theorem processAvailable_iff (hl : IsQueue 0 w.queueNode w.processQueue l) :
    processAvailable w = true ↔ l ≠ [] := by
  have hiff := not_congr hl.first_eq_null
  simpa [processAvailable] using hiff

/-- The first process of the queue, taken by `switch_next`. -/
def ProcWorld.taken (w : ProcWorld) (p : Nat) : ProcWorld :=
  { ({ w with
      queueNode := (pop 0 w.queueNode w.processQueue).1
      processQueue := (pop 0 w.queueNode w.processQueue).2 } : ProcWorld).setProc p
      { w.proc p with queued := false } with currentProcess := p }

/-- Taking a process is a step on the queue and the flags. -/
theorem taken_only (w : ProcWorld) (p : Nat) : SchedOnly w (w.taken p) :=
  ⟨fun q => (FlagsOnly.setProc w p) q, _, _, _, _, _, rfl⟩

/-- A finished process is taken from the queue and passed over. -/
theorem switchNext_skip {n : Nat} (hl : IsQueue 0 w.queueNode w.processQueue (p :: l))
    (hfin : (w.proc p).finished = true) (hne : l ≠ []) :
    switchNext (n + 1) w = switchNext n (w.taken p) := by
  obtain ⟨hfirst, -, hpop⟩ := hl.pop
  have hp0 : p ≠ 0 := hl.chain.ne_null List.mem_cons_self
  have hcurrent : (w.taken p).current.finished = true ∧ processAvailable (w.taken p) = true :=
    ⟨by simp [ProcWorld.current, ProcWorld.taken, ProcWorld.setProc, hfin],
      (processAvailable_iff hpop).mpr hne⟩
  rw [switchNext, if_pos ((processAvailable_iff hl).mpr (by simp))]
  simp only [nextReadyProcess, hfirst, hp0, if_false]
  exact if_pos hcurrent

/-- An unfinished process at the front of the queue runs. -/
theorem switchNext_front {n : Nat} (hl : IsQueue 0 w.queueNode w.processQueue (q :: l))
    (hfin : (w.proc q).finished = false) (hs : switchNext (n + 1) w = some w') :
    SwitchedTo w w' [] q l := by
  obtain ⟨hfirst, hclear, hpop⟩ := hl.pop
  have hq0 : q ≠ 0 := hl.chain.ne_null List.mem_cons_self
  have hcurrent : ¬ ((w.taken q).current.finished = true ∧ processAvailable (w.taken q) = true) :=
    fun h => by simp [ProcWorld.current, ProcWorld.taken, ProcWorld.setProc, hfin] at h
  rw [switchNext, if_pos ((processAvailable_iff hl).mpr (by simp))] at hs
  simp only [nextReadyProcess, hfirst, hq0, if_false] at hs
  obtain rfl := Option.some.inj ((if_neg hcurrent).symm.trans hs)
  -- besides the queue only the two flags of the process are written
  refine ⟨⟨fun p => ?_, _, _, _, _, _, rfl⟩, hpop, rfl, ?_, fun p hp => hl.pop_off hp, ?_,
    by simp [ProcWorld.setProc]⟩
  · rcases eq_or_ne p q with rfl | hne
    · exact ⟨true, false, by simp [ProcWorld.current, ProcWorld.setProc]⟩
    · exact ⟨(w.proc p).started, (w.proc p).queued, by
        simp [ProcWorld.setProc, hne]⟩
  · simp [ProcWorld.current, enablePaging, ProcWorld.setProc]
  · intro p hp
    obtain rfl := List.mem_singleton.mp hp
    exact hclear

/-- `switch_next` passes over finished processes, and runs the first other one. -/
theorem switchNext_spec {k : List Nat} {n : Nat}
    (hl : IsQueue 0 w.queueNode w.processQueue (k ++ q :: l))
    (hk : ∀ p ∈ k, (w.proc p).finished = true) (hfin : (w.proc q).finished = false)
    (hs : switchNext n w = some w') : SwitchedTo w w' k q l := by
  induction k generalizing w n with
  | nil =>
    cases n with
    | zero => simp [switchNext] at hs
    | succ n => exact switchNext_front hl hfin hs
  | cons a k ih =>
    cases n with
    | zero => simp [switchNext] at hs
    | succ n =>
      rw [switchNext_skip hl (hk a List.mem_cons_self) (by simp)] at hs
      obtain ⟨-, hclear, hpop⟩ := hl.pop
      have honly := taken_only w a
      -- the flags `finished` behind the pop are the old ones
      have hflag := honly.flags.finished
      have hsw : SwitchedTo (w.taken a) w' k q l := by
        apply ih hpop _ ((hflag q).trans hfin) hs
        exact fun p hp => (hflag p).trans (hk p (List.mem_cons_of_mem a hp))
      obtain ⟨haq, -⟩ := List.nodup_cons.mp hl.nodup
      refine ⟨honly.trans hsw.only, hsw.ready, hsw.current, ?_, ?_, ?_, hsw.started⟩
      · obtain ⟨_, _, hproc⟩ := honly.flags q
        rw [hsw.dir, hproc]
      · intro p hp
        have hpk : p ∉ k ++ q :: l := fun hmem => hp (List.mem_cons_of_mem a hmem)
        exact (hsw.off p hpk).trans (hl.pop_off hp)
      · intro p hp
        rcases List.mem_cons.mp hp with rfl | hp
        · exact (hsw.off p haq).trans hclear
        · exact hsw.cleared p hp

/-- `switch_task(1)`: a process that has been started goes to the end of the queue. -/
theorem switchTask_eq (havail : processAvailable w = true) (hcur : w.currentProcess ≠ 0)
    (hstarted : w.current.started = true) :
    switchTask w true = switchNext walkFuel (makeProcessReady
      (w.setProc w.currentProcess { w.current with started := false }) w.currentProcess) := by
  rw [switchTask, if_neg hcur, if_neg fun h => h.1 hstarted, if_pos havail]
  rfl

end MishaOS
