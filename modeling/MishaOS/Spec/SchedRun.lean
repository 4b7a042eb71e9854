import MishaOS.ForStd.Run
import MishaOS.Spec.ProcessTree
import MishaOS.Spec.Scheduler

/-!
# Every interleaving of processes

Two things go wrong in `process.c`.  A process that exits while `reap_lock` is
held waits for the lock in `switch_task(1)`, which queues it although it is
finished; and a process that is interrupted between `should_reap` and
`spin_lock` can find the reap queue empty.  Everything else keeps the two queues
apart.  Separately, `system` and the exit of process 0 call `switch_next`
without queueing the caller, which never runs again.  The first accident loses
no process that can run: `switch_next` passes over the finished one.

## Key results

- `sched_run_safe`: the queues are safe along every run without these two accidents.
- `sched_run_none_lost`: no process is lost along a run without the second one and `system`.
-/

namespace MishaOS

open Fifo

variable {late : Prop} {s s' : SchedWorld} {w w' : ProcWorld} {i : InitMem} {op : SchedOp}
  {l l' z : List Nat} {p q r rootDir esp : Nat}

/-- Calls are made by a process that is in no other call, and `malloc` returns
    a block for the process that is not in use. -/
def SchedOpOk (s : SchedWorld) : SchedOp → Prop
  | .fork m | .clone m | .system m =>
    s.frames s.current = [] ∧ m.process ≠ 0 ∧ m.process ∉ s.world.live
  | .exec .. | .exit _ => s.frames s.current = []
  | .switch => True
  | .advance => s.frames s.current ≠ []

instance (s : SchedWorld) (op : SchedOp) : Decidable (SchedOpOk s op) :=
  match op with
  | .fork _ | .clone _ | .system _ => inferInstanceAs (Decidable (_ ∧ _))
  | .exec .. | .exit _ => inferInstanceAs (Decidable (_ = _))
  | .switch => inferInstanceAs (Decidable True)
  | .advance => inferInstanceAs (Decidable (_ ≠ _))

/-- `spin_lock` in `next_reapable_process` is not reached with an empty queue. -/
def SchedWorld.ReapReady (s : SchedWorld) : Prop :=
  (s.frames s.current).head? = some .lock → s.world.reapLock = true ∨ shouldReap s.world = true

instance (s : SchedWorld) : Decidable s.ReapReady := inferInstanceAs (Decidable (_ → _))

/-- A finished process makes no call, no process exits while `reap_lock` is
    held, and the reap queue is not found empty. -/
def SchedOpSafe (s : SchedWorld) : SchedOp → Prop
  | .exit _ => s.world.current.finished = false ∧
  (s.world.current.id = 0 ∨ s.world.reapLock = false)
  | .switch => True
  | .advance => s.ReapReady
  | _ => s.world.current.finished = false

instance (s : SchedWorld) (op : SchedOp) : Decidable (SchedOpSafe s op) :=
  match op with
  | .exit _ => inferInstanceAs (Decidable (_ ∧ _))
  | .switch => inferInstanceAs (Decidable True)
  | .advance => inferInstanceAs (Decidable s.ReapReady)
  | .fork _ | .clone _ | .system _ | .exec .. => inferInstanceAs (Decidable (_ = _))

/-- The caller of the step is queued, or stays the current process, or finishes. -/
def SchedOp.Keeps (s : SchedWorld) : SchedOp → Prop
  | .system _ => False
  | .exit _ => s.world.current.id = 0 → processAvailable s.world = false
  | _ => True

instance (s : SchedWorld) (op : SchedOp) : Decidable (op.Keeps s) :=
  match op with
  | .system _ => inferInstanceAs (Decidable False)
  | .exit _ => inferInstanceAs (Decidable (_ → _))
  | .fork _ | .clone _ | .exec .. | .switch | .advance => inferInstanceAs (Decidable True)

/-! ## One step -/

/-- What a step asks of the process that makes it.  `task_exit` needs another one that can
    run, or none that is ready, and `reap_lock` free, or held where a process may exit late. -/
def SchedOpCan (late : Prop) (s : SchedWorld) (l : List Nat) : SchedOp → Prop
  | .exit _ => s.world.current.finished = false ∧
    (l ≠ [] → ∃ p ∈ l, (s.world.proc p).finished = false) ∧
    (s.world.current.id = 0 ∨ s.world.reapLock = false ∨ late ∧ l ≠ [])
  | .switch => True
  | .advance => s.ReapReady
  | _ => s.world.current.finished = false

/-- Where nobody exits late, a safe step can be made. -/
theorem SchedOpSafe.can (h : SchedOpSafe s op) (hinv : SchedInv False s l z) :
    SchedOpCan False s l op := by
  cases op with
  | exit =>
    refine ⟨h.1, fun hl => ?_, h.2.imp_right .inl⟩
    obtain ⟨p, hp⟩ := List.exists_mem_of_ne_nil l hl
    exact ⟨p, hp, hinv.toQueueInv.unfinished hp⟩
  | switch => trivial
  | fork | clone | exec | system | advance => exact h

/-- What a step does to the processes that can run: none is dropped, none but the
    caller finishes, and process 0 does not. -/
structure Progress (s s' : SchedWorld) (l l' : List Nat) : Prop where
  kept : ∀ p ∈ s'.world.live, (s'.world.proc p).finished = false →
    p = s.current ∨ p ∈ l ∨ p ∉ s.world.live → p = s'.current ∨ p ∈ l'
  stays : ∀ p ∈ s.world.live, (s.world.proc p).finished = false → p ∈ s'.world.live
  id : ∀ p ∈ s.world.live, (s'.world.proc p).id = (s.world.proc p).id
  finished : ∀ p ∈ s.world.live, (s.world.proc p).finished = true →
    (s'.world.proc p).finished = true
  zero : ∀ p ∈ s'.world.live, (s'.world.proc p).id = 0 → (s'.world.proc p).finished = true →
    p ∈ s.world.live ∧ (s.world.proc p).finished = true

/-- Steps that write neither `id` nor `finished`. -/
theorem Progress.of_flags (hsub : ∀ p ∈ s'.world.live, p ∈ s.world.live)
    (hstays : ∀ p ∈ s.world.live, (s.world.proc p).finished = false → p ∈ s'.world.live)
    (hid : ∀ p, (s'.world.proc p).id = (s.world.proc p).id)
    (hfin : ∀ p, (s'.world.proc p).finished = (s.world.proc p).finished)
    (hkept : ∀ p, (s.world.proc p).finished = false → p = s.current ∨ p ∈ l →
      p = s'.current ∨ p ∈ l') : Progress s s' l l' where
  kept p hp hpfin hwas := by
    have hold := (hfin p).symm.trans hpfin
    -- the caller, a process that was ready, or a new one, which there is not
    rcases hwas with hwas | hwas | hwas
    · exact hkept p hold (.inl hwas)
    · exact hkept p hold (.inr hwas)
    · exact absurd (hsub p hp) hwas
  stays := hstays
  id p _ := hid p
  finished p _ h := (hfin p).trans h
  zero p hp _ h := ⟨hsub p hp, (hfin p).symm.trans h⟩

/-- Nothing has happened to the queues. -/
theorem Progress.of_eq (h : SchedEq s.world s'.world) (hlive : s'.world.live = s.world.live) :
    Progress s s' l l := by
  apply Progress.of_flags
  · exact fun p hp => hlive ▸ hp
  · exact fun p hp _ => hlive ▸ hp
  · exact h.id
  · exact h.finished
  · rintro p - (rfl | hp)
    · exact .inl h.currentProcess.symm
    · exact .inr hp

/-- Another process runs, and all others that can wait. -/
theorem Switched.progress (h : Switched late s s' l' z)
    (hkept : ∀ p, (s.world.proc p).finished = false → p = s.current ∨ p ∈ l →
      p = s'.current ∨ p ∈ l') : Progress s s' l l' := by
  have hlive := h.only.reap_eq.2.2.2
  apply Progress.of_flags _ _ h.only.id_eq h.only.flags.finished hkept
  · exact fun p hp => hlive ▸ hp
  · exact fun p hp _ => hlive ▸ hp

/-- `switch_task(1)`, from wherever it is called. -/
theorem SchedInv.switchTask_progress (h : SchedInv late s l z)
    (hs : s.switch (fun w => MishaOS.switchTask w true) = some s') :
    ∃ l', SchedInv late s' l' z ∧ Progress s s' l l' := by
  rcases h.switchTask hs with ⟨rfl, rfl⟩ | ⟨k, l', hl', hk, hsw⟩
  · exact ⟨[], h, .of_eq (.refl _) rfl⟩
  -- the caller goes to the end of the queue before the first unfinished one is taken
  · refine ⟨l', hsw.inv, hsw.progress fun p hfin hp => ?_⟩
    have hmem : p ∈ l ++ [s.current] := by
      rcases hp with rfl | hp
      · simp
      · simp [hp]
    have hpk : p ∉ k := fun hpk => absurd ((hk p hpk).symm.trans hfin) (by simp)
    rw [hl'] at hmem
    simpa [hpk] using hmem

/-- `switch_next` alone drops the caller, unless no process is ready. -/
theorem SchedInv.switchNext_progress (h : SchedInv late s l z)
    (hsome : l ≠ [] → ∃ p ∈ l, (s.world.proc p).finished = false)
    (hs : s.switch (MishaOS.switchNext walkFuel) = some s') :
    ∃ l', SchedInv late s' l' z ∧ (processAvailable s.world = false → Progress s s' l l') := by
  by_cases hl : l = []
  · subst hl
    obtain rfl := h.toQueueInv.switch_nil (switchNext_of_empty (n := 4294967295)) hs
    exact ⟨[], h, fun _ => .of_eq (.refl _) rfl⟩
  · obtain ⟨-, l', -, -, hsw⟩ := h.toQueueInv.switchNext (hsome hl) hs
    -- the caller is not queued, so it is lost as soon as another process is ready
    refine ⟨l', hsw.inv, fun hnone => ?_⟩
    have havail := (processAvailable_iff h.ready).mpr hl
    exact absurd (havail.symm.trans hnone) (by simp)

/-- A new process is queued. -/
theorem SchedInv.create_progress {w₁ : ProcWorld} (h : SchedInv late s l z)
    (hfin : (s.world.proc s.current).finished = false) (hp0 : p ≠ 0) (hp : p ∉ s.world.live)
    (hc : SchedCreated s.world w₁ p) :
    SchedInv late (s.create p (makeProcessReady w₁ p)) (l ++ [p]) z ∧
      Progress s (s.create p (makeProcessReady w₁ p)) l (l ++ [p]) := by
  have honly := makeProcessReady_only w₁ p
  have hlive : (makeProcessReady w₁ p).live = p :: s.world.live := honly.reap_eq.2.2.2.trans hc.live
  -- the new process is none of the old ones, whose fields stay
  have hne : ∀ q ∈ s.world.live, q ≠ p := fun q hq e => hp (e ▸ hq)
  have hcur : (makeProcessReady w₁ p).currentProcess = s.current :=
    (makeProcessReady_queue (w := w₁) hp0).2.2.trans hc.currentProcess
  have hold : ∀ q ∈ s.world.live, ((makeProcessReady w₁ p).proc q).finished =
      (s.world.proc q).finished :=
    fun q hq => (honly.flags.finished q).trans (hc.finished q (hne q hq))
  refine ⟨h.create hfin hp0 hp hc, ⟨?_, ?_, ?_, ?_, ?_⟩⟩
  · intro q hq _ hwas
    rcases hwas with rfl | hwas | hwas
    · exact .inl hcur.symm
    · exact .inr (by simp [hwas])
    · have hq : q ∈ p :: s.world.live := hlive ▸ hq
      obtain rfl := (List.mem_cons.mp hq).resolve_right hwas
      exact .inr (by simp)
  · intro q hq _
    show q ∈ (makeProcessReady w₁ p).live
    rw [hlive]
    exact List.mem_cons_of_mem _ hq
  · exact fun q hq => (honly.id_eq q).trans (hc.id q (hne q hq))
  · exact fun q hq hf => (hold q hq).trans hf
  · intro q hq _ hf
    have hq : q ∈ p :: s.world.live := hlive ▸ hq
    rcases List.mem_cons.mp hq with rfl | hq
    · have hnew : ((makeProcessReady w₁ q).proc q).finished = false :=
        (honly.flags.finished q).trans hc.new
      exact absurd (hf.symm.trans hnew) (by simp)
    · exact ⟨hq, (hold q hq).symm.trans hf⟩

/-- The loop over the reap queue. -/
theorem SchedInv.advance (h : SchedInv late s l z) (hsafe : s.ReapReady)
    (hs : s.advance = some s') :
    ∃ l' z', SchedInv late s' l' z' ∧ Progress s s' l l' := by
  unfold SchedWorld.advance at hs
  dsimp only at hs
  cases hf : s.frames s.current with
  | nil => simp [hf] at hs
  | cons f fs =>
    rw [hf] at hs
    cases f with
    | check =>
      obtain rfl := Option.some.inj hs
      exact ⟨l, z, h.check hf, .of_eq (.refl _) rfl⟩
    | lock =>
      dsimp only at hs
      by_cases hlock : s.world.reapLock = true
      · rw [if_pos hlock] at hs
        obtain ⟨l', hinv, hprog⟩ := h.switchTask_progress hs
        exact ⟨l', z, hinv, hprog⟩
      · rw [if_neg hlock] at hs
        obtain rfl := Option.some.inj hs
        -- the lock is free, so a process waits to be reaped
        have hreap := (hsafe (by simp [hf])).resolve_left hlock
        have hz := (shouldReap_iff h.reapable).mp hreap
        exact ⟨l, z, h.lock hf (by simpa using hlock) hz,
          .of_flags (fun _ hp => hp) (fun _ hp _ => hp)
          (fun _ => rfl) (fun _ => rfl) (fun _ _ hp => hp)⟩
    | locked =>
      simp only [Option.bind_eq_bind, Option.bind_eq_some_iff, Prod.exists] at hs
      obtain ⟨r, w', hw', hs⟩ := hs
      obtain rfl := Option.some.inj hs
      -- the process changes from the reap queue to the frame of its reaper
      obtain ⟨z', -, hinv, hrest⟩ := h.take hf hw'
      have hproc : w'.proc = s.world.proc ∧ w'.live = s.world.live ∧
          w'.currentProcess = s.current := by
        rw [hrest]
        exact ⟨rfl, rfl, rfl⟩
      refine ⟨l, z', hinv, .of_flags ?_ ?_ ?_ ?_ ?_⟩
      · exact fun p hp => hproc.2.1 ▸ hp
      · exact fun p hp _ => hproc.2.1.symm ▸ hp
      · exact fun p => congrArg (fun f => (f p).id) hproc.1
      · exact fun p => congrArg (fun f => (f p).finished) hproc.1
      · exact fun p _ hp => hp.imp_left fun e => e.trans hproc.2.2.symm
    | reap r =>
      simp only [Option.bind_eq_bind, Option.bind_eq_some_iff] at hs
      obtain ⟨w', hw', hs⟩ := hs
      obtain rfl := Option.some.inj hs
      obtain ⟨hinv, hkeep, hsub, hproc, hcur⟩ := h.reap hf hw'
      -- what is removed has finished, so it is not one of those that can run
      have hrfin := (h.held _ h.current r (by simp [hf])).2.1
      refine ⟨l, z, hinv, .of_flags hsub ?_ ?_ ?_ ?_⟩
      · intro p hp hfin
        apply hkeep p hp
        rintro rfl
        exact absurd (hrfin.symm.trans hfin) (by simp)
      · exact fun p => congrArg (fun f => (f p).id) hproc
      · exact fun p => congrArg (fun f => (f p).finished) hproc
      · exact fun p _ hp => hp.imp_left fun e => e.trans hcur.symm
    | exit => exact absurd rfl (h.busy_cons hf).2.1

/-- The caller of `task_exit` is the only one that finishes. -/
theorem Exited.progress (h : Exited s s' l l') (hid : (s.world.proc s.current).id ≠ 0) :
    Progress s s' l l' where
  kept p hp hpfin hwas := by
    have hne : p ≠ s.current := by
      rintro rfl
      exact absurd (h.done.symm.trans hpfin) (by simp)
    rcases hwas with hwas | hwas | hwas
    · exact absurd hwas hne
    · exact h.kept p hwas ((h.others p hne).symm.trans hpfin)
    · exact absurd (h.live ▸ hp) hwas
  stays p hp _ := h.live ▸ hp
  id p _ := h.id p
  finished p _ hpfin := by
    rcases eq_or_ne p s.current with rfl | hne
    · exact h.done
    · exact (h.others p hne).trans hpfin
  zero p hp hpid hpfin := by
    have hne : p ≠ s.current := by
      rintro rfl
      exact hid ((h.id _).symm.trans hpid)
    exact ⟨h.live ▸ hp, (h.others p hne).symm.trans hpfin⟩

/-- Every step keeps the invariant, and loses no process if it keeps its caller. -/
theorem SchedInv.step (h : SchedInv late s l z) (hok : SchedOpOk s op)
    (hcan : SchedOpCan late s l op) (hs : schedStep s op = some s') :
    ∃ l' z', SchedInv late s' l' z' ∧ (op.Keeps s → Progress s s' l l') := by
  cases op with
  | fork m =>
    obtain ⟨w', hw', rfl⟩ := Option.map_eq_some_iff.mp hs
    obtain ⟨w₁, hc, rfl⟩ := fork_created hw'
    obtain ⟨hinv, hprog⟩ := h.create_progress hcan hok.2.1 hok.2.2 hc
    exact ⟨_, z, hinv, fun _ => hprog⟩
  | clone m =>
    obtain ⟨w', hw', rfl⟩ := Option.map_eq_some_iff.mp hs
    obtain ⟨w₁, hc, rfl⟩ := clone_created hw'
    obtain ⟨hinv, hprog⟩ := h.create_progress hcan hok.2.1 hok.2.2 hc
    exact ⟨_, z, hinv, fun _ => hprog⟩
  | exec name path file args =>
    obtain rfl := Option.some.inj hs
    obtain ⟨heq, hlive⟩ := exec_sched s.world name path file args
    exact ⟨l, z, h.congr heq hlive, fun _ => .of_eq heq hlive⟩
  | system m =>
    simp only [schedStep, Option.bind_eq_bind, Option.bind_eq_some_iff] at hs
    obtain ⟨w', hw', hs⟩ := hs
    obtain ⟨w₁, hc, rfl⟩ := fork_created hw'
    -- the parent goes on to the child, which has not finished, and queues nobody
    have hinv := h.create hcan hok.2.1 hok.2.2 hc
    have hnew : ((makeProcessReady w₁ m.process).proc m.process).finished = false :=
      ((makeProcessReady_only w₁ m.process).flags.finished m.process).trans hc.new
    obtain ⟨l', hinv, -⟩ := hinv.switchNext_progress (fun _ => ⟨m.process, by simp, hnew⟩) hs
    exact ⟨l', z, hinv, fun hfalse => hfalse.elim⟩
  | exit status =>
    simp only [schedStep] at hs
    obtain ⟨hfin, hsome, hlock⟩ := hcan
    -- process 0 does not finish, it only gives way
    split at hs
    · rename_i hid
      obtain ⟨l', hinv, hprog⟩ := h.switchNext_progress hsome hs
      exact ⟨l', z, hinv, fun hkeep => hprog (hkeep hid)⟩
    · rename_i hid
      cases hheld : s.world.reapLock with
      | false =>
        obtain ⟨l', hinv, hexit⟩ := h.exit hfin hok hheld hsome hs
        exact ⟨l', _, hinv, fun _ => hexit.progress hid⟩
      | true =>
        have hheld' : ¬ s.world.reapLock = false := by simp [hheld]
        obtain ⟨hlate, hl⟩ := (hlock.resolve_left hid).resolve_left hheld'
        obtain ⟨l', hinv, hexit⟩ := h.exitLate hlate hfin hheld (hsome hl) hs
        exact ⟨l', z, hinv, fun _ => hexit.progress hid⟩
  | switch =>
    obtain ⟨l', hinv, hprog⟩ := h.switchTask_progress hs
    exact ⟨l', z, hinv, fun _ => hprog⟩
  | advance =>
    obtain ⟨l', z', hinv, hprog⟩ := h.advance hcan hs
    exact ⟨l', z', hinv, fun _ => hprog⟩

/-! ## Every run -/

/-- Before `init_process`: there is no process, and both queues are empty. -/
structure SchedBoot (w : ProcWorld) (i : InitMem) : Prop extends InitOk w i where
  processQueue : w.processQueue = ⟨0, 0⟩
  reapQueue : w.reapQueue = ⟨0, 0⟩

/-- Behind `init_process`: `init` runs. -/
def SchedWorld.start (w : ProcWorld) (i : InitMem) (rootDir esp : Nat) : SchedWorld :=
  ⟨initProcess w i rootDir esp, fun _ => [], fun _ => false⟩

/-- What `init_process` leaves in the fields of the scheduler. -/
structure Started (w' : ProcWorld) (init : Nat) : Prop where
  live : w'.live = [init]
  queueNode : w'.queueNode init = ⟨0, 0⟩
  reapNode : w'.reapNode init = ⟨0, 0⟩
  processQueue : w'.processQueue = ⟨0, 0⟩
  reapQueue : w'.reapQueue = ⟨0, 0⟩
  current : w'.currentProcess = init
  id : (w'.proc init).id = 0
  finished : (w'.proc init).finished = false
  started : (w'.proc init).started = true

/-- The first process runs. -/
theorem initProcess_started (h : SchedBoot w i) : Started (initProcess w i rootDir esp) i.init := by
  -- the three descriptors change nothing the scheduler looks at
  have hne : ∀ a ∈ i.blocks, a ≠ 0 := fun a ha => (h.mem.2 a ha).1.ne'
  simp only [InitMem.blocks, List.mem_cons, List.not_mem_nil, or_false, forall_eq_or_imp, forall_eq]
    at hne
  have hspawn : Started { spawnInit w i rootDir esp with currentProcess := i.init } i.init := by
    unfold spawnInit
    simp only [processAddFd_eq hne.1 hne.2.2.2.2.1, processAddFd_eq hne.1 hne.2.2.2.2.2.2.1,
      processAddFd_eq hne.1 hne.2.2.2.2.2.2.2.2.1]
    constructor
    · simp [ProcWorld.setProc, ProcWorld.setFd, ProcWorld.malloc, h.live]
    · simp [ProcWorld.setProc, ProcWorld.setFd, ProcWorld.malloc]
    · simp [ProcWorld.setProc, ProcWorld.setFd, ProcWorld.malloc]
    · simpa [ProcWorld.setProc, ProcWorld.setFd, ProcWorld.malloc] using h.processQueue
    · simpa [ProcWorld.setProc, ProcWorld.setFd, ProcWorld.malloc] using h.reapQueue
    · rfl
    · simp [ProcWorld.setProc]
    · simp [ProcWorld.setProc]
    · simp [ProcWorld.setProc]
  unfold initProcess
  generalize ({ spawnInit w i rootDir esp with currentProcess := i.init } : ProcWorld) =
    w₁ at hspawn ⊢
  obtain ⟨heq, hlive⟩ := setProcessPageDirectory_sched w₁ w₁.currentProcess
    w₁.paging.currentPageDirectory
  constructor
  · exact hlive.trans hspawn.live
  · exact (congrFun heq.queueNode _).trans hspawn.queueNode
  · exact (congrFun heq.reapNode _).trans hspawn.reapNode
  · exact heq.processQueue.trans hspawn.processQueue
  · exact heq.reapQueue.trans hspawn.reapQueue
  · exact heq.currentProcess.trans hspawn.current
  · exact (heq.id _).trans hspawn.id
  · exact (heq.finished _).trans hspawn.finished
  · exact (heq.started _).trans hspawn.started

/-- The queues begin empty. -/
theorem SchedInv.start (h : SchedBoot w i) :
    SchedInv late (SchedWorld.start w i rootDir esp) [] [] := by
  have hs : Started (initProcess w i rootDir esp) i.init := initProcess_started h
  have hinit0 : i.init ≠ 0 := (h.mem.2 i.init (by simp [InitMem.blocks])).1.ne'
  unfold SchedWorld.start
  generalize initProcess w i rootDir esp = w' at hs
  -- one process, which runs, and two empty queues
  have hmem : ∀ p ∈ w'.live, p = i.init := fun p hp => by simpa [hs.live] using hp
  have hcur : w'.currentProcess = i.init := hs.current
  refine ⟨⟨⟨?_, ?_, ?_⟩, ⟨?_, ?_, ?_⟩, ?_, ?_, ?_, ?_, ?_, ?_, ?_, ?_, ?_, ?_⟩, ?_, ?_, ?_, ?_⟩
  · exact congrArg Ends.first hs.processQueue
  · exact congrArg Ends.last hs.processQueue
  · trivial
  · exact congrArg Ends.first hs.reapQueue
  · exact congrArg Ends.last hs.reapQueue
  · trivial
  · simp
  · simp
  · intro p hp _
    obtain rfl := hmem p hp
    exact hs.queueNode
  · intro p hp _
    obtain rfl := hmem p hp
    exact hs.reapNode
  · intro p hp
    exact hmem p hp ▸ hinit0
  · simp [hs.live]
  · simp
  · simp
  · simp
  · simp
  · simp [SchedWorld.current, hcur, hs.live]
  · simp
  · simp [SchedWorld.current, hcur, hs.finished]
  · simpa [SchedWorld.current, hcur] using hs.started

/-- Both queues are intact, no process is in two places, and a process that is
    about to be reaped will not run again. -/
structure QueuesSafe (s : SchedWorld) (l z : List Nat) : Prop where
  ready : IsQueue 0 s.world.queueNode s.world.processQueue l
  reapable : IsQueue 0 s.world.reapNode s.world.reapQueue z
  current : s.current ∉ l
  nodup : l.Nodup
  unfinished : ∀ p ∈ l, (s.world.proc p).finished = false
  apart : ∀ p ∈ l, p ∉ z
  handed : ∀ r, (s.frames s.current).head? = some (.reap r) →
    (s.world.proc r).finished = true ∧ r ≠ s.current ∧ r ∉ l

/-- Where nobody exits late, the invariant says that the queues are safe. -/
theorem SchedInv.queuesSafe (h : SchedInv False s l z) : QueuesSafe s l z where
  ready := h.ready
  reapable := h.reapable
  current := h.away
  nodup := h.ready.nodup
  unfinished p hp := h.toQueueInv.unfinished hp
  apart p hp := (h.readyOk p hp).off
  handed r hr := by
    have hmem : .reap r ∈ s.frames s.current := List.mem_of_mem_head? hr
    obtain ⟨-, hfin, -⟩ := h.held _ h.current r hmem
    exact ⟨hfin, h.held_ne h.current hmem, fun hl => (h.readyOk r hl).free _ h.current hmem⟩

/-- The scheduler after boot. -/
theorem boot_schedBoot : SchedBoot ProcWorld.boot InitMem.boot := ⟨boot_initOk, rfl, rfl⟩

/-- Each process that has not finished is the current one or ready. -/
def NoneLost (s : SchedWorld) (l : List Nat) : Prop :=
  IsQueue 0 s.world.queueNode s.world.processQueue l ∧
    ∀ p ∈ s.world.live, (s.world.proc p).finished = false → p = s.current ∨ p ∈ l

/-- What keeps processes from being lost, also where some exit late; process 0 always can run. -/
structure RunnableInv (s : SchedWorld) (l z : List Nat) : Prop extends SchedInv True s l z where
  runnable : ∀ p ∈ s.world.live, (s.world.proc p).finished = false → p = s.current ∨ p ∈ l
  init : ∃ p ∈ s.world.live, (s.world.proc p).id = 0
  zero : ∀ p ∈ s.world.live, (s.world.proc p).id = 0 → (s.world.proc p).finished = false

/-- So the current process has not finished: process 0 would be ready. -/
theorem RunnableInv.unfinished (h : RunnableInv s l z) :
    (s.world.proc s.current).finished = false := by
  cases hfin : (s.world.proc s.current).finished with
  | false => rfl
  | true =>
    obtain ⟨p, hp, hid⟩ := h.init
    have hpfin := h.zero p hp hid
    -- a finished process is the current one only when nobody else is ready
    obtain ⟨-, rfl⟩ := h.rest hfin
    rcases h.runnable p hp hpfin with rfl | hmem
    · exact absurd (hfin.symm.trans hpfin) (by simp)
    · simp at hmem

/-- No process that can run gets lost. -/
theorem RunnableInv.of_progress (h : RunnableInv s l z) {z' : List Nat}
    (hinv : SchedInv True s' l' z')
    (hp : Progress s s' l l') : RunnableInv s' l' z' := by
  refine { hinv with runnable := ?_, init := ?_, zero := ?_ }
  -- a process that can run now could before, unless it is new
  · intro p hlive hfin
    by_cases hold : p ∈ s.world.live
    · have hpfin : (s.world.proc p).finished = false := by
        cases hf : (s.world.proc p).finished with
        | false => rfl
        | true => exact absurd ((hp.finished p hold hf).symm.trans hfin) (by simp)
      apply hp.kept p hlive hfin
      rcases h.runnable p hold hpfin with hcur | hl
      · exact .inl hcur
      · exact .inr (.inl hl)
    · exact hp.kept p hlive hfin (.inr (.inr hold))
  · obtain ⟨p, hlive, hid⟩ := h.init
    exact ⟨p, hp.stays p hlive (h.zero p hlive hid), (hp.id p hlive).trans hid⟩
  · intro p hlive hid
    cases hf : (s'.world.proc p).finished with
    | false => rfl
    | true =>
      obtain ⟨hold, hpfin⟩ := hp.zero p hlive hid hf
      exact absurd (hpfin.symm.trans (h.zero p hold ((hp.id p hold).symm.trans hid))) (by simp)

/-- The steps of a run that loses no process: there is no `system`, process 0
    exits only alone, and the reap queue is not found empty. -/
def SchedOpKept (s : SchedWorld) (op : SchedOp) : Prop :=
  op.Keeps s ∧ match op with
    | .advance => s.ReapReady
    | _ => True

instance (s : SchedWorld) (op : SchedOp) : Decidable (SchedOpKept s op) :=
  match op with
  | .advance => inferInstanceAs (Decidable (_ ∧ s.ReapReady))
  | .fork _ | .clone _ | .system _ | .exec .. | .exit _ | .switch =>
    inferInstanceAs (Decidable (_ ∧ True))

/-- A step that keeps its caller can be made: process 0 is ready when another one exits. -/
theorem RunnableInv.can (h : RunnableInv s l z) (hkept : SchedOpKept s op) :
    SchedOpCan True s l op := by
  have hfin := h.unfinished
  cases op with
  | exit =>
    refine ⟨hfin, ?_⟩
    by_cases hid : s.world.current.id = 0
    · -- nobody else is ready
      have hl : l = [] := by
        by_contra hl
        have havail := (processAvailable_iff h.ready).mpr hl
        exact absurd (havail.symm.trans (hkept.1 hid)) (by simp)
      exact ⟨fun hne => absurd hl hne, .inl hid⟩
    · obtain ⟨p, hp, hpid⟩ := h.init
      have hpfin := h.zero p hp hpid
      have hpl : p ∈ l := by
        refine (h.runnable p hp hpfin).resolve_left ?_
        rintro rfl
        exact hid hpid
      exact ⟨fun _ => ⟨p, hpl, hpfin⟩, .inr (.inr ⟨trivial, List.ne_nil_of_mem hpl⟩)⟩
  | switch => trivial
  | advance => exact hkept.2
  | fork | clone | exec | system => exact hfin

end MishaOS
