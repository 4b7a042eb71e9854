import MishaOS.Spec.SchedRun

/-!
# The two queues of processes

Calls of `make_process_ready` and `next_ready_process`, and of
`make_process_reapable` and `next_reapable_process`, one after another, between
them the creation of processes.  What went into a queue and what came out of it
is recorded.

## Key results

- `ready_run_fifo`: the ready queue is first in, first out.
- `reap_run_served`: so is the reap queue, and `reap_lock` is free behind each
  call, until a process is taken from the empty queue or a process waits twice
  while another one is put in.
-/

namespace MishaOS

open Fifo

variable {w w' : ProcWorld} {i : InitMem} {m : SpawnMem} {l : List Nat} {p rootDir esp : Nat}

/-- A call for one of the queues. -/
inductive QueueOp
  /-- `spawn_process` -/
  | spawn (m : SpawnMem) (parent : Nat)
  /-- `make_process_ready`, `make_process_reapable` -/
  | make (process : Nat)
  /-- `next_ready_process`, `next_reapable_process` -/
  | next

/-- A world, and the processes that went into the queue and came out of it so far. -/
structure QueueState where
  world : ProcWorld
  entered : List Nat
  taken : List Nat

variable {s s' t : QueueState} {op : QueueOp} {ops : List QueueOp}

/-- What a pointer to a process adds to a record; a null pointer adds nothing. -/
def named (process : Nat) : List Nat := if process = 0 then [] else [process]

def QueueState.spawn (s : QueueState) (m : SpawnMem) (parent : Nat) : Option QueueState :=
  (spawnProcess s.world m parent).map fun w => { s with world := w }

def readyStep (s : QueueState) : QueueOp → Option QueueState
  | .spawn m parent => s.spawn m parent
  | .make process =>
    some { s with world := makeProcessReady s.world process, entered := s.entered ++ named process }
  | .next =>
    let (process, w) := nextReadyProcess s.world
    some { s with world := w, taken := s.taken ++ named process }

/-- A created process is new, and a call is given a process or null. -/
def QueueOpOk (s : QueueState) : QueueOp → Prop
  | .spawn m _ => m.process ≠ 0 ∧ m.process ∉ s.world.live
  | .make process => process = 0 ∨ process ∈ s.world.live
  | .next => True

instance : Decidable (QueueOpOk s op) := by
  cases op <;> unfold QueueOpOk <;> infer_instance

/-! ## The ready queue -/

/-- A process is put in while it is not queued. -/
def ReadyOpOk (s : QueueState) : QueueOp → Prop
  | .make process => process = 0 ∨ processIsReady s.world process = false
  | _ => True

instance : Decidable (ReadyOpOk s op) := by
  cases op <;> unfold ReadyOpOk <;> infer_instance

/-- The ready queue is `l`. -/
structure ReadyQueue (w : ProcWorld) (l : List Nat) : Prop where
  queue : IsQueue 0 w.queueNode w.processQueue l
  sub : ∀ p ∈ l, p ∈ w.live
  off : ∀ p ∈ w.live, p ∉ l → w.queueNode p = ⟨0, 0⟩
  ready : ∀ p ∈ w.live, processIsReady w p = true ↔ p ∈ l

/-- A new process is in no queue. -/
theorem spawnProcess_queued {parent : Nat} (h : spawnProcess w m parent = some w') (q : Nat) :
    processIsReady w' q = if q = m.process then false else processIsReady w q := by
  simp only [spawnProcess, Option.bind_eq_bind, Option.bind_eq_some_iff] at h
  obtain ⟨⟨stack, pfa⟩, -, w₁, hcopy, h⟩ := h
  obtain rfl := Option.some.inj h
  have hproc : w₁.proc = w.proc := by
    rw [copyFds_rest hcopy]
    rfl
  rcases eq_or_ne q m.process with rfl | hq
  · simp [processIsReady, ProcWorld.setProc]
  · simp [processIsReady, ProcWorld.setProc, hq, hproc]

/-- The ready queue does not see it. -/
theorem ReadyQueue.spawn {parent : Nat} (h : ReadyQueue w l) (hnew : m.process ∉ w.live)
    (hs : spawnProcess w m parent = some w') : ReadyQueue w' l := by
  have hc := spawnProcess_created hs
  -- the new process is not in the queue, so no link of a waiting one is written
  have hl : m.process ∉ l := fun hm => hnew (h.sub _ hm)
  refine ⟨?_, fun p hp => ?_, fun p hp hpl => ?_, fun p hp => ?_⟩
  · rw [hc.queueNode, hc.processQueue]
    exact h.queue.congr fun x hx => Function.update_of_ne (ne_of_mem_of_not_mem hx hl) _ _
  · rw [hc.live]
    exact List.mem_cons_of_mem _ (h.sub p hp)
  · rw [hc.queueNode]
    rcases eq_or_ne p m.process with rfl | hne
    · exact Function.update_self _ _ _
    · rw [hc.live] at hp
      rw [Function.update_of_ne hne]
      exact h.off p ((List.mem_cons.mp hp).resolve_left hne) hpl
  · rw [spawnProcess_queued hs]
    rcases eq_or_ne p m.process with rfl | hne
    · simp [hl]
    · rw [hc.live] at hp
      rw [if_neg hne]
      exact h.ready p ((List.mem_cons.mp hp).resolve_left hne)

/-- A process that becomes ready goes to the end. -/
theorem ReadyQueue.make (h : ReadyQueue w l) (hp0 : p ≠ 0) (hp : p ∈ w.live)
    (hready : processIsReady w p = false) : ReadyQueue (makeProcessReady w p) (l ++ [p]) := by
  -- `queued` is what keeps a process from being put in twice
  have hl : p ∉ l := fun hm => by simp [(h.ready p hp).mpr hm] at hready
  rw [makeProcessReady, if_neg hp0]
  refine ⟨h.queue.push hl hp0 (h.off p hp hl), fun q hq => ?_, fun q hq hql => ?_, fun q hq => ?_⟩
  · rcases List.mem_append.mp hq with hq | hq
    · exact h.sub q hq
    · exact List.mem_singleton.mp hq ▸ hp
  · simp only [List.mem_append, List.mem_singleton, not_or] at hql
    exact (h.queue.push_off hql.2 hql.1).trans (h.off q hq hql.1)
  · rcases eq_or_ne q p with rfl | hne
    · simp [processIsReady, ProcWorld.setProc]
    · simpa [processIsReady, ProcWorld.setProc, hne] using h.ready q hq

/-- The first one is taken. -/
theorem ReadyQueue.next (h : ReadyQueue w l) :
    (nextReadyProcess w).1 = l.headD 0 ∧ ReadyQueue (nextReadyProcess w).2 l.tail := by
  rw [nextReadyProcess]
  cases l with
  | nil =>
    -- the empty queue answers with the null pointer
    have hfirst : w.processQueue.first = 0 := h.queue.first_eq_null.mpr rfl
    rw [if_pos hfirst]
    exact ⟨rfl, h⟩
  | cons p l =>
    obtain ⟨hfirst, hcleared, hqueue⟩ := h.queue.pop
    have hp0 : p ≠ 0 := h.queue.chain.ne_null List.mem_cons_self
    -- the links of the process that comes out are cleared, and `queued` with them
    have hpl : p ∉ l := (List.nodup_cons.mp h.queue.nodup).1
    rw [hfirst, if_neg hp0]
    refine ⟨rfl, hqueue, fun q hq => h.sub q (List.mem_cons_of_mem _ hq), fun q hq hql => ?_,
      fun q hq => ?_⟩
    · rcases eq_or_ne q p with rfl | hne
      · exact hcleared
      · have hmem : q ∉ p :: l := by simp [hne, show q ∉ l from hql]
        exact (h.queue.pop_off hmem).trans (h.off q hq hmem)
    · rcases eq_or_ne q p with rfl | hne
      · simp [processIsReady, ProcWorld.setProc, hpl]
      · simpa [processIsReady, ProcWorld.setProc, hne] using h.ready q hq

/-- What came out is what went in, up to the processes that still wait. -/
def QueueState.Waiting (s : QueueState) (l : List Nat) : Prop := s.entered = s.taken ++ l

/-- Every call keeps the queue in order. -/
theorem readyStep_queue (hw : s.Waiting l) (h : ReadyQueue s.world l) (hok : QueueOpOk s op)
    (hready : ReadyOpOk s op) (hs : readyStep s op = some s') :
    ∃ l', s'.Waiting l' ∧ ReadyQueue s'.world l' := by
  cases op with
  -- creation touches neither record
  | spawn m parent =>
    obtain ⟨w', hspawn, rfl⟩ := Option.map_eq_some_iff.mp hs
    exact ⟨l, hw, h.spawn hok.2 hspawn⟩
  | make process =>
    obtain rfl := Option.some.inj hs
    -- the null pointer is ignored
    rcases eq_or_ne process 0 with rfl | hp0
    · refine ⟨l, ?_, h⟩
      rw [QueueState.Waiting, named, if_pos rfl, List.append_nil]
      exact hw
    · refine ⟨l ++ [process], ?_, h.make hp0 (hok.resolve_left hp0) (hready.resolve_left hp0)⟩
      rw [QueueState.Waiting, named, if_neg hp0, hw, List.append_assoc]
  | next =>
    have hs' : s' = ⟨(nextReadyProcess s.world).2, s.entered,
        s.taken ++ named (nextReadyProcess s.world).1⟩ := (Option.some.inj hs).symm
    obtain ⟨hfirst, hqueue⟩ := h.next
    rw [hs']
    refine ⟨l.tail, ?_, hqueue⟩
    rw [QueueState.Waiting, hfirst, hw]
    cases l with
    | nil => simp [named]
    | cons p l =>
      have hp0 : p ≠ 0 := h.queue.chain.ne_null List.mem_cons_self
      simp [named, hp0]

/-- In every run in which only processes that are not queued are made ready: they
    come out in the order in which they went in, 0 comes out of the empty queue
    only, and the links and `queued` tell which processes wait. -/
theorem ready_run_fifo (hw : s.Waiting l) (h : ReadyQueue s.world l)
    (hrun : Run readyStep (fun s op => QueueOpOk s op ∧ ReadyOpOk s op) s ops t) :
    ∃ l', t.Waiting l' ∧ ReadyQueue t.world l' ∧ (nextReadyProcess t.world).1 = l'.headD 0 ∧
      ((nextReadyProcess t.world).1 = 0 ↔ l' = []) := by
  -- the induction is on the run; the list of waiting processes is the witness
  have hinv : ∃ l', t.Waiting l' ∧ ReadyQueue t.world l' := by
    apply hrun.invariant fun t => ∃ l', t.Waiting l' ∧ ReadyQueue t.world l'
    · rintro s op s' ⟨l, hw, hq⟩ ⟨hok, hready⟩ hs
      exact readyStep_queue hw hq hok hready hs
    · exact ⟨l, hw, h⟩
  obtain ⟨l', hw', hq⟩ := hinv
  obtain ⟨hfirst, -⟩ := hq.next
  refine ⟨l', hw', hq, hfirst, ?_⟩
  rw [hfirst]
  cases l' with
  | nil => simp
  | cons p l' => simpa using hq.queue.chain.ne_null List.mem_cons_self

/-- Behind `init_process`, with nothing recorded. -/
def QueueState.start (w : ProcWorld) (i : InitMem) (rootDir esp : Nat) : QueueState :=
  ⟨initProcess w i rootDir esp, [], []⟩

/-- Nobody waits. -/
theorem start_waiting : (QueueState.start w i rootDir esp).Waiting [] := rfl

/-- The first process is not in the queue. -/
theorem initProcess_not_ready (h : SchedBoot w i) :
    processIsReady (initProcess w i rootDir esp) i.init = false := by
  -- the three descriptors that `init` gets do not touch `queued`
  have hne : ∀ a ∈ i.blocks, a ≠ 0 := fun a ha => (h.mem.2 a ha).1.ne'
  simp only [InitMem.blocks, List.mem_cons, List.not_mem_nil, or_false, forall_eq_or_imp, forall_eq]
    at hne
  have hspawn : processIsReady { spawnInit w i rootDir esp with currentProcess := i.init } i.init =
      false := by
    unfold spawnInit
    simp only [processAddFd_eq hne.1 hne.2.2.2.2.1, processAddFd_eq hne.1 hne.2.2.2.2.2.2.1,
      processAddFd_eq hne.1 hne.2.2.2.2.2.2.2.2.1]
    simp [processIsReady, ProcWorld.setProc]
  unfold initProcess
  generalize ({ spawnInit w i rootDir esp with currentProcess := i.init } : ProcWorld) =
    w₁ at hspawn ⊢
  have hset : ∀ (w : ProcWorld) p d q,
      processIsReady (setProcessPageDirectory w p d) q = processIsReady w q := by
    intro w p d q
    unfold setProcessPageDirectory
    split
    · rfl
    · rcases eq_or_ne q p with rfl | hq
      · simp [processIsReady, ProcWorld.setProc]
      · simp [processIsReady, ProcWorld.setProc, hq]
  exact (hset w₁ _ _ _).trans hspawn

/-- At the start `init` is the only process, and it is not queued. -/
theorem ReadyQueue.start (h : SchedBoot w i) :
    ReadyQueue (QueueState.start w i rootDir esp).world [] := by
  have hs : Started (initProcess w i rootDir esp) i.init := initProcess_started h
  have hready : processIsReady (initProcess w i rootDir esp) i.init = false :=
    initProcess_not_ready h
  unfold QueueState.start
  generalize initProcess w i rootDir esp = w' at hs hready
  have hlive : ∀ p ∈ w'.live, p = i.init := fun p hp => by simpa [hs.live] using hp
  refine ⟨⟨congrArg Ends.first hs.processQueue, congrArg Ends.last hs.processQueue, trivial⟩,
    by simp,
    fun p hp _ => ?_, fun p hp => ?_⟩
  · exact hlive p hp ▸ hs.queueNode
  · obtain rfl := hlive p hp
    simp [hready]

/-- `init` comes behind its child, which became ready first. -/
theorem ready_run_fifo_init_last :
    ∃ t, Run readyStep (fun s op => QueueOpOk s op ∧ ReadyOpOk s op)
      (QueueState.start ProcWorld.boot InitMem.boot 0 0x9FFFF)
      [.next, .spawn (SpawnMem.at 0x80001000) 0x80000010, .make 0x80001000,
        .make 0x80000010, .next] t ∧
      t.taken = [0x80001000] ∧ ∃ l, t.Waiting l ∧ ReadyQueue t.world l ∧
        (nextReadyProcess t.world).1 = l.headD 0 ∧ ((nextReadyProcess t.world).1 = 0 ↔ l = []) := by
  have hsome : (Run.exec readyStep (fun s op => QueueOpOk s op ∧ ReadyOpOk s op)
      (QueueState.start ProcWorld.boot InitMem.boot 0 0x9FFFF)
      [.next, .spawn (SpawnMem.at 0x80001000) 0x80000010, .make 0x80001000,
        .make 0x80000010, .next]).map
        (·.taken) = some [0x80001000] := by
    decide +kernel
  obtain ⟨t, ht, htaken⟩ := Option.map_eq_some_iff.mp hsome
  have hrun := Run.of_exec ht
  exact ⟨t, hrun, htaken, ready_run_fifo start_waiting (.start boot_schedBoot) hrun⟩

/-! ## The reap queue -/

def reapStep (s : QueueState) : QueueOp → Option QueueState
  | .spawn m parent => s.spawn m parent
  | .make process =>
    (makeProcessReapable s.world process).map fun w =>
      { s with world := w, entered := s.entered ++ named process }
  | .next =>
    (nextReapableProcess s.world).map fun (process, w) =>
      { s with world := w, taken := s.taken ++ named process }

/-- What `next_reapable_process` returns in a loop over `should_reap`, of at most `n` rounds. -/
def reapAll : Nat → ProcWorld → Option (List Nat)
  | 0, w => if shouldReap w then none else some []
  | n + 1, w =>
    if shouldReap w then (nextReapableProcess w).bind fun (process, w) =>
      (reapAll n w).map (process :: ·)
    else some []

/-- `reap_lock` is free, and what went in comes out: some of it has, in order, and the
    rest would now. -/
def QueueState.Served (s : QueueState) : Prop :=
  s.world.reapLock = false ∧ ∃ l, s.Waiting l ∧ reapAll l.length s.world = some l

/-- A call for the reap queue returns, with everything as it should be. -/
def ReapServed (s : QueueState) : QueueOp → Prop
  | .spawn .. => True
  | op => ∃ s', reapStep s op = some s' ∧ s'.Served

/-- A process is put in while none waits twice, and taken while there is one. -/
def ReapOpOk (s : QueueState) : QueueOp → Prop
  | .spawn .. => True
  | .make process => process = 0 ∨ (s.entered.drop s.taken.length).Nodup
  | .next => shouldReap s.world = true

instance : Decidable (ReapOpOk s op) := by
  cases op <;> unfold ReapOpOk <;> infer_instance

/-- `reap_lock` is free, and the processes of `l` come out of the reap queue. -/
structure ReapQueue (w : ProcWorld) (l : List Nat) : Prop where
  lock : w.reapLock = false
  lined : Lined 0 (· ∈ w.live) w.reapNode w.reapQueue l

/-- What `make_process_reapable` does when `reap_lock` is free. -/
def ProcWorld.pushReap (w : ProcWorld) (process : Nat) : ProcWorld :=
  { w with
    reapNode := (push 0 w.reapNode w.reapQueue process).1
    reapQueue := (push 0 w.reapNode w.reapQueue process).2 }

/-- What `next_reapable_process` does when `reap_lock` is free and a process waits. -/
def ProcWorld.popReap (w : ProcWorld) : ProcWorld :=
  { w with
    reapNode := (pop 0 w.reapNode w.reapQueue).1
    reapQueue := (pop 0 w.reapNode w.reapQueue).2 }

/-- With a free lock the process goes to the end. -/
theorem makeProcessReapable_eq (hlock : w.reapLock = false) (hp0 : p ≠ 0) :
    makeProcessReapable w p = some (w.pushReap p) := by
  rw [makeProcessReapable, if_neg hp0, if_neg (by simp [hlock])]
  rfl

/-- With a free lock and a process that waits the first one is taken. -/
theorem nextReapableProcess_eq (hlock : w.reapLock = false) (hfirst : w.reapQueue.first ≠ 0) :
    nextReapableProcess w = some (w.reapQueue.first, w.popReap) := by
  rw [nextReapableProcess]
  dsimp only
  rw [if_neg (by simp [hlock]), if_neg hfirst]
  rfl

/-- Reaping all drains the queue. -/
theorem reapAll_eq_drain {n : Nat} (hlock : w.reapLock = false) :
    reapAll n w = drain 0 n w.reapNode w.reapQueue := by
  -- the induction is on the rounds of the loop; each one pops
  induction n generalizing w with
  | zero => by_cases h : w.reapQueue.first = 0 <;> simp [reapAll, drain, shouldReap, h]
  | succ n ih =>
    by_cases h : w.reapQueue.first = 0
    · simp [reapAll, drain, shouldReap, h]
    · have hrest : reapAll n w.popReap = drain 0 n w.popReap.reapNode w.popReap.reapQueue :=
        ih hlock
      rw [reapAll, drain, if_neg h, if_pos (by simp [shouldReap, h]),
        nextReapableProcess_eq hlock h,
        Option.bind_some]
      dsimp only
      rw [hrest]
      rfl

/-- All processes that wait are reaped, in order. -/
theorem ReapQueue.reapAll (h : ReapQueue w l) : reapAll l.length w = some l := by
  rw [reapAll_eq_drain h.lock]
  exact h.lined.drain

/-- The reap queue does not see a new process. -/
theorem ReapQueue.spawn {parent : Nat} (h : ReapQueue w l) (hnew : m.process ∉ w.live)
    (hs : spawnProcess w m parent = some w') : ReapQueue w' l := by
  have hc := spawnProcess_created hs
  refine ⟨hc.reapLock.trans h.lock, ?_⟩
  rw [hc.reapNode, hc.reapQueue, hc.live]
  simpa using h.lined.update fun hm => hnew (h.lined.known _ hm)

/-- A process goes to the end. -/
theorem ReapQueue.push (h : ReapQueue w l) (hnd : l.Nodup) (hp0 : p ≠ 0) (hp : p ∈ w.live) :
    ReapQueue (w.pushReap p) (l ++ [p]) :=
  ⟨h.lock, h.lined.push hnd hp0 hp⟩

/-- The first one is taken. -/
theorem ReapQueue.pop (h : ReapQueue w (p :: l)) : w.reapQueue.first = p ∧ ReapQueue w.popReap l :=
  ⟨h.lined.pop.1, h.lock, h.lined.pop.2⟩

/-- Those that wait are the ones behind those that were taken. -/
theorem QueueState.Waiting.drop (hw : s.Waiting l) : s.entered.drop s.taken.length = l := by
  rw [hw, List.drop_left]

/-- A call that meets its condition returns, with the queue intact. -/
theorem reapStep_queue (hw : s.Waiting l) (h : ReapQueue s.world l) (hok : QueueOpOk s op)
    (hreap : ReapOpOk s op) (hop : ∀ m parent, op ≠ .spawn m parent) :
    ∃ s' l', reapStep s op = some s' ∧ s'.Waiting l' ∧ ReapQueue s'.world l' := by
  cases op with
  | spawn m parent => exact absurd rfl (hop m parent)
  | make process =>
    rcases eq_or_ne process 0 with rfl | hp0
    · refine ⟨_, l, rfl, ?_, h⟩
      rw [QueueState.Waiting, named, if_pos rfl, List.append_nil]
      exact hw
    · have hnd : l.Nodup := hw.drop ▸ hreap.resolve_left hp0
      refine ⟨⟨s.world.pushReap process, s.entered ++ named process, s.taken⟩,
        l ++ [process], ?_, ?_, ?_⟩
      · rw [reapStep, makeProcessReapable_eq h.lock hp0, Option.map_some]
      · rw [QueueState.Waiting, named, if_neg hp0, hw, List.append_assoc]
      · exact h.push hnd hp0 (hok.resolve_left hp0)
  | next =>
    -- `should_reap` says that a process waits
    have hfirst : s.world.reapQueue.first ≠ 0 := by simpa [ReapOpOk, shouldReap] using hreap
    cases l with
    | nil => exact absurd (h.lined.first_eq_null.mpr rfl) hfirst
    | cons p l =>
      have hp0 : p ≠ 0 := fun e => h.lined.ne (by simp [e])
      obtain ⟨rfl, hqueue⟩ := h.pop
      refine ⟨⟨s.world.popReap, s.entered, s.taken ++ named s.world.reapQueue.first⟩, l,
        ?_, ?_, hqueue⟩
      · rw [reapStep, nextReapableProcess_eq h.lock hfirst, Option.map_some]
      · rw [QueueState.Waiting, named, if_neg hp0, hw, List.append_assoc]
        rfl

/-- A call that does not meet its condition keeps `reap_lock`, or loses a process. -/
theorem not_reapServed (hw : s.Waiting l) (h : ReapQueue s.world l) (hok : QueueOpOk s op)
    (hreap : ¬ ReapOpOk s op) : ¬ ReapServed s op := by
  cases op with
  | spawn m parent => exact fun _ => hreap trivial
  | make process =>
    -- the process goes to the end, but the link behind the one that waits twice is overwritten
    obtain ⟨hp0, hdup⟩ := not_or.mp hreap
    rw [hw.drop] at hdup
    rintro ⟨s', hs, hlock, l', hw', hall⟩
    rw [reapStep, makeProcessReapable_eq h.lock hp0, Option.map_some] at hs
    obtain rfl := Option.some.inj hs
    obtain rfl : l ++ [process] = l' := by
      rw [QueueState.Waiting, named, if_neg hp0, hw, List.append_assoc] at hw'
      exact List.append_cancel_left hw'
    rw [reapAll_eq_drain hlock] at hall
    exact h.lined.drain_push_ne hdup (hok.resolve_left hp0) _ hall
  | next =>
    -- the early return for the empty queue leaves out `spin_unlock`
    have hfirst : s.world.reapQueue.first = 0 := by simpa [ReapOpOk, shouldReap] using hreap
    rintro ⟨s', hs, hlock, -⟩
    rw [reapStep, nextReapableProcess] at hs
    dsimp only at hs
    rw [if_neg (by simp [h.lock]), if_pos hfirst, Option.map_some] at hs
    obtain rfl := Option.some.inj hs
    simp at hlock

/-- What went in comes out. -/
theorem ReapQueue.served (hw : s.Waiting l) (h : ReapQueue s.world l) : s.Served :=
  ⟨h.lock, l, hw, h.reapAll⟩

/-- In every run whose calls meet the condition `reap_lock` is free and what went in
    comes out in order; and a further call does what it should exactly if it meets it. -/
theorem reap_run_served (hw : s.Waiting l) (h : ReapQueue s.world l)
    (hrun : Run reapStep (fun s op => QueueOpOk s op ∧ ReapOpOk s op) s ops t) :
    t.Served ∧ ∀ op, QueueOpOk t op → (ReapServed t op ↔ ReapOpOk t op) := by
  have hinv : ∃ l', t.Waiting l' ∧ ReapQueue t.world l' := by
    apply hrun.invariant fun t => ∃ l', t.Waiting l' ∧ ReapQueue t.world l'
    · rintro s op s' ⟨l, hw, hq⟩ ⟨hok, hreap⟩ hs
      by_cases hop : ∀ m parent, op ≠ .spawn m parent
      -- the call that was made is the one that returns
      · obtain ⟨s₁, l', hs₁, hw', hq'⟩ := reapStep_queue hw hq hok hreap hop
        obtain rfl := Option.some.inj (hs₁.symm.trans hs)
        exact ⟨l', hw', hq'⟩
      · push Not at hop
        obtain ⟨m, parent, rfl⟩ := hop
        obtain ⟨w', hspawn, rfl⟩ := Option.map_eq_some_iff.mp hs
        exact ⟨l, hw, hq.spawn hok.2 hspawn⟩
    · exact ⟨l, hw, h⟩
  obtain ⟨l', hw', hq⟩ := hinv
  refine ⟨hq.served hw', fun op hok => ⟨fun hserved => ?_, fun hreap => ?_⟩⟩
  · by_contra hreap
    exact not_reapServed hw' hq hok hreap hserved
  · cases op with
    | spawn m parent => trivial
    | make process =>
      obtain ⟨s', l', hs, hws, hqs⟩ := reapStep_queue hw' hq hok hreap (by simp)
      exact ⟨s', hs, hqs.served hws⟩
    | next =>
      obtain ⟨s', l', hs, hws, hqs⟩ := reapStep_queue hw' hq hok hreap (by simp)
      exact ⟨s', hs, hqs.served hws⟩

/-- Setting up the first process does not touch the lock. -/
theorem initProcess_reapLock (w : ProcWorld) (i : InitMem) (rootDir esp : Nat) :
    (initProcess w i rootDir esp).reapLock = w.reapLock := by
  have hadd : ∀ (w : ProcWorld) e p f, (processAddFd w e p f).reapLock = w.reapLock := by
    intro w e p f
    unfold processAddFd
    split <;> rfl
  unfold initProcess
  refine ((setProcessPageDirectory_sched _ _ _).1.reapLock).trans ?_
  change (spawnInit w i rootDir esp).reapLock = w.reapLock
  unfold spawnInit
  simp [ProcWorld.setProc, hadd, ProcWorld.malloc]

/-- The reap queue begins empty. -/
theorem ReapQueue.start (h : SchedBoot w i) (hlock : w.reapLock = false) :
    ReapQueue (QueueState.start w i rootDir esp).world [] := by
  have hs : Started (initProcess w i rootDir esp) i.init := initProcess_started h
  have hkept := initProcess_reapLock w i rootDir esp
  unfold QueueState.start
  generalize initProcess w i rootDir esp = w' at hs hkept
  refine ⟨hkept.trans hlock, ?_⟩
  rw [hs.reapQueue]
  refine Lined.nil fun p hp => ?_
  obtain rfl : p = i.init := by simpa [hs.live] using hp
  rw [hs.reapNode]

/-- `init` and a process it has spawned are put in, the second one twice. -/
theorem reap_run_served_twice :
    ∃ t, Run reapStep (fun s op => QueueOpOk s op ∧ ReapOpOk s op)
      (QueueState.start ProcWorld.boot InitMem.boot 0 0x9FFFF)
      [.spawn (SpawnMem.at 0x80001000) 0x80000010, .make 0x80001000, .make 0x80000010,
        .make 0x80001000,
        .next] t ∧
      t.taken = [0x80001000] ∧ t.Served ∧ ∀ op, QueueOpOk t op →
      (ReapServed t op ↔ ReapOpOk t op) := by
  have hsome : (Run.exec reapStep (fun s op => QueueOpOk s op ∧ ReapOpOk s op)
      (QueueState.start ProcWorld.boot InitMem.boot 0 0x9FFFF)
      [.spawn (SpawnMem.at 0x80001000) 0x80000010, .make 0x80001000, .make 0x80000010,
        .make 0x80001000,
        .next]).map (·.taken) = some [0x80001000] := by
    decide +kernel
  obtain ⟨t, ht, htaken⟩ := Option.map_eq_some_iff.mp hsome
  have hrun := Run.of_exec ht
  exact ⟨t, hrun, htaken, reap_run_served start_waiting (.start boot_schedBoot rfl) hrun⟩

/-- `next_reapable_process` on the empty queue keeps `reap_lock`: behind it no process
    can be made reapable. -/
theorem empty_reap_queue_keeps_lock :
    ∃ t, Run reapStep QueueOpOk (QueueState.start ProcWorld.boot InitMem.boot 0 0x9FFFF) [.next] t ∧
      ¬ t.Served ∧ QueueOpOk t (.make 0x80000010) ∧ reapStep t (.make 0x80000010) = none := by
  have hsome : (Run.exec reapStep QueueOpOk
      (QueueState.start ProcWorld.boot InitMem.boot 0 0x9FFFF) [.next]).map (fun t =>
        (t.world.reapLock, decide (QueueOpOk t (.make 0x80000010)),
          (reapStep t (.make 0x80000010)).isNone)) = some (true, true, true) := by
    decide +kernel
  obtain ⟨t, ht, hfacts⟩ := Option.map_eq_some_iff.mp hsome
  obtain ⟨hlock, hrest⟩ := Prod.mk.inj hfacts
  obtain ⟨hok, hnone⟩ := Prod.mk.inj hrest
  refine ⟨t, Run.of_exec ht, fun hserved => ?_, of_decide_eq_true hok,
    Option.isNone_iff_eq_none.mp hnone⟩
  rw [hserved.1] at hlock
  exact absurd hlock (by decide)

end MishaOS
