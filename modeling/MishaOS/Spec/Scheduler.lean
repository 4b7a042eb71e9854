import MishaOS.Spec.SchedQueue

/-!
# The scheduler

What holds of the queues and of the calls processes are in, for every
interleaving of the steps of `Native/Sched.lean`.  A process is at one place at
a time: it is ready, waits to be reaped, is held by a process that is about to
reap it, or is running.  The places are told apart by `finished`: only an
unfinished process is ready or inside a call.  There is one exception, a process
that exits while `reap_lock` is held: it waits for the lock in the ready queue.
Whether that may happen is the parameter `late` of the invariant.

## Key results

- `SchedInv.switchTask`, `SchedInv.create`, `SchedInv.exit`, `SchedInv.exitLate`, `SchedInv.check`
  to `SchedInv.reap`: what each step does to the invariant.
-/

namespace MishaOS

open Fifo

variable {late : Prop} {s s' : SchedWorld} {w' : ProcWorld} {m : SpawnMem} {l l' z z' : List Nat}
  {p q r : Nat}

/-- At most one process is in such a call: it holds `reap_lock`, or the process to reap. -/
def Frame.exclusive : Frame → Bool
  | .locked | .reap _ => true
  | _ => false

/-- A process of the ready queue waits to be neither reaped nor held.  It may have finished
    only if it has exited late. -/
structure MayRun (late : Prop) (s : SchedWorld) (z : List Nat) (p : Nat) : Prop where
  live : p ∈ s.world.live
  finished : (s.world.proc p).finished = true → late
  off : p ∉ z
  free : ∀ q ∈ s.world.live, .reap p ∉ s.frames q

/-- A process is inside calls before it has finished; if it has exited late, it is in the
    `spin_lock` of `task_exit`. -/
def InCalls (late : Prop) (s : SchedWorld) (z : List Nat) (p : Nat) : Prop :=
  (s.world.proc p).finished = false ∧ .exit ∉ s.frames p ∨
    late ∧ (s.world.proc p).finished = true ∧ s.frames p = [.exit] ∧ p ∉ z

/-- The ready queue is `l`, the reap queue `z`; a process with a frame
    `.reap r` holds `r`. -/
structure QueueInv (late : Prop) (s : SchedWorld) (l z : List Nat) : Prop where
  ready : IsQueue 0 s.world.queueNode s.world.processQueue l
  reapable : IsQueue 0 s.world.reapNode s.world.reapQueue z
  readyOk : ∀ p ∈ l, MayRun late s z p
  reapOk : ∀ p ∈ z, p ∈ s.world.live ∧ (s.world.proc p).finished = true
  offReady : ∀ p ∈ s.world.live, p ∉ l → s.world.queueNode p = ⟨0, 0⟩
  offReap : ∀ p ∈ s.world.live, p ∉ z → s.world.reapNode p = ⟨0, 0⟩
  ne : ∀ p ∈ s.world.live, p ≠ 0
  nodup : s.world.live.Nodup
  busy : ∀ p ∈ s.world.live, s.frames p ≠ [] → InCalls late s z p
  once : ∀ p ∈ s.world.live, ∀ q ∈ s.world.live, ∀ f : Frame, f.exclusive = true →
    f ∈ s.frames p → f ∈ s.frames q → p = q ∧ (s.frames p).count f = 1
  held : ∀ p ∈ s.world.live, ∀ r, .reap r ∈ s.frames p →
    r ∈ s.world.live ∧ (s.world.proc r).finished = true ∧ r ∉ z
  locked : ∀ p ∈ s.world.live, .locked ∈ s.frames p → s.world.reapLock = true ∧ z ≠ []

/-- A finished process goes on running only when there is no other. -/
structure SchedInv (late : Prop) (s : SchedWorld) (l z : List Nat) : Prop
    extends QueueInv late s l z where
  current : s.current ∈ s.world.live
  away : s.current ∉ l
  rest : (s.world.proc s.current).finished = true → s.current ∈ z ∧ l = []
  started : (s.world.proc s.current).started = true

/-! ## Changing one part -/

/-- A step that is no call of the process leaves it ready. -/
theorem MayRun.congr (h : MayRun late s z p) (hlive : p ∈ s'.world.live)
    (hfin : (s'.world.proc p).finished = (s.world.proc p).finished) (hz : p ∈ z' → p ∈ z)
    (hfree : ∀ q ∈ s'.world.live, .reap p ∈ s'.frames q →
      q ∈ s.world.live ∧ .reap p ∈ s.frames q) : MayRun late s' z' p where
  live := hlive
  finished hf := h.finished (hfin.symm.trans hf)
  off := mt hz h.off
  free q hq hmem := by
    obtain ⟨hq, hmem⟩ := hfree q hq hmem
    exact h.free q hq hmem

/-- A process with the same flag and frames is in the same calls. -/
theorem InCalls.congr (h : InCalls late s z p)
    (hfin : (s'.world.proc p).finished = (s.world.proc p).finished)
    (hframes : s'.frames p = s.frames p) (hz : p ∈ z' → p ∈ z) : InCalls late s' z' p := by
  unfold InCalls
  rw [hfin, hframes]
  exact h.imp_right fun ⟨hlate, hf, hexit, hoff⟩ => ⟨hlate, hf, hexit, mt hz hoff⟩

/-- An unfinished process is not in the `spin_lock` of `task_exit`. -/
theorem InCalls.exit_notMem (h : InCalls late s z p) (hfin : (s.world.proc p).finished = false) :
    .exit ∉ s.frames p := by
  rcases h with ⟨-, hexit⟩ | ⟨-, hf, -⟩
  · exact hexit
  · exact absurd (hf.symm.trans hfin) (by simp)

/-- An unfinished process outside the queues is ready. -/
theorem QueueInv.mayRun (h : QueueInv late s l z) (hp : p ∈ s.world.live)
    (hfin : (s.world.proc p).finished = false) : MayRun late s z p where
  live := hp
  finished hf := absurd (hf.symm.trans hfin) (by simp)
  off hz := absurd ((h.reapOk p hz).2.symm.trans hfin) (by simp)
  free q hq hmem := absurd ((h.held q hq p hmem).2.1.symm.trans hfin) (by simp)

/-- Where nobody exits late, the ready processes have not finished. -/
theorem QueueInv.unfinished (h : QueueInv False s l z) (hp : p ∈ l) :
    (s.world.proc p).finished = false := by
  cases hf : (s.world.proc p).finished with
  | false => rfl
  | true => exact ((h.readyOk p hp).finished hf).elim

/-- A process that is about to be reaped is not the current one. -/
theorem SchedInv.held_ne (h : SchedInv late s l z) (hp : p ∈ s.world.live)
    (hmem : .reap r ∈ s.frames p) :
    r ≠ s.current := by
  rintro rfl
  obtain ⟨-, hfin, hz⟩ := h.held p hp s.current hmem
  exact hz (h.rest hfin).1

/-- A step off the queues keeps them. -/
theorem QueueInv.congr (h : QueueInv late s l z) (hw : SchedEq s.world w')
    (hlive : w'.live = s.world.live) :
    QueueInv late { s with world := w' } l z where
  ready := by
    -- every field only looks at the queues, the flags and the live processes
    rw [hw.queueNode, hw.processQueue]
    exact h.ready
  reapable := by
    rw [hw.reapNode, hw.reapQueue]
    exact h.reapable
  readyOk p hp := (h.readyOk p hp).congr (hlive ▸ (h.readyOk p hp).live) (hw.finished p) id
    fun _ hq hmem => ⟨hlive ▸ hq, hmem⟩
  reapOk p hp := ⟨hlive ▸ (h.reapOk p hp).1, (hw.finished p).trans (h.reapOk p hp).2⟩
  offReady p hp hl := by
    rw [hw.queueNode]
    exact h.offReady p (hlive ▸ hp) hl
  offReap p hp hz := by
    rw [hw.reapNode]
    exact h.offReap p (hlive ▸ hp) hz
  ne p hp := h.ne p (hlive ▸ hp)
  nodup := hlive ▸ h.nodup
  busy p hp hne := (h.busy p (hlive ▸ hp) hne).congr (hw.finished p) rfl id
  once p hp q hq := h.once p (hlive ▸ hp) q (hlive ▸ hq)
  held p hp r hmem := by
    obtain ⟨h₁, h₂, h₃⟩ := h.held p (hlive ▸ hp) r hmem
    exact ⟨hlive ▸ h₁, (hw.finished r).trans h₂, h₃⟩
  locked p hp hmem := by
    rw [hw.reapLock]
    exact h.locked p (hlive ▸ hp) hmem

/-- It keeps the current process as well. -/
theorem SchedInv.congr (h : SchedInv late s l z) (hw : SchedEq s.world w')
    (hlive : w'.live = s.world.live) :
    SchedInv late { s with world := w' } l z where
  toQueueInv := h.toQueueInv.congr hw hlive
  current := by
    simp only [SchedWorld.current, hw.currentProcess, hlive]
    exact h.current
  away := by
    simp only [SchedWorld.current, hw.currentProcess]
    exact h.away
  rest := by
    simp only [SchedWorld.current, hw.currentProcess, hw.finished]
    exact h.rest
  started := by
    simp only [SchedWorld.current, hw.currentProcess, hw.started]
    exact h.started

/-- The queues do not ask which processes have run before. -/
theorem QueueInv.fresh (h : QueueInv late s l z) (hw : s'.world = s.world)
    (hf : s'.frames = s.frames) : QueueInv late s' l z := by
  obtain ⟨world, frames, fresh⟩ := s'
  obtain ⟨rfl, rfl⟩ : world = s.world ∧ frames = s.frames := ⟨hw, hf⟩
  exact { h with
    readyOk := fun p hp => (h.readyOk p hp).congr (h.readyOk p hp).live rfl id fun _ hq hmem =>
      ⟨hq, hmem⟩ }

/-- The calls a process is in change, without a new exclusive one. -/
theorem QueueInv.setFrames {fs : List Frame} (h : QueueInv late s l z) (hp : p ∈ s.world.live)
    (hcount : ∀ f : Frame, f.exclusive = true → fs.count f ≤ (s.frames p).count f)
    (hbusy : fs ≠ [] → (s.world.proc p).finished = false ∧ .exit ∉ fs) :
    QueueInv late (s.setFrames p fs) l z := by
  have hframes : ∀ q, q ≠ p → (s.setFrames p fs).frames q = s.frames q := fun q hq => by
    simp [SchedWorld.setFrames, hq]
  have hself : (s.setFrames p fs).frames p = fs := by simp [SchedWorld.setFrames]
  -- no call is entered for the first time
  have hmem : ∀ q f, f.exclusive = true → f ∈ (s.setFrames p fs).frames q → f ∈ s.frames q := by
    intro q f hf hmem
    rcases eq_or_ne q p with rfl | hq
    · rw [hself] at hmem
      have hpos := List.count_pos_iff.mpr hmem
      have := hcount f hf
      exact List.count_pos_iff.mp (by omega)
    · rwa [hframes q hq] at hmem
  refine { h with readyOk := ?_, busy := ?_, once := ?_, held := ?_, locked := ?_ }
  · exact fun q hq => (h.readyOk q hq).congr (h.readyOk q hq).live rfl id
      fun a ha hr => ⟨ha, hmem a _ rfl hr⟩
  · intro q hq hne
    rcases eq_or_ne q p with rfl | hqp
    · rw [hself] at hne
      have hfs := hbusy hne
      rw [← hself] at hfs
      exact .inl hfs
    · rw [hframes q hqp] at hne
      exact (h.busy q hq hne).congr rfl (hframes q hqp) id
  · intro a ha b hb f hf hfa hfb
    obtain ⟨hab, hone⟩ := h.once a ha b hb f hf (hmem a f hf hfa) (hmem b f hf hfb)
    refine ⟨hab, ?_⟩
    -- `p` was in the call before, so it is the only one
    rcases eq_or_ne a p with rfl | hap
    · rw [hself] at hfa ⊢
      have hpos := List.count_pos_iff.mpr hfa
      have := hcount f hf
      omega
    · rwa [hframes a hap]
  · exact fun q hq r hr => h.held q hq r (hmem q _ rfl hr)
  · exact fun q hq hr => h.locked q hq (hmem q _ rfl hr)

/-- Scheduling fields other than the ready queue are untouched. -/
theorem SchedOnly.reap_eq {w : ProcWorld} (h : SchedOnly w w') :
    w'.reapNode = w.reapNode ∧ w'.reapQueue = w.reapQueue ∧ w'.reapLock = w.reapLock ∧
      w'.live = w.live := by
  obtain ⟨-, a, b, c, d, e, rfl⟩ := h
  exact ⟨rfl, rfl, rfl, rfl⟩

/-- Scheduling renumbers no process. -/
theorem SchedOnly.id_eq {w : ProcWorld} (h : SchedOnly w w') (p : Nat) :
    (w'.proc p).id = (w.proc p).id := by
  obtain ⟨a, b, h⟩ := h.flags p
  rw [h]

/-- The ready queue is replaced by another one of processes that may run. -/
theorem QueueInv.replace (h : QueueInv late s l z) (hw : SchedOnly s.world w')
    (hready : IsQueue 0 w'.queueNode w'.processQueue l')
    (hl : ∀ p ∈ l', MayRun late s z p)
    (hoff : ∀ p ∈ s.world.live, p ∉ l' → w'.queueNode p = ⟨0, 0⟩) :
    QueueInv late { s with world := w' } l' z := by
  -- the reap queue and its lock are not touched
  obtain ⟨hnode, hqueue, hlock, hlive⟩ := hw.reap_eq
  have hfin := hw.flags.finished
  constructor
  · exact hready
  · rw [hnode, hqueue]
    exact h.reapable
  · exact fun p hp => (hl p hp).congr (hlive ▸ (hl p hp).live) (hfin p) id
      fun q hq hmem => ⟨hlive ▸ hq, hmem⟩
  · exact fun p hp => ⟨hlive ▸ (h.reapOk p hp).1, (hfin p).trans (h.reapOk p hp).2⟩
  · exact fun p hp => hoff p (hlive ▸ hp)
  · intro p hp hz
    rw [hnode]
    exact h.offReap p (hlive ▸ hp) hz
  · exact fun p hp => h.ne p (hlive ▸ hp)
  · exact hlive ▸ h.nodup
  · exact fun p hp hne => (h.busy p (hlive ▸ hp) hne).congr (hfin p) rfl id
  · exact fun p hp q hq => h.once p (hlive ▸ hp) q (hlive ▸ hq)
  · intro p hp r hmem
    obtain ⟨h₁, h₂, h₃⟩ := h.held p (hlive ▸ hp) r hmem
    exact ⟨hlive ▸ h₁, (hfin r).trans h₂, h₃⟩
  · intro p hp hmem
    rw [hlock]
    exact h.locked p (hlive ▸ hp) hmem

/-- `make_process_ready` links its process behind the last one. -/
theorem makeProcessReady_queue {w : ProcWorld} (hp : p ≠ 0) :
    (makeProcessReady w p).queueNode = (push 0 w.queueNode w.processQueue p).1 ∧
      (makeProcessReady w p).processQueue = (push 0 w.queueNode w.processQueue p).2 ∧
      (makeProcessReady w p).currentProcess = w.currentProcess := by
  rw [makeProcessReady, if_neg hp]
  exact ⟨rfl, rfl, rfl⟩

/-- A process that may run is queued. -/
theorem QueueInv.makeProcessReady (h : QueueInv late s l z) (hl : p ∉ l)
    (hmay : MayRun late s z p) :
    QueueInv late { s with world := makeProcessReady s.world p } (l ++ [p]) z := by
  have hp := hmay.live
  have hp0 := h.ne p hp
  obtain ⟨hnode, hqueue, -⟩ := makeProcessReady_queue (w := s.world) hp0
  apply h.replace (makeProcessReady_only s.world p)
  · rw [hnode, hqueue]
    exact h.ready.push hl hp0 (h.offReady p hp hl)
  · intro q hq
    rcases List.mem_append.mp hq with hq | hq
    · exact h.readyOk q hq
    · obtain rfl := List.mem_singleton.mp hq
      exact hmay
  · intro q hq hql
    simp only [List.mem_append, List.mem_singleton, not_or] at hql
    rw [hnode, h.ready.push_off hql.2 hql.1]
    exact h.offReady q hq hql.1

/-! ## Switching -/

/-- What a switch does: the first unfinished process of the ready queue runs, inside the
    loop over the reap queue if it has run before. -/
structure Switched (late : Prop) (s s' : SchedWorld) (l z : List Nat) : Prop where
  inv : SchedInv late s' l z
  only : SchedOnly s.world s'.world
  dir : s'.world.paging.currentPageDirectory = (s.world.proc s'.current).pageDirectory
  frames : ∀ p, s'.frames p = s.frames p ∨ p = s'.current ∧ s'.frames p = .check :: s.frames p

/-- The ready queue up to its first unfinished process. -/
theorem SchedWorld.split_unfinished (s : SchedWorld)
    (hsome : ∃ p ∈ l, (s.world.proc p).finished = false) :
    ∃ k q l', l = k ++ q :: l' ∧ (∀ p ∈ k, (s.world.proc p).finished = true) ∧
      (s.world.proc q).finished = false := by
  have hfind : (l.find? fun p => !(s.world.proc p).finished).isSome := by
    rw [List.find?_isSome]
    simpa using hsome
  obtain ⟨q, hq⟩ := Option.isSome_iff_exists.mp hfind
  obtain ⟨hfin, k, l', hl, hk⟩ := List.find?_eq_some_iff_append.mp hq
  exact ⟨k, q, l', hl, by simpa using hk, by simpa using hfin⟩

/-- The process that `switch_next` has taken continues. -/
theorem QueueInv.resume {k : List Nat} (h : QueueInv late s (k ++ q :: l) z)
    (hqfin : (s.world.proc q).finished = false) (hsw : SwitchedTo s.world w' k q l) :
    Switched late s (s.resume w') l z := by
  have hqlive := (h.readyOk q (by simp)).live
  have hcur : (s.resume w').current = q := hsw.current
  obtain ⟨hql, -⟩ := List.nodup_cons.mp (List.nodup_append.mp h.ready.nodup).2.1
  have hinv : QueueInv late { s with world := w' } l z := by
    apply h.replace hsw.only hsw.ready
    · exact fun p hp => h.readyOk p (by simp [hp])
    · intro p hp hpl
      -- a process that has been taken from the queue, or one that was not there
      by_cases hpk : p ∈ k ++ [q]
      · exact hsw.cleared p hpk
      · have hmem : p ∉ k ++ q :: l := by simpa [hpl] using hpk
        rw [hsw.off p hmem]
        exact h.offReady p hp hmem
  have hlive := hsw.only.reap_eq.2.2.2
  have hfin : (w'.proc q).finished = false := (hsw.only.flags.finished q).trans hqfin
  -- the loop over the reap queue is entered by a process that has run before
  have hframes : (s.resume w').frames = s.frames ∨
      (s.resume w').frames = Function.update s.frames q (.check :: s.frames q) := by
    unfold SchedWorld.resume
    rw [hsw.current]
    by_cases hf : s.fresh q = true
    · left
      simp [hf]
    · right
      simp [hf]
  have hq : QueueInv late (s.resume w') l z := by
    rcases hframes with hf | hf
    · exact hinv.fresh rfl hf
    · have hset : QueueInv late (({ s with world := w' } : SchedWorld).setFrames q
          (.check :: s.frames q)) l z := by
        apply hinv.setFrames (hlive ▸ hqlive)
        · rintro (_ | _ | _ | _ | _) hf <;> simp [Frame.exclusive] at hf ⊢
        · intro _
          refine ⟨hfin, ?_⟩
          by_cases hnil : s.frames q = []
          · simp [hnil]
          · simpa using (h.busy q hqlive hnil).exit_notMem hqfin
      exact hset.fresh rfl hf
  refine ⟨{ hq with current := ?_, away := ?_, rest := ?_, started := ?_ }, hsw.only, ?_, ?_⟩
  · rw [hcur]
    exact hlive ▸ hqlive
  · rwa [hcur]
  · rw [hcur]
    intro hfin'
    exact absurd (hfin'.symm.trans hfin) (by simp)
  · rw [hcur]
    exact hsw.started
  · rw [hcur]
    exact hsw.dir
  · intro p
    rcases hframes with hf | hf
    · exact .inl (by rw [hf])
    · rcases eq_or_ne p q with rfl | hpq
      · exact .inr ⟨hcur.symm, by rw [hf, Function.update_self]⟩
      · exact .inl (by rw [hf, Function.update_of_ne hpq])

/-- `switch_next`, with an unfinished process in the ready queue. -/
theorem QueueInv.switchNext (h : QueueInv late s l z)
    (hsome : ∃ p ∈ l, (s.world.proc p).finished = false)
    (hs : s.switch (switchNext walkFuel) = some s') :
    ∃ k l', l = k ++ s'.current :: l' ∧ (∀ p ∈ k, (s.world.proc p).finished = true) ∧
      Switched late s s' l' z := by
  obtain ⟨k, q, l', rfl, hk, hqfin⟩ := s.split_unfinished hsome
  rw [SchedWorld.switch, if_pos ((processAvailable_iff h.ready).mpr (by simp))] at hs
  obtain ⟨w', hw', rfl⟩ := Option.map_eq_some_iff.mp hs
  have hsw := switchNext_spec h.ready hk hqfin hw'
  have hcur : (s.resume w').current = q := hsw.current
  exact ⟨k, l', by rw [hcur], hk, h.resume hqfin hsw⟩

/-- Without a ready process `switch_next` and `switch_task` return. -/
theorem QueueInv.switch_nil (h : QueueInv late s [] z) {f : ProcWorld → Option ProcWorld}
    (hf : processAvailable s.world = false → f s.world = some s.world) (hs : s.switch f = some s') :
    s' = s := by
  have havail : ¬ processAvailable s.world = true :=
    fun ha => (processAvailable_iff h.ready).mp ha rfl
  rw [SchedWorld.switch, if_neg havail, hf (by simpa using havail)] at hs
  exact (Option.some.inj hs).symm

/-- `switch_next` with nothing ready. -/
theorem switchNext_of_empty {n : Nat} {w : ProcWorld} (h : processAvailable w = false) :
    switchNext (n + 1) w = some w := by
  rw [switchNext, if_neg (by simp [h])]

/-- `switch_task(1)` with nothing ready. -/
theorem switchTask_of_empty {w : ProcWorld} (h : processAvailable w = false) :
    switchTask w true = some w := by
  unfold switchTask
  simp [h]

/-- `switch_next`, where nobody exits late: it returns, or another process runs. -/
theorem QueueInv.switchNext_or (h : QueueInv False s l z)
    (hs : s.switch (MishaOS.switchNext walkFuel) = some s') :
    s' = s ∨ ∃ l', Switched False s s' l' z := by
  cases l with
  | nil => exact .inl (h.switch_nil (switchNext_of_empty (n := 4294967295)) hs)
  | cons q l =>
    obtain ⟨-, l', -, -, hsw⟩ := h.switchNext ⟨q, by simp, h.unfinished (by simp)⟩ hs
    exact .inr ⟨l', hsw⟩

/-- `switch_task(1)` queues the current process and takes the first unfinished one. -/
theorem QueueInv.switchTask (h : QueueInv late s l z) (hmay : MayRun late s z s.current)
    (haway : s.current ∉ l) (hstarted : (s.world.proc s.current).started = true) (hl : l ≠ [])
    (hsome : ∃ p ∈ l ++ [s.current], (s.world.proc p).finished = false)
    (hs : s.switch (fun w => switchTask w true) = some s') :
    ∃ k l', l ++ [s.current] = k ++ s'.current :: l' ∧
      (∀ p ∈ k, (s.world.proc p).finished = true) ∧ Switched late s s' l' z := by
  have hcur0 : s.world.currentProcess ≠ 0 := h.ne _ hmay.live
  have havail := (processAvailable_iff h.ready).mpr hl
  rw [SchedWorld.switch, if_pos havail] at hs
  rw [switchTask_eq havail hcur0 hstarted] at hs
  set w₁ := s.world.setProc s.world.currentProcess { s.world.current with started := false }
    with hw₁
  have honly : SchedOnly s.world w₁ := .setStarted s.world s.current
  have hflag := honly.flags.finished
  have h₁ : QueueInv late { s with world := w₁ } l z :=
    h.replace honly h.ready h.readyOk h.offReady
  have h₂ := h₁.makeProcessReady (p := s.current) haway
    (hmay.congr hmay.live (hflag s.current) id fun q hq hmem => ⟨hq, hmem⟩)
  -- behind `make_process_ready` the queue is not empty
  have hnext : SchedWorld.switch { s with world := MishaOS.makeProcessReady w₁ s.current }
      (MishaOS.switchNext walkFuel) = some s' := by
    rw [SchedWorld.switch, if_pos ((processAvailable_iff h₂.ready).mpr (by simp))]
    exact hs
  have hall := honly.trans (makeProcessReady_only w₁ s.current)
  have hfin := hall.flags.finished
  obtain ⟨k, l', heq, hk, hsw⟩ := h₂.switchNext
    (by simpa only [hfin] using hsome) hnext
  -- neither the queue nor the flags name a page directory
  refine ⟨k, l', heq, fun p hp => (hfin p).symm.trans (hk p hp), hsw.inv, hall.trans hsw.only, ?_,
    hsw.frames⟩
  obtain ⟨a, b, hproc⟩ := hall.flags s'.current
  rw [hsw.dir, hproc]

/-- The current process goes on as long as it is the only one; it has not finished otherwise. -/
theorem SchedInv.unfinished (h : SchedInv late s l z) (hl : l ≠ []) :
    (s.world.proc s.current).finished = false := by
  cases hf : (s.world.proc s.current).finished with
  | false => rfl
  | true => exact absurd (h.rest hf).2 hl

/-- `switch_task(1)` of a process that goes on. -/
theorem SchedInv.switchTask (h : SchedInv late s l z)
    (hs : s.switch (fun w => switchTask w true) = some s') :
    l = [] ∧ s' = s ∨ ∃ k l', l ++ [s.current] = k ++ s'.current :: l' ∧
      (∀ p ∈ k, (s.world.proc p).finished = true) ∧ Switched late s s' l' z := by
  -- with nothing ready the current process goes on
  by_cases hl : l = []
  · subst hl
    exact .inl ⟨rfl, h.toQueueInv.switch_nil switchTask_of_empty hs⟩
  · have hfin := h.unfinished hl
    exact .inr (h.toQueueInv.switchTask (h.mayRun h.current hfin) h.away h.started hl
      ⟨s.current, by simp, hfin⟩ hs)

/-! ## Creating a process -/

/-- A new process is queued behind the ready ones. -/
theorem SchedInv.create {w₁ : ProcWorld} (h : SchedInv late s l z)
    (hfin : (s.world.proc s.current).finished = false)
    (hp0 : p ≠ 0) (hp : p ∉ s.world.live) (hc : SchedCreated s.world w₁ p) :
    SchedInv late (s.create p (makeProcessReady w₁ p)) (l ++ [p]) z := by
  have hne : ∀ q ∈ s.world.live, q ≠ p := fun q hq e => hp (e ▸ hq)
  have hframes : ∀ q, q ≠ p → (s.create p w₁).frames q = s.frames q := fun q hq => by
    simp [SchedWorld.create, hq]
  have hself : (s.create p w₁).frames p = [] := by simp [SchedWorld.create]
  have hold : ∀ q ∈ w₁.live, q ≠ p → q ∈ s.world.live := fun q hq hqp =>
    (List.mem_cons.mp (hc.live ▸ hq)).resolve_left hqp
  have hnew : ∀ q ∈ s.world.live, q ∈ w₁.live := fun q hq => hc.live ▸ List.mem_cons_of_mem _ hq
  -- only the old processes are inside calls
  have hmem : ∀ q ∈ w₁.live, ∀ f, f ∈ (s.create p w₁).frames q → q ∈ s.world.live ∧
      f ∈ s.frames q := by
    intro q hq f hf
    rcases eq_or_ne q p with rfl | hqp
    · simp [hself] at hf
    · rw [hframes q hqp] at hf
      exact ⟨hold q hq hqp, hf⟩
  have h₁ : QueueInv late (s.create p w₁) l z := by
    constructor
    · show IsQueue 0 w₁.queueNode w₁.processQueue l
      rw [hc.queueNode, hc.processQueue]
      exact h.ready.congr fun q hq => Function.update_of_ne (hne q (h.readyOk q hq).live) _ _
    · show IsQueue 0 w₁.reapNode w₁.reapQueue z
      rw [hc.reapNode, hc.reapQueue]
      exact h.reapable.congr fun q hq => Function.update_of_ne (hne q (h.reapOk q hq).1) _ _
    -- an old process has the flags it had
    · intro q hq
      have hlive := (h.readyOk q hq).live
      exact (h.readyOk q hq).congr (hnew q hlive) (hc.finished q (hne q hlive)) id
        fun a ha hr => hmem a ha _ hr
    · intro q hq
      obtain ⟨hlive, hf⟩ := h.reapOk q hq
      exact ⟨hnew q hlive, (hc.finished q (hne q hlive)).trans hf⟩
    -- the nodes of the new process are empty, the others are not touched
    · intro q hq hql
      show w₁.queueNode q = _
      rw [hc.queueNode]
      rcases eq_or_ne q p with rfl | hqp
      · exact Function.update_self ..
      · rw [Function.update_of_ne hqp]
        exact h.offReady q (hold q hq hqp) hql
    · intro q hq hqz
      show w₁.reapNode q = _
      rw [hc.reapNode]
      rcases eq_or_ne q p with rfl | hqp
      · exact Function.update_self ..
      · rw [Function.update_of_ne hqp]
        exact h.offReap q (hold q hq hqp) hqz
    · intro q hq
      rcases eq_or_ne q p with rfl | hqp
      · exact hp0
      · exact h.ne q (hold q hq hqp)
    · show w₁.live.Nodup
      rw [hc.live]
      exact List.nodup_cons.mpr ⟨hp, h.nodup⟩
    · intro q hq hbusy
      rcases eq_or_ne q p with rfl | hqp
      · exact absurd hself hbusy
      · rw [hframes q hqp] at hbusy
        exact (h.busy q (hold q hq hqp) hbusy).congr (hc.finished q hqp) (hframes q hqp) id
    · intro a ha b hb f hf hfa hfb
      obtain ⟨ha, hfa⟩ := hmem a ha _ hfa
      obtain ⟨hb, hfb⟩ := hmem b hb _ hfb
      rw [hframes a (hne a ha)]
      exact h.once a ha b hb f hf hfa hfb
    · intro q hq r hr
      obtain ⟨hq, hr⟩ := hmem q hq _ hr
      obtain ⟨h₁, h₂, h₃⟩ := h.held q hq r hr
      exact ⟨hnew r h₁, (hc.finished r (hne r h₁)).trans h₂, h₃⟩
    · intro q hq hlock
      obtain ⟨hq, hlock⟩ := hmem q hq _ hlock
      show w₁.reapLock = true ∧ z ≠ []
      rw [hc.reapLock]
      exact h.locked q hq hlock
  have hplive : p ∈ w₁.live := by simp [hc.live]
  -- the new process is put behind the others
  have h₂ := h₁.makeProcessReady (fun hmem => hp (h.readyOk p hmem).live)
    (h₁.mayRun hplive hc.new)
  have honly := makeProcessReady_only w₁ p
  have hcur : (s.create p (makeProcessReady w₁ p)).current = s.current :=
    (makeProcessReady_queue (w := w₁) hp0).2.2.trans hc.currentProcess
  have hcurp := hne _ h.current
  refine { h₂ with current := ?_, away := ?_, rest := ?_, started := ?_ }
  · rw [hcur]
    show s.current ∈ (makeProcessReady w₁ p).live
    rw [honly.reap_eq.2.2.2]
    exact hnew _ h.current
  · rw [hcur]
    simp only [List.mem_append, List.mem_singleton, not_or]
    exact ⟨h.away, hcurp⟩
  · rw [hcur]
    intro hf
    have hfalse := ((honly.flags.finished s.current).trans (hc.finished _ hcurp)).trans hfin
    exact absurd (hf.symm.trans hfalse) (by simp)
  · rw [hcur]
    show ((makeProcessReady w₁ p).proc s.current).started = true
    have hproc : (makeProcessReady w₁ p).proc s.current = w₁.proc s.current := by
      rw [makeProcessReady, if_neg hp0]
      exact Function.update_of_ne hcurp _ _
    rw [hproc, hc.started _ hcurp]
    exact h.started

/-! ## Exit -/

/-- `current_process->status = r`, then `current_process->finished = 1`. -/
def SchedWorld.stop (s : SchedWorld) (status : BitVec 8) : SchedWorld :=
  { s with world := s.world.setProc s.current { s.world.current with
      status := status, finished := true } }

section

variable {status : BitVec 8}

/-- The other processes are as before. -/
theorem SchedWorld.stop_ne (hp : p ≠ s.current) :
    (s.stop status).world.proc p = s.world.proc p := by
  simp [SchedWorld.stop, ProcWorld.setProc, hp]

/-- The caller has the two fields written. -/
theorem SchedWorld.stop_self :
    (s.stop status).world.proc s.current = { s.world.proc s.current with
      status := status, finished := true } := by
  simp [SchedWorld.stop, ProcWorld.setProc, ProcWorld.current, SchedWorld.current]

/-- It keeps its number. -/
theorem SchedWorld.stop_id (s : SchedWorld) (status : BitVec 8) (p : Nat) :
    ((s.stop status).world.proc p).id = (s.world.proc p).id := by
  rcases eq_or_ne p s.current with rfl | hne
  · rw [SchedWorld.stop_self]
  · rw [SchedWorld.stop_ne hne]

/-- The process that has stopped is put into the reap queue. -/
theorem SchedInv.finish (h : SchedInv late s l z)
    (hfin : (s.world.proc s.current).finished = false) (hidle : s.frames s.current = [])
    (hw : makeProcessReapable (s.stop status).world s.current = some w') :
    QueueInv late (({ s with world := w' } : SchedWorld).setFrames s.current []) l
        (z ++ [s.current]) ∧
      w'.currentProcess = s.current ∧ (w'.proc s.current).finished = true ∧
      (w'.proc s.current).started = true ∧ w'.live = s.world.live ∧
      ∀ p, (w'.proc p).id = (s.world.proc p).id ∧ (p ≠ s.current → w'.proc p = s.world.proc p) := by
  have hcur0 : s.current ≠ 0 := h.ne _ h.current
  -- a finished process is on the reap queue, an unfinished one is not
  have hz : s.current ∉ z := (h.mayRun h.current hfin).off
  rw [makeProcessReapable, if_neg hcur0] at hw
  split at hw
  · simp at hw
  obtain rfl := Option.some.inj hw
  have hframes : ∀ f : Nat → List Frame, Function.update f s.current [] = f ↔ f s.current = [] := by
    intro f
    rw [Function.update_eq_self_iff]
    exact eq_comm
  have hself : (s.stop status).world.proc s.current = { s.world.proc s.current with
      status := status, finished := true } := SchedWorld.stop_self
  have hproc : ∀ p, p ≠ s.current → (s.stop status).world.proc p = s.world.proc p :=
    fun p hp => SchedWorld.stop_ne hp
  refine ⟨?_, rfl, congrArg Process.finished hself, ?_, rfl, ?_⟩
  · rw [SchedWorld.setFrames]
    simp only [(hframes s.frames).mpr hidle]
    -- only the reap queue and the flag of the current process are new
    constructor
    · exact h.ready
    · exact h.reapable.push hz hcur0 (h.offReap _ h.current hz)
    · intro p hp
      have hne : p ≠ s.current := fun e => h.away (e ▸ hp)
      exact (h.readyOk p hp).congr (h.readyOk p hp).live (congrArg Process.finished (hproc p hne))
        (by simp [hne]) fun q hq hmem => ⟨hq, hmem⟩
    · intro p hp
      -- on the reap queue: the old ones, and the one that has just finished
      rcases List.mem_append.mp hp with hp | hp
      · have hne : p ≠ s.current := fun e => hz (e ▸ hp)
        exact ⟨(h.reapOk p hp).1,
          (congrArg Process.finished (hproc p hne)).trans (h.reapOk p hp).2⟩
      · obtain rfl := List.mem_singleton.mp hp
        exact ⟨h.current, congrArg Process.finished hself⟩
    · exact h.offReady
    · intro p hp hpz
      simp only [List.mem_append, List.mem_singleton, not_or] at hpz
      have hoff := h.reapable.push_off hpz.2 hpz.1
      exact hoff.trans (h.offReap p hp hpz.1)
    · exact h.ne
    · exact h.nodup
    · intro p hp hbusy
      have hne : p ≠ s.current := fun e => hbusy (e ▸ hidle)
      exact (h.busy p hp hbusy).congr (congrArg Process.finished (hproc p hne)) rfl (by simp [hne])
    · exact h.once
    · intro p hp r hr
      have hne := h.held_ne hp hr
      obtain ⟨h₁, h₂, h₃⟩ := h.held p hp r hr
      refine ⟨h₁, (congrArg Process.finished (hproc r hne)).trans h₂, ?_⟩
      -- what is held by another process was not finished here
      simp [h₃, hne]
    · intro p hp hlock
      exact ⟨(h.locked p hp hlock).1, by simp⟩
  · exact (congrArg Process.started hself).trans h.started
  · exact fun p => ⟨s.stop_id status p, hproc p⟩

/-- What `task_exit` does to the processes: the caller has finished, and no other one that
    was ready is lost. -/
structure Exited (s s' : SchedWorld) (l l' : List Nat) : Prop where
  live : s'.world.live = s.world.live
  done : (s'.world.proc s.current).finished = true
  id : ∀ p, (s'.world.proc p).id = (s.world.proc p).id
  others : ∀ p, p ≠ s.current → (s'.world.proc p).finished = (s.world.proc p).finished
  kept : ∀ p ∈ l, (s.world.proc p).finished = false → p = s'.current ∨ p ∈ l'

/-- `task_exit` with `reap_lock` free. -/
theorem SchedInv.exit (h : SchedInv late s l z)
    (hfin : (s.world.proc s.current).finished = false) (hidle : s.frames s.current = [])
    (hlock : s.world.reapLock = false)
    (hsome : l ≠ [] → ∃ p ∈ l, (s.world.proc p).finished = false)
    (hs : (s.stop status).leave = some s') :
    ∃ l', SchedInv late s' l' (z ++ [s.current]) ∧ Exited s s' l l' := by
  have hlock' : ¬ (s.stop status).world.reapLock = true := by
    show ¬ s.world.reapLock = true
    simp [hlock]
  rw [SchedWorld.leave, if_neg hlock'] at hs
  simp only [Option.bind_eq_bind, Option.bind_eq_some_iff] at hs
  obtain ⟨w', hw', hs⟩ := hs
  obtain ⟨hq, hcur, hdone, hstarted, hlive, hproc⟩ := h.finish hfin hidle hw'
  have hothers : ∀ p, p ≠ s.current → (w'.proc p).finished = (s.world.proc p).finished :=
    fun p hne => congrArg Process.finished ((hproc p).2 hne)
  by_cases hl : l = []
  -- nothing is ready, so the finished process stays current
  · subst hl
    obtain rfl := hq.switch_nil (switchNext_of_empty (n := 4294967295)) hs
    have hsame : ((({ s with world := w' } : SchedWorld).setFrames s.current []).current) =
        s.current := hcur
    refine ⟨[], { hq with current := ?_, away := by simp, rest := ?_, started := ?_ },
      ⟨hlive, hdone, fun p => (hproc p).1, hothers, by simp⟩⟩
    · rw [hsame]
      exact (hq.reapOk s.current (by simp)).1
    · rw [hsame]
      exact fun _ => ⟨by simp, rfl⟩
    · rw [hsame]
      exact hstarted
  -- the first unfinished process of the queue takes over
  · have hne : ∀ p ∈ l, p ≠ s.current := fun p hp e => h.away (e ▸ hp)
    obtain ⟨p, hp, hpfin⟩ := hsome hl
    obtain ⟨k, l', rfl, hk, hsw⟩ := hq.switchNext ⟨p, hp, (hothers p (hne p hp)).trans hpfin⟩ hs
    have hflag := hsw.only.flags.finished
    refine ⟨l', hsw.inv, ⟨hsw.only.reap_eq.2.2.2.trans hlive, (hflag _).trans hdone,
      fun p => (hsw.only.id_eq p).trans (hproc p).1,
      fun p hne => (hflag p).trans (hothers p hne), fun p hp hpfin => ?_⟩⟩
    have hpk : p ∉ k := fun hmem => by
      have hf := (hothers p (hne p hp)).symm.trans (hk p hmem)
      exact absurd (hf.symm.trans hpfin) (by simp)
    simpa [hpk] using hp

/-- The process that has stopped is in the `spin_lock` of `make_process_reapable`. -/
theorem SchedInv.await (h : SchedInv late s l z) (hlate : late)
    (hfin : (s.world.proc s.current).finished = false) :
    QueueInv late ((s.stop status).setFrames s.current [.exit]) l z ∧
      MayRun late ((s.stop status).setFrames s.current [.exit]) z s.current := by
  set t := (s.stop status).setFrames s.current [.exit] with ht
  have hframes : ∀ p, p ≠ s.current → t.frames p = s.frames p :=
    fun p hp => Function.update_of_ne hp _ _
  have hself : t.frames s.current = [.exit] := Function.update_self ..
  have hdone : (t.world.proc s.current).finished = true :=
    congrArg Process.finished SchedWorld.stop_self
  have hflag : ∀ p, p ≠ s.current → (t.world.proc p).finished = (s.world.proc p).finished :=
    fun p hp => congrArg Process.finished (SchedWorld.stop_ne hp)
  have hnew := h.mayRun h.current hfin
  -- whoever is in another call has been in it before
  have hmem : ∀ p f, f ≠ .exit → f ∈ t.frames p → p ≠ s.current ∧ f ∈ s.frames p := by
    intro p f hf hp
    have hne : p ≠ s.current := by
      rintro rfl
      rw [hself] at hp
      exact hf (List.mem_singleton.mp hp)
    exact ⟨hne, hframes p hne ▸ hp⟩
  have hexcl : ∀ f : Frame, f.exclusive = true → f ≠ .exit := by
    rintro f hf rfl
    simp [Frame.exclusive] at hf
  refine ⟨?_, h.current, fun _ => hlate, hnew.off,
    fun q hq hr => hnew.free q hq (hmem q _ (by simp) hr).2⟩
  -- the queues are the old ones, and the caller is in neither
  constructor
  · exact h.ready
  · exact h.reapable
  · intro p hp
    have hne : p ≠ s.current := fun e => h.away (e ▸ hp)
    exact (h.readyOk p hp).congr (h.readyOk p hp).live (hflag p hne) id
      fun q hq hr => ⟨hq, (hmem q _ (by simp) hr).2⟩
  · intro p hp
    have hne : p ≠ s.current := fun e => hnew.off (e ▸ hp)
    exact ⟨(h.reapOk p hp).1, (hflag p hne).trans (h.reapOk p hp).2⟩
  · exact h.offReady
  · exact h.offReap
  · exact h.ne
  · exact h.nodup
  · intro p hp hbusy
    rcases eq_or_ne p s.current with rfl | hne
    · exact .inr ⟨hlate, hdone, hself, hnew.off⟩
    · rw [hframes p hne] at hbusy
      exact (h.busy p hp hbusy).congr (hflag p hne) (hframes p hne) id
  · intro a ha b hb f hf hfa hfb
    obtain ⟨hac, hfa⟩ := hmem a f (hexcl f hf) hfa
    obtain ⟨-, hfb⟩ := hmem b f (hexcl f hf) hfb
    rw [hframes a hac]
    exact h.once a ha b hb f hf hfa hfb
  · intro p hp r hr
    obtain ⟨-, hr⟩ := hmem p _ (by simp) hr
    obtain ⟨h₁, h₂, h₃⟩ := h.held p hp r hr
    exact ⟨h₁, (hflag r (h.held_ne hp hr)).trans h₂, h₃⟩
  · exact fun p hp hlocked => h.locked p hp (hmem p _ (by simp) hlocked).2

/-- `task_exit` with `reap_lock` held: the caller waits in the ready queue. -/
theorem SchedInv.exitLate (h : SchedInv late s l z) (hlate : late)
    (hfin : (s.world.proc s.current).finished = false) (hlock : s.world.reapLock = true)
    (hsome : ∃ p ∈ l, (s.world.proc p).finished = false)
    (hs : (s.stop status).leave = some s') :
    ∃ l', SchedInv late s' l' z ∧ Exited s s' l l' := by
  have hlock' : (s.stop status).world.reapLock = true := hlock
  rw [SchedWorld.leave, if_pos hlock'] at hs
  obtain ⟨hq, hmay⟩ : QueueInv late ((s.stop status).setFrames s.current [.exit]) l z ∧
      MayRun late ((s.stop status).setFrames s.current [.exit]) z s.current := h.await hlate hfin
  have hself : (s.stop status).world.proc s.current = { s.world.proc s.current with
      status := status, finished := true } := SchedWorld.stop_self
  have hproc : ∀ p, p ≠ s.current → (s.stop status).world.proc p = s.world.proc p :=
    fun p hp => SchedWorld.stop_ne hp
  have hne : ∀ p ∈ l, p ≠ s.current := fun p hp e => h.away (e ▸ hp)
  have hold : ∀ p ∈ l, ((s.stop status).world.proc p).finished = (s.world.proc p).finished :=
    fun p hp => congrArg Process.finished (hproc p (hne p hp))
  obtain ⟨p, hp, hpfin⟩ := hsome
  obtain ⟨k, l', heq, hk, hsw⟩ := hq.switchTask hmay h.away
    ((congrArg Process.started hself).trans h.started) (List.ne_nil_of_mem hp)
    ⟨p, List.mem_append_left _ hp, (hold p hp).trans hpfin⟩ hs
  have hflag := hsw.only.flags.finished
  refine ⟨l', hsw.inv, ⟨hsw.only.reap_eq.2.2.2, (hflag _).trans (congrArg Process.finished hself),
    fun p => (hsw.only.id_eq p).trans (s.stop_id status p),
    fun p hp => (hflag p).trans (congrArg Process.finished (hproc p hp)), fun p hp hpfin => ?_⟩⟩
  -- a process that is passed over has finished
  have hpk : p ∉ k := fun hmem => by
    have hf := (hold p hp).symm.trans (hk p hmem)
    exact absurd (hf.symm.trans hpfin) (by simp)
  have hmem : p ∈ k ++ s'.current :: l' := heq ▸ List.mem_append_left _ hp
  simpa [hpk] using hmem

end

/-! ## The loop over the reap queue -/

/-- The current process goes on to another call, the queues are as before. -/
theorem SchedInv.setFrames {fs : List Frame} (h : SchedInv late s l z)
    (hcount : ∀ f : Frame, f.exclusive = true → fs.count f ≤ (s.frames s.current).count f)
    (hbusy : fs ≠ [] → (s.world.proc s.current).finished = false ∧ .exit ∉ fs) :
    SchedInv late (s.setFrames s.current fs) l z :=
  { h.toQueueInv.setFrames h.current hcount hbusy with
    current := h.current, away := h.away, rest := h.rest, started := h.started }

section

variable {fs : List Frame}

/-- `should_reap` says whether the reap queue has a process. -/
theorem shouldReap_iff (hz : IsQueue 0 s.world.reapNode s.world.reapQueue z) :
    shouldReap s.world = true ↔ z ≠ [] := by
  have hiff := not_congr hz.first_eq_null
  simpa [shouldReap] using hiff

/-- Inside a call the current process is not finished, and no call is `.exit`. -/
theorem SchedInv.busy_cons {f : Frame} (h : SchedInv late s l z)
    (hf : s.frames s.current = f :: fs) :
    (s.world.proc s.current).finished = false ∧ f ≠ .exit ∧ .exit ∉ fs := by
  rcases h.busy _ h.current (by simp [hf]) with ⟨hfin, hexit⟩ | ⟨-, hfin, -, hoff⟩
  · simp only [hf, List.mem_cons, not_or] at hexit
    exact ⟨hfin, fun e => hexit.1 e.symm, hexit.2⟩
  -- a finished process that is the current one waits to be reaped
  · exact absurd (h.rest hfin).1 hoff

/-- `while (should_reap())`, from either side. -/
theorem SchedInv.check (h : SchedInv late s l z) (hf : s.frames s.current = .check :: fs) :
    SchedInv late (s.setFrames s.current (if shouldReap s.world then .lock :: fs else fs)) l z := by
  obtain ⟨hfin, -, hexit⟩ := h.busy_cons hf
  have hcount : ∀ f : Frame, f.exclusive = true → fs.count f ≤ (s.frames s.current).count f := by
    intro f _
    rw [hf, List.count_cons]
    exact Nat.le_add_right _ _
  split
  · apply h.setFrames
    · intro f hexcl
      have hne : (Frame.lock == f) = false := by
        cases f <;> simp [Frame.exclusive] at hexcl ⊢
      rw [List.count_cons, hne]
      exact hcount f hexcl
    · exact fun _ => ⟨hfin, by simp [hexit]⟩
  · exact h.setFrames hcount fun _ => ⟨hfin, hexit⟩

/-- A call gives way to one that nobody was in. -/
theorem QueueInv.push_frame {f g : Frame} (h : QueueInv late s l z) (hp : p ∈ s.world.live)
    (hf : s.frames p = f :: fs) (hg : ∀ q ∈ s.world.live, g ∉ s.frames q) :
    (∀ q e, e ≠ g → e ∈ Function.update s.frames p (g :: fs) q → e ∈ s.frames q) ∧
    (∀ q ∈ s.world.live, g ∈ Function.update s.frames p (g :: fs) q → q = p) ∧
    ∀ a ∈ s.world.live, ∀ b ∈ s.world.live, ∀ e : Frame, e.exclusive = true →
      e ∈ Function.update s.frames p (g :: fs) a → e ∈ Function.update s.frames p (g :: fs) b →
        a = b ∧ (Function.update s.frames p (g :: fs) a).count e = 1 := by
  -- every other call was entered before
  have hold : ∀ q e, e ≠ g → e ∈ Function.update s.frames p (g :: fs) q → e ∈ s.frames q := by
    intro q e hne hmem
    rcases eq_or_ne q p with rfl | hq
    · rw [Function.update_self] at hmem
      simp [hf, (List.mem_cons.mp hmem).resolve_left hne]
    · rwa [Function.update_of_ne hq] at hmem
  have hnew : ∀ q ∈ s.world.live, g ∈ Function.update s.frames p (g :: fs) q → q = p := by
    intro q hq hmem
    by_contra hne
    rw [Function.update_of_ne hne] at hmem
    exact hg q hq hmem
  refine ⟨hold, hnew, ?_⟩
  -- for `g` the process is `p`; for another call the old facts hold
  intro a ha b hb e hexcl hea heb
  by_cases heg : e = g
  · subst heg
    have hap := hnew a ha hea
    have hbp := hnew b hb heb
    have hnone : e ∉ fs := fun hmem => hg p hp (by simp [hf, hmem])
    refine ⟨hap.trans hbp.symm, ?_⟩
    rw [hap, Function.update_self, List.count_cons_self, List.count_eq_zero.mpr hnone]
  · obtain ⟨hab, hone⟩ := h.once a ha b hb e hexcl (hold a e heg hea) (hold b e heg heb)
    refine ⟨hab, ?_⟩
    rcases eq_or_ne a p with rfl | hap
    · have hpos := List.count_pos_iff.mpr hea
      have hle : fs.count e ≤ (s.frames a).count e := by
        rw [hf, List.count_cons]
        exact Nat.le_add_right _ _
      rw [Function.update_self, List.count_cons_of_ne (Ne.symm heg)] at hpos ⊢
      omega
    · rwa [Function.update_of_ne hap]

/-- The process in the new call was in one before. -/
theorem SchedInv.push_busy {f g : Frame} (h : SchedInv late s l z)
    (hf : s.frames s.current = f :: fs) (hg : g ≠ .exit)
    (hframes : s'.frames = Function.update s.frames s.current (g :: fs))
    (hproc : s'.world.proc = s.world.proc) (hz : q ∈ z' → q ∈ z) (hq : q ∈ s.world.live)
    (hbusy : s'.frames q ≠ []) : InCalls late s' z' q := by
  rcases eq_or_ne q s.current with rfl | hne
  · obtain ⟨hfin, -, hexit⟩ := h.busy_cons hf
    refine .inl ⟨by rw [hproc, hfin], ?_⟩
    rw [hframes]
    simp [hexit, Ne.symm hg]
  · have hold : s'.frames q = s.frames q := by rw [hframes, Function.update_of_ne hne]
    rw [hold] at hbusy
    exact (h.busy q hq hbusy).congr (by rw [hproc]) hold hz

/-- `spin_lock` in `next_reapable_process`, with `reap_lock` free and a process to reap. -/
theorem SchedInv.lock (h : SchedInv late s l z) (hf : s.frames s.current = .lock :: fs)
    (hlock : s.world.reapLock = false) (hz : z ≠ []) :
    SchedInv late (({ s with world := { s.world with reapLock := true } } : SchedWorld).setFrames
      s.current (.locked :: fs)) l z := by
  have hfree : ∀ p ∈ s.world.live, .locked ∉ s.frames p := by
    intro p hp hmem
    exact absurd ((h.locked p hp hmem).1.symm.trans hlock) (by simp)
  obtain ⟨hold, -, honce⟩ := h.toQueueInv.push_frame h.current hf hfree
  exact { h with
    readyOk := fun q hq => (h.readyOk q hq).congr (h.readyOk q hq).live rfl id
      fun a ha hr => ⟨ha, hold a _ (by simp) hr⟩
    busy := fun q hq => h.push_busy hf (by simp) rfl rfl id hq
    once := honce
    held := fun q hq r hr => h.held q hq r (hold q _ (by simp) hr)
    locked := fun _ _ _ => ⟨rfl, hz⟩ }

/-- The rest of `next_reapable_process`: the first process of the reap queue is taken. -/
theorem SchedInv.take (h : SchedInv late s l z) (hf : s.frames s.current = .locked :: fs)
    (hw : nextReapableProcess { s.world with reapLock := false } = some (r, w')) :
    ∃ z', z = r :: z' ∧
      SchedInv late (({ s with world := w' } : SchedWorld).setFrames s.current (.reap r :: fs)) l
        z' ∧
      w' = { s.world with
        reapLock := false, reapNode := w'.reapNode, reapQueue := w'.reapQueue } := by
  have hmine : .locked ∈ s.frames s.current := by simp [hf]
  obtain ⟨-, hz⟩ := h.locked _ h.current hmine
  obtain ⟨a, z', rfl⟩ := List.exists_cons_of_ne_nil hz
  obtain ⟨hfirst, hclear, hpop⟩ := h.reapable.pop
  have ha0 : a ≠ 0 := h.ne a (h.reapOk a List.mem_cons_self).1
  rw [nextReapableProcess, if_neg (by simp), if_neg (by rw [hfirst]; exact ha0)] at hw
  obtain ⟨hr, rfl⟩ := Prod.mk.inj (Option.some.inj hw)
  obtain rfl : a = r := hfirst.symm.trans hr
  obtain ⟨haz, -⟩ := List.nodup_cons.mp h.reapable.nodup
  obtain ⟨halive, hafin⟩ := h.reapOk a List.mem_cons_self
  refine ⟨z', rfl, ?_, rfl⟩
  -- nobody holds a process that is queued, and `reap_lock` was this process's
  have hnohold : ∀ q ∈ s.world.live, .reap a ∉ s.frames q := fun q hq hmem =>
    (h.held q hq a hmem).2.2 List.mem_cons_self
  obtain ⟨hold, -, honce⟩ := h.toQueueInv.push_frame h.current hf hnohold
  have hnolock : ∀ q ∈ s.world.live, .locked ∉
      Function.update s.frames s.current (.reap a :: fs) q := by
    intro q hq hmem
    obtain ⟨rfl, hone⟩ := h.once q hq _ h.current _ rfl (hold q _ (by simp) hmem) hmine
    rw [Function.update_self] at hmem
    have hmem : .locked ∈ fs := by simpa using hmem
    have hpos := List.count_pos_iff.mpr hmem
    rw [hf, List.count_cons_self] at hone
    omega
  have hsub : ∀ p, p ∈ z' → p ∈ a :: z' := fun _ => List.mem_cons_of_mem a
  refine { h with
    reapable := hpop, readyOk := ?_, reapOk := ?_, offReap := ?_, busy := ?_, once := honce,
    held := ?_, locked := ?_, rest := ?_ }
  -- a ready process was not in the reap queue, so it is not the one that is held now
  · intro p hp
    have hpa : p ≠ a := fun e => (h.readyOk p hp).off (by simp [e])
    exact (h.readyOk p hp).congr (h.readyOk p hp).live rfl (hsub p)
      fun q hq hr => ⟨hq, hold q _ (by simpa using hpa) hr⟩
  · exact fun p hp => h.reapOk p (hsub p hp)
  · intro p hp hpz
    rcases eq_or_ne p a with rfl | hne
    · exact hclear
    · have hmem : p ∉ a :: z' := by simp [hne, hpz]
      exact (h.reapable.pop_off hmem).trans (h.offReap p hp hmem)
  · exact fun q hq => h.push_busy hf (by simp) rfl rfl (hsub q) hq
  · intro q hq b hb
    by_cases hba : b = a
    · subst hba
      exact ⟨halive, hafin, haz⟩
    · obtain ⟨h₁, h₂, h₃⟩ := h.held q hq b (hold q _ (by simpa using hba) hb)
      exact ⟨h₁, h₂, mt (hsub b) h₃⟩
  · exact fun q hq hmem => absurd hmem (hnolock q hq)
  · intro hf'
    exact absurd (hf'.symm.trans (h.busy_cons hf).1) (by simp)

/-- `reap_process`, for a process that the current one holds. -/
theorem SchedInv.reap (h : SchedInv late s l z) (hf : s.frames s.current = .reap r :: fs)
    (hw : reapProcess s.world r = some w') :
    SchedInv late (({ s with world := w' } : SchedWorld).setFrames s.current (.check :: fs)) l z ∧
      (∀ p ∈ s.world.live, p ≠ r → p ∈ w'.live) ∧ (∀ p ∈ w'.live, p ∈ s.world.live) ∧
      w'.proc = s.world.proc ∧ w'.currentProcess = s.world.currentProcess := by
  obtain ⟨heq, hproc, hlive⟩ := reapProcess_sched hw
  have hmine : .reap r ∈ s.frames s.current := by simp [hf]
  have hrcur := h.held_ne h.current hmine
  obtain ⟨hrlive, hrfin, hrz⟩ := h.held _ h.current r hmine
  obtain ⟨hfin, -, hexit⟩ := h.busy_cons hf
  have hsub : ∀ p ∈ w'.live, p ∈ s.world.live := by
    intro p hp
    rcases hlive with hlive | ⟨-, hlive⟩
    · rwa [hlive] at hp
    · exact List.mem_of_mem_erase (hlive ▸ hp)
  have hkeep : ∀ p ∈ s.world.live, p ≠ r → p ∈ w'.live := by
    intro p hp hne
    rcases hlive with hlive | ⟨-, hlive⟩
    · rwa [hlive]
    · rw [hlive]
      exact (List.mem_erase_of_ne hne).mpr hp
  -- leaving the call, the current process holds `r` no more
  have h₁ : SchedInv late (s.setFrames s.current (.check :: fs)) l z := by
    apply h.setFrames
    · intro f hexcl
      have hne : (Frame.check == f) = false := by
        cases f <;> simp [Frame.exclusive] at hexcl ⊢
      rw [hf, List.count_cons, List.count_cons, hne]
      simp
    · exact fun _ => ⟨hfin, by simp [hexit]⟩
  have hnohold : ∀ q ∈ s.world.live, .reap r ∉ (s.setFrames s.current (.check :: fs)).frames q := by
    intro q hq hmem
    rcases eq_or_ne q s.current with rfl | hne
    · have hmem : .reap r ∈ fs := by simpa [SchedWorld.setFrames] using hmem
      have hone := (h.once _ h.current _ h.current _ rfl hmine hmine).2
      have hpos := List.count_pos_iff.mpr hmem
      rw [hf, List.count_cons_self] at hone
      omega
    · have hmem : .reap r ∈ s.frames q := by simpa [SchedWorld.setFrames, hne] using hmem
      exact hne (h.once q hq _ h.current _ rfl hmem hmine).1
  have hrl : r ∉ l := fun hmem => (h.readyOk r hmem).free _ h.current hmine
  have hready : ∀ p ∈ l, p ∈ w'.live := fun p hp =>
    hkeep p (h.readyOk p hp).live fun e => hrl (e ▸ hp)
  have hreap : ∀ p ∈ z, p ∈ w'.live := fun p hp =>
    hkeep p (h.reapOk p hp).1 fun e => hrz (e ▸ hp)
  refine ⟨⟨⟨?_, ?_, ?_, ?_, ?_, ?_, ?_, ?_, ?_, ?_, ?_, ?_⟩, ?_, ?_, ?_, ?_⟩, hkeep, hsub, hproc,
    heq.currentProcess⟩
  · show IsQueue 0 w'.queueNode w'.processQueue l
    rw [heq.queueNode, heq.processQueue]
    exact h.ready
  · show IsQueue 0 w'.reapNode w'.reapQueue z
    rw [heq.reapNode, heq.reapQueue]
    exact h.reapable
  · exact fun p hp => (h₁.readyOk p hp).congr (hready p hp) (heq.finished p) id
      fun q hq hr => ⟨hsub q hq, hr⟩
  · exact fun p hp => ⟨hreap p hp, (heq.finished p).trans (h.reapOk p hp).2⟩
  · intro p hp hpl
    show w'.queueNode p = _
    rw [heq.queueNode]
    exact h.offReady p (hsub p hp) hpl
  · intro p hp hpz
    show w'.reapNode p = _
    rw [heq.reapNode]
    exact h.offReap p (hsub p hp) hpz
  · exact fun p hp => h.ne p (hsub p hp)
  · show w'.live.Nodup
    rcases hlive with hlive | ⟨-, hlive⟩
    · rw [hlive]
      exact h.nodup
    · rw [hlive]
      exact h.nodup.erase r
  · exact fun p hp hbusy => (h₁.busy p (hsub p hp) hbusy).congr (heq.finished p) rfl id
  · exact fun p hp q hq => h₁.once p (hsub p hp) q (hsub q hq)
  · intro p hp b hb
    obtain ⟨hb₁, hb₂, hb₃⟩ := h₁.held p (hsub p hp) b hb
    have hbr : b ≠ r := by
      rintro rfl
      exact hnohold p (hsub p hp) hb
    exact ⟨hkeep b hb₁ hbr, (heq.finished b).trans hb₂, hb₃⟩
  · intro p hp hmem
    show w'.reapLock = true ∧ z ≠ []
    rw [heq.reapLock]
    exact h₁.locked p (hsub p hp) hmem
  all_goals simp only [SchedWorld.current, SchedWorld.setFrames, heq.currentProcess]
  · exact hkeep _ h.current hrcur.symm
  · exact h.away
  · rw [heq.finished]
    exact h.rest
  · rw [heq.started]
    exact h.started

end

end MishaOS
