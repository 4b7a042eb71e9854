import MishaOS.Spec.ReapOwner

/-!
# Reaping in every run

`reap_process` frees the page directory and the descriptors of a process without
a look at who else has them, and walks the pages from the end of the current
process's image on.  As long as no process that has shared its directory is
reaped, and the pages that are walked are those of the process, all that the
other processes have is left to them.

## Key results

- `OwnInv.step`: what every step of a run keeps.
- `reap_run_keeps`: reaping a process leaves directories, descriptors and user heaps of the others.
-/

namespace MishaOS

open Fifo

variable {s s' : OwnWorld} {w w' : ProcWorld} {i : InitMem} {op : SchedOp} {L : Ledger}
  {marked : Nat → Bool} {l z : List Nat} {init r rootDir esp : Nat}

/-- Calls are made by a process that is in no other call, and `malloc` returns blocks
    that are not in use. -/
def OwnOpOk (s : OwnWorld) (op : SchedOp) : Prop :=
  SchedOpOk s.sched op ∧ match op with
    | .fork m | .clone m | .system m => MallocOk s.sched.world.heap (m.blocks ++ m.fds)
    | .exec name _ file _ =>
      file.isSome = true → MallocOk (s.sched.world.heap.free s.sched.world.current.name) [name]
    | .exit _ | .switch | .advance => True

instance (s : OwnWorld) (op : SchedOp) : Decidable (OwnOpOk s op) :=
  match op with
  | .fork _ | .clone _ | .system _ => inferInstanceAs (Decidable (_ ∧ MallocOk _ _))
  | .exec .. => inferInstanceAs (Decidable (_ ∧ (_ → MallocOk _ _)))
  | .exit _ | .switch | .advance => inferInstanceAs (Decidable (_ ∧ True))

/-- The process that the current one is about to reap fits. -/
def SchedWorld.ReapsFit (s : SchedWorld) (L : Ledger) (marked : Nat → Bool) : Prop :=
  match (s.frames s.current).head? with
  | some (.reap r) => ReapFits s.world L marked r
  | _ => True

instance (s : SchedWorld) : Decidable (s.ReapsFit L marked) := by
  unfold SchedWorld.ReapsFit
  split <;> infer_instance

/-- The queues stay safe, each request of frames has been answered with free ones, and a
    process that is reaped fits. -/
def OwnOpFits (s : OwnWorld) (op : SchedOp) : Prop :=
  SchedOpSafe s.sched op ∧ s.sched.world.paging.pfa.overcommitted = false ∧ match op with
    | .advance => s.sched.ReapsFit s.ledger s.marked
    | _ => True

instance (s : OwnWorld) (op : SchedOp) : Decidable (OwnOpFits s op) :=
  match op with
  | .advance => inferInstanceAs (Decidable (_ ∧ _ ∧ s.sched.ReapsFit _ _))
  | .fork _ | .clone _ | .system _ | .exec .. | .exit _ | .switch =>
    inferInstanceAs (Decidable (_ ∧ _ ∧ True))

/-! ## One step -/

/-- A request that was not answered with a free frame leaves nothing to say. -/
structure OwnInv (init : Nat) (s : OwnWorld) : Prop where
  sched : ∃ l z, SchedInv False s.sched l z
  owners : s.sched.world.paging.pfa.overcommitted = false →
    Owners init s.sched.world s.ledger s.marked

/-- Only the queues and the flags of the process change. -/
theorem makeProcessReapable_fields {status : BitVec 8} {p : Nat}
    (hw : makeProcessReapable (w.setProc p { w.proc p with status := status, finished := true }) p =
      some w') :
    SchedFields w w' ∧ w'.paging = w.paging := by
  -- each process has the fields it had, up to the flags and the status
  have hproc : ∀ q, ∃ status' finished started queued,
      (w.setProc p { w.proc p with status := status, finished := true }).proc q = { w.proc q with
        status := status', finished := finished, started := started, queued := queued } := by
    intro q
    obtain rfl | hne := eq_or_ne q p
    · exact ⟨_, _, _, _, Function.update_self ..⟩
    · exact ⟨_, _, _, _, Function.update_of_ne hne _ _⟩
  unfold makeProcessReapable at hw
  -- a null pointer, an overflow of the queue, or the push
  split at hw
  · obtain rfl := Option.some.inj hw
    exact ⟨⟨⟨_, _, _, _, _, _, _, _, rfl⟩, hproc⟩, rfl⟩
  split at hw
  · simp at hw
  · obtain rfl := Option.some.inj hw
    exact ⟨⟨⟨_, _, _, _, _, _, _, _, rfl⟩, hproc⟩, rfl⟩

/-- The owners behind `task_exit`. -/
theorem Owners.exit {status : BitVec 8} {t t' : SchedWorld} (h : Owners init t.world L marked)
    (hinv : SchedInv False t l z) (hok : SchedOpOk t (.exit status))
    (hsafe : SchedOpSafe t (.exit status))
    (hs : schedStep t (.exit status) = some t') : Owners init t'.world L marked := by
  simp only [schedStep] at hs
  split at hs
  · exact h.switchNext hinv.toQueueInv hs
  rename_i hid
  -- the process is put into the reap queue, so `reap_lock` must be free
  obtain ⟨hfin, hlock⟩ := hsafe
  have hlock := hlock.resolve_left hid
  have hne : init ≠ t.current := by
    rintro rfl
    exact hid h.number
  have hlock' : ¬ (t.world.setProc t.current { t.world.current with
      status := status, finished := true }).reapLock = true := by simp [ProcWorld.setProc, hlock]
  rw [SchedWorld.leave, if_neg hlock'] at hs
  simp only [Option.bind_eq_bind, Option.bind_eq_some_iff] at hs
  obtain ⟨w', hw', hs⟩ := hs
  -- behind the marking the state is that of a process that waits to be reaped
  obtain ⟨hq, hcur, -, -, hlive, hproc⟩ := hinv.finish hfin hok hw'
  obtain ⟨hfields, hpaging⟩ := makeProcessReapable_fields hw'
  have h₁ : Owners init w' L marked := by
    apply h.congr hfields
    · rw [hcur]
      exact hinv.current
    · rw [hpaging, hcur]
      exact h.directory
    · rw [(hproc init).2 hne]
      exact h.unfinished
  exact Owners.switchNext (s := ({ t with world := w' } : SchedWorld).setFrames t.current []) h₁ hq
    hs

/-- `switch_next` only touches queues and flags. -/
theorem QueueInv.switchNext_only {t t' : SchedWorld} (h : QueueInv False t l z)
    (hs : t.switch (MishaOS.switchNext walkFuel) = some t') : SchedOnly t.world t'.world := by
  rcases h.switchNext_or hs with rfl | ⟨l', hsw⟩
  · exact .refl _
  · exact hsw.only

/-- A process that the current one holds is reaped. -/
theorem Owners.reapNext {t : SchedWorld} (h : Owners init t.world L marked)
    (hinv : SchedInv False t l z)
    (hhead : (t.frames t.current).head? = some (.reap r)) (hfits : t.ReapsFit L marked)
    (hw : reapProcess t.world r = some w') : Owners init w' L marked ∧ ReapKeeps t.world w' r := by
  -- the process that is held has finished, and `init` never does
  have hmem : .reap r ∈ t.frames t.current := List.mem_of_mem_head? hhead
  obtain ⟨hr, hfin, -⟩ := hinv.held _ hinv.current r hmem
  unfold SchedWorld.ReapsFit at hfits
  rw [hhead] at hfits
  apply h.reap hinv.nodup hr (hinv.held_ne hinv.current hmem) _ hfits hw
  rintro rfl
  exact absurd (h.unfinished.symm.trans hfin) (by simp)

/-- One round of the loop over the reap queue. -/
theorem Owners.advance {t t' : SchedWorld} (h : Owners init t.world L marked)
    (hinv : SchedInv False t l z)
    (hfits : t.ReapsFit L marked) (hs : t.advance = some t') : Owners init t'.world L marked := by
  unfold SchedWorld.advance at hs
  dsimp only at hs
  cases hf : t.frames t.current with
  | nil => simp [hf] at hs
  | cons f fs =>
    rw [hf] at hs
    cases f with
    | check =>
      obtain rfl := Option.some.inj hs
      exact h
    | lock =>
      dsimp only at hs
      -- the lock is taken, or the caller waits for it
      by_cases hlock : t.world.reapLock = true
      · rw [if_pos hlock] at hs
        exact h.switchTask hinv hs
      · rw [if_neg hlock] at hs
        obtain rfl := Option.some.inj hs
        exact h.congr ⟨⟨_, _, _, _, _, _, _, _, rfl⟩, fun p => ⟨_, _, _, _, rfl⟩⟩ h.running
          h.directory h.unfinished
    | locked =>
      simp only [Option.bind_eq_bind, Option.bind_eq_some_iff, Prod.exists] at hs
      obtain ⟨r, w', hw', hs⟩ := hs
      obtain rfl := Option.some.inj hs
      -- only the reap queue and its lock are written
      obtain ⟨z', -, -, hrest⟩ := hinv.take hf hw'
      show Owners init w' L marked
      rw [hrest]
      exact h.congr ⟨⟨_, _, _, _, _, _, _, _, rfl⟩, fun p => ⟨_, _, _, _, rfl⟩⟩ h.running
        h.directory h.unfinished
    | reap r =>
      simp only [Option.bind_eq_bind, Option.bind_eq_some_iff] at hs
      obtain ⟨w', hw', hs⟩ := hs
      obtain rfl := Option.some.inj hs
      exact (h.reapNext hinv (by simp [hf]) hfits hw').1
    | exit => exact absurd rfl (hinv.busy_cons hf).2.1

/-- Every step keeps the owners. -/
theorem OwnInv.step (h : OwnInv init s) (hok : OwnOpOk s op) (hfits : OwnOpFits s op)
    (hs : ownStep s op = some s') : OwnInv init s' := by
  obtain ⟨t, ht, rfl⟩ := Option.map_eq_some_iff.mp hs
  obtain ⟨l, z, hinv⟩ := h.sched
  -- the owners are known while every request so far was answered with a free frame
  obtain ⟨hsafe, hclean, hfits⟩ := hfits
  have hown := h.owners hclean
  constructor
  · obtain ⟨l', z', hinv', -⟩ := hinv.step hok.1 (hsafe.can hinv) ht
    exact ⟨l', z', hinv'⟩
  intro hclean'
  dsimp only at hclean' ⊢
  cases op with
  | fork m =>
    obtain ⟨w', hw', rfl⟩ := Option.map_eq_some_iff.mp ht
    exact hown.fork hok.2 hw' hclean'
  | clone m =>
    obtain ⟨w', hw', rfl⟩ := Option.map_eq_some_iff.mp ht
    exact hown.clone hok.2 hw' hclean'
  | exec name path file args =>
    obtain rfl := Option.some.inj ht
    exact hown.exec (fun hne => hok.2 (Option.isSome_iff_ne_none.mpr hne)) hclean'
  | system m =>
    simp only [schedStep, Option.bind_eq_bind, Option.bind_eq_some_iff] at ht
    obtain ⟨w', hw', ht⟩ := ht
    -- the child is there before the parent leaves
    have hq : ∃ l, QueueInv False (s.sched.create m.process w') l z := by
      obtain ⟨w₁, hc, rfl⟩ := fork_created hw'
      exact ⟨_, (hinv.create hsafe hok.1.2.1 hok.1.2.2 hc).toQueueInv⟩
    obtain ⟨l', hq⟩ := hq
    have honly : SchedOnly w' t.world := hq.switchNext_only ht
    -- switching requests no frame
    have hpfa : t.world.paging.pfa = w'.paging.pfa := by
      obtain ⟨a, b, c, d, e, heq⟩ := honly.rest
      rw [heq]
    have hfork := hown.fork hok.2 hw' (hpfa ▸ hclean')
    have hledger : noteLedger s.sched.world t.world s.ledger (.system m) =
        noteLedger s.sched.world w' s.ledger (.fork m) := by
      obtain ⟨a, b, heq⟩ := honly.flags m.process
      simp only [noteLedger, ProcWorld.stackFrames, heq]
    rw [hledger]
    exact Owners.switchNext (s := s.sched.create m.process w') hfork hq ht
  | exit status => exact hown.exit hinv hok.1 hsafe ht
  | switch => exact hown.switchTask hinv ht
  | advance => exact hown.advance hinv hfits ht

/-! ## Every run -/

/-- Nothing is noted yet. -/
def Ledger.boot : Ledger := ⟨fun _ => [], fun _ => 0, fun _ => [], 1⟩

/-- Before `init_process`: the kernel's directory is loaded, it and its tables are in
    frames in use, and the tables of the kernel heap are there, in other frames. -/
structure OwnBoot (w : ProcWorld) (i : InitMem) : Prop extends SchedBoot w i where
  current : w.paging.currentPageDirectory = w.kernelDirectory
  ne : w.kernelDirectory ≠ 0
  lt : w.kernelDirectory < 4294967296
  directory : ∀ f ∈ runFrames w.kernelDirectory 3, w.paging.pfa.used f
  tables : ∀ j, (w.paging.dir w.kernelDirectory).tables j ≠ 0 →
    w.paging.pfa.used ((w.paging.dir w.kernelDirectory).tables j / 0x1000)
  heapTables : ∀ j, heapTable j → (w.paging.dir w.kernelDirectory).tables j ≠ 0 ∧
    ¬ Ledger.boot.dirFrame w.paging w.kernelDirectory
      ((w.paging.dir w.kernelDirectory).tables j / 0x1000)

/-- Behind `init_process`. -/
def OwnWorld.start (w : ProcWorld) (i : InitMem) (rootDir esp : Nat) : OwnWorld :=
  ⟨SchedWorld.start w i rootDir esp, Ledger.boot, fun _ => false⟩

/-- After boot the kernel owns its directory. -/
theorem OwnBoot.frames (h : OwnBoot w i) (hclean : w.paging.pfa.overcommitted = false) :
    FrameInv w.kernelDirectory w.paging [w.kernelDirectory] Ledger.boot fun _ => [] := by
  have hdir : ∀ d, d ∈ [w.kernelDirectory] ↔ d = w.kernelDirectory := fun d => List.mem_singleton
  -- at the start there is one directory, and no image has frames
  have hused : ∀ f, Ledger.boot.dirFrame w.paging w.kernelDirectory f → w.paging.pfa.used f := by
    rintro f (hf | ⟨j, -, hj, rfl⟩ | hf)
    · exact h.directory f hf
    · exact h.tables j hj
    · simp [Ledger.boot] at hf
  constructor
  · exact hclean
  · constructor
    · rintro (_ | d | g) f ho hf
      · obtain ⟨j, hj, rfl⟩ := hf
        exact h.tables j (h.heapTables j hj).1
      · obtain rfl := (hdir d).mp ho
        exact hused f hf
      · simp [ownFrames] at hf
    -- the heap's tables and the directory are the two holders that exist
    · rintro (_ | d | g) (_ | d' | g') f ho ho' hf hf'
      · rfl
      · obtain rfl := (hdir d').mp ho'
        obtain ⟨j, hj, rfl⟩ := hf
        exact absurd hf' (h.heapTables j hj).2
      · simp [ownFrames] at hf'
      · obtain rfl := (hdir d).mp ho
        obtain ⟨j, hj, rfl⟩ := hf'
        exact absurd hf (h.heapTables j hj).2
      · rw [(hdir d).mp ho, (hdir d').mp ho']
      · simp [ownFrames] at hf'
      · simp [ownFrames] at hf
      · simp [ownFrames] at hf
      · simp [ownFrames] at hf
  · intro d hd
    exact (hdir d).mp hd ▸ h.ne
  · intro d hd
    exact (hdir d).mp hd ▸ h.lt
  · intro d hd _ _
    rw [(hdir d).mp hd]
  · exact fun j hj => (h.heapTables j hj).1
  · exact fun d hd hne => absurd ((hdir d).mp hd) hne
  · intro d _ v hv
    simp [Ledger.boot] at hv
  · exact fun d _ => Nat.zero_lt_one
  · exact (hdir _).mpr rfl
  · rfl

/-- A file descriptor takes no page. -/
theorem processAddFd_paging (w : ProcWorld) (entry process file : Nat) :
    (processAddFd w entry process file).paging = w.paging ∧
      (processAddFd w entry process file).kernelDirectory = w.kernelDirectory := by
  unfold processAddFd
  split
  · exact ⟨rfl, rfl⟩
  · exact ⟨rfl, rfl⟩

/-- `spawn_init` requests one frame, for the pipe. -/
theorem spawnInit_paging : (spawnInit w i rootDir esp).paging = w.paging.requestPage.2 ∧
    (spawnInit w i rootDir esp).kernelDirectory = w.kernelDirectory := by
  simp [spawnInit, processAddFd_paging, ProcWorld.setProc, ProcWorld.malloc]

/-- The owners when the first process starts. -/
theorem Owners.start (h : OwnBoot w i)
    (hclean : (initProcess w i rootDir esp).paging.pfa.overcommitted = false) :
    Owners i.init (initProcess w i rootDir esp) Ledger.boot fun _ => false := by
  -- `init_process` in its parts: the process, its directory, the mappings of its stack
  have hstarted : Started (initProcess w i rootDir esp) i.init := initProcess_started h.toSchedBoot
  have hspawned : InitSpawned (spawnInit w i rootDir esp) i := spawnInit_spec h.toInitOk
  obtain ⟨hpaging, hkernel⟩ : (spawnInit w i rootDir esp).paging = w.paging.requestPage.2 ∧
      (spawnInit w i rootDir esp).kernelDirectory = w.kernelDirectory := spawnInit_paging
  have hp0 : i.init ≠ 0 := (h.mem.2 i.init (by simp [InitMem.blocks])).1.ne'
  have hdir : (spawnInit w i rootDir esp).paging.currentPageDirectory = w.kernelDirectory := by
    rw [hpaging]
    exact h.current
  unfold initProcess at hstarted hclean ⊢
  dsimp only at hstarted hclean ⊢
  rw [hdir] at hstarted hclean ⊢
  have hspawned₁ : InitSpawned { spawnInit w i rootDir esp with currentProcess := i.init } i :=
    hspawned.congr ⟨rfl, rfl, rfl, rfl, fun _ => ⟨rfl, rfl, rfl, rfl⟩⟩
  have hcur₁ :
    ({ spawnInit w i rootDir esp with currentProcess := i.init } : ProcWorld).currentProcess =
      i.init := rfl
  have hpaging₁ : ({ spawnInit w i rootDir esp with currentProcess := i.init } : ProcWorld).paging =
      w.paging.requestPage.2 := hpaging
  have hkernel₁ :
    ({ spawnInit w i rootDir esp with currentProcess := i.init } : ProcWorld).kernelDirectory =
      w.kernelDirectory := hkernel
  generalize ({ spawnInit w i rootDir esp with currentProcess := i.init } : ProcWorld) = w₁ at *
  have hset := (setProcessPageDirectory_blocks w₁ i.init w.kernelDirectory).1
  have hmapped := setProcessPageDirectory_eq (w := w₁) hp0 h.ne
  generalize setProcessPageDirectory w₁ i.init w.kernelDirectory = w₂ at *
  have hcur₂ : w₂.currentProcess = i.init := by rw [hmapped, hcur₁]
  have hkernel₂ : w₂.kernelDirectory = w.kernelDirectory := by rw [hmapped, hkernel₁]
  have hnew : (w₂.proc i.init).pageDirectory = w.kernelDirectory := by
    rw [hmapped]
    simp
  have hlive : w₂.live = [i.init] := hstarted.live
  -- `init` is alone, so nothing is shared
  have hmem : ∀ p ∈ w₂.live, p = i.init := fun p hp => by simpa [hlive] using hp
  have hkept₁ := Kept.requestPage (fun _ => False) w.paging
  have hframes : FrameInv w.kernelDirectory w₂.paging [w.kernelDirectory] Ledger.boot fun _ =>
      [] := by
    have hfold : w₂.paging = (pageRun (sub32 (w₁.proc i.init).image.stack 0x8000) 8).foldl
      (fun m ptr =>
        pdeMapUserMemory m w.kernelDirectory ptr (pdeGetPhysAddr m m.currentPageDirectory ptr))
          w.paging.requestPage.2 := by
      rw [hmapped, hkernel₁, hpaging₁]
    have hclean₂ : w₂.paging.pfa.overcommitted = false := hclean
    rw [hfold] at hclean₂ ⊢
    have hclean₁ :=
      (foldl_map_kept w.kernelDirectory (fun m ptr => pdeGetPhysAddr m m.currentPageDirectory ptr)
      (pageRun (sub32 (w₁.proc i.init).image.stack 0x8000) 8) w.paging.requestPage.2).clean hclean₂
    -- the frame of the pipe belongs to nobody
    have hboot : FrameInv w.kernelDirectory w.paging.requestPage.2
        [w.kernelDirectory] Ledger.boot fun _ => [] :=
      (h.frames (hkept₁.clean hclean₁)).request rfl rfl hkept₁.used hclean₁
    exact hboot.mapKernels _ hclean₂
  constructor
  · apply SharedInv.start h.toInitOk
    exact hspawned₁.congr ⟨hset.heap, hset.fd, hset.live, hset.processTree, hset.proc⟩
  · refine ⟨fun _ => [], ?_⟩
    have hdirs :
      ProcWorld.dirs { w₂ with paging := enablePaging w₂.paging w₂.current.pageDirectory } =
        [w.kernelDirectory] := by
      simp [ProcWorld.dirs, hlive, hnew]
    rw [hdirs]
    show FrameInv w₂.kernelDirectory _ _ _ _
    rw [hkernel₂]
    exact hframes.request rfl rfl (fun _ => id) hframes.clean
  · show w₂.currentProcess ∈ w₂.live
    simp [hcur₂, hlive]
  · rfl
  · exact hnew.trans hkernel₂.symm
  · exact fun p hp hne => absurd (hmem p hp) hne
  · intro p hp q hq hne
    exact absurd ((hmem p hp).trans (hmem q hq).symm) hne
  · exact hstarted.id
  · exact hstarted.finished

/-- The run starts with them. -/
theorem OwnInv.start (h : OwnBoot w i) : OwnInv i.init (OwnWorld.start w i rootDir esp) where
  sched := ⟨[], [], .start h.toSchedBoot⟩
  owners hclean := .start h hclean

/-- Every run keeps them. -/
theorem OwnInv.run {ops : List SchedOp} (h : OwnBoot w i)
    (hrun : Run ownStep (fun s op => OwnOpOk s op ∧ OwnOpFits s op)
      (OwnWorld.start w i rootDir esp) ops s) :
    OwnInv i.init s := by
  -- the induction is on the run; a step that asks too much ends the ownership, not the run
  apply hrun.invariant (OwnInv i.init)
  · exact fun s op s' hinv hop hs => hinv.step hop.1 hop.2 hs
  · exact .start h

/-- In a run whose steps all fit, a process that is reaped leaves the directories, the
    descriptors and the user heaps of all others in use. -/
theorem reap_run_keeps {ops : List SchedOp} (h : OwnBoot w i)
    (hrun : Run ownStep (fun s op => OwnOpOk s op ∧ OwnOpFits s op)
      (OwnWorld.start w i rootDir esp) ops s)
    (hhead : (s.sched.frames s.sched.current).head? = some (.reap r)) (hfits : OwnOpFits s .advance)
    (hw : reapProcess s.sched.world r = some w') : ReapKeeps s.sched.world w' r := by
  have hinv := OwnInv.run h hrun
  obtain ⟨l, z, hsched⟩ := hinv.sched
  obtain ⟨-, hclean, hfits⟩ := hfits
  exact ((hinv.owners hclean).reapNext hsched hhead hfits hw).2

/-- The frames of the kernel directory. -/
theorem boot_runFrames : runFrames ProcWorld.boot.kernelDirectory 3 = [2, 3, 4] := by decide +kernel

/-- A machine after boot. -/
theorem boot_ownBoot : OwnBoot ProcWorld.boot InitMem.boot where
  toSchedBoot := boot_schedBoot
  current := rfl
  ne := by decide
  lt := by decide
  directory f hf := by
    rw [boot_runFrames] at hf
    simp only [List.mem_cons, List.not_mem_nil, or_false] at hf
    rcases hf with rfl | rfl | rfl <;> rfl
  tables j hj := by
    -- the slots of the heap have table 5, the others none
    by_cases hheap : heapTable j
    · simp [ProcWorld.boot, hheap, Pfa.used, pfaGetBit, PFA_BITS]
    · simp [ProcWorld.boot, hheap] at hj
  heapTables j hj := by
    refine ⟨by simp [ProcWorld.boot, hj], ?_⟩
    rintro (hf | ⟨k, hk, hne, -⟩ | hf)
    · have hfive : ((ProcWorld.boot.paging.dir ProcWorld.boot.kernelDirectory).tables j) /
          0x1000 = 5 := by
        simp [ProcWorld.boot, hj]
      rw [hfive, boot_runFrames] at hf
      simp at hf
    · simp [ProcWorld.boot, hk] at hne
    · simp [Ledger.boot] at hf

/-- The header of a program without segments. -/
def emptyProgram (i : Nat) : BitVec 8 :=
  match i with
  | 0 => 0x7F
  | 1 => 0x45
  | 2 => 0x4C
  | 3 => 0x46
  | _ => 0

/-- A child loads a program, exits and is reaped: its argument block is on the page that
    is walked. -/
theorem reap_run_keeps_program :
    ∃ s w', Run ownStep (fun s op => OwnOpOk s op ∧ OwnOpFits s op)
        (OwnWorld.start ProcWorld.boot InitMem.boot 0 0x9FFFF)
        [.fork (SpawnMem.at 0x80001000), .switch,
          .exec 0x80003000 [] (some emptyProgram) [], .exit 0,
          .advance, .advance, .advance] s ∧
      reapWalk s.sched.world 0x80001000 = [0] ∧
      reapProcess s.sched.world 0x80001000 = some w' ∧ ReapKeeps s.sched.world w' 0x80001000 := by
  have hsome : ((Run.exec ownStep (fun s op => OwnOpOk s op ∧ OwnOpFits s op)
      (OwnWorld.start ProcWorld.boot InitMem.boot 0 0x9FFFF)
      [.fork (SpawnMem.at 0x80001000), .switch, .exec 0x80003000 [] (some emptyProgram) [], .exit 0,
        .advance, .advance, .advance]).map fun s =>
          ((s.sched.frames s.sched.current).head?, reapWalk s.sched.world 0x80001000,
            decide (OwnOpFits s .advance), (reapProcess s.sched.world 0x80001000).isSome)) =
      some (some (.reap 0x80001000), [0], true, true) := by
    decide +kernel
  -- the facts of the state that the run ends in
  obtain ⟨s, hs, hfacts⟩ := Option.map_eq_some_iff.mp hsome
  obtain ⟨hhead, hfacts⟩ := Prod.mk.inj hfacts
  obtain ⟨hwalk, hfacts⟩ := Prod.mk.inj hfacts
  obtain ⟨hfits, hreap⟩ := Prod.mk.inj hfacts
  obtain ⟨w', hw⟩ := Option.isSome_iff_exists.mp hreap
  have hrun := Run.of_exec hs
  exact ⟨s, w', hrun, hwalk, hw, reap_run_keeps boot_ownBoot hrun hhead
    (of_decide_eq_true hfits) hw⟩

/-- A clone of `init` exits and is reaped: the kernel's directory is released, in which
    `init` runs on. -/
theorem clone_exit_releases_directory :
    ∃ s w', Run ownStep (fun s op => OwnOpOk s op ∧ OwnOpFits s op)
        (OwnWorld.start ProcWorld.boot InitMem.boot 0 0x9FFFF)
        [.clone (SpawnMem.at 0x80001000), .switch, .exit 0, .advance, .advance, .advance] s ∧
      (s.sched.frames s.sched.current).head? = some (.reap 0x80001000) ∧
      reapProcess s.sched.world 0x80001000 = some w' ∧ s.sched.world.paging.pfa.used 2 ∧
      ¬ ReapKeeps s.sched.world w' 0x80001000 := by
  have hsome : ((Run.exec ownStep (fun s op => OwnOpOk s op ∧ OwnOpFits s op)
      (OwnWorld.start ProcWorld.boot InitMem.boot 0 0x9FFFF)
      [.clone (SpawnMem.at 0x80001000), .switch, .exit 0, .advance, .advance, .advance]).bind
        fun s =>
        (reapProcess s.sched.world 0x80001000).map fun w' =>
          ((s.sched.frames s.sched.current).head?, s.sched.world.live,
            (s.sched.world.proc 0x80000010).pageDirectory,
            pfaGetBit s.sched.world.paging.pfa 2, pfaGetBit w'.paging.pfa 2)) =
      some (some (.reap 0x80001000), [0x80001000, 0x80000010], 0x2000, true, false) := by
    decide +kernel
  obtain ⟨s, hs, hmap⟩ := Option.bind_eq_some_iff.mp hsome
  obtain ⟨w', hw, hfacts⟩ := Option.map_eq_some_iff.mp hmap
  simp only [Prod.mk.injEq] at hfacts
  obtain ⟨hhead, hlive, hdir, hbefore, hafter⟩ := hfacts
  refine ⟨s, w', Run.of_exec hs, hhead, hw, hbefore, fun hkeeps => ?_⟩
  -- the law would keep frame 2 in use
  have hused := hkeeps.directory 0x80000010 (by simp [hlive]) (by decide) 2
    (by rw [hdir]; decide +kernel)
  exact absurd (hused.symm.trans hafter) (by simp)

end MishaOS
