import MishaOS.Spec.ExecPages
import MishaOS.Spec.FrameOwner
import MishaOS.Spec.SchedQueue

/-!
# The frames that calls take and release

What `fork`, `clone`, `exec` and `reap_process` do to the frames, with the
directories and kernel stacks they write down in the process structures.

## Key results

- `fork_frames`, `clone_frames`, `FrameInv.exec`: the calls that take frames.
- `reapProcess_frames`: the frames that reaping a process releases.
-/

namespace MishaOS

variable {w w' w₁ : ProcWorld} {m : SpawnMem} {L : Ledger} {k : Nat → List Nat} {dirs : List Nat}
  {kernel c d p r parent pageDir : Nat}

/-- The pages of the kernel stack of a process. -/
def ProcWorld.stackFrames (w : ProcWorld) (p : Nat) : List Nat :=
  runFrames (sub32 (w.proc p).image.stack 0x8000) 8

/-! ## New processes -/

/-- What `spawn_process` does to the frames, with the stack at `stack`. -/
structure StackTaken (w w' : ProcWorld) (m : SpawnMem) (parent stack : Nat) (pfa : Pfa) : Prop where
  request : pfaRequestPages w.paging.pfa 8 = some (stack, pfa)
  paging : w'.paging = { w.paging with pfa := pfa }
  kernelDirectory : w'.kernelDirectory = w.kernelDirectory
  currentProcess : w'.currentProcess = w.currentProcess
  proc : ∀ p, p ≠ m.process → w'.proc p = w.proc p
  image : (w'.proc m.process).image = { m.junk.image with
    entry := (w.proc parent).image.entry
    heap := (w.proc parent).image.heap
    heapAligned := (w.proc parent).image.heapAligned
    stack := u32 (stack + 0x8000)
    userStack := (w.proc parent).image.userStack }

/-- `spawn_process` takes frames for a stack. -/
theorem spawnProcess_stack (h : spawnProcess w m parent = some w') :
    ∃ stack pfa, StackTaken w w' m parent stack pfa := by
  simp only [spawnProcess, Option.bind_eq_bind, Option.bind_eq_some_iff] at h
  obtain ⟨⟨stack, pfa⟩, hreq, w₁, hcopy, h⟩ := h
  obtain rfl := Option.some.inj h
  -- behind the request only the heap and the descriptors are written
  have hrest := copyFds_rest hcopy
  have hproc : w₁.proc = w.proc := by
    rw [hrest]
    rfl
  refine ⟨stack, pfa, hreq, ?_, ?_, ?_, ?_, ?_⟩
  · rw [hrest]
    rfl
  · rw [hrest]
    rfl
  · rw [hrest]
    rfl
  · intro p hp
    simp [ProcWorld.setProc, hp, hproc]
  · simp [ProcWorld.setProc, hproc]

/-- `set_process_page_directory` maps the kernel stack in the kernel's directory. -/
theorem setProcessPageDirectory_eq (hp : p ≠ 0) (hd : pageDir ≠ 0) :
    setProcessPageDirectory w p pageDir = { w with
      paging := (pageRun (sub32 (w.proc p).image.stack 0x8000) 8).foldl (fun m ptr =>
        pdeMapUserMemory m w.kernelDirectory ptr (pdeGetPhysAddr m m.currentPageDirectory ptr))
          w.paging
      proc := Function.update w.proc p { w.proc p with pageDirectory := pageDir } } := by
  rw [setProcessPageDirectory, if_neg (by simp [hp, hd])]
  rfl

/-- The new process runs in the directory `d`; of the others only flags differ. -/
structure Housed (w w' : ProcWorld) (m : SpawnMem) (d : Nat) : Prop where
  live : w'.live = m.process :: w.live
  kernelDirectory : w'.kernelDirectory = w.kernelDirectory
  currentProcess : w'.currentProcess = w.currentProcess
  directory : w'.paging.currentPageDirectory = w.paging.currentPageDirectory
  others : ∀ p, p ≠ m.process → ∃ started queued,
    w'.proc p = { w.proc p with started := started, queued := queued }
  new : (w'.proc m.process).pageDirectory = d

/-- A step on queues and flags can follow. -/
theorem Housed.only (h : Housed w w₁ m d) (hw : SchedOnly w₁ w')
    (hcur : w'.currentProcess = w₁.currentProcess)
    (hdir : w'.paging.currentPageDirectory = w₁.paging.currentPageDirectory) : Housed w w' m d := by
  have hrest : w'.live = w₁.live ∧ w'.kernelDirectory = w₁.kernelDirectory := by
    obtain ⟨a, b, c, d, e, rfl⟩ := hw.rest
    exact ⟨rfl, rfl⟩
  constructor
  · exact hrest.1.trans h.live
  · exact hrest.2.trans h.kernelDirectory
  · exact hcur.trans h.currentProcess
  · exact hdir.trans h.directory
  · intro p hp
    obtain ⟨a, b, hold⟩ := h.others p hp
    -- a step on flags leaves what `Housed` looks at
    obtain ⟨a', b', hnew⟩ := hw.flags p
    exact ⟨a', b', by rw [hnew, hold]⟩
  · obtain ⟨a, b, hnew⟩ := hw.flags m.process
    rw [hnew]
    exact h.new

/-- `clone` writes another descriptor list to the new process. -/
theorem Housed.setFds {heap : TreeStore} {fds : Nat} (h : Housed w w₁ m d) :
    Housed w (({ w₁ with heap := heap } : ProcWorld).setProc m.process
      { w₁.proc m.process with fds := fds })
      m d where
  live := h.live
  kernelDirectory := h.kernelDirectory
  currentProcess := h.currentProcess
  directory := h.directory
  others p hp := by
    obtain ⟨a, b, hold⟩ := h.others p hp
    refine ⟨a, b, ?_⟩
    rw [← hold]
    exact Function.update_of_ne hp _ _
  new := by
    simp only [ProcWorld.setProc, Function.update_self]
    exact h.new

/-- The ready queue does not touch memory. -/
theorem makeProcessReady_rest (w : ProcWorld) (p : Nat) :
    (makeProcessReady w p).paging = w.paging ∧ (makeProcessReady w p).currentProcess =
      w.currentProcess ∧
      ∀ q, ((makeProcessReady w p).proc q).image = (w.proc q).image := by
  have hflags := (makeProcessReady_only w p).flags
  refine ⟨?_, ?_, fun q => ?_⟩
  · unfold makeProcessReady
    split <;> rfl
  · unfold makeProcessReady
    split <;> rfl
  · obtain ⟨a, b, h⟩ := hflags q
    rw [h]

/-- Closing files only frees blocks. -/
theorem freeFds_rest {n fd : Nat} (h : freeFds n w fd = some w') :
    w' = { w with heap := w'.heap } := by
  induction n generalizing w fd with
  | zero => simp [freeFds] at h
  | succ n ih =>
    rw [freeFds] at h
    split at h
    · rw [← Option.some.inj h]
    · rw [ih h]
      rfl

/-- `spawn_process` writes to frames that were free. -/
theorem spawnProcess_kept (hspawn : spawnProcess w m parent = some w₁) :
    Kept (fun _ => False) w.paging w₁.paging := by
  obtain ⟨stack, pfa, hst⟩ := spawnProcess_stack hspawn
  obtain ⟨hused, hover, -⟩ := pfaRequestPages_spec hst.request
  rw [hst.paging]
  exact ⟨hused, hover, fun _ _ => rfl, fun _ _ => rfl, rfl⟩

/-- Setting a directory writes to no frame. -/
theorem setProcessPageDirectory_kept (w : ProcWorld) (p d : Nat) :
    Kept (fun _ => False) w.paging (setProcessPageDirectory w p d).paging := by
  unfold setProcessPageDirectory
  split
  · exact .refl _ _
  · exact foldl_map_kept _ (fun m ptr => pdeGetPhysAddr m m.currentPageDirectory ptr) _ _

/-- The frames of the stack get an owner. -/
theorem FrameInv.spawnProcess (h : FrameInv kernel w.paging dirs L k)
    (hkernel : w.kernelDirectory = kernel)
    (hd : d ∈ dirs) (hp : m.process ≠ 0) (hspawn : spawnProcess w m parent = some w₁)
    (hw : setProcessPageDirectory w₁ m.process d = w')
    (hclean : w'.paging.pfa.overcommitted = false) :
    Housed w w' m d ∧
      FrameInv kernel w'.paging dirs (L.addStack d (w'.stackFrames m.process)) k := by
  obtain ⟨stack, pfa, hst⟩ := spawnProcess_stack hspawn
  have hlive := (spawnProcess_created hspawn).live
  rw [setProcessPageDirectory_eq hp (h.ne d hd)] at hw
  subst hw
  dsimp only at hclean ⊢
  -- no request failed on the way
  have hmaps :=
    foldl_map_kept w₁.kernelDirectory (fun m ptr => pdeGetPhysAddr m m.currentPageDirectory ptr)
    (pageRun (sub32 (w₁.proc m.process).image.stack 0x8000) 8) w₁.paging
  have hclean₁ := hmaps.clean hclean
  rw [hst.paging] at hclean₁
  have hlt : stack < 4294967296 := ((pfaRequestPages_spec hst.request).2.2 hclean₁).lt
  have hstack : sub32 (w₁.proc m.process).image.stack 0x8000 = stack := by
    rw [hst.image]
    dsimp only
    unfold sub32 u32
    omega
  constructor
  · constructor
    · exact hlive
    · exact hst.kernelDirectory
    · exact hst.currentProcess
    · rw [hmaps.current, hst.paging]
    · intro p hp
      simp only [Function.update_of_ne hp, hst.proc p hp]
      exact ⟨_, _, rfl⟩
    · simp
  · have hframes : ProcWorld.stackFrames { w₁ with
        paging := (pageRun (sub32 (w₁.proc m.process).image.stack 0x8000) 8).foldl (fun m ptr =>
          pdeMapUserMemory m w₁.kernelDirectory ptr (pdeGetPhysAddr m m.currentPageDirectory ptr))
            w₁.paging
        proc := Function.update w₁.proc m.process { w₁.proc m.process with pageDirectory := d } }
          m.process = runFrames stack 8 := by
      rw [ProcWorld.stackFrames]
      simp only [Function.update_self]
      rw [hstack]
    rw [hframes]
    have htake := h.takeStack hd hst.request hclean₁
    rw [← hst.paging] at htake
    rw [hst.kernelDirectory, hkernel] at hclean ⊢
    exact htake.mapKernels _ hclean

/-- `fork` gives the new process a copy of the current directory. -/
theorem fork_frames (h : FrameInv kernel w.paging dirs L k) (hkernel : w.kernelDirectory = kernel)
    (hd : w.paging.currentPageDirectory ∈ dirs) (hp : m.process ≠ 0) (hf : fork w m = some w')
    (hclean : w'.paging.pfa.overcommitted = false) :
    ∃ c, c ∉ dirs ∧ Housed w w' m c ∧ FrameInv kernel w'.paging (c :: dirs)
      ((L.fork c w.paging.currentPageDirectory).addStack c (w'.stackFrames m.process)) k := by
  simp only [fork, Option.bind_eq_bind, Option.bind_eq_some_iff, Prod.exists] at hf
  obtain ⟨c, paging, hclone, w₁, hspawn, hf⟩ := hf
  obtain rfl := Option.some.inj hf
  obtain ⟨hpaging, hcur, himage⟩ :=
    makeProcessReady_rest (setProcessPageDirectory w₁ m.process c) m.process
  rw [hpaging] at hclean ⊢
  -- the copy comes first, then the stack
  have hkept := (spawnProcess_kept hspawn).trans (setProcessPageDirectory_kept w₁ m.process c)
  obtain ⟨hnew, hcopy⟩ := h.clone hd hclone (hkept.clean hclean)
  obtain ⟨hhoused, hframes⟩ :=
    FrameInv.spawnProcess (w := { w with paging := paging }) hcopy hkernel
    List.mem_cons_self hp hspawn rfl hclean
  have hstack : (makeProcessReady (setProcessPageDirectory w₁ m.process c) m.process).stackFrames
    m.process =
      (setProcessPageDirectory w₁ m.process c).stackFrames m.process := by
    rw [ProcWorld.stackFrames, himage]
    rfl
  refine ⟨c, hnew, ?_, ?_⟩
  · have hready := hhoused.only (makeProcessReady_only _ m.process) hcur (by rw [hpaging])
    exact { hready with directory := hready.directory.trans (pdeClone_kept hclone).current }
  · rw [hstack]
    exact hframes

/-- `clone` takes a stack only. -/
theorem clone_frames (h : FrameInv kernel w.paging dirs L k) (hkernel : w.kernelDirectory = kernel)
    (hd : w.paging.currentPageDirectory ∈ dirs) (hp : m.process ≠ 0) (hc : clone w m = some w')
    (hclean : w'.paging.pfa.overcommitted = false) :
    Housed w w' m w.paging.currentPageDirectory ∧ FrameInv kernel w'.paging dirs
      (L.addStack w.paging.currentPageDirectory (w'.stackFrames m.process)) k := by
  simp only [clone, Option.bind_eq_bind, Option.bind_eq_some_iff] at hc
  obtain ⟨w₁, hspawn, w₂, hfree, hc⟩ := hc
  obtain rfl := Option.some.inj hc
  generalize hset : setProcessPageDirectory w₁ m.process w.paging.currentPageDirectory = w₃ at hfree
  rw [freeFds_rest hfree] at hclean ⊢
  -- besides the stack only descriptors, the process and the queue change
  generalize hfds : (({ w₃ with heap := w₂.heap } : ProcWorld).setProc m.process
    { w₃.proc m.process with fds := ({ w₃ with heap := w₂.heap } : ProcWorld).current.fds }) =
      w₄ at hclean ⊢
  obtain ⟨hpaging, hcur, himage⟩ := makeProcessReady_rest w₄ m.process
  have hpaging₄ : w₄.paging = w₃.paging := by
    rw [← hfds]
    rfl
  rw [hpaging, hpaging₄] at hclean ⊢
  obtain ⟨hhoused, hframes⟩ := h.spawnProcess hkernel hd hp hspawn hset hclean
  have hstack : (makeProcessReady w₄ m.process).stackFrames m.process =
      w₃.stackFrames m.process := by
    rw [ProcWorld.stackFrames, himage, ← hfds]
    simp only [ProcWorld.setProc, Function.update_self]
    rfl
  constructor
  · have hhoused₄ : Housed w w₄ m w.paging.currentPageDirectory := hfds ▸ hhoused.setFds
    exact hhoused₄.only (makeProcessReady_only _ m.process) hcur (by rw [hpaging])
  · rw [hstack]
    exact hframes

/-! ## `exec` -/

/-- What is noted when `exec` has mapped the pages `vs` in the directory `d`. -/
def Ledger.exec (L : Ledger) (kernel d : Nat) (vs : List Nat) : Ledger :=
  if d = kernel then L else (L.load d).setPages d (imagePages kernel d vs)

/-- So do the frames that `exec` maps. -/
theorem FrameInv.exec {x : Paging} {vs : List Nat} (h : FrameInv kernel x dirs L k) (hd : d ∈ dirs)
    (hcur : x.currentPageDirectory = d)
    (hclean : (vs.foldl MishaOS.mapNewPage x).pfa.overcommitted = false)
    (hvs : ∀ v ∈ vs, v < 4294967296) :
    ∃ k', FrameInv kernel (vs.foldl MishaOS.mapNewPage x) dirs (L.exec kernel d vs) k' := by
  unfold Ledger.exec
  split
  · rename_i heq
    obtain ⟨k', hk⟩ := h.mapNewPages hd hcur hclean hvs
    -- in the kernel's directory nothing is noted
    have hnil : imagePages kernel d vs = [] := by simp [imagePages, heq]
    rw [hnil, List.append_nil, Ledger.setPages_self] at hk
    exact ⟨k', hk⟩
  · rename_i hne
    obtain ⟨k', hk⟩ := (h.load hne).mapNewPages hd hcur hclean hvs
    have hnil : (L.load d).pages d = [] := by simp [Ledger.load]
    rw [hnil, List.nil_append] at hk
    exact ⟨k', hk⟩

/-! ## Reaping -/

/-- The pages that `reap_process` walks. -/
def reapWalk (w : ProcWorld) (r : Nat) : List Nat :=
  if (w.proc r).image.heap ≠ 0 then heapPages w.current.image.heapBase (w.proc r).image.heapAligned
    else []

/-- `delete_process` does not touch memory. -/
theorem deleteProcess_rest (h : deleteProcess w p = some w') :
    w'.paging = w.paging ∧ w'.kernelDirectory = w.kernelDirectory := by
  unfold deleteProcess at h
  split at h
  · rw [← Option.some.inj h]
    exact ⟨rfl, rfl⟩
  split at h
  · rw [← Option.some.inj h]
    exact ⟨rfl, rfl⟩
  · simp only [Option.bind_eq_bind, Option.bind_eq_some_iff] at h
    obtain ⟨heap, -, h⟩ := h
    rw [← Option.some.inj h]
    exact ⟨rfl, rfl⟩

/-- The kernel keeps its directory. -/
theorem reapProcess_kernel (h : reapProcess w r = some w') :
    w'.kernelDirectory = w.kernelDirectory := by
  simp only [reapProcess, Option.bind_eq_bind, Option.bind_eq_some_iff] at h
  obtain ⟨w₁, hfree, hdelete⟩ := h
  have hkernel : w₁.kernelDirectory = w.kernelDirectory := by
    rw [freeFds_rest hfree]
    rfl
  exact (deleteProcess_rest hdelete).2.trans hkernel

/-- All releases of `reap_process`, one after the other. -/
theorem reapProcess_paging (h : reapProcess w r = some w') :
    w'.paging = pdeFree { w.paging with
      pfa := (pageRun (sub32 (w.proc r).image.stack 0x8000) 8 ++
        (reapWalk w r).map (pdeGetPhysAddr w.paging (w.proc r).pageDirectory)).foldl
          pfaFreePage w.paging.pfa }
      (w.proc r).pageDirectory := by
  simp only [reapProcess, Option.bind_eq_bind, Option.bind_eq_some_iff] at h
  obtain ⟨w₁, hfree, hdelete⟩ := h
  have hrest := freeFds_rest hfree
  -- neither the descriptors nor the tree have to do with paging
  have hpaging : w₁.paging = w.paging := by
    rw [hrest]
    rfl
  have hcurrent : w₁.current = w.current := by
    rw [hrest]
    rfl
  rw [(deleteProcess_rest hdelete).1]
  dsimp only
  rw [hpaging, hcurrent, List.foldl_append, reapWalk, pfaFreePages]
  -- a process without a heap has no pages to walk over
  by_cases hheap : (w.proc r).image.heap ≠ 0
  · rw [if_pos hheap, if_pos hheap, List.foldl_map]
  · rw [if_neg hheap, if_neg hheap, List.map_nil, List.foldl_nil]

/-- The frames that `reap_process` releases. -/
theorem reapProcess_frames (h : reapProcess w r = some w') :
    w'.paging.dir = w.paging.dir ∧ w'.paging.table = w.paging.table ∧
      w'.paging.currentPageDirectory = w.paging.currentPageDirectory ∧
      w'.paging.pfa.overcommitted = w.paging.pfa.overcommitted ∧
      ∀ f, w.paging.pfa.used f → ¬ w'.paging.pfa.used f → f ∈ w.stackFrames r ∨
        (∃ v ∈ reapWalk w r, f = pageFrame w.paging (w.proc r).pageDirectory v) ∨
        (∃ i, ¬ heapTable i ∧ (w.paging.dir (w.proc r).pageDirectory).tables i ≠ 0 ∧
          f = (w.paging.dir (w.proc r).pageDirectory).tables i / 0x1000) ∨
        f ∈ runFrames (w.proc r).pageDirectory 3 := by
  rw [reapProcess_paging h]
  unfold pdeFree
  refine ⟨rfl, rfl, rfl, ?_, ?_⟩
  · simp only [pfaFreePages, foldl_pfaFreePage_overcommitted]
  intro f hf hnot
  by_contra hnone
  simp only [not_or] at hnone
  obtain ⟨hstack, hwalk, htable, hdir⟩ := hnone
  apply hnot
  dsimp only
  rw [pfaFreePages, foldl_pfaFreePage_used, foldl_pfaFreePage_used, foldl_pfaFreePage_used]
  -- a frame that is none of the four kinds stays in use
  refine ⟨⟨⟨hf, ?_⟩, ?_⟩, hdir⟩
  · rw [List.map_append, List.mem_append]
    rintro (hin | hin)
    · exact hstack hin
    · simp only [List.map_map, List.mem_map, Function.comp_apply, pdeGetPhysAddr_div] at hin
      obtain ⟨v, hv, rfl⟩ := hin
      exact hwalk ⟨v, hv, rfl⟩
  · simp only [freedTables, List.map_map, List.mem_map, List.mem_filter, Function.comp_apply] at ⊢
    rintro ⟨i, ⟨-, hi⟩, rfl⟩
    exact htable ⟨i, by simpa using hi⟩

end MishaOS
