import MishaOS.ForStd.Run
import MishaOS.Spec.FrameRoom

/-!
# Every run of the page directories

A directory is made by `pde_clone` from another one, the first is the static one
of the kernel.  As long as requests are answered with free frames, two slots lead
to one table only if they are the same slot of the kernel heap.  So what is mapped
outside the heap in one directory is not seen in another.

## Key results

- `TablesOk.clone`: a clone has tables of its own, apart from those of the heap.
- `clone_run_separate`: a directory and its clone, in every run.
-/

namespace MishaOS

/-! ## Calls -/

inductive DirOp
  | init (d : Nat)
  | request (d : Nat) (v : BitVec 32)
  | map (d : Nat) (v physical : BitVec 32)
  | mapUser (d : Nat) (v physical : BitVec 32)
  | clone (d : Nat)

/-- The directories there are, and those that have been through `pde_init`. -/
structure DirWorld where
  paging : Paging
  dirs : List Nat
  inited : List Nat

def dirStep (s : DirWorld) : DirOp → Option DirWorld
  | .init d => some { s with paging := pdeInit s.paging d, inited := d :: s.inited }
  | .request d v => some { s with paging := pdeRequestPage s.paging d v.toNat }
  | .map d v physical => some { s with paging := pdeMapMemory s.paging d v.toNat physical.toNat }
  | .mapUser d v physical =>
    some { s with paging := pdeMapUserMemory s.paging d v.toNat physical.toNat }
  | .clone d => do
    let (c, m) ← pdeClone s.paging d
    some ⟨m, c :: s.dirs, c :: s.inited⟩

/-- The directory a call is about. -/
def DirOp.dir : DirOp → Nat
  | .init d | .request d _ | .map d _ _ | .mapUser d _ _ | .clone d => d

/-- The directory is one that has been made. -/
def DirOpOk (s : DirWorld) (op : DirOp) : Prop := op.dir ∈ s.dirs

instance (s : DirWorld) (op : DirOp) : Decidable (DirOpOk s op) :=
  inferInstanceAs (Decidable (_ ∈ _))

/-- The static directory, before anything is mapped. -/
def DirWorld.start (m : Paging) (d : Nat) : DirWorld :=
  ⟨{ m with dir := Function.update m.dir d ⟨fun _ => 0, fun _ => 0, 0⟩ }, [d], []⟩

variable {m m' : Paging} {s s' t : DirWorld} {op : DirOp} {ops : List DirOp} {ds : List Nat}
  {c d e f i j v v' T physical : Nat}

/-- The copy is a directory that has been set up. -/
theorem dirStep_clone (h : pdeClone s.paging d = some (c, m')) :
    dirStep s (.clone d) = some ⟨m', c :: s.dirs, c :: s.inited⟩ := by
  simp [dirStep, h]

/-- A step writes to frames that were free, or to tables. -/
theorem dirStep_kept (h : dirStep s op = some s') : Kept (fun _ => False) s.paging s'.paging := by
  -- each call is one of the four functions, which keep the frames in use
  cases op with
  | init d =>
    obtain rfl := Option.some.inj h
    exact pdeInit_kept _ _
  | request d v =>
    obtain rfl := Option.some.inj h
    exact pdeRequestPage_kept _ _ _
  | map d v physical =>
    obtain rfl := Option.some.inj h
    exact (pdeRequestPage_kept s.paging d v.toNat).trans (.setTable _ _ id)
  | mapUser d v physical =>
    obtain rfl := Option.some.inj h
    exact (pdeRequestPage_kept s.paging d v.toNat).trans (.setTable _ _ id)
  | clone d =>
    simp only [dirStep, Option.bind_eq_bind, Option.bind_eq_some_iff, Prod.exists] at h
    obtain ⟨c, m, hclone, h⟩ := h
    obtain rfl := Option.some.inj h
    exact pdeClone_kept hclone

/-- What holds as long as no request has failed is proved for steps without a failure. -/
theorem dirRun_invariant {ok : DirWorld → DirOp → Prop} {P : DirWorld → Prop}
    (hrun : Run dirStep ok s ops s') (hs : P s)
    (hstep : ∀ s op s', P s → ok s op → dirStep s op = some s' →
      s'.paging.pfa.overcommitted = false → P s')
    (hclean : s'.paging.pfa.overcommitted = false) : P s' := by
  have hinv := hrun.invariant (fun s => s.paging.pfa.overcommitted = false → P s) ?_ fun _ => hs
  · exact hinv hclean
  · exact fun s op s' hP hok hst hc => hstep s op s' (hP ((dirStep_kept hst).clean hc)) hok hst hc

/-! ## Tables -/

/-- The tables of the directories are in use, and two slots share one only if they
    are the same slot of the kernel heap. -/
structure TablesOk (m : Paging) (ds : List Nat) : Prop where
  used : ∀ d ∈ ds, ∀ i, (m.dir d).tables i ≠ 0 → m.pfa.used ((m.dir d).tables i / 0x1000)
  share : ∀ d ∈ ds, ∀ e ∈ ds, ∀ i j, (m.dir d).tables i ≠ 0 →
    (m.dir d).tables i = (m.dir e).tables j → i = j ∧ (d = e ∨ heapTable i)

namespace TablesOk

/-- The slots are the same, and no frame is released. -/
theorem congr (h : TablesOk m ds) (hslot : ∀ e j, (m'.dir e).tables j = (m.dir e).tables j)
    (hused : ∀ f, m.pfa.used f → m'.pfa.used f) : TablesOk m' ds where
  used e he j hne := by
    rw [hslot] at hne ⊢
    exact hused _ (h.used e he j hne)
  share e he e' he' j j' hne heq := by
    rw [hslot] at hne heq
    rw [hslot] at heq
    exact h.share e he e' he' j j' hne heq

/-- A free frame becomes the table of a slot. -/
theorem install (d i : Nat) (h : TablesOk m ds) (hfree : ¬ m.pfa.used (T / 0x1000))
    (hused : ∀ f, m.pfa.used f → m'.pfa.used f) (hT : m'.pfa.used (T / 0x1000))
    (hslot : ∀ e j, (m'.dir e).tables j = if e = d ∧ j = i then T else (m.dir e).tables j) :
    TablesOk m' ds := by
  -- the frame was free, so no slot names it yet
  have hold : ∀ e ∈ ds, ∀ j, (m.dir e).tables j ≠ 0 → (m.dir e).tables j ≠ T :=
    fun e he j hne heq =>
    hfree (heq ▸ h.used e he j hne)
  constructor
  · intro e he j hne
    rw [hslot] at hne ⊢
    split
    · exact hT
    · rename_i hnew
      rw [if_neg hnew] at hne
      exact hused _ (h.used e he j hne)
  · intro e he e' he' j j' hne heq
    rw [hslot] at hne heq
    rw [hslot] at heq
    -- the new slot and an old one cannot have the same table
    by_cases hnew : e = d ∧ j = i <;> by_cases hnew' : e' = d ∧ j' = i
    · exact ⟨hnew.2.trans hnew'.2.symm, .inl (hnew.1.trans hnew'.1.symm)⟩
    · rw [if_pos hnew] at hne heq
      rw [if_neg hnew'] at heq
      exact absurd heq.symm (hold e' he' j' (heq ▸ hne))
    · rw [if_neg hnew] at hne heq
      rw [if_pos hnew'] at heq
      exact absurd heq (hold e he j hne)
    · rw [if_neg hnew] at hne heq
      rw [if_neg hnew'] at heq
      exact h.share e he e' he' j j' hne heq

/-- A slot of the kernel heap is copied. -/
theorem copySlot (c : Nat) (h : TablesOk m ds) (hd : d ∈ ds) (hi : heapTable i)
    (hused : ∀ f, m.pfa.used f → m'.pfa.used f)
    (hslot : ∀ e j, (m'.dir e).tables j = if e = c ∧ j = i then (m.dir d).tables i
      else (m.dir e).tables j) :
    TablesOk m' ds := by
  -- every slot is read from a slot with the same number
  have hfrom : ∀ e ∈ ds, ∀ j, ∃ e' ∈ ds, (m'.dir e).tables j = (m.dir e').tables j ∧
      (e' = e ∨ heapTable j) := by
    intro e he j
    rw [hslot]
    split
    · rename_i hnew
      exact ⟨d, hd, by rw [hnew.2], .inr (hnew.2 ▸ hi)⟩
    · exact ⟨e, he, rfl, .inl rfl⟩
  constructor
  · intro e he j hne
    obtain ⟨e', he', heq, -⟩ := hfrom e he j
    rw [heq] at hne ⊢
    exact hused _ (h.used e' he' j hne)
  · intro e he e₂ he₂ j j₂ hne heq
    obtain ⟨e', he', hsame, hor⟩ := hfrom e he j
    obtain ⟨e₂', he₂', hsame₂, hor₂⟩ := hfrom e₂ he₂ j₂
    rw [hsame] at hne heq
    rw [hsame₂] at heq
    obtain ⟨rfl, hshare⟩ := h.share e' he' e₂' he₂' j j₂ hne heq
    refine ⟨rfl, ?_⟩
    rcases hor with rfl | hheap
    · rcases hor₂ with rfl | hheap
      · exact hshare
      · exact .inr hheap
    · exact .inr hheap

/-- A new table belongs to one directory only. -/
theorem requestPage (h : TablesOk m ds)
    (hclean : (pdeRequestPage m d v).pfa.overcommitted = false) :
    TablesOk (pdeRequestPage m d v) ds := by
  unfold pdeRequestPage at hclean ⊢
  dsimp only at hclean ⊢
  split
  -- the slot is empty: the frame that is requested was free
  · rename_i hz
    rw [if_pos hz] at hclean
    have htaken := requestPage_spec hclean
    refine h.install d (v / 0x1000 / 1024) htaken.free (fun f hf => (htaken.used f).mpr (.inl hf))
        ((htaken.used _).mpr (.inr rfl)) ?_
    intro e j
    obtain rfl | hne := eq_or_ne e d
    · by_cases hj : j = v / 0x1000 / 1024
      · simp [Paging.setTable, Paging.setDir, PageDirectory.install, hj]
      · simp [Paging.setTable, Paging.setDir, PageDirectory.install, Paging.requestPage, hj]
    · simp [Paging.setTable, Paging.setDir, Paging.requestPage, hne]
  · exact h

/-- The same for a round of `pde_init`. -/
theorem initSlot (h : TablesOk m ds) (hclean : (pdeInitSlot d m i).pfa.overcommitted = false) :
    TablesOk (pdeInitSlot d m i) ds := by
  unfold pdeInitSlot at hclean ⊢
  dsimp only at hclean ⊢
  split
  -- a slot that has a table is only marked
  · refine h.congr ?_ fun f hf => hf
    intro e j
    obtain rfl | hne := eq_or_ne e d
    · simp [Paging.setDir, PageDirectory.install]
    · simp [Paging.setDir, hne]
  · rename_i hz
    split
    · rename_i hheap
      rw [if_neg hz, if_pos hheap] at hclean
      -- an empty slot of the heap gets a frame that was free
      have htaken := requestPage_spec hclean
      refine h.install d i htaken.free (fun f hf => (htaken.used f).mpr (.inl hf))
        ((htaken.used _).mpr (.inr rfl)) ?_
      intro e j
      obtain rfl | hne := eq_or_ne e d
      · by_cases hj : j = i
        · simp [Paging.setDir, PageDirectory.install, hj]
        · simp [Paging.setDir, PageDirectory.install, Paging.requestPage, hj]
      · simp [Paging.setDir, Paging.requestPage, hne]
    · exact h

/-- The same for `pde_init`. -/
theorem init (h : TablesOk m ds) (hclean : (pdeInit m d).pfa.overcommitted = false) :
    TablesOk (pdeInit m d) ds := by
  unfold pdeInit at hclean ⊢
  apply forSlots_invariant (P := fun m => TablesOk m ds) (pdeInitSlot_kept d)
    (fun m i hm hc => hm.initSlot hc) 1024 0 _ _ hclean
  refine h.congr ?_ fun f hf => hf
  intro e j
  obtain rfl | hne := eq_or_ne e d
  · simp [Paging.setDir]
  · simp [Paging.setDir, hne]

/-- The same for a round of `pde_clone`. -/
theorem cloneSlot (h : TablesOk m ds) (hd : d ∈ ds)
    (hclean : (pdeCloneSlot d c m i).pfa.overcommitted = false) :
    TablesOk (pdeCloneSlot d c m i) ds := by
  unfold pdeCloneSlot at hclean ⊢
  dsimp only at hclean ⊢
  split
  -- a slot of the heap is shared with the original
  · rename_i hheap
    refine h.copySlot c hd hheap (fun f hf => hf) ?_
    intro e j
    obtain rfl | hne := eq_or_ne e c
    · by_cases hj : j = i
      · simp [Paging.setDir, hj]
      · simp [Paging.setDir, hj]
    · simp [Paging.setDir, hne]
  · rename_i hheap
    split
    · rename_i htable
      rw [if_neg hheap, if_pos htable] at hclean
      -- another one is copied into a frame that was free
      have htaken := requestPage_spec hclean
      refine h.install c i htaken.free (fun f hf => (htaken.used f).mpr (.inl hf))
        ((htaken.used _).mpr (.inr rfl)) ?_
      intro e j
      obtain rfl | hne := eq_or_ne e c
      · by_cases hj : j = i
        · simp [Paging.setTable, Paging.setDir, hj]
        · simp [Paging.setTable, Paging.setDir, Paging.requestPage, hj]
      · simp [Paging.setTable, Paging.setDir, Paging.requestPage, hne]
    · exact h

/-- The same for `pde_clone`. -/
theorem clone (h : TablesOk m ds) (hd : d ∈ ds) (hclone : pdeClone m d = some (c, m'))
    (hclean : m'.pfa.overcommitted = false) : TablesOk m' (c :: ds) := by
  simp only [pdeClone, pdeAlloc, Option.bind_eq_bind, Option.bind_eq_some_iff, Option.some.injEq,
    Prod.mk.injEq, Prod.exists] at hclone
  obtain ⟨a, m₁, ⟨b, p, hp, rfl, rfl⟩, rfl, rfl⟩ := hclone
  obtain ⟨hused, -, -⟩ := pfaRequestPages_spec hp
  apply init _ hclean
  apply forSlots_invariant (P := fun m => TablesOk m (b :: ds)) (pdeCloneSlot_kept d b)
    (fun m i hm hc => hm.cloneSlot (List.mem_cons_of_mem _ hd) hc) 1024 0 _ _
      ((pdeInit_kept _ b).clean hclean)
  -- the new directory is empty
  have hslot : ∀ e j,
    ((({ m with pfa := p } : Paging).setDir b ⟨fun _ => 0, fun _ => 0, 0⟩).dir e).tables j =
      if e = b then 0 else (m.dir e).tables j := by
    intro e j
    obtain rfl | hne := eq_or_ne e b
    · simp [Paging.setDir]
    · simp [Paging.setDir, hne]
  have hmem : ∀ e ∈ b :: ds, e ≠ b → e ∈ ds :=
    fun e he hne => (List.mem_cons.mp he).resolve_left hne
  constructor
  · intro e he j hne
    rw [hslot] at hne ⊢
    by_cases hb : e = b
    · simp [hb] at hne
    · rw [if_neg hb] at hne ⊢
      exact hused _ (h.used e (hmem e he hb) j hne)
  · intro e he e' he' j j' hne heq
    rw [hslot] at hne heq
    rw [hslot] at heq
    by_cases hb : e = b
    · simp [hb] at hne
    · rw [if_neg hb] at hne heq
      by_cases hb' : e' = b
      · rw [if_pos hb'] at heq
        exact absurd heq hne
      · rw [if_neg hb'] at heq
        exact h.share e (hmem e he hb) e' (hmem e' he' hb') j j' hne heq

end TablesOk

/-! ## Other directories, other slots -/

/-- `pde_init` leaves other directories alone. -/
theorem pdeInit_other (m : Paging) (hne : e ≠ d) : (pdeInit m d).dir e = m.dir e := by
  unfold pdeInit
  apply forSlots_always (P := fun x => x.dir e = m.dir e)
  · intro x i hx
    unfold pdeInitSlot
    dsimp only
    split
    · simpa [Paging.setDir, hne] using hx
    · split
      · simpa [Paging.setDir, Paging.requestPage, hne] using hx
      · exact hx
  · simp [Paging.setDir, hne]

/-- So does a request. -/
theorem pdeRequestPage_other (m : Paging) (v : Nat) (hne : e ≠ d) :
    (pdeRequestPage m d v).dir e = m.dir e := by
  unfold pdeRequestPage
  dsimp only
  split
  · simp [Paging.setTable, Paging.setDir, Paging.requestPage, hne]
  · rfl

/-- A table stays in its slot. -/
theorem pdeRequestPage_keeps (m : Paging) (v : Nat) (hj : (m.dir d).tables j ≠ 0) :
    ((pdeRequestPage m d v).dir d).tables j = (m.dir d).tables j := by
  unfold pdeRequestPage
  dsimp only
  split
  · rename_i hz
    have hne : j ≠ v / 0x1000 / 1024 := fun e => hj (e ▸ hz)
    simp [Paging.setTable, Paging.setDir, PageDirectory.install, Paging.requestPage, hne]
  · rfl

/-- All tables start at pages. -/
theorem pdeInit_aligned (h : Aligned m d) : Aligned (pdeInit m d) d := by
  unfold pdeInit
  apply forSlots_always (P := fun m => Aligned m d) fun m i hm => pdeInitSlot_aligned hm i
  intro i hi
  simpa [Paging.setDir] using h i hi

/-- After `pde_init` the tables of the kernel heap are there. -/
theorem pdeInit_heap (hclean : (pdeInit m d).pfa.overcommitted = false) (hj : heapTable j) :
    ((pdeInit m d).dir d).tables j ≠ 0 := by
  have hlt : j < 1024 := by
    have hend : HEAP_END_TABLE = 576 := rfl
    have := hj.2
    omega
  -- the round of slot `j` puts a table there
  have hset : ∀ x : Paging, (pdeInitSlot d x j).pfa.overcommitted = false →
      ((pdeInitSlot d x j).dir d).tables j ≠ 0 := by
    intro x hclean
    unfold pdeInitSlot at hclean ⊢
    dsimp only at hclean ⊢
    split
    · rename_i hne
      simpa [Paging.setDir, PageDirectory.install] using hne
    · rename_i hz
      rw [if_neg hz, if_pos hj] at hclean
      simpa [Paging.setDir, PageDirectory.install] using (requestPage_spec hclean).ne
  unfold pdeInit at hclean ⊢
  exact forSlots_slot (pdeInitSlot d) (j := j) (Q := fun _ => True)
    (P := fun x => x.pfa.overcommitted = false → (x.dir d).tables j ≠ 0) (fun _ _ _ => trivial)
    (fun x _ => hset x)
    (fun x i hx hc => by
      have hne := hx ((pdeInitSlot_kept d x i).clean hc)
      rwa [pdeInitSlot_keeps hne])
    1024 0 _ (Nat.zero_le _) (by omega) trivial hclean

/-! ## The invariant -/

/-- What holds of the directories while requests are answered with free frames. -/
structure DirInv (s : DirWorld) : Prop where
  tables : TablesOk s.paging s.dirs
  used : ∀ d ∈ s.dirs, s.paging.pfa.used (d / 0x1000)
  aligned : ∀ d ∈ s.dirs, Aligned s.paging d
  inited : ∀ d ∈ s.inited, d ∈ s.dirs ∧ ∀ i, heapTable i → (s.paging.dir d).tables i ≠ 0

/-- One directory without tables. -/
theorem DirInv.start (hd : m.pfa.used (d / 0x1000)) : DirInv (.start m d) where
  tables := by
    constructor
    · intro e he i hne
      obtain rfl := List.mem_singleton.mp he
      simp [DirWorld.start] at hne
    · intro e he _ _ i _ hne
      obtain rfl := List.mem_singleton.mp he
      simp [DirWorld.start] at hne
  used e he := by
    obtain rfl := List.mem_singleton.mp he
    exact hd
  aligned e he := by
    obtain rfl := List.mem_singleton.mp he
    intro i _
    simp [DirWorld.start]
  inited e he := nomatch he

/-- The other directories are the same, and a slot that leads to a table keeps it. -/
structure SlotsKept (s s' : DirWorld) (op : DirOp) : Prop where
  other : ∀ e ∈ s.dirs, e ≠ op.dir → s'.paging.dir e = s.paging.dir e
  keeps : ∀ e ∈ s.dirs, ∀ j, (s.paging.dir e).tables j ≠ 0 →
    (s'.paging.dir e).tables j = (s.paging.dir e).tables j

/-- A step that only requests a table keeps all others. -/
theorem SlotsKept.of_request (hdirs : s'.paging.dir = (pdeRequestPage s.paging op.dir v).dir) :
    SlotsKept s s' op where
  other e _ hne := by rw [hdirs, pdeRequestPage_other _ _ hne]
  keeps e _ j hj := by
    rw [hdirs]
    obtain rfl | hne := eq_or_ne e op.dir
    · exact pdeRequestPage_keeps _ _ hj
    · rw [pdeRequestPage_other _ _ hne]

/-- Every step keeps the tables that are there. -/
theorem DirInv.slotsKept (h : DirInv s) (hst : dirStep s op = some s')
    (hclean : s'.paging.pfa.overcommitted = false) : SlotsKept s s' op := by
  cases op with
  | init d =>
    obtain rfl := Option.some.inj hst
    constructor
    · exact fun e _ hne => pdeInit_other _ hne
    · intro e _ j hj
      obtain rfl | hne := eq_or_ne e d
      · exact pdeInit_keeps hj
      · exact congrArg (fun x => x.tables j) (pdeInit_other _ hne)
  | request d v =>
    obtain rfl := Option.some.inj hst
    exact .of_request rfl
  | map d v physical =>
    obtain rfl := Option.some.inj hst
    exact .of_request rfl
  | mapUser d v physical =>
    obtain rfl := Option.some.inj hst
    exact .of_request rfl
  | clone d =>
    simp only [dirStep, Option.bind_eq_bind, Option.bind_eq_some_iff, Prod.exists] at hst
    obtain ⟨c, m', hclone, hst⟩ := hst
    obtain rfl := Option.some.inj hst
    -- the clone lies in frames that were free
    have hsame : ∀ e ∈ s.dirs, m'.dir e = s.paging.dir e := fun e he =>
      (pdeClone_spec hclone hclean).kept.dir e (h.used e he)
    exact ⟨fun e he _ => hsame e he, fun e he j _ => by rw [hsame e he]⟩

/-- The parts of the invariant that a step without a clone keeps. -/
theorem DirInv.of_slotsKept (h : DirInv s) (hk : SlotsKept s s' op) (hst : dirStep s op = some s')
    (hdirs : s'.dirs = s.dirs) (htables : TablesOk s'.paging s.dirs)
    (haligned : Aligned s.paging op.dir → Aligned s'.paging op.dir)
    (hinited : ∀ e ∈ s'.inited, e ∈ s.inited ∨ e ∈ s.dirs ∧
      ∀ i, heapTable i → (s'.paging.dir e).tables i ≠ 0) : DirInv s' where
  tables := hdirs ▸ htables
  used e he := (dirStep_kept hst).used _ (h.used e (hdirs ▸ he))
  aligned e he := by
    rw [hdirs] at he
    obtain rfl | hne := eq_or_ne e op.dir
    · exact haligned (h.aligned _ he)
    · intro i hi
      -- the directories the step does not name keep their slots
      rw [hk.other e he hne]
      exact h.aligned e he i hi
  inited e he := by
    rw [hdirs]
    -- the tables of the heap stay, once they are there
    rcases hinited e he with hold | hnew
    · obtain ⟨hmem, hheap⟩ := h.inited e hold
      refine ⟨hmem, fun i hi => ?_⟩
      rw [hk.keeps e hmem i (hheap i hi)]
      exact hheap i hi
    · exact hnew

/-- Every step keeps the invariant. -/
theorem DirInv.step (h : DirInv s) (hok : DirOpOk s op) (hst : dirStep s op = some s')
    (hclean : s'.paging.pfa.overcommitted = false) : DirInv s' := by
  have hk := h.slotsKept hst hclean
  have hst' := hst
  -- only a clone adds a directory
  cases op with
  | init d =>
    obtain rfl := Option.some.inj hst
    apply h.of_slotsKept hk hst' rfl (h.tables.init hclean) pdeInit_aligned
    intro e he
    rcases List.mem_cons.mp he with rfl | he
    · exact .inr ⟨hok, fun i => pdeInit_heap hclean⟩
    · exact .inl he
  | request d v =>
    obtain rfl := Option.some.inj hst
    exact h.of_slotsKept hk hst' rfl (h.tables.requestPage hclean)
      (fun ha => pdeRequestPage_aligned ha _)
      fun e => .inl
  | map d v physical =>
    obtain rfl := Option.some.inj hst
    exact h.of_slotsKept hk hst' rfl ((h.tables.requestPage hclean).congr
      (fun _ _ => rfl) fun _ => id)
      (fun ha => pdeRequestPage_aligned ha _) fun e => .inl
  | mapUser d v physical =>
    obtain rfl := Option.some.inj hst
    exact h.of_slotsKept hk hst' rfl ((h.tables.requestPage hclean).congr
      (fun _ _ => rfl) fun _ => id)
      (fun ha => pdeRequestPage_aligned ha _) fun e => .inl
  | clone d =>
    simp only [dirStep, Option.bind_eq_bind, Option.bind_eq_some_iff, Prod.exists] at hst
    obtain ⟨c, m', hclone, hst⟩ := hst
    obtain rfl := Option.some.inj hst
    have hc := pdeClone_spec hclone hclean
    constructor
    · exact h.tables.clone hok hclone hclean
    -- the copy is in a frame that was free, the others stay in use
    · intro e he
      rcases List.mem_cons.mp he with rfl | he
      · exact (hc.frames _ (mem_runFrames_self hc.lt (by decide))).2
      · exact hc.kept.used _ (h.used e he)
    · intro e he
      rcases List.mem_cons.mp he with rfl | he
      · exact pdeClone_aligned hclone
      · intro i hi
        rw [hc.kept.dir e (h.used e he)]
        exact h.aligned e he i hi
    · intro e he
      rcases List.mem_cons.mp he with rfl | he
      -- the tables of the heap are those of the original
      · refine ⟨List.mem_cons_self, fun i hi => ?_⟩
        simp only [pdeClone, pdeAlloc, Option.bind_eq_bind, Option.bind_eq_some_iff,
          Option.some.injEq,
          Prod.mk.injEq, Prod.exists] at hclone
        obtain ⟨a, m₁, -, rfl, rfl⟩ := hclone
        exact pdeInit_heap hclean hi
      · obtain ⟨hmem, hheap⟩ := h.inited e he
        refine ⟨List.mem_cons_of_mem _ hmem, fun i hi => ?_⟩
        rw [hk.keeps e hmem i (hheap i hi)]
        exact hheap i hi

/-- So does every run. -/
theorem DirInv.run (h : DirInv s) (hrun : Run dirStep DirOpOk s ops s')
    (hclean : s'.paging.pfa.overcommitted = false) : DirInv s' :=
  dirRun_invariant hrun h (fun _ _ _ hs hok hst hc => hs.step hok hst hc) hclean

/-! ## Translations -/

/-- The entry that `pde_get_phys_addr` reads: the frame of an address, and its flags. -/
def pageEntry (m : Paging) (d v : Nat) : Page :=
  m.table ((m.dir d).tables (v / 0x1000 / 1024)) (v / 0x1000 % 1024)

/-- The frame of the entry and the offset in the page. -/
theorem pdeGetPhysAddr_eq (m : Paging) (d v : Nat) :
    pdeGetPhysAddr m d v = (pageEntry m d v).address * 0x1000 + v % 0x1000 := rfl

/-- What a directory says of an address, if there is a table for it. -/
def translate (m : Paging) (d v : Nat) : Option Page :=
  if (m.dir d).tables (v / 0x1000 / 1024) = 0 then none else some (pageEntry m d v)

/-- An address is translated if its slot has a table. -/
theorem translate_isSome : (translate m d v).isSome ↔ (m.dir d).tables (v / 0x1000 / 1024) ≠ 0 := by
  unfold translate
  split <;> simp_all

/-- The translation only depends on slot and entry. -/
theorem translate_congr
    (hslot : (m'.dir e).tables (v / 0x1000 / 1024) = (m.dir d).tables (v / 0x1000 / 1024))
    (hentry : pageEntry m' e v = pageEntry m d v) : translate m' e v = translate m d v := by
  unfold translate
  rw [hslot, hentry]

variable {g : Page → Page}

/-- A map call writes to the table of its address only. -/
theorem map_table {a : Nat} (ha : a ≠ ((pdeRequestPage m d v).dir d).tables (v / 0x1000 / 1024)) :
    ((pdeRequestPage m d v).setPage d v g).table a = m.table a := by
  have hset : ((pdeRequestPage m d v).setPage d v g).table a = (pdeRequestPage m d v).table a :=
    Function.update_of_ne ha _ _
  rw [hset]
  unfold pdeRequestPage at ha ⊢
  dsimp only at ha ⊢
  split
  · rename_i hz
    rw [if_pos hz] at ha
    have hne : a ≠ m.requestPage.1 := by
      simpa [Paging.setTable, Paging.setDir, PageDirectory.install] using ha
    exact Function.update_of_ne hne _ _
  · rfl

/-- What a mapping call does once the table is there. -/
theorem dirStep_map {v physical : BitVec 32}
    (hop : op ∈ [DirOp.map d v physical, DirOp.mapUser d v physical])
    (hst : dirStep s op = some s') :
    ∃ g : Page → Page, (∀ page, (g page).address = physical.toNat / 0x1000) ∧
      s' = { s with paging := (pdeRequestPage s.paging d v.toNat).setPage d v.toNat g } := by
  simp only [List.mem_cons, List.not_mem_nil, or_false] at hop
  rcases hop with rfl | rfl
  · obtain rfl := Option.some.inj hst
    exact ⟨_, fun _ => rfl, rfl⟩
  · obtain rfl := Option.some.inj hst
    exact ⟨_, fun _ => rfl, rfl⟩

/-- Outside the kernel heap a mapping is not seen in another directory. -/
theorem TablesOk.map_other (h : TablesOk m ds) (hd : d ∈ ds) (he : e ∈ ds) (hne : e ≠ d)
    (hv : ¬ heapTable (v / 0x1000 / 1024))
    (hclean : (pdeRequestPage m d v).pfa.overcommitted = false)
    (v' : Nat) : translate ((pdeRequestPage m d v).setPage d v g) e v' = translate m e v' := by
  have hdir : ((pdeRequestPage m d v).setPage d v g).dir e = m.dir e := pdeRequestPage_other m v hne
  have hok := h.requestPage hclean
  obtain ⟨-, -, hslot, -⟩ :=
    pdeRequestPage_spec (u := fun _ => False) hclean (fun _ hf => hf.elim) id
  apply translate_congr (by rw [hdir])
  unfold pageEntry
  rw [hdir, map_table]
  intro heq
  -- the table written is not one of the other directory
  rw [← pdeRequestPage_other m v hne] at heq
  rcases (hok.share d hd e he _ _ hslot heq.symm).2 with hde | hheap
  · exact hne hde.symm
  · exact hv hheap

/-- Nothing is requested for a slot that has a table. -/
theorem pdeRequestPage_there (hslot : (m.dir d).tables (v / 0x1000 / 1024) ≠ 0) :
    pdeRequestPage m d v = m := by
  unfold pdeRequestPage
  dsimp only
  rw [if_neg hslot]

/-- In the kernel heap both directories lead to the entry that is written. -/
theorem map_shared (hslot : (m.dir d).tables (v / 0x1000 / 1024) ≠ 0)
    (hsame : (m.dir e).tables (v / 0x1000 / 1024) = (m.dir d).tables (v / 0x1000 / 1024)) :
    pageEntry ((pdeRequestPage m d v).setPage d v g) e v = g (pageEntry m d v) := by
  rw [pdeRequestPage_there hslot]
  simp [pageEntry, Paging.setPage, Paging.setTable, hsame]

/-- An address of the kernel heap. -/
def InHeap (v : Nat) : Prop := HEAP_START ≤ v ∧ v < HEAP_END

instance (v : Nat) : Decidable (InHeap v) := inferInstanceAs (Decidable (_ ∧ _))

/-- The slots of the heap hold the addresses of the heap. -/
theorem heapTable_iff (v : Nat) : heapTable (v / 0x1000 / 1024) ↔ InHeap v := by
  have h₁ : HEAP_START_TABLE = 512 := rfl
  have h₂ : HEAP_END_TABLE = 576 := rfl
  have h₃ : HEAP_START = 0x80000000 := rfl
  have h₄ : HEAP_END = 0x90000000 := rfl
  unfold heapTable InHeap
  omega

/-- A call maps a page of the directory `d` outside the kernel heap. -/
def DirOp.MapsOutside (d : Nat) : DirOp → Prop
  | .map d' v _ | .mapUser d' v _ => d' = d ∧ ¬ InHeap v.toNat
  | _ => False

/-- The operation is for this directory. -/
theorem DirOp.MapsOutside.dir_eq (h : op.MapsOutside d) : op.dir = d := by
  cases op with
  | map | mapUser => exact h.1
  | init | request | clone => exact h.elim

/-- Mapping a page outside the heap is not seen in another directory. -/
theorem DirInv.mapsOutside (h : DirInv s) (hd : d ∈ s.dirs) (he : e ∈ s.dirs) (hne : e ≠ d)
    (hop : op.MapsOutside d) (hst : dirStep s op = some s')
    (hclean : s'.paging.pfa.overcommitted = false) (v : Nat) :
    s'.dirs = s.dirs ∧ translate s'.paging e v = translate s.paging e v := by
  obtain ⟨v', physical, hmap, hout⟩ : ∃ v' physical : BitVec 32,
      op ∈ [DirOp.map d v' physical, DirOp.mapUser d v' physical] ∧ ¬ InHeap v'.toNat := by
    cases op with
    | map d' v' physical =>
      obtain ⟨rfl, hout⟩ := hop
      exact ⟨v', physical, by simp, hout⟩
    | mapUser d' v' physical =>
      obtain ⟨rfl, hout⟩ := hop
      exact ⟨v', physical, by simp, hout⟩
    | init | request | clone => exact hop.elim
  obtain ⟨g, -, rfl⟩ := dirStep_map hmap hst
  exact ⟨rfl, h.tables.map_other hd he hne
    (fun hheap => hout ((heapTable_iff _).mp hheap)) hclean v⟩

/-- Any number of mappings outside the kernel heap. -/
theorem DirInv.mapsOutside_run (h : DirInv s) (hd : d ∈ s.dirs) (he : e ∈ s.dirs) (hne : e ≠ d)
    (hrun : Run dirStep (fun _ op => op.MapsOutside d) s ops s')
    (hclean : s'.paging.pfa.overcommitted = false) (v : Nat) :
    translate s'.paging e v = translate s.paging e v := by
  have hinv : (DirInv s' ∧ s'.dirs = s.dirs) ∧
      translate s'.paging e v = translate s.paging e v := by
    refine dirRun_invariant (P := fun t => (DirInv t ∧ t.dirs = s.dirs) ∧
      translate t.paging e v = translate s.paging e v) hrun ⟨⟨h, rfl⟩, rfl⟩ ?_ hclean
    rintro t op t' ⟨⟨ht, hdirs⟩, hsame⟩ hop hst hc
    have hok : DirOpOk t op := by
      rw [DirOpOk, hop.dir_eq, hdirs]
      exact hd
    obtain ⟨hdirs', hsame'⟩ := ht.mapsOutside (hdirs ▸ hd) (hdirs ▸ he) hne hop hst hc v
    exact ⟨⟨ht.step hok hst hc, hdirs'.trans hdirs⟩, hsame'.trans hsame⟩
  exact hinv.2

/-! ## A directory and its clone -/

/-- Two directories that share the kernel heap. -/
structure Siblings (s : DirWorld) (d c : Nat) : Prop where
  left : d ∈ s.inited
  right : c ∈ s.inited
  ne : d ≠ c
  heap : ∀ i, heapTable i → (s.paging.dir c).tables i = (s.paging.dir d).tables i

/-- Neither of the two comes first. -/
theorem Siblings.symm (h : Siblings s d c) : Siblings s c d :=
  ⟨h.right, h.left, h.ne.symm, fun i hi => (h.heap i hi).symm⟩

/-- They go on sharing the tables of the heap. -/
theorem Siblings.step (h : Siblings s d c) (hinv : DirInv s) (hst : dirStep s op = some s')
    (hclean : s'.paging.pfa.overcommitted = false) : Siblings s' d c := by
  have hk := hinv.slotsKept hst hclean
  -- a directory that was initialised stays so
  have hmono : ∀ e ∈ s.inited, e ∈ s'.inited := by
    intro e he
    cases op with
    | init d =>
      obtain rfl := Option.some.inj hst
      exact List.mem_cons_of_mem _ he
    | request | map | mapUser =>
      obtain rfl := Option.some.inj hst
      exact he
    | clone d =>
      simp only [dirStep, Option.bind_eq_bind, Option.bind_eq_some_iff, Prod.exists] at hst
      obtain ⟨b, m', -, hst⟩ := hst
      obtain rfl := Option.some.inj hst
      exact List.mem_cons_of_mem _ he
  refine ⟨hmono d h.left, hmono c h.right, h.ne, fun i hi => ?_⟩
  obtain ⟨hd, hdne⟩ := hinv.inited d h.left
  obtain ⟨hc, hcne⟩ := hinv.inited c h.right
  rw [hk.keeps d hd i (hdne i hi), hk.keeps c hc i (hcne i hi)]
  exact h.heap i hi

/-- A copy and its original share the tables of the heap. -/
theorem DirInv.clone_siblings (h : DirInv s) (hd : d ∈ s.inited)
    (hclone : pdeClone s.paging d = some (c, m'))
    (hclean : m'.pfa.overcommitted = false) : Siblings ⟨m', c :: s.dirs, c :: s.inited⟩ d c := by
  obtain ⟨hmem, hheap⟩ := h.inited d hd
  have hc := pdeClone_spec hclone hclean
  have hne : d ≠ c := by
    rintro rfl
    exact (hc.frames _ (mem_runFrames_self hc.lt (by decide))).1 (h.used d hmem)
  refine ⟨List.mem_cons_of_mem _ hd, List.mem_cons_self, hne, fun i hi => ?_⟩
  show (m'.dir c).tables i = (m'.dir d).tables i
  rw [hc.kept.dir d (h.used d hmem)]
  exact pdeClone_heap hclone hne hi (hheap i hi)

/-- Where the original has a table, the clone leads to the same entry. -/
theorem DirInv.clone_entry (h : DirInv s) (hd : d ∈ s.inited)
    (hclone : pdeClone s.paging d = some (c, m'))
    (hclean : m'.pfa.overcommitted = false) (hv : v < 4294967296)
    (htable : (translate m' d v).isSome) : translate m' c v = translate m' d v := by
  rw [translate_isSome] at htable
  obtain ⟨hmem, -⟩ := h.inited d hd
  have hc := pdeClone_spec hclone hclean
  have hdir := hc.kept.dir d (h.used d hmem)
  -- a slot of the heap is shared, another one was copied entry by entry
  by_cases hheap : heapTable (v / 0x1000 / 1024)
  · have hsame := (h.clone_siblings hd hclone hclean).heap _ hheap
    have hsame : (m'.dir c).tables (v / 0x1000 / 1024) = (m'.dir d).tables (v / 0x1000 / 1024) :=
      hsame
    rw [translate, translate, pageEntry, pageEntry, hsame]
  · rw [hdir] at htable
    have hused := h.tables.used d hmem _ htable
    have haligned := h.aligned d hmem _ hheap
    obtain ⟨hne, hcopy⟩ := pdeClone_copied hclone hclean (h.used d hmem) hheap htable
      (fun e => by simp [e] at haligned) hused (by omega)
    rw [translate, translate, if_neg hne, hdir, if_neg htable, pageEntry, pageEntry, hcopy, hdir,
      hc.kept.table _ hused]

/-- A directory that has been through `pde_init` and its clone: they start with the same
    translations; in every later state mappings outside the kernel heap are seen in one of the two
    only, and mappings inside it in both. -/
theorem clone_run_separate {ops' : List DirOp} {k : Nat} (hk : m.pfa.used (k / 0x1000))
    (hrun : Run dirStep DirOpOk (.start m k) ops s) (hd : d ∈ s.inited)
    (hclone : pdeClone s.paging d = some (c, m'))
    (hrun' : Run dirStep DirOpOk ⟨m', c :: s.dirs, c :: s.inited⟩ ops' t)
    (hclean : t.paging.pfa.overcommitted = false) :
    (∀ v < 4294967296, (translate m' d v).isSome → translate m' c v = translate m' d v) ∧
    ∀ e f, e = d ∧ f = c ∨ e = c ∧ f = d →
      (∀ ops'' t', Run dirStep (fun _ op => op.MapsOutside e) t ops'' t' →
        t'.paging.pfa.overcommitted = false →
        ∀ v, translate t'.paging f v = translate t.paging f v) ∧
      ∀ v physical : BitVec 32, InHeap v.toNat →
        ∀ op ∈ [DirOp.map e v physical, DirOp.mapUser e v physical], ∀ t', dirStep t op = some t' →
          translate t'.paging f v.toNat = translate t'.paging e v.toNat ∧
          (translate t'.paging f v.toNat).isSome ∧
          pdeGetPhysAddr t'.paging f v.toNat =
            physical.toNat / 0x1000 * 0x1000 + v.toNat % 0x1000 := by
  -- what is clean at the end was clean all the way
  have hclean' : m'.pfa.overcommitted = false := by
    have hkept : Kept (fun _ => False) m' t.paging := by
      apply hrun'.invariant (fun t => Kept (fun _ => False) m' t.paging)
      · exact fun s op s' hs _ hst => hs.trans (dirStep_kept hst)
      · exact .refl _ m'
    exact hkept.clean hclean
  have hs : DirInv s := (DirInv.start hk).run hrun ((pdeClone_kept hclone).clean hclean')
  have hmem := (hs.inited d hd).1
  have hst : dirStep s (.clone d) = some ⟨m', c :: s.dirs, c :: s.inited⟩ := dirStep_clone hclone
  have hok : DirOpOk s (.clone d) := hmem
  -- the two share the heap from the clone on
  obtain ⟨ht, hsib⟩ : DirInv t ∧ Siblings t d c := by
    apply dirRun_invariant (P := fun t => DirInv t ∧ Siblings t d c) hrun' _ _ hclean
    · exact ⟨hs.step hok hst hclean', hs.clone_siblings hd hclone hclean'⟩
    · exact fun s op s' h hok hst hc => ⟨h.1.step hok hst hc, h.2.step h.1 hst hc⟩
  refine ⟨fun v hv => hs.clone_entry hd hclone hclean' hv, fun e f hef => ?_⟩
  -- the statement is symmetric in the two directories
  have hsib : Siblings t e f := by
    rcases hef with ⟨rfl, rfl⟩ | ⟨rfl, rfl⟩
    · exact hsib
    · exact hsib.symm
  obtain ⟨he, hheap⟩ := ht.inited e hsib.left
  constructor
  · exact fun ops'' t' hrun'' hc v =>
      ht.mapsOutside_run he (ht.inited f hsib.right).1 hsib.ne.symm hrun'' hc v
  · intro v physical hv op hop t' hst
    have hslot := (heapTable_iff v.toNat).mpr hv
    have hne := hheap _ hslot
    -- the table of the slot is one and the same, so its entry is too
    have hsame := hsib.heap _ hslot
    obtain ⟨g, hg, rfl⟩ := dirStep_map hop hst
    have hf := map_shared (g := g) hne hsame
    have hself := map_shared (g := g) hne rfl
    have hdir : ∀ a, ((pdeRequestPage t.paging e v.toNat).setPage e v.toNat g).dir a =
        t.paging.dir a := by
      intro a
      show (pdeRequestPage t.paging e v.toNat).dir a = t.paging.dir a
      rw [pdeRequestPage_there hne]
    refine ⟨translate_congr (by rw [hdir, hdir, hsame]) (hf.trans hself.symm), ?_, ?_⟩
    · rw [translate_isSome, hdir, hsame]
      exact hne
    rw [pdeGetPhysAddr_eq]
    dsimp only
    rw [hf, hg]

/-- The frames below 300 are in use, and paging is still off. -/
def Paging.boot : Paging where
  pfa := ⟨fun f => f < 300, 300, 0, 0, false⟩
  dir := fun _ => ⟨fun _ => 0, fun _ => 0, 0⟩
  table := fun _ _ => Page.zero
  currentPageDirectory := 0

/-- After boot there are frames enough. -/
theorem Paging.boot_roomy {n : Nat} (hn : 300 + n ≤ PFA_BITS) : Roomy n Paging.boot := by
  refine ⟨300, hn, by decide, Nat.le_refl 300, fun f _ => ?_, rfl⟩
  have hbits : PFA_BITS = 1048576 := rfl
  unfold Pfa.used pfaGetBit
  split
  · simp
    omega
  · simp [Paging.boot]

/-- The directory can be cloned once a user page is mapped. -/
theorem boot_run : ∃ s c m', Run dirStep DirOpOk (.start .boot 0x2000)
      [.init 0x2000, .mapUser 0x2000 0x10000000 0x7000] s ∧
    0x2000 ∈ s.dirs ∧ 0x2000 ∈ s.inited ∧ pdeClone s.paging 0x2000 = some (c, m') ∧
    (m'.dir 0x2000).tables 64 ≠ 0 ∧ m'.pfa.overcommitted = false := by
  have hstart : Roomy (0 + 1024 + 1024 + 3 + 1 + 1024) (DirWorld.start .boot 0x2000).paging :=
    Paging.boot_roomy (by decide)
  have hinit := hstart.pdeInit (d := 0x2000)
  have hused : (pdeInit (DirWorld.start .boot 0x2000).paging 0x2000).pfa.used (0x2000 / 0x1000) :=
    (pdeInit_kept _ _).used _ rfl
  have hrun : ∀ v physical, Run dirStep DirOpOk (.start .boot 0x2000) [.init 0x2000,
    .mapUser 0x2000 v physical]
      ⟨pdeMapUserMemory (pdeInit (DirWorld.start .boot 0x2000).paging 0x2000) 0x2000 v.toNat
        physical.toNat,
        [0x2000], [0x2000]⟩ := fun _ _ =>
    .cons List.mem_cons_self rfl (.cons List.mem_cons_self rfl (.nil _))
  -- what is mapped and cloned does not depend on how the directory was initialised
  generalize pdeInit (DirWorld.start .boot 0x2000).paging 0x2000 = m at hinit hused hrun
  have hmap : Roomy (0 + 1024 + 1024 + 3) (pdeMapUserMemory m 0x2000 0x10000000 0x7000) :=
    hinit.pdeRequestPage
  obtain ⟨-, -, htable, -⟩ := pdeRequestPage_spec (u := fun _ => False) (v := 0x10000000) hmap.clean
    (fun _ hf => hf.elim) id
  obtain ⟨c, m', hclone, hroom⟩ := hmap.pdeClone 0x2000
  have hkept : m'.dir 0x2000 = (pdeMapUserMemory m 0x2000 0x10000000 0x7000).dir 0x2000 :=
    (pdeClone_spec hclone hroom.clean).kept.dir _
      ((pdeRequestPage_kept m 0x2000 0x10000000).used _ hused)
  refine ⟨_, c, m', hrun 0x10000000 0x7000, List.mem_cons_self, List.mem_cons_self, hclone,
    ?_, hroom.clean⟩
  rw [hkept]
  exact htable

/-- A user page of the kernel's directory, and a page of the heap mapped through the clone. -/
theorem clone_run_separate_boot :
    ∃ s c m', Run dirStep DirOpOk (.start .boot 0x2000)
        [.init 0x2000, .mapUser 0x2000 0x10000000 0x7000] s ∧
      pdeClone s.paging 0x2000 = some (c, m') ∧
      translate m' c 0x10000004 = translate m' 0x2000 0x10000004 ∧
      ∀ physical : BitVec 32, pdeGetPhysAddr (pdeMapMemory m' c 0x80000004 physical.toNat)
        0x2000 0x80000004 =
        physical.toNat / 0x1000 * 0x1000 + 4 := by
  obtain ⟨s, c, m', hrun, -, hd, hclone, htable, hclean⟩ := boot_run
  have hk : Paging.boot.pfa.used (0x2000 / 0x1000) := by
    show pfaGetBit _ _ = true
    decide +kernel
  have hsep := clone_run_separate hk hrun hd hclone (.nil _) hclean
  refine ⟨s, c, m', hrun, hclone, hsep.1 0x10000004 (by decide) (translate_isSome.mpr htable),
    fun physical => ?_⟩
  exact ((hsep.2 c 0x2000 (.inr ⟨rfl, rfl⟩)).2 0x80000004 physical (by decide) _
    List.mem_cons_self _ rfl).2.2

end MishaOS
