import Mathlib.Data.Finset.Card
import MishaOS.Spec.DirRun

/-!
# The pages a directory marks as present

`pde_request_page` clears the table it takes, `pde_init` does not clear those of
the kernel heap.  So whether a page is present depends on what was in the frames
`pde_init` was given.  A request that finds no frame loses the mapping.

## Key results

- `pfaRequestPage_freeFrames`: what a request takes of the free frames.
- `Marked.step`: a call marks the page it names and no other.
- `present_iff_named`: when the marked pages are the named ones.
-/

namespace MishaOS

variable {p p' : Pfa} {m m' : Paging} {N U : Nat → Prop} {a c d e f i j k v v' T n : Nat}

/-! ## Free frames -/

/-- The frames that `pfa_request_page` can still find, but for the one at the null pointer. -/
def freeFrames (p : Pfa) : Finset Nat :=
  (Finset.range PFA_BITS).filter fun f => f ≠ 0 ∧ p.pageIndex ≤ f ∧ p.bit f = false

/-- The frames a request can still find. -/
theorem mem_freeFrames : f ∈ freeFrames p ↔ f < PFA_BITS ∧ f ≠ 0 ∧ p.pageIndex ≤ f ∧
    p.bit f = false := by
  simp [freeFrames]

/-- The frame at the null pointer is not handed out any more. -/
def NullGone (p : Pfa) : Prop := p.pageIndex = 0 → p.bit 0 = true

/-- An answer is a free frame, or the null pointer. -/
structure FrameDrawn (p p' : Pfa) (a : Nat) : Prop where
  aligned : a % 0x1000 = 0
  free : a ≠ 0 → a / 0x1000 ∈ freeFrames p
  rest : freeFrames p' = (freeFrames p).erase (a / 0x1000)
  null : a = 0 → NullGone p → freeFrames p = ∅
  gone : NullGone p'

/-- The search draws the first free frame at or behind the cursor. -/
theorem pfaRequestPageFrom_drawn (hn : p.pageIndex + n = PFA_BITS ∨ n = 0 ∧ PFA_BITS ≤ p.pageIndex)
    (h : pfaRequestPageFrom n p = (a, p')) : FrameDrawn p p' a := by
  induction n generalizing p with
  | zero =>
    obtain ⟨rfl, rfl⟩ : 0 = a ∧ p = p' := by simpa [pfaRequestPageFrom] using h
    have hbits : PFA_BITS = 1048576 := rfl
    -- the cursor is behind the bitmap, so no frame is left
    have hnone : freeFrames p = ∅ := by
      apply Finset.eq_empty_of_forall_notMem
      intro f hf
      have := mem_freeFrames.mp hf
      omega
    exact ⟨rfl, fun h => absurd rfl h, by simp [hnone], fun _ _ => hnone, fun hz => by omega⟩
  | succ n ih =>
    have hn : p.pageIndex + (n + 1) = PFA_BITS := by omega
    have hle : ¬ p.pageIndex > PFA_BITS := by omega
    rw [pfaRequestPageFrom] at h
    split at h
    · -- a frame in use is passed over
      rename_i hbit
      have hbit : p.bit p.pageIndex = true := by simpa [pfaGetBit, hle] using hbit
      have hd := ih (p := { p with pageIndex := p.pageIndex + 1 }) (.inl (by dsimp only; omega)) h
      -- the frame that is passed over was not free
      have hsame : freeFrames { p with pageIndex := p.pageIndex + 1 } = freeFrames p := by
        ext f
        rw [mem_freeFrames, mem_freeFrames]
        constructor
        · rintro ⟨hlt, hne, hge, hf⟩
          exact ⟨hlt, hne, by dsimp only at hge; omega, hf⟩
        · rintro ⟨hlt, hne, hge, hf⟩
          have : p.pageIndex ≠ f := by
            rintro rfl
            simp [hbit] at hf
          exact ⟨hlt, hne, by dsimp only; omega, hf⟩
      refine ⟨hd.aligned, fun ha => hsame ▸ hd.free ha,
        by rw [hd.rest, hsame], fun ha _ => ?_, hd.gone⟩
      rw [← hsame]
      exact hd.null ha fun hz => by simp at hz
    · rename_i hfree
      have hfree : p.bit p.pageIndex = false := by simpa [pfaGetBit, hle] using hfree
      -- the frame at the cursor is free and is locked
      obtain ⟨rfl, rfl⟩ : p.pageIndex * 0x1000 = a ∧ pfaLockPage p (p.pageIndex * 0x1000) = p' := by
        simpa using h
      have hdiv : p.pageIndex * 0x1000 / 0x1000 = p.pageIndex := Nat.mul_div_cancel _ (by decide)
      have hlock : (pfaLockPage p (p.pageIndex * 0x1000)).bit =
        Function.update p.bit p.pageIndex true ∧
          (pfaLockPage p (p.pageIndex * 0x1000)).pageIndex = p.pageIndex := by
        simp [pfaLockPage, hdiv, pfaGetBit, pfaSetBit, hle, hfree]
      refine ⟨Nat.mul_mod_left _ _, fun ha => ?_, ?_, fun ha hgone => ?_, fun hz => ?_⟩
      · rw [hdiv, mem_freeFrames]
        exact ⟨by omega, by omega, le_rfl, hfree⟩
      · ext f
        rw [Finset.mem_erase, mem_freeFrames, mem_freeFrames, hlock.1, hlock.2, hdiv]
        by_cases hf : f = p.pageIndex
        · simp [hf]
        · simp [hf]
      · have hz : p.pageIndex = 0 := by omega
        have hset := hgone hz
        rw [← hz, hfree] at hset
        cases hset
      · rw [hlock.2] at hz
        rw [hlock.1, hz]
        exact Function.update_self _ _ _

/-- So does `pfa_request_page`. -/
theorem pfaRequestPage_drawn (p : Pfa) :
    FrameDrawn p (pfaRequestPage p).2 (pfaRequestPage p).1 := by
  have hd := pfaRequestPageFrom_drawn (p := p) (n := PFA_BITS - p.pageIndex)
    (a := (pfaRequestPageFrom (PFA_BITS - p.pageIndex) p).1) (by omega) rfl
  exact ⟨hd.aligned, hd.free, hd.rest, hd.null, hd.gone⟩

/-- So does a request of the page tables. -/
theorem requestPage_drawn (m : Paging) : FrameDrawn m.pfa m.requestPage.2.pfa m.requestPage.1 :=
  pfaRequestPage_drawn m.pfa

/-! ## Tables -/

/-- The slot `i` of the directory is set to the answer of a request. -/
structure Requested (m m' : Paging) (d i : Nat) : Prop where
  pfa : m'.pfa = m.requestPage.2.pfa
  slot : ∀ j, (m'.dir d).tables j = if j = i then m.requestPage.1 else (m.dir d).tables j

/-- The frame of a new table has been drawn. -/
theorem Requested.frame (h : Requested m m' d i) : FrameDrawn m.pfa m'.pfa m.requestPage.1 := by
  rw [h.pfa]
  exact requestPage_drawn m

/-- The tables of a directory are frames taken since `p`, a different one in every slot. -/
structure TablesDrawn (p : Pfa) (m : Paging) (d : Nat) : Prop where
  aligned : ∀ i, (m.dir d).tables i % 0x1000 = 0
  drawn : ∀ i, (m.dir d).tables i ≠ 0 → (m.dir d).tables i / 0x1000 ∈ freeFrames p
  taken : ∀ i, (m.dir d).tables i ≠ 0 → (m.dir d).tables i / 0x1000 ∉ freeFrames m.pfa
  inj : ∀ i j, (m.dir d).tables i ≠ 0 → (m.dir d).tables i = (m.dir d).tables j → i = j
  sub : freeFrames m.pfa ⊆ freeFrames p

/-- A table that is requested is none of those there are. -/
theorem TablesDrawn.fresh (h : TablesDrawn p m d) (hne : (m.dir d).tables j ≠ 0) :
    (m.dir d).tables j ≠ m.requestPage.1 := by
  intro heq
  exact h.taken j hne (heq ▸ (requestPage_drawn m).free (heq ▸ hne))

/-- A new table is in a frame of its own. -/
theorem TablesDrawn.request (h : TablesDrawn p m d) (hr : Requested m m' d i) :
    TablesDrawn p m' d := by
  have hf := hr.frame
  constructor
  -- slot `i` is the new one, the others are as they were
  · intro j
    rw [hr.slot]
    split
    · exact hf.aligned
    · exact h.aligned j
  · intro j hne
    rw [hr.slot] at hne ⊢
    split
    · rename_i hji
      rw [if_pos hji] at hne
      exact h.sub (hf.free hne)
    · rename_i hji
      rw [if_neg hji] at hne
      exact h.drawn j hne
  · intro j hne
    rw [hr.slot] at hne ⊢
    rw [hf.rest, Finset.mem_erase, not_and]
    split
    · exact fun hself => absurd rfl hself
    · rename_i hji
      rw [if_neg hji] at hne
      exact fun _ => h.taken j hne
  · intro j k hne heq
    rw [hr.slot] at hne heq
    rw [hr.slot] at heq
    -- a frame that was free is in no other slot
    by_cases hj : j = i <;> by_cases hk : k = i
    · exact hj.trans hk.symm
    · rw [if_pos hj] at hne heq
      rw [if_neg hk] at heq
      exact absurd heq.symm (h.fresh (heq ▸ hne))
    · rw [if_neg hj] at hne heq
      rw [if_pos hk] at heq
      exact absurd heq (h.fresh hne)
    · rw [if_neg hj] at hne heq
      rw [if_neg hk] at heq
      exact h.inj j k hne heq
  · rw [hf.rest]
    exact (Finset.erase_subset _ _).trans h.sub

/-- Only bitmap and slots matter. -/
theorem TablesDrawn.congr (h : TablesDrawn p m d) (hpfa : m'.pfa = m.pfa)
    (hslot : ∀ i, (m'.dir d).tables i = (m.dir d).tables i) : TablesDrawn p m' d := by
  have htables : (m'.dir d).tables = (m.dir d).tables := funext hslot
  refine ⟨?_, ?_, ?_, ?_, hpfa ▸ h.sub⟩
  · rw [htables]
    exact h.aligned
  · rw [htables]
    exact h.drawn
  · rw [htables, hpfa]
    exact h.taken
  · rw [htables]
    exact h.inj

/-- The slots that may still need a table. -/
def emptySlots (m : Paging) (d : Nat) : Finset Nat :=
  (Finset.range 1024).filter fun i => (m.dir d).tables i = 0

/-- The slots without a table. -/
theorem mem_emptySlots : i ∈ emptySlots m d ↔ i < 1024 ∧ (m.dir d).tables i = 0 := by
  simp [emptySlots]

/-- There is a free frame for each of them. -/
def Room (m : Paging) (d : Nat) : Prop := (emptySlots m d).card ≤ (freeFrames m.pfa).card

/-- A new table takes one frame and one empty slot. -/
theorem Room.request (h : Room m d) (hr : Requested m m' d i) (hi : i < 1024)
    (hz : (m.dir d).tables i = 0) : Room m' d := by
  have hf := hr.frame
  unfold Room at h ⊢
  have hmem : i ∈ emptySlots m d := mem_emptySlots.mpr ⟨hi, hz⟩
  rw [hf.rest]
  by_cases hnull : m.requestPage.1 = 0
  · -- neither set changes
    have hsame : emptySlots m' d = emptySlots m d := by
      ext j
      rw [mem_emptySlots, mem_emptySlots, hr.slot]
      split
      · simp_all
      · rfl
    have hzero : (0 : Nat) ∉ freeFrames m.pfa := fun hmem => (mem_freeFrames.mp hmem).2.1 rfl
    have hrest : (freeFrames m.pfa).erase (m.requestPage.1 / 0x1000) = freeFrames m.pfa := by
      rw [hnull]
      exact Finset.erase_eq_of_notMem hzero
    rw [hsame, hrest]
    exact h
  -- one frame and one slot fewer
  · have hless : emptySlots m' d = (emptySlots m d).erase i := by
      ext j
      rw [Finset.mem_erase, mem_emptySlots, mem_emptySlots, hr.slot]
      split
      · simp_all
      · simp_all
    rw [hless, Finset.card_erase_of_mem hmem, Finset.card_erase_of_mem (hf.free hnull)]
    omega

/-- While there is room, a request for an empty slot is answered. -/
theorem Room.answered (h : Room m d) (hgone : NullGone m.pfa) (hi : i < 1024)
    (hz : (m.dir d).tables i = 0) : m.requestPage.1 ≠ 0 := by
  intro hnull
  have hnone := (requestPage_drawn m).null hnull hgone
  have hpos : 0 < (emptySlots m d).card := Finset.card_pos.mpr ⟨i, mem_emptySlots.mpr ⟨hi, hz⟩⟩
  unfold Room at h
  rw [hnone, Finset.card_empty] at h
  omega

/-- Only bitmap and slots matter. -/
theorem Room.congr (h : Room m d) (hpfa : m'.pfa = m.pfa)
    (hslot : ∀ i, (m'.dir d).tables i = (m.dir d).tables i) : Room m' d := by
  have hsame : emptySlots m' d = emptySlots m d := by
    ext j
    rw [mem_emptySlots, mem_emptySlots, hslot]
  unfold Room
  rw [hsame, hpfa]
  exact h

/-! ## `pde_init` of an empty directory -/

/-- The answers to `n` requests in a row. -/
def requestedPages : Nat → Pfa → List Nat
  | 0, _ => []
  | n + 1, p => (pfaRequestPage p).1 :: requestedPages n (pfaRequestPage p).2

/-- `pde_init` requests a table for an empty slot of the heap and leaves the others alone. -/
theorem pdeInitSlot_cases (d : Nat) (m : Paging) (i : Nat) :
    (heapTable i ∧ (m.dir d).tables i = 0 ∧ Requested m (pdeInitSlot d m i) d i) ∨
    (¬ (heapTable i ∧ (m.dir d).tables i = 0) ∧ (pdeInitSlot d m i).pfa = m.pfa ∧
      ∀ j, ((pdeInitSlot d m i).dir d).tables j = (m.dir d).tables j) := by
  unfold pdeInitSlot
  dsimp only
  split
  · rename_i hne
    refine .inr ⟨fun h => hne h.2, rfl, fun j => ?_⟩
    simp [Paging.setDir, PageDirectory.install]
  · rename_i hz
    have hz : (m.dir d).tables i = 0 := by simpa using hz
    split
    -- an empty slot of the heap gets what the allocator answers, null included
    · rename_i hheap
      refine .inl ⟨hheap, hz, rfl, fun j => ?_⟩
      by_cases hj : j = i
      · simp [Paging.setDir, PageDirectory.install, hj]
      · simp [Paging.setDir, PageDirectory.install, Paging.requestPage, hj]
    · rename_i hheap
      exact .inr ⟨fun h => hheap h.1, rfl, fun _ => rfl⟩

/-- A loop over slots in two parts. -/
theorem forSlots_add (body : Paging → Nat → Paging) (b : Nat) (a : Nat) :
    ∀ i m, forSlots body (a + b) i m = forSlots body b (i + a) (forSlots body a i m) := by
  induction a with
  | zero =>
    intro i m
    rw [forSlots_zero, Nat.zero_add]
    rfl
  | succ a ih =>
    intro i m
    rw [Nat.succ_add, forSlots_succ, forSlots_succ, ih, Nat.succ_add_eq_add_succ]

/-- Nothing happens to empty slots outside the kernel heap. -/
theorem forSlots_outside (n : Nat) :
    ∀ i m, (∀ k, i ≤ k → k < i + n → ¬ heapTable k ∧ (m.dir d).tables k = 0) →
    forSlots (pdeInitSlot d) n i m = m := by
  induction n with
  | zero =>
    intro i m _
    rw [forSlots_zero]
  | succ n ih =>
    intro i m h
    obtain ⟨hheap, hz⟩ := h i le_rfl (by omega)
    have hsame : pdeInitSlot d m i = m := by
      unfold pdeInitSlot
      dsimp only
      rw [if_neg (by simpa using hz), if_neg hheap]
    rw [forSlots_succ, hsame]
    exact ih (i + 1) m fun k hk hlt => h k (by omega) (by omega)

/-- The slots of the kernel heap are filled with the answers, in order. -/
theorem forSlots_heap (n : Nat) : ∀ i m, HEAP_START_TABLE ≤ i → i + n ≤ HEAP_END_TABLE →
    (∀ k, i ≤ k → (m.dir d).tables k = 0) →
    (∀ k, k < i ∨ i + n ≤ k →
      ((forSlots (pdeInitSlot d) n i m).dir d).tables k = (m.dir d).tables k) ∧
    ((List.range n).map fun k => ((forSlots (pdeInitSlot d) n i m).dir d).tables (i + k)) =
      requestedPages n m.pfa := by
  -- along the slots; the loop writes each once
  induction n with
  | zero =>
    intro i m _ _ _
    rw [forSlots_zero]
    exact ⟨fun _ _ => rfl, rfl⟩
  | succ n ih =>
    intro i m hlo hhi hz
    rw [forSlots_succ]
    have hheap : heapTable i := ⟨hlo, by omega⟩
    obtain ⟨-, -, hr⟩ | ⟨hno, -⟩ := pdeInitSlot_cases d m i
    · obtain ⟨hsame, hnew⟩ := ih (i + 1) (pdeInitSlot d m i) (by omega) (by omega) fun k hk => by
        rw [hr.slot, if_neg (by omega)]
        exact hz k (by omega)
      constructor
      · intro k hk
        rw [hsame k (by omega), hr.slot, if_neg (by omega)]
      -- the rest of the loop keeps slot `i`
      · have hself : ((forSlots (pdeInitSlot d) n (i + 1) (pdeInitSlot d m i)).dir d).tables
          (i + 0) =
            m.requestPage.1 := by
          rw [hsame (i + 0) (by omega), hr.slot, if_pos (Nat.add_zero i)]
        rw [List.range_succ_eq_map, List.map_cons, List.map_map, hself, requestedPages]
        congr 1
        rw [hr.pfa] at hnew
        rw [show (pfaRequestPage m.pfa).2 = m.requestPage.2.pfa from rfl, ← hnew]
        apply List.map_congr_left
        intro k _
        show _ = ((forSlots (pdeInitSlot d) n (i + 1) (pdeInitSlot d m i)).dir d).tables (i + 1 + k)
        rw [Nat.add_right_comm]
        rfl
    · exact absurd ⟨hheap, hz i le_rfl⟩ hno

/-- What `pde_init` makes of an empty directory. -/
structure InitialTables (m m' : Paging) (d : Nat) : Prop where
  drawn : TablesDrawn m.pfa m' d
  room : 1024 ≤ (freeFrames m.pfa).card → Room m' d
  gone : NullGone m'.pfa
  table : m'.table = m.table
  heap : ∀ T, T ∈ requestedPages 64 m.pfa ↔ ∃ i, heapTable i ∧ (m'.dir d).tables i = T
  other : ∀ i, ¬ heapTable i → (m'.dir d).tables i = 0

/-- On an empty directory `pde_init` fills the slots of the heap. -/
theorem pdeInit_eq (hz : ∀ i, (m.dir d).tables i = 0) :
    ∃ m₁ : Paging, m₁.pfa = m.pfa ∧ m₁.table = m.table ∧ (∀ i, (m₁.dir d).tables i = 0) ∧
      pdeInit m d = forSlots (pdeInitSlot d) 64 HEAP_START_TABLE m₁ := by
  have hstart : HEAP_START_TABLE = 512 := rfl
  have hend : HEAP_END_TABLE = 576 := rfl
  -- only the address for the processor is set before the loop
  suffices h : ∀ ptr, ∃ m₁ : Paging, m₁.pfa = m.pfa ∧ m₁.table = m.table ∧
    (∀ i, (m₁.dir d).tables i = 0) ∧
      forSlots (pdeInitSlot d) 1024 0 (m.setDir d { m.dir d with physicalAddress := ptr }) =
        forSlots (pdeInitSlot d) 64 HEAP_START_TABLE m₁ from h _
  intro ptr
  have hz₁ : ∀ i, ((m.setDir d { m.dir d with physicalAddress := ptr }).dir d).tables i = 0 := by
    intro i
    simpa [Paging.setDir] using hz i
  refine ⟨m.setDir d { m.dir d with physicalAddress := ptr }, rfl, rfl, hz₁, ?_⟩
  show forSlots _ (512 + (64 + 448)) 0 _ = _
  rw [forSlots_add, forSlots_add, forSlots_outside 512]
  · -- behind the kernel heap the slots are still empty
    apply forSlots_outside
    intro k hlo hhi
    obtain ⟨hsame, -⟩ := forSlots_heap 64 HEAP_START_TABLE _ le_rfl (by omega) fun k _ => hz₁ k
    exact ⟨fun hk => by have := hk.2; omega, (hsame k (by omega)).trans (hz₁ k)⟩
  · intro k _ hlt
    exact ⟨fun hk => by have := hk.1; omega, hz₁ k⟩

/-- The tables after `pde_init`. -/
theorem pdeInit_initial (hz : ∀ i, (m.dir d).tables i = 0) : InitialTables m (pdeInit m d) d := by
  obtain ⟨m₁, hpfa, htable, hz₁, heq⟩ := pdeInit_eq hz
  have hstart : HEAP_START_TABLE = 512 := rfl
  have hend : HEAP_END_TABLE = 576 := rfl
  rw [heq]
  obtain ⟨hsame, hheap⟩ := forSlots_heap 64 HEAP_START_TABLE m₁ le_rfl (by omega) fun k _ => hz₁ k
  constructor
  -- both facts are kept by every slot of the loop
  · apply forSlots_always (P := fun y => TablesDrawn m.pfa y d)
    · intro y i hy
      obtain ⟨-, -, hr⟩ | ⟨-, hp, hs⟩ := pdeInitSlot_cases d y i
      · exact hy.request hr
      · exact hy.congr hp hs
    · refine ⟨fun i => by rw [hz₁], fun i hi => absurd (hz₁ i) hi, fun i hi => absurd (hz₁ i) hi,
        fun i j hi => absurd (hz₁ i) hi, ?_⟩
      rw [hpfa]
  · intro hcard
    apply forSlots_always (P := fun y => Room y d)
    · intro y i hy
      obtain ⟨hi, hz, hr⟩ | ⟨-, hp, hs⟩ := pdeInitSlot_cases d y i
      · exact hy.request hr (by have := hi.2; omega) hz
      · exact hy.congr hp hs
    · have hle : (emptySlots m₁ d).card ≤ 1024 :=
        (Finset.card_filter_le _ _).trans (Finset.card_range 1024).le
      unfold Room
      rw [hpfa]
      exact hle.trans hcard
  · -- the first slot of the kernel heap makes a request
    apply forSlots_slot (pdeInitSlot d) (j := HEAP_START_TABLE) (P := fun y => NullGone y.pfa)
      (Q := fun y => (y.dir d).tables HEAP_START_TABLE = 0 ∨ NullGone y.pfa) _ _ _ 64
        HEAP_START_TABLE m₁ le_rfl
      (by omega) (.inl (hz₁ _))
    · intro y i hy
      obtain ⟨-, -, hr⟩ | ⟨-, hp, hs⟩ := pdeInitSlot_cases d y i
      · exact .inr hr.frame.gone
      · rw [hp, hs]
        exact hy
    · intro y hy
      obtain ⟨-, -, hr⟩ | ⟨hno, hp, hs⟩ := pdeInitSlot_cases d y HEAP_START_TABLE
      · exact hr.frame.gone
      · rw [hp]
        exact hy.resolve_left fun hz => hno ⟨⟨le_rfl, by omega⟩, hz⟩
    · intro y i hy
      obtain ⟨-, -, hr⟩ | ⟨-, hp, -⟩ := pdeInitSlot_cases d y i
      · exact hr.frame.gone
      · rw [hp]
        exact hy
  · rw [← htable]
    exact forSlots_always (P := fun y => y.table = m₁.table)
      (fun y i hy => (pdeInitSlot_table d y i).trans hy) 64 HEAP_START_TABLE m₁ rfl
  · intro T
    -- both number the 64 slots of the heap, once from 0 and once from the first of them
    rw [← hpfa, ← hheap, List.mem_map]
    constructor
    · rintro ⟨k, hk, hT⟩
      have := List.mem_range.mp hk
      exact ⟨HEAP_START_TABLE + k, ⟨by omega, by omega⟩, hT⟩
    · rintro ⟨i, ⟨hlo, hhi⟩, hT⟩
      refine ⟨i - HEAP_START_TABLE, List.mem_range.mpr (by omega), ?_⟩
      rw [Nat.add_sub_cancel' hlo]
      exact hT
  · intro i hi
    rw [hsame i (by unfold heapTable at hi; omega)]
    exact hz₁ i

/-! ## Calls -/

inductive PageOp
  | request (v : BitVec 32)
  | map (v physical : BitVec 32)
  | mapUser (v physical : BitVec 32)

def pageStep (d : Nat) (m : Paging) : PageOp → Paging
  | .request v => pdeRequestPage m d v.toNat
  | .map v physical => pdeMapMemory m d v.toNat physical.toNat
  | .mapUser v physical => pdeMapUserMemory m d v.toNat physical.toNat

/-- A map call names the page of an address. -/
def PageOp.Names (v : Nat) : PageOp → Prop
  | .request _ => False
  | .map v' _ | .mapUser v' _ => v'.toNat / 0x1000 = v / 0x1000

def PageOp.NamesUser (v : Nat) : PageOp → Prop
  | .request _ | .map _ _ => False
  | .mapUser v' _ => v'.toNat / 0x1000 = v / 0x1000

def pagePresent (m : Paging) (d v : Nat) : Bool := (translate m d v).any (·.present)

def pageUser (m : Paging) (d v : Nat) : Bool :=
  (translate m d v).any fun page => page.present && page.userSupervisor

/-- `pde_request_page` finds a table, or requests one for the slot. -/
theorem pdeRequestPage_cases (m : Paging) (d v : Nat) :
    ((m.dir d).tables (v / 0x1000 / 1024) ≠ 0 ∧ pdeRequestPage m d v = m) ∨
    ((m.dir d).tables (v / 0x1000 / 1024) = 0 ∧
      Requested m (pdeRequestPage m d v) d (v / 0x1000 / 1024) ∧
      (pdeRequestPage m d v).table = Function.update m.table m.requestPage.1 fun _ =>
        Page.zero) := by
  -- an empty slot gets the page that is requested, whatever it is
  by_cases hz : (m.dir d).tables (v / 0x1000 / 1024) = 0
  · refine .inr ⟨hz, ?_, ?_⟩
    · unfold pdeRequestPage
      dsimp only
      rw [if_pos hz]
      refine ⟨rfl, fun j => ?_⟩
      by_cases hj : j = v / 0x1000 / 1024
      · simp [Paging.setTable, Paging.setDir, PageDirectory.install, hj]
      · simp [Paging.setTable, Paging.setDir, PageDirectory.install, Paging.requestPage, hj]
    · unfold pdeRequestPage
      dsimp only
      rw [if_pos hz]
      rfl
  · exact .inl ⟨hz, pdeRequestPage_there hz⟩

/-- A request keeps the tables in frames of their own. -/
theorem TablesDrawn.pdeRequestPage (h : TablesDrawn p m d) (v : Nat) :
    TablesDrawn p (pdeRequestPage m d v) d := by
  obtain ⟨-, hsame⟩ | ⟨-, hr, -⟩ := pdeRequestPage_cases m d v
  · rwa [hsame]
  · exact h.request hr

/-- So does every operation on pages. -/
theorem TablesDrawn.pageStep (h : TablesDrawn p m d) (op : PageOp) :
    TablesDrawn p (pageStep d m op) d := by
  cases op with
  | request v => exact h.pdeRequestPage v.toNat
  | map v _ => exact (h.pdeRequestPage v.toNat).congr rfl fun _ => rfl
  | mapUser v _ => exact (h.pdeRequestPage v.toNat).congr rfl fun _ => rfl

/-- So does every run of them. -/
theorem TablesDrawn.run (h : TablesDrawn p m d) (ops : List PageOp) :
    TablesDrawn p (ops.foldl (MishaOS.pageStep d) m) d := by
  induction ops generalizing m with
  | nil => exact h
  | cons op ops ih => exact ih (h.pageStep op)

/-- A mapping writes the entry of its page, and no other entry of the directory. -/
theorem TablesDrawn.pageEntry_setPage (h : TablesDrawn p m d)
    (hne : (m.dir d).tables (v' / 0x1000 / 1024) ≠ 0)
    (g : Page → Page) : pageEntry (m.setPage d v g) d v' =
      if v / 0x1000 = v' / 0x1000 then g (pageEntry m d v') else pageEntry m d v' := by
  unfold pageEntry
  by_cases hpage : v / 0x1000 = v' / 0x1000
  · simp [Paging.setPage, Paging.setTable, hpage]
  · rw [if_neg hpage]
    by_cases hslot : v' / 0x1000 / 1024 = v / 0x1000 / 1024
    · have hentry : v' / 0x1000 % 1024 ≠ v / 0x1000 % 1024 := by omega
      simp [Paging.setPage, Paging.setTable, hslot, hentry]
    · have htable : (m.dir d).tables (v' / 0x1000 / 1024) ≠ (m.dir d).tables (v / 0x1000 / 1024) :=
        fun heq => hslot (h.inj _ _ hne heq)
      simp [Paging.setPage, Paging.setTable, htable]

/-- The pages of `N` are present, those with the user flag are in `U`. -/
structure Marked (p : Pfa) (m : Paging) (d : Nat) (N U : Nat → Prop) : Prop where
  drawn : TablesDrawn p m d
  room : Room m d
  gone : NullGone m.pfa
  named : ∀ v < 4294967296, N v → (m.dir d).tables (v / 0x1000 / 1024) ≠ 0
  present : ∀ v < 4294967296, (m.dir d).tables (v / 0x1000 / 1024) ≠ 0 →
    ((pageEntry m d v).present = true ↔ N v)
  user : ∀ v < 4294967296, (m.dir d).tables (v / 0x1000 / 1024) ≠ 0 →
    (pageEntry m d v).userSupervisor = true → U v

/-- A new table has no page in it. -/
theorem Marked.request (h : Marked p m d N U) (hv : v < 4294967296) :
    Marked p (pdeRequestPage m d v) d N U ∧
    ((pdeRequestPage m d v).dir d).tables (v / 0x1000 / 1024) ≠ 0 := by
  obtain ⟨hne, hsame⟩ | ⟨hz, hr, htable⟩ := pdeRequestPage_cases m d v
  · rw [hsame]
    exact ⟨h, hne⟩
  · have hi : v / 0x1000 / 1024 < 1024 := by omega
    have hans := h.room.answered h.gone hi hz
    -- a page of another slot keeps its entry, the pages of this one are not named
    have hentry : ∀ v' < 4294967296, ((pdeRequestPage m d v).dir d).tables (v' / 0x1000 / 1024) ≠
      0 →
        (v' / 0x1000 / 1024 = v / 0x1000 / 1024 ∧
          pageEntry (pdeRequestPage m d v) d v' = Page.zero) ∨
        ((m.dir d).tables (v' / 0x1000 / 1024) ≠ 0 ∧
          pageEntry (pdeRequestPage m d v) d v' = pageEntry m d v') := by
      intro v' _ hne
      unfold pageEntry
      rw [hr.slot] at hne ⊢
      rw [htable]
      by_cases hj : v' / 0x1000 / 1024 = v / 0x1000 / 1024
      · rw [if_pos hj, Function.update_self]
        exact .inl ⟨hj, rfl⟩
      · rw [if_neg hj] at hne ⊢
        rw [Function.update_of_ne (h.drawn.fresh hne)]
        exact .inr ⟨hne, rfl⟩
    refine ⟨⟨h.drawn.request hr, h.room.request hr hi hz, hr.frame.gone, ?_, ?_, ?_⟩, ?_⟩
    · intro v' hv' hN
      rw [hr.slot]
      split
      · exact hans
      · exact h.named v' hv' hN
    · intro v' hv' hne
      obtain ⟨hj, hzero⟩ | ⟨hold, hsame⟩ := hentry v' hv' hne
      · rw [hzero]
        exact ⟨fun hp => Bool.noConfusion hp, fun hN => absurd (hj ▸ hz) (h.named v' hv' hN)⟩
      · rw [hsame]
        exact h.present v' hv' hold
    · intro v' hv' hne hu
      obtain ⟨-, hzero⟩ | ⟨hold, hsame⟩ := hentry v' hv' hne
      · rw [hzero] at hu
        cases hu
      · rw [hsame] at hu
        exact h.user v' hv' hold hu
    · rw [hr.slot, if_pos rfl]
      exact hans

/-- Behind a write to its entry one more page is present. -/
theorem Marked.setPage {g : Page → Page} {u : Prop} (h : Marked p m d N U)
    (hslot : (m.dir d).tables (v / 0x1000 / 1024) ≠ 0) (hg : ∀ page, (g page).present = true)
    (hu : ∀ page, (g page).userSupervisor = true → page.userSupervisor = true ∨ u) :
    Marked p (m.setPage d v g) d (fun v' => N v' ∨ v / 0x1000 = v' / 0x1000)
      (fun v' => U v' ∨ u ∧ v / 0x1000 = v' / 0x1000) := by
  refine ⟨h.drawn.congr rfl fun _ => rfl, h.room.congr rfl fun _ => rfl, h.gone, ?_, ?_, ?_⟩
  -- a page named before, or the one that is written now
  · rintro v' hv' (hN | hpage)
    · exact h.named v' hv' hN
    · show (m.dir d).tables _ ≠ 0
      rwa [← hpage]
  · intro v' hv' hne
    rw [h.drawn.pageEntry_setPage hne]
    by_cases hpage : v / 0x1000 = v' / 0x1000
    · simp [hpage, hg]
    · simp only [hpage, if_false, or_false]
      exact h.present v' hv' hne
  · intro v' hv' hne hset
    rw [h.drawn.pageEntry_setPage hne] at hset
    by_cases hpage : v / 0x1000 = v' / 0x1000
    · rw [if_pos hpage] at hset
      exact (hu _ hset).imp (h.user v' hv' hne) fun hu => ⟨hu, hpage⟩
    · rw [if_neg hpage] at hset
      exact .inl (h.user v' hv' hne hset)

/-- Only the pages themselves matter. -/
theorem Marked.congr {N' U' : Nat → Prop} (h : Marked p m d N U) (hN : ∀ v, N v ↔ N' v)
    (hU : ∀ v, U v → U' v) : Marked p m d N' U' where
  drawn := h.drawn
  room := h.room
  gone := h.gone
  named v hv hn := h.named v hv ((hN v).mpr hn)
  present v hv hne := (h.present v hv hne).trans (hN v)
  user v hv hne hu := hU v (h.user v hv hne hu)

/-- A call marks the page it names. -/
theorem Marked.step (h : Marked p m d N U) (op : PageOp) :
    Marked p (pageStep d m op) d (fun v => N v ∨ op.Names v) (fun v => U v ∨ op.NamesUser v) := by
  -- `request` gives the slot a table; the other two write the entry as well
  cases op with
  | request v =>
    exact (h.request v.isLt).1.congr (fun v => by simp [PageOp.Names]) fun v => .inl
  | map v physical =>
    obtain ⟨hm, hslot⟩ := h.request v.isLt
    exact (hm.setPage (u := False)
      (g := fun page => { page with present := true, address := physical.toNat / 0x1000 }) hslot
      (fun _ => rfl) fun page => .inl).congr (fun _ => .rfl)
      fun v hv => hv.imp_right fun hf => hf.1.elim
  | mapUser v physical =>
    obtain ⟨hm, hslot⟩ := h.request v.isLt
    exact (hm.setPage (u := True) (g := fun page => { page with
        present := true, readWrite := true, userSupervisor := true, address :=
          physical.toNat / 0x1000 }) hslot
      (fun _ => rfl) fun page _ => .inr trivial).congr (fun _ => .rfl)
      fun v hv => hv.imp_right fun hf => hf.2

/-- Behind a run exactly the pages it names are present. -/
theorem Marked.run (h : Marked p m d N U) (ops : List PageOp) :
    Marked p (ops.foldl (pageStep d) m) d (fun v => N v ∨ ∃ op ∈ ops, op.Names v)
      (fun v => U v ∨ ∃ op ∈ ops, op.NamesUser v) := by
  induction ops generalizing m N U with
  | nil => exact h.congr (fun v => by simp) fun v => .inl
  | cons op ops ih =>
    exact (ih (h.step op)).congr (fun v => by simp [or_assoc]) fun v hv => by
      simpa [or_assoc] using hv

/-! ## The pages that are present -/

/-- The frames that the tables of the kernel heap get hold no page that is present
    or accessible to the user. -/
def HeapFramesClear (m : Paging) : Prop :=
  ∀ T ∈ requestedPages 64 m.pfa, T ≠ 0 → ∀ j < 1024,
    (m.table T j).present = false ∧ (m.table T j).userSupervisor = false

/-- Behind `pde_init` no page is present. -/
theorem InitialTables.marked (h : InitialTables m m' d) (hroom : 1024 ≤ (freeFrames m.pfa).card)
    (hclear : HeapFramesClear m) : Marked m.pfa m' d (fun _ => False) fun _ => False := by
  have hentry : ∀ v, (m'.dir d).tables (v / 0x1000 / 1024) ≠ 0 →
      (pageEntry m' d v).present = false ∧ (pageEntry m' d v).userSupervisor = false := by
    intro v hne
    have hheap : heapTable (v / 0x1000 / 1024) := by
      by_contra hno
      exact hne (h.other _ hno)
    unfold pageEntry
    rw [h.table]
    exact hclear _ ((h.heap _).mpr ⟨_, hheap, rfl⟩) hne _ (Nat.mod_lt _ (by decide))
  refine ⟨h.drawn, h.room hroom, h.gone, fun _ _ hN => hN.elim, ?_, ?_⟩
  · intro v _ hne
    simp [(hentry v hne).1]
  · intro v _ hne hu
    simp [(hentry v hne).2] at hu

/-- A page is present if and only if it is marked. -/
theorem Marked.pagePresent_iff (h : Marked p m d N U) (hv : v < 4294967296) :
    pagePresent m d v = true ↔ N v := by
  unfold pagePresent translate
  by_cases hz : (m.dir d).tables (v / 0x1000 / 1024) = 0
  · rw [if_pos hz]
    exact ⟨fun hp => Bool.noConfusion hp, fun hN => absurd hz (h.named v hv hN)⟩
  · rw [if_neg hz]
    exact h.present v hv hz

/-- A page that the user can reach is marked for him. -/
theorem Marked.of_pageUser (h : Marked p m d N U) (hv : v < 4294967296)
    (hu : pageUser m d v = true) : U v := by
  unfold pageUser translate at hu
  by_cases hz : (m.dir d).tables (v / 0x1000 / 1024) = 0
  · rw [if_pos hz] at hu
    cases hu
  · rw [if_neg hz, Option.any_some, Bool.and_eq_true] at hu
    exact h.user v hv hz hu.2

/-- The user can reach a page if its entry says so. -/
theorem TablesDrawn.pageUser_setPage (h : TablesDrawn p m d)
    (hne : (m.dir d).tables (v / 0x1000 / 1024) ≠ 0)
    (g : Page → Page) : pageUser (m.setPage d v g) d v =
      ((g (pageEntry m d v)).present && (g (pageEntry m d v)).userSupervisor) := by
  have hne' : ((m.setPage d v g).dir d).tables (v / 0x1000 / 1024) ≠ 0 := hne
  rw [pageUser, translate, if_neg hne', h.pageEntry_setPage hne, if_pos rfl]
  rfl

/-- A page in every table. -/
def onePageEach : List PageOp := (List.range 1024).map fun i =>
    .map (BitVec.ofNat 32 (i * 0x400000)) 0

/-- The first address of a slot. -/
theorem slot_toNat (hi : i < 1024) : (BitVec.ofNat 32 (i * 0x400000)).toNat = i * 0x400000 := by
  rw [BitVec.toNat_ofNat]
  exact Nat.mod_eq_of_lt (by omega)

/-- The run names a page of each slot. -/
theorem onePageEach_names (hi : i < 1024) :
    ∃ op ∈ onePageEach, op.Names (BitVec.ofNat 32 (i * 0x400000)).toNat := by
  refine ⟨.map (BitVec.ofNat 32 (i * 0x400000)) 0, ?_, rfl⟩
  unfold onePageEach
  exact List.mem_map.mpr ⟨i, List.mem_range.mpr hi, rfl⟩

/-- Every slot can get a table only if there are frames for all of them. -/
theorem InitialTables.frames (h : InitialTables m m' d)
    (hpresent : ∀ v : BitVec 32, (∃ op ∈ onePageEach, op.Names v.toNat) →
      pagePresent (onePageEach.foldl (pageStep d) m') d v.toNat = true) :
    1024 ≤ (freeFrames m.pfa).card := by
  have hdrawn := h.drawn.run onePageEach
  generalize onePageEach.foldl (pageStep d) m' = t at hdrawn hpresent
  have hne : ∀ i < 1024, (t.dir d).tables i ≠ 0 := by
    intro i hi hz
    have hp := hpresent (BitVec.ofNat 32 (i * 0x400000)) (onePageEach_names hi)
    unfold pagePresent translate at hp
    rw [slot_toNat hi, show i * 0x400000 / 0x1000 / 1024 = i by omega, if_pos hz] at hp
    cases hp
  -- the tables lie in as many frames
  have hcard := Finset.card_le_card_of_injOn (s := Finset.range 1024) (t := freeFrames m.pfa)
    (fun i => (t.dir d).tables i / 0x1000)
    (fun i hi => hdrawn.drawn i (hne i (Finset.mem_range.mp hi)))
    (fun i hi j hj heq => hdrawn.inj i j (hne i (Finset.mem_range.mp hi)) (by
      have hi := hdrawn.aligned i
      have hj := hdrawn.aligned j
      dsimp only at heq
      omega))
  rwa [Finset.card_range] at hcard

/-- Nothing may be left in the frames of the kernel heap's tables. -/
theorem InitialTables.clear (h : InitialTables m m' d)
    (hpresent : ∀ v : BitVec 32, pagePresent m' d v.toNat = false)
    (huser : ∀ v physical : BitVec 32, pageUser (pageStep d m' (.map v physical)) d
      v.toNat = false) :
    HeapFramesClear m := by
  intro T hT hne j hj
  -- the entry `j` of the table `i` is the one of some virtual address
  obtain ⟨i, hi, rfl⟩ := (h.heap T).mp hT
  have hend : HEAP_END_TABLE = 576 := rfl
  have hilt := hi.2
  have hslot : (i * 1024 + j) * 0x1000 / 0x1000 / 1024 = i := by omega
  have hentry : (i * 1024 + j) * 0x1000 / 0x1000 % 1024 = j := by omega
  have hv : (i * 1024 + j) * 0x1000 < 2 ^ 32 := by omega
  generalize (i * 1024 + j) * 0x1000 = v at hslot hentry hv
  have htoNat : (BitVec.ofNat 32 v).toNat = v := by
    rw [BitVec.toNat_ofNat, Nat.mod_eq_of_lt hv]
  have hthere : (m'.dir d).tables (v / 0x1000 / 1024) ≠ 0 := hslot.symm ▸ hne
  have hold : pageEntry m' d v = m.table ((m'.dir d).tables i) j := by
    rw [pageEntry, hslot, hentry, h.table]
  constructor
  -- no page is present before the first call
  · have hp := hpresent (BitVec.ofNat 32 v)
    rw [htoNat, pagePresent, translate, if_neg hthere, hold] at hp
    exact hp
  · -- a mapping leaves the user flag as it is
    have hu := huser (BitVec.ofNat 32 v) 0
    have hstep : pageStep d m' (.map (BitVec.ofNat 32 v) 0) =
        m'.setPage d v fun page => { page with present := true, address := 0 } := by
      unfold pageStep pdeMapMemory
      dsimp only
      rw [htoNat, pdeRequestPage_there hthere]
      rfl
    rw [hstep, htoNat, h.drawn.pageUser_setPage hthere, hold] at hu
    exact hu

/-- Exactly the pages named are present in every run if and only if there are frames for all tables.
    -/
theorem InitialTables.named_iff {x : PageDirectory} (hinit : InitialTables (m.setDir d x) m' d) :
    (∀ (ops : List PageOp) (v : BitVec 32),
      (pagePresent (ops.foldl (pageStep d) m') d v.toNat = true ↔ ∃ op ∈ ops, op.Names v.toNat) ∧
      (pageUser (ops.foldl (pageStep d) m') d v.toNat = true → ∃ op ∈ ops, op.NamesUser v.toNat)) ↔
    1024 ≤ (freeFrames m.pfa).card ∧ HeapFramesClear m := by
  constructor
  · intro h
    -- a run with one page for each slot needs all the frames
    refine ⟨hinit.frames fun v hv => ((h onePageEach v).1).mpr hv,
      hinit.clear (fun v => ?_) fun v physical => ?_⟩
    -- the empty run and the run of one call tell what the frames held
    · have hp := (h [] v).1
      simpa using hp
    · by_contra hu
      obtain ⟨op, hop, hnames⟩ := (h [.map v physical] v).2 (by simpa using hu)
      rw [List.mem_singleton.mp hop] at hnames
      exact hnames
  · rintro ⟨hroom, hclear⟩ ops v
    have hrun := (hinit.marked hroom hclear).run ops
    exact ⟨(hrun.pagePresent_iff v.isLt).trans (by simp),
      fun hu => by simpa using hrun.of_pageUser v.isLt hu⟩

/-- The pages present after `pde_init` and any calls are those that are named, and
    only those named for the user are his, exactly if there is a frame for every
    table and nothing is left in those `pde_init` takes. -/
theorem present_iff_named (m : Paging) (d : Nat) :
    (∀ (ops : List PageOp) (v : BitVec 32),
      (pagePresent (ops.foldl (pageStep d) (pdeInit (m.setDir d ⟨fun _ => 0, fun _ => 0, 0⟩) d)) d
        v.toNat = true ↔
        ∃ op ∈ ops, op.Names v.toNat) ∧
      (pageUser (ops.foldl (pageStep d) (pdeInit (m.setDir d ⟨fun _ => 0, fun _ => 0, 0⟩) d)) d
        v.toNat = true →
        ∃ op ∈ ops, op.NamesUser v.toNat)) ↔
    1024 ≤ (freeFrames m.pfa).card ∧ HeapFramesClear m := by
  apply InitialTables.named_iff (x := ⟨fun _ => 0, fun _ => 0, 0⟩)
  apply pdeInit_initial
  intro i
  simp [Paging.setDir]

/-- The frames still hold tables of a system that ran before. -/
def Paging.stale : Paging :=
  { Paging.boot with table := fun _ _ => { Page.zero with present := true } }

/-- The first page of the kernel heap is present before anything is mapped. -/
theorem stale_heap_page_present :
    ¬ ∀ (ops : List PageOp) (v : BitVec 32),
      (pagePresent (ops.foldl (pageStep 0x2000)
          (pdeInit (Paging.stale.setDir 0x2000 ⟨fun _ => 0, fun _ => 0, 0⟩) 0x2000)) 0x2000
            v.toNat = true ↔
        ∃ op ∈ ops, op.Names v.toNat) ∧
      (pageUser (ops.foldl (pageStep 0x2000)
          (pdeInit (Paging.stale.setDir 0x2000 ⟨fun _ => 0, fun _ => 0, 0⟩) 0x2000)) 0x2000
            v.toNat = true →
        ∃ op ∈ ops, op.NamesUser v.toNat) := by
  intro h
  have hpresent :
    pagePresent (pdeInit (Paging.stale.setDir 0x2000 ⟨fun _ => 0, fun _ => 0, 0⟩) 0x2000) 0x2000
      0x80000000 = true := by
    have hroom : Roomy (0 + 1024) (Paging.stale.setDir 0x2000 ⟨fun _ => 0, fun _ => 0, 0⟩) :=
      Paging.boot_roomy (by decide)
    -- the new table holds what its frame did
    have htable := pdeInit_table (Paging.stale.setDir 0x2000 ⟨fun _ => 0, fun _ => 0, 0⟩) 0x2000
    have hslot := pdeInit_heap (d := 0x2000) (j := 512) hroom.pdeInit.clean (by decide)
    generalize pdeInit (Paging.stale.setDir 0x2000 ⟨fun _ => 0, fun _ => 0, 0⟩) 0x2000 =
      m at htable hslot ⊢
    rw [pagePresent, translate, if_neg hslot, pageEntry, htable]
    rfl
  obtain ⟨op, hop, -⟩ := (h [] 0x80000000).1.mp hpresent
  cases hop

end MishaOS
