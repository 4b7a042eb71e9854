import Mathlib.Data.List.TakeWhile
import Mathlib.Tactic.SplitIfs
import MishaOS.Spec.HeapInvariant

/-!
# kmalloc and kfree on the segment list

The two entry points of the allocator, each as one edit of the segment list:
`kmallocTake_inv` and `kfree_inv`.  `kmallocFind_spec` describes the first-fit
search, `heapExpand_inv` the growth of the heap, and `kmallocRec_spec` puts
them together.
-/

namespace MishaOS

variable {h h' : Heap} {l k : List Seg} {s t : Seg}

/-! ## Loops that only touch page tables -/

/-- The loop of `heap_expand` maps pages and moves `heap_end`. -/
theorem heapExpandPages_eq (frames : Nat → Nat) (h : Heap) (n : Nat) (hb : h.heapEnd < 4294967296) :
    ∃ pg, heapExpandPages frames h n =
      { h with
        page := pg, heapEnd := u32 (h.heapEnd + n * 0x1000), requests := h.requests + n } := by
  -- one page a round
  induction n generalizing h with
  | zero =>
    refine ⟨h.page, ?_⟩
    rw [Nat.zero_mul, Nat.add_zero, u32_of_lt hb]
    rfl
  | succ n ih =>
    obtain ⟨pg, hpg⟩ := ih
      { heapMapPage frames h h.heapEnd with heapEnd := u32 (h.heapEnd + 0x1000) } (u32_lt _)
    have hend : u32 (h.heapEnd + (n + 1) * 0x1000) =
        u32 (u32 (h.heapEnd + 0x1000) + n * 0x1000) := by
      unfold u32
      omega
    have hreq : h.requests + (n + 1) = h.requests + 1 + n := by omega
    refine ⟨pg, ?_⟩
    rw [hend, hreq]
    exact hpg

/-- The loop of `heap_init` maps pages. -/
theorem heapInitPages_eq (frames : Nat → Nat) (h : Heap) (n va : Nat) :
    heapInitPages frames h n va =
      { h with page := (heapInitPages frames h n va).page, requests := h.requests + n } := by
  induction n generalizing h va with
  | zero => rfl
  | succ n ih =>
    have hreq : h.requests + (n + 1) = h.requests + 1 + n := by omega
    rw [heapInitPages, hreq]
    exact ih (heapMapPage frames h va) (u32 (va + 0x1000))

/-- Only pages are touched. -/
theorem heapMapKernelSegment_eq (h : Heap) (address : Nat) :
    ∃ pg, heapMapKernelSegment h address = { h with page := pg } := by
  unfold heapMapKernelSegment heapMapSegment
  generalize List.range _ = is
  induction is generalizing h with
  | nil => exact ⟨h.page, rfl⟩
  | cons i is ih =>
    obtain ⟨pg, hpg⟩ := ih (h.mapMemory (u32 (address + i * 0x1000))
      (h.physAddr (u32 (address + i * 0x1000))))
    exact ⟨pg, hpg⟩

/-- The invariant does not mention page tables or the frame count. -/
theorem HeapInv.of_page (hi : HeapInv h l) (pg : Nat → Page) (n : Nat) :
    HeapInv { h with page := pg, requests := n } l :=
  ⟨hi.linked, hi.ne_nil, hi.last, hi.start, hi.bound⟩

/-! ## Initialisation -/

/-- The heap after `heap_init`. -/
theorem heapInit_eq (frames : Nat → Nat) (h : Heap) (n : Nat) :
    heapInit frames h n =
      { heapStart := HEAP_START, heapEnd := u32 (HEAP_START + u32 (n * 0x1000)),
        lastHeader := HEAP_START,
        seg := Function.update h.seg HEAP_START ⟨sub32 (u32 (n * 0x1000)) segHdrSize, 0, 0, true⟩,
        page := (heapInitPages frames h n HEAP_START).page, requests := h.requests + n } := by
  simp only [heapInit, Heap.setSeg]
  rw [heapInitPages_eq]

/-- It is one free segment. -/
theorem heapInit_inv (frames : Nat → Nat) (h : Heap) (n : Nat) (hn : 1 ≤ n)
    (hwrap : HEAP_START + n * 0x1000 < 4294967296) :
    HeapInv (heapInit frames h n) [⟨HEAP_START, n * 0x1000 - segHdrSize, true⟩] := by
  have heq := heapInit_eq frames h n
  have hlen : u32 (n * 0x1000) = n * 0x1000 := u32_of_lt (by simp only [HEAP_START] at hwrap; omega)
  have hsub : sub32 (n * 0x1000) segHdrSize = n * 0x1000 - segHdrSize :=
    sub32_of_le (by simp only [segHdrSize]; omega) (by simp only [HEAP_START] at hwrap; omega)
  rw [hlen, u32_of_lt hwrap, hsub] at heq
  rw [heq]
  refine ⟨⟨rfl, by simp [headAddr], ?_, ?_⟩, by simp, rfl, rfl, hwrap⟩
  · simp only [segHdrSize]
    omega
  · simp only [Linked, Seg.stop, segHdrSize]
    omega

/-! ## The search -/

/-- Headers take 16 bytes each. -/
theorem Linked.length_le {mem : Nat → HeapSegHdr} {nxt stop prev a : Nat}
    (hl : Linked mem nxt stop prev a l) : a + 16 * l.length ≤ stop := by
  induction l generalizing prev a with
  | nil => exact Nat.le_of_eq hl
  | cons x xs ih =>
    have := ih hl.2.2.2
    obtain ⟨rfl, -⟩ := hl
    simp only [Seg.stop, segHdrSize, List.length_cons] at this ⊢
    omega

/-- A segment `kmalloc` can take `size` bytes from. -/
def Seg.fits (size : Nat) (s : Seg) : Bool := s.free && decide (size ≤ s.length)

/-- The headers of `l` are found one after the other, up to `nxt`; where the blocks end and what
    the back pointers say does not matter to the search. -/
def Listed (mem : Nat → HeapSegHdr) (nxt : Nat) : List Seg → Prop
  | [] => True
  | s :: l => s.addr ≠ 0 ∧ (mem s.addr).length = s.length ∧ (mem s.addr).free = s.free ∧
      (mem s.addr).next = headAddr nxt l ∧ Listed mem nxt l

/-- The search can walk over the segments. -/
theorem Linked.listed {mem : Nat → HeapSegHdr} {nxt stop prev a : Nat}
    (hl : Linked mem nxt stop prev a l)
    (hpos : ∀ x ∈ l, x.addr ≠ 0) : Listed mem nxt l := by
  induction l generalizing prev a with
  | nil => trivial
  | cons x xs ih =>
    obtain ⟨rfl, hm, -, hrest⟩ := hl
    refine ⟨hpos x List.mem_cons_self, ?_, ?_, ?_,
      ih hrest fun y hy => hpos y (List.mem_cons_of_mem _ hy)⟩ <;>
      rw [hm]

/-- The search from inside the list: it passes over what does not fit. -/
theorem Listed.find (hl : Listed h.seg 0 k) (size fuel : Nat) (hfuel : k.length < fuel) :
    kmallocFind h size fuel (headAddr 0 k) = some (headAddr 0 (k.dropWhile (!·.fits size))) := by
  -- along the list, with a round for each segment
  induction k generalizing fuel with
  | nil =>
    cases fuel with
    | zero => simp at hfuel
    | succ n => simp [kmallocFind, headAddr]
  | cons x xs ih =>
    cases fuel with
    | zero => simp at hfuel
    | succ n =>
      obtain ⟨hx0, hlen, hfree, hnext, hrest⟩ := hl
      -- the loop stops here, or passes over the segment
      by_cases hfit : x.fits size = true
      · simp only [Seg.fits, Bool.and_eq_true, decide_eq_true_eq] at hfit
        simp [kmallocFind, headAddr, hx0, hlen, hfree, hfit, Seg.fits]
      · have hfit' : ¬ (x.free = true ∧ size ≤ x.length) := by
          simpa [Seg.fits] using hfit
        have hstep : kmallocFind h size (n + 1) (headAddr 0 (x :: xs)) =
            kmallocFind h size n (headAddr 0 xs) := by
          simp only [kmallocFind, headAddr, hlen, hfree, hnext, if_neg hx0, if_neg hfit']
        rw [hstep, List.dropWhile_cons_of_pos (by simpa using hfit)]
        exact ih hrest n (by simp only [List.length_cons] at hfuel; omega)

/-- The heap starts with its first segment. -/
theorem HeapInv.start_eq (hi : HeapInv h l) : h.heapStart = headAddr 0 l := by
  cases l with
  | nil => exact absurd rfl hi.ne_nil
  | cons x xs => exact hi.linked.1.symm

/-- The search of `kmalloc` can walk over the heap. -/
theorem HeapInv.listed (hi : HeapInv h l) : Listed h.seg 0 l := by
  apply hi.linked.listed
  intro x hx
  have := (hi.bounds hx).1
  simp only [HEAP_START] at this
  omega

/-- The headers of the list lie below the end of the address space. -/
theorem HeapInv.length_lt (hi : HeapInv h l) : l.length + 2 < walkFuel := by
  have h1 := hi.linked.length_le
  have h2 := hi.bound
  have h3 := hi.start
  simp only [walkFuel, HEAP_START] at h3 ⊢
  omega

/-- The first-fit search: null when no segment fits, else the first that does. -/
theorem kmallocFind_spec (hi : HeapInv h l) (size : Nat) :
    (kmallocFind h size walkFuel h.heapStart = some 0 ∧ ∀ x ∈ l, x.fits size = false) ∨
    ∃ l₁ s l₂, l = l₁ ++ s :: l₂ ∧ s.fits size = true ∧
      kmallocFind h size walkFuel h.heapStart = some s.addr := by
  have hfuel := hi.length_lt
  have hfind := hi.listed.find size walkFuel (by omega)
  rw [← hi.start_eq] at hfind
  -- nothing fits, or `s` is the first that does
  cases hdrop : l.dropWhile (!·.fits size) with
  | nil =>
    left
    rw [hfind, hdrop]
    refine ⟨rfl, fun x hx => ?_⟩
    simpa using List.dropWhile_eq_nil_iff.mp hdrop x hx
  | cons s l₂ =>
    right
    refine ⟨l.takeWhile (!·.fits size), s, l₂, ?_, ?_, ?_⟩
    · rw [← hdrop, List.takeWhile_append_dropWhile]
    · have := List.head_dropWhile_not (fun x : Seg => !x.fits size) (l := l) (by simp [hdrop])
      simpa [hdrop] using this
    · rw [hfind, hdrop]
      rfl

/-! ## Taking a segment -/

/-- What `kmalloc` leaves of the segment it takes `size` bytes from: the block
    it hands out, and a free rest if there is room for another header. -/
def takeSeg (s : Seg) (size : Nat) : List Seg :=
  if size + 32 ≤ s.length then
    [⟨s.addr, size, false⟩, ⟨s.addr + segHdrSize + size, s.length - size - segHdrSize, true⟩]
  else [⟨s.addr, s.length, false⟩]

/-- A segment that fits is split and taken. -/
theorem kmallocTake_inv (hi : HeapInv h (l ++ s :: k)) {size : Nat} (h16 : size % 16 = 0)
    (hpos : 0 < size) (hfit : s.fits size = true) :
    (kmallocTake h size s.addr).1 = s.block ∧
      HeapInv (kmallocTake h size s.addr).2 (l ++ (takeSeg s size ++ k)) := by
  simp only [Seg.fits, Bool.and_eq_true, decide_eq_true_eq] at hfit
  obtain ⟨hfree, hle⟩ := hfit
  have hsb := hi.bounds (s := s) (by simp)
  have hb := hi.bound
  have hm := hi.seg_eq
  have hblock : u32 (s.addr + segHdrSize) = s.block := by
    rw [u32_of_lt (by simp only [segHdrSize]; omega)]
    rfl
  -- a larger segment is split if there is room for a header, a segment of the size is taken whole
  by_cases hlt : size < s.length
  · have hsplit := heapCombineSplit_inv hi h16 hpos hlt
    refine ⟨by simp [kmallocTake, hm, hlt, hblock], ?_⟩
    have heq : (kmallocTake h size s.addr).2 = (heapCombineSplit h s.addr size).2.setSeg s.addr
        { (heapCombineSplit h s.addr size).2.seg s.addr with free := false } := by
      simp [kmallocTake, hm, hlt]
    rw [heq]
    by_cases hroom : size + 32 ≤ s.length
    · simp only [splitSeg, hroom, if_true, hfree] at hsplit
      simpa [takeSeg, hroom] using
        HeapInv.setFree (s := ⟨s.addr, size, true⟩) (by simpa using hsplit) false
    · simp only [splitSeg, hroom, if_false] at hsplit
      simpa [takeSeg, hroom] using HeapInv.setFree (s := s) (by simpa using hsplit) false
  · refine ⟨by simp [kmallocTake, hm, hlt, hblock], ?_⟩
    have heq : (kmallocTake h size s.addr).2 =
        h.setSeg s.addr { h.seg s.addr with free := false } := by
      simp [kmallocTake, hm, hlt]
    rw [heq]
    simpa [takeSeg, show ¬ size + 32 ≤ s.length by omega] using hi.setFree false

/-! ## Growing the heap -/

/-- Merging does not move the end of the heap. -/
@[simp] theorem heapCombineForward_heapEnd (h : Heap) (a : Nat) :
    (heapCombineForward h a).heapEnd = h.heapEnd := by
  simp only [heapCombineForward, Heap.setSeg]
  split_ifs <;> rfl

/-- It requests no page. -/
@[simp] theorem heapCombineForward_requests (h : Heap) (a : Nat) :
    (heapCombineForward h a).requests = h.requests := by
  simp only [heapCombineForward, Heap.setSeg]
  split_ifs <;> rfl

/-- Merging with the segment before does not move the end either. -/
@[simp] theorem heapCombineBackward_heapEnd (h : Heap) (a : Nat) :
    (heapCombineBackward h a).heapEnd = h.heapEnd := by
  unfold heapCombineBackward
  split_ifs <;> simp

/-- Nor does it request a page. -/
@[simp] theorem heapCombineBackward_requests (h : Heap) (a : Nat) :
    (heapCombineBackward h a).requests = h.requests := by
  unfold heapCombineBackward
  split_ifs <;> simp

/-- `heap_expand` before its last step, in any state: a free segment is put behind the last one. -/
theorem heapExpand_eq (frames : Nat → Nat) (length : Nat) (hb : h.heapEnd < 4294967296)
    (hne : h.heapEnd ≠ h.lastHeader) :
    ∃ pg, heapExpand frames h length = heapCombineBackward
      { h with
        page := pg
        heapEnd := u32 (h.heapEnd + roundUp32 length 0x1000)
        requests := h.requests + roundUp32 length 0x1000 / 0x1000
        lastHeader := h.heapEnd
        seg := Function.update
          (Function.update h.seg h.lastHeader { h.seg h.lastHeader with next := h.heapEnd })
          h.heapEnd ⟨sub32 (roundUp32 length 0x1000) segHdrSize, 0, h.lastHeader, true⟩ }
            h.heapEnd := by
  obtain ⟨pg, hpg⟩ := heapExpandPages_eq frames h (roundUp32 length 0x1000 / 0x1000) hb
  -- the number of pages is the rounded length, which may have wrapped
  have hpages : roundUp32 length 0x1000 / 0x1000 * 0x1000 = roundUp32 length 0x1000 := by
    unfold roundUp32 u32
    split <;> omega
  rw [hpages] at hpg
  refine ⟨pg, ?_⟩
  simp only [heapExpand, hpg, Heap.setSeg, Function.update_self, Function.update_of_ne hne,
    Function.update_of_ne hne.symm]
  rw [Function.update_comm hne.symm, Function.update_idem, Function.update_comm hne.symm]

/-- `heap_expand` by `length` bytes (a page multiple after rounding). -/
theorem heapExpand_inv (frames : Nat → Nat) (hi : HeapInv h l) {length bytes : Nat}
    (hround : roundUp32 length 0x1000 = bytes) (hpage : bytes % 0x1000 = 0) (hpos : 0 < bytes)
    (hwrap : h.heapEnd + bytes < 4294967296) :
    HeapInv (heapExpand frames h length)
        (mergeBackward l ⟨h.heapEnd, bytes - segHdrSize, true⟩) ∧
      (heapExpand frames h length).heapEnd = h.heapEnd + bytes ∧
      (heapExpand frames h length).requests = h.requests + bytes / 0x1000 := by
  have hsub : sub32 bytes segHdrSize = bytes - segHdrSize :=
    sub32_of_le (by simp only [segHdrSize]; omega) (by omega)
  obtain ⟨l', p, rfl⟩ := hi.exists_last
  obtain ⟨hl, hp⟩ := linked_append.mp hi.linked
  obtain ⟨-, hm, hlen, hstop⟩ := hp
  have hpb := hi.bounds (s := p) (by simp)
  have hlast : h.lastHeader = p.addr := by simp [hi.last, lastAddr]
  have hne : h.heapEnd ≠ p.addr := by omega
  obtain ⟨pg, hexp⟩ := heapExpand_eq frames length hi.bound (hlast.symm ▸ hne)
  -- the heap before the final merge, with the new segment linked in behind `p`
  set g : Heap := { h with
    page := pg, heapEnd := h.heapEnd + bytes, requests := h.requests + bytes / 0x1000,
    lastHeader := h.heapEnd,
    seg := Function.update (Function.update h.seg p.addr
        ⟨p.length, h.heapEnd, lastAddr 0 l', p.free⟩) h.heapEnd
      ⟨bytes - segHdrSize, 0, p.addr, true⟩ } with hg
  have hexp : heapExpand frames h length = heapCombineBackward g h.heapEnd := by
    rw [hexp, hround, hlast, hm, hsub, u32_of_lt hwrap]
  have hgi : HeapInv g ((l' ++ [p]) ++ ⟨h.heapEnd, bytes - segHdrSize, true⟩ :: []) := by
    have hgp : g.seg p.addr = ⟨p.length, h.heapEnd, lastAddr 0 l', p.free⟩ := by
      simp [hg, Function.update_of_ne hne.symm]
    refine ⟨linked_append.mpr ⟨linked_append.mpr ⟨?_, rfl, hgp, hlen, hstop⟩, rfl, ?_, ?_, ?_⟩,
      by simp, by simp [hg, lastAddr], hi.start, hwrap⟩
    · exact (hl.update_ge (Nat.le_refl _) _).update_ge (by omega) _
    · simp [hg, headAddr, lastAddr]
    · simp only [segHdrSize]
      omega
    · simp only [Linked, Seg.stop, segHdrSize, hg]
      omega
  rw [hexp]
  refine ⟨?_, by simp [hg], by simp [hg]⟩
  have := heapCombineBackward_inv hgi rfl
  simpa using this

/-- Splitting does not move the end. -/
@[simp] theorem heapCombineSplit_heapEnd (h : Heap) (a n : Nat) :
    (heapCombineSplit h a n).2.heapEnd = h.heapEnd := by
  simp only [heapCombineSplit, Heap.setSeg]
  split_ifs <;> rfl

/-- Nor does it request a page. -/
@[simp] theorem heapCombineSplit_requests (h : Heap) (a n : Nat) :
    (heapCombineSplit h a n).2.requests = h.requests := by
  simp only [heapCombineSplit, Heap.setSeg]
  split_ifs <;> rfl

/-- Taking a segment does not move the end. -/
@[simp] theorem kmallocTake_heapEnd (h : Heap) (size a : Nat) :
    (kmallocTake h size a).2.heapEnd = h.heapEnd := by
  simp only [kmallocTake, Heap.setSeg]
  split_ifs <;> simp

/-- Nor does it request a page. -/
@[simp] theorem kmallocTake_requests (h : Heap) (size a : Nat) :
    (kmallocTake h size a).2.requests = h.requests := by
  simp only [kmallocTake, Heap.setSeg]
  split_ifs <;> simp

/-! ## Segments in use -/

/-- Merging a free segment into its neighbours changes no segment in use. -/
theorem mem_mergeForward_of_used {x : Seg} (hx : x.free = false) (hs : s.free = true) :
    x ∈ mergeForward s k ↔ x ∈ k := by
  have hne : ∀ y : Seg, y.free = true → x ≠ y := fun y hy e => by simp [e, hy] at hx
  cases k with
  | nil => simp [mergeForward, hne s hs]
  | cons t k =>
    by_cases ht : t.free = true
    · have hm := hne ⟨s.addr, s.length + segHdrSize + t.length, s.free⟩ hs
      simp [mergeForward, ht, hne t ht, hm]
    · simp [mergeForward, ht, hne s hs]

/-- Merging free segments keeps those in use. -/
theorem mem_mergeBackward_of_used {x : Seg} (hx : x.free = false) (hs : s.free = true) :
    x ∈ mergeBackward l s ↔ x ∈ l := by
  have hne : ∀ y : Seg, y.free = true → x ≠ y := fun y hy e => by simp [e, hy] at hx
  rcases List.eq_nil_or_concat l with rfl | ⟨l', p, rfl⟩
  · simp [mergeBackward, hne s hs]
  · by_cases hp : p.free = true
    · simp [mergeBackward, hp, hne p hp, hne ⟨_, _, true⟩ rfl]
    · simp [mergeBackward, hp, hne s hs]

/-- The head of what `heap_combine_forward` leaves is still at `s`. -/
theorem mergeForward_eq_cons (s : Seg) (k : List Seg) :
    ∃ n k', mergeForward s k = ⟨s.addr, n, s.free⟩ :: k' := by
  cases k with
  | nil => exact ⟨s.length, [], rfl⟩
  | cons t k =>
    by_cases ht : t.free = true
    · exact ⟨_, k, by simp [mergeForward, ht]; rfl⟩
    · exact ⟨s.length, t :: k, by simp [mergeForward, ht]⟩

/-- `kfree` marks the segment, merges it forward and then backward. -/
theorem kfree_list (hi : HeapInv h (l ++ s :: k)) :
    (kfree h s.block).heapEnd = h.heapEnd ∧ (kfree h s.block).requests = h.requests ∧
    ∀ n k', mergeForward { s with free := true } k = ⟨s.addr, n, true⟩ :: k' →
      HeapInv (kfree h s.block) (mergeBackward l ⟨s.addr, n, true⟩ ++ k') := by
  obtain ⟨pg, hpg⟩ := heapMapKernelSegment_eq h s.block
  have hsb := hi.bounds (s := s) (by simp)
  have hb := hi.bound
  -- the header lies in front of the block
  have hseg : sub32 s.block segHdrSize = s.addr := by
    rw [sub32_of_le (by simp only [Seg.block]; omega)
      (by simp only [Seg.block, segHdrSize]; omega)]
    simp [Seg.block]
  have hi₁ : HeapInv { h with page := pg } (l ++ s :: k) := hi.of_page pg h.requests
  have hi₂ := hi₁.setFree true
  set g : Heap := Heap.setSeg { h with page := pg } s.addr
    { (h.seg s.addr) with free := true } with hg
  -- marked, merged forward, merged backward
  have heq : kfree h s.block = heapCombineBackward (heapCombineForward g s.addr) s.addr := by
    simp only [kfree, hpg, hseg, hg]
  have hi₃ := heapCombineForward_inv hi₂
  rw [heq]
  refine ⟨by simp [hg, Heap.setSeg], by simp [hg, Heap.setSeg], fun n k' hk' => ?_⟩
  rw [hk'] at hi₃
  exact heapCombineBackward_inv hi₃ rfl

/-- `kfree` of a segment in use keeps every other segment in use. -/
theorem kfree_inv (hi : HeapInv h (l ++ s :: k)) :
    (kfree h s.block).heapEnd = h.heapEnd ∧ (kfree h s.block).requests = h.requests ∧
    ∃ l', HeapInv (kfree h s.block) l' ∧
      ∀ x : Seg, x.free = false → (x ∈ l' ↔ x ∈ l ∨ x ∈ k) := by
  obtain ⟨hend, hreq, hlist⟩ := kfree_list hi
  obtain ⟨n, k', hk'⟩ := mergeForward_eq_cons { s with free := true } k
  refine ⟨hend, hreq, _, hlist n k' hk', fun x hx => ?_⟩
  have hmk : x ∈ k' ↔ x ∈ k := by
    have hx' : x ≠ ⟨s.addr, n, true⟩ := fun e => by simp [e] at hx
    have hfw := mem_mergeForward_of_used (s := { s with free := true }) (k := k) hx rfl
    rw [hk'] at hfw
    simpa [hx'] using hfw
  rw [List.mem_append, mem_mergeBackward_of_used hx rfl, hmk]

end MishaOS
