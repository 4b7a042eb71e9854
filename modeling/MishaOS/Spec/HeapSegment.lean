import MishaOS.Spec.HeapRun

/-!
# Opening a heap block to user space and closing it again

`heap_map_user_segment` and `heap_map_kernel_segment` rewrite the page table
entries of a block, one page per 4 KiB of its length counted from the page the
block starts in.

## Key results

- `heapMapSegment_eq`: the loop rewrites exactly the entries from the first
  page of the block on.
- `user_pages_iff`: a block that runs over one page border more than its length
  asks for has a last page that is not opened.
- `heap_map_segment_modes`: no page is closed again, as `pde_map_memory` leaves
  the user bit alone; the frames stay the same.
-/

namespace MishaOS

/-- User code can reach the page. -/
def Page.userAccess (page : Page) : Bool := page.present && page.userSupervisor

/-- An entry after `pde_map_user_memory` with the frame it has. -/
def Page.mapUser (page : Page) : Page :=
  { page with present := true, readWrite := true, userSupervisor := true }

/-- An entry after `pde_map_memory` with the frame it has. -/
def Page.mapKernel (page : Page) : Page := { page with present := true }

/-- The page `n` holds a byte of the `length` bytes at `address`. -/
def Overlaps (address length n : Nat) : Prop :=
  ∃ a, address ≤ a ∧ a < address + length ∧ a / 0x1000 = n

variable {h : Heap} {l : List Seg} {s : Seg} {address length n : Nat}

/-! ## The loop -/

/-- The number of pages comes from the length. -/
theorem segmentPages_eq (length : Nat) : segmentPages length = (length + 0xFFF) / 0x1000 := by
  simp only [segmentPages]
  split <;> omega

/-- The frame of a page. -/
theorem physAddr_div (h : Heap) (va : Nat) :
    h.physAddr va / 0x1000 = (h.page (va / 0x1000)).address := by
  simp only [Heap.physAddr]
  omega

/-- A page is opened to the user. -/
theorem mapUserMemory_physAddr (h : Heap) (va : Nat) : h.mapUserMemory va (h.physAddr va) =
    { h with page := Function.update h.page (va / 0x1000) (h.page (va / 0x1000)).mapUser } := by
  simp only [Heap.mapUserMemory, physAddr_div, Page.mapUser]

/-- A page is mapped for the kernel. -/
theorem mapMemory_physAddr (h : Heap) (va : Nat) : h.mapMemory va (h.physAddr va) =
    { h with page := Function.update h.page (va / 0x1000) (h.page (va / 0x1000)).mapKernel } := by
  simp only [Heap.mapMemory, physAddr_div, Page.mapKernel]

/-- The entries of `count` pages from `first` on, each rewritten by `f`. -/
def rewritePages (f : Page → Page) (pages : Nat → Page) (first count : Nat) (n : Nat) : Page :=
  if first ≤ n ∧ n < first + count then f (pages n) else pages n

/-- One more page is rewritten. -/
theorem rewritePages_succ (f : Page → Page) (pages : Nat → Page) (first count : Nat) :
    Function.update (rewritePages f pages first count) (first + count) (f (pages (first + count))) =
      rewritePages f pages first (count + 1) := by
  funext n
  by_cases hn : n = first + count
  · subst hn
    simp [rewritePages]
  · have hiff : n < first + (count + 1) ↔ n < first + count := by omega
    simp [rewritePages, Function.update_of_ne hn, hiff]

/-- The loop visits the pages from the first one of the block on, once each. -/
theorem heapMapSegment_eq {map : Heap → Nat → Nat → Heap} {f : Page → Page}
    (hmap : ∀ h va, map h va (h.physAddr va) =
      { h with page := Function.update h.page (va / 0x1000) (f (h.page (va / 0x1000))) })
    (hlen : (h.seg (sub32 address segHdrSize)).length = length)
    (hend : address + length < 4294967296) :
    heapMapSegment map h address =
      { h with page := rewritePages f h.page (address / 0x1000) (segmentPages length) } := by
  have hpages : ∀ i < segmentPages length, address + i * 0x1000 < 4294967296 := by
    intro i hi
    rw [segmentPages_eq] at hi
    omega
  rw [heapMapSegment, hlen]
  -- induction on the rounds done so far
  generalize segmentPages length = count at hpages
  induction count with
  | zero =>
    have hnone : rewritePages f h.page (address / 0x1000) 0 = h.page := by
      funext n
      exact if_neg (by omega)
    rw [hnone]
    rfl
  | succ count ih =>
    -- The address of the last round does not wrap, so it is the page behind those done before.
    have hva := u32_of_lt (hpages count (Nat.lt_succ_self count))
    have hpage : (address + count * 0x1000) / 0x1000 = address / 0x1000 + count := by omega
    have hsame : rewritePages f h.page (address / 0x1000) count (address / 0x1000 + count) =
        h.page (address / 0x1000 + count) := if_neg (by omega)
    rw [List.range_succ, List.foldl_append, ih fun i hi => hpages i (Nat.lt_succ_of_lt hi)]
    simp only [List.foldl_cons, List.foldl_nil, hva, hmap, hpage, hsame, rewritePages_succ]

/-! ## Blocks of the heap -/

/-- The length is read from the header in front of the block. -/
theorem HeapInv.block_length (hi : HeapInv h l) (hs : s ∈ l) :
    (h.seg (sub32 s.block segHdrSize)).length = s.length ∧ s.block + s.length < 4294967296 := by
  have hbound := (hi.bounds hs).2
  have hend := hi.bound
  have hblock : s.block = s.addr + 16 := rfl
  -- The functions get the block and step back to its header.
  have hback : sub32 s.block segHdrSize = s.addr := by
    show sub32 (s.addr + 16) 16 = s.addr
    rw [sub32_of_le (Nat.le_add_left 16 _) (by omega)]
    exact Nat.add_sub_cancel _ _
  rw [hback, (hi.linked.header hs).1]
  exact ⟨rfl, by omega⟩

/-- The loop opens the pages. -/
theorem HeapInv.mapUser_eq (hi : HeapInv h l) (hs : s ∈ l) :
    heapMapUserSegment h s.block =
      { h with
        page := rewritePages Page.mapUser h.page (s.block / 0x1000) (segmentPages s.length) } :=
  heapMapSegment_eq mapUserMemory_physAddr (hi.block_length hs).1 (hi.block_length hs).2

/-- The loop maps the pages again. -/
theorem HeapInv.mapKernel_eq (hi : HeapInv h l) (hs : s ∈ l) :
    heapMapKernelSegment h s.block =
      { h with
        page := rewritePages Page.mapKernel h.page (s.block / 0x1000) (segmentPages s.length) } :=
  heapMapSegment_eq mapMemory_physAddr (hi.block_length hs).1 (hi.block_length hs).2

/-- The invariant does not mention the page tables. -/
theorem HeapInv.mapUser (hi : HeapInv h l) (hs : s ∈ l) :
    HeapInv (heapMapUserSegment h s.block) l := by
  rw [hi.mapUser_eq hs]
  exact hi.of_page _ h.requests

/-! ## User access -/

/-- The pages a block has bytes in. -/
theorem overlaps_iff : Overlaps address length n ↔
    0 < length ∧ address / 0x1000 ≤ n ∧ n ≤ (address + length - 1) / 0x1000 := by
  constructor
  · rintro ⟨a, hlo, hhi, rfl⟩
    omega
  · rintro ⟨hpos, hlo, hhi⟩
    -- the first byte of the block in page `n`
    by_cases hfirst : n = address / 0x1000
    · exact ⟨address, Nat.le_refl _, by omega, hfirst.symm⟩
    · exact ⟨n * 0x1000, by omega, by omega, by omega⟩

/-- A page the loop visits, or the one behind the last it visits. -/
theorem overlaps_visited (hn : Overlaps address length n) :
    (address / 0x1000 ≤ n ∧ n < address / 0x1000 + segmentPages length) ∨
      (0x1000 * segmentPages length < address % 0x1000 + length ∧
        n = address / 0x1000 + segmentPages length) := by
  obtain ⟨hpos, hlo, hhi⟩ := overlaps_iff.mp hn
  rw [segmentPages_eq]
  omega

/-- The last page of a block whose length and offset in its first page reach
    one page further than the loop goes. -/
theorem overlaps_missed (hpos : 0 < length)
    (hlong : 0x1000 * segmentPages length < address % 0x1000 + length) :
    Overlaps address length (address / 0x1000 + segmentPages length) := by
  rw [segmentPages_eq] at hlong ⊢
  rw [overlaps_iff]
  omega

/-- The page behind the last visited one keeps its entry. -/
theorem mapUser_behind (hi : HeapInv h l) (hs : s ∈ l) :
    (heapMapUserSegment h s.block).page (s.block / 0x1000 + segmentPages s.length) =
      h.page (s.block / 0x1000 + segmentPages s.length) := by
  rw [hi.mapUser_eq hs]
  exact if_neg (by omega)

/-- The pages of the loop are open to the user. -/
theorem mapUser_visited (hi : HeapInv h l) (hs : s ∈ l) (hlo : s.block / 0x1000 ≤ n)
    (hhi : n < s.block / 0x1000 + segmentPages s.length) :
    ((heapMapUserSegment h s.block).page n).userAccess = true := by
  rw [hi.mapUser_eq hs]
  simp [rewritePages, hlo, hhi, Page.mapUser, Page.userAccess]

/-- Every page of the block is open exactly when the loop reaches the last one,
    or that one was open before. -/
theorem user_pages_iff (hi : HeapInv h l) (hs : s ∈ l) (hpos : 0 < s.length) :
    (∀ n, Overlaps s.block s.length n → ((heapMapUserSegment h s.block).page n).userAccess = true) ↔
      s.block % 0x1000 + s.length ≤ 0x1000 * segmentPages s.length ∨
        (h.page (s.block / 0x1000 + segmentPages s.length)).userAccess = true := by
  constructor
  · intro hall
    -- The loop counts whole pages from the start of the block's first page, not from the block.
    by_cases hfit : s.block % 0x1000 + s.length ≤ 0x1000 * segmentPages s.length
    · exact .inl hfit
    · right
      have hlast := hall _ (overlaps_missed hpos (Nat.lt_of_not_le hfit))
      rwa [mapUser_behind hi hs] at hlast
  · intro hcond n hn
    rcases overlaps_visited hn with ⟨hlo, hhi⟩ | ⟨hlong, rfl⟩
    · exact mapUser_visited hi hs hlo hhi
    · rcases hcond with hfit | hopen
      · omega
      · rwa [mapUser_behind hi hs]

/-- A page that is open stays open: `pde_map_memory` only sets `present`. -/
theorem mapKernel_userAccess (hi : HeapInv h l) (hs : s ∈ l) (hn : (h.page n).userAccess = true) :
    ((heapMapKernelSegment h s.block).page n).userAccess = true := by
  rw [hi.mapKernel_eq hs]
  simp only [Page.userAccess, Bool.and_eq_true] at hn
  simp only [rewritePages]
  split <;> simp [Page.mapKernel, Page.userAccess, hn]

/-- The frames stay. -/
theorem rewritePages_address {f : Page → Page} (hf : ∀ page, (f page).address = page.address)
    (pages : Nat → Page) (first count n : Nat) :
    (rewritePages f pages first count n).address = (pages n).address := by
  simp only [rewritePages]
  split
  · exact hf _
  · rfl

/-- What the comments of `heap.h` say about the two functions, for the block
    of `length` bytes at `address`. -/
structure SegmentModes (h : Heap) (address length : Nat) : Prop where
  user : ∀ n, Overlaps address length n → ((heapMapUserSegment h address).page n).userAccess = true
  userFrames : ∀ va, (heapMapUserSegment h address).physAddr va = h.physAddr va
  kernel : ∀ n, Overlaps address length n →
    ((heapMapKernelSegment (heapMapUserSegment h address) address).page n).userAccess = false
  kernelFrames : ∀ va,
    (heapMapKernelSegment (heapMapUserSegment h address) address).physAddr va = h.physAddr va

/-- A block that is not empty has a page which the user map opens and the
    kernel map does not close. -/
theorem first_page_stays (hi : HeapInv h l) (hs : s ∈ l) (hpos : 0 < s.length) :
    Overlaps s.block s.length (s.block / 0x1000) ∧
      ((heapMapKernelSegment (heapMapUserSegment h s.block) s.block).page
        (s.block / 0x1000)).userAccess =
        true := by
  refine ⟨⟨s.block, Nat.le_refl _, by omega, rfl⟩, mapKernel_userAccess (hi.mapUser hs) hs ?_⟩
  have hvisited : s.block / 0x1000 < s.block / 0x1000 + segmentPages s.length := by
    rw [segmentPages_eq]
    omega
  exact mapUser_visited hi hs (Nat.le_refl _) hvisited

/-- The two functions do what they are for on no block that holds a byte.  Of
    the three parts, the frames are always kept, and the pages are all opened
    when the block does not run over one page border more than its length says. -/
theorem heap_map_segment_modes (hi : HeapInv h l) (hs : s ∈ l) :
    (SegmentModes h s.block s.length ↔ s.length = 0) ∧
      (0 < s.length →
        ((∀ n, Overlaps s.block s.length n →
        ((heapMapUserSegment h s.block).page n).userAccess = true) ↔
        s.block % 0x1000 + s.length ≤ 0x1000 * segmentPages s.length ∨
          (h.page (s.block / 0x1000 + segmentPages s.length)).userAccess = true)) ∧
      (∀ va, (heapMapUserSegment h s.block).physAddr va = h.physAddr va ∧
        (heapMapKernelSegment (heapMapUserSegment h s.block) s.block).physAddr va =
          h.physAddr va) := by
  have hframes : ∀ va, (heapMapUserSegment h s.block).physAddr va = h.physAddr va ∧
      (heapMapKernelSegment (heapMapUserSegment h s.block) s.block).physAddr va =
        h.physAddr va := by
    intro va
    have huser : (heapMapUserSegment h s.block).physAddr va = h.physAddr va := by
      rw [hi.mapUser_eq hs]
      simp only [Heap.physAddr, rewritePages_address (f := Page.mapUser) fun _ => rfl]
    -- The second call finds the heap the first one left.
    refine ⟨huser, ?_⟩
    rw [← huser, (hi.mapUser hs).mapKernel_eq hs]
    simp only [Heap.physAddr, rewritePages_address (f := Page.mapKernel) fun _ => rfl]
  refine ⟨⟨fun hmodes => ?_, fun hzero => ?_⟩, user_pages_iff hi hs, hframes⟩
  -- The first page is open after both calls, so a block with a byte fails.
  · by_cases hpos : 0 < s.length
    · obtain ⟨hover, hopen⟩ := first_page_stays hi hs hpos
      have hclosed := hmodes.kernel _ hover
      rw [hopen] at hclosed
      cases hclosed
    · omega
  -- A block without bytes overlaps no page.
  · have hempty : ∀ n, ¬ Overlaps s.block s.length n := by
      rintro n ⟨a, hlo, hhi, -⟩
      omega
    exact ⟨fun n hn => absurd hn (hempty n), fun va => (hframes va).1,
      fun n hn => absurd hn (hempty n), fun va => (hframes va).2⟩

/-- The heap of two pages after `kmalloc(0x1000)`: the block starts 16 bytes
    into the first page. -/
theorem kmalloc_page_reached :
    ∃ r l s, Run (heapStep fun k => (k + 1) * 0x1000)
        (fun s op => HeapCallOk s op ∧ HeapEndOk (fun k => (k + 1) * 0x1000) s op)
        (heapRunInit (fun k => (k + 1) * 0x1000) Heap.blank 2) [.malloc 0x1000] r ∧
      r.live = [(0x80000010, 0x1000)] ∧ HeapInv r.heap l ∧ s ∈ l ∧
      s.block = 0x80000010 ∧ s.length = 0x1000 ∧
      (r.heap.page 0x80001).userAccess = false := by
  have hexec : ((Run.exec (heapStep fun k => (k + 1) * 0x1000)
      (fun s op => HeapCallOk s op ∧ HeapEndOk (fun k => (k + 1) * 0x1000) s op)
      (heapRunInit (fun k => (k + 1) * 0x1000) Heap.blank 2) [.malloc 0x1000]).map
        fun r => (r.live, r.heap.blockLen 0x80000010, (r.heap.page 0x80001).userAccess)) =
      some ([(0x80000010, 0x1000)], 0x1000, false) := by decide +kernel
  obtain ⟨r, hr, hval⟩ := Option.map_eq_some_iff.mp hexec
  simp only [Prod.mk.injEq] at hval
  obtain ⟨hlive, hlen, hpage⟩ := hval
  obtain ⟨l, hi⟩ := heapRun_inv (by decide) (by decide) (Run.of_exec hr)
  obtain ⟨s, hs, -, hblock, -⟩ := hi.used (0x80000010, 0x1000) (by simp [hlive])
  have hslen := hi.heap.blockLen hs
  rw [hblock, hlen] at hslen
  exact ⟨r, l, s, Run.of_exec hr, hlive, hi.heap, hs, hblock, hslen.symm, hpage⟩

/-- The block `kmalloc` returns for one page: its second page is not opened. -/
theorem heap_map_segment_modes_second_page : ∃ h l s, HeapInv h l ∧ s ∈ l ∧ 0 < s.length ∧
    ¬ SegmentModes h s.block s.length ∧
    ¬ ∀ n, Overlaps s.block s.length n →
    ((heapMapUserSegment h s.block).page n).userAccess = true := by
  obtain ⟨r, l, s, -, -, hi, hs, hblock, hlen, hpage⟩ := kmalloc_page_reached
  obtain ⟨hmodes, huser, -⟩ := heap_map_segment_modes hi hs
  have hpos : 0 < s.length := by omega
  refine ⟨r.heap, l, s, hi, hs, hpos, fun h => absurd (hmodes.mp h) (by omega), fun hall => ?_⟩
  rw [huser hpos, hblock, hlen] at hall
  rcases hall with hfit | hopen
  · exact absurd hfit (by decide)
  · rw [show 0x80000010 / 0x1000 + segmentPages 0x1000 = 0x80001 by decide, hpage] at hopen
    cases hopen

/-- After `heap_init` of two pages and `kmalloc(0x1000)` the block stays open
    to user space. -/
theorem heap_map_segment_stays_open :
    ¬ ∀ (frames : Nat → Nat) (h : Heap) (n : Nat) (ops : List HeapOp) (r : HeapRun), 1 ≤ n →
      HEAP_START + n * 0x1000 < 4294967296 →
      Run (heapStep frames) (fun s op => HeapCallOk s op ∧ HeapEndOk frames s op)
        (heapRunInit frames h n) ops r →
      ∀ p ∈ r.live.map Prod.fst, SegmentModes r.heap p (r.heap.blockLen p) := by
  intro hall
  obtain ⟨r, l, s, hrun, hlive, hi, hs, hblock, hlen, -⟩ := kmalloc_page_reached
  have hmodes := hall _ _ 2 _ r (by decide) (by decide) hrun 0x80000010 (by simp [hlive])
  rw [← hblock, hi.blockLen hs] at hmodes
  obtain ⟨hover, hopen⟩ := first_page_stays hi hs (by omega)
  rw [hmodes.kernel _ hover] at hopen
  cases hopen

end MishaOS
