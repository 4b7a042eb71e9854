import MishaOS.Native.Exec

/-!
# The pages of a program

`exec` maps the pages of the segments, those of the user stack and those of the
argument block, one after the other.  Which pages these are depends on the file
and the arguments only.

## Key results

- `exec_spec`: the mappings and the image that `exec` leaves.
- `heapPages_execPages`: the user heap range of the image is mapped.
-/

namespace MishaOS

variable {w : ProcWorld} {data : Nat → BitVec 8} {path : List (BitVec 8)}
    {args : List (List (BitVec 8))}
  {v heap cp : Nat}

/-- The pages of a header that the loading loop maps. -/
def ElfPhdr.loaded (h : ElfPhdr) : List Nat := if h.type = PT_LOAD then h.pages else []

/-- `final_offset` behind the loading loop. -/
def elfEnd (data : Nat → BitVec 8) : Nat :=
  (elfPhdrs data).foldl (fun x h => if h.type = PT_LOAD
    then max (u32 (h.vaddr + h.memsz)) x else x) 0

/-- The pages that `expand_heap` maps on the way, with the pages up to `cp` mapped. -/
def argPages : (cp heap : Nat) → List Nat → List Nat
  | _, _, [] => []
  | cp, heap, size :: sizes =>
    let heap := u32 (heap + size)
    (List.range (heap / 0x1000 - cp)).map (fun i => (cp + 1 + i) * 0x1000) ++
      argPages (max cp (heap / 0x1000)) heap sizes

/-- `heap` behind the argument block. -/
def argEnd (heap : Nat) (sizes : List Nat) : Nat :=
  sizes.foldl (fun heap size => u32 (heap + size)) heap

/-- The start of the user heap. -/
def execHeap (data : Nat → BitVec 8) : Nat := roundUp32 (elfEnd data) 0x1000

/-- All pages that `exec` maps, in order. -/
def execPages (data : Nat → BitVec 8) (path : List (BitVec 8))
    (args : List (List (BitVec 8))) : List Nat :=
  (elfPhdrs data).flatMap ElfPhdr.loaded ++ userStackPages ++ [execHeap data] ++
    argPages (execHeap data / 0x1000) (execHeap data) (argSizes path args)

/-! ## The loops -/

/-- The loop over the segments maps their pages. -/
theorem foldl_execSegment (hs : List ElfPhdr) :
    ∀ s : LoadState, (hs.foldl execSegment s).paging =
      (hs.flatMap ElfPhdr.loaded).foldl mapNewPage s.paging ∧
      (hs.foldl execSegment s).finalOffset =
        hs.foldl (fun x h => if h.type = PT_LOAD then max (u32 (h.vaddr + h.memsz)) x else x)
          s.finalOffset := by
  induction hs with
  | nil => exact fun s => ⟨rfl, rfl⟩
  | cons h hs ih =>
    intro s
    obtain ⟨hpaging, hoffset⟩ := ih (execSegment s h)
    rw [List.foldl_cons, hpaging, hoffset, List.flatMap_cons, List.foldl_append, List.foldl_cons]
    by_cases htype : h.type = PT_LOAD
    · simp [execSegment, ElfPhdr.loaded, htype]
    · simp [execSegment, ElfPhdr.loaded, htype]

/-- The loop over the arguments maps theirs. -/
theorem execArgs_eq (sizes : List Nat) :
    ∀ (m : Paging) (cp heap : Nat),
      execArgs (m, cp) heap sizes = ((argPages cp heap sizes).foldl mapNewPage m,
        argEnd heap sizes) := by
  induction sizes with
  | nil => exact fun m cp heap => rfl
  | cons size sizes ih =>
    intro m cp heap
    rw [execArgs, expandHeap, ih, argPages, List.foldl_append, List.foldl_map]
    rfl

/-- The pages up to that of `heap` have been mapped when the block is complete. -/
theorem mem_argPages {sizes : List Nat} (hcp : heap / 0x1000 ≤ cp) {n : Nat} (hn : cp < n)
    (hend : n ≤ argEnd heap sizes / 0x1000) : n * 0x1000 ∈ argPages cp heap sizes := by
  induction sizes generalizing cp heap with
  | nil =>
    have hend : n ≤ heap / 0x1000 := hend
    omega
  | cons size sizes ih =>
    rw [argPages, List.mem_append]
    by_cases hle : n ≤ u32 (heap + size) / 0x1000
    · left
      refine List.mem_map.mpr ⟨n - (cp + 1), List.mem_range.mpr ?_, ?_⟩
      · omega
      · congr 1
        omega
    · right
      exact ih (Nat.le_max_right ..) (by omega) hend

/-- The end of the image has 32 bits. -/
theorem elfEnd_lt (data : Nat → BitVec 8) : elfEnd data < 4294967296 := by
  have hfold : ∀ (hs : List ElfPhdr) (x : Nat), x < 4294967296 →
      hs.foldl (fun x h => if h.type = PT_LOAD then max (u32 (h.vaddr + h.memsz)) x else x) x <
        4294967296 := by
    intro hs
    induction hs with
    | nil => exact fun x hx => hx
    | cons h hs ih =>
      intro x hx
      rw [List.foldl_cons]
      apply ih
      have hlt := u32_lt (h.vaddr + h.memsz)
      split <;> omega
  exact hfold _ _ (by decide)

/-- The heap begins at a page. -/
theorem execHeap_page (data : Nat → BitVec 8) :
    execHeap data % 0x1000 = 0 ∧ execHeap data < 4294967296 := by
  have hlt := elfEnd_lt data
  unfold execHeap roundUp32 u32
  split <;> omega

/-- The end of the arguments has 32 bits. -/
theorem argEnd_lt {sizes : List Nat} (hheap : heap < 4294967296) :
    argEnd heap sizes < 4294967296 := by
  induction sizes generalizing heap with
  | nil => exact hheap
  | cons size sizes ih => exact ih (u32_lt _)

/-- So have their pages. -/
theorem argPages_lt {sizes : List Nat} (hv : v ∈ argPages cp heap sizes) : v < 4294967296 := by
  induction sizes generalizing cp heap with
  | nil => simp [argPages] at hv
  | cons size sizes ih =>
    rw [argPages, List.mem_append] at hv
    rcases hv with hv | hv
    · obtain ⟨i, hi, rfl⟩ := List.mem_map.mp hv
      rw [List.mem_range] at hi
      have hlt := u32_lt (heap + size)
      omega
    · exact ih hv

/-- So have all pages of `exec`. -/
theorem execPages_lt (hv : v ∈ execPages data path args) : v < 4294967296 := by
  simp only [execPages, List.mem_append, List.mem_flatMap, List.mem_singleton] at hv
  rcases hv with ((⟨h, -, hv⟩ | hv) | rfl) | hv
  · unfold ElfPhdr.loaded at hv
    split at hv
    · obtain ⟨i, -, rfl⟩ := List.mem_map.mp hv
      exact u32_lt _
    · simp at hv
  · obtain ⟨i, hi, rfl⟩ := List.mem_map.mp hv
    rw [List.mem_range] at hi
    omega
  · exact (execHeap_page data).2
  · exact argPages_lt hv

/-! ## The image -/

/-- The pages of the heap. -/
theorem mem_heapPages {heap heapAligned : Nat} (hv : v ∈ heapPages heap heapAligned) :
    ∃ i, v = heap + i * 0x1000 ∧ v < heapAligned := by
  obtain ⟨i, hi, rfl⟩ := List.mem_map.mp hv
  rw [List.mem_range] at hi
  exact ⟨i, rfl, by omega⟩

/-- `image.heap` and `image.heap_aligned` of a loaded program. -/
def execEnd (data : Nat → BitVec 8) (path : List (BitVec 8))
    (args : List (List (BitVec 8))) : Nat :=
  argEnd (execHeap data) (argSizes path args)

def execAligned (data : Nat → BitVec 8) (path : List (BitVec 8))
    (args : List (List (BitVec 8))) : Nat :=
  u32 (execEnd data path args + (0x1000 - execEnd data path args % 0x1000))

/-- The user heap range is mapped, page by page. -/
theorem heapPages_execPages (hv : v ∈ heapPages (execHeap data) (execAligned data path args)) :
    v ∈ execPages data path args := by
  obtain ⟨hpage, hlt⟩ := execHeap_page data
  have hend : execEnd data path args < 4294967296 := argEnd_lt hlt
  obtain ⟨i, rfl, hi⟩ := mem_heapPages hv
  have haligned : execAligned data path args ≤ (execEnd data path args / 0x1000 + 1) * 0x1000 := by
    unfold execAligned u32
    omega
  unfold execPages
  rw [List.mem_append]
  -- the first page, or one of those behind it
  by_cases h0 : i = 0
  · left
    simp [h0]
  · right
    have hn : execHeap data + i * 0x1000 = (execHeap data / 0x1000 + i) * 0x1000 := by omega
    rw [hn]
    apply mem_argPages (Nat.le_refl _)
    · omega
    · show execHeap data / 0x1000 + i ≤ execEnd data path args / 0x1000
      omega

/-- The end of the image is the start of the user heap. -/
theorem execHeap_eq (entry : Nat) :
    roundUp32 (u32 (entry + sub32 (elfEnd data) entry)) 0x1000 = execHeap data := by
  have hlt := elfEnd_lt data
  have hend : u32 (entry + sub32 (elfEnd data) entry) = elfEnd data := by
    unfold u32 sub32
    omega
  rw [hend]
  rfl

/-- What `exec` does when it loads a program: `image` becomes the image of the process. -/
structure Loaded (w w' : ProcWorld) (name : Nat) (data : Nat → BitVec 8) (path : List (BitVec 8))
    (args : List (List (BitVec 8))) (image : Ximage) : Prop where
  world : w' = { (w.free w.current.name).malloc [name] with
    paging := (execPages data path args).foldl mapNewPage w.paging
    proc := Function.update w.proc w.currentProcess { w.current with
      name := name, image := image } }
  heapBase : image.heapBase = execHeap data
  heapAligned : image.heapAligned = execAligned data path args
  stack : image.stack = w.current.image.stack

/-- What `exec` maps. -/
theorem exec_spec (name : Nat) (hmagic : elfMagic data = true) :
    ∃ image, Loaded w (exec w name path (some data) args) name data path args image := by
  unfold exec
  dsimp only
  rw [if_pos hmagic]
  -- the copy of the path
  generalize hw₀ : (w.free w.current.name).malloc [name] = w₀
  have hw₀' : w₀ = { w with heap := (w.heap.free w.current.name).alloc name } := hw₀.symm
  generalize hw₁ : w₀.setProc w₀.currentProcess { w₀.current with name := name } = w₁
  have hproc : w₁.proc = Function.update w.proc w.currentProcess
      { w.current with name := name } := by
    rw [← hw₁, hw₀']
    rfl
  have hcurrent : w₁.current = { w.current with name := name } := by
    rw [ProcWorld.current, hproc, ← hw₁, hw₀']
    exact Function.update_self ..
  have hpaging₁ : w₁.paging = w.paging := by
    rw [← hw₁, hw₀']
    rfl
  -- the mappings
  obtain ⟨hpaging, hoffset⟩ := foldl_execSegment (elfPhdrs data) ⟨w₁.paging,
    w₁.current.image.entry, 0⟩
  generalize (elfPhdrs data).foldl execSegment ⟨w₁.paging, w₁.current.image.entry, 0⟩ =
    s at hpaging hoffset ⊢
  have hend : s.finalOffset = elfEnd data := hoffset
  have hheap : roundUp32 s.finalOffset 0x1000 = execHeap data := by
    rw [hend]
    rfl
  have hall : (argPages (execHeap data / 0x1000) (execHeap data) (argSizes path args)).foldl
    mapNewPage
      (mapNewPage (userStackPages.foldl mapNewPage s.paging) (execHeap data)) =
        (execPages data path args).foldl mapNewPage w.paging := by
    rw [execPages, List.foldl_append, List.foldl_append, List.foldl_append, hpaging, hpaging₁,
      List.foldl_cons, List.foldl_nil]
  rw [hheap, execArgs_eq, hall, hend, hcurrent]
  dsimp only
  refine ⟨{ w.current.image with
    entry := s.entry
    size := sub32 (elfEnd data) s.entry
    heap := execEnd data path args
    heapAligned := execAligned data path args
    userStack := 0x10010000
    start := elfEntry data }, ?_, execHeap_eq s.entry, rfl, rfl⟩
  have hworld : w₁ = { w₀ with proc := w₁.proc } := by
    rw [← hw₁]
    rfl
  have hcur₁ : w₁.currentProcess = w.currentProcess := by
    rw [← hw₁, hw₀']
    rfl
  unfold ProcWorld.setProc
  dsimp only
  rw [hcur₁, hproc, Function.update_idem, hworld, ← hw₀]
  rfl

end MishaOS
