import Mathlib.Logic.Function.Basic
import MishaOS.Native.Word

/-!
# The kernel heap

Model of `src/sys/heap.c`: a first-fit allocator over one doubly linked list
of segment headers.  A header is found at its own address, so the header
memory is a function from addresses; the header words of distinct 16-byte
aligned headers never overlap.  Header memory is virtual, which presumes that
each frame the allocator asked for was really handed out.

The loops of the source that follow `next` and the recursion of `kmalloc` are
bounded by the size of the address space and by the number of frames; a bound
that is reached stands for a call that does not return (`none`).
-/

namespace MishaOS

def HEAP_START : Nat := 0x80000000
def HEAP_END : Nat := 0x90000000

/-- `page_t`, the flags and frame number of one virtual page. -/
structure Page where
  present : Bool
  readWrite : Bool
  userSupervisor : Bool
  accessed : Bool
  dirty : Bool
  address : Nat
deriving Repr, DecidableEq

/-- An entry of a freshly cleared page table. -/
def Page.zero : Page := ⟨false, false, false, false, false, 0⟩

/-- `heap_seg_hdr_t`. -/
structure HeapSegHdr where
  length : Nat
  next : Nat
  last : Nat
  free : Bool
deriving Repr, DecidableEq

/-- `sizeof(heap_seg_hdr_t)` on i686. -/
def segHdrSize : Nat := 16

/-- The static variables of `heap.c`, the header memory, and the page table
    entries of the kernel directory.  `requests` counts the frames taken. -/
structure Heap where
  heapStart : Nat
  heapEnd : Nat
  lastHeader : Nat
  seg : Nat → HeapSegHdr
  page : Nat → Page
  requests : Nat

namespace Heap

/-- Store through a pointer to a header. -/
def setSeg (h : Heap) (a : Nat) (s : HeapSegHdr) : Heap :=
  { h with seg := Function.update h.seg a s }

/-- `pde_map_memory(&page_directory, &pfa, va, pa)`. -/
def mapMemory (h : Heap) (va pa : Nat) : Heap :=
  let page := { h.page (va / 0x1000) with present := true, address := pa / 0x1000 }
  { h with page := Function.update h.page (va / 0x1000) page }

/-- `pde_map_user_memory(&page_directory, &pfa, va, pa)`. -/
def mapUserMemory (h : Heap) (va pa : Nat) : Heap :=
  let page := { h.page (va / 0x1000) with
    present := true, readWrite := true, userSupervisor := true, address := pa / 0x1000 }
  { h with page := Function.update h.page (va / 0x1000) page }

/-- `pde_get_phys_addr(&page_directory, va)`. -/
def physAddr (h : Heap) (va : Nat) : Nat :=
  (h.page (va / 0x1000)).address * 0x1000 + va % 0x1000

end Heap

/-- `heap_combine_forward`. -/
def heapCombineForward (h : Heap) (seg : Nat) : Heap :=
  let next := (h.seg seg).next
  if next = 0 then h
  else if !(h.seg next).free then h
  else
    let h := if next = h.lastHeader then { h with lastHeader := seg } else h
    let nextNext := (h.seg next).next
    let h := if nextNext ≠ 0 then h.setSeg nextNext { h.seg nextNext with last := seg } else h
    let h := h.setSeg seg
      { h.seg seg with length := u32 ((h.seg seg).length + ((h.seg next).length + segHdrSize)) }
    h.setSeg seg { h.seg seg with next := (h.seg next).next }

/-- `heap_combine_backward`. -/
def heapCombineBackward (h : Heap) (seg : Nat) : Heap :=
  if (h.seg seg).last ≠ 0 ∧ (h.seg (h.seg seg).last).free then
    heapCombineForward h (h.seg seg).last
  else h

/-- `heap_combine_split`; the first component is the returned header or null. -/
def heapCombineSplit (h : Heap) (seg length : Nat) : Nat × Heap :=
  if length < 0x10 then (0, h)
  else
    let splitSegLength := sub32 (sub32 (h.seg seg).length length) segHdrSize
    if splitSegLength < 0x10 then (0, h)
    else
      let newHeader := u32 (seg + length + segHdrSize)
      let next := (h.seg seg).next
      let h := if next ≠ 0 then h.setSeg next { h.seg next with last := newHeader } else h
      let h := h.setSeg newHeader { h.seg newHeader with next := (h.seg seg).next }
      let h := h.setSeg seg { h.seg seg with next := newHeader }
      let h := h.setSeg newHeader
        { h.seg newHeader with last := seg, length := splitSegLength, free := (h.seg seg).free }
      let h := h.setSeg seg { h.seg seg with length := length }
      (newHeader, if h.lastHeader = seg then { h with lastHeader := newHeader } else h)

section Pages

-- `frames k` is what the `k`-th call of `pfa_request_page` returns.
variable (frames : Nat → Nat)

/-- Map one more page at `va`. -/
def heapMapPage (h : Heap) (va : Nat) : Heap :=
  { h.mapMemory va (frames h.requests) with requests := h.requests + 1 }

/-- The mapping loop of `heap_init`. -/
def heapInitPages (h : Heap) : (pageCount virtualAddress : Nat) → Heap
  | 0, _ => h
  | n + 1, va => heapInitPages (heapMapPage frames h va) n (u32 (va + 0x1000))

/-- `heap_init`.  `h` holds what the header memory and the page tables
    contained before. -/
def heapInit (h : Heap) (pageCount : Nat) : Heap :=
  let h := heapInitPages frames h pageCount HEAP_START
  let heapLength := u32 (pageCount * 0x1000)
  let h := { h with heapStart := HEAP_START, heapEnd := u32 (HEAP_START + heapLength) }
  let h := h.setSeg HEAP_START
    { length := sub32 heapLength segHdrSize, next := 0, last := 0, free := true }
  { h with lastHeader := HEAP_START }

/-- The mapping loop of `heap_expand`, which moves `heap_end`. -/
def heapExpandPages (h : Heap) : (pageCount : Nat) → Heap
  | 0 => h
  | n + 1 =>
    let h := heapMapPage frames h h.heapEnd
    heapExpandPages { h with heapEnd := u32 (h.heapEnd + 0x1000) } n

/-- `heap_expand`. -/
def heapExpand (h : Heap) (length : Nat) : Heap :=
  let length := roundUp32 length 0x1000
  let newSegment := h.heapEnd
  let h := heapExpandPages frames h (length / 0x1000)
  let h := h.setSeg newSegment { h.seg newSegment with free := true, last := h.lastHeader }
  let h := h.setSeg h.lastHeader { h.seg h.lastHeader with next := newSegment }
  let h := { h with lastHeader := newSegment }
  let h := h.setSeg newSegment
    { h.seg newSegment with next := 0, length := sub32 length segHdrSize }
  heapCombineBackward h newSegment

/-- The `while` loop of `kmalloc`: the first free segment of at least `size`
    bytes from `currentSeg` on, or null when the list has none. -/
def kmallocFind (h : Heap) (size : Nat) : (fuel currentSeg : Nat) → Option Nat
  | 0, _ => none
  | fuel + 1, currentSeg =>
    if currentSeg = 0 then some 0
    else if (h.seg currentSeg).free ∧ size ≤ (h.seg currentSeg).length then some currentSeg
    else kmallocFind h size fuel (h.seg currentSeg).next

/-- What `kmalloc` does with the segment its loop stopped at. -/
def kmallocTake (h : Heap) (size seg : Nat) : Nat × Heap :=
  if size < (h.seg seg).length then
    let h := (heapCombineSplit h seg size).2
    (u32 (seg + segHdrSize), h.setSeg seg { h.seg seg with free := false })
  else
    (u32 (seg + segHdrSize), h.setSeg seg { h.seg seg with free := false })

/-- Number of frames: a recursion that is deeper has asked for more. -/
def expandFuel : Nat := 1048576

/-- The recursion of `kmalloc`, at most `fuel` calls deep. -/
def kmallocRec : (fuel : Nat) → Heap → (size : Nat) → Option (Nat × Heap)
  | 0, _, _ => none
  | fuel + 1, h, size =>
    let size := roundUp32 size 0x10
    if size = 0 then some (0, h)
    else
      match kmallocFind h size walkFuel h.heapStart with
      | none => none
      | some seg =>
        if seg = 0 then kmallocRec fuel (heapExpand frames h size) size
        else some (kmallocTake h size seg)

/-- `kmalloc`: the returned pointer and the heap afterwards. -/
def kmalloc (h : Heap) (size : Nat) : Option (Nat × Heap) :=
  kmallocRec frames expandFuel h size

end Pages

/-- Number of pages `heap_map_user_segment` and `heap_map_kernel_segment` visit. -/
def segmentPages (length : Nat) : Nat :=
  length / 0x1000 + if length % 0x1000 ≠ 0 then 1 else 0

/-- The loop of `heap_map_user_segment` and `heap_map_kernel_segment` over the
    pages `address + i * 0x1000`, remapped by `map` to the frame they have. -/
def heapMapSegment (map : Heap → Nat → Nat → Heap) (h : Heap) (address : Nat) : Heap :=
  (List.range (segmentPages (h.seg (sub32 address segHdrSize)).length)).foldl
    (fun h i => map h (u32 (address + i * 0x1000)) (h.physAddr (u32 (address + i * 0x1000)))) h

/-- `heap_map_user_segment`. -/
def heapMapUserSegment : Heap → Nat → Heap := heapMapSegment Heap.mapUserMemory

/-- `heap_map_kernel_segment`. -/
def heapMapKernelSegment : Heap → Nat → Heap := heapMapSegment Heap.mapMemory

/-- `kfree`. -/
def kfree (h : Heap) (address : Nat) : Heap :=
  let h := heapMapKernelSegment h address
  let segment := sub32 address segHdrSize
  let h := h.setSeg segment { h.seg segment with free := true }
  heapCombineBackward (heapCombineForward h segment) segment

end MishaOS
