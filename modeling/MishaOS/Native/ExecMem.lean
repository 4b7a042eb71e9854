import MishaOS.ForStd.Bytes
import MishaOS.Native.Exec

/-!
# The memory of a program

`exec.c` with the bytes it writes: the loop over the program headers, which
fills a frame before it is seen in the directory, and the argument block, which
is written through the current directory.  A frame is written at its own
address, the identity mapping of the kernel; the frames of tables and
directories have their contents in `Paging`.  The file is the memory from
`exec_data` on, and the strings are lists of bytes without the final null byte.
-/

namespace MishaOS

open Bytes

/-- The mappings, and the bytes of the frames. -/
structure LoadMem where
  paging : Paging
  bytes : Nat → Byte

/-- `elf32_phdr_t`, with the place of the contents in the file. -/
structure ElfSegment extends ElfPhdr where
  offset : Nat
  filesz : Nat
deriving DecidableEq

def ElfSegment.read (data : Nat → Byte) (i : Nat) : ElfSegment :=
  { ElfPhdr.read data i with offset := read32 data (i + 4), filesz := read32 data (i + 16) }

/-- The program headers, in the order of the loop. -/
def elfSegments (data : Nat → Byte) : List ElfSegment :=
  let phoff := read32 data 28
  let phentsize := read16 data 42
  let phnum := read16 data 44
  (List.range (if phentsize = 0 then 0 else phnum)).map fun i =>
    ElfSegment.read data (u32 (phoff + i * phentsize))

/-- `pages` of the loading loop. -/
def ElfPhdr.pageCount (h : ElfPhdr) : Nat :=
  h.memsz / 0x1000 + if h.memsz % 0x1000 ≠ 0 then 1 else 0

/-- The `n` bytes from `address` on become those of `src`: `memcpy`, and
    `memset` for a constant `src`. -/
def copyTo (bytes : Nat → Byte) (address n : Nat) (src : Nat → Byte) (a : Nat) : Byte :=
  if address ≤ a ∧ a < address + n then src (a - address) else bytes a

/-- The loop body for one page of a segment. -/
def loadPage (data : Nat → Byte) (h : ElfSegment) (s : LoadMem) (i : Nat) : LoadMem :=
  let offset := u32 (i * 4096)
  let (page, paging) := s.paging.requestPage
  let bytes := copyTo s.bytes page 4096 fun _ => 0
  let paging := pdeMapUserMemory paging paging.currentPageDirectory (u32 (h.vaddr + offset)) page
  if offset ≤ h.filesz then
    let length := if u32 (offset + 4096) > h.filesz then h.filesz - offset else 4096
    ⟨paging, copyTo bytes page length fun j => data (u32 (h.offset + offset + j))⟩
  else ⟨paging, bytes⟩

/-- The loop body for one program header. -/
def loadSegment (data : Nat → Byte) (s : LoadMem) (h : ElfSegment) : LoadMem :=
  if h.type = PT_LOAD then (List.range h.pageCount).foldl (loadPage data h) s else s

/-- The loading loop over the headers `hs`. -/
def loadSegments (data : Nat → Byte) (hs : List ElfSegment) (s : LoadMem) : LoadMem :=
  hs.foldl (loadSegment data) s

/-- The loading loop of `exec`. -/
def execLoad (data : Nat → Byte) (s : LoadMem) : LoadMem := loadSegments data (elfSegments data) s

/-! ## The argument block -/

/-- A byte is written through the current directory; `none` is a page fault. -/
def LoadMem.store (s : LoadMem) (a : Nat) (b : Byte) : Option LoadMem :=
  let d := s.paging.currentPageDirectory
  let t := (s.paging.dir d).tables (a / 0x1000 / 1024)
  if t ≠ 0 ∧ (s.paging.table t (a / 0x1000 % 1024)).present then
    some { s with bytes := Function.update s.bytes (pdeGetPhysAddr s.paging d a) b }
  else none

def LoadMem.storeBytes : LoadMem → Nat → List Byte → Option LoadMem
  | s, _, [] => some s
  | s, a, b :: l => do
    let s ← s.store a b
    s.storeBytes (u32 (a + 1)) l

/-- The memory and the variables `current_page` and `heap` of `exec`. -/
structure ArgState where
  mem : LoadMem
  currentPage : Nat
  heap : Nat

/-- `heap += size; expand_heap();` -/
def ArgState.grow (s : ArgState) (size : Nat) : ArgState :=
  let heap := u32 (s.heap + size)
  let (paging, currentPage) := expandHeap (s.mem.paging, s.currentPage) heap
  ⟨{ s.mem with paging := paging }, currentPage, heap⟩

/-- The loop body for one string; `i` is the index into `argv_ptr`. -/
def pushArg (argvPtr : Nat) (s : ArgState) (i : Nat) (arg : List Byte) : Option ArgState := do
  let targetPtr := s.heap
  let s := s.grow (arg.length + 1)
  let mem ← s.mem.storeBytes targetPtr (arg ++ [0])
  let mem ← mem.storeBytes (u32 (argvPtr + 4 * i)) (le32 targetPtr)
  some { s with mem := mem }

def pushArgs (argvPtr : Nat) : ArgState → Nat → List (List Byte) → Option ArgState
  | s, _, [] => some s
  | s, i, arg :: args => do
    let s ← pushArg argvPtr s i arg
    pushArgs argvPtr s (i + 1) args

/-- The pointers that `exec` has at the end, and the heap of the image. -/
structure ArgBlock where
  mem : LoadMem
  argvPtr : Nat
  envPtr : Nat
  auxvPtr : Nat
  heap : Nat
  heapAligned : Nat

/-- Building the argument block, from the first page on. -/
def argBlock (s : LoadMem) (finalOffset : Nat) (path : List Byte) (args : List (List Byte)) :
    Option ArgBlock := do
  let heap := roundUp32 finalOffset 0x1000
  let s : ArgState := ⟨{ s with paging := mapNewPage s.paging heap }, heap / 0x1000, heap⟩
  let argvPtr := s.heap
  let s := s.grow (4 * (args.length + 2))
  let envPtr := s.heap
  let s := s.grow 4
  let auxvPtr := s.heap
  let s := s.grow 8
  let s ← pushArgs argvPtr s 0 (path :: args)
  let mem ← s.mem.storeBytes (u32 (argvPtr + 4 * (args.length + 1))) (le32 0)
  let mem ← mem.storeBytes envPtr (le32 0)
  let mem ← mem.storeBytes auxvPtr (List.replicate 8 0)
  some ⟨mem, argvPtr, envPtr, auxvPtr, s.heap, u32 (s.heap + (0x1000 - s.heap % 0x1000))⟩

end MishaOS
