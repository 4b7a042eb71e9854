import MishaOS.Native.Process

/-!
# Loading a program

`exec.c`: the frames and mappings of an image, of the user stack and of the
argument block.  The contents of the pages are not modelled.  The file is the
memory from the pointer that `vfs_file_content` returns.
-/

namespace MishaOS

def read16 (p : Nat → BitVec 8) (i : Nat) : Nat := (p i).toNat + 0x100 * (p (i + 1)).toNat

def read32 (p : Nat → BitVec 8) (i : Nat) : Nat := read16 p i + 0x10000 * read16 p (i + 2)

/-- `elf32_phdr_t`, as far as the mappings depend on it. -/
structure ElfPhdr where
  type : Nat
  vaddr : Nat
  memsz : Nat
deriving DecidableEq

def PT_LOAD : Nat := 1

def ElfPhdr.read (data : Nat → BitVec 8) (i : Nat) : ElfPhdr :=
  ⟨read32 data i, read32 data (i + 8), read32 data (i + 20)⟩

/-- The four bytes `exec` checks. -/
def elfMagic (data : Nat → BitVec 8) : Bool :=
  data 0 = 0x7F ∧ data 1 = 0x45 ∧ data 2 = 0x4C ∧ data 3 = 0x46

/-- The program headers, in the order of the loop over `e_phnum` steps of
    `e_phentsize` bytes. -/
def elfPhdrs (data : Nat → BitVec 8) : List ElfPhdr :=
  let phoff := read32 data 28
  let phentsize := read16 data 42
  let phnum := read16 data 44
  (List.range (if phentsize = 0 then 0 else phnum)).map fun i =>
    ElfPhdr.read data (u32 (phoff + i * phentsize))

def elfEntry (data : Nat → BitVec 8) : Nat := read32 data 24

/-- A frame is requested and mapped at `page` of the current directory. -/
def mapNewPage (m : Paging) (page : Nat) : Paging :=
  let (frame, m) := m.requestPage
  pdeMapUserMemory m m.currentPageDirectory page frame

/-- The addresses `exec` maps for a segment. -/
def ElfPhdr.pages (h : ElfPhdr) : List Nat :=
  (List.range (h.memsz / 0x1000 + if h.memsz % 0x1000 ≠ 0 then 1 else 0)).map fun i =>
    u32 (h.vaddr + i * 4096)

/-- What the loading loop carries: the mappings, `image.entry` and `final_offset`. -/
structure LoadState where
  paging : Paging
  entry : Nat
  finalOffset : Nat

/-- The body of the loading loop. -/
def execSegment (s : LoadState) (h : ElfPhdr) : LoadState :=
  if h.type = PT_LOAD then
    { paging := h.pages.foldl mapNewPage s.paging
      entry := if h.vaddr < s.entry then h.vaddr else s.entry
      finalOffset := max (u32 (h.vaddr + h.memsz)) s.finalOffset }
  else s

/-- The pages of the user stack. -/
def userStackPages : List Nat := (List.range 16).map fun i => 0x10000000 + i * 0x1000

/-- `expand_heap`: maps the pages behind `current_page` up to that of `heap`. -/
def expandHeap (s : Paging × Nat) (heap : Nat) : Paging × Nat :=
  ((List.range (heap / 0x1000 - s.2)).foldl (fun m i => mapNewPage m ((s.2 + 1 + i) * 0x1000)) s.1,
    max s.2 (heap / 0x1000))

/-- The sizes by which `heap` grows: the pointers, the environment, the
    auxiliary vector and each string. -/
def argSizes (path : List (BitVec 8)) (args : List (List (BitVec 8))) : List Nat :=
  [4 * (args.length + 2), 4, 8] ++ (path :: args).map fun arg => arg.length + 1

/-- Building the argument block from `heap` on; the result is `heap`, behind the block. -/
def execArgs : Paging × Nat → Nat → List Nat → Paging × Nat
  | s, heap, [] => (s.1, heap)
  | s, heap, size :: sizes =>
    let heap := u32 (heap + size)
    execArgs (expandHeap s heap) heap sizes

/-- `exec`; `file` is what `open` and `vfs_file_content` find under `path`, and
    `malloc` returns `name` for the copy of `path`. -/
def exec (w : ProcWorld) (name : Nat) (path : List (BitVec 8)) (file : Option (Nat → BitVec 8))
    (args : List (List (BitVec 8))) : ProcWorld :=
  match file with
  | none => w
  | some data =>
    let w := (w.free w.current.name).malloc [name]
    let w := w.setProc w.currentProcess { w.current with name := name }
    if elfMagic data then
      let s := (elfPhdrs data).foldl execSegment ⟨w.paging, w.current.image.entry, 0⟩
      let paging := userStackPages.foldl mapNewPage s.paging
      let heap := roundUp32 s.finalOffset 0x1000
      let paging := mapNewPage paging heap
      let (paging, heap) := execArgs (paging, heap / 0x1000) heap (argSizes path args)
      { w with paging := paging }.setProc w.currentProcess { w.current with
        image := { w.current.image with
          entry := s.entry
          size := sub32 s.finalOffset s.entry
          heap := heap
          heapAligned := u32 (heap + (0x1000 - heap % 0x1000))
          userStack := 0x10010000
          start := elfEntry data } }
    else w

/-- `system` in the parent: it goes on to the next process without queueing itself. -/
def system (w : ProcWorld) (m : SpawnMem) : Option ProcWorld := do
  let w ← fork w m
  switchNext walkFuel w

end MishaOS
