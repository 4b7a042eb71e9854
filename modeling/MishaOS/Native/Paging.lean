import MishaOS.Native.Heap
import Mathlib.Logic.Function.Basic

/-!
# Frames, page tables and page directories

`paging.c` on one state: the frame allocator's bitmap, the page directories
and page tables by address, and `current_page_directory`.  A table or directory
is found at the address of its frame, the identity mapping of the kernel.  The
contents of other frames are not modelled.  `none` stands for a search that does not end.
-/

namespace MishaOS

def HEAP_START_TABLE : Nat := 512
def HEAP_END_TABLE : Nat := 576

/-- `pfa->size * 8`, for the `size` that `pfa_read_memory_map` sets. -/
def PFA_BITS : Nat := 1048576

/-! ## Frames -/

/-- `pfa_t` with the static variables of `paging.c`; `bit i` is the bit of frame `i`. -/
structure Pfa where
  bit : Nat → Bool
  pageIndex : Nat
  freeMemory : BitVec 32
  usedMemory : BitVec 32
  /-- Some request was answered with the null pointer or with a frame in use. -/
  overcommitted : Bool

-- the bound lets `index = size * 8` through, one bit past the bitmap
def pfaGetBit (p : Pfa) (index : Nat) : Bool := if index > PFA_BITS then false else p.bit index

def pfaSetBit (p : Pfa) (index : Nat) (value : Bool) : Pfa :=
  if index > PFA_BITS then p else { p with bit := Function.update p.bit index value }

def pfaFreePage (p : Pfa) (address : Nat) : Pfa :=
  if pfaGetBit p (address / 0x1000) then
    { pfaSetBit p (address / 0x1000) false with
      freeMemory := p.freeMemory + 0x1000, usedMemory := p.usedMemory - 0x1000 }
  else p

def pfaLockPage (p : Pfa) (address : Nat) : Pfa :=
  if pfaGetBit p (address / 0x1000) then p
  else
    { pfaSetBit p (address / 0x1000) true with
      freeMemory := p.freeMemory - 0x1000, usedMemory := p.usedMemory + 0x1000 }

/-- The `count` page addresses from `address` on. -/
def pageRun (address count : Nat) : List Nat :=
  (List.range count).map fun i => u32 (address + i * 0x1000)

def pfaFreePages (p : Pfa) (address count : Nat) : Pfa :=
  (pageRun address count).foldl pfaFreePage p

def pfaLockPages (p : Pfa) (address count : Nat) : Pfa :=
  (pageRun address count).foldl pfaLockPage p

/-- The loop of `pfa_request_page`, with `PFA_BITS - page_index` rounds to go. -/
def pfaRequestPageFrom : Nat → Pfa → Nat × Pfa
  | 0, p => (0, p)
  | n + 1, p =>
    if pfaGetBit p p.pageIndex then pfaRequestPageFrom n { p with pageIndex := p.pageIndex + 1 }
    else (p.pageIndex * 0x1000, pfaLockPage p (p.pageIndex * 0x1000))

def pfaRequestPage (p : Pfa) : Nat × Pfa :=
  let (address, p) := pfaRequestPageFrom (PFA_BITS - p.pageIndex) p
  (address, { p with overcommitted := p.overcommitted || address == 0 })

/-- `for (; pfa_get_bit(pfa, page_index); page_index++)`, which ends past the bitmap. -/
def pfaSkipUsed : Nat → Pfa → Pfa
  | 0, p => p
  | n + 1, p =>
    if pfaGetBit p p.pageIndex then pfaSkipUsed n { p with pageIndex := p.pageIndex + 1 } else p

/-- The search of `pfa_request_pages`; the bit it tests for frame `f` is that of `f * 0x1000`. -/
def pfaFindRun (p : Pfa) (pages : Nat) : Nat → Nat → Option Nat
  | 0, _ => none
  | n + 1, currentIndex =>
    if (List.range pages).any fun i => pfaGetBit p (u32 ((currentIndex + i) * 0x1000)) then
      pfaFindRun p pages n (u32 (currentIndex + pages))
    else some currentIndex

def pfaRequestPages (p : Pfa) (pages : Nat) : Option (Nat × Pfa) := do
  let p := pfaSkipUsed (PFA_BITS + 1 - p.pageIndex) p
  let currentIndex ← pfaFindRun p pages walkFuel p.pageIndex
  let address := u32 (currentIndex * 0x1000)
  let taken := (pageRun address pages).any fun a => pfaGetBit p (a / 0x1000)
  some (address,
    { pfaLockPages p address pages with overcommitted := p.overcommitted || taken || address == 0 })

/-! ## Page tables -/

/-- `page_directory_t` -/
structure PageDirectory where
  tables : Nat → Nat
  physicalTables : Nat → Nat
  physicalAddress : Nat

structure Paging where
  pfa : Pfa
  dir : Nat → PageDirectory
  table : Nat → Nat → Page
  currentPageDirectory : Nat

def Paging.setDir (m : Paging) (d : Nat) (x : PageDirectory) : Paging :=
  { m with dir := Function.update m.dir d x }

def Paging.setTable (m : Paging) (t : Nat) (x : Nat → Page) : Paging :=
  { m with table := Function.update m.table t x }

def Paging.requestPage (m : Paging) : Nat × Paging :=
  let (address, pfa) := pfaRequestPage m.pfa
  (address, { m with pfa := pfa })

/-- The kernel heap's tables, which every directory shares. -/
def heapTable (i : Nat) : Prop := HEAP_START_TABLE ≤ i ∧ i < HEAP_END_TABLE

instance (i : Nat) : Decidable (heapTable i) := inferInstanceAs (Decidable (_ ∧ _))

def pdeGetPhysAddr (m : Paging) (pageDirectory virtualAddr : Nat) : Nat :=
  let address := virtualAddr / 0x1000
  let table := (m.dir pageDirectory).tables (address / 1024)
  (m.table table (address % 1024)).address * 0x1000 + virtualAddr % 0x1000

/-- `page_directory->tables[i] = table`, with the entry the processor reads. -/
def PageDirectory.install (x : PageDirectory) (i table : Nat) : PageDirectory :=
  { x with
    tables := Function.update x.tables i table
    physicalTables := Function.update x.physicalTables i (table ||| 7) }

/-- A loop over `n` slots of a directory, from slot `i` on.  Taking the state
    apart makes a concrete run evaluate slot by slot. -/
@[irreducible] def forSlots (body : Paging → Nat → Paging) : Nat → Nat → Paging → Paging
  | 0, _, m => m
  | n + 1, i, ⟨pfa, dir, table, current⟩ =>
    forSlots body n (i + 1) (body ⟨pfa, dir, table, current⟩ i)

/-- The body of `pde_init` for the slot `i`. -/
def pdeInitSlot (pageDirectory : Nat) (m : Paging) (i : Nat) : Paging :=
  let x := m.dir pageDirectory
  if x.tables i ≠ 0 then m.setDir pageDirectory (x.install i (x.tables i))
  else if heapTable i then
    let (table, m) := m.requestPage
    m.setDir pageDirectory ((m.dir pageDirectory).install i table)
  else m

def pdeInit (m : Paging) (pageDirectory : Nat) : Paging :=
  -- `physical_tables` lies behind the 1024 pointers of `tables`
  let ptr := u32 (pageDirectory + 0x1000)
  let ptr := if m.currentPageDirectory ≠ 0 then pdeGetPhysAddr m m.currentPageDirectory ptr else ptr
  let m := m.setDir pageDirectory { m.dir pageDirectory with physicalAddress := ptr }
  forSlots (pdeInitSlot pageDirectory) 1024 0 m

def pdeAlloc (m : Paging) : Option (Nat × Paging) := do
  let (address, pfa) ← pfaRequestPages m.pfa 3
  some (address, { m with pfa := pfa }.setDir address ⟨fun _ => 0, fun _ => 0, 0⟩)

/-- The body of `pde_clone` for the slot `i`. -/
def pdeCloneSlot (pageDirectory clone : Nat) (m : Paging) (i : Nat) : Paging :=
  let table := (m.dir pageDirectory).tables i
  let setClone (m : Paging) (t : Nat) : Paging :=
    m.setDir clone { m.dir clone with tables := Function.update (m.dir clone).tables i t }
  if heapTable i then setClone m table
  else if table ≠ 0 ∧ table ≠ 0xFFFFFFFF then
    let (copy, m) := m.requestPage
    let m := setClone m copy
    m.setTable copy (m.table ((m.dir pageDirectory).tables i))
  else m

def pdeClone (m : Paging) (pageDirectory : Nat) : Option (Nat × Paging) := do
  let (clone, m) ← pdeAlloc m
  let m := forSlots (pdeCloneSlot pageDirectory clone) 1024 0 m
  some (clone, pdeInit m clone)

/-- The tables `pde_free` releases. -/
def freedTables (x : PageDirectory) : List Nat :=
  ((List.range 1024).filter fun i => ¬ heapTable i ∧ x.tables i ≠ 0).map x.tables

def pdeFree (m : Paging) (pageDirectory : Nat) : Paging :=
  let pfa := (freedTables (m.dir pageDirectory)).foldl pfaFreePage m.pfa
  { m with pfa := pfaFreePages pfa pageDirectory 3 }

/-- Makes sure that the table of an address exists; the entry is the slot
    `address % 1024` of that table. -/
def pdeRequestPage (m : Paging) (pageDirectory virtualMem : Nat) : Paging :=
  let i := virtualMem / 0x1000 / 1024
  if (m.dir pageDirectory).tables i = 0 then
    let (table, m) := m.requestPage
    (m.setDir pageDirectory ((m.dir pageDirectory).install i table)).setTable table
      fun _ => Page.zero
  else m

/-- Writes the entry of an address. -/
def Paging.setPage (m : Paging) (pageDirectory virtualMem : Nat) (f : Page → Page) : Paging :=
  let address := virtualMem / 0x1000
  let t := (m.dir pageDirectory).tables (address / 1024)
  m.setTable t (Function.update (m.table t) (address % 1024) (f (m.table t (address % 1024))))

def pdeMapMemory (m : Paging) (pageDirectory virtualMem physicalMem : Nat) : Paging :=
  (pdeRequestPage m pageDirectory virtualMem).setPage pageDirectory virtualMem fun page =>
    { page with present := true, address := physicalMem / 0x1000 }

def pdeMapUserMemory (m : Paging) (pageDirectory virtualMem physicalMem : Nat) : Paging :=
  (pdeRequestPage m pageDirectory virtualMem).setPage pageDirectory virtualMem fun page =>
    { page with
      present := true, readWrite := true, userSupervisor := true, address := physicalMem / 0x1000 }

/-- Loads a directory; the processor's own registers are not modelled. -/
def enablePaging (m : Paging) (pageDirectory : Nat) : Paging :=
  { m with currentPageDirectory := pageDirectory }

end MishaOS
