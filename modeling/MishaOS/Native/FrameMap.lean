import MishaOS.Native.Paging

/-!
# The bitmap of the frame allocator

The `pfa_` functions of `paging.c` on the bytes of the bitmap and on the static
variables beside it.  `Native/Paging.lean` has requests, locks and releases on
single bits, with the counters the other modules need.  `pfa->size` is the value
that `pfa_read_memory_map` sets.  The memory map is the list of its entries in
the order of the walk.
-/

namespace MishaOS

structure FrameMap where
  buffer : Nat → BitVec 8
  pageIndex : Nat
  freeMemory : BitVec 32
  usedMemory : BitVec 32
  reservedMemory : BitVec 32
  initialized : Bool

/-- `pfa->size` -/
def PFA_SIZE : Nat := 0xFFFFFFFF / 0x1000 / 8 + 1

/-- Before `pfa_read_memory_map`: the static variables are 0, the memory of the bitmap is anything.
    -/
def FrameMap.boot (buffer : Nat → BitVec 8) : FrameMap := ⟨buffer, 0, 0, 0, 0, false⟩

/-! ## Bits -/

/-- `(1 << 7) >> (index % 8)`: the most significant bit comes first. -/
def bitMask (index : Nat) : BitVec 8 := 0x80#8 >>> (index % 8)

def FrameMap.getBit (p : FrameMap) (index : Nat) : Bool :=
  if index > PFA_SIZE * 8 then false else p.buffer (index / 8) &&& bitMask index ≠ 0

def FrameMap.setBit (p : FrameMap) (index : Nat) (value : Bool) : Bool × FrameMap :=
  if index > PFA_SIZE * 8 then (false, p)
  else
    let byte := p.buffer (index / 8)
    let byte := if value then byte ||| bitMask index else byte &&& ~~~bitMask index
    (true, { p with buffer := Function.update p.buffer (index / 8) byte })

/-! ## Pages -/

def FrameMap.freePage (p : FrameMap) (address : Nat) : FrameMap :=
  let index := address / 0x1000
  if p.getBit index = false then p
  else
    let p := (p.setBit index false).2
    { p with freeMemory := p.freeMemory + 0x1000, usedMemory := p.usedMemory - 0x1000 }

def FrameMap.lockPage (p : FrameMap) (address : Nat) : FrameMap :=
  let index := address / 0x1000
  if p.getBit index then p
  else
    let p := (p.setBit index true).2
    { p with freeMemory := p.freeMemory - 0x1000, usedMemory := p.usedMemory + 0x1000 }

def FrameMap.freePages (p : FrameMap) (address count : Nat) : FrameMap :=
  (pageRun address count).foldl FrameMap.freePage p

def FrameMap.lockPages (p : FrameMap) (address count : Nat) : FrameMap :=
  (pageRun address count).foldl FrameMap.lockPage p

def FrameMap.reservePage (p : FrameMap) (address : Nat) : FrameMap :=
  let index := address / 0x1000
  if p.getBit index then p
  else
    let (set, p) := p.setBit index true
    if set then
      { p with
        freeMemory := p.freeMemory - 0x1000
        reservedMemory := p.reservedMemory + 0x1000
        pageIndex := if p.pageIndex > index then index else p.pageIndex }
    else p

def FrameMap.reservePages (p : FrameMap) (address count : Nat) : FrameMap :=
  (pageRun address count).foldl FrameMap.reservePage p

/-- The loop of `pfa_request_page`, with `n` rounds to go. -/
def FrameMap.requestPageFrom : Nat → FrameMap → Option Nat × FrameMap
  | 0, p => (none, p)
  | n + 1, p =>
    if p.getBit p.pageIndex then requestPageFrom n { p with pageIndex := p.pageIndex + 1 }
    else (some (p.pageIndex * 0x1000), p.lockPage (p.pageIndex * 0x1000))

/-- `pfa_request_page`; `none` is the null pointer behind the message "Out of memory". -/
def FrameMap.requestPage (p : FrameMap) : Option Nat × FrameMap :=
  p.requestPageFrom (PFA_SIZE * 8 - p.pageIndex)

/-- `for (; pfa_get_bit(pfa, page_index); page_index++)` -/
def FrameMap.skipUsed : Nat → FrameMap → FrameMap
  | 0, p => p
  | n + 1, p =>
    if p.getBit p.pageIndex then skipUsed n { p with pageIndex := p.pageIndex + 1 } else p

/-- The search of `pfa_request_pages`. -/
def FrameMap.findRun (p : FrameMap) (pages : Nat) : Nat → Nat → Option Nat
  | 0, _ => none
  | n + 1, currentIndex =>
    if (List.range pages).any fun i => p.getBit (u32 ((currentIndex + i) * 0x1000)) then
      findRun p pages n (u32 (currentIndex + pages))
    else some currentIndex

def FrameMap.requestPages (p : FrameMap) (pages : Nat) : Option (Nat × FrameMap) := do
  let p := p.skipUsed (PFA_SIZE * 8 + 1 - p.pageIndex)
  let currentIndex ← p.findRun pages walkFuel p.pageIndex
  let address := u32 (currentIndex * 0x1000)
  some (address, p.lockPages address pages)

/-! ## The memory map -/

/-- `multiboot_memory_map_t` -/
structure MemoryMapEntry where
  addr : BitVec 64
  len : BitVec 64
  type : BitVec 32

def MULTIBOOT_MEMORY_AVAILABLE : BitVec 32 := 1

/-- `kernel_meminfo_t`, and the place of the initial ramdisk. -/
structure KernelMeminfo where
  kernelPhysicalStart : BitVec 32
  kernelPhysicalEnd : BitVec 32
  initrdStart : BitVec 32
  initrdEnd : BitVec 32

/-- The body of the loop over the memory map; the number is `total_free_length`. -/
def readEntry (s : FrameMap × BitVec 64) (entry : MemoryMapEntry) : FrameMap × BitVec 64 :=
  if entry.type ≠ MULTIBOOT_MEMORY_AVAILABLE then
    if entry.addr < 0xFFFFFFFF then
      (s.1.reservePages (u32 entry.addr.toNat) (u32 (entry.len.toNat / 0x1000)), s.2)
    else s
  else (s.1, s.2 + entry.len)

/-- `pfa_lock_pages` with the count that `pfa_read_memory_map` computes for a range. -/
def FrameMap.lockRange (p : FrameMap) (first last : BitVec 32) : FrameMap :=
  p.lockPages first.toNat ((last - first).toNat / 0x1000 + 1)

/-- The bitmap is emptied. -/
def FrameMap.clear (p : FrameMap) : FrameMap :=
  { p with initialized := true, buffer := fun i => if i < PFA_SIZE then 0 else p.buffer i }

def FrameMap.readMemoryMap (p : FrameMap) (multiboot : List MemoryMapEntry)
    (meminfo : KernelMeminfo) :
    FrameMap :=
  if p.initialized then p
  else
    let (p, totalFreeLength) := multiboot.foldl readEntry (p.clear, 0)
    let p := { p with
      freeMemory := if totalFreeLength > 0xFFFFFFFF then 0xFFFFFFFF
        else totalFreeLength.setWidth 32 }
    let p := p.lockRange meminfo.kernelPhysicalStart meminfo.kernelPhysicalEnd
    let p := p.lockRange meminfo.initrdStart meminfo.initrdEnd
    p.lockPages 0x1000000 (PFA_SIZE / 0x1000 + 1)

end MishaOS
