import MishaOS.Native.BootMap
import MishaOS.Native.ExecMem
import MishaOS.Native.Iso9660

/-!
# The BIOS loader

`_boot` of `lgbt/bootloader.c`: the kernel and the ramdisk are read from the
boot disk, the segments of the kernel are put in their places, and the ramdisk
and the multiboot structures behind them.  `mem` is the memory outside the
loader itself; paging is off.  A message is that of `protected_panic`, and
`none` stands for a loop that does not end.
-/

namespace MishaOS

open Bytes Ring

def DATA_LOAD_BASE : Nat := 0x4000000

/-- Where the area for the sectors of an extent begins. -/
def IsoExtent.loadAddress (e : IsoExtent) : Nat :=
  u32 (DATA_LOAD_BASE + e.extentStartLsb * ISO_SECTOR_SIZE)

/-- The fields of `iso9660_dir_entry_t` that are read of a file. -/
def isoExtentAt (mem : Nat → Byte) (dir : Nat) : IsoExtent :=
  ⟨word32 mem (dir + 2), word32 mem (dir + 10)⟩

/-! ## Reading the disk -/

/-- The loop over the volume descriptors, from sector `i` on. -/
def findVolume (disk : Nat → Nat → Byte) : Nat → Nat → (Nat → Byte) → (Nat → Byte) × Option Nat
  | 0, _, mem => (mem, none)
  | left + 1, i, mem =>
    let data := u32 (DATA_LOAD_BASE + ISO_SECTOR_SIZE * i)
    let mem := biosCall disk mem data i
    if mem data = 1 then (mem, some data) else findVolume disk left (i + 1) mem

/-- The loop that loads the sectors of a file, to `start` on; the record of the file is read in each
    round. -/
def loadFile (disk : Nat → Nat → Byte) (entry start : Nat) : Nat → Nat → Nat → (Nat → Byte) →
    Option (Nat → Byte)
  | 0, _, _, _ => none
  | fuel + 1, i, j, mem =>
    let e := isoExtentAt mem entry
    if i < e.extentLengthLsb then
      loadFile disk entry start fuel (u32 (i + ISO_SECTOR_SIZE)) (j + 1)
        (biosCall disk mem (u32 (start + i)) (u32 (e.extentStartLsb + j)))
    else some mem

def kernelName : CString := ⟨[75, 69, 82, 78, 69, 76, 46, 69, 76, 70], by decide⟩

def initrdName : CString := ⟨[73, 78, 73, 84, 82, 68, 46, 73, 77, 71], by decide⟩

/-- What `_boot` has found and loaded: the root directory, and the records of the two files. -/
structure LoadedFiles where
  mem : Nat → Byte
  root : IsoExtent
  kernelEntry : Nat
  kernel : IsoExtent
  initrdEntry : Nat
  initrd : IsoExtent

/-- `_boot` up to the end of "Loading initrd... ". -/
def bootFiles (disk : Nat → Nat → Byte) (mem : Nat → Byte) : Option (Except String LoadedFiles) :=
  match findVolume disk 5 0x10 mem with
  | (_, none) => some (.error "ISO9660 filesystem not found.")
  | (mem, some volume) =>
    let root := isoExtentAt mem (volume + 156)
    match iso9660FindEntry disk mem DATA_LOAD_BASE root kernelName walkFuel with
    | none => none
    | some (none, _) => some (.error "Kernel not found.")
    | some (some kernelEntry, _) =>
      -- the lookup has loaded the first sector of the directory
      let mem := biosCall disk mem root.loadAddress root.extentStartLsb
      let kernel := isoExtentAt mem kernelEntry
      (loadFile disk kernelEntry kernel.loadAddress walkFuel 0 0 mem).bind fun mem =>
        match iso9660FindEntry disk mem DATA_LOAD_BASE root initrdName walkFuel with
        | none => none
        | some (none, _) => some (.error "Initrd not found.")
        | some (some initrdEntry, _) =>
          let mem := biosCall disk mem root.loadAddress root.extentStartLsb
          let initrd := isoExtentAt mem initrdEntry
          (loadFile disk initrdEntry initrd.loadAddress walkFuel 0 0 mem).map fun mem =>
            .ok ⟨mem, root, kernelEntry, kernel, initrdEntry, initrd⟩

/-! ## The kernel -/

/-- `memcpy` of `lgbt/util.c`. -/
def copyBytes (mem : Nat → Byte) (dst src : Nat) : Nat → Nat → Byte
  | 0 => mem
  | n + 1 =>
    let mem := copyBytes mem dst src n
    Function.update mem (u32 (dst + n)) (mem (u32 (src + n)))

/-- The loop that clears a segment behind its contents. -/
def clearBytes (mem : Nat → Byte) (vaddr r : Nat) : Nat → Nat → Byte
  | 0 => mem
  | left + 1 => clearBytes (Function.update mem (u32 (vaddr + r)) 0) vaddr (r + 1) left

structure BootState where
  mem : Nat → Byte
  finalOffset : Nat

/-- The body of the loop over the program headers. -/
def bootSegment (kernelStart : Nat) (s : BootState) (h : ElfSegment) : BootState :=
  if h.type = PT_LOAD then
    let mem := copyBytes s.mem h.vaddr (u32 (kernelStart + h.offset)) h.filesz
    let mem := clearBytes mem h.vaddr h.filesz (h.memsz - h.filesz)
    let r := max h.filesz h.memsz
    ⟨mem, if u32 (h.vaddr + r) > s.finalOffset then u32 (h.vaddr + r) else s.finalOffset⟩
  else s

/-- The loop from byte `i` of the table on.  The headers are read where the file has been loaded. -/
def bootSegments (kernelStart : Nat) : Nat → Nat → BootState → Option BootState
  | 0, _, _ => none
  | fuel + 1, i, s =>
    let phoff := read32 s.mem (kernelStart + 28)
    let phentsize := read16 s.mem (kernelStart + 42)
    let phnum := read16 s.mem (kernelStart + 44)
    if i < phentsize * phnum then
      bootSegments kernelStart fuel (i + phentsize)
        (bootSegment kernelStart s (ElfSegment.read s.mem (u32 (kernelStart + phoff + i))))
    else some s

/-- The search for the multiboot header; a header with bit 16 describes a format of its own. -/
def multibootHeaderOk (mem : Nat → Byte) (kernelStart : Nat) : Bool :=
  match (List.range 2048).find? fun i => word32 mem (kernelStart + 4 * i) = 0x1BADB002 with
  | some i => word32 mem (kernelStart + 4 * i + 4) / 65536 % 2 = 0
  | none => true

/-! ## The video mode -/

/-- What the BIOS says about a mode: the bytes of `vbe_info_t`. -/
abbrev VbeInfo := List Byte

def VbeInfo.attributes (v : VbeInfo) : BitVec 16 := v.getD 1 0 ++ v.getD 0 0
def VbeInfo.width (v : VbeInfo) : BitVec 16 := v.getD 19 0 ++ v.getD 18 0
def VbeInfo.height (v : VbeInfo) : BitVec 16 := v.getD 21 0 ++ v.getD 20 0
def VbeInfo.bpp (v : VbeInfo) : Byte := v.getD 25 0

/-- `best_match` and `match_score` -/
structure VideoMatch where
  mode : BitVec 16
  score : Nat
deriving DecidableEq

/-- The macro `match`. -/
def VideoMatch.match (b : VideoMatch) (i : BitVec 16) (v : VbeInfo) (w h : BitVec 16)
    (s : Nat) : VideoMatch :=
  if b.score < s ∧ v.width = w ∧ v.height = h then ⟨i, s⟩ else b

/-- The body of the loop over the modes. -/
def videoModeStep (query : BitVec 16 → VbeInfo) (b : VideoMatch) (i : BitVec 16) : VideoMatch :=
  let v := query i
  if v.attributes &&& 0x80 = 0 then b
  else if v.bpp.toNat < 24 then b
  else if v.bpp = 32 then
    let b := if b.score < 9 then ⟨i, 9⟩ else b
    let b := b.match i v 1024 768 10
    let b := b.match i v 1280 720 50
    let b := b.match i v 1280 800 60
    let b := b.match i v 1440 900 75
    b.match i v 1920 1080 100
  else if v.bpp = 24 then
    let b := if b.score = 0 then ⟨i, 1⟩ else b
    let b := b.match i v 1024 768 3
    let b := b.match i v 1280 720 4
    let b := b.match i v 1280 800 5
    let b := b.match i v 1440 900 6
    b.match i v 1920 1080 7
  else b

/-- `bios_video_mode`: the mode that is set, if one is found. -/
def biosVideoMode (query : BitVec 16 → VbeInfo) (modes : List (BitVec 16)) : Option (BitVec 16) :=
  let b := modes.foldl (videoModeStep query) ⟨0, 0⟩
  if b.mode = 0 then none else some b.mode

/-! ## The multiboot structures -/

def MULTIBOOT_FLAG_MODS : Nat := 0x008
def MULTIBOOT_FLAG_MMAP : Nat := 0x040
def MULTIBOOT_FLAG_VBE : Nat := 0x800

/-- What the kernel is started with. -/
structure BootInfo where
  mem : Nat → Byte
  multiboot : Nat
  entry : Nat

/-- The ramdisk and the structures behind `final_offset`. -/
def bootStructures (s : BootState) (entry initrdStart initrdSize : Nat) (vbeInfo : VbeInfo)
    (smapEntryCount : Nat) :
    BootInfo :=
  let relocatedInitrd := roundUp32 s.finalOffset 0x1000
  let mem := copyBytes s.mem relocatedInitrd initrdStart initrdSize
  let multiboot := roundUp32 (u32 (relocatedInitrd + initrdSize)) 0x1000
  let mem := blit mem multiboot (List.replicate 120 0)
  let mem := write32 mem multiboot (MULTIBOOT_FLAG_MODS + MULTIBOOT_FLAG_MMAP + MULTIBOOT_FLAG_VBE)
  let module := u32 (multiboot + 120)
  let mem := blit mem module (List.replicate 16 0)
  let mem := write32 mem module relocatedInitrd
  let mem := write32 mem (module + 4) (u32 (relocatedInitrd + initrdSize))
  -- `mods_count` and `mods_addr`
  let mem := write32 mem (multiboot + 20) 1
  let mem := write32 mem (multiboot + 24) module
  let vbe := u32 (module + 16)
  let mem := blit mem vbe vbeInfo
  let mem := write32 mem (multiboot + 76) vbe
  let mmap := u32 (vbe + 52)
  let mem := write32 mem (multiboot + 48) mmap
  let (mem, mmapLength) := bootMemoryMap mem 0x1000 smapEntryCount mmap
  ⟨write32 mem (multiboot + 44) mmapLength, multiboot, entry⟩

/-- `_boot` behind "Loading initrd... ". -/
def bootKernel (query : BitVec 16 → VbeInfo) (modes : List (BitVec 16)) (smapEntryCount : Nat)
    (mem : Nat → Byte)
    (kernel initrd : IsoExtent) : Option (Except String BootInfo) :=
  let kernelStart := kernel.loadAddress
  if multibootHeaderOk mem kernelStart = false then some (.error "Unsupported format.")
  else if elfMagic (fun i => mem (kernelStart + i)) = false
    then some (.error "Invalid ELF32 magic value.")
  else
    let entry := read32 mem (kernelStart + 24)
    (bootSegments kernelStart walkFuel 0 ⟨mem, 0⟩).map fun s =>
      match biosVideoMode query modes with
      | none => .error "Video Mode not found."
      | some mode =>
        .ok (bootStructures s entry initrd.loadAddress initrd.extentLengthLsb (query mode)
          smapEntryCount)

/-- `_boot` -/
def boot (disk : Nat → Nat → Byte) (query : BitVec 16 → VbeInfo) (modes : List (BitVec 16))
    (smapEntryCount : Nat)
    (mem : Nat → Byte) : Option (Except String BootInfo) :=
  match bootFiles disk mem with
  | none => none
  | some (.error message) => some (.error message)
  | some (.ok files) => bootKernel query modes smapEntryCount files.mem files.kernel files.initrd

end MishaOS
