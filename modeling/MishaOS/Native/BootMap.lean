import MishaOS.ForStd.Words
import MishaOS.Native.FrameMap

/-!
# The memory map of the BIOS loader

`smap_entry_t` of `lgbt/memorymap.h`, the loop of `_boot` that turns these
entries into multiboot entries, and the walk of `pfa_read_memory_map` over the
result.
-/

namespace MishaOS

open Bytes Ring

/-- `smap_entry_t` -/
structure SmapEntry where
  base1 : BitVec 32
  base2 : BitVec 32
  length1 : BitVec 32
  length2 : BitVec 32
  type : BitVec 32
  acpi : BitVec 32
deriving DecidableEq

/-- The entry as the packed structure lies in memory. -/
def SmapEntry.bytes (e : SmapEntry) : List Byte :=
  le32 e.base1.toNat ++ le32 e.base2.toNat ++ le32 e.length1.toNat ++ le32 e.length2.toNat ++
    le32 e.type.toNat ++ le32 e.acpi.toNat

/-- One round of the loop over `smap_entries`. -/
def bootMapEntry (mem : Nat → Byte) (entry mmap : Nat) : Nat → Byte :=
  -- `memset` of the whole entry
  let mem := blit mem mmap (List.replicate 24 0)
  let mem := write32 mem mmap 20
  -- `base1` alone: the upper half of the address is dropped
  let mem := write64 mem (mmap + 4) (word32 mem entry)
  let mem := write64 mem (mmap + 12) (word32 mem (entry + 8))
  write32 mem (mmap + 20) (word32 mem (entry + 16))

/-- The loop from entry `i` on, with the number of entries that are left. -/
def bootMap (mem : Nat → Byte) (smapEntries mmap i : Nat) : Nat → (Nat → Byte) × Nat
  | 0 => (mem, mmap)
  | left + 1 =>
    bootMap (bootMapEntry mem (smapEntries + 24 * i) mmap) smapEntries
      (u32 (mmap + 24)) (i + 1) left

/-- The memory after the loop and `mmap_length`. -/
def bootMemoryMap (mem : Nat → Byte) (smapEntries smapEntryCount finalOffset : Nat) :
    (Nat → Byte) × Nat :=
  let (mem, mmap) := bootMap mem smapEntries finalOffset 0 smapEntryCount
  (mem, sub32 mmap finalOffset)

/-- The structure `multiboot_memory_map_t` at `entry`. -/
def memoryMapEntry (mem : Nat → Byte) (entry : Nat) : MemoryMapEntry where
  addr := BitVec.ofNat 64 (word64 mem (entry + 4))
  len := BitVec.ofNat 64 (word64 mem (entry + 12))
  type := BitVec.ofNat 32 (word32 mem (entry + 20))

/-- The entries that `pfa_read_memory_map` looks at, `last` being
    `mmap_addr + mmap_length`; `none` when the fuel does not suffice. -/
def memoryMapWalk (mem : Nat → Byte) (last : Nat) : Nat → Nat → Option (List MemoryMapEntry)
  | 0, _ => none
  | fuel + 1, entry =>
    if entry < last then
      -- an entry does not count its own `size` field
      (memoryMapWalk mem last fuel (u32 (entry + word32 mem entry + 4))).map
        (memoryMapEntry mem entry :: ·)
    else some []

end MishaOS
