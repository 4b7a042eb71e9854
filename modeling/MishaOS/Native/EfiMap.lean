import MishaOS.ForStd.Words
import MishaOS.Native.Word

/-!
# Converting the EFI memory map

The loop of `efi_main` in `eboot/bootloader.c`: `GetMemoryMap` has stored its
descriptors at the address at which the multiboot entries are built.  The
loader is 64-bit code, so its addresses are natural numbers; the fields of the
multiboot header have 32 bits.
-/

namespace MishaOS

open Bytes

/-- What the loader takes from `efi.h`: where the fields of
    `EFI_MEMORY_DESCRIPTOR` are, and the memory types it tests for. -/
structure EfiHeader where
  type : Nat
  physicalStart : Nat
  numberOfPages : Nat
  efiLoaderCode : Nat
  efiLoaderData : Nat
  efiBootServicesCode : Nat
  efiBootServicesData : Nat
  efiRuntimeServicesCode : Nat
  efiRuntimeServicesData : Nat
  efiConventionalMemory : Nat
deriving DecidableEq

/-- The values of the UEFI specification. -/
def uefi : EfiHeader where
  type := 0
  physicalStart := 8
  numberOfPages := 24
  efiLoaderCode := 1
  efiLoaderData := 2
  efiBootServicesCode := 3
  efiBootServicesData := 4
  efiRuntimeServicesCode := 5
  efiRuntimeServicesData := 6
  efiConventionalMemory := 7

def getMemoryType (h : EfiHeader) (type : Nat) : Nat :=
  if type = h.efiConventionalMemory ∨ type = h.efiLoaderCode ∨ type = h.efiLoaderData ∨
      type = h.efiBootServicesCode ∨ type = h.efiBootServicesData ∨
      type = h.efiRuntimeServicesCode ∨ type = h.efiRuntimeServicesData then 1
  else 2

/-- The body of the loop up to the two additions: `mmap[0]` to `mmap[5]` in
    the order of the source. -/
def convertDescriptor (h : EfiHeader) (mem : Nat → Byte) (mmap desc : Nat) : Nat → Byte :=
  let mem := write32 mem mmap 20
  let mem := write32 mem (mmap + 4) (word64 mem (desc + h.physicalStart) % 4294967296)
  let mem := write32 mem (mmap + 8) (word64 mem (desc + h.physicalStart) / 4294967296)
  -- `uint64_t len`, read after the base is stored
  let len := word64 mem (desc + h.numberOfPages) * 0x1000 % 18446744073709551616
  let mem := write32 mem (mmap + 12) (len % 4294967296)
  let mem := write32 mem (mmap + 16) (len / 4294967296)
  -- `desc->Type` is read last: by now an entry may lie over it
  write32 mem (mmap + 20) (getMemoryType h (word32 mem (desc + h.type)))

/-- The loop, with the number of descriptors that are left. -/
def convertMap (h : EfiHeader) (descriptorSize : Nat) (mem : Nat → Byte) (mmap efiMemory : Nat) :
    Nat → (Nat → Byte) × Nat
  | 0 => (mem, mmap)
  | left + 1 =>
    let mem := convertDescriptor h mem mmap efiMemory
    let mmap := mmap + 24
    let efiMemory := efiMemory + descriptorSize
    -- an empty descriptor ends the map before its size does
    if word64 mem (efiMemory + h.physicalStart) = 0 ∧
      word64 mem (efiMemory + h.numberOfPages) = 0 then
      (mem, mmap)
    else convertMap h descriptorSize mem mmap efiMemory left

/-- The memory after the conversion and `mmap_length`. -/
def efiMemoryMap (h : EfiHeader) (mem : Nat → Byte) (finalOffset mapSize descriptorSize : Nat) :
    (Nat → Byte) × Nat :=
  let descriptors := mapSize / descriptorSize
  let (mem, mmap) := convertMap h descriptorSize mem finalOffset finalOffset descriptors
  (mem, sub32 (u32 mmap) (u32 finalOffset))

end MishaOS
