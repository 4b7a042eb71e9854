import MishaOS.ForStd.Words
import MishaOS.Native.Word

/-!
# The interrupt controllers of the machine

`acpi_parse_apic` of `acpi.c` walks the records of the MADT.  The walk also
notes which addresses it has read.  The pointer to a record wraps around; its
fields do not, so a table must not end in the last 255 bytes of the address
space.
-/

namespace MishaOS

open Bytes

/-- The globals, and the addresses that have been read. -/
structure AcpiState where
  /-- `acpi_cpu_ids` up to `acpi_cpu_count`. -/
  cpuIds : List Byte
  ioApicAddress : Nat
  seen : List Nat

def LOCAL_APIC : Byte := 0

def IO_APIC : Byte := 1

/-- `sizeof(acpi_cpu_ids)` -/
def ACPI_MAX_CPUS : Nat := 16

/-- `sizeof(acpi_madt_t)` -/
def MADT_SIZE : Nat := 44

def AcpiState.read (s : AcpiState) (addr count : Nat) : AcpiState :=
  { s with seen := s.seen ++ List.range' addr count }

/-- The `switch` over the type of the record at `it`. -/
def apicRecord (mem : Nat → Byte) (it : Nat) (s : AcpiState) : AcpiState :=
  let s := s.read it 1
  if mem it = LOCAL_APIC then
    -- processors beyond the array are left out
    if s.cpuIds.length < ACPI_MAX_CPUS then
      let s := s.read (it + 3) 1
      { s with cpuIds := s.cpuIds ++ [mem (it + 3)] }
    else s
  else if mem it = IO_APIC then
    let s := s.read (it + 4) 4
    { s with ioApicAddress := word32 mem (it + 4) }
  else s

/-- The loop; `none` when the fuel does not suffice. -/
def apicWalk (mem : Nat → Byte) (last : Nat) : Nat → Nat → AcpiState → Option AcpiState
  | 0, _, _ => none
  | fuel + 1, it, s =>
    if it < last then
      -- the length of the record is read after its fields
      let s := (apicRecord mem it s).read (it + 1) 1
      apicWalk mem last fuel (u32 (it + (mem (it + 1)).toNat)) s
    else some s

def acpiParseApic (mem : Nat → Byte) (madt fuel : Nat) (s : AcpiState) : Option AcpiState :=
  let it := u32 (madt + MADT_SIZE)
  let last := u32 (madt + word32 mem (madt + 4))
  apicWalk mem last fuel it (s.read (madt + 4) 4)

/-- Before the first table is parsed. -/
def acpiStart : AcpiState := ⟨[], 0, []⟩

end MishaOS
