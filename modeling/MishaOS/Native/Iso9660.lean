import MishaOS.Native.Vfs

/-!
# Looking up a file on the boot disk

`iso9660_find_entry` of `lgbt/iso9660.c` and `bios_call`, which loads one sector
of 2048 bytes.  The walk also tells which addresses of the directory it has
looked at.
-/

namespace MishaOS

open Ring

/-- The fields of `iso9660_dir_entry_t` that are read of the parent. -/
structure IsoExtent where
  extentStartLsb : Nat
  extentLengthLsb : Nat

def ISO_SECTOR_SIZE : Nat := 2048

def FLAG_HIDDEN : Byte := 0x01

/-- The sector of the disk is copied to `target`. -/
def biosCall (disk : Nat → Nat → Byte) (mem : Nat → Byte) (target sector : Nat) : Nat → Byte :=
  blit mem target (slice (disk sector) 0 2048)

/-- `filename` as the C string that is compared: up to a null byte, and up to `;`. -/
def isoFilename (name : List Byte) : List Byte :=
  (name.takeWhile fun c => c != 0).takeWhile fun c => c != 59

/-- The test of the record at `dir`: it is not hidden and has the name. -/
def isoMatches (mem : Nat → Byte) (dir : Nat) (name : CString) : Bool :=
  mem (dir + 25) &&& FLAG_HIDDEN == 0 &&
    isoFilename (slice mem (dir + 33) (mem (dir + 32)).toNat) == name.bytes

/-- The addresses that are looked at for the record at `dir`. -/
def isoExamined (mem : Nat → Byte) (dir : Nat) : List Nat :=
  if mem (dir + 25) &&& FLAG_HIDDEN = 0 then
    [dir, dir + 25, dir + 32] ++ List.range' (dir + 33) (mem (dir + 32)).toNat
  else [dir, dir + 25]

/-- The loop from `offset` on: the record that is found, and the addresses
    looked at.  `none` when the fuel does not suffice. -/
def isoWalk (mem : Nat → Byte) (dirEntries extentLength : Nat) (name : CString) :
    Nat → Nat → Option (Option Nat × List Nat)
  | 0, _ => none
  | fuel + 1, offset =>
    let dir := dirEntries + offset
    if mem dir = 0 then
      -- padding at the end of a sector is passed byte by byte
      if offset < extentLength then
        if u32 (offset + 1) > extentLength then some (none, [dir])
        else (isoWalk mem dirEntries extentLength name fuel (u32 (offset + 1))).map
          fun r => (r.1, dir :: r.2)
      else some (none, [dir])
    else if isoMatches mem dir name then some (some dir, isoExamined mem dir)
    else if u32 (offset + (mem dir).toNat) > extentLength then some (none, isoExamined mem dir)
    else (isoWalk mem dirEntries extentLength name fuel (u32 (offset + (mem dir).toNat))).map
      fun r => (r.1, isoExamined mem dir ++ r.2)

/-- The record `*out`, if 1 is returned, and the addresses looked at. -/
def iso9660FindEntry (disk : Nat → Nat → Byte) (mem : Nat → Byte) (base : Nat) (parent : IsoExtent)
    (name : CString) (fuel : Nat) : Option (Option Nat × List Nat) :=
  let dirEntries := u32 (base + parent.extentStartLsb * ISO_SECTOR_SIZE)
  -- one sector is loaded, however long the directory is
  let mem := biosCall disk mem dirEntries parent.extentStartLsb
  isoWalk mem dirEntries parent.extentLengthLsb name fuel 0

end MishaOS
