import MishaOS.Native.BootLoader
import MishaOS.Spec.BootMap
import MishaOS.Spec.LoadBytes

/-!
# What the BIOS loader leaves in memory

A sector that has been loaded stands at an address that depends on its number
only, so whatever is loaded twice is loaded to the same place and the area from
`DATA_LOAD_BASE` on is a picture of the disk.  The segments, the ramdisk and the
multiboot structures are written below this area, each behind the ones before.

## Key results

- `bootFiles_staged`: the files are in memory as they are on the disk.
- `bootSegments_eq`: the loop over the program headers as a list of pieces.
- `boot_image`: the kernel is started on its image, with the ramdisk and the
  memory map where the multiboot structures say.
-/

namespace MishaOS

open Bytes Ring

variable {disk : Nat → Nat → Byte} {mem mem' file : Nat → Byte} {e kernel initrd : IsoExtent}
    {h : ElfSegment}

/-! ## Pieces of memory -/

/-- One more byte is read at the end. -/
theorem slice_succ (buf : Nat → Byte) (pos k : Nat) :
    slice buf pos (k + 1) = slice buf pos k ++ [buf (pos + k)] := by
  unfold slice
  rw [List.range_succ, List.map_append]
  rfl

/-- Between places that are apart the order of the bytes does not matter. -/
theorem copyBytes_eq {dst src n : Nat} (hdst : dst + n ≤ 4294967296) (hsrc : src + n ≤ 4294967296)
    (happart : dst + n ≤ src ∨ src + n ≤ dst) :
    copyBytes mem dst src n = blit mem dst (slice mem src n) := by
  induction n with
  | zero => exact blit_nil.symm
  | succ n ih =>
    have hkept : blit mem dst (slice mem src n) (src + n) = mem (src + n) := blit_outside (by
      rw [length_slice]
      omega)
    rw [copyBytes, ih (by omega) (by omega) (by omega), u32_of_lt (by omega), u32_of_lt (by omega),
      hkept, slice_succ,
      ← blit_append, blit_singleton, length_slice]

/-- The loop writes zeros. -/
theorem clearBytes_eq {vaddr : Nat} (left : Nat) :
    ∀ (mem : Nat → Byte) (r : Nat), vaddr + r + left ≤ 4294967296 →
      clearBytes mem vaddr r left = blit mem (vaddr + r) (List.replicate left 0) := by
  induction left with
  | zero => exact fun mem r _ => blit_nil.symm
  | succ left ih =>
    intro mem r hfit
    rw [clearBytes, ih _ (r + 1) (by omega), u32_of_lt (by omega), List.replicate_succ,
      blit_cons, Nat.add_assoc]

/-! ## Sectors -/

/-- The sector is in memory. -/
def Staged (disk : Nat → Nat → Byte) (mem : Nat → Byte) (sector : Nat) : Prop :=
  ∀ o < 2048, mem (DATA_LOAD_BASE + sector * ISO_SECTOR_SIZE + o) = disk sector o

/-- The place of the sector ends below 4 GiB. -/
def SectorOk (sector : Nat) : Prop := sector < 2064384

/-- The place of a sector is not reduced modulo 2^32. -/
theorem u32_sector {sector : Nat} (h : SectorOk sector) :
    u32 (DATA_LOAD_BASE + sector * ISO_SECTOR_SIZE) =
      DATA_LOAD_BASE + sector * ISO_SECTOR_SIZE := by
  unfold SectorOk at h
  apply u32_of_lt
  unfold DATA_LOAD_BASE ISO_SECTOR_SIZE
  omega

/-- What reading sectors does to the memory. -/
structure ReadsDisk (disk : Nat → Nat → Byte) (mem mem' : Nat → Byte) : Prop where
  staged : ∀ sector, Staged disk mem sector → Staged disk mem' sector
  below : ∀ a < DATA_LOAD_BASE, mem' a = mem a

/-- Nothing has been read. -/
theorem ReadsDisk.refl (disk : Nat → Nat → Byte) (mem : Nat → Byte) : ReadsDisk disk mem mem :=
  ⟨fun _ hs => hs, fun _ _ => rfl⟩

/-- What two steps read is there behind both. -/
theorem ReadsDisk.trans {mem'' : Nat → Byte} (h : ReadsDisk disk mem mem')
    (h' : ReadsDisk disk mem' mem'') :
    ReadsDisk disk mem mem'' :=
  ⟨fun sector hs => h'.staged sector (h.staged sector hs),
    fun a ha => (h'.below a ha).trans (h.below a ha)⟩

/-- A sector is read to its place. -/
theorem biosCall_reads (disk : Nat → Nat → Byte) (mem : Nat → Byte) {sector : Nat}
    (h : SectorOk sector) :
    ReadsDisk disk mem (biosCall disk mem
      (u32 (DATA_LOAD_BASE + sector * ISO_SECTOR_SIZE)) sector) ∧
      Staged disk (biosCall disk mem (u32 (DATA_LOAD_BASE + sector * ISO_SECTOR_SIZE)) sector)
        sector := by
  rw [u32_sector h]
  -- the transfer puts the sector at its place
  have hnew : Staged disk (biosCall disk mem (DATA_LOAD_BASE + sector * ISO_SECTOR_SIZE) sector)
      sector := by
    intro o ho
    rw [biosCall, blit_inside (getElem?_slice ho), Nat.zero_add]
  refine ⟨⟨fun t ht => ?_, fun a ha => ?_⟩, hnew⟩
  -- the sectors read before stay where they are
  · obtain rfl | hne := eq_or_ne t sector
    · exact hnew
    · intro o ho
      rw [biosCall, blit_outside]
      · exact ht o ho
      · -- two sectors have no byte in common
        rw [length_slice]
        unfold ISO_SECTOR_SIZE
        omega
  · exact blit_outside (by omega)

/-- The sectors of the file have a place below 4 GiB. -/
structure ExtentOk (e : IsoExtent) : Prop where
  start : SectorOk e.extentStartLsb
  fits : e.extentStartLsb + (e.extentLengthLsb + 2047) / 2048 < 2064384

/-- The file is loaded to the place of its first sector. -/
theorem ExtentOk.loadAddress_eq (h : ExtentOk e) :
    e.loadAddress = DATA_LOAD_BASE + e.extentStartLsb * ISO_SECTOR_SIZE := u32_sector h.start

/-- The place of the file is behind `DATA_LOAD_BASE` and below 4 GiB. -/
theorem ExtentOk.bounds (h : ExtentOk e) :
    DATA_LOAD_BASE ≤ e.loadAddress ∧ e.loadAddress + e.extentLengthLsb < 4294967296 := by
  have hfits := h.fits
  rw [h.loadAddress_eq]
  unfold DATA_LOAD_BASE ISO_SECTOR_SIZE
  omega

/-- The sectors of the file, one after the other. -/
def loadExtent (disk : Nat → Nat → Byte) (mem : Nat → Byte) (e : IsoExtent)
    (n : Nat) : Nat → Byte :=
  (List.range n).foldl
    (fun mem j => biosCall disk mem (u32 (e.loadAddress + ISO_SECTOR_SIZE * j))
      (u32 (e.extentStartLsb + j))) mem

/-- The last sector is read behind the others. -/
theorem loadExtent_succ (disk : Nat → Nat → Byte) (mem : Nat → Byte) (e : IsoExtent) (n : Nat) :
    loadExtent disk mem e (n + 1) = biosCall disk (loadExtent disk mem e n)
      (u32 (e.loadAddress + ISO_SECTOR_SIZE * n)) (u32 (e.extentStartLsb + n)) := by
  unfold loadExtent
  rw [List.range_succ, List.foldl_append, List.foldl_cons, List.foldl_nil]

/-- After `n` rounds the first `n` sectors of the file are in memory. -/
theorem loadExtent_reads (disk : Nat → Nat → Byte) (h : ExtentOk e) (mem : Nat → Byte) {n : Nat}
    (hn : n ≤ (e.extentLengthLsb + 2047) / 2048) :
    ReadsDisk disk mem (loadExtent disk mem e n) ∧
      ∀ j < n, Staged disk (loadExtent disk mem e n) (e.extentStartLsb + j) := by
  have hfits := h.fits
  -- one sector a round
  induction n with
  | zero => exact ⟨ReadsDisk.refl disk mem, fun j hj => absurd hj (Nat.not_lt_zero j)⟩
  | succ n ih =>
    obtain ⟨hreads, hstaged⟩ := ih (by omega)
    have hok : SectorOk (e.extentStartLsb + n) := by
      unfold SectorOk
      omega
    -- neither the place nor the number of the sector wraps
    have hplace : u32 (e.loadAddress + ISO_SECTOR_SIZE * n) =
        u32 (DATA_LOAD_BASE + (e.extentStartLsb + n) * ISO_SECTOR_SIZE) := by
      rw [h.loadAddress_eq]
      congr 1
      unfold ISO_SECTOR_SIZE
      omega
    have hsector : u32 (e.extentStartLsb + n) = e.extentStartLsb + n := by
      apply u32_of_lt
      omega
    rw [loadExtent_succ, hplace, hsector]
    obtain ⟨hread, hnew⟩ := biosCall_reads disk (loadExtent disk mem e n) hok
    refine ⟨hreads.trans hread, fun j hj => ?_⟩
    obtain hj | rfl := Nat.lt_succ_iff_lt_or_eq.mp hj
    · exact hread.staged _ (hstaged j hj)
    · exact hnew

/-- A word of a sector that has been read. -/
theorem Staged.word32 {sector o : Nat} (hs : Staged disk mem sector) (ho : o + 4 ≤ 2048) :
    word32 mem (DATA_LOAD_BASE + sector * ISO_SECTOR_SIZE + o) = word32 (disk sector) o := by
  unfold Bytes.word32
  have hbyte (k : Nat) (hk : k < 4) : mem (DATA_LOAD_BASE + sector * ISO_SECTOR_SIZE + o + k) =
      disk sector (o + k) := by
    rw [Nat.add_assoc _ o k]
    exact hs (o + k) (by omega)
  rw [← Nat.add_zero (DATA_LOAD_BASE + sector * ISO_SECTOR_SIZE + o),
    hbyte 0 (by decide), Nat.add_zero,
    hbyte 1 (by decide), hbyte 2 (by decide), hbyte 3 (by decide), Nat.add_zero]

/-- A record in a sector that has been read stays what it is on the disk. -/
theorem Staged.extentAt {sector o : Nat} (hs : Staged disk mem sector) (ho : o + 14 ≤ 2048) :
    isoExtentAt mem (DATA_LOAD_BASE + sector * ISO_SECTOR_SIZE + o) =
      isoExtentAt (disk sector) o := by
  have hstart := hs.word32 (o := o + 2) (by omega)
  have hlength := hs.word32 (o := o + 10) (by omega)
  rw [← Nat.add_assoc _ o] at hstart hlength
  rw [isoExtentAt, hstart, hlength]
  rfl

/-- The loop over the sectors of a file whose record is in a sector that has been read. -/
theorem loadFile_eq {sector o : Nat} (hs : Staged disk mem sector) (ho : o + 14 ≤ 2048)
    (h : ExtentOk (isoExtentAt (disk sector) o)) :
    loadFile disk (DATA_LOAD_BASE + sector * ISO_SECTOR_SIZE + o)
      (isoExtentAt (disk sector) o).loadAddress walkFuel
      0 0 mem = some (loadExtent disk mem (isoExtentAt (disk sector) o)
        (((isoExtentAt (disk sector) o).extentLengthLsb + 2047) / 2048)) := by
  have hat {m : Nat → Byte} (hs : Staged disk m sector) := hs.extentAt ho
  generalize isoExtentAt (disk sector) o = e at h hat
  have hbounds := h.bounds
  -- `left` rounds are to go
  suffices hloop : ∀ left j fuel, left + j = (e.extentLengthLsb + 2047) / 2048 → left < fuel →
      loadFile disk (DATA_LOAD_BASE + sector * ISO_SECTOR_SIZE + o) e.loadAddress fuel
        (ISO_SECTOR_SIZE * j) j
        (loadExtent disk mem e j) =
          some (loadExtent disk mem e ((e.extentLengthLsb + 2047) / 2048)) by
    exact hloop _ 0 walkFuel (Nat.add_zero _) (by unfold walkFuel; omega)
  intro left
  induction left with
  | zero =>
    intro j fuel hj hfuel
    obtain ⟨fuel, rfl⟩ := Nat.exists_eq_add_of_lt hfuel
    rw [Nat.zero_add] at hj
    subst hj
    have hlast : ¬ ISO_SECTOR_SIZE * ((e.extentLengthLsb + 2047) / 2048) < e.extentLengthLsb := by
      unfold ISO_SECTOR_SIZE
      omega
    rw [loadFile, hat ((loadExtent_reads disk h mem (Nat.le_refl _)).1.staged sector hs),
      if_neg hlast]
  | succ left ih =>
    intro j fuel hj hfuel
    obtain ⟨fuel, rfl⟩ := Nat.exists_eq_add_of_lt hfuel
    have hread := (loadExtent_reads disk h mem (n := j) (by omega)).1
    have hmore : ISO_SECTOR_SIZE * j < e.extentLengthLsb := by
      unfold ISO_SECTOR_SIZE
      omega
    have hfits := h.fits
    have hnext : u32 (ISO_SECTOR_SIZE * j + ISO_SECTOR_SIZE) = ISO_SECTOR_SIZE * (j + 1) := by
      unfold ISO_SECTOR_SIZE
      rw [u32_of_lt (by omega)]
      omega
    rw [loadFile, hat (hread.staged sector hs), if_pos hmore, hnext, ← loadExtent_succ]
    exact ih (j + 1) _ (by omega) (by omega)

/-- What the lookup finds stands behind the start of the directory. -/
theorem isoWalk_behind {dirEntries extentLength entry : Nat} {name : CString}
    {seen : List Nat} (fuel : Nat) :
    ∀ offset, isoWalk mem dirEntries extentLength name fuel offset = some (some entry, seen) →
      ∃ o, entry = dirEntries + o := by
  induction fuel generalizing seen with
  | zero =>
    intro offset h
    cases h
  | succ fuel ih =>
    intro offset h
    rw [isoWalk] at h
    -- every other branch ends without a record
    split at h
    · split at h
      · split at h
        · cases h
        · obtain ⟨r, hr, heq⟩ := Option.map_eq_some_iff.mp h
          obtain ⟨hfound, -⟩ := Prod.mk.inj heq
          exact ih _ (by rw [hr, ← hfound])
      · cases h
    · split at h
      · obtain ⟨hfound, -⟩ := Prod.mk.inj (Option.some.inj h)
        exact ⟨offset, (Option.some.inj hfound).symm⟩
      · split at h
        · cases h
        · obtain ⟨r, hr, heq⟩ := Option.map_eq_some_iff.mp h
          obtain ⟨hfound, -⟩ := Prod.mk.inj heq
          exact ih _ (by rw [hr, ← hfound])

/-- The byte of a file on the disk. -/
def extentByte (disk : Nat → Nat → Byte) (e : IsoExtent) (k : Nat) : Byte :=
  disk (e.extentStartLsb + k / ISO_SECTOR_SIZE) (k % ISO_SECTOR_SIZE)

/-- The file is in memory. -/
def FileAt (mem : Nat → Byte) (e : IsoExtent) (file : Nat → Byte) : Prop :=
  ∀ k < e.extentLengthLsb, mem (e.loadAddress + k) = file k

/-- A file is in memory when all its sectors are. -/
theorem fileAt_of_staged (h : ExtentOk e)
    (hs : ∀ j < (e.extentLengthLsb + 2047) / 2048, Staged disk mem (e.extentStartLsb + j)) :
    FileAt mem e (extentByte disk e) := by
  intro k hk
  have hbyte := hs (k / 2048) (by omega) (k % 2048) (Nat.mod_lt k (by decide))
  have hplace : e.loadAddress + k = DATA_LOAD_BASE + (e.extentStartLsb + k / 2048) *
      ISO_SECTOR_SIZE + k % 2048 := by
    rw [h.loadAddress_eq]
    unfold ISO_SECTOR_SIZE
    omega
  rw [hplace]
  exact hbyte

/-! ## The files -/

/-- The directory of each volume on the disk has a place below 4 GiB. -/
def VolumesOk (disk : Nat → Nat → Byte) : Prop :=
  ∀ i, 16 ≤ i → i < 21 → disk i 0 = 1 → SectorOk (word32 (disk i) 158)

/-- The loop over the volume descriptors ends at the first primary one, which it has read. -/
theorem findVolume_found {volume : Nat} (left : Nat) :
    ∀ i mem, 16 ≤ i → i + left ≤ 21 → findVolume disk left i mem = (mem', some volume) →
      ∃ sector, 16 ≤ sector ∧ sector < 21 ∧ disk sector 0 = 1 ∧
        volume = DATA_LOAD_BASE + sector * ISO_SECTOR_SIZE ∧ ReadsDisk disk mem mem' ∧
        Staged disk mem' sector := by
  -- on the sectors that are left of the sixteen to the twentieth
  induction left with
  | zero =>
    intro i mem _ _ hfound
    cases hfound
  | succ left ih =>
    intro i mem hi hleft hfound
    have hok : SectorOk i := by
      unfold SectorOk
      omega
    obtain ⟨hread, hnew⟩ := biosCall_reads disk mem hok
    rw [findVolume, Nat.mul_comm] at hfound
    split at hfound
    -- the byte that is looked at is the first one of the sector
    · rename_i htype
      obtain ⟨rfl, hvolume⟩ := Prod.mk.inj hfound
      rw [u32_sector hok] at htype hvolume
      have hfirst := hnew 0 (by decide)
      rw [u32_sector hok, Nat.add_zero, htype] at hfirst
      exact ⟨i, hi, by omega, hfirst.symm, (Option.some.inj hvolume).symm, hread, hnew⟩
    -- not a primary descriptor: the loop goes on
    · obtain ⟨sector, hge, hlt, htype, hvolume, hreads, hstaged⟩ :=
        ih (i + 1) _ (by omega) (by omega) hfound
      exact ⟨sector, hge, hlt, htype, hvolume, hread.trans hreads, hstaged⟩

/-- The records of both files are in the first sector of the directory, the one that the lookup
    loads. -/
structure LoadedFiles.RecordsOk (files : LoadedFiles) : Prop where
  kernel : files.kernelEntry + 14 ≤ files.root.loadAddress + 2048
  initrd : files.initrdEntry + 14 ≤ files.root.loadAddress + 2048

/-- A record that is found in the first sector of the directory, and the file of it. -/
theorem loadFile_found {root : IsoExtent} {name : CString} {entry : Nat} {seen : List Nat}
    (hroot : SectorOk root.extentStartLsb)
    (hfound : iso9660FindEntry disk mem DATA_LOAD_BASE root name walkFuel = some (some entry, seen))
    (hrecord : entry + 14 ≤ root.loadAddress + 2048)
    (hextent : ExtentOk
      (isoExtentAt (biosCall disk mem root.loadAddress root.extentStartLsb) entry)) :
    ∃ mem', loadFile disk entry
      (isoExtentAt (biosCall disk mem root.loadAddress root.extentStartLsb) entry).loadAddress
        walkFuel 0 0 (biosCall disk mem root.loadAddress root.extentStartLsb) = some mem' ∧
        ReadsDisk disk mem mem' ∧
      ∀ j < ((isoExtentAt (biosCall disk mem root.loadAddress root.extentStartLsb)
        entry).extentLengthLsb + 2047) / 2048,
        Staged disk mem'
          ((isoExtentAt (biosCall disk mem root.loadAddress root.extentStartLsb)
            entry).extentStartLsb + j) := by
  -- the record found lies behind the start of the directory
  obtain ⟨o, rfl⟩ := isoWalk_behind walkFuel 0 hfound
  obtain ⟨hread, hstaged⟩ := biosCall_reads disk mem hroot
  have hplace : root.loadAddress = DATA_LOAD_BASE + root.extentStartLsb * ISO_SECTOR_SIZE :=
    u32_sector hroot
  change _ + 14 ≤ root.loadAddress + 2048 at hrecord
  change ReadsDisk disk mem (biosCall disk mem root.loadAddress root.extentStartLsb) at hread
  change Staged disk (biosCall disk mem root.loadAddress root.extentStartLsb) root.extentStartLsb
    at hstaged
  generalize biosCall disk mem root.loadAddress root.extentStartLsb = m at hread hstaged hextent ⊢
  -- and in its first sector, the only one that was read
  have ho : o + 14 ≤ 2048 := by
    have hbase : u32 (DATA_LOAD_BASE + root.extentStartLsb * ISO_SECTOR_SIZE) = root.loadAddress :=
      rfl
    omega
  rw [u32_sector hroot] at hextent ⊢
  rw [hstaged.extentAt ho] at hextent ⊢
  obtain ⟨hreads, hfile⟩ := loadExtent_reads disk hextent m (Nat.le_refl _)
  exact ⟨_, loadFile_eq hstaged ho hextent, hread.trans hreads, hfile⟩

/-- When both files are found, they are in memory, and nothing below the sectors has changed. -/
theorem bootFiles_staged {files : LoadedFiles} (hvolumes : VolumesOk disk)
    (hkernel : ExtentOk files.kernel)
    (hinitrd : ExtentOk files.initrd) (hrecords : files.RecordsOk)
    (hfound : bootFiles disk mem = some (.ok files)) :
    (∀ a < DATA_LOAD_BASE, files.mem a = mem a) ∧
    FileAt files.mem files.kernel (extentByte disk files.kernel) ∧
      FileAt files.mem files.initrd (extentByte disk files.initrd) := by
  unfold bootFiles at hfound
  split at hfound
  · cases hfound
  · rename_i m volume hvolume
    obtain ⟨sector, hge, hlt, htype, rfl, hreads, hstaged⟩ :=
      findVolume_found 5 0x10 mem (by decide) (by decide) hvolume
    have hroot :
        SectorOk (isoExtentAt m (DATA_LOAD_BASE +
        sector * ISO_SECTOR_SIZE + 156)).extentStartLsb := by
      have hword := hvolumes sector hge hlt htype
      rw [← hstaged.word32 (o := 158) (by decide)] at hword
      exact hword
    generalize isoExtentAt m (DATA_LOAD_BASE + sector * ISO_SECTOR_SIZE + 156) =
      root at hfound hroot
    dsimp only at hfound
    split at hfound
    · cases hfound
    · cases hfound
    · rename_i kernelEntry _ hlookup
      obtain ⟨m₁, hload, hfound⟩ := Option.bind_eq_some_iff.mp hfound
      split at hfound
      · cases hfound
      · cases hfound
      · rename_i initrdEntry _ hlookup'
        obtain ⟨m₂, hload', heq⟩ := Option.map_eq_some_iff.mp hfound
        obtain rfl := Except.ok.inj heq
        -- both loops end, with all sectors of their file
        obtain ⟨m₁', hload₁, hkread, hkstaged⟩ :=
          loadFile_found hroot hlookup hrecords.kernel hkernel
        obtain rfl := Option.some.inj (hload.symm.trans hload₁)
        obtain ⟨m₂', hload₂, hiread, histaged⟩ :=
          loadFile_found hroot hlookup' hrecords.initrd hinitrd
        obtain rfl := Option.some.inj (hload'.symm.trans hload₂)
        refine ⟨fun a ha => ((hreads.trans hkread).trans hiread).below a ha, ?_,
          fileAt_of_staged hinitrd histaged⟩
        exact fileAt_of_staged hkernel fun j hj => hiread.staged _ (hkstaged j hj)

/-! ## The segments -/

/-- What a segment is loaded with. -/
def ElfSegment.image (h : ElfSegment) (file : Nat → Byte) : List Byte :=
  (List.range (max h.filesz h.memsz)).map (h.byte file)

/-- The first address behind the segment. -/
def ElfSegment.last (h : ElfSegment) : Nat := h.vaddr + max h.filesz h.memsz

/-- The contents are in a file of `len` bytes, and the place is between the loader and the sectors.
    -/
structure ElfSegmentOk (len : Nat) (h : ElfSegment) : Prop where
  contents : h.offset + h.filesz ≤ len
  low : 0x100000 ≤ h.vaddr
  high : h.last ≤ DATA_LOAD_BASE

/-- A kernel that can be loaded. -/
structure KernelOk (file : Nat → Byte) (len : Nat) : Prop where
  header : 52 ≤ len
  phdrs : ∀ i < read16 file 44, read32 file 28 + i * read16 file 42 + 32 ≤ len
  segments : ∀ h ∈ loadable (elfSegments file), ElfSegmentOk len h
  apart : (loadable (elfSegments file)).Pairwise fun h h' => h.last ≤ h'.vaddr ∨ h'.last ≤ h.vaddr

/-- The file stands above the segments, from `start` on. -/
structure FileStands (mem : Nat → Byte) (start len : Nat) (file : Nat → Byte) : Prop where
  base : DATA_LOAD_BASE ≤ start
  fits : start + len < 4294967296
  byte : ∀ k < len, mem (start + k) = file k

variable {start len : Nat} {s : BootState}

/-- The file is above what changes. -/
theorem FileStands.congr (hf : FileStands mem start len file)
    (hmem : ∀ a, DATA_LOAD_BASE ≤ a → mem' a = mem a) :
    FileStands mem' start len file where
  base := hf.base
  fits := hf.fits
  byte k hk := by
    have hbase := hf.base
    rw [hmem _ (by omega)]
    exact hf.byte k hk

/-- A half word of the file. -/
theorem FileStands.read16 (hf : FileStands mem start len file) {i : Nat} (hi : i + 2 ≤ len) :
    read16 mem (start + i) = read16 file i := by
  unfold MishaOS.read16
  rw [hf.byte i (by omega), Nat.add_assoc, hf.byte (i + 1) (by omega)]

/-- A word of the file. -/
theorem FileStands.read32 (hf : FileStands mem start len file) {i : Nat} (hi : i + 4 ≤ len) :
    read32 mem (start + i) = read32 file i := by
  unfold MishaOS.read32
  rw [hf.read16 (by omega), Nat.add_assoc, hf.read16 (by omega)]

/-- A program header of the file. -/
theorem FileStands.readSegment (hf : FileStands mem start len file) {i : Nat} (hi : i + 32 ≤ len) :
    ElfSegment.read mem (start + i) = ElfSegment.read file i := by
  unfold ElfSegment.read ElfPhdr.read
  rw [Nat.add_assoc, Nat.add_assoc, Nat.add_assoc, Nat.add_assoc, hf.read32 (by omega),
    hf.read32 (by omega),
    hf.read32 (by omega), hf.read32 (by omega), hf.read32 (by omega)]

/-- The image is as long as the segment is in the file or in memory. -/
theorem length_image (h : ElfSegment) (file : Nat → Byte) :
    (h.image file).length = max h.filesz h.memsz := by
  simp [ElfSegment.image]

/-- The contents of the file, and zeros up to the size in memory. -/
theorem image_eq (h : ElfSegment) (hmem : ∀ k < h.filesz,
    mem (start + h.offset + k) = file (u32 (h.offset + k))) :
    h.image file = slice mem (start + h.offset) h.filesz ++
      List.replicate (h.memsz - h.filesz) 0 := by
  have hmax : max h.filesz h.memsz = h.filesz + (h.memsz - h.filesz) := by omega
  rw [ElfSegment.image, hmax, List.range_add, List.map_append, List.map_map]
  congr 1
  · apply List.map_congr_left
    intro k hk
    have hk : k < h.filesz := List.mem_range.mp hk
    rw [ElfSegment.byte, if_pos hk, hmem k hk]
  · rw [List.eq_replicate_iff]
    refine ⟨by simp, fun b hb => ?_⟩
    obtain ⟨k, -, rfl⟩ := List.mem_map.mp hb
    have hk : ¬ h.filesz + k < h.filesz := by omega
    exact if_neg hk

/-- A loadable segment is written as one piece, and `final_offset` gets behind it. -/
theorem bootSegment_eq (hf : FileStands s.mem start len file) (hok : ElfSegmentOk len h)
    (htype : h.type = PT_LOAD) :
    bootSegment start s h = ⟨blit s.mem h.vaddr (h.image file), max s.finalOffset h.last⟩ := by
  obtain ⟨hcontents, -, hhigh⟩ := hok
  have hbase := hf.base
  have hfits := hf.fits
  unfold ElfSegment.last DATA_LOAD_BASE at hhigh
  unfold DATA_LOAD_BASE at hbase
  -- the bytes of the segment lie in the file as it was loaded
  have hbytes : ∀ k < h.filesz, s.mem (start + h.offset + k) = file (u32 (h.offset + k)) := by
    intro k hk
    rw [Nat.add_assoc, hf.byte _ (by omega), u32_of_lt (by omega)]
  have hlength : (slice s.mem (start + h.offset) h.filesz).length = h.filesz := length_slice
  rw [bootSegment, if_pos htype, u32_of_lt (by omega)]
  dsimp only
  rw [copyBytes_eq (by omega) (by omega) (by omega), clearBytes_eq _ _ _ (by omega),
    image_eq h hbytes, ← blit_append,
    hlength, u32_of_lt (by omega)]
  congr 1
  unfold ElfSegment.last
  -- the larger of the two ends is kept
  split
  · omega
  · omega

/-- The segments are written, and `final_offset` gets behind each of them. -/
def loadPieces (file : Nat → Byte) (s : BootState) (hs : List ElfSegment) : BootState :=
  ⟨writeAll s.mem (hs.map fun h => (h.vaddr, h.image file)),
    hs.foldl (fun last h => max last h.last) s.finalOffset⟩

/-- Nothing outside the segments is written. -/
theorem loadPieces_outside {hs : List ElfSegment} (m : Nat → Byte) (last : Nat) {a : Nat}
    (ha : ∀ h ∈ hs, a < h.vaddr ∨ h.last ≤ a) : (loadPieces file ⟨m, last⟩ hs).mem a = m a := by
  show writeAll m (hs.map fun h => (h.vaddr, h.image file)) a = m a
  induction hs generalizing m with
  | nil => rfl
  | cons h hs ih =>
    have hout := ha h List.mem_cons_self
    unfold ElfSegment.last at hout
    show writeAll (blit m h.vaddr (h.image file)) (hs.map fun h => (h.vaddr, h.image file)) a = m a
    rw [ih _ (fun g hg => ha g (List.mem_cons_of_mem _ hg)), blit_outside]
    rw [length_image]
    exact hout

/-- The segments do not touch the file they come from. -/
theorem loadPieces_stands (s : BootState) (hs : List ElfSegment)
    (hhs : ∀ h ∈ hs, ElfSegmentOk len h)
    (hf : FileStands s.mem start len file) :
    FileStands (loadPieces file s hs).mem start len file := by
  apply hf.congr
  intro a ha
  exact loadPieces_outside s.mem s.finalOffset fun h hh => .inr (Nat.le_trans (hhs h hh).high ha)

/-- The program headers that the loop reads, as a list. -/
theorem elfSegments_eq (hsize : 0 < read16 file 42) : elfSegments file =
    (List.range (read16 file 44)).map fun i =>
      ElfSegment.read file (u32 (read32 file 28 + i * read16 file 42)) := by
  unfold elfSegments
  dsimp only
  rw [if_neg (by omega)]

/-- The loop of `_boot` from header `j` on, when `left` headers are left. -/
theorem bootSegments_left (hok : KernelOk file len) (hsize : 0 < read16 file 42) (left : Nat) :
    ∀ j fuel s, j + left = read16 file 44 → left < fuel → FileStands s.mem start len file →
      bootSegments start fuel (j * read16 file 42) s = some (loadPieces file s (loadable
        ((List.range' j left).map fun i => ElfSegment.read file
          (u32 (read32 file 28 + i * read16 file 42))))) := by
  have hheader := hok.header
  -- on the headers that are left
  induction left with
  | zero =>
    intro j fuel s hj hfuel hf
    obtain ⟨fuel, rfl⟩ := Nat.exists_eq_add_of_lt hfuel
    rw [Nat.zero_add, bootSegments, hf.read16 (by omega), hf.read16 (by omega), ← hj, Nat.add_zero,
      Nat.mul_comm (read16 file 42),
      if_neg (Nat.lt_irrefl _)]
    rfl
  | succ left ih =>
    intro j fuel s hj hfuel hf
    obtain ⟨fuel, rfl⟩ := Nat.exists_eq_add_of_lt hfuel
    have hphdr := hok.phdrs j (by omega)
    have hfits := hf.fits
    -- the loop of the source counts in bytes of the table
    have hmore : j * read16 file 42 < read16 file 42 * read16 file 44 := by
      rw [Nat.mul_comm]
      exact Nat.mul_lt_mul_of_pos_left (by omega) hsize
    have hphoff : u32 (read32 file 28 + j * read16 file 42) = read32 file 28 + j * read16 file 42 :=
      u32_of_lt (by omega)
    have hread : ElfSegment.read s.mem (u32 (start + read32 file 28 + j * read16 file 42)) =
        ElfSegment.read file (u32 (read32 file 28 + j * read16 file 42)) := by
      rw [u32_of_lt (by omega), hphoff, Nat.add_assoc, hf.readSegment (by omega)]
    -- the header that is read is one of the table, so what `hok` says of it holds
    have hmem : ElfSegment.read file (u32 (read32 file 28 + j * read16 file 42)) ∈
        elfSegments file := by
      rw [elfSegments_eq hsize]
      exact List.mem_map.mpr ⟨j, List.mem_range.mpr (by omega), rfl⟩
    rw [bootSegments, hf.read32 (by omega), hf.read16 (by omega), hf.read16 (by omega),
      if_pos hmore, hread, List.range'_succ,
      List.map_cons]
    have hnext : j * read16 file 42 + read16 file 42 = (j + 1) * read16 file 42 := by
      rw [Nat.succ_mul]
    rw [hnext]
    generalize ElfSegment.read file (u32 (read32 file 28 + j * read16 file 42)) = h at hmem
    -- a segment that is loaded goes below the file, so the file still stands
    by_cases htype : h.type = PT_LOAD
    · have hsegment : ElfSegmentOk len h :=
        hok.segments h (List.mem_filter.mpr ⟨hmem, by simpa using htype⟩)
      have hloaded : loadable (h :: (List.range' (j + 1) left).map fun i =>
          ElfSegment.read file (u32 (read32 file 28 + i * read16 file 42))) =
          h :: loadable ((List.range' (j + 1) left).map fun i =>
            ElfSegment.read file (u32 (read32 file 28 + i * read16 file 42))) :=
              List.filter_cons_of_pos (by simpa using htype)
      have hstands := loadPieces_stands s [h] (fun g hg => List.mem_singleton.mp hg ▸ hsegment) hf
      rw [bootSegment_eq hf hsegment htype, hloaded]
      exact ih (j + 1) _ _ (by omega) (by omega) hstands
    -- a header of another type is passed over
    · have hskipped : loadable (h :: (List.range' (j + 1) left).map fun i =>
          ElfSegment.read file (u32 (read32 file 28 + i * read16 file 42))) =
          loadable ((List.range' (j + 1) left).map fun i =>
            ElfSegment.read file (u32 (read32 file 28 + i * read16 file 42))) :=
              List.filter_cons_of_neg (by simpa using htype)
      rw [bootSegment, if_neg htype, hskipped]
      exact ih (j + 1) _ _ (by omega) (by omega) hf

/-- The loop over the program headers ends, and has written the loadable segments. -/
theorem bootSegments_eq (hok : KernelOk file len) (hf : FileStands s.mem start len file) :
    bootSegments start walkFuel 0 s = some (loadPieces file s (loadable (elfSegments file))) := by
  by_cases hsize : read16 file 42 = 0
  · -- headers of no size: there are none
    have hheader := hok.header
    -- with entries of size 0 the table is over at once
    have hnone : elfSegments file = [] := by
      unfold elfSegments
      dsimp only
      rw [if_pos hsize]
      rfl
    have hfuel : walkFuel = 4294967295 + 1 := rfl
    rw [hnone, hfuel, bootSegments, hf.read16 (by omega), hsize, Nat.zero_mul,
      if_neg (Nat.lt_irrefl 0)]
    rfl
  -- the loop needs one round for each header, and one to stop
  · have hphnum : read16 file 44 < 65536 := by
      unfold read16
      omega
    have hloop := bootSegments_left hok (by omega) (read16 file 44) 0 walkFuel s
      (Nat.zero_add _) (by
      unfold walkFuel
      omega) hf
    rw [Nat.zero_mul, ← List.range_eq_range'] at hloop
    rw [hloop, elfSegments_eq (by omega)]

/-! ## The structures -/

/-- Rounding up to pages. -/
theorem pageUp_spec {x : Nat} (hx : x + 0x1000 ≤ 4294967296) :
    x ≤ roundUp32 x 0x1000 ∧ roundUp32 x 0x1000 < x + 0x1000 ∧ roundUp32 x 0x1000 % 0x1000 = 0 := by
  unfold roundUp32
  split
  · rw [u32_of_lt (by omega)]
    omega
  · omega

/-- The header at `g` and the structures behind it, for the ramdisk from `f` to `r`. -/
def bootHeader (mem : Nat → Byte) (g f r : Nat) (vbeInfo : VbeInfo) : Nat → Byte :=
  let mem := blit mem g (List.replicate 120 0)
  let mem := write32 mem g 0x848
  let mem := blit mem (g + 120) (List.replicate 16 0)
  let mem := write32 mem (g + 120) f
  let mem := write32 mem (g + 124) r
  let mem := write32 mem (g + 20) 1
  let mem := write32 mem (g + 24) (g + 120)
  let mem := blit mem (g + 136) vbeInfo
  let mem := write32 mem (g + 76) (g + 136)
  write32 mem (g + 48) (g + 188)

variable {g f r n q v : Nat} {vbeInfo : VbeInfo} {l : List Byte}

/-- A word outside the piece is not changed. -/
theorem word32_blit_apart (h : v + l.length ≤ q ∨ q + 4 ≤ v) :
    word32 (blit mem v l) q = word32 mem q :=
  word32_congr fun a hle hlt => blit_outside (by omega)

/-- The words of `struct multiboot` and of the module that are set. -/
theorem bootHeader_words (mem : Nat → Byte) (hg : g + 188 < 4294967296) (hf : f < 4294967296)
    (hr : r < 4294967296) :
    word32 (bootHeader mem g f r vbeInfo) g = 0x848 ∧
    word32 (bootHeader mem g f r vbeInfo) (g + 20) = 1 ∧
      word32 (bootHeader mem g f r vbeInfo) (g + 24) = g + 120 ∧
      word32 (bootHeader mem g f r vbeInfo) (g + 48) = g + 188 ∧
      word32 (bootHeader mem g f r vbeInfo) (g + 76) = g + 136 ∧
      word32 (bootHeader mem g f r vbeInfo) (g + 120) = f ∧
      word32 (bootHeader mem g f r vbeInfo) (g + 124) = r := by
  unfold bootHeader
  -- each word is the last thing that is stored at its place
  refine ⟨?_, ?_, ?_, ?_, ?_, ?_, ?_⟩ <;>
    simp (disch := first | omega | (simp only [List.length_replicate]; omega)) only
      [word32_write32_apart, word32_blit_apart, word32_write32]

/-- A word of memory that has been cleared. -/
theorem word32_cleared {p k : Nat} (hp : g ≤ p) (hk : p + 4 ≤ g + k) :
    word32 (blit mem g (List.replicate k (0 : Byte))) p = 0 := by
  have hbyte : ∀ a, p ≤ a → a < p + 4 → blit mem g (List.replicate k (0 : Byte)) a = 0 := by
    intro a hle hlt
    have hzero : (List.replicate k (0 : Byte))[a - g]? = some 0 := by
      rw [List.getElem?_replicate, if_pos (by omega)]
    have hsub : g + (a - g) = a := by omega
    rw [← hsub, blit_inside hzero]
  unfold word32
  rw [hbyte p (by omega) (by omega), hbyte (p + 1) (by omega) (by omega),
    hbyte (p + 2) (by omega) (by omega),
    hbyte (p + 3) (by omega) (by omega)]
  rfl

/-- Where the words of `struct multiboot` stand that the loader sets. -/
def multibootSet : List Nat := [0, 20, 24, 44, 48, 76]

/-- The other words of the header are zero, and so are the two of the module behind its bounds. -/
theorem bootHeader_zeros (mem : Nat → Byte) (g f r : Nat) (vbeInfo : VbeInfo) :
    (∀ q, q % 4 = 0 → q < 120 → q ∉ multibootSet →
      word32 (bootHeader mem g f r vbeInfo) (g + q) = 0) ∧
      word32 (bootHeader mem g f r vbeInfo) (g + 128) = 0 ∧
      word32 (bootHeader mem g f r vbeInfo) (g + 132) = 0 := by
  unfold bootHeader
  -- a word that no assignment names is still what the first `memset` wrote
  refine ⟨fun q hword hq hset => ?_, ?_, ?_⟩
  · simp only [multibootSet, List.mem_cons, List.not_mem_nil, or_false, not_or] at hset
    obtain ⟨h0, h20, h24, h44, h48, h76⟩ := hset
    dsimp only
    rw [word32_write32_apart (by omega), word32_write32_apart (by omega),
      word32_blit_apart (by omega),
      word32_write32_apart (by omega), word32_write32_apart (by omega),
      word32_write32_apart (by omega),
      word32_write32_apart (by omega), word32_blit_apart (by rw [List.length_replicate]; omega),
      word32_write32_apart (by omega), word32_cleared (by omega) (by omega)]
  all_goals
    dsimp only
    -- the assignments are behind the words of the module
    rw [word32_write32_apart (by omega), word32_write32_apart (by omega),
      word32_blit_apart (by omega),
      word32_write32_apart (by omega), word32_write32_apart (by omega),
      word32_write32_apart (by omega),
      word32_write32_apart (by omega), word32_cleared (by omega) (by omega)]

/-- The information about the video mode is behind the module. -/
theorem bootHeader_vbe (hvbe : vbeInfo.length = 52) :
    At (bootHeader mem g f r vbeInfo) (g + 136) vbeInfo := by
  unfold bootHeader
  apply blit_at.congr
  intro a hle hlt
  rw [write32_outside (by omega), write32_outside (by omega)]

/-- Nothing in front of the structures is written. -/
theorem bootHeader_outside {a : Nat} (ha : a < g) :
    bootHeader mem g f r vbeInfo a = mem a := by
  unfold bootHeader
  rw [write32_outside (by omega), write32_outside (by omega), blit_outside (by omega),
    write32_outside (by omega),
    write32_outside (by omega), write32_outside (by omega), write32_outside (by omega),
    blit_outside (by omega),
    write32_outside (by omega), blit_outside (by omega)]

/-! ## The memory map -/

/-- A word beside both tables is written before or after a round. -/
theorem bootMapEntry_write32 {e p : Nat} (h : e + 24 ≤ p ∨ p + 24 ≤ e) (hp : q + 4 ≤ p)
    (he : e + 24 ≤ q ∨ q + 4 ≤ e) :
    bootMapEntry (write32 mem q v) e p = write32 (bootMapEntry mem e p) q v := by
  rw [bootMapEntry_eq h, bootMapEntry_eq h, word32_write32_apart (by omega),
    word32_write32_apart (by omega),
    word32_write32_apart (by omega)]
  funext a
  -- inside the entry the 24 bytes are written anew, outside nothing is
  by_cases ha : a < p ∨ p + 24 ≤ a
  · rw [writeEntry_outside ha, blit_outside (by simpa using ha)]
    apply write32_congr
    rw [writeEntry_outside ha, blit_outside (by simpa using ha)]
  · rw [write32_outside (by omega)]
    unfold writeEntry write64
    apply write32_congr
    apply write32_congr
    apply write32_congr
    apply write32_congr
    apply write32_congr
    apply write32_congr
    have hzero : (List.replicate 24 (0 : Byte))[a - p]? = some 0 := by
      rw [List.getElem?_replicate, if_pos (by omega)]
    have hsub : p + (a - p) = a := by omega
    rw [← hsub, blit_inside hzero, blit_inside hzero]

/-- A word in front of the memory map can be stored before it or behind it. -/
theorem bootMap_write32 {q v n : Nat} (smap mmap : Nat) (hq : q + 4 ≤ mmap)
    (hsmap : smap + 24 * n ≤ q) (hfit : mmap + 24 * n < 4294967296)
    (left : Nat) : ∀ i mem, i + left = n →
      bootMap (write32 mem q v) smap (mmap + 24 * i) i left =
        (write32 (bootMap mem smap (mmap + 24 * i) i left).1 q v,
          (bootMap mem smap (mmap + 24 * i) i left).2) := by
  induction left with
  | zero => exact fun i mem _ => rfl
  | succ left ih =>
    intro i mem hi
    have hnext : u32 (mmap + 24 * i + 24) = mmap + 24 * (i + 1) := by
      rw [u32_of_lt (by omega)]
      omega
    rw [bootMap, bootMap, hnext, bootMapEntry_write32 (by omega) (by omega) (by omega)]
    exact ih (i + 1) _ (by omega)

/-! ## The image -/

/-- `multiboot->mods_addr`, `mod_start` and `mod_end` of the module there. -/
def BootInfo.module (b : BootInfo) : Nat := word32 b.mem (b.multiboot + 24)
def BootInfo.modStart (b : BootInfo) : Nat := word32 b.mem b.module
def BootInfo.modEnd (b : BootInfo) : Nat := word32 b.mem (b.module + 4)

/-- `multiboot->mmap_addr` and the end of the map. -/
def BootInfo.mmap (b : BootInfo) : Nat := word32 b.mem (b.multiboot + 48)
def BootInfo.mmapEnd (b : BootInfo) : Nat := u32 (b.mmap + word32 b.mem (b.multiboot + 44))

/-- What the kernel can rely on: its image, the ramdisk of `size` bytes, the words of the multiboot
    structures, the video mode and the memory map. -/
structure BootImage (file initrd : Nat → Byte) (size : Nat) (vbeInfo : VbeInfo)
    (smap : List SmapEntry)
    (b : BootInfo) : Prop where
  entry : b.entry = read32 file 24
  segments : ∀ h ∈ loadable (elfSegments file), ∀ k < max h.filesz h.memsz,
    b.mem (h.vaddr + k) = h.byte file k
  flags : word32 b.mem b.multiboot = MULTIBOOT_FLAG_MODS + MULTIBOOT_FLAG_MMAP + MULTIBOOT_FLAG_VBE
  modsCount : word32 b.mem (b.multiboot + 20) = 1
  zeros : ∀ q, q % 4 = 0 → q < 120 → q ∉ multibootSet → word32 b.mem (b.multiboot + q) = 0
  moduleZeros : word32 b.mem (b.module + 8) = 0 ∧ word32 b.mem (b.module + 12) = 0
  ramdisk : ∀ k < size, b.mem (b.modStart + k) = initrd k
  modEnd : b.modEnd = b.modStart + size
  aligned : b.modStart % 0x1000 = 0
  behind : ∀ h ∈ loadable (elfSegments file), h.last ≤ b.modStart
  ahead : b.modEnd ≤ b.multiboot
  video : slice b.mem (word32 b.mem (b.multiboot + 76)) 52 = vbeInfo
  memoryMap : memoryMapWalk b.mem b.mmapEnd walkFuel b.mmap = some (smap.map SmapEntry.lowEntry)

/-- Behind the last segment. -/
def kernelEnd (file : Nat → Byte) : Nat :=
  (loadable (elfSegments file)).foldl (fun last h => max last h.last) 0

/-- The files fit below the area of the sectors, with the structures and `n` entries of the memory
    map. -/
structure BootOk (disk : Nat → Nat → Byte) (kernel initrd : IsoExtent) (n : Nat) : Prop where
  volumes : VolumesOk disk
  kernelExtent : ExtentOk kernel
  initrdExtent : ExtentOk initrd
  kernelFile : KernelOk (extentByte disk kernel) kernel.extentLengthLsb
  loads : loadable (elfSegments (extentByte disk kernel)) ≠ []
  fits : kernelEnd (extentByte disk kernel) + initrd.extentLengthLsb + 0x20BC +
    24 * n ≤ DATA_LOAD_BASE

/-- The end of the image is behind every segment. -/
theorem le_foldl_max (hs : List ElfSegment) (m : Nat) :
    m ≤ hs.foldl (fun last h => max last h.last) m ∧
    ∀ h ∈ hs, h.last ≤ hs.foldl (fun last h => max last h.last) m := by
  induction hs generalizing m with
  | nil => exact ⟨Nat.le_refl m, fun h hh => absurd hh List.not_mem_nil⟩
  | cons h hs ih =>
    obtain ⟨hle, hall⟩ := ih (max m h.last)
    refine ⟨by rw [List.foldl_cons]; omega, fun g hg => ?_⟩
    rw [List.foldl_cons]
    rcases List.mem_cons.mp hg with rfl | hg
    · omega
    · exact hall g hg

/-- The pieces are all there in the end. -/
theorem loadPieces_segment (hok : KernelOk file len) (m : Nat → Byte) (last : Nat)
    (hh : h ∈ loadable (elfSegments file))
    {k : Nat} (hk : k < max h.filesz h.memsz) :
    (loadPieces file ⟨m, last⟩ (loadable (elfSegments file))).mem (h.vaddr + k) =
      h.byte file k := by
  -- no piece is written over another one, so the order does not matter
  have hapart : ((loadable (elfSegments file)).map fun h => (h.vaddr, h.image file)).Pairwise
      Apart := by
    rw [List.pairwise_map]
    apply hok.apart.imp
    intro g g' hgg'
    unfold Apart
    rw [length_image, length_image]
    exact hgg'
  have hmem : (h.vaddr, h.image file) ∈ (loadable (elfSegments file)).map fun h =>
      (h.vaddr, h.image file) :=
    List.mem_map_of_mem hh
  apply at_writeAll hapart hmem k
  rw [ElfSegment.image, List.getElem?_map, List.getElem?_range hk]
  rfl

/-- The memory before the entries of the memory map are built. -/
def bootTables (mem : Nat → Byte) (g f initrdStart size n : Nat) (vbeInfo : VbeInfo) : Nat → Byte :=
  let mem := bootHeader (blit mem f (slice mem initrdStart size)) g f (f + size) vbeInfo
  write32 mem (g + 44) (bootMemoryMap mem 0x1000 n (g + 188)).2

/-- The structures are built behind the ramdisk, and the memory map at their end. -/
theorem bootStructures_eq {last initrdStart size : Nat} (m : Nat → Byte) (entry : Nat)
    (vbeInfo : VbeInfo)
    (hf : roundUp32 last 0x1000 = f) (hg : roundUp32 (f + size) 0x1000 = g) (hle : f + size ≤ g)
    (hfit : g + 188 + 24 * n ≤ DATA_LOAD_BASE) (hbase : DATA_LOAD_BASE ≤ initrdStart)
    (hinitrd : initrdStart + size < 4294967296) (hsmap : 0x1000 + 24 * n ≤ g) :
    bootStructures ⟨m, last⟩ entry initrdStart size vbeInfo n =
        ⟨(bootMemoryMap (bootTables m g f initrdStart size n vbeInfo) 0x1000 n (g + 188)).1, g,
          entry⟩ ∧
      word32 (bootTables m g f initrdStart size n vbeInfo) (g + 44) =
        (bootMemoryMap (bootTables m g f initrdStart size n vbeInfo) 0x1000 n (g + 188)).2 := by
  have hlimit : DATA_LOAD_BASE = 67108864 := rfl
  have hflags : MULTIBOOT_FLAG_MODS + MULTIBOOT_FLAG_MMAP + MULTIBOOT_FLAG_VBE = 0x848 := rfl
  -- the length is stored behind the entries, but could be stored before them
  have hlength (mem : Nat → Byte) (v : Nat) :
    bootMemoryMap (write32 mem (g + 44) v) 0x1000 n (g + 188) =
      (write32 (bootMemoryMap mem 0x1000 n (g + 188)).1 (g + 44) v,
        (bootMemoryMap mem 0x1000 n (g + 188)).2) := by
    have hmap := bootMap_write32 (q := g + 44) (v := v) (n := n) 0x1000
      (g + 188) (by omega) (by omega)
      (by omega) n 0 mem (Nat.zero_add n)
    rw [Nat.mul_zero, Nat.add_zero] at hmap
    unfold bootMemoryMap
    rw [hmap]
  have hword :
    (bootMemoryMap (bootHeader (blit m f (slice m initrdStart size)) g f (f + size) vbeInfo) 0x1000
    n
      (g + 188)).2 < 4294967296 := by
    unfold bootMemoryMap sub32
    exact Nat.mod_lt _ (by decide)
  unfold bootTables
  dsimp only
  rw [hlength]
  refine ⟨?_, word32_write32 hword⟩
  unfold bootStructures bootHeader
  dsimp only
  rw [hf, copyBytes_eq (by omega) (by omega) (by omega),
    u32_of_lt (n := f + size) (by omega), hg, hflags,
    u32_of_lt (n := g + 120) (by omega), u32_of_lt (n := g + 120 + 16) (by omega),
    u32_of_lt (n := g + 120 + 16 + 52) (by omega)]

/-- The tables are behind the ramdisk: neither it nor the image is touched any more. -/
theorem bootTables_outside (m : Nat → Byte) (f initrdStart size n : Nat) (vbeInfo : VbeInfo)
    {a : Nat} (ha : a < g) :
    bootTables m g f initrdStart size n vbeInfo a = blit m f (slice m initrdStart size) a := by
  unfold bootTables
  rw [write32_outside (by omega), bootHeader_outside ha]

/-- Only `mmap_length` is added to the words of the header. -/
theorem bootTables_word (m : Nat → Byte) (f initrdStart size n : Nat) (vbeInfo : VbeInfo)
    (h : q + 4 ≤ g + 44 ∨ g + 48 ≤ q) : word32 (bootTables m g f initrdStart size n vbeInfo) q =
      word32 (bootHeader (blit m f (slice m initrdStart size)) g f (f + size) vbeInfo) q := by
  unfold bootTables
  exact word32_write32_apart (by omega)

/-- The information about the video mode stays. -/
theorem bootTables_vbe (m : Nat → Byte) (f initrdStart size n : Nat) (hvbe : vbeInfo.length = 52) :
    At (bootTables m g f initrdStart size n vbeInfo) (g + 136) vbeInfo := by
  unfold bootTables
  apply (bootHeader_vbe hvbe).congr
  intro a hle hlt
  exact write32_outside (by omega)

/-- Both files are found, the kernel is an ELF file that fits, and there is a video mode: then the
    kernel is started, and everything is where the multiboot structures say. -/
theorem boot_image (disk : Nat → Nat → Byte) (query : BitVec 16 → VbeInfo)
    (modes : List (BitVec 16)) (mode : BitVec 16)
    (mem : Nat → Byte) (files : LoadedFiles) (smap : List SmapEntry)
    (hfiles : bootFiles disk mem = some (.ok files)) (hrecords : files.RecordsOk)
    (hok : BootOk disk files.kernel files.initrd smap.length)
    (hformat : multibootHeaderOk files.mem files.kernel.loadAddress = true)
    (hmagic : elfMagic (extentByte disk files.kernel) = true)
    (hmode : biosVideoMode query modes = some mode) (hinfo : (query mode).length = 52)
    (hsmap : ∀ i e, smap[i]? = some e → At mem (0x1000 + 24 * i) e.bytes)
    (hcount : smap.length * 24 ≤ 0x2000) :
    ∃ b, boot disk query modes smap.length mem = some (.ok b) ∧
      BootImage (extentByte disk files.kernel) (extentByte disk files.initrd)
        files.initrd.extentLengthLsb (query mode)
        smap b := by
  obtain ⟨hbelow, hkernel, hinitrd⟩ :=
    bootFiles_staged hok.volumes hok.kernelExtent hok.initrdExtent hrecords hfiles
  obtain ⟨m, root, kernelEntry, kernel, initrdEntry, initrd⟩ := files
  dsimp only at hok hformat hmagic hbelow hkernel hinitrd ⊢
  have hfits := hok.fits
  have hlimit : DATA_LOAD_BASE = 67108864 := rfl
  obtain ⟨hkbase, hkend⟩ := hok.kernelExtent.bounds
  obtain ⟨hibase, hiend⟩ := hok.initrdExtent.bounds
  have hkf := hok.kernelFile
  have hheader := hkf.header
  have hloads := hok.loads
  generalize extentByte disk kernel = file at *
  have hstands : FileStands m kernel.loadAddress kernel.extentLengthLsb file :=
    ⟨hkbase, hkend, hkernel⟩
  -- the segments
  have hsegments := bootSegments_eq (s := ⟨m, 0⟩) hkf hstands
  have hlast := (le_foldl_max (loadable (elfSegments file)) 0).2
  have hlow : 0x100000 ≤ kernelEnd file := by
    obtain ⟨h, hh⟩ := List.exists_mem_of_ne_nil _ hloads
    have hvaddr := (hkf.segments h hh).low
    have hle := hlast h hh
    unfold ElfSegment.last at hle
    unfold kernelEnd ElfSegment.last
    omega
  have hpiece {h : ElfSegment} (hh : h ∈ loadable (elfSegments file)) {k : Nat}
      (hk : k < max h.filesz h.memsz) :=
    loadPieces_segment hkf m 0 hh hk
  have hout {a : Nat} (ha : a < 0x100000 ∨ DATA_LOAD_BASE ≤ a) :
      (loadPieces file ⟨m, 0⟩ (loadable (elfSegments file))).mem a = m a := by
    apply loadPieces_outside
    intro h hh
    have hvaddr := (hkf.segments h hh).low
    have hhigh := (hkf.segments h hh).high
    omega
  have hstate : loadPieces file ⟨m, 0⟩ (loadable (elfSegments file)) =
      ⟨(loadPieces file ⟨m, 0⟩ (loadable (elfSegments file))).mem, kernelEnd file⟩ := rfl
  generalize (loadPieces file ⟨m, 0⟩ (loadable (elfSegments file))).mem = u at hpiece hout hstate
  -- where the structures go
  obtain ⟨hf, hf', hfpage⟩ := pageUp_spec (x := kernelEnd file) (by omega)
  generalize hF : roundUp32 (kernelEnd file) 0x1000 = f at hf hf' hfpage
  obtain ⟨hg, hg', -⟩ := pageUp_spec (x := f + initrd.extentLengthLsb) (by omega)
  generalize hG : roundUp32 (f + initrd.extentLengthLsb) 0x1000 = g at hg hg'
  obtain ⟨hstructures, hlength⟩ := bootStructures_eq (n := smap.length) u (read32 file 24)
    (query mode) hF hG hg
    (by omega) hibase hiend (by omega)
  have hinside {a : Nat} (ha : a < g) :=
    bootTables_outside u f initrd.loadAddress initrd.extentLengthLsb smap.length (query mode) ha
  have hword {q : Nat} (hq : q + 4 ≤ g + 44 ∨ g + 48 ≤ q) :=
    bootTables_word u f initrd.loadAddress initrd.extentLengthLsb smap.length (query mode) hq
  have hvbe := bootTables_vbe (g := g) u f initrd.loadAddress initrd.extentLengthLsb
    smap.length hinfo
  obtain ⟨wflags, wcount, waddr, wmmap, wvbe, wstart, wend⟩ := bootHeader_words
    (blit u f (slice u initrd.loadAddress initrd.extentLengthLsb)) (g := g) (f := f)
    (r := f + initrd.extentLengthLsb) (by omega) (by omega) (by omega)
  obtain ⟨wzeros, wcmdline, wreserved⟩ := bootHeader_zeros
    (blit u f (slice u initrd.loadAddress initrd.extentLengthLsb)) g f
      (f + initrd.extentLengthLsb) (query mode)
  have wzeros' : ∀ q, q % 4 = 0 → q < 120 → q ∉ multibootSet →
    word32 (bootTables u g f initrd.loadAddress
      initrd.extentLengthLsb smap.length (query mode)) (g + q) = 0 := by
    intro q hmod hq hset
    have hlength : q ≠ 44 := by
      rintro rfl
      exact hset (by decide)
    rw [hword (by omega)]
    exact wzeros q hmod hq hset
  rw [← hword (by omega)] at wcmdline wreserved
  rw [← hword (by omega)] at wflags wcount waddr wmmap wvbe wstart wend
  generalize bootTables u g f initrd.loadAddress initrd.extentLengthLsb smap.length (query mode) =
    t at *
  -- the memory map is built behind everything else
  have hsame : ∀ a, a < g + 188 + 24 * 0 →
      (bootMap t 0x1000 (g + 188 + 24 * 0) 0 smap.length).1 a = t a :=
    (bootMap_spec (m := t) (n := smap.length) (by omega) (by omega) smap.length 0 t (Nat.zero_add _)
      fun _ _ _ => rfl).2.1
  have hbios : ∀ i e, smap[i]? = some e → At t (0x1000 + 24 * i) e.bytes := by
    intro i e he
    have hi := (List.getElem?_eq_some_iff.mp he).1
    apply (hsmap i e he).congr
    intro a hle hlt
    have hbytes : e.bytes.length = 24 := rfl
    rw [hinside (by omega), blit_outside (by omega), hout (by omega), hbelow a (by omega)]
  have hwalk := bootMemoryMap_walk t 0x1000 (g + 188) walkFuel smap hbios (by omega) (by omega) (by
    unfold walkFuel
    omega)
  have hb : ∀ a < g + 188, (bootMemoryMap t 0x1000 smap.length (g + 188)).1 a = t a :=
    fun a ha => hsame a (by omega)
  generalize bootMemoryMap t 0x1000 smap.length (g + 188) = map at hstructures hlength hwalk hb
  have hbword {q : Nat} (hq : q + 4 ≤ g + 188) : word32 map.1 q = word32 t q :=
    word32_congr fun a hle hlt => hb a (by omega)
  generalize hinfo' : (⟨map.1, g, read32 file 24⟩ : BootInfo) = b at hstructures
  have hmem : b.mem = map.1 := hinfo' ▸ rfl
  have hmultiboot : b.multiboot = g := hinfo' ▸ rfl
  have hmodule : b.module = g + 120 := by
    rw [BootInfo.module, hmem, hmultiboot, hbword (by omega), waddr]
  have hstart : b.modStart = f := by
    rw [BootInfo.modStart, hmodule, hmem, hbword (by omega), wstart]
  have hend : b.modEnd = f + initrd.extentLengthLsb := by
    rw [BootInfo.modEnd, hmodule, hmem, hbword (by omega), wend]
  have hmmap : b.mmap = g + 188 := by rw [BootInfo.mmap, hmem, hmultiboot, hbword (by omega), wmmap]
  refine ⟨b, ?_, ?_⟩
  · have hmagic' : elfMagic (fun i => m (kernel.loadAddress + i)) = true := by
      simp only [elfMagic, decide_eq_true_eq] at hmagic ⊢
      rw [hstands.byte 0 (by omega), hstands.byte 1 (by omega), hstands.byte 2 (by omega),
        hstands.byte 3 (by omega)]
      exact hmagic
    have hentry : read32 m (kernel.loadAddress + 24) = read32 file 24 := hstands.read32 (by omega)
    rw [boot, hfiles]
    dsimp only
    rw [bootKernel, hformat, hmagic']
    dsimp only
    rw [if_neg Bool.noConfusion, if_neg Bool.noConfusion, hsegments, hmode, hentry, hstate]
    show some (Except.ok (bootStructures _ _ _ _ _ _)) = _
    rw [hstructures]
  · constructor
    · exact hinfo' ▸ rfl
    · intro h hh k hk
      have hle := hlast h hh
      unfold ElfSegment.last at hle
      unfold kernelEnd ElfSegment.last at hf
      rw [hmem, hb _ (by omega), hinside (by omega), blit_outside (by omega)]
      exact hpiece hh hk
    · rw [hmem, hmultiboot, hbword (by omega), wflags]
      rfl
    · rw [hmem, hmultiboot, hbword (by omega), wcount]
    · intro q hmod hq hset
      rw [hmem, hmultiboot, hbword (by omega)]
      exact wzeros' q hmod hq hset
    · rw [hmem, hmodule, hbword (by omega), hbword (by omega)]
      exact ⟨wcmdline, wreserved⟩
    · intro k hk
      rw [hmem, hstart, hb _ (by omega), hinside (by omega), blit_inside (getElem?_slice hk),
        hout (by omega)]
      exact hinitrd k hk
    · rw [hend, hstart]
    · rw [hstart]
      exact hfpage
    · intro h hh
      rw [hstart]
      exact Nat.le_trans (hlast h hh) hf
    · rw [hend, hmultiboot]
      exact hg
    · rw [hmem, hmultiboot, hbword (by omega), wvbe]
      have hat : At map.1 (g + 136) (query mode) := hvbe.congr fun a hle hlt => hb a (by omega)
      rw [← hinfo]
      exact hat.slice_eq
    · have hmmapEnd : b.mmapEnd = u32 (g + 188 + map.2) := by
        rw [BootInfo.mmapEnd, hmmap, hmem, hmultiboot, hbword (by omega), hlength]
      rw [hmem, hmmapEnd, hmmap]
      exact hwalk

/-- The first sectors of a disk: a kernel of one segment, a ramdisk of four bytes, the directory,
    and the volume. -/
def sampleSector : Nat → List Byte
  | 1 => [0x7F, 0x45, 0x4C, 0x46] ++ List.replicate 20 0 ++ le32 0x100000 ++ le32 52 ++
    List.replicate 10 0 ++
      le16 32 ++ le16 1 ++ List.replicate 6 0 ++
      (le32 1 ++ le32 84 ++ le32 0x100000 ++ le32 0x100000 ++ le32 4 ++ le32 8 ++
        le32 5 ++ le32 4) ++
      [0xFA, 0xF4, 0xEB, 0xFD] ++ le32 0x1BADB002 ++ le32 0
  | 2 => [1, 2, 3, 4]
  | 3 => [44, 0] ++ le32 1 ++ le32 0 ++ le32 96 ++ List.replicate 18 0 ++ [10] ++
    kernelName.bytes ++ [0] ++
      [44, 0] ++ le32 2 ++ le32 0 ++ le32 4 ++ List.replicate 18 0 ++ [10] ++
        initrdName.bytes ++ [0]
  | 16 => [1] ++ List.replicate 157 0 ++ le32 3 ++ le32 0 ++ le32 2048
  | _ => []

def sampleDisk (sector o : Nat) : Byte := (sampleSector sector).getD o 0

/-- 1024 by 768 pixels of 32 bits. -/
def sampleMode : VbeInfo :=
  [0x80, 0] ++ List.replicate 16 0 ++ le16 1024 ++ le16 768 ++ [0, 0, 0, 32] ++ List.replicate 26 0

/-- All memory below 4 GiB is usable. -/
def sampleEntry : SmapEntry := ⟨0, 0, 0xFFFFFFFF, 0, 1, 1⟩

/-- The disk below can be booted from. -/
theorem sample_bootOk : BootOk sampleDisk ⟨1, 96⟩ ⟨2, 4⟩ 1 := by
  have hsegments : loadable (elfSegments (extentByte sampleDisk ⟨1, 96⟩)) =
      [⟨⟨1, 0x100000, 8⟩, 84, 4⟩] := by
    decide +kernel
  have hvolumes : ∀ i < 21, sampleDisk i 0 = 1 → word32 (sampleDisk i) 158 < 2064384 := by
    decide +kernel
  have hphdrs : ∀ i < read16 (extentByte sampleDisk ⟨1, 96⟩) 44,
    read32 (extentByte sampleDisk ⟨1, 96⟩) 28 +
      i * read16 (extentByte sampleDisk ⟨1, 96⟩) 42 + 32 ≤ 96 := by decide +kernel
  -- the sectors 1 and 2 are the files, as the two extents say
  have hstart : SectorOk 1 ∧ SectorOk 2 := by
    unfold SectorOk
    decide
  refine ⟨fun i _ hi htype => hvolumes i hi htype, ⟨hstart.1, by decide⟩, ⟨hstart.2, by decide⟩,
    ⟨by decide, hphdrs, ?_, ?_⟩, ?_, ?_⟩
  -- one header, one segment
  · intro h hh
    rw [hsegments] at hh
    obtain rfl := List.mem_singleton.mp hh
    exact ⟨by decide, by decide, by decide⟩
  · rw [hsegments]
    exact List.pairwise_singleton _ _
  · rw [hsegments]
    exact List.cons_ne_nil _ _
  · rw [kernelEnd, hsegments]
    decide

/-- A kernel of one segment and a ramdisk of four bytes are started in a mode of 1024 by 768 pixels.
    -/
theorem boot_image_sample :
    ∃ b, boot sampleDisk (fun _ => sampleMode) [0x118] 1
      (blit (fun _ => 0) 0x1000 sampleEntry.bytes) = some (.ok b) ∧
      BootImage (extentByte sampleDisk ⟨1, 96⟩) (extentByte sampleDisk ⟨2, 4⟩) 4 sampleMode
        [sampleEntry] b := by
  -- `bootFiles` is evaluated once, with what the theorem asks of its result
  have hexec :
    (((bootFiles sampleDisk (blit (fun _ => 0) 0x1000 sampleEntry.bytes)).bind Except.toOption).map
    fun r =>
      (r.kernel.extentStartLsb, r.kernel.extentLengthLsb, r.initrd.extentStartLsb,
        r.initrd.extentLengthLsb,
        decide (r.kernelEntry + 14 ≤ r.root.loadAddress + 2048 ∧
          r.initrdEntry + 14 ≤ r.root.loadAddress + 2048),
        multibootHeaderOk r.mem r.kernel.loadAddress)) =
          some (1, 96, 2, 4, true, true) := by decide +kernel
  obtain ⟨⟨m, root, kernelEntry, kernel, initrdEntry, initrd⟩, hr, hextents⟩ :=
    Option.map_eq_some_iff.mp hexec
  obtain ⟨result, hfiles, hresult⟩ := Option.bind_eq_some_iff.mp hr
  obtain ⟨kstart, klen⟩ := kernel
  obtain ⟨istart, ilen⟩ := initrd
  simp only [Prod.mk.injEq, decide_eq_true_eq] at hextents
  obtain ⟨rfl, rfl, rfl, rfl, hrecords, hformat⟩ := hextents
  cases result with
  | error message => cases hresult
  | ok r =>
    obtain rfl := Option.some.inj hresult
    apply boot_image sampleDisk (fun _ => sampleMode) [0x118] 0x118 _ _ [sampleEntry] hfiles
      ⟨hrecords.1, hrecords.2⟩
      sample_bootOk hformat
    · show elfMagic (extentByte sampleDisk ⟨1, 96⟩) = true
      decide +kernel
    · decide
    · decide
    · intro i e he
      have hi : i = 0 := by
        have hlt := (List.getElem?_eq_some_iff.mp he).1
        simp only [List.length_cons, List.length_nil] at hlt
        omega
      rw [hi] at he ⊢
      obtain rfl := Option.some.inj he
      exact blit_at
    · decide

end MishaOS
