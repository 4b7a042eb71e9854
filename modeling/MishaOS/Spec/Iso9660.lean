import Mathlib.Tactic.ByContra
import MishaOS.Native.Iso9660

/-!
# Finding a file on the boot disk

Only the first sector of a directory is loaded, but the walk goes on up to the
length of the extent, and past its last byte by one.  So the lookup is right
exactly if it ends within the first sector, that is, if the file is there.

## Key results

- `isoWalk_record`, `isoWalk_padding`: the walk over one record and over one null byte.
- `isoWalk_found`, `isoWalk_missed`: the walk over the first sector.
- `iso9660FindEntry_iff`: when the lookup is right.
-/

namespace MishaOS

open Ring Bytes

/-! ## Directories -/

/-- A directory record: its first byte is its length, and the name fits in. -/
structure IsoRecord where
  bytes : List Byte
  size : bytes.length < 256
  length : bytes[0]? = some (BitVec.ofNat 8 bytes.length)
  name : 33 + (bytes.getD 32 0).toNat ≤ bytes.length

/-- Records one after the other, padded with null bytes. -/
structure IsoSector where
  records : List IsoRecord
  fits : (records.flatMap IsoRecord.bytes).length ≤ 2048

def IsoSector.bytes (s : IsoSector) : List Byte :=
  s.records.flatMap IsoRecord.bytes ++
    List.replicate (2048 - (s.records.flatMap IsoRecord.bytes).length) 0

/-- The record is not hidden and its name, up to `;`, is `name`. -/
def IsoRecord.Matches (r : IsoRecord) (name : CString) : Prop :=
  r.bytes.getD 25 0 &&& FLAG_HIDDEN = 0 ∧
    isoFilename ((r.bytes.drop 33).take (r.bytes.getD 32 0).toNat) = name.bytes

instance IsoRecord.decidableMatches (r : IsoRecord) (name : CString) : Decidable (r.Matches name) :=
  inferInstanceAs (Decidable (_ ∧ _))

/-- Where the first record with the name is, the first one of the list being at `pos`. -/
def lookupRecords (name : CString) (pos : Nat) : List IsoRecord → Option Nat
  | [] => none
  | r :: records => if r.Matches name then some pos
    else lookupRecords name (pos + r.bytes.length) records

/-- The same for a directory, sector by sector. -/
def lookupSectors (name : CString) (pos : Nat) : List IsoSector → Option Nat
  | [] => none
  | s :: sectors => (lookupRecords name pos s.records).or (lookupSectors name (pos + 2048) sectors)

/-- A lookup as it should be: it ends, finds the first record with the name,
    and looks only at bytes that were loaded and belong to the directory. -/
def FindsEntry (disk : Nat → Nat → Byte) (mem : Nat → Byte) (base : Nat) (parent : IsoExtent)
    (name : CString) (sectors : List IsoSector) : Prop :=
  let dirEntries := u32 (base + parent.extentStartLsb * ISO_SECTOR_SIZE)
  ∀ fuel, parent.extentLengthLsb + 2 ≤ fuel →
    ∃ seen, iso9660FindEntry disk mem base parent name fuel =
        some (lookupSectors name dirEntries sectors, seen) ∧
      ∀ a ∈ seen, dirEntries ≤ a ∧ a < dirEntries + 2048 ∧ a < dirEntries + parent.extentLengthLsb

/-- The directory on the disk. -/
structure OnDisk (disk : Nat → Nat → Byte) (parent : IsoExtent)
    (sectors : List IsoSector) : Prop where
  length : parent.extentLengthLsb = 2048 * sectors.length
  fits : parent.extentLengthLsb < 4294967296
  holds : ∀ i s, sectors[i]? = some s → At (disk (parent.extentStartLsb + i)) 0 s.bytes

/-! ## One step -/

variable {m : Nat → Byte} {d ext fuel offset : Nat} {name : CString} {r : IsoRecord}

/-- The bytes of a record in memory. -/
theorem IsoRecord.byte (h : At m (d + offset) r.bytes) {i : Nat} (hi : i < 33) :
    m (d + offset + i) = r.bytes.getD i 0 := by
  have hlt : i < r.bytes.length := by
    have hname := r.name
    omega
  rw [h i (r.bytes.getD i 0)
    (by rw [List.getD_eq_getElem?_getD, List.getElem?_eq_getElem hlt]; rfl)]

/-- The comparison of names sees whether the record matches. -/
theorem IsoRecord.matches_iff (h : At m (d + offset) r.bytes) :
    isoMatches m (d + offset) name = true ↔ r.Matches name := by
  have hname := r.name
  have hslice : slice m (d + offset + 33) (r.bytes.getD 32 0).toNat =
      (r.bytes.drop 33).take (r.bytes.getD 32 0).toNat := by
    -- the name is in the bytes behind the fixed part
    have hdrop : r.bytes.drop 33 = slice m (d + offset + 33) (r.bytes.length - 33) := by
      rw [← drop_slice, h.slice_eq]
    rw [hdrop, take_slice (by omega)]
  unfold isoMatches IsoRecord.Matches
  rw [IsoRecord.byte h (by decide), IsoRecord.byte h (by decide), hslice,
    Bool.and_eq_true, beq_iff_eq,
    beq_iff_eq]

/-- The length byte is the length. -/
theorem IsoRecord.first (h : At m (d + offset) r.bytes) :
    m (d + offset) ≠ 0 ∧ (m (d + offset)).toNat = r.bytes.length := by
  have hsize := r.size
  have hname := r.name
  have hbyte : m (d + offset) = BitVec.ofNat 8 r.bytes.length := h 0 _ r.length
  have hnat : (m (d + offset)).toNat = r.bytes.length := by
    rw [hbyte, BitVec.toNat_ofNat]
    omega
  refine ⟨fun hzero => ?_, hnat⟩
  rw [hzero] at hnat
  change 0 = _ at hnat
  omega

/-- Only bytes of the record are looked at. -/
theorem isoExamined_inside (h : At m (d + offset) r.bytes) :
    ∀ a ∈ isoExamined m (d + offset), d + offset ≤ a ∧ a < d + offset + r.bytes.length := by
  intro a ha
  have hname := r.name
  unfold isoExamined at ha
  rw [IsoRecord.byte h (show 32 < 33 by decide)] at ha
  split at ha
  · rw [List.mem_append, List.mem_range'_1] at ha
    simp only [List.mem_cons, List.not_mem_nil, or_false] at ha
    omega
  · simp only [List.mem_cons, List.not_mem_nil, or_false] at ha
    omega

/-- Its length is. -/
theorem isoExamined_head (m : Nat → Byte) (dir : Nat) : dir ∈ isoExamined m dir := by
  unfold isoExamined
  split <;> simp

/-- One round of the walk, at a null byte or at a record. -/
theorem isoWalk_succ (m : Nat → Byte) (d ext : Nat) (name : CString) (fuel offset : Nat) :
    isoWalk m d ext name (fuel + 1) offset =
      if m (d + offset) = 0 then
        if offset < ext then
          if u32 (offset + 1) > ext then some (none, [d + offset])
          else (isoWalk m d ext name fuel (u32 (offset + 1))).map
            fun r => (r.1, (d + offset) :: r.2)
        else some (none, [d + offset])
      else if isoMatches m (d + offset) name then
        some (some (d + offset), isoExamined m (d + offset))
      else if u32 (offset + (m (d + offset)).toNat) > ext then
        some (none, isoExamined m (d + offset))
      else (isoWalk m d ext name fuel (u32 (offset + (m (d + offset)).toNat))).map
        fun r => (r.1, isoExamined m (d + offset) ++ r.2) := rfl

/-- Without a round left there is no result. -/
theorem isoWalk_zero (m : Nat → Byte) (d ext : Nat) (name : CString) (offset : Nat) :
    isoWalk m d ext name 0 offset = none := rfl

/-- The walk ends at a record that matches. -/
theorem isoWalk_match (h : At m (d + offset) r.bytes) (hm : r.Matches name) :
    isoWalk m d ext name (fuel + 1) offset =
      some (some (d + offset), isoExamined m (d + offset)) := by
  rw [isoWalk_succ, if_neg (IsoRecord.first h).1, if_pos ((IsoRecord.matches_iff h).2 hm)]

/-- It goes over any other one. -/
theorem isoWalk_record (h : At m (d + offset) r.bytes) (hm : ¬ r.Matches name)
    (hle : offset + r.bytes.length ≤ ext) (hext : ext < 4294967296) :
    isoWalk m d ext name (fuel + 1) offset =
      (isoWalk m d ext name fuel (offset + r.bytes.length)).map
      fun x => (x.1, isoExamined m (d + offset) ++ x.2) := by
  have hnext : u32 (offset + r.bytes.length) = offset + r.bytes.length := u32_of_lt (by omega)
  rw [isoWalk_succ, if_neg (IsoRecord.first h).1,
    if_neg (fun hc => hm ((IsoRecord.matches_iff h).1 hc)), (IsoRecord.first h).2, hnext,
    if_neg (by omega)]

/-- It goes over a null byte. -/
theorem isoWalk_padding (h : m (d + offset) = 0) (hlt : offset < ext) (hext : ext < 4294967296) :
    isoWalk m d ext name (fuel + 1) offset = (isoWalk m d ext name fuel (offset + 1)).map
      fun x => (x.1, (d + offset) :: x.2) := by
  have hnext : u32 (offset + 1) = offset + 1 := u32_of_lt (by omega)
  rw [isoWalk_succ, if_pos h, if_pos hlt, hnext, if_neg (by omega)]

/-- Whatever the walk finds, it has looked at the byte it starts at. -/
theorem isoWalk_head {res : Option Nat} {seen : List Nat}
    (h : isoWalk m d ext name fuel offset = some (res, seen)) : d + offset ∈ seen := by
  cases fuel with
  | zero => exact absurd h (by simp [isoWalk_zero])
  | succ fuel =>
    have hhead := isoExamined_head m (d + offset)
    rw [isoWalk_succ] at h
    -- every branch goes on from the byte it has looked at
    split at h
    · split at h
      · split at h
        · cases h
          exact List.mem_cons_self
        · obtain ⟨x, _, heq⟩ := Option.map_eq_some_iff.mp h
          cases heq
          exact List.mem_cons_self
      · cases h
        exact List.mem_cons_self
    · split at h
      · cases h
        exact hhead
      · split at h
        · cases h
          exact hhead
        · obtain ⟨x, _, heq⟩ := Option.map_eq_some_iff.mp h
          cases heq
          exact List.mem_append_left _ hhead

/-! ## The first sector -/

/-- A record with the name ends the walk, and nothing behind it is looked at. -/
theorem isoWalk_found {records : List IsoRecord} {q : Nat} (hext : ext < 4294967296)
    (hat : At m (d + offset) (records.flatMap IsoRecord.bytes))
    (hle : offset + (records.flatMap IsoRecord.bytes).length ≤ ext)
    (hq : lookupRecords name (d + offset) records = some q)
    (hfuel : (records.flatMap IsoRecord.bytes).length < fuel) :
    ∃ seen, isoWalk m d ext name fuel offset = some (some q, seen) ∧
      ∀ a ∈ seen, d + offset ≤ a ∧ a < d + offset + (records.flatMap IsoRecord.bytes).length := by
  -- the walk is at the first record that is left; each one that does not match is stepped over
  induction records generalizing offset fuel with
  | nil => exact absurd hq (by simp [lookupRecords])
  | cons r records ih =>
    have hname := r.name
    rw [List.flatMap_cons, at_append] at hat
    rw [List.flatMap_cons, List.length_append] at hle hfuel ⊢
    obtain ⟨f, rfl⟩ : ∃ f, fuel = f + 1 := ⟨fuel - 1, by omega⟩
    rw [lookupRecords] at hq
    by_cases hm : r.Matches name
    · rw [if_pos hm] at hq
      obtain rfl : d + offset = q := Option.some.inj hq
      refine ⟨_, isoWalk_match hat.1 hm, fun a ha => ?_⟩
      have hin := isoExamined_inside hat.1 a ha
      omega
    · rw [if_neg hm, Nat.add_assoc] at hq
      have hrest := hat.2
      rw [Nat.add_assoc] at hrest
      obtain ⟨seen, hwalk, hseen⟩ := ih hrest (by omega) hq (show _ < f by omega)
      refine ⟨isoExamined m (d + offset) ++ seen, ?_, fun a ha => ?_⟩
      · rw [isoWalk_record hat.1 hm (by omega) hext, hwalk]
        rfl
      · rcases List.mem_append.mp ha with ha | ha
        · have hin := isoExamined_inside hat.1 a ha
          omega
        · have hin := hseen a ha
          omega

/-- The null bytes up to the end of the sector are passed one by one. -/
theorem isoWalk_zeros {n : Nat} {res : Option Nat} {seen : List Nat} (hext : ext < 4294967296)
    (hlong : 2048 ≤ ext)
    (hat : At m (d + offset) (List.replicate n 0)) (hn : offset + n = 2048)
    (h : isoWalk m d ext name fuel offset = some (res, seen)) : d + 2048 ∈ seen := by
  -- one null byte a round, until the walk looks at the byte behind the sector
  induction n generalizing offset fuel seen with
  | zero =>
    rw [← hn]
    exact isoWalk_head h
  | succ n ih =>
    cases fuel with
    | zero => exact absurd h (by simp [isoWalk_zero])
    | succ fuel =>
      rw [List.replicate_succ, at_cons] at hat
      rw [isoWalk_padding hat.1 (by omega) hext, Option.map_eq_some_iff] at h
      obtain ⟨⟨res', seen'⟩, hrest, heq⟩ := h
      obtain ⟨rfl, rfl⟩ : res' = res ∧ (d + offset) :: seen' = seen := by simpa using heq
      exact List.mem_cons_of_mem _ (ih hat.2 (by omega) hrest)

/-- Without a record of the name the walk comes to the end of the sector and
    looks at the byte behind it. -/
theorem isoWalk_missed {records : List IsoRecord} {n : Nat} {res : Option Nat} {seen : List Nat}
    (hext : ext < 4294967296) (hlong : 2048 ≤ ext)
    (hat : At m (d + offset) (records.flatMap IsoRecord.bytes ++ List.replicate n 0))
    (hn : offset + (records.flatMap IsoRecord.bytes).length + n = 2048)
    (hq : ∀ r ∈ records, ¬ r.Matches name)
    (h : isoWalk m d ext name fuel offset = some (res, seen)) : d + 2048 ∈ seen := by
  -- record by record; behind the last one there are zeros
  induction records generalizing offset fuel seen with
  | nil => exact isoWalk_zeros hext hlong hat hn h
  | cons r records ih =>
    cases fuel with
    | zero => exact absurd h (by simp [isoWalk_zero])
    | succ fuel =>
      rw [List.flatMap_cons, List.append_assoc, at_append] at hat
      rw [List.flatMap_cons, List.length_append] at hn
      have hm := hq r List.mem_cons_self
      rw [isoWalk_record hat.1 hm (by omega) hext, Option.map_eq_some_iff] at h
      obtain ⟨⟨res', seen'⟩, hrest, heq⟩ := h
      obtain ⟨rfl, rfl⟩ : res' = res ∧ isoExamined m (d + offset) ++ seen' = seen := by
        simpa using heq
      have htail := hat.2
      rw [Nat.add_assoc] at htail
      exact List.mem_append_right _
        (ih htail (by omega) (fun q hmem => hq q (List.mem_cons_of_mem _ hmem)) hrest)

/-! ## The lookup -/

/-- A sector has 2048 bytes. -/
theorem IsoSector.length_bytes (s : IsoSector) : s.bytes.length = 2048 := by
  have hfits := s.fits
  unfold IsoSector.bytes
  rw [List.length_append, List.length_replicate]
  omega

/-- The lookup finds a record if and only if one matches. -/
theorem lookupRecords_isSome {records : List IsoRecord} (pos : Nat) :
    (∃ q, lookupRecords name pos records = some q) ↔ ∃ r ∈ records, r.Matches name := by
  induction records generalizing pos with
  | nil => simp [lookupRecords]
  | cons r records ih =>
    rw [lookupRecords, List.exists_mem_cons_iff]
    by_cases hm : r.Matches name
    · rw [if_pos hm]
      exact iff_of_true ⟨pos, rfl⟩ (Or.inl hm)
    · rw [if_neg hm, ih]
      exact (or_iff_right hm).symm

/-- The loaded sector is the first one of the directory. -/
theorem biosCall_at {disk : Nat → Nat → Byte} {sector : Nat} {s : IsoSector} (mem : Nat → Byte)
    (target : Nat) (h : At (disk sector) 0 s.bytes) :
    At (biosCall disk mem target sector) target s.bytes := by
  have hslice := h.slice_eq
  rw [s.length_bytes] at hslice
  unfold biosCall
  rw [hslice]
  exact blit_at

variable {disk : Nat → Nat → Byte} {mem : Nat → Byte} {base : Nat} {parent : IsoExtent}
  {sectors : List IsoSector}

/-- An entry that is found is in the first sector. -/
theorem FindsEntry.first (hdisk : OnDisk disk parent sectors)
    (h : FindsEntry disk mem base parent name sectors) :
    ∃ s, sectors[0]? = some s ∧ ∃ r ∈ s.records, r.Matches name := by
  obtain ⟨hlen, hext, hholds⟩ := hdisk
  obtain ⟨seen, hwalk, hseen⟩ := h _ (Nat.le_refl _)
  unfold iso9660FindEntry at hwalk
  dsimp only at hwalk
  generalize u32 (base + parent.extentStartLsb * ISO_SECTOR_SIZE) = d at hwalk hseen
  cases sectors with
  | nil =>
    -- the first byte looked at does not belong to an empty directory
    have hhead := hseen _ (isoWalk_head hwalk)
    simp only [List.length_nil] at hlen
    omega
  | cons s sectors =>
    have hat := biosCall_at mem d (hholds 0 s rfl)
    have hfits := s.fits
    rw [List.length_cons] at hlen
    -- without the name in the first sector the walk leaves it, and that byte is not in the sector
    by_contra hno
    have hq : ∀ r ∈ s.records, ¬ r.Matches name := fun r hr hm => hno ⟨s, rfl, r, hr, hm⟩
    have hend : d + 2048 ∈ seen := isoWalk_missed hext (by omega) hat (by omega) hq hwalk
    have hin := hseen _ hend
    omega

/-- An entry in the first sector is found. -/
theorem findsEntry_of_first (hdisk : OnDisk disk parent sectors)
    (h : ∃ s, sectors[0]? = some s ∧ ∃ r ∈ s.records, r.Matches name) :
    FindsEntry disk mem base parent name sectors := by
  obtain ⟨hlen, hext, hholds⟩ := hdisk
  obtain ⟨s, hs, hr⟩ := h
  unfold FindsEntry iso9660FindEntry
  dsimp only
  generalize u32 (base + parent.extentStartLsb * ISO_SECTOR_SIZE) = d
  intro fuel hfuel
  cases sectors with
  | nil => exact absurd hs (by simp)
  | cons s' sectors =>
    obtain rfl : s' = s := Option.some.inj hs
    have hat := biosCall_at mem d (hholds 0 s' hs)
    have hfits := s'.fits
    rw [List.length_cons] at hlen
    obtain ⟨q, hq⟩ := (lookupRecords_isSome d).mpr hr
    -- the records of the first sector are searched first
    have hfirst : lookupSectors name d (s' :: sectors) = some q := by
      rw [lookupSectors, hq]
      rfl
    unfold IsoSector.bytes at hat
    have hrecords : At (biosCall disk mem d parent.extentStartLsb) (d + 0)
        (s'.records.flatMap IsoRecord.bytes) := (at_append.mp hat).1
    obtain ⟨seen, hwalk, hseen⟩ :=
      isoWalk_found hext hrecords (by omega) hq (show _ < fuel by omega)
    -- what was looked at lies in the sector that was loaded
    refine ⟨seen, by rw [hfirst]; exact hwalk, fun a ha => ?_⟩
    have hin := hseen a ha
    omega

/-- The lookup is right exactly if the file is in the first sector of the directory. -/
theorem iso9660FindEntry_iff (disk : Nat → Nat → Byte) (mem : Nat → Byte) (base : Nat)
    (parent : IsoExtent)
    (name : CString) (sectors : List IsoSector) (hdisk : OnDisk disk parent sectors) :
    FindsEntry disk mem base parent name sectors ↔
      ∃ s, sectors[0]? = some s ∧ ∃ r ∈ s.records, r.Matches name :=
  ⟨FindsEntry.first hdisk, findsEntry_of_first hdisk⟩

/-- The record of a file whose name is one letter. -/
def isoRecord (letter : Byte) : IsoRecord where
  bytes := 34 :: List.replicate 31 0 ++ [1, letter]
  size := Nat.lt_of_le_of_lt (Nat.le_of_eq (show _ = 34 from rfl)) (by decide)
  length := rfl
  name := Nat.le_of_eq rfl

def isoSector (letter : Byte) : IsoSector where
  records := [isoRecord letter]
  fits := Nat.le_trans (Nat.le_of_eq (show _ = 34 from rfl)) (by decide)

/-- Sectors from sector 20 of the disk on. -/
def isoDisk (sectors : List IsoSector) (sector : Nat) (i : Nat) : Byte :=
  ((sectors[sector - 20]?.map IsoSector.bytes).getD []).getD i 0

/-- A directory of whole sectors on a disk. -/
theorem isoDisk_onDisk (sectors : List IsoSector) (h : 2048 * sectors.length < 4294967296) :
    OnDisk (isoDisk sectors) ⟨20, 2048 * sectors.length⟩ sectors := by
  refine ⟨rfl, h, ?_⟩
  intro i s hs j x hx
  unfold isoDisk
  rw [Nat.add_sub_cancel_left, hs, Option.map_some, Option.getD_some, List.getD_eq_getElem?_getD,
    Nat.zero_add, hx]
  rfl

/-- A directory of two sectors, and a name in the first one. -/
theorem iso9660FindEntry_letter :
    FindsEntry (isoDisk [isoSector 65, isoSector 66]) (fun _ => 0) 0x4000000
      ⟨20, 4096⟩ ⟨[65], by decide⟩
      [isoSector 65, isoSector 66] :=
  (iso9660FindEntry_iff _ _ _ _ _ _ (isoDisk_onDisk [isoSector 65, isoSector 66] (by decide))).2
    ⟨isoSector 65, rfl, isoRecord 65, List.mem_cons_self, by decide⟩

/-- A file of the second sector is not found there. -/
theorem iso9660FindEntry_second :
    ¬ FindsEntry (isoDisk [isoSector 65, isoSector 66]) (fun _ => 0) 0x4000000
      ⟨20, 4096⟩ ⟨[66], by decide⟩
      [isoSector 65, isoSector 66] := by
  intro h
  obtain ⟨s, hs, r, hr, hm⟩ := h.first (isoDisk_onDisk [isoSector 65, isoSector 66] (by decide))
  obtain rfl : isoSector 65 = s := Option.some.inj hs
  obtain rfl : r = isoRecord 65 := List.mem_singleton.mp hr
  exact absurd hm (by decide)

end MishaOS
