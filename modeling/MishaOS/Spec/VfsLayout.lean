import MishaOS.Native.Mkvfs

/-!
# Where the writer puts what

An entry is followed by its content: the bytes of a file, or the entries of a
directory one after another.  `Laid data l p` says that the entries of the
listing `l` stand in the image from `p` on.  The writer leaves room for an entry,
writes its content and then goes back to fill the room in; `createEntries_spec`
says that this comes to `Laid`, and that nothing outside is touched.
-/

namespace MishaOS

open Ring Bytes

/-! ## Sizes -/

mutual

/-- Bytes between an entry and what follows it. -/
def Dirent.bodySize : Dirent → Nat
  | .reg _ content => (content.getD []).length
  | .dir _ listing => listingSize listing
  | .closed _ | .lnk _ | .other _ => 0

/-- Bytes of all entries of a listing, with their content. -/
def listingSize : List Dirent → Nat
  | [] => 0
  | d :: rest => (if d.isDot then 0 else sizeofEntry + d.bodySize) + listingSize rest

end

def Dirent.type : Dirent → VfsType
  | .reg _ _ => .file
  | _ => .directory

/-- `target_entry` of the entry at `p`. -/
def Dirent.targetEntry (p : Nat) : Dirent → Nat
  | .dir _ listing => if listingSize listing ≠ 0 then p + sizeofEntry else 0
  | _ => 0

/-- `size` of the entry. -/
def Dirent.fileSize : Dirent → Nat
  | .reg _ content => (content.getD []).length
  | _ => 0

/-- The entry at `p`; `more` says whether `readdir` has returned something behind it. -/
def Dirent.entry (d : Dirent) (p : Nat) (more : Bool) : VfsEntry :=
  { name := d.name.bytes
    offset := p
    type := d.type
    nextEntry := if more then p + sizeofEntry + d.bodySize else 0
    targetEntry := d.targetEntry p
    size := d.fileSize }

/-! ## Entries in an image -/

/-- The reader finds the fields of `e` at `p`. -/
structure EntryAt (data : Nat → Byte) (p : Nat) (e : VfsEntry) : Prop where
  name : At data (entryName p) (e.name ++ [0])
  offset : entryOffset data p = e.offset
  type : entryType data p = e.type.code
  nextEntry : entryNextEntry data p = e.nextEntry
  targetEntry : entryTargetEntry data p = e.targetEntry
  size : entrySize data p = e.size

/-- Every entry has the same size. -/
theorem VfsEntry.length_bytes {junk : Nat → Byte} {e : VfsEntry} (hname : e.name.length ≤ 255) :
    (e.bytes junk).length = sizeofEntry := by
  simp only [VfsEntry.bytes, List.length_append, Ring.length_slice, length_le32, List.length_cons,
    List.length_nil, sizeofEntry]
  omega

/-- The type is one byte. -/
theorem VfsType.code_lt (t : VfsType) : t.code < 256 := by
  cases t <;> decide

/-- What the writer copies from its stack is what the reader finds. -/
theorem EntryAt.of_bytes {data junk : Nat → Byte} {p : Nat} {e : VfsEntry}
    (h : At data p (e.bytes junk)) (hname : e.name.length ≤ 255)
    (hoffset : e.offset < 4294967296) (hnext : e.nextEntry < 4294967296)
    (htarget : e.targetEntry < 4294967296) (hsize : e.size < 4294967296) : EntryAt data p e := by
  have hpad : e.name.length + 1 + (255 - e.name.length) = 256 := by omega
  simp only [VfsEntry.bytes, List.append_assoc] at h
  obtain ⟨-, h⟩ := at_append.mp h
  obtain ⟨hn, h⟩ := at_append.mp h
  obtain ⟨hnul, h⟩ := at_append.mp h
  obtain ⟨-, h⟩ := at_append.mp h
  obtain ⟨ho, h⟩ := at_append.mp h
  obtain ⟨ht, h⟩ := at_append.mp h
  obtain ⟨-, h⟩ := at_append.mp h
  obtain ⟨hx, h⟩ := at_append.mp h
  obtain ⟨hg, hs⟩ := at_append.mp h
  -- the places of the fields, once the name is padded to its 256 bytes
  simp only [List.length_cons, List.length_nil, Ring.length_slice, length_le32, Nat.zero_add] at *
  have hplace : p + 1 + e.name.length + 1 + (255 - e.name.length) = p + 257 := by omega
  rw [hplace] at ho ht hx hg hs
  have htype := (at_cons.mp ht).1
  exact
    { name := at_append.mpr ⟨hn, hnul⟩
      offset := word32_le32 ho hoffset
      type := by
        rw [entryType, htype, BitVec.toNat_ofNat]
        exact Nat.mod_eq_of_lt e.type.code_lt
      nextEntry := word32_le32 hx hnext
      targetEntry := word32_le32 hg htarget
      size := word32_le32 hs hsize }

/-- Only the bytes of the entry matter. -/
theorem EntryAt.congr {data data' : Nat → Byte} {p : Nat} {e : VfsEntry} (h : EntryAt data p e)
    (hname : e.name.length ≤ 255)
    (hdata : ∀ a, p ≤ a → a < p + sizeofEntry → data' a = data a) : EntryAt data' p e := by
  -- every field is read from the bytes of the entry
  have hword : ∀ k, k + 4 ≤ 275 → word32 data' (p + k) = word32 data (p + k) := by
    intro k hk
    simp only [word32, sizeofEntry] at hdata ⊢
    rw [hdata (p + k) (by omega) (by omega), hdata (p + k + 1) (by omega) (by omega),
      hdata (p + k + 2) (by omega) (by omega), hdata (p + k + 3) (by omega) (by omega)]
  constructor
  · apply h.name.congr
    intro a ha hlt
    simp only [entryName, List.length_append, List.length_cons, List.length_nil] at ha hlt
    exact hdata a (by omega) (by unfold sizeofEntry; omega)
  · exact (hword 257 (by decide)).trans h.offset
  · have hbyte : data' (p + 261) = data (p + 261) :=
      hdata (p + 261) (by omega) (by unfold sizeofEntry; omega)
    rw [entryType, hbyte]
    exact h.type
  · exact (hword 263 (by decide)).trans h.nextEntry
  · exact (hword 267 (by decide)).trans h.targetEntry
  · exact (hword 271 (by decide)).trans h.size

/-! ## Listings in an image -/

mutual

/-- The content of the entry before `p` stands at `p`. -/
def BodyLaid (data : Nat → Byte) : Dirent → Nat → Prop
  | .reg _ content, p => At data p (content.getD [])
  | .dir _ listing, p => Laid data listing p
  | .closed _, _ | .lnk _, _ | .other _, _ => True

/-- The entries of the listing stand from `p` on, each with its content. -/
def Laid (data : Nat → Byte) : List Dirent → Nat → Prop
  | [], _ => True
  | d :: rest, p =>
    if d.isDot then Laid data rest p
    else EntryAt data p (d.entry p !rest.isEmpty) ∧ BodyLaid data d (p + sizeofEntry) ∧
      Laid data rest (p + sizeofEntry + d.bodySize)

end

/-- `.` and `..` are left out. -/
theorem laid_dot {data : Nat → Byte} {d : Dirent} {rest : List Dirent} {p : Nat}
    (h : d.isDot = true) : Laid data (d :: rest) p ↔ Laid data rest p := by
  rw [Laid, if_pos h]

/-- An entry, what belongs to it, and the rest of the directory. -/
theorem laid_cons {data : Nat → Byte} {d : Dirent} {rest : List Dirent} {p : Nat}
    (h : d.isDot = false) :
    Laid data (d :: rest) p ↔ EntryAt data p (d.entry p !rest.isEmpty) ∧
      BodyLaid data d (p + sizeofEntry) ∧ Laid data rest (p + sizeofEntry + d.bodySize) := by
  rw [Laid, if_neg (by simp [h])]

/-- `.` and `..` take no room. -/
theorem listingSize_dot {d : Dirent} {rest : List Dirent} (h : d.isDot = true) :
    listingSize (d :: rest) = listingSize rest := by
  rw [listingSize, if_pos h, Nat.zero_add]

/-- The room of an entry, of what belongs to it and of the rest. -/
theorem listingSize_cons {d : Dirent} {rest : List Dirent} (h : d.isDot = false) :
    listingSize (d :: rest) = sizeofEntry + d.bodySize + listingSize rest := by
  rw [listingSize, if_neg (by simp [h])]

mutual

/-- Only the bytes of the body matter. -/
theorem BodyLaid.congr {data data' : Nat → Byte} :
    ∀ {d : Dirent} {p : Nat}, BodyLaid data d p →
      (∀ a, p ≤ a → a < p + d.bodySize → data' a = data a) → BodyLaid data' d p
  | .reg _ _, _, h, hdata => by
    rw [BodyLaid] at h ⊢
    exact h.congr hdata
  | .dir _ listing, p, h, hdata => by
    rw [BodyLaid] at h ⊢
    exact Laid.congr h hdata
  | .closed _, _, _, _ | .lnk _, _, _, _ | .other _, _, _, _ => by
    rw [BodyLaid]
    trivial

/-- Only the bytes of the listing matter. -/
theorem Laid.congr {data data' : Nat → Byte} :
    ∀ {l : List Dirent} {p : Nat}, Laid data l p →
      (∀ a, p ≤ a → a < p + listingSize l → data' a = data a) → Laid data' l p
  | [], _, _, _ => by
    rw [Laid]
    trivial
  | d :: rest, p, h, hdata => by
    by_cases hdot : d.isDot = true
    · rw [laid_dot hdot] at h ⊢
      rw [listingSize_dot hdot] at hdata
      exact Laid.congr h hdata
    · rw [Bool.not_eq_true] at hdot
      rw [laid_cons hdot] at h ⊢
      rw [listingSize_cons hdot] at hdata
      obtain ⟨hentry, hbody, hrest⟩ := h
      have hroom : sizeofEntry = 275 := rfl
      exact ⟨hentry.congr d.name.len fun a ha hlt => hdata a ha (by omega),
        BodyLaid.congr hbody fun a ha hlt => hdata a (by omega) (by omega),
        Laid.congr hrest fun a ha hlt => hdata a (by omega) (by omega)⟩

end

/-! ## Copying a file -/

/-- The position behind `fseek`. -/
@[simp] theorem OutFile.fseekCur_pos (file : OutFile) (n : Nat) :
    (file.fseekCur n).pos = file.pos + n := by
  show (file.pos + (n : Int)).toNat = _
  omega

/-- `file'` differs from `file` only in the `n` bytes that were written at the position. -/
structure Appended (file file' : OutFile) (n : Nat) : Prop where
  pos : file'.pos = file.pos + n
  frame : ∀ a, a < file.pos ∨ file.pos + n ≤ a → file'.data a = file.data a

/-- Nothing has been written. -/
theorem Appended.rfl {file : OutFile} : Appended file file 0 :=
  ⟨Eq.refl _, fun _ _ => Eq.refl _⟩

/-- Two pieces are written one after the other. -/
theorem Appended.trans {file file' file'' : OutFile} {m n : Nat} (h : Appended file file' m)
    (h' : Appended file' file'' n) : Appended file file'' (m + n) := by
  constructor
  · rw [h'.pos, h.pos, Nat.add_assoc]
  · intro a ha
    have hpos := h.pos
    rw [h'.frame a (by omega), h.frame a (by omega)]

/-- One piece is written. -/
theorem Appended.fwrite (file : OutFile) (l : List Byte) :
    Appended file (file.fwrite l) l.length :=
  ⟨Eq.refl _, fun _ ha => blit_outside ha⟩

/-- The loop copies the file up to its end. -/
theorem copyLoop_spec (fuel : Nat) (file : OutFile) (content : List Byte) (size : Nat)
    (hfuel : content.length < fuel) (hsize : size + content.length < 4294967296) :
    (copyLoop fuel file content size).2 = size + content.length ∧
      Appended file (copyLoop fuel file content size).1 content.length ∧
      At (copyLoop fuel file content size).1.data file.pos content := by
  -- in pieces of 1024 bytes
  induction fuel generalizing file content size with
  | zero => omega
  | succ fuel ih =>
    rw [copyLoop]
    -- nothing is left to read
    by_cases hend : (content.take 1024).length = 0
    · have hnil : content = [] := by
        have hlen := List.length_take (i := 1024) (l := content)
        exact List.length_eq_zero_iff.mp (by omega)
      rw [if_pos hend, hnil]
      exact ⟨rfl, Appended.rfl, at_nil⟩
    · rw [if_neg hend]
      have hlen : content.length = (content.take 1024).length + (content.drop 1024).length := by
        rw [← List.length_append, List.take_append_drop]
      have hadd : u32 (size + (content.take 1024).length) = size + (content.take 1024).length :=
        u32_of_lt (by omega)
      -- the count does not wrap, since the file is shorter than 4 GiB
      have happ := Appended.fwrite file (content.take 1024)
      obtain ⟨hcount, hrest, hat⟩ := ih (file.fwrite (content.take 1024))
        (content.drop 1024) (size + (content.take 1024).length) (by omega) (by omega)
      rw [hadd]
      constructor
      · rw [hcount, hlen, Nat.add_assoc]
      constructor
      · rw [hlen]
        exact happ.trans hrest
      · -- the piece just written is before everything that is written later
        have hpiece : At (file.fwrite (content.take 1024)).data file.pos (content.take 1024) :=
          blit_at
        have hsplit := at_append.mpr ⟨hpiece.congr fun a _ ha =>
          hrest.frame a (Or.inl (by rw [happ.pos]; exact ha)), by rwa [happ.pos] at hat⟩
        rwa [List.take_append_drop] at hsplit

/-- A file is copied and its size returned. -/
theorem copyFile_spec (file : OutFile) (content : List Byte)
    (hsize : content.length < 4294967296) :
    (copyFile file content).2 = content.length ∧
      Appended file (copyFile file content).1 content.length ∧
      At (copyFile file content).1.data file.pos content := by
  have h := copyLoop_spec (content.length + 1) file content 0 (Nat.lt_succ_self _) (by omega)
  rwa [Nat.zero_add] at h

/-! ## What a call returns -/

mutual

/-- The branch on `d_type` comes to an end: the content can be read, and nothing below is
    a link or a special file, or a directory without even `.` and `..`. -/
def Dirent.archivable : Dirent → Bool
  | .reg _ content => content.isSome
  | .dir _ listing => !listing.isEmpty && listingArchivable listing
  | .closed _ => true
  | .lnk _ | .other _ => false

def listingArchivable : List Dirent → Bool
  | [] => true
  | d :: rest => (d.isDot || d.archivable) && listingArchivable rest

end

/-- What a call of `create_directory` that returns has done. -/
structure Created (file : OutFile) (l : List Dirent) (r : OutFile × Nat) (written : Nat) :
    Prop where
  count : r.2 = written + listingSize l
  appended : Appended file r.1 (listingSize l)
  laid : Laid r.1.data l file.pos
  archivable : listingArchivable l = true

/-! ## One entry -/

/-- The entry at `p` before it is known what follows. -/
def Dirent.child (d : Dirent) (p : Nat) : VfsEntry :=
  { name := d.name.bytes
    offset := p
    type := d.type
    nextEntry := 0
    targetEntry := d.targetEntry p
    size := d.bodySize }

/-- What is assigned before the branches on `d_type`. -/
def Dirent.blank (d : Dirent) (p : Nat) : VfsEntry :=
  { name := d.name.bytes, offset := p, type := .file, nextEntry := 0, targetEntry := 0, size := 0 }

/-- The branches on `d_type` that write an entry. -/
theorem createChild_spec {recurse : OutFile → List Dirent → Option (OutFile × Nat)} {d : Dirent}
    {p : Nat} {file file' : OutFile} {child : VfsEntry}
    (h : createChild recurse (d.blank p) file d = some (file', child))
    (hfits : p + sizeofEntry + d.bodySize < 4294967296)
    (hrec : ∀ name listing file' size, d = .dir name listing →
      recurse file listing = some (file', size) →
      listing ≠ [] ∧ Created file listing (file', size) 0) :
    child = d.child p ∧ Appended file file' d.bodySize ∧ BodyLaid file'.data d file.pos ∧
      d.archivable = true := by
  -- a file, a directory, an entry that cannot be opened; the others are not written
  cases d with
  | reg name content =>
    cases content with
    | none => simp [createChild] at h
    | some content =>
      have hlen : (Dirent.reg name (some content)).bodySize = content.length := by
        rw [Dirent.bodySize, Option.getD_some]
      obtain ⟨hcount, happ, hat⟩ := copyFile_spec file content (by omega)
      simp only [createChild, Option.some.injEq, Prod.mk.injEq] at h
      obtain ⟨rfl, rfl⟩ := h
      rw [Dirent.child, hlen, hcount, BodyLaid, Dirent.archivable]
      exact ⟨rfl, happ, hat, rfl⟩
  | dir name listing =>
    have hlen : (Dirent.dir name listing).bodySize = listingSize listing := by
      rw [Dirent.bodySize]
    simp only [createChild] at h
    -- the call for the directory succeeded
    cases hcall : recurse file listing with
    | none => simp [hcall] at h
    | some r =>
      obtain ⟨hne, hcreated⟩ := hrec name listing r.1 r.2 rfl hcall
      have hsize : r.2 = listingSize listing := hcreated.count.trans (Nat.zero_add _)
      simp only [hcall, Option.some.injEq, Prod.mk.injEq] at h
      obtain ⟨rfl, rfl⟩ := h
      have htarget : u32 (p + sizeofEntry) = p + sizeofEntry := u32_of_lt (by omega)
      have harch : (!listing.isEmpty && listingArchivable listing) = true := by
        simp [hne, hcreated.archivable]
      rw [Dirent.child, Dirent.targetEntry, hlen, BodyLaid, Dirent.archivable, hsize]
      refine ⟨?_, hcreated.appended, hcreated.laid, harch⟩
      simp only [Dirent.blank, Dirent.type, htarget]
  | closed name =>
    simp only [createChild, Option.some.injEq, Prod.mk.injEq] at h
    obtain ⟨rfl, rfl⟩ := h
    rw [Dirent.child, Dirent.bodySize, BodyLaid, Dirent.archivable]
    exact ⟨rfl, Appended.rfl, trivial, rfl⟩
  | lnk name => simp [createChild] at h
  | other name => simp [createChild] at h

/-- The entry as it is written back at the end. -/
theorem Dirent.entry_eq (d : Dirent) (p : Nat) (more : Bool) :
    d.entry p more = { d.child p with
      nextEntry := if more then p + sizeofEntry + d.bodySize else 0
      size := if d.type = .directory then 0 else d.bodySize } := by
  cases d <;> simp [Dirent.entry, Dirent.child, Dirent.type, Dirent.fileSize, Dirent.bodySize]

/-- The entry is filled in, and the position is again behind the content. -/
theorem closeChild_spec {file : OutFile} {d : Dirent} {p : Nat} (junk : Nat → Byte) (more : Bool)
    (hpos : file.pos = p + sizeofEntry + d.bodySize) (hfits : file.pos < 4294967296) :
    (closeChild junk more file (d.child p)).2 = sizeofEntry + d.bodySize ∧
      (closeChild junk more file (d.child p)).1 =
        { data := blit file.data p ((d.entry p more).bytes fun i => junk (p + i))
          pos := file.pos } := by
  have hnext : u32 (p + sizeofEntry + d.bodySize) = p + sizeofEntry + d.bodySize :=
    u32_of_lt (by omega)
  have hcur : u32 file.pos = file.pos := u32_of_lt hfits
  rw [Dirent.entry_eq]
  cases more <;> by_cases htype : d.type = .directory <;>
    simp [closeChild, OutFile.fseekSet, OutFile.fwrite, Dirent.child, htype, hcur, hnext]

/-! ## The loop -/

/-- The link and special file branches, which go to `skip_entry`. -/
def Dirent.skipped : Dirent → Bool
  | .lnk _ | .other _ => true
  | _ => false

/-- The loop ends when `readdir` has returned nothing further. -/
def onward (junk : Nat → Byte) (fuel : Nat) (file : OutFile) (written : Nat) :
    List Dirent → Option (OutFile × Nat)
  | [] => some (file, written)
  | rest => createEntries junk fuel file rest written

section

variable {junk : Nat → Byte} {fuel written : Nat} {file : OutFile} {d : Dirent}
  {rest : List Dirent}

/-- `.` and `..` are skipped. -/
theorem createEntries_dot (h : d.isDot = true) :
    createEntries junk (fuel + 1) file (d :: rest) written =
      onward junk fuel file written rest := by
  cases rest with
  | nil => rw [createEntries, if_pos h, onward]
  | cons d' rest =>
    rw [createEntries, if_pos h]
    · rfl
    · simp

/-- The same entry is looked at again, from the same position. -/
theorem createEntries_skip (hdot : d.isDot = false) (h : d.skipped = true) :
    createEntries junk (fuel + 1) file (d :: rest) written =
      createEntries junk fuel file (d :: rest) written := by
  have hback : (file.fseekCur sizeofEntry).fseekCur (-sizeofEntry) = file := by
    have hpos : (((file.pos + (sizeofEntry : Int)).toNat : Int) + -sizeofEntry).toNat =
        file.pos := by
      omega
    rw [OutFile.fseekCur, OutFile.fseekCur, hpos]
  cases d with
  | lnk _ => cases rest <;> simp [createEntries, hdot, hback]
  | other _ => cases rest <;> simp [createEntries, hdot, hback]
  | _ => simp [Dirent.skipped] at h

/-- An entry is written, then what belongs to it, then the entry once more. -/
theorem createEntries_entry (hdot : d.isDot = false) (h : d.skipped = false) :
    createEntries junk (fuel + 1) file (d :: rest) written =
      (createChild (fun file listing => createEntries junk fuel file listing 0)
        (d.blank (u32 file.pos)) (file.fseekCur sizeofEntry) d).bind fun r =>
        onward junk fuel (closeChild junk (!rest.isEmpty) r.1 r.2).1
          (u32 (written + (closeChild junk (!rest.isEmpty) r.1 r.2).2)) rest := by
  -- links and the like are skipped, the others are written in the same way
  cases d with
  | lnk _ => simp [Dirent.skipped] at h
  | other _ => simp [Dirent.skipped] at h
  | _ =>
    cases rest with
    | nil =>
      simp only [createEntries, hdot, Dirent.blank, Bool.false_eq_true, if_false]
      split
      · next hnone => rw [hnone]; rfl
      · next hsome => rw [hsome]; rfl
    | cons d' rest =>
      simp only [createEntries, hdot, Dirent.blank, Bool.false_eq_true, if_false]
      split
      · next hnone => rw [hnone]; rfl
      · next hsome => rw [hsome]; rfl

end

/-! ## When the loop ends -/

mutual

/-- Number of directory entries below. -/
def Dirent.weight : Dirent → Nat
  | .dir _ listing => listingWeight listing
  | _ => 0

def listingWeight : List Dirent → Nat
  | [] => 0
  | d :: rest => 1 + d.weight + listingWeight rest

end

/-- What belongs into the archive is not skipped. -/
theorem Dirent.skipped_of_archivable {d : Dirent} (h : d.archivable = true) :
    d.skipped = false := by
  cases d with
  | lnk _ => simp [Dirent.archivable] at h
  | other _ => simp [Dirent.archivable] at h
  | _ => rfl

/-- One turn of the loop for each directory entry is enough. -/
theorem createEntries_terminates {fuel : Nat} {l : List Dirent} (junk : Nat → Byte)
    (file : OutFile) (written : Nat) (hne : l ≠ []) (h : listingArchivable l = true)
    (hfuel : listingWeight l ≤ fuel) :
    ∃ r, createEntries junk fuel file l written = some r := by
  induction fuel generalizing l file written with
  -- no turn is left, so there was no entry
  | zero =>
    cases l with
    | nil => exact absurd rfl hne
    | cons d rest => simp [listingWeight] at hfuel
  | succ fuel ih =>
    cases l with
    | nil => exact absurd rfl hne
    | cons d rest =>
      rw [listingArchivable, Bool.and_eq_true] at h
      rw [listingWeight] at hfuel
      -- the rest of the listing needs one turn less
      have honward : ∀ file written, ∃ r, onward junk fuel file written rest = some r := by
        intro file written
        cases rest with
        | nil => exact ⟨_, rfl⟩
        | cons d' rest => exact ih _ _ (by simp) h.2 (by omega)
      by_cases hdot : d.isDot = true
      · rw [createEntries_dot hdot]
        exact honward _ _
      · rw [Bool.not_eq_true] at hdot
        have harch : d.archivable = true := by simpa [hdot] using h.1
        rw [createEntries_entry hdot (Dirent.skipped_of_archivable harch)]
        have hchild : ∃ r, createChild (fun file listing => createEntries junk fuel file listing 0)
            (d.blank (u32 file.pos)) (file.fseekCur sizeofEntry) d = some r := by
          cases d with
          | reg name content =>
            cases content with
            | none => simp [Dirent.archivable] at harch
            | some content => exact ⟨_, rfl⟩
          | dir name listing =>
            rw [Dirent.archivable, Bool.and_eq_true] at harch
            rw [Dirent.weight] at hfuel
            obtain ⟨r, hr⟩ := ih (l := listing) (file.fseekCur sizeofEntry) 0
              (by simpa using harch.1) harch.2 (by omega)
            rw [createChild, hr]
            exact ⟨_, rfl⟩
          | closed name => exact ⟨_, rfl⟩
          | lnk name => simp [Dirent.archivable] at harch
          | other name => simp [Dirent.archivable] at harch
        obtain ⟨r, hr⟩ := hchild
        rw [hr]
        exact honward _ _

/-! ## What the loop writes -/

/-- The content of `d` is written, the entry is filled in, and the loop goes on. -/
theorem Created.entry {junk : Nat → Byte} {written : Nat} {file file' : OutFile} {d : Dirent}
    {rest : List Dirent} {r : OutFile × Nat} (hdot : d.isDot = false)
    (harch : d.archivable = true)
    (happ : Appended (file.fseekCur sizeofEntry) file' d.bodySize)
    (hbody : BodyLaid file'.data d (file.pos + sizeofEntry))
    (hfits : file.pos + sizeofEntry + d.bodySize < 4294967296)
    (hrest : Created
      { data := blit file'.data file.pos ((d.entry file.pos !rest.isEmpty).bytes junk)
        pos := file'.pos }
      rest r (written + (sizeofEntry + d.bodySize))) : Created file (d :: rest) r written := by
  have hlen : ((d.entry file.pos !rest.isEmpty).bytes junk).length = sizeofEntry :=
    VfsEntry.length_bytes d.name.len
  have hskip := file.fseekCur_pos sizeofEntry
  have hpos : file'.pos = file.pos + (sizeofEntry + d.bodySize) := by
    rw [happ.pos, hskip, Nat.add_assoc]
  -- the entry is written over the room left for it
  have hentry : Appended file
      { data := blit file'.data file.pos ((d.entry file.pos !rest.isEmpty).bytes junk)
        pos := file'.pos } (sizeofEntry + d.bodySize) := by
    constructor
    · exact hpos
    · intro a ha
      show blit _ _ _ a = _
      rw [blit_outside (by omega), happ.frame a (by omega)]
      rfl
  have hlater := hrest.appended.frame
  have htarget : d.targetEntry file.pos ≤ file.pos + sizeofEntry := by
    cases d <;> simp only [Dirent.targetEntry] <;> first | split <;> omega | omega
  have hsize : d.fileSize ≤ d.bodySize := by
    cases d <;> simp [Dirent.fileSize, Dirent.bodySize]
  have hnext : (d.entry file.pos !rest.isEmpty).nextEntry < 4294967296 := by
    simp only [Dirent.entry]
    split <;> omega
  constructor
  -- count, place, bytes, and that everything could be archived
  · rw [hrest.count, listingSize_cons hdot, Nat.add_assoc]
  · rw [listingSize_cons hdot]
    exact hentry.trans hrest.appended
  · rw [laid_cons hdot]
    constructor
    · -- the loop that follows writes behind the entry
      have hat : At r.1.data file.pos ((d.entry file.pos !rest.isEmpty).bytes junk) := by
        apply blit_at.congr
        intro a ha hlt
        exact hlater a (Or.inl (by simp only; omega))
      exact EntryAt.of_bytes hat d.name.len (by simp only [Dirent.entry]; omega) hnext
        (by simp only [Dirent.entry]; omega) (by simp only [Dirent.entry]; omega)
    constructor
    -- the content is behind the entry, where nothing is written any more
    · apply hbody.congr
      intro a ha hlt
      rw [hlater a (Or.inl (by simp only; omega))]
      exact blit_outside (by omega)
    · have hlaid := hrest.laid
      simp only [hpos] at hlaid
      rwa [Nat.add_assoc]
  · rw [listingArchivable, harch, Bool.or_true, Bool.true_and]
    exact hrest.archivable

/-- What the loop over a directory writes. -/
theorem createEntries_spec {junk : Nat → Byte} {fuel written : Nat} {file : OutFile}
    {l : List Dirent} {r : OutFile × Nat}
    (h : createEntries junk fuel file l written = some r)
    (hfits : file.pos + listingSize l < 4294967296)
    (hwritten : written + listingSize l < 4294967296) : Created file l r written := by
  induction fuel generalizing file l written r with
  | zero => simp [createEntries] at h
  | succ fuel ih =>
    cases l with
    | nil => simp [createEntries] at h
    | cons d rest =>
      -- the loop behind `d`, from wherever it starts
      have honward : ∀ {file written}, onward junk fuel file written rest = some r →
          file.pos + listingSize rest < 4294967296 →
          written + listingSize rest < 4294967296 → Created file rest r written := by
        intro file written h hfits hwritten
        cases rest with
        | nil =>
          obtain rfl := Option.some.inj h
          exact ⟨by rw [listingSize]; rfl, by rw [listingSize]; exact Appended.rfl,
            by rw [Laid]; trivial, rfl⟩
        | cons d' rest => exact ih h hfits hwritten
      by_cases hdot : d.isDot = true
      · rw [createEntries_dot hdot] at h
        rw [listingSize_dot hdot] at hfits hwritten
        have hrest := honward h hfits hwritten
        constructor
        · rw [listingSize_dot hdot]
          exact hrest.count
        · rw [listingSize_dot hdot]
          exact hrest.appended
        · rw [laid_dot hdot]
          exact hrest.laid
        · rw [listingArchivable, hdot, Bool.true_or, Bool.true_and]
          exact hrest.archivable
      · rw [Bool.not_eq_true] at hdot
        by_cases hskip : d.skipped = true
        · rw [createEntries_skip hdot hskip] at h
          exact ih h hfits hwritten
        · rw [Bool.not_eq_true] at hskip
          rw [createEntries_entry hdot hskip] at h
          rw [listingSize_cons hdot] at hfits hwritten
          obtain ⟨c, hc, h⟩ := Option.bind_eq_some_iff.mp h
          have hoffset : u32 file.pos = file.pos := u32_of_lt (by omega)
          have hskippos := file.fseekCur_pos sizeofEntry
          rw [hoffset] at hc
          -- a directory below is the induction hypothesis
          obtain ⟨hchild, happ, hbody, harch⟩ := createChild_spec hc (by omega) (by
            intro name listing file' size hd hcall
            rw [hd, Dirent.bodySize] at hfits hwritten
            constructor
            · intro hnil
              rw [hnil] at hcall
              cases fuel <;> simp [createEntries] at hcall
            · exact ih hcall (by omega) (by omega))
          have hcpos : c.1.pos = file.pos + sizeofEntry + d.bodySize := by
            rw [happ.pos, hskippos]
          obtain ⟨hcount, hclose⟩ := closeChild_spec junk (!rest.isEmpty) hcpos
            (by omega)
          rw [hchild, hcount, hclose, u32_of_lt (by omega)] at h
          rw [hskippos] at hbody
          exact Created.entry hdot harch happ hbody (by omega)
            (honward h (by simp only; omega) (by omega))

end MishaOS
