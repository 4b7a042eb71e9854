import MishaOS.Spec.VfsChain

/-!
# What the reader finds in an image

For a tree of files and directories, every path that leads to a file or a
directory of the tree is resolved by the reader to an entry of the image that
the writer has made, and a name that is not in a directory to a null pointer.
-/

namespace MishaOS

open Ring Bytes

/-! ## Trees -/

/-- The listing of a directory in a tree of files and directories: `.` and `..` come first,
    and the names behind them are distinct. -/
inductive TreeListing : List Dirent → Prop
  | intro {d₁ d₂ : Dirent} {rest : List Dirent} (dot : d₁.isDot = true) (dotdot : d₂.isDot = true)
      (names : ∀ d ∈ rest, d.isDot = false) (distinct : (rest.map Dirent.name).Nodup)
      (nodes : ∀ d ∈ rest, (∃ name content, d = .reg name (some content)) ∨
        ∃ name listing, d = .dir name listing)
      (below : ∀ name listing, .dir name listing ∈ rest → TreeListing listing) :
      TreeListing (d₁ :: d₂ :: rest)

/-- A regular file, or a directory with a tree below. -/
inductive Dirent.IsNode : Dirent → Prop
  | file (name : FileName) (content : List Byte) : (Dirent.reg name (some content)).IsNode
  | directory (name : FileName) {listing : List Dirent} (h : TreeListing listing) :
      (Dirent.dir name listing).IsNode

/-- The path leads from one node of a tree to another. -/
inductive Below : Dirent → List CString → Dirent → Prop
  | here {d : Dirent} : Below d [] d
  | step {name : FileName} {listing : List Dirent} {e d : Dirent} {path : List CString}
      (mem : e ∈ listing) (entry : e.isDot = false) (rest : Below e path d) :
      Below (.dir name listing) (e.name.toCString :: path) d

/-- Resolving a path component by component, from an entry. -/
def vfsResolve (fs : VfsFilesystem) : Nat → List CString → Option (Option Nat)
  | entry, [] => some (some entry)
  | entry, name :: path =>
    match vfsFindEntryIn fs entry name with
    | none => none
    | some none => some none
    | some (some entry) => vfsResolve fs entry path

/-- Resolving a path from the root: `vfs_find_entry`, and then `vfs_find_entry_in`. -/
def vfsOpen (fs : VfsFilesystem) : List CString → Option (Option Nat)
  | [] => some (some fs.rootEntry)
  | name :: path =>
    match vfsFindEntry fs name with
    | none => none
    | some none => some none
    | some (some entry) => vfsResolve fs entry path

/-- A path is resolved from the root on. -/
theorem vfsOpen_eq (fs : VfsFilesystem) (path : List CString) :
    vfsOpen fs path = vfsResolve fs fs.rootEntry path := by
  cases path <;> rfl

/-- The entry at `p` has the type of `d`, and for a file its size and its bytes. -/
structure Resolved (fs : VfsFilesystem) (p : Nat) (d : Dirent) : Prop where
  type : entryType fs.data p = d.type.code
  content : ∀ name content, d = .reg name (some content) →
    entrySize fs.data p = content.length ∧
      ∀ followLinks, ∃ q, vfsFileContent fs p followLinks = some q ∧
        Ring.slice fs.data q (entrySize fs.data p) = content

/-- A listing of `.`, `..` and archivable entries is archivable. -/
theorem listingArchivable_of_forall {l : List Dirent}
    (h : ∀ d ∈ l, d.isDot = true ∨ d.archivable = true) : listingArchivable l = true := by
  induction l with
  | nil => rfl
  | cons d rest ih =>
    rw [listingArchivable, Bool.and_eq_true, Bool.or_eq_true]
    exact ⟨h d List.mem_cons_self, ih fun d hd => h d (List.mem_cons_of_mem _ hd)⟩

/-- The writer gets through a tree. -/
theorem TreeListing.archivable {l : List Dirent} (h : TreeListing l) :
    listingArchivable l = true ∧ l ≠ [] := by
  induction h with
  | @intro d₁ d₂ rest dot dotdot names distinct nodes below ih =>
    constructor
    · apply listingArchivable_of_forall
      intro d hd
      rcases List.mem_cons.mp hd with rfl | hd
      · exact Or.inl dot
      rcases List.mem_cons.mp hd with rfl | hd
      · exact Or.inl dotdot
      right
      rcases nodes d hd with ⟨name, content, rfl⟩ | ⟨name, listing, rfl⟩
      · rfl
      · obtain ⟨harch, hne⟩ := ih name listing hd
        simp [Dirent.archivable, harch, hne]
    · exact List.cons_ne_nil _ _

/-! ## One directory -/

/-- The entry of `d` is at `p`, with its content behind it.  What links it to the other
    entries of its directory is left out. -/
structure Placed (data : Nat → Byte) (p : Nat) (d : Dirent) : Prop where
  offset : entryOffset data p = p
  type : entryType data p = d.type.code
  targetEntry : entryTargetEntry data p = d.targetEntry p
  size : entrySize data p = d.fileSize
  body : BodyLaid data d (p + sizeofEntry)
  fits : d.bodySize < 4294967296

/-- An entry in its place, with what belongs to it behind it. -/
theorem EntryAt.placed {data : Nat → Byte} {p : Nat} {d : Dirent} {more : Bool}
    (h : EntryAt data p (d.entry p more)) (hbody : BodyLaid data d (p + sizeofEntry))
    (hfits : d.bodySize < 4294967296) : Placed data p d :=
  { offset := h.offset
    type := h.type
    targetEntry := h.targetEntry
    size := h.size
    body := hbody
    fits := hfits }

/-- `strcmp` finds the name of an entry, and no other name. -/
theorem EntryAt.streq_iff {data : Nat → Byte} {p : Nat} {d : Dirent} {more : Bool}
    (h : EntryAt data p (d.entry p more)) (name : CString) :
    streq data (entryName p) name.bytes = true ↔ name = d.name.toCString := by
  constructor
  · intro heq
    exact CString.ext ((Bytes.streq_iff.mp heq).string_unique h.name name.noNull d.name.noNull)
  · intro heq
    rw [heq]
    exact Bytes.streq_iff.mpr h.name

/-- The first entry with the name that is looked for. -/
def findEntry (l : List Dirent) (name : CString) : Option Dirent :=
  l.find? fun d => d.name.toCString == name

/-- What is looked for is placed where the reader has found it. -/
def Found (data : Nat → Byte) : Option Dirent → Option Nat → Prop
  | none, none => True
  | some d, some p => Placed data p d
  | _, _ => False

/-- The walk along `next_entry` when no dots are left in the listing. -/
theorem vfsFindLoop_spec {data : Nat → Byte} {l : List Dirent} {p fuel : Nat} (name : CString)
    (hlaid : Laid data l p) (hne : l ≠ []) (hdots : ∀ d ∈ l, d.isDot = false) (hp : 0 < p)
    (hfits : listingSize l < 4294967296) (hfuel : l.length < fuel) :
    ∃ o, vfsFindLoop data name fuel p = some o ∧ Found data (findEntry l name) o := by
  induction l generalizing p fuel with
  | nil => exact absurd rfl hne
  | cons d rest ih =>
    have hdot := hdots d List.mem_cons_self
    obtain ⟨hentry, hbody, htail⟩ := (laid_cons hdot).mp hlaid
    rw [listingSize_cons hdot] at hfits
    rw [List.length_cons] at hfuel
    obtain ⟨fuel, rfl⟩ : ∃ k, fuel = k + 1 := ⟨fuel - 1, by omega⟩
    rw [vfsFindLoop, if_neg (by omega)]
    by_cases hname : name = d.name.toCString
    · rw [if_pos ((hentry.streq_iff name).mpr hname), hname]
      have hfind : findEntry (d :: rest) d.name.toCString = some d := by simp [findEntry]
      rw [hfind]
      exact ⟨some p, rfl, hentry.placed hbody (by omega)⟩
    · have hnext := hentry.nextEntry
      rw [if_neg fun h => hname ((hentry.streq_iff name).mp h)]
      have hfind : findEntry (d :: rest) name = findEntry rest name := by
        simp [findEntry, Ne.symm hname]
      rw [hfind]
      cases rest with
      | nil =>
        -- the last entry has no next one, and the loop ends in the next turn
        rw [show entryNextEntry data p = 0 from hnext]
        obtain ⟨fuel, rfl⟩ : ∃ k, fuel = k + 1 := ⟨fuel - 1, by simp at hfuel; omega⟩
        exact ⟨none, rfl, trivial⟩
      | cons d' rest =>
        rw [show entryNextEntry data p = p + sizeofEntry + d.bodySize from hnext]
        exact ih htail (by simp) (fun e he => hdots e (List.mem_cons_of_mem _ he)) (by omega)
          (by omega) (by omega)

/-- There are no more entries than bytes. -/
theorem length_le_listingSize {l : List Dirent} (h : ∀ d ∈ l, d.isDot = false) :
    l.length ≤ listingSize l := by
  induction l with
  | nil => simp
  | cons d rest ih =>
    have hrest := ih fun d hd => h d (List.mem_cons_of_mem _ hd)
    have hroom : sizeofEntry = 275 := rfl
    rw [listingSize_cons (h d List.mem_cons_self), List.length_cons]
    omega

/-- What is no link is not followed. -/
theorem vfsFollowLinks_of_type {fs : VfsFilesystem} {p : Nat}
    (h : entryType fs.data p ≠ VfsType.link.code) : vfsFollowLinks fs p = some p := by
  have hfuel : walkFuel = 4294967295 + 1 := rfl
  rw [vfsFollowLinks, hfuel, vfsFollowLinksLoop, if_neg h]

/-- The archive has no links. -/
theorem Dirent.type_ne_link (d : Dirent) : d.type.code ≠ VfsType.link.code := by
  cases d <;> simp [Dirent.type, VfsType.code]

/-- The entries behind the dots, or none when there is nothing behind them. -/
theorem vfsFindEntryIn_spec {fs : VfsFilesystem} {p : Nat} {name : FileName} {d₁ d₂ : Dirent}
    {rest : List Dirent} (n : CString) (hplaced : Placed fs.data p (.dir name (d₁ :: d₂ :: rest)))
    (hd₁ : d₁.isDot = true) (hd₂ : d₂.isDot = true) (hdots : ∀ d ∈ rest, d.isDot = false)
    (hn : n.bytes ≠ [46]) :
    ∃ o, vfsFindEntryIn fs p n = some o ∧ Found fs.data (findEntry rest n) o := by
  have htype := hplaced.type
  have htarget := hplaced.targetEntry
  have hfits := hplaced.fits
  have hbody := hplaced.body
  -- the two dots take no room in the archive
  rw [Dirent.targetEntry, listingSize_dot hd₁, listingSize_dot hd₂] at htarget
  rw [Dirent.bodySize, listingSize_dot hd₁, listingSize_dot hd₂] at hfits
  rw [BodyLaid, laid_dot hd₁, laid_dot hd₂] at hbody
  have hlen := length_le_listingSize hdots
  have hlink : entryType fs.data p ≠ VfsType.link.code := by
    rw [htype]
    exact Dirent.type_ne_link _
  rw [vfsFindEntryIn, vfsFollowLinks_of_type hlink]
  simp only [hn, if_false]
  -- nothing behind the dots, or a first entry where `target_entry` leads
  by_cases hempty : listingSize rest = 0
  · have hnil : rest = [] := List.length_eq_zero_iff.mp (by omega)
    rw [if_neg (by simp [hempty])] at htarget
    rw [if_pos (Or.inr htarget), hnil]
    exact ⟨none, rfl, trivial⟩
  · rw [if_pos hempty] at htarget
    have hnotdir : ¬ (entryType fs.data p ≠ VfsType.directory.code ∨
        entryTargetEntry fs.data p = 0) := by
      intro h
      cases h with
      | inl h => exact h htype
      | inr h => simp [htarget, sizeofEntry] at h
    have hne : rest ≠ [] := by
      intro hnil
      rw [hnil] at hempty
      exact hempty (by rw [listingSize])
    rw [if_neg hnotdir, htarget]
    exact vfsFindLoop_spec n hbody hne hdots (by simp [sizeofEntry]) hfits
      (by unfold walkFuel; omega)

/-! ## Paths -/

/-- Different names are different strings. -/
theorem FileName.ext_cstring {a b : FileName} (h : a.toCString = b.toCString) : a = b := by
  cases a
  cases b
  congr

/-- With distinct names, an entry is the one that is found under its name. -/
theorem findEntry_of_mem {l : List Dirent} {e : Dirent} (hnodup : (l.map Dirent.name).Nodup)
    (he : e ∈ l) : findEntry l e.name.toCString = some e := by
  -- along the list; the name stands in it once
  induction l with
  | nil => simp at he
  | cons d rest ih =>
    rw [List.map_cons, List.nodup_cons] at hnodup
    cases List.mem_cons.mp he with
    | inl heq => simp [findEntry, heq]
    | inr hmem =>
      have hne : d.name.toCString ≠ e.name.toCString := by
        intro h
        apply hnodup.1
        rw [FileName.ext_cstring h]
        exact List.mem_map_of_mem hmem
      have hskip : findEntry (d :: rest) e.name.toCString = findEntry rest e.name.toCString := by
        simp [findEntry, hne]
      rw [hskip]
      exact ih hnodup.2 hmem

/-- No entry has the name. -/
theorem findEntry_eq_none {l : List Dirent} {name : CString}
    (h : ∀ e ∈ l, e.name.toCString ≠ name) : findEntry l name = none := by
  rw [findEntry, List.find?_eq_none]
  intro e he
  simp [h e he]

/-- An entry in its place is what it says. -/
theorem Placed.resolved {fs : VfsFilesystem} {p : Nat} {d : Dirent} (h : Placed fs.data p d) :
    Resolved fs p d := by
  constructor
  · exact h.type
  -- a file is read from behind its entry
  · intro name content hd
    subst hd
    have hbody := h.body
    rw [BodyLaid, Option.getD_some] at hbody
    have hsize : entrySize fs.data p = content.length := h.size
    have hlink : entryType fs.data p ≠ VfsType.link.code := by
      rw [h.type]
      exact Dirent.type_ne_link _
    constructor
    · exact hsize
    · intro followLinks
      refine ⟨p + sizeofEntry, ?_, ?_⟩
      · cases followLinks <;> simp [vfsFileContent, vfsFollowLinks_of_type hlink, h.offset]
      · rw [hsize]
        exact hbody.slice_eq

/-- What a directory of the tree holds behind its dots. -/
theorem Dirent.IsNode.listing {name : FileName} {listing : List Dirent}
    (h : (Dirent.dir name listing).IsNode) : TreeListing listing := by
  cases h
  assumption

/-- The reader follows every path of the tree. -/
theorem vfsResolve_below {fs : VfsFilesystem} {d e : Dirent} {path : List CString} {p : Nat}
    (h : Below d path e) (hnode : d.IsNode) (hplaced : Placed fs.data p d) :
    ∃ q, vfsResolve fs p path = some (some q) ∧ Placed fs.data q e ∧ e.IsNode := by
  induction h generalizing p with
  | here => exact ⟨p, rfl, hplaced, hnode⟩
  | @step name listing e d path mem entry rest ih =>
    cases hnode.listing with
    | @intro d₁ d₂ rest dot dotdot names distinct nodes below =>
      -- `e` is not one of the dots
      have hmem : e ∈ rest := by
        rcases List.mem_cons.mp mem with rfl | mem
        · rw [entry] at dot
          contradiction
        rcases List.mem_cons.mp mem with rfl | mem
        · rw [entry] at dotdot
          contradiction
        exact mem
      have hname : e.name.bytes ≠ [46] := by
        intro h
        simp [Dirent.isDot, h] at entry
      have henode : e.IsNode := by
        rcases nodes e hmem with ⟨name, content, rfl⟩ | ⟨name, listing, rfl⟩
        · exact .file name content
        · exact .directory name (below name listing hmem)
      obtain ⟨o, hfind, hfound⟩ :=
        vfsFindEntryIn_spec e.name.toCString hplaced dot dotdot names hname
      rw [findEntry_of_mem distinct hmem] at hfound
      cases o with
      | none => exact absurd hfound id
      | some q =>
        rw [vfsResolve, hfind]
        exact ih henode hfound

/-- The reader finds nothing under a name that is not in a directory. -/
theorem vfsFindEntryIn_absent {fs : VfsFilesystem} {name : FileName} {listing : List Dirent}
    {p : Nat} {n : CString} (hnode : (Dirent.dir name listing).IsNode)
    (hplaced : Placed fs.data p (.dir name listing)) (hn : n.bytes ≠ [46])
    (habsent : ∀ e ∈ listing, e.isDot = false → e.name.toCString ≠ n) :
    vfsFindEntryIn fs p n = some none := by
  cases hnode.listing with
  | @intro d₁ d₂ rest dot dotdot names distinct nodes below =>
    obtain ⟨o, hfind, hfound⟩ := vfsFindEntryIn_spec n hplaced dot dotdot names hn
    have hnone : findEntry rest n = none := by
      apply findEntry_eq_none
      intro e he
      exact habsent e (by simp [he]) (names e he)
    rw [hnone] at hfound
    cases o with
    | none => exact hfind
    | some q => exact absurd hfound id

/-! ## The whole image -/

/-- The source directory, whose own name is not in the image. -/
def rootDirent (listing : List Dirent) : Dirent := .dir ⟨⟨[], by simp⟩, by simp⟩ listing

/-- Bytes of the image of a tree. -/
def imageSize (listing : List Dirent) : Nat := sizeofHeader + sizeofEntry + listingSize listing

/-- Every header has the same size. -/
theorem VfsHeader.length_bytes {junk : Nat → Byte} {h : VfsHeader} (hlabel : h.label.length ≤ 16) :
    (h.bytes junk).length = sizeofHeader := by
  simp only [VfsHeader.bytes, le16, List.length_append, List.length_take, Ring.length_slice,
    length_le32, List.length_cons, List.length_nil, sizeofHeader]
  omega

/-- What the reader finds in a header, and that it accepts it. -/
theorem vfsReadFilesystem_spec {data junk : Nat → Byte} {h : VfsHeader}
    (hat : At data 0 (h.bytes junk)) (hlabel : h.label.length ≤ 16)
    (hsig : h.signature = VFS_SIGNATURE) (hver : h.version = 1)
    (hsize : sizeofFilesystem ≤ h.size) (hsize' : h.size < 4294967296)
    (hroot : h.rootEntry < 4294967296) :
    ∃ fs, vfsReadFilesystem data = some fs ∧ fs.data = data ∧ fs.rootEntry = h.rootEntry := by
  -- the label is filled up to its sixteen bytes, so the fields are where the reader looks
  have hpad : ((h.label ++ [0] ++
      Ring.slice junk (h.label.length + 4) (15 - h.label.length)).take 16).length = 16 := by
    simp only [List.length_take, List.length_append, Ring.length_slice, List.length_cons,
      List.length_nil]
    omega
  simp only [VfsHeader.bytes, List.append_assoc] at hat
  simp only [List.append_assoc] at hpad
  obtain ⟨h0, hat⟩ := at_append.mp hat
  obtain ⟨h2, hat⟩ := at_append.mp hat
  obtain ⟨-, hat⟩ := at_append.mp hat
  obtain ⟨h19, h23⟩ := at_append.mp hat
  simp only [hpad, le16, List.length_cons, List.length_nil, length_le32, Nat.zero_add] at h2 h19 h23
  -- what the reader checks, and what it takes over
  have hs : word16 data 0 = VFS_SIGNATURE := by
    rw [word16_le16 h0 (by rw [hsig]; decide), hsig]
  have hv : (data 2).toNat = 1 := by
    rw [(at_cons.mp h2).1, hver]
    rfl
  have hz : word32 data 19 = h.size := word32_le32 h19 hsize'
  have hr : word32 data 23 = h.rootEntry := word32_le32 h23 hroot
  refine ⟨{ signature := VFS_SIGNATURE, version := 1, size := h.size
            rootEntry := h.rootEntry, data := data }, ?_, rfl, rfl⟩
  rw [vfsReadFilesystem]
  simp only [hs, hv, hz, hr, ne_eq, not_true_eq_false, if_false]
  rw [if_neg (by omega)]

/-- The entry of the source directory. -/
def rootBytes (junk : Nat → Byte) (listing : List Dirent) : List Byte :=
  ((rootDirent listing).entry sizeofHeader false).bytes fun i => junk (sizeofHeader + i)

/-- The image when `create_directory` is called for the source directory. -/
def mkvfsStart (junk : Nat → Byte) (listing : List Dirent) : OutFile :=
  { data := blit (fun _ => 0) sizeofHeader (rootBytes junk listing)
    pos := sizeofHeader + sizeofEntry }

/-- The header once the size is known. -/
def mkvfsHeader (label : Label) (listing : List Dirent) : VfsHeader :=
  { signature := VFS_SIGNATURE, version := 1, label := label.bytes
    size := imageSize listing, rootEntry := sizeofHeader }

/-- So has every root entry. -/
theorem length_rootBytes (junk : Nat → Byte) (listing : List Dirent) :
    (rootBytes junk listing).length = sizeofEntry :=
  VfsEntry.length_bytes (rootDirent listing).name.len

/-- The archive is the header, the root entry and the directory. -/
theorem mkvfs_eq {listing : List Dirent} {junk : Nat → Byte} {label : Label} {fuel : Nat}
    {r : OutFile × Nat}
    (hr : createEntries junk fuel (mkvfsStart junk listing) listing 0 = some r)
    (hcount : r.2 = listingSize listing) (hroot : listingSize listing ≠ 0)
    (hsize : imageSize listing < 4294967296) :
    mkvfs junk fuel label (some listing) =
      some (blit r.1.data 0 ((mkvfsHeader label listing).bytes junk)) := by
  -- the root entry is written once, its size is known before
  have hentry : (rootDirent listing).entry sizeofHeader false =
      { name := [], offset := sizeofHeader, type := .directory, nextEntry := 0
        targetEntry := sizeofHeader + sizeofEntry, size := 0 } := by
    simp [Dirent.entry, rootDirent, Dirent.name, Dirent.type, Dirent.targetEntry,
      Dirent.fileSize, hroot]
  have hlen := length_rootBytes junk listing
  have hstart : (OutFile.fseekCur { data := fun _ => 0, pos := 0 } sizeofHeader).fwrite
      (rootBytes junk listing) = mkvfsStart junk listing := by
    simp [OutFile.fwrite, mkvfsStart, OutFile.fseekCur, hlen]
  rw [rootBytes, hentry] at hstart
  -- the size of the image does not wrap
  have hcount' : u32 (sizeofHeader + sizeofEntry + r.2) = imageSize listing := by
    rw [hcount]
    exact u32_of_lt hsize
  rw [mkvfs]
  simp only [createDirectory, hstart, hr, hcount']
  rfl

/-- The image that `main` writes: the header is read back, and the entry of the source
    directory is in its place with all its content. -/
theorem mkvfs_spec {listing : List Dirent} (junk : Nat → Byte) (label : Label) {fuel : Nat}
    (harch : listingArchivable listing = true) (hne : listing ≠ [])
    (hroot : listingSize listing ≠ 0) (hsize : imageSize listing < 4294967296)
    (hfuel : listingWeight listing ≤ fuel) :
    ∃ data fs, mkvfs junk fuel label (some listing) = some data ∧
      vfsReadFilesystem data = some fs ∧ fs.data = data ∧ fs.rootEntry = sizeofHeader ∧
      Placed data sizeofHeader (rootDirent listing) := by
  obtain ⟨r, hr⟩ := createEntries_terminates junk (mkvfsStart junk listing) 0 hne harch hfuel
  have hroom : sizeofEntry = 275 := rfl
  have hhead : sizeofHeader = 27 := rfl
  have himage : imageSize listing = sizeofHeader + sizeofEntry + listingSize listing := rfl
  have hcreated := createEntries_spec hr (by simp only [mkvfsStart]; omega) (by omega)
  have hlen : ((mkvfsHeader label listing).bytes junk).length = sizeofHeader :=
    VfsHeader.length_bytes label.len
  have hrootlen := length_rootBytes junk listing
  generalize hdata : blit r.1.data 0 ((mkvfsHeader label listing).bytes junk) = data
  -- the header is written over the first bytes only
  have hlater : ∀ a, sizeofHeader ≤ a → data a = r.1.data a := by
    intro a ha
    rw [← hdata]
    exact blit_outside (Or.inr (by omega))
  have hheader : At data 0 ((mkvfsHeader label listing).bytes junk) := by
    rw [← hdata]
    exact blit_at
  obtain ⟨fs, hread, hfs, hrootEntry⟩ := vfsReadFilesystem_spec hheader label.len rfl rfl
    (show 32 ≤ imageSize listing by omega) hsize (show sizeofHeader < 4294967296 by decide)
  have hat : At data sizeofHeader (rootBytes junk listing) := by
    have hstart : At (mkvfsStart junk listing).data sizeofHeader (rootBytes junk listing) :=
      blit_at
    apply hstart.congr
    intro a ha hlt
    rw [hlater a ha]
    exact hcreated.appended.frame a (Or.inl (by simp only [mkvfsStart]; omega))
  have hentry : EntryAt data sizeofHeader ((rootDirent listing).entry sizeofHeader false) := by
    apply EntryAt.of_bytes hat (rootDirent listing).name.len
      (show sizeofHeader < 4294967296 by decide) (show 0 < 4294967296 by decide)
    · simp only [Dirent.entry, rootDirent, Dirent.targetEntry]
      split <;> omega
    · exact Nat.zero_lt_succ _
  refine ⟨data, fs, ?_, hread, hfs, hrootEntry, hentry.placed ?_ ?_⟩
  · rw [mkvfs_eq hr (hcreated.count.trans (Nat.zero_add _)) hroot hsize, hdata]
  · rw [rootDirent, BodyLaid]
    exact hcreated.laid.congr fun a ha _ => hlater a (Nat.le_trans (Nat.le_add_right _ _) ha)
  · rw [rootDirent, Dirent.bodySize]
    omega

/-- A listing with an entry takes room. -/
theorem listingSize_ne_zero {l : List Dirent} {d : Dirent} (hmem : d ∈ l)
    (hdot : d.isDot = false) : listingSize l ≠ 0 := by
  induction l with
  | nil => simp at hmem
  | cons e rest ih =>
    rw [listingSize]
    cases List.mem_cons.mp hmem with
    | inl heq =>
      rw [← heq, if_neg (by simp [hdot])]
      simp [sizeofEntry]
    | inr hmem =>
      have hrest := ih hmem
      omega

/-- Every tree below 4 GiB whose root is not empty comes back: the image is accepted, every
    path of the tree leads to an entry with the type, the size and the bytes that the source
    has there, and a name that is not in a directory leads nowhere. -/
theorem mkvfs_round_trip (junk : Nat → Byte) (label : Label) (listing : List Dirent)
    (htree : TreeListing listing) (hroot : ∃ d ∈ listing, d.isDot = false)
    (hsize : imageSize listing < 4294967296) :
    ∃ n, ∀ fuel ≥ n, ∃ data fs, mkvfs junk fuel label (some listing) = some data ∧
      vfsReadFilesystem data = some fs ∧
      ∀ path d, Below (rootDirent listing) path d →
        ∃ p, vfsOpen fs path = some (some p) ∧ Resolved fs p d ∧
          ∀ name listing n, d = .dir name listing → n.bytes ≠ [46] →
            (∀ e ∈ listing, e.isDot = false → e.name.toCString ≠ n) →
            vfsFindEntryIn fs p n = some none := by
  obtain ⟨harch, hne⟩ := htree.archivable
  obtain ⟨e, he, hdot⟩ := hroot
  have hnonempty := listingSize_ne_zero he hdot
  refine ⟨listingWeight listing, fun fuel hfuel => ?_⟩
  obtain ⟨data, fs, hrun, hread, hdata, hentry, hplaced⟩ :=
    mkvfs_spec junk label harch hne hnonempty hsize hfuel
  refine ⟨data, fs, hrun, hread, ?_⟩
  intro path d hpath
  have hnode : (rootDirent listing).IsNode := .directory _ htree
  rw [← hdata] at hplaced
  rw [vfsOpen_eq, hentry]
  obtain ⟨p, hresolve, hp, hd⟩ := vfsResolve_below hpath hnode hplaced
  -- the path leads from the root entry to the entry of `d`
  refine ⟨p, hresolve, hp.resolved, ?_⟩
  intro name listing n heq hn habsent
  subst heq
  exact vfsFindEntryIn_absent hd hp hn habsent

/-- A file `a` and an empty directory `b`. -/
def smallTree : List Dirent :=
  dirents ++ [.reg nameA (some [104, 105]), .dir ⟨⟨[98], by decide⟩, by decide⟩ dirents]

/-- A directory with a file and a subdirectory. -/
theorem dirents_treeListing : TreeListing dirents :=
  .intro rfl rfl (by simp) (by simp) (by simp) (by simp)

/-- A tree of two levels. -/
theorem smallTree_treeListing : TreeListing smallTree := by
  apply TreeListing.intro rfl rfl
  · decide
  · decide
  · simp
  · intro name listing hmem
    have heq : listing = dirents := by
      rcases List.mem_cons.mp hmem with h | h
      · cases h
      · cases List.mem_singleton.mp h
        rfl
    rw [heq]
    exact dirents_treeListing

/-- A file in a subdirectory is found again. -/
theorem mkvfs_round_trip_small :
    ∃ n, ∀ fuel ≥ n, ∃ data fs,
      mkvfs (fun _ => 0) fuel ⟨⟨[], List.not_mem_nil⟩, Nat.zero_le _⟩ (some smallTree) = some data ∧
      vfsReadFilesystem data = some fs ∧
      ∃ p, vfsOpen fs [nameA.toCString] = some (some p) ∧
        entrySize fs.data p = 2 := by
  obtain ⟨n, hn⟩ := mkvfs_round_trip (fun _ => 0) ⟨⟨[], List.not_mem_nil⟩, Nat.zero_le _⟩ smallTree
    smallTree_treeListing ⟨.reg nameA (some [104, 105]), by simp [smallTree], by decide⟩ (by decide)
  refine ⟨n, fun fuel hfuel => ?_⟩
  obtain ⟨data, fs, hrun, hread, hpaths⟩ := hn fuel hfuel
  have hpath : Below (rootDirent smallTree) [nameA.toCString] (.reg nameA (some [104, 105])) :=
    .step (e := .reg nameA (some [104, 105])) (by simp [smallTree]) (by decide) .here
  obtain ⟨p, hopen, hres, -⟩ := hpaths _ _ hpath
  exact ⟨data, fs, hrun, hread, p, hopen, (hres.content _ _ rfl).1⟩

end MishaOS
