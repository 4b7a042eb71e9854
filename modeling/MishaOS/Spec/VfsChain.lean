import Mathlib.Tactic.Common
import MishaOS.ForStd.LinkedList
import MishaOS.Spec.VfsLayout

/-!
# The entries of a directory

The entries that `create_directory` writes for one directory are linked through
`next_entry`.  Whether an entry is the last one is decided by whether `readdir`
returned anything further, and a link or a special file is looked at again and
again, so the chain is right only for some listings; this module says for which.
-/

namespace MishaOS

open LinkedList Ring Bytes

/-- The regular files and sub-directories of a listing. -/
def entriesOf (l : List Dirent) : List Dirent := l.filter fun d => !d.isDot && !d.skipped

/-- The entry at `p` is the one of `d`. -/
def IsEntryOf (data : Nat → Byte) (p : Nat) (d : Dirent) : Prop :=
  At data (entryName p) (d.name.bytes ++ [0]) ∧ entryType data p = d.type.code

/-- The chain from `p` on visits the regular files and sub-directories of `l`, in some
    order, each once.  A directory without any has no chain. -/
def ChainOf (data : Nat → Byte) (p : Nat) (l : List Dirent) : Prop :=
  entriesOf l = [] ∨ ∃ ps es, Chain (entryNextEntry data) 0 p ps ∧ es.Perm (entriesOf l) ∧
    List.Forall₂ (IsEntryOf data) ps es

/-- `create_directory` terminates, and the chain of the directory is right. -/
def DirectoryWritten (junk : Nat → Byte) (file : OutFile) (l : List Dirent) : Prop :=
  ∃ n, ∀ fuel ≥ n, ∃ r, createDirectory junk fuel file (some l) = some r ∧
    ChainOf r.1.data file.pos l

/-- The entries fit below 4 GiB, behind what is in the image already. -/
def Fits (file : OutFile) (l : List Dirent) : Prop :=
  0 < file.pos ∧ file.pos + listingSize l < 4294967296

/-- `.` or `..` come last, behind at least one entry. -/
def endsInDots (l : List Dirent) : Bool := !(entriesOf l).isEmpty && l.getLast?.any Dirent.isDot

/-- The listings that `create_directory` can handle. -/
def Listable (l : List Dirent) : Prop :=
  l ≠ [] ∧ listingArchivable l = true ∧ endsInDots l = false

instance (l : List Dirent) : Decidable (Listable l) :=
  decidable_of_iff (l.isEmpty = false ∧ listingArchivable l = true ∧ endsInDots l = false)
    (and_congr_left' List.isEmpty_eq_false_iff)

/-! ## Listings -/

section

variable {data : Nat → Byte} {d : Dirent} {rest l : List Dirent} {p : Nat}

theorem entriesOf_dot (h : d.isDot = true) : entriesOf (d :: rest) = entriesOf rest := by
  simp [entriesOf, h]

theorem entriesOf_cons (hdot : d.isDot = false) (h : d.archivable = true) :
    entriesOf (d :: rest) = d :: entriesOf rest := by
  simp [entriesOf, hdot, Dirent.skipped_of_archivable h]

theorem listingArchivable_cons :
    listingArchivable (d :: rest) = true ↔
      (d.isDot = true ∨ d.archivable = true) ∧ listingArchivable rest = true := by
  rw [listingArchivable, Bool.and_eq_true, Bool.or_eq_true]

/-! ## Chains -/

/-- Where the entries of a listing stand. -/
def entryPositions : List Dirent → Nat → List Nat
  | [], _ => []
  | d :: rest, p =>
    if d.isDot then entryPositions rest p
    else p :: entryPositions rest (p + sizeofEntry + d.bodySize)

theorem entryPositions_entries (hlaid : Laid data l p) (harch : listingArchivable l = true) :
    List.Forall₂ (IsEntryOf data) (entryPositions l p) (entriesOf l) := by
  induction l generalizing p with
  | nil => exact List.Forall₂.nil
  | cons d rest ih =>
    obtain ⟨hd, hrest⟩ := listingArchivable_cons.mp harch
    by_cases hdot : d.isDot = true
    · rw [entriesOf_dot hdot, entryPositions, if_pos hdot]
      exact ih ((laid_dot hdot).mp hlaid) hrest
    · rw [Bool.not_eq_true] at hdot
      obtain ⟨hentry, -, htail⟩ := (laid_cons hdot).mp hlaid
      rw [entriesOf_cons hdot (by simpa [hdot] using hd), entryPositions, if_neg (by simp [hdot])]
      exact List.Forall₂.cons ⟨hentry.name, hentry.type⟩ (ih htail hrest)

/-- When an entry comes last, it is also the last of the chain. -/
theorem entryPositions_chain (hlaid : Laid data l p) (harch : listingArchivable l = true)
    (hne : l ≠ []) (hlast : l.getLast?.any Dirent.isDot = false) (hp : 0 < p) :
    Chain (entryNextEntry data) 0 p (entryPositions l p) := by
  -- along the listing, each entry linking to where the next one was written
  induction l generalizing p with
  | nil => exact absurd rfl hne
  | cons d rest ih =>
    obtain ⟨hd, hrest⟩ := listingArchivable_cons.mp harch
    by_cases hdot : d.isDot = true
    · rw [entryPositions, if_pos hdot]
      cases rest with
      | nil => simp [hdot] at hlast
      | cons d' rest =>
        exact ih ((laid_dot hdot).mp hlaid) hrest (by simp) (by simpa using hlast) hp
    · rw [Bool.not_eq_true] at hdot
      obtain ⟨hentry, -, htail⟩ := (laid_cons hdot).mp hlaid
      have hnext := hentry.nextEntry
      rw [entryPositions, if_neg (by simp [hdot])]
      refine ⟨rfl, by omega, ?_⟩
      -- the last entry links to zero
      cases rest with
      | nil => exact hnext
      | cons d' rest =>
        rw [show entryNextEntry data p = p + sizeofEntry + d.bodySize from hnext]
        exact ih htail hrest (by simp) (by simpa using hlast) (by omega)

/-- When a dot comes last, the last entry points behind itself, so a chain of the right
    length does not end there. -/
theorem chain_last {ps : List Nat} (hlaid : Laid data l p) (harch : listingArchivable l = true)
    (hp : 0 < p) (hchain : Chain (entryNextEntry data) 0 p ps)
    (hlen : ps.length = (entriesOf l).length) : l.getLast?.any Dirent.isDot = false := by
  induction l generalizing p ps with
  | nil => rfl
  | cons d rest ih =>
    obtain ⟨hd, hrest⟩ := listingArchivable_cons.mp harch
    obtain ⟨ps, rfl, htail⟩ := hchain.exists_cons (by omega)
    by_cases hdot : d.isDot = true
    · rw [entriesOf_dot hdot] at hlen
      cases rest with
      | nil => simp [entriesOf] at hlen
      | cons d' rest => simpa using ih ((laid_dot hdot).mp hlaid) hrest hp hchain hlen
    · rw [Bool.not_eq_true] at hdot
      rw [entriesOf_cons hdot (by simpa [hdot] using hd)] at hlen
      obtain ⟨hentry, -, hlaid'⟩ := (laid_cons hdot).mp hlaid
      have hnext := hentry.nextEntry
      cases rest with
      | nil => simp [hdot]
      | cons d' rest =>
        rw [show entryNextEntry data p = p + sizeofEntry + d.bodySize from hnext] at htail
        simpa using ih hlaid' hrest (by omega) htail (by simpa using hlen)

end

/-! ## Calls -/

section

variable {junk : Nat → Byte} {file : OutFile} {l : List Dirent}

theorem DirectoryWritten.of_listable (h : Listable l) (hfits : Fits file l) :
    DirectoryWritten junk file l := by
  obtain ⟨hne, harch, hends⟩ := h
  refine ⟨listingWeight l, fun fuel hfuel => ?_⟩
  obtain ⟨r, hr⟩ := createEntries_terminates junk file 0 hne harch hfuel
  have hcreated := createEntries_spec hr hfits.2 (by have := hfits.2; omega)
  refine ⟨r, hr, ?_⟩
  by_cases hnone : entriesOf l = []
  · exact Or.inl hnone
  · have hlast : l.getLast?.any Dirent.isDot = false := by simpa [endsInDots, hnone] using hends
    exact Or.inr ⟨entryPositions l file.pos, entriesOf l,
      entryPositions_chain hcreated.laid harch hne hlast hfits.1, List.Perm.refl _,
      entryPositions_entries hcreated.laid harch⟩

theorem DirectoryWritten.listable (h : DirectoryWritten junk file l) (hfits : Fits file l) :
    Listable l := by
  obtain ⟨n, hn⟩ := h
  obtain ⟨r, hr, hchain⟩ := hn n le_rfl
  have hne : l ≠ [] := by
    intro hnil
    rw [hnil] at hr
    cases n <;> simp [createDirectory, createEntries] at hr
  have hcreated := createEntries_spec hr hfits.2 (by have := hfits.2; omega)
  refine ⟨hne, hcreated.archivable, ?_⟩
  cases hchain with
  | inl hnone => simp [endsInDots, hnone]
  | inr hsome =>
    obtain ⟨ps, es, hps, hperm, hentries⟩ := hsome
    have hlen : ps.length = (entriesOf l).length := by
      rw [hentries.length_eq, hperm.length_eq]
    rw [endsInDots, chain_last hcreated.laid hcreated.archivable hfits.1 hps hlen, Bool.and_false]

end

/-- Below 4 GiB, `create_directory` does what it should exactly on the listings that hold
    no link and no special file, here or below, are not empty, and do not end in a dot
    behind an entry. -/
theorem createDirectory_written_iff (junk : Nat → Byte) (file : OutFile) (l : List Dirent)
    (hfits : Fits file l) : DirectoryWritten junk file l ↔ Listable l :=
  ⟨fun h => h.listable hfits, fun h => DirectoryWritten.of_listable h hfits⟩

/-- The entries `.` and `..` that every directory has. -/
def dirents : List Dirent :=
  [.dir ⟨⟨[46], by decide⟩, by decide⟩ [], .dir ⟨⟨[46, 46], by decide⟩, by decide⟩ []]

/-- The name `a`. -/
def nameA : FileName := ⟨⟨[97], by decide⟩, by decide⟩

/-- The image when `main` calls `create_directory`. -/
def emptyImage : OutFile := { data := fun _ => 0, pos := 302 }

theorem createDirectory_dots_first :
    DirectoryWritten (fun _ => 0) emptyImage (dirents ++ [.reg nameA (some [104, 105])]) :=
  (createDirectory_written_iff _ emptyImage (dirents ++ [.reg nameA (some [104, 105])])
    ⟨by decide, by decide⟩).mpr (by decide)

/-- The loop never leaves a link, and `next_entry` of the last entry is not null when the
    dots come last. -/
theorem createDirectory_link_or_dots_last :
    ¬ DirectoryWritten (fun _ => 0) emptyImage (dirents ++ [.lnk nameA]) ∧
      ¬ DirectoryWritten (fun _ => 0) emptyImage (.reg nameA (some [104, 105]) :: dirents) := by
  constructor
  · intro h
    exact absurd (h.listable ⟨by decide, by decide⟩) (by decide)
  · intro h
    exact absurd (h.listable ⟨by decide, by decide⟩) (by decide)

end MishaOS
