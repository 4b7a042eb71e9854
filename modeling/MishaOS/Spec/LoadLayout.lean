import MishaOS.Spec.DirRun
import MishaOS.Spec.LoadBytes

/-!
# Which layouts are loaded right

The loading loop copies every segment to the start of a page and gives it pages
of its own.  A segment with contents that starts inside a page is therefore
shifted, and a page that two segments share is only right for the later one.

## Key results

- `bytesAgree_iff`: the layouts for which every file is loaded right.
- `segmentsLoaded_iff`: a file is loaded right when the pages that are seen bring
  the bytes of the segments.
- `exec_load_iff`: both together, for the loading loop of `exec`.
-/

namespace MishaOS

variable {m : Paging} {s : LoadMem} {bytes data : Nat → Byte} {d a i j k x : Nat} {g h : ElfSegment}
  {p : ElfSegment × Nat} {hs l l₁ l₂ : List ElfSegment} {L L' : List (ElfSegment × Nat)}

/-- Every byte of a segment is seen at its address. -/
def ElfSegment.Loaded (h : ElfSegment) (data : Nat → Byte) (s : LoadMem) (d : Nat) : Prop :=
  ∀ k < h.memsz, s.byteAt d (u32 (h.vaddr + k)) = some (h.byte data k)

def SegmentsLoaded (data : Nat → Byte) (hs : List ElfSegment) (s : LoadMem) (d : Nat) : Prop :=
  ∀ h ∈ loadable hs, h.Loaded data s d

/-- The address ranges of the segments do not overlap. -/
structure ElfLayout (hs : List ElfSegment) : Prop where
  filesz : ∀ h ∈ loadable hs, h.filesz ≤ h.memsz
  apart : (loadable hs).Pairwise fun g h =>
    ∀ i < g.memsz, ∀ k < h.memsz, u32 (g.vaddr + i) ≠ u32 (h.vaddr + k)

/-- No page of the segments has been mapped. -/
def Unmapped (m : Paging) (d : Nat) (hs : List ElfSegment) : Prop :=
  ∀ h ∈ loadable hs, ∀ k < h.memsz, pagePresent m d (u32 (h.vaddr + k)) = false

/-- The page that the loop maps last at the address of a byte brings that byte
    from the file. -/
def BytesAgree (data : Nat → Byte) (hs : List ElfSegment) : Prop :=
  ∀ h ∈ loadable hs, ∀ k < h.memsz, ∃ p,
    lastLoad (pagesOf (loadable hs)) (u32 (h.vaddr + k)) = some p ∧
      p.1.byte data (p.2 * 4096 + u32 (h.vaddr + k) % 0x1000) = h.byte data k

/-- Contents start at a page, in a page that no later segment maps, and every
    page that a segment reaches is mapped. -/
structure PagesApart (hs : List ElfSegment) : Prop where
  aligned : ∀ h ∈ loadable hs, 0 < h.filesz → h.vaddr % 0x1000 = 0
  kept : (loadable hs).Pairwise fun h g =>
    ∀ k < h.filesz, ∀ v ∈ g.pages, v / 0x1000 ≠ u32 (h.vaddr + k) / 0x1000
  reached : ∀ h ∈ loadable hs, ∀ k < h.memsz,
    ∃ g ∈ loadable hs, ∃ v ∈ g.pages, v / 0x1000 = u32 (h.vaddr + k) / 0x1000

instance (hs : List ElfSegment) : Decidable (ElfLayout hs) :=
  decidable_of_iff (_ ∧ _) ⟨fun h => ⟨h.1, h.2⟩, fun h => ⟨h.filesz, h.apart⟩⟩

instance (hs : List ElfSegment) : Decidable (PagesApart hs) :=
  decidable_of_iff (_ ∧ _ ∧ _) ⟨fun h => ⟨h.1, h.2.1, h.2.2⟩,
    fun h => ⟨h.aligned, h.kept, h.reached⟩⟩

/-! ## The last page at an address -/

/-- Of two rounds for a page the last one counts. -/
theorem lastLoad_append (L L' : List (ElfSegment × Nat)) (a : Nat) :
    lastLoad (L ++ L') a = (lastLoad L' a).or (lastLoad L a) := by
  rw [lastLoad, List.reverse_append, List.find?_append]
  rfl

/-- It is a round for the page. -/
theorem lastLoad_mem (hlast : lastLoad (pagesOf l) a = some p) :
    p.1 ∈ l ∧ p.2 < p.1.pageCount ∧ loadAddress p / 0x1000 = a / 0x1000 := by
  obtain ⟨hmem, hlt⟩ := mem_pagesOf.mp (List.mem_reverse.mp (List.mem_of_find?_eq_some hlast))
  exact ⟨hmem, hlt, by simpa using List.find?_some hlast⟩

/-- There is one if a segment has the page. -/
theorem lastLoad_ne_none :
    lastLoad (pagesOf l) a ≠ none ↔ ∃ g ∈ l, ∃ v ∈ g.pages, v / 0x1000 = a / 0x1000 := by
  constructor
  · intro hne
    obtain ⟨p, hp⟩ := Option.ne_none_iff_exists'.mp hne
    obtain ⟨hmem, hlt, hpage⟩ := lastLoad_mem hp
    exact ⟨p.1, hmem, loadAddress p, mem_pages.mpr ⟨p.2, hlt, rfl⟩, hpage⟩
  · intro ⟨g, hg, v, hv, hpage⟩ hnone
    obtain ⟨i, hi, rfl⟩ := mem_pages.mp hv
    have hmem : (g, i) ∈ pagesOf l := mem_pagesOf.mpr ⟨hg, hi⟩
    have hno := List.find?_eq_none.mp hnone _ (List.mem_reverse.mpr hmem)
    simp [hpage] at hno

/-- The segments behind `h`, then `h` itself, then those before it. -/
theorem lastLoad_split (l₁ l₂ : List ElfSegment) (h : ElfSegment) (a : Nat) :
    lastLoad (pagesOf (l₁ ++ h :: l₂)) a =
      ((lastLoad (pagesOf l₂) a).or (lastLoad (pagesOf [h]) a)).or (lastLoad (pagesOf l₁) a) := by
  rw [← lastLoad_append, ← lastLoad_append]
  congr 1
  simp [pagesOf]

/-! ## The place of a byte -/

/-- The pages cover the size in memory. -/
theorem memsz_le (h : ElfPhdr) : h.memsz ≤ h.pageCount * 4096 := by
  unfold ElfPhdr.pageCount
  split <;> omega

/-- An aligned segment has its bytes where its pages put them. -/
theorem place_of_aligned (hp : p.1.vaddr % 0x1000 = 0) (hpage : loadAddress p / 0x1000 = a / 0x1000)
    (ha : a < 4294967296) : u32 (p.1.vaddr + (p.2 * 4096 + a % 0x1000)) = a := by
  unfold loadAddress at hpage
  unfold u32 at *
  omega

/-- In an aligned segment the page of a byte is found from its number. -/
theorem page_of_aligned (hp : p.1.vaddr % 0x1000 = 0) (hcount : p.1.pageCount < 1048576)
    (hk : k < p.1.memsz) (hj : p.2 < p.1.pageCount)
    (hpage : loadAddress p / 0x1000 = u32 (p.1.vaddr + k) / 0x1000) :
    p.2 * 4096 + u32 (p.1.vaddr + k) % 0x1000 = k := by
  have hle := memsz_le p.1.toElfPhdr
  unfold loadAddress at hpage
  unfold u32 at *
  omega

/-- A segment at a page boundary has all its pages. -/
theorem self_covers (hh : h.vaddr % 0x1000 = 0) (hk : k < h.memsz) :
    ∃ v ∈ h.pages, v / 0x1000 = u32 (h.vaddr + k) / 0x1000 := by
  have hle := memsz_le h.toElfPhdr
  refine ⟨loadAddress (h, k / 4096), mem_pages.mpr ⟨k / 4096, by omega, rfl⟩, ?_⟩
  unfold loadAddress u32
  dsimp only
  omega

/-- An aligned segment has no contents outside its own addresses. -/
theorem filesz_le_place (hfile : p.1.filesz ≤ p.1.memsz)
    (halign : 0 < p.1.filesz → p.1.vaddr % 0x1000 = 0)
    (hpage : loadAddress p / 0x1000 = a / 0x1000) (ha : a < 4294967296)
    (hout : ∀ i < p.1.memsz, u32 (p.1.vaddr + i) ≠ a) : p.1.filesz ≤ p.2 * 4096 + a % 0x1000 := by
  by_contra hlt
  have hp := halign (by omega)
  exact hout _ (by omega) (place_of_aligned hp hpage ha)

/-- Behind the contents there are zeros. -/
theorem byte_eq_zero (hk : h.filesz ≤ k) : h.byte data k = 0 := by
  rw [ElfSegment.byte, if_neg (by omega)]

/-- Two places have the same byte in every file. -/
theorem byte_eq_of_forall (hall : ∀ data, g.byte data x = h.byte data k) :
    (x < g.filesz ↔ k < h.filesz) ∧ (k < h.filesz → u32 (g.offset + x) = u32 (h.offset + k)) := by
  constructor
  · -- a file of ones
    have hone := hall fun _ => 1
    unfold ElfSegment.byte at hone
    constructor
    · intro hx
      by_contra hk
      simp [hx, hk] at hone
    · intro hk
      by_contra hx
      simp [hx, hk] at hone
  · intro hk
    -- a file with one mark
    have hmark := hall fun n => if n = u32 (h.offset + k) then 1 else 0
    unfold ElfSegment.byte at hmark
    by_contra hne
    simp [hk, hne] at hmark

/-! ## Layouts -/

section

variable (hlayout : ElfLayout hs)
include hlayout

/-- A byte of `h` is not a byte of another segment. -/
theorem ElfLayout.later (hsplit : loadable hs = l₁ ++ h :: l₂) (hg : g ∈ l₂) (hk : k < h.memsz) :
    ∀ i < g.memsz, u32 (g.vaddr + i) ≠ u32 (h.vaddr + k) := by
  intro i hi heq
  have hpair := (List.pairwise_append.mp (hsplit ▸ hlayout.apart)).2.1
  exact (List.pairwise_cons.mp hpair).1 g hg k hk i hi heq.symm

/-- No other segment reaches there. -/
theorem ElfLayout.earlier (hsplit : loadable hs = l₁ ++ h :: l₂) (hg : g ∈ l₁) (hk : k < h.memsz) :
    ∀ i < g.memsz, u32 (g.vaddr + i) ≠ u32 (h.vaddr + k) := by
  intro i hi
  have hpair := (List.pairwise_append.mp (hsplit ▸ hlayout.apart)).2.2
  exact hpair g hg h List.mem_cons_self i hi k hk

/-- A file of such a layout is loaded right. -/
theorem PagesApart.bytesAgree (hapart : PagesApart hs)
    (hcount : ∀ h ∈ loadable hs, h.pageCount < 1048576)
    (data : Nat → Byte) : BytesAgree data hs := by
  intro h hh k hk
  have ha := u32_lt (h.vaddr + k)
  obtain ⟨p, hp⟩ := Option.ne_none_iff_exists'.mp (lastLoad_ne_none.mpr (hapart.reached h hh k hk))
  refine ⟨p, hp, ?_⟩
  obtain ⟨hg, hj, hpage⟩ := lastLoad_mem hp
  obtain ⟨l₁, l₂, hsplit⟩ := List.append_of_mem hh
  -- in the page of another segment both bytes are behind the contents
  have hzero : (∀ i < p.1.memsz, u32 (p.1.vaddr + i) ≠ u32 (h.vaddr + k)) → h.filesz ≤ k →
      p.1.byte data (p.2 * 4096 + u32 (h.vaddr + k) % 0x1000) = h.byte data k := by
    intro hout hle
    rw [byte_eq_zero hle]
    exact byte_eq_zero (filesz_le_place (hlayout.filesz p.1 hg)
      (hapart.aligned p.1 hg) hpage ha hout)
  rw [hsplit, lastLoad_split] at hp
  -- the page is one of a later segment, of `h` itself, or of an earlier one
  cases hlater : lastLoad (pagesOf l₂) (u32 (h.vaddr + k)) with
  | some q =>
    rw [hlater, Option.some_or, Option.some_or] at hp
    obtain rfl := Option.some.inj hp
    obtain ⟨hmem, -, -⟩ := lastLoad_mem hlater
    apply hzero (hlayout.later hsplit hmem hk)
    -- a later segment maps no page with contents of `h`
    by_contra hlt
    have hpair := (List.pairwise_append.mp (hsplit ▸ hapart.kept)).2.1
    have hnot := (List.pairwise_cons.mp hpair).1 q.1 hmem k (by omega)
    exact hnot _ (mem_pages.mpr ⟨q.2, hj, rfl⟩) hpage
  | none =>
    rw [hlater, Option.none_or] at hp
    cases hself : lastLoad (pagesOf [h]) (u32 (h.vaddr + k)) with
    | some q =>
      rw [hself, Option.some_or] at hp
      obtain rfl := Option.some.inj hp
      obtain ⟨hmem, -, -⟩ := lastLoad_mem hself
      obtain rfl := List.mem_singleton.mp hmem
      -- without contents the segment is zero wherever it starts
      by_cases hpos : 0 < q.1.filesz
      · rw [page_of_aligned (hapart.aligned q.1 hh hpos) (hcount q.1 hh) hk hj hpage]
      · rw [byte_eq_zero (by omega), byte_eq_zero (by omega)]
    | none =>
      rw [hself, Option.none_or] at hp
      obtain ⟨hmem, -, -⟩ := lastLoad_mem hp
      apply hzero (hlayout.earlier hsplit hmem hk)
      -- contents of `h` would be in a page of `h`
      by_contra hlt
      have hcover := self_covers (hapart.aligned h hh (by omega)) hk
      exact lastLoad_ne_none.mpr ⟨h, List.mem_singleton.mpr rfl, hcover⟩ hself

omit hlayout in
/-- Which page is seen at a byte does not depend on the contents of the file. -/
theorem seen_of_bytesAgree (hall : ∀ data, BytesAgree data hs) (hh : h ∈ loadable hs)
    (hk : k < h.memsz) :
    ∃ p, lastLoad (pagesOf (loadable hs)) (u32 (h.vaddr + k)) = some p ∧
      ∀ data, p.1.byte data (p.2 * 4096 + u32 (h.vaddr + k) % 0x1000) = h.byte data k := by
  -- the pages are read off the headers
  obtain ⟨p, hp, -⟩ := hall (fun _ => 0) h hh k hk
  refine ⟨p, hp, fun data => ?_⟩
  obtain ⟨q, hq, hbyte⟩ := hall data h hh k hk
  rw [hp] at hq
  rwa [Option.some.inj hq]

/-- No contents of `h` are seen in a page of a later segment with aligned contents. -/
theorem not_later_of_bytesAgree (hall : ∀ data, BytesAgree data hs)
    (hsplit : loadable hs = l₁ ++ h :: l₂)
    (haligned : ∀ g ∈ l₂, 0 < g.filesz → g.vaddr % 0x1000 = 0) (hk : k < h.filesz) :
    lastLoad (pagesOf l₂) (u32 (h.vaddr + k)) = none := by
  have hh : h ∈ loadable hs := by simp [hsplit]
  have hmem : k < h.memsz := Nat.lt_of_lt_of_le hk (hlayout.filesz h hh)
  obtain ⟨p, hp, hbyte⟩ := seen_of_bytesAgree hall hh hmem
  rw [hsplit, lastLoad_split] at hp
  cases hlater : lastLoad (pagesOf l₂) (u32 (h.vaddr + k)) with
  | none => rfl
  | some q =>
    rw [hlater, Option.some_or, Option.some_or] at hp
    obtain rfl := Option.some.inj hp
    obtain ⟨hq, -, hpage⟩ := lastLoad_mem hlater
    have hin : q.1 ∈ loadable hs := by simp [hsplit, hq]
    -- its contents are at its own addresses, and `h` has none of those
    have hle := filesz_le_place (hlayout.filesz q.1 hin) (haligned q.1 hq) hpage (u32_lt _)
      (hlayout.later hsplit hq hmem)
    exact absurd ((byte_eq_of_forall hbyte).1.mpr hk) (Nat.not_lt.mpr hle)

/-- The first byte of the contents is seen at the start of a page. -/
theorem aligned_of_seen (hall : ∀ data, BytesAgree data hs)
    (hcount : ∀ h ∈ loadable hs, h.pageCount < 1048576)
    (hsplit : loadable hs = l₁ ++ h :: l₂) (hpos : 0 < h.filesz)
    (hlater : lastLoad (pagesOf l₂) (u32 (h.vaddr + 0)) = none) : h.vaddr % 0x1000 = 0 := by
  have hh : h ∈ loadable hs := by simp [hsplit]
  have hmem : 0 < h.memsz := Nat.lt_of_lt_of_le hpos (hlayout.filesz h hh)
  obtain ⟨p, hp, hbyte⟩ := seen_of_bytesAgree hall hh hmem
  -- the first page of `h` is there
  have hcover : lastLoad (pagesOf [h]) (u32 (h.vaddr + 0)) ≠ none := by
    have hle := memsz_le h.toElfPhdr
    refine lastLoad_ne_none.mpr ⟨h, List.mem_singleton.mpr rfl, loadAddress (h, 0), ?_, ?_⟩
    · exact mem_pages.mpr ⟨0, by omega, rfl⟩
    · rw [loadAddress, Nat.zero_mul]
  obtain ⟨q, hq⟩ := Option.ne_none_iff_exists'.mp hcover
  rw [hsplit, lastLoad_split, hlater, Option.none_or, hq, Option.some_or] at hp
  obtain rfl := Option.some.inj hp
  obtain ⟨hself, hj, hpage⟩ := lastLoad_mem hq
  obtain rfl := List.mem_singleton.mp hself
  -- the file has one byte for the start of the page and for the start of the contents
  have hplace := (byte_eq_of_forall hbyte).2 hpos
  have hsmall := hcount q.1 hh
  unfold loadAddress at hpage
  unfold u32 at hpage hplace
  omega

/-- Contents of all kinds need segments at page boundaries. -/
theorem aligned_of_bytesAgree (hall : ∀ data, BytesAgree data hs)
    (hcount : ∀ h ∈ loadable hs, h.pageCount < 1048576) :
    ∀ l₂ l₁, loadable hs = l₁ ++ l₂ → ∀ h ∈ l₂, 0 < h.filesz → h.vaddr % 0x1000 = 0 := by
  intro l₂
  -- the induction goes through the segments from the last one on
  induction l₂ with
  | nil => exact fun _ _ h hh => absurd hh (by simp)
  | cons h l₂ ih =>
    intro l₁ hsplit g hg hpos
    -- the segments behind `h` come first
    have htail : ∀ g ∈ l₂, 0 < g.filesz → g.vaddr % 0x1000 = 0 := ih (l₁ ++ [h]) (by simp [hsplit])
    rcases List.mem_cons.mp hg with rfl | hg
    · exact aligned_of_seen hlayout hall hcount hsplit hpos
        (not_later_of_bytesAgree hlayout hall hsplit htail hpos)
    · exact htail g hg hpos

/-- The layouts for which every file is loaded right. -/
theorem bytesAgree_iff (hcount : ∀ h ∈ loadable hs, h.pageCount < 1048576) :
    (∀ data, BytesAgree data hs) ↔ PagesApart hs := by
  constructor
  · intro hall
    have haligned := aligned_of_bytesAgree hlayout hall hcount (loadable hs) [] rfl
    refine ⟨haligned, ?_, ?_⟩
    · rw [List.pairwise_iff_forall_sublist]
      intro h g hsub k hk v hv hpage
      -- `g` is behind `h`
      obtain ⟨l₁, l₂, hsplit, hh, hg⟩ := List.cons_sublist_iff.mp hsub
      obtain ⟨l, l', rfl⟩ := List.append_of_mem hh
      rw [List.append_assoc, List.cons_append] at hsplit
      have hg : g ∈ l' ++ l₂ := List.mem_append_right _ (hg.subset List.mem_cons_self)
      have hnone := not_later_of_bytesAgree hlayout hall hsplit
        (fun e he => haligned e (by rw [hsplit]; simp [List.mem_append.mp he])) hk
      exact lastLoad_ne_none.mpr ⟨g, hg, v, hv, hpage⟩ hnone
    · intro h hh k hk
      obtain ⟨p, hp, -⟩ := seen_of_bytesAgree hall hh hk
      apply lastLoad_ne_none.mp
      rw [hp]
      exact Option.some_ne_none p
  · exact fun hapart => hapart.bytesAgree hlayout hcount

end

/-! ## Files -/

/-- The pages that bring the right bytes are the pages that are seen. -/
theorem segmentsLoaded_iff (hown : OwnTables s.paging d) (hcur : s.paging.currentPageDirectory = d)
    (hclean : ((loadedPages hs).foldl mapNewPage s.paging).pfa.overcommitted = false)
    (data : Nat → Byte) :
    (BytesAgree data hs → SegmentsLoaded data hs (loadSegments data hs s) d) ∧
      (Unmapped s.paging d hs → SegmentsLoaded data hs (loadSegments data hs s) d →
        BytesAgree data hs) := by
  constructor
  · intro hagree h hh k hk
    obtain ⟨p, hp, hbyte⟩ := hagree h hh k hk
    rw [loadSegments_byteAt hown hcur hclean hp, hbyte]
  · intro habsent hloaded h hh k hk
    have hseen := hloaded h hh k hk
    cases hlast : lastLoad (pagesOf (loadable hs)) (u32 (h.vaddr + k)) with
    | none =>
      -- the address is not mapped at all
      rw [loadSegments_absent hown hcur hclean hlast (habsent h hh k hk)] at hseen
      cases hseen
    | some p =>
      rw [loadSegments_byteAt hown hcur hclean hlast] at hseen
      exact ⟨p, rfl, Option.some.inj hseen⟩

/-- When the loading loop of `exec` leaves a file whose ranges do not overlap
    right: for the contents of one file, and for all contents under its headers. -/
theorem exec_load_iff (hown : OwnTables m d) (hcur : m.currentPageDirectory = d)
    (hclean : ((loadedPages hs).foldl mapNewPage m).pfa.overcommitted = false)
    (hlayout : ElfLayout hs) :
    (∀ data, elfSegments data = hs → PagesApart hs →
      SegmentsLoaded data hs (execLoad data ⟨m, bytes⟩) d) ∧
    (Unmapped m d hs →
      (∀ data, elfSegments data = hs →
        (SegmentsLoaded data hs (execLoad data ⟨m, bytes⟩) d ↔ BytesAgree data hs)) ∧
      ((∀ data, SegmentsLoaded data hs (loadSegments data hs ⟨m, bytes⟩) d) ↔ PagesApart hs)) := by
  have hcount : ∀ h ∈ loadable hs, h.pageCount < 1048576 := fun h hh => pageCount_lt hclean hh
  have hiff := fun data => segmentsLoaded_iff (s := ⟨m, bytes⟩) hown hcur hclean data
  -- the sufficient condition, the condition on one file, the condition on all files
  refine ⟨fun data hfile hapart => ?_, fun habsent => ⟨fun data hfile => ?_, ?_⟩⟩
  · rw [execLoad, hfile]
    exact (hiff data).1 (hapart.bytesAgree hlayout hcount data)
  · rw [execLoad, hfile]
    exact ⟨(hiff data).2 habsent, (hiff data).1⟩
  · rw [← bytesAgree_iff hlayout hcount]
    exact forall_congr' fun data => ⟨(hiff data).2 habsent, (hiff data).1⟩

/-- A file with one segment of one byte, `0x2A`, at the address `0x20000000 + start`. -/
def tinyElf (start : Byte) (i : Nat) : Byte :=
  if i = 0 then 0x7F else if i = 1 then 0x45 else if i = 2 then 0x4C else if i = 3 then 0x46 else
  if i = 28 then 52 else if i = 42 then 32 else if i = 44 then 1 else
  if i = 52 then 1 else if i = 56 then 84 else if i = 60 then start else if i = 63 then 0x20 else
  if i = 68 then 1 else if i = 72 then 1 else if i = 84 then 0x2A else 0

/-- A file of one segment with one byte. -/
theorem exec_load_iff_tiny :
    PagesApart (elfSegments (tinyElf 0)) ∧
      SegmentsLoaded (tinyElf 0) (elfSegments (tinyElf 0))
        (execLoad (tinyElf 0) ⟨enablePaging .boot 0x2000, fun _ => 0⟩) 0x2000 := by
  have hapart : PagesApart (elfSegments (tinyElf 0)) := by decide +kernel
  have hown : OwnTables (enablePaging .boot 0x2000) 0x2000 :=
    ⟨fun i hi => absurd rfl hi, fun i j hi => absurd rfl hi⟩
  exact ⟨hapart, (exec_load_iff hown rfl (by decide +kernel) (by decide +kernel)).1 _ rfl hapart⟩

/-- A segment that starts `0x54` bytes into a page is found at the start of that page. -/
theorem unaligned_segment_moves :
    OwnTables (enablePaging .boot 0x2000) 0x2000 ∧
      (enablePaging .boot 0x2000).currentPageDirectory = 0x2000 ∧
      ElfLayout (elfSegments (tinyElf 0x54)) ∧
      ((loadedPages (elfSegments (tinyElf 0x54))).foldl mapNewPage
        (enablePaging .boot 0x2000)).pfa.overcommitted = false ∧
      ¬ SegmentsLoaded (tinyElf 0x54) (elfSegments (tinyElf 0x54))
        (execLoad (tinyElf 0x54) ⟨enablePaging .boot 0x2000, fun _ => 0⟩) 0x2000 := by
  refine ⟨⟨fun i hi => absurd rfl hi, fun i j hi => absurd rfl hi⟩, rfl, by decide +kernel,
    by decide +kernel, fun hloaded => ?_⟩
  have hmem : (⟨⟨1, 0x20000054, 1⟩, 84, 1⟩ : ElfSegment) ∈
      loadable (elfSegments (tinyElf 0x54)) := by
    decide +kernel
  have hbyte := hloaded _ hmem 0 (by decide)
  -- one page is loaded, with the byte in its first cell
  have hseen : (execLoad (tinyElf 0x54) ⟨enablePaging .boot 0x2000, fun _ => 0⟩).byteAt 0x2000
      (u32 (0x20000054 + 0)) = some 0 := by
    decide +kernel
  rw [hseen] at hbyte
  exact absurd hbyte (by decide +kernel)

end MishaOS
