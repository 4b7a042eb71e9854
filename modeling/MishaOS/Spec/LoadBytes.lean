import MishaOS.Native.ExecMem
import MishaOS.Spec.ExecPages
import MishaOS.Spec.NewPages

/-!
# The bytes of a loaded program

The loading loop maps one page after the other, and the page mapped last at an
address is the one that is seen.  Page `i` of a segment has the bytes from
`i * 4096` on, counted from the start of the page and not from `p_vaddr`.

## Key results

- `loadSegments_eq`: the loop as one list of pages.
- `execLoad_paging`: its mappings are those of `exec`.
- `loadSegments_byteAt`: the byte at an address that the loop maps.
- `loadSegments_absent`: the loop maps nothing else.
-/

namespace MishaOS

variable {m : Paging} {s : LoadMem} {data : Nat → Byte} {d a i : Nat} {h : ElfSegment}
  {p : ElfSegment × Nat} {hs : List ElfSegment} {L : List (ElfSegment × Nat)}

/-- The byte that a directory shows at an address. -/
def LoadMem.byteAt (s : LoadMem) (d a : Nat) : Option Byte :=
  if pagePresent s.paging d a then some (s.bytes (pdeGetPhysAddr s.paging d a)) else none

/-- The byte `k` of a segment: from the file, or zero behind `p_filesz`. -/
def ElfSegment.byte (h : ElfSegment) (data : Nat → Byte) (k : Nat) : Byte :=
  if k < h.filesz then data (u32 (h.offset + k)) else 0

/-- The segments that the loop loads. -/
def loadable (hs : List ElfSegment) : List ElfSegment := hs.filter fun h => h.type = PT_LOAD

/-- The pages of some segments, each with the number of the page in its segment. -/
def pagesOf (hs : List ElfSegment) : List (ElfSegment × Nat) :=
  hs.flatMap fun h => (List.range h.pageCount).map fun i => (h, i)

/-- The address at which a page is mapped. -/
def loadAddress (p : ElfSegment × Nat) : Nat := u32 (p.1.vaddr + p.2 * 4096)

/-- The last of the pages at an address. -/
def lastLoad (L : List (ElfSegment × Nat)) (a : Nat) : Option (ElfSegment × Nat) :=
  L.reverse.find? fun p => loadAddress p / 0x1000 = a / 0x1000

/-! ## The loop as a list of pages -/

/-- Sums may be reduced at any time. -/
theorem u32_add_u32 (a b : Nat) : u32 (a + u32 b) = u32 (a + b) := by
  unfold u32
  omega

/-- A round maps one new page. -/
theorem loadPage_paging (data : Nat → Byte) (h : ElfSegment) (s : LoadMem) (i : Nat) :
    (loadPage data h s i).paging = mapNewPage s.paging (loadAddress (h, i)) := by
  unfold loadPage loadAddress mapNewPage
  dsimp only
  rw [u32_add_u32]
  split <;> rfl

/-- The loops over segments and pages as one. -/
theorem loadSegments_eq (data : Nat → Byte) (hs : List ElfSegment) :
    ∀ s, loadSegments data hs s = (pagesOf (loadable hs)).foldl
      (fun s p => loadPage data p.1 s p.2) s := by
  unfold loadSegments
  -- the loop over one header is a stretch of the list of pages
  induction hs with
  | nil => exact fun s => rfl
  | cons h hs ih =>
    intro s
    rw [List.foldl_cons, ih, loadSegment]
    by_cases htype : h.type = PT_LOAD
    · simp [htype, pagesOf, loadable, List.foldl_map]
    · simp [htype, loadable]

/-- The rounds map the pages in order. -/
theorem foldl_loadPage_paging (data : Nat → Byte) (L : List (ElfSegment × Nat)) :
    ∀ s, (L.foldl (fun s p => loadPage data p.1 s p.2) s).paging =
      (L.map loadAddress).foldl mapNewPage s.paging := by
  induction L with
  | nil => exact fun s => rfl
  | cons p L ih =>
    intro s
    rw [List.foldl_cons, ih, loadPage_paging]
    rfl

/-- The addresses at which the loop maps a page, in order. -/
def loadedPages (hs : List ElfSegment) : List Nat := (pagesOf (loadable hs)).map loadAddress

/-- So does the loop over the segments. -/
theorem loadSegments_paging (data : Nat → Byte) (hs : List ElfSegment) (s : LoadMem) :
    (loadSegments data hs s).paging = (loadedPages hs).foldl mapNewPage s.paging := by
  rw [loadSegments_eq, foldl_loadPage_paging]
  rfl

/-- The rounds for a list of segments. -/
theorem mem_pagesOf : p ∈ pagesOf hs ↔ p.1 ∈ hs ∧ p.2 < p.1.pageCount := by
  obtain ⟨g, j⟩ := p
  simp only [pagesOf, List.mem_flatMap, List.mem_map, List.mem_range, Prod.mk.injEq]
  constructor
  · intro ⟨h, hh, i, hi, hgh, hij⟩
    subst hgh hij
    exact ⟨hh, hi⟩
  · intro ⟨hg, hj⟩
    exact ⟨g, hg, j, hj, rfl, rfl⟩

/-- The pages of a segment. -/
theorem mem_pages {v : Nat} : v ∈ h.pages ↔ ∃ i < h.pageCount, loadAddress (h, i) = v := by
  simp [ElfPhdr.pages, ElfPhdr.pageCount, loadAddress]

/-- The pages of all segments. -/
theorem loadedPages_eq (hs : List ElfSegment) :
    loadedPages hs = (hs.map (·.toElfPhdr)).flatMap ElfPhdr.loaded := by
  unfold loadedPages loadable
  induction hs with
  | nil => rfl
  | cons h hs ih =>
    rw [List.map_cons, List.flatMap_cons, ← ih, List.filter_cons, ElfPhdr.loaded]
    by_cases htype : h.type = PT_LOAD
    · simp [htype, pagesOf, ElfPhdr.pages, ElfPhdr.pageCount, loadAddress, Function.comp_def]
    · simp [htype]

/-- The segments are the program headers with their contents. -/
theorem elfSegments_map (data : Nat → Byte) :
    (elfSegments data).map (·.toElfPhdr) = elfPhdrs data := by
  simp [elfSegments, elfPhdrs, ElfSegment.read]

/-- The mappings of the loading loop in `exec`. -/
theorem execLoad_paging (data : Nat → Byte) (s : LoadMem) (entry finalOffset : Nat) :
    (execLoad data s).paging =
      ((elfPhdrs data).foldl execSegment ⟨s.paging, entry, finalOffset⟩).paging := by
  rw [execLoad, loadSegments_paging, loadedPages_eq, elfSegments_map, (foldl_execSegment _ _).1]

/-! ## One page -/

/-- The bytes that have been copied. -/
theorem copyTo_inside {bytes src : Nat → Byte} {address n : Nat} (hle : address ≤ a)
    (hlt : a < address + n) : copyTo bytes address n src a = src (a - address) := if_pos ⟨hle, hlt⟩

/-- The bytes around them. -/
theorem copyTo_outside {bytes src : Nat → Byte} {address n : Nat}
    (ha : a < address ∨ address + n ≤ a) :
    copyTo bytes address n src a = bytes a := by
  unfold copyTo
  rw [if_neg (by omega)]

/-- The frame of a page gets the bytes of the segment. -/
theorem loadPage_inside (data : Nat → Byte) (h : ElfSegment) (s : LoadMem)
    (hi : i < 1048575) {j : Nat}
    (hj : j < 4096) :
    (loadPage data h s i).bytes (s.paging.requestPage.1 + j) = h.byte data (i * 4096 + j) := by
  -- below the last page of the address space nothing wraps
  have hoffset : u32 (i * 4096) = i * 4096 := u32_of_lt (by omega)
  have hend : u32 (i * 4096 + 4096) = i * 4096 + 4096 := u32_of_lt (by omega)
  have hsub : s.paging.requestPage.1 + j - s.paging.requestPage.1 = j := by omega
  have hsum : h.offset + i * 4096 + j = h.offset + (i * 4096 + j) := by omega
  unfold loadPage ElfSegment.byte
  dsimp only
  rw [hoffset, hend]
  by_cases hle : i * 4096 ≤ h.filesz
  · rw [if_pos hle]
    dsimp only
    -- the bytes of the file end in this page, or behind it
    by_cases hlt : i * 4096 + j < h.filesz
    · have hlength : j < if i * 4096 + 4096 > h.filesz then h.filesz - i * 4096 else 4096 := by
        split <;> omega
      rw [if_pos hlt, copyTo_inside (by omega) (by omega), hsub, hsum]
    · have hgt : i * 4096 + 4096 > h.filesz := by omega
      rw [if_neg hlt, if_pos hgt, copyTo_outside (by omega), copyTo_inside (by omega) (by omega)]
  -- the page is behind the contents
  · rw [if_neg hle, if_neg (by omega)]
    dsimp only
    rw [copyTo_inside (by omega) (by omega)]

/-- A round only writes to its frame. -/
theorem loadPage_outside (data : Nat → Byte) (h : ElfSegment) (s : LoadMem)
    (ha : a / 0x1000 ≠ s.paging.requestPage.1 / 0x1000) :
    (loadPage data h s i).bytes a = s.bytes a := by
  have halign := requestPage_aligned s.paging
  -- both writes are inside the frame
  have hout : a < s.paging.requestPage.1 ∨ s.paging.requestPage.1 + 4096 ≤ a := by omega
  unfold loadPage
  dsimp only
  generalize s.paging.requestPage.1 = page at hout ⊢
  have hend : u32 (u32 (i * 4096) + 4096) ≤ u32 (i * 4096) + 4096 := by
    rw [u32]
    exact Nat.mod_le _ _
  split
  · dsimp only
    rw [copyTo_outside, copyTo_outside hout]
    split <;> omega
  · dsimp only
    rw [copyTo_outside hout]

/-! ## The whole loop -/

section

variable (hown : OwnTables s.paging d) (hcur : s.paging.currentPageDirectory = d)

include hown hcur

/-- A byte that is seen, in a frame in use, stays until its page is mapped again. -/
theorem foldl_loadPage_same
    (hclean : ((L.map loadAddress).foldl mapNewPage s.paging).pfa.overcommitted = false)
    (ha : ∀ p ∈ L, loadAddress p / 0x1000 ≠ a / 0x1000) (hpresent : pagePresent s.paging d a = true)
    (hused : s.paging.pfa.used (pdeGetPhysAddr s.paging d a / 0x1000)) :
    (L.foldl (fun s p => loadPage data p.1 s p.2) s).byteAt d a = s.byteAt d a := by
  -- each page of the list takes a frame that was free, and the one of `a` is not
  induction L generalizing s with
  | nil => rfl
  | cons p L ih =>
    have hpaging := loadPage_paging data p.1 s p.2
    have hnew := hown.mapNewPage (v := loadAddress p) hcur
      ((foldl_mapNewPage_kept (L.map loadAddress) _).clean hclean)
    rw [← hpaging] at hnew
    have hsame := hnew.others a (ha p List.mem_cons_self).symm
    have hphys := hsame.phys hpresent
    have hbyte : (loadPage data p.1 s p.2).byteAt d a = s.byteAt d a := by
      unfold LoadMem.byteAt
      rw [hsame.present, if_pos hpresent, if_pos hpresent, hphys, loadPage_outside]
      -- the frame is not the new one
      intro heq
      exact hnew.free (heq ▸ hused)
    rw [List.foldl_cons, ← hbyte]
    apply ih hnew.own hnew.current
    · rwa [hpaging]
    · exact fun q hq => ha q (List.mem_cons_of_mem _ hq)
    · rwa [hsame.present]
    · rw [hphys]
      exact hnew.kept _ hused

/-- Behind a round the page shows the contents of the file. -/
theorem loadPage_byteAt (data : Nat → Byte)
    (hclean : (mapNewPage s.paging (loadAddress p)).pfa.overcommitted = false)
    (hi : p.2 < 1048575) (ha : loadAddress p / 0x1000 = a / 0x1000) :
    NewPage s.paging (loadPage data p.1 s p.2).paging d (loadAddress p) s.paging.requestPage.1 ∧
      (loadPage data p.1 s p.2).byteAt d a = some (p.1.byte data (p.2 * 4096 + a % 0x1000)) := by
  have hnew := hown.mapNewPage hcur hclean
  rw [← loadPage_paging data p.1 s p.2] at hnew
  obtain ⟨hpresent, hphys⟩ := hnew.mapped a ha.symm
  refine ⟨hnew, ?_⟩
  rw [LoadMem.byteAt, if_pos hpresent, hphys,
    loadPage_inside data p.1 s hi (Nat.mod_lt _ (by decide))]

/-- The page mapped last is the one that is seen. -/
theorem foldl_loadPage_byteAt
    (hclean : ((L.map loadAddress).foldl mapNewPage s.paging).pfa.overcommitted = false)
    (hcount : ∀ p ∈ L, p.2 < 1048575) (hlast : lastLoad L a = some p) :
    (L.foldl (fun s p => loadPage data p.1 s p.2) s).byteAt d a =
      some (p.1.byte data (p.2 * 4096 + a % 0x1000)) := by
  obtain ⟨hp, L₂, L₁, hsplit, hnone⟩ := List.find?_eq_some_iff_append.mp hlast
  have hp : loadAddress p / 0x1000 = a / 0x1000 := by simpa using hp
  -- the last page at `a` has other pages behind it only
  have hL : L = L₁.reverse ++ p :: L₂.reverse := by
    rw [← List.reverse_reverse L, hsplit, List.reverse_append, List.reverse_cons, List.append_assoc]
    rfl
  rw [hL, List.map_append, List.foldl_append] at hclean
  rw [hL, List.foldl_append]
  have hpaging := foldl_loadPage_paging data L₁.reverse s
  obtain ⟨hown₁, hcur₁⟩ := foldl_mapNewPage_own hown hcur
    ((foldl_mapNewPage_kept ((p :: L₂.reverse).map loadAddress) _).clean hclean)
  rw [← hpaging] at hclean hown₁ hcur₁
  generalize L₁.reverse.foldl (fun s p => loadPage data p.1 s p.2) s = s₁ at hclean hown₁ hcur₁ ⊢
  obtain ⟨hnew, hbyte⟩ := loadPage_byteAt hown₁ hcur₁ data
    ((foldl_mapNewPage_kept (L₂.reverse.map loadAddress) _).clean hclean)
    (hcount p (by simp [hL])) hp
  obtain ⟨hpresent, hphys⟩ := hnew.mapped a hp.symm
  have halign := hnew.aligned
  rw [List.foldl_cons, ← hbyte]
  apply foldl_loadPage_same hnew.own hnew.current
  · rw [loadPage_paging]
    exact hclean
  · intro q hq
    have hq := hnone q (List.mem_reverse.mp hq)
    simpa using hq
  · exact hpresent
  · have hframe : pdeGetPhysAddr (loadPage data p.1 s₁ p.2).paging d a / 0x1000 =
        s₁.paging.requestPage.1 / 0x1000 := by
      rw [hphys]
      omega
    rw [hframe]
    exact hnew.used

end

/-- No segment has as many pages as there are frames. -/
theorem pageCount_lt (hclean : ((loadedPages hs).foldl mapNewPage m).pfa.overcommitted = false)
    (hh : h ∈ loadable hs) : h.pageCount < 1048576 := by
  have hlength := mapNewPages_length hclean
  -- all the pages together are fewer than the frames
  obtain ⟨l₁, l₂, hsplit⟩ := List.append_of_mem hh
  rw [loadedPages, List.length_map, hsplit] at hlength
  simp only [pagesOf, List.flatMap_append, List.flatMap_cons, List.length_append, List.length_map,
    List.length_range] at hlength
  omega

/-- The byte at an address that the loop maps. -/
theorem loadSegments_byteAt (hown : OwnTables s.paging d) (hcur : s.paging.currentPageDirectory = d)
    (hclean : ((loadedPages hs).foldl mapNewPage s.paging).pfa.overcommitted = false)
    (hlast : lastLoad (pagesOf (loadable hs)) a = some p) :
    (loadSegments data hs s).byteAt d a = some (p.1.byte data (p.2 * 4096 + a % 0x1000)) := by
  rw [loadSegments_eq]
  apply foldl_loadPage_byteAt hown hcur hclean _ hlast
  intro q hq
  obtain ⟨hmem, hlt⟩ := mem_pagesOf.mp hq
  have hcount := pageCount_lt hclean hmem
  omega

/-- An address that the loop does not map, and that was not mapped before. -/
theorem loadSegments_absent (hown : OwnTables s.paging d) (hcur : s.paging.currentPageDirectory = d)
    (hclean : ((loadedPages hs).foldl mapNewPage s.paging).pfa.overcommitted = false)
    (hlast : lastLoad (pagesOf (loadable hs)) a = none)
    (habsent : pagePresent s.paging d a = false) :
    (loadSegments data hs s).byteAt d a = none := by
  have hnone : ∀ v ∈ loadedPages hs, a / 0x1000 ≠ v / 0x1000 := by
    intro v hv heq
    obtain ⟨p, hp, rfl⟩ := List.mem_map.mp hv
    have hp := List.find?_eq_none.mp hlast p (List.mem_reverse.mpr hp)
    simp [heq] at hp
  have hsame := mapNewPages_same hown hcur hclean hnone
  have hgone : pagePresent (loadSegments data hs s).paging d a = false := by
    rw [loadSegments_paging, hsame.present, habsent]
  rw [LoadMem.byteAt, hgone]
  rfl

end MishaOS
