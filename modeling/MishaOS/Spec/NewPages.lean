import MishaOS.Spec.DirPresent
import MishaOS.Spec.FrameOwner
import MishaOS.Spec.PageMap

/-!
# Pages that `exec` maps

`exec` gives every page it maps a frame of its own.  What the directory says of
other pages stays, and the new frame was not in use, so no byte that could be
seen before lies in it.

## Key results

- `OwnTables.mapNewPage`: one page.
- `mapNewPages_same`: a list of pages, seen from an address in none of them.
- `mapNewPages_length`: no more pages can be mapped than there are frames.
-/

namespace MishaOS

variable {m m' m₁ : Paging} {d v a page : Nat} {vs : List Nat}

/-- The directory says the same of an address. -/
structure SamePage (m m' : Paging) (d a : Nat) : Prop where
  present : pagePresent m' d a = pagePresent m d a
  phys : pagePresent m d a = true → pdeGetPhysAddr m' d a = pdeGetPhysAddr m d a

namespace SamePage

theorem refl (m : Paging) (d a : Nat) : SamePage m m d a := ⟨rfl, fun _ => rfl⟩

theorem trans (h : SamePage m m₁ d a) (h' : SamePage m₁ m' d a) : SamePage m m' d a where
  present := h'.present.trans h.present
  phys hp := (h'.phys (h.present.trans hp)).trans (h.phys hp)

theorem of_translate (h : translate m' d a = translate m d a) : SamePage m m' d a where
  present := by rw [pagePresent, pagePresent, h]
  phys hp := by
    -- there is a table, so both say the same entry
    unfold pagePresent translate at hp
    unfold translate at h
    by_cases hz : (m.dir d).tables (a / 0x1000 / 1024) = 0
    · simp [hz] at hp
    · rw [if_neg hz] at h
      split at h
      · cases h
      · rw [pdeGetPhysAddr_eq, pdeGetPhysAddr_eq, Option.some.inj h]

end SamePage

/-- The page of `v` has got the frame `page`. -/
structure NewPage (m m' : Paging) (d v page : Nat) : Prop where
  own : OwnTables m' d
  current : m'.currentPageDirectory = d
  kept : ∀ f, m.pfa.used f → m'.pfa.used f
  free : ¬ m.pfa.used (page / 0x1000)
  used : m'.pfa.used (page / 0x1000)
  aligned : page % 0x1000 = 0
  mapped : ∀ a, a / 0x1000 = v / 0x1000 →
    pagePresent m' d a = true ∧ pdeGetPhysAddr m' d a = page + a % 0x1000
  others : ∀ a, a / 0x1000 ≠ v / 0x1000 → SamePage m m' d a

theorem OwnTables.congr (h : OwnTables m d) (hdir : m'.dir d = m.dir d)
    (hused : ∀ f, m.pfa.used f → m'.pfa.used f) : OwnTables m' d where
  used i hi := by
    rw [hdir] at hi ⊢
    exact hused _ (h.used i hi)
  distinct i j hi heq := by
    rw [hdir] at hi heq
    exact h.distinct i j hi heq

theorem OwnTables.pdeRequestPage (h : OwnTables m d)
    (hclean : (pdeRequestPage m d v).pfa.overcommitted = false) :
    OwnTables (pdeRequestPage m d v) d ∧ FreshTable m d v := by
  rcases pdeRequestPage_cases m d v with ⟨hne, heq⟩ | ⟨hz, hreq, -⟩
  · rw [heq]
    exact ⟨h, fun hz => absurd hz hne⟩
  -- a table is requested, in a frame that was free
  · have htaken : FrameTaken m.pfa m.requestPage.2.pfa m.requestPage.1 := by
      apply requestPage_spec
      rw [← hreq.pfa]
      exact hclean
    have hused : ∀ f, (MishaOS.pdeRequestPage m d v).pfa.used f ↔
        m.pfa.used f ∨ f = m.requestPage.1 / 0x1000 := by
      rw [hreq.pfa]
      exact htaken.used
    -- the new table lies in a frame that no other slot has
    have hother : ∀ j, (m.dir d).tables j ≠ 0 → (m.dir d).tables j ≠ m.requestPage.1 := by
      intro j hj heq
      exact htaken.free (heq ▸ h.used j hj)
    refine ⟨⟨fun i hi => ?_, fun i j hi heq => ?_⟩, fun _ => htaken.free⟩
    · rw [hreq.slot] at hi ⊢
      rw [hused]
      by_cases hiv : i = v / 0x1000 / 1024
      · rw [if_pos hiv]
        exact .inr rfl
      · rw [if_neg hiv] at hi ⊢
        exact .inl (h.used i hi)
    · rw [hreq.slot] at hi
      rw [hreq.slot, hreq.slot] at heq
      -- two slots with one table are both old, or both the new one
      by_cases hiv : i = v / 0x1000 / 1024 <;> by_cases hjv : j = v / 0x1000 / 1024
      · exact hiv.trans hjv.symm
      · rw [if_pos hiv] at hi heq
        rw [if_neg hjv] at heq
        exact absurd heq.symm (hother j (heq ▸ hi))
      · rw [if_neg hiv] at hi heq
        rw [if_pos hjv] at heq
        exact absurd heq (hother i hi)
      · rw [if_neg hiv] at hi heq
        rw [if_neg hjv] at heq
        exact h.distinct i j hi heq

theorem pdeMapUserMemory_same (h : OwnTables m d) (hfresh : FreshTable m d v) (physical : Nat)
    (ha : a / 0x1000 ≠ v / 0x1000) : SamePage m (pdeMapUserMemory m d v physical) d a := by
  by_cases hne : (m.dir d).tables (a / 0x1000 / 1024) = 0
  · -- a table that is new has no other page
    have hold : pagePresent m d a = false := by
      simp [pagePresent, translate, hne]
    refine ⟨?_, fun hp => absurd (hp.symm.trans hold) (by decide)⟩
    rw [hold]
    unfold pagePresent translate pdeMapUserMemory
    rw [Paging.setPage_dir]
    by_cases hslot : a / 0x1000 / 1024 = v / 0x1000 / 1024
    · rw [pageEntry_created (hslot ▸ hne) hslot ha]
      split <;> rfl
    · have hkeep : ((pdeRequestPage m d v).dir d).tables (a / 0x1000 / 1024) = 0 := by
        rcases pdeRequestPage_cases m d v with ⟨-, heq⟩ | ⟨-, hreq, -⟩
        · rw [heq, hne]
        · rw [hreq.slot, if_neg hslot, hne]
      rw [if_pos hkeep]
      rfl
  · exact .of_translate (h.others hfresh ha hne)

theorem pdeMapUserMemory_page (hclean : (pdeMapUserMemory m d v page).pfa.overcommitted = false)
    (ha : a / 0x1000 = v / 0x1000) : pagePresent (pdeMapUserMemory m d v page) d a = true ∧
      pdeGetPhysAddr (pdeMapUserMemory m d v page) d a = page / 0x1000 * 0x1000 + a % 0x1000 := by
  -- the table is there, or it is the one just made
  have hne : ((pdeMapUserMemory m d v page).dir d).tables (a / 0x1000 / 1024) ≠ 0 := by
    rw [ha]
    unfold pdeMapUserMemory at hclean ⊢
    rw [Paging.setPage_dir, pdeRequestPage_slot]
    split
    · rename_i hz
      rw [Paging.setPage_pfa] at hclean
      rcases pdeRequestPage_cases m d v with ⟨hne, -⟩ | ⟨-, hreq, -⟩
      · exact absurd hz hne
      · rw [hreq.pfa] at hclean
        exact (requestPage_spec hclean).ne
    · assumption
  refine ⟨?_, ?_⟩
  · rw [pagePresent, translate, if_neg hne, pdeMapUserMemory, pageEntry_setPage_self _ _ _ ha]
    rfl
  · rw [pdeGetPhysAddr_eq, pdeMapUserMemory, pageEntry_setPage_self _ _ _ ha]

/-- A page gets a frame that was free. -/
theorem OwnTables.mapNewPage (h : OwnTables m d) (hcur : m.currentPageDirectory = d)
    (hclean : (mapNewPage m v).pfa.overcommitted = false) :
    NewPage m (mapNewPage m v) d v m.requestPage.1 := by
  have hcur₁ : m.requestPage.2.currentPageDirectory = d := hcur
  have heq : MishaOS.mapNewPage m v = pdeMapUserMemory m.requestPage.2 d v m.requestPage.1 := by
    rw [← hcur]
    rfl
  have hkept := pdeMapUserMemory_kept m.requestPage.2 d v m.requestPage.1
  have halign := requestPage_aligned m
  rw [heq] at hclean ⊢
  have htaken := requestPage_spec (hkept.clean hclean)
  have hmono : ∀ f, m.pfa.used f → m.requestPage.2.pfa.used f :=
    fun f hf => (htaken.used f).mpr (.inl hf)
  generalize hr : m.requestPage.1 = page at *
  -- the request for the frame changes no table
  have h₁ : OwnTables m.requestPage.2 d := h.congr rfl hmono
  have hsame₁ : ∀ a, SamePage m m.requestPage.2 d a := fun a => .of_translate rfl
  generalize m.requestPage.2 = m₁ at *
  have hreq : (MishaOS.pdeRequestPage m₁ d v).pfa.overcommitted = false := hclean
  obtain ⟨hown, hfresh⟩ := h₁.pdeRequestPage hreq
  constructor
  · exact hown.congr rfl fun f => id
  · exact hkept.current.trans hcur₁
  · exact fun f hf => hkept.used f (hmono f hf)
  · exact htaken.free
  · exact hkept.used _ ((htaken.used _).mpr (.inr rfl))
  · exact halign
  · intro a ha
    obtain ⟨hpresent, hphys⟩ := pdeMapUserMemory_page hclean ha
    refine ⟨hpresent, ?_⟩
    rw [hphys]
    omega
  · exact fun a ha => (hsame₁ a).trans (pdeMapUserMemory_same h₁ hfresh page ha)

/-! ## Lists of pages -/

theorem foldl_mapNewPage_own (h : OwnTables m d) (hcur : m.currentPageDirectory = d)
    (hclean : (vs.foldl mapNewPage m).pfa.overcommitted = false) :
    OwnTables (vs.foldl mapNewPage m) d ∧ (vs.foldl mapNewPage m).currentPageDirectory = d := by
  -- each page is mapped by a directory that the pages before have kept in order
  induction vs generalizing m with
  | nil => exact ⟨h, hcur⟩
  | cons v vs ih =>
    have hnew := h.mapNewPage hcur ((foldl_mapNewPage_kept vs (mapNewPage m v)).clean hclean)
    exact ih hnew.own hnew.current hclean

/-- The pages of the list only. -/
theorem mapNewPages_same (h : OwnTables m d) (hcur : m.currentPageDirectory = d)
    (hclean : (vs.foldl mapNewPage m).pfa.overcommitted = false)
    (ha : ∀ v ∈ vs, a / 0x1000 ≠ v / 0x1000) : SamePage m (vs.foldl mapNewPage m) d a := by
  induction vs generalizing m with
  | nil => exact .refl m d a
  | cons v vs ih =>
    have hnew := h.mapNewPage hcur ((foldl_mapNewPage_kept vs (mapNewPage m v)).clean hclean)
    have hfirst := hnew.others a (ha v List.mem_cons_self)
    exact hfirst.trans (ih hnew.own hnew.current hclean fun v' hv' =>
      ha v' (List.mem_cons_of_mem _ hv'))

/-- The frames of the pages are different ones, none of them in use before. -/
theorem mapNewPages_frames (hclean : (vs.foldl mapNewPage m).pfa.overcommitted = false) :
    ∃ fs : List Nat, fs.Nodup ∧ fs.length = vs.length ∧
      ∀ f ∈ fs, ¬ m.pfa.used f ∧ 0 < f ∧ f < 1048576 := by
  induction vs generalizing m with
  | nil => exact ⟨[], .nil, rfl, by simp⟩
  | cons v vs ih =>
    obtain ⟨fs, hnodup, hlength, hfs⟩ := ih hclean
    have hfirst := (foldl_mapNewPage_kept vs (mapNewPage m v)).clean hclean
    have hkept := pdeMapUserMemory_kept m.requestPage.2 m.currentPageDirectory v m.requestPage.1
    have htaken := requestPage_spec (hkept.clean hfirst)
    have hused : ∀ f, m.pfa.used f ∨ f = m.requestPage.1 / 0x1000 → (mapNewPage m v).pfa.used f :=
      fun f hf => hkept.used f ((htaken.used f).mpr hf)
    -- the frames of the other pages were free when this one was taken
    refine ⟨m.requestPage.1 / 0x1000 :: fs, ?_, by simp [hlength], ?_⟩
    · rw [List.nodup_cons]
      exact ⟨fun hmem => (hfs _ hmem).1 (hused _ (.inr rfl)), hnodup⟩
    · intro f hf
      rcases List.mem_cons.mp hf with rfl | hf
      · have hlt := htaken.lt
        have hne := htaken.ne
        have halign := requestPage_aligned m
        exact ⟨htaken.free, by omega, by omega⟩
      · exact ⟨fun hu => (hfs f hf).1 (hused f (.inl hu)), (hfs f hf).2⟩

/-- Requests that are all answered are fewer than there are frames. -/
theorem mapNewPages_length (hclean : (vs.foldl mapNewPage m).pfa.overcommitted = false) :
    vs.length < 1048576 := by
  obtain ⟨fs, hnodup, hlength, hfs⟩ := mapNewPages_frames hclean
  -- frame 0 is never an answer
  have hsub : fs ⊆ List.range' 1 1048575 := by
    intro f hf
    obtain ⟨-, hpos, hlt⟩ := hfs f hf
    rw [List.mem_range'_1]
    omega
  have hle := (hnodup.subperm hsub).length_le
  rw [List.length_range', hlength] at hle
  omega

end MishaOS
