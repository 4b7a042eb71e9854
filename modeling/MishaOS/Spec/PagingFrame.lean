import Mathlib.Tactic.Set
import MishaOS.Spec.FrameAlloc

/-!
# What the paging functions leave alone

`Kept u m m'` says that from `m` to `m'` no frame was released and nothing was
written to the tables and directories in the frames of `u`.  A function that
takes frames and writes to them keeps every set `u` of frames that were in use
before, whatever else it writes has to be left out of `u`.

## Key results

- `pdeMapUserMemory_spec`: a mapping, with the table it may take.
- `pdeClone_spec`: a cloned directory lies in frames that were free.
- `pdeClone_heap`: it shares the tables of the kernel heap.
- `pdeClone_copied`: its other tables are copies.
-/

namespace MishaOS

variable {u : Nat → Prop} {m m' m₁ : Paging} {d i v f : Nat}

structure Kept (u : Nat → Prop) (m m' : Paging) : Prop where
  used : ∀ f, m.pfa.used f → m'.pfa.used f
  overcommitted : m.pfa.overcommitted = true → m'.pfa.overcommitted = true
  dir : ∀ a, u (a / 0x1000) → m'.dir a = m.dir a
  table : ∀ a, u (a / 0x1000) → m'.table a = m.table a
  current : m'.currentPageDirectory = m.currentPageDirectory

namespace Kept

/-- Nothing has changed. -/
theorem refl (u : Nat → Prop) (m : Paging) : Kept u m m :=
  ⟨fun _ => id, id, fun _ _ => rfl, fun _ _ => rfl, rfl⟩

/-- Two steps that keep a set of frames keep it together. -/
theorem trans (h : Kept u m m₁) (h' : Kept u m₁ m') : Kept u m m' where
  used f hf := h'.used f (h.used f hf)
  overcommitted ho := h'.overcommitted (h.overcommitted ho)
  dir a ha := (h'.dir a ha).trans (h.dir a ha)
  table a ha := (h'.table a ha).trans (h.table a ha)
  current := h'.current.trans h.current

/-- A failure is not forgotten, so there was none before. -/
theorem clean (h : Kept u m m') (hm' : m'.pfa.overcommitted = false) :
    m.pfa.overcommitted = false := by
  cases hm : m.pfa.overcommitted with
  | false => rfl
  | true => simp [h.overcommitted hm] at hm'

/-- A request only marks a frame. -/
theorem requestPage (u : Nat → Prop) (m : Paging) : Kept u m m.requestPage.2 :=
  ⟨pfaRequestPage_mono.1, pfaRequestPage_mono.2, fun _ _ => rfl, fun _ _ => rfl, rfl⟩

/-- A directory outside the frames can be written. -/
theorem setDir (m : Paging) (x : PageDirectory) (hd : ¬ u (d / 0x1000)) :
    Kept u m (m.setDir d x) where
  used _ := id
  overcommitted := id
  dir a ha := by
    have hne : a ≠ d := by
      rintro rfl
      exact hd ha
    exact Function.update_of_ne hne _ _
  table _ _ := rfl
  current := rfl

/-- So can a table outside the frames. -/
theorem setTable {t : Nat} (m : Paging) (x : Nat → Page) (ht : ¬ u (t / 0x1000)) :
    Kept u m (m.setTable t x) where
  used _ := id
  overcommitted := id
  dir _ _ := rfl
  table a ha := by
    have hne : a ≠ t := by
      rintro rfl
      exact ht ha
    exact Function.update_of_ne hne _ _
  current := rfl

end Kept

/-- A request that is answered, on the whole state. -/
theorem requestPage_spec (h : m.requestPage.2.pfa.overcommitted = false) :
    FrameTaken m.pfa m.requestPage.2.pfa m.requestPage.1 := pfaRequestPage_spec h

/-! ## Mappings -/

/-- The frame that `pde_get_phys_addr` finds for an address. -/
def pageFrame (m : Paging) (d v : Nat) : Nat :=
  (m.table ((m.dir d).tables (v / 0x1000 / 1024)) (v / 0x1000 % 1024)).address

/-- The frame of the physical address is the frame of the page. -/
theorem pdeGetPhysAddr_div (m : Paging) (d v : Nat) :
    pdeGetPhysAddr m d v / 0x1000 = pageFrame m d v := by
  unfold pdeGetPhysAddr pageFrame
  have := Nat.mod_lt v (show 0x1000 > 0 by decide)
  dsimp only
  omega

/-- The directory keeps its tables; a new one is in a frame that was free. -/
def DirGrows (m m' : Paging) (d : Nat) : Prop :=
  ∀ i, (m'.dir d).tables i = (m.dir d).tables i ∨
    (m.dir d).tables i = 0 ∧ (m'.dir d).tables i ≠ 0 ∧
      ¬ m.pfa.used ((m'.dir d).tables i / 0x1000) ∧ m'.pfa.used ((m'.dir d).tables i / 0x1000)

/-- Nothing has changed. -/
theorem DirGrows.refl (m : Paging) (d : Nat) : DirGrows m m d := fun _ => .inl rfl

/-- A table that is new in the first step is still there behind the second one. -/
theorem DirGrows.trans (h : DirGrows m m₁ d) (h' : DirGrows m₁ m' d) (hk : Kept u m m₁)
    (hk' : Kept u m₁ m') : DirGrows m m' d := by
  intro i
  rcases h i with heq | ⟨hz, hne, hfree, hused⟩ <;>
    rcases h' i with heq' | ⟨hz', hne', hfree', hused'⟩
  · exact .inl (heq'.trans heq)
  · exact .inr ⟨heq ▸ hz', hne', fun hf => hfree' (hk.used _ hf), hused'⟩
  · rw [heq']
    exact .inr ⟨hz, hne, hfree, hk'.used _ hused⟩
  · exact absurd hz' hne

/-- What a mapping of `v` to the frame `f` does to the directory `d`. -/
structure Mapped (u : Nat → Prop) (m m' : Paging) (d v f : Nat) : Prop where
  kept : Kept u m m'
  grows : DirGrows m m' d
  ne : (m'.dir d).tables (v / 0x1000 / 1024) ≠ 0
  page : pageFrame m' d v = f
  others : ∀ v', (m.dir d).tables (v' / 0x1000 / 1024) ≠ 0 →
    m.pfa.used ((m.dir d).tables (v' / 0x1000 / 1024) / 0x1000) →
    pageFrame m' d v' = f ∨ pageFrame m' d v' = pageFrame m d v'

/-- A new table only takes a free frame and fills a slot of the directory. -/
theorem pdeRequestPage_kept (m : Paging) (d v : Nat) :
    Kept (fun _ => False) m (pdeRequestPage m d v) := by
  unfold pdeRequestPage
  dsimp only
  split
  · exact ((Kept.requestPage _ m).trans (.setDir _ _ id)).trans (.setTable _ _ id)
  · exact .refl _ m

/-- `pde_request_page` makes sure that there is a table. -/
theorem pdeRequestPage_spec (hclean : (pdeRequestPage m d v).pfa.overcommitted = false)
    (hu : ∀ f, u f → m.pfa.used f) (hd : ¬ u (d / 0x1000)) :
    Kept u m (pdeRequestPage m d v) ∧ DirGrows m (pdeRequestPage m d v) d ∧
      ((pdeRequestPage m d v).dir d).tables (v / 0x1000 / 1024) ≠ 0 ∧
      ∀ v', (m.dir d).tables (v' / 0x1000 / 1024) ≠ 0 →
        m.pfa.used ((m.dir d).tables (v' / 0x1000 / 1024) / 0x1000) →
        pageFrame (pdeRequestPage m d v) d v' = pageFrame m d v' := by
  unfold pdeRequestPage at hclean ⊢
  by_cases hz : (m.dir d).tables (v / 0x1000 / 1024) = 0
  · simp only [hz, if_true] at hclean ⊢
    have htaken := requestPage_spec hclean
    have hkept := Kept.requestPage u m
    generalize htm : m.requestPage = r at *
    obtain ⟨t, m₁⟩ := r
    have hdir : m₁.dir = m.dir := by
      rw [← show m.requestPage.2 = m₁ by rw [htm]]
      rfl
    have htab : m₁.table = m.table := by
      rw [← show m.requestPage.2 = m₁ by rw [htm]]
      rfl
    simp only at htaken hkept hclean ⊢
    have ht : ¬ u (t / 0x1000) := fun h => htaken.free (hu _ h)
    have htables : ∀ i, (((m₁.setDir d ((m₁.dir d).install (v / 0x1000 / 1024) t)).setTable t
        fun _ => Page.zero).dir d).tables i =
        if i = v / 0x1000 / 1024 then t else (m.dir d).tables i := by
      intro i
      simp [Paging.setTable, Paging.setDir, PageDirectory.install, hdir, Function.update_apply]
    refine ⟨(hkept.trans (.setDir m₁ _ hd)).trans (.setTable _ _ ht), fun i => ?_, ?_, ?_⟩
    · rw [htables]
      split
      · rename_i hi
        subst hi
        exact .inr ⟨hz, htaken.ne, htaken.free, (htaken.used _).mpr (.inr rfl)⟩
      · exact .inl rfl
    · rw [htables, if_pos rfl]
      exact htaken.ne
    · intro v' hne hused
      have hi : v' / 0x1000 / 1024 ≠ v / 0x1000 / 1024 := fun e => hne (e ▸ hz)
      -- a table in use is not the one just taken
      have htne : (m.dir d).tables (v' / 0x1000 / 1024) ≠ t := fun e => htaken.free (e ▸ hused)
      rw [pageFrame, htables, if_neg hi, pageFrame]
      simp [Paging.setTable, Paging.setDir, htne, htab]
  · rw [if_neg hz]
    exact ⟨.refl u m, .refl m d, hz, fun _ _ _ => rfl⟩

/-- An entry of a table is no part of the directories. -/
@[simp] theorem Paging.setPage_dir (m : Paging) (d v : Nat) (g : Page → Page) :
    (m.setPage d v g).dir = m.dir := rfl

/-- Nor is it a part of the bitmap. -/
@[simp] theorem Paging.setPage_pfa (m : Paging) (d v : Nat) (g : Page → Page) :
    (m.setPage d v g).pfa = m.pfa := rfl

/-- Behind a write to one page every page shows the new frame or what it showed before. -/
theorem pageFrame_setPage (m : Paging) (d v v' : Nat) (g : Page → Page)
    (hg : ∀ x, (g x).address = f) :
    pageFrame (m.setPage d v g) d v' = f ∨
      pageFrame (m.setPage d v g) d v' = pageFrame m d v' := by
  unfold pageFrame Paging.setPage Paging.setTable
  -- the same entry of the same table, or another one
  by_cases ht : (m.dir d).tables (v' / 0x1000 / 1024) = (m.dir d).tables (v / 0x1000 / 1024)
  · by_cases hi : v' / 0x1000 % 1024 = v / 0x1000 % 1024
    · left
      simp [ht, hi, hg]
    · right
      simp [ht, hi]
  · right
    simp [ht]

/-- The page itself shows the new frame. -/
theorem pageFrame_setPage_self (m : Paging) (d v : Nat) (g : Page → Page)
    (hg : ∀ x, (g x).address = f) : pageFrame (m.setPage d v g) d v = f := by
  simp [pageFrame, Paging.setPage, Paging.setTable, hg]

/-- What `pde_map_user_memory` does when a frame for a new table is left. -/
theorem pdeMapUserMemory_spec {physical : Nat}
    (hclean : (pdeMapUserMemory m d v physical).pfa.overcommitted = false)
    (hu : ∀ f, u f → m.pfa.used f) (hd : ¬ u (d / 0x1000))
    (ht : (m.dir d).tables (v / 0x1000 / 1024) ≠ 0 →
      ¬ u ((m.dir d).tables (v / 0x1000 / 1024) / 0x1000)) :
    Mapped u m (pdeMapUserMemory m d v physical) d v (physical / 0x1000) := by
  have hclean' : (pdeRequestPage m d v).pfa.overcommitted = false := hclean
  obtain ⟨hkept, hgrows, hne, hothers⟩ := pdeRequestPage_spec hclean' hu hd
  -- the table is an old one of `d`, or a frame that was free
  have ht' : ¬ u (((pdeRequestPage m d v).dir d).tables (v / 0x1000 / 1024) / 0x1000) := by
    rcases hgrows (v / 0x1000 / 1024) with heq | ⟨-, -, hfree, -⟩
    · rw [heq] at hne ⊢
      exact ht hne
    · exact fun h => hfree (hu _ h)
  unfold pdeMapUserMemory
  generalize pdeRequestPage m d v = m₁ at *
  have hset : Kept u m₁ (m₁.setPage d v fun page =>
      { page with
        present := true
        readWrite := true
        userSupervisor := true
        address := physical / 0x1000 }) :=
    .setTable _ _ ht'
  constructor
  · exact hkept.trans hset
  · exact hgrows.trans (.refl m₁ d) hkept hset
  · exact hne
  · exact pageFrame_setPage_self _ _ _ _ fun _ => rfl
  · intro v' hv' hused
    rw [← hothers v' hv' hused]
    exact pageFrame_setPage _ _ _ _ _ fun _ => rfl

/-! ## Cloning a directory -/

@[simp] theorem forSlots_zero (body : Paging → Nat → Paging) (i : Nat) (m : Paging) :
    forSlots body 0 i m = m := by
  cases m
  rw [forSlots]

/-- The loop runs its body for slot `i` and goes on with the next one. -/
theorem forSlots_succ (body : Paging → Nat → Paging) (n i : Nat) (m : Paging) :
    forSlots body (n + 1) i m = forSlots body n (i + 1) (body m i) := by
  cases m
  rw [forSlots]

/-- What each round keeps, the loop keeps. -/
theorem forSlots_kept {body : Paging → Nat → Paging}
    (hbody : ∀ m i, Kept u m (body m i)) (n : Nat) :
    ∀ i m, Kept u m (forSlots body n i m) := by
  induction n with
  | zero =>
    intro i m
    rw [forSlots_zero]
    exact .refl u m
  | succ n ih =>
    intro i m
    rw [forSlots_succ]
    exact (hbody m i).trans (ih (i + 1) (body m i))

/-- What every slot keeps holds after the loop, unless a request failed on the way. -/
theorem forSlots_invariant {body : Paging → Nat → Paging} {P : Paging → Prop}
    (hbody : ∀ m i, Kept u m (body m i))
    (hstep : ∀ m i, P m → (body m i).pfa.overcommitted = false → P (body m i)) (n : Nat) :
    ∀ i m, P m → (forSlots body n i m).pfa.overcommitted = false → P (forSlots body n i m) := by
  induction n with
  | zero =>
    intro i m hP _
    rwa [forSlots_zero]
  | succ n ih =>
    intro i m hP hclean
    rw [forSlots_succ] at hclean ⊢
    -- the overcommitment is never taken back, so there was none before
    have hclean' := (forSlots_kept hbody n (i + 1) (body m i)).clean hclean
    exact ih (i + 1) (body m i) (hstep m i hP hclean') hclean

/-- What the slot `j` establishes, and every slot keeps, holds after the loop. -/
theorem forSlots_slot (body : Paging → Nat → Paging) {P Q : Paging → Prop} {j : Nat}
    (hQ : ∀ m i, Q m → Q (body m i)) (hset : ∀ m, Q m → P (body m j))
    (hP : ∀ m i, P m → P (body m i)) (n : Nat) :
    ∀ i m, i ≤ j → j < i + n → Q m → P (forSlots body n i m) := by
  -- once slot `j` is done, the rest of the loop keeps it
  have hkeep : ∀ n i m, P m → P (forSlots body n i m) := by
    intro n
    induction n with
    | zero =>
      intro i m hm
      rwa [forSlots_zero]
    | succ n ih =>
      intro i m hm
      rw [forSlots_succ]
      exact ih (i + 1) (body m i) (hP m i hm)
  induction n with
  | zero =>
    intro i m hle hlt _
    omega
  | succ n ih =>
    intro i m hle hlt hm
    rw [forSlots_succ]
    -- the slot `j` is the next one, or still ahead
    obtain rfl | hne := eq_or_ne i j
    · exact hkeep n (i + 1) _ (hset m hm)
    · exact ih (i + 1) (body m i) (by omega) (by omega) (hQ m i hm)

variable {c : Nat} {m₀ : Paging}

/-- The directory `c` lies outside the frames in use before, and so do its
    tables, apart from those of the kernel heap. -/
structure FreshDir (m₀ m : Paging) (c : Nat) : Prop where
  kept : Kept m₀.pfa.used m₀ m
  tables : ∀ i, ¬ heapTable i → (m.dir c).tables i = 0 ∨
    ¬ m₀.pfa.used ((m.dir c).tables i / 0x1000) ∧ m.pfa.used ((m.dir c).tables i / 0x1000)

/-- The new directory can be written, as long as the slots outside the heap stay. -/
theorem FreshDir.setDir {x : PageDirectory} (h : FreshDir m₀ m c) (hc : ¬ m₀.pfa.used (c / 0x1000))
    (hx : ∀ i, ¬ heapTable i → x.tables i = (m.dir c).tables i) : FreshDir m₀ (m.setDir c x) c where
  kept := h.kept.trans (.setDir m x hc)
  tables i hi := by
    have hsame : ((m.setDir c x).dir c).tables i = (m.dir c).tables i := by
      simp [Paging.setDir, hx i hi]
    rw [hsame]
    exact h.tables i hi

/-- A round of `pde_clone` writes to frames that were free. -/
theorem pdeCloneSlot_kept (d c : Nat) (m : Paging) (i : Nat) :
    Kept (fun _ => False) m (pdeCloneSlot d c m i) := by
  unfold pdeCloneSlot
  dsimp only
  split
  · exact .setDir m _ id
  · split
    · exact ((Kept.requestPage _ m).trans (.setDir _ _ id)).trans (.setTable _ _ id)
    · exact .refl _ m

/-- The tables of the copy stay in frames that were free before. -/
theorem FreshDir.pdeCloneSlot (h : FreshDir m₀ m c) (hc : ¬ m₀.pfa.used (c / 0x1000))
    (hclean : (pdeCloneSlot d c m i).pfa.overcommitted = false) :
    FreshDir m₀ (pdeCloneSlot d c m i) c := by
  unfold MishaOS.pdeCloneSlot at hclean ⊢
  by_cases hheap : heapTable i
  · simp only [if_pos hheap]
    apply h.setDir hc
    intro j hj
    have hji : j ≠ i := fun e => hj (e ▸ hheap)
    simp [hji]
  · by_cases htable : (m.dir d).tables i ≠ 0 ∧ (m.dir d).tables i ≠ 0xFFFFFFFF
    · simp only [if_neg hheap, if_pos htable] at hclean ⊢
      have htaken := requestPage_spec hclean
      -- the copy lies in a frame that was free, also before the loop
      have hfree : ¬ m₀.pfa.used (m.requestPage.1 / 0x1000) :=
        fun hu => htaken.free (h.kept.used _ hu)
      constructor
      · exact ((h.kept.trans (.requestPage _ m)).trans (.setDir _ _ hc)).trans (.setTable _ _ hfree)
      · intro j hj
        rcases eq_or_ne j i with rfl | hji
        · right
          have hcopy := (htaken.used _).mpr (.inr rfl)
          simpa [Paging.setTable, Paging.setDir] using And.intro hfree hcopy
        · rcases h.tables j hj with hz | ⟨hfree, hused⟩
          · left
            simpa [Paging.setTable, Paging.setDir, Paging.requestPage, hji] using hz
          · right
            have hused := (htaken.used _).mpr (.inl hused)
            simpa [Paging.setTable, Paging.setDir, Paging.requestPage, hji]
              using And.intro hfree hused
    · simp only [if_neg hheap, if_neg htable]
      exact h

/-- A round of `pde_init` writes to frames that were free. -/
theorem pdeInitSlot_kept (c : Nat) (m : Paging) (i : Nat) :
    Kept (fun _ => False) m (pdeInitSlot c m i) := by
  unfold pdeInitSlot
  dsimp only
  split
  · exact .setDir m _ id
  · split
    · exact (Kept.requestPage _ m).trans (.setDir _ _ id)
    · exact .refl _ m

/-- A request does not touch the new directory. -/
theorem FreshDir.requestPage (h : FreshDir m₀ m c) : FreshDir m₀ m.requestPage.2 c where
  kept := h.kept.trans (.requestPage _ m)
  tables i hi := by
    rcases h.tables i hi with hz | ⟨hfree, hused⟩
    · exact .inl hz
    · exact .inr ⟨hfree, (Kept.requestPage (fun _ => False) m).used _ hused⟩

/-- The tables of a new directory stay in frames that were free before. -/
theorem FreshDir.pdeInitSlot (h : FreshDir m₀ m c) (hc : ¬ m₀.pfa.used (c / 0x1000)) :
    FreshDir m₀ (pdeInitSlot c m i) c := by
  unfold MishaOS.pdeInitSlot
  dsimp only
  -- a slot is installed, requested, or left alone
  split
  · apply h.setDir hc
    intro j _
    rcases eq_or_ne j i with rfl | hji
    · simp [PageDirectory.install]
    · simp [PageDirectory.install]
  · split
    · rename_i hheap
      apply h.requestPage.setDir hc
      intro j hj
      have hji : j ≠ i := fun e => hj (e ▸ hheap)
      simp [PageDirectory.install, hji]
    · exact h

/-- `pde_init` writes to frames that were free. -/
theorem pdeInit_kept (m : Paging) (c : Nat) : Kept (fun _ => False) m (pdeInit m c) :=
  (Kept.setDir m _ id).trans (forSlots_kept (pdeInitSlot_kept c) 1024 0 _)

/-- The loop of `pde_init` over all slots. -/
theorem FreshDir.pdeInit (h : FreshDir m₀ m c) (hc : ¬ m₀.pfa.used (c / 0x1000))
    (hclean : (pdeInit m c).pfa.overcommitted = false) : FreshDir m₀ (pdeInit m c) c := by
  unfold MishaOS.pdeInit at hclean ⊢
  apply forSlots_invariant (P := fun m => FreshDir m₀ m c) (pdeInitSlot_kept c)
    (fun m i hm _ => hm.pdeInitSlot hc) 1024 0 _ _ hclean
  exact h.setDir hc fun _ _ => rfl

/-- A run of pages begins with the frame of its address. -/
theorem mem_runFrames_self {a n : Nat} (ha : a < 4294967296) (hn : 0 < n) :
    a / 0x1000 ∈ runFrames a n := by
  refine List.mem_map.mpr ⟨a, List.mem_map.mpr ⟨0, List.mem_range.mpr hn, ?_⟩, rfl⟩
  simpa using u32_of_lt ha

/-- A clone made of frames that were free. -/
structure Cloned (m m' : Paging) (c : Nat) : Prop extends FreshDir m m' c where
  ne : c ≠ 0
  lt : c < 4294967296
  frames : ∀ f ∈ runFrames c 3, ¬ m.pfa.used f ∧ m'.pfa.used f

/-- A slot of the kernel heap is copied; other slots are left to `pde_clone`. -/
theorem pdeCloneSlot_heap {j : Nat} {x : Nat → Nat} (hdc : d ≠ c) (hx : (m.dir d).tables = x) :
    ((pdeCloneSlot d c m i).dir d).tables = x ∧
      (heapTable j → (i = j ∨ (m.dir c).tables j = x j) →
        ((pdeCloneSlot d c m i).dir c).tables j = x j) := by
  unfold pdeCloneSlot
  dsimp only
  -- the heap shares its tables; another slot gets a new one
  by_cases hheap : heapTable i
  · rw [if_pos hheap]
    refine ⟨by simpa [Paging.setDir, hdc] using hx, fun _ hold => ?_⟩
    obtain rfl | hne := eq_or_ne j i
    · simp [Paging.setDir, hx]
    · simpa [Paging.setDir, hne] using hold.resolve_left (Ne.symm hne)
  · rw [if_neg hheap]
    have hne : heapTable j → j ≠ i := fun hj e => hheap (e ▸ hj)
    split
    · refine ⟨by simpa [Paging.setTable, Paging.setDir, Paging.requestPage, hdc] using hx,
        fun hj hold => ?_⟩
      have hold := hold.resolve_left (Ne.symm (hne hj))
      simpa [Paging.setTable, Paging.setDir, Paging.requestPage, hne hj] using hold
    · exact ⟨hx, fun hj hold => hold.resolve_left (Ne.symm (hne hj))⟩

/-- `pde_init` leaves a slot alone that has a table. -/
theorem pdeInitSlot_keeps {j : Nat} (hj : (m.dir c).tables j ≠ 0) :
    ((pdeInitSlot c m i).dir c).tables j = (m.dir c).tables j := by
  unfold pdeInitSlot
  dsimp only
  -- the slot of this round has a table, so it is only marked
  obtain rfl | hne := eq_or_ne j i
  · simp [hj, Paging.setDir, PageDirectory.install]
  · split
    · simp [Paging.setDir, PageDirectory.install]
    · split
      · simp [Paging.setDir, Paging.requestPage, PageDirectory.install, hne]
      · rfl

/-- What `pde_clone` gives back when the frames suffice. -/
theorem pdeClone_spec (h : pdeClone m d = some (c, m')) (hclean : m'.pfa.overcommitted = false) :
    Cloned m m' c := by
  simp only [pdeClone, pdeAlloc, Option.bind_eq_bind, Option.bind_eq_some_iff, Option.some.injEq,
    Prod.mk.injEq, Prod.exists] at h
  obtain ⟨a, m₁, ⟨b, p, hp, rfl, rfl⟩, rfl, rfl⟩ := h
  obtain ⟨hused, hover, htaken⟩ := pfaRequestPages_spec hp
  set m₁ := ({ m with pfa := p } : Paging).setDir b ⟨fun _ => 0, fun _ => 0, 0⟩ with hm₁
  set m₂ := forSlots (pdeCloneSlot d b) 1024 0 m₁ with hm₂
  -- no request failed on the way
  have hkept₁ : Kept (fun _ => False) m₁ m₂ := forSlots_kept (pdeCloneSlot_kept d b) 1024 0 m₁
  have hkept₂ := pdeInit_kept m₂ b
  have hclean₂ := hkept₂.clean hclean
  have hf := htaken (hkept₁.clean hclean₂)
  have hb : ¬ m.pfa.used (b / 0x1000) := hf.free _ (mem_runFrames_self hf.lt (by decide))
  have h₁ : FreshDir m m₁ b := by
    constructor
    · have hpfa : Kept m.pfa.used m { m with pfa := p } :=
        ⟨hused, hover, fun _ _ => rfl, fun _ _ => rfl, rfl⟩
      exact hpfa.trans (.setDir _ _ hb)
    · intro i _
      left
      simp [hm₁, Paging.setDir]
  have h₂ : FreshDir m m₂ b := forSlots_invariant (P := fun m' => FreshDir m m' b)
    (pdeCloneSlot_kept d b) (fun _ _ hm => hm.pdeCloneSlot hb) 1024 0 m₁ h₁ hclean₂
  have h₃ := h₂.pdeInit hb hclean
  exact { h₃ with
    ne := hf.ne
    lt := hf.lt
    frames := fun f hmem =>
      ⟨hf.free f hmem, (hkept₁.trans hkept₂).used f ((hf.used f).mpr (.inr hmem))⟩ }

/-- `pde_clone` writes to frames that were free. -/
theorem pdeClone_kept (h : pdeClone m d = some (c, m')) : Kept (fun _ => False) m m' := by
  simp only [pdeClone, pdeAlloc, Option.bind_eq_bind, Option.bind_eq_some_iff, Option.some.injEq,
    Prod.mk.injEq, Prod.exists] at h
  obtain ⟨a, m₁, ⟨b, p, hp, rfl, rfl⟩, rfl, rfl⟩ := h
  obtain ⟨hused, hover, -⟩ := pfaRequestPages_spec hp
  have hpfa : Kept (fun _ => False) m { m with pfa := p } :=
    ⟨hused, hover, fun _ _ => rfl, fun _ _ => rfl, rfl⟩
  exact ((hpfa.trans (.setDir _ _ id)).trans (forSlots_kept (pdeCloneSlot_kept d b) 1024 0 _)).trans
    (pdeInit_kept _ b)

/-- A clone shares the tables of the kernel heap. -/
theorem pdeClone_heap {j : Nat} (h : pdeClone m d = some (c, m')) (hdc : d ≠ c) (hj : heapTable j)
    (hne : (m.dir d).tables j ≠ 0) : (m'.dir c).tables j = (m.dir d).tables j := by
  simp only [pdeClone, pdeAlloc, Option.bind_eq_bind, Option.bind_eq_some_iff, Option.some.injEq,
    Prod.mk.injEq, Prod.exists] at h
  obtain ⟨a, m₁, ⟨b, p, -, rfl, rfl⟩, rfl, rfl⟩ := h
  set m₁ := ({ m with pfa := p } : Paging).setDir b ⟨fun _ => 0, fun _ => 0, 0⟩ with hm₁
  have hstart : (m₁.dir d).tables = (m.dir d).tables := by
    simp [hm₁, Paging.setDir, hdc]
  have hrange : 0 ≤ j ∧ j < 0 + 1024 := by
    have hend : HEAP_END_TABLE = 576 := rfl
    exact ⟨Nat.zero_le _, by have := hj.2; omega⟩
  -- the loop of `pde_clone` copies the slot, and `pde_init` does not touch it again
  have hcopied : ((forSlots (pdeCloneSlot d b) 1024 0 m₁).dir b).tables j = (m.dir d).tables j := by
    have hslot := forSlots_slot (pdeCloneSlot d b) (j := j)
      (Q := fun m' => (m'.dir d).tables = (m.dir d).tables)
      (P := fun m' => (m'.dir d).tables = (m.dir d).tables ∧
        (m'.dir b).tables j = (m.dir d).tables j)
      (fun m' i hm => (pdeCloneSlot_heap (j := j) hdc hm).1)
      (fun m' hm => ⟨(pdeCloneSlot_heap (j := j) hdc hm).1,
        (pdeCloneSlot_heap hdc hm).2 hj (.inl rfl)⟩)
      (fun m' i hm => ⟨(pdeCloneSlot_heap (j := j) hdc hm.1).1,
        (pdeCloneSlot_heap hdc hm.1).2 hj (.inr hm.2)⟩)
      1024 0 m₁ hrange.1 hrange.2 hstart
    exact hslot.2
  unfold pdeInit
  apply forSlots_slot (pdeInitSlot b) (j := j)
    (Q := fun m' => (m'.dir b).tables j = (m.dir d).tables j)
    (P := fun m' => (m'.dir b).tables j = (m.dir d).tables j) _ _ _ 1024 0 _ hrange.1 hrange.2
  · simpa [Paging.setDir] using hcopied
  all_goals
    intros
    rename_i hm
    rw [pdeInitSlot_keeps (hm ▸ hne)]
    exact hm

/-! ## Tables are whole frames -/

/-- The search answers with the address of a page. -/
theorem pfaRequestPageFrom_aligned (n : Nat) : ∀ p, (pfaRequestPageFrom n p).1 % 0x1000 = 0 := by
  induction n with
  | zero => exact fun p => rfl
  | succ n ih =>
    intro p
    rw [pfaRequestPageFrom]
    split
    · exact ih _
    · exact Nat.mul_mod_left _ _

/-- So does `pfa_request_page`. -/
theorem requestPage_aligned (m : Paging) : m.requestPage.1 % 0x1000 = 0 :=
  pfaRequestPageFrom_aligned _ _

/-- The tables of the directory outside the kernel heap start at frames; none is `0xFFFFFFFF`. -/
def Aligned (m : Paging) (d : Nat) : Prop := ∀ i, ¬ heapTable i → (m.dir d).tables i % 0x1000 = 0

/-- A new table starts at a page. -/
theorem pdeRequestPage_aligned (h : Aligned m d) (v : Nat) : Aligned (pdeRequestPage m d v) d := by
  unfold pdeRequestPage
  dsimp only
  split
  · intro i hi
    have hreq := requestPage_aligned m
    obtain rfl | hne := eq_or_ne i (v / 0x1000 / 1024)
    · simpa [Paging.setTable, Paging.setDir, PageDirectory.install] using hreq
    · simpa [Paging.setTable, Paging.setDir, PageDirectory.install, Paging.requestPage, hne]
        using h i hi
  · exact h

/-- The tables of the copy start at pages. -/
theorem pdeCloneSlot_aligned (h : Aligned m c) (d i : Nat) : Aligned (pdeCloneSlot d c m i) c := by
  intro j hj
  unfold pdeCloneSlot
  dsimp only
  -- a slot of the heap, a copied one, or an empty one
  split
  · rename_i hheap
    have hne : j ≠ i := fun e => hj (e ▸ hheap)
    simpa [Paging.setDir, hne] using h j hj
  · split
    · have hreq := requestPage_aligned m
      obtain rfl | hne := eq_or_ne j i
      · simpa [Paging.setTable, Paging.setDir] using hreq
      · simpa [Paging.setTable, Paging.setDir, Paging.requestPage, hne] using h j hj
    · exact h j hj

/-- The tables of a new directory start at pages. -/
theorem pdeInitSlot_aligned (h : Aligned m c) (i : Nat) : Aligned (pdeInitSlot c m i) c := by
  intro j hj
  unfold pdeInitSlot
  dsimp only
  split
  · obtain rfl | hne := eq_or_ne j i
    · simpa [Paging.setDir, PageDirectory.install] using h j hj
    · simpa [Paging.setDir, PageDirectory.install, hne] using h j hj
  · split
    · rename_i hheap
      have hne : j ≠ i := fun e => hj (e ▸ hheap)
      simpa [Paging.setDir, PageDirectory.install, Paging.requestPage, hne] using h j hj
    · exact h j hj

/-- What each round keeps holds behind the loop. -/
theorem forSlots_always {body : Paging → Nat → Paging} {P : Paging → Prop}
    (hbody : ∀ m i, P m → P (body m i)) (n : Nat) : ∀ i m, P m → P (forSlots body n i m) := by
  induction n with
  | zero =>
    intro i m hm
    rwa [forSlots_zero]
  | succ n ih =>
    intro i m hm
    rw [forSlots_succ]
    exact ih (i + 1) (body m i) (hbody m i hm)

/-- All tables of the directory that `pde_clone` gives back start at pages. -/
theorem pdeClone_aligned (h : pdeClone m d = some (c, m')) : Aligned m' c := by
  simp only [pdeClone, pdeAlloc, Option.bind_eq_bind, Option.bind_eq_some_iff, Option.some.injEq,
    Prod.mk.injEq, Prod.exists] at h
  obtain ⟨a, m₁, ⟨b, p, -, rfl, rfl⟩, rfl, rfl⟩ := h
  unfold pdeInit
  apply forSlots_always (P := fun m => Aligned m b) fun m i hm => pdeInitSlot_aligned hm i
  -- the loop keeps the alignment, and the copy starts empty
  have hcopied : Aligned (forSlots (pdeCloneSlot d b) 1024 0
      (({ m with pfa := p } : Paging).setDir b ⟨fun _ => 0, fun _ => 0, 0⟩)) b := by
    apply forSlots_always (P := fun m => Aligned m b) fun m i hm => pdeCloneSlot_aligned hm d i
    intro i _
    simp [Paging.setDir]
  intro i hi
  simpa [Paging.setDir] using hcopied i hi

/-! ## The pages of a clone -/

/-- The slot `j` of the clone leads to a copy of the table in the slot of the original. -/
structure SlotCopied (m₀ m : Paging) (d c j : Nat) : Prop where
  fresh : FreshDir m₀ m c
  ne : (m.dir c).tables j ≠ 0
  copy : m.table ((m.dir c).tables j) = m₀.table ((m₀.dir d).tables j)

variable {j : Nat}

/-- The slot `j` is copied, and a copy is not written again. -/
theorem SlotCopied.of_slot (hc : ¬ m₀.pfa.used (c / 0x1000)) (hd : m₀.pfa.used (d / 0x1000))
    (hj : ¬ heapTable j) (hne : (m₀.dir d).tables j ≠ 0) (hne' : (m₀.dir d).tables j ≠ 0xFFFFFFFF)
    (ht : m₀.pfa.used ((m₀.dir d).tables j / 0x1000)) (h : FreshDir m₀ m c)
    (hclean : (pdeCloneSlot d c m j).pfa.overcommitted = false) :
    SlotCopied m₀ (pdeCloneSlot d c m j) d c j := by
  have hfresh := h.pdeCloneSlot hc hclean
  have hdir : m.dir d = m₀.dir d := h.kept.dir d hd
  have hdc : d ≠ c := fun e => hc (e ▸ hd)
  unfold pdeCloneSlot at hclean hfresh ⊢
  -- the original has not changed since the loop began
  have hcond : (m.dir d).tables j ≠ 0 ∧ (m.dir d).tables j ≠ 0xFFFFFFFF := by
    rw [hdir]
    exact ⟨hne, hne'⟩
  simp only [if_neg hj, if_pos hcond] at hclean hfresh ⊢
  have htaken := requestPage_spec hclean
  refine ⟨hfresh, ?_, ?_⟩
  · simpa [Paging.setTable, Paging.setDir] using htaken.ne
  · -- the original is in use, the copy was not
    have hsame : m.table ((m₀.dir d).tables j) = m₀.table ((m₀.dir d).tables j) := h.kept.table _ ht
    simp [Paging.setTable, Paging.setDir, Paging.requestPage, hdc, hdir, hsame]

/-- A round for another slot leaves the copy of slot `j` as it is. -/
theorem SlotCopied.pdeCloneSlot (h : SlotCopied m₀ m d c j) (hc : ¬ m₀.pfa.used (c / 0x1000))
    (hj : ¬ heapTable j) (hij : i ≠ j)
    (hclean : (pdeCloneSlot d c m i).pfa.overcommitted = false) :
    SlotCopied m₀ (pdeCloneSlot d c m i) d c j := by
  have hfresh := h.fresh.pdeCloneSlot hc hclean
  have hused : m.pfa.used ((m.dir c).tables j / 0x1000) :=
    ((h.fresh.tables j hj).resolve_left h.ne).2
  unfold MishaOS.pdeCloneSlot at hclean hfresh ⊢
  by_cases hheap : heapTable i
  · simp only [if_pos hheap] at hfresh ⊢
    refine ⟨hfresh, ?_, ?_⟩
    · simpa [Paging.setDir, hij.symm] using h.ne
    · simpa [Paging.setDir, hij.symm] using h.copy
  · by_cases htable : (m.dir d).tables i ≠ 0 ∧ (m.dir d).tables i ≠ 0xFFFFFFFF
    · simp only [if_neg hheap, if_pos htable] at hclean hfresh ⊢
      have htaken := requestPage_spec hclean
      -- a new table does not get the frame of the copy, which is in use
      have htne : (m.dir c).tables j ≠ m.requestPage.1 := fun e => htaken.free (e ▸ hused)
      refine ⟨hfresh, ?_, ?_⟩
      · simpa [Paging.setTable, Paging.setDir, Paging.requestPage, hij.symm] using h.ne
      · have hcopy := h.copy
        simp only [Paging.setTable, Paging.setDir, Function.update_self, ne_eq, hij.symm,
          not_false_eq_true, Function.update_of_ne]
        rw [show (m.requestPage.2.dir c).tables j = (m.dir c).tables j from rfl,
          Function.update_of_ne htne]
        exact hcopy
    · simp only [if_neg hheap, if_neg htable] at hfresh ⊢
      exact h

/-- A round of `pde_init` writes to no table. -/
theorem pdeInitSlot_table (c : Nat) (m : Paging) (i : Nat) :
    (pdeInitSlot c m i).table = m.table := by
  unfold pdeInitSlot
  dsimp only
  split
  · rfl
  · split <;> rfl

/-- `pde_init` writes to no table. -/
theorem pdeInit_table (m : Paging) (c : Nat) : (pdeInit m c).table = m.table := by
  unfold pdeInit
  apply forSlots_always (P := fun x => x.table = m.table)
  · exact fun x i hx => (pdeInitSlot_table c x i).trans hx
  · rfl

/-- `pde_init` leaves the slots alone that have a table. -/
theorem pdeInit_keeps (hj : (m.dir c).tables j ≠ 0) :
    ((pdeInit m c).dir c).tables j = (m.dir c).tables j := by
  unfold pdeInit
  apply forSlots_always (P := fun x => (x.dir c).tables j = (m.dir c).tables j)
  · exact fun x i hx => (pdeInitSlot_keeps (hx ▸ hj)).trans hx
  · simp [Paging.setDir]

/-- The loop of `pde_clone`: a request that fails later is not forgotten, so each
    slot can be taken to have succeeded. -/
theorem FreshDir.slotCopied (h : FreshDir m₀ m c) (hc : ¬ m₀.pfa.used (c / 0x1000))
    (hd : m₀.pfa.used (d / 0x1000)) (hj : ¬ heapTable j) (hne : (m₀.dir d).tables j ≠ 0)
    (hne' : (m₀.dir d).tables j ≠ 0xFFFFFFFF) (ht : m₀.pfa.used ((m₀.dir d).tables j / 0x1000))
    (hlt : j < 1024) :
    (forSlots (MishaOS.pdeCloneSlot d c) 1024 0 m).pfa.overcommitted = false →
      SlotCopied m₀ (forSlots (MishaOS.pdeCloneSlot d c) 1024 0 m) d c j := by
  -- before slot `j` the directory is fresh, behind it the slot is copied
  apply forSlots_slot (MishaOS.pdeCloneSlot d c) (j := j)
    (Q := fun x => x.pfa.overcommitted = false → FreshDir m₀ x c)
    (P := fun x => x.pfa.overcommitted = false → SlotCopied m₀ x d c j)
    _ _ _ 1024 0 m (Nat.zero_le _) (by omega) fun _ => h
  · intro x i hx hclean
    exact (hx ((pdeCloneSlot_kept d c x i).clean hclean)).pdeCloneSlot hc hclean
  · intro x hx hclean
    exact .of_slot hc hd hj hne hne' ht (hx ((pdeCloneSlot_kept d c x j).clean hclean)) hclean
  · intro x i hx hclean
    have hx := hx ((pdeCloneSlot_kept d c x i).clean hclean)
    obtain rfl | hij := eq_or_ne i j
    · exact .of_slot hc hd hj hne hne' ht hx.fresh hclean
    · exact hx.pdeCloneSlot hc hj hij hclean

/-- A page of the clone is backed by the frame that backs it in the original. -/
theorem pdeClone_copied (h : pdeClone m d = some (c, m')) (hclean : m'.pfa.overcommitted = false)
    (hd : m.pfa.used (d / 0x1000)) (hj : ¬ heapTable j) (hne : (m.dir d).tables j ≠ 0)
    (hne' : (m.dir d).tables j ≠ 0xFFFFFFFF) (ht : m.pfa.used ((m.dir d).tables j / 0x1000))
    (hlt : j < 1024) :
    (m'.dir c).tables j ≠ 0 ∧ m'.table ((m'.dir c).tables j) = m.table ((m.dir d).tables j) := by
  simp only [pdeClone, pdeAlloc, Option.bind_eq_bind, Option.bind_eq_some_iff, Option.some.injEq,
    Prod.mk.injEq, Prod.exists] at h
  obtain ⟨a, m₁, ⟨b, p, hp, rfl, rfl⟩, rfl, rfl⟩ := h
  obtain ⟨hused, hover, htaken⟩ := pfaRequestPages_spec hp
  have hclean₂ := (pdeInit_kept _ b).clean hclean
  have hf := htaken ((forSlots_kept (pdeCloneSlot_kept d b) 1024 0 _).clean hclean₂)
  have hb : ¬ m.pfa.used (b / 0x1000) := hf.free _ (mem_runFrames_self hf.lt (by decide))
  -- the directory itself is in a frame that was free
  have hstart :
      FreshDir m (({ m with pfa := p } : Paging).setDir b ⟨fun _ => 0, fun _ => 0, 0⟩) b := by
    constructor
    · have hpfa : Kept m.pfa.used m { m with pfa := p } :=
        ⟨hused, hover, fun _ _ => rfl, fun _ _ => rfl, rfl⟩
      exact hpfa.trans (.setDir _ _ hb)
    · intro i _
      left
      simp [Paging.setDir]
  have hc := hstart.slotCopied hb hd hj hne hne' ht hlt hclean₂
  rw [pdeInit_table, pdeInit_keeps hc.ne]
  exact ⟨hc.ne, hc.copy⟩

end MishaOS
