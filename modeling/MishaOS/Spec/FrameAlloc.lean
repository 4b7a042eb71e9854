import MishaOS.Native.Paging

/-!
# The frame allocator

What the requests and releases of `paging.c` do to the set of frames in use.
`overcommitted` is never cleared, so a state in which it is not set has only
seen requests that were answered with free frames.

## Key results

- `pfaRequestPage_spec`, `pfaRequestPages_spec`: the frames a request takes.
- `foldl_pfaFreePage_used`: the frames a sequence of releases leaves.
-/

namespace MishaOS

/-- The frame is in use. -/
def Pfa.used (p : Pfa) (f : Nat) : Prop := pfaGetBit p f = true

variable {p p' : Pfa} {a f pages : Nat} {l : List Nat}

/-- The frame of an address is in the bitmap, or the first one behind it. -/
theorem u32_div_le (a : Nat) : u32 a / 0x1000 ≤ PFA_BITS := by
  have := u32_lt a
  unfold PFA_BITS
  omega

/-! ## Releases -/

/-- Behind `pfa_free_page` the frame is free. -/
theorem pfaFreePage_used : (pfaFreePage p a).used f ↔ p.used f ∧ f ≠ a / 0x1000 := by
  unfold Pfa.used pfaFreePage
  by_cases hbit : pfaGetBit p (a / 0x1000) = true
  · have hle : ¬ a / 0x1000 > PFA_BITS := by
      intro hgt
      simp [pfaGetBit, hgt] at hbit
    rw [if_pos hbit]
    rcases eq_or_ne f (a / 0x1000) with rfl | hne
    · simp [pfaGetBit, pfaSetBit, hle]
    · simp [pfaGetBit, pfaSetBit, hle, hne]
  · rw [if_neg hbit]
    -- a frame that is not in use is left alone
    exact ⟨fun h => ⟨h, fun e => hbit (e ▸ h)⟩, And.left⟩

/-- So are the frames of a list. -/
theorem foldl_pfaFreePage_used :
    (l.foldl pfaFreePage p).used f ↔ p.used f ∧ f ∉ l.map (· / 0x1000) := by
  induction l generalizing p with
  | nil => simp
  | cons a l ih =>
    rw [List.foldl_cons, ih, pfaFreePage_used, List.map_cons, List.mem_cons, not_or, and_assoc]

/-- Freeing frames asks for none. -/
theorem foldl_pfaFreePage_overcommitted :
    (l.foldl pfaFreePage p).overcommitted = p.overcommitted := by
  induction l generalizing p with
  | nil => rfl
  | cons a l ih =>
    rw [List.foldl_cons, ih]
    unfold pfaFreePage pfaSetBit
    split
    · split <;> rfl
    · rfl

/-! ## Requests -/

/-- Behind `pfa_lock_page` the frame is used. -/
theorem pfaLockPage_used (ha : a / 0x1000 ≤ PFA_BITS) :
    (pfaLockPage p a).used f ↔ p.used f ∨ f = a / 0x1000 := by
  have hle : ¬ a / 0x1000 > PFA_BITS := by omega
  unfold Pfa.used pfaLockPage
  by_cases hbit : pfaGetBit p (a / 0x1000) = true
  · rw [if_pos hbit]
    exact ⟨.inl, fun h => h.elim id fun e => e ▸ hbit⟩
  · rw [if_neg hbit]
    rcases eq_or_ne f (a / 0x1000) with rfl | hne
    · simp [pfaGetBit, pfaSetBit, hle]
    · simp [pfaGetBit, pfaSetBit, hle, hne]

/-- Locking a frame asks for none. -/
@[simp] theorem pfaLockPage_overcommitted : (pfaLockPage p a).overcommitted = p.overcommitted := by
  unfold pfaLockPage pfaSetBit
  split
  · rfl
  · split <;> rfl

/-- The frames of a list are used. -/
theorem foldl_pfaLockPage_used (hl : ∀ a ∈ l, a / 0x1000 ≤ PFA_BITS) :
    (l.foldl pfaLockPage p).used f ↔ p.used f ∨ f ∈ l.map (· / 0x1000) := by
  induction l generalizing p with
  | nil => simp
  | cons a l ih =>
    rw [List.foldl_cons, ih fun b hb => hl b (List.mem_cons_of_mem _ hb),
      pfaLockPage_used (hl a List.mem_cons_self), List.map_cons, List.mem_cons, or_assoc]

/-- A request that is answered takes one free frame. -/
theorem pfaRequestPageFrom_spec {n : Nat} (hn : n + p.pageIndex ≤ PFA_BITS)
    (h : pfaRequestPageFrom n p = (a, p')) :
    p'.overcommitted = p.overcommitted ∧ (a ≠ 0 → a < 4294967296 ∧ ¬ p.used (a / 0x1000) ∧
      ∀ f, p'.used f ↔ p.used f ∨ f = a / 0x1000) ∧ ∀ f, p.used f → p'.used f := by
  induction n generalizing p with
  | zero =>
    obtain ⟨rfl, rfl⟩ : 0 = a ∧ p = p' := by simpa [pfaRequestPageFrom] using h
    exact ⟨rfl, by simp, fun _ => id⟩
  | succ n ih =>
    rw [pfaRequestPageFrom] at h
    split at h
    · -- only `page_index` changes on the way
      exact ih (p := { p with pageIndex := p.pageIndex + 1 }) (by simp; omega) h
    -- the frame at the cursor is free: it is the one that is locked
    · rename_i hfree
      obtain ⟨rfl, rfl⟩ : p.pageIndex * 0x1000 = a ∧ pfaLockPage p (p.pageIndex * 0x1000) = p' := by
        simpa using h
      have hdiv : p.pageIndex * 0x1000 / 0x1000 = p.pageIndex := Nat.mul_div_cancel _ (by decide)
      have hle : p.pageIndex * 0x1000 / 0x1000 ≤ PFA_BITS := by omega
      have hlt : p.pageIndex * 0x1000 < 4294967296 := by
        have : PFA_BITS = 1048576 := rfl
        omega
      have hused := fun f => pfaLockPage_used (p := p) (f := f) hle
      refine ⟨pfaLockPage_overcommitted, fun _ => ⟨hlt, ?_, hused⟩,
        fun f hf => (hused f).mpr (.inl hf)⟩
      rw [hdiv]
      exact hfree

/-- `pfa_request_page`, as long as it finds a frame. -/
structure FrameTaken (p p' : Pfa) (a : Nat) : Prop where
  clean : p.overcommitted = false
  ne : a ≠ 0
  lt : a < 4294967296
  free : ¬ p.used (a / 0x1000)
  used : ∀ f, p'.used f ↔ p.used f ∨ f = a / 0x1000

/-- A request that is met takes a free frame. -/
theorem pfaRequestPage_spec (h : (pfaRequestPage p).2.overcommitted = false) :
    FrameTaken p (pfaRequestPage p).2 (pfaRequestPage p).1 := by
  unfold pfaRequestPage at h ⊢
  by_cases hn : p.pageIndex ≤ PFA_BITS
  · generalize hr : pfaRequestPageFrom (PFA_BITS - p.pageIndex) p = r at h ⊢
    obtain ⟨a, p'⟩ := r
    obtain ⟨hover, hspec, -⟩ := pfaRequestPageFrom_spec (by omega) hr
    simp only [Bool.or_eq_false_iff, beq_eq_false_iff_ne, ne_eq] at h
    obtain ⟨hlt, hfree, hused⟩ := hspec h.2
    exact ⟨hover ▸ h.1, h.2, hlt, hfree, hused⟩
  · have hz : PFA_BITS - p.pageIndex = 0 := by omega
    simp [hz, pfaRequestPageFrom] at h

/-- Whatever a request does, nothing is released and a failure is not forgotten. -/
theorem pfaRequestPage_mono :
    (∀ f, p.used f → (pfaRequestPage p).2.used f) ∧
      (p.overcommitted = true → (pfaRequestPage p).2.overcommitted = true) := by
  unfold pfaRequestPage
  by_cases hn : p.pageIndex ≤ PFA_BITS
  · generalize hr : pfaRequestPageFrom (PFA_BITS - p.pageIndex) p = r
    obtain ⟨a, p'⟩ := r
    obtain ⟨hover, -, hmono⟩ := pfaRequestPageFrom_spec (by omega) hr
    exact ⟨hmono, fun h => by simp [hover, h]⟩
  · have hz : PFA_BITS - p.pageIndex = 0 := by omega
    rw [hz, pfaRequestPageFrom]
    exact ⟨fun _ => id, fun h => by simp [h]⟩

/-- The frames of the pages from `address` on. -/
def runFrames (address count : Nat) : List Nat := (pageRun address count).map (· / 0x1000)

/-- Skipping used frames changes no bit. -/
theorem pfaSkipUsed_eq (n : Nat) :
    ∀ p, (pfaSkipUsed n p).bit = p.bit ∧ (pfaSkipUsed n p).overcommitted = p.overcommitted := by
  induction n with
  | zero => exact fun p => ⟨rfl, rfl⟩
  | succ n ih =>
    intro p
    rw [pfaSkipUsed]
    split
    · exact ih { p with pageIndex := p.pageIndex + 1 }
    · exact ⟨rfl, rfl⟩

/-- `pfa_request_pages`, as long as the frames it takes are free. -/
structure FramesTaken (p p' : Pfa) (a pages : Nat) : Prop where
  clean : p.overcommitted = false
  ne : a ≠ 0
  lt : a < 4294967296
  free : ∀ f ∈ runFrames a pages, ¬ p.used f
  used : ∀ f, p'.used f ↔ p.used f ∨ f ∈ runFrames a pages

/-- The frames of a run are used. -/
theorem pfaLockPages_used (f : Nat) :
    (pfaLockPages p a pages).used f ↔ p.used f ∨ f ∈ runFrames a pages := by
  apply foldl_pfaLockPage_used
  intro b hb
  obtain ⟨i, -, rfl⟩ := List.mem_map.mp hb
  exact u32_div_le _

/-- A request for several pages takes their frames. -/
theorem pfaRequestPages_spec (h : pfaRequestPages p pages = some (a, p')) :
    (∀ f, p.used f → p'.used f) ∧ (p.overcommitted = true → p'.overcommitted = true) ∧
      (p'.overcommitted = false → FramesTaken p p' a pages) := by
  simp only [pfaRequestPages, Option.bind_eq_bind, Option.bind_eq_some_iff, Option.some.injEq,
    Prod.mk.injEq] at h
  obtain ⟨i, -, rfl, rfl⟩ := h
  obtain ⟨hbit, hover⟩ := pfaSkipUsed_eq (PFA_BITS + 1 - p.pageIndex) p
  generalize pfaSkipUsed (PFA_BITS + 1 - p.pageIndex) p = p₁ at hbit hover ⊢
  have hsame : ∀ f, p₁.used f ↔ p.used f := fun f => by simp [Pfa.used, pfaGetBit, hbit]
  have hused : ∀ f, (pfaLockPages p₁ (u32 (i * 0x1000)) pages).used f ↔
      p.used f ∨ f ∈ runFrames (u32 (i * 0x1000)) pages := fun f => by
    rw [pfaLockPages_used, hsame]
  -- a call that sets no flag found none of its frames in use
  refine ⟨fun f hf => (hused f).mpr (.inl hf), fun h => by simp [hover, h], fun h => ?_⟩
  simp only [Bool.or_eq_false_iff, beq_eq_false_iff_ne, ne_eq] at h
  obtain ⟨⟨hclean, hfree⟩, hne⟩ := h
  refine ⟨hover ▸ hclean, hne, u32_lt _, ?_, hused⟩
  intro f hf hin
  obtain ⟨b, hb, rfl⟩ := List.mem_map.mp hf
  exact absurd ((hsame _).mpr hin) (by simpa [Pfa.used] using List.any_eq_false.mp hfree b hb)

end MishaOS
