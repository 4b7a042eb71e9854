import MishaOS.Spec.PagingFrame

/-!
# Requests while frames are left

`pfa_request_page` only looks upwards from `page_index`, and nothing but
requests sets bits there once the kernel is up.  So the frames in use behind
`page_index` end at one frame, the `Frontier`, and each request moves it up by
the frames it takes.  A call that asks for at most `n` frames succeeds while `n`
of them are left above the frontier.

## Key results

- `Frontier.requestPage`, `Frontier.requestPages`: what a request returns.
- `Roomy.pdeInit`, `Roomy.pdeClone`: the calls on directories succeed.
-/

namespace MishaOS

variable {p : Pfa} {m : Paging} {b c d i k n v : Nat}

/-- From `page_index` on, exactly the frames below `b` are in use. -/
structure Frontier (p : Pfa) (b : Nat) : Prop where
  low : 0 < p.pageIndex
  index : p.pageIndex ≤ b
  used : ∀ f, p.pageIndex ≤ f → (p.used f ↔ f < b)
  clean : p.overcommitted = false

/-- Locking a page does not move the cursor. -/
@[simp] theorem pfaLockPage_pageIndex (p : Pfa) (a : Nat) :
    (pfaLockPage p a).pageIndex = p.pageIndex := by
  unfold pfaLockPage pfaSetBit
  split
  · rfl
  · split <;> rfl

/-- Nor does locking a list of pages. -/
theorem foldl_pfaLockPage_pageIndex (l : List Nat) :
    ∀ p, (l.foldl pfaLockPage p).pageIndex = p.pageIndex := by
  induction l with
  | nil => exact fun p => rfl
  | cons a l ih =>
    intro p
    rw [List.foldl_cons, ih, pfaLockPage_pageIndex]

namespace Frontier

/-- A frame in use is passed over. -/
theorem next (h : Frontier p b) (hused : p.used p.pageIndex) :
    Frontier { p with pageIndex := p.pageIndex + 1 } b where
  low := Nat.succ_pos _
  index := (h.used _ (Nat.le_refl _)).mp hused
  used f hf := h.used f (by dsimp only at hf; omega)
  clean := h.clean

/-- The cursor is at the frontier when its frame is free. -/
theorem eq_of_free (h : Frontier p b) (hfree : ¬ p.used p.pageIndex) : p.pageIndex = b := by
  have hnot : ¬ p.pageIndex < b := fun hlt => hfree ((h.used _ (Nat.le_refl _)).mpr hlt)
  have := h.index
  omega

/-- The search gives out the frame at the frontier. -/
theorem requestPageFrom (hn : b - p.pageIndex < n) (h : Frontier p b) (hb : b < PFA_BITS) :
    (pfaRequestPageFrom n p).1 = b * 0x1000 ∧ Frontier (pfaRequestPageFrom n p).2 (b + 1) := by
  -- on the frames between the cursor and the frontier
  induction n generalizing p with
  | zero => omega
  | succ n ih =>
    rw [pfaRequestPageFrom]
    split
    · rename_i hused
      have hlt : p.pageIndex < b := (h.used _ (Nat.le_refl _)).mp hused
      exact ih (p := { p with pageIndex := p.pageIndex + 1 }) (by dsimp only; omega) (h.next hused)
    -- the first free frame is at the frontier, which goes on by one
    · rename_i hfree
      have hindex : p.pageIndex = b := h.eq_of_free hfree
      have hdiv : b * 0x1000 / 0x1000 = b := Nat.mul_div_cancel _ (by decide)
      rw [hindex]
      refine ⟨rfl, ⟨by simpa using h.low, by simp [hindex], fun f hf => ?_, by simpa using h.clean⟩⟩
      rw [pfaLockPage_pageIndex] at hf
      rw [pfaLockPage_used (by omega), h.used f hf, hdiv]
      omega

/-- A request takes the frame at the frontier. -/
theorem requestPage (h : Frontier p b) (hb : b < PFA_BITS) :
    (pfaRequestPage p).1 = b * 0x1000 ∧ Frontier (pfaRequestPage p).2 (b + 1) := by
  have hindex := h.index
  have hlow := h.low
  obtain ⟨haddress, hfrontier⟩ := requestPageFrom (n := PFA_BITS - p.pageIndex) (by omega) h hb
  unfold pfaRequestPage
  generalize pfaRequestPageFrom (PFA_BITS - p.pageIndex) p = r at haddress hfrontier
  obtain ⟨a, p'⟩ := r
  dsimp only at haddress hfrontier ⊢
  have hne : (a == 0) = false := by
    rw [haddress, beq_eq_false_iff_ne]
    omega
  refine ⟨haddress, ⟨hfrontier.low, hfrontier.index, hfrontier.used, ?_⟩⟩
  dsimp only
  rw [hfrontier.clean, hne, Bool.or_false]

/-- Skipping used frames leads to the frontier. -/
theorem skipUsed (hn : b - p.pageIndex < n) (h : Frontier p b) :
    pfaSkipUsed n p = { p with pageIndex := b } := by
  induction n generalizing p with
  | zero => omega
  | succ n ih =>
    rw [pfaSkipUsed]
    split
    · rename_i hused
      have hlt : p.pageIndex < b := (h.used _ (Nat.le_refl _)).mp hused
      exact ih (p := { p with pageIndex := p.pageIndex + 1 }) (by dsimp only; omega) (h.next hused)
    · rename_i hfree
      rw [← h.eq_of_free hfree]

/-- Behind the frontier everything is free. -/
theorem getBit_of_ge (h : Frontier p b) (hi : b ≤ i) : pfaGetBit p i = false := by
  have hnot : ¬ p.used i := fun hu => absurd ((h.used i (Nat.le_trans h.index hi)).mp hu) (by omega)
  simpa [Pfa.used] using hnot

/-- The frames of a run at the frontier. -/
theorem mem_runFrames (hb : b + n ≤ PFA_BITS) {f : Nat} :
    f ∈ runFrames (b * 0x1000) n ↔ b ≤ f ∧ f < b + n := by
  have hbits : PFA_BITS = 1048576 := rfl
  have haddr : ∀ i < n, u32 (b * 0x1000 + i * 0x1000) / 0x1000 = b + i := by
    intro i hi
    rw [u32_of_lt (by omega)]
    omega
  simp only [runFrames, pageRun, List.map_map, List.mem_map, List.mem_range, Function.comp_apply]
  constructor
  · rintro ⟨i, hi, rfl⟩
    rw [haddr i hi]
    omega
  · intro ⟨hle, hlt⟩
    exact ⟨f - b, by omega, by rw [haddr _ (by omega)]; omega⟩

/-- A request for a run takes the frames from the frontier on. -/
theorem requestPages (h : Frontier p b) (hn : 0 < n) (hb : b + n ≤ PFA_BITS) :
    ∃ p', pfaRequestPages p n = some (b * 0x1000, p') ∧ Frontier p' (b + n) := by
  have hbits : PFA_BITS = 1048576 := rfl
  have hindex := h.index
  have hlow := h.low
  obtain ⟨p₁, hskip, hindex₁, h₁⟩ :
      ∃ p₁, pfaSkipUsed (PFA_BITS + 1 - p.pageIndex) p = p₁ ∧ p₁.pageIndex = b ∧ Frontier p₁ b :=
    ⟨_, h.skipUsed (by omega), rfl, Nat.lt_of_lt_of_le hlow hindex, Nat.le_refl b,
      fun f hf => h.used f (Nat.le_trans hindex hf), h.clean⟩
  have haddress : u32 (b * 0x1000) = b * 0x1000 := u32_of_lt (by omega)
  -- from the frontier on all frames are free, so the first window is taken
  have hfind : pfaFindRun p₁ n walkFuel b = some b := by
    rw [show walkFuel = 4294967295 + 1 from rfl, pfaFindRun, if_neg]
    intro hany
    obtain ⟨i, hi, hbit⟩ := List.any_eq_true.mp hany
    have hlt := List.mem_range.mp hi
    rw [u32_of_lt (by omega), h₁.getBit_of_ge (by omega)] at hbit
    cases hbit
  -- none of the frames of the run is in use
  have htaken : (pageRun (b * 0x1000) n).any (fun a => pfaGetBit p₁ (a / 0x1000)) = false := by
    rw [List.any_eq_false]
    intro a ha
    have hmem : a / 0x1000 ∈ runFrames (b * 0x1000) n := List.mem_map_of_mem ha
    rw [h₁.getBit_of_ge ((mem_runFrames hb).mp hmem).1]
    exact Bool.false_ne_true
  have hne : (b * 0x1000 == 0) = false := by
    rw [beq_eq_false_iff_ne]
    omega
  have hused : ∀ f, (pfaLockPages p₁ (b * 0x1000) n).used f ↔ p₁.used f ∨ b ≤ f ∧ f < b + n :=
    fun f => by
    rw [pfaLockPages_used, mem_runFrames hb]
  have hkeeps : (pfaLockPages p₁ (b * 0x1000) n).pageIndex = b :=
    (foldl_pfaLockPage_pageIndex _ p₁).trans hindex₁
  refine ⟨{ pfaLockPages p₁ (b * 0x1000) n with overcommitted := false }, ?_, ?_, ?_,
    fun f hf => ?_, rfl⟩
  · simp only [pfaRequestPages, hskip, hindex₁, hfind, Option.bind_eq_bind,
      Option.bind_some, haddress,
      htaken, hne, h₁.clean, Bool.or_false]
  · exact Nat.lt_of_lt_of_le h₁.low (Nat.le_trans h₁.index (Nat.le_of_eq hkeeps.symm))
  · exact Nat.le_trans (Nat.le_of_eq hkeeps) (Nat.le_add_right b n)
  -- behind the run everything is free as before
  · have hle : b ≤ f := Nat.le_trans (Nat.le_of_eq hkeeps.symm) hf
    have hold := h₁.used f (hindex₁ ▸ hle)
    exact (hused f).trans (by rw [hold]; omega)

end Frontier

/-! ## Calls on directories -/

/-- At least `n` frames are left. -/
def Roomy (n : Nat) (m : Paging) : Prop := ∃ b, b + n ≤ PFA_BITS ∧ Frontier m.pfa b

namespace Roomy

/-- A request is met. -/
theorem clean (h : Roomy n m) : m.pfa.overcommitted = false := h.choose_spec.2.clean

/-- Where there is more room there is less. -/
theorem mono (hk : k ≤ n) (h : Roomy n m) : Roomy k m := by
  obtain ⟨b, hb, hfrontier⟩ := h
  exact ⟨b, by omega, hfrontier⟩

theorem requestPage (h : Roomy (n + 1) m) : Roomy n m.requestPage.2 := by
  obtain ⟨b, hb, hfrontier⟩ := h
  exact ⟨b + 1, by omega, (hfrontier.requestPage (by omega)).2⟩

/-- A new table takes at most one. -/
theorem pdeRequestPage (h : Roomy (n + 1) m) : Roomy n (pdeRequestPage m d v) := by
  unfold MishaOS.pdeRequestPage
  dsimp only
  split
  · exact h.requestPage
  · exact h.mono (Nat.le_succ n)

/-- So does a round of `pde_init`. -/
theorem pdeInitSlot (h : Roomy (n + 1) m) : Roomy n (pdeInitSlot d m i) := by
  unfold MishaOS.pdeInitSlot
  dsimp only
  split
  · exact h.mono (Nat.le_succ n)
  · split
    · exact h.requestPage
    · exact h.mono (Nat.le_succ n)

/-- So does a round of `pde_clone`. -/
theorem pdeCloneSlot (h : Roomy (n + 1) m) : Roomy n (pdeCloneSlot d c m i) := by
  unfold MishaOS.pdeCloneSlot
  dsimp only
  split
  · exact h.mono (Nat.le_succ n)
  · split
    · exact h.requestPage
    · exact h.mono (Nat.le_succ n)

/-- A loop whose body takes at most one frame. -/
theorem forSlots {body : Paging → Nat → Paging}
    (hbody : ∀ n m i, Roomy (n + 1) m → Roomy n (body m i)) (k : Nat) :
    ∀ i m, Roomy (n + k) m → Roomy n (forSlots body k i m) := by
  induction k with
  | zero =>
    intro i m h
    rwa [forSlots_zero]
  | succ k ih =>
    intro i m h
    rw [forSlots_succ]
    exact ih (i + 1) _ (hbody (n + k) m i h)

/-- `pde_init` takes at most 1024. -/
theorem pdeInit (h : Roomy (n + 1024) m) : Roomy n (pdeInit m d) :=
  forSlots (fun _ _ _ hm => hm.pdeInitSlot) 1024 0 _ h

/-- A clone takes its own frames, a copy of every table and, in its
    `pde_init`, at most a frame for every slot. -/
theorem pdeClone (h : Roomy (n + 1024 + 1024 + 3) m) (d : Nat) :
    ∃ c m', pdeClone m d = some (c, m') ∧ Roomy n m' := by
  obtain ⟨b, hb, hfrontier⟩ := h
  have hroom : b + 3 + (n + 1024 + 1024) ≤ PFA_BITS := by
    rw [Nat.add_assoc b 3, Nat.add_comm 3]
    exact hb
  obtain ⟨p', hp', hfrontier'⟩ :=
    hfrontier.requestPages (n := 3) (by decide) (Nat.le_trans (Nat.le_add_right _ _) hroom)
  set m₁ := ({ m with pfa := p' } : Paging).setDir (b * 0x1000) ⟨fun _ => 0, fun _ => 0, 0⟩ with hm₁
  have hclone : MishaOS.pdeClone m d = some (b * 0x1000, MishaOS.pdeInit
      (MishaOS.forSlots (MishaOS.pdeCloneSlot d (b * 0x1000)) 1024 0 m₁) (b * 0x1000)) := by
    simp only [MishaOS.pdeClone, pdeAlloc, hp', Option.bind_eq_bind, Option.bind_some, hm₁]
  have hm₁ : Roomy (n + 1024 + 1024) m₁ := ⟨b + 3, hroom, hfrontier'⟩
  exact ⟨_, _, hclone, (forSlots (fun _ _ _ hm => hm.pdeCloneSlot) 1024 0 m₁ hm₁).pdeInit⟩

end Roomy

end MishaOS
