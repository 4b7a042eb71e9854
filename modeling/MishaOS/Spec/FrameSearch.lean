import MishaOS.Spec.FrameMapRun

/-!
# The searches of the frame allocator

`pfa_request_page` looks for a clear bit from the cursor on, and nothing moves
the cursor back once the memory map is read.  `pfa_request_pages` looks at
windows of frames; it asks `pfa_get_bit` for the address of a frame, not for its
index, and most addresses are behind the bitmap, where every bit reads as clear.

## Key results

- `request_page_complete`: a request finds a free frame as long as no frame
  below the cursor is released and frame 0 is in use.
- `FrameMap.grants_iff_of_first`: the frames of a request were free exactly
  when the first window that is not passed is free.
- `request_pages_granted`: when this is so, read off the bitmap.
-/

namespace MishaOS

variable {p p' : FrameMap} {a c f i j n : Nat}

/-! ## From the cursor on -/

/-- `f` is the first index from the cursor on whose bit reads as clear. -/
structure FrameMap.FirstClear (p : FrameMap) (f : Nat) : Prop where
  le : p.pageIndex ≤ f
  clear : p.getBit f = false
  used : ∀ g, p.pageIndex ≤ g → g < f → p.getBit g = true

/-- Up to its end the bitmap is read. -/
theorem FrameMap.getBit_of_le (p : FrameMap) (hi : i ≤ PFA_SIZE * 8) : p.getBit i = p.bit i := by
  rw [getBit_eq, if_neg (by omega)]

/-- Only the bits count, so a cursor that went over a used frame does not matter. -/
theorem FrameMap.FirstClear.of_succ (hbit : p.getBit p.pageIndex = true)
    (h : ({ p with pageIndex := p.pageIndex + 1 } : FrameMap).FirstClear f) : p.FirstClear f where
  le := Nat.le_of_succ_le h.le
  clear := h.clear
  used g hg hlt := by
    obtain rfl | hne := Nat.eq_or_lt_of_le hg
    · exact hbit
    · exact h.used g hne hlt

/-- The loop stops at the first bit that reads as clear. -/
theorem FrameMap.skipUsed_firstClear (n : Nat) : ∀ p :
    FrameMap, n + p.pageIndex ≥ PFA_SIZE * 8 + 1 →
    ∃ f, p.FirstClear f ∧ p.skipUsed n = { p with pageIndex := f } := by
  induction n with
  | zero =>
    intro p hn
    -- the cursor is behind the bitmap, where every bit reads as clear
    refine ⟨p.pageIndex, ⟨Nat.le_refl _, ?_, fun g hg hlt => absurd hlt (Nat.not_lt_of_le hg)⟩, rfl⟩
    rw [getBit_eq, if_pos (by omega)]
  | succ n ih =>
    intro p hn
    rw [skipUsed]
    split
    -- a bit in use is passed over
    · rename_i hbit
      obtain ⟨f, hf, heq⟩ := ih { p with pageIndex := p.pageIndex + 1 } (by simp; omega)
      exact ⟨f, hf.of_succ hbit, heq⟩
    · rename_i hbit
      exact ⟨p.pageIndex, ⟨Nat.le_refl _, by simpa using hbit,
        fun g hg hlt => absurd hlt (Nat.not_lt_of_le hg)⟩, rfl⟩

/-- The loop of `pfa_request_page` ends at the first clear bit, or at the end of the bitmap. -/
theorem FrameMap.requestPageFrom_firstClear (n : Nat) : ∀ p :
    FrameMap, n + p.pageIndex = PFA_SIZE * 8 →
    (∃ f, p.FirstClear f ∧ f < PFA_SIZE * 8 ∧
      p.requestPageFrom n = (some (f * 0x1000),
        ({ p with pageIndex := f } : FrameMap).lockPage (f * 0x1000))) ∨
    (∀ g, p.pageIndex ≤ g → g < PFA_SIZE * 8 → p.getBit g = true) ∧
      p.requestPageFrom n = (none, { p with pageIndex := PFA_SIZE * 8 }) := by
  induction n with
  | zero =>
    intro p hn
    -- the end of the bitmap
    right
    constructor
    · intro g hg hlt
      omega
    · rw [requestPageFrom, ← hn, Nat.zero_add]
  | succ n ih =>
    intro p hn
    rw [requestPageFrom]
    split
    -- a frame in use is passed over
    · rename_i hbit
      obtain ⟨f, hf, hlt, heq⟩ | ⟨hall, heq⟩ :=
        ih { p with pageIndex := p.pageIndex + 1 } (by simp; omega)
      · exact .inl ⟨f, hf.of_succ hbit, hlt, heq⟩
      · refine .inr ⟨fun g hg hlt => ?_, heq⟩
        obtain rfl | hne := Nat.eq_or_lt_of_le hg
        · exact hbit
        · exact hall g hne hlt
    · rename_i hbit
      exact .inl ⟨p.pageIndex, ⟨Nat.le_refl _, by simpa using hbit,
        fun g hg hlt => absurd hlt (Nat.not_lt_of_le hg)⟩, by omega, rfl⟩

/-- `pfa_request_page` takes the first free frame from the cursor on, whichever frames are free
    below the cursor. -/
theorem FrameMap.requestPage_firstClear (p : FrameMap) :
    (∃ f, p.FirstClear f ∧ f < PFA_SIZE * 8 ∧
      p.requestPage = (some (f * 0x1000),
        ({ p with pageIndex := f } : FrameMap).lockPage (f * 0x1000))) ∨
    (∀ g, p.pageIndex ≤ g → g < PFA_SIZE * 8 → p.getBit g = true) ∧
      ∃ k, PFA_SIZE * 8 ≤ k ∧ p.requestPage = (none, { p with pageIndex := k }) := by
  unfold requestPage
  by_cases hle : p.pageIndex ≤ PFA_SIZE * 8
  · obtain hfound | ⟨hall, heq⟩ :=
      requestPageFrom_firstClear (PFA_SIZE * 8 - p.pageIndex) p (by omega)
    · exact .inl hfound
    · exact .inr ⟨hall, PFA_SIZE * 8, Nat.le_refl _, heq⟩
  · have hz : PFA_SIZE * 8 - p.pageIndex = 0 := by omega
    rw [hz]
    exact .inr ⟨fun g hg hlt => by omega, p.pageIndex, Nat.le_of_not_le hle, rfl⟩

/-! ## Requests for one page -/

/-- `pfa_request_page` fails exactly when no frame is free; otherwise it returns the address of a
    free frame, and not the null pointer. -/
structure FrameMap.Serves (p : FrameMap) : Prop where
  fails : p.requestPage.1.getD 0 = 0 ↔ ∀ f, f < PFA_SIZE * 8 → p.bit f = true
  usable : ∀ a, p.requestPage.1 = some a → a ≠ 0 → a % 0x1000 = 0 ∧ a < 4294967296 ∧
    p.bit (a / 0x1000) = false

/-- If a frame is free, one is free from the cursor on, and the cursor is not at the free frame 0.
    -/
def FrameMap.CursorSees (p : FrameMap) : Prop :=
  (∃ f, f < PFA_SIZE * 8 ∧ p.bit f = false) →
    (∃ f, p.pageIndex ≤ f ∧ f < PFA_SIZE * 8 ∧ p.bit f = false) ∧
      ¬ (p.pageIndex = 0 ∧ p.bit 0 = false)

/-- A request finds a free frame if and only if the cursor is not behind all of them. -/
theorem FrameMap.serves_iff (p : FrameMap) : p.Serves ↔ p.CursorSees := by
  have hpos : 0 < PFA_SIZE * 8 := by decide
  obtain ⟨f, hf, hlt, heq⟩ | ⟨hall, k, -, heq⟩ := p.requestPage_firstClear
  · have hclear : p.bit f = false := (p.getBit_of_le (Nat.le_of_lt hlt)).symm.trans hf.clear
    have hsome : p.requestPage.1 = some (f * 0x1000) := by rw [heq]
    constructor
    · intro h _
      refine ⟨⟨f, hf.le, hlt, hclear⟩, fun ⟨hzero, hbit⟩ => ?_⟩
      -- the first clear bit is then bit 0, and its address is the null pointer
      have hfz : f = 0 := by
        by_contra hne
        have hused := hf.used 0 (Nat.le_of_eq hzero) (Nat.pos_of_ne_zero hne)
        rw [p.getBit_of_le (Nat.zero_le _), hbit] at hused
        exact Bool.false_ne_true hused
      have hnull : p.requestPage.1.getD 0 = 0 := by rw [hsome, hfz]; rfl
      have := h.fails.mp hnull 0 hpos
      simp [hbit] at this
    · intro h
      obtain ⟨-, hzero⟩ := h ⟨f, hlt, hclear⟩
      have hne : f ≠ 0 := by
        rintro rfl
        exact hzero ⟨Nat.le_zero.mp hf.le, hclear⟩
      constructor
      · rw [hsome]
        constructor
        · intro hnull
          exact absurd hnull (Nat.mul_ne_zero hne (by decide))
        · intro hused
          simp [hused f hlt] at hclear
      · intro a ha _
        obtain rfl : f * 0x1000 = a := Option.some.inj (hsome.symm.trans ha)
        have hsize : PFA_SIZE * 8 = 1048576 := rfl
        refine ⟨Nat.mul_mod_left _ _, by omega, ?_⟩
        rwa [Nat.mul_div_cancel _ (by decide)]
  · have hnone : p.requestPage.1 = none := by rw [heq]
    have hsees : ¬ ∃ f, p.pageIndex ≤ f ∧ f < PFA_SIZE * 8 ∧ p.bit f = false := by
      rintro ⟨f, hle, hlt, hbit⟩
      have hused := hall f hle hlt
      rw [p.getBit_of_le (Nat.le_of_lt hlt), hbit] at hused
      exact Bool.false_ne_true hused
    constructor
    · rintro h ⟨f, hlt, hbit⟩
      have := h.fails.mp (by rw [hnone]; rfl) f hlt
      simp [hbit] at this
    · intro h
      constructor
      · rw [hnone]
        refine ⟨fun _ f hlt => ?_, fun _ => rfl⟩
        cases hbit : p.bit f with
        | true => rfl
        | false => exact absurd (h ⟨f, hlt, hbit⟩).1 hsees
      · intro a ha
        simp [hnone] at ha

/-! ## Runs of requests -/

/-- Frame 0 and the frames below the cursor are in use. -/
structure FrameMap.Swept (p : FrameMap) : Prop where
  zero : p.bit 0 = true
  below : ∀ f, f < p.pageIndex → f < PFA_SIZE * 8 → p.bit f = true

/-- When all frames before the cursor are used, nothing is missed. -/
theorem FrameMap.Swept.sees (h : p.Swept) : p.CursorSees := by
  rintro ⟨f, hlt, hbit⟩
  have hle : p.pageIndex ≤ f := by
    by_contra hnot
    simp [h.below f (Nat.lt_of_not_le hnot) hlt] at hbit
  exact ⟨⟨f, hle, hlt, hbit⟩, fun hz => by simp [h.zero] at hz⟩

/-- Neither frame 0 nor a frame below the cursor is released. -/
def FrameOp.KeepsSwept (p : FrameMap) (op : FrameOp) : Prop :=
  ∀ f, op.Frees f → f ≠ 0 ∧ p.pageIndex ≤ f

/-- Only a release clears bits. -/
theorem FrameMap.Swept.mono (h : p.Swept) (hbits : ∀ f, p.bit f = true → p'.bit f = true)
    (hcursor : ∀ f, p.pageIndex ≤ f → f < p'.pageIndex → f < PFA_SIZE * 8 → p'.bit f = true) :
    p'.Swept where
  zero := hbits 0 h.zero
  below f hf hlt := by
    by_cases hle : p.pageIndex ≤ f
    · exact hcursor f hle hf hlt
    · exact hbits f (h.below f (Nat.lt_of_not_le hle) hlt)

/-- Locking pages does not move the cursor. -/
theorem FrameMap.foldl_lockPage_pageIndex (l : List Nat) (p : FrameMap) :
    (l.foldl FrameMap.lockPage p).pageIndex = p.pageIndex := by
  induction l generalizing p with
  | nil => rfl
  | cons a l ih =>
    rw [List.foldl_cons, ih]
    unfold lockPage
    dsimp only
    split
    · rfl
    · rw [p.setBit_rest]

/-- Nor does freeing them, which is why a request can miss them. -/
theorem FrameMap.foldl_freePage_pageIndex (l : List Nat) (p : FrameMap) :
    (l.foldl FrameMap.freePage p).pageIndex = p.pageIndex := by
  induction l generalizing p with
  | nil => rfl
  | cons a l ih =>
    rw [List.foldl_cons, ih]
    unfold freePage
    dsimp only
    split
    · rfl
    · rw [p.setBit_rest]

/-- Each step keeps frame 0 and the frames below the cursor in use, unless it releases one. -/
theorem FrameMap.Swept.step {op : FrameOp} (h : p.Swept) (hop : op.KeepsSwept p)
    (hstep : frameStep p op = some p') : p'.Swept := by
  have hkept : ∀ f, p.bit f = true → f = 0 ∨ f < p.pageIndex → p'.bit f = true := by
    intro f hf hlow
    apply frameStep_bit hf _ hstep
    intro hfree
    obtain ⟨hne, hle⟩ := hop f hfree
    omega
  constructor
  · exact hkept 0 h.zero (.inl rfl)
  · intro f hf hlt
    by_cases hlow : f < p.pageIndex
    · exact hkept f (h.below f hlow hlt) (.inr hlow)
    -- the cursor went over the frame
    have hle := Nat.le_of_not_lt hlow
    have hused : p.getBit f = true ∧ ¬ op.Frees f := by
      cases op with
      | request =>
        obtain rfl := Option.some.inj hstep
        obtain ⟨k, hk, -, heq⟩ | ⟨hall, -⟩ := p.requestPage_firstClear
        · have hcursor : p.requestPage.2.pageIndex = k := by
            rw [heq]
            exact foldl_lockPage_pageIndex [k * 0x1000] _
          exact ⟨hk.used f hle (hcursor ▸ hf), id⟩
        · exact ⟨hall f hle hlt, id⟩
      | requestPages pages =>
        obtain ⟨⟨a, q⟩, hreq, rfl⟩ := Option.map_eq_some_iff.mp hstep
        obtain ⟨k, hk, heq⟩ := skipUsed_firstClear (PFA_SIZE * 8 + 1 - p.pageIndex) p (by omega)
        simp only [requestPages, heq, Option.bind_eq_bind, Option.bind_eq_some_iff,
          Option.some.injEq,
          Prod.mk.injEq] at hreq
        obtain ⟨c, -, -, rfl⟩ := hreq
        dsimp only [lockPages] at hf
        rw [foldl_lockPage_pageIndex] at hf
        exact ⟨hk.used f hle hf, id⟩
      | lock address =>
        obtain rfl := Option.some.inj hstep
        exact absurd (foldl_lockPage_pageIndex [address.toNat] p ▸ hf) hlow
      | lockPages address count =>
        obtain rfl := Option.some.inj hstep
        exact absurd (foldl_lockPage_pageIndex _ p ▸ hf) hlow
      | free address =>
        obtain rfl := Option.some.inj hstep
        exact absurd (foldl_freePage_pageIndex [address.toNat] p ▸ hf) hlow
      | freePages address count =>
        obtain rfl := Option.some.inj hstep
        exact absurd (foldl_freePage_pageIndex _ p ▸ hf) hlow
    rw [p.getBit_of_le (Nat.le_of_lt hlt)] at hused
    exact frameStep_bit hused.1 hused.2 hstep

/-- Reserving pages leaves the cursor at the start. -/
theorem FrameMap.foldl_reservePage_pageIndex (l : List Nat) (p : FrameMap) (h : p.pageIndex = 0) :
    (l.foldl FrameMap.reservePage p).pageIndex = 0 := by
  induction l generalizing p with
  | nil => exact h
  | cons a l ih =>
    apply ih
    unfold reservePage
    dsimp only
    split
    · exact h
    · rw [p.setBit_rest]
      split <;> simp [h]

/-- The cursor is at frame 0 behind the memory map. -/
theorem FrameMap.readMemoryMap_pageIndex (buffer : Nat → BitVec 8) (multiboot : List MemoryMapEntry)
    (meminfo : KernelMeminfo) : ((boot buffer).readMemoryMap multiboot meminfo).pageIndex = 0 := by
  -- an entry locks frames, or is skipped; neither moves the cursor
  have hmap : ∀ (l : List MemoryMapEntry) (s : FrameMap × BitVec 64), s.1.pageIndex = 0 →
      (l.foldl readEntry s).1.pageIndex = 0 := by
    intro l
    induction l with
    | nil => exact fun s h => h
    | cons entry l ih =>
      intro s h
      apply ih
      unfold readEntry
      split
      · split
        · exact foldl_reservePage_pageIndex _ _ h
        · exact h
      · exact h
  -- what is read behind the entries only locks frames too
  unfold readMemoryMap
  rw [if_neg (by simp [boot])]
  dsimp only [lockRange, lockPages]
  rw [foldl_lockPage_pageIndex, foldl_lockPage_pageIndex, foldl_lockPage_pageIndex]
  exact hmap multiboot _ rfl

/-- In each state `pfa_request_page` fails exactly when no frame is free if the cursor sees the
    free frames.  It does in every run that releases neither frame 0 nor a frame below the
    cursor, from a state on in which these frames are in use; behind the memory map this is
    frame 0 alone. -/
theorem request_page_complete (buffer : Nat → BitVec 8) (multiboot : List MemoryMapEntry)
    (meminfo : KernelMeminfo) :
    (((FrameMap.boot buffer).readMemoryMap multiboot meminfo).Swept ↔
      ((FrameMap.boot buffer).readMemoryMap multiboot meminfo).bit 0 = true) ∧
    ∀ ops p, Run frameStep (fun _ _ => True)
      ((FrameMap.boot buffer).readMemoryMap multiboot meminfo) ops p →
      (p.Serves ↔ p.CursorSees) ∧
        (p.Swept → ∀ ops' p', Run frameStep (fun q op => op.KeepsSwept q) p ops' p' →
          p'.Serves) := by
  have hcursor := FrameMap.readMemoryMap_pageIndex buffer multiboot meminfo
  constructor
  · constructor
    · exact fun h => h.zero
    · exact fun h => ⟨h, fun f hf => absurd hf (by omega)⟩
  · intro ops p _
    refine ⟨p.serves_iff, fun hp ops' p' hrun => ?_⟩
    -- the cursor stays where every frame before it is in use
    have hswept : p'.Swept := by
      apply hrun.invariant FrameMap.Swept
      · exact fun q op q' hq hop hstep => hq.step hop hstep
      · exact hp
    exact p'.serves_iff.mpr hswept.sees

/-- Frame 0 is locked behind the memory map; then frame 1 is released and a frame is requested. -/
theorem request_page_complete_run :
    ∃ p, Run frameStep (fun _ _ => True)
      ((FrameMap.boot fun _ => 0).readMemoryMap [⟨0x9F000, 0x61000, 2⟩] ⟨0x100000, 0x180000,
        0x200000, 0x280000⟩)
      [.lock 0, .free 0x1000, .request] p ∧ p.Serves := by
  have hcursor := FrameMap.readMemoryMap_pageIndex (fun _ => 0) [⟨0x9F000, 0x61000, 2⟩]
    ⟨0x100000, 0x180000, 0x200000, 0x280000⟩
  have hruns := (request_page_complete (fun _ => 0) [⟨0x9F000, 0x61000, 2⟩]
    ⟨0x100000, 0x180000, 0x200000, 0x280000⟩).2
  generalize (FrameMap.boot fun _ => 0).readMemoryMap [⟨0x9F000, 0x61000, 2⟩]
    ⟨0x100000, 0x180000, 0x200000, 0x280000⟩ = p at hcursor hruns
  have hlock : frameStep p (.lock 0) = some (p.lockPage (0#32).toNat) := rfl
  have hindex : (p.lockPage (0#32).toNat).pageIndex = 0 :=
    (FrameMap.foldl_lockPage_pageIndex [(0#32).toNat] p).trans hcursor
  -- frame 0 is in use, so the cursor may be behind it
  have hzero : (p.lockPage (0#32).toNat).bit 0 = true := by
    rw [p.lockPage_bit (BitVec.isLt _)]
    exact Bool.or_true _
  have hspec := hruns [.lock 0] _ (.cons trivial hlock (.nil _))
  generalize p.lockPage (0#32).toNat = q at hlock hindex hzero hspec
  have hswept : q.Swept := ⟨hzero, fun f hf => absurd hf (by omega)⟩
  have hfree : FrameOp.KeepsSwept q (.free 0x1000) := by
    rintro f rfl
    rw [hindex]
    decide
  have hrequest : FrameOp.KeepsSwept (q.freePage (0x1000#32).toNat) .request :=
    fun f hf => absurd hf id
  refine ⟨(q.freePage (0x1000#32).toNat).requestPage.2, ?_, ?_⟩
  · exact .cons trivial hlock (.cons trivial rfl (.cons trivial rfl (.nil _)))
  · exact hspec.2 hswept _ _ (.cons hfree rfl (.cons hrequest rfl (.nil _)))

/-- A request with no free frame moves the cursor behind the bitmap, so a frame that is released
    then is not found. -/
theorem FrameMap.release_unseen (p : FrameMap) :
    ∃ p', Run frameStep (fun _ _ => True) p [.lockPages 0 0x100000, .request, .free 0x5000] p' ∧
      p'.bit 5 = false ∧ p'.requestPage.1 = none := by
  obtain ⟨count, hcount⟩ : ∃ count : BitVec 32, count = 0x100000#32 := ⟨_, rfl⟩
  have hsize : count.toNat = PFA_SIZE * 8 := by rw [hcount]; decide
  -- every frame of the bitmap is in use behind the first step
  have hused : ∀ f, f < PFA_SIZE * 8 → (p.lockPages (0#32).toNat count.toNat).bit f = true :=
    fun f hf => by
      have hmem : f ∈ runFrames (0#32).toNat count.toNat :=
        mem_runFrames hf (Nat.zero_le _) (by simp; omega)
      rw [p.lockPages_bit, decide_eq_true hmem, Bool.or_true]
  have hstep : frameStep p (.lockPages 0#32 count) = some (p.lockPages (0#32).toNat count.toNat) :=
    rfl
  generalize p.lockPages (0#32).toNat count.toNat = q at hstep hused
  rw [hcount] at hstep
  refine ⟨q.requestPage.2.freePage (0x5000#32).toNat,
    .cons trivial hstep (.cons trivial rfl (.cons trivial rfl (.nil _))), ?_⟩
  -- the request that fails leaves the cursor at the end
  have hcursor : PFA_SIZE * 8 ≤ q.requestPage.2.pageIndex := by
    obtain ⟨f, hf, hlt, -⟩ | ⟨-, k, hk, heq⟩ := q.requestPage_firstClear
    · have hclear := (q.getBit_of_le (Nat.le_of_lt hlt)).symm.trans hf.clear
      simp [hused f hlt] at hclear
    · rw [heq]
      exact hk
  generalize q.requestPage.2 = r at hcursor ⊢
  have hindex : (r.freePage (0x5000#32).toNat).pageIndex = r.pageIndex :=
    foldl_freePage_pageIndex [(0x5000#32).toNat] r
  constructor
  · rw [freePage_bit _ (BitVec.isLt _)]
    exact Bool.and_false _
  · obtain ⟨f, hf, hlt, -⟩ | ⟨-, k, -, heq⟩ := (r.freePage (0x5000#32).toNat).requestPage_firstClear
    · have hle := hf.le
      omega
    · rw [heq]

/-- All frames are locked, a request fails, and frame 5 is released; the next request fails too. -/
theorem request_page_fails_with_free_frame :
    ¬ ∀ (buffer : Nat → BitVec 8) (multiboot : List MemoryMapEntry) (meminfo : KernelMeminfo) ops p,
      Run frameStep (fun _ _ => True) ((FrameMap.boot buffer).readMemoryMap multiboot meminfo) ops
        p → p.Serves := by
  intro hall
  obtain ⟨p, hrun, hclear, hnone⟩ := FrameMap.release_unseen
    ((FrameMap.boot fun _ => 0).readMemoryMap [⟨0, 0x1000, 2⟩] ⟨0x100000, 0x100000,
      0x200000, 0x200000⟩)
  have hfails := (hall _ _ _ _ p hrun).fails.mp (by rw [hnone]; rfl) 5 (by decide)
  exact Bool.false_ne_true (hclear.symm.trans hfails)

/-! ## Requests for several pages -/

/-- The frames of the window that starts at `s` are in the bitmap and free. -/
def FrameMap.FreeWindow (p : FrameMap) (n s : Nat) : Prop :=
  s + n ≤ PFA_SIZE * 8 ∧ ∀ i, i < n → p.bit (s + i) = false

/-- The bits that are looked at for the window that starts at `s` are not all clear.  For the
    frame `x` the bit with the number `x * 0x1000` is looked at, which is in the bitmap, or
    the first one behind it, for the frames up to 256. -/
def FrameMap.Passed (p : FrameMap) (n s : Nat) : Prop :=
  ∃ i, i < n ∧ (s + i) % (PFA_SIZE * 8) ≤ 256 ∧ p.bit ((s + i) % (PFA_SIZE * 8) * 0x1000) = true

/-- The frames that a request for `n` pages returns were free, and nothing else is set; a request
    returns if there is a window of `n` free frames from the cursor on. -/
structure FrameMap.Grants (p : FrameMap) (n : Nat) : Prop where
  fresh : ∀ a p', p.requestPages n = some (a, p') → p.FreeWindow n (a / 0x1000) ∧
    ∀ j, p'.bit j = (p.bit j || decide (a / 0x1000 ≤ j ∧ j < a / 0x1000 + n))
  returns : (∃ s, p.pageIndex ≤ s ∧ p.FreeWindow n s) → (p.requestPages n).isSome

/-- Frames count modulo the size of the bitmap when they are turned into addresses. -/
theorem u32_page_address (s : Nat) : u32 (s * 0x1000) = s % (PFA_SIZE * 8) * 0x1000 := by
  have hsize : PFA_SIZE * 8 = 1048576 := rfl
  rw [hsize]
  unfold u32
  omega

/-- The index modulo 2^20 does not see the word size. -/
theorem u32_add_mod (s i : Nat) : (u32 s + i) % (PFA_SIZE * 8) = (s + i) % (PFA_SIZE * 8) := by
  have hsize : PFA_SIZE * 8 = 1048576 := rfl
  rw [hsize]
  unfold u32
  omega

/-- The test of a window looks at the bits of the addresses. -/
theorem FrameMap.any_getBit_iff (p : FrameMap) (n s : Nat) :
    ((List.range n).any fun i => p.getBit (u32 ((u32 s + i) * 0x1000))) = true ↔ p.Passed n s := by
  have hsize : PFA_SIZE * 8 = 256 * 0x1000 := rfl
  rw [List.any_eq_true]
  constructor
  · rintro ⟨i, hi, hbit⟩
    rw [u32_page_address, u32_add_mod, getBit_eq] at hbit
    by_cases hle : (s + i) % (PFA_SIZE * 8) ≤ 256
    · rw [if_neg (by omega)] at hbit
      exact ⟨i, List.mem_range.mp hi, hle, hbit⟩
    · rw [if_pos (by omega)] at hbit
      exact absurd hbit Bool.false_ne_true
  · rintro ⟨i, hi, hle, hbit⟩
    refine ⟨i, List.mem_range.mpr hi, ?_⟩
    rwa [u32_page_address, u32_add_mod, getBit_eq, if_neg (by omega)]

/-- The search takes the first window that is not passed. -/
theorem FrameMap.findRun_eq (p : FrameMap) (pages : Nat) (fuel : Nat) : ∀ s,
    p.findRun pages fuel (u32 s) = some c ↔
      ∃ k, k < fuel ∧ c = u32 (s + k * pages) ∧ ¬ p.Passed pages (s + k * pages) ∧
        ∀ l, l < k → p.Passed pages (s + l * pages) := by
  induction fuel with
  | zero => simp [findRun]
  | succ fuel ih =>
    intro s
    rw [findRun]
    -- a window with a frame in use is passed, and the next one begins `pages` further
    split
    · rename_i hany
      rw [p.any_getBit_iff] at hany
      have hnext : u32 (u32 s + pages) = u32 (s + pages) := by
        unfold u32
        omega
      rw [hnext, ih (s + pages)]
      have hshift : ∀ k, s + pages + k * pages = s + (k + 1) * pages := fun k => by
        rw [Nat.add_mul, Nat.one_mul]
        omega
      simp only [hshift]
      constructor
      · rintro ⟨k, hk, hc, hfree, hpassed⟩
        refine ⟨k + 1, by omega, hc, hfree, fun l hl => ?_⟩
        cases l with
        | zero => simpa using hany
        | succ l => exact hpassed l (by omega)
      · rintro ⟨k, hk, hc, hfree, hpassed⟩
        cases k with
        | zero => exact absurd (by simpa using hany) hfree
        | succ k => exact ⟨k, by omega, hc, hfree, fun l hl => hpassed (l + 1) (by omega)⟩
    -- the window at `s` is free, so it is the first one
    · rename_i hany
      rw [p.any_getBit_iff] at hany
      constructor
      · intro h
        obtain rfl := Option.some.inj h
        exact ⟨0, by omega, by simp, by simpa using hany, fun l hl => absurd hl (Nat.not_lt_zero l)⟩
      · rintro ⟨k, -, rfl, -, hpassed⟩
        cases k with
        | zero => simp
        | succ k => exact absurd (by simpa using hpassed 0 (by omega)) hany

/-- The windows come back after `2 ^ 32` rounds, so the fuel is no limit. -/
theorem FrameMap.Passed.periodic {k : Nat} (h : ∀ l, l < walkFuel → p.Passed n (f + l * n)) :
    p.Passed n (f + k * n) := by
  obtain ⟨i, hi, hle, hbit⟩ := h (k % walkFuel) (Nat.mod_lt _ (by decide))
  have hsame : (f + k * n + i) % (PFA_SIZE * 8) = (f + k % walkFuel * n + i) % (PFA_SIZE * 8) := by
    have hk : k * n = k % walkFuel * n + PFA_SIZE * 8 * (4096 * (k / walkFuel) * n) := by
      have hdiv := Nat.mod_add_div k walkFuel
      have hfuel : walkFuel = PFA_SIZE * 8 * 4096 := rfl
      calc k * n = (k % walkFuel + walkFuel * (k / walkFuel)) * n := by rw [hdiv]
        _ = k % walkFuel * n + PFA_SIZE * 8 * (4096 * (k / walkFuel) * n) := by
          rw [hfuel, Nat.add_mul]
          simp only [Nat.mul_assoc]
    rw [hk]
    have hassoc : ∀ x y z w : Nat, x + (y + z) + w = x + y + w + z := by omega
    rw [hassoc, Nat.add_mul_mod_self_left]
  exact ⟨i, hi, hsame ▸ hle, hsame ▸ hbit⟩

/-- There is one first clear bit. -/
theorem FrameMap.FirstClear.unique {g : Nat} (hf : p.FirstClear f)
    (hg : p.FirstClear g) : f = g := by
  rcases Nat.lt_trichotomy f g with hlt | heq | hlt
  · exact absurd (hf.clear.symm.trans (hg.used f hf.le hlt)) (by decide)
  · exact heq
  · exact absurd (hg.clear.symm.trans (hf.used g hg.le hlt)) (by decide)

/-- Behind the bitmap every bit reads as clear. -/
theorem FrameMap.FirstClear.lt (hf : p.FirstClear f) (hcursor : p.pageIndex < 4294967296) :
    f < 4294967296 := by
  have hsize : PFA_SIZE * 8 = 1048576 := rfl
  by_contra hge
  have hused := hf.used (PFA_SIZE * 8 + 1 + p.pageIndex) (by omega)
  by_cases hlt : PFA_SIZE * 8 + 1 + p.pageIndex < f
  · rw [getBit_eq, if_pos (by omega)] at hused
    exact Bool.false_ne_true (hused hlt)
  · have hprev := hf.used (f - 1) (by omega) (by omega)
    rw [getBit_eq, if_pos (by omega)] at hprev
    exact Bool.false_ne_true hprev

/-- `pfa_request_pages` returns the first window that is not passed, from the first clear frame in
    steps of `n`, whether or not its frames are free. -/
theorem FrameMap.requestPages_iff (hcursor : p.pageIndex < 4294967296) (hf : p.FirstClear f) :
    p.requestPages n = some (a, p') ↔
      ∃ k, (∀ l, l < k → p.Passed n (f + l * n)) ∧ ¬ p.Passed n (f + k * n) ∧
        a = (f + k * n) % (PFA_SIZE * 8) * 0x1000 ∧
        p' = ({ p with pageIndex := f } : FrameMap).lockPages a n := by
  -- first the search for a clear bit, then the one for a window from there
  obtain ⟨f', hf', hskip⟩ := skipUsed_firstClear (PFA_SIZE * 8 + 1 - p.pageIndex) p (by omega)
  obtain rfl := hf.unique hf'
  have hfind : ∀ c, findRun { p with pageIndex := f } n walkFuel f = some c ↔
      ∃ k, k < walkFuel ∧ c = u32 (f + k * n) ∧ ¬ p.Passed n (f + k * n) ∧
        ∀ l, l < k → p.Passed n (f + l * n) := by
    intro c
    have hrun := findRun_eq (c := c) { p with pageIndex := f } n walkFuel f
    rwa [u32_of_lt (hf.lt hcursor)] at hrun
  simp only [requestPages, hskip, Option.bind_eq_bind, Option.bind_eq_some_iff, Option.some.injEq,
    Prod.mk.injEq, hfind]
  constructor
  · rintro ⟨c, ⟨k, -, rfl, hfree, hpassed⟩, rfl, rfl⟩
    refine ⟨k, hpassed, hfree, ?_, rfl⟩
    rw [u32_page_address, ← Nat.add_zero (u32 _), u32_add_mod, Nat.add_zero]
  · rintro ⟨k, hpassed, hfree, rfl, rfl⟩
    -- windows repeat after 2^20 steps, so the fuel is enough
    have hk : k < walkFuel := by
      by_contra hge
      exact hfree (.periodic fun l hl => hpassed l (Nat.lt_of_lt_of_le hl (Nat.le_of_not_lt hge)))
    have haddress : u32 (u32 (f + k * n) * 0x1000) = (f + k * n) % (PFA_SIZE * 8) * 0x1000 := by
      rw [u32_page_address, ← Nat.add_zero (u32 _), u32_add_mod, Nat.add_zero]
    exact ⟨u32 (f + k * n), ⟨k, hk, rfl, hfree, hpassed⟩, haddress, by rw [haddress]⟩

/-- The frames of a run inside the bitmap. -/
theorem mem_runFrames_of_le (h : a / 0x1000 + n ≤ PFA_SIZE * 8) :
    j ∈ runFrames a n ↔ a / 0x1000 ≤ j ∧ j < a / 0x1000 + n := by
  have hsize : PFA_SIZE * 8 = 1048576 := rfl
  constructor
  · intro hj
    obtain ⟨b, hb, rfl⟩ := List.mem_map.mp hj
    obtain ⟨i, hi, rfl⟩ := List.mem_map.mp hb
    have hlt := List.mem_range.mp hi
    rw [u32_of_lt (by omega)]
    omega
  · rintro ⟨hle, hlt⟩
    exact mem_runFrames (by omega) hle hlt

/-- The first window in steps of `n` from `s` on that is not passed starts at `c`. -/
def FrameMap.FirstWindow (p : FrameMap) (n s c : Nat) : Prop :=
  ∃ k, (∀ l, l < k → p.Passed n (s + l * n)) ∧ ¬ p.Passed n (s + k * n) ∧
    c = (s + k * n) % (PFA_SIZE * 8)

/-- There is one first window. -/
theorem FrameMap.FirstWindow.unique {d : Nat} (hc : p.FirstWindow n f c)
    (hd : p.FirstWindow n f d) : c = d := by
  obtain ⟨k, hpassed, hk, rfl⟩ := hc
  obtain ⟨k', hpassed', hk', rfl⟩ := hd
  rcases Nat.lt_trichotomy k k' with hlt | heq | hlt
  · exact absurd (hpassed' k hlt) hk
  · rw [heq]
  · exact absurd (hpassed k' hlt) hk'

/-- Some window is not passed, so one is the first. -/
theorem FrameMap.exists_firstWindow {k : Nat} (h : ¬ p.Passed n (f + k * n)) :
    ∃ c, p.FirstWindow n f c := by
  classical
  have hex : ∃ k, ¬ p.Passed n (f + k * n) := ⟨k, h⟩
  exact ⟨_, Nat.find hex, fun l hl => not_not.mp (Nat.find_min hex hl), Nat.find_spec hex, rfl⟩

/-- A window that is not passed is the first one. -/
theorem FrameMap.firstWindow_self (h : ¬ p.Passed n f) :
    p.FirstWindow n f (f % (PFA_SIZE * 8)) := by
  refine ⟨0, fun l hl => absurd hl (Nat.not_lt_zero l), ?_, ?_⟩
  · rw [Nat.zero_mul, Nat.add_zero]
    exact h
  · rw [Nat.zero_mul, Nat.add_zero]

/-- The search goes on behind a window that is passed. -/
theorem FrameMap.FirstWindow.behind (h : p.FirstWindow n (f + n) c) (hpassed : p.Passed n f) :
    p.FirstWindow n f c := by
  obtain ⟨k, hbefore, hk, rfl⟩ := h
  have hshift : ∀ k, f + n + k * n = f + (k + 1) * n := fun k => by
    rw [Nat.add_mul, Nat.one_mul]
    omega
  simp only [hshift] at hbefore hk
  refine ⟨k + 1, fun l hl => ?_, hk, by rw [hshift]⟩
  cases l with
  | zero =>
    rw [Nat.zero_mul, Nat.add_zero]
    exact hpassed
  | succ l => exact hbefore l (Nat.lt_of_succ_lt_succ hl)

/-- Windows count modulo the size of the bitmap. -/
theorem FrameMap.FirstWindow.wrap {s : Nat} (h : p.FirstWindow n s c)
    (hs : s % (PFA_SIZE * 8) = f % (PFA_SIZE * 8)) :
    p.FirstWindow n f c := by
  have hpassed : ∀ m, p.Passed n (s + m) ↔ p.Passed n (f + m) := by
    intro m
    have hsame : ∀ i, (s + m + i) % (PFA_SIZE * 8) = (f + m + i) % (PFA_SIZE * 8) := by
      intro i
      rw [Nat.add_assoc, Nat.add_assoc, Nat.add_mod, hs, ← Nat.add_mod]
    unfold Passed
    simp only [hsame]
  obtain ⟨k, hbefore, hk, rfl⟩ := h
  refine ⟨k, fun l hl => (hpassed _).mp (hbefore l hl), (hpassed _).not.mp hk, ?_⟩
  rw [Nat.add_mod, hs, ← Nat.add_mod]

/-- What `pfa_request_pages` returns, and what is set then. -/
theorem FrameMap.requestPages_firstWindow (hcursor : p.pageIndex < 4294967296)
    (hf : p.FirstClear f) :
    p.requestPages n = some (a, p') ↔ ∃ c, p.FirstWindow n f c ∧ a = c * 0x1000 ∧
      p' = ({ p with pageIndex := f } : FrameMap).lockPages a n := by
  rw [requestPages_iff hcursor hf]
  constructor
  · rintro ⟨k, hpassed, hk, rfl, rfl⟩
    exact ⟨_, ⟨k, hpassed, hk, rfl⟩, rfl, rfl⟩
  · rintro ⟨c, ⟨k, hpassed, hk, rfl⟩, rfl, rfl⟩
    exact ⟨k, hpassed, hk, rfl, rfl⟩

/-- The frames of a request were free exactly when the first window that is not passed is free. -/
theorem FrameMap.grants_iff_of_first (hcursor : p.pageIndex < 4294967296) (hf : p.FirstClear f)
    (hc : p.FirstWindow n f c) : p.Grants n ↔ p.FreeWindow n c := by
  have hdiv : ∀ s, s * 0x1000 / 0x1000 = s := fun s => Nat.mul_div_cancel s (by decide)
  -- the window that is returned is the first one that is not passed
  have hreq := (requestPages_firstWindow hcursor hf).mpr ⟨c, hc, rfl, rfl⟩
  constructor
  · intro h
    have hfresh := (h.fresh _ _ hreq).1
    rwa [hdiv] at hfresh
  · intro hwindow
    constructor
    · intro a p' hsome
      obtain ⟨d, hd, rfl, rfl⟩ := (requestPages_firstWindow hcursor hf).mp hsome
      obtain rfl := hc.unique hd
      rw [hdiv]
      refine ⟨hwindow, fun j => ?_⟩
      have hmem :=
        mem_runFrames_of_le (a := c * 0x1000) (j := j) (n := n) (by rw [hdiv]; exact hwindow.1)
      rw [hdiv] at hmem
      rw [lockPages_bit, decide_eq_decide.mpr hmem]
      rfl
    · intro _
      rw [hreq]
      rfl

/-- A request that never returns is right exactly when no window is free from the cursor on. -/
theorem FrameMap.grants_iff_of_none (hcursor : p.pageIndex < 4294967296) (hf : p.FirstClear f)
    (hnone : ∀ c, ¬ p.FirstWindow n f c) : p.Grants n ↔ ∀ s, p.pageIndex ≤ s →
    ¬ p.FreeWindow n s := by
  have hreq : ∀ r, p.requestPages n ≠ some r := by
    intro r hsome
    obtain ⟨c, hc, -⟩ := (requestPages_firstWindow hcursor hf).mp hsome
    exact hnone c hc
  constructor
  · intro h s hs hwindow
    obtain ⟨r, hsome⟩ := Option.isSome_iff_exists.mp (h.returns ⟨s, hs, hwindow⟩)
    exact hreq r hsome
  · intro h
    constructor
    · intro a p' hsome
      exact absurd hsome (hreq _)
    · rintro ⟨s, hs, hwindow⟩
      exact absurd hwindow (h s hs)

/-! ## The first window, read off the bitmap -/

/-- A frame whose address is the number of a bit that is set. -/
def FrameMap.Marked (p : FrameMap) (x : Nat) : Prop := x ≤ 256 ∧ p.bit (x * 0x1000) = true

/-- Which of the windows of `n` frames from `s` on have a marked frame, up to the end of the bitmap.
    -/
def FrameMap.marks (p : FrameMap) (n s : Nat) : Finset Nat :=
  ((Finset.range 257).filter fun x => s ≤ x ∧ p.bit (x * 0x1000) = true).image fun x => (x - s) / n

/-- The least number that is not one of `marks`. -/
def FrameMap.gap (p : FrameMap) (n s : Nat) : Nat :=
  Nat.find (Infinite.exists_notMem_finset (p.marks n s))

variable {s : Nat}

/-- The windows that a marked frame takes out. -/
theorem FrameMap.mem_marks : j ∈ p.marks n s ↔ ∃ x, p.Marked x ∧ s ≤ x ∧ (x - s) / n = j := by
  unfold marks Marked
  simp only [Finset.mem_image, Finset.mem_filter, Finset.mem_range, Nat.lt_succ_iff]
  constructor
  · rintro ⟨x, ⟨hx, hs, hbit⟩, hj⟩
    exact ⟨x, ⟨hx, hbit⟩, hs, hj⟩
  · rintro ⟨x, ⟨hx, hbit⟩, hs, hj⟩
    exact ⟨x, ⟨hx, hs, hbit⟩, hj⟩

/-- The gap is the number of a window that none takes out. -/
theorem FrameMap.gap_notMem (p : FrameMap) (n s : Nat) : p.gap n s ∉ p.marks n s :=
  Nat.find_spec (Infinite.exists_notMem_finset (p.marks n s))

/-- It is the first one. -/
theorem FrameMap.mem_marks_of_lt_gap (h : j < p.gap n s) : j ∈ p.marks n s :=
  not_not.mp (Nat.find_min (Infinite.exists_notMem_finset (p.marks n s)) h)

/-- From frame 257 on nothing is marked. -/
theorem FrameMap.gap_eq_zero (hs : 256 < s) : p.gap n s = 0 := by
  by_contra hne
  obtain ⟨x, ⟨hx, -⟩, hsx, -⟩ := mem_marks.mp (mem_marks_of_lt_gap (Nat.pos_of_ne_zero hne))
  omega

/-- The windows before the gap start at a frame up to 256. -/
theorem FrameMap.gap_le : p.gap n s = 0 ∨ s + p.gap n s * n ≤ 256 + n := by
  cases hgap : p.gap n s with
  | zero => exact .inl rfl
  | succ k =>
    right
    have hk : k < p.gap n s := by
      rw [hgap]
      exact Nat.lt_succ_self k
    obtain ⟨x, ⟨hx, -⟩, hsx, hj⟩ := mem_marks.mp (mem_marks_of_lt_gap hk)
    have hle := Nat.div_mul_le_self (x - s) n
    rw [hj] at hle
    rw [Nat.succ_mul]
    omega

/-- Inside the bitmap the windows with a marked frame are passed. -/
theorem FrameMap.passed_iff_mem_marks (hn : 1 ≤ n) (hfit : s + j * n + n ≤ PFA_SIZE * 8) :
    p.Passed n (s + j * n) ↔ j ∈ p.marks n s := by
  rw [mem_marks]
  constructor
  -- without wrap the place of a frame in the bitmap is its distance from `s`
  · rintro ⟨i, hi, hle, hbit⟩
    rw [Nat.mod_eq_of_lt (by omega)] at hle hbit
    refine ⟨s + j * n + i, ⟨hle, hbit⟩, by omega, ?_⟩
    rw [Nat.div_eq_iff (by omega)]
    omega
  · rintro ⟨x, ⟨hx, hbit⟩, hsx, hj⟩
    have hlo := (Nat.div_eq_iff (by omega)).mp hj
    have hplace : (s + j * n + (x - s - j * n)) % (PFA_SIZE * 8) = x := by
      rw [Nat.mod_eq_of_lt (by omega)]
      omega
    refine ⟨x - s - j * n, by omega, ?_, ?_⟩
    · rw [hplace]
      exact hx
    · rw [hplace]
      exact hbit

/-- The first window not passed, when it ends inside the bitmap. -/
theorem FrameMap.firstWindow_gap (hn : 1 ≤ n) (hfit : s + p.gap n s * n + n ≤ PFA_SIZE * 8) :
    p.FirstWindow n s (s + p.gap n s * n) := by
  refine ⟨p.gap n s, fun l hl => ?_, ?_, ?_⟩
  · have hle : l * n ≤ p.gap n s * n := Nat.mul_le_mul_right n (Nat.le_of_lt hl)
    exact (passed_iff_mem_marks hn (by omega)).mpr (mem_marks_of_lt_gap hl)
  · exact (passed_iff_mem_marks hn hfit).not.mpr (p.gap_notMem n s)
  · rw [Nat.mod_eq_of_lt (by omega)]

/-- A window over the end of the bitmap is passed for the marked frames at the start of the bitmap.
    -/
theorem FrameMap.passed_over (hs : 256 < s) (hlt : s < PFA_SIZE * 8) (hover : PFA_SIZE * 8 < s + n)
    (hn : n ≤ PFA_SIZE * 8) : p.Passed n s ↔ ∃ x, x < s + n - PFA_SIZE * 8 ∧ p.Marked x := by
  constructor
  · rintro ⟨i, hi, hle, hbit⟩
    -- a frame up to 256 is behind the end
    have hend : PFA_SIZE * 8 ≤ s + i := by
      by_contra hin
      rw [Nat.mod_eq_of_lt (by omega)] at hle
      omega
    have hmod : (s + i) % (PFA_SIZE * 8) = s + i - PFA_SIZE * 8 := by
      rw [Nat.mod_eq_sub_mod hend, Nat.mod_eq_of_lt (by omega)]
    rw [hmod] at hle hbit
    exact ⟨s + i - PFA_SIZE * 8, by omega, hle, hbit⟩
  · rintro ⟨x, hx, hle, hbit⟩
    have hmod : (s + (x + PFA_SIZE * 8 - s)) % (PFA_SIZE * 8) = x := by
      rw [Nat.add_sub_of_le (by omega), Nat.add_mod_right, Nat.mod_eq_of_lt (by omega)]
    refine ⟨x + PFA_SIZE * 8 - s, by omega, ?_, ?_⟩
    · rw [hmod]
      exact hle
    · rw [hmod]
      exact hbit

/-- A window of more frames than the bitmap has contains every one. -/
theorem FrameMap.passed_huge (hn : PFA_SIZE * 8 < n) : p.Passed n s ↔ ∃ x, p.Marked x := by
  have hsize : PFA_SIZE * 8 = 1048576 := rfl
  constructor
  · rintro ⟨i, -, hmarked⟩
    exact ⟨_, hmarked⟩
  · rintro ⟨x, hle, hbit⟩
    obtain ⟨i, hi, hmod⟩ : ∃ i, i < n ∧ (s + i) % (PFA_SIZE * 8) = x := by
      rw [hsize] at hn ⊢
      exact ⟨(x + 1048576 - s % 1048576) % 1048576, by omega, by omega⟩
    refine ⟨i, hi, ?_, ?_⟩
    · rw [hmod]
      exact hle
    · rw [hmod]
      exact hbit

/-- When a request for `n` pages is right, `s` being the first clear frame. -/
structure FrameMap.GrantedWhen (p : FrameMap) (n s : Nat) : Prop where
  /-- No frame is marked from 257 on: the frames behind `s` are handed out. -/
  above : 256 < s → s + n ≤ PFA_SIZE * 8 → (p.Grants n ↔ ∀ i, i < n → p.bit (s + i) = false)
  /-- Windows with a marked frame are left out. -/
  inside : s + p.gap n s * n + n ≤ PFA_SIZE * 8 →
    (p.Grants n ↔ ∀ i, i < n → p.bit (s + p.gap n s * n + i) = false)
  /-- A window over the end of the bitmap is never right, so it has to be left out; the search
      starts again behind it. -/
  wraps : PFA_SIZE * 8 < s + n → 2 * n + 256 ≤ PFA_SIZE * 8 →
    (p.Grants n ↔ (∃ x, x < s + n - PFA_SIZE * 8 ∧ p.Marked x) ∧
      ∀ i, i < n → p.bit (s + n - PFA_SIZE * 8 + p.gap n (s + n - PFA_SIZE * 8) * n + i) = false)
  /-- There is no such window, so the request must not return. -/
  huge : PFA_SIZE * 8 < n → (p.Grants n ↔ ∃ x, p.Marked x)
  /-- Enough for every other request: the windows without a marked frame are free, and there is one.
  -/
  enough : (∀ k, p.Passed n (s + k * n) ∨ p.FreeWindow n ((s + k * n) % (PFA_SIZE * 8))) →
    (∃ k, ¬ p.Passed n (s + k * n)) → p.Grants n

/-- For every bitmap, cursor and number of pages. -/
theorem request_pages_granted (hcursor : p.pageIndex < 4294967296) (hn : 1 ≤ n) :
    ∃ f, p.FirstClear f ∧ p.GrantedWhen n (f % (PFA_SIZE * 8)) := by
  obtain ⟨f, hf, -⟩ := FrameMap.skipUsed_firstClear (PFA_SIZE * 8 + 1 - p.pageIndex) p (by omega)
  refine ⟨f, hf, ?_⟩
  have hlt : f % (PFA_SIZE * 8) < PFA_SIZE * 8 := Nat.mod_lt _ (by decide)
  obtain ⟨s, hs⟩ : ∃ s, f % (PFA_SIZE * 8) = s := ⟨_, rfl⟩
  rw [hs] at hlt ⊢
  have hmod : s % (PFA_SIZE * 8) = f % (PFA_SIZE * 8) := by rw [Nat.mod_eq_of_lt hlt, hs]
  -- inside the bitmap a window that is not passed is free
  have hfree : ∀ c, c + n ≤ PFA_SIZE * 8 → p.FirstWindow n s c →
      (p.Grants n ↔ ∀ i, i < n → p.bit (c + i) = false) := by
    intro c hfit hc
    rw [FrameMap.grants_iff_of_first hcursor hf (hc.wrap hmod)]
    exact and_iff_right hfit
  have hinside : s + p.gap n s * n + n ≤ PFA_SIZE * 8 →
      (p.Grants n ↔ ∀ i, i < n → p.bit (s + p.gap n s * n + i) = false) :=
    fun hfit => hfree _ hfit (FrameMap.firstWindow_gap hn hfit)
  constructor
  case above =>
    intro hs hfit
    have hgap : p.gap n s = 0 := FrameMap.gap_eq_zero hs
    rw [hgap, Nat.zero_mul, Nat.add_zero] at hinside
    exact hinside hfit
  case inside => exact hinside
  -- the first window wraps: it is passed when a frame behind the wrap is marked
  case wraps =>
    intro hover hle
    have hpassed := FrameMap.passed_over (p := p) (by omega) hlt hover (by omega)
    by_cases hmarked : ∃ x, x < s + n - PFA_SIZE * 8 ∧ p.Marked x
    · rw [and_iff_right hmarked]
      have hgap := FrameMap.gap_le (p := p) (n := n) (s := s + n - PFA_SIZE * 8)
      have hfit : s + n - PFA_SIZE * 8 + p.gap n (s + n - PFA_SIZE * 8) * n + n ≤ PFA_SIZE * 8 := by
        rcases hgap with hgap | hgap
        · rw [hgap]
          omega
        · omega
      apply hfree _ hfit
      have hback : (s + n - PFA_SIZE * 8) % (PFA_SIZE * 8) = (s + n) % (PFA_SIZE * 8) :=
        (Nat.mod_eq_sub_mod (Nat.le_of_lt hover)).symm
      exact ((FrameMap.firstWindow_gap hn hfit).wrap hback).behind (hpassed.mpr hmarked)
    -- nothing is marked there, and the window that is returned does not fit
    · rw [FrameMap.grants_iff_of_first hcursor hf
        ((FrameMap.firstWindow_self (hpassed.not.mpr hmarked)).wrap hmod)]
      refine iff_of_false (fun hwindow => ?_) fun h => hmarked h.1
      have hend := hwindow.1
      rw [Nat.mod_eq_of_lt hlt] at hend
      omega
  -- more pages than the bitmap has: no window fits
  case huge =>
    intro hhuge
    have hnone : ∀ c, ¬ p.FreeWindow n c := fun c hwindow => by
      have hend := hwindow.1
      omega
    by_cases hmarked : ∃ x, p.Marked x
    · refine iff_of_true ((FrameMap.grants_iff_of_none hcursor hf fun c hc => ?_).mpr fun c _ =>
        hnone c) hmarked
      obtain ⟨k, -, hk, -⟩ := hc
      exact hk ((FrameMap.passed_huge hhuge).mpr hmarked)
    · have hself := FrameMap.firstWindow_self (p := p) (n := n) (f := f)
        ((FrameMap.passed_huge hhuge).not.mpr hmarked)
      rw [FrameMap.grants_iff_of_first hcursor hf hself]
      exact iff_of_false (hnone _) hmarked
  -- any other case, with a free window among those searched
  case enough =>
    rintro hall ⟨k, hk⟩
    obtain ⟨c, hc⟩ := FrameMap.exists_firstWindow hk
    apply (FrameMap.grants_iff_of_first hcursor hf (hc.wrap hmod)).mpr
    obtain ⟨l, -, hl, rfl⟩ := hc
    exact (hall l).resolve_left hl

/-- The frames from 300 on are free, and two of them are requested. -/
theorem request_pages_granted_free :
    ({ FrameMap.boot fun _ => 0 with pageIndex := 300 } : FrameMap).Grants 2 := by
  have hgrants : ∀ q : FrameMap, q.pageIndex = 300 → (∀ i, q.bit i = false) → q.Grants 2 := by
    intro q hindex hbit
    obtain ⟨f, hf, hwhen⟩ := request_pages_granted (p := q) (n := 2) (by omega) (by decide)
    -- the cursor is at a clear frame
    have hstart : f = 300 := by
      have hle := hf.le
      by_contra hne
      have hused := hf.used 300 (by omega) (by omega)
      rw [FrameMap.getBit_of_le _ (by decide), hbit] at hused
      exact Bool.false_ne_true hused
    rw [hstart] at hwhen
    exact (hwhen.above (by decide) (by decide)).mpr fun i _ => hbit _
  exact hgrants _ rfl fun i => BitVec.getMsbD_zero

/-- Frame 300 is free and frame 301 is in use; both are handed out. -/
theorem request_pages_takes_used_frame :
    ¬ ∀ (p : FrameMap) (n : Nat), p.pageIndex < 4294967296 → 1 ≤ n → n < 4294967296 →
    p.Grants n := by
  intro hall
  have hgrants := hall { FrameMap.boot fun i => if i = 37 then 0x04 else 0 with pageIndex := 300 } 2
    (by decide) (by decide) (by decide)
  have hreq : (({ FrameMap.boot fun i => if i = 37 then 0x04
    else 0 with pageIndex := 300 } : FrameMap).requestPages
      2).map Prod.fst = some (300 * 0x1000) := by
    decide +kernel
  obtain ⟨⟨a, p'⟩, hsome, rfl⟩ := Option.map_eq_some_iff.mp hreq
  have hused := ((hgrants.fresh _ _ hsome).1).2 1 (by decide)
  exact absurd hused (by decide +kernel)

end MishaOS
