import MishaOS.ForStd.Run
import MishaOS.Native.FrameMap
import MishaOS.Spec.FrameAlloc
import Mathlib.Data.BitVec

/-!
# Every run of the frame allocator

A frame has one bit in the bitmap, whichever function looks for it, so a frame
that was handed out stays set until it is released.  Each change of a bit comes
with a change of one counter: `usedMemory` and `reservedMemory` together count
the bits that are set.

## Key results

- `request_page_exclusive`: a frame is not handed out twice.
- `memory_counters_balance`: the counters agree with the bitmap in every run.
- `FrameMap.requestPage_toPfa`, `FrameMap.requestPages_toPfa`: the allocator of
  `Native/Paging.lean` is this one.
-/

namespace MishaOS

variable {p p' : FrameMap} {a i j : Nat}

/-! ## Bits and bytes -/

/-- The bit of the frame `i`. -/
def FrameMap.bit (p : FrameMap) (i : Nat) : Bool := (p.buffer (i / 8)).getMsbD (i % 8)

/-- The bits only depend on the buffer. -/
theorem FrameMap.bit_congr (h : p.buffer = p'.buffer) (i : Nat) : p.bit i = p'.bit i := by
  unfold bit
  rw [h]

/-- The mask of a bit picks it, counted from the top of the byte. -/
theorem and_mask_ne_zero (x : BitVec 8) (k : Fin 8) :
    decide (x &&& 0x80#8 >>> k.val ≠ 0) = x.getMsbD k := by
  revert x k
  decide +kernel

/-- Setting a bit leaves the others alone. -/
theorem getMsbD_or_mask (x : BitVec 8) (k l : Fin 8) :
    (x ||| 0x80#8 >>> k.val).getMsbD l = (x.getMsbD l || decide (l = k)) := by
  have hmask : (0x80#8 >>> k.val).getMsbD l = decide (l = k) := by
    revert k l
    decide
  rw [BitVec.getMsbD_or, hmask]

/-- So does clearing it. -/
theorem getMsbD_and_not_mask (x : BitVec 8) (k l : Fin 8) :
    (x &&& ~~~(0x80#8 >>> k.val)).getMsbD l = (x.getMsbD l && !decide (l = k)) := by
  have hmask : (~~~(0x80#8 >>> k.val)).getMsbD l = !decide (l = k) := by
    revert k l
    decide
  rw [BitVec.getMsbD_and, hmask]

/-- `pfa_get_bit` reads the bit, and finds every bit behind the bitmap clear. -/
theorem FrameMap.getBit_eq (p : FrameMap) (i : Nat) :
    p.getBit i = if i > PFA_SIZE * 8 then false else p.bit i := by
  unfold getBit bit bitMask
  rw [← and_mask_ne_zero _ ⟨i % 8, Nat.mod_lt i (by decide)⟩]

/-- Only the bit with the number `i` is written. -/
theorem FrameMap.setBit_bit (value : Bool) (hi : i ≤ PFA_SIZE * 8) :
    (p.setBit i value).2.bit j = if j = i then value else p.bit j := by
  have hlt : ∀ n, n % 8 < 8 := fun n => Nat.mod_lt n (by decide)
  have hgt : ¬ i > PFA_SIZE * 8 := by omega
  unfold setBit bit bitMask
  rw [if_neg hgt]
  -- the same byte, and then the bit in it; or another byte
  by_cases hbyte : j / 8 = i / 8
  · have hsame : j = i ↔ j % 8 = i % 8 := by omega
    have hor := getMsbD_or_mask (p.buffer (i / 8)) ⟨i % 8, hlt i⟩ ⟨j % 8, hlt j⟩
    have hand := getMsbD_and_not_mask (p.buffer (i / 8)) ⟨i % 8, hlt i⟩ ⟨j % 8, hlt j⟩
    simp only [Fin.mk.injEq] at hor hand
    simp only [hbyte, Function.update_self, hsame]
    cases value
    · rw [if_neg (by simp), hand]
      by_cases h : j % 8 = i % 8 <;> simp [h]
    · rw [if_pos rfl, hor]
      by_cases h : j % 8 = i % 8 <;> simp [h]
  · have hne : j ≠ i := fun e => hbyte (by rw [e])
    simp [hbyte, hne]

/-- `pfa_set_bit` succeeds up to the end of the bitmap. -/
theorem FrameMap.setBit_fst (value : Bool) (hi : i ≤ PFA_SIZE * 8) :
    (p.setBit i value).1 = true := by
  have hgt : ¬ i > PFA_SIZE * 8 := by omega
  rw [setBit, if_neg hgt]

/-- Setting a bit leaves the counters and the cursor alone. -/
theorem FrameMap.setBit_rest (value : Bool) :
    (p.setBit i value).2 = { p with buffer := (p.setBit i value).2.buffer } := by
  unfold setBit
  split <;> rfl

/-! ## One page -/

/-- An address has a frame of the bitmap. -/
theorem frame_lt {a : Nat} (ha : a < 4294967296) : a / 0x1000 < PFA_SIZE * 8 := by
  have hsize : PFA_SIZE * 8 = 1048576 := rfl
  omega

/-- The frame of a 32-bit address is in the bitmap. -/
theorem FrameMap.getBit_frame (p : FrameMap) (ha : a < 4294967296) :
    p.getBit (a / 0x1000) = p.bit (a / 0x1000) := by
  have := frame_lt ha
  rw [getBit_eq, if_neg (by omega)]

/-- The bit of the frame `i` is changed to `value`, and no other. -/
structure BitChanged (p p' : FrameMap) (i : Nat) (value : Bool) : Prop where
  old : p.bit i = !value
  bit : ∀ j, p'.bit j = if j = i then value else p.bit j

/-- What changes the buffer as `pfa_set_bit` does changes one bit. -/
theorem BitChanged.of_buffer {value : Bool} (hi : i ≤ PFA_SIZE * 8) (hold : p.bit i = !value)
    (h : p'.buffer = (p.setBit i value).2.buffer) : BitChanged p p' i value where
  old := hold
  bit j := (FrameMap.bit_congr h j).trans (FrameMap.setBit_bit value hi)

/-- What the frame and the counters are changed by, unless the frame was in use. -/
theorem FrameMap.lockPage_cases (p : FrameMap) (ha : a < 4294967296) :
    p.bit (a / 0x1000) = true ∧ p.lockPage a = p ∨
    BitChanged p (p.lockPage a) (a / 0x1000) true ∧
      (p.lockPage a).freeMemory = p.freeMemory - 0x1000 ∧
      (p.lockPage a).usedMemory = p.usedMemory + 0x1000 ∧
      (p.lockPage a).reservedMemory = p.reservedMemory := by
  have hle := Nat.le_of_lt (frame_lt ha)
  unfold lockPage
  dsimp only
  rw [p.getBit_frame ha]
  -- a set bit is left alone, a clear one is set and counted
  cases hbit : p.bit (a / 0x1000) with
  | true => exact .inl ⟨rfl, rfl⟩
  | false =>
    rw [if_neg (by simp)]
    exact .inr ⟨.of_buffer hle hbit rfl,
      by rw [p.setBit_rest], by rw [p.setBit_rest], by rw [p.setBit_rest]⟩

/-- `pfa_free_page` does nothing, or clears the bit and moves a page in the counters. -/
theorem FrameMap.freePage_cases (p : FrameMap) (ha : a < 4294967296) :
    p.bit (a / 0x1000) = false ∧ p.freePage a = p ∨
    BitChanged p (p.freePage a) (a / 0x1000) false ∧
      (p.freePage a).freeMemory = p.freeMemory + 0x1000 ∧
      (p.freePage a).usedMemory = p.usedMemory - 0x1000 ∧
      (p.freePage a).reservedMemory = p.reservedMemory := by
  have hle := Nat.le_of_lt (frame_lt ha)
  unfold freePage
  dsimp only
  rw [p.getBit_frame ha]
  -- a clear bit is left alone, a set one is cleared and counted
  cases hbit : p.bit (a / 0x1000) with
  | false => exact .inl ⟨rfl, rfl⟩
  | true =>
    rw [if_neg (by simp)]
    exact .inr ⟨.of_buffer hle hbit rfl,
      by rw [p.setBit_rest], by rw [p.setBit_rest], by rw [p.setBit_rest]⟩

/-- `pfa_reserve_page` does nothing, or sets the bit and counts a reserved page. -/
theorem FrameMap.reservePage_cases (p : FrameMap) (ha : a < 4294967296) :
    p.bit (a / 0x1000) = true ∧ p.reservePage a = p ∨
    BitChanged p (p.reservePage a) (a / 0x1000) true ∧
      (p.reservePage a).usedMemory = p.usedMemory ∧
      (p.reservePage a).reservedMemory = p.reservedMemory + 0x1000 := by
  have hle := Nat.le_of_lt (frame_lt ha)
  have hset : (p.setBit (a / 0x1000) true).1 = true := p.setBit_fst true hle
  unfold reservePage
  dsimp only
  rw [p.getBit_frame ha, hset]
  -- a frame in use is not reserved
  cases hbit : p.bit (a / 0x1000) with
  | true => exact .inl ⟨rfl, rfl⟩
  | false =>
    rw [if_neg (by simp), if_pos rfl]
    exact .inr ⟨.of_buffer hle hbit rfl, by rw [p.setBit_rest], by rw [p.setBit_rest]⟩

/-- Behind `pfa_lock_page` the bit is set. -/
theorem FrameMap.lockPage_bit (p : FrameMap) (ha : a < 4294967296) (j : Nat) :
    (p.lockPage a).bit j = (p.bit j || decide (j = a / 0x1000)) := by
  rcases p.lockPage_cases ha with ⟨hbit, heq⟩ | ⟨hc, -⟩
  · rw [heq]
    obtain rfl | hne := eq_or_ne j (a / 0x1000)
    · simp [hbit]
    · simp [hne]
  · rw [hc.bit]
    by_cases h : j = a / 0x1000 <;> simp [h]

/-- Behind `pfa_free_page` it is clear. -/
theorem FrameMap.freePage_bit (p : FrameMap) (ha : a < 4294967296) (j : Nat) :
    (p.freePage a).bit j = (p.bit j && !decide (j = a / 0x1000)) := by
  rcases p.freePage_cases ha with ⟨hbit, heq⟩ | ⟨hc, -⟩
  · rw [heq]
    obtain rfl | hne := eq_or_ne j (a / 0x1000)
    · simp [hbit]
    · simp [hne]
  · rw [hc.bit]
    by_cases h : j = a / 0x1000 <;> simp [h]

/-- What sets one bit for each address sets the bits of all. -/
theorem FrameMap.foldl_bit {g : FrameMap → Nat → FrameMap} {l : List Nat}
    (hg : ∀ p a, a < 4294967296 → (g p a).bit j = (p.bit j || decide (j = a / 0x1000)))
    (hl : ∀ a ∈ l, a < 4294967296) (p : FrameMap) :
    (l.foldl g p).bit j = (p.bit j || decide (j ∈ l.map (· / 0x1000))) := by
  induction l generalizing p with
  | nil => simp
  | cons a l ih =>
    rw [List.foldl_cons, ih (fun b hb => hl b (List.mem_cons_of_mem _ hb)),
      hg p a (hl a List.mem_cons_self)]
    simp [Bool.or_assoc]

/-- Locking a list of pages sets their bits. -/
theorem FrameMap.foldl_lockPage_bit {l : List Nat} (hl : ∀ a ∈ l, a < 4294967296)
    (p : FrameMap) (j : Nat) :
    (l.foldl FrameMap.lockPage p).bit j = (p.bit j || decide (j ∈ l.map (· / 0x1000))) :=
  foldl_bit (fun p _ ha => p.lockPage_bit ha j) hl p

/-- Freeing a list of pages clears their bits. -/
theorem FrameMap.foldl_freePage_bit {l : List Nat} (hl : ∀ a ∈ l, a < 4294967296)
    (p : FrameMap) (j : Nat) :
    (l.foldl FrameMap.freePage p).bit j = (p.bit j && !decide (j ∈ l.map (· / 0x1000))) := by
  induction l generalizing p with
  | nil => simp
  | cons a l ih =>
    rw [List.foldl_cons, ih (fun b hb => hl b (List.mem_cons_of_mem _ hb)),
      p.freePage_bit (hl a List.mem_cons_self)]
    simp [Bool.and_assoc]

/-- The addresses of a run of pages have 32 bits. -/
theorem pageRun_lt {address count : Nat} : ∀ a ∈ pageRun address count, a < 4294967296 := by
  intro a ha
  obtain ⟨i, -, rfl⟩ := List.mem_map.mp ha
  exact u32_lt _

/-- `pfa_lock_pages` sets the bits of the run. -/
theorem FrameMap.lockPages_bit (p : FrameMap) (address count j : Nat) :
    (p.lockPages address count).bit j = (p.bit j || decide (j ∈ runFrames address count)) :=
  foldl_lockPage_bit pageRun_lt p j

/-- A frame between the first and the last one of a run belongs to it. -/
theorem mem_runFrames {count : Nat} (hj : j < PFA_SIZE * 8) (hle : a / 0x1000 ≤ j)
    (hlt : j < a / 0x1000 + count) : j ∈ runFrames a count := by
  have hsize : PFA_SIZE * 8 = 1048576 := rfl
  refine List.mem_map.mpr ⟨_, List.mem_map.mpr ⟨j - a / 0x1000, List.mem_range.mpr (by omega), rfl⟩,
    ?_⟩
  rw [u32_of_lt (by omega)]
  omega

/-! ## Requests -/

/-- A request goes past frames in use; it takes the first one that is free. -/
theorem FrameMap.requestPageFrom_spec (n : Nat) : ∀ p : FrameMap, n + p.pageIndex ≤ PFA_SIZE * 8 →
    ∃ k, (p.requestPageFrom n).1 = none ∧ (p.requestPageFrom n).2 = { p with pageIndex := k } ∨
      k * 0x1000 < 4294967296 ∧ p.bit k = false ∧ (p.requestPageFrom n).1 = some (k * 0x1000) ∧
        (p.requestPageFrom n).2 = ({ p with pageIndex := k } : FrameMap).lockPage (k * 0x1000) := by
  induction n with
  | zero => exact fun p _ => ⟨p.pageIndex, .inl ⟨rfl, rfl⟩⟩
  | succ n ih =>
    intro p hn
    have hlt : p.pageIndex * 0x1000 < 4294967296 := by
      have hsize : PFA_SIZE * 8 = 1048576 := rfl
      omega
    rw [requestPageFrom]
    split
    · -- only the cursor moves on the way
      obtain ⟨k, hk⟩ := ih { p with pageIndex := p.pageIndex + 1 } (by simp; omega)
      exact ⟨k, hk⟩
    -- the frame at the cursor is free and is taken
    · rename_i hbit
      refine ⟨p.pageIndex, .inr ⟨hlt, ?_, rfl, rfl⟩⟩
      have heq := p.getBit_frame hlt
      rw [Nat.mul_div_cancel _ (by decide)] at heq
      rw [← heq]
      simpa using hbit

/-- `pfa_request_page` finds no frame and only moves the cursor, or locks a clear one. -/
theorem FrameMap.requestPage_cases (p : FrameMap) :
    ∃ k, p.requestPage.1 = none ∧ p.requestPage.2 = { p with pageIndex := k } ∨
      k * 0x1000 < 4294967296 ∧ p.bit k = false ∧ p.requestPage.1 = some (k * 0x1000) ∧
        p.requestPage.2 = ({ p with pageIndex := k } : FrameMap).lockPage (k * 0x1000) := by
  unfold requestPage
  by_cases hle : p.pageIndex ≤ PFA_SIZE * 8
  · exact requestPageFrom_spec _ p (by omega)
  · have hz : PFA_SIZE * 8 - p.pageIndex = 0 := by omega
    rw [hz]
    exact ⟨p.pageIndex, .inl ⟨rfl, rfl⟩⟩

/-- Skipping used frames only moves the cursor. -/
theorem FrameMap.skipUsed_eq (n : Nat) : ∀ p :
    FrameMap, ∃ k, p.skipUsed n = { p with pageIndex := k } := by
  induction n with
  | zero => exact fun p => ⟨p.pageIndex, rfl⟩
  | succ n ih =>
    intro p
    rw [skipUsed]
    split
    · obtain ⟨k, hk⟩ := ih { p with pageIndex := p.pageIndex + 1 }
      exact ⟨k, hk⟩
    · exact ⟨p.pageIndex, rfl⟩

/-- A request for several frames locks frames, whether or not they are free. -/
theorem FrameMap.requestPages_cases {pages : Nat} (h : p.requestPages pages = some (a, p')) :
    ∃ k, p' = ({ p with pageIndex := k } : FrameMap).lockPages a pages := by
  simp only [requestPages, Option.bind_eq_bind, Option.bind_eq_some_iff, Option.some.injEq,
    Prod.mk.injEq] at h
  obtain ⟨i, -, rfl, rfl⟩ := h
  obtain ⟨k, hk⟩ := skipUsed_eq (PFA_SIZE * 8 + 1 - p.pageIndex) p
  exact ⟨k, by rw [hk]⟩

/-! ## Runs -/

inductive FrameOp
  | request
  | requestPages (pages : BitVec 32)
  | lock (address : BitVec 32)
  | lockPages (address count : BitVec 32)
  | free (address : BitVec 32)
  | freePages (address count : BitVec 32)

def frameStep (p : FrameMap) : FrameOp → Option FrameMap
  | .request => some p.requestPage.2
  | .requestPages pages => (p.requestPages pages.toNat).map Prod.snd
  | .lock address => some (p.lockPage address.toNat)
  | .lockPages address count => some (p.lockPages address.toNat count.toNat)
  | .free address => some (p.freePage address.toNat)
  | .freePages address count => some (p.freePages address.toNat count.toNat)

/-- The frame `i` is passed to `pfa_free_page` or `pfa_free_pages`. -/
def FrameOp.Frees (i : Nat) : FrameOp → Prop
  | .free address => i = address.toNat / 0x1000
  | .freePages address count => i ∈ runFrames address.toNat count.toNat
  | _ => False

instance (i : Nat) (op : FrameOp) : Decidable (op.Frees i) :=
  match op with
  | .free _ => inferInstanceAs (Decidable (_ = _))
  | .freePages .. => inferInstanceAs (Decidable (_ ∈ _))
  | .request | .requestPages _ | .lock _ | .lockPages .. => inferInstanceAs (Decidable False)

/-- A bit that is set stays set until the frame is released. -/
theorem frameStep_bit {op : FrameOp} (hbit : p.bit i = true) (hop : ¬ op.Frees i)
    (h : frameStep p op = some p') : p'.bit i = true := by
  -- one case per operation; only `free` clears bits
  cases op with
  | request =>
    obtain rfl := Option.some.inj h
    obtain ⟨k, ⟨-, heq⟩ | ⟨hk, -, -, heq⟩⟩ := p.requestPage_cases
    · rw [heq]
      exact hbit
    · rw [heq, FrameMap.lockPage_bit _ hk]
      exact Bool.or_eq_true_iff.mpr (.inl hbit)
  | requestPages pages =>
    obtain ⟨⟨a, q⟩, hreq, rfl⟩ := Option.map_eq_some_iff.mp h
    obtain ⟨k, rfl⟩ := FrameMap.requestPages_cases hreq
    rw [FrameMap.lockPages, FrameMap.foldl_lockPage_bit pageRun_lt]
    exact Bool.or_eq_true_iff.mpr (.inl hbit)
  | lock address =>
    obtain rfl := Option.some.inj h
    rw [p.lockPage_bit address.isLt, hbit, Bool.true_or]
  | lockPages address count =>
    obtain rfl := Option.some.inj h
    rw [FrameMap.lockPages, FrameMap.foldl_lockPage_bit pageRun_lt, hbit, Bool.true_or]
  | free address =>
    obtain rfl := Option.some.inj h
    have hne : ¬ i = address.toNat / 0x1000 := hop
    rw [p.freePage_bit address.isLt, hbit]
    simp [hne]
  | freePages address count =>
    obtain rfl := Option.some.inj h
    -- the frame is none of those that are freed
    have hnot : i ∉ (pageRun address.toNat count.toNat).map (· / 0x1000) := hop
    rw [FrameMap.freePages, FrameMap.foldl_freePage_bit pageRun_lt, hbit]
    simp [hnot]

/-- `pfa_request_page` in any state, and so behind any run: it returns a frame whose bit was
    clear and sets this bit only, and no later request returns the frame before it is released. -/
theorem request_page_exclusive (h : p.requestPage.1 = some a) :
    a % 0x1000 = 0 ∧ a < 4294967296 ∧ p.bit (a / 0x1000) = false ∧
      (∀ j, p.requestPage.2.bit j = (p.bit j || decide (j = a / 0x1000))) ∧
      ∀ ops p', Run frameStep (fun _ op => ¬ op.Frees (a / 0x1000)) p.requestPage.2 ops p' →
        p'.requestPage.1 ≠ some a := by
  obtain ⟨k, ⟨hnone, -⟩ | ⟨hk, hfree, hsome, heq⟩⟩ := p.requestPage_cases
  · simp [hnone] at h
  obtain rfl : k * 0x1000 = a := Option.some.inj (hsome.symm.trans h)
  have hdiv : k * 0x1000 / 0x1000 = k := Nat.mul_div_cancel _ (by decide)
  have hbits : ∀ j, p.requestPage.2.bit j = (p.bit j || decide (j = k * 0x1000 / 0x1000)) := by
    intro j
    rw [heq, FrameMap.lockPage_bit _ hk]
    rfl
  refine ⟨Nat.mul_mod_left _ _, hk, by rwa [hdiv], hbits, ?_⟩
  intro ops p' hrun hreq
  have hset : p'.bit k = true := by
    apply hrun.invariant (fun q => q.bit k = true)
    · exact fun q op q' hq hop hstep => frameStep_bit hq (by rwa [hdiv] at hop) hstep
    · rw [hbits, hdiv]
      simp
  -- the frame that a request returns was free
  obtain ⟨k', ⟨hnone, -⟩ | ⟨-, hfree', hsome', -⟩⟩ := p'.requestPage_cases
  · simp [hnone] at hreq
  · have hkk : k' * 0x1000 = k * 0x1000 := Option.some.inj (hsome'.symm.trans hreq)
    obtain rfl : k' = k := Nat.eq_of_mul_eq_mul_right (by decide) hkk
    simp [hset] at hfree'

/-- The sixth frame of an empty bitmap is requested. -/
theorem request_page_exclusive_sixth :
    ({ FrameMap.boot fun _ => 0 with pageIndex := 5 } : FrameMap).requestPage.1 = some 0x5000 ∧
      ({ FrameMap.boot fun _ => 0 with pageIndex := 5 } : FrameMap).bit 5 = false := by
  have hreq : ({ FrameMap.boot fun _ => 0 with pageIndex := 5 } : FrameMap).requestPage.1 =
      some 0x5000 := by
    decide +kernel
  obtain ⟨-, -, hfree, -⟩ := request_page_exclusive hreq
  exact ⟨hreq, hfree⟩

/-! ## The counters -/

/-- The number of bits that are set in the bitmap. -/
def FrameMap.setBits (p : FrameMap) : Nat := (List.range (PFA_SIZE * 8)).countP p.bit

/-- One more element is counted when the predicate becomes true at `i` only. -/
theorem countP_range_change {f g : Nat → Bool} (hf : f i = false) (hg : g i = true)
    (hsame : ∀ j, j ≠ i → g j = f j) (n : Nat) :
    (List.range n).countP g = (List.range n).countP f + if i < n then 1 else 0 := by
  induction n with
  | zero => simp
  | succ n ih =>
    rw [List.range_succ, List.countP_append, List.countP_append, ih]
    -- the last index is `i`, or the count of the rest decides
    obtain rfl | hne := eq_or_ne n i
    · simp [hf, hg]
    · have hiff : i < n + 1 ↔ i < n := by omega
      simp only [List.countP_singleton, hsame n hne, hiff]
      omega

/-- One more bit is set. -/
theorem BitChanged.setBits_true (h : BitChanged p p' i true) (hi : i < PFA_SIZE * 8) :
    p'.setBits = p.setBits + 1 := by
  have hcount := countP_range_change (g := p'.bit) h.old (by simp [h.bit])
    (fun j hj => by simp [h.bit, hj]) (PFA_SIZE * 8)
  rwa [if_pos hi] at hcount

/-- One bit less is set. -/
theorem BitChanged.setBits_false (h : BitChanged p p' i false) (hi : i < PFA_SIZE * 8) :
    p.setBits = p'.setBits + 1 := by
  have hcount := countP_range_change (g := p.bit) (f := p'.bit) (by simp [h.bit]) h.old
    (fun j hj => by simp [h.bit, hj]) (PFA_SIZE * 8)
  rwa [if_pos hi] at hcount

/-- Frames in use and reserved frames are the ones whose bits are set. -/
def FrameMap.Balanced (p : FrameMap) : Prop :=
  p.usedMemory + p.reservedMemory = BitVec.ofNat 32 (0x1000 * p.setBits)

/-- The memory that is free or in use, and the memory that is reserved. -/
def FrameMap.totals (p : FrameMap) : BitVec 32 × BitVec 32 :=
  (p.freeMemory + p.usedMemory, p.reservedMemory)

/-- The byte count of `n + 1` pages. -/
theorem ofNat_page_succ (n : Nat) :
    BitVec.ofNat 32 (0x1000 * (n + 1)) = BitVec.ofNat 32 (0x1000 * n) + 0x1000 := by
  rw [Nat.mul_add, BitVec.ofNat_add]
  rfl

/-- `pfa_lock_page` keeps the counters in step with the bitmap, and their sum. -/
theorem FrameMap.lockPage_counters (p : FrameMap) (ha : a < 4294967296) :
    (p.Balanced → (p.lockPage a).Balanced) ∧ (p.lockPage a).totals = p.totals := by
  rcases p.lockPage_cases ha with ⟨-, heq⟩ | ⟨hc, hfree, hused, hres⟩
  · rw [heq]
    exact ⟨id, rfl⟩
  · constructor
    · intro h
      unfold Balanced at h ⊢
      -- one bit more and one page more
      rw [hc.setBits_true (frame_lt ha), ofNat_page_succ, ← h, hused, hres, add_right_comm]
    · apply Prod.ext
      · show (p.lockPage a).freeMemory + (p.lockPage a).usedMemory = p.freeMemory + p.usedMemory
        rw [hfree, hused, sub_add_add_cancel]
      · exact hres

/-- So does `pfa_free_page`. -/
theorem FrameMap.freePage_counters (p : FrameMap) (ha : a < 4294967296) :
    (p.Balanced → (p.freePage a).Balanced) ∧ (p.freePage a).totals = p.totals := by
  rcases p.freePage_cases ha with ⟨-, heq⟩ | ⟨hc, hfree, hused, hres⟩
  · rw [heq]
    exact ⟨id, rfl⟩
  · constructor
    · intro h
      unfold Balanced at h ⊢
      -- one bit less and one page less
      rw [hc.setBits_false (frame_lt ha), ofNat_page_succ] at h
      rw [hused, hres, sub_add_eq_add_sub, h, add_sub_cancel_right]
    · apply Prod.ext
      · show (p.freePage a).freeMemory + (p.freePage a).usedMemory = p.freeMemory + p.usedMemory
        rw [hfree, hused, add_add_sub_cancel]
      · exact hres

/-- `pfa_reserve_page` keeps the counters in step with the bitmap. -/
theorem FrameMap.reservePage_balanced (p : FrameMap) (ha : a < 4294967296) (h : p.Balanced) :
    (p.reservePage a).Balanced := by
  rcases p.reservePage_cases ha with ⟨-, heq⟩ | ⟨hc, hused, hres⟩
  · rwa [heq]
  · unfold Balanced at h ⊢
    rw [hc.setBits_true (frame_lt ha), ofNat_page_succ, ← h, hused, hres, add_assoc]

/-- Calls for the pages of a run one after the other. -/
theorem FrameMap.foldl_counters {page : FrameMap → Nat → FrameMap}
    (hpage : ∀ p a, a < 4294967296 → (Balanced p → (page p a).Balanced) ∧
      (page p a).totals = p.totals)
    {l : List Nat} (hl : ∀ a ∈ l, a < 4294967296) (p : FrameMap) :
    (p.Balanced → (l.foldl page p).Balanced) ∧ (l.foldl page p).totals = p.totals := by
  -- page by page
  induction l generalizing p with
  | nil => exact ⟨id, rfl⟩
  | cons a l ih =>
    obtain ⟨hbal, htot⟩ := hpage p a (hl a List.mem_cons_self)
    obtain ⟨hbal', htot'⟩ := ih (fun b hb => hl b (List.mem_cons_of_mem _ hb)) (page p a)
    exact ⟨hbal' ∘ hbal, htot'.trans htot⟩

/-- `pfa_lock_pages` keeps the counters in step with the bitmap, and their sum. -/
theorem FrameMap.lockPages_counters (p : FrameMap) (address count : Nat) :
    (p.Balanced → (p.lockPages address count).Balanced) ∧
      (p.lockPages address count).totals = p.totals :=
  foldl_counters (fun p _ ha => p.lockPage_counters ha) pageRun_lt p

/-- So does `pfa_free_pages`. -/
theorem FrameMap.freePages_counters (p : FrameMap) (address count : Nat) :
    (p.Balanced → (p.freePages address count).Balanced) ∧
      (p.freePages address count).totals = p.totals :=
  foldl_counters (fun p _ ha => p.freePage_counters ha) pageRun_lt p

/-- `pfa_reserve_pages` keeps the counters in step with the bitmap. -/
theorem FrameMap.reservePages_balanced (p : FrameMap) (address count : Nat) (h : p.Balanced) :
    (p.reservePages address count).Balanced := by
  unfold reservePages
  have hrun : ∀ a ∈ pageRun address count, a < 4294967296 := pageRun_lt
  generalize pageRun address count = l at hrun
  induction l generalizing p with
  | nil => exact h
  | cons a l ih =>
    exact ih (p.reservePage a) (p.reservePage_balanced (hrun a List.mem_cons_self) h)
      fun b hb => hrun b (List.mem_cons_of_mem _ hb)

/-- The entries of the memory map change the balance of the counters as little as single calls. -/
theorem readEntry_balanced {s : FrameMap × BitVec 64} (l : List MemoryMapEntry) (h : s.1.Balanced) :
    (l.foldl readEntry s).1.Balanced := by
  induction l generalizing s with
  | nil => exact h
  | cons entry l ih =>
    apply ih
    unfold readEntry
    split
    · split
      · exact s.1.reservePages_balanced _ _ h
      · exact h
    · exact h

/-- An empty bitmap, and then the first entries of the memory map. -/
theorem FrameMap.boot_balanced (buffer : Nat → BitVec 8) (l : List MemoryMapEntry) :
    (l.foldl readEntry ((boot buffer).clear, 0)).1.Balanced := by
  apply readEntry_balanced
  -- no bit of the cleared bitmap is set
  have hbits : (boot buffer).clear.setBits = 0 := by
    apply List.countP_eq_zero.mpr
    intro j hj
    have hlt : j / 8 < PFA_SIZE := Nat.div_lt_of_lt_mul (Nat.mul_comm _ _ ▸ List.mem_range.mp hj)
    simp [bit, clear, hlt]
  unfold Balanced
  rw [hbits]
  rfl

/-- Behind `pfa_read_memory_map` the counters are in step with the bitmap. -/
theorem FrameMap.readMemoryMap_balanced (buffer : Nat → BitVec 8) (multiboot : List MemoryMapEntry)
    (meminfo : KernelMeminfo) : ((boot buffer).readMemoryMap multiboot meminfo).Balanced := by
  have hmap := boot_balanced buffer multiboot
  unfold readMemoryMap
  rw [if_neg (by simp [boot])]
  dsimp only
  -- only `free_memory` is set between the memory map and the locks
  apply (lockPages_counters _ _ _).1
  apply (lockPages_counters _ _ _).1
  apply (lockPages_counters _ _ _).1
  exact hmap

/-- Every operation keeps the counters in step with the bitmap, and their sum. -/
theorem frameStep_counters {op : FrameOp} (h : frameStep p op = some p') :
    (p.Balanced → p'.Balanced) ∧ p'.totals = p.totals := by
  -- each operation is a sequence of single frames
  cases op with
  | request =>
    obtain rfl := Option.some.inj h
    obtain ⟨k, ⟨-, heq⟩ | ⟨hk, -, -, heq⟩⟩ := p.requestPage_cases
    · rw [heq]
      exact ⟨id, rfl⟩
    · rw [heq]
      exact FrameMap.lockPage_counters { p with pageIndex := k } hk
  | requestPages pages =>
    obtain ⟨⟨a, q⟩, hreq, rfl⟩ := Option.map_eq_some_iff.mp h
    obtain ⟨k, rfl⟩ := FrameMap.requestPages_cases hreq
    exact FrameMap.lockPages_counters { p with pageIndex := k } _ _
  | lock address =>
    obtain rfl := Option.some.inj h
    exact p.lockPage_counters address.isLt
  | lockPages address count =>
    obtain rfl := Option.some.inj h
    exact p.lockPages_counters _ _
  | free address =>
    obtain rfl := Option.some.inj h
    exact p.freePage_counters address.isLt
  | freePages address count =>
    obtain rfl := Option.some.inj h
    exact p.freePages_counters _ _

/-- In every run the counters agree with the bitmap, from the first entry of the memory map on;
    behind the memory map the totals stay as they are. -/
theorem memory_counters_balance {buffer : Nat → BitVec 8} {multiboot : List MemoryMapEntry}
    {meminfo : KernelMeminfo} {ops : List FrameOp}
    (hrun : Run frameStep (fun _ _ => True)
      ((FrameMap.boot buffer).readMemoryMap multiboot meminfo) ops p) :
    (∀ l, l <+: multiboot → (l.foldl readEntry ((FrameMap.boot buffer).clear, 0)).1.Balanced) ∧
      p.Balanced ∧
      p.freeMemory + p.usedMemory =
        ((FrameMap.boot buffer).readMemoryMap multiboot meminfo).freeMemory +
          ((FrameMap.boot buffer).readMemoryMap multiboot meminfo).usedMemory ∧
      p.reservedMemory =
        ((FrameMap.boot buffer).readMemoryMap multiboot meminfo).reservedMemory := by
  -- balanced behind the memory map, and kept so
  obtain ⟨hbal, htot⟩ : p.Balanced ∧
      p.totals = ((FrameMap.boot buffer).readMemoryMap multiboot meminfo).totals := by
    apply hrun.invariant fun q => q.Balanced ∧
      q.totals = ((FrameMap.boot buffer).readMemoryMap multiboot meminfo).totals
    · intro q op q' hq _ hstep
      obtain ⟨hbal, htot⟩ := frameStep_counters hstep
      exact ⟨hbal hq.1, htot.trans hq.2⟩
    · exact ⟨FrameMap.readMemoryMap_balanced buffer multiboot meminfo, rfl⟩
  exact ⟨fun l _ => FrameMap.boot_balanced buffer l, hbal, congrArg Prod.fst htot,
    congrArg Prod.snd htot⟩

/-- A frame is requested behind a memory map with one reserved entry, and another one is
    locked and released. -/
theorem memory_counters_balance_run :
    ∃ p, Run frameStep (fun _ _ => True)
      ((FrameMap.boot fun _ => 0xFF).readMemoryMap [⟨0x9F000, 0x61000, 2⟩] ⟨0x100000, 0x180000,
        0x200000, 0x280000⟩)
      [.request, .lock 0x5000, .free 0x5000] p ∧ p.Balanced := by
  have hrun : ∀ q : FrameMap, Run frameStep (fun _ _ => True) q [.request,
    .lock 0x5000, .free 0x5000]
      ((q.requestPage.2.lockPage (BitVec.toNat 0x5000#32)).freePage (BitVec.toNat 0x5000#32)) :=
        fun q =>
    .cons trivial rfl (.cons trivial rfl (.cons trivial rfl (.nil _)))
  obtain ⟨-, hbal, -⟩ := memory_counters_balance (hrun _)
  exact ⟨_, hrun _, hbal⟩

/-! ## The allocator on single bits -/

/-- The state of `Native/Paging.lean`; what it says about failed requests is left open. -/
def FrameMap.toPfa (p : FrameMap) (overcommitted : Bool) : Pfa :=
  ⟨p.bit, p.pageIndex, p.freeMemory, p.usedMemory, overcommitted⟩

variable {o : Bool}

/-- Both models of the bitmap read the same bit. -/
theorem pfaGetBit_toPfa (p : FrameMap) (o : Bool) (i : Nat) :
    pfaGetBit (p.toPfa o) i = p.getBit i := by
  rw [p.getBit_eq]
  rfl

/-- Both write the same bit. -/
theorem pfaSetBit_toPfa (p : FrameMap) (o value : Bool) (i : Nat) :
    pfaSetBit (p.toPfa o) i value = (p.setBit i value).2.toPfa o := by
  by_cases hi : i > PFA_BITS
  · have hgt : i > PFA_SIZE * 8 := hi
    rw [pfaSetBit, if_pos hi, FrameMap.setBit, if_pos hgt]
  · have hbit : (p.setBit i value).2.bit = Function.update p.bit i value := by
      funext j
      rw [FrameMap.setBit_bit value (Nat.le_of_not_lt hi), Function.update_apply]
    rw [pfaSetBit, if_neg hi, FrameMap.toPfa, FrameMap.toPfa, hbit, p.setBit_rest]

/-- `pfa_free_page` without its counters. -/
theorem FrameMap.freePage_toPfa (p : FrameMap) (o : Bool) (a : Nat) :
    (p.freePage a).toPfa o = pfaFreePage (p.toPfa o) a := by
  unfold pfaFreePage freePage
  dsimp only
  rw [pfaGetBit_toPfa, pfaSetBit_toPfa]
  cases p.getBit (a / 0x1000) with
  | false => rfl
  | true =>
    rw [if_neg (by simp), if_pos rfl, p.setBit_rest]
    rfl

/-- `pfa_lock_page` without its counters. -/
theorem FrameMap.lockPage_toPfa (p : FrameMap) (o : Bool) (a : Nat) :
    (p.lockPage a).toPfa o = pfaLockPage (p.toPfa o) a := by
  unfold pfaLockPage lockPage
  dsimp only
  rw [pfaGetBit_toPfa, pfaSetBit_toPfa]
  cases p.getBit (a / 0x1000) with
  | true => rfl
  | false =>
    rw [if_neg (by simp), if_neg (by simp), p.setBit_rest]
    rfl

/-- What agrees for one page agrees for a list of pages. -/
theorem FrameMap.foldl_toPfa {f : FrameMap → Nat → FrameMap} {g : Pfa → Nat → Pfa}
    (h : ∀ p a, (f p a).toPfa o = g (p.toPfa o) a) (l : List Nat) (p : FrameMap) :
    (l.foldl f p).toPfa o = l.foldl g (p.toPfa o) := by
  induction l generalizing p with
  | nil => rfl
  | cons a l ih => rw [List.foldl_cons, List.foldl_cons, ih, h]

/-- The search of `pfa_request_page` is the same, with the address 0 for no frame. -/
theorem FrameMap.requestPageFrom_toPfa (n : Nat) (o : Bool) : ∀ p : FrameMap,
    pfaRequestPageFrom n (p.toPfa o) =
      ((p.requestPageFrom n).1.getD 0, (p.requestPageFrom n).2.toPfa o) := by
  induction n with
  | zero => exact fun p => rfl
  | succ n ih =>
    intro p
    rw [pfaRequestPageFrom, requestPageFrom]
    -- both read the same bit
    have hbit : pfaGetBit (p.toPfa o) (p.toPfa o).pageIndex = p.getBit p.pageIndex :=
      pfaGetBit_toPfa ..
    rw [hbit]
    split
    · exact ih { p with pageIndex := p.pageIndex + 1 }
    · rw [lockPage_toPfa]
      rfl

/-- A request on the bytes of the bitmap is one on its bits. -/
theorem FrameMap.requestPage_toPfa (p : FrameMap) (o : Bool) :
    ∃ o', pfaRequestPage (p.toPfa o) = (p.requestPage.1.getD 0, p.requestPage.2.toPfa o') := by
  have hfrom := requestPageFrom_toPfa (PFA_SIZE * 8 - p.pageIndex) o p
  unfold pfaRequestPage
  rw [show PFA_BITS - (p.toPfa o).pageIndex = PFA_SIZE * 8 - p.pageIndex from rfl, hfrom]
  exact ⟨_, rfl⟩

/-- Skipping used frames is the same. -/
theorem FrameMap.skipUsed_toPfa (n : Nat) (o : Bool) : ∀ p : FrameMap,
    pfaSkipUsed n (p.toPfa o) = (p.skipUsed n).toPfa o := by
  induction n with
  | zero => exact fun p => rfl
  | succ n ih =>
    intro p
    rw [pfaSkipUsed, skipUsed]
    have hbit : pfaGetBit (p.toPfa o) (p.toPfa o).pageIndex = p.getBit p.pageIndex :=
      pfaGetBit_toPfa ..
    rw [hbit]
    split
    · exact ih { p with pageIndex := p.pageIndex + 1 }
    · rfl

/-- The search for a run of frames is the same. -/
theorem FrameMap.findRun_toPfa (p : FrameMap) (o : Bool) (pages n : Nat) : ∀ i,
    pfaFindRun (p.toPfa o) pages n i = p.findRun pages n i := by
  induction n with
  | zero => exact fun i => rfl
  | succ n ih =>
    intro i
    simp only [pfaFindRun, findRun, pfaGetBit_toPfa, ih]

/-- So is `pfa_request_pages`. -/
theorem FrameMap.requestPages_toPfa (p : FrameMap) (o : Bool) (pages : Nat)
    (h : p.requestPages pages = some (a, p')) :
    ∃ o', pfaRequestPages (p.toPfa o) pages = some (a, p'.toPfa o') := by
  simp only [requestPages, Option.bind_eq_bind, Option.bind_eq_some_iff, Option.some.injEq,
    Prod.mk.injEq] at h
  obtain ⟨i, hi, rfl, rfl⟩ := h
  unfold pfaRequestPages
  rw [show PFA_BITS + 1 - (p.toPfa o).pageIndex = PFA_SIZE * 8 + 1 - p.pageIndex from rfl,
    skipUsed_toPfa]
  generalize p.skipUsed (PFA_SIZE * 8 + 1 - p.pageIndex) = q at hi ⊢
  -- the search reads the same bits
  have hfind : pfaFindRun (q.toPfa o) pages walkFuel (q.toPfa o).pageIndex = some i :=
    (findRun_toPfa q o pages walkFuel q.pageIndex).trans hi
  have hlock : (q.lockPages (u32 (i * 0x1000)) pages).toPfa o =
      pfaLockPages (q.toPfa o) (u32 (i * 0x1000)) pages :=
        foldl_toPfa (fun p a => p.lockPage_toPfa o a) _ _
  dsimp only
  rw [hfind, Option.bind_eq_bind, Option.bind_some]
  rw [← hlock]
  exact ⟨_, rfl⟩

end MishaOS
