import Mathlib.Tactic.Set
import MishaOS.Spec.HeapLayout

/-!
# The heap invariant

`HeapInv h l` ties the static variables and the header memory of the heap to
the list `l` of its segments.  Each routine of the allocator gets one lemma
that says what it does to `l`: merging a segment with the free one behind it,
splitting a segment, marking one, appending a new last one.
-/

namespace MishaOS

/-- The segment list `l` of the heap `h`. -/
structure HeapInv (h : Heap) (l : List Seg) : Prop where
  linked : Linked h.seg 0 h.heapEnd 0 h.heapStart l
  ne_nil : l ≠ []
  last : h.lastHeader = lastAddr 0 l
  start : h.heapStart = HEAP_START
  bound : h.heapEnd < 4294967296

variable {h : Heap} {l k : List Seg} {s t : Seg}

theorem HeapInv.exists_last (hi : HeapInv h l) : ∃ l' p, l = l' ++ [p] :=
  ⟨l.dropLast, l.getLast hi.ne_nil, (List.dropLast_concat_getLast hi.ne_nil).symm⟩

theorem HeapInv.bounds (hi : HeapInv h l) (hs : s ∈ l) :
    HEAP_START ≤ s.addr ∧ s.addr + 16 + s.length ≤ h.heapEnd := by
  have := hi.linked.bounds hs
  rw [hi.start] at this
  exact this

theorem HeapInv.aligned (hi : HeapInv h l) (hs : s ∈ l) :
    s.addr % 16 = 0 ∧ s.length % 16 = 0 :=
  hi.linked.aligned (by rw [hi.start]; rfl) hs

/-- The header memory at a segment of the list. -/
theorem HeapInv.seg_eq (hi : HeapInv h (l ++ s :: k)) :
    h.seg s.addr = ⟨s.length, headAddr 0 k, lastAddr 0 l, s.free⟩ :=
  ((linked_append.mp hi.linked).2).2.1

/-- `last_header` is the segment just before `k` exactly when `k` is empty. -/
theorem HeapInv.last_eq_iff (hi : HeapInv h (l ++ s :: k)) :
    h.lastHeader = s.addr ↔ k = [] := by
  rw [hi.last, lastAddr_append_cons]
  constructor
  · intro hlast
    cases k with
    | nil => rfl
    | cons x xs =>
      -- the last segment lies behind `s`
      have hrest := ((linked_append.mp hi.linked).2).2.2.2
      have hmem : ∀ (y : Seg) (ys : List Seg), ∃ z ∈ y :: ys,
          lastAddr s.addr (y :: ys) = z.addr := by
        intro y ys
        induction ys generalizing y with
        | nil => exact ⟨y, List.mem_cons_self, rfl⟩
        | cons w ws ih =>
          obtain ⟨z, hz, hzl⟩ := ih w
          exact ⟨z, List.mem_cons_of_mem _ hz, hzl⟩
      obtain ⟨z, hz, hzl⟩ := hmem x xs
      have := (hrest.bounds hz).1
      simp only [Seg.stop, segHdrSize] at this
      omega
  · rintro rfl
    rfl

/-! ## Marking a segment -/

/-- Writing the free flag of a segment. -/
theorem HeapInv.setFree (hi : HeapInv h (l ++ s :: k)) (b : Bool) :
    HeapInv (h.setSeg s.addr { h.seg s.addr with free := b }) (l ++ { s with free := b } :: k) := by
  obtain ⟨hl, hs⟩ := linked_append.mp hi.linked
  obtain ⟨-, hm, hlen, hk⟩ := hs
  refine ⟨?_, by simp, ?_, hi.start, hi.bound⟩
  · refine linked_append.mpr ⟨hl.update_ge (Nat.le_refl _) _, rfl, ?_, hlen, hk.update_lt ?_ _⟩
    · simp [Heap.setSeg, hm]
    · simp only [Seg.stop, segHdrSize]
      omega
  · simpa [Heap.setSeg] using hi.last

/-! ## Merging -/

/-- `heap_combine_forward` on a segment that is followed by a free one. -/
theorem heapCombineForward_merge (hi : HeapInv h (l ++ s :: t :: k)) (ht : t.free = true) :
    HeapInv (heapCombineForward h s.addr)
      (l ++ ⟨s.addr, s.length + segHdrSize + t.length, s.free⟩ :: k) := by
  obtain ⟨hl, hs⟩ := linked_append.mp hi.linked
  obtain ⟨-, hms, hls, hst, hmt, hlt, hk⟩ := hs
  rw [← hst] at hmt hk
  have hsb := hi.bounds (s := s) (by simp)
  have htb := hi.bounds (s := t) (by simp)
  have hb := hi.bound
  have hmt : h.seg t.addr = ⟨t.length, headAddr 0 k, s.addr, true⟩ := by rw [hmt, ht]
  have hst : t.addr = s.addr + 16 + s.length := hst
  have hms : h.seg s.addr = ⟨s.length, t.addr, lastAddr 0 l, s.free⟩ := hms
  have ht0 : t.addr ≠ 0 := by simp only [HEAP_START] at htb; omega
  -- the merged length is that of both segments and of the header between them
  have hlen : u32 (s.length + (t.length + segHdrSize)) = s.length + segHdrSize + t.length := by
    simp only [segHdrSize]
    rw [u32_of_lt (by omega)]
    omega
  have hlast : h.lastHeader = t.addr ↔ k = [] :=
    HeapInv.last_eq_iff (l := l ++ [s]) (by simpa using hi)
  -- behind the two there is the end of the heap, or a segment whose `prev` changes
  cases k with
  | nil =>
    have heq : heapCombineForward h s.addr =
        { h with
          lastHeader := s.addr
          seg := Function.update h.seg s.addr
            ⟨s.length + segHdrSize + t.length, 0, lastAddr 0 l, s.free⟩ } := by
      simp [heapCombineForward, Heap.setSeg, hms, hmt, ht0, hlast.mpr rfl, headAddr, hlen,
        Function.update_of_ne (show t.addr ≠ s.addr by omega)]
    rw [heq]
    refine ⟨linked_append.mpr ⟨hl.update_ge (Nat.le_refl _) _, rfl, ?_, ?_, ?_⟩, by simp,
      ?_, hi.start, hi.bound⟩
    · simp [headAddr]
    · simp only [segHdrSize]
      omega
    · simp only [Linked, Seg.stop, segHdrSize] at hk ⊢
      omega
    · simp [lastAddr]
  | cons m k =>
    have hmb := hi.bounds (s := m) (by simp)
    have hmm : m.addr = t.addr + 16 + t.length := hk.1
    have hm0 : m.addr ≠ 0 := by omega
    have hlast' : t.addr ≠ h.lastHeader := fun e => by simpa using hlast.mp e.symm
    have heq : heapCombineForward h s.addr =
        { h with
          seg := Function.update (Function.update h.seg m.addr { h.seg m.addr with last := s.addr })
            s.addr ⟨s.length + segHdrSize + t.length, m.addr, lastAddr 0 l, s.free⟩ } := by
      simp [heapCombineForward, Heap.setSeg, hms, hmt, ht0, hlast', headAddr, hlen, hm0,
        Function.update_of_ne (show t.addr ≠ s.addr by omega),
        Function.update_of_ne (show t.addr ≠ m.addr by omega),
        Function.update_of_ne (show s.addr ≠ m.addr by omega)]
    rw [heq]
    have hstop : (⟨s.addr, s.length + segHdrSize + t.length, s.free⟩ : Seg).stop = m.addr := by
      simp only [Seg.stop, segHdrSize]
      omega
    have hk' : Linked h.seg 0 h.heapEnd t.addr m.addr (m :: k) := by
      rw [hmm, ← show t.stop = t.addr + 16 + t.length from rfl]
      exact hk
    refine ⟨linked_append.mpr ⟨(hl.update_ge (by omega) _).update_ge (Nat.le_refl _) _,
      rfl, ?_, ?_, ?_⟩, by simp, ?_, hi.start, hi.bound⟩
    · simp [headAddr]
    · simp only [segHdrSize]
      omega
    · rw [hstop]
      exact (hk'.set_prev (by omega) s.addr).update_lt (by omega) _
    · have := hi.last
      simp only [lastAddr_append_cons, lastAddr] at this ⊢
      exact this

/-- What `heap_combine_forward` leaves of a segment and the ones behind it. -/
def mergeForward (s : Seg) : List Seg → List Seg
  | [] => [s]
  | t :: k => if t.free then ⟨s.addr, s.length + segHdrSize + t.length, s.free⟩ :: k
    else s :: t :: k

/-- What `heap_combine_backward` leaves of the segments up to and including `s`. -/
def mergeBackward (l : List Seg) (s : Seg) : List Seg :=
  match l.getLast? with
  | some p => if p.free then l.dropLast ++ [⟨p.addr, p.length + segHdrSize + s.length, true⟩]
    else l ++ [s]
  | none => [s]

theorem heapCombineForward_inv (hi : HeapInv h (l ++ s :: k)) :
    HeapInv (heapCombineForward h s.addr) (l ++ mergeForward s k) := by
  have hm := hi.seg_eq
  cases k with
  | nil =>
    have heq : heapCombineForward h s.addr = h := by simp [heapCombineForward, hm, headAddr]
    rw [heq]
    exact hi
  | cons t k =>
    by_cases ht : t.free = true
    · simp only [mergeForward, ht, if_true]
      exact heapCombineForward_merge hi ht
    · have hmt : h.seg t.addr = _ := HeapInv.seg_eq (l := l ++ [s]) (by simpa using hi)
      have heq : heapCombineForward h s.addr = h := by
        simp [heapCombineForward, hm, hmt, headAddr, ht]
      rw [heq]
      simpa [mergeForward, ht] using hi

theorem heapCombineBackward_inv (hi : HeapInv h (l ++ s :: k)) (hs : s.free = true) :
    HeapInv (heapCombineBackward h s.addr) (mergeBackward l s ++ k) := by
  have hm := hi.seg_eq
  -- the first segment has nothing to be merged with
  rcases List.eq_nil_or_concat l with rfl | ⟨l', p, rfl⟩
  · have heq : heapCombineBackward h s.addr = h := by
      simp [heapCombineBackward, hm, lastAddr]
    rw [heq]
    exact hi
  · have hi' : HeapInv h (l' ++ p :: s :: k) := by simpa using hi
    have hp := hi'.seg_eq
    have hp0 : p.addr ≠ 0 := by
      have := (hi'.bounds (s := p) (by simp)).1
      simp only [HEAP_START] at this
      omega
    have hlast : lastAddr 0 (l' ++ [p]) = p.addr := by simp [lastAddr]
    -- the segment before is free and takes this one in, or it is in use
    by_cases hpf : p.free = true
    · have heq : heapCombineBackward h s.addr = heapCombineForward h p.addr := by
        simp [heapCombineBackward, hm, hlast, hp, hp0, hpf]
      rw [heq]
      simpa [mergeBackward, hpf] using heapCombineForward_merge hi' hs
    · have heq : heapCombineBackward h s.addr = h := by
        simp [heapCombineBackward, hm, hlast, hp, hpf]
      rw [heq]
      simpa [mergeBackward, hpf] using hi'

/-! ## Splitting -/

private theorem update_interleave {f : Nat → HeapSegHdr} {a b : Nat} (hab : a ≠ b)
    {x y x' y' : HeapSegHdr} :
    Function.update (Function.update (Function.update (Function.update f a x) b y) a x') b y' =
      Function.update (Function.update f a x') b y' := by
  rw [Function.update_comm hab.symm, Function.update_idem, Function.update_idem]

/-- What `heap_combine_split` leaves of a segment. -/
def splitSeg (s : Seg) (length : Nat) : List Seg :=
  if length + 32 ≤ s.length then
    [⟨s.addr, length, s.free⟩,
      ⟨s.addr + segHdrSize + length, s.length - length - segHdrSize, s.free⟩]
  else [s]

/-- Lengths are multiples of 16, so the subtraction of `heap_combine_split`
    does not wrap. -/
theorem heapCombineSplit_inv (hi : HeapInv h (l ++ s :: k)) {length : Nat}
    (h16 : length % 16 = 0) (hpos : 0 < length) (hlt : length < s.length) :
    HeapInv (heapCombineSplit h s.addr length).2 (l ++ (splitSeg s length ++ k)) := by
  obtain ⟨hl, hs⟩ := linked_append.mp hi.linked
  obtain ⟨-, hm, hls, hk⟩ := hs
  have hb := hi.bound
  have hsb := hi.bounds (s := s) (by simp)
  have hsub : sub32 (sub32 s.length length) segHdrSize = s.length - length - 16 := by
    rw [sub32_of_le (Nat.le_of_lt hlt) (by omega), sub32_of_le (by simp only [segHdrSize]; omega)
      (by omega)]
    rfl
  by_cases hsplit : length + 32 ≤ s.length
  · have hnew : u32 (s.addr + length + segHdrSize) = s.addr + segHdrSize + length := by
      simp only [segHdrSize]
      rw [u32_of_lt (by omega)]
      omega
    set n := s.addr + segHdrSize + length with hn
    have hns : n ≠ s.addr := by simp only [hn, segHdrSize]; omega
    have hlow : ¬ length < 16 := by omega
    have hlow' : ¬ s.length - length - 16 < 16 := by omega
    have hlast : h.lastHeader = s.addr ↔ k = [] := hi.last_eq_iff
    have hls' : (s.length - length - 16) % 16 = 0 := by omega
    have hsplit' : splitSeg s length =
        [⟨s.addr, length, s.free⟩, ⟨n, s.length - length - 16, s.free⟩] := by
      simp [splitSeg, hsplit, segHdrSize, hn]
    -- the two headers of the split segment, over a memory `mem` that already
    -- has the back pointer of the segment behind it
    have key : ∀ mem : Nat → HeapSegHdr, Linked mem s.addr s.addr 0 h.heapStart l →
        Linked mem 0 h.heapEnd n s.stop k →
        Linked (Function.update (Function.update mem n
            ⟨s.length - length - 16, headAddr 0 k, s.addr, s.free⟩)
          s.addr ⟨length, n, lastAddr 0 l, s.free⟩) 0 h.heapEnd 0 h.heapStart
          (l ++ (splitSeg s length ++ k)) := by
      intro mem hml hmk
      rw [hsplit']
      refine linked_append.mpr ⟨(hml.update_ge ?_ _).update_ge (Nat.le_refl _) _, rfl, ?_, h16,
        rfl, ?_, hls', ?_⟩
      · simp only [hn, segHdrSize]
        omega
      · simp [headAddr]
      · show Function.update _ _ _ n = _
        rw [Function.update_of_ne hns, Function.update_self]
        rfl
      · have hstop : (⟨n, s.length - length - 16, s.free⟩ : Seg).stop = s.stop := by
          simp only [Seg.stop, hn, segHdrSize]
          omega
        rw [hstop]
        refine (Linked.update_lt ?_ ?_ _).update_lt ?_ _
        · exact hmk
        · simp only [Seg.stop, hn, segHdrSize]
          omega
        · simp only [Seg.stop, segHdrSize]
          omega
    cases k with
    | nil =>
      have heq : (heapCombineSplit h s.addr length).2 =
          { h with
            lastHeader := n
            seg := Function.update (Function.update h.seg n
              ⟨s.length - length - 16, 0, s.addr, s.free⟩) s.addr
              ⟨length, n, lastAddr 0 l, s.free⟩ } := by
        simp [heapCombineSplit, Heap.setSeg, hm, hsub, hlow, hlow', hnew, hlast.mpr rfl, headAddr,
          Function.update_of_ne hns, Function.update_of_ne hns.symm, update_interleave hns]
      rw [heq]
      exact ⟨key _ hl hk, by simp [hsplit'], by simp [hsplit', lastAddr], hi.start, hi.bound⟩
    | cons m k =>
      have hmb := hi.bounds (s := m) (by simp)
      have hma : m.addr = s.addr + 16 + s.length := hk.1
      have hm0 : m.addr ≠ 0 := by omega
      have hmn : m.addr ≠ n := by simp only [hn, segHdrSize]; omega
      have hms : m.addr ≠ s.addr := by omega
      have hlast' : h.lastHeader ≠ s.addr := fun e => by simpa using hlast.mp e
      have heq : (heapCombineSplit h s.addr length).2 =
          { h with
            seg := Function.update (Function.update
              (Function.update h.seg m.addr { h.seg m.addr with last := n }) n
              ⟨s.length - length - 16, m.addr, s.addr, s.free⟩) s.addr
              ⟨length, n, lastAddr 0 l, s.free⟩ } := by
        simp [heapCombineSplit, Heap.setSeg, hm, hsub, hlow, hlow', hnew, hlast', headAddr, hm0,
          Function.update_of_ne hns, Function.update_of_ne hns.symm,
          Function.update_of_ne hms.symm, update_interleave hns]
      have hk' : Linked h.seg 0 h.heapEnd s.addr m.addr (m :: k) := by
        rw [hma]
        exact hk
      rw [heq]
      refine ⟨key _ (hl.update_ge (by omega) _) ?_, by simp [hsplit'], ?_, hi.start, hi.bound⟩
      · have hstop : s.stop = m.addr := hma.symm
        rw [hstop]
        exact hk'.set_prev (by omega) n
      · have := hi.last
        simpa [hsplit', lastAddr] using this
  · have heq : (heapCombineSplit h s.addr length).2 = h := by
      simp [heapCombineSplit, hm, hsub, show s.length - length - 16 < 16 by omega]
    rw [heq]
    simpa [splitSeg, hsplit] using hi

end MishaOS
