import MishaOS.Spec.HeapRun

/-!
# How the heap grows

`kmalloc` calls `heap_expand` when no segment fits and then starts over.  The
new segment is one header shorter than its pages, so a size that is a multiple
of the page size needs a second call, unless the last segment was free and the
new one is merged with it.

## Key results

- `kmallocRec_grow`: what `kmalloc` returns when the heap has to grow and
  `heap_end` does not wrap.
- `kmalloc_two_expansions`: when two calls of `heap_expand` are enough.
- `kmalloc_inside`: when the block lies below `HEAP_END`.
-/

namespace MishaOS

variable {h h' : Heap} {l k : List Seg} {s t p x : Seg} {frames : Nat → Nat} {size r n m : Nat}

/-! ## One call of kmalloc -/

/-- The size is rounded once. -/
theorem kmallocRec_round (fuel : Nat) (h : Heap) (size : Nat) :
    kmallocRec frames fuel h size = kmallocRec frames fuel h (roundUp32 size 0x10) := by
  have h16 : roundUp32 size 0x10 % 0x10 = 0 := by
    unfold roundUp32 u32
    split <;> omega
  cases fuel with
  | zero => rfl
  | succ n =>
    -- a size that is rounded is not rounded again
    have hround : roundUp32 (roundUp32 size 0x10) 0x10 = roundUp32 size 0x10 := by
      rw [roundUp32.eq_1 (roundUp32 size 0x10), if_neg (by omega)]
    simp only [kmallocRec_succ, hround]

/-- A size that is a multiple of 16 is not rounded. -/
theorem roundUp32_eq_self (h16 : r % 0x10 = 0) : roundUp32 r 0x10 = r := by
  rw [roundUp32, if_neg (by omega)]

/-- No memory is given for the size 0. -/
theorem kmallocRec_zero (n : Nat) (h : Heap) : kmallocRec frames (n + 1) h 0 = some (0, h) := by
  simp [kmallocRec_succ, roundUp32]

/-- Nothing fits: the heap grows and the call is repeated. -/
theorem kmallocRec_expand (h16 : r % 0x10 = 0) (hr : r ≠ 0)
    (hfind : kmallocFind h r walkFuel h.heapStart = some 0) (n : Nat) :
    kmallocRec frames (n + 1) h r = kmallocRec frames n (heapExpand frames h r) r := by
  simp only [kmallocRec_succ, roundUp32_eq_self h16, if_neg hr, hfind, if_true]

/-- A segment that fits is taken. -/
theorem kmallocRec_take {a : Nat} (h16 : r % 0x10 = 0) (hr : r ≠ 0) (ha : a ≠ 0)
    (hfind : kmallocFind h r walkFuel h.heapStart = some a) (n : Nat) :
    kmallocRec frames (n + 1) h r = some (kmallocTake h r a) := by
  simp only [kmallocRec_succ, roundUp32_eq_self h16, if_neg hr, hfind, if_neg ha]

/-- More fuel does not change a result. -/
theorem kmallocRec_mono {q : Nat × Heap} (hk : kmallocRec frames n h size = some q) (hnm : n ≤ m) :
    kmallocRec frames m h size = some q := by
  -- the fuel that is left over is never looked at
  induction n generalizing h size m with
  | zero => exact nomatch hk
  | succ n ih =>
    cases m with
    | zero => omega
    | succ m =>
      simp only [kmallocRec_succ] at hk ⊢
      split at hk
      · rename_i hz
        rwa [if_pos hz]
      · rename_i hz
        rw [if_neg hz]
        split at hk
        · cases hk
        · split at hk
          · rename_i hseg
            rw [if_pos hseg]
            exact ih hk (by omega)
          · rename_i hseg
            rwa [if_neg hseg]

/-! ## Growth without wrap-around -/

/-- `p` points to a block of at least `size` bytes inside the heap. -/
structure BlockInside (h : Heap) (p size : Nat) : Prop where
  ne_null : p ≠ 0
  size_le : size ≤ h.blockLen p
  start : h.heapStart ≤ p
  stop : p + h.blockLen p ≤ h.heapEnd

/-- The block of a segment is inside the heap. -/
theorem HeapInv.blockInside (hi : HeapInv h l) (hs : s ∈ l) (hsize : size ≤ s.length) :
    BlockInside h s.block size := by
  obtain ⟨hstart, hstop⟩ := hi.bounds hs
  have hlen := hi.blockLen hs
  have hblock : s.block = s.addr + 16 := rfl
  constructor
  · omega
  · omega
  · rw [hi.start]
    omega
  · omega

/-- A free segment fits if it is long enough. -/
theorem fits_free (a n r : Nat) : (⟨a, n, true⟩ : Seg).fits r = decide (r ≤ n) := Bool.true_and _

/-- The search fails when no segment fits. -/
theorem kmallocFind_none (hi : HeapInv h l) (hnone : ∀ x ∈ l, x.fits r = false) :
    kmallocFind h r walkFuel h.heapStart = some 0 := by
  rcases kmallocFind_spec hi r with ⟨hfind, -⟩ | ⟨l₁, s, l₂, rfl, hfit, -⟩
  · exact hfind
  · exact absurd hfit (by simp [hnone s (by simp)])

/-- A segment fits, and the first one that does is taken. -/
theorem kmallocRec_fits (frames : Nat → Nat) (hi : HeapInv h l) (h16 : r % 0x10 = 0) (hr : r ≠ 0)
    (hfits : ∃ x ∈ l, x.fits r = true)
    (n : Nat) : ∃ q, kmallocRec frames (n + 1) h r = some q ∧ BlockInside q.2 q.1 r ∧
    q.2.heapEnd = h.heapEnd := by
  rcases kmallocFind_spec hi r with ⟨-, hnone⟩ | ⟨l₁, s, l₂, rfl, hfit, hfind⟩
  · obtain ⟨x, hx, hxf⟩ := hfits
    exact absurd hxf (by simp [hnone x hx])
  -- no segment starts at the null address
  · have hs0 : s.addr ≠ 0 := by
      have := (hi.bounds (s := s) (by simp)).1
      simp only [HEAP_START] at this
      omega
    obtain ⟨hptr, hinv⟩ := kmallocTake_inv hi h16 (Nat.pos_of_ne_zero hr) hfit
    obtain ⟨t, htb, htakes⟩ := takes_takeSeg hi hfit
    refine ⟨_, kmallocRec_take h16 hr hs0 hfind n, ?_, kmallocTake_heapEnd ..⟩
    rw [hptr, ← htb]
    exact hinv.blockInside htakes.mem htakes.size_le

/-- The bytes `heap_expand` adds until `r` bytes fit: a size that is a multiple of the page size
    needs its pages twice, unless the last segment is free. -/
def heapGrowth (l : List Seg) (r : Nat) : Nat :=
  if r % 0x1000 = 0 ∧ (l.getLast?.all fun p => !p.free) = true then 2 * r else roundUp32 r 0x1000

/-- A size of whole pages is not rounded. -/
theorem roundUp32_eq_self_page (hpage : r % 0x1000 = 0) : roundUp32 r 0x1000 = r := by
  rw [roundUp32, if_neg (by omega)]

/-- One call of `heap_expand` behind a last segment in use. -/
theorem heapExpand_used (frames : Nat → Nat) (hi : HeapInv h (l ++ [p])) (hp : p.free = false)
    (hround : r + 0xFFF < 4294967296)
    (hr : 0 < r) (hend : h.heapEnd + roundUp32 r 0x1000 < 4294967296) :
    HeapInv (heapExpand frames h r) (l ++ [p, ⟨h.heapEnd, roundUp32 r 0x1000 - segHdrSize, true⟩]) ∧
      (heapExpand frames h r).heapEnd = h.heapEnd + roundUp32 r 0x1000 := by
  obtain ⟨hpage, hle, -⟩ := roundUp32_page hround
  obtain ⟨hi', hend', -⟩ := heapExpand_inv frames hi rfl hpage (by omega) hend
  refine ⟨?_, hend'⟩
  simpa [mergeBackward, hp] using hi'

/-- One call of `heap_expand` behind a free last segment. -/
theorem heapExpand_free (frames : Nat → Nat) (hi : HeapInv h (l ++ [p])) (hp : p.free = true)
    (hround : r + 0xFFF < 4294967296)
    (hr : 0 < r) (hend : h.heapEnd + roundUp32 r 0x1000 < 4294967296) :
    HeapInv (heapExpand frames h r)
        (l ++ [⟨p.addr, p.length + segHdrSize + (roundUp32 r 0x1000 - segHdrSize), true⟩]) ∧
      (heapExpand frames h r).heapEnd = h.heapEnd + roundUp32 r 0x1000 := by
  obtain ⟨hpage, hle, -⟩ := roundUp32_page hround
  obtain ⟨hi', hend', -⟩ := heapExpand_inv frames hi rfl hpage (by omega) hend
  refine ⟨?_, hend'⟩
  simpa [mergeBackward, hp] using hi'

/-- Nothing fits, and the heap grows until `r` bytes fit, in two calls at most. -/
theorem kmallocRec_grow (hi : HeapInv h l) (h16 : r % 0x10 = 0) (hr : r ≠ 0)
    (hnone : ∀ x ∈ l, x.fits r = false) (hround : r + 0xFFF < 4294967296)
    (hend : h.heapEnd + heapGrowth l r < 4294967296) (n : Nat) :
    ∃ q, kmallocRec frames (n + 3) h r = some q ∧ BlockInside q.2 q.1 r ∧
      q.2.heapEnd = h.heapEnd + heapGrowth l r := by
  obtain ⟨hpage, hle, -⟩ := roundUp32_page hround
  rw [kmallocRec_expand h16 hr (kmallocFind_none hi hnone)]
  obtain ⟨l, p, rfl⟩ := hi.exists_last
  cases hp : p.free with
  -- the last segment is merged with the new pages
  | true =>
    have hgrow : heapGrowth (l ++ [p]) r = roundUp32 r 0x1000 := by simp [heapGrowth, hp]
    rw [hgrow] at hend ⊢
    obtain ⟨hi', hend'⟩ := heapExpand_free frames hi hp hround (by omega) hend
    have hfit : (⟨p.addr, p.length + segHdrSize + (roundUp32 r 0x1000 - segHdrSize),
        true⟩ : Seg).fits r = true := by
      rw [fits_free, decide_eq_true_eq, segHdrSize]
      omega
    obtain ⟨q, hq, hinside, hqend⟩ := kmallocRec_fits frames hi' h16 hr ⟨_, by simp, hfit⟩ (n + 1)
    exact ⟨q, hq, hinside, hqend.trans hend'⟩
  | false =>
    by_cases hmul : r % 0x1000 = 0
    · -- the pages hold the new header too, so the segment is 16 bytes short
      have hgrow : heapGrowth (l ++ [p]) r = 2 * r := by simp [heapGrowth, hp, hmul]
      have hself := roundUp32_eq_self_page hmul
      rw [hgrow] at hend ⊢
      obtain ⟨hi₁, hend₁⟩ := heapExpand_used frames hi hp hround (by omega) (by omega)
      have hnone₁ : ∀ x ∈ l ++ [p, ⟨h.heapEnd, roundUp32 r 0x1000 - segHdrSize, true⟩],
          x.fits r = false := by
        intro x hx
        have hx' : x ∈ l ++ [p] ∨ x = ⟨h.heapEnd, roundUp32 r 0x1000 - segHdrSize, true⟩ := by
          simpa [or_assoc] using hx
        rcases hx' with hx' | rfl
        · exact hnone x hx'
        · rw [fits_free, decide_eq_false_iff_not, segHdrSize]
          omega
      rw [kmallocRec_expand h16 hr (kmallocFind_none hi₁ hnone₁)]
      have happ : l ++ [p, ⟨h.heapEnd, roundUp32 r 0x1000 - segHdrSize, true⟩] =
          (l ++ [p]) ++ [⟨h.heapEnd, roundUp32 r 0x1000 - segHdrSize, true⟩] := by simp
      rw [happ] at hi₁
      obtain ⟨hi₂, hend₂⟩ := heapExpand_free frames hi₁ rfl hround (by omega) (by omega)
      obtain ⟨q, hq, hinside, hqend⟩ := kmallocRec_fits frames hi₂ h16 hr
        ⟨_, List.mem_append_right _ (List.mem_singleton.mpr rfl), by
          rw [fits_free, decide_eq_true_eq, segHdrSize]
          omega⟩ n
      exact ⟨q, hq, hinside, by omega⟩
    · have hgrow : heapGrowth (l ++ [p]) r = roundUp32 r 0x1000 := by simp [heapGrowth, hmul]
      rw [hgrow] at hend ⊢
      obtain ⟨hi', hend'⟩ := heapExpand_used frames hi hp hround (by omega) hend
      obtain ⟨q, hq, hinside, hqend⟩ := kmallocRec_fits frames hi' h16 hr
        ⟨_, List.mem_append_right _ (List.mem_cons_of_mem _ (List.mem_singleton.mpr rfl)), by
          rw [fits_free, decide_eq_true_eq, segHdrSize]
          omega⟩ (n + 1)
      exact ⟨q, hq, hinside, hqend.trans hend'⟩

/-! ## One expansion, with or without wrap-around -/

/-- Behind a last segment in use, or at address 0, the new segment stays on its own. -/
theorem heapExpand_append (frames : Nat → Nat) (length : Nat) (hb : h.heapEnd < 4294967296)
    (hne : h.heapEnd ≠ h.lastHeader) (hfree : (h.seg h.lastHeader).free = false ∨ h.heapEnd = 0) :
    ∃ pg, heapExpand frames h length =
      { h with
        page := pg
        heapEnd := u32 (h.heapEnd + roundUp32 length 0x1000)
        requests := h.requests + roundUp32 length 0x1000 / 0x1000
        lastHeader := h.heapEnd
        seg := Function.update
          (Function.update h.seg h.lastHeader { h.seg h.lastHeader with next := h.heapEnd })
          h.heapEnd ⟨sub32 (roundUp32 length 0x1000) segHdrSize, 0, h.lastHeader, true⟩ } := by
  obtain ⟨pg, hexp⟩ := heapExpand_eq frames length hb hne
  refine ⟨pg, hexp.trans ?_⟩
  -- the last segment is in use, or the new header is at address 0, which reads as null
  rcases hfree with hused | hzero
  · simp [heapCombineBackward, Function.update_of_ne hne.symm, hused]
  · rw [hzero] at hne ⊢
    simp [heapCombineBackward, heapCombineForward, Function.update_of_ne hne.symm]

/-- Behind a free last segment the new one is merged with it; only the sum of the lengths counts. -/
theorem heapExpand_merge (frames : Nat → Nat) (length : Nat) (hb : h.heapEnd < 4294967296)
    (hne : h.heapEnd ≠ h.lastHeader) (hlast : h.lastHeader ≠ 0) (hend : h.heapEnd ≠ 0)
    (hfree : (h.seg h.lastHeader).free = true) :
    ∃ pg, heapExpand frames h length =
      { h with
        page := pg
        heapEnd := u32 (h.heapEnd + roundUp32 length 0x1000)
        requests := h.requests + roundUp32 length 0x1000 / 0x1000
        seg := Function.update
          (Function.update h.seg h.heapEnd ⟨sub32 (roundUp32 length 0x1000) segHdrSize, 0,
            h.lastHeader, true⟩)
          h.lastHeader
          ⟨u32 ((h.seg h.lastHeader).length +
            (sub32 (roundUp32 length 0x1000) segHdrSize + segHdrSize)), 0,
            (h.seg h.lastHeader).last, true⟩ } := by
  obtain ⟨pg, hexp⟩ := heapExpand_eq frames length hb hne
  refine ⟨pg, hexp.trans ?_⟩
  simp [heapCombineBackward, heapCombineForward, Heap.setSeg, Function.update_of_ne hne.symm,
    Function.update_of_ne hne, hlast, hend, hfree]
  rw [Function.update_comm hne.symm, Function.update_idem]

/-- The list only depends on its headers. -/
theorem Listed.congr {mem mem' : Nat → HeapSegHdr} {nxt : Nat} (hl : Listed mem nxt l)
    (hmem : ∀ x ∈ l, mem' x.addr = mem x.addr) : Listed mem' nxt l := by
  induction l with
  | nil => trivial
  | cons x xs ih =>
    obtain ⟨h0, hlen, hfree, hnext, hrest⟩ := hl
    have hx := hmem x List.mem_cons_self
    exact ⟨h0, hx ▸ hlen, hx ▸ hfree, hx ▸ hnext,
      ih hrest fun y hy => hmem y (List.mem_cons_of_mem _ hy)⟩

/-- A list in two parts. -/
theorem listed_append {mem : Nat → HeapSegHdr} {nxt : Nat} : Listed mem nxt (l ++ s :: k) ↔
    Listed mem s.addr l ∧ Listed mem nxt (s :: k) := by
  induction l with
  | nil => simp [Listed]
  | cons x xs ih =>
    simp only [List.cons_append, Listed, headAddr_append_cons, ih, and_assoc]

/-- The search finds nothing in a list in which nothing fits. -/
theorem Listed.find_none (hl : Listed h.seg 0 l) (hstart : h.heapStart = headAddr 0 l)
    (hlen : l.length < walkFuel) (hnone : ∀ x ∈ l, x.fits r = false) :
    kmallocFind h r walkFuel h.heapStart = some 0 := by
  have hdrop : l.dropWhile (!·.fits r) = [] := List.dropWhile_eq_nil_iff.mpr fun x hx => by
    simp [hnone x hx]
  rw [hstart, hl.find r walkFuel hlen, hdrop]
  rfl

/-- Nothing fits but the last segment. -/
theorem Listed.find_last (hl : Listed h.seg 0 (l ++ [s]))
    (hstart : h.heapStart = headAddr 0 (l ++ [s]))
    (hlen : (l ++ [s]).length < walkFuel) (hnone : ∀ x ∈ l, x.fits r = false)
    (hfit : s.fits r = true) :
    kmallocFind h r walkFuel h.heapStart = some s.addr := by
  -- the search drops the segments in front
  have hdrop : (l ++ [s]).dropWhile (!·.fits r) = [s] := by
    rw [List.dropWhile_append_of_pos fun x
      hx => by simp [hnone x hx], List.dropWhile_cons_of_neg (by simp [hfit])]
  rw [hstart, hl.find r walkFuel hlen, hdrop]
  rfl

/-! ## The list behind expansions that may wrap -/

/-- The segments `l` and the last segment `s` as the search and `heap_expand` see them. -/
structure Listing (h : Heap) (l : List Seg) (s : Seg) : Prop where
  listed : Listed h.seg 0 (l ++ [s])
  nodup : ((l ++ [s]).map Seg.addr).Nodup
  start : h.heapStart = headAddr 0 (l ++ [s])
  last : h.lastHeader = s.addr
  bound : h.heapEnd < 4294967296
  short : (l ++ [s]).length < walkFuel

/-- No two headers are at one place. -/
theorem Linked.nodup {mem : Nat → HeapSegHdr} {nxt stop prev a : Nat}
    (hl : Linked mem nxt stop prev a l) :
    (l.map Seg.addr).Nodup := by
  induction l generalizing prev a with
  | nil => exact List.nodup_nil
  | cons x xs ih =>
    obtain ⟨rfl, -, -, hrest⟩ := hl
    -- every address behind the first one is larger
    refine List.nodup_cons.mpr ⟨fun hmem => ?_, ih hrest⟩
    obtain ⟨y, hy, hyx⟩ := List.mem_map.mp hmem
    have := (hrest.bounds hy).1
    simp only [Seg.stop, segHdrSize] at this
    omega

/-- The segments of the heap, with the last one apart. -/
theorem HeapInv.listing (hi : HeapInv h (l ++ [p])) : Listing h l p where
  listed := hi.listed
  nodup := hi.linked.nodup
  start := hi.start_eq
  last := by simp [hi.last, lastAddr]
  bound := hi.bound
  short := by
    have := hi.length_lt
    omega

/-- The search fails when no segment fits, the last one included. -/
theorem Listing.find_none (hl : Listing h l s) (hnone : ∀ x ∈ l, x.fits r = false)
    (hs : s.fits r = false) :
    kmallocFind h r walkFuel h.heapStart = some 0 := by
  apply hl.listed.find_none hl.start hl.short
  intro x hx
  rcases List.mem_append.mp hx with hx | hx
  · exact hnone x hx
  · obtain rfl := List.mem_singleton.mp hx
    exact hs

/-- The last header is none of the others. -/
theorem Listing.addr_ne (hl : Listing h l s) (hx : x ∈ l) : x.addr ≠ s.addr := by
  have hnodup := hl.nodup
  rw [List.map_append, List.nodup_append] at hnodup
  exact hnodup.2.2 _ (List.mem_map_of_mem hx) _ (by simp)

/-- A header written where no segment is, behind a last segment in use. -/
theorem Listing.append (frames : Nat → Nat) (hl : Listing h l s) (hs : s.free = false)
    (hshort : (l ++ [s]).length + 1 < walkFuel)
    (hend : h.heapEnd ≠ 0) (hnew : h.heapEnd ∉ (l ++ [s]).map Seg.addr) (length : Nat) :
    Listing (heapExpand frames h length) (l ++ [s])
        ⟨h.heapEnd, sub32 (roundUp32 length 0x1000) segHdrSize, true⟩ ∧
      (heapExpand frames h length).heapEnd = u32 (h.heapEnd + roundUp32 length 0x1000) := by
  have hne : h.heapEnd ≠ s.addr := fun e => hnew (by simp [e])
  obtain ⟨hlist, hsaddr, hslen, hsfree, hsnext, -⟩ := listed_append.mp hl.listed
  have hfree : (h.seg h.lastHeader).free = false := by rw [hl.last, hsfree, hs]
  obtain ⟨pg, heq⟩ := heapExpand_append frames length hl.bound (hl.last ▸ hne) (.inl hfree)
  rw [heq, hl.last]
  refine ⟨⟨?_, ?_, ?_, rfl, u32_lt _, by simpa using hshort⟩, rfl⟩
  · rw [List.append_assoc, List.singleton_append]
    refine listed_append.mpr ⟨hlist.congr fun y hy => ?_, hsaddr, ?_, ?_, ?_, hend, ?_,
      ?_, ?_, trivial⟩
    -- the headers of the list are not written, except the `next` of the last one
    · have hy₁ : y.addr ≠ h.heapEnd := fun e =>
        hnew (e ▸ List.mem_map_of_mem (List.mem_append_left _ hy))
      dsimp only
      rw [Function.update_of_ne hy₁, Function.update_of_ne (hl.addr_ne hy)]
    all_goals simp [Function.update_of_ne hne.symm, hslen, hsfree, headAddr]
  · rw [List.map_append, List.nodup_append]
    refine ⟨hl.nodup, List.nodup_singleton _, fun a ha b hb => ?_⟩
    obtain rfl : b = h.heapEnd := by simpa using hb
    exact fun e => hnew (e ▸ ha)
  · rw [List.append_assoc, List.singleton_append, headAddr_append_cons]
    simpa using hl.start

/-- A header written where no segment is, behind a free last segment: the two are merged, and the
    sum of the lengths may wrap. -/
theorem Listing.merge (frames : Nat → Nat) (hl : Listing h l s) (hs : s.free = true)
    (hend : h.heapEnd ≠ 0)
    (hnew : h.heapEnd ∉ (l ++ [s]).map Seg.addr) (length : Nat) :
    Listing (heapExpand frames h length) l ⟨s.addr,
      u32 (s.length + roundUp32 length 0x1000), true⟩ ∧
      (heapExpand frames h length).heapEnd = u32 (h.heapEnd + roundUp32 length 0x1000) := by
  have hne : h.heapEnd ≠ s.addr := fun e => hnew (by simp [e])
  obtain ⟨hlist, hsaddr, hslen, hsfree, hsnext, -⟩ := listed_append.mp hl.listed
  have hfree : (h.seg h.lastHeader).free = true := by rw [hl.last, hsfree, hs]
  obtain ⟨pg, heq⟩ :=
    heapExpand_merge frames length hl.bound (hl.last ▸ hne) (hl.last ▸ hsaddr) hend hfree
  -- the header that is merged away counts as part of the segment
  have hsum : u32 (s.length + (sub32 (roundUp32 length 0x1000) segHdrSize + segHdrSize)) =
      u32 (s.length + roundUp32 length 0x1000) := by
    unfold u32 sub32 segHdrSize
    omega
  rw [heq, hl.last, hslen, hsum]
  refine ⟨⟨?_, ?_, ?_, rfl, u32_lt _, by simpa using hl.short⟩, rfl⟩
  · refine listed_append.mpr ⟨hlist.congr fun y hy => ?_, hsaddr, ?_, ?_, ?_, trivial⟩
    · have hy₁ : y.addr ≠ h.heapEnd := fun e =>
        hnew (e ▸ List.mem_map_of_mem (List.mem_append_left _ hy))
      dsimp only
      rw [Function.update_of_ne (hl.addr_ne hy), Function.update_of_ne hy₁]
    all_goals simp [headAddr]
  · simpa using hl.nodup
  · rw [headAddr_append_cons]
    simpa using hl.start

/-- A header written at address 0 is the end of the list. -/
theorem Listing.null (frames : Nat → Nat) (hl : Listing h l s) (hend : h.heapEnd = 0)
    (length : Nat) :
    Listed (heapExpand frames h length).seg 0 (l ++ [s]) ∧
      (heapExpand frames h length).heapStart = h.heapStart := by
  obtain ⟨hlist, hsaddr, hslen, hsfree, hsnext, -⟩ := listed_append.mp hl.listed
  have hne : h.heapEnd ≠ h.lastHeader := by
    rw [hend, hl.last]
    exact hsaddr.symm
  obtain ⟨pg, heq⟩ := heapExpand_append frames length hl.bound hne (.inr hend)
  -- the walk ends at address 0, so no segment of the list is there
  have hpos : ∀ {nxt : Nat} {k : List Seg}, Listed h.seg nxt k → ∀ y ∈ k, y.addr ≠ 0 := by
    intro nxt k hk
    induction k with
    | nil => simp
    | cons z zs ih =>
      intro y hy
      rcases List.mem_cons.mp hy with rfl | hy
      · exact hk.1
      · exact ih hk.2.2.2.2 y hy
  rw [heq, hl.last, hend]
  refine ⟨listed_append.mpr ⟨hlist.congr fun y hy => ?_, hsaddr, ?_, ?_, ?_, trivial⟩, rfl⟩
  · dsimp only
    rw [Function.update_of_ne (hpos hlist y hy), Function.update_of_ne (hl.addr_ne hy)]
  all_goals simp [Function.update_of_ne hsaddr, hslen, hsfree, headAddr]

/-- A header written over the one of a segment `x`: the list ends there. -/
theorem Listing.overwrite (frames : Nat → Nat) (hl : Listing h (l ++ x :: k) s) (hs : s.free = true)
    (hend : h.heapEnd = x.addr)
    (length : Nat) :
    Listed (heapExpand frames h length).seg 0
        (l ++ [⟨x.addr, sub32 (roundUp32 length 0x1000) segHdrSize, true⟩]) ∧
      (heapExpand frames h length).heapStart = h.heapStart := by
  have hne : x.addr ≠ s.addr := hl.addr_ne (by simp)
  obtain ⟨hlist, hsaddr, hslen, hsfree, hsnext, -⟩ := listed_append.mp hl.listed
  obtain ⟨hlist', hxaddr, -⟩ := listed_append.mp hlist
  have hfree : (h.seg h.lastHeader).free = true := by rw [hl.last, hsfree, hs]
  obtain ⟨pg, heq⟩ := heapExpand_merge frames length hl.bound (by rw [hend, hl.last]; exact hne)
    (hl.last ▸ hsaddr) (hend ▸ hxaddr) hfree
  rw [heq, hl.last, hend]
  refine ⟨listed_append.mpr ⟨hlist'.congr fun y hy => ?_, hxaddr, ?_, ?_, ?_, trivial⟩, rfl⟩
  -- the segments before `x` are not touched
  · have hnodup := hl.nodup
    rw [List.append_assoc, List.map_append, List.nodup_append] at hnodup
    have hyx : y.addr ≠ x.addr := hnodup.2.2 _ (List.mem_map_of_mem hy) _ (by simp)
    dsimp only
    rw [Function.update_of_ne (hl.addr_ne (List.mem_append_left _ hy)), Function.update_of_ne hyx]
  all_goals simp [Function.update_of_ne hne, headAddr]

/-! ## Two expansions -/

/-- The block begins behind the header. -/
theorem kmallocTake_fst (h : Heap) (size a : Nat) : (kmallocTake h size a).1 = u32 (a + 16) := by
  unfold kmallocTake
  split <;> rfl

/-- The last segment fits, and its block is handed out. -/
theorem Listing.take (hl : Listing h l s) (h16 : r % 0x10 = 0) (hr : r ≠ 0)
    (hnone : ∀ x ∈ l, x.fits r = false) (hfit : s.fits r = true) (n : Nat) :
    ∃ q, kmallocRec frames (n + 1) h r = some q ∧ q.1 = u32 (s.addr + 16) := by
  have hs0 : s.addr ≠ 0 := (listed_append.mp hl.listed).2.1
  have hfind := hl.listed.find_last hl.start hl.short hnone hfit
  exact ⟨_, kmallocRec_take h16 hr hs0 hfind n, kmallocTake_fst ..⟩

/-- Nothing fits, and the last call of three asks for another expansion. -/
theorem kmallocRec_one (h16 : r % 0x10 = 0) (hr : r ≠ 0)
    (hfind : kmallocFind h r walkFuel h.heapStart = some 0) : kmallocRec frames 1 h r = none :=
  kmallocRec_expand h16 hr hfind 0

/-- The segments before the last one lie below it. -/
theorem HeapInv.addr_lt_last (hi : HeapInv h (l ++ [p])) (hx : x ∈ l) :
    HEAP_START ≤ x.addr ∧ x.addr < p.addr := by
  obtain ⟨hl, -⟩ := linked_append.mp hi.linked
  have hstart := (hi.bounds (s := x) (by simp [hx])).1
  have hstop := (hl.bounds hx).2
  simp only [Seg.stop, segHdrSize] at hstop
  omega

/-- The heap ends with its last segment. -/
theorem HeapInv.heapEnd_eq (hi : HeapInv h (l ++ [p])) : h.heapEnd = p.addr + 16 + p.length :=
  (((linked_append.mp hi.linked).2).2.2.2 : p.stop = h.heapEnd).symm

/-- Behind a free last segment two expansions are enough unless the sum of the lengths wraps in
    both. -/
theorem kmallocRec_last_free (hi : HeapInv h (l ++ [p])) (hp : p.free = true)
    (h16 : r % 0x10 = 0) (hr : r ≠ 0)
    (hnone : ∀ x ∈ l ++ [p], x.fits r = false) (hround : r + 0xFFF < 4294967296) :
    (∃ q, kmallocRec frames 3 h r = some q ∧ q.1 ≠ 0) ↔
    p.length + 2 * roundUp32 r 0x1000 < 0x200000000 := by
  obtain ⟨hpage, hle, hlt⟩ := roundUp32_page hround
  have hpb := hi.bounds (s := p) (by simp)
  have hend := hi.heapEnd_eq
  have hb := hi.bound
  simp only [HEAP_START] at hpb
  have hnone' : ∀ x ∈ l, x.fits r = false := fun x hx => hnone x (List.mem_append_left _ hx)
  have hpr : p.length < r := by
    have := hnone p (by simp)
    simpa [Seg.fits, hp] using this
  -- every header of the list is at or below the last one
  have hnew : ∀ a, p.addr < a → a ∉ (l ++ [p]).map Seg.addr := by
    intro a ha hmem
    obtain ⟨x, hx, rfl⟩ := List.mem_map.mp hmem
    rcases List.mem_append.mp hx with hx | hx
    · have := hi.addr_lt_last hx
      omega
    · obtain rfl := List.mem_singleton.mp hx
      omega
  rw [kmallocRec_expand h16 hr (kmallocFind_none hi hnone)]
  obtain ⟨hl₁, hend₁⟩ := hi.listing.merge frames hp (by omega) (hnew _ (by omega)) r
  have hptr : u32 (p.addr + 16) ≠ 0 := by
    rw [u32_of_lt (by omega)]
    omega
  by_cases hsum : p.length + roundUp32 r 0x1000 < 4294967296
  -- one expansion is enough
  · rw [u32_of_lt hsum] at hl₁
    obtain ⟨q, hq, hqp⟩ := hl₁.take h16 hr hnone'
      (by rw [fits_free, decide_eq_true_eq]; omega) 1
    constructor
    · intro _
      omega
    · exact fun _ => ⟨q, hq, hqp ▸ hptr⟩
  · -- the merged length has wrapped: it is shorter than before
    have hwrap : u32 (p.length + roundUp32 r 0x1000) =
        p.length + roundUp32 r 0x1000 - 4294967296 := by
      unfold u32
      omega
    have hend₁' : u32 (h.heapEnd + roundUp32 r 0x1000) =
        p.addr + 16 + (p.length + roundUp32 r 0x1000 - 4294967296) := by
      unfold u32
      omega
    rw [hwrap] at hl₁
    rw [hend₁'] at hend₁
    have hfind₁ := hl₁.find_none hnone' (by rw [fits_free, decide_eq_false_iff_not]; omega)
    rw [kmallocRec_expand h16 hr hfind₁]
    obtain ⟨hl₂, -⟩ := hl₁.merge frames rfl (by omega) (by
      rw [hend₁]
      simpa using hnew _ (by omega)) r
    dsimp only at hl₂
    by_cases hsum₂ : p.length + 2 * roundUp32 r 0x1000 < 0x200000000
    · rw [u32_of_lt (by omega)] at hl₂
      obtain ⟨q, hq, hqp⟩ := hl₂.take h16 hr hnone'
        (by rw [fits_free, decide_eq_true_eq]; omega) 0
      exact ⟨fun _ => hsum₂, fun _ => ⟨q, hq, hqp ▸ hptr⟩⟩
    · have hwrap₂ : u32 (p.length + roundUp32 r 0x1000 - 4294967296 + roundUp32 r 0x1000) < r := by
        unfold u32
        omega
      have hfind₂ := hl₂.find_none hnone' (by rw [fits_free, decide_eq_false_iff_not]; omega)
      rw [kmallocRec_one h16 hr hfind₂]
      simp [hsum₂]

/-- Behind a last segment in use the first new segment is 16 bytes short when `r` is a multiple of
    the page size; the second one is merged with it unless its header is put at address 0. -/
theorem kmallocRec_last_used (hi : HeapInv h (l ++ [p])) (hp : p.free = false)
    (h16 : r % 0x10 = 0) (hr : r ≠ 0)
    (hnone : ∀ x ∈ l ++ [p], x.fits r = false) (hround : r + 0xFFF < 4294967296) :
    (∃ q, kmallocRec frames 3 h r = some q ∧ q.1 ≠ 0) ↔
      h.heapEnd + 16 < 0x100000000 ∧
      (r % 0x1000 = 0 → r ≤ 0x80000000 ∧ h.heapEnd + r ≠ 0x100000000) := by
  obtain ⟨hpage, hle, hlt⟩ := roundUp32_page hround
  have hpb := hi.bounds (s := p) (by simp)
  have hend := hi.heapEnd_eq
  have hb := hi.bound
  have h16' : h.heapEnd % 16 = 0 := by
    have := hi.aligned (s := p) (by simp)
    omega
  simp only [HEAP_START] at hpb
  -- the segments are the whole of the heap between its start and its end
  have hbelow : ∀ x ∈ l ++ [p], 0x80000000 ≤ x.addr ∧ x.addr < h.heapEnd := by
    intro x hx
    have := hi.bounds hx
    simp only [HEAP_START] at this
    omega
  have hnew : ∀ a, a < 0x80000000 ∨ h.heapEnd ≤ a → a ∉ (l ++ [p]).map Seg.addr := by
    intro a ha hmem
    obtain ⟨x, hx, rfl⟩ := List.mem_map.mp hmem
    have := hbelow x hx
    omega
  rw [kmallocRec_expand h16 hr (kmallocFind_none hi hnone)]
  have hshort := hi.length_lt
  obtain ⟨hl₁, hend₁⟩ := hi.listing.append frames hp (by omega) (by omega) (hnew _ (by omega)) r
  have hlen₁ : sub32 (roundUp32 r 0x1000) segHdrSize = roundUp32 r 0x1000 - 16 :=
    sub32_of_le (by simp only [segHdrSize]; omega) (by omega)
  rw [hlen₁] at hl₁
  have hptr : u32 (h.heapEnd + 16) ≠ 0 ↔ h.heapEnd + 16 < 0x100000000 := by
    unfold u32
    omega
  by_cases hmul : r % 0x1000 = 0
  -- the new segment is 16 bytes short, so the heap grows once more
  · have hself := roundUp32_eq_self_page hmul
    rw [hself] at hl₁ hend₁ hle hlt
    have hfind₁ := hl₁.find_none hnone (by rw [fits_free, decide_eq_false_iff_not]; omega)
    rw [kmallocRec_expand h16 hr hfind₁]
    by_cases hzero : h.heapEnd + r = 0x100000000
    · -- the second header is put at address 0, where the list ends
      have hnull : u32 (h.heapEnd + r) = 0 := by
        unfold u32
        omega
      rw [hnull] at hend₁
      obtain ⟨hl₂, hstart₂⟩ := hl₁.null frames hend₁ r
      have hfind₂ : kmallocFind (heapExpand frames (heapExpand frames h r) r) r walkFuel
          (heapExpand frames (heapExpand frames h r) r).heapStart = some 0 := by
        refine hl₂.find_none (hstart₂.trans hl₁.start) hl₁.short fun x hx => ?_
        rcases List.mem_append.mp hx with hx | hx
        · exact hnone x hx
        · obtain rfl := List.mem_singleton.mp hx
          rw [fits_free, decide_eq_false_iff_not]
          omega
      rw [kmallocRec_one h16 hr hfind₂]
      simp [hmul, hzero]
    have hend₁0 : u32 (h.heapEnd + r) ≠ 0 := by
      unfold u32
      omega
    by_cases hover : u32 (h.heapEnd + r) ∈ (l ++ [p]).map Seg.addr
    · -- the second header is put over one of the list; only a size above 2 GiB gets there
      obtain ⟨x, hx, hxa⟩ := List.mem_map.mp hover
      have hlarge : 0x80000000 < r := by
        have := hbelow x hx
        unfold u32 at hxa
        omega
      obtain ⟨l₁, l₂, hsplit⟩ := List.append_of_mem hx
      have hl₁' := hl₁
      rw [hsplit] at hl₁'
      obtain ⟨hl₂, hstart₂⟩ := hl₁'.overwrite frames rfl (hend₁.trans hxa.symm) r
      have hstart := hl₁'.start
      rw [List.append_assoc, List.cons_append, headAddr_append_cons] at hstart
      have hshort₂ := hl₁'.short
      have hfind₂ : kmallocFind (heapExpand frames (heapExpand frames h r) r) r walkFuel
          (heapExpand frames (heapExpand frames h r) r).heapStart = some 0 := by
        refine hl₂.find_none ?_ ?_ fun y hy => ?_
        · rw [hstart₂, hstart, headAddr_append_cons]
        · simp only [List.length_append, List.length_cons, List.length_nil] at hshort₂ ⊢
          omega
        · rcases List.mem_append.mp hy with hy | hy
          · exact hnone y (hsplit ▸ List.mem_append_left _ hy)
          · obtain rfl := List.mem_singleton.mp hy
            rw [fits_free, decide_eq_false_iff_not, hself,
              sub32_of_le (by simp only [segHdrSize]; omega) (by omega),
              segHdrSize]
            omega
      rw [kmallocRec_one h16 hr hfind₂]
      simp only [reduceCtorEq, false_and, exists_false, false_iff, not_and]
      intro _ hsmall
      have := (hsmall hmul).1
      omega
    · have hnew₁ : u32 (h.heapEnd + r) ∉
          ((l ++ [p]) ++ [(⟨h.heapEnd, r - 16, true⟩ : Seg)]).map Seg.addr := by
        rw [List.map_append, List.mem_append]
        rintro (hmem | hmem)
        · exact hover hmem
        · have heq : u32 (h.heapEnd + r) = h.heapEnd := by simpa using hmem
          unfold u32 at heq
          omega
      obtain ⟨hl₂, -⟩ := hl₁.merge frames rfl (hend₁ ▸ hend₁0) (hend₁ ▸ hnew₁) r
      rw [hself] at hl₂
      dsimp only at hl₂
      -- the second segment is merged with the first, and together they hold `2 * r - 16` bytes
      by_cases hsmall : r ≤ 0x80000000
      · rw [u32_of_lt (by omega)] at hl₂
        obtain ⟨q, hq, hqp⟩ := hl₂.take h16 hr hnone (by rw [fits_free, decide_eq_true_eq]; omega) 0
        rw [← hptr]
        constructor
        · rintro ⟨q', hq', hne⟩
          obtain rfl := Option.some.inj (hq.symm.trans hq')
          exact ⟨hqp ▸ hne, fun _ => ⟨hsmall, hzero⟩⟩
        · exact fun hcond => ⟨q, hq, hqp ▸ hcond.1⟩
      · have hwrap : u32 (r - 16 + r) < r := by
          unfold u32
          omega
        have hfind₂ := hl₂.find_none hnone (by rw [fits_free, decide_eq_false_iff_not]; omega)
        rw [kmallocRec_one h16 hr hfind₂]
        simp only [reduceCtorEq, false_and, exists_false, false_iff, not_and]
        exact fun _ hcond => absurd (hcond hmul).1 hsmall
  · -- the pages leave room for the header
    obtain ⟨q, hq, hqp⟩ := hl₁.take h16 hr hnone (by rw [fits_free, decide_eq_true_eq]; omega) 1
    rw [← hptr]
    constructor
    · rintro ⟨q', hq', hne⟩
      obtain rfl := Option.some.inj (hq.symm.trans hq')
      exact ⟨hqp ▸ hne, fun hz => absurd hz hmul⟩
    · exact fun hcond => ⟨q, hq, hqp ▸ hcond.1⟩

/-- `r` bytes fit, or they do after two expansions: the heap and the lengths do not wrap too far. -/
def TwoExpansionsEnough (h : Heap) (l : List Seg) (r : Nat) : Prop :=
  r = 0 ∨ (∃ x ∈ l, x.fits r = true) ∨
    ∀ p ∈ l.getLast?,
      if p.free then p.length + 2 * roundUp32 r 0x1000 < 0x200000000
      else h.heapEnd + 16 < 0x100000000 ∧
        (r % 0x1000 = 0 → r ≤ 0x80000000 ∧ h.heapEnd + r ≠ 0x100000000)

/-- The rounded size is a multiple of 16. -/
theorem roundUp32_mod_16 (size : Nat) : roundUp32 size 0x10 % 0x10 = 0 := by
  unfold roundUp32 u32
  split <;> omega

/-- `kmalloc` returns after at most two calls of `heap_expand`, and null for the size 0 only,
    exactly when two expansions are enough. -/
theorem kmalloc_two_expansions (frames : Nat → Nat) (hi : HeapInv h l)
    (hsize : size + 0xFFF < 4294967296) :
    (∃ q, kmallocRec frames 3 h size = some q ∧ kmalloc frames h size = some q ∧
      (q.1 = 0 → size = 0)) ↔
      TwoExpansionsEnough h l (roundUp32 size 0x10) := by
  obtain ⟨h16, hle, hround⟩ := roundUp32_16 hsize
  have hzero : roundUp32 size 0x10 = 0 ↔ size = 0 := by
    constructor
    · intro hz
      omega
    · rintro rfl
      rfl
  have hmono : ∀ {q}, kmallocRec frames 3 h size = some q → kmalloc frames h size = some q :=
    fun hq =>
    kmallocRec_mono hq (by decide)
  by_cases hr : roundUp32 size 0x10 = 0
  -- size 0 is answered with null before the heap is looked at
  · have hk : kmallocRec frames 3 h size = some (0, h) := by
      rw [kmallocRec_round, hr]
      exact kmallocRec_zero 2 h
    exact ⟨fun _ => .inl hr, fun _ => ⟨_, hk, hmono hk, fun _ => hzero.mp hr⟩⟩
  have hresult : (∃ q, kmallocRec frames 3 h size = some q ∧ kmalloc frames h size = some q ∧
    (q.1 = 0 → size = 0)) ↔
      ∃ q, kmallocRec frames 3 h (roundUp32 size 0x10) = some q ∧ q.1 ≠ 0 := by
    rw [← kmallocRec_round]
    constructor
    · rintro ⟨q, hq, -, hnull⟩
      exact ⟨q, hq, fun hq0 => hr (hzero.mpr (hnull hq0))⟩
    · rintro ⟨q, hq, hne⟩
      exact ⟨q, hq, hmono hq, fun hq0 => absurd hq0 hne⟩
  rw [hresult]
  unfold TwoExpansionsEnough
  generalize roundUp32 size 0x10 = r at *
  by_cases hfits : ∃ x ∈ l, x.fits r = true
  · obtain ⟨q, hq, hinside, -⟩ := kmallocRec_fits frames hi h16 hr hfits 2
    exact ⟨fun _ => .inr (.inl hfits), fun _ => ⟨q, hq, hinside.ne_null⟩⟩
  have hnone : ∀ x ∈ l, x.fits r = false := by
    intro x hx
    by_contra hne
    exact hfits ⟨x, hx, by simpa using hne⟩
  -- nothing fits, so the last segment decides
  obtain ⟨l', p, rfl⟩ := hi.exists_last
  simp only [hr, hfits, false_or, List.getLast?_append, List.getLast?_singleton, Option.some_or,
    Option.mem_some_iff,
    forall_eq']
  cases hp : p.free with
  | true =>
    rw [if_pos rfl]
    exact kmallocRec_last_free hi hp h16 hr hnone hround
  | false =>
    rw [if_neg (by decide)]
    exact kmallocRec_last_used hi hp h16 hr hnone hround

/-- A page is asked for behind a heap of one free page. -/
theorem kmalloc_two_expansions_page :
    ∃ q, kmallocRec (fun k => (k + 1) * 0x1000) 3
      (heapInit (fun k => (k + 1) * 0x1000) Heap.blank 1) 0x1000 = some q ∧
      kmalloc (fun k => (k + 1) * 0x1000) (heapInit (fun k => (k + 1) * 0x1000) Heap.blank 1)
        0x1000 = some q ∧
      (q.1 = 0 → 0x1000 = 0) := by
  refine (kmalloc_two_expansions _ (heapInit_inv _ _ 1 (by decide) (by decide)) (by decide)).mpr
    (.inr (.inr ?_))
  rintro p hp
  obtain rfl : _ = p := by simpa using hp
  decide +kernel

/-- One used segment up to `heap_end`. -/
def fullHeap (heapEnd : Nat) : Heap :=
  ⟨HEAP_START, heapEnd, HEAP_START, fun _ => ⟨heapEnd - HEAP_START - 16, 0, 0, false⟩,
    fun _ => Page.zero, 0⟩

/-- A heap of one segment in use. -/
theorem fullHeap_inv {heapEnd : Nat} (hstart : HEAP_START + 16 ≤ heapEnd)
    (hlt : heapEnd < 4294967296)
    (h16 : heapEnd % 16 = 0) : HeapInv (fullHeap heapEnd)
      [⟨HEAP_START, heapEnd - HEAP_START - 16, false⟩] := by
  have hmod : HEAP_START % 16 = 0 := rfl
  refine ⟨⟨rfl, rfl, ?_, ?_⟩, by simp, rfl, rfl, hlt⟩
  · dsimp only
    omega
  · simp only [Linked, Seg.stop, segHdrSize, fullHeap]
    omega

/-- A gigabyte is asked for below the last gigabyte of the address space: `heap_end` wraps to 0,
    and the header at 0 is never found. -/
theorem kmalloc_two_expansions_wrap :
    ¬ ∀ (frames : Nat → Nat) (h : Heap) (l : List Seg) (size : Nat),
      HeapInv h l → size + 0xFFF < 4294967296 →
      ∃ q, kmallocRec frames 3 h size = some q ∧ kmalloc frames h size = some q ∧
        (q.1 = 0 → size = 0) := by
  intro hall
  have hi := fullHeap_inv (show HEAP_START + 16 ≤ 0xC0000000 by decide) (by decide) (by decide)
  obtain ⟨q, hq, -, hnull⟩ := hall (fun k => (k + 1) * 0x1000) _ _ 0x40000000 hi (by decide)
  have hcond := (kmallocRec_last_used (l := []) hi rfl (by decide) (by decide) (fun x hx => by
    obtain rfl := List.mem_singleton.mp hx
    rfl) (by decide)).mp ⟨q, hq, fun hq0 => absurd (hnull hq0) (by decide)⟩
  exact (hcond.2 (by decide)).2 rfl

/-! ## Inside the heap -/

/-- Merging does not move the start of the heap. -/
@[simp] theorem heapCombineForward_heapStart (h : Heap) (a : Nat) :
    (heapCombineForward h a).heapStart = h.heapStart := by
  simp only [heapCombineForward, Heap.setSeg]
  split_ifs <;> rfl

/-- Nor does merging with the segment before. -/
@[simp] theorem heapCombineBackward_heapStart (h : Heap) (a : Nat) :
    (heapCombineBackward h a).heapStart = h.heapStart := by
  unfold heapCombineBackward
  split_ifs <;> simp

/-- Nor does splitting. -/
@[simp] theorem heapCombineSplit_heapStart (h : Heap) (a n : Nat) :
    (heapCombineSplit h a n).2.heapStart = h.heapStart := by
  simp only [heapCombineSplit, Heap.setSeg]
  split_ifs <;> rfl

/-- Nor does taking a segment. -/
@[simp] theorem kmallocTake_heapStart (h : Heap) (size a : Nat) :
    (kmallocTake h size a).2.heapStart = h.heapStart := by
  simp only [kmallocTake, Heap.setSeg]
  split_ifs <;> simp

/-- Nor does requesting pages. -/
@[simp] theorem heapExpandPages_heapStart (n : Nat) : ∀ h : Heap,
    (heapExpandPages frames h n).heapStart = h.heapStart := by
  induction n with
  | zero => exact fun h => rfl
  | succ n ih =>
    intro h
    rw [heapExpandPages, ih]
    rfl

/-- Nor does an expansion. -/
@[simp] theorem heapExpand_heapStart (h : Heap) (length : Nat) :
    (heapExpand frames h length).heapStart = h.heapStart := by
  simp [heapExpand, Heap.setSeg]

/-- So `kmalloc` does not move it. -/
theorem kmallocRec_heapStart {fuel : Nat} {q : Nat × Heap}
    (hk : kmallocRec frames fuel h size = some q) :
    q.2.heapStart = h.heapStart := by
  induction fuel generalizing h size with
  | zero => exact nomatch hk
  | succ n ih =>
    simp only [kmallocRec_succ] at hk
    split at hk
    · obtain rfl := by simpa using hk
      rfl
    · split at hk
      · cases hk
      · split at hk
        · exact (ih hk).trans (heapExpand_heapStart ..)
        · obtain rfl := Option.some.inj hk
          exact kmallocTake_heapStart ..

/-- `kmalloc` returns null and leaves the heap alone, or a block inside the heap, which ends at
    `HEAP_END` at the latest. -/
def KmallocSafe (frames : Nat → Nat) (h : Heap) (size : Nat) : Prop :=
  ∃ q, kmalloc frames h size = some q ∧
    (q.1 = 0 ∧ q.2 = h ∨ BlockInside q.2 q.1 size ∧ q.2.heapEnd ≤ HEAP_END)

/-- The pages of the size wrap to none: a free last segment does not get longer. -/
theorem heapExpand_nothing (hi : HeapInv h (l ++ [p])) (hp : p.free = true)
    (hz : roundUp32 r 0x1000 = 0) :
    HeapInv (heapExpand frames h r) (l ++ [p]) := by
  have hb := hi.bound
  have hpb := hi.bounds (s := p) (by simp)
  have hend := hi.heapEnd_eq
  simp only [HEAP_START] at hpb
  have hlast : h.lastHeader = p.addr := hi.listing.last
  have hseg := hi.seg_eq
  obtain ⟨pg, heq⟩ := heapExpand_merge frames r hb (by omega) (by omega) (by omega)
    (by rw [hlast, hseg]; exact hp)
  have hlen : u32 (p.length + (sub32 0 segHdrSize + segHdrSize)) = p.length := by
    unfold u32 sub32 segHdrSize
    omega
  rw [heq, hz, hlast, hseg, Nat.add_zero, u32_of_lt hb]
  dsimp only
  rw [hlen]
  refine ⟨hi.linked.congr fun x hx => ?_, hi.ne_nil, hlast.symm.trans hi.last, hi.start, hb⟩
  have hxb := hi.bounds hx
  dsimp only
  by_cases hxp : x.addr = p.addr
  · rw [hxp, Function.update_self, hseg, hp]
    rfl
  · rw [Function.update_of_ne hxp, Function.update_of_ne (by omega)]

/-- `kmalloc` of a size close to `2 ^ 32` does not end when the last segment is free. -/
theorem kmallocRec_nothing (fuel : Nat) : ∀ h : Heap, HeapInv h (l ++ [p]) → p.free = true →
    r % 0x10 = 0 → r ≠ 0 →
    (∀ x ∈ l ++ [p], x.fits r = false) → roundUp32 r 0x1000 = 0 →
    kmallocRec frames fuel h r = none := by
  induction fuel with
  | zero => exact fun _ _ _ _ _ _ _ => rfl
  | succ n ih =>
    intro h hi hp h16 hr hnone hz
    rw [kmallocRec_expand h16 hr (kmallocFind_none hi hnone)]
    exact ih _ (heapExpand_nothing hi hp hz) hp h16 hr hnone hz

/-- Rounding adds less than 16, unless it wraps to 0. -/
theorem le_roundUp32_16 (hsize : size < 4294967296) (hr : roundUp32 size 0x10 ≠ 0) :
    size ≤ roundUp32 size 0x10 ∧ roundUp32 size 0x10 < size + 16 ∧
    roundUp32 size 0x10 < 4294967296 := by
  unfold roundUp32 u32 at *
  split at hr <;> split <;> omega

/-- A null pointer is only returned for a size that rounds to 0, with the heap unchanged. -/
theorem kmalloc_not_null (frames : Nat → Nat) (hi : HeapInv h l) (hend : h.heapEnd ≤ HEAP_END)
    (h16 : r % 0x10 = 0) (hr : r ≠ 0)
    (hlt : r < 4294967296) (hnone : ∀ x ∈ l, x.fits r = false) (n : Nat) :
    kmallocRec frames (n + 2) h r ≠ some (0, h) := by
  intro hk
  simp only [HEAP_END] at hend
  by_cases hround : r + 0xFFF < 4294967296
  · -- a page at least was asked for
    obtain ⟨hpage, hle, -⟩ := roundUp32_page hround
    rw [kmallocRec_expand h16 hr (kmallocFind_none hi hnone)] at hk
    have hreq := kmallocRec_requests_le hk
    obtain ⟨l', p, rfl⟩ := hi.exists_last
    have hend' := hi.heapEnd_eq
    have hlast := hi.listing.last
    obtain ⟨pg, hexp⟩ := heapExpand_eq frames r hi.bound (by omega)
    rw [hexp, heapCombineBackward_requests] at hreq
    dsimp only at hreq
    omega
  · have hz : roundUp32 r 0x1000 = 0 := by
      unfold roundUp32 u32
      split <;> omega
    obtain ⟨l', p, rfl⟩ := hi.exists_last
    cases hp : p.free with
    | true => exact absurd hk (by rw [kmallocRec_nothing _ h hi hp h16 hr hnone hz]; exact nofun)
    | false =>
      have hend' := hi.heapEnd_eq
      have hpb := hi.bounds (s := p) (by simp)
      simp only [HEAP_START] at hpb
      have hshort := hi.length_lt
      have hnew : h.heapEnd ∉ (l' ++ [p]).map Seg.addr := by
        intro hmem
        obtain ⟨x, hx, hxa⟩ := List.mem_map.mp hmem
        have := hi.bounds hx
        omega
      obtain ⟨hl₁, -⟩ := hi.listing.append frames hp (by omega) (by omega) hnew r
      have hlen : sub32 (roundUp32 r 0x1000) segHdrSize = 0xFFFFFFF0 := by
        rw [hz]
        decide +kernel
      rw [hlen] at hl₁
      rw [kmallocRec_expand h16 hr (kmallocFind_none hi hnone)] at hk
      obtain ⟨q, hq, hqp⟩ := hl₁.take h16 hr hnone (by rw [fits_free, decide_eq_true_eq]; omega) n
      have hptr := congrArg Prod.fst (Option.some.inj (hq.symm.trans hk))
      rw [hqp, u32_of_lt (by dsimp only; omega)] at hptr
      exact absurd hptr (by simp)

/-- The heap stays inside its bounds exactly when the size rounds to 0, a free segment fits, or
    the expansions fit below `HEAP_END`. -/
theorem kmalloc_inside (frames : Nat → Nat) (hi : HeapInv h l) (hend : h.heapEnd ≤ HEAP_END)
    (hsize : size < 4294967296) :
    KmallocSafe frames h size ↔
      roundUp32 size 0x10 = 0 ∨ (∃ x ∈ l, x.fits (roundUp32 size 0x10) = true) ∨
        roundUp32 size 0x10 ≤ 0xFFFFF000 ∧ h.heapEnd + heapGrowth l (roundUp32 size 0x10) ≤
          HEAP_END := by
  have h16 := roundUp32_mod_16 size
  have hle := le_roundUp32_16 hsize
  have hkmalloc : ∀ {n : Nat} {q}, n + 1 ≤ expandFuel →
    kmallocRec frames (n + 1) h (roundUp32 size 0x10) = some q →
      kmalloc frames h size = some q := by
    intro n q hn hq
    rw [kmalloc, kmallocRec_round]
    exact kmallocRec_mono hq hn
  have hinside : ∀ {q : Nat × Heap}, BlockInside q.2 q.1 (roundUp32 size 0x10) →
    roundUp32 size 0x10 ≠ 0 →
      BlockInside q.2 q.1 size := fun hq hr =>
    ⟨hq.ne_null, Nat.le_trans (hle hr).1 hq.size_le, hq.start, hq.stop⟩
  by_cases hr : roundUp32 size 0x10 = 0
  · refine ⟨fun _ => .inl hr, fun _ => ⟨(0, h), hkmalloc (n := 0) (by decide) ?_, .inl ⟨rfl, rfl⟩⟩⟩
    rw [hr]
    exact kmallocRec_zero 0 h
  by_cases hfits : ∃ x ∈ l, x.fits (roundUp32 size 0x10) = true
  · obtain ⟨q, hq, hblock, hqend⟩ := kmallocRec_fits frames hi h16 hr hfits 0
    have hk := hkmalloc (n := 0) (by decide) hq
    exact ⟨fun _ => .inr (.inl hfits), fun _ => ⟨q, hk, .inr ⟨hinside hblock hr, hqend ▸ hend⟩⟩⟩
  have hnone : ∀ x ∈ l, x.fits (roundUp32 size 0x10) = false := by
    intro x hx
    by_contra hne
    exact hfits ⟨x, hx, by simpa using hne⟩
  have hgrow : ∀ (hround : roundUp32 size 0x10 + 0xFFF < 4294967296)
      (_ : h.heapEnd + heapGrowth l (roundUp32 size 0x10) < 4294967296),
      ∃ q, kmalloc frames h size = some q ∧ BlockInside q.2 q.1 size ∧
        q.2.heapEnd = h.heapEnd + heapGrowth l (roundUp32 size 0x10) := by
    intro hround hbelow
    obtain ⟨q, hq, hblock, hqend⟩ := kmallocRec_grow hi h16 hr hnone hround hbelow 0
    have hk := hkmalloc (n := 2) (by decide) hq
    exact ⟨q, hk, hinside hblock hr, hqend⟩
  constructor
  · rintro ⟨q, hq, ⟨hnull, hsame⟩ | ⟨hblock, hqend⟩⟩
    · rw [kmalloc, kmallocRec_round] at hq
      have hne := kmalloc_not_null frames hi hend h16 hr (hle hr).2.2 hnone (expandFuel - 2)
      exact absurd (hq.trans (by rw [← hnull, ← hsame])) hne
    · -- the block is inside the heap, so the size is far from wrapping
      have hstart : q.2.heapStart = HEAP_START := (kmallocRec_heapStart hq).trans hi.start
      have hbstart := hblock.start
      have hbstop := hblock.stop
      have hbsize := hblock.size_le
      have hlesize := hle hr
      simp only [HEAP_START, HEAP_END] at hstart hqend hend
      have hround : roundUp32 size 0x10 + 0xFFF < 4294967296 := by omega
      have hgrowth : heapGrowth l (roundUp32 size 0x10) ≤ 2 * roundUp32 size 0x10 + 0x1000 := by
        have := (roundUp32_page hround).2.2
        unfold heapGrowth
        split <;> omega
      obtain ⟨q', hq', -, hqend'⟩ := hgrow hround (by omega)
      obtain rfl := Option.some.inj (hq.symm.trans hq')
      refine .inr (.inr ⟨by omega, ?_⟩)
      rw [← hqend']
      exact hqend
  · rintro (hz | hfit | ⟨hsmall, hbelow⟩)
    · exact absurd hz hr
    · exact absurd hfit hfits
    · obtain ⟨q, hq, hblock, hqend⟩ := hgrow (by omega) (by simp only [HEAP_END] at hbelow; omega)
      exact ⟨q, hq, .inr ⟨hblock, hqend ▸ hbelow⟩⟩

/-- 5000 bytes behind a heap of one free page. -/
theorem kmalloc_inside_two_pages :
    KmallocSafe (fun k => (k + 1) * 0x1000) (heapInit (fun k => (k + 1) * 0x1000) Heap.blank 1)
      5000 := by
  refine (kmalloc_inside _ (heapInit_inv _ _ 1 (by decide) (by decide))
    (by decide +kernel) (by decide)).mpr ?_
  exact .inr (.inr (by decide +kernel))

/-- The size rounds to no page at all: the block starts at `heap_end` and lies behind it. -/
theorem kmalloc_inside_no_pages :
    ¬ ∀ (frames : Nat → Nat) (h : Heap) (l : List Seg) (size : Nat),
      HeapInv h l → h.heapEnd ≤ HEAP_END → size < 4294967296 → KmallocSafe frames h size := by
  intro hall
  have hi := fullHeap_inv (show HEAP_START + 16 ≤ 0x80001000 by decide) (by decide) (by decide)
  obtain ⟨q, hq, hsafe⟩ := hall (fun k => (k + 1) * 0x1000) _ _ 0xFFFFF010 hi
    (by decide) (by decide)
  have hresult : (kmalloc (fun k => (k + 1) * 0x1000) (fullHeap 0x80001000) 0xFFFFF010).map
      (fun q => (q.1, q.2.heapEnd)) = some (0x80001010, 0x80001000) := by
    decide +kernel
  rw [hq] at hresult
  obtain ⟨hptr, hqend⟩ : q.1 = 0x80001010 ∧ q.2.heapEnd = 0x80001000 := by simpa using hresult
  rcases hsafe with ⟨hnull, -⟩ | ⟨hblock, -⟩
  · omega
  · have hstop := hblock.stop
    omega

end MishaOS
