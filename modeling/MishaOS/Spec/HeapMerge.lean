import Mathlib.Data.List.Chain
import MishaOS.Spec.HeapRun

/-!
# No two free segments side by side

`kfree` merges forward and then backward, `heap_expand` merges backward, and
`kmalloc` only puts a segment in use in front of a free one.  So the segments
next to a free one are in use in every run, and when no block is live the whole
heap is one free segment.

## Key results

- `Sparse`: the property of the segment list, kept by each edit of it.
- `heap_run_merges`: it holds in every run, and freeing all live blocks in any
  order leaves one free segment.
-/

namespace MishaOS

variable {h h' : Heap} {l l' k : List Seg} {s t x : Seg} {frames : Nat → Nat}

/-! ## Edits of the segment list -/

/-- No two neighbours are both free. -/
def Sparse (l : List Seg) : Prop := l.IsChain fun s t => ¬ (s.free = true ∧ t.free = true)

theorem sparse_append : Sparse (l ++ k) ↔
    Sparse l ∧ Sparse k ∧ ∀ s ∈ l.getLast?, ∀ t ∈ k.head?, ¬ (s.free = true ∧ t.free = true) :=
  List.isChain_append

theorem sparse_cons : Sparse (s :: k) ↔
    (∀ t ∈ k.head?, ¬ (s.free = true ∧ t.free = true)) ∧ Sparse k :=
  List.isChain_cons

/-- A segment that is not free can stand anywhere, whatever its address and length. -/
theorem Sparse.replace_used (hs : Sparse (l ++ s :: k)) (ht : t.free = false) :
    Sparse (l ++ t :: k) := by
  obtain ⟨hl, hk, -⟩ := sparse_append.mp hs
  refine sparse_append.mpr ⟨hl, sparse_cons.mpr ⟨?_, (sparse_cons.mp hk).2⟩, ?_⟩
  · intro y _ hfree
    simp [ht] at hfree
  · intro y _ z hz hfree
    obtain rfl : t = z := by simpa using hz
    simp [ht] at hfree

/-- What `kmalloc` splits off is free, and so was the segment; its neighbours are in use. -/
theorem Sparse.take (hs : Sparse (l ++ s :: k)) (hfree : s.free = true) (size : Nat) :
    Sparse (l ++ (takeSeg s size ++ k)) := by
  unfold takeSeg
  split
  · have hused := hs.replace_used (t := ⟨s.addr, size, false⟩) rfl
    obtain ⟨hl, hk, hlk⟩ := sparse_append.mp hused
    obtain ⟨-, hsk, -⟩ := sparse_append.mp hs
    obtain ⟨hhead, hk'⟩ := sparse_cons.mp hsk
    refine sparse_append.mpr ⟨hl, ?_, hlk⟩
    refine sparse_cons.mpr ⟨fun y _ hf => by simp at hf, sparse_cons.mpr ⟨?_, hk'⟩⟩
    intro y hy hf
    exact hhead y hy ⟨hfree, hf.2⟩
  · exact hs.replace_used rfl

/-- A free segment put behind a list is merged with the last one if that is free too. -/
theorem Sparse.mergeBackward (hs : Sparse l) (hk : Sparse k)
    (hhead : ∀ t ∈ k.head?, t.free = false) :
    Sparse (MishaOS.mergeBackward l s ++ k) := by
  have hfront : ∀ y : Seg, Sparse (y :: k) := fun y =>
    sparse_cons.mpr ⟨fun z hz hf => by simp [hhead z hz] at hf, hk⟩
  -- the list is empty, or it has a last segment
  rcases List.eq_nil_or_concat l with rfl | ⟨l', p, rfl⟩
  · exact hfront s
  · rw [List.concat_eq_append] at hs ⊢
    obtain ⟨hl', -, hp⟩ := sparse_append.mp hs
    -- a free one takes the new segment in, one in use does not
    by_cases hfree : p.free = true
    · have heq : MishaOS.mergeBackward (l' ++ [p]) s ++ k =
          l' ++ ⟨p.addr, p.length + segHdrSize + s.length, true⟩ :: k := by
        simp [MishaOS.mergeBackward, hfree]
      rw [heq]
      refine sparse_append.mpr ⟨hl', hfront _, fun y hy z _ hf => ?_⟩
      exact hp y hy p rfl ⟨hf.1, hfree⟩
    · have heq : MishaOS.mergeBackward (l' ++ [p]) s ++ k = (l' ++ [p]) ++ s :: k := by
        simp [MishaOS.mergeBackward, hfree]
      rw [heq]
      refine sparse_append.mpr ⟨hs, hfront s, fun y hy z _ hf => ?_⟩
      obtain rfl : p = y := by simpa using hy
      exact hfree hf.1

/-- Behind `heap_combine_forward` a free segment is followed by one in use. -/
theorem mergeForward_sparse (hs : Sparse (s :: k)) (hfree : t.free = true) :
    ∃ n k', mergeForward t k = ⟨t.addr, n, true⟩ :: k' ∧ Sparse k' ∧
      (∀ y ∈ k'.head?, y.free = false) ∧ ∀ x : Seg, x.free = false → (x ∈ k' ↔ x ∈ k) := by
  obtain ⟨-, hk⟩ := sparse_cons.mp hs
  -- the segment behind is free, in use, or there is none
  cases k with
  | nil => exact ⟨t.length, [], by simp [mergeForward, ← hfree], hk, by simp, fun x _ => Iff.rfl⟩
  | cons y k =>
    obtain ⟨hy, hk'⟩ := sparse_cons.mp hk
    cases hyf : y.free with
    | true =>
      refine ⟨_, k, by simp [mergeForward, hyf, hfree]; rfl, hk', fun z hz => ?_, fun x hx => ?_⟩
      · simpa [hyf] using hy z hz
      · have hne : x ≠ y := fun e => by simp [e, hyf] at hx
        simp [hne]
    | false =>
      refine ⟨t.length, y :: k,
        by simp [mergeForward, hyf, ← hfree], hk, fun z hz => ?_, fun x _ => Iff.rfl⟩
      obtain rfl : y = z := by simpa using hz
      exact hyf

/-! ## Calls -/

theorem Sparse.grown (hs : Sparse l) (hg : Grown l l') : Sparse l' := by
  induction hg with
  | refl l => exact hs
  | expand a n _ ih =>
    apply ih
    have hmerged := hs.mergeBackward (s := ⟨a, n, true⟩) (k := []) List.isChain_nil (by simp)
    rwa [List.append_nil] at hmerged

/-- A call of `kmalloc` puts one segment in use. -/
theorem kmallocRec_sparse {fuel size p : Nat} (hi : HeapInv h l) (hs : Sparse l)
    (hsize : size + 0xFFF < 4294967296) (hk : kmallocRec frames fuel h size = some (p, h'))
    (hwrap : h.heapEnd + 0x1000 * (h'.requests - h.requests) < 4294967296) :
    (size = 0 ∧ p = 0 ∧ h' = h) ∨
      ∃ l', HeapInv h' l' ∧ Sparse l' ∧ ∀ x ∈ l', x.free = false → x ∈ l ∨ x.block = p := by
  -- size 0, or a segment that fits in the heap as it has grown
  rcases kmallocRec_list hi hsize hk hwrap with hz | ⟨g, l₁, s, l₂, -, hgrown, hfit, rfl, hi', -⟩
  · exact .inl hz
  · right
    simp only [Seg.fits, Bool.and_eq_true] at hfit
    refine ⟨_, hi', (hs.grown hgrown).take hfit.1 _, fun x hx hxf => ?_⟩
    have hold : x ∈ l₁ ++ s :: l₂ → x ∈ l := (hgrown.mem_of_used hxf).mp
    simp only [List.mem_append, List.mem_cons] at hx hold
    -- only the segment that is taken is new in use
    rcases hx with hx | hx | hx
    · exact .inl (hold (.inl hx))
    · right
      unfold takeSeg at hx
      split at hx
      · rcases List.mem_cons.mp hx with rfl | hx
        · rfl
        · obtain rfl := List.mem_singleton.mp hx
          simp at hxf
      · obtain rfl := List.mem_singleton.mp hx
        rfl
    · exact .inl (hold (.inr (.inr hx)))

/-- A call of `kfree` takes one segment out of use. -/
theorem kfree_sparse (hi : HeapInv h (l ++ s :: k)) (hs : Sparse (l ++ s :: k)) :
    ∃ l', HeapInv (kfree h s.block) l' ∧ Sparse l' ∧
      ∀ x ∈ l', x.free = false → x ∈ l ∨ x ∈ k := by
  obtain ⟨hl, hsk, -⟩ := sparse_append.mp hs
  obtain ⟨n, k', hk', hsparse, hhead, hmem⟩ :=
    mergeForward_sparse (t := { s with free := true }) hsk rfl
  refine ⟨_, (kfree_list hi).2.2 n k' hk', hl.mergeBackward hsparse hhead, fun x hx hxf => ?_⟩
  rcases List.mem_append.mp hx with hx | hx
  · exact .inl ((mem_mergeBackward_of_used hxf rfl).mp hx)
  · exact .inr ((hmem x hxf).mp hx)

/-! ## Runs -/

/-- The headers determine the segment list. -/
theorem Linked.unique {mem : Nat → HeapSegHdr} {nxt nxt' stop prev prev' a : Nat}
    (hl : Linked mem nxt stop prev a l) (hl' : Linked mem nxt' stop prev' a l') : l = l' := by
  -- both walks start at the same address and read the same headers
  induction l generalizing prev prev' a l' with
  | nil =>
    cases l' with
    | nil => rfl
    | cons y l' =>
      have hle := hl'.2.2.2.le
      obtain ⟨rfl, -⟩ := hl'
      simp only [Linked, Seg.stop, segHdrSize] at hl hle
      omega
  | cons x l ih =>
    cases l' with
    | nil =>
      have hle := hl.2.2.2.le
      obtain ⟨rfl, -⟩ := hl
      simp only [Linked, Seg.stop, segHdrSize] at hl' hle
      omega
    | cons y l' =>
      obtain ⟨rfl, hx, -, hrest⟩ := hl
      obtain ⟨haddr, hy, -, hrest'⟩ := hl'
      have hhdr := hx.symm.trans hy
      obtain rfl : x = y := by
        cases x
        cases y
        simp_all
      rw [ih hrest hrest']

/-- The other segments are at other addresses. -/
theorem HeapInv.addr_ne (hi : HeapInv h (l ++ s :: k)) (hx : x ∈ l ∨ x ∈ k) : x.addr ≠ s.addr := by
  obtain ⟨hl, hs⟩ := linked_append.mp hi.linked
  rcases hx with hx | hx
  · have := (hl.bounds hx).2
    simp only [Seg.stop, segHdrSize] at this
    omega
  · have := (hs.2.2.2.bounds hx).1
    simp only [Seg.stop, segHdrSize] at this
    omega

theorem HeapInv.unique (hi : HeapInv h l) (hi' : HeapInv h l') : l = l' :=
  hi.linked.unique hi'.linked

/-- No two neighbours are free, and every segment in use is a live block. -/
structure MergedInv (r : HeapRun) (l : List Seg) : Prop extends HeapRunInv r l where
  sparse : Sparse l
  live : ∀ x ∈ l, x.free = false → x.block ∈ r.live.map Prod.fst

theorem heapStep_merged {r r' : HeapRun} {op : HeapOp} (hi : MergedInv r l) (hok : HeapCallOk r op)
    (hend : HeapEndOk frames r op) (hst : heapStep frames r op = some r') :
    ∃ l', MergedInv r' l' := by
  obtain ⟨l', hi'⟩ := (heapStep_inv hi.toHeapRunInv hok hend hst).1
  -- what is left to show is about the free segments and the live blocks
  suffices hlist : ∃ l'', HeapInv r'.heap l'' ∧ Sparse l'' ∧
      ∀ x ∈ l'', x.free = false → x.block ∈ r'.live.map Prod.fst by
    obtain ⟨l'', hheap, hsparse, hlive⟩ := hlist
    obtain rfl := hi'.heap.unique hheap
    exact ⟨l', { hi' with sparse := hsparse, live := hlive }⟩
  cases op with
  | malloc size =>
    have hwrap := hend _ hst
    simp only [heapStep, Option.map_eq_some_iff] at hst
    obtain ⟨⟨p, h'⟩, hk, rfl⟩ := hst
    rcases kmallocRec_sparse hi.heap hi.sparse hok hk hwrap
      with ⟨-, rfl, rfl⟩ | ⟨l'', hheap, hsparse, hused⟩
    · exact ⟨l, hi.heap, hi.sparse, hi.live⟩
    · refine ⟨l'', hheap, hsparse, fun x hx hxf => ?_⟩
      have hx0 : x.block ≠ 0 := by simp [Seg.block, segHdrSize]
      -- a segment in use was in use before, or it is the new block
      rcases hused x hx hxf with hold | rfl
      · have hlive := hi.live x hold hxf
        by_cases hp : p = 0
        · simpa [hp] using hlive
        · simpa [hp] using .inr (by simpa using hlive)
      · simp [hx0]
  | free address =>
    obtain ⟨b₀, hb₀, rfl⟩ := List.mem_map.mp hok
    obtain ⟨x₀, hx₀, -, hx₀b, -⟩ := hi.used b₀ hb₀
    -- the segment that is freed is one of the list
    obtain ⟨l₁, l₂, rfl⟩ := List.append_of_mem hx₀
    obtain rfl : _ = r' := by simpa [heapStep] using hst
    rw [← hx₀b]
    obtain ⟨l'', hheap, hsparse, hused⟩ := kfree_sparse hi.heap hi.sparse
    refine ⟨l'', hheap, hsparse, fun x hx hxf => ?_⟩
    have hold : x ∈ l₁ ++ x₀ :: l₂ := by
      rcases hused x hx hxf with h₁ | h₂
      · exact List.mem_append_left _ h₁
      · exact List.mem_append_right _ (List.mem_cons_of_mem _ h₂)
    -- two segments of the list do not start at the same address
    have hne : x.block ≠ x₀.block := by
      have := hi.heap.addr_ne (hused x hx hxf)
      simp only [Seg.block]
      omega
    obtain ⟨b, hb, hbx⟩ := List.mem_map.mp (hi.live x hold hxf)
    refine List.mem_map.mpr ⟨b, ?_, hbx⟩
    simpa [hbx] using ⟨hb, hne⟩

theorem heapRun_merged {n : Nat} {ops : List HeapOp} {r : HeapRun} (hn : 1 ≤ n)
    (hwrap : HEAP_START + n * 0x1000 < 4294967296)
    (hrun : Run (heapStep frames) (fun s op => HeapCallOk s op ∧ HeapEndOk frames s op)
      (heapRunInit frames h n) ops r) : ∃ l, MergedInv r l := by
  apply hrun.invariant fun s => ∃ l, MergedInv s l
  · exact fun s op s' ⟨l, hi⟩ hok hst => heapStep_merged hi hok.1 hok.2 hst
  · refine ⟨_, ⟨heapInit_inv frames h n hn hwrap, by simp [heapRunInit], by simp [heapRunInit]⟩,
      List.isChain_singleton _, fun x hx hxf => ?_⟩
    obtain rfl := List.mem_singleton.mp hx
    simp at hxf

/-- The heap is one free segment. -/
structure OneFree (h : Heap) : Prop where
  header : h.seg h.heapStart = ⟨h.heapEnd - h.heapStart - 16, 0, 0, true⟩
  last : h.lastHeader = h.heapStart

/-- With no live block all segments are free, and so there is only one. -/
theorem MergedInv.oneFree {r : HeapRun} (hi : MergedInv r l) (hlive : r.live = []) :
    OneFree r.heap := by
  have hfree : ∀ x ∈ l, x.free = true := by
    intro x hx
    by_contra hxf
    simpa [hlive] using hi.live x hx (by simpa using hxf)
  have hsparse := hi.sparse
  have hheap := hi.heap
  -- a list of free segments of which no two are neighbours has length one
  match l with
  | [] => exact absurd rfl hheap.ne_nil
  | [s] =>
    obtain ⟨haddr, hhdr, -, hstop⟩ := hheap.linked
    have hlen : s.length = r.heap.heapEnd - r.heap.heapStart - 16 := by
      simp only [Linked, Seg.stop, segHdrSize] at hstop
      omega
    constructor
    · rw [hhdr, hlen, hfree s (by simp)]
      rfl
    · rw [hheap.last]
      exact haddr
  | s :: t :: k =>
    have hadj := (sparse_cons.mp hsparse).1 t rfl
    exact absurd ⟨hfree s (by simp), hfree t (by simp)⟩ hadj

/-- All live blocks are freed, one after the other. -/
theorem MergedInv.freeAll {ps : List Nat} : ∀ {r : HeapRun} {l : List Seg}, MergedInv r l →
    ps.Perm (r.live.map Prod.fst) →
    ∃ r', Run (heapStep frames) (fun s op => HeapCallOk s op ∧ HeapEndOk frames s op) r
      (ps.map .free) r' ∧
      r'.heap.heapEnd = r.heap.heapEnd ∧ OneFree r'.heap := by
  -- on the blocks that are left, in the order in which they are freed
  induction ps with
  | nil =>
    intro r l hi hperm
    have hlive : r.live = [] := by simpa using hperm.symm.eq_nil
    exact ⟨r, .nil r, rfl, hi.oneFree hlive⟩
  | cons p ps ih =>
    intro r l hi hperm
    obtain ⟨b, hb, rfl⟩ := List.mem_map.mp (hperm.subset List.mem_cons_self)
    have hok : HeapCallOk r (.free b.1) := List.mem_map_of_mem hb
    obtain ⟨x, hx, -, hxb, -⟩ := hi.used b hb
    obtain ⟨l₁, l₂, rfl⟩ := List.append_of_mem hx
    obtain ⟨hend, hreq, -⟩ := kfree_list hi.heap
    rw [hxb] at hend hreq
    have hst : heapStep frames r (.free b.1) = some ⟨kfree r.heap b.1, r.live.filter (·.1 ≠ b.1)⟩ :=
      rfl
    have hendok : HeapEndOk frames r (.free b.1) := by
      intro t ht
      obtain rfl : _ = t := Option.some.inj ht
      have hbound := hi.heap.bound
      simp only [hreq]
      omega
    obtain ⟨l', hi'⟩ := heapStep_merged hi hok hendok hst
    -- the rest of the blocks is still a permutation of what is live
    have hrest : ps.Perm ((r.live.filter (·.1 ≠ b.1)).map Prod.fst) := by
      have hnodup : (b.1 :: ps).Nodup := hperm.nodup_iff.mpr hi.nodup
      have hfilter : (r.live.filter (·.1 ≠ b.1)).map Prod.fst =
          (r.live.map Prod.fst).filter (· ≠ b.1) := by
        rw [List.filter_map]
        rfl
      have hkept : (b.1 :: ps).filter (· ≠ b.1) = ps := by
        rw [List.filter_cons_of_neg (by simp), List.filter_eq_self]
        intro c hc
        have hne : c ≠ b.1 := fun e => (List.nodup_cons.mp hnodup).1 (e ▸ hc)
        simpa using hne
      rw [hfilter, ← hkept]
      exact hperm.filter _
    obtain ⟨r', hrun, hend', hone⟩ := ih hi' hrest
    exact ⟨r', .cons ⟨hok, hendok⟩ hst hrun, hend'.trans hend, hone⟩

/-- In every run in which `heap_end` does not wrap, two neighbours are never both free, and when
    the live blocks are freed in any order, one free segment remains. -/
theorem heap_run_merges (frames : Nat → Nat) (h : Heap) (n : Nat) (ops : List HeapOp) (r : HeapRun)
    (hn : 1 ≤ n) (hwrap : HEAP_START + n * 0x1000 < 4294967296)
    (hrun : Run (heapStep frames) (fun s op => HeapCallOk s op ∧ HeapEndOk frames s op)
      (heapRunInit frames h n) ops r) :
    (∃ hdrs, SegListOk r.heap hdrs ∧ ∀ a ∈ hdrs, (r.heap.seg a).next ≠ 0 →
      ¬ ((r.heap.seg a).free = true ∧ (r.heap.seg (r.heap.seg a).next).free = true)) ∧
    ∀ ps : List Nat, ps.Perm (r.live.map Prod.fst) →
      ∃ r', Run (heapStep frames) (fun s op => HeapCallOk s op ∧ HeapEndOk frames s op) r
        (ps.map .free) r' ∧
        r'.heap.heapEnd = r.heap.heapEnd ∧ OneFree r'.heap := by
  obtain ⟨l, hi⟩ := heapRun_merged hn hwrap hrun
  refine ⟨⟨l.map Seg.addr, hi.heap.segListOk, fun a ha hnext => ?_⟩,
    fun ps hperm => hi.freeAll hperm⟩
  obtain ⟨s, hs, rfl⟩ := List.mem_map.mp ha
  obtain ⟨l₁, l₂, rfl⟩ := List.append_of_mem hs
  cases l₂ with
  | nil => simp [hi.heap.seg_eq, headAddr] at hnext
  -- two neighbours of the list are not both free
  | cons t l₂ =>
    have ht := HeapInv.seg_eq (l := l₁ ++ [s]) (s := t) (by simpa using hi.heap)
    have hadj := (sparse_cons.mp (sparse_append.mp hi.sparse).2.1).1 t rfl
    simpa [hi.heap.seg_eq, headAddr, ht] using hadj

/-- Three blocks are live, and the middle one is freed first. -/
theorem heap_run_merges_three :
    ∃ r r', r.live.map Prod.fst = [0x80000090, 0x80000040, 0x80000010] ∧
      Run (heapStep fun k => (k + 1) * 0x1000)
        (fun s op => HeapCallOk s op ∧ HeapEndOk (fun k => (k + 1) * 0x1000) s op) r
        [.free 0x80000040, .free 0x80000090, .free 0x80000010] r' ∧ OneFree r'.heap := by
  have hexec : ((Run.exec (heapStep fun k => (k + 1) * 0x1000)
      (fun s op => HeapCallOk s op ∧ HeapEndOk (fun k => (k + 1) * 0x1000) s op)
      (heapRunInit (fun k => (k + 1) * 0x1000) Heap.blank 1)
      [.malloc 32, .malloc 64, .malloc 5000]).map (·.live.map Prod.fst)) =
      some [0x80000090, 0x80000040, 0x80000010] := by decide +kernel
  obtain ⟨r, hr, hlive⟩ := Option.map_eq_some_iff.mp hexec
  have hmerge := (heap_run_merges _ _ 1 _ r (by decide) (by decide) (Run.of_exec hr)).2
  obtain ⟨r', hrun, -, hone⟩ := hmerge [0x80000040, 0x80000090, 0x80000010] (by rw [hlive]; decide)
  exact ⟨r, r', hlive, hrun, hone⟩

/-- A block that reaches past the top of the address space is split at address 0, where the list
    ends; the rest is lost when the blocks are freed. -/
theorem heap_run_loses_rest :
    ¬ ∀ (frames : Nat → Nat) (h : Heap) (n : Nat) (ops : List HeapOp) (r : HeapRun),
      1 ≤ n → (∀ k, frames k ≠ 0) →
      Run (heapStep frames) HeapCallOk (heapRunInit frames h n) ops r →
      r.live = [] → (r.heap.seg r.heap.heapStart).length =
        sub32 (sub32 r.heap.heapEnd r.heap.heapStart) 16 := by
  intro hall
  have hexec : ((Run.exec (heapStep fun k => (k + 1) * 0x1000) HeapCallOk
      (heapRunInit (fun k => (k + 1) * 0x1000) Heap.blank 0x7FFFF)
      [.malloc 0x7FFFEFF0, .malloc 0x1FF0, .free 0xFFFFF010, .malloc 0xFF0, .free 0xFFFFF010]).map
        fun r => (r.live, r.heap.heapStart, r.heap.heapEnd, r.heap.lastHeader,
          r.heap.seg 0x80000000,
          r.heap.seg 0xFFFFF000)) =
      some ([(0x80000010, 0x7FFFEFF0)], 0x80000000, 0x1000, 0, ⟨0x7FFFEFF0, 0xFFFFF000, 0, false⟩,
        ⟨0xFF0, 0, 0x80000000, true⟩) := by
    -- the page tables are never looked at, so they stay unevaluated
    rw [heapRunInit, heapInit_eq]
    decide +kernel
  obtain ⟨r, hr, hstate⟩ := Option.map_eq_some_iff.mp hexec
  simp only [Prod.mk.injEq] at hstate
  obtain ⟨hlive, hstart, hend, hlast, hfirst, hrest⟩ := hstate
  have hok : HeapCallOk r (.free 0x80000010) := by simp [HeapCallOk, hlive]
  have hrun := (Run.of_exec hr).append (.cons hok rfl (.nil _))
  have hempty : r.live.filter (·.1 ≠ 0x80000010) = [] := by simp [hlive]
  have hlen := hall _ _ _ _ _ (by decide) (by intro k; omega) hrun hempty
  obtain ⟨pg, hpg⟩ := heapMapKernelSegment_eq r.heap 0x80000010
  have hseg : sub32 0x80000010 segHdrSize = 0x80000000 := by decide +kernel
  have hmerged : u32 (0x7FFFEFF0 + (0xFF0 + segHdrSize)) = 0x7FFFFFF0 := by decide +kernel
  have htotal : sub32 (sub32 0x1000 0x80000000) 16 = 0x80000FF0 := by decide +kernel
  have hkfree : (kfree r.heap 0x80000010).heapStart = 0x80000000 ∧
    (kfree r.heap 0x80000010).heapEnd = 0x1000 ∧
      ((kfree r.heap 0x80000010).seg 0x80000000).length = 0x7FFFFFF0 := by
    simp [kfree, hpg, hseg, Heap.setSeg, heapCombineForward, heapCombineBackward, hfirst,
      hrest, hstart, hend,
      hlast, hmerged]
  rw [show Heap.heapStart _ = _ from hkfree.1, hkfree.2.2, hkfree.2.1, htotal] at hlen
  exact absurd hlen (by decide)

end MishaOS
