import MishaOS.ForStd.LinkedList
import MishaOS.ForStd.Run
import MishaOS.Spec.HeapAlloc

/-!
# Runs of kmalloc and kfree

A run starts from `heap_init` and calls `kmalloc` and `kfree` in any order.
The run's own bookkeeping is `live`: the pointers handed out and not yet
freed, each with the size that was asked for.

## Key results

- `heap_run_blocks`: live blocks are aligned, large enough, inside the heap,
  disjoint from one another and from every header, and no call moves or
  resizes a live block of somebody else.
- `heap_run_seg_list`: the segment list is a well-formed doubly linked tiling
  in every state, as long as `heap_end` does not wrap around.
-/

namespace MishaOS

open LinkedList

variable {h h' : Heap} {l k : List Seg} {s t : Seg} {frames : Nat → Nat}

/-! ## One call of kmalloc -/

/-- Rounding to pages adds less than a page. -/
theorem roundUp32_page {x : Nat} (hx : x + 0xFFF < 4294967296) :
    roundUp32 x 0x1000 % 0x1000 = 0 ∧ x ≤ roundUp32 x 0x1000 ∧ roundUp32 x 0x1000 < x + 0x1000 := by
  unfold roundUp32 u32
  split <;> omega

/-- Rounding to 16 adds less than 16. -/
theorem roundUp32_16 {x : Nat} (hx : x + 0xFFF < 4294967296) :
    roundUp32 x 0x10 % 16 = 0 ∧ x ≤ roundUp32 x 0x10 ∧ roundUp32 x 0x10 + 0xFFF < 4294967296 := by
  unfold roundUp32 u32
  split <;> omega

/-- An expansion only requests pages. -/
theorem heapExpand_requests_le (h : Heap) (length : Nat) :
    h.requests ≤ (heapExpand frames h length).requests := by
  have hpages : ∀ (n : Nat) (h : Heap), (heapExpandPages frames h n).requests = h.requests + n := by
    intro n
    induction n with
    | zero => exact fun h => rfl
    | succ n ih =>
      intro h
      rw [heapExpandPages, ih]
      simp only [heapMapPage]
      omega
  simp [heapExpand, Heap.setSeg, hpages]

/-- One call: it fails, gives a segment, or grows the heap and starts over. -/
theorem kmallocRec_succ (fuel : Nat) (h : Heap) (size : Nat) :
    kmallocRec frames (fuel + 1) h size =
      if roundUp32 size 0x10 = 0 then some (0, h)
      else
        match kmallocFind h (roundUp32 size 0x10) walkFuel h.heapStart with
        | none => none
        | some seg =>
          if seg = 0 then
            kmallocRec frames fuel (heapExpand frames h (roundUp32 size 0x10)) (roundUp32 size 0x10)
          else some (kmallocTake h (roundUp32 size 0x10) seg) := rfl

/-- So does `kmalloc`. -/
theorem kmallocRec_requests_le {fuel size p : Nat}
    (hk : kmallocRec frames fuel h size = some (p, h')) : h.requests ≤ h'.requests := by
  induction fuel generalizing h size with
  | zero => exact nomatch hk
  | succ n ih =>
    simp only [kmallocRec_succ] at hk
    split at hk
    · obtain ⟨-, rfl⟩ := by simpa using hk
      exact Nat.le_refl _
    · split at hk
      · exact nomatch hk
      · split at hk
        · exact Nat.le_trans (heapExpand_requests_le h _) (ih hk)
        · have := congrArg (fun r => r.2.requests) (Option.some.inj hk)
          simp at this
          omega

/-- What a call of `kmalloc` that hands out a block does to the segments in
    use: it adds one, of sufficient length, at an address not in use before. -/
structure Takes (l l' : List Seg) (size : Nat) (t : Seg) : Prop where
  used : t.free = false
  mem : t ∈ l'
  size_le : size ≤ t.length
  keep : ∀ x ∈ l, x.free = false → x ∈ l' ∧ x.addr ≠ t.addr

/-- Taking a segment takes nothing from the others. -/
theorem takes_takeSeg (hi : HeapInv h (l ++ s :: k)) {size : Nat} (hfit : s.fits size = true) :
    ∃ t, t.block = s.block ∧ Takes (l ++ s :: k) (l ++ (takeSeg s size ++ k)) size t := by
  simp only [Seg.fits, Bool.and_eq_true, decide_eq_true_eq] at hfit
  obtain ⟨hfree, hle⟩ := hfit
  have hkeep : ∀ x ∈ l ++ s :: k, x.free = false → x ∈ l ++ (takeSeg s size ++ k) ∧
      x.addr ≠ s.addr := by
    intro x hx hxf
    have hxs : x ≠ s := fun e => by simp [e, hfree] at hxf
    refine ⟨?_, fun e => hxs (hi.linked.addr_injective hx (by simp) e)⟩
    simp only [List.mem_append, List.mem_cons] at hx ⊢
    rcases hx with hx | hx | hx
    · exact .inl hx
    · exact absurd hx hxs
    · exact .inr (.inr hx)
  by_cases hroom : size + 32 ≤ s.length
  · exact ⟨⟨s.addr, size, false⟩, rfl, rfl, by simp [takeSeg, hroom], Nat.le_refl _, hkeep⟩
  · exact ⟨⟨s.addr, s.length, false⟩, rfl, rfl, by simp [takeSeg, hroom], hle, hkeep⟩

/-- `l'` is the segment list `l` after some calls of `heap_expand`. -/
inductive Grown : List Seg → List Seg → Prop
  | refl (l : List Seg) : Grown l l
  | expand {l l' : List Seg} (a n : Nat) : Grown (mergeBackward l ⟨a, n, true⟩) l' → Grown l l'

/-- The heap grows behind the segments in use. -/
theorem Grown.mem_of_used {l' : List Seg} (hg : Grown l l') {x : Seg} (hx : x.free = false) :
    x ∈ l' ↔ x ∈ l := by
  induction hg with
  | refl l => exact Iff.rfl
  | expand a n _ ih => exact ih.trans (mem_mergeBackward_of_used hx rfl)

/-- `kmalloc` of a size whose rounding does not wrap, in a run in which `heap_end` does not wrap:
    the heap grows as often as needed, and then a segment that fits is taken. -/
theorem kmallocRec_list {fuel size p : Nat} (hi : HeapInv h l) (hsize : size + 0xFFF < 4294967296)
    (hk : kmallocRec frames fuel h size = some (p, h'))
    (hwrap : h.heapEnd + 0x1000 * (h'.requests - h.requests) < 4294967296) :
    (size = 0 ∧ p = 0 ∧ h' = h) ∨
      ∃ g l₁ s l₂, HeapInv g (l₁ ++ s :: l₂) ∧ Grown l (l₁ ++ s :: l₂) ∧
        s.fits (roundUp32 size 0x10) = true ∧ p = s.block ∧
        HeapInv h' (l₁ ++ (takeSeg s (roundUp32 size 0x10) ++ l₂)) ∧ h.heapEnd ≤ h'.heapEnd := by
  induction fuel generalizing h l size with
  | zero => exact nomatch hk
  | succ n ih =>
    obtain ⟨h16, hle, hsize'⟩ := roundUp32_16 hsize
    simp only [kmallocRec_succ] at hk
    generalize roundUp32 size 0x10 = r at *
    -- size 0 is answered with null
    split at hk
    · left
      obtain ⟨rfl, rfl⟩ := by simpa using hk
      exact ⟨by omega, rfl, rfl⟩
    · rename_i hr0
      right
      rcases kmallocFind_spec hi r with ⟨hfind, -⟩ | ⟨l₁, s, l₂, rfl, hfit, hfind⟩
      · -- nothing fits: the heap grows and the call is repeated
        simp only [hfind, if_true] at hk
        obtain ⟨hpage, hler, -⟩ := roundUp32_page hsize'
        have hreq := kmallocRec_requests_le hk
        obtain ⟨pg, hpg⟩ := heapExpandPages_eq frames h (roundUp32 r 0x1000 / 0x1000) hi.bound
        have hreq' : (heapExpand frames h r).requests =
            h.requests + roundUp32 r 0x1000 / 0x1000 := by
          simp [heapExpand, Heap.setSeg, hpg]
        obtain ⟨hi', hend, -⟩ := heapExpand_inv frames hi rfl hpage (by omega) (by omega)
        have hround : roundUp32 r 0x10 = r := by
          unfold roundUp32
          rw [if_neg (by omega)]
        rcases ih hi' hsize' hk (by omega) with ⟨hr, -⟩ | ⟨g, l₁, s, l₂, hg, hgrown, hfit,
          hp, hi'', hend'⟩
        · exact absurd hr hr0
        · rw [hround] at hfit hi''
          exact ⟨g, l₁, s, l₂, hg, .expand _ _ hgrown, hfit, hp, hi'', by omega⟩
      · have hs0 : s.addr ≠ 0 := by
          have := (hi.bounds (s := s) (by simp)).1
          simp only [HEAP_START] at this
          omega
        simp only [hfind, if_neg hs0, Option.some.injEq] at hk
        obtain ⟨hptr, hinv⟩ := kmallocTake_inv hi h16 (by omega) hfit
        rw [hk] at hptr hinv
        refine ⟨h, l₁, s, l₂, hi, .refl _, hfit, hptr, hinv, ?_⟩
        have := congrArg (fun q => q.2.heapEnd) hk
        simp only [kmallocTake_heapEnd] at this
        omega

/-- What a call of `kmalloc` does to the segments. -/
theorem kmallocRec_spec {fuel size p : Nat} (hi : HeapInv h l) (hsize : size + 0xFFF < 4294967296)
    (hk : kmallocRec frames fuel h size = some (p, h'))
    (hwrap : h.heapEnd + 0x1000 * (h'.requests - h.requests) < 4294967296) :
    (size = 0 ∧ p = 0 ∧ h' = h) ∨
      ∃ l' t, HeapInv h' l' ∧ p = t.block ∧ Takes l l' size t ∧ h.heapEnd ≤ h'.heapEnd := by
  rcases kmallocRec_list hi hsize hk hwrap with hz | ⟨g, l₁, s, l₂, hg, hgrown, hfit, hp, hi', hend⟩
  · exact .inl hz
  · right
    obtain ⟨t, htb, htakes⟩ := takes_takeSeg hg hfit
    have hle := (roundUp32_16 hsize).2.1
    refine ⟨_, t, hi', hp.trans htb.symm,
      ⟨htakes.used, htakes.mem, Nat.le_trans hle htakes.size_le, ?_⟩, hend⟩
    intro x hx hxf
    exact htakes.keep x ((hgrown.mem_of_used hxf).mpr hx) hxf

/-! ## What the invariant says about headers and blocks -/

/-- The block of a pointer `kmalloc` handed out has the length its header says. -/
def Heap.blockLen (h : Heap) (p : Nat) : Nat := (h.seg (p - segHdrSize)).length

/-- The length of a block is that of its segment. -/
theorem HeapInv.blockLen (hi : HeapInv h l) (hs : s ∈ l) : h.blockLen s.block = s.length := by
  simp [Heap.blockLen, Seg.block, (hi.linked.header hs).1]

/-- Two segments of the tiling lie behind one another. -/
theorem Linked.separated {mem : Nat → HeapSegHdr} {nxt stop prev a : Nat}
    (hl : Linked mem nxt stop prev a l) (hs : s ∈ l) (ht : t ∈ l) (hne : s.addr ≠ t.addr) :
    s.stop ≤ t.addr ∨ t.stop ≤ s.addr := by
  induction l generalizing prev a with
  | nil => simp at hs
  | cons x xs ih =>
    have hrest : ∀ y ∈ xs, x.stop ≤ y.addr := fun y hy => (hl.2.2.2.bounds hy).1
    rcases List.mem_cons.mp hs with rfl | hs' <;> rcases List.mem_cons.mp ht with rfl | ht'
    · exact absurd rfl hne
    · exact .inl (hrest t ht')
    · exact .inr (hrest s hs')
    · exact ih hl.2.2.2 hs' ht'

/-- The headers of the tiling are exactly the chain of `next` pointers. -/
theorem Linked.chain {mem : Nat → HeapSegHdr} {stop prev a : Nat}
    (hl : Linked mem 0 stop prev a l) (hpos : 0 < a) :
    Chain (fun b => (mem b).next) 0 (headAddr 0 l) (l.map Seg.addr) := by
  induction l generalizing prev a with
  | nil => rfl
  | cons x xs ih =>
    obtain ⟨rfl, hm, -, hrest⟩ := hl
    refine ⟨rfl, by omega, ?_⟩
    simp only [hm]
    exact ih hrest (by simp only [Seg.stop]; omega)

/-- The segments are a list. -/
theorem HeapInv.chain (hi : HeapInv h l) :
    Chain (fun b => (h.seg b).next) 0 h.heapStart (l.map Seg.addr) := by
  have hc := hi.linked.chain (by rw [hi.start]; decide)
  cases l with
  | nil => exact absurd rfl hi.ne_nil
  | cons x xs =>
    rw [← hi.linked.1]
    exact hc

/-! ## Runs -/

/-- The heap and the blocks handed out and not yet freed: pointer and size. -/
structure HeapRun where
  heap : Heap
  live : List (Nat × Nat)

inductive HeapOp
  | malloc (size : Nat)
  | free (address : Nat)
deriving Repr, DecidableEq

/-- One call of `kmalloc` or `kfree`. -/
def heapStep (frames : Nat → Nat) (s : HeapRun) : HeapOp → Option HeapRun
  | .malloc size => (kmalloc frames s.heap size).map fun (p, h) =>
      ⟨h, if p = 0 then s.live else (p, size) :: s.live⟩
  | .free address => some ⟨kfree s.heap address, s.live.filter (·.1 ≠ address)⟩

/-- The state `heap_init` leaves; `h` is the memory before. -/
def heapRunInit (frames : Nat → Nat) (h : Heap) (pageCount : Nat) : HeapRun :=
  ⟨heapInit frames h pageCount, []⟩

/-- A size that rounds up to a page multiple without wrap-around, and a pointer
    that is live. -/
def HeapCallOk (s : HeapRun) : HeapOp → Prop
  | .malloc size => size + 0xFFF < 4294967296
  | .free address => address ∈ s.live.map Prod.fst

instance (s : HeapRun) (op : HeapOp) : Decidable (HeapCallOk s op) :=
  match op with
  | .malloc size => inferInstanceAs (Decidable (size + 0xFFF < 4294967296))
  | .free address => inferInstanceAs (Decidable (address ∈ s.live.map Prod.fst))

/-- `heap_end` does not wrap: the pages the call maps fit below `2 ^ 32`. -/
def HeapEndOk (frames : Nat → Nat) (s : HeapRun) (op : HeapOp) : Prop :=
  ∀ t ∈ heapStep frames s op,
    s.heap.heapEnd + 0x1000 * (t.heap.requests - s.heap.requests) < 4294967296

instance (frames : Nat → Nat) (s : HeapRun) (op : HeapOp) : Decidable (HeapEndOk frames s op) :=
  inferInstanceAs (Decidable (∀ t ∈ heapStep frames s op,
    s.heap.heapEnd + 0x1000 * (t.heap.requests - s.heap.requests) < 4294967296))

/-- Every live block is a segment in use. -/
structure HeapRunInv (s : HeapRun) (l : List Seg) : Prop where
  heap : HeapInv s.heap l
  used : ∀ b ∈ s.live, ∃ x ∈ l, x.free = false ∧ x.block = b.1 ∧ b.2 ≤ x.length
  nodup : (s.live.map Prod.fst).Nodup

/-- The live blocks of others keep their place and length. -/
def KeepsBlocks (s t : HeapRun) (op : HeapOp) : Prop :=
  ∀ b ∈ s.live, op ≠ .free b.1 → b ∈ t.live ∧ t.heap.blockLen b.1 = s.heap.blockLen b.1

/-- The heap after `heap_init`. -/
theorem heapRunInit_inv (frames : Nat → Nat) (h : Heap) (n : Nat) (hn : 1 ≤ n)
    (hwrap : HEAP_START + n * 0x1000 < 4294967296) :
    ∃ l, HeapRunInv (heapRunInit frames h n) l :=
  ⟨_, heapInit_inv frames h n hn hwrap, by simp [heapRunInit], by simp [heapRunInit]⟩

/-- One step of a run. -/
theorem heapStep_inv {r r' : HeapRun} {op : HeapOp} (hi : HeapRunInv r l) (hok : HeapCallOk r op)
    (hend : HeapEndOk frames r op) (hst : heapStep frames r op = some r') :
    (∃ l', HeapRunInv r' l') ∧ KeepsBlocks r r' op := by
  cases op with
  | malloc size =>
    have hwrap := hend _ hst
    simp only [heapStep, Option.map_eq_some_iff] at hst
    obtain ⟨⟨p, h'⟩, hk, rfl⟩ := hst
    rcases kmallocRec_spec hi.heap hok hk hwrap with ⟨rfl, rfl, rfl⟩ | ⟨l', t, hi', rfl, htakes, -⟩
    · exact ⟨⟨l, hi⟩, fun b hb _ => ⟨hb, rfl⟩⟩
    · have ht0 : t.block ≠ 0 := by simp [Seg.block, segHdrSize]
      simp only [if_neg ht0]
      -- the blocks in use keep their segments
      have hkeep : ∀ b ∈ r.live, ∃ x ∈ l', x.free = false ∧ x.block = b.1 ∧ b.2 ≤ x.length ∧
          x.length = r.heap.blockLen b.1 ∧ x.addr ≠ t.addr := by
        intro b hb
        obtain ⟨x, hx, hxf, hxb, hxs⟩ := hi.used b hb
        obtain ⟨hx', hne⟩ := htakes.keep x hx hxf
        exact ⟨x, hx', hxf, hxb, hxs, by rw [← hxb, hi.heap.blockLen hx], hne⟩
      refine ⟨⟨l', hi', ?_, ?_⟩, ?_⟩
      · intro b hb
        rcases List.mem_cons.mp hb with rfl | hb
        · exact ⟨t, htakes.mem, htakes.used, rfl, htakes.size_le⟩
        · obtain ⟨x, hx, hxf, hxb, hxs, -⟩ := hkeep b hb
          exact ⟨x, hx, hxf, hxb, hxs⟩
      -- the new block starts where no live one does
      · refine List.nodup_cons.mpr ⟨fun hmem => ?_, hi.nodup⟩
        obtain ⟨b, hb, hbt⟩ := List.mem_map.mp hmem
        obtain ⟨x, -, -, hxb, -, -, hne⟩ := hkeep b hb
        simp only [Seg.block] at hxb hbt
        omega
      · intro b hb _
        obtain ⟨x, hx, -, hxb, -, hlen, -⟩ := hkeep b hb
        exact ⟨List.mem_cons_of_mem _ hb, by rw [← hlen, ← hxb, hi'.blockLen hx]⟩
  | free address =>
    obtain ⟨b₀, hb₀, rfl⟩ := List.mem_map.mp hok
    obtain ⟨x₀, hx₀, hx₀f, hx₀b, -⟩ := hi.used b₀ hb₀
    obtain ⟨l₁, l₂, rfl⟩ := List.append_of_mem hx₀
    obtain rfl : _ = r' := by simpa [heapStep] using hst
    rw [← hx₀b]
    -- the segments in use are the old ones without the one that is freed
    obtain ⟨-, -, l', hi', hused⟩ := kfree_inv hi.heap
    have hkeep : ∀ b ∈ r.live, b.1 ≠ x₀.block → ∃ x ∈ l', x.free = false ∧ x.block = b.1 ∧
        b.2 ≤ x.length ∧ x.length = r.heap.blockLen b.1 := by
      intro b hb hne
      obtain ⟨x, hx, hxf, hxb, hxs⟩ := hi.used b hb
      have hx0 : x ≠ x₀ := fun e => hne (by rw [← hxb, e])
      have hx' : x ∈ l₁ ∨ x ∈ l₂ := by simpa [hx0] using hx
      exact ⟨x, (hused x hxf).mpr hx', hxf, hxb, hxs, by rw [← hxb, hi.heap.blockLen hx]⟩
    refine ⟨⟨l', hi', ?_, ?_⟩, ?_⟩
    · intro b hb
      obtain ⟨hb, hbne⟩ : b ∈ r.live ∧ b.1 ≠ x₀.block := by simpa using hb
      obtain ⟨x, hx, hxf, hxb, hxs, -⟩ := hkeep b hb hbne
      exact ⟨x, hx, hxf, hxb, hxs⟩
    · exact hi.nodup.sublist (List.filter_sublist.map _)
    · intro b hb hne
      have hne' : b.1 ≠ x₀.block := fun e => hne (by rw [e])
      obtain ⟨x, hx, -, hxb, -, hlen⟩ := hkeep b hb hne'
      exact ⟨by simpa using ⟨hb, hne'⟩, by rw [← hlen, ← hxb, hi'.blockLen hx]⟩

/-- Every run keeps the invariant. -/
theorem heapRun_inv {n : Nat} {ops : List HeapOp} {r : HeapRun} (hn : 1 ≤ n)
    (hwrap : HEAP_START + n * 0x1000 < 4294967296)
    (hrun : Run (heapStep frames) (fun s op => HeapCallOk s op ∧ HeapEndOk frames s op)
      (heapRunInit frames h n) ops r) : ∃ l, HeapRunInv r l :=
  hrun.invariant (fun s => ∃ l, HeapRunInv s l)
    (fun _ _ _ ⟨_, hi⟩ hok hst => (heapStep_inv hi hok.1 hok.2 hst).1)
    (heapRunInit_inv frames h n hn hwrap)

/-! ## Blocks -/

/-- The live blocks of a run: aligned, large enough, inside the heap, apart
    from one another and from every header. -/
structure BlocksOk (s : HeapRun) : Prop where
  aligned : ∀ b ∈ s.live, b.1 % 16 = 0
  size_le : ∀ b ∈ s.live, b.2 ≤ s.heap.blockLen b.1
  inside : ∀ b ∈ s.live, s.heap.heapStart ≤ b.1 ∧ b.1 + s.heap.blockLen b.1 ≤ s.heap.heapEnd
  disjoint : s.live.Pairwise fun b c =>
    b.1 + s.heap.blockLen b.1 ≤ c.1 ∨ c.1 + s.heap.blockLen c.1 ≤ b.1
  headers : ∃ hdrs, Chain (fun a => (s.heap.seg a).next) 0 s.heap.heapStart hdrs ∧
    ∀ a ∈ hdrs, ∀ b ∈ s.live, a + segHdrSize ≤ b.1 ∨ b.1 + s.heap.blockLen b.1 ≤ a

/-- The blocks are those of the segments in use. -/
theorem HeapRunInv.blocksOk {r : HeapRun} (hi : HeapRunInv r l) : BlocksOk r := by
  -- each block with its segment
  have hseg : ∀ b ∈ r.live, ∃ x ∈ l, x.free = false ∧ x.addr + 16 = b.1 ∧ b.2 ≤ x.length ∧
      r.heap.blockLen b.1 = x.length := by
    intro b hb
    obtain ⟨x, hx, hxf, hxb, hxs⟩ := hi.used b hb
    exact ⟨x, hx, hxf, hxb, hxs, by rw [← hxb, hi.heap.blockLen hx]⟩
  refine ⟨fun b hb => ?_, fun b hb => ?_, fun b hb => ?_, ?_, l.map Seg.addr, hi.heap.chain, ?_⟩
  · obtain ⟨x, hx, -, hxb, -⟩ := hseg b hb
    have := (hi.heap.aligned hx).1
    omega
  · obtain ⟨x, -, -, -, hxs, hlen⟩ := hseg b hb
    omega
  · obtain ⟨x, hx, -, hxb, -, hlen⟩ := hseg b hb
    have hbounds := hi.heap.bounds hx
    rw [hi.heap.start]
    omega
  -- two segments of the list have no byte in common, so two blocks have not
  · refine (List.pairwise_map.mp hi.nodup).imp_of_mem fun {b c} hb hc hne => ?_
    obtain ⟨x, hx, -, hxb, -, hxl⟩ := hseg b hb
    obtain ⟨y, hy, -, hyb, -, hyl⟩ := hseg c hc
    have hsep := hi.heap.linked.separated hx hy (by omega)
    simp only [Seg.stop, segHdrSize] at hsep
    omega
  · intro a ha b hb
    obtain ⟨y, hy, rfl⟩ := List.mem_map.mp ha
    obtain ⟨x, hx, -, hxb, -, hxl⟩ := hseg b hb
    simp only [segHdrSize]
    by_cases hxy : x.addr = y.addr
    · omega
    · have hsep := hi.heap.linked.separated hx hy hxy
      simp only [Seg.stop, segHdrSize] at hsep
      omega

/-- Every run of `kmalloc` and `kfree` keeps its blocks apart, and no call
    touches the live block of another. -/
theorem heap_run_blocks (frames : Nat → Nat) (h : Heap) (n : Nat) (ops : List HeapOp) (r : HeapRun)
    (hn : 1 ≤ n) (hwrap : HEAP_START + n * 0x1000 < 4294967296)
    (hrun : Run (heapStep frames) (fun s op => HeapCallOk s op ∧ HeapEndOk frames s op)
      (heapRunInit frames h n) ops r) :
    BlocksOk r ∧ ∀ op r', HeapCallOk r op → HeapEndOk frames r op →
      heapStep frames r op = some r' → KeepsBlocks r r' op := by
  obtain ⟨l, hi⟩ := heapRun_inv hn hwrap hrun
  exact ⟨hi.blocksOk, fun op r' hok hend hst => (heapStep_inv hi hok hend hst).2⟩

/-- Header memory and page tables before `heap_init`. -/
def Heap.blank : Heap := ⟨0, 0, 0, fun _ => ⟨0, 0, 0, false⟩, fun _ => Page.zero, 0⟩

/-- Three blocks are allocated and two of them freed. -/
theorem heap_run_blocks_split_merge :
    ∃ r, Run (heapStep fun k => (k + 1) * 0x1000)
        (fun s op => HeapCallOk s op ∧ HeapEndOk (fun k => (k + 1) * 0x1000) s op)
        (heapRunInit (fun k => (k + 1) * 0x1000) Heap.blank 1)
        [.malloc 100, .malloc 5000, .free 0x80000010, .malloc 20] r ∧
      r.live = [(0x80000010, 20), (0x80000090, 5000)] ∧ BlocksOk r := by
  have hexec : ((Run.exec (heapStep fun k => (k + 1) * 0x1000)
      (fun s op => HeapCallOk s op ∧ HeapEndOk (fun k => (k + 1) * 0x1000) s op)
      (heapRunInit (fun k => (k + 1) * 0x1000) Heap.blank 1)
      [.malloc 100, .malloc 5000, .free 0x80000010, .malloc 20]).map (·.live)) =
      some [(0x80000010, 20), (0x80000090, 5000)] := by decide +kernel
  obtain ⟨r, hr, hlive⟩ := Option.map_eq_some_iff.mp hexec
  have hrun := Run.of_exec hr
  exact ⟨r, hrun, hlive, (heap_run_blocks _ _ 1 _ r (by decide) (by decide) hrun).1⟩

/-! ## The segment list -/

/-- The headers `hdrs` are a doubly linked tiling of the heap; addresses are
    compared as the 32-bit pointers they are. -/
structure SegListOk (h : Heap) (hdrs : List Nat) : Prop where
  chain : Chain (fun a => (h.seg a).next) 0 h.heapStart hdrs
  first : h.heapStart ∈ hdrs ∧ (h.seg h.heapStart).last = 0
  next : ∀ a ∈ hdrs, (h.seg a).next = 0 ∨ (h.seg a).next = u32 (a + segHdrSize + (h.seg a).length)
  back : ∀ a ∈ hdrs, (h.seg a).next ≠ 0 → (h.seg (h.seg a).next).last = a
  stop : ∀ a ∈ hdrs, (h.seg a).next = 0 → u32 (a + segHdrSize + (h.seg a).length) = h.heapEnd
  last : h.lastHeader ∈ hdrs ∧ (h.seg h.lastHeader).next = 0 ∧
    ∀ a ∈ hdrs, (h.seg a).next = 0 → a = h.lastHeader
  aligned : ∀ a ∈ hdrs, (h.seg a).length % 16 = 0

/-- The last segment of the list is the one without a successor. -/
theorem HeapInv.eq_last (hi : HeapInv h l) (hs : s ∈ l) :
    (h.seg s.addr).next = 0 ↔ s.addr = h.lastHeader := by
  obtain ⟨l₁, l₂, rfl⟩ := List.append_of_mem hs
  rw [eq_comm (a := s.addr), hi.last_eq_iff, hi.seg_eq]
  cases l₂ with
  | nil => simp [headAddr]
  | cons t l₂ =>
    have := (hi.bounds (s := t) (by simp)).1
    simp only [HEAP_START] at this
    simp only [headAddr, reduceCtorEq, iff_false]
    omega

/-- The segments are a well formed list. -/
theorem HeapInv.segListOk (hi : HeapInv h l) : SegListOk h (l.map Seg.addr) := by
  -- a segment of the list and what lies on both sides of it
  have hmem : ∀ a ∈ l.map Seg.addr, ∃ l₁ s l₂, l = l₁ ++ s :: l₂ ∧ s.addr = a := by
    intro a ha
    obtain ⟨s, hs, rfl⟩ := List.mem_map.mp ha
    obtain ⟨l₁, l₂, rfl⟩ := List.append_of_mem hs
    exact ⟨l₁, s, l₂, rfl, rfl⟩
  have hu32 : ∀ s ∈ l, u32 (s.addr + segHdrSize + s.length) = s.addr + segHdrSize + s.length := by
    intro s hs
    have h1 := (hi.bounds hs).2
    have h2 := hi.bound
    exact u32_of_lt (by simp only [segHdrSize]; omega)
  refine ⟨hi.chain, ?_, ?_, ?_, ?_, ?_, ?_⟩
  -- the first segment is at the start of the heap
  · cases l with
    | nil => exact absurd rfl hi.ne_nil
    | cons x xs =>
      have hx : x.addr = h.heapStart := hi.linked.1
      refine ⟨by simp [hx], ?_⟩
      rw [← hx, HeapInv.seg_eq (l := []) hi]
      rfl
  -- the end of a segment is the start of the next one
  · intro a ha
    obtain ⟨l₁, s, l₂, rfl, rfl⟩ := hmem a ha
    rw [hi.seg_eq]
    cases l₂ with
    | nil => exact .inl rfl
    | cons t l₂ =>
      right
      rw [hu32 s (by simp)]
      exact ((linked_append.mp hi.linked).2).2.2.2.1
  -- `prev` of the next segment leads back
  · intro a ha hne
    obtain ⟨l₁, s, l₂, rfl, rfl⟩ := hmem a ha
    cases l₂ with
    | nil => simp [hi.seg_eq, headAddr] at hne
    | cons t l₂ =>
      have ht := HeapInv.seg_eq (l := l₁ ++ [s]) (s := t) (by simpa using hi)
      simp [hi.seg_eq, headAddr, ht, lastAddr]
  -- the last segment ends at `heap_end`
  · intro a ha hlast
    obtain ⟨l₁, s, l₂, rfl, rfl⟩ := hmem a ha
    rw [hi.eq_last (by simp), eq_comm, hi.last_eq_iff] at hlast
    subst hlast
    rw [hi.seg_eq, hu32 s (by simp)]
    exact ((linked_append.mp hi.linked).2).2.2.2
  -- only the last segment has no next one
  · obtain ⟨l', p, rfl⟩ := hi.exists_last
    have hlast : h.lastHeader = p.addr := hi.last_eq_iff.mpr rfl
    refine ⟨by simp [hlast], ?_, fun a ha hnext => ?_⟩
    · rw [hlast, hi.seg_eq]
      rfl
    · obtain ⟨l₁, s, l₂, he, rfl⟩ := hmem a ha
      exact (hi.eq_last (by rw [he]; simp)).mp hnext
  · intro a ha
    obtain ⟨s, hs, rfl⟩ := List.mem_map.mp ha
    rw [(hi.linked.header hs).1]
    exact (hi.aligned hs).2

/-- In every run in which `heap_end` does not wrap the segment list is a
    doubly linked tiling of the heap. -/
theorem heap_run_seg_list (frames : Nat → Nat) (h : Heap) (n : Nat)
    (ops : List HeapOp) (r : HeapRun)
    (hn : 1 ≤ n) (hwrap : HEAP_START + n * 0x1000 < 4294967296)
    (hrun : Run (heapStep frames) (fun s op => HeapCallOk s op ∧ HeapEndOk frames s op)
      (heapRunInit frames h n) ops r) : r.heap.heapStart = HEAP_START ∧
      ∃ hdrs, SegListOk r.heap hdrs := by
  obtain ⟨l, hi⟩ := heapRun_inv hn hwrap hrun
  exact ⟨hi.heap.start, l.map Seg.addr, hi.heap.segListOk⟩

/-- A second block makes the heap grow. -/
theorem heap_run_seg_list_grown :
    ∃ r, Run (heapStep fun k => (k + 1) * 0x1000)
        (fun s op => HeapCallOk s op ∧ HeapEndOk (fun k => (k + 1) * 0x1000) s op)
        (heapRunInit (fun k => (k + 1) * 0x1000) Heap.blank 1)
        [.malloc 4080, .malloc 4096, .free 0x80000010] r ∧
      r.heap.lastHeader = 0x80002010 ∧ ∃ hdrs, SegListOk r.heap hdrs := by
  have hexec : ((Run.exec (heapStep fun k => (k + 1) * 0x1000)
      (fun s op => HeapCallOk s op ∧ HeapEndOk (fun k => (k + 1) * 0x1000) s op)
      (heapRunInit (fun k => (k + 1) * 0x1000) Heap.blank 1)
      [.malloc 4080, .malloc 4096, .free 0x80000010]).map (·.heap.lastHeader)) =
      some 0x80002010 := by decide +kernel
  obtain ⟨r, hr, hlast⟩ := Option.map_eq_some_iff.mp hexec
  have hrun := Run.of_exec hr
  exact ⟨r, hrun, hlast, (heap_run_seg_list _ _ 1 _ r (by decide) (by decide) hrun).2⟩

/-- A segment that straddles the top of the address space can be split right
    at address 0: the new header is then taken for the end of the list. -/
theorem heap_run_split_at_null :
    ¬ ∀ (frames : Nat → Nat) (h : Heap) (n : Nat) (ops : List HeapOp) (r : HeapRun),
      1 ≤ n → (∀ k, frames k ≠ 0) →
      Run (heapStep frames) HeapCallOk (heapRunInit frames h n) ops r →
      ∃ hdrs, SegListOk r.heap hdrs := by
  intro hall
  have hexec : ((Run.exec (heapStep fun k => (k + 1) * 0x1000) HeapCallOk
      (heapRunInit (fun k => (k + 1) * 0x1000) Heap.blank 0x7FFFF)
      [.malloc 0x7FFFEFF0, .malloc 0x1FF0, .free 0xFFFFF010, .malloc 0xFF0]).map
        (·.heap.lastHeader)) = some 0 := by
    -- the page tables are never looked at, so they stay unevaluated
    rw [heapRunInit, heapInit_eq]
    decide +kernel
  obtain ⟨r, hr, hlast⟩ := Option.map_eq_some_iff.mp hexec
  obtain ⟨hdrs, hok⟩ := hall _ _ _ _ r (by decide) (by intro k; omega) (Run.of_exec hr)
  exact hok.chain.ne_null hok.last.1 hlast

end MishaOS
