import MishaOS.Spec.ArpOwnership
import MishaOS.Spec.TcpQueue

/-!
# Inserting into the resequence list

`tcp_recv_insert` puts a segment into a sorted list of segments without
overlap: bytes that are there twice are cut off on one side, covered segments
are released, and the list covers what it covered before and the segment.  The
code gets two links wrong.  `conn->resequence = packet` forgets all segments in
front of the new one, and `cur->link = packet->link` all behind the first one
that remains.  What it forgets is neither in the list nor released.

## Key results

- `tcpInsertMerge_released`: the segments the last loop releases.
- `tcpRecvInsert_cases`: the two things `tcp_recv_insert` can do.
- `tcp_recv_insert_union_iff`: the list becomes the union exactly if nothing is
  forgotten.
-/

namespace MishaOS

open LinkedList Serial

variable {b b' b₁ : BufPool} {p packet cur head fuel : Nat} {q fs : List Nat} {dataLen : BitVec 32}

/-! ## Releasing buffers -/

/-- `net_free_buf` was called once for each buffer of `fs`: their counts are one
    less, the ones without another reference are on the free list, and all other
    buffers are untouched. -/
structure Released (fs : List Nat) (b b' : BufPool) : Prop where
  other : ∀ p ∉ fs, b'.buf p = b.buf p
  count : ∀ p ∈ fs, (b'.buf p).refCount = (b.buf p).refCount - 1
  free : ∀ l, Chain (fun p => (b.buf p).link) 0 b.netBufList l → (∀ p ∈ fs, p ∉ l) →
    Chain (fun p => (b'.buf p).link) 0 b'.netBufList
      ((fs.filter fun p => (b.buf p).refCount = 1).reverse ++ l)
  requests : b'.requests = b.requests

/-- The references a list of buffers needs. -/
def Counted (b : BufPool) (fs : List Nat) : Prop :=
  ∀ p ∈ fs, p ≠ 0 ∧ 0 < (b.buf p).refCount ∧ (b.buf p).refCount < 4294967296

/-- Nothing has been released. -/
theorem Released.nil (b : BufPool) : Released [] b b :=
  ⟨fun _ _ => rfl, by simp, fun _ hl _ => hl, rfl⟩

/-- `buf->link = n; net_free_buf(buf)` -/
theorem released_freeBuf (n : Nat) (hp : Counted b [p]) :
    Released [p] b (netFreeBuf (b.setBuf p { b.buf p with link := n }) p) := by
  obtain ⟨h0, hpos, hlt⟩ := hp p List.mem_cons_self
  have hother : ∀ r ∉ [p], (netFreeBuf (b.setBuf p { b.buf p with link := n }) p).buf r =
      b.buf r := by
    intro r hr
    have hne : r ≠ p := by simpa using hr
    rw [netFreeBuf_other _ hne, BufPool.setBuf_buf, if_neg hne]
  have hcount : sub32 (b.buf p).refCount 1 = (b.buf p).refCount - 1 := sub32_of_le hpos hlt
  refine ⟨hother, ?_, fun l hl hnot => ?_, netFreeBuf_requests _ p⟩
  · simp only [List.mem_singleton, forall_eq]
    unfold netFreeBuf
    simp only [BufPool.setBuf_buf, if_true, hcount]
    split <;> simp
  · have hpl : p ∉ l := hnot p List.mem_cons_self
    -- The free list itself is untouched; only its head may become `p`.
    have hrest :
      Chain (fun r => ((netFreeBuf (b.setBuf p { b.buf p with link := n }) p).buf r).link) 0
        b.netBufList l := by
      apply hl.congr
      intro r hr
      have hne : r ∉ [p] := by
        simp only [List.mem_singleton]
        exact fun heq => hpl (heq ▸ hr)
      rw [hother r hne]
    by_cases hone : (b.buf p).refCount = 1
    · -- the last reference
      have hlist : (netFreeBuf (b.setBuf p { b.buf p with link := n }) p).netBufList = p := by
        simp [netFreeBuf, hone, sub32]
      have hlink : ((netFreeBuf (b.setBuf p { b.buf p with link := n }) p).buf p).link =
          b.netBufList := by
        simp [netFreeBuf, hone, sub32]
      have hfilter : ([p].filter fun r => (b.buf r).refCount = 1).reverse ++ l = p :: l := by
        simp [hone]
      rw [hfilter]
      generalize netFreeBuf (b.setBuf p { b.buf p with link := n }) p = b' at hlist hlink hrest ⊢
      rw [chain_cons, hlink]
      exact ⟨hlist, h0, hrest⟩
    · have hlist : (netFreeBuf (b.setBuf p { b.buf p with link := n }) p).netBufList =
          b.netBufList := by
        have hne : (b.buf p).refCount - 1 ≠ 0 := by omega
        simp [netFreeBuf, hcount, hne]
      have hfilter : ([p].filter fun r => (b.buf r).refCount = 1).reverse ++ l = l := by simp [hone]
      rw [hfilter, hlist]
      exact hrest

/-- One buffer first, then the others. -/
theorem Released.cons (hp : Released [p] b b₁) (h : Released fs b₁ b') (hnot : p ∉ fs) :
    Released (p :: fs) b b' := by
  have hsame : ∀ r ∈ fs, b₁.buf r = b.buf r := by
    intro r hr
    apply hp.other
    simp only [List.mem_singleton]
    exact fun heq => hnot (heq ▸ hr)
  refine ⟨fun r hr => ?_, fun r hr => ?_, fun l hl hdis => ?_, h.requests.trans hp.requests⟩
  · simp only [List.mem_cons, not_or] at hr
    rw [h.other r hr.2, hp.other r (by simpa using hr.1)]
  · obtain rfl | hr := List.mem_cons.mp hr
    · rw [h.other r hnot, hp.count r List.mem_cons_self]
    · rw [h.count r hr, hsame r hr]
  · have hfirst := hp.free l hl fun r hr => hdis r (by simp_all)
    -- Releasing `p` first does not change which of `fs` have one reference.
    have hcount : (fs.filter fun r => (b₁.buf r).refCount = 1) =
        fs.filter fun r => (b.buf r).refCount = 1 := by
      apply List.filter_congr
      intro r hr
      rw [hsame r hr]
    -- None of `fs` is on the free list `p` was put on: it is neither `p` nor in `l`.
    have hall := h.free _ hfirst (by
      intro r hr hmem
      obtain hmem | hmem := List.mem_append.mp hmem
      · have heq : r = p := by simpa using (List.mem_filter.mp (List.mem_reverse.mp hmem)).1
        exact hnot (heq ▸ hr)
      · exact hdis r (List.mem_cons_of_mem p hr) hmem)
    rw [hcount] at hall
    rw [show p :: fs = [p] ++ fs from rfl, List.filter_append, List.reverse_append,
      List.append_assoc]
    exact hall

/-! ## Segments the new one covers -/

/-- The last loop of `tcp_recv_insert` goes past `p`: it ends at or before `e`. -/
def PassedOver (b : BufPool) (e : BitVec 32) (p : Nat) : Prop :=
  0 ≤ seqDiff e (b.buf p).seq ∧ 0 ≤ seqDiff e ((b.buf p).seq + (b.buf p).len32)

/-- The new segment is cut off where the segment `cur` starts. -/
def cutAt (b : BufPool) (packet : Nat) (e : BitVec 32) (cur : Nat) : BufPool :=
  if cur ≠ 0 ∧ 0 ≤ seqDiff e (b.buf cur).seq then
    b.setBuf packet ((b.buf packet).trim (e - (b.buf cur).seq).toNat)
  else b

/-- The last loop releases segments as long as it goes past them; the first
    remaining one cuts the new segment. -/
theorem tcpInsertMerge_released (e : BitVec 32) (he : (b.buf packet).seq + dataLen = e)
    (hchain : Chain (fun p => (b.buf p).link) 0 cur q) (hnot : packet ∉ q) (hcount : Counted b q)
    (hfuel : q.length < fuel) :
    ∃ dropped rest b₁, q = dropped ++ rest ∧ Released dropped b b₁ ∧
      tcpInsertMerge packet dataLen fuel b cur =
        some (cutAt b₁ packet e (rest.head?.getD 0), rest.head?.getD 0) ∧
      (∀ p ∈ dropped, PassedOver b e p) ∧ ∀ p ∈ rest.head?, ¬ PassedOver b e p := by
  induction q generalizing b cur fuel with
  | nil =>
    obtain ⟨fuel, rfl⟩ : ∃ n, fuel = n + 1 := ⟨fuel - 1, by simp at hfuel; omega⟩
    obtain rfl : cur = 0 := hchain
    exact ⟨[], [], b, rfl, .nil b, by simp [tcpInsertMerge, cutAt], by simp, by simp⟩
  | cons p q ih =>
    obtain ⟨fuel, rfl⟩ : ∃ n, fuel = n + 1 := ⟨fuel - 1, by simp at hfuel; omega⟩
    have hnodup := (List.nodup_cons.mp hchain.nodup).1
    obtain ⟨rfl, h0, hrest⟩ := hchain
    simp only [tcpInsertMerge, if_neg h0, he]
    by_cases hgap : seqDiff e (b.buf cur).seq < 0
    · -- a gap remains in front of `cur`
      rw [if_pos hgap]
      refine ⟨[], cur :: q, b, rfl, .nil b, ?_, by simp, ?_⟩
      · have hnocut : ¬ (cur ≠ 0 ∧ 0 ≤ seqDiff e (b.buf cur).seq) := fun h => absurd h.2 (by omega)
        rw [List.head?_cons, Option.getD_some, cutAt, if_neg hnocut]
      · simp only [List.head?_cons, Option.mem_def, Option.some.injEq, forall_eq']
        exact fun hpass => absurd hpass.1 (by omega)
    rw [if_neg hgap]
    by_cases hinside : seqDiff e ((b.buf cur).seq + (b.buf cur).len32) < 0
    · -- the new segment ends inside `cur`
      rw [if_pos hinside]
      refine ⟨[], cur :: q, b, rfl, .nil b, ?_, by simp, ?_⟩
      · rw [List.head?_cons, Option.getD_some, cutAt, if_pos ⟨h0, Int.not_lt.mp hgap⟩]
      · simp only [List.head?_cons, Option.mem_def, Option.some.injEq, forall_eq']
        exact fun hpass => absurd hpass.2 (by omega)
    · -- the new segment covers `cur`
      rw [if_neg hinside]
      -- `cur` is released, and the loop goes on in the pool without it.
      have hone : Counted b [cur] := fun r hr =>
        hcount r (by simp only [List.mem_singleton] at hr; simp [hr])
      have hfree := released_freeBuf 0 hone
      generalize netFreeBuf (b.setBuf cur { b.buf cur with link := 0 }) cur = b₀ at hfree ⊢
      have hsame : ∀ r, r ≠ cur → b₀.buf r = b.buf r :=
        fun r hr => hfree.other r (by simpa using hr)
      -- The rest of the list and the new segment are as before, so the hypothesis applies.
      have hsameq : ∀ r ∈ q, b₀.buf r = b.buf r := fun r hr => hsame r fun heq => hnodup (heq ▸ hr)
      have hpacket : b₀.buf packet = b.buf packet := hsame packet fun heq => hnot (by simp [heq])
      obtain ⟨dropped, rest, b₁, rfl, hreleased, hmerge, hpass, hstop⟩ :=
        ih (by rw [hpacket]; exact he)
        (hrest.congr fun r hr => by rw [hsameq r hr])
          (fun hmem => hnot (List.mem_cons_of_mem cur hmem))
        (fun r hr => by rw [hsameq r hr]; exact hcount r (List.mem_cons_of_mem cur hr))
        (by simpa using hfuel)
      -- What the loop goes past depends on buffers of `q` only, which did not change.
      have hpassed : ∀ r ∈ dropped ++ rest, PassedOver b₀ e r ↔ PassedOver b e r := by
        intro r hr
        simp only [PassedOver, hsameq r hr]
      refine ⟨cur :: dropped, rest, b₁, rfl, hfree.cons hreleased ?_, hmerge, ?_, ?_⟩
      · exact fun hmem => hnodup (List.mem_append_left rest hmem)
      · intro r hr
        obtain rfl | hr := List.mem_cons.mp hr
        · exact ⟨Int.not_lt.mp hgap, Int.not_lt.mp hinside⟩
        · exact (hpassed r (List.mem_append_left rest hr)).mp (hpass r hr)
      · intro r hr hover
        have hmem : r ∈ dropped ++ rest := List.mem_append_right dropped (List.mem_of_mem_head? hr)
        exact hstop r hr ((hpassed r hmem).mpr hover)

/-! ## Positions in the window -/

/-- How far behind `nxt` a segment starts. -/
def segOff (nxt : BitVec 32) (x : NetBuf) : Nat := (x.seq - nxt).toNat

def segEnd (nxt : BitVec 32) (x : NetBuf) : Nat := segOff nxt x + x.data.length

/-- The segment lies in the `wnd` numbers from `nxt` on. -/
structure InReceiveWindow (nxt : BitVec 32) (wnd : Nat) (x : NetBuf) : Prop where
  deficit : x.deficit = 0
  le : segEnd nxt x ≤ wnd

variable {nxt : BitVec 32} {wnd : Nat} {x y : NetBuf}

/-- The sequence number as an offset from `rcv.nxt`. -/
theorem seq_eq_num (nxt : BitVec 32) (x : NetBuf) : x.seq = num nxt (segOff nxt x) :=
  (num_toNat_sub nxt x.seq).symm

/-- So is the end of the segment. -/
theorem InReceiveWindow.end_eq (h : InReceiveWindow nxt wnd x) :
    x.seq + x.len32 = num nxt (segEnd nxt x) := by
  have hlen : x.len32 = BitVec.ofNat 32 x.data.length := by simp [NetBuf.len32, h.deficit]
  rw [hlen, segEnd, ← num_add, ← seq_eq_num]

/-- A segment does not end before it begins. -/
theorem segOff_le_segEnd (nxt : BitVec 32) (x : NetBuf) : segOff nxt x ≤ segEnd nxt x :=
  Nat.le_add_right _ _

/-- In the window `SEQ_CMP` compares the positions. -/
theorem seqDiff_seq (hwnd : wnd < 2147483648) (hx : InReceiveWindow nxt wnd x)
    (hy : InReceiveWindow nxt wnd y) : seqDiff x.seq y.seq =
    (segOff nxt x : Int) - segOff nxt y := by
  have hxe := segOff_le_segEnd nxt x
  have hye := segOff_le_segEnd nxt y
  have := hx.le
  have := hy.le
  rw [seq_eq_num nxt x, seq_eq_num nxt y]
  exact seqDiff_num nxt (by omega) (by omega)

/-- In the window the comparison of the code compares offsets. -/
theorem seqDiff_end_seq (hwnd : wnd < 2147483648) (hx : InReceiveWindow nxt wnd x)
    (hy : InReceiveWindow nxt wnd y) :
    seqDiff (x.seq + x.len32) y.seq = (segEnd nxt x : Int) - segOff nxt y := by
  have hye := segOff_le_segEnd nxt y
  have := hx.le
  have := hy.le
  rw [hx.end_eq, seq_eq_num nxt y]
  exact seqDiff_num nxt (by omega) (by omega)

/-- The same for two ends. -/
theorem seqDiff_end_end (hwnd : wnd < 2147483648) (hx : InReceiveWindow nxt wnd x)
    (hy : InReceiveWindow nxt wnd y) :
    seqDiff (x.seq + x.len32) (y.seq + y.len32) = (segEnd nxt x : Int) - segEnd nxt y := by
  have := hx.le
  have := hy.le
  rw [hx.end_eq, hy.end_eq]
  exact seqDiff_num nxt (by omega) (by omega)

/-- Whether the last loop goes past a segment that starts behind the new one. -/
theorem passedOver_iff (hwnd : wnd < 2147483648) (hx : InReceiveWindow nxt wnd x)
    (hy : InReceiveWindow nxt wnd (b.buf p)) :
    PassedOver b (x.seq + x.len32) p ↔ segEnd nxt (b.buf p) ≤ segEnd nxt x := by
  have hle := segOff_le_segEnd nxt (b.buf p)
  rw [PassedOver, seqDiff_end_seq hwnd hx hy, seqDiff_end_end hwnd hx hy]
  omega

/-- `conn->resequence` starts at `head` and holds `q`: segments sorted by
    sequence number, without overlap, in the window. -/
structure Resequence (nxt : BitVec 32) (wnd : Nat) (b : BufPool) (head : Nat)
    (q : List Nat) : Prop where
  chain : Chain (fun p => (b.buf p).link) 0 head q
  window : ∀ p ∈ q, InReceiveWindow nxt wnd (b.buf p)
  sorted : q.Pairwise fun p r => segEnd nxt (b.buf p) ≤ segOff nxt (b.buf r)

/-! ## What is in the list -/

/-- A buffer of `q` holds the byte `v` with the sequence number `n`. -/
def Holds (b : BufPool) (q : List Nat) (n : BitVec 32) (v : Byte) : Prop :=
  ∃ p ∈ q, ∃ i, (b.buf p).data[i]? = some v ∧ n = (b.buf p).seq + BitVec.ofNat 32 i

/-- A byte of a segment by its position. -/
theorem data_at_iff (hwnd : wnd < 2147483648) (hx : InReceiveWindow nxt wnd x)
    (n : BitVec 32) (v : Byte) :
    (∃ i, x.data[i]? = some v ∧ n = x.seq + BitVec.ofNat 32 i) ↔
      segOff nxt x ≤ (n - nxt).toNat ∧ x.data[(n - nxt).toNat - segOff nxt x]? = some v := by
  constructor
  · intro ⟨i, hi, hn⟩
    have hlt : i < x.data.length := (List.getElem?_eq_some_iff.mp hi).1
    have hle : segOff nxt x + i < segEnd nxt x := Nat.add_lt_add_left hlt _
    have := hx.le
    -- No wraparound: both numbers lie in a window below 2^31.
    have hpos : (n - nxt).toNat = segOff nxt x + i := by
      rw [hn, seq_eq_num nxt x, num_add]
      exact num_sub_base_toNat nxt (by omega)
    rw [hpos]
    exact ⟨Nat.le_add_right _ _, by rw [Nat.add_sub_cancel_left]; exact hi⟩
  · intro ⟨hle, hv⟩
    refine ⟨_, hv, ?_⟩
    rw [seq_eq_num nxt x, num_add, Nat.add_sub_cancel' hle, num_toNat_sub]

/-- The numbers a segment covers. -/
theorem covers_iff (hwnd : wnd < 2147483648) (hx : InReceiveWindow nxt wnd x) (n : BitVec 32) :
    (∃ v i, x.data[i]? = some v ∧ n = x.seq + BitVec.ofNat 32 i) ↔
      segOff nxt x ≤ (n - nxt).toNat ∧ (n - nxt).toNat < segEnd nxt x := by
  simp only [data_at_iff hwnd hx, segEnd]
  constructor
  · intro ⟨v, hle, hv⟩
    have hlt := (List.getElem?_eq_some_iff.mp hv).1
    omega
  · intro ⟨hle, hlt⟩
    exact ⟨_, hle, List.getElem?_eq_getElem (by omega)⟩

/-! ## The two outcomes -/

/-- Where the first loop stops. -/
theorem tcpInsertPos_resequence (hwnd : wnd < 2147483648) (hq : Resequence nxt wnd b head q)
    (hx : InReceiveWindow nxt wnd (b.buf packet)) (hfuel : q.length < fuel) :
    ∃ before after, q = before ++ after ∧
      tcpInsertPos b (b.buf packet).seq fuel 0 head =
        some (before.getLast?.getD 0, after.head?.getD 0) ∧
      (∀ p ∈ before, segOff nxt (b.buf p) < segOff nxt (b.buf packet)) ∧
      ∀ p ∈ after, segOff nxt (b.buf packet) ≤ segOff nxt (b.buf p) := by
  obtain ⟨before, after, rfl, hpos, hbefore, hafter⟩ :=
    tcpInsertPos_split (b.buf packet).seq 0 hq.chain hfuel
  refine ⟨before, after, rfl, hpos, fun p hp => ?_, ?_⟩
  · have hlt := hbefore p hp
    rw [seqDiff_seq hwnd hx (hq.window p (List.mem_append_left after hp))] at hlt
    omega
  · cases after with
    | nil => simp
    | cons r after =>
      have hle := hafter r rfl
      rw [seqDiff_seq hwnd hx (hq.window r (by simp))] at hle
      -- The loop looked at the first of them only; the others start behind its end.
      have hsorted := List.pairwise_cons.mp (List.pairwise_append.mp hq.sorted).2.1
      intro p hp
      obtain rfl | hp := List.mem_cons.mp hp
      · omega
      · have hlater := hsorted.1 p hp
        have hends := segOff_le_segEnd nxt (b.buf r)
        omega

/-- What `tcp_recv_insert` leaves when it links the new segment: those of
    `dropped` are released, those of `rest` are cut off behind the first. -/
structure Spliced (nxt : BitVec 32) (b : BufPool) (packet : Nat) (before dropped rest : List Nat)
    (b' : BufPool) : Prop where
  front : ∀ p ∈ before, segOff nxt (b.buf p) < segOff nxt (b.buf packet)
  passed : ∀ p ∈ dropped, segOff nxt (b.buf packet) ≤ segOff nxt (b.buf p) ∧
    segEnd nxt (b.buf p) ≤ segEnd nxt (b.buf packet)
  behind : ∀ p ∈ rest, segOff nxt (b.buf packet) ≤ segOff nxt (b.buf p) ∧
    segEnd nxt (b.buf packet) < segEnd nxt (b.buf p)
  result : ∃ b₁, Released dropped (tcpInsertTrim b (before.getLast?.getD 0) (b.buf packet).seq) b₁ ∧
    b' = tcpInsertLink (cutAt b₁ packet ((b.buf packet).seq + (b.buf packet).len32)
      (rest.head?.getD 0))
      packet (rest.head?.getD 0)

/-- The end of the segment in front may be cut, nothing else changes. -/
theorem tcpInsertTrim_buf (b : BufPool) (prev : Nat) (seq : BitVec 32) (p : Nat) :
    ∃ n, (tcpInsertTrim b prev seq).buf p = (b.buf p).trim n := by
  have hzero : b.buf p = (b.buf p).trim 0 := by simp [NetBuf.trim]
  unfold tcpInsertTrim
  extract_lets prevEnd
  split
  · by_cases hp : p = prev
    · exact ⟨_, by rw [BufPool.setBuf_buf, if_pos hp, hp]⟩
    · exact ⟨0, by rw [BufPool.setBuf_buf, if_neg hp, ← hzero]⟩
  · exact ⟨0, hzero⟩

/-- Only the segment in front is cut. -/
theorem tcpInsertTrim_other {prev : Nat} (seq : BitVec 32) (h : prev = 0 ∨ p ≠ prev) :
    (tcpInsertTrim b prev seq).buf p = b.buf p := by
  unfold tcpInsertTrim
  extract_lets prevEnd
  split
  · rename_i hcut
    rw [BufPool.setBuf_buf, if_neg (h.resolve_left hcut.1)]
  · rfl

/-- Cutting takes nothing from the free list. -/
theorem tcpInsertTrim_netBufList (b : BufPool) (prev : Nat) (seq : BitVec 32) :
    (tcpInsertTrim b prev seq).netBufList = b.netBufList := by
  unfold tcpInsertTrim
  extract_lets prevEnd
  split <;> rfl

/-- The last segment in front is null or one of them. -/
theorem getLast_getD (l : List Nat) : l.getLast?.getD 0 = 0 ∨ l.getLast?.getD 0 ∈ l := by
  cases h : l.getLast? with
  | none => exact .inl rfl
  | some p => exact .inr (List.mem_of_getLast? h)

/-- In a sorted list only the last segment in front can cover the new one. -/
theorem segEnd_front {before : List Nat} (hwnd : wnd < 2147483648)
    (hsorted : before.Pairwise fun p r => segEnd nxt (b.buf p) ≤ segOff nxt (b.buf r))
    (hwin : ∀ p ∈ before, InReceiveWindow nxt wnd (b.buf p))
    (hx : InReceiveWindow nxt wnd (b.buf packet))
    (hfront : ∀ p ∈ before, segOff nxt (b.buf p) < segOff nxt (b.buf packet))
    (hcount : Counted b before)
    (hcovered : ¬ (before.getLast?.getD 0 ≠ 0 ∧
      0 ≤ seqDiff ((b.buf (before.getLast?.getD 0)).seq + (b.buf (before.getLast?.getD 0)).len32)
        ((b.buf packet).seq + (b.buf packet).len32))) :
    ∀ p ∈ before, segEnd nxt (b.buf p) < segEnd nxt (b.buf packet) := by
  have hends := segOff_le_segEnd nxt (b.buf packet)
  -- The code compares with the last segment in front; all others end before that one starts.
  induction before using List.reverseRecOn with
  | nil => simp
  | append_singleton front last _ =>
    rw [List.getLast?_concat, Option.getD_some] at hcovered
    have hlast : segEnd nxt (b.buf last) < segEnd nxt (b.buf packet) := by
      have hcmp := seqDiff_end_end hwnd (hwin last (by simp)) hx
      have h0 := (hcount last (by simp)).1
      have hlt : ¬ 0 ≤ seqDiff ((b.buf last).seq + (b.buf last).len32)
          ((b.buf packet).seq + (b.buf packet).len32) := fun hge => hcovered ⟨h0, hge⟩
      omega
    intro p hp
    obtain hp | hp := List.mem_append.mp hp
    -- `p` ends before `last` starts, which is before the new segment.
    · have hle := (List.pairwise_append.mp hsorted).2.2 p hp last (by simp)
      have hlt := hfront last (by simp)
      omega
    · obtain rfl : p = last := by simpa using hp
      exact hlast

/-- Either a segment in front covers the new one, which is released, or the new
    segment becomes the head of the list. -/
theorem tcpRecvInsert_cases (hwnd : wnd < 2147483648) (hq : Resequence nxt wnd b head q)
    (hx : InReceiveWindow nxt wnd (b.buf packet)) (hnot : packet ∉ q) (hcount : Counted b q)
    (hfin : hasFlag ((b.buf packet).flags.setWidth 8) TCP_FIN = false)
    (hfuel : q.length < walkFuel) :
    ((∃ p ∈ q, segOff nxt (b.buf p) < segOff nxt (b.buf packet) ∧
        segEnd nxt (b.buf packet) ≤ segEnd nxt (b.buf p)) ∧
      tcpRecvInsert b head packet = some (netFreeBuf b packet, head)) ∨
    ∃ before dropped rest b', q = before ++ (dropped ++ rest) ∧
      tcpRecvInsert b head packet = some (b', packet) ∧
      Spliced nxt b packet before dropped rest b' ∧
      ∀ p ∈ before, segEnd nxt (b.buf p) < segEnd nxt (b.buf packet) := by
  obtain ⟨before, after, rfl, hpos, hbefore, hafter⟩ := tcpInsertPos_resequence hwnd hq hx hfuel
  unfold tcpRecvInsert
  extract_lets seq len
  rw [hpos, Option.bind_some]
  extract_lets prevEnd
  split
  · -- the segment in front covers the new one
    rename_i hcovered
    left
    cases hlast : before.getLast? with
    | none => simp [hlast] at hcovered
    | some p =>
      have hp : p ∈ before := List.mem_of_getLast? hlast
      have hwin := hq.window p (List.mem_append_left after hp)
      have hge := hcovered.2
      simp only [prevEnd, hlast, Option.getD_some] at hge
      rw [seqDiff_end_end hwnd hwin hx] at hge
      exact ⟨⟨p, List.mem_append_left after hp, hbefore p hp, by omega⟩, rfl⟩
  · rename_i hcovered
    right
    -- The segment is linked: first what the cut of the segment in front leaves alone,
    -- then the last loop on the segments behind.
    have hsplit := List.pairwise_append.mp hq.sorted
    have hends :=
      segEnd_front hwnd hsplit.1 (fun p hp => hq.window p (List.mem_append_left after hp)) hx
      hbefore (fun p hp => hcount p (List.mem_append_left after hp)) hcovered
    have hprev := getLast_getD before
    have hsame : ∀ p ∈ after, (tcpInsertTrim b (before.getLast?.getD 0) seq).buf p = b.buf p := by
      intro p hp
      apply tcpInsertTrim_other
      apply hprev.imp_right
      intro hmem heq
      exact (List.nodup_append.mp hq.chain.nodup).2.2 _ hmem _ hp heq.symm
    have hpacket : (tcpInsertTrim b (before.getLast?.getD 0) seq).buf packet = b.buf packet := by
      apply tcpInsertTrim_other
      apply hprev.imp_right
      intro hmem heq
      exact hnot (heq ▸ List.mem_append_left after hmem)
    -- The cut changes no link, so the last loop runs over the same list.
    have hchain : Chain (fun p => ((tcpInsertTrim b (before.getLast?.getD 0) seq).buf p).link) 0
        (after.head?.getD 0) after := by
      apply hq.chain.suffix.congr
      intro p hp
      rw [hsame p hp]
    generalize hb₀ : tcpInsertTrim b (before.getLast?.getD 0) seq = b₀ at hsame hpacket hchain ⊢
    obtain ⟨dropped, rest, b₁, rfl, hreleased, hmerge, hpass, hstop⟩ :=
      tcpInsertMerge_released (seq + len) (by rw [hpacket]) hchain
        (fun hmem => hnot (List.mem_append_right before hmem))
        (fun p hp => by rw [hsame p hp]; exact hcount p (List.mem_append_right before hp))
        (show after.length < walkFuel by simp at hfuel; omega)
    have hwin : ∀ p ∈ dropped ++ rest, InReceiveWindow nxt wnd (b.buf p) :=
      fun p hp => hq.window p (List.mem_append_right before hp)
    refine ⟨before, dropped, rest, _, rfl, ?_, ⟨hbefore, ?_, ?_, b₁, hb₀ ▸ hreleased, rfl⟩, hends⟩
    -- Without FIN the branch that drops everything behind is not taken.
    · unfold tcpInsertRest
      rw [hpacket, if_neg (by simp [hfin])]
      simp only [Option.bind_some, hmerge, Option.map_some]
      rfl
    · intro p hp
      have hmem : p ∈ dropped ++ rest := List.mem_append_left rest hp
      have hover := hpass p hp
      rw [PassedOver, hsame p hmem] at hover
      exact ⟨hafter p hmem, (passedOver_iff hwnd hx (hwin p hmem)).mp hover⟩
    -- The loop stopped at the first of `rest`; the others end later, the list is sorted.
    · have hstop' : ∀ p ∈ rest.head?, segEnd nxt (b.buf packet) < segEnd nxt (b.buf p) := by
        intro p hp
        have hmem : p ∈ dropped ++ rest := List.mem_append_right dropped (List.mem_of_mem_head? hp)
        have hover := hstop p hp
        rw [PassedOver, hsame p hmem] at hover
        exact Nat.not_le.mp fun hle => hover ((passedOver_iff hwnd hx (hwin p hmem)).mpr hle)
      intro p hp
      refine ⟨hafter p (List.mem_append_right dropped hp), ?_⟩
      cases rest with
      | nil => simp at hp
      | cons r rest =>
        have hhead := hstop' r rfl
        obtain rfl | hp := List.mem_cons.mp hp
        · exact hhead
        · have hsorted := (List.pairwise_append.mp hsplit.2.1).2.1
          have hlater := (List.pairwise_cons.mp hsorted).1 p hp
          have hends := segOff_le_segEnd nxt (b.buf p)
          omega

/-! ## What is linked and released -/

/-- It takes no reference. -/
theorem tcpInsertTrim_refCount (b : BufPool) (prev : Nat) (seq : BitVec 32) (p : Nat) :
    ((tcpInsertTrim b prev seq).buf p).refCount = (b.buf p).refCount := by
  obtain ⟨n, hn⟩ := tcpInsertTrim_buf b prev seq p
  rw [hn]
  rfl

/-- It does not touch the links. -/
theorem tcpInsertTrim_link (b : BufPool) (prev : Nat) (seq : BitVec 32) (p : Nat) :
    ((tcpInsertTrim b prev seq).buf p).link = (b.buf p).link := by
  obtain ⟨n, hn⟩ := tcpInsertTrim_buf b prev seq p
  rw [hn]
  rfl

/-- Only the packet is cut. -/
theorem cutAt_other (e : BitVec 32) (cur : Nat) (hp : p ≠ packet) :
    (cutAt b packet e cur).buf p = b.buf p := by
  unfold cutAt
  split
  · rw [BufPool.setBuf_buf, if_neg hp]
  · rfl

/-- Only the bytes of the new segment are cut. -/
theorem cutAt_packet (b : BufPool) (packet : Nat) (e : BitVec 32) (cur : Nat) :
    ∃ n, (cutAt b packet e cur).buf packet = (b.buf packet).trim n := by
  unfold cutAt
  split
  · exact ⟨_, by rw [BufPool.setBuf_buf, if_pos rfl]⟩
  · exact ⟨0, by simp [NetBuf.trim]⟩

/-- Cutting takes nothing from the free list. -/
theorem cutAt_netBufList (b : BufPool) (packet : Nat) (e : BitVec 32) (cur : Nat) :
    (cutAt b packet e cur).netBufList = b.netBufList := by
  unfold cutAt
  split <;> rfl

/-- Linking writes links only. -/
theorem tcpInsertLink_buf (b : BufPool) (packet cur p : Nat) :
    ∃ n, (tcpInsertLink b packet cur).buf p = { b.buf p with link := n } := by
  unfold tcpInsertLink
  by_cases hcur : cur = 0
  · exact ⟨(b.buf p).link, by rw [if_neg (by simpa using hcur)]⟩
  · rw [if_pos hcur]
    by_cases hp : p = packet
    · by_cases hpc : packet = cur
      · exact ⟨cur, by simp [hp, hpc]⟩
      · exact ⟨cur, by simp [hp, hpc]⟩
    · by_cases hpc : p = cur
      · exact ⟨(b.buf packet).link, by simp [← hpc, hp]⟩
      · exact ⟨(b.buf p).link, by simp [hp, hpc]⟩

/-- Only the packet and the segment behind it are linked. -/
theorem tcpInsertLink_other (hp : p ≠ packet) (hpc : cur = 0 ∨ p ≠ cur) :
    (tcpInsertLink b packet cur).buf p = b.buf p := by
  unfold tcpInsertLink
  split
  · rename_i h0
    simp [hp, hpc.resolve_left h0]
  · rfl

/-- Linking takes nothing from the free list. -/
theorem tcpInsertLink_netBufList (b : BufPool) (packet cur : Nat) :
    (tcpInsertLink b packet cur).netBufList = b.netBufList := by
  unfold tcpInsertLink
  split <;> rfl

variable {before dropped rest : List Nat}

/-- The segments kept behind the new one: the first of `rest`. -/
theorem Spliced.chain (h : Spliced nxt b packet before dropped rest b') (h0 : packet ≠ 0)
    (hlink : (b.buf packet).link = 0) (hnot : packet ∉ before ++ (dropped ++ rest))
    (hcount : Counted b rest) :
    Chain (fun p => (b'.buf p).link) 0 packet (packet :: rest.head?.toList) := by
  obtain ⟨b₁, hreleased, rfl⟩ := h.result
  have hdropped : packet ∉ dropped := fun hmem => hnot (by simp [hmem])
  -- The new segment had no link when it arrived, so `cur->link = packet->link` ends the list.
  have hplink : ∀ e cur, ((cutAt b₁ packet e cur).buf packet).link = 0 := by
    intro e cur
    obtain ⟨n, hn⟩ := cutAt_packet b₁ packet e cur
    rw [hn]
    show (b₁.buf packet).link = 0
    rw [hreleased.other packet hdropped, tcpInsertTrim_link, hlink]
  cases rest with
  | nil =>
    simp only [List.head?_nil, Option.getD_none, Option.toList_none, tcpInsertLink, ne_eq,
      not_true_eq_false, if_false]
    exact ⟨rfl, h0, hplink _ _⟩
  | cons r rest =>
    have hr0 : r ≠ 0 := (hcount r List.mem_cons_self).1
    have hne : r ≠ packet := fun heq => hnot (by simp [heq])
    simp only [List.head?_cons, Option.getD_some, Option.toList_some, tcpInsertLink,
      if_pos hr0, hplink]
    refine ⟨rfl, h0, ?_⟩
    simp [hne, hr0]

/-- The count of the released segments is one less, all others are as before. -/
theorem Spliced.refCount (h : Spliced nxt b packet before dropped rest b') (p : Nat) :
    (b'.buf p).refCount = if p ∈ dropped then (b.buf p).refCount - 1 else (b.buf p).refCount := by
  obtain ⟨b₁, hreleased, rfl⟩ := h.result
  obtain ⟨n, hn⟩ := tcpInsertLink_buf (cutAt b₁ packet ((b.buf packet).seq + (b.buf packet).len32)
    (rest.head?.getD 0)) packet (rest.head?.getD 0) p
  -- Cutting and linking leave the counts alone; only releasing counts.
  have hcut : ∀ e cur, ((cutAt b₁ packet e cur).buf p).refCount = (b₁.buf p).refCount := by
    intro e cur
    by_cases hp : p = packet
    · obtain ⟨m, hm⟩ := cutAt_packet b₁ packet e cur
      rw [hp, hm]
      rfl
    · rw [cutAt_other e cur hp]
  rw [hn]
  show ((cutAt b₁ packet _ _).buf p).refCount = _
  rw [hcut]
  split
  · rename_i hmem
    rw [hreleased.count p hmem, tcpInsertTrim_refCount]
  · rename_i hmem
    rw [hreleased.other p hmem, tcpInsertTrim_refCount]

/-- The free list grows by the released segments without another reference. -/
theorem Spliced.free (h : Spliced nxt b packet before dropped rest b') {l : List Nat}
    (hl : Chain (fun p => (b.buf p).link) 0 b.netBufList l)
    (hdis : ∀ p ∈ l, p ∉ packet :: (before ++ (dropped ++ rest)))
    (hnot : packet ∉ before ++ (dropped ++ rest)) (hnodup : (dropped ++ rest).Nodup) :
    Chain (fun p => (b'.buf p).link) 0 b'.netBufList
      ((dropped.filter fun p => (b.buf p).refCount = 1).reverse ++ l) := by
  obtain ⟨b₁, hreleased, rfl⟩ := h.result
  have hl₀ : Chain (fun p =>
    ((tcpInsertTrim b (before.getLast?.getD 0) (b.buf packet).seq).buf p).link) 0
      (tcpInsertTrim b (before.getLast?.getD 0) (b.buf packet).seq).netBufList l := by
    rw [tcpInsertTrim_netBufList]
    apply hl.congr
    intro p _
    rw [tcpInsertTrim_link]
  have hfree := hreleased.free l hl₀ (fun p hp hmem => hdis p hmem (by simp [hp]))
  simp only [tcpInsertTrim_refCount] at hfree
  rw [tcpInsertLink_netBufList, cutAt_netBufList]
  apply hfree.congr
  intro p hp
  -- Linking writes to the new segment and the first of `rest`; neither is on the free list.
  have hmem : p ∈ dropped ∨ p ∈ l := by
    obtain hp | hp := List.mem_append.mp hp
    · exact .inl (List.mem_of_mem_filter (List.mem_reverse.mp hp))
    · exact .inr hp
  have hpacket : p ≠ packet := by
    intro heq
    cases hmem with
    | inl hmem => exact hnot (by simp [← heq, hmem])
    | inr hmem => exact hdis p hmem (by simp [heq])
  have hcur : rest.head?.getD 0 = 0 ∨ p ≠ rest.head?.getD 0 := by
    cases rest with
    | nil => exact .inl rfl
    | cons r rest =>
      right
      intro heq
      cases hmem with
      | inl hmem => exact (List.nodup_append.mp hnodup).2.2 p hmem r List.mem_cons_self heq
      | inr hmem => exact hdis p hmem (by simp [show p = r from heq])
  rw [tcpInsertLink_other hpacket hcur, cutAt_other _ _ hpacket]

/-! ## The list becomes the union -/

/-- The list `q'` in `b'` is the list `q` of `b` and the segment `packet`. -/
structure Inserted (nxt : BitVec 32) (wnd : Nat) (b : BufPool) (q : List Nat)
    (packet : Nat) (b' : BufPool)
    (head' : Nat) (q' : List Nat) : Prop where
  list : Resequence nxt wnd b' head' q'
  covers : ∀ n, (∃ v, Holds b' q' n v) ↔ ∃ v, Holds b (packet :: q) n v
  values : ∀ n v, Holds b' q' n v → Holds b (packet :: q) n v
  /-- Every buffer that is no longer in the list was released once, no other. -/
  released : ∀ p, (b'.buf p).refCount =
    if p ∈ packet :: q ∧ p ∉ q' then (b.buf p).refCount - 1 else (b.buf p).refCount
  /-- Those of them without another reference are on the free list. -/
  free : ∀ l, Chain (fun p => (b.buf p).link) 0 b.netBufList l →
    ∃ fs, Chain (fun p => (b'.buf p).link) 0 b'.netBufList (fs ++ l) ∧
      ∀ p, p ∈ fs ↔ p ∈ packet :: q ∧ p ∉ q' ∧ (b.buf p).refCount = 1

/-- The bytes of a list in the window by their positions. -/
theorem holds_iff (hwnd : wnd < 2147483648) (hq : ∀ p ∈ q, InReceiveWindow nxt wnd (b.buf p))
    (n : BitVec 32)
    (v : Byte) :
    Holds b q n v ↔ ∃ p ∈ q, segOff nxt (b.buf p) ≤ (n - nxt).toNat ∧
      (b.buf p).data[(n - nxt).toNat - segOff nxt (b.buf p)]? = some v := by
  constructor
  · intro ⟨p, hp, hbyte⟩
    exact ⟨p, hp, (data_at_iff hwnd (hq p hp) n v).mp hbyte⟩
  · intro ⟨p, hp, hbyte⟩
    exact ⟨p, hp, (data_at_iff hwnd (hq p hp) n v).mpr hbyte⟩

/-- The numbers such a list covers. -/
theorem exists_holds_iff (hwnd : wnd < 2147483648) (hq : ∀ p ∈ q, InReceiveWindow nxt wnd (b.buf p))
    (n : BitVec 32) :
    (∃ v, Holds b q n v) ↔
      ∃ p ∈ q, segOff nxt (b.buf p) ≤ (n - nxt).toNat ∧ (n - nxt).toNat < segEnd nxt (b.buf p) := by
  constructor
  · intro ⟨v, p, hp, i, hbyte⟩
    exact ⟨p, hp, (covers_iff hwnd (hq p hp) n).mp ⟨v, i, hbyte⟩⟩
  · intro ⟨p, hp, hpos⟩
    obtain ⟨v, i, hbyte⟩ := (covers_iff hwnd (hq p hp) n).mpr hpos
    exact ⟨v, p, hp, i, hbyte⟩

/-- The new segment without segments in front of it: it ends where the next one
    starts, if it got that far. -/
structure CutSegment (nxt : BitVec 32) (b : BufPool) (packet : Nat) (rest : List Nat)
    (x : NetBuf) (k : Nat) :
    Prop where
  seq : x.seq = (b.buf packet).seq
  data : x.data = (b.buf packet).data.take k
  deficit : x.deficit = 0
  le : k ≤ (b.buf packet).data.length
  next : ∀ r ∈ rest.head?, segOff nxt (b.buf packet) + k ≤ segOff nxt (b.buf r)
  cut : k < (b.buf packet).data.length →
    ∃ r ∈ rest.head?, segOff nxt (b.buf r) = segOff nxt (b.buf packet) + k

/-- The packet ends where the segment behind it begins. -/
theorem Spliced.cut (hwnd : wnd < 2147483648) (h : Spliced nxt b packet before dropped rest b')
    (hx : InReceiveWindow nxt wnd (b.buf packet))
    (hwin : ∀ p ∈ rest, InReceiveWindow nxt wnd (b.buf p))
    (hnot : packet ∉ before ++ (dropped ++ rest)) (hnodup : (before ++ (dropped ++ rest)).Nodup)
    (hcount : Counted b rest) :
    (∃ k, CutSegment nxt b packet rest (b'.buf packet) k) ∧
      ∀ r ∈ rest, ∃ n, b'.buf r = { b.buf r with link := n } := by
  obtain ⟨b₁, hreleased, rfl⟩ := h.result
  have hapart := List.nodup_append.mp hnodup
  have hprev := getLast_getD before
  -- Up to the last cut the new segment and those of `rest` are as they arrived.
  have hpacket : b₁.buf packet = b.buf packet := by
    rw [hreleased.other packet fun hmem => hnot (by simp [hmem])]
    exact tcpInsertTrim_other _ (hprev.imp_right fun hmem heq => hnot (by simp [heq ▸ hmem]))
  have hrest : ∀ r ∈ rest, b₁.buf r = b.buf r := by
    intro r hr
    rw [hreleased.other r fun hmem => (List.nodup_append.mp hapart.2.1).2.2 r hmem r hr rfl]
    exact tcpInsertTrim_other _ (hprev.imp_right fun hmem heq =>
      hapart.2.2 _ hmem r (List.mem_append_right dropped hr) heq.symm)
  constructor
  · obtain ⟨n, hn⟩ := tcpInsertLink_buf (cutAt b₁ packet ((b.buf packet).seq + (b.buf packet).len32)
      (rest.head?.getD 0)) packet (rest.head?.getD 0) packet
    rw [hn]
    cases rest with
    | nil =>
      -- Nothing is behind the new segment: it keeps all its bytes.
      refine ⟨(b.buf packet).data.length, ?_⟩
      simp only [List.head?_nil, Option.getD_none, cutAt, ne_eq, not_true_eq_false, false_and,
        if_false, hpacket]
      exact ⟨rfl, List.take_length.symm, hx.deficit, Nat.le_refl _,
        by simp, fun hlt => absurd hlt (Nat.lt_irrefl _)⟩
    | cons r rest =>
      have hr := hwin r List.mem_cons_self
      have hr0 : r ≠ 0 := (hcount r List.mem_cons_self).1
      have hle := (h.behind r List.mem_cons_self).1
      have hcmp := seqDiff_end_seq hwnd hx hr
      simp only [List.head?_cons, Option.getD_some, cutAt,
        hrest r List.mem_cons_self, hcmp, hpacket]
      by_cases hover : segOff nxt (b.buf r) ≤ segEnd nxt (b.buf packet)
      · -- cut where `r` starts
        have hdiff : ((b.buf packet).seq + (b.buf packet).len32 - (b.buf r).seq).toNat =
            segEnd nxt (b.buf packet) - segOff nxt (b.buf r) := by
          have := hx.le
          rw [hx.end_eq, seq_eq_num nxt (b.buf r)]
          exact num_sub_toNat nxt hover (by omega)
        have hend : segEnd nxt (b.buf packet) =
            segOff nxt (b.buf packet) + (b.buf packet).data.length := rfl
        rw [if_pos ⟨hr0, by omega⟩, hdiff]
        refine ⟨segOff nxt (b.buf r) - segOff nxt (b.buf packet), ?_⟩
        rw [BufPool.setBuf_buf, if_pos rfl]
        refine ⟨rfl, ?_, ?_, by omega, ?_, fun _ => ⟨r, rfl, by omega⟩⟩
        · show (b.buf packet).data.take _ = _
          congr 1
          omega
        · show (b.buf packet).deficit + _ = 0
          rw [hx.deficit]
          omega
        · simp only [Option.mem_def, List.head?_cons, Option.some.injEq, forall_eq']
          omega
      -- It ends before `r` starts and keeps all its bytes.
      · rw [if_neg (by omega)]
        refine ⟨(b.buf packet).data.length, ?_⟩
        rw [hpacket]
        refine ⟨rfl, List.take_length.symm, hx.deficit, Nat.le_refl _, ?_,
          fun hlt => absurd hlt (Nat.lt_irrefl _)⟩
        simp only [Option.mem_def, List.head?_cons, Option.some.injEq, forall_eq']
        exact Nat.le_of_lt (Nat.not_le.mp hover)
  · intro r hr
    have hne : r ≠ packet := fun heq => hnot (by simp [← heq, hr])
    obtain ⟨n, hn⟩ := tcpInsertLink_buf (cutAt b₁ packet ((b.buf packet).seq + (b.buf packet).len32)
      (rest.head?.getD 0)) packet (rest.head?.getD 0) r
    exact ⟨n, by rw [hn, cutAt_other _ _ hne, hrest r hr]⟩

/-- The beginning stays. -/
theorem CutSegment.segOff_eq {k : Nat} (h : CutSegment nxt b packet rest x k) :
    segOff nxt x = segOff nxt (b.buf packet) := by
  rw [segOff, h.seq, segOff]

/-- The end is what is left. -/
theorem CutSegment.segEnd_eq {k : Nat} (h : CutSegment nxt b packet rest x k) :
    segEnd nxt x = segOff nxt (b.buf packet) + k := by
  rw [segEnd, h.segOff_eq, h.data, List.length_take, Nat.min_eq_left h.le]

/-- What is left is in the window. -/
theorem CutSegment.inReceiveWindow {k : Nat} (h : CutSegment nxt b packet rest x k)
    (hx : InReceiveWindow nxt wnd (b.buf packet)) : InReceiveWindow nxt wnd x := by
  refine ⟨h.deficit, ?_⟩
  rw [h.segEnd_eq]
  exact Nat.le_trans (Nat.add_le_add_left h.le _) hx.le

/-- The new segment and what is kept behind it are in order. -/
theorem Spliced.resequence (hwnd : wnd < 2147483648)
    (hq : Resequence nxt wnd b head (before ++ (dropped ++ rest)))
    (hx : InReceiveWindow nxt wnd (b.buf packet)) (hnot : packet ∉ before ++ (dropped ++ rest))
    (h0 : packet ≠ 0)
    (hlink : (b.buf packet).link = 0) (hcount : Counted b rest)
    (h : Spliced nxt b packet before dropped rest b') :
    Resequence nxt wnd b' packet (packet :: rest.head?.toList) := by
  have hwin : ∀ p ∈ rest, InReceiveWindow nxt wnd (b.buf p) :=
    fun p hp => hq.window p (by simp [hp])
  obtain ⟨⟨k, hcut⟩, hbehind⟩ := h.cut hwnd hx hwin hnot hq.chain.nodup hcount
  refine ⟨h.chain h0 hlink hnot hcount, fun p hp => ?_, ?_⟩
  -- the new segment has been cut, the one behind it is an old one
  · obtain rfl | hp := List.mem_cons.mp hp
    · exact hcut.inReceiveWindow hx
    · have hmem : p ∈ rest := List.mem_of_mem_head? (Option.mem_toList.mp hp)
      obtain ⟨n, hn⟩ := hbehind p hmem
      rw [hn]
      exact ⟨(hwin p hmem).deficit, (hwin p hmem).le⟩
  · cases rest with
    | nil => exact List.pairwise_singleton _ _
    -- what is kept starts where the new segment ends, or later
    | cons r rest =>
      have hnext := hcut.next r rfl
      obtain ⟨n, hn⟩ := hbehind r List.mem_cons_self
      simp only [List.head?_cons, Option.toList_some, List.pairwise_cons,
        List.mem_singleton, forall_eq,
        List.not_mem_nil, false_imp_iff, implies_true, List.Pairwise.nil, and_true]
      rw [hcut.segEnd_eq, hn]
      exact hnext

/-- What the new segment lost, the next one has; what was released, the new one has. -/
theorem Spliced.covers_iff {k : Nat} (h : Spliced nxt b packet before dropped rest b₁)
    (hcut : CutSegment nxt b packet rest (b'.buf packet) k)
    (hsame : ∀ r ∈ rest, segOff nxt (b'.buf r) = segOff nxt (b.buf r) ∧
      segEnd nxt (b'.buf r) = segEnd nxt (b.buf r) ∧ (b'.buf r).data = (b.buf r).data) (o : Nat) :
    (∃ p ∈ packet :: rest, segOff nxt (b'.buf p) ≤ o ∧ o < segEnd nxt (b'.buf p)) ↔
      ∃ p ∈ packet :: (dropped ++ rest), segOff nxt (b.buf p) ≤ o ∧ o < segEnd nxt (b.buf p) := by
  have hend : segEnd nxt (b.buf packet) = segOff nxt (b.buf packet) + (b.buf packet).data.length :=
    rfl
  have hle := hcut.le
  have hkept : ∀ r ∈ rest, segOff nxt (b.buf r) ≤ o → o < segEnd nxt (b.buf r) →
      ∃ p ∈ packet :: rest, segOff nxt (b'.buf p) ≤ o ∧ o < segEnd nxt (b'.buf p) := by
    intro r hr hoff hlt
    obtain ⟨hoff', hend', -⟩ := hsame r hr
    exact ⟨r, List.mem_cons_of_mem packet hr, by rw [hoff']; exact hoff, by rw [hend']; exact hlt⟩
  -- A number of the new segment is still in it, or it was cut off where `r` starts
  -- and `r` has it, because `r` ends behind the new segment.
  have hnew : segOff nxt (b.buf packet) ≤ o → o < segEnd nxt (b.buf packet) →
      ∃ p ∈ packet :: rest, segOff nxt (b'.buf p) ≤ o ∧ o < segEnd nxt (b'.buf p) := by
    intro hoff hlt
    by_cases hk : o < segOff nxt (b.buf packet) + k
    · exact ⟨packet, List.mem_cons_self,
        by rw [hcut.segOff_eq]; exact hoff, by rw [hcut.segEnd_eq]; exact hk⟩
    · obtain ⟨r, hr, hstart⟩ := hcut.cut (by omega)
      have hmem := List.mem_of_mem_head? hr
      have hbehind := (h.behind r hmem).2
      exact hkept r hmem (by omega) (by omega)
  constructor
  · intro ⟨p, hp, hoff, hlt⟩
    obtain rfl | hp := List.mem_cons.mp hp
    · rw [hcut.segOff_eq] at hoff
      rw [hcut.segEnd_eq] at hlt
      exact ⟨p, List.mem_cons_self, hoff, by omega⟩
    · obtain ⟨hoff', hend', -⟩ := hsame p hp
      exact ⟨p, by simp [hp], hoff' ▸ hoff, hend' ▸ hlt⟩
  · intro ⟨p, hp, hoff, hlt⟩
    obtain rfl | hp := List.mem_cons.mp hp
    · exact hnew hoff hlt
    obtain hp | hp := List.mem_append.mp hp
    · -- a released segment lies inside the new one
      have hpass := h.passed p hp
      exact hnew (by omega) (by omega)
    · exact hkept p hp hoff hlt

variable {frames : Nat → Nat}

/-- The buffers of the list are counted. -/
theorem RefInv.countedBufs {refs : List Nat} (h : RefInv frames b refs) : Counted b refs := by
  intro p hp
  obtain ⟨hle, hlt⟩ := h.counted p hp
  exact ⟨h.ne_zero hp, Nat.lt_of_lt_of_le (List.count_pos_iff.mpr hp) hle, hlt⟩

/-- Without segments in front, and at most one behind, nothing is lost. -/
theorem Spliced.inserted (hwnd : wnd < 2147483648)
    (hq : Resequence nxt wnd b head (dropped ++ rest))
    (hx : InReceiveWindow nxt wnd (b.buf packet)) (hnot : packet ∉ dropped ++ rest)
    (hlink : (b.buf packet).link = 0) (href : RefInv frames b (packet :: (dropped ++ rest)))
    (h : Spliced nxt b packet [] dropped rest b') (hone : rest.length ≤ 1) :
    Inserted nxt wnd b (dropped ++ rest) packet b' packet (packet :: rest) := by
  have hcount := href.countedBufs
  have hcountr : Counted b rest := fun p hp => hcount p (by simp [hp])
  have hnodup : (dropped ++ rest).Nodup := hq.chain.nodup
  have hwin : ∀ p ∈ rest, InReceiveWindow nxt wnd (b.buf p) :=
    fun p hp => hq.window p (by simp [hp])
  have hall : ∀ p ∈ packet :: (dropped ++ rest), InReceiveWindow nxt wnd (b.buf p) := by
    intro p hp
    obtain rfl | hp := List.mem_cons.mp hp
    · exact hx
    · exact hq.window p hp
  -- With at most one segment behind, cutting the list off behind the first loses none.
  have hlist : rest.head?.toList = rest := by
    match rest, hone with
    | [], _ => rfl
    | [r], _ => rfl
  have hnew := h.resequence hwnd hq hx hnot (hcount packet List.mem_cons_self).1 hlink hcountr
  rw [hlist] at hnew
  obtain ⟨⟨k, hcut⟩, hbehind⟩ := h.cut hwnd hx hwin hnot hnodup hcountr
  have hsame : ∀ r ∈ rest, segOff nxt (b'.buf r) = segOff nxt (b.buf r) ∧
      segEnd nxt (b'.buf r) = segEnd nxt (b.buf r) ∧ (b'.buf r).data = (b.buf r).data := by
    intro r hr
    obtain ⟨n, hn⟩ := hbehind r hr
    rw [hn]
    exact ⟨rfl, rfl, rfl⟩
  -- What is no longer in the list is what the last loop released.
  have hgone : ∀ p, p ∈ packet :: (dropped ++ rest) ∧ p ∉ packet :: rest ↔ p ∈ dropped := by
    intro p
    constructor
    · intro ⟨hmem, hno⟩
      simp only [List.mem_cons, List.mem_append, not_or] at hmem hno
      exact (hmem.resolve_left hno.1).resolve_right hno.2
    · intro hmem
      refine ⟨by simp [hmem], ?_⟩
      simp only [List.mem_cons, not_or]
      exact ⟨fun heq => hnot (by simp [← heq, hmem]),
        fun hr => (List.nodup_append.mp hnodup).2.2 p hmem p hr rfl⟩
  refine ⟨hnew, fun n => ?_, fun n v => ?_, fun p => ?_, fun l hl => ?_⟩
  · -- the numbers covered
    rw [exists_holds_iff hwnd hnew.window, exists_holds_iff hwnd hall]
    exact h.covers_iff hcut hsame _
  · -- the values
    rw [holds_iff hwnd hnew.window, holds_iff hwnd hall]
    intro ⟨p, hp, hle, hv⟩
    obtain rfl | hp := List.mem_cons.mp hp
    · rw [hcut.segOff_eq] at hle hv
      rw [hcut.data, List.getElem?_take] at hv
      split at hv
      · exact ⟨p, List.mem_cons_self, hle, hv⟩
      · cases hv
    · obtain ⟨hoff, -, hdata⟩ := hsame p hp
      rw [hoff] at hle hv
      exact ⟨p, by simp [hp], hle, hdata ▸ hv⟩
  · rw [h.refCount p]
    simp only [hgone p]
  · obtain ⟨l₀, hl₀, hdis, -⟩ := href.pool.free
    obtain rfl := hl₀.unique hl
    refine ⟨_, h.free hl (fun p hp hmem => hdis p hp hmem) hnot hnodup, fun p => ?_⟩
    rw [List.mem_reverse, List.mem_filter, decide_eq_true_iff, ← and_assoc, hgone p]

/-- A segment in front has all the numbers of the new one. -/
def CoveredInFront (nxt : BitVec 32) (b : BufPool) (q : List Nat) (packet : Nat) : Prop :=
  ∃ p ∈ q, segOff nxt (b.buf p) < segOff nxt (b.buf packet) ∧
    segEnd nxt (b.buf packet) ≤ segEnd nxt (b.buf p)

/-- The new segment is released and the list stays as it is. -/
theorem CoveredInFront.inserted (hwnd : wnd < 2147483648) (hq : Resequence nxt wnd b head q)
    (hx : InReceiveWindow nxt wnd (b.buf packet)) (hnot : packet ∉ q)
    (href : RefInv frames b (packet :: q))
    (h : CoveredInFront nxt b q packet) :
    Inserted nxt wnd b q packet (netFreeBuf b packet) head q := by
  have hcount := href.countedBufs
  -- The only buffer that is released is the new segment itself.
  have hself : b.setBuf packet { b.buf packet with link := (b.buf packet).link } = b := by
    simp [BufPool.setBuf]
  have hreleased := released_freeBuf (b.buf packet).link
    (show Counted b [packet] from fun p hp => hcount p (by simp_all))
  rw [hself] at hreleased
  have hsame : ∀ p ∈ q, (netFreeBuf b packet).buf p = b.buf p := by
    intro p hp
    apply hreleased.other
    simp only [List.mem_singleton]
    exact fun heq => hnot (heq ▸ hp)
  have hall : ∀ p ∈ packet :: q, InReceiveWindow nxt wnd (b.buf p) := by
    intro p hp
    obtain rfl | hp := List.mem_cons.mp hp
    · exact hx
    · exact hq.window p hp
  have hkept : ∀ n v, Holds (netFreeBuf b packet) q n v ↔ Holds b q n v := by
    intro n v
    constructor
    · rintro ⟨p, hp, hbyte⟩
      exact ⟨p, hp, hsame p hp ▸ hbyte⟩
    · rintro ⟨p, hp, hbyte⟩
      exact ⟨p, hp, (hsame p hp).symm ▸ hbyte⟩
  have hgone : ∀ p, p ∈ packet :: q ∧ p ∉ q ↔ p = packet := by
    intro p
    constructor
    · rintro ⟨hmem, hno⟩
      exact (List.mem_cons.mp hmem).resolve_right hno
    · intro heq
      rw [heq]
      exact ⟨List.mem_cons_self, hnot⟩
  refine ⟨⟨?_, ?_, ?_⟩, fun n => ?_, fun n v hv => ?_, fun p => ?_, fun l hl => ?_⟩
  · apply hq.chain.congr
    intro p hp
    rw [hsame p hp]
  · intro p hp
    rw [hsame p hp]
    exact hq.window p hp
  · refine hq.sorted.imp_of_mem fun {p r} hp hr hle => ?_
    rw [hsame p hp, hsame r hr]
    exact hle
  · simp only [hkept]
    rw [exists_holds_iff hwnd hq.window, exists_holds_iff hwnd hall]
    constructor
    · rintro ⟨p, hp, hpos⟩
      exact ⟨p, List.mem_cons_of_mem packet hp, hpos⟩
    · rintro ⟨p, hp, hpos⟩
      obtain rfl | hp := List.mem_cons.mp hp
      -- The segment in front has all numbers of the new one.
      · obtain ⟨r, hr, hlt, hle⟩ := h
        exact ⟨r, hr, by omega, by omega⟩
      · exact ⟨p, hp, hpos⟩
  · obtain ⟨p, hp, hbyte⟩ := (hkept n v).mp hv
    exact ⟨p, List.mem_cons_of_mem packet hp, hbyte⟩
  · simp only [hgone p]
    split
    · rename_i heq
      rw [heq]
      exact hreleased.count packet List.mem_cons_self
    · rename_i hne
      rw [hreleased.other p (by simpa using hne)]
  · obtain ⟨l₀, hl₀, hdis, -⟩ := href.pool.free
    obtain rfl := hl₀.unique hl
    have hnotl : ∀ p ∈ [packet], p ∉ l₀ := by
      intro p hp hmem
      exact hdis p hmem (by simp_all)
    refine ⟨_, hreleased.free l₀ hl hnotl, fun p => ?_⟩
    rw [List.mem_reverse, List.mem_filter, decide_eq_true_iff, ← and_assoc, hgone p,
      List.mem_singleton]

/-- No segment is in front of the new one, and at most one ends behind it. -/
def FirstOfTwo (nxt : BitVec 32) (b : BufPool) (q : List Nat) (packet : Nat) : Prop :=
  (∀ p ∈ q, segOff nxt (b.buf packet) ≤ segOff nxt (b.buf p)) ∧
    (q.filter fun p => segEnd nxt (b.buf packet) < segEnd nxt (b.buf p)).length ≤ 1

/-- Whatever is left without a link is neither in the list nor released. -/
theorem Spliced.kept {q' : List Nat} (hq : Resequence nxt wnd b head (before ++ (dropped ++ rest)))
    (hnot : packet ∉ before ++ (dropped ++ rest)) (hlink : (b.buf packet).link = 0)
    (href : RefInv frames b (packet :: (before ++ (dropped ++ rest))))
    (h : Spliced nxt b packet before dropped rest b')
    (hins : Inserted nxt wnd b (before ++ (dropped ++ rest)) packet b' packet q') :
    before = [] ∧ rest.length ≤ 1 := by
  have hcount := href.countedBufs
  have hchain := h.chain (hcount packet List.mem_cons_self).1 hlink hnot
    (fun p hp => hcount p (by simp [hp]))
  -- The list is the one the links spell out: the new segment and the first of `rest`.
  obtain rfl := hchain.unique hins.list.chain
  -- A buffer that left the list has one reference less, but only those of `dropped` were released.
  have hlost : ∀ p ∈ before ++ (dropped ++ rest), p ∈ dropped ∨ p ∈ rest.head?.toList := by
    intro p hp
    by_contra hno
    obtain ⟨hdropped, hrest⟩ := not_or.mp hno
    have hreleased := hins.released p
    have hne : p ≠ packet := fun heq => hnot (heq ▸ hp)
    have hpos := (hcount p (List.mem_cons_of_mem packet hp)).2.1
    rw [h.refCount p, if_neg hdropped, if_pos ⟨List.mem_cons_of_mem packet hp,
      by simp [hne, hrest]⟩] at hreleased
    omega
  have hnodup := List.nodup_append.mp hq.chain.nodup
  constructor
  -- A segment in front would be among those released or kept behind: a duplicate.
  · cases before with
    | nil => rfl
    | cons p before =>
      exfalso
      have hp : p ∈ dropped ++ rest := by
        obtain hd | hr := hlost p (by simp)
        · exact List.mem_append_left rest hd
        · exact List.mem_append_right dropped (by
            rw [Option.mem_toList] at hr
            exact List.mem_of_mem_head? hr)
      exact hnodup.2.2 p List.mem_cons_self p hp rfl
  -- So would a second one behind.
  · match rest with
    | [] => simp
    | [r] => simp
    | r :: r' :: rest =>
      exfalso
      have hsplit := List.nodup_append.mp hnodup.2.1
      obtain hd | hr := hlost r' (by simp)
      · exact hsplit.2.2 r' hd r' (by simp) rfl
      · have heq : r' = r := by simpa using hr
        exact (List.nodup_cons.mp hsplit.2.1).1 (by simp [← heq])

/-- `tcp_recv_insert` of a segment in the window, without FIN, into a sorted list
    without overlap: the list becomes the union, and what is no longer in it is
    released, exactly if a segment in front covers the new one, or none is in
    front and at most one remains behind. -/
theorem tcp_recv_insert_union_iff (hwnd : wnd < 2147483648) (hq : Resequence nxt wnd b head q)
    (haddr : ∀ p ∈ q, p < 4294967296) (hx : InReceiveWindow nxt wnd (b.buf packet))
    (hfin : hasFlag ((b.buf packet).flags.setWidth 8) TCP_FIN = false) (hnot : packet ∉ q)
    (hlink : (b.buf packet).link = 0) (href : RefInv frames b (packet :: q)) :
    (∃ b' head' q', tcpRecvInsert b head packet = some (b', head') ∧
        Inserted nxt wnd b q packet b' head' q') ↔
      CoveredInFront nxt b q packet ∨ FirstOfTwo nxt b q packet := by
  have hfuel : q.length < walkFuel := hq.chain.length_lt (by decide) haddr
  have hcount : Counted b q := fun p hp => href.countedBufs p (List.mem_cons_of_mem packet hp)
  obtain ⟨hcovered, hrun⟩ | ⟨before, dropped, rest, b', rfl, hrun, hspliced, hends⟩ :=
    tcpRecvInsert_cases hwnd hq hx hnot hcount hfin hfuel
  · exact ⟨fun _ => .inl hcovered, fun _ =>
      ⟨_, head, q, hrun, CoveredInFront.inserted hwnd hq hx hnot href hcovered⟩⟩
  constructor
  · intro ⟨b₁, head', q', hrecv, hins⟩
    rw [hrun] at hrecv
    cases hrecv
    obtain ⟨rfl, hone⟩ := hspliced.kept hq hnot hlink href hins
    rw [List.nil_append]
    right
    constructor
    · intro p hp
      obtain hp | hp := List.mem_append.mp hp
      · exact (hspliced.passed p hp).1
      · exact (hspliced.behind p hp).1
    -- Those released end inside the new segment, so only `rest` counts.
    · have hdropped : (dropped.filter fun p => segEnd nxt (b.buf packet) < segEnd nxt (b.buf p)) =
          [] := by
        rw [List.filter_eq_nil_iff]
        intro p hp
        have hle := (hspliced.passed p hp).2
        simpa using hle
      rw [List.filter_append, hdropped, List.nil_append]
      exact Nat.le_trans (List.length_filter_le _ _) hone
  · intro hfits
    -- The run did not find the new segment covered, so it is the second condition that holds.
    have hfirst : FirstOfTwo nxt b (before ++ (dropped ++ rest)) packet := by
      refine hfits.resolve_left fun ⟨p, hp, hlt, hle⟩ => ?_
      obtain hp | hp := List.mem_append.mp hp
      · exact absurd (hends p hp) (Nat.not_lt.mpr hle)
      obtain hp | hp := List.mem_append.mp hp
      · exact absurd (hspliced.passed p hp).1 (Nat.not_le.mpr hlt)
      · exact absurd (hspliced.behind p hp).1 (Nat.not_le.mpr hlt)
    have hbefore : before = [] := by
      cases before with
      | nil => rfl
      | cons p before =>
        have hlt := hspliced.front p List.mem_cons_self
        have hle := hfirst.1 p (by simp)
        omega
    subst hbefore
    rw [List.nil_append] at hq hnot href hfirst ⊢
    have hrest : (rest.filter fun p => segEnd nxt (b.buf packet) < segEnd nxt (b.buf p)) =
        rest := by
      rw [List.filter_eq_self]
      intro p hp
      simpa using (hspliced.behind p hp).2
    have hone : rest.length ≤ 1 := by
      have hlen := hfirst.2
      rw [List.filter_append, hrest, List.length_append] at hlen
      omega
    exact ⟨b', packet, packet :: rest, hrun, hspliced.inserted hwnd hq hx hnot hlink href hone⟩

/-- A segment with the numbers 1005 and 1006 waits at `0x2000`; another one has
    arrived at `0x3000`. -/
def reorderPool (seq : BitVec 32) (data : List Byte) : BufPool where
  netBufList := 0
  netBufAllocCount := 2
  buf := fun p => if p = 0x2000 then ⟨0, [6, 7], 0, 1, 1005, 16⟩ else ⟨0, data, 0, 2, seq, 16⟩
  requests := 3

/-- Two buffers, each with one reference. -/
theorem reorderPool_refs (seq : BitVec 32) (data : List Byte) :
    RefInv nextFrame (reorderPool seq data) [0x3000, 0x2000] := by
  refine ⟨⟨⟨[], rfl, by simp, by simp⟩, by simp, fun k hk hmem => ?_⟩, by simp [reorderPool]⟩
  have hk : 3 ≤ k := hk
  simp [nextFrame] at hmem
  omega

/-- The second segment waits. -/
theorem reorderPool_resequence (seq : BitVec 32) (data : List Byte) :
    Resequence 1000 8192 (reorderPool seq data) 0x2000 [0x2000] where
  chain := ⟨rfl, by decide, rfl⟩
  window := by
    simp only [List.mem_singleton, forall_eq]
    exact ⟨rfl, show segEnd 1000 ⟨0, [6, 7], 0, 1, 1005, 16⟩ ≤ 8192 by decide⟩
  sorted := List.pairwise_singleton _ _

/-- The last byte of the new segment is cut off. -/
theorem tcp_recv_insert_union_overlap :
    ∃ b' head' q', tcpRecvInsert (reorderPool 1003 [4, 5, 6]) 0x2000 0x3000 = some (b', head') ∧
      Inserted 1000 8192 (reorderPool 1003 [4, 5, 6]) [0x2000] 0x3000 b' head' q' :=
  (tcp_recv_insert_union_iff (by decide) (reorderPool_resequence _ _) (by decide)
    ⟨rfl, by decide⟩ (by decide)
    (by decide) rfl (reorderPool_refs _ _)).mpr (.inr ⟨by decide, by decide⟩)

/-- A segment behind the waiting one: the waiting one is lost. -/
theorem tcp_recv_insert_loses_front :
    ¬ ∀ (frames : Nat → Nat) (nxt : BitVec 32) (wnd : Nat) (b : BufPool) (head packet : Nat)
    (q : List Nat),
      wnd < 2147483648 → Resequence nxt wnd b head q → (∀ p ∈ q, p < 4294967296) →
      InReceiveWindow nxt wnd (b.buf packet) →
      hasFlag ((b.buf packet).flags.setWidth 8) TCP_FIN = false →
      packet ∉ q → (b.buf packet).link = 0 → RefInv frames b (packet :: q) →
      ∃ b' head' q', tcpRecvInsert b head packet = some (b', head') ∧
        Inserted nxt wnd b q packet b' head' q' := by
  intro hall
  obtain ⟨b', head', q', hrun, hins⟩ :=
    hall nextFrame 1000 8192 (reorderPool 1010 [11]) 0x2000 0x3000 [0x2000]
    (by decide) (reorderPool_resequence _ _) (by decide) ⟨rfl, by decide⟩ (by decide)
      (by decide) rfl
    (reorderPool_refs _ _)
  have hexec : (tcpRecvInsert (reorderPool 1010 [11]) 0x2000 0x3000).map
      (fun r => (r.2, (r.1.buf 0x3000).link, (r.1.buf 0x2000).refCount)) = some (0x3000, 0, 1) := by
    decide +kernel
  rw [hrun, Option.map_some, Option.some.injEq, Prod.mk.injEq, Prod.mk.injEq] at hexec
  obtain ⟨rfl, hlink, hcount⟩ := hexec
  have hchain : Chain (fun p => (b'.buf p).link) 0 0x3000 [0x3000] := ⟨rfl, by decide, hlink⟩
  obtain rfl := hchain.unique hins.list.chain
  -- the law would count one reference for the segment that was waiting
  have hreleased := hins.released 0x2000
  rw [hcount, if_pos (by decide)] at hreleased
  exact absurd hreleased (by decide)

end MishaOS
