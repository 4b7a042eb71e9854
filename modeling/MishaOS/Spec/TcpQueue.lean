import MishaOS.ForStd.LinkedList
import MishaOS.ForStd.Serial
import MishaOS.Native.TcpRecv
import MishaOS.Spec.BufPool

/-!
# The resequence list

Segments that arrive early wait in `conn->resequence` until the bytes in front
of them are there.  `tcp_recv_insert` keeps at most two segments: the new one
and the first one behind it; the others are released or lost.  What is kept is
a part of the stream: trimming shortens a segment to where the next one starts.

## Key results

- `tcpRecvInsert_spec`: the list stays sorted, without overlap, and carries
  bytes of the stream.
-/

namespace MishaOS

open LinkedList Serial

/-! ## Buffers that carry part of a stream -/

/-- `len` bytes of a stream from position `off` on. -/
def slice (S : List Byte) (off len : Nat) : List Byte := (S.drop off).take len

theorem slice_take (S : List Byte) (off : Nat) {len n : Nat} (h : n ≤ len) :
    (slice S off len).take n = slice S off n := by
  rw [slice, List.take_take, Nat.min_eq_left h, slice]

theorem length_slice {S : List Byte} {off len : Nat} (h : len = 0 ∨ off + len ≤ S.length) :
    (slice S off len).length = len := by
  rw [slice, List.length_take, List.length_drop]
  omega

/-- The next part of a stream is appended to a prefix. -/
theorem take_append_slice (S : List Byte) (k len : Nat) :
    S.take k ++ slice S k len = S.take (k + len) := by
  rw [slice, List.take_add]

/-- The buffer holds the `len` bytes of the stream from `off` on; the first
    byte of the stream has number `n₀`. -/
structure Carries (S : List Byte) (n₀ : BitVec 32) (x : NetBuf) (off len : Nat) : Prop where
  seq : x.seq = num n₀ off
  data : x.data = slice S off len
  le : len = 0 ∨ off + len ≤ S.length
  deficit : x.deficit = 0

variable {S : List Byte} {n₀ : BitVec 32} {x y : NetBuf} {off len : Nat}

theorem Carries.length (h : Carries S n₀ x off len) : x.data.length = len := by
  rw [h.data, length_slice h.le]

theorem Carries.len32 (h : Carries S n₀ x off len) : x.len32 = BitVec.ofNat 32 len := by
  simp [NetBuf.len32, h.length, h.deficit]

/-- `seq + (end - start)` -/
theorem Carries.end_eq (h : Carries S n₀ x off len) : x.seq + x.len32 = num n₀ (off + len) := by
  rw [h.seq, h.len32, num_add]

/-- Only sequence number and bytes matter. -/
theorem Carries.congr (h : Carries S n₀ x off len) (hseq : y.seq = x.seq) (hdata : y.data = x.data)
    (hdef : y.deficit = x.deficit) : Carries S n₀ y off len :=
  ⟨hseq.trans h.seq, hdata.trans h.data, h.le, hdef.trans h.deficit⟩

/-- Bytes are cut off at the end. -/
theorem Carries.trim (h : Carries S n₀ x off len) {n : Nat} (hn : n ≤ len) :
    Carries S n₀ (x.trim n) off (len - n) := by
  have hlen := h.length
  refine ⟨h.seq, ?_, by have := h.le; omega, ?_⟩
  · show x.data.take (x.data.length - n) = _
    rw [hlen, h.data, slice_take S off (Nat.sub_le len n)]
  · show x.deficit + (n - x.data.length) = 0
    rw [h.deficit, hlen]
    omega

/-- `SEQ_CMP` of two positions less than half the range apart. -/
theorem seqDiff_num (n₀ : BitVec 32) {a b : Nat} (hle : b ≤ a + 2147483648)
    (hlt : a < b + 2147483648) :
    seqDiff (num n₀ a) (num n₀ b) = (a : Int) - b :=
  num_sub_toInt n₀ (by omega) (by omega)

/-! ## The list -/

/-- A waiting segment: its buffer and the part of the stream it carries. -/
structure QSeg where
  ptr : Nat
  off : Nat
  len : Nat

/-- The resequence list starts at `head` and holds `q`: sorted parts of the
    stream without overlap, inside the window at `k`. -/
structure Queue (S : List Byte) (n₀ : BitVec 32) (b : BufPool) (head k : Nat)
    (q : List QSeg) : Prop where
  chain : Chain (fun p => (b.buf p).link) 0 head (q.map QSeg.ptr)
  carries : ∀ s ∈ q, Carries S n₀ (b.buf s.ptr) s.off s.len
  sorted : q.Pairwise fun s t => s.off + s.len ≤ t.off
  window : ∀ s ∈ q, k ≤ s.off ∧ s.off + s.len ≤ k + 8192
  short : q.length ≤ 2

/-- The segments that follow from `k` on without a gap get to `e`. -/
def Reach : Nat → List QSeg → Nat → Prop
  | k, [], e => e ≤ k
  | k, s :: q, e => e ≤ k ∨ s.off = k ∧ Reach (k + s.len) q e

variable {b b' : BufPool} {head k packet cur fuel : Nat} {q : List QSeg}

theorem Queue.nil (S : List Byte) (n₀ : BitVec 32) (b : BufPool) (k : Nat) :
    Queue S n₀ b 0 k [] := by
  constructor <;> simp

/-- The buffers of the list may be written elsewhere. -/
theorem Queue.congr (h : Queue S n₀ b head k q)
    (hb : ∀ s ∈ q, ∃ n, b'.buf s.ptr = { b.buf s.ptr with refCount := n }) :
    Queue S n₀ b' head k q := by
  refine ⟨h.chain.congr fun p hp => ?_, fun s hs => ?_, h.sorted, h.window, h.short⟩
  · obtain ⟨s, hs, rfl⟩ := List.mem_map.mp hp
    obtain ⟨n, hn⟩ := hb s hs
    rw [hn]
  · obtain ⟨n, hn⟩ := hb s hs
    exact (h.carries s hs).congr (by rw [hn]) (by rw [hn]) (by rw [hn])

theorem Queue.congr_of_eq (h : Queue S n₀ b head k q) (hb : ∀ s ∈ q, b'.buf s.ptr = b.buf s.ptr) :
    Queue S n₀ b' head k q :=
  h.congr fun s hs => ⟨_, hb s hs⟩

/-- The tail of the list. -/
theorem Queue.tail {s : QSeg} (h : Queue S n₀ b head k (s :: q)) :
    Queue S n₀ b (b.buf s.ptr).link k q :=
  ⟨h.chain.2.2, fun t ht => h.carries t (List.mem_cons_of_mem s ht),
    (List.pairwise_cons.mp h.sorted).2,
    fun t ht => h.window t (List.mem_cons_of_mem s ht), Nat.le_of_succ_le h.short⟩

/-- The head pointer is that of the first segment. -/
theorem Queue.head_eq (h : Queue S n₀ b head k q) : head = (q.head?.map QSeg.ptr).getD 0 := by
  cases q with
  | nil => exact h.chain
  | cons s q => exact h.chain.1

theorem Queue.of_append {before after : List QSeg} (h : Queue S n₀ b head k (before ++ after)) :
    Queue S n₀ b ((after.head?.map QSeg.ptr).getD 0) k after := by
  induction before generalizing head with
  | nil =>
    have hhead := h.head_eq
    rw [List.nil_append] at h hhead
    rw [← hhead]
    exact h
  | cons s before ih => exact ih h.tail

/-! ## Where a segment goes -/

/-- The first loop stops at the first segment that is not in front of `seq`. -/
theorem tcpInsertPos_split {l : List Nat} (seq : BitVec 32) (prev : Nat)
    (hchain : Chain (fun p => (b.buf p).link) 0 cur l) (hfuel : l.length < fuel) :
    ∃ before after, l = before ++ after ∧
      tcpInsertPos b seq fuel prev cur = some (before.getLast?.getD prev, after.head?.getD 0) ∧
      (∀ p ∈ before, 0 < seqDiff seq (b.buf p).seq) ∧ ∀ p ∈ after.head?,
      seqDiff seq (b.buf p).seq ≤ 0 := by
  -- along the list, with enough fuel for what is left of it
  induction l generalizing cur prev fuel with
  | nil =>
    obtain ⟨fuel, rfl⟩ : ∃ n, fuel = n + 1 := ⟨fuel - 1, by simp at hfuel; omega⟩
    obtain rfl : cur = 0 := hchain
    exact ⟨[], [], rfl, rfl, by simp, by simp⟩
  | cons p l ih =>
    obtain ⟨fuel, rfl⟩ : ∃ n, fuel = n + 1 := ⟨fuel - 1, by simp at hfuel; omega⟩
    obtain ⟨rfl, h0, hrest⟩ := hchain
    simp only [tcpInsertPos, if_neg h0]
    -- the loop stops here, or passes over one segment more
    split
    · rename_i hle
      exact ⟨[], cur :: l, rfl, rfl, by simp, by simpa using hle⟩
    · rename_i hgt
      obtain ⟨before, after, rfl, hpos, hbefore, hafter⟩ := ih cur hrest (by simpa using hfuel)
      refine ⟨cur :: before, after, rfl, ?_, ?_, hafter⟩
      · rw [hpos]
        cases before with
        | nil => rfl
        | cons r before =>
          rw [List.getLast?_cons_cons]
          rfl
      · intro r hr
        obtain rfl | hr := List.mem_cons.mp hr
        · omega
        · exact hbefore r hr

/-- In the list that is the first segment that starts at `off` or later. -/
theorem tcpInsertPos_spec (prev : Nat) (hq : Queue S n₀ b cur k q) (hoff : k ≤ off)
    (hwin : off ≤ k + 8192)
    (hfuel : q.length < fuel) :
    ∃ before after, q = before ++ after ∧
      tcpInsertPos b (num n₀ off) fuel prev cur =
        some ((before.getLast?.map QSeg.ptr).getD prev, (after.head?.map QSeg.ptr).getD 0) ∧
      (∀ s ∈ before, s.off < off) ∧ ∀ s ∈ after.head?, off ≤ s.off := by
  obtain ⟨pb, pa, hsplit, hpos, hbefore, hafter⟩ :=
    tcpInsertPos_split (num n₀ off) prev hq.chain
      (show (q.map QSeg.ptr).length < fuel by simpa using hfuel)
  obtain ⟨before, after, rfl, rfl, rfl⟩ := List.map_eq_append_iff.mp hsplit
  -- inside the window the 32-bit comparison is that of the offsets
  have hcmp : ∀ s ∈ before ++ after, seqDiff (num n₀ off) (b.buf s.ptr).seq =
      (off : Int) - s.off := by
    intro s hs
    have hw := hq.window s hs
    rw [(hq.carries s hs).seq]
    exact seqDiff_num n₀ (by omega) (by omega)
  refine ⟨before, after, rfl, ?_, fun s hs => ?_, fun s hs => ?_⟩
  · rw [hpos, List.getLast?_map, List.head?_map]
  · have hlt := hbefore s.ptr (List.mem_map_of_mem hs)
    rw [hcmp s (List.mem_append_left after hs)] at hlt
    omega
  · have hmem : s ∈ after := List.mem_of_mem_head? hs
    have hle := hafter s.ptr (by rw [List.head?_map]; exact Option.mem_map_of_mem _ hs)
    rw [hcmp s (List.mem_append_right before hmem)] at hle
    omega

/-! ## Segments behind the new one -/

variable {frames : Nat → Nat} {refs : List Nat}

/-- `cur->link = 0; net_free_buf(cur)` for the head of the list. -/
theorem Queue.dropHead {s : QSeg} (hq : Queue S n₀ b cur k (s :: q))
    (href : RefInv frames b (s.ptr :: q.map QSeg.ptr ++ refs)) :
    let b' := netFreeBuf (b.setBuf s.ptr { b.buf s.ptr with link := 0 }) s.ptr
    Queue S n₀ b' (b.buf s.ptr).link k q ∧ RefInv frames b' (q.map QSeg.ptr ++ refs) ∧
      ∀ p ≠ s.ptr, b'.buf p = b.buf p := by
  intro b'
  have hset : RefInv frames (b.setBuf s.ptr { b.buf s.ptr with link := 0 })
      (s.ptr :: (q.map QSeg.ptr ++ refs)) := href.setBuf (by simp) rfl
  obtain ⟨hfree, hother, -⟩ := hset.free
  have hsame : ∀ p ≠ s.ptr, b'.buf p = b.buf p := by
    intro p hp
    rw [hother p hp]
    simp [hp]
  have hnodup := (List.nodup_cons.mp hq.chain.nodup).1
  refine ⟨hq.tail.congr_of_eq fun t ht => hsame _ fun heq => hnodup ?_, hfree, hsame⟩
  exact heq ▸ List.mem_map_of_mem ht

/-- Behind a FIN everything is released. -/
theorem tcpInsertDrop_spec (hq : Queue S n₀ b cur k q)
    (href : RefInv frames b (q.map QSeg.ptr ++ refs)) (hfuel : q.length < fuel) :
    ∃ b', tcpInsertDrop fuel b cur = some b' ∧ RefInv frames b' refs ∧
      ∀ p ∉ q.map QSeg.ptr, b'.buf p = b.buf p := by
  -- each segment is released once
  induction q generalizing b cur fuel with
  | nil =>
    obtain ⟨fuel, rfl⟩ : ∃ n, fuel = n + 1 := ⟨fuel - 1, by simp at hfuel; omega⟩
    obtain rfl : cur = 0 := hq.chain
    exact ⟨b, rfl, href, fun _ _ => rfl⟩
  | cons s q ih =>
    obtain ⟨fuel, rfl⟩ : ∃ n, fuel = n + 1 := ⟨fuel - 1, by simp at hfuel; omega⟩
    obtain ⟨rfl, h0, -⟩ := hq.chain
    obtain ⟨hq', href', hsame⟩ := hq.dropHead href
    obtain ⟨b', hdrop, hrefs, hother⟩ := ih hq' href' (by simpa using hfuel)
    refine ⟨b', ?_, hrefs, fun p hp => ?_⟩
    · simpa only [tcpInsertDrop, if_neg h0] using hdrop
    · simp only [List.map_cons, List.mem_cons, not_or] at hp
      rw [hother p hp.2, hsame p hp.1]

/-- What the merging loop leaves: the new segment, cut where the first
    remaining one starts, if there is one. -/
structure Merged (frames : Nat → Nat) (S : List Byte) (n₀ : BitVec 32) (q : List QSeg)
    (refs : List Nat)
    (b b' : BufPool) (packet off len : Nat) (rest : Option QSeg) (len' : Nat) : Prop where
  carries : Carries S n₀ (b'.buf packet) off len'
  link : (b'.buf packet).link = (b.buf packet).link
  le : len' ≤ len
  /-- Nothing of the new segment is lost. -/
  reach : Reach (off + len') rest.toList (off + len)
  mem : ∀ s ∈ rest, s ∈ q ∧ off + len' ≤ s.off ∧ b'.buf s.ptr = b.buf s.ptr
  refs : RefInv frames b' (rest.toList.map QSeg.ptr ++ refs)

/-- The last loop of `tcp_recv_insert`. -/
theorem tcpInsertMerge_spec (hq : Queue S n₀ b cur k q) (hp : Carries S n₀ (b.buf packet) off len)
    (hnot : packet ∉ q.map QSeg.ptr) (hoff : k ≤ off) (hwin : off + len ≤ k + 8192)
    (hbehind : ∀ s ∈ q, off ≤ s.off) (hmem : packet ∈ refs)
    (href : RefInv frames b (q.map QSeg.ptr ++ refs)) (hfuel : q.length < fuel) :
    ∃ b' rest len', tcpInsertMerge packet (BitVec.ofNat 32 len) fuel b cur =
        some (b', (rest.map QSeg.ptr).getD 0) ∧
        Merged frames S n₀ q refs b b' packet off len rest len' := by
  induction q generalizing b cur fuel with
  | nil =>
    obtain ⟨fuel, rfl⟩ : ∃ n, fuel = n + 1 := ⟨fuel - 1, by simp at hfuel; omega⟩
    obtain rfl : cur = 0 := hq.chain
    exact ⟨b, none, len, rfl, hp, rfl, Nat.le_refl _, Nat.le_refl _, by simp, href⟩
  | cons s q ih =>
    obtain ⟨fuel, rfl⟩ : ∃ n, fuel = n + 1 := ⟨fuel - 1, by simp at hfuel; omega⟩
    obtain ⟨rfl, h0, -⟩ := hq.chain
    have hs := hq.carries s List.mem_cons_self
    have hw := hq.window s List.mem_cons_self
    have hso := hbehind s List.mem_cons_self
    have hne : packet ≠ s.ptr := fun heq => hnot (by simp [heq])
    -- the ends of the two segments as offsets
    have hend : (b.buf packet).seq + BitVec.ofNat 32 len = num n₀ (off + len) := by
      rw [hp.seq, num_add]
    have hcmp : seqDiff (num n₀ (off + len)) (b.buf s.ptr).seq =
        ((off + len : Nat) : Int) - s.off := by
      rw [hs.seq]
      exact seqDiff_num n₀ (by omega) (by omega)
    have hcmp' : seqDiff (num n₀ (off + len)) ((b.buf s.ptr).seq + (b.buf s.ptr).len32) =
        ((off + len : Nat) : Int) - (s.off + s.len : Nat) := by
      rw [hs.end_eq]
      exact seqDiff_num n₀ (by omega) (by omega)
    have hkeep : RefInv frames b (s.ptr :: refs) := by
      apply href.subperm
      apply List.Sublist.subperm
      simp
    simp only [tcpInsertMerge, if_neg h0, hend, hcmp, hcmp']
    by_cases hgap : off + len < s.off
    · -- a gap remains in front of `cur`
      rw [if_pos (by omega)]
      exact ⟨b, some s, len, rfl, hp, rfl, Nat.le_refl _, .inl (Nat.le_refl _),
        by simpa using Nat.le_of_lt hgap, hkeep⟩
    rw [if_neg (by omega)]
    by_cases hcover : off + len < s.off + s.len
    · -- the new segment ends inside `cur`
      rw [if_pos (by omega)]
      -- what is cut off is the overlap
      have hcut : (num n₀ (off + len) - (b.buf s.ptr).seq).toNat = off + len - s.off := by
        rw [hs.seq]
        exact num_sub_toNat n₀ (by omega) (by omega)
      rw [hcut]
      refine ⟨_, some s, len - (off + len - s.off), rfl, ?_, ?_,
        by omega, .inr ⟨by omega, ?_⟩, ?_, ?_⟩
      · rw [BufPool.setBuf_buf, if_pos rfl]
        exact hp.trim (by omega)
      · simp [NetBuf.trim]
      · show off + len ≤ _
        omega
      · simp only [Option.mem_def, Option.some.injEq, forall_eq']
        exact ⟨List.mem_cons_self, by omega, by simp [Ne.symm hne]⟩
      · exact hkeep.setBuf (List.mem_cons_of_mem _ hmem) rfl
    · -- the new segment covers `cur`
      rw [if_neg (by omega)]
      obtain ⟨hq', href', hsame⟩ := hq.dropHead href
      have hpacket := hsame packet hne
      simp only [List.map_cons, List.mem_cons, not_or] at hnot
      obtain ⟨b', rest, len', hmerge, hm⟩ := ih hq' (by rw [hpacket]; exact hp) hnot.2
        (fun t ht => hbehind t (List.mem_cons_of_mem s ht)) href' (by simpa using hfuel)
      refine ⟨b', rest, len', hmerge, hm.carries, hm.link.trans (by rw [hpacket]),
        hm.le, hm.reach, ?_,
        hm.refs⟩
      intro t ht
      obtain ⟨htq, htle, htb⟩ := hm.mem t ht
      -- a segment that was released is not in the queue any more
      have htne : t.ptr ≠ s.ptr := by
        intro heq
        apply (List.nodup_cons.mp hq.chain.nodup).1
        exact heq ▸ List.mem_map_of_mem htq
      exact ⟨List.mem_cons_of_mem s htq, htle, htb.trans (hsame _ htne)⟩

/-! ## Inserting a segment -/

/-- The new segment is linked in front of what the merging loop left. -/
theorem Merged.link_spec {rest : Option QSeg} {len' : Nat} (hq : Queue S n₀ b cur k q)
    (hm : Merged frames S n₀ q (packet :: refs) b b' packet off len rest len')
    (hnot : packet ∉ q.map QSeg.ptr) (hlink : (b.buf packet).link = 0) (hoff : k ≤ off)
    (hwin : off + len ≤ k + 8192) :
    ∃ q', Queue S n₀ (tcpInsertLink b' packet ((rest.map QSeg.ptr).getD 0)) packet k q' ∧
      RefInv frames (tcpInsertLink b' packet ((rest.map QSeg.ptr).getD 0))
        (q'.map QSeg.ptr ++ refs) ∧
      Reach off q' (off + len) := by
  have h0 : packet ≠ 0 := hm.refs.ne_zero (by simp)
  have hlink' := hm.link.trans hlink
  have hle := hm.le
  -- nothing is behind the new segment, or the one the loop stopped at
  cases rest with
  | none =>
    refine ⟨[⟨packet, off, len'⟩], ⟨⟨rfl, h0, hlink'⟩, ?_, by simp, ?_, by simp⟩, hm.refs,
      .inr ⟨rfl, hm.reach⟩⟩
    · simp only [List.mem_singleton, forall_eq]
      exact hm.carries
    · simp only [List.mem_singleton, forall_eq]
      omega
  | some s =>
    obtain ⟨hs, hsle, hsb⟩ := hm.mem s rfl
    have hne : s.ptr ≠ packet := fun heq => hnot (heq ▸ List.mem_map_of_mem hs)
    have hs0 : s.ptr ≠ 0 := hq.chain.ne_null (List.mem_map_of_mem hs)
    have hw := hq.window s hs
    simp only [tcpInsertLink, Option.map_some, Option.getD_some, if_pos hs0, hlink']
    refine ⟨[⟨packet, off, len'⟩, s], ⟨⟨rfl, h0, ?_⟩, ?_, by simpa using hsle, ?_, by simp⟩, ?_,
      .inr ⟨rfl, hm.reach⟩⟩
    · simp [hne, hs0]
    · simp only [List.mem_cons, List.not_mem_nil, or_false, forall_eq_or_imp, forall_eq]
      constructor
      · exact hm.carries.congr (by simp [Ne.symm hne]) (by simp [Ne.symm hne])
          (by simp [Ne.symm hne])
      · exact (hq.carries s hs).congr (by simp [hne, hsb]) (by simp [hne, hsb]) (by simp [hne, hsb])
    · simp only [List.mem_cons, List.not_mem_nil, or_false, forall_eq_or_imp, forall_eq]
      omega
    -- the new segment is in the queue, and `cur` is still in it
    · have hrefs : RefInv frames b' (packet :: s.ptr :: refs) :=
        hm.refs.subperm (List.Perm.swap _ _ _).subperm
      have hcur : RefInv frames (b'.setBuf s.ptr { b'.buf s.ptr with link := 0 })
          (packet :: s.ptr :: refs) := hrefs.setBuf (List.mem_cons_of_mem _ List.mem_cons_self) rfl
      exact hcur.setBuf List.mem_cons_self rfl

/-- `tcp_recv_insert` from the FIN test on. -/
theorem tcpInsertRest_spec (hq : Queue S n₀ b cur k q) (hp : Carries S n₀ (b.buf packet) off len)
    (hnot : packet ∉ q.map QSeg.ptr) (hlink : (b.buf packet).link = 0) (hoff : k ≤ off)
    (hwin : off + len ≤ k + 8192) (hbehind : ∀ s ∈ q, off ≤ s.off)
    (href : RefInv frames b (q.map QSeg.ptr ++ packet :: refs)) :
    ∃ b' q', tcpInsertRest b packet (BitVec.ofNat 32 len) cur = some (b', packet) ∧
      Queue S n₀ b' packet k q' ∧ RefInv frames b' (q'.map QSeg.ptr ++ refs) ∧
      Reach off q' (off + len) := by
  have hfuel : q.length < walkFuel := Nat.lt_of_le_of_lt hq.short (by decide)
  unfold tcpInsertRest
  split
  · -- a FIN: nothing is left to merge with
    obtain ⟨b₁, hdrop, href₁, hsame⟩ := tcpInsertDrop_spec hq href hfuel
    have hpacket := hsame packet hnot
    obtain ⟨b', rest, len', hmerge, hm⟩ := tcpInsertMerge_spec (Queue.nil S n₀ b₁ k)
      (by rw [hpacket]; exact hp) (by simp) hoff hwin (by simp) List.mem_cons_self href₁
        (show 0 < walkFuel by decide)
    obtain ⟨q', hq', hr', hreach⟩ :=
      hm.link_spec (Queue.nil S n₀ b₁ k) (by simp) (by rw [hpacket]; exact hlink)
      hoff hwin
    refine ⟨_, q', ?_, hq', hr', hreach⟩
    simp only [hdrop, Option.map_some, Option.bind_some, hmerge]
  -- no FIN: the queue is merged as it is
  · obtain ⟨b', rest, len', hmerge, hm⟩ := tcpInsertMerge_spec hq hp hnot hoff hwin hbehind
      List.mem_cons_self href hfuel
    obtain ⟨q', hq', hr', hreach⟩ := hm.link_spec hq hnot hlink hoff hwin
    refine ⟨_, q', ?_, hq', hr', hreach⟩
    simp only [Option.bind_some, hmerge, Option.map_some]

/-- Everything behind a segment that starts at `off` or later does. -/
theorem Queue.behind {s : QSeg} (hq : Queue S n₀ b head k q) (hs : s ∈ q.head?)
    (hoff : off ≤ s.off) :
    ∀ t ∈ q, off ≤ t.off := by
  cases q with
  | nil => exact nomatch hs
  | cons u q =>
    obtain rfl : u = s := by simpa using hs
    intro t ht
    obtain rfl | ht := List.mem_cons.mp ht
    · exact hoff
    · have := (List.pairwise_cons.mp hq.sorted).1 t ht
      omega

/-- `tcp_recv_insert` of a segment in the window: the list still holds sorted
    parts of the stream, and all of a segment that is next.  The reference of the
    list moves to the segment, or is dropped with it. -/
theorem tcpRecvInsert_spec (hq : Queue S n₀ b head k q) (hp : Carries S n₀ (b.buf packet) off len)
    (hnot : packet ∉ q.map QSeg.ptr) (hlink : (b.buf packet).link = 0) (hoff : k ≤ off)
    (hwin : off + len ≤ k + 8192) (href : RefInv frames b (packet :: (q.map QSeg.ptr ++ refs))) :
    ∃ b' head' q', tcpRecvInsert b head packet = some (b', head') ∧ Queue S n₀ b' head' k q' ∧
      RefInv frames b' (q'.map QSeg.ptr ++ refs) ∧ (off = k → Reach k q' (off + len)) := by
  have hfuel : q.length < walkFuel := Nat.lt_of_le_of_lt hq.short (by decide)
  obtain ⟨before, after, rfl, hpos, hbefore, hafter⟩ :=
    tcpInsertPos_spec 0 hq hoff (by omega) hfuel
  have hqa := hq.of_append
  have hbehind : ∀ s ∈ after, off ≤ s.off := by
    cases after with
    | nil => simp
    | cons s after => exact hqa.behind rfl (hafter s rfl)
  have hnota : packet ∉ after.map QSeg.ptr := fun h => hnot (by simp at h ⊢; exact .inr h)
  -- what is in front of the new segment is forgotten
  have hforget : ∀ b₁, RefInv frames b₁ (packet :: ((before ++ after).map QSeg.ptr ++ refs)) →
      RefInv frames b₁ (after.map QSeg.ptr ++ packet :: refs) := by
    intro b₁ h
    apply h.subperm
    have hperm :
        (packet :: (after.map QSeg.ptr ++ refs)).Perm (after.map QSeg.ptr ++ packet :: refs) :=
      List.perm_middle.symm
    apply hperm.symm.subperm.trans
    apply List.Sublist.subperm
    simp
  unfold tcpRecvInsert
  simp only [hp.seq, hpos, Option.bind_some, hp.len32]
  cases hlast : before.getLast? with
  | none =>
    simp only [Option.map_none, Option.getD_none, ne_eq, not_true_eq_false, false_and, if_false,
      tcpInsertTrim]
    obtain ⟨b', q', hrest, hq', hr', hreach⟩ :=
      tcpInsertRest_spec hqa hp hnota hlink hoff hwin hbehind
      (hforget b href)
    exact ⟨b', packet, q', hrest, hq', hr', fun heq => heq ▸ hreach⟩
  | some s =>
    have hs : s ∈ before := List.mem_of_getLast? hlast
    have hsq : s ∈ before ++ after := List.mem_append_left after hs
    have hne : packet ≠ s.ptr := fun heq => hnot (heq ▸ List.mem_map_of_mem hsq)
    simp only [Option.map_some, Option.getD_some]
    split
    · -- the segment in front covers the new one
      obtain ⟨hfree, hother, -⟩ := href.free
      refine ⟨_, head, before ++ after, rfl, hq.congr_of_eq fun t ht => hother _ ?_, hfree, ?_⟩
      · exact fun heq => hnot (heq ▸ List.mem_map_of_mem ht)
      · intro heq
        have hlt := hbefore s hs
        have hge := (hq.window s hsq).1
        omega
    · have htrim : ∃ x, tcpInsertTrim b s.ptr (num n₀ off) = b.setBuf s.ptr x ∧
          x.refCount = (b.buf s.ptr).refCount := by
        unfold tcpInsertTrim
        simp only
        split
        · exact ⟨_, rfl, rfl⟩
        · refine ⟨b.buf s.ptr, ?_, rfl⟩
          simp [BufPool.setBuf]
      obtain ⟨x, htrim, hx⟩ := htrim
      rw [htrim]
      have hsa : ∀ t ∈ after, t.ptr ≠ s.ptr := by
        intro t ht heq
        have hnodup := hq.chain.nodup
        rw [List.map_append] at hnodup
        exact (List.nodup_append.mp hnodup).2.2 _ (List.mem_map_of_mem hs) _
          (List.mem_map_of_mem ht) heq.symm
      have hsame : ∀ p ≠ s.ptr, (b.setBuf s.ptr x).buf p = b.buf p := by
        intro p hps
        simp [hps]
      have hqt : Queue S n₀ (b.setBuf s.ptr x) _ k after :=
        hqa.congr_of_eq fun t ht => hsame _ (hsa t ht)
      have hmem : s.ptr ∈ packet :: ((before ++ after).map QSeg.ptr ++ refs) :=
        List.mem_cons_of_mem _ (List.mem_append_left _ (List.mem_map_of_mem hsq))
      obtain ⟨b', q', hrest, hq', hr', hreach⟩ :=
        tcpInsertRest_spec hqt (by rw [hsame packet hne]; exact hp)
        hnota (by rw [hsame packet hne]; exact hlink) hoff hwin hbehind
          (hforget _ (href.setBuf hmem hx))
      exact ⟨b', packet, q', hrest, hq', hr', fun heq => heq ▸ hreach⟩

end MishaOS
