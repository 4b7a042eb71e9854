import MishaOS.Spec.TcpLocal
import Mathlib.Data.BitVec
import Mathlib.Data.Option.Basic

/-!
# Shifting the sequence numbers of a connection

Sequence numbers are compared by their difference, so that nothing should depend
on where they start.  Two states of a connection are compared: in the second one
the numbers of this side are larger by `a` and those of the peer by `b`, in the
connection and in the segments that wait in its queue.  This module follows the
buffers of the two runs; a segment that is shifted in the same way takes the same
place in the queue.

## Key results

- `PoolShift.alloc`, `PoolShift.free`: the runs take and release the same buffers.
- `tcpRecvInsert_shift`: they insert a segment at the same place.
-/

namespace MishaOS

open LinkedList

/-! ## Shifted structures -/

def TcpConn.shift (a b : BitVec 32) (c : TcpConn) : TcpConn :=
  { c with
    snd := { c.snd with
      una := c.snd.una + a
      nxt := c.snd.nxt + a
      iss := c.snd.iss + a
      wl1 := c.snd.wl1 + b
      wl2 := c.snd.wl2 + a }
    rcv := { c.rcv with nxt := c.rcv.nxt + b, irs := c.rcv.irs + b } }

def TcpHeader.shift (a b : BitVec 32) (h : TcpHeader) : TcpHeader :=
  { h with seq := h.seq + b, ack := h.ack + a }

/-- The sequence number is shifted. -/
@[simp] theorem TcpHeader.shift_seq (a b : BitVec 32) (h : TcpHeader) :
    (h.shift a b).seq = h.seq + b := rfl

/-- So is the acknowledgement. -/
@[simp] theorem TcpHeader.shift_ack (a b : BitVec 32) (h : TcpHeader) :
    (h.shift a b).ack = h.ack + a := rfl

/-- The flags are not. -/
@[simp] theorem TcpHeader.shift_flags (a b : BitVec 32) (h : TcpHeader) :
    (h.shift a b).flags = h.flags := rfl

/-- Differences do not see the shift. -/
theorem seqDiff_shift (x y a : BitVec 32) : seqDiff (x + a) (y + a) = seqDiff x y := by
  rw [seqDiff, add_sub_add_right_eq_sub]
  rfl

/-- The sum of a number and a length is shifted with the number. -/
theorem seqDiff_shift_add (x n y m a : BitVec 32) :
    seqDiff (x + a + n) (y + a + m) = seqDiff (x + n) (y + m) := by
  rw [add_right_comm x a n, add_right_comm y a m, seqDiff_shift]

/-- Nor do equations. -/
theorem add_shift_cancel {x y : BitVec 32} (a : BitVec 32) : x + a = y + a ↔ x = y :=
  add_left_inj a

/-! ## Two runs -/

section

variable {α β γ δ : Type*} {R : α → β → Prop} {S : γ → δ → Prop}

/-- Related results are processed further. -/
theorem rel_bind {o : Option α} {o' : Option β} {f : α → Option γ} {g : β → Option δ}
    (h : Option.Rel R o o') (hfg : ∀ u v, R u v → Option.Rel S (f u) (g v)) :
    Option.Rel S (o.bind f) (o'.bind g) := by
  cases h with
  | none => exact .none
  | some huv => exact hfg _ _ huv

/-- The same for a function that always has a result. -/
theorem rel_map {o : Option α} {o' : Option β} {f : α → γ} {g : β → δ}
    (h : Option.Rel R o o') (hfg : ∀ u v, R u v → S (f u) (g v)) :
    Option.Rel S (o.map f) (o'.map g) := by
  cases h with
  | none => exact .none
  | some huv => exact .some (hfg _ _ huv)

/-- The relation is weakened by what is known of the first run. -/
theorem rel_imp {Q : α → β → Prop} {o : Option α} {o' : Option β} (h : Option.Rel R o o')
    (hQ : ∀ u v, o = some u → R u v → Q u v) : Option.Rel Q o o' := by
  cases h with
  | none => exact .none
  | some huv => exact .some (hQ _ _ rfl huv)

end

/-! ## Buffers -/

/-- Links and references are the same, and the buffers in `H` carry the same bytes under
    shifted numbers.  Of the other buffers the bytes do not matter. -/
structure PoolShift (b : BitVec 32) (H : Set Nat) (x y : BufPool) : Prop where
  list : y.netBufList = x.netBufList
  requests : y.requests = x.requests
  link : ∀ p, (y.buf p).link = (x.buf p).link
  refCount : ∀ p, (y.buf p).refCount = (x.buf p).refCount
  held : ∀ p ∈ H, y.buf p = { x.buf p with seq := (x.buf p).seq + b }

variable {b : BitVec 32} {H K : Set Nat} {x y : BufPool} {p cur prev packet : Nat} {l : List Nat}

/-- Fewer buffers are compared. -/
theorem PoolShift.anti (h : PoolShift b H x y) (hsub : K ⊆ H) : PoolShift b K x y :=
  ⟨h.list, h.requests, h.link, h.refCount, fun p hp => h.held p (hsub hp)⟩

/-- The lengths are the same. -/
theorem PoolShift.len32 (h : PoolShift b H x y) (hp : p ∈ H) :
    (y.buf p).len32 = (x.buf p).len32 := by
  rw [h.held p hp]
  rfl

/-- The sequence numbers are shifted. -/
theorem PoolShift.seq (h : PoolShift b H x y) (hp : p ∈ H) :
    (y.buf p).seq = (x.buf p).seq + b := by
  rw [h.held p hp]

/-- A buffer is written in both runs. -/
theorem PoolShift.setBuf (h : PoolShift b H x y) {u v : NetBuf} (hlink : v.link = u.link)
    (hcount : v.refCount = u.refCount) (hheld : p ∈ K → v = { u with seq := u.seq + b })
    (hsub : ∀ q ∈ K, q ≠ p → q ∈ H) : PoolShift b K (x.setBuf p u) (y.setBuf p v) := by
  refine ⟨h.list, h.requests, fun q => ?_, fun q => ?_, fun q hq => ?_⟩
  · by_cases hqp : q = p
    · simp [hqp, hlink]
    · simp [hqp, h.link q]
  · by_cases hqp : q = p
    · simp [hqp, hcount]
    · simp [hqp, h.refCount q]
  · by_cases hqp : q = p
    · subst hqp
      simpa using hheld hq
    · simpa [hqp] using h.held q (hsub q hq hqp)

/-- One field other than the number is written in both runs. -/
theorem PoolShift.setLink (h : PoolShift b H x y) (p n : Nat) :
    PoolShift b H (x.setBuf p { x.buf p with link := n })
      (y.setBuf p { y.buf p with link := n }) := by
  refine h.setBuf ?_ ?_ ?_ fun q hq _ => hq
  · rfl
  · exact h.refCount p
  · intro hp
    rw [h.held p hp]

/-- The references are the same. -/
theorem PoolShift.setRefCount (h : PoolShift b H x y) (p n : Nat) :
    PoolShift b H (x.setBuf p { x.buf p with refCount := n })
      (y.setBuf p { y.buf p with refCount := n }) := by
  refine h.setBuf ?_ ?_ ?_ fun q hq _ => hq
  · exact h.link p
  · rfl
  · intro hp
    rw [h.held p hp]

/-- Both sides cut a segment. -/
theorem PoolShift.trim (h : PoolShift b H x y) (hp : p ∈ H) (n : Nat) :
    PoolShift b H (x.setBuf p ((x.buf p).trim n)) (y.setBuf p ((y.buf p).trim n)) := by
  refine h.setBuf ?_ ?_ ?_ fun q hq _ => hq
  · exact h.link p
  · exact h.refCount p
  · intro _
    rw [h.held p hp]
    rfl

/-- Both sides release a buffer. -/
theorem PoolShift.free (h : PoolShift b H x y) (p : Nat) :
    PoolShift b H (netFreeBuf x p) (netFreeBuf y p) := by
  -- the counts are the same on both sides
  have hdec := h.setRefCount p (sub32 (x.buf p).refCount 1)
  unfold netFreeBuf
  simp only [h.refCount p]
  by_cases hlast : sub32 (x.buf p).refCount 1 = 0
  · -- it goes in front of the same free list
    simp only [BufPool.setBuf_buf, if_true, hlast]
    have hlist : (y.setBuf p { y.buf p with refCount := 0 }).netBufList =
        (x.setBuf p { x.buf p with refCount := 0 }).netBufList := h.list
    rw [hlast] at hdec
    have hlink := hdec.setLink p x.netBufList
    simp only [BufPool.setBuf_buf, if_true, BufPool.setBuf_setBuf] at hlink
    refine ⟨rfl, h.requests, fun q => ?_, fun q => ?_, fun q hq => ?_⟩
    · simpa [BufPool.setBuf, h.list] using hlink.link q
    · simpa [BufPool.setBuf, h.list] using hlink.refCount q
    · simpa [BufPool.setBuf, h.list] using hlink.held q hq
  · simpa [hlast] using hdec

/-- Both runs take the same buffer. -/
theorem PoolShift.alloc (frames : Nat → Nat) (h : PoolShift b H x y) :
    (netAllocBuf frames y).1 = (netAllocBuf frames x).1 ∧
      PoolShift b (H \ {(netAllocBuf frames x).1}) (netAllocBuf frames x).2
        (netAllocBuf frames y).2 := by
  unfold netAllocBuf
  -- a page, or the head of the free list: the same on both sides
  by_cases hlist : x.netBufList = 0
  · simp only [if_pos hlist, if_pos (h.list.trans hlist), h.requests, true_and]
    have hreq : PoolShift b H { x with requests := x.requests + 1 }
        { y with requests := x.requests + 1 } :=
      ⟨h.list, rfl, h.link, h.refCount, h.held⟩
    have hset := hreq.setBuf (p := frames x.requests) (K := H \ {frames x.requests})
      (u := { x.buf (frames x.requests) with link := 0, data := [], deficit := 0, refCount := 1 })
      (v := { y.buf (frames x.requests) with link := 0, data := [], deficit := 0, refCount := 1 })
      rfl rfl (fun hp => absurd rfl hp.2) fun q hq _ => hq.1
    exact ⟨hset.list, hset.requests, hset.link, hset.refCount, hset.held⟩
  · simp only [if_neg hlist, h.list, h.link x.netBufList, true_and]
    have hpop : PoolShift b H { x with netBufList := (x.buf x.netBufList).link }
        { y with netBufList := (x.buf x.netBufList).link } :=
      ⟨rfl, h.requests, h.link, h.refCount, h.held⟩
    have hset := hpop.setBuf (p := x.netBufList) (K := H \ {x.netBufList})
      (u := { x.buf x.netBufList with link := 0, data := [], deficit := 0, refCount := 1 })
      (v := { y.buf x.netBufList with link := 0, data := [], deficit := 0, refCount := 1 })
      rfl rfl (fun hp => absurd rfl hp.2) fun q hq _ => hq.1
    exact ⟨hset.list, hset.requests, hset.link, hset.refCount, hset.held⟩

/-! ## The resequence list -/

/-- `tcp_recv_insert` between its steps, in both runs: the segments of `l` are linked from
    `cur` on, the packet is not yet one of them, and all are allocated. -/
structure Splice (frames : Nat → Nat) (b : BitVec 32) (packet : Nat) (H : Set Nat) (l : List Nat)
    (x y : BufPool) (cur : Nat) : Prop where
  shift : PoolShift b H x y
  pool : PoolInv frames x H
  chain : Chain (fun p => (x.buf p).link) 0 cur l
  mem : ∀ p ∈ l, p ∈ H
  mine : packet ∈ H
  apart : packet ∉ l
  link : (x.buf packet).link = 0

variable {frames : Nat → Nat}

/-- The packet has an address. -/
theorem Splice.ne_zero (h : Splice frames b packet H l x y cur) : packet ≠ 0 :=
  h.pool.ne_zero packet h.mine

/-- A pointer that is not null leads to a segment of the list. -/
theorem Splice.cons (h : Splice frames b packet H l x y cur) (h0 : cur ≠ 0) :
    ∃ k, l = cur :: k ∧ cur ∈ H := by
  obtain ⟨k, rfl, -⟩ := h.chain.exists_cons h0
  exact ⟨k, rfl, h.mem cur List.mem_cons_self⟩

/-- The first segment is unlinked and released. -/
theorem Splice.drop (h : Splice frames b packet H (cur :: l) x y cur) :
    Splice frames b packet (H \ {cur}) l
      (netFreeBuf (x.setBuf cur { x.buf cur with link := 0 }) cur)
      (netFreeBuf (y.setBuf cur { y.buf cur with link := 0 }) cur) (x.buf cur).link := by
  have hcur := h.mem cur List.mem_cons_self
  have hnot : cur ∉ l := (List.nodup_cons.mp h.chain.nodup).1
  have hpacket : packet ≠ cur := fun heq => h.apart (heq ▸ List.mem_cons_self)
  -- only the segment that is released is written
  have hother : ∀ q ≠ cur,
      (netFreeBuf (x.setBuf cur { x.buf cur with link := 0 }) cur).buf q = x.buf q := by
    intro q hq
    rw [netFreeBuf_other _ hq]
    simp [hq]
  constructor
  · exact ((h.shift.setLink cur 0).free cur).anti fun _ hq => hq.1
  · exact (h.pool.setBuf hcur _).release hcur
  · apply h.chain.2.2.congr
    intro q hq
    rw [hother q fun heq => hnot (heq ▸ hq)]
  · intro q hq
    exact ⟨h.mem q (List.mem_cons_of_mem _ hq), fun heq => hnot (Set.mem_singleton_iff.mp heq ▸ hq)⟩
  · exact ⟨h.mine, fun heq => hpacket (Set.mem_singleton_iff.mp heq)⟩
  · exact fun hmem => h.apart (List.mem_cons_of_mem _ hmem)
  · rw [hother packet hpacket]
    exact h.link

/-- A segment of the list, or the packet, is cut off at its end. -/
theorem Splice.trim (h : Splice frames b packet H l x y cur) (hp : p ∈ H) (n : Nat) :
    Splice frames b packet H l (x.setBuf p ((x.buf p).trim n)) (y.setBuf p ((y.buf p).trim n))
      cur := by
  have hlink : ∀ q, ((x.setBuf p ((x.buf p).trim n)).buf q).link = (x.buf q).link := by
    intro q
    by_cases hq : q = p
    · simp [hq, NetBuf.trim]
    · simp [hq]
  refine { h with shift := h.shift.trim hp n, pool := h.pool.setBuf hp _, chain := ?_, link := ?_ }
  · exact h.chain.congr fun q _ => hlink q
  · rw [hlink]
    exact h.link

/-- Both sides find the same place. -/
theorem tcpInsertPos_shift (h : PoolShift b H x y) (hc : Chain (fun p => (x.buf p).link) 0 cur l)
    (hl : ∀ p ∈ l, p ∈ H) (seq : BitVec 32) (fuel prev : Nat) :
    tcpInsertPos y (seq + b) fuel prev cur = tcpInsertPos x seq fuel prev cur := by
  induction fuel generalizing prev cur l with
  | zero => rfl
  | succ fuel ih =>
    rw [tcpInsertPos, tcpInsertPos]
    by_cases h0 : cur = 0
    · rw [if_pos h0, if_pos h0]
    · obtain ⟨k, rfl, hk⟩ := hc.exists_cons h0
      rw [if_neg h0, if_neg h0, h.seq (hl cur List.mem_cons_self), seqDiff_shift, h.link cur,
        ih hk fun q hq => hl q (List.mem_cons_of_mem _ hq)]

/-- The position is inside the list. -/
theorem tcpInsertPos_mem {seq : BitVec 32} {fuel : Nat} {r : Nat × Nat}
    (hc : Chain (fun p => (x.buf p).link) 0 cur l)
    (h : tcpInsertPos x seq fuel prev cur = some r) :
    (r.1 = prev ∨ r.1 ∈ l) ∧ ∃ k, k <:+ l ∧ Chain (fun p => (x.buf p).link) 0 r.2 k := by
  -- along the list, as far as the loop goes
  induction fuel generalizing prev cur l with
  | zero => exact nomatch h
  | succ fuel ih =>
    rw [tcpInsertPos] at h
    split at h
    · rename_i h0
      cases h
      exact ⟨.inl rfl, [], List.nil_suffix, rfl⟩
    · rename_i h0
      split at h
      · cases h
        exact ⟨.inl rfl, l, List.suffix_refl l, hc⟩
      · obtain ⟨k, rfl, hk⟩ := hc.exists_cons h0
        obtain ⟨hprev, j, hj, hchain⟩ := ih hk h
        refine ⟨.inr ?_, j, hj.trans (List.suffix_cons _ _), hchain⟩
        rcases hprev with heq | hmem
        · rw [heq]
          exact List.mem_cons_self
        · exact List.mem_cons_of_mem _ hmem

/-- Both sides drop the same segments. -/
theorem tcpInsertDrop_shift (fuel : Nat) (h : Splice frames b packet H l x y cur) :
    Option.Rel (fun x' y' => ∃ K, Splice frames b packet K [] x' y' 0)
      (tcpInsertDrop fuel x cur) (tcpInsertDrop fuel y cur) := by
  induction fuel generalizing x y cur l H with
  | zero => exact .none
  | succ fuel ih =>
    rw [tcpInsertDrop, tcpInsertDrop]
    by_cases h0 : cur = 0
    · rw [if_pos h0, if_pos h0]
      subst h0
      obtain rfl : l = [] := h.chain.unique rfl
      exact .some ⟨H, h⟩
    · obtain ⟨k, rfl, -⟩ := h.cons h0
      rw [if_neg h0, if_neg h0]
      simp only [h.shift.link cur]
      exact ih h.drop

/-- Both sides merge the same segments. -/
theorem tcpInsertMerge_shift (fuel : Nat) (dataLen : BitVec 32)
    (h : Splice frames b packet H l x y cur) :
    Option.Rel (fun r r' => r'.2 = r.2 ∧ ∃ K k, Splice frames b packet K k r.1 r'.1 r.2)
      (tcpInsertMerge packet dataLen fuel x cur) (tcpInsertMerge packet dataLen fuel y cur) := by
  induction fuel generalizing x y cur l H with
  | zero => exact .none
  | succ fuel ih =>
    rw [tcpInsertMerge, tcpInsertMerge]
    -- the end of the list, or a segment that both sides compare
    by_cases h0 : cur = 0
    · rw [if_pos h0, if_pos h0]
      subst h0
      exact .some ⟨rfl, H, l, h⟩
    · obtain ⟨k, rfl, hcur⟩ := h.cons h0
      have hdrop := h.drop
      rw [if_neg h0, if_neg h0]
      simp only [h.shift.seq hcur] at hdrop
      simp only [h.shift.link cur, h.shift.seq hcur, h.shift.seq h.mine, h.shift.len32 hcur]
      -- the numbers only enter as differences
      have hbefore : seqDiff ((x.buf packet).seq + b + dataLen) ((x.buf cur).seq + b) =
          seqDiff ((x.buf packet).seq + dataLen) (x.buf cur).seq := by
        rw [add_right_comm, seqDiff_shift]
      have hcut : (x.buf packet).seq + b + dataLen - ((x.buf cur).seq + b) =
          (x.buf packet).seq + dataLen - (x.buf cur).seq := by
        rw [add_right_comm, add_sub_add_right_eq_sub]
      rw [hbefore, seqDiff_shift_add, hcut]
      split
      · exact .some ⟨rfl, H, cur :: k, h⟩
      split
      · exact .some ⟨rfl, H, cur :: k, h.trim h.mine _⟩
      · exact ih hdrop

/-- What `tcp_recv_insert` leaves: the queue starts at `head`. -/
def Queued (frames : Nat → Nat) (b : BitVec 32) (x y : BufPool) (head : Nat) : Prop :=
  ∃ H l, PoolShift b H x y ∧ PoolInv frames x H ∧ Chain (fun p => (x.buf p).link) 0 head l ∧
    ∀ p ∈ l, p ∈ H

/-- Both sides link the packet. -/
theorem Splice.insertLink (h : Splice frames b packet H l x y cur) :
    Queued frames b (tcpInsertLink x packet cur) (tcpInsertLink y packet cur) packet := by
  unfold tcpInsertLink
  by_cases h0 : cur = 0
  · simp only [h0, ne_eq, not_true_eq_false, if_false]
    exact ⟨H, [packet], h.shift, h.pool, ⟨rfl, h.ne_zero, h.link⟩, by simpa using h.mine⟩
  · obtain ⟨k, rfl, hcur⟩ := h.cons h0
    have hne : packet ≠ cur := fun heq => h.apart (heq ▸ List.mem_cons_self)
    simp only [ne_eq, h0, not_false_eq_true, if_true, h.shift.link packet]
    refine ⟨H, [packet, cur], (h.shift.setLink cur _).setLink packet cur, ?_, ?_, ?_⟩
    · exact (h.pool.setBuf hcur _).setBuf h.mine _
    · simp [h.ne_zero, h0, hne.symm, h.link]
    · intro q hq
      rcases List.mem_cons.mp hq with rfl | hq
      · exact h.mine
      · exact (List.mem_singleton.mp hq) ▸ hcur

/-- From the FIN test on. -/
theorem tcpInsertRest_shift (dataLen : BitVec 32) (h : Splice frames b packet H l x y cur) :
    Option.Rel (fun r r' => r'.2 = r.2 ∧ Queued frames b r.1 r'.1 r.2)
      (tcpInsertRest x packet dataLen cur) (tcpInsertRest y packet dataLen cur) := by
  -- the FIN test looks at the flags
  have hflags : (y.buf packet).flags = (x.buf packet).flags := by rw [h.shift.held packet h.mine]
  have hdrop : Option.Rel
      (fun r r' => r'.2 = r.2 ∧ ∃ K k, Splice frames b packet K k r.1 r'.1 r.2)
      (if hasFlag ((x.buf packet).flags.setWidth 8) TCP_FIN then
        (tcpInsertDrop walkFuel x cur).map (·, 0) else some (x, cur))
      (if hasFlag ((x.buf packet).flags.setWidth 8) TCP_FIN then
        (tcpInsertDrop walkFuel y cur).map (·, 0) else some (y, cur)) := by
    split
    · exact rel_map (tcpInsertDrop_shift walkFuel h) fun u v ⟨K, hK⟩ => ⟨rfl, K, [], hK⟩
    · exact .some ⟨rfl, H, l, h⟩
  unfold tcpInsertRest
  rw [hflags]
  apply rel_bind hdrop
  rintro ⟨u, c⟩ ⟨v, c'⟩ ⟨rfl, K, k, hK⟩
  apply rel_map (tcpInsertMerge_shift walkFuel dataLen hK)
  rintro ⟨u', c⟩ ⟨v', c'⟩ ⟨rfl, K', k', hK'⟩
  exact ⟨rfl, hK'.insertLink⟩

/-- `tcp_recv_insert` -/
theorem tcpRecvInsert_shift {head : Nat} (h : Splice frames b packet H l x y head) :
    Option.Rel (fun r r' => r'.2 = r.2 ∧ Queued frames b r.1 r'.1 r.2)
      (tcpRecvInsert x head packet) (tcpRecvInsert y head packet) := by
  unfold tcpRecvInsert
  simp only
  rw [h.shift.len32 h.mine, h.shift.seq h.mine, tcpInsertPos_shift h.shift h.chain h.mem]
  -- the place was found on both sides, or on none
  cases hpos : tcpInsertPos x (x.buf packet).seq walkFuel 0 head with
  | none => exact .none
  | some pos =>
    obtain ⟨prev, cur⟩ := pos
    obtain ⟨hprev, k, hk, hchain⟩ := tcpInsertPos_mem h.chain hpos
    simp only [Option.bind_some]
    have hrest : Splice frames b packet H k x y cur :=
      { h with
        chain := hchain
        mem := fun q hq => h.mem q (hk.subset hq)
        apart := fun hq => h.apart (hk.subset hq) }
    -- at the head of the queue there is no segment to trim against
    by_cases h0 : prev = 0
    · simp only [h0, ne_eq, not_true_eq_false, false_and, if_false, tcpInsertTrim]
      exact tcpInsertRest_shift _ hrest
    · have hmem : prev ∈ H := h.mem prev (hprev.resolve_left h0)
      have hprevEnd : seqDiff ((y.buf prev).seq + (y.buf prev).len32)
            ((x.buf packet).seq + b + (x.buf packet).len32) =
          seqDiff ((x.buf prev).seq + (x.buf prev).len32)
            ((x.buf packet).seq + (x.buf packet).len32) := by
        rw [h.shift.seq hmem, h.shift.len32 hmem, seqDiff_shift_add]
      have hover : seqDiff ((y.buf prev).seq + (y.buf prev).len32) ((x.buf packet).seq + b) =
          seqDiff ((x.buf prev).seq + (x.buf prev).len32) (x.buf packet).seq := by
        rw [h.shift.seq hmem, h.shift.len32 hmem, add_right_comm, seqDiff_shift]
      have hcut : (y.buf prev).seq + (y.buf prev).len32 - ((x.buf packet).seq + b) =
          (x.buf prev).seq + (x.buf prev).len32 - (x.buf packet).seq := by
        rw [h.shift.seq hmem, h.shift.len32 hmem, add_right_comm, add_sub_add_right_eq_sub]
      rw [hprevEnd]
      split
      · -- the segment before covers the packet
        refine .some ⟨rfl, H \ {packet}, l, ?_, h.pool.release h.mine, ?_, ?_⟩
        · exact (h.shift.free packet).anti fun _ hq => hq.1
        · apply h.chain.congr
          intro q hq
          have hne : q ≠ packet := fun heq => h.apart (heq ▸ hq)
          rw [netFreeBuf_other _ hne]
        · intro q hq
          exact ⟨h.mem q hq, fun heq => h.apart (Set.mem_singleton_iff.mp heq ▸ hq)⟩
      · unfold tcpInsertTrim
        simp only [hover, hcut]
        split
        · exact tcpInsertRest_shift _ (hrest.trim hmem _)
        · exact tcpInsertRest_shift _ hrest

/-- The loop of `tcp_free` empties a queue of held segments. -/
theorem tcpFreeQueue_shift (fuel : Nat) (h : PoolShift b H x y) (hi : PoolInv frames x H)
    (hc : Chain (fun p => (x.buf p).link) 0 cur l) (hl : ∀ p ∈ l, p ∈ H) :
    Option.Rel (fun x' y' => PoolShift b ∅ x' y' ∧ PoolInv frames x' ∅)
      (tcpFreeQueue fuel x cur) (tcpFreeQueue fuel y cur) := by
  -- segment by segment
  induction fuel generalizing x y cur l H with
  | zero => exact .none
  | succ fuel ih =>
    rw [tcpFreeQueue, tcpFreeQueue]
    by_cases h0 : cur = 0
    · rw [if_pos h0, if_pos h0]
      exact .some ⟨h.anti (Set.empty_subset H), hi.anti (Set.empty_subset H)⟩
    · obtain ⟨k, rfl, hk⟩ := hc.exists_cons h0
      have hnot : cur ∉ k := (List.nodup_cons.mp hc.nodup).1
      rw [if_neg h0, if_neg h0, h.link cur]
      have hfree : PoolShift b (H \ {cur}) (netFreeBuf x cur) (netFreeBuf y cur) :=
        (h.free cur).anti fun _ hq => hq.1
      apply ih hfree (hi.release (hl cur List.mem_cons_self))
      · apply hk.congr
        intro q hq
        have hne : q ≠ cur := fun heq => hnot (heq ▸ hq)
        rw [netFreeBuf_other x hne]
      · intro q hq
        exact ⟨hl q (List.mem_cons_of_mem _ hq),
          fun heq => hnot (Set.mem_singleton_iff.mp heq ▸ hq)⟩

end MishaOS
