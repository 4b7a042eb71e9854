import MishaOS.ForStd.LinkedList
import MishaOS.Native.Buf
import Mathlib.Data.List.Perm.Subperm
import Mathlib.Data.Set.Insert

/-!
# Ownership of network buffers

Every buffer is either on the free list or held by somebody: a protocol, a
driver, a cache entry.  `PoolInv frames b held` says that the free list is a
finite chain without held buffers and that the pages still to come are new.
`RefInv frames b refs` says so of the buffers in a list of references, in which
a buffer may occur several times, and that `ref_count` counts them all.

## Key results

- `netAllocBuf_spec`: an allocation returns a buffer nobody holds.
- `netFreeBuf_spec`: releasing the last reference gives the buffer back.
- `RefInv.alloc`, `RefInv.free`: a reference is added and dropped.
-/

namespace MishaOS

open LinkedList

/-- The page allocator: requests succeed and never return one page twice. -/
structure FramesOk (frames : Nat → Nat) : Prop where
  injective : Function.Injective frames
  ne_zero : ∀ k, frames k ≠ 0

/-- The free list and the held buffers are apart. -/
structure PoolInv (frames : Nat → Nat) (b : BufPool) (held : Set Nat) : Prop where
  free : ∃ l, Chain (fun p => (b.buf p).link) 0 b.netBufList l ∧ (∀ p ∈ l, p ∉ held) ∧
    ∀ k ≥ b.requests, frames k ∉ l
  ne_zero : ∀ p ∈ held, p ≠ 0
  fresh : ∀ k ≥ b.requests, frames k ∉ held

variable {frames : Nat → Nat} {b : BufPool} {held : Set Nat} {p : Nat}

/-- Whoever holds a buffer may write it. -/
theorem PoolInv.setBuf (hi : PoolInv frames b held) (hp : p ∈ held) (x : NetBuf) :
    PoolInv frames (b.setBuf p x) held := by
  obtain ⟨l, hc, hl, hf⟩ := hi.free
  refine ⟨⟨l, ?_, hl, hf⟩, hi.ne_zero, hi.fresh⟩
  apply hc.congr
  intro q hq
  have hqp : q ≠ p := fun e => hl q hq (e ▸ hp)
  simp [hqp]

theorem PoolInv.anti (hi : PoolInv frames b held) {held' : Set Nat} (hsub : held' ⊆ held) :
    PoolInv frames b held' := by
  obtain ⟨l, hc, hl, hf⟩ := hi.free
  exact ⟨⟨l, hc, fun p hp h => hl p hp (hsub h), hf⟩, fun p hp => hi.ne_zero p (hsub hp),
    fun k hk h => hi.fresh k hk (hsub h)⟩

/-- The counter of allocated buffers is not part of the invariant. -/
theorem PoolInv.congr {b' : BufPool} (hi : PoolInv frames b held)
    (hlist : b'.netBufList = b.netBufList)
    (hbuf : b'.buf = b.buf) (hreq : b'.requests = b.requests) : PoolInv frames b' held := by
  obtain ⟨l, hc, hl, hf⟩ := hi.free
  exact ⟨⟨l, by rw [hlist, hbuf]; exact hc, hl, by rw [hreq]; exact hf⟩, hi.ne_zero,
    by rw [hreq]; exact hi.fresh⟩

/-- An allocated buffer is nobody else's, empty and referenced once; no other
    buffer is touched. -/
theorem netAllocBuf_spec (hf : FramesOk frames) (hi : PoolInv frames b held) :
    (netAllocBuf frames b).1 ∉ held ∧
      PoolInv frames (netAllocBuf frames b).2 (insert (netAllocBuf frames b).1 held) ∧
      (∀ q ≠ (netAllocBuf frames b).1, (netAllocBuf frames b).2.buf q = b.buf q) ∧
      (let x := (netAllocBuf frames b).2.buf (netAllocBuf frames b).1
      x.link = 0 ∧ x.data = [] ∧ x.deficit = 0 ∧ x.refCount = 1) := by
  obtain ⟨l, hc, hl, hfl⟩ := hi.free
  unfold netAllocBuf
  by_cases hlist : b.netBufList = 0
  · -- the list is empty: a new page
    have hnil : l = [] := by
      rw [hlist] at hc
      exact hc.unique rfl
    subst hnil
    have hp : frames b.requests ∉ held := hi.fresh _ (Nat.le_refl _)
    simp only [if_pos hlist]
    refine ⟨hp, ⟨⟨[], by simpa using hlist, by simp, by simp⟩, ?_, ?_⟩, ?_, by simp⟩
    -- the new page is not null, and it is held from now on
    · intro q hq
      rcases hq with rfl | hq
      · exact hf.ne_zero _
      · exact hi.ne_zero q hq
    · intro k hk hmem
      have hk' : b.requests + 1 ≤ k := hk
      rcases hmem with heq | hmem
      · have := hf.injective heq
        omega
      · exact hi.fresh k (by omega) hmem
    · intro q hq
      simp [hq]
  -- the head of the free list is taken
  · obtain ⟨k, rfl, hrest⟩ := hc.exists_cons hlist
    have hnot : b.netBufList ∉ k := (List.nodup_cons.mp hc.nodup).1
    simp only [if_neg hlist]
    refine ⟨hl _ List.mem_cons_self, ⟨⟨k, ?_, ?_, ?_⟩, ?_, ?_⟩, ?_, by simp⟩
    · apply hrest.congr
      intro q hq
      have hne : q ≠ b.netBufList := fun e => hnot (e ▸ hq)
      simp [hne]
    -- it is not in the rest of the list
    · intro q hq hmem
      rcases hmem with rfl | hmem
      · exact hnot hq
      · exact hl q (List.mem_cons_of_mem _ hq) hmem
    · intro j hj hq
      exact hfl j hj (List.mem_cons_of_mem _ hq)
    · intro q hq
      rcases hq with rfl | hq
      · exact hlist
      · exact hi.ne_zero q hq
    · intro j hj hmem
      rcases hmem with heq | hmem
      · exact hfl j hj (heq ▸ List.mem_cons_self)
      · exact hi.fresh j hj hmem
    · intro q hq
      simp [hq]

/-- Releasing the last reference puts the buffer on the free list. -/
theorem netFreeBuf_spec (hi : PoolInv frames b held) (hp : p ∈ held)
    (hone : (b.buf p).refCount = 1) :
    PoolInv frames (netFreeBuf b p) (held \ {p}) ∧ ∀ q ≠ p, (netFreeBuf b p).buf q = b.buf q := by
  -- the count becomes 0, so the buffer is put in front of the free list
  have hzero : sub32 1 1 = 0 := by simp [sub32]
  obtain ⟨l, hc, hl, hf⟩ := hi.free
  have hpl : p ∉ l := fun h => hl p h hp
  unfold netFreeBuf
  simp only [BufPool.setBuf_buf, if_pos, hone, hzero, BufPool.setBuf_netBufList]
  refine ⟨⟨⟨p :: l, ⟨rfl, hi.ne_zero p hp, ?_⟩, ?_, ?_⟩, ?_, ?_⟩, ?_⟩
  · simp only [BufPool.setBuf_buf, if_pos]
    apply hc.congr
    intro q hq
    have hqp : q ≠ p := fun e => hpl (e ▸ hq)
    simp [hqp]
  -- a free buffer is not held any more
  · intro q hq hmem
    rcases List.mem_cons.mp hq with rfl | hq
    · exact hmem.2 rfl
    · exact hl q hq hmem.1
  · intro k hk hmem
    rcases List.mem_cons.mp hmem with heq | hmem
    · exact hi.fresh k hk (heq ▸ hp)
    · exact hf k hk hmem
  · intro q hq
    exact hi.ne_zero q hq.1
  · intro k hk hmem
    exact hi.fresh k hk hmem.1
  · intro q hq
    simp [hq]

/-- Releasing another reference only counts it down. -/
theorem netFreeBuf_shared {n : Nat} (hn : (b.buf p).refCount = n + 2) (hlt : n + 2 < 4294967296) :
    netFreeBuf b p = b.setBuf p { b.buf p with refCount := n + 1 } := by
  have hsub : sub32 (n + 2) 1 = n + 1 := sub32_of_le (by omega) hlt
  simp [netFreeBuf, hn, hsub]

theorem netFreeBuf_other (b : BufPool) {p q : Nat} (h : q ≠ p) :
    (netFreeBuf b p).buf q = b.buf q := by
  unfold netFreeBuf
  simp only
  split <;> simp [h]

theorem netFreeBuf_requests (b : BufPool) (p : Nat) : (netFreeBuf b p).requests = b.requests := by
  unfold netFreeBuf
  simp only
  split <;> rfl

/-- Whatever the count is, whoever releases a buffer no longer holds it. -/
theorem PoolInv.release (hi : PoolInv frames b held) (hp : p ∈ held) :
    PoolInv frames (netFreeBuf b p) (held \ {p}) := by
  have hzero : sub32 1 1 = 0 := by simp [sub32]
  by_cases hlast : sub32 (b.buf p).refCount 1 = 0
  · -- it goes to the free list, as it would with a count of one
    have hone : netFreeBuf b p = netFreeBuf (b.setBuf p { b.buf p with refCount := 1 }) p := by
      simp [netFreeBuf, hlast, hzero]
    rw [hone]
    exact (netFreeBuf_spec (hi.setBuf hp _) hp (by simp)).1
  · have hcount : netFreeBuf b p =
        b.setBuf p { b.buf p with refCount := sub32 (b.buf p).refCount 1 } := by
      simp [netFreeBuf, hlast]
    rw [hcount]
    exact (hi.setBuf hp _).anti fun _ hq => hq.1

/-! ## Counted references -/

/-- All references are counted; there may be more than those in the list. -/
structure RefInv (frames : Nat → Nat) (b : BufPool) (refs : List Nat) : Prop where
  pool : PoolInv frames b { x | x ∈ refs }
  counted : ∀ x ∈ refs, refs.count x ≤ (b.buf x).refCount ∧ (b.buf x).refCount < 4294967296

variable {refs refs' : List Nat}

/-- References may be forgotten. -/
theorem RefInv.subperm (h : RefInv frames b refs) (hsub : refs'.Subperm refs) :
    RefInv frames b refs' := by
  refine ⟨h.pool.anti fun x hx => hsub.subset hx, fun x hx => ?_⟩
  obtain ⟨hle, hlt⟩ := h.counted x (hsub.subset hx)
  exact ⟨Nat.le_trans (hsub.count_le x) hle, hlt⟩

theorem RefInv.ne_zero (h : RefInv frames b refs) (hp : p ∈ refs) : p ≠ 0 := h.pool.ne_zero p hp

/-- A page was asked for something else. -/
theorem RefInv.request (h : RefInv frames b refs) :
    RefInv frames { b with requests := b.requests + 1 } refs := by
  obtain ⟨l, hc, hl, hf⟩ := h.pool.free
  exact ⟨⟨⟨l, hc, hl, fun k hk => hf k (Nat.le_of_succ_le hk)⟩, h.pool.ne_zero,
    fun k hk => h.pool.fresh k (Nat.le_of_succ_le hk)⟩, h.counted⟩

/-- A referenced buffer may be written. -/
theorem RefInv.setBuf (h : RefInv frames b refs) (hp : p ∈ refs) {x : NetBuf}
    (hx : x.refCount = (b.buf p).refCount) : RefInv frames (b.setBuf p x) refs := by
  refine ⟨h.pool.setBuf hp x, fun q hq => ?_⟩
  rw [BufPool.setBuf_buf]
  split
  · rename_i heq
    rw [hx, ← heq]
    exact h.counted q hq
  · exact h.counted q hq

/-- `++buf->ref_count` -/
theorem RefInv.ref (h : RefInv frames b refs) (hp : p ∈ refs) {x : NetBuf}
    (hx : x.refCount = (b.buf p).refCount + 1) (hlt : x.refCount < 4294967296) :
    RefInv frames (b.setBuf p x) (p :: refs) := by
  have hset : { q | q ∈ p :: refs } ⊆ { q | q ∈ refs } := by
    intro q hq
    obtain rfl | hq := List.mem_cons.mp hq
    · exact hp
    · exact hq
  refine ⟨(h.pool.setBuf hp x).anti hset, fun q hq => ?_⟩
  rw [BufPool.setBuf_buf]
  split
  · rename_i heq
    rw [heq, List.count_cons_self, hx]
    exact ⟨Nat.succ_le_succ (h.counted p hp).1, hx ▸ hlt⟩
  · rename_i hne
    rw [List.count_cons_of_ne (Ne.symm hne)]
    exact h.counted q (hset hq)

/-- `net_alloc_buf` -/
theorem RefInv.alloc (hf : FramesOk frames) (h : RefInv frames b refs) :
    (netAllocBuf frames b).1 ∉ refs ∧
      RefInv frames (netAllocBuf frames b).2 ((netAllocBuf frames b).1 :: refs) ∧
      (∀ q ≠ (netAllocBuf frames b).1, (netAllocBuf frames b).2.buf q = b.buf q) ∧
      (let x := (netAllocBuf frames b).2.buf (netAllocBuf frames b).1
      x.link = 0 ∧ x.data = [] ∧ x.deficit = 0 ∧ x.refCount = 1) := by
  obtain ⟨hnew, hpool, hother, hbuf⟩ := netAllocBuf_spec hf h.pool
  generalize (netAllocBuf frames b).1 = p at *
  generalize (netAllocBuf frames b).2 = b' at *
  refine ⟨hnew, ⟨hpool.anti fun q hq => List.mem_cons.mp hq, fun q hq => ?_⟩, hother, hbuf⟩
  by_cases heq : q = p
  · rw [heq, List.count_cons_self, List.count_eq_zero_of_not_mem hnew, hbuf.2.2.2]
    decide
  · rw [hother q heq, List.count_cons_of_ne (Ne.symm heq)]
    exact h.counted q ((List.mem_cons.mp hq).resolve_left heq)

/-- `net_free_buf` of a reference; what else is referenced is not touched. -/
theorem RefInv.free (h : RefInv frames b (p :: refs)) :
    RefInv frames (netFreeBuf b p) refs ∧ (∀ q ≠ p, (netFreeBuf b p).buf q = b.buf q) ∧
      (p ∈ refs → ∃ n, (netFreeBuf b p).buf p = { b.buf p with refCount := n }) := by
  obtain ⟨hle, hlt⟩ := h.counted p List.mem_cons_self
  rw [List.count_cons_self] at hle
  -- the count of another buffer stays as it was
  have hne : ∀ q ∈ refs, q ≠ p → refs.count q ≤ (b.buf q).refCount ∧
      (b.buf q).refCount < 4294967296 := by
    intro q hq hqp
    have := h.counted q (List.mem_cons_of_mem p hq)
    rwa [List.count_cons_of_ne (Ne.symm hqp)] at this
  obtain hone | ⟨n, hn⟩ : (b.buf p).refCount = 1 ∨ ∃ n, (b.buf p).refCount = n + 2 := by
    obtain hone | htwo := Nat.lt_or_ge (b.buf p).refCount 2
    · left
      omega
    · right
      exact ⟨_, (Nat.sub_add_cancel htwo).symm⟩
  · -- the last reference: the buffer goes back
    have hnot : p ∉ refs := List.count_eq_zero.mp (by omega)
    obtain ⟨hpool, hother⟩ := netFreeBuf_spec h.pool (show p ∈ { x | x ∈ p :: refs } by simp) hone
    refine ⟨⟨hpool.anti fun q hq => ⟨List.mem_cons_of_mem p hq, fun heq => hnot (heq ▸ hq)⟩,
      fun q hq => ?_⟩, hother, fun hp => absurd hp hnot⟩
    have hqp : q ≠ p := fun heq => hnot (heq ▸ hq)
    rw [hother q hqp]
    exact hne q hq hqp
  · -- another reference remains
    rw [netFreeBuf_shared hn (hn ▸ hlt)]
    have hpool := h.pool.setBuf (show p ∈ { x | x ∈ p :: refs } by simp)
      { b.buf p with refCount := n + 1 }
    refine ⟨⟨hpool.anti fun q hq => List.mem_cons_of_mem p hq, fun q hq => ?_⟩,
      fun q hq => by simp [hq],
      fun _ => ⟨n + 1, by simp⟩⟩
    rw [BufPool.setBuf_buf]
    split
    · rename_i heq
      rw [heq]
      exact ⟨by show _ ≤ n + 1; omega, by show n + 1 < _; omega⟩
    · rename_i hqp
      exact hne q hq hqp

end MishaOS
