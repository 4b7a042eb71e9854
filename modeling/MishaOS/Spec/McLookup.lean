import MishaOS.ForStd.Run
import MishaOS.Native.McTables
import MishaOS.Spec.McWrap

/-!
# What the tables are asked for

The buffer never takes more bytes than it has room for.  The number of a
packet comes from the network and is reduced to the size of the largest table
only, so a lookup in a smaller one is inside when the number is.

## Key results

- `mcReadPacket_copy`, `mcReadPacket_calls`: what is recorded is what
  `mc_read_packet` does.
- `mcLinkRun_safe_iff`: the runs in which every copy and every lookup is
  inside.
- `mcLinkRun_outside`: a lookup outside the table.
-/

namespace MishaOS

open Bytes Ring

variable {α : Type*} {s : McRx α} {c : McChunk} {l : McLink α} {tables : McTable → McTables α}

/-! ## The copy -/

/-- The buffer takes the part of a chunk that it has room for. -/
theorem toNat_taken (hcnt : s.rxCnt.toNat ≤ 16384) (hlen : c.data.length < 2147483648) :
    (mcRxBytes s.rxCnt c.len).toNat = min c.data.length (16384 - s.rxCnt.toNat) := by
  have hbytes := toNat_rxBytes hcnt hlen
  rw [BitVec.ofNat_toNat, BitVec.setWidth_eq] at hbytes
  exact hbytes

theorem mcCopy_eq (hcnt : s.rxCnt.toNat ≤ 16384) (hlen : c.data.length < 2147483648) :
    mcCopy s c = (s.rxCnt.toNat, min c.data.length (16384 - s.rxCnt.toNat)) := by
  unfold mcCopy
  rw [toNat_taken hcnt hlen]

theorem memcpy_eq_blit {n : Nat} (dst : Mem) (offset : Nat) (hn : n ≤ c.data.length) :
    memcpy dst offset c.buf n = blit dst offset (c.data.take n) := by
  funext a
  by_cases hin : offset ≤ a ∧ a < offset + n
  · obtain ⟨x, hx⟩ : ∃ x, c.data[a - offset]? = some x := ⟨_, List.getElem?_eq_getElem (by omega)⟩
    have htake : (c.data.take n)[a - offset]? = some x := by
      rw [List.getElem?_take_of_lt (by omega), hx]
    have hinside : blit dst offset (c.data.take n) (offset + (a - offset)) = x := blit_inside htake
    have ha : offset + (a - offset) = a := by omega
    rw [ha] at hinside
    rw [memcpy, if_pos hin, hinside, McChunk.buf, hx]
    rfl
  · rw [memcpy, if_neg hin, blit_outside (by rw [List.length_take]; omega)]

/-! ## The lookup -/

/-- The number of the packet in memory. -/
def mcPacketNumber (ptr : Mem) : BitVec 32 := (mcVardecode fun i => ptr ((mcVardecode ptr).2 + i)).1

/-- If the chunk completes a packet that has the length it should have, a table of `size` entries
    has one for the number of the packet modulo 255. -/
def McFits (size : Nat) (s : McRx α) (c : McChunk) : Prop :=
  let collected := blit s.rxPtr s.rxCnt.toNat (c.data.take (16384 - s.rxCnt.toNat))
  let len := if s.rxPos = 0 then mcPacketLen c.buf else s.rxLen
  len ≤ s.rxPos + c.len → mcPacketLen collected = len →
    (mcPacketNumber collected).toNat % 255 < size

theorem mcLookup_lt_iff (size : Nat) (hcnt : s.rxCnt.toNat ≤ 16384)
    (hlen : c.data.length < 2147483648) :
    (∀ id ∈ mcLookup s c, id < size) ↔ McFits size s c := by
  -- the bytes in the buffer, with the part of the chunk that there was room for
  have hcollected : memcpy s.rxPtr s.rxCnt.toNat c.buf (min c.data.length (16384 - s.rxCnt.toNat)) =
      blit s.rxPtr s.rxCnt.toNat (c.data.take (16384 - s.rxCnt.toNat)) := by
    rw [memcpy_eq_blit _ _ (Nat.min_le_left _ _), Nat.min_comm, ← List.take_take, List.take_length]
  unfold mcLookup McFits
  rw [mcCopy_eq hcnt hlen]
  dsimp only
  rw [hcollected]
  -- the length expected is not computed from the buffer
  generalize (if s.rxPos = 0 then mcPacketLen c.buf else s.rxLen) = rxLen
  split <;> rename_i hdone
  · split <;> rename_i hlength
    · exact iff_of_true (fun id hid => nomatch hid) fun _ heq => absurd heq hlength
    · constructor
      · intro hid _ _
        exact hid _ rfl
      · intro hfits id hid
        cases hid
        exact hfits hdone (not_not.mp hlength)
  · exact iff_of_true (fun id hid => nomatch hid) fun hle => absurd hle hdone

/-- Every number has an entry in the table of the play state. -/
theorem mcFits_play (s : McRx α) (c : McChunk) : McFits McTable.play.size s c := by
  intro _ _
  exact Nat.mod_lt _ (by decide)

/-- The copy that is recorded is the one that `mc_read_packet` makes. -/
theorem mcReadPacket_copy (table : McTables α) (s : McRx α) (c : McChunk) :
    (mcReadPacket table s c).rxPtr = memcpy s.rxPtr (mcCopy s c).1 c.buf (mcCopy s c).2 := by
  unfold mcReadPacket mcCopy
  dsimp only
  generalize (if s.rxPos = 0 then mcPacketLen c.buf else s.rxLen) = rxLen
  split <;> rfl

/-- The calls that `mc_read_packet` makes are those of the entry that it looks up. -/
theorem mcReadPacket_calls (table : McTables α) (s : McRx α) (c : McChunk) :
    ∃ payload, (mcReadPacket table s c).calls = s.calls ++
      (mcLookup s c).elim [] fun id => mcDispatch table id payload := by
  unfold mcReadPacket mcLookup mcCopy
  dsimp only
  generalize memcpy s.rxPtr s.rxCnt.toNat c.buf (mcRxBytes s.rxCnt c.len).toNat = ptr
  generalize (if s.rxPos = 0 then mcPacketLen c.buf else s.rxLen) = rxLen
  refine ⟨(mcPacketParts ptr (s.rxCnt + mcRxBytes s.rxCnt c.len).toNat).2, ?_⟩
  split
  · split <;> rename_i hlength
    · dsimp only
      rw [mcPacket, if_pos hlength]
      rfl
    · dsimp only
      rw [mcPacket_eq table (not_not.mp hlength)]
      rfl
  · exact (List.append_nil _).symm

/-! ## Runs -/

/-- What is collected and every copy are inside the buffer. -/
structure McInside (l : McLink α) : Prop where
  cnt : l.rx.rxCnt.toNat ≤ RX_BUF_SIZE.toNat
  copies : ∀ p ∈ l.copies, p.1 + p.2 ≤ RX_BUF_SIZE.toNat

/-- Also every lookup is inside the table that was installed. -/
structure McSafe (l : McLink α) : Prop extends McInside l where
  lookups : ∀ p ∈ l.lookups, p.2 < p.1.size

/-- What is needed of a step: installing a table needs nothing. -/
def McLinkOp.Fits (l : McLink α) : McLinkOp → Prop
  | .install _ => True
  | .chunk c => McFits l.table.size l.rx c

/-- The buffer after a chunk. -/
theorem mcReadPacket_cnt (table : McTables α) (hcnt : s.rxCnt.toNat ≤ 16384)
    (hlen : c.data.length < 2147483648) :
    (mcReadPacket table s c).rxCnt.toNat ≤ 16384 := by
  -- the buffer is emptied, or has grown by what was copied
  have hcases : (mcReadPacket table s c).rxCnt = 0 ∨
      (mcReadPacket table s c).rxCnt = s.rxCnt + mcRxBytes s.rxCnt c.len := by
    unfold mcReadPacket
    dsimp only
    generalize (if s.rxPos = 0 then mcPacketLen c.buf else s.rxLen) = rxLen
    split
    · exact .inl rfl
    · exact .inr rfl
  rcases hcases with hempty | hmore
  · rw [hempty]
    exact Nat.zero_le _
  · rw [hmore, BitVec.toNat_add, toNat_taken hcnt hlen]
    omega

theorem McInside.chunk (h : McInside l) (hlen : c.data.length < 2147483648) :
    McInside (mcLinkStep tables l (.chunk c)) := by
  have hcnt : l.rx.rxCnt.toNat ≤ 16384 := h.cnt
  constructor
  · exact mcReadPacket_cnt (tables l.table) hcnt hlen
  · intro p hp
    rcases List.mem_append.mp hp with hold | hnew
    · exact h.copies p hold
    · rw [List.mem_singleton.mp hnew, mcCopy_eq hcnt hlen]
      show l.rx.rxCnt.toNat + min c.data.length (16384 - l.rx.rxCnt.toNat) ≤ 16384
      omega

theorem McSafe.chunk_iff (h : McSafe l) (hlen : c.data.length < 2147483648) :
    McSafe (mcLinkStep tables l (.chunk c)) ↔ McFits l.table.size l.rx c := by
  rw [← mcLookup_lt_iff l.table.size h.cnt hlen]
  constructor
  -- the lookup of this step is in the record
  · intro hsafe id hid
    have hmem : (l.table, id) ∈ (mcLinkStep tables l (.chunk c)).lookups :=
      List.mem_append_right _ (List.mem_map.mpr ⟨id, Option.mem_toList.mpr hid, rfl⟩)
    exact hsafe.lookups _ hmem
  · intro hids
    refine ⟨h.toMcInside.chunk hlen, fun p hp => ?_⟩
    rcases List.mem_append.mp hp with hold | hnew
    · exact h.lookups p hold
    · obtain ⟨id, hid, rfl⟩ := List.mem_map.mp hnew
      exact hids id (Option.mem_toList.mp hid)

/-- Nothing is collected, copied or looked up yet. -/
def McLink.start (rxPtr : Mem) (table : McTable) : McLink α := ⟨.start rxPtr, table, [], []⟩

theorem McSafe.start (rxPtr : Mem) (table : McTable) :
    McSafe (McLink.start rxPtr table : McLink α) where
  cnt := Nat.zero_le _
  copies := fun _ hp => nomatch hp
  lookups := fun _ hp => nomatch hp

/-- The buffer is never overrun.  The lookups are inside as well, all along the run, exactly when
    every packet that is completed has a number that the installed table has an entry for. -/
theorem mcLinkRun_safe_iff (tables : McTable → McTables α) (rxPtr : Mem) (table : McTable)
    (ops : List McLinkOp)
    (hshort : ∀ c, .chunk c ∈ ops → c.data.length < 2147483648) :
    (∀ n, McInside (mcLinkRun tables (.start rxPtr table) (ops.take n))) ∧
      ((∀ n, McSafe (mcLinkRun tables (.start rxPtr table) (ops.take n))) ↔
        ∀ (n : Nat) (op : McLinkOp), ops[n]? = some op →
          op.Fits (mcLinkRun tables (.start rxPtr table) (ops.take n))) := by
  have hstart : McSafe (McLink.start rxPtr table : McLink α) := McSafe.start rxPtr table
  constructor
  -- the buffer is safe in every state
  · intro n
    apply List.foldlRecOn (motive := McInside) _ _ hstart.toMcInside
    intro l hl op hop
    cases op with
    | install table => exact ⟨hl.cnt, hl.copies⟩
    | chunk c => exact hl.chunk (hshort c (List.mem_of_mem_take hop))
  -- the lookups are inside exactly as long as each chunk fits
  · apply foldl_safe_iff hstart
    intro l op hop hl
    cases op with
    | install table => exact iff_of_true ⟨⟨hl.cnt, hl.copies⟩, hl.lookups⟩ trivial
    | chunk c => exact hl.chunk_iff (hshort c hop)

/-- Packet 1 of the status state, then packet 200 of the play state. -/
theorem mcLinkRun_safe_play : McSafe (mcLinkRun (fun _ => rawTables) (.start (fun _ => 0) .status)
    [.chunk ⟨[1, 1], fun _ => 0, by decide⟩, .install .play,
      .chunk ⟨[2, 200, 1], fun _ => 0, by decide⟩]) := by
  let ops : List McLinkOp :=
    [.chunk ⟨[1, 1], fun _ => 0, by decide⟩, .install .play,
      .chunk ⟨[2, 200, 1], fun _ => 0, by decide⟩]
  have hshort : ∀ c, .chunk c ∈ ops → c.data.length < 2147483648 := by
    intro c hc
    simp only [ops, List.mem_cons, McLinkOp.chunk.injEq, reduceCtorEq, List.not_mem_nil,
      or_false, false_or] at hc
    obtain rfl | rfl := hc
    · show 2 < 2147483648
      decide
    · show 3 < 2147483648
      decide
  have hfits : ∀ (n : Nat) (op : McLinkOp), ops[n]? = some op →
      op.Fits (mcLinkRun (fun _ => rawTables) (.start (fun _ => 0) .status) (ops.take n)) := by
    intro n op hop
    match n, hop with
    | 0, rfl =>
      intro _ _
      show (mcPacketNumber (blit (fun _ => 0) 0 [1, 1])).toNat % 255 < 2
      decide +kernel
    | 1, rfl => exact trivial
    | 2, rfl => exact mcFits_play _ _
  exact (mcLinkRun_safe_iff _ _ _ ops hshort).2.mpr hfits 3

/-- Packet 2 in the status state, which has the packets 0 and 1. -/
theorem mcLinkRun_outside :
    ¬ ∀ n, McSafe (mcLinkRun (fun _ => rawTables) (.start (fun _ => 0) .status)
    ([McLinkOp.chunk ⟨[1, 2], fun _ => 0, by decide⟩].take n)) := by
  intro hsafe
  have hmem : (McTable.status, 2) ∈ (mcLinkRun (fun _ => rawTables) (.start (fun _ => 0) .status)
      [McLinkOp.chunk ⟨[1, 2], fun _ => 0, by decide⟩]).lookups := by
    decide +kernel
  exact absurd ((hsafe 1).lookups _ hmem) (by decide)

end MishaOS
