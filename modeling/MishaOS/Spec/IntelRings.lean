import MishaOS.ForStd.Run
import MishaOS.ForStd.SlotQueue
import MishaOS.Native.Intel
import MishaOS.Spec.ArpOwnership

/-!
# The rings of the Intel card

The driver, the card and the protocols in any order of steps, a poll in two of
them, since the card and the protocols go on while `eth_recv` runs.  Of the
protocols nothing is assumed but that they touch and release only what they hold
a reference to.

## Key results

- `NicInv.step`: every step keeps the rings and the references apart.
- `intel_run`: each frame the card takes is passed on once, in order, and no buffer
  the card may write to is held by anyone else.
-/

namespace MishaOS

open SlotQueue

/-! ## Steps -/

/-- The card and the driver, the references the protocols hold, whether `eth_recv` is running, the
    frames the card has taken, those passed to `eth_recv` and those given to `eth_intel_send`. -/
structure Nic where
  world : IntelWorld
  others : List Nat
  polling : Bool
  accepted : List (List Byte)
  got : List (List Byte)
  said : List (List Byte)

/-- The buffer that `eth_recv` has been called with. -/
def Nic.current (s : Nic) : Nat := s.world.device.rxBufs s.world.device.rxIndex

inductive NicOp
  /-- A frame comes in. -/
  | arrive (frame : List Byte) (status : Byte)
  | pollBegin
  | pollEnd
  /-- A protocol hands over a buffer. -/
  | send (buf : Nat)
  | alloc
  | free (buf : Nat)
  /-- `++buf->ref_count` -/
  | ref (buf : Nat)
  | write (buf : Nat) (x : NetBuf)

def Nic.setBufs (s : Nic) (b : BufPool) : Nic := { s with world := { s.world with bufs := b } }

/-- One step; a call of `eth_intel_poll` that finds no frame does nothing. -/
def nicStep (frames : Nat → Nat) (s : Nic) : NicOp → Option Nic
  | .arrive frame status =>
    some { s with
      world := cardReceive s.world frame status
      accepted := if s.world.card.rxDescHead = s.world.card.rxDescTail then s.accepted
        else s.accepted ++ [frame] }
  | .pollBegin =>
    match ethIntelPollBegin s.world with
    | none => some s
    | some (buf, w) => some { s with
      world := w, polling := true, got := s.got ++ [(w.bufs.buf buf).data] }
  | .pollEnd => some { s with world := ethIntelPollEnd frames s.world, polling := false }
  | .send buf =>
    some { s with
      world := ethIntelSend s.world buf
      others := s.others.erase buf
      said := s.said ++ [(s.world.bufs.buf buf).data] }
  | .alloc =>
    let (buf, b) := netAllocBuf frames s.world.bufs
    some { s.setBufs b with others := buf :: s.others }
  | .free buf => some { s.setBufs (netFreeBuf s.world.bufs buf) with others := s.others.erase buf }
  | .ref buf =>
    let x := s.world.bufs.buf buf
    some { s.setBufs (s.world.bufs.setBuf buf { x with refCount := x.refCount + 1 })
      with others := buf :: s.others }
  | .write buf x => some (s.setBufs (s.world.bufs.setBuf buf x))

/-- A buffer a protocol may use: one it holds, or the one `eth_recv` got. -/
def Nic.Usable (s : Nic) (buf : Nat) : Prop := buf ∈ s.others ∨ (s.polling = true ∧ buf = s.current)

instance (s : Nic) (buf : Nat) : Decidable (s.Usable buf) := inferInstanceAs (Decidable (_ ∨ _))

/-- What the card and the protocols keep to. -/
def NicOk (s : Nic) : NicOp → Prop
  | .arrive frame status => frame.length ≤ 2048 ∧ status &&& 1 ≠ 0
  | .pollBegin => s.polling = false
  | .pollEnd => s.polling = true
  | .send buf => buf ∈ s.others ∧ (s.world.bufs.buf buf).data.length ≤ 4096 ∧
    (s.world.bufs.buf buf).deficit = 0
  | .alloc => True
  | .free buf => buf ∈ s.others
  | .ref buf => s.Usable buf ∧ (s.world.bufs.buf buf).refCount + 1 < 4294967296
  | .write buf x => s.Usable buf ∧ x.refCount = (s.world.bufs.buf buf).refCount

instance (s : Nic) (op : NicOp) : Decidable (NicOk s op) :=
  match op with
  | .arrive _ _ => inferInstanceAs (Decidable (_ ∧ _))
  | .pollBegin => inferInstanceAs (Decidable (_ = _))
  | .pollEnd => inferInstanceAs (Decidable (_ = _))
  | .send _ => inferInstanceAs (Decidable (_ ∧ _ ∧ _))
  | .alloc => .isTrue trivial
  | .free _ => inferInstanceAs (Decidable (_ ∈ _))
  | .ref _ => inferInstanceAs (Decidable (_ ∧ _))
  | .write _ _ => inferInstanceAs (Decidable (_ ∧ _))

/-! ## The invariant -/

/-- The buffers of the receive ring. -/
def EthIntelDevice.rxRing (d : EthIntelDevice) : List Nat := (List.range RX_DESC_COUNT).map d.rxBufs

/-- The buffers that wait in the transmit ring to be released. -/
def EthIntelDevice.txRing (d : EthIntelDevice) : List Nat :=
  ((List.range TX_DESC_COUNT).map d.txBufs).filter (· ≠ 0)

/-- The frame in a slot that has its status set. -/
def IntelWorld.slot (w : IntelWorld) (i : Nat) : Option (List Byte) :=
  let desc := w.device.rxDescs i
  if desc.status &&& 1 ≠ 0 then some ((w.card.mem desc.addr).take desc.len.toNat) else none

/-- A buffer as `net_alloc_buf` returns it. -/
structure Untouched (x : NetBuf) : Prop where
  data : x.data = []
  deficit : x.deficit = 0
  refCount : x.refCount = 1

/-- The receive ring: each descriptor has its buffer, no two the same one, and the frames `q`
    wait from `rx_index` on, with one slot kept free between tail and head. -/
structure RxRing (w : IntelWorld) (q : List (List Byte)) : Prop where
  index : w.device.rxIndex < RX_DESC_COUNT
  addr : ∀ i < RX_DESC_COUNT, (w.device.rxDescs i).addr = w.device.rxBufs i
  nodup : w.device.rxRing.Nodup
  pending : Pending RX_DESC_COUNT w.slot w.device.rxIndex q
  room : q.length ≤ 31
  head : w.card.rxDescHead = (w.device.rxIndex + q.length) % RX_DESC_COUNT
  tail : w.card.rxDescTail = (w.device.rxIndex + 31) % RX_DESC_COUNT

/-- The transmit ring: the card has sent everything. -/
structure TxRing (w : IntelWorld) : Prop where
  index : w.device.txIndex < TX_DESC_COUNT
  head : w.card.txDescHead = w.device.txIndex
  tail : w.card.txDescTail = w.device.txIndex

/-- The slot of the buffer that `eth_recv` has been called with. -/
def Nic.Busy (s : Nic) (i : Nat) : Prop := s.polling = true ∧ i = s.world.device.rxIndex

structure NicInv (frames : Nat → Nat) (s : Nic) (q : List (List Byte)) : Prop where
  rx : RxRing s.world q
  tx : TxRing s.world
  refs : RefInv frames s.world.bufs (s.world.device.rxRing ++ (s.world.device.txRing ++ s.others))
  /-- Nobody but the driver holds a buffer that is on offer to the card. -/
  alone : ∀ i < RX_DESC_COUNT, ¬ s.Busy i →
    s.world.device.rxBufs i ∉ s.world.device.txRing ++ s.others
  fresh : ∀ i < RX_DESC_COUNT, ¬ s.Busy i → Untouched (s.world.bufs.buf (s.world.device.rxBufs i))
  busy : s.polling = true → q ≠ []
  frames : s.got ++ (if s.polling then q.tail else q) = s.accepted
  wire : s.world.card.wire = s.said

variable {frames : Nat → Nat} {s s' : Nic} {w : IntelWorld} {q : List (List Byte)}
    {frame : List Byte}
  {status : Byte} {buf i j : Nat}

/-! ## The receive ring -/

/-- The buffer of a descriptor is in the receive ring. -/
theorem EthIntelDevice.mem_rxRing {d : EthIntelDevice} (hi : i < RX_DESC_COUNT) :
    d.rxBufs i ∈ d.rxRing :=
  List.mem_map_of_mem (List.mem_range.mpr hi)

/-- No buffer is in the ring twice. -/
theorem RxRing.inj (h : RxRing w q) (hi : i < RX_DESC_COUNT) (hj : j < RX_DESC_COUNT)
    (heq : w.device.rxBufs i = w.device.rxBufs j) : i = j :=
  List.inj_on_of_nodup_map h.nodup (List.mem_range.mpr hi) (List.mem_range.mpr hj) heq

/-- Head meets tail when 31 frames wait. -/
theorem RxRing.full (h : RxRing w q) : w.card.rxDescHead = w.card.rxDescTail ↔ q.length = 31 := by
  have hroom := h.room
  rw [h.head, h.tail]
  constructor
  · intro heq
    exact add_mod_inj (n := RX_DESC_COUNT) (Nat.lt_succ_of_le hroom) (by decide) heq
  · intro heq
    rw [heq]

/-- The card writes a frame into the next free slot. -/
theorem RxRing.receive (h : RxRing w q) (hlen : frame.length ≤ 2048) (hstatus : status &&& 1 ≠ 0)
    (hroom : q.length ≠ 31) : RxRing (cardReceive w frame status) (q ++ [frame]) := by
  have hne : w.card.rxDescHead ≠ w.card.rxDescTail := fun e => hroom (h.full.mp e)
  have hle := h.room
  have hhead : w.card.rxDescHead < RX_DESC_COUNT := by
    rw [h.head]
    exact Nat.mod_lt _ (by decide)
  have hnat : (BitVec.ofNat 16 frame.length).toNat = frame.length := by
    rw [BitVec.toNat_ofNat]
    exact Nat.mod_eq_of_lt (by omega)
  -- the slot of the card, and no other: the buffers are different
  have hslot : (cardReceive w frame status).slot w.card.rxDescHead = some frame := by
    unfold cardReceive IntelWorld.slot
    rw [if_neg hne]
    simp only [Function.update_self]
    rw [if_pos hstatus, hnat, List.take_length]
  have hother : ∀ i < RX_DESC_COUNT, i ≠ w.card.rxDescHead →
      (cardReceive w frame status).slot i = w.slot i := by
    intro i hi hih
    have haddr : (w.device.rxDescs i).addr ≠ (w.device.rxDescs w.card.rxDescHead).addr := by
      rw [h.addr i hi, h.addr _ hhead]
      exact fun e => hih (h.inj hi hhead e)
    unfold cardReceive IntelWorld.slot
    rw [if_neg hne]
    simp only [Function.update_of_ne hih, Function.update_of_ne haddr]
  have hpending : Pending RX_DESC_COUNT (cardReceive w frame status).slot w.device.rxIndex
      (q ++ [frame]) := by
    apply h.pending.put (Nat.lt_succ_of_le hle)
    · rw [← h.head]
      exact hslot
    · rw [← h.head]
      exact hother
  have hdevice : (cardReceive w frame status).device.rxIndex = w.device.rxIndex ∧
      (cardReceive w frame status).device.rxBufs = w.device.rxBufs ∧
      (∀ i, ((cardReceive w frame status).device.rxDescs i).addr = (w.device.rxDescs i).addr) ∧
      (cardReceive w frame status).card.rxDescTail = w.card.rxDescTail ∧
      (cardReceive w frame status).card.rxDescHead = (w.card.rxDescHead + 1) % RX_DESC_COUNT := by
    unfold cardReceive
    rw [if_neg hne]
    refine ⟨rfl, rfl, fun i => ?_, rfl, rfl⟩
    by_cases hi : i = w.card.rxDescHead
    · rw [hi]
      simp only [Function.update_self]
    · simp only [Function.update_of_ne hi]
  obtain ⟨hindex, hbufs, haddr, htail, hhead'⟩ := hdevice
  refine ⟨by rw [hindex]; exact h.index, fun i hi => ?_, ?_,
    by rw [hindex]; exact hpending, ?_, ?_, ?_⟩
  · rw [haddr, hbufs]
    exact h.addr i hi
  · have hnodup := h.nodup
    unfold EthIntelDevice.rxRing at hnodup ⊢
    rw [hbufs]
    exact hnodup
  · rw [List.length_append, List.length_singleton]
    omega
  · rw [hhead', hindex, h.head, List.length_append, List.length_singleton,
      Nat.mod_add_mod, Nat.add_assoc]
  · rw [htail, hindex, h.tail]

/-! ## The protocols -/

/-- A buffer that the protocols use is not on offer to the card. -/
theorem Nic.Usable.ne (h : NicInv frames s q) (hbuf : s.Usable buf) (hi : i < RX_DESC_COUNT)
    (hbusy : ¬ s.Busy i) :
    s.world.device.rxBufs i ≠ buf := by
  intro heq
  obtain hmem | ⟨hpoll, hcur⟩ := hbuf
  · exact h.alone i hi hbusy (List.mem_append_right _ (heq ▸ hmem))
  · exact hbusy ⟨hpoll, h.rx.inj hi h.rx.index (heq.trans hcur)⟩

/-- It is in the rings, or the protocols hold it. -/
theorem Nic.Usable.mem (h : NicInv frames s q) (hbuf : s.Usable buf) :
    buf ∈ s.world.device.rxRing ++ (s.world.device.txRing ++ s.others) := by
  obtain hmem | ⟨-, hcur⟩ := hbuf
  · exact List.mem_append_right _ (List.mem_append_right _ hmem)
  · rw [hcur]
    exact List.mem_append_left _ (EthIntelDevice.mem_rxRing h.rx.index)

/-- A reference more for the protocols. -/
theorem refs_cons (a b c : List Nat) (x : Nat) :
    (a ++ (b ++ x :: c)).Subperm (x :: (a ++ (b ++ c))) := by
  have hperm : (a ++ (b ++ x :: c)).Perm (x :: (a ++ (b ++ c))) := by
    rw [← List.append_assoc, ← List.append_assoc]
    exact List.perm_middle
  exact hperm.subperm

/-- A reference less. -/
theorem refs_erase {c : List Nat} {x : Nat} (a b : List Nat) (hx : x ∈ c) :
    (x :: (a ++ (b ++ c.erase x))).Subperm (a ++ (b ++ c)) := by
  have hperm : (a ++ (b ++ c)).Perm (x :: (a ++ (b ++ c.erase x))) := by
    rw [← List.append_assoc, ← List.append_assoc]
    exact ((List.perm_cons_erase hx).append_left _).trans List.perm_middle
  exact hperm.symm.subperm

/-- The protocols do something to buffers the card has nothing to do with. -/
theorem NicInv.protocols (h : NicInv frames s q) {b : BufPool} {others : List Nat}
    (href : RefInv frames b (s.world.device.rxRing ++ (s.world.device.txRing ++ others)))
    (hbuf : ∀ i < RX_DESC_COUNT, ¬ s.Busy i →
      b.buf (s.world.device.rxBufs i) = s.world.bufs.buf (s.world.device.rxBufs i))
    (hnot : ∀ i < RX_DESC_COUNT, ¬ s.Busy i → s.world.device.rxBufs i ∉ others) :
    NicInv frames { s.setBufs b with others := others } q where
  rx := ⟨h.rx.index, h.rx.addr, h.rx.nodup, h.rx.pending, h.rx.room, h.rx.head, h.rx.tail⟩
  tx := ⟨h.tx.index, h.tx.head, h.tx.tail⟩
  refs := href
  alone := by
    -- the protocols hold buffers of frames that were handed over
    intro i hi hbusy hmem
    obtain hmem | hmem := List.mem_append.mp hmem
    · exact h.alone i hi hbusy (List.mem_append_left _ hmem)
    · exact hnot i hi hbusy hmem
  fresh := by
    intro i hi hbusy
    have hfresh := h.fresh i hi hbusy
    rw [← hbuf i hi hbusy] at hfresh
    exact hfresh
  busy := h.busy
  frames := h.frames
  wire := h.wire

/-- The protocols may allocate a buffer. -/
theorem NicInv.alloc (hf : FramesOk frames) (h : NicInv frames s q)
    (hs : nicStep frames s .alloc = some s') :
    NicInv frames s' q := by
  obtain ⟨hnew, href, hother, -⟩ := h.refs.alloc hf
  obtain rfl := Option.some.inj hs
  have hne : ∀ i < RX_DESC_COUNT, s.world.device.rxBufs i ≠
      (netAllocBuf frames s.world.bufs).1 := by
    intro i hi heq
    exact hnew (heq ▸ List.mem_append_left _ (EthIntelDevice.mem_rxRing hi))
  refine h.protocols (href.subperm (refs_cons _ _ _ _)) (fun i hi _ => hother _ (hne i hi)) fun i hi
    hbusy hmem => ?_
  obtain heq | hmem := List.mem_cons.mp hmem
  · exact hne i hi heq
  · exact h.alone i hi hbusy (List.mem_append_right _ hmem)

/-- They may release one that they hold. -/
theorem NicInv.free (h : NicInv frames s q) (hbuf : buf ∈ s.others)
    (hs : nicStep frames s (.free buf) = some s') :
    NicInv frames s' q := by
  obtain rfl := Option.some.inj hs
  obtain ⟨href, hother, -⟩ := (h.refs.subperm (refs_erase _ _ hbuf)).free
  refine h.protocols href (fun i hi hbusy => hother _ (Nic.Usable.ne h (.inl hbuf) hi hbusy))
    fun i hi hbusy hmem => ?_
  exact h.alone i hi hbusy (List.mem_append_right _ (List.mem_of_mem_erase hmem))

/-- They may take a reference. -/
theorem NicInv.ref (h : NicInv frames s q) (hok : NicOk s (.ref buf))
    (hs : nicStep frames s (.ref buf) = some s') :
    NicInv frames s' q := by
  obtain ⟨hbuf, hlt⟩ := hok
  obtain rfl := Option.some.inj hs
  have hne : ∀ i < RX_DESC_COUNT, ¬ s.Busy i → s.world.device.rxBufs i ≠ buf :=
    fun i hi hbusy => Nic.Usable.ne h hbuf hi hbusy
  have href := (h.refs.ref (Nic.Usable.mem h hbuf)
    (x := { s.world.bufs.buf buf with refCount := (s.world.bufs.buf buf).refCount + 1 })
      rfl hlt).subperm
    (refs_cons _ _ _ _)
  refine h.protocols href (fun i hi hbusy => ?_) fun i hi hbusy hmem => ?_
  · rw [BufPool.setBuf_buf, if_neg (hne i hi hbusy)]
  · obtain heq | hmem := List.mem_cons.mp hmem
    · exact hne i hi hbusy heq
    · exact h.alone i hi hbusy (List.mem_append_right _ hmem)

/-- They may write to a buffer. -/
theorem NicInv.write (h : NicInv frames s q) {x : NetBuf} (hok : NicOk s (.write buf x))
    (hs : nicStep frames s (.write buf x) = some s') : NicInv frames s' q := by
  obtain ⟨hbuf, hcount⟩ := hok
  obtain rfl := Option.some.inj hs
  refine h.protocols (h.refs.setBuf (Nic.Usable.mem h hbuf) hcount) (fun i hi hbusy => ?_) fun i hi
    hbusy hmem => ?_
  · rw [BufPool.setBuf_buf, if_neg (Nic.Usable.ne h hbuf hi hbusy)]
  · exact h.alone i hi hbusy (List.mem_append_right _ hmem)

/-! ## The card and the driver -/

/-- A frame that arrives waits, unless 31 do. -/
theorem NicInv.arrive (h : NicInv frames s q) (hok : NicOk s (.arrive frame status))
    (hs : nicStep frames s (.arrive frame status) = some s') :
    NicInv frames s' (if q.length = 31 then q else q ++ [frame]) := by
  obtain rfl := Option.some.inj hs
  by_cases hfull : q.length = 31
  -- the frame is lost
  · have hw : cardReceive s.world frame status = s.world := by
      unfold cardReceive
      rw [if_pos (h.rx.full.mpr hfull)]
    rw [if_pos hfull, hw, if_pos (h.rx.full.mpr hfull)]
    exact ⟨h.rx, h.tx, h.refs, h.alone, h.fresh, h.busy, h.frames, h.wire⟩
  · have hne : s.world.card.rxDescHead ≠ s.world.card.rxDescTail := fun e => hfull (h.rx.full.mp e)
    have hrx := h.rx.receive hok.1 hok.2 hfull
    have hw : (cardReceive s.world frame status).bufs = s.world.bufs ∧
        (cardReceive s.world frame status).device.rxBufs = s.world.device.rxBufs ∧
        (cardReceive s.world frame status).device.txBufs = s.world.device.txBufs ∧
        (cardReceive s.world frame status).device.rxIndex = s.world.device.rxIndex ∧
        (cardReceive s.world frame status).device.txIndex = s.world.device.txIndex ∧
        (cardReceive s.world frame status).card.txDescHead = s.world.card.txDescHead ∧
        (cardReceive s.world frame status).card.txDescTail = s.world.card.txDescTail ∧
        (cardReceive s.world frame status).card.wire = s.world.card.wire := by
      unfold cardReceive
      rw [if_neg hne]
      exact ⟨rfl, rfl, rfl, rfl, rfl, rfl, rfl, rfl⟩
    rw [if_neg hfull, if_neg hne]
    generalize cardReceive s.world frame status = w at hrx hw ⊢
    obtain ⟨hbufs, hrxBufs, htxBufs, hindex, htxIndex, hhead, htail, hwire⟩ := hw
    have hrxRing : w.device.rxRing = s.world.device.rxRing := by
      unfold EthIntelDevice.rxRing
      rw [hrxBufs]
    have htxRing : w.device.txRing = s.world.device.txRing := by
      unfold EthIntelDevice.txRing
      rw [htxBufs]
    refine ⟨hrx, ⟨?_, ?_, ?_⟩, ?_, fun i hi hbusy => ?_, fun i hi hbusy => ?_,
      fun _ => by simp, ?_, ?_⟩
    · exact htxIndex ▸ h.tx.index
    · exact hhead.trans (h.tx.head.trans htxIndex.symm)
    · exact htail.trans (h.tx.tail.trans htxIndex.symm)
    · rw [hbufs, hrxRing, htxRing]
      exact h.refs
    · have hbusy' : ¬ s.Busy i := fun hb => hbusy ⟨hb.1, hb.2.trans hindex.symm⟩
      rw [hrxBufs, htxRing]
      exact h.alone i hi hbusy'
    · have hbusy' : ¬ s.Busy i := fun hb => hbusy ⟨hb.1, hb.2.trans hindex.symm⟩
      rw [hbufs, hrxBufs]
      exact h.fresh i hi hbusy'
    · have hgot := h.frames
      dsimp only
      rw [← hgot]
      split
      · rename_i hpoll
        rw [List.append_assoc, ← List.tail_append_of_ne_nil (h.busy hpoll)]
      · rw [List.append_assoc]
    · exact hwire.trans h.wire

/-- `eth_intel_poll` finds the frame that has waited longest, with its bytes. -/
theorem NicInv.pollBegin (h : NicInv frames s q) (hok : s.polling = false)
    (hs : nicStep frames s .pollBegin = some s') : NicInv frames s' q := by
  have hindex := h.rx.index
  have hmod : s.world.device.rxIndex % RX_DESC_COUNT = s.world.device.rxIndex :=
    Nat.mod_eq_of_lt hindex
  unfold nicStep ethIntelPollBegin at hs
  dsimp only at hs
  -- the descriptor at the index has been filled, or nothing has arrived
  by_cases hdone : (s.world.device.rxDescs s.world.device.rxIndex).status &&& 1 ≠ 0
  · rw [if_pos hdone] at hs
    obtain rfl := Option.some.inj hs
    cases q with
    | nil =>
      have hempty := h.rx.pending.empty (by decide)
      rw [hmod, IntelWorld.slot, if_pos hdone] at hempty
      cases hempty
    | cons f q =>
      -- the frame that has waited longest is the one at the index
      have hfront := h.rx.pending.front (by decide)
      rw [hmod, IntelWorld.slot, if_pos hdone, h.rx.addr _ hindex] at hfront
      have hf := Option.some.inj hfront
      have hcur : s.world.device.rxBufs s.world.device.rxIndex ∈
          s.world.device.rxRing ++ (s.world.device.txRing ++ s.others) :=
        List.mem_append_left _ (EthIntelDevice.mem_rxRing hindex)
      -- while `eth_recv` runs, the buffer at the index is busy
      have hfree : ∀ i, ¬ s.Busy i := by
        intro i hbusy
        exact absurd hbusy.1 (by rw [hok]; decide)
      refine ⟨⟨hindex, h.rx.addr, h.rx.nodup, h.rx.pending, h.rx.room, h.rx.head, h.rx.tail⟩,
        ⟨h.tx.index, h.tx.head, h.tx.tail⟩, h.refs.setBuf hcur rfl, fun i hi _ =>
          h.alone i hi (hfree i),
        fun i hi hbusy => ?_, fun _ => by simp, ?_, h.wire⟩
      · have hne : s.world.device.rxBufs i ≠ s.world.device.rxBufs s.world.device.rxIndex :=
          fun e => hbusy ⟨rfl, h.rx.inj hi hindex e⟩
        have hfresh := h.fresh i hi (hfree i)
        show Untouched ((s.world.bufs.setBuf _ _).buf (s.world.device.rxBufs i))
        rw [BufPool.setBuf_buf, if_neg hne]
        exact hfresh
      · have hgot := h.frames
        rw [hok] at hgot
        show s.got ++
          [((s.world.bufs.setBuf _ _).buf (s.world.device.rxBufs s.world.device.rxIndex)).data] ++
          q =
          s.accepted
        rw [BufPool.setBuf_buf, if_pos rfl, ← hgot, List.append_assoc, hf]
        rfl
  · rw [if_neg hdone] at hs
    obtain rfl := Option.some.inj hs
    exact h

/-- The slot that has been handled gets the buffer `p`. -/
def IntelWorld.refill (w : IntelWorld) (p : Nat) (b : BufPool) : IntelWorld :=
  { w with
    bufs := b
    device := { w.device with
      rxBufs := Function.update w.device.rxBufs w.device.rxIndex p
      rxDescs := Function.update w.device.rxDescs w.device.rxIndex
        { w.device.rxDescs w.device.rxIndex with addr := p, status := 0 }
      rxIndex := (w.device.rxIndex + 1) % RX_DESC_COUNT }
    card := { w.card with rxDescTail := w.device.rxIndex } }

/-- The driver puts a new buffer into the ring and moves on. -/
theorem ethIntelPollEnd_eq {p : Nat} {b : BufPool}
    (h : netAllocBuf frames (netFreeBuf w.bufs (w.device.rxBufs w.device.rxIndex)) = (p, b)) :
    ethIntelPollEnd frames w = w.refill p b := by
  unfold ethIntelPollEnd
  dsimp only
  rw [h]
  rfl

/-- The receive ring after a poll with the new buffer `p`. -/
theorem RxRing.pollEnd {f : List Byte} {p : Nat} (h : RxRing w (f :: q))
    (hp : ∀ i < RX_DESC_COUNT, i ≠ w.device.rxIndex → w.device.rxBufs i ≠ p) (b : BufPool) :
    RxRing (w.refill p b) q := by
  have hindex := h.index
  have hroom := h.room
  have hmod : w.device.rxIndex % RX_DESC_COUNT = w.device.rxIndex := Nat.mod_eq_of_lt hindex
  have h32 : RX_DESC_COUNT = 32 := rfl
  rw [List.length_cons] at hroom
  refine ⟨Nat.mod_lt _ (by decide), fun i hi => ?_, ?_, ?_, by omega, ?_, ?_⟩
  · unfold IntelWorld.refill
    by_cases hne : i = w.device.rxIndex
    · rw [hne]
      simp only [Function.update_self]
    · simp only [Function.update_of_ne hne]
      exact h.addr i hi
  · obtain ⟨rest, hold, hnew⟩ := map_range_update_perm hindex w.device.rxBufs p
    obtain ⟨hnot, hnodup⟩ := List.nodup_cons.mp (hold.nodup_iff.mp h.nodup)
    apply hnew.nodup_iff.mpr
    refine List.nodup_cons.mpr ⟨fun hmem => ?_, hnodup⟩
    -- the other slots have other buffers
    obtain ⟨i, hi, heq⟩ := List.mem_map.mp (hold.mem_iff.mpr (List.mem_cons_of_mem _ hmem))
    have hne : i ≠ w.device.rxIndex := fun e => hnot (by rw [← e, heq]; exact hmem)
    exact hp i (List.mem_range.mp hi) hne heq
  · apply h.pending.take (by omega)
    · rw [hmod]
      simp only [IntelWorld.slot, IntelWorld.refill, Function.update_self]
      exact if_neg (by decide)
    · intro i _ hne
      rw [hmod] at hne
      simp only [IntelWorld.slot, IntelWorld.refill, Function.update_of_ne hne]
  · show w.card.rxDescHead = ((w.device.rxIndex + 1) % RX_DESC_COUNT + q.length) % RX_DESC_COUNT
    rw [h.head, List.length_cons, Nat.mod_add_mod, Nat.add_assoc, Nat.add_comm 1 q.length]
  · show w.device.rxIndex = ((w.device.rxIndex + 1) % RX_DESC_COUNT + 31) % RX_DESC_COUNT
    rw [Nat.mod_add_mod, Nat.add_assoc]
    show _ = (w.device.rxIndex + RX_DESC_COUNT) % RX_DESC_COUNT
    rw [Nat.add_mod_right, hmod]

/-- The slot of the frame that has been handled gets a new buffer, and goes back to the card. -/
theorem NicInv.pollEnd (hf : FramesOk frames) (h : NicInv frames s q) (hok : s.polling = true)
    (hs : nicStep frames s .pollEnd = some s') : NicInv frames s' q.tail := by
  have hindex := h.rx.index
  obtain ⟨f, q, rfl⟩ := List.exists_cons_of_ne_nil (h.busy hok)
  obtain ⟨p, b, hpb⟩ : ∃ p b, netAllocBuf frames (netFreeBuf s.world.bufs s.current) = (p, b) :=
    ⟨_, _, rfl⟩
  -- of the references one is dropped, and one is added
  obtain ⟨rest, hold, hnew⟩ := map_range_update_perm hindex s.world.device.rxBufs p
  have hcons : RefInv frames s.world.bufs
      (s.current :: (rest ++ (s.world.device.txRing ++ s.others))) :=
    h.refs.subperm (hold.append_right _).symm.subperm
  obtain ⟨hfreed, hfreeOther, -⟩ := hcons.free
  obtain ⟨hfresh, halloc, hallocOther, hbuf⟩ := hfreed.alloc hf
  rw [hpb] at hfresh halloc hallocOther hbuf
  have hrest : ∀ i < RX_DESC_COUNT, i ≠ s.world.device.rxIndex →
    s.world.device.rxBufs i ≠ s.current ∧
      s.world.device.rxBufs i ∈ rest := by
    intro i hi hne
    have hdiff : s.world.device.rxBufs i ≠ s.current := fun e => hne (h.rx.inj hi hindex e)
    have hmem := hold.mem_iff.mp (EthIntelDevice.mem_rxRing hi)
    exact ⟨hdiff, (List.mem_cons.mp hmem).resolve_left hdiff⟩
  have hbusy : ∀ i, i ≠ s.world.device.rxIndex → ¬ s.Busy i := fun i hne hb => hne hb.2
  have hp : ∀ i < RX_DESC_COUNT, i ≠ s.world.device.rxIndex → s.world.device.rxBufs i ≠ p :=
    fun i hi hne e => hfresh (List.mem_append_left _ (e ▸ (hrest i hi hne).2))
  have hrx := h.rx.pollEnd hp b
  obtain rfl := Option.some.inj hs
  rw [ethIntelPollEnd_eq hpb]
  rw [IntelWorld.refill] at hrx ⊢
  have hother : ∀ i < RX_DESC_COUNT, i ≠ s.world.device.rxIndex →
      b.buf (s.world.device.rxBufs i) = s.world.bufs.buf (s.world.device.rxBufs i) := by
    intro i hi hne
    rw [hallocOther _ (hp i hi hne), hfreeOther _ (hrest i hi hne).1]
  refine ⟨hrx, ⟨h.tx.index, h.tx.head, h.tx.tail⟩, ?_, fun i hi _ hmem => ?_, fun i hi _ => ?_,
    fun hp => absurd hp Bool.false_ne_true, ?_, h.wire⟩
  · exact halloc.subperm (hnew.append_right _).subperm
  · by_cases hne : i = s.world.device.rxIndex
    · dsimp only at hmem
      rw [hne, Function.update_self] at hmem
      exact hfresh (List.mem_append_right _ hmem)
    · dsimp only at hmem
      rw [Function.update_of_ne hne] at hmem
      exact h.alone i hi (hbusy i hne) hmem
  · by_cases hne : i = s.world.device.rxIndex
    · dsimp only
      rw [hne, Function.update_self]
      exact ⟨hbuf.2.1, hbuf.2.2.1, hbuf.2.2.2⟩
    · dsimp only
      rw [Function.update_of_ne hne, hother i hi hne]
      exact h.fresh i hi (hbusy i hne)
  · have hgot := h.frames
    rw [if_pos hok] at hgot
    exact hgot

/-! ## Sending -/

/-- One frame between head and tail is sent. -/
theorem cardTransmit_one {n : Nat}
    (htail : w.card.txDescTail = (w.card.txDescHead + 1) % TX_DESC_COUNT) :
    cardTransmit (n + 2) w = { w with
      device := { w.device with
        txDescs := Function.update w.device.txDescs w.card.txDescHead
          { w.device.txDescs w.card.txDescHead with status := TSTA_DD } }
      card := { w.card with
        txDescHead := w.card.txDescTail
        wire := w.card.wire ++ [(w.bufs.buf (w.device.txDescs w.card.txDescHead).addr).data.take
          (w.device.txDescs w.card.txDescHead).len.toNat] } } := by
  have h8 : TX_DESC_COUNT = 8 := rfl
  have hne : w.card.txDescHead ≠ w.card.txDescTail := by
    rw [htail, h8]
    omega
  rw [cardTransmit, if_neg hne]
  dsimp only
  -- the loop ends, since only one frame was given
  rw [cardTransmit, if_pos htail.symm]
  simp only [htail]

/-- What `eth_intel_send` leaves, with the buffers `b`. -/
def IntelWorld.sent (w : IntelWorld) (buf : Nat) (b : BufPool) : IntelWorld :=
  { w with
    bufs := b
    device := { w.device with
      txBufs := Function.update w.device.txBufs w.device.txIndex buf
      txDescs := Function.update w.device.txDescs w.device.txIndex
        ⟨buf, ((b.buf buf).len32).setWidth 16, txCommand, TSTA_DD⟩
      txIndex := (w.device.txIndex + 1) % TX_DESC_COUNT }
    card := { w.card with
      txDescHead := (w.device.txIndex + 1) % TX_DESC_COUNT
      txDescTail := (w.device.txIndex + 1) % TX_DESC_COUNT
      wire := w.card.wire ++ [(b.buf buf).data] } }

/-- The buffers after the old one of the slot has been released. -/
def IntelWorld.releaseOld (w : IntelWorld) (buf : Nat) : BufPool :=
  if w.device.txBufs w.device.txIndex ≠ 0 ∧ w.device.txBufs w.device.txIndex ≠ buf then
    netFreeBuf w.bufs (w.device.txBufs w.device.txIndex) else w.bufs

/-- The driver releases the buffer of the descriptor and gives it the new one. -/
theorem ethIntelSend_eq (h : TxRing w) (hlen : ((w.releaseOld buf).buf buf).data.length ≤ 4096)
    (hdeficit : ((w.releaseOld buf).buf buf).deficit = 0) :
    ethIntelSend w buf = w.sent buf (w.releaseOld buf) := by
  have hlen32 : (((w.releaseOld buf).buf buf).len32.setWidth 16).toNat =
      ((w.releaseOld buf).buf buf).data.length := by
    rw [NetBuf.len32, hdeficit, BitVec.sub_zero, BitVec.toNat_setWidth, BitVec.toNat_ofNat]
    omega
  unfold ethIntelSend
  dsimp only
  rw [TX_DESC_COUNT,
    cardTransmit_one (by show _ = (w.card.txDescHead + 1) % TX_DESC_COUNT; rw [h.head]; rfl)]
  dsimp only
  rw [h.head]
  simp only [Function.update_self, Function.update_idem]
  unfold IntelWorld.releaseOld at hlen32
  rw [hlen32, List.take_length]
  rfl

/-- Releasing the old buffer does not touch another one. -/
theorem IntelWorld.releaseOld_buf {p : Nat}
    (hp : p = w.device.txBufs w.device.txIndex → p = buf) :
    (w.releaseOld buf).buf p = w.bufs.buf p := by
  unfold IntelWorld.releaseOld
  split
  · rename_i hold
    exact netFreeBuf_other _ fun e => hold.2 (e.symm.trans (hp e))
  · rfl

/-- The reference of the slot is dropped, and that of the frame takes its place. -/
theorem NicInv.releaseOld (h : NicInv frames s q) (hbuf : buf ∈ s.others) :
    RefInv frames (s.world.releaseOld buf)
      (s.world.device.rxRing ++ ((s.world.sent buf (s.world.releaseOld buf)).device.txRing ++
        s.others.erase buf)) := by
  obtain ⟨rest, hold, hnew⟩ := map_range_update_perm h.tx.index s.world.device.txBufs buf
  have hnz : buf ≠ 0 := h.refs.ne_zero (List.mem_append_right _ (List.mem_append_right _ hbuf))
  have hring : (s.world.sent buf (s.world.releaseOld buf)).device.txRing.Perm
      (buf :: rest.filter (· ≠ 0)) := by
    have hfilter := hnew.filter (· ≠ 0)
    rw [List.filter_cons_of_pos (by simpa using hnz)] at hfilter
    exact hfilter
  have htx : s.world.device.txRing.Perm
      ((s.world.device.txBufs s.world.device.txIndex :: rest).filter (· ≠ 0)) :=
    hold.filter _
  -- the references but for the one that goes
  have hrest : RefInv frames (s.world.releaseOld buf)
      (s.world.device.rxRing ++ (rest.filter (· ≠ 0) ++ s.others)) := by
    unfold IntelWorld.releaseOld
    by_cases hzero : s.world.device.txBufs s.world.device.txIndex = 0
    · rw [if_neg fun hc => hc.1 hzero]
      rw [List.filter_cons_of_neg (by simpa using hzero)] at htx
      exact h.refs.subperm ((htx.append_right _).append_left _).symm.subperm
    · rw [List.filter_cons_of_pos (by simpa using hzero)] at htx
      have hcons := h.refs.subperm (((htx.append_right s.others).append_left _).trans
        (List.perm_middle (a := s.world.device.txBufs s.world.device.txIndex))).symm.subperm
      split
      · exact hcons.free.1
      · exact hcons.subperm (List.sublist_cons_self _ _).subperm
  have hmove : (s.world.device.rxRing ++
      ((s.world.sent buf (s.world.releaseOld buf)).device.txRing ++ s.others.erase buf)).Perm
      (s.world.device.rxRing ++ (rest.filter (· ≠ 0) ++ s.others)) := by
    apply List.Perm.append_left
    have hmiddle : (buf :: (rest.filter (· ≠ 0) ++ s.others.erase buf)).Perm
        (rest.filter (· ≠ 0) ++ buf :: s.others.erase buf) := List.perm_middle.symm
    exact (hring.append_right _).trans
      (hmiddle.trans ((List.perm_cons_erase hbuf).symm.append_left _))
  exact hrest.subperm hmove.subperm

/-- `eth_intel_send` puts the frame on the wire, and keeps the buffer. -/
theorem NicInv.send (h : NicInv frames s q) (hok : NicOk s (.send buf))
    (hs : nicStep frames s (.send buf) = some s') :
    NicInv frames s' q := by
  obtain ⟨hbuf, hlen, hdeficit⟩ := hok
  obtain rfl := Option.some.inj hs
  have hsame : (s.world.releaseOld buf).buf buf = s.world.bufs.buf buf :=
    IntelWorld.releaseOld_buf fun _ => rfl
  have href := h.releaseOld hbuf
  rw [ethIntelSend_eq h.tx (by rw [hsame]; exact hlen) (by rw [hsame]; exact hdeficit)]
  have hmem : ∀ p ∈ (s.world.sent buf (s.world.releaseOld buf)).device.txRing ++ s.others.erase buf,
      p ∈ s.world.device.txRing ++ s.others := by
    intro p hp
    obtain hp | hp := List.mem_append.mp hp
    · obtain ⟨hmap, hnz⟩ := List.mem_filter.mp hp
      obtain ⟨i, hi, rfl⟩ := List.mem_map.mp hmap
      by_cases hidx : i = s.world.device.txIndex
      · rw [hidx]
        show Function.update s.world.device.txBufs _ buf _ ∈ _
        rw [Function.update_self]
        exact List.mem_append_right _ hbuf
      · have hupd : (s.world.sent buf (s.world.releaseOld buf)).device.txBufs i =
            s.world.device.txBufs i :=
          Function.update_of_ne hidx _ _
        rw [hupd] at hnz ⊢
        exact List.mem_append_left _ (List.mem_filter.mpr ⟨List.mem_map_of_mem hi, hnz⟩)
    · exact List.mem_append_right _ (List.mem_of_mem_erase hp)
  refine ⟨⟨h.rx.index, h.rx.addr, h.rx.nodup, h.rx.pending, h.rx.room, h.rx.head, h.rx.tail⟩,
    ⟨Nat.mod_lt _ (by decide), rfl, rfl⟩, href, fun i hi hbusy hp => h.alone i hi hbusy (hmem _ hp),
    fun i hi hbusy => ?_, h.busy, h.frames, ?_⟩
  · have hkept : (s.world.releaseOld buf).buf (s.world.device.rxBufs i) =
        s.world.bufs.buf (s.world.device.rxBufs i) := by
      apply IntelWorld.releaseOld_buf
      intro heq
      by_contra hne
      -- the old buffer of the slot is not in the receive ring
      apply h.alone i hi hbusy
      refine List.mem_append_left _ (List.mem_filter.mpr ⟨?_, ?_⟩)
      · rw [heq]
        exact List.mem_map_of_mem (List.mem_range.mpr h.tx.index)
      · have hnz := h.refs.ne_zero (List.mem_append_left _ (EthIntelDevice.mem_rxRing hi))
        simpa using hnz
    show Untouched ((s.world.releaseOld buf).buf (s.world.device.rxBufs i))
    rw [hkept]
    exact h.fresh i hi hbusy
  · show s.world.card.wire ++ [((s.world.releaseOld buf).buf buf).data] =
      s.said ++ [(s.world.bufs.buf buf).data]
    rw [hsame, h.wire]

/-! ## The start -/

/-- The first `i` slots have their buffers. -/
structure RxFilled (frames : Nat → Nat) (others : List Nat) (i : Nat) (w : IntelWorld) : Prop where
  refs : RefInv frames w.bufs ((List.range i).map w.device.rxBufs ++ others)
  nodup : ((List.range i).map w.device.rxBufs).Nodup
  desc : ∀ j < i, (w.device.rxDescs j).addr = w.device.rxBufs j ∧ (w.device.rxDescs j).status = 0
  fresh : ∀ j < i, w.device.rxBufs j ∉ others ∧ Untouched (w.bufs.buf (w.device.rxBufs j))
  tx : ∀ j, w.device.txBufs j = 0
  wire : w.card.wire = []

variable {others : List Nat} {n : Nat}

/-- The loop of `eth_intel_rx_init` fills the ring. -/
theorem RxFilled.loop (hf : FramesOk frames) (h : RxFilled frames others i w) :
    RxFilled frames others (i + n) (rxInitLoop frames n i w) := by
  -- one descriptor a round, with a buffer that is new
  induction n generalizing i w with
  | zero => exact h
  | succ n ih =>
    obtain ⟨p, b, hpb⟩ : ∃ p b, netAllocBuf frames w.bufs = (p, b) := ⟨_, _, rfl⟩
    obtain ⟨hnew, href, hother, hbuf⟩ := h.refs.alloc hf
    rw [hpb] at hnew href hother hbuf
    have hold : ∀ j < i, Function.update w.device.rxBufs i p j = w.device.rxBufs j :=
      fun j hj => Function.update_of_ne (Nat.ne_of_lt hj) _ _
    have hmap : (List.range i).map (Function.update w.device.rxBufs i p) =
        (List.range i).map w.device.rxBufs :=
      List.map_congr_left fun j hj => hold j (List.mem_range.mp hj)
    have hin : ∀ j < i, w.device.rxBufs j ∈ (List.range i).map w.device.rxBufs ++ others :=
      fun j hj => List.mem_append_left _ (List.mem_map_of_mem (List.mem_range.mpr hj))
    rw [Nat.add_comm n 1, ← Nat.add_assoc, Nat.add_comm 1 n, rxInitLoop, hpb]
    apply ih
    refine ⟨?_, ?_, fun j hj => ?_, fun j hj => ?_, h.tx, h.wire⟩
    -- the buffers of the ring are counted, and they are different ones
    · dsimp only
      rw [List.range_succ, List.map_append, hmap, List.map_singleton, Function.update_self,
        List.append_assoc]
      exact href.subperm List.perm_middle.subperm
    · dsimp only
      rw [List.range_succ, List.map_append, hmap, List.map_singleton, Function.update_self]
      apply List.nodup_append.mpr
      refine ⟨h.nodup, List.nodup_singleton p, fun x hx y hy e => ?_⟩
      obtain rfl := List.mem_singleton.mp hy
      exact hnew (List.mem_append_left _ (e ▸ hx))
    · dsimp only
      obtain hlt | rfl := Nat.lt_succ_iff_lt_or_eq.mp hj
      · rw [hold j hlt, Function.update_of_ne (Nat.ne_of_lt hlt)]
        exact h.desc j hlt
      · rw [Function.update_self, Function.update_self]
        exact ⟨rfl, rfl⟩
    · dsimp only
      obtain hlt | rfl := Nat.lt_succ_iff_lt_or_eq.mp hj
      · rw [hold j hlt, hother _ fun e => hnew (e ▸ hin j hlt)]
        exact h.fresh j hlt
      · rw [Function.update_self]
        exact ⟨fun hmem => hnew (List.mem_append_right _ hmem), hbuf.2.1, hbuf.2.2.1, hbuf.2.2.2⟩

/-- The card and the driver after `eth_intel_rx_init` and `eth_intel_tx_init`. -/
def Nic.start (frames : Nat → Nat) (w : IntelWorld) (others : List Nat) : Nic :=
  ⟨ethIntelTxInit (ethIntelRxInit frames w), others, false, [], [], []⟩

/-- The rings after initialisation. -/
theorem Nic.start_inv (hf : FramesOk frames) (href : RefInv frames w.bufs others)
    (htx : ∀ i, w.device.txBufs i = 0)
    (hwire : w.card.wire = []) : NicInv frames (Nic.start frames w others) [] := by
  have hzero : RxFilled frames others 0
      { w with bufs := { w.bufs with requests := w.bufs.requests + 1 } } :=
    ⟨href.request, List.nodup_nil, fun j hj => absurd hj (Nat.not_lt_zero j),
      fun j hj => absurd hj (Nat.not_lt_zero j), htx, hwire⟩
  have hfilled := hzero.loop hf (n := RX_DESC_COUNT)
  rw [Nat.zero_add] at hfilled
  unfold Nic.start ethIntelTxInit ethIntelRxInit
  dsimp only
  generalize rxInitLoop frames RX_DESC_COUNT 0
    { w with bufs := { w.bufs with requests := w.bufs.requests + 1 } } = w'
    at hfilled ⊢
  -- no packet is waiting to be sent
  have hempty : w'.device.txRing = [] := by
    apply List.filter_eq_nil_iff.mpr
    intro x hx
    obtain ⟨i, -, rfl⟩ := List.mem_map.mp hx
    simpa using hfilled.tx i
  refine ⟨⟨Nat.zero_lt_succ 31, fun i hi => (hfilled.desc i hi).1, hfilled.nodup, fun k hk => ?_,
    Nat.zero_le 31, rfl, rfl⟩,
    ⟨Nat.zero_lt_succ 7, rfl, rfl⟩, ?_, fun i hi _ hmem => ?_, fun i hi _ => (hfilled.fresh i hi).2,
    fun hp => absurd hp Bool.false_ne_true, rfl, hfilled.wire⟩
  -- every descriptor is empty
  · have hstatus := (hfilled.desc ((0 + k) % RX_DESC_COUNT) (Nat.mod_lt _ (by decide))).2
    show (if (w'.device.rxDescs ((0 + k) % RX_DESC_COUNT)).status &&& 1 ≠ 0 then _ else none) = _
    rw [hstatus, if_neg (by decide)]
    rfl
  · have hrequest := hfilled.refs.request
    show RefInv frames _ (w'.device.rxRing ++ (w'.device.txRing ++ others))
    rw [hempty]
    exact hrequest
  · change w'.device.rxBufs i ∈ w'.device.txRing ++ others at hmem
    rw [hempty] at hmem
    exact (hfilled.fresh i hi).1 hmem

/-! ## Every run -/

/-- Every step keeps the invariant. -/
theorem NicInv.step (hf : FramesOk frames) {op : NicOp} (h : NicInv frames s q) (hok : NicOk s op)
    (hs : nicStep frames s op = some s') : ∃ q', NicInv frames s' q' := by
  cases op with
  | arrive frame status => exact ⟨_, h.arrive hok hs⟩
  | pollBegin => exact ⟨q, h.pollBegin hok hs⟩
  | pollEnd => exact ⟨_, h.pollEnd hf hok hs⟩
  | send buf => exact ⟨q, h.send hok hs⟩
  | alloc => exact ⟨q, h.alloc hf hs⟩
  | free buf => exact ⟨q, h.free hok hs⟩
  | ref buf => exact ⟨q, h.ref hok hs⟩
  | write buf x => exact ⟨q, h.write hok hs⟩

/-- A call of `eth_intel_poll` is a run, if what happens while `eth_recv` runs is one. -/
theorem ethIntelPoll_run {ethRecv : Nat → IntelWorld → Option IntelWorld}
    (hidle : s.polling = false)
    (hrecv : ∀ buf w₁ s₁, ethIntelPollBegin s.world = some (buf, w₁) →
      nicStep frames s .pollBegin = some s₁ →
      ∃ ops s₂, Run (nicStep frames) NicOk s₁ ops s₂ ∧ ethRecv buf w₁ = some s₂.world ∧
        s₂.polling = true)
    {w' : IntelWorld}
    (hpoll : ethIntelPoll frames ethRecv s.world = some w') :
    ∃ ops s', Run (nicStep frames) NicOk s ops s' ∧ s'.world = w' := by
  unfold ethIntelPoll at hpoll
  -- nothing to take, or a frame that is handed over between two steps
  cases hbegin : ethIntelPollBegin s.world with
  | none =>
    rw [hbegin] at hpoll
    exact ⟨[], s, .nil s, Option.some.inj hpoll⟩
  | some r =>
    obtain ⟨buf, w₁⟩ := r
    rw [hbegin] at hpoll
    have hstep : nicStep frames s .pollBegin = some { s with
        world := w₁, polling := true, got := s.got ++ [(w₁.bufs.buf buf).data] } := by
      rw [nicStep, hbegin]
    obtain ⟨ops, s₂, hrun, hw₂, hpolling⟩ := hrecv buf w₁ _ hbegin hstep
    obtain ⟨w₂, hw, rfl⟩ := Option.map_eq_some_iff.mp hpoll
    obtain rfl := Option.some.inj (hw₂.symm.trans hw)
    have hend : Run (nicStep frames) NicOk s₂ [.pollEnd]
        { s₂ with world := ethIntelPollEnd frames s₂.world, polling := false } :=
          .cons hpolling rfl (.nil _)
    exact ⟨.pollBegin :: (ops ++ [.pollEnd]), _, .cons hidle hstep (hrun.append hend), rfl⟩

/-- Whatever the card, the driver and the protocols do, and in whatever order: what `eth_recv`
    gets are the frames the card took, each once and in order, with at most 31 on the way; the
    card takes every frame but when 31 wait; and a buffer it may write to is held by the driver
    alone and as it was allocated.  The wire carries what has been sent. -/
theorem intel_run (frames : Nat → Nat) (hf : FramesOk frames) (w : IntelWorld) (others : List Nat)
    (href : RefInv frames w.bufs others) (htx : ∀ i, w.device.txBufs i = 0)
    (hwire : w.card.wire = [])
    (ops : List NicOp) (s : Nic)
    (hrun : Run (nicStep frames) NicOk (Nic.start frames w others) ops s) :
    ∃ q : List (List Byte), q.length ≤ 31 ∧
      s.got ++ (if s.polling then q.tail else q) = s.accepted ∧
      (∀ frame status s', nicStep frames s (.arrive frame status) = some s' →
        s'.accepted = if q.length = 31 then s.accepted else s.accepted ++ [frame]) ∧
      s.world.device.rxRing.Nodup ∧
      (∀ i < RX_DESC_COUNT, ¬ s.Busy i → s.world.device.rxBufs i ∉
        s.world.device.txRing ++ s.others ∧
        Untouched (s.world.bufs.buf (s.world.device.rxBufs i)) ∧
        (s.world.device.rxDescs i).addr = s.world.device.rxBufs i) ∧
      s.world.card.wire = s.said := by
  -- some list of frames waits in the ring, all along the run
  obtain ⟨q, h⟩ : ∃ q, NicInv frames s q := by
    apply hrun.invariant (fun s => ∃ q, NicInv frames s q) _ ⟨[], Nic.start_inv hf href htx hwire⟩
    intro s op s' hinv hok hs
    obtain ⟨q, h⟩ := hinv
    exact h.step hf hok hs
  refine ⟨q, h.rx.room, h.frames, fun frame status s' hs => ?_, h.rx.nodup,
    fun i hi hbusy => ⟨h.alone i hi hbusy, h.fresh i hi hbusy, h.rx.addr i hi⟩, h.wire⟩
  obtain rfl := Option.some.inj hs
  -- the ring is full with 31 frames, one descriptor stays with the driver
  by_cases hfull : q.length = 31
  · rw [if_pos hfull]
    exact if_pos (h.rx.full.mpr hfull)
  · rw [if_neg hfull]
    exact if_neg fun e => hfull (h.rx.full.mp e)

/-- A card and a driver that have not been initialised. -/
def IntelWorld.unset : IntelWorld where
  device := ⟨0, 0, fun _ => ⟨0, 0, 0⟩, fun _ => ⟨0, 0, 0, 0⟩, fun _ => 0, fun _ => 0⟩
  card := ⟨0, 0, 0, 0, fun _ => [], []⟩
  bufs := ⟨0, 0, fun _ => ⟨0, [], 0, 0, 0, 0⟩, 0⟩

/-- Three frames; TCP keeps the first one and answers while the card goes on. -/
def intelTraffic : List NicOp :=
  [.arrive [1, 2, 3] 3, .arrive [4] 3, .pollBegin, .ref 0x2000, .arrive [5, 6] 3, .alloc,
    .write 0x23000 ⟨0, [7, 8], 0, 1, 0, 0⟩, .send 0x23000, .pollEnd, .pollBegin,
    .pollEnd, .free 0x2000]

/-- Two frames are received, a third one waits, and a packet is sent. -/
theorem intel_run_traffic :
    ∃ s q, Run (nicStep nextFrame) NicOk (Nic.start nextFrame IntelWorld.unset []) intelTraffic s ∧
      s.got ++ q = s.accepted ∧ s.got = [[1, 2, 3], [4]] ∧ s.accepted = [[1, 2, 3], [4], [5, 6]] ∧
      s.world.card.wire = [[7, 8]] := by
  have hexec :
    ((Run.exec (nicStep nextFrame) NicOk (Nic.start nextFrame IntelWorld.unset []) intelTraffic).map
      fun s => (s.polling, s.got, s.accepted, s.said)) =
        some (false, [[1, 2, 3], [4]], [[1, 2, 3], [4], [5, 6]], [[7, 8]]) := by decide +kernel
  obtain ⟨s, hs, hres⟩ := Option.map_eq_some_iff.mp hexec
  simp only [Prod.mk.injEq] at hres
  obtain ⟨hpoll, hgot, hacc, hsaid⟩ := hres
  have hpool : RefInv nextFrame IntelWorld.unset.bufs [] := by
    refine ⟨⟨⟨[], rfl, by simp, by simp⟩, by simp, by simp⟩, by simp⟩
  have hrun := Run.of_exec hs
  obtain ⟨q, -, hframes, -, -, -, hwire⟩ :=
    intel_run nextFrame nextFrame_framesOk IntelWorld.unset [] hpool
    (fun _ => rfl) rfl intelTraffic s hrun
  rw [hpoll] at hframes
  exact ⟨s, q, hrun, hframes, hgot, hacc, hwire.trans hsaid⟩

end MishaOS
