import MishaOS.Native.Send
import MishaOS.Spec.ArpResolve

/-!
# Where the buffer of a packet ends up

A call that sends a packet should leave its buffer in one place: with the
driver, in an entry of the ARP cache, or on the free list.  A buffer is `Held`
while none of this is the case.  Each way down through the layers ends in one of
the three places; a call that returns before the packet gets to an interface
leaves the buffer held by nobody.
-/

namespace MishaOS

open LinkedList

/-! ## Places -/

/-- The packets that wait in the cache. -/
def pending (c : ArpCache) : Set Nat := { p | p ≠ 0 ∧ ∃ i, (c i).packet = p }

/-- How often `p` has been handed to `dev_send`. -/
def sends (p : Nat) (log : List NetEvent) : Nat :=
  log.countP fun
    | .devSend _ _ q => q == p
    | _ => false

/-- The number of entries that hold `p`. -/
def slots (c : ArpCache) (p : Nat) : Nat := (List.finRange 16).countP fun i => (c i).packet == p

def OnFreeList (b : BufPool) (p : Nat) : Prop :=
  ∃ l, Chain (fun q => (b.buf q).link) 0 b.netBufList l ∧ p ∈ l

/-- `p` is in exactly one place.  `before` is how often it had been sent, `count` what
    `net_buf_alloc_count` was while it was allocated. -/
def InOnePlace (w : NetWorld) (p before : Nat) (count : Int) : Prop :=
  (sends p w.log = before + 1 ∧ slots w.cache p = 0 ∧ ¬ OnFreeList w.bufs p) ∨
  (sends p w.log = before ∧ slots w.cache p = 1 ∧ ¬ OnFreeList w.bufs p) ∨
  (sends p w.log = before ∧ slots w.cache p = 0 ∧ OnFreeList w.bufs p ∧
    w.bufs.netBufAllocCount = count - 1)

/-- The packet that the caller has allocated. -/
def SendOp.given : SendOp → Option Nat
  | .udpSend _ _ _ packet | .udpIntfSend _ _ _ _ packet => some packet
  | _ => none

/-- `net_buf_alloc_count` while the packet is allocated. -/
def SendOp.count (w : SendWorld) (op : SendOp) : Int :=
  w.net.bufs.netBufAllocCount + if op.given.isSome then 0 else 1

/-- The call returns, with the buffer of its packet in exactly one place. -/
def LeavesInOnePlace (frames : Nat → Nat) (w : SendWorld) (op : SendOp) : Prop :=
  ∃ r, sendCall frames w op = some r ∧
    ∀ p, r.1 = some p → InOnePlace r.2.net p (sends p w.net.log) (op.count w)

/-- The walk over the routing table finds a route. -/
def Routed (w : SendWorld) (dst : Ipv4Addr) : Prop :=
  ∃ route, netFindRoute w.routes dst = some route ∧ route ≠ 0

/-- The call does not lose the packet. -/
def SendOpOk (frames : Nat → Nat) (w : SendWorld) : SendOp → Prop
  | .udpSend dst _ _ _ => Routed w dst
  | .udpIntfSend _ _ _ _ _ => True
  | .icmpEchoRequest addr _ _ _ | .icmpEchoReply addr _ _ _ => Routed w addr
  | .tcpSendPacket tcp c seq flags data =>
    w.isLoop c.intf = true → tcpKept frames tcp w c seq flags data = some false
  | .arpSend _ _ _ _ => True
  | .dnsQueryHost host _ _ =>
    w.dnsServer.bits ≠ ipv4NullAddr.bits → host.bytes.length < 256 ∧ Routed w w.dnsServer

/-- Buffers that wait in the cache are allocated, and so is the one that is handed in, which
    nobody else holds.  ARP is only spoken on Ethernet. -/
structure SendReady (frames : Nat → Nat) (w : SendWorld) (op : SendOp) : Prop where
  pool : PoolInv frames w.net.bufs (pending w.net.cache ∪ { p | op.given = some p })
  given : ∀ p, op.given = some p → p ∉ pending w.net.cache ∧ (w.net.bufs.buf p).refCount = 1
  ethernet : ∀ intf x tha tpa, op = .arpSend intf x tha tpa → w.isLoop intf = false

/-! ## Held buffers -/

/-- `p` is allocated, and in none of the places. -/
structure Held (frames : Nat → Nat) (w : NetWorld) (p : Nat) : Prop where
  pool : PoolInv frames w.bufs (insert p (pending w.cache))
  apart : p ∉ pending w.cache
  refCount : (w.bufs.buf p).refCount = 1

variable {frames : Nat → Nat} {w : NetWorld} {held : Set Nat} {p before : Nat} {count : Int}

/-- A buffer that is held is not free. -/
theorem PoolInv.not_onFreeList {b : BufPool} (h : PoolInv frames b held) (hp : p ∈ held) :
    ¬ OnFreeList b p := by
  intro ⟨l, hchain, hmem⟩
  obtain ⟨l', hchain', hfree, -⟩ := h.free
  rw [hchain.unique hchain'] at hmem
  exact hfree p hmem hp

/-- A buffer that does not wait is in no entry. -/
theorem slots_eq_zero {c : ArpCache} (h0 : p ≠ 0) (h : p ∉ pending c) : slots c p = 0 := by
  rw [slots, List.countP_eq_zero]
  intro i _ heq
  exact h ⟨h0, i, by simpa using heq⟩

/-- It has an address. -/
theorem Held.ne_zero (h : Held frames w p) : p ≠ 0 := h.pool.ne_zero p (Set.mem_insert _ _)

/-- It is in no entry. -/
theorem Held.slots (h : Held frames w p) : slots w.cache p = 0 := slots_eq_zero h.ne_zero h.apart

/-- A buffer that is still held is lost when the call returns. -/
theorem Held.not_inOnePlace (h : Held frames w p) (hsends : sends p w.log = before) :
    ¬ InOnePlace w p before count := by
  have hfree := h.pool.not_onFreeList (Set.mem_insert _ _)
  have hslots := h.slots
  intro hplace
  rcases hplace with hsent | hqueued | hback
  · omega
  · omega
  · exact hfree hback.2.2.1

/-- The packet may be written. -/
theorem Held.setData (h : Held frames w p) (data : List Byte) :
    Held frames (w.setData p data) p := by
  constructor
  · exact h.pool.setBuf (Set.mem_insert _ _) _
  · exact h.apart
  · simp [NetWorld.setData, h.refCount]

/-- A new packet is held, and has not been sent. -/
theorem allocPacket_held (hf : FramesOk frames) (h : PoolInv frames w.bufs (pending w.cache))
    (data : List Byte) :
    Held frames (allocPacket frames w data).2 (allocPacket frames w data).1 ∧
      (∀ q, sends q (allocPacket frames w data).2.log = sends q w.log) ∧
      (allocPacket frames w data).2.bufs.netBufAllocCount = w.bufs.netBufAllocCount + 1 := by
  obtain ⟨hnew, hpool, -, -, -, -, hone⟩ := netAllocBuf_spec hf h
  have hcount : (netAllocBuf frames w.bufs).2.netBufAllocCount = w.bufs.netBufAllocCount + 1 := by
    by_cases hlist : w.bufs.netBufList = 0 <;> simp [netAllocBuf, hlist, BufPool.setBuf]
  have hheld : Held frames
      ({ w with bufs := (netAllocBuf frames w.bufs).2 }.emit (.alloc (netAllocBuf frames w.bufs).1))
      (netAllocBuf frames w.bufs).1 := ⟨hpool, hnew, hone⟩
  refine ⟨hheld.setData data, fun q => ?_, hcount⟩
  rfl

/-! ## The driver -/

/-- One more packet has been sent. -/
theorem sends_devSend (intf : NetIntf) (header : EthHeader) (p q : Nat) (log : List NetEvent) :
    sends p (.devSend intf header q :: log) = sends p log + if q = p then 1 else 0 := by
  rw [sends, List.countP_cons]
  simp only [beq_iff_eq]
  rfl

/-- The frame is handed to `dev_send`. -/
theorem Held.transmit (h : Held frames w p) (hsends : sends p w.log = before) (intf : Nat)
    (dst : EthAddr) (ethertype : BitVec 16) :
    InOnePlace (ethTransmit w intf dst ethertype p) p before count := by
  left
  refine ⟨?_, h.slots, ?_⟩
  · show sends p (.devSend _ _ p :: w.log) = _
    rw [sends_devSend, if_pos rfl, hsends]
  · exact (h.pool.setBuf (Set.mem_insert _ _) _).not_onFreeList (Set.mem_insert _ _)

/-! ## Loopback -/

/-- The last reference frees the buffer. -/
theorem netFreeBuf_onFreeList {b : BufPool} (h : PoolInv frames b held) (hp : p ∈ held)
    (hone : (b.buf p).refCount = 1) :
    OnFreeList (netFreeBuf b p) p ∧
      (netFreeBuf b p).netBufAllocCount = b.netBufAllocCount - 1 := by
  have hzero : sub32 1 1 = 0 := by simp [sub32]
  obtain ⟨l, hchain, hl, -⟩ := h.free
  unfold netFreeBuf
  simp only [BufPool.setBuf_buf, if_pos, hone, hzero, BufPool.setBuf_netBufList]
  constructor
  · refine ⟨p :: l, ⟨rfl, h.ne_zero p hp, ?_⟩, List.mem_cons_self⟩
    simp only [BufPool.setBuf_buf, if_pos]
    apply hchain.congr
    intro q hq
    have hqp : q ≠ p := fun heq => hl q hq (heq ▸ hp)
    simp [hqp]
  · rfl

/-- The last reference is dropped. -/
theorem Held.loopSend (h : Held frames w p) (hsends : sends p w.log = before)
    (hcount : w.bufs.netBufAllocCount = count) :
    InOnePlace (loopSend w p false) p before count := by
  right
  right
  obtain ⟨hfree, hless⟩ := netFreeBuf_onFreeList h.pool (Set.mem_insert _ _) h.refCount
  refine ⟨hsends, h.slots, hfree, ?_⟩
  show (netFreeBuf w.bufs p).netBufAllocCount = _
  rw [hless, hcount]

/-- A reference remains. -/
theorem Held.loopSend_kept (h : Held frames w p) (hsends : sends p w.log = before) :
    ¬ InOnePlace (MishaOS.loopSend w p true) p before count := by
  have hone := h.refCount
  have htwo : u32 (1 + 1) = 0 + 2 := u32_of_lt (by decide)
  have hkept : Held frames (MishaOS.loopSend w p true) p := by
    have hshared := netFreeBuf_shared
      (b := w.bufs.setBuf p { w.bufs.buf p with refCount := 0 + 2 }) (p := p) (n := 0)
      (by simp) (by decide)
    constructor
    · simp only [MishaOS.loopSend, if_true, hone, htwo, hshared]
      exact (h.pool.setBuf (Set.mem_insert _ _) _).setBuf (Set.mem_insert _ _) _
    · exact h.apart
    · simp only [MishaOS.loopSend, if_true, hone, htwo, hshared]
      simp [NetWorld.emit]
  exact hkept.not_inOnePlace hsends

/-! ## Waiting for an address -/

/-- The entry that is taken, and otherwise packets that were in the cache before. -/
theorem arpRequestEntry_packet (c : ArpCache) (tpa : Ipv4Addr) (j : Fin 16) :
    ∃ k, ((arpRequestEntry c tpa).2 j).packet = (c k).packet := by
  unfold arpRequestEntry
  cases arpLookup c tpa with
  | some i => exact ⟨j, rfl⟩
  | none =>
    rcases arpAdd_eq c ethNullAddr tpa with ⟨i, -, hadd⟩ | ⟨-, hadd⟩
    · rw [hadd]
      exact ⟨j, packet_setAddr c i j ethNullAddr tpa⟩
    · rw [hadd]
      by_cases hj : j = 15
      · exact ⟨15, by simp [hj]⟩
      · simp only [Function.update_of_ne hj]
        unfold arpShift
        split
        · exact ⟨_, rfl⟩
        · exact ⟨_, rfl⟩

/-- The packet waits in one entry. -/
theorem slots_update {c : ArpCache} {i : Fin 16} {x : ArpEntry} (hx : x.packet = p)
    (h : ∀ j, (c j).packet ≠ p) : slots (Function.update c i x) p = 1 := by
  have heq : (fun j => (Function.update c i x j).packet == p) = fun j => j == i := by
    funext j
    by_cases hj : j = i
    · simp [hj, hx]
    · simp [hj, h j]
  rw [slots, heq]
  exact List.count_eq_one_of_mem (List.nodup_finRange 16) (List.mem_finRange i)

/-- `arp_send` allocates a buffer of its own. -/
theorem arpSend_other (hf : FramesOk frames) (h : PoolInv frames w.bufs {p}) (intf : Nat)
    (op : BitVec 16) (tha : EthAddr) (tpa : Ipv4Addr) :
    sends p (arpSend frames w intf op tha tpa).log = sends p w.log ∧
      ¬ OnFreeList (arpSend frames w intf op tha tpa).bufs p := by
  obtain ⟨hnew, hpool, -⟩ := netAllocBuf_spec hf h
  have hne : (netAllocBuf frames w.bufs).1 ≠ p := fun heq => hnew (by simp [heq])
  constructor
  · show sends p (.devSend _ _ (netAllocBuf frames w.bufs).1 :: .alloc _ :: w.log) = _
    rw [sends_devSend, if_neg hne]
    rfl
  · have hafter : PoolInv frames (arpSend frames w intf op tha tpa).bufs
        (insert (netAllocBuf frames w.bufs).1 {p}) :=
      (hpool.setBuf (Set.mem_insert _ _) _).setBuf (Set.mem_insert _ _) _
    exact hafter.not_onFreeList (by simp)

/-- The packet waits in one entry; what waited there before is dropped. -/
theorem Held.arpRequest (hf : FramesOk frames) (h : Held frames w p)
    (hsends : sends p w.log = before) (intf : Nat) (tpa : Ipv4Addr) (ethertype : BitVec 16) :
    InOnePlace (arpRequest frames w intf tpa ethertype p) p before count := by
  right
  left
  unfold MishaOS.arpRequest
  have hold := arpRequestEntry_packet w.cache tpa
  generalize arpRequestEntry w.cache tpa = r at hold ⊢
  obtain ⟨i, c⟩ := r
  simp only at hold ⊢
  -- nothing that is in the cache now is the packet
  have hne : ∀ j, (c j).packet ≠ p := by
    intro j heq
    obtain ⟨k, hk⟩ := hold j
    exact h.apart ⟨h.ne_zero, k, hk.symm.trans heq⟩
  have hfreed : ∃ w₂ : NetWorld, w₂ = (if (c i).packet ≠ 0 then
        arpFreePacket { w with cache := c } i else { w with cache := c }) ∧ w₂.cache = c ∧
      sends p w₂.log = before ∧ PoolInv frames w₂.bufs {p} := by
    by_cases h0 : (c i).packet = 0
    · refine ⟨_, rfl, ?_⟩
      simp only [h0, ne_eq, not_true_eq_false, if_false]
      exact ⟨trivial, hsends, h.pool.anti (Set.singleton_subset_iff.mpr (Set.mem_insert _ _))⟩
    · refine ⟨_, rfl, ?_⟩
      simp only [ne_eq, h0, not_false_eq_true, if_true]
      obtain ⟨k, hk⟩ := hold i
      have hmem : (c i).packet ∈ insert p (pending w.cache) := by
        right
        exact ⟨h0, k, hk.symm⟩
      refine ⟨rfl, hsends, (h.pool.release hmem).anti ?_⟩
      intro q hq
      rw [Set.mem_singleton_iff.mp hq]
      exact ⟨Set.mem_insert _ _, fun heq => hne i (Set.mem_singleton_iff.mp heq).symm⟩
  obtain ⟨w₂, heq, hcache, hsends₂, hpool₂⟩ := hfreed
  rw [← heq]
  obtain ⟨hsent, hfree⟩ := arpSend_other (w := (w₂.setEntry i { w₂.cache i with
    intf := intf, ethertype := ethertype, packet := p }).emit (.queue tpa p)) hf hpool₂ intf
    ARP_OP_REQUEST ethBroadcastAddr tpa
  refine ⟨hsent.trans hsends₂, ?_, hfree⟩
  show MishaOS.slots (Function.update w₂.cache i _) p = 1
  apply slots_update rfl
  rw [hcache]
  exact hne

/-! ## Through the layers -/

/-- An IPv4 packet goes to the driver or waits. -/
theorem Held.ethIntfSend (hf : FramesOk frames) (h : Held frames w p)
    (hsends : sends p w.log = before) (intf : Nat) (dst : List Byte) :
    InOnePlace (ethIntfSend frames w intf dst ET_IPV4 p) p before count := by
  have harp : ET_IPV4 ≠ ET_ARP := by decide
  rw [MishaOS.ethIntfSend, if_neg harp, if_pos rfl]
  simp only
  split
  · exact h.transmit hsends _ _ _
  · split
    · exact h.arpRequest hf hsends _ _ _
    · exact h.transmit hsends _ _ _

variable {s : SendWorld}

/-- The packet is lost only if the receiver of a looped-back one keeps it. -/
theorem Held.ipv4IntfSend (hf : FramesOk frames) (h : Held frames s.net p)
    (hsends : sends p s.net.log = before) (hcount : s.net.bufs.netBufAllocCount = count)
    (intf : Nat) (nextAddr dst : Ipv4Addr) (protocol : Byte) (kept : Bool) :
    InOnePlace (ipv4IntfSend frames s intf nextAddr dst protocol p kept).net p before count ↔
      (s.isLoop intf = true → kept = false) := by
  unfold MishaOS.ipv4IntfSend
  simp only [SendWorld.setNet]
  generalize ipv4Header _ _ _ _ ++ _ = data
  have hheld := h.setData data
  by_cases hloop : s.isLoop intf = true
  · rw [if_pos hloop]
    cases kept with
    | false => exact iff_of_true (hheld.loopSend hsends hcount) fun _ => rfl
    | true => exact iff_of_false (hheld.loopSend_kept hsends) (by simp [hloop])
  · rw [if_neg hloop]
    exact iff_of_true (hheld.ethIntfSend hf hsends _ _) fun hl => absurd hl hloop

/-- Without a route the packet is lost. -/
theorem Held.ipv4Send (hf : FramesOk frames) (h : Held frames s.net p)
    (hsends : sends p s.net.log = before) (hcount : s.net.bufs.netBufAllocCount = count)
    (dst : Ipv4Addr) (protocol : Byte) :
    (∃ s', ipv4Send frames s dst protocol p = some s' ∧ InOnePlace s'.net p before count) ↔
      Routed s dst := by
  unfold MishaOS.ipv4Send Routed
  cases hroute : netFindRoute s.routes dst with
  | none => simp
  | some route =>
    cases route with
    | zero =>
      have hlost : ¬ InOnePlace s.net p before count := h.not_inOnePlace hsends
      simpa using hlost
    | succ route =>
      have hplace := (h.ipv4IntfSend hf hsends hcount (s.routes.route (route + 1)).intf
        (netNextAddr s.routes (route + 1) dst) dst protocol false).mpr fun _ => rfl
      simpa using hplace

/-- A UDP packet is lost only without a route. -/
theorem Held.udpSend (hf : FramesOk frames) (h : Held frames s.net p)
    (hsends : sends p s.net.log = before) (hcount : s.net.bufs.netBufAllocCount = count)
    (dst : Ipv4Addr) (dstPort srcPort : BitVec 16) :
    (∃ s', udpSend frames s dst dstPort srcPort p = some s' ∧ InOnePlace s'.net p before count) ↔
      Routed s dst :=
  Held.ipv4Send (s := s.setNet (s.net.setData p _)) hf (h.setData _) hsends hcount dst _

/-! ## Calls -/

/-- A page that is requested for something else is no buffer. -/
theorem PoolInv.request {b : BufPool} (h : PoolInv frames b held) :
    PoolInv frames { b with requests := b.requests + 1 } held := by
  obtain ⟨l, hchain, hl, hf⟩ := h.free
  exact ⟨⟨l, hchain, hl, fun k hk => hf k (Nat.le_of_succ_le hk)⟩, h.ne_zero,
    fun k hk => h.fresh k (Nat.le_of_succ_le hk)⟩

/-- A call whose packet is `p`. -/
theorem leaves_map {f : Option SendWorld} {log : List NetEvent} :
    (∃ r, (f.map fun s => (some p, s)) = some r ∧
        ∀ q, r.1 = some q → InOnePlace r.2.net q (sends q log) count) ↔
      ∃ s, f = some s ∧ InOnePlace s.net p (sends p log) count := by
  cases f <;> simp

/-- The packet that is handed in is held. -/
theorem SendReady.given_held {op : SendOp} (h : SendReady frames s op) (hp : op.given = some p) :
    Held frames s.net p := by
  obtain ⟨hapart, hone⟩ := h.given p hp
  refine ⟨h.pool.anti ?_, hapart, hone⟩
  intro q hq
  rcases hq with rfl | hq
  · exact Or.inr hp
  · exact Or.inl hq

/-- The packets that wait are allocated. -/
theorem SendReady.pending {op : SendOp} (h : SendReady frames s op) :
    PoolInv frames s.net.bufs (pending s.net.cache) := h.pool.anti Set.subset_union_left

/-- An echo packet is lost only without a route. -/
theorem icmpEchoSend_iff (hf : FramesOk frames)
    (h : PoolInv frames s.net.bufs (pending s.net.cache)) (type : Byte) (addr : Ipv4Addr)
    (id sequence : BitVec 16) (data : List Byte) :
    (∃ r, ((icmpEchoSend frames s type addr id sequence data).map fun r => (some r.1, r.2)) =
        some r ∧
      ∀ p, r.1 = some p → InOnePlace r.2.net p (sends p s.net.log)
        (s.net.bufs.netBufAllocCount + 1)) ↔ Routed s addr := by
  obtain ⟨hheld, hsends, hcount⟩ := allocPacket_held hf h (icmpEcho type id sequence data)
  unfold icmpEchoSend
  generalize allocPacket frames s.net _ = a at *
  obtain ⟨p, net⟩ := a
  have hsend := Held.ipv4Send (s := s.setNet net) hf hheld (hsends p) hcount addr IP_PROTOCOL_ICMP
  rw [Option.map_map]
  exact leaves_map.trans hsend

/-- A query is lost without a route, and when the host name is too long. -/
theorem dnsQueryHost_iff (hf : FramesOk frames)
    (h : PoolInv frames s.net.bufs (pending s.net.cache)) (host : CString) (id : BitVec 32)
    (callback : Bool) :
    (∃ r, dnsQueryHost frames s host id callback = some r ∧
      ∀ p, r.1 = some p → InOnePlace r.2.net p (sends p s.net.log)
        (s.net.bufs.netBufAllocCount + 1)) ↔
      (s.dnsServer.bits ≠ ipv4NullAddr.bits →
        host.bytes.length < 256 ∧ Routed s s.dnsServer) := by
  unfold dnsQueryHost
  by_cases hserver : s.dnsServer.bits = ipv4NullAddr.bits
  · simp [hserver]
  · obtain ⟨hheld, hsends, hcount⟩ := allocPacket_held hf h []
    rw [if_neg hserver]
    generalize allocPacket frames s.net [] = a at *
    obtain ⟨p, net⟩ := a
    simp only at hheld hsends hcount ⊢
    by_cases hlen : host.bytes.length ≥ 256
    · -- the host is rejected after the allocation
      rw [if_pos hlen]
      have hlost : ¬ InOnePlace net p (sends p s.net.log) (s.net.bufs.netBufAllocCount + 1) :=
        hheld.not_inOnePlace (hsends p)
      apply iff_of_false
      · simpa [SendWorld.setNet] using hlost
      · intro hok
        have hshort := (hok hserver).1
        omega
    · rw [if_neg hlen]
      have hfilled := hheld.setData (dnsQuery id host)
      have hshort : host.bytes.length < 256 := by omega
      have hcond : (s.dnsServer.bits ≠ ipv4NullAddr.bits →
          host.bytes.length < 256 ∧ Routed s s.dnsServer) ↔ Routed s s.dnsServer :=
        ⟨fun hok => (hok hserver).2, fun hok _ => ⟨hshort, hok⟩⟩
      rw [hcond]
      cases callback with
      | false =>
        have hsend := Held.udpSend (s := { s.setNet (net.setData p (dnsQuery id host)) with
          nextPort := (netEphemeralPort s.nextPort).2 }) hf hfilled (hsends p) hcount s.dnsServer
          PORT_DNS (netEphemeralPort s.nextPort).1
        exact leaves_map.trans hsend
      | true =>
        -- the entry for the callback takes another page
        have hpaged : Held frames { net.setData p (dnsQuery id host) with
            bufs := { (net.setData p (dnsQuery id host)).bufs with
              requests := (net.setData p (dnsQuery id host)).bufs.requests + 1 } } p :=
          ⟨hfilled.pool.request, hfilled.apart, hfilled.refCount⟩
        have hsend := Held.udpSend (s := { s.setNet { net.setData p (dnsQuery id host) with
            bufs := { (net.setData p (dnsQuery id host)).bufs with
              requests := (net.setData p (dnsQuery id host)).bufs.requests + 1 } } with
          nextPort := (netEphemeralPort s.nextPort).2
          dnsEntries := ⟨frames (net.setData p (dnsQuery id host)).bufs.requests, id, host⟩ ::
            s.dnsEntries }) hf hpaged (hsends p) hcount s.dnsServer
          PORT_DNS (netEphemeralPort s.nextPort).1
        exact leaves_map.trans hsend

/-- A call that returns leaves its packet where the state says. -/
theorem leaves_some (s' : SendWorld) (log : List NetEvent) :
    (∃ r, (some (some p, s') : Option (Option Nat × SendWorld)) = some r ∧
        ∀ q, r.1 = some q → InOnePlace r.2.net q (sends q log) count) ↔
      InOnePlace s'.net p (sends p log) count := by
  simp

/-- A TCP segment is lost only if a connection keeps it when it is looped back. -/
theorem tcpSendPacket_iff (hf : FramesOk frames)
    (h : PoolInv frames s.net.bufs (pending s.net.cache)) (tcp : TcpWorld) (c : TcpConn)
    (seq : BitVec 32) (flags : BitVec 8) (data : List Byte) :
    LeavesInOnePlace frames s (.tcpSendPacket tcp c seq flags data) ↔
      (s.isLoop c.intf = true → tcpKept frames tcp s c seq flags data = some false) := by
  obtain ⟨hheld, hsends, hcount⟩ := allocPacket_held hf h (tcpSegment c seq flags data).toBytes
  have hcall : sendCall frames s (.tcpSendPacket tcp c seq flags data) =
      (tcpKept frames tcp s c seq flags data).map fun kept =>
        (some (tcpSendSegment frames s c seq flags data kept).1,
          (tcpSendSegment frames s c seq flags data kept).2) := rfl
  unfold LeavesInOnePlace
  rw [hcall]
  cases hkept : tcpKept frames tcp s c seq flags data with
  | none =>
    -- the segment is looped back, and `tcp_recv` does not return
    have hloop : s.isLoop c.intf = true := by
      by_contra hloop
      rw [tcpKept, if_neg hloop] at hkept
      exact absurd hkept (by simp)
    simp [hloop]
  | some kept =>
    have hplace := Held.ipv4IntfSend (s := s.setNet _) hf hheld (hsends _) hcount c.intf c.nextAddr
      c.remoteAddr IP_PROTOCOL_TCP kept
    rw [Option.map_some, Option.some.injEq]
    exact (leaves_some _ _).trans hplace

/-- Every call that sends a packet leaves its buffer in exactly one place, except when there
    is no route, when a host name is rejected behind the allocation, and when a connection
    keeps a segment that is looped back. -/
theorem send_leaves_in_one_place_iff (frames : Nat → Nat) (hf : FramesOk frames) (w : SendWorld)
    (op : SendOp) (hready : SendReady frames w op) :
    LeavesInOnePlace frames w op ↔ SendOpOk frames w op := by
  -- one case per call; each holds another buffer when it begins
  cases op with
  | udpSend dst dstPort srcPort packet =>
    have hheld := hready.given_held rfl
    exact leaves_map.trans (hheld.udpSend hf rfl (Int.add_zero _).symm dst dstPort srcPort)
  | udpIntfSend intf dst dstPort srcPort packet =>
    have hheld := (hready.given_held rfl).setData (udpHeader srcPort dstPort
      (8 + (w.net.bufs.buf packet).data.length) ++ (w.net.bufs.buf packet).data)
    have hplace := Held.ipv4IntfSend (s := w.setNet (w.net.setData packet _)) hf hheld rfl
      (Int.add_zero _).symm intf dst dst IP_PROTOCOL_UDP false
    exact (leaves_some _ _).trans (hplace.trans (iff_of_true (fun _ => rfl) trivial))
  | icmpEchoRequest addr id sequence data =>
    exact icmpEchoSend_iff hf hready.pending _ addr id sequence data
  | icmpEchoReply addr id sequence data =>
    exact icmpEchoSend_iff hf hready.pending _ addr id sequence data
  | tcpSendPacket tcp c seq flags data =>
    exact tcpSendPacket_iff hf hready.pending tcp c seq flags data
  | arpSend intf x tha tpa =>
    obtain ⟨hheld, hsends, -⟩ := allocPacket_held hf hready.pending
      (((netAllocBuf frames w.net.bufs).2.buf (netAllocBuf frames w.net.bufs).1).data ++
        arpPacket x (w.net.intf intf).ethAddr (w.net.intf intf).ipAddr
          (if x = ARP_OP_REQUEST then ethNullAddr else tha) tpa)
    exact (leaves_some (w.setNet _) _).trans
      (iff_of_true (hheld.transmit (hsends _) intf tha ET_ARP) trivial)
  | dnsQueryHost host id callback => exact dnsQueryHost_iff hf hready.pending host id callback

/-- A machine with the loopback route and a default route, which `net_find_route` never
    reaches. -/
def SendWorld.boot : SendWorld where
  net := NetWorld.boot
  routes :=
    { routeList := 0x10
      route := fun p =>
        if p = 0x10 then
          ⟨0x20, 0, .ofBytes 127 0 0 1, .ofBytes 255 255 255 255, ipv4NullAddr, 0⟩
        else ⟨0, 0x10, ipv4NullAddr, ipv4NullAddr, .ofBytes 10 0 2 2, 1⟩ }
  isLoop := fun intf => intf == 0
  dnsServer := .ofBytes 127 0 0 1
  dnsEntries := []
  nextPort := 49152

/-- After boot no buffer is held. -/
theorem SendWorld.boot_pool :
    PoolInv nextFrame SendWorld.boot.net.bufs (pending SendWorld.boot.net.cache) := by
  have hnone : ∀ q, q ∉ pending SendWorld.boot.net.cache := fun q ⟨hq, i, hi⟩ => hq hi.symm
  exact ⟨⟨[], rfl, by simp, by simp⟩, fun q hq => absurd hq (hnone q),
    fun k _ => hnone (nextFrame k)⟩

/-- After boot every call may be made that gets no packet. -/
theorem SendWorld.boot_ready {op : SendOp} (hgiven : op.given = none)
    (hop : ∀ intf x tha tpa, op ≠ .arpSend intf x tha tpa) :
    SendReady nextFrame SendWorld.boot op := by
  constructor
  · rw [hgiven]
    simpa using SendWorld.boot_pool
  · intro p hp
    simp [hgiven] at hp
  · intro intf x tha tpa heq
    exact absurd heq (hop intf x tha tpa)

/-- An echo request to the host itself. -/
theorem send_leaves_in_one_place_loopback :
    LeavesInOnePlace nextFrame SendWorld.boot
      (.icmpEchoRequest (.ofBytes 127 0 0 1) 1 1 [1, 2, 3]) :=
  (send_leaves_in_one_place_iff nextFrame nextFrame_framesOk SendWorld.boot
    (.icmpEchoRequest (.ofBytes 127 0 0 1) 1 1 [1, 2, 3])
    (SendWorld.boot_ready rfl (by simp))).mpr ⟨0x10, by decide +kernel, by decide⟩

/-- A host without a route, and a host name of 256 bytes. -/
theorem send_loses_packet :
    ¬ LeavesInOnePlace nextFrame SendWorld.boot
        (.icmpEchoRequest (.ofBytes 10 0 2 9) 1 1 [1, 2, 3]) ∧
      ¬ LeavesInOnePlace nextFrame SendWorld.boot
        (.dnsQueryHost ⟨List.replicate 256 97, by decide⟩ 1 false) := by
  constructor
  · intro h
    obtain ⟨route, hroute, hne⟩ :=
      (icmpEchoSend_iff nextFrame_framesOk SendWorld.boot_pool ICMP_TYPE_ECHO_REQUEST
        (.ofBytes 10 0 2 9) 1 1 [1, 2, 3]).mp h
    have hnone : netFindRoute SendWorld.boot.routes (.ofBytes 10 0 2 9) = some 0 := by
      decide +kernel
    rw [hnone] at hroute
    exact hne (Option.some.inj hroute).symm
  · intro h
    have hlen := ((dnsQueryHost_iff nextFrame_framesOk SendWorld.boot_pool
      ⟨List.replicate 256 97, by decide⟩ 1 false).mp h (by decide)).1
    rw [List.length_replicate] at hlen
    omega

end MishaOS
