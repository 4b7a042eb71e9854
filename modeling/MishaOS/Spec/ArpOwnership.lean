import Mathlib.Tactic.Common
import MishaOS.ForStd.Run
import MishaOS.Native.Arp
import MishaOS.Spec.BufPool

/-!
# Who owns a packet that waits for an address

A packet given to `eth_intf_send` either goes to the driver or waits in the
cache entry of its next hop.  The log of a run says which packets wait
(`waiting`), which are in the hands of protocols and drivers (`heldBy`) and how
often a packet has been handed to the driver since it was given away
(`sentSince`); the invariant compares this with what the cache references.

## Key results

- `arp_run_packets`: the cache and the log agree in every run in which no entry
  that holds, or would inherit, a waiting packet is overwritten.
-/

namespace MishaOS

/-! ## What a log says -/

/-- The buffers protocols and drivers hold. -/
def heldBy : List NetEvent → List Nat
  | [] => []
  | .alloc p :: l => p :: heldBy l
  | .freeBuf p _ :: l => (heldBy l).filter (· ≠ p)
  | .queue _ p :: l => (heldBy l).filter (· ≠ p)
  | .devSend _ _ p :: l => p :: heldBy l
  | _ :: l => heldBy l

/-- The packets that wait for an address to be resolved. -/
def waiting : List NetEvent → List (Ipv4Addr × Nat)
  | [] => []
  | .queue a p :: l => (a, p) :: waiting l
  | .freeBuf p _ :: l => (waiting l).filter (·.2 ≠ p)
  | .devSend _ _ p :: l => (waiting l).filter (·.2 ≠ p)
  | _ :: l => waiting l

/-- How often `p` has been transmitted since it was last allocated or given away. -/
def sentSince (p : Nat) : List NetEvent → Nat
  | [] => 0
  | .alloc q :: l => if q = p then 0 else sentSince p l
  | .handIn q _ :: l => if q = p then 0 else sentSince p l
  | .devSend _ _ q :: l => if q = p then sentSince p l + 1 else sentSince p l
  | _ :: l => sentSince p l

/-! ## Runs -/

inductive NetOp
  /-- A protocol or a driver allocates a buffer and fills it. -/
  | alloc (data : List Byte)
  /-- The holder of a buffer releases it. -/
  | release (packet : Nat)
  /-- `eth_intf_send` -/
  | send (intf : Nat) (dst : List Byte) (ethertype : BitVec 16) (packet : Nat)
  /-- `arp_request` -/
  | request (intf : Nat) (tpa : Ipv4Addr) (ethertype : BitVec 16) (packet : Nat)
  /-- `arp_recv` -/
  | recv (intf : Nat) (data : List Byte)
  /-- An interface gets its addresses. -/
  | config (intf : Nat) (x : NetIntf)
deriving Repr

/-- One call. -/
def netStep (frames : Nat → Nat) (w : NetWorld) : NetOp → NetWorld
  | .alloc data =>
    let (p, bufs) := netAllocBuf frames w.bufs
    { w with bufs := bufs.setBuf p { bufs.buf p with data := data } }.emit (.alloc p)
  | .release p =>
    let shared := (List.finRange 16).any fun j => (w.cache j).packet = p
    { w with bufs := netFreeBuf w.bufs p }.emit (.freeBuf p shared)
  | .send intf dst ethertype p =>
    ethIntfSend frames (w.emit (.handIn p (Ipv4Addr.read dst))) intf dst ethertype p
  | .request intf tpa ethertype p => arpRequest frames (w.emit (.handIn p tpa)) intf tpa ethertype p
  | .recv intf data => arpRecv frames w intf data
  | .config intf x => { w with intf := Function.update w.intf intf x }

/-- The zero-initialised cache and buffer list; interfaces and memory are arbitrary. -/
structure NetInit (w : NetWorld) : Prop where
  cache : w.cache = fun _ => ⟨ethNullAddr, ipv4NullAddr, 0, 0, 0⟩
  list : w.bufs.netBufList = 0
  log : w.log = []

/-- The first slot without an address. -/
def firstEmpty (c : ArpCache) : Option (Fin 16) :=
  (List.finRange 16).find? fun i => (c i).pa.bits = 0

/-- `eth_intf_send` is going to call `arp_add`. -/
def SendAdds (w : NetWorld) (intf : Nat) (dst : List Byte) (ethertype : BitVec 16) : Prop :=
  ethertype = ET_IPV4 ∧ (Ipv4Addr.read dst).bits ≠ ipv4BroadcastAddr.bits ∧
    (Ipv4Addr.read dst).bits ≠ (w.intf intf).broadcastAddr.bits ∧
    arpLookup w.cache (Ipv4Addr.read dst) = none

/-- `arp_recv` is going to call `arp_add`. -/
def RecvAdds (w : NetWorld) (intf : Nat) (data : List Byte) : Prop :=
  28 ≤ data.length ∧ readBe16 data = ARP_HTYPE_ETH ∧ readBe16 (data.drop 2) = ET_IPV4 ∧
    arpLookup w.cache (Ipv4Addr.read (data.drop 14)) = none ∧
    (Ipv4Addr.read (data.drop 24)).bits = (w.intf intf).ipAddr.bits

/-- Eviction from a full cache: the entry whose slot is copied and reused holds
    no packet and, when packets are to be kept, nor does the one dropped. -/
def EvictOk (keep : Bool) (c : ArpCache) : Prop :=
  firstEmpty c = none → (keep = true → (c 0).packet = 0) ∧ (c 15).packet = 0

/-- The unused slot that is taken holds no packet. -/
def ReuseOk (c : ArpCache) : Prop := ∀ i, firstEmpty c = some i → (c i).packet = 0

instance (w : NetWorld) (intf : Nat) (dst : List Byte) (ethertype : BitVec 16) :
    Decidable (SendAdds w intf dst ethertype) :=
  inferInstanceAs (Decidable (_ ∧ _ ∧ _ ∧ _))

instance (w : NetWorld) (intf : Nat) (data : List Byte) : Decidable (RecvAdds w intf data) :=
  inferInstanceAs (Decidable (_ ∧ _ ∧ _ ∧ _ ∧ _))

instance (keep : Bool) (c : ArpCache) : Decidable (EvictOk keep c) :=
  inferInstanceAs (Decidable (_ → _))

instance (c : ArpCache) : Decidable (ReuseOk c) := inferInstanceAs (Decidable (∀ _, _ → _))

/-- The caller holds the packet it gives away or releases. -/
def CallerOk (w : NetWorld) : NetOp → Prop
  | .release p => p ∈ heldBy w.log
  | .send _ _ _ p => p ∈ heldBy w.log
  | .request _ _ ethertype p => p ∈ heldBy w.log ∧ (ethertype = ET_IPV4 ∨ ethertype = ET_ARP)
  | _ => True

instance (w : NetWorld) (op : NetOp) : Decidable (CallerOk w op) :=
  match op with
  | .release p => inferInstanceAs (Decidable (p ∈ heldBy w.log))
  | .send _ _ _ p => inferInstanceAs (Decidable (p ∈ heldBy w.log))
  | .request _ _ ethertype p =>
    inferInstanceAs (Decidable (p ∈ heldBy w.log ∧ (ethertype = ET_IPV4 ∨ ethertype = ET_ARP)))
  | .alloc _ => .isTrue trivial
  | .recv _ _ => .isTrue trivial
  | .config _ _ => .isTrue trivial

/-- The overwriting branches of `arp_add` are not taken on entries with a packet. -/
def CacheOk (keep : Bool) (w : NetWorld) : NetOp → Prop
  | .send intf dst ethertype _ => SendAdds w intf dst ethertype → EvictOk keep w.cache
  | .request _ tpa _ _ => arpLookup w.cache tpa = none → EvictOk keep w.cache
  | .recv intf data => RecvAdds w intf data → EvictOk keep w.cache ∧ ReuseOk w.cache
  | _ => True

instance (keep : Bool) (w : NetWorld) (op : NetOp) : Decidable (CacheOk keep w op) :=
  match op with
  | .send intf dst ethertype _ =>
    inferInstanceAs (Decidable (SendAdds w intf dst ethertype → EvictOk keep w.cache))
  | .request _ tpa _ _ =>
    inferInstanceAs (Decidable (arpLookup w.cache tpa = none → EvictOk keep w.cache))
  | .recv intf data =>
    inferInstanceAs (Decidable (RecvAdds w intf data → EvictOk keep w.cache ∧ ReuseOk w.cache))
  | .alloc _ => .isTrue trivial
  | .release _ => .isTrue trivial
  | .config _ _ => .isTrue trivial

/-! ## The invariant -/

/-- The buffers in use: held by somebody or waiting in the cache. -/
def NetWorld.inUse (w : NetWorld) : Set Nat :=
  { p | p ∈ heldBy w.log ∨ p ≠ 0 ∧ ∃ i, (w.cache i).packet = p }

/-- The cache and the log agree.  `kept`: no waiting packet has been lost by
    eviction. -/
structure ArpInv (frames : Nat → Nat) (keep : Bool) (w : NetWorld) : Prop where
  pool : PoolInv frames w.bufs w.inUse
  refs : ∀ p ∈ w.inUse, (w.bufs.buf p).refCount = 1
  inj : ∀ i j, (w.cache i).packet ≠ 0 → (w.cache i).packet = (w.cache j).packet → i = j
  waits : ∀ i, (w.cache i).packet ≠ 0 → ((w.cache i).pa, (w.cache i).packet) ∈ waiting w.log
  kept : keep = true → ∀ a p, (a, p) ∈ waiting w.log →
    p ≠ 0 ∧ ∃ i, (w.cache i).pa = a ∧ (w.cache i).packet = p
  apart : ∀ i, (w.cache i).packet ≠ 0 → (w.cache i).packet ∉ heldBy w.log
  types : ∀ i, (w.cache i).packet ≠ 0 →
    (w.cache i).ethertype = ET_IPV4 ∨ (w.cache i).ethertype = ET_ARP
  unshared : ∀ p s, .freeBuf p s ∈ w.log → s = false
  once : ∀ p, sentSince p w.log ≤ 1
  unsent : ∀ i, (w.cache i).packet ≠ 0 → sentSince (w.cache i).packet w.log = 0

variable {frames : Nat → Nat} {keep : Bool} {w : NetWorld} {p : Nat} {i : Fin 16}

/-- A packet that is held has an address. -/
theorem ArpInv.held_ne_zero (hi : ArpInv frames keep w) (hp : p ∈ heldBy w.log) : p ≠ 0 :=
  hi.pool.ne_zero p (.inl hp)

/-- A buffer that is held is not referenced by the cache. -/
theorem ArpInv.packet_ne (hi : ArpInv frames keep w) (hp : p ∈ heldBy w.log) (i : Fin 16) :
    (w.cache i).packet ≠ p := by
  intro heq
  have h0 : (w.cache i).packet ≠ 0 := heq ▸ hi.held_ne_zero hp
  exact hi.apart i h0 (heq ▸ hp)

/-- Only the addresses, types and packets of entries with a packet matter. -/
theorem ArpInv.withCache (hi : ArpInv frames keep w) {c : ArpCache}
    (hto : ∀ i, (c i).packet ≠ 0 → ∃ j, (w.cache j).packet = (c i).packet ∧
      (w.cache j).pa = (c i).pa ∧ (w.cache j).ethertype = (c i).ethertype)
    (hfrom : keep = true → ∀ j, (w.cache j).packet ≠ 0 → ∃ i, (c i).packet = (w.cache j).packet ∧
      (c i).pa = (w.cache j).pa)
    (hinj : ∀ i j, (c i).packet ≠ 0 → (c i).packet = (c j).packet → i = j) :
    ArpInv frames keep { w with cache := c } := by
  -- a packet in use afterwards was one of an old entry
  have huse : NetWorld.inUse { w with cache := c } ⊆ w.inUse := by
    rintro q (hq | ⟨hq, i, rfl⟩)
    · exact .inl hq
    · obtain ⟨j, hj, -⟩ := hto i hq
      exact .inr ⟨hq, j, hj⟩
  constructor
  · exact hi.pool.anti huse
  · exact fun q hq => hi.refs q (huse hq)
  · exact hinj
  -- the fields in order; each is asked of the old entry with the same packet
  · intro i h0
    obtain ⟨j, hpk, hpa, -⟩ := hto i h0
    show ((c i).pa, (c i).packet) ∈ waiting w.log
    rw [← hpk, ← hpa]
    exact hi.waits j (hpk ▸ h0)
  · intro hkeep a q hq
    obtain ⟨hq0, j, rfl, rfl⟩ := hi.kept hkeep a q hq
    obtain ⟨i, hpk, hpa⟩ := hfrom hkeep j hq0
    exact ⟨hq0, i, hpa, hpk⟩
  · intro i h0
    obtain ⟨j, hj, -⟩ := hto i h0
    show (c i).packet ∉ heldBy w.log
    rw [← hj]
    exact hi.apart j (hj ▸ h0)
  · intro i h0
    obtain ⟨j, hj, -, ht⟩ := hto i h0
    show (c i).ethertype = ET_IPV4 ∨ (c i).ethertype = ET_ARP
    rw [← ht]
    exact hi.types j (hj ▸ h0)
  · exact hi.unshared
  · exact hi.once
  · intro i h0
    obtain ⟨j, hj, -⟩ := hto i h0
    show sentSince (c i).packet w.log = 0
    rw [← hj]
    exact hi.unsent j (hj ▸ h0)

/-- Writing an address touches no packet. -/
theorem packet_setAddr (c : ArpCache) (i j : Fin 16) (ha : EthAddr) (pa : Ipv4Addr) :
    (Function.update c i { c i with ha := ha, pa := pa } j).packet = (c j).packet := by
  rw [Function.update_apply]
  split
  · rename_i hj
    rw [hj]
  · rfl

/-- Writing the addresses of an entry that holds no packet, or only its `ha`. -/
theorem ArpInv.setAddr (hi : ArpInv frames keep w) (ha : EthAddr) (pa : Ipv4Addr)
    (hpa : (w.cache i).packet ≠ 0 → pa = (w.cache i).pa) :
    ArpInv frames keep (w.setEntry i { w.cache i with ha := ha, pa := pa }) := by
  have hpk := fun j => packet_setAddr w.cache i j ha pa
  -- an entry with a packet keeps its address
  have hsame : ∀ j, (w.cache j).packet ≠ 0 →
      (Function.update w.cache i { w.cache i with ha := ha, pa := pa } j).pa = (w.cache j).pa ∧
      (Function.update w.cache i { w.cache i with ha := ha, pa := pa } j).ethertype =
        (w.cache j).ethertype := by
    intro j hj
    rw [Function.update_apply]
    split
    · rename_i heq
      subst heq
      exact ⟨hpa hj, rfl⟩
    · exact ⟨rfl, rfl⟩
  apply hi.withCache
  · intro j hj
    rw [hpk] at hj ⊢
    exact ⟨j, rfl, (hsame j hj).1.symm, (hsame j hj).2.symm⟩
  · intro _ j hj
    exact ⟨j, hpk j, (hsame j hj).1⟩
  · intro j k hj hjk
    rw [hpk] at hj
    rw [hpk, hpk] at hjk
    exact hi.inj j k hj hjk

/-- Eviction from a full cache whose first and last entries hold no packet. -/
theorem ArpInv.evict (hi : ArpInv frames keep w) (h0 : keep = true → (w.cache 0).packet = 0)
    {x : ArpEntry} (hx : x.packet = 0) :
    ArpInv frames keep { w with cache := Function.update (arpShift w.cache) 15 x } := by
  -- slot `i` below 15 now shows what slot `i + 1` showed
  have hslot : ∀ i : Fin 16, ∀ h : i.val + 1 < 16,
      Function.update (arpShift w.cache) 15 x i = w.cache ⟨i.val + 1, h⟩ := by
    intro i h
    have hne : i ≠ 15 := by
      rintro rfl
      exact absurd h (by decide)
    rw [Function.update_of_ne hne, arpShift, dif_pos h]
  have hcase : ∀ i : Fin 16, (Function.update (arpShift w.cache) 15 x i).packet ≠ 0 →
      i.val + 1 < 16 := by
    intro i hne
    by_contra hge
    obtain rfl : i = 15 := by
      apply Fin.ext
      have := i.isLt
      show i.val = 15
      omega
    rw [Function.update_self] at hne
    exact hne hx
  apply hi.withCache
  · intro i hne
    refine ⟨⟨i.val + 1, hcase i hne⟩, ?_⟩
    rw [hslot i (hcase i hne)]
    exact ⟨rfl, rfl, rfl⟩
  · intro hkeep j hne
    have hj : j.val ≠ 0 := by
      intro hj
      obtain rfl : j = 0 := Fin.ext hj
      exact hne (h0 hkeep)
    have hlt := j.isLt
    refine ⟨⟨j.val - 1, by omega⟩, ?_⟩
    have hback : (⟨j.val - 1 + 1, by omega⟩ : Fin 16) = j :=
      Fin.ext (by show j.val - 1 + 1 = j.val; omega)
    rw [hslot _ (by show j.val - 1 + 1 < 16; omega), hback]
    exact ⟨rfl, rfl⟩
  · intro i j hne heq
    have hii := hcase i hne
    have hij := hcase j (heq ▸ hne)
    rw [hslot i hii] at hne heq
    rw [hslot j hij] at heq
    have := congrArg Fin.val (hi.inj _ _ hne heq)
    apply Fin.ext
    simpa using this

/-! ## The primitive steps -/

/-- A packet given away starts with no transmission. -/
theorem ArpInv.handIn (hi : ArpInv frames keep w) (hp : p ∈ heldBy w.log) (a : Ipv4Addr) :
    ArpInv frames keep (w.emit (.handIn p a)) := by
  have hsent : ∀ q ≠ p, sentSince q (.handIn p a :: w.log) = sentSince q w.log := by
    intro q hq
    simp [sentSince, hq.symm]
  refine ⟨hi.pool, hi.refs, hi.inj, hi.waits, hi.kept, hi.apart, hi.types, ?_, ?_, ?_⟩
  · intro q s hq
    exact hi.unshared q s (by simpa [NetWorld.emit] using hq)
  · intro q
    show sentSince q (.handIn p a :: w.log) ≤ 1
    by_cases hq : q = p
    · simp [sentSince, hq]
    · rw [hsent q hq]
      exact hi.once q
  · intro i h0
    exact (hsent _ (hi.packet_ne hp i)).trans (hi.unsent i h0)

/-- A buffer just allocated is held and has not been transmitted. -/
theorem ArpInv.alloc (hf : FramesOk frames) (hi : ArpInv frames keep w) (f : NetBuf → List Byte) :
    ArpInv frames keep ({ w with
      bufs := (netAllocBuf frames w.bufs).2.setBuf (netAllocBuf frames w.bufs).1
        { (netAllocBuf frames w.bufs).2.buf (netAllocBuf frames w.bufs).1 with
          data := f ((netAllocBuf frames w.bufs).2.buf (netAllocBuf frames w.bufs).1) } }.emit
        (.alloc (netAllocBuf frames w.bufs).1)) := by
  -- `netAllocBuf_spec`: the buffer is new, the pool holds it, the other buffers are as they were
  obtain ⟨hnew, hpool, hsame, -, -, -, hone⟩ := netAllocBuf_spec hf hi.pool
  generalize netAllocBuf frames w.bufs = r at *
  obtain ⟨p, b⟩ := r
  simp only at hnew hpool hsame hone ⊢
  have hne : ∀ i, (w.cache i).packet ≠ 0 → (w.cache i).packet ≠ p :=
    fun i h0 heq => hnew (heq ▸ .inr ⟨h0, i, rfl⟩)
  have hsent : ∀ q ≠ p, sentSince q (.alloc p :: w.log) = sentSince q w.log := by
    intro q hq
    simp [sentSince, hq.symm]
  -- only `p` comes into use
  have huse : ∀ q, q ∈ NetWorld.inUse ({ w with bufs := b }.emit (.alloc p)) ↔
      q ∈ insert p w.inUse := by
    intro q
    simp only [NetWorld.inUse, NetWorld.emit, heldBy, Set.mem_ofPred_eq, Set.mem_insert_iff,
      List.mem_cons]
    tauto
  constructor
  · exact (hpool.setBuf (Set.mem_insert _ _) _).anti fun q hq => (huse q).mp hq
  · intro q hq
    show ((b.setBuf p _).buf q).refCount = 1
    rw [BufPool.setBuf_buf]
    split
    · exact hone
    · rename_i hqp
      rw [hsame q hqp]
      exact hi.refs q (((huse q).mp hq).resolve_left hqp)
  · exact hi.inj
  · exact hi.waits
  · exact hi.kept
  -- no entry holds the buffer that was just allocated
  · intro i h0 hmem
    rcases List.mem_cons.mp hmem with heq | hmem
    · exact hne i h0 heq
    · exact hi.apart i h0 hmem
  · exact hi.types
  · intro q s hq
    exact hi.unshared q s (by simpa [NetWorld.emit] using hq)
  · intro q
    show sentSince q (.alloc p :: w.log) ≤ 1
    by_cases hq : q = p
    · simp [sentSince, hq]
    · rw [hsent q hq]
      exact hi.once q
  · intro i h0
    exact (hsent _ (hne i h0)).trans (hi.unsent i h0)

/-- Transmission of a packet its holder has not transmitted yet. -/
theorem ArpInv.transmit (hi : ArpInv frames keep w) (hp : p ∈ heldBy w.log)
    (hsent : sentSince p w.log = 0)
    (intf : Nat) (dst : EthAddr) (ethertype : BitVec 16) :
    ArpInv frames keep (ethTransmit w intf dst ethertype p) := by
  unfold ethTransmit
  extract_lets header data
  have huse : NetWorld.inUse
    ({ w with bufs := w.bufs.setBuf p { w.bufs.buf p with data := data } }.emit
      (.devSend (w.intf intf) header p)) = w.inUse := by
    ext q
    simp only [NetWorld.inUse, NetWorld.emit, heldBy, Set.mem_ofPred_eq, List.mem_cons]
    constructor
    · rintro ((rfl | h) | h)
      · exact .inl hp
      · exact .inl h
      · exact .inr h
    · rintro (h | h)
      · exact .inl (.inr h)
      · exact .inr h
  constructor
  · rw [huse]
    exact hi.pool.setBuf (.inl hp) _
  · intro q hq
    rw [huse] at hq
    show ((w.bufs.setBuf p _).buf q).refCount = 1
    rw [BufPool.setBuf_buf]
    split
    · exact hi.refs p (.inl hp)
    · exact hi.refs q hq
  · exact hi.inj
  · intro i h0
    -- a packet in the cache is not held
    have hne : (w.cache i).packet ≠ p := hi.packet_ne hp i
    exact List.mem_filter.mpr ⟨hi.waits i h0, decide_eq_true hne⟩
  · exact fun hkeep a q hq => hi.kept hkeep a q (List.mem_filter.mp hq).1
  · intro i h0 hmem
    rcases List.mem_cons.mp hmem with heq | hmem
    · exact hi.packet_ne hp i heq
    · exact hi.apart i h0 hmem
  · exact hi.types
  · intro q s hq
    exact hi.unshared q s (by simpa [NetWorld.emit] using hq)
  · intro q
    show sentSince q (.devSend (w.intf intf) header p :: w.log) ≤ 1
    by_cases hq : p = q
    · subst hq
      simp [sentSince, hsent]
    · simpa [sentSince, hq] using hi.once q
  · intro i h0
    show sentSince (w.cache i).packet (.devSend (w.intf intf) header p :: w.log) = 0
    simpa [sentSince, (hi.packet_ne hp i).symm] using hi.unsent i h0

/-- `arp_send` transmits a buffer of its own. -/
theorem ArpInv.arpSend (hf : FramesOk frames) (hi : ArpInv frames keep w) (intf : Nat)
    (op : BitVec 16)
    (tha : EthAddr) (tpa : Ipv4Addr) : ArpInv frames keep (arpSend frames w intf op tha tpa) := by
  unfold MishaOS.arpSend
  apply ArpInv.transmit
  · exact hi.alloc hf fun x => x.data ++ arpPacket op (w.intf intf).ethAddr (w.intf intf).ipAddr
      (if op = ARP_OP_REQUEST then ethNullAddr else tha) tpa
  · exact List.mem_cons_self
  · simp [NetWorld.emit, sentSince]

/-- What an update with a packet-free entry leaves of the references. -/
private theorem packet_update_zero {c : ArpCache} {x : ArpEntry} (hx : x.packet = 0) {j : Fin 16}
    (h0 : (Function.update c i x j).packet ≠ 0) :
    j ≠ i ∧ Function.update c i x j = c j := by
  have hj : j ≠ i := by
    rintro rfl
    rw [Function.update_self] at h0
    exact h0 hx
  exact ⟨hj, Function.update_of_ne hj _ _⟩

/-- The packet of entry `i` leaves the cache for good: it is released or
    transmitted, and the entry is cleared. -/
theorem ArpInv.leave (hi : ArpInv frames keep w) {x : ArpEntry} (hx : x.packet = 0)
    (h0 : (w.cache i).packet ≠ 0) {b : BufPool} {e : NetEvent} {l : List Nat}
    (hheld : ∀ q, q ∈ heldBy (e :: w.log) ↔ q ∈ l ∨ (q ∈ heldBy w.log ∧ q ≠ (w.cache i).packet))
    (hheld' : ∀ q ∈ l, q = (w.cache i).packet)
    (hwait : waiting (e :: w.log) = (waiting w.log).filter (·.2 ≠ (w.cache i).packet))
    (hsent : ∀ q ≠ (w.cache i).packet, sentSince q (e :: w.log) = sentSince q w.log)
    (honce : sentSince (w.cache i).packet (e :: w.log) ≤ 1)
    (hshared : ∀ q s, e = .freeBuf q s → s = false)
    (hpool : PoolInv frames b (w.inUse \ { q | q = (w.cache i).packet ∧ q ∉ l }))
    (hrefs : ∀ q ∈ w.inUse, q = (w.cache i).packet → q ∈ l → (b.buf q).refCount = 1)
    (hbuf : ∀ q ≠ (w.cache i).packet, b.buf q = w.bufs.buf q) :
    ArpInv frames keep (({ w with bufs := b }.setEntry i x).emit e) := by
  have hother : ∀ j ≠ i, (w.cache j).packet ≠ (w.cache i).packet :=
    fun j hj heq => hj (hi.inj i j h0 heq.symm).symm
  -- in use afterwards: what is held now, and the packets of the other entries
  have huse : ∀ q ∈ NetWorld.inUse (({ w with bufs := b }.setEntry i x).emit e),
      q ∈ w.inUse ∧ (q = (w.cache i).packet → q ∈ l) := by
    rintro q (hq | ⟨hq0, j, hj⟩)
    · rcases (hheld q).mp hq with hq | hq
      · exact ⟨.inr ⟨hheld' q hq ▸ h0, i, (hheld' q hq).symm⟩, fun _ => hq⟩
      · exact ⟨.inl hq.1, fun h => absurd h hq.2⟩
    · have hj' : (Function.update w.cache i x j).packet = q := hj
      obtain ⟨hji, heq⟩ := packet_update_zero hx (hj' ▸ hq0)
      rw [heq] at hj'
      exact ⟨.inr ⟨hq0, j, hj'⟩, fun h => absurd (hj'.trans h) (hother j hji)⟩
  constructor
  · apply hpool.anti
    intro q hq
    exact ⟨(huse q hq).1, fun h => h.2 ((huse q hq).2 h.1)⟩
  · intro q hq
    -- the packet that leaves may keep its buffer, the others are not touched
    obtain ⟨hq, hqi⟩ := huse q hq
    show (b.buf q).refCount = 1
    by_cases hqp : q = (w.cache i).packet
    · exact hrefs q hq hqp (hqi hqp)
    · rw [hbuf q hqp]
      exact hi.refs q hq
  -- the cleared entry has no packet, so two entries of one packet are old ones
  · intro j k hj hjk
    have hj' : (Function.update w.cache i x j).packet ≠ 0 := hj
    have hk' : (Function.update w.cache i x j).packet = (Function.update w.cache i x k).packet :=
      hjk
    have hk0 := hk' ▸ hj'
    have hjc := (packet_update_zero hx hj').2
    rw [hjc] at hj' hk'
    rw [(packet_update_zero hx hk0).2] at hk'
    exact hi.inj j k hj' hk'
  · intro j hj
    have hj' : (Function.update w.cache i x j).packet ≠ 0 := hj
    obtain ⟨hji, heq⟩ := packet_update_zero hx hj'
    show ((Function.update w.cache i x j).pa, (Function.update w.cache i x j).packet) ∈
      waiting (e :: w.log)
    rw [heq] at hj' ⊢
    rw [hwait]
    exact List.mem_filter.mpr ⟨hi.waits j hj', by simpa using hother j hji⟩
  -- what still waits belongs to another entry
  · intro hkeep a q hq
    have hq' : (a, q) ∈ waiting (e :: w.log) := hq
    rw [hwait, List.mem_filter] at hq'
    obtain ⟨hmem, hne⟩ := hq'
    obtain ⟨hq0, j, hpa, hpk⟩ := hi.kept hkeep a q hmem
    have hji : j ≠ i := by
      rintro rfl
      simp [hpk] at hne
    refine ⟨hq0, j, ?_⟩
    show (Function.update w.cache i x j).pa = a ∧ (Function.update w.cache i x j).packet = q
    rw [Function.update_of_ne hji]
    exact ⟨hpa, hpk⟩
  · intro j hj
    have hj' : (Function.update w.cache i x j).packet ≠ 0 := hj
    obtain ⟨hji, heq⟩ := packet_update_zero hx hj'
    show (Function.update w.cache i x j).packet ∉ heldBy (e :: w.log)
    rw [heq] at hj' ⊢
    intro hmem
    rcases (hheld _).mp hmem with hmem | hmem
    · exact hother j hji (hheld' _ hmem)
    · exact hi.apart j hj' hmem.1
  · intro j hj
    have hj' : (Function.update w.cache i x j).packet ≠ 0 := hj
    show (Function.update w.cache i x j).ethertype = ET_IPV4 ∨
      (Function.update w.cache i x j).ethertype = ET_ARP
    have hjc := (packet_update_zero hx hj').2
    rw [hjc] at hj' ⊢
    exact hi.types j hj'
  · intro q s hq
    rcases List.mem_cons.mp hq with heq | hq
    · exact hshared q s heq.symm
    · exact hi.unshared q s hq
  -- the packet that leaves is transmitted once at most
  · intro q
    by_cases hq : q = (w.cache i).packet
    · exact hq ▸ honce
    · exact (hsent q hq).trans_le (hi.once q)
  · intro j hj
    have hj' : (Function.update w.cache i x j).packet ≠ 0 := hj
    obtain ⟨hji, heq⟩ := packet_update_zero hx hj'
    show sentSince (Function.update w.cache i x j).packet (e :: w.log) = 0
    rw [heq] at hj' ⊢
    exact (hsent _ (hother j hji)).trans (hi.unsent j hj')

/-- A waiting packet is released. -/
theorem ArpInv.free (hi : ArpInv frames keep w) {x : ArpEntry} (hx : x.packet = 0)
    (h0 : (w.cache i).packet ≠ 0) : ArpInv frames keep ((arpFreePacket w i).setEntry i x) := by
  have hin : (w.cache i).packet ∈ w.inUse := .inr ⟨h0, i, rfl⟩
  obtain ⟨hpool, hbuf⟩ := netFreeBuf_spec hi.pool hin (hi.refs _ hin)
  -- no other entry holds the packet, so the release is logged as not shared
  have hnone : ((List.finRange 16).any fun j => j ≠ i ∧ (w.cache j).packet = (w.cache i).packet) =
      false := by
    rw [List.any_eq_false]
    intro j _
    have := hi.inj i j h0
    simp only [decide_eq_true_eq, not_and]
    exact fun hji heq => hji (this heq.symm).symm
  show ArpInv frames keep
    (({ w with bufs := netFreeBuf w.bufs (w.cache i).packet }.setEntry i x).emit
    (.freeBuf (w.cache i).packet _))
  refine hi.leave (l := []) hx h0 ?_ ?_ rfl ?_ ?_ ?_ ?_ ?_ hbuf
  · intro q
    simp [heldBy]
  · simp
  · exact fun q _ => rfl
  · exact hi.once _
  · intro q s heq
    rw [hnone] at heq
    cases heq
    rfl
  · apply hpool.anti
    exact fun q hq => ⟨hq.1, fun h => hq.2 ⟨h, by simp⟩⟩
  · simp

/-- A waiting packet is transmitted. -/
theorem ArpInv.resend (hi : ArpInv frames keep w) {x : ArpEntry} (hx : x.packet = 0)
    (h0 : (w.cache i).packet ≠ 0) (intf : Nat) (dst : EthAddr) (ethertype : BitVec 16) :
    ArpInv frames keep ((ethTransmit w intf dst ethertype (w.cache i).packet).setEntry i x) := by
  have hin : (w.cache i).packet ∈ w.inUse := .inr ⟨h0, i, rfl⟩
  unfold ethTransmit
  extract_lets header data
  show ArpInv frames keep
    (({ w with bufs := w.bufs.setBuf (w.cache i).packet _ }.setEntry i x).emit _)
  -- the log has one transmission more, and the packet is held from now on
  refine hi.leave (l := [(w.cache i).packet]) hx h0 ?_ ?_ rfl ?_ ?_ ?_ ?_ ?_ ?_
  · intro q
    simp only [heldBy, List.mem_cons, List.not_mem_nil, or_false]
    by_cases hq : q = (w.cache i).packet <;> simp [hq]
  · simp
  · intro q hq
    simp [sentSince, hq.symm]
  · simp [sentSince, hi.unsent i h0]
  · exact fun q s h => nomatch h
  · apply (hi.pool.setBuf hin _).anti
    exact fun q hq => hq.1
  · intro q hq heq _
    subst heq
    simpa using hi.refs _ hin
  · intro q hq
    simp [hq]

/-- A held packet is put into an entry without one. -/
theorem ArpInv.enqueue (hi : ArpInv frames keep w) (hp : p ∈ heldBy w.log)
    (hsent : sentSince p w.log = 0)
    (h0 : (w.cache i).packet = 0) {x : ArpEntry} (hx : x.packet = p)
    (htype : x.ethertype = ET_IPV4 ∨ x.ethertype = ET_ARP) :
    ArpInv frames keep ((w.setEntry i x).emit (.queue x.pa p)) := by
  have hp0 := hi.held_ne_zero hp
  -- every reference but the new one was there before
  have hold : ∀ j ≠ i, Function.update w.cache i x j = w.cache j :=
    fun j hj => Function.update_of_ne hj _ _
  have hnew : Function.update w.cache i x i = x := Function.update_self _ _ _
  have hcase : ∀ j, (Function.update w.cache i x j).packet = p → j = i := by
    intro j hj
    by_contra hji
    rw [hold j hji] at hj
    exact hi.packet_ne hp j hj
  have huse : ∀ q ∈ NetWorld.inUse ((w.setEntry i x).emit (.queue x.pa p)), q ∈ w.inUse := by
    rintro q (hq | ⟨hq0, j, hj⟩)
    · exact .inl (List.mem_filter.mp hq).1
    · have hj' : (Function.update w.cache i x j).packet = q := hj
      by_cases hji : j = i
      · subst hji
        rw [hnew, hx] at hj'
        exact .inl (hj' ▸ hp)
      · rw [hold j hji] at hj'
        exact .inr ⟨hq0, j, hj'⟩
  constructor
  · exact hi.pool.anti huse
  · exact fun q hq => hi.refs q (huse q hq)
  · intro j k hj hjk
    have hj' : (Function.update w.cache i x j).packet ≠ 0 := hj
    have hjk' : (Function.update w.cache i x j).packet = (Function.update w.cache i x k).packet :=
      hjk
    by_cases hji : j = i
    · subst hji
      rw [hnew, hx] at hjk'
      exact (hcase k hjk'.symm).symm
    · by_cases hki : k = i
      · subst hki
        rw [hnew, hx] at hjk'
        exact hcase j hjk'
      · rw [hold j hji] at hj' hjk'
        rw [hold k hki] at hjk'
        exact hi.inj j k hj' hjk'
  · intro j hj
    have hj' : (Function.update w.cache i x j).packet ≠ 0 := hj
    show ((Function.update w.cache i x j).pa, (Function.update w.cache i x j).packet) ∈
      (x.pa, p) :: waiting w.log
    by_cases hji : j = i
    · rw [hji, hnew, hx]
      exact List.mem_cons_self
    · rw [hold j hji] at hj' ⊢
      exact List.mem_cons_of_mem _ (hi.waits j hj')
  · intro hkeep a q hq
    rcases List.mem_cons.mp hq with heq | hq
    · cases heq
      exact ⟨hp0, i, by simp [NetWorld.emit, NetWorld.setEntry, hx]⟩
    · obtain ⟨hq0, j, hpa, hpk⟩ := hi.kept hkeep a q hq
      have hji : j ≠ i := by
        rintro rfl
        exact hq0 (hpk.symm.trans h0)
      refine ⟨hq0, j, ?_⟩
      show (Function.update w.cache i x j).pa = a ∧ (Function.update w.cache i x j).packet = q
      rw [hold j hji]
      exact ⟨hpa, hpk⟩
  · intro j hj hmem
    have hj' : (Function.update w.cache i x j).packet ≠ 0 := hj
    have hmem' : (Function.update w.cache i x j).packet ∈ (heldBy w.log).filter (· ≠ p) := hmem
    obtain ⟨hheld, hne⟩ := List.mem_filter.mp hmem'
    by_cases hji : j = i
    · subst hji
      simp [hx] at hne
    · rw [hold j hji] at hj' hheld
      exact hi.apart j hj' hheld
  · intro j hj
    have hj' : (Function.update w.cache i x j).packet ≠ 0 := hj
    show (Function.update w.cache i x j).ethertype = ET_IPV4 ∨
      (Function.update w.cache i x j).ethertype = ET_ARP
    by_cases hji : j = i
    · rw [hji, hnew]
      exact htype
    · rw [hold j hji] at hj' ⊢
      exact hi.types j hj'
  · intro q s hq
    exact hi.unshared q s (by simpa [NetWorld.emit, NetWorld.setEntry] using hq)
  · exact hi.once
  · intro j hj
    have hj' : (Function.update w.cache i x j).packet ≠ 0 := hj
    show sentSince (Function.update w.cache i x j).packet w.log = 0
    by_cases hji : j = i
    · rw [hji, hnew, hx]
      exact hsent
    · rw [hold j hji] at hj' ⊢
      exact hi.unsent j hj'

/-! ## The calls -/

/-- The entry that is found has the address. -/
theorem arpLookup_eq_some {c : ArpCache} {a : Ipv4Addr} (h : arpLookup c a = some i) :
    (c i).pa = a := by
  have := List.find?_some h
  simp only [decide_eq_true_eq] at this
  exact congrArg Ipv4Addr.mk this

/-- What `arp_add` does to an unused slot and to a full cache. -/
theorem arpAdd_eq (c : ArpCache) (ha : EthAddr) (pa : Ipv4Addr) :
    (∃ i, firstEmpty c = some i ∧
      arpAdd c ha pa = (i, Function.update c i { c i with ha := ha, pa := pa })) ∨
    (firstEmpty c = none ∧ arpAdd c ha pa =
      (15, Function.update (arpShift c) 15 { c 15 with ha := ha, pa := pa })) := by
  unfold arpAdd firstEmpty
  cases (List.finRange 16).find? fun i => decide ((c i).pa.bits = 0) with
  | some i => exact .inl ⟨i, rfl, rfl⟩
  | none => exact .inr ⟨rfl, rfl⟩

/-- The body of `arp_request` for the entry `i`. -/
theorem ArpInv.requestAt (hf : FramesOk frames) (hi : ArpInv frames keep w) (hp : p ∈ heldBy w.log)
    (hsent : sentSince p w.log = 0) {x : ArpEntry} (hx : x.packet = p)
    (htype : x.ethertype = ET_IPV4 ∨ x.ethertype = ET_ARP) (intf : Nat) :
    ArpInv frames keep (MishaOS.arpSend frames
      (((if (w.cache i).packet ≠ 0 then arpFreePacket w i else w).setEntry i x).emit
        (.queue x.pa p)) intf ARP_OP_REQUEST ethBroadcastAddr x.pa) := by
  apply ArpInv.arpSend hf
  by_cases h0 : (w.cache i).packet = 0
  · simp only [h0, ne_eq, not_true_eq_false, if_false]
    exact hi.enqueue hp hsent h0 hx htype
  · simp only [ne_eq, h0, not_false_eq_true, if_true]
    -- the entry is cleared in between, which the new entry overwrites
    have hfree := hi.free (x := { x with packet := 0 }) rfl h0
    have hheld : p ∈ heldBy (arpFreePacket w i).log := by
      show p ∈ (heldBy w.log).filter (· ≠ (w.cache i).packet)
      exact List.mem_filter.mpr ⟨hp, by simpa using (hi.packet_ne hp i).symm⟩
    have hqueue := ArpInv.enqueue (i := i) hfree hheld hsent (by simp [NetWorld.setEntry]) hx htype
    simpa [NetWorld.setEntry] using hqueue

/-- The packet waits for the answer. -/
theorem ArpInv.arpRequest (hf : FramesOk frames) (hi : ArpInv frames keep w) (hp : p ∈ heldBy w.log)
    (hsent : sentSince p w.log = 0) {ethertype : BitVec 16}
    (htype : ethertype = ET_IPV4 ∨ ethertype = ET_ARP) (intf : Nat) {tpa : Ipv4Addr}
    (hevict : arpLookup w.cache tpa = none → EvictOk keep w.cache) :
    ArpInv frames keep (arpRequest frames w intf tpa ethertype p) := by
  unfold MishaOS.arpRequest arpRequestEntry
  cases hl : arpLookup w.cache tpa with
  -- a known address: its entry is used again
  | some i =>
    simp only
    obtain rfl := arpLookup_eq_some hl
    have hreq := hi.requestAt (i := i) hf hp hsent
      (x := { w.cache i with intf := intf, ethertype := ethertype, packet := p }) rfl htype intf
    have hkeep : (if (w.cache i).packet ≠ 0 then arpFreePacket w i else w).cache = w.cache := by
      split <;> rfl
    rw [hkeep]
    exact hreq
  | none =>
    simp only
    -- a new address: a free entry, or the last one of a full cache
    rcases arpAdd_eq w.cache ethNullAddr tpa with ⟨i, -, hadd⟩ | ⟨hfull, hadd⟩
    · rw [hadd]
      have hreq := hi.requestAt (i := i) hf hp hsent
        (x := ⟨ethNullAddr, tpa, intf, ethertype, p⟩) rfl htype intf
      simp only [NetWorld.setEntry] at hreq ⊢
      by_cases h0 : (w.cache i).packet = 0
      · simpa [h0] using hreq
      · simp only [ne_eq, h0, not_false_eq_true, if_true] at hreq
        simpa [h0, packet_setAddr, arpFreePacket, NetWorld.emit] using hreq
    · rw [hadd]
      obtain ⟨h0, h15⟩ := hevict hl hfull
      have hev := hi.evict h0 (x := { w.cache 15 with ha := ethNullAddr, pa := tpa }) h15
      have hreq := hev.requestAt (i := 15) hf hp hsent
        (x := ⟨ethNullAddr, tpa, intf, ethertype, p⟩) rfl htype intf
      simpa [NetWorld.setEntry, h15] using hreq

/-- `eth_intf_send` of a packet that was just given away. -/
theorem ArpInv.ethIntfSend (hf : FramesOk frames) (hi : ArpInv frames keep w)
    (hp : p ∈ heldBy w.log)
    (hsent : sentSince p w.log = 0) {intf : Nat} {dst : List Byte} {ethertype : BitVec 16}
    (hevict : SendAdds w intf dst ethertype → EvictOk keep w.cache) :
    ArpInv frames keep (ethIntfSend frames w intf dst ethertype p) := by
  unfold MishaOS.ethIntfSend
  split
  · exact hi.transmit hp hsent _ _ _
  -- ARP frames are sent at once, IPv4 ones look for the address first
  split
  · rename_i htype
    simp only
    split
    · exact hi.transmit hp hsent _ _ _
    · rename_i hbcast
      rw [not_or] at hbcast
      unfold arpLookupEthAddr
      cases hl : arpLookup w.cache (Ipv4Addr.read dst) with
      | some i => exact hi.transmit hp hsent _ _ _
      | none =>
        apply hi.arpRequest hf hp hsent (.inl htype)
        exact fun _ => hevict ⟨htype, hbcast.1, hbcast.2, hl⟩
  · exact hi

/-- What `eth_intf_send` does with the packet of an entry whose address it is
    given: the entry is found, so the frame goes out. -/
theorem ethIntfSend_of_entry (frames : Nat → Nat) (intf p : Nat) {dst : List Byte}
    {ethertype : BitVec 16}
    (hl : arpLookup w.cache (Ipv4Addr.read dst) = some i)
    (htype : ethertype = ET_IPV4 ∨ ethertype = ET_ARP) :
    ∃ mac, ethIntfSend frames w intf dst ethertype p = ethTransmit w intf mac ethertype p ∧
      (ethertype = ET_IPV4 → mac = (w.cache i).ha ∨ (mac = ethBroadcastAddr ∧
        (Ipv4Addr.read dst = ipv4BroadcastAddr ∨
          Ipv4Addr.read dst = (w.intf intf).broadcastAddr))) := by
  unfold MishaOS.ethIntfSend
  -- an ARP frame carries its address with it
  by_cases harp : ethertype = ET_ARP
  · refine ⟨EthAddr.read dst, if_pos harp, ?_⟩
    intro h4
    rw [harp] at h4
    exact absurd h4 (by decide)
  · have h4 := htype.resolve_right harp
    rw [if_neg harp, if_pos h4]
    simp only
    split
    · rename_i hb
      refine ⟨ethBroadcastAddr, rfl, fun _ => .inr ⟨rfl, ?_⟩⟩
      exact hb.imp (congrArg Ipv4Addr.mk) (congrArg Ipv4Addr.mk)
    · rw [arpLookupEthAddr, hl]
      exact ⟨(w.cache i).ha, rfl, fun _ => .inl rfl⟩

/-- The hardware address does not matter for the search. -/
theorem arpLookup_setHa {c : ArpCache} {a : Ipv4Addr} (ha : EthAddr) :
    arpLookup (Function.update c i { c i with ha := ha }) a = arpLookup c a := by
  have hpa : ∀ j, (Function.update c i { c i with ha := ha } j).pa = (c j).pa := by
    intro j
    rw [Function.update_apply]
    split
    · rename_i hj
      rw [hj]
    · rfl
  simp [arpLookup, hpa]

/-- `arp_recv` from a sender with an entry. -/
theorem ArpInv.arpRecvMerge (hi : ArpInv frames keep w) (sha : EthAddr) {spa : List Byte}
    (hl : arpLookup w.cache (Ipv4Addr.read spa) = some i) :
    ArpInv frames keep (arpRecvMerge frames w sha spa i) := by
  unfold MishaOS.arpRecvMerge
  have hset := hi.setAddr (i := i) sha (w.cache i).pa fun _ => rfl
  generalize hw' : w.setEntry i { w.cache i with ha := sha } = w' at *
  have hl' : arpLookup w'.cache (Ipv4Addr.read spa) = some i := by
    rw [← hl, ← hw']
    exact arpLookup_setHa sha
  simp only
  split
  · rename_i h0
    obtain ⟨mac, hsend, -⟩ := ethIntfSend_of_entry frames (w'.cache i).intf (w'.cache i).packet
      hl' (hset.types i h0)
    rw [hsend]
    exact hset.resend rfl h0 _ _ _
  · exact hset

/-- The end of `arp_recv`. -/
theorem ArpInv.arpRecvTarget (hf : FramesOk frames) (hi : ArpInv frames keep w)
    (intf : Nat) (merge : Bool)
    (op : BitVec 16) (sha : EthAddr) (spa : Ipv4Addr)
    (hadd : merge = false → EvictOk keep w.cache ∧ ReuseOk w.cache) :
    ArpInv frames keep (arpRecvTarget frames w intf merge op sha spa) := by
  have hcache : ArpInv frames keep (if merge then w
      else { w with cache := (arpAdd w.cache sha spa).2 }) := by
    cases merge with
    | true => exact hi
    | false =>
      obtain ⟨hevict, hreuse⟩ := hadd rfl
      -- a free entry, or the last one, which `EvictOk` lets go
      rcases arpAdd_eq w.cache sha spa with ⟨i, hfirst, heq⟩ | ⟨hfull, heq⟩
      · simp only [heq]
        exact hi.setAddr sha spa fun h0 => absurd (hreuse i hfirst) h0
      · simp only [heq]
        exact hi.evict (hevict hfull).1 (hevict hfull).2
  unfold MishaOS.arpRecvTarget
  simp only
  split
  · exact hcache.arpSend hf _ _ _ _
  · exact hcache

/-- The log entry of an arriving packet changes nothing the invariant looks at. -/
theorem ArpInv.emitRecv (hi : ArpInv frames keep w) (spa : Ipv4Addr) (sha : EthAddr) :
    ArpInv frames keep (w.emit (.arpRecv spa sha)) :=
  ⟨hi.pool, hi.refs, hi.inj, hi.waits, hi.kept, hi.apart, hi.types,
    fun q s hq => hi.unshared q s (by simpa [NetWorld.emit] using hq), hi.once, hi.unsent⟩

/-- A packet that has waited is sent. -/
theorem ArpInv.arpRecv (hf : FramesOk frames) (hi : ArpInv frames keep w) {intf : Nat}
    {data : List Byte}
    (hadd : RecvAdds w intf data → EvictOk keep w.cache ∧ ReuseOk w.cache) :
    ArpInv frames keep (arpRecv frames w intf data) := by
  unfold MishaOS.arpRecv
  -- packets that are refused change nothing
  split
  · exact hi
  split
  · exact hi
  rename_i hlen hok
  rw [not_or, not_or, not_not, not_not] at hok
  simp only
  have hlog := hi.emitRecv (Ipv4Addr.read (data.drop 14)) (EthAddr.read (data.drop 8))
  -- the sender is known, or it is added when the packet asks for us
  cases hl : arpLookup (w.emit (.arpRecv (Ipv4Addr.read (data.drop 14))
      (EthAddr.read (data.drop 8)))).cache (Ipv4Addr.read (data.drop 14)) with
  | some i =>
    simp only
    split
    · exact (hlog.arpRecvMerge _ hl).arpRecvTarget hf _ _ _ _ _ (fun h => nomatch h)
    · exact hlog.arpRecvMerge _ hl
  | none =>
    simp only
    split
    · rename_i htpa
      apply hlog.arpRecvTarget hf
      exact fun _ => hadd ⟨by omega, hok.1, hok.2.1, hl, htpa⟩
    · exact hlog

/-! ## Runs -/

/-- After boot no packet waits. -/
theorem NetInit.inv (h : NetInit w) : ArpInv frames keep w := by
  -- the cache is empty and the log too, so nothing is in use
  have hpk : ∀ i, (w.cache i).packet = 0 := fun i => by rw [h.cache]
  have huse : w.inUse = ∅ := by
    ext q
    simp only [NetWorld.inUse, h.log, heldBy, hpk, Set.mem_ofPred_eq, Set.mem_empty_iff_false]
    simp only [List.not_mem_nil, false_or, iff_false, not_and, not_exists]
    exact fun hq _ heq => hq heq.symm
  constructor
  · rw [huse]
    exact ⟨⟨[], h.list, by simp, by simp⟩, by simp, by simp⟩
  · simp [huse]
  · exact fun i j h0 => absurd (hpk i) h0
  · exact fun i h0 => absurd (hpk i) h0
  · simp [h.log, waiting]
  · exact fun i h0 => absurd (hpk i) h0
  · exact fun i h0 => absurd (hpk i) h0
  · simp [h.log]
  · simp [h.log, sentSince]
  · exact fun i h0 => absurd (hpk i) h0

/-- The holder of a buffer releases it. -/
theorem ArpInv.release (hi : ArpInv frames keep w) (hp : p ∈ heldBy w.log) :
    ArpInv frames keep (netStep frames w (.release p)) := by
  have hnone : ((List.finRange 16).any fun j => (w.cache j).packet = p) = false := by
    rw [List.any_eq_false]
    exact fun j _ => by simpa using hi.packet_ne hp j
  obtain ⟨hpool, hbuf⟩ := netFreeBuf_spec hi.pool (.inl hp) (hi.refs p (.inl hp))
  have huse : ∀ q ∈ NetWorld.inUse (netStep frames w (.release p)), q ∈ w.inUse \ {p} := by
    rintro q (hq | ⟨hq0, j, hj⟩)
    · have hq' : q ∈ (heldBy w.log).filter (· ≠ p) := hq
      obtain ⟨hmem, hne⟩ := List.mem_filter.mp hq'
      exact ⟨.inl hmem, by simpa using hne⟩
    · have hj' : (w.cache j).packet = q := hj
      exact ⟨.inr ⟨hq0, j, hj'⟩, hj' ▸ hi.packet_ne hp j⟩
  constructor
  · exact hpool.anti huse
  · intro q hq
    show ((netFreeBuf w.bufs p).buf q).refCount = 1
    rw [hbuf q (huse q hq).2]
    exact hi.refs q (huse q hq).1
  · exact hi.inj
  · intro i h0
    -- a packet in the cache is not held
    have hne : (w.cache i).packet ≠ p := hi.packet_ne hp i
    exact List.mem_filter.mpr ⟨hi.waits i h0, decide_eq_true hne⟩
  · exact fun hkeep a q hq => hi.kept hkeep a q (List.mem_filter.mp hq).1
  · intro i h0 hmem
    exact hi.apart i h0 (List.mem_filter.mp hmem).1
  · exact hi.types
  · intro q s hq
    rcases List.mem_cons.mp hq with heq | hq
    · rw [hnone] at heq
      cases heq
      rfl
    · exact hi.unshared q s hq
  · exact hi.once
  · exact hi.unsent

/-- One step of a run. -/
theorem netStep_inv (hf : FramesOk frames) {op : NetOp} (hi : ArpInv frames keep w)
    (hcaller : CallerOk w op)
    (hcache : CacheOk keep w op) : ArpInv frames keep (netStep frames w op) := by
  cases op with
  | alloc data => exact hi.alloc hf fun _ => data
  | release p => exact hi.release hcaller
  | send intf dst ethertype p =>
    exact (hi.handIn hcaller _).ethIntfSend hf hcaller (by simp [NetWorld.emit, sentSince]) hcache
  | request intf tpa ethertype p =>
    exact (hi.handIn hcaller.1 _).arpRequest hf hcaller.1 (by simp [NetWorld.emit, sentSince])
      hcaller.2 _ hcache
  | recv intf data => exact hi.arpRecv hf hcache
  | config intf x =>
    exact ⟨hi.pool, hi.refs, hi.inj, hi.waits, hi.kept, hi.apart, hi.types, hi.unshared,
      hi.once, hi.unsent⟩

/-- Waiting packets and the entries that reference them. -/
structure PacketsOk (w : NetWorld) : Prop where
  /-- A waiting packet is referenced by the entry of its address and by no other. -/
  entry : ∀ a p, (a, p) ∈ waiting w.log → ∃ i, (w.cache i).pa = a ∧ (w.cache i).packet = p ∧
    ∀ j, (w.cache j).packet = p → j = i
  /-- An entry references waiting packets only. -/
  waits : ∀ i, (w.cache i).packet ≠ 0 → ((w.cache i).pa, (w.cache i).packet) ∈ waiting w.log
  /-- No packet is released while another entry references it. -/
  unshared : ∀ p s, .freeBuf p s ∈ w.log → s = false
  /-- A packet given away is transmitted at most once. -/
  once : ∀ p, sentSince p w.log ≤ 1

/-- The packets are where they should be. -/
theorem ArpInv.packetsOk (hi : ArpInv frames true w) : PacketsOk w := by
  refine ⟨fun a p hmem => ?_, hi.waits, hi.unshared, hi.once⟩
  obtain ⟨h0, i, hpa, hpk⟩ := hi.kept rfl a p hmem
  exact ⟨i, hpa, hpk, fun j hj => (hi.inj i j (hpk ▸ h0) (hpk.trans hj.symm)).symm⟩

/-- Every run keeps the invariant. -/
theorem arpInv_of_run (hf : FramesOk frames) {w₀ : NetWorld} {ops : List NetOp} (h₀ : NetInit w₀)
    (hrun : Run (fun w op => some (netStep frames w op)) (fun w op => CallerOk w op ∧
      CacheOk keep w op)
      w₀ ops w) : ArpInv frames keep w := by
  apply hrun.invariant (ArpInv frames keep) _ h₀.inv
  intro u op v hi hok hstep
  obtain rfl := Option.some.inj hstep
  exact netStep_inv hf hi hok.1 hok.2

/-- Every run that overwrites no entry with a packet keeps its waiting packets. -/
theorem arp_run_packets (frames : Nat → Nat) (hf : FramesOk frames) (w₀ w : NetWorld)
    (ops : List NetOp) (h₀ : NetInit w₀)
    (hrun : Run (fun w op => some (netStep frames w op)) (fun w op => CallerOk w op ∧
      CacheOk true w op)
      w₀ ops w) : PacketsOk w :=
  (arpInv_of_run hf h₀ hrun).packetsOk

/-- A machine right after boot, with one interface `10.0.2.15`. -/
def NetWorld.boot : NetWorld where
  cache := fun _ => ⟨ethNullAddr, ipv4NullAddr, 0, 0, 0⟩
  intf := fun _ => ⟨⟨2, 0, 0, 0, 0, 1⟩, .ofBytes 10 0 2 15, .ofBytes 10 0 2 255⟩
  bufs := ⟨0, 0, fun _ => ⟨0, [], 0, 0, 0, 0⟩, 0⟩
  log := []

/-- The page allocator of a machine with all frames free. -/
def nextFrame (k : Nat) : Nat := (k + 1) * 0x1000

/-- The frames of the test runs are different. -/
theorem nextFrame_framesOk : FramesOk nextFrame := by
  refine ⟨fun a b h => ?_, fun k => ?_⟩
  · simp only [nextFrame] at h
    omega
  · simp only [nextFrame]
    omega

/-- A reply from `10.0.2.2`, for `10.0.2.15`. -/
def gatewayReply : List Byte :=
  arpPacket ARP_OP_REPLY ⟨2, 0, 0, 0, 0, 2⟩ (.ofBytes 10 0 2 2)
    ⟨2, 0, 0, 0, 0, 1⟩ (.ofBytes 10 0 2 15)

/-- A packet is replaced by another one, which is sent. -/
theorem arp_run_packets_replaced_and_resent :
    ∃ w, Run (fun w op => some (netStep nextFrame w op)) (fun w op => CallerOk w op ∧
      CacheOk true w op)
        NetWorld.boot [.alloc [1], .request 1 (.ofBytes 10 0 2 2) ET_IPV4 0x1000, .alloc [2],
          .request 1 (.ofBytes 10 0 2 2) ET_IPV4 0x3000, .recv 1 gatewayReply] w ∧
      waiting w.log = [] ∧ PacketsOk w := by
  have hexec : ((Run.exec (fun w op => some (netStep nextFrame w op))
      (fun w op => CallerOk w op ∧ CacheOk true w op) NetWorld.boot
      [.alloc [1], .request 1 (.ofBytes 10 0 2 2) ET_IPV4 0x1000, .alloc [2],
        .request 1 (.ofBytes 10 0 2 2) ET_IPV4 0x3000, .recv 1 gatewayReply]).map
      fun w => waiting w.log) = some [] := by decide +kernel
  obtain ⟨w, hw, hwait⟩ := Option.map_eq_some_iff.mp hexec
  have hrun := Run.of_exec hw
  exact ⟨w, hrun, hwait, arp_run_packets _ nextFrame_framesOk _ w _ ⟨rfl, rfl, rfl⟩ hrun⟩

/-- Packets for `n` unresolved neighbours. -/
def sendToNeighbours (n : Nat) : List NetOp :=
  (List.range n).flatMap fun k =>
    [.alloc [], .send 1 (Ipv4Addr.ofBytes 10 0 2 (BitVec.ofNat 8 (100 + k))).toBytes ET_IPV4
      ((2 * k + 1) * 0x1000)]

/-- The seventeenth unresolved neighbour: the packet of the sixteenth is
    released while the entry that was moved down still references it. -/
theorem arp_run_releases_referenced_packet :
    ¬ ∀ (frames : Nat → Nat) (w₀ w : NetWorld) (ops : List NetOp), FramesOk frames → NetInit w₀ →
      Run (fun w op => some (netStep frames w op)) CallerOk w₀ ops w → PacketsOk w := by
  intro hall
  have hexec : ((Run.exec (fun w op => some (netStep nextFrame w op)) CallerOk NetWorld.boot
      (sendToNeighbours 17)).map fun w => decide (.freeBuf 0x1F000 true ∈ w.log)) = some true := by
    decide +kernel
  obtain ⟨w, hw, hfreed⟩ := Option.map_eq_some_iff.mp hexec
  have hok := hall _ _ w _ nextFrame_framesOk ⟨rfl, rfl, rfl⟩ (Run.of_exec hw)
  exact nomatch hok.unshared _ _ (of_decide_eq_true hfreed)

end MishaOS
