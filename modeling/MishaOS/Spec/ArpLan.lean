import MishaOS.Spec.ArpCache
import MishaOS.Spec.ArpResolve
import MishaOS.Spec.ByteOrder

/-!
# Hosts on one wire

Any number of hosts that run `arp.c` and `eth.c` share a wire.  Every frame a
host hands to its driver stays on the wire: it may be received by anybody, late,
several times or never, and in any order.  Between two receptions the protocols
of a host may do what they like, and its interfaces may get new addresses as
long as nobody else has them.

An ARP packet says where its sender is, and the code writes nothing else into it
than the addresses of the interface.  So a host never learns a hardware address
that is not that of the interface with this protocol address.

## Key results

- `lan_bindings`: what the caches say in every run.
- `lan_frames`: where IPv4 frames go.
-/

namespace MishaOS

/-! ## The wire -/

/-- A frame: the header, and what is behind it. -/
structure LanFrame where
  header : EthHeader
  payload : List Byte
deriving DecidableEq

/-- The frame of an event; `bufs` holds its bytes. -/
def NetEvent.frame (bufs : BufPool) : NetEvent → Option LanFrame
  | .devSend _ header packet => some ⟨header, (bufs.buf packet).data.drop 14⟩
  | _ => none

/-- The frames that have been handed to drivers between `w` and `w'`. -/
def framesSent (w w' : NetWorld) : List LanFrame :=
  (w'.log.take (w'.log.length - w.log.length)).filterMap (NetEvent.frame w'.bufs)

/-- The hosts, and every frame that has been sent. -/
structure Lan (ι : Type) where
  host : ι → NetWorld
  wire : List LanFrame

inductive LanOp (ι : Type)
  /-- A protocol or a driver of the host calls `eth.c` or `arp.c`. -/
  | call (host : ι) (op : NetOp)
  /-- The host receives the frame on an interface. -/
  | receive (host : ι) (intf : Nat) (f : LanFrame)

section Step

variable {ι : Type} [DecidableEq ι]

-- `frames h k` is what the `k`-th call of `pfa_request_page` of the host `h` returns.
variable (frames : ι → Nat → Nat)

/-- The host makes the call. -/
def Lan.act (l : Lan ι) (h : ι) (op : NetOp) : Lan ι :=
  let w := netStep (frames h) (l.host h) op
  ⟨Function.update l.host h w, framesSent (l.host h) w ++ l.wire⟩

/-- `eth_recv` hands ARP packets to `arp_recv`.  What the other protocols do with a frame are calls.
    -/
def lanStep (l : Lan ι) : LanOp ι → Option (Lan ι)
  | .call h op => some (l.act frames h op)
  | .receive h intf f =>
    if f.header.ethertype = ET_ARP then some (l.act frames h (.recv intf f.payload)) else some l

end Step

/-! ## The addresses -/

variable {plan : Ipv4Addr → EthAddr} {w w' : NetWorld} {x : ArpEntry} {c : ArpCache} {i : Fin 16}
  {a pa : Ipv4Addr} {ha : EthAddr} {data : List Byte} {p : Nat} {frames : Nat → Nat}

/-- The interface that has this protocol address, if it has any. -/
def NetIntf.Follows (plan : Ipv4Addr → EthAddr) (x : NetIntf) : Prop :=
  x.ipAddr ≠ ipv4NullAddr → x.ethAddr = plan x.ipAddr

/-- The sender of the packet is where it says. -/
def Truthful (plan : Ipv4Addr → EthAddr) (data : List Byte) : Prop :=
  ∀ s, arpSender data = some s → s.1 ≠ ipv4NullAddr → s.2 = plan s.1

/-- The address has not been heard, or is right. -/
def BindingOk (plan : Ipv4Addr → EthAddr) (pa : Ipv4Addr) (ha : EthAddr) : Prop :=
  pa ≠ ipv4NullAddr → ha = ethNullAddr ∨ ha = plan pa

/-- The entry is right, and no ARP packet waits in it. -/
structure EntryOk (plan : Ipv4Addr → EthAddr) (x : ArpEntry) : Prop where
  binding : BindingOk plan x.pa x.ha
  ethertype : x.ethertype ≠ ET_ARP

/-- What a host knows is right. -/
structure Honest (plan : Ipv4Addr → EthAddr) (w : NetWorld) : Prop where
  intf : ∀ k, (w.intf k).Follows plan
  entry : ∀ i, EntryOk plan (w.cache i)
  heard : ∀ a ha, .arpRecv a ha ∈ w.log → a ≠ ipv4NullAddr → ha = plan a

/-- The call comes from outside `arp.c`, and gives an interface no address of another one. -/
def UpperOk (plan : Ipv4Addr → EthAddr) : NetOp → Prop
  | .send _ _ ethertype _ => ethertype ≠ ET_ARP
  | .request _ _ ethertype _ => ethertype ≠ ET_ARP
  | .recv _ _ => False
  | .config _ x => x.Follows plan
  | _ => True

/-- Only frames on the wire are received. -/
def LanOk {ι : Type} (plan : Ipv4Addr → EthAddr) (l : Lan ι) : LanOp ι → Prop
  | .call _ op => UpperOk plan op
  | .receive _ _ f => f ∈ l.wire

instance (plan : Ipv4Addr → EthAddr) (op : NetOp) : Decidable (UpperOk plan op) :=
  match op with
  | .send _ _ ethertype _ => inferInstanceAs (Decidable (ethertype ≠ ET_ARP))
  | .request _ _ ethertype _ => inferInstanceAs (Decidable (ethertype ≠ ET_ARP))
  | .recv _ _ => .isFalse id
  | .config _ x => inferInstanceAs (Decidable (x.ipAddr ≠ ipv4NullAddr → x.ethAddr = plan x.ipAddr))
  | .alloc _ => .isTrue trivial
  | .release _ => .isTrue trivial

instance {ι : Type} (plan : Ipv4Addr → EthAddr) (l : Lan ι) (op : LanOp ι) :
    Decidable (LanOk plan l op) :=
  match op with
  | .call _ op => inferInstanceAs (Decidable (UpperOk plan op))
  | .receive _ _ f => inferInstanceAs (Decidable (f ∈ l.wire))

/-- The hosts have booted, and nothing has been sent. -/
structure LanInit {ι : Type} (plan : Ipv4Addr → EthAddr) (l : Lan ι) : Prop where
  host : ∀ h, NetInit (l.host h)
  intf : ∀ h k, ((l.host h).intf k).Follows plan
  wire : l.wire = []

/-! ## Packets of `arp_send` -/

/-- The sender of a packet of `arp_send`. -/
theorem arpSender_arpPacket (op : BitVec 16) (sha : EthAddr) (spa : Ipv4Addr) (tha : EthAddr)
    (tpa : Ipv4Addr) :
    arpSender (arpPacket op sha spa tha tpa) = some (spa, sha) := by
  have hlen : (arpPacket op sha spa tha tpa).length = 28 := rfl
  have hhtype : readBe16 (arpPacket op sha spa tha tpa) = ARP_HTYPE_ETH := by
    show readBe16 (be16 ARP_HTYPE_ETH ++ _) = _
    exact readBe16_be16 _ _
  have hptype : readBe16 ((arpPacket op sha spa tha tpa).drop 2) = ET_IPV4 := by
    show readBe16 (be16 ET_IPV4 ++ _) = _
    exact readBe16_be16 _ _
  have hpa : Ipv4Addr.read ((arpPacket op sha spa tha tpa).drop 14) = spa := by
    show Ipv4Addr.read (spa.toBytes ++ (tha.toBytes ++ tpa.toBytes)) = spa
    exact Ipv4Addr.read_toBytes _ _
  rw [arpSender, if_neg (by rw [hlen, hhtype, hptype]; simp), hpa]
  rfl

/-- What `arp_send` writes says where the interface is. -/
theorem truthful_arpPacket {n : NetIntf} (h : n.Follows plan) (op : BitVec 16) (tha : EthAddr)
    (tpa : Ipv4Addr) :
    Truthful plan (arpPacket op n.ethAddr n.ipAddr tha tpa) := by
  intro s hs hnull
  rw [arpSender_arpPacket] at hs
  obtain rfl := Option.some.inj hs
  exact h hnull

/-- The frame of `arp_send` is complete when the call returns. -/
theorem arpSend_payload (frames : Nat → Nat) (w : NetWorld) (intf : Nat) (op : BitVec 16)
    (tha : EthAddr) (tpa : Ipv4Addr) :
    (((arpSend frames w intf op tha tpa).bufs.buf (netAllocBuf frames w.bufs).1).data).drop 14 =
      arpPacket op (w.intf intf).ethAddr (w.intf intf).ipAddr
        (if op = ARP_OP_REQUEST then ethNullAddr else tha) tpa := by
  have hdata : ((netAllocBuf frames w.bufs).2.buf (netAllocBuf frames w.bufs).1).data = [] := by
    unfold netAllocBuf
    dsimp only
    simp
  unfold arpSend ethTransmit
  simp only [NetWorld.emit, BufPool.setBuf_buf, if_true, hdata, List.nil_append]
  exact List.drop_left' rfl

/-! ## Events of a call -/

/-- The event is no ARP frame, and what is heard is right. -/
def NetEvent.Quiet (plan : Ipv4Addr → EthAddr) : NetEvent → Prop
  | .arpRecv a ha => a ≠ ipv4NullAddr → ha = plan a
  | .devSend _ header _ => header.ethertype ≠ ET_ARP
  | _ => True

/-- From `w` to `w'` no ARP frame has been sent. -/
structure Silent (plan : Ipv4Addr → EthAddr) (w w' : NetWorld) : Prop where
  intf : w'.intf = w.intf
  log : ∃ new, w'.log = new ++ w.log ∧ ∀ e ∈ new, e.Quiet plan

/-- From `w` to `w'` the ARP frames that have been sent are truthful. -/
structure Speaks (plan : Ipv4Addr → EthAddr) (w w' : NetWorld) : Prop where
  intf : w'.intf = w.intf
  log : ∃ new, w'.log = new ++ w.log ∧
    (∀ a ha, .arpRecv a ha ∈ new → a ≠ ipv4NullAddr → ha = plan a) ∧
    ∀ k header q, .devSend k header q ∈ new → header.ethertype = ET_ARP →
      Truthful plan ((w'.bufs.buf q).data.drop 14)

/-- Nothing has happened. -/
theorem Silent.refl (plan : Ipv4Addr → EthAddr) (w : NetWorld) : Silent plan w w where
  intf := rfl
  log := ⟨[], rfl, fun _ he => absurd he List.not_mem_nil⟩

/-- The cache and the buffers do not matter. -/
theorem Silent.congr {v : NetWorld} (h : Silent plan w w') (hintf : v.intf = w'.intf)
    (hlog : v.log = w'.log) :
    Silent plan w v where
  intf := hintf.trans h.intf
  log := by
    rw [hlog]
    exact h.log

/-- An event that says nothing is recorded. -/
theorem Silent.event (h : Silent plan w w') {v : NetWorld} {e : NetEvent} (hintf : v.intf = w'.intf)
    (hlog : v.log = e :: w'.log) (he : e.Quiet plan) : Silent plan w v where
  intf := hintf.trans h.intf
  log := by
    obtain ⟨new, hnew, hquiet⟩ := h.log
    refine ⟨e :: new, hlog.trans (congrArg (e :: ·) hnew), fun e' he' => ?_⟩
    rcases List.mem_cons.mp he' with rfl | he'
    · exact he
    · exact hquiet e' he'

/-- Events before the ones of a call. -/
theorem Silent.then {v : NetWorld} (h : Silent plan w w') (h' : Speaks plan w' v) :
    Speaks plan w v where
  intf := h'.intf.trans h.intf
  log := by
    obtain ⟨new, hlog, hnew⟩ := h.log
    obtain ⟨new', hlog', hheard, hsent⟩ := h'.log
    refine ⟨new' ++ new,
      by rw [hlog', hlog, List.append_assoc], fun a ha he => ?_, fun k header q he harp => ?_⟩
    · rcases List.mem_append.mp he with he | he
      · exact hheard a ha he
      · exact hnew _ he
    · rcases List.mem_append.mp he with he | he
      · exact hsent k header q he harp
      · exact absurd harp (hnew _ he)

/-- Who says nothing says nothing wrong. -/
theorem Silent.speaks (h : Silent plan w w') : Speaks plan w w' where
  intf := h.intf
  log := by
    obtain ⟨new, hlog, hnew⟩ := h.log
    exact ⟨new, hlog, fun a ha he => hnew _ he, fun k header q he harp => absurd harp (hnew _ he)⟩

/-- A frame that is not of ARP says nothing. -/
theorem Silent.ethTransmit (h : Silent plan w w') {ethertype : BitVec 16}
    (htype : ethertype ≠ ET_ARP) (intf : Nat)
    (dst : EthAddr) : Silent plan w (ethTransmit w' intf dst ethertype p) := by
  exact h.event rfl rfl htype

/-- Nor does dropping a packet. -/
theorem Silent.arpFreePacket (h : Silent plan w w') : Silent plan w (arpFreePacket w' i) := by
  exact h.event rfl rfl trivial

/-- `arp_send` sends the one ARP frame of a call, and sends it last. -/
theorem Silent.arpSend (h : Silent plan w w') {intf : Nat} (hintf : (w.intf intf).Follows plan)
    (op : BitVec 16)
    (tha : EthAddr) (tpa : Ipv4Addr) : Speaks plan w (arpSend frames w' intf op tha tpa) where
  intf := h.intf
  log := by
    -- what came before in the call sent no ARP frame
    obtain ⟨new, hlog, hnew⟩ := h.log
    have hpayload := arpSend_payload frames w' intf op tha tpa
    generalize hv : MishaOS.arpSend frames w' intf op tha tpa = v at hpayload
    have hvlog : v.log = .devSend (w'.intf intf)
      ⟨tha, (w'.intf intf).ethAddr, ET_ARP⟩ (netAllocBuf frames w'.bufs).1 ::
        .alloc (netAllocBuf frames w'.bufs).1 :: w'.log := by
      rw [← hv]
      rfl
    refine ⟨.devSend (w'.intf intf) ⟨tha, (w'.intf intf).ethAddr, ET_ARP⟩
      (netAllocBuf frames w'.bufs).1 ::
      .alloc (netAllocBuf frames w'.bufs).1 :: new, ?_, fun a ha he => ?_,
      fun k header q he harp => ?_⟩
    · rw [hvlog, hlog]
      rfl
    · simp only [List.mem_cons, reduceCtorEq, false_or] at he
      exact hnew _ he
    · simp only [List.mem_cons, reduceCtorEq, false_or, NetEvent.devSend.injEq] at he
      -- the frame names the interface that sends it
      rcases he with ⟨-, -, rfl⟩ | he
      · rw [hpayload, h.intf]
        exact truthful_arpPacket hintf _ _ _
      · exact absurd harp (hnew _ he)

/-! ## What a call sends -/

variable {intf : Nat} {dst : List Byte} {ethertype : BitVec 16}

/-- A question carries the address of the interface. -/
theorem arpRequest_speaks (hintf : (w.intf intf).Follows plan) (pa : Ipv4Addr) :
    Speaks plan w (arpRequest frames w intf pa ethertype p) := by
  unfold arpRequest
  generalize arpRequestEntry w.cache pa = e
  dsimp only
  apply Silent.arpSend _ hintf
  have hcache : Silent plan w { w with cache := e.2 } := (Silent.refl plan w).congr rfl rfl
  split
  · exact (hcache.arpFreePacket (i := e.1)).event rfl rfl trivial
  · exact hcache.event rfl rfl trivial

/-- So does the question that `eth_intf_send` asks. -/
theorem ethIntfSend_speaks (hintf : (w.intf intf).Follows plan) (htype : ethertype ≠ ET_ARP) :
    Speaks plan w (ethIntfSend frames w intf dst ethertype p) := by
  unfold ethIntfSend
  rw [if_neg htype]
  have hsend (mac : EthAddr) : Speaks plan w (ethTransmit w intf mac ethertype p) :=
    ((Silent.refl plan w).ethTransmit htype intf mac).speaks
  split
  · dsimp only
    split
    · exact hsend _
    · cases arpLookupEthAddr w.cache (Ipv4Addr.read dst) with
      | none => exact arpRequest_speaks hintf _
      | some mac => exact hsend mac
  · exact (Silent.refl plan w).speaks

/-- No request is needed for an address with an entry. -/
theorem Silent.ethIntfSend (h : Silent plan w w')
    (hl : arpLookup w'.cache (Ipv4Addr.read dst) = some i)
    (htype : ethertype ≠ ET_ARP) : Silent plan w (ethIntfSend frames w' intf dst ethertype p) := by
  unfold MishaOS.ethIntfSend
  rw [if_neg htype]
  split
  · dsimp only
    split
    · exact h.ethTransmit htype intf _
    · rw [arpLookupEthAddr, hl]
      exact h.ethTransmit htype intf _
  · exact h

/-- A packet that has waited is sent. -/
theorem Silent.arpRecvMerge (h : Silent plan w w') {spa : List Byte} (sha : EthAddr)
    (hl : arpLookup w'.cache (Ipv4Addr.read spa) = some i)
    (htype : (w'.cache i).ethertype ≠ ET_ARP) :
    Silent plan w (arpRecvMerge frames w' sha spa i) := by
  unfold MishaOS.arpRecvMerge
  have hset : Silent plan w (w'.setEntry i { w'.cache i with ha := sha }) := h.congr rfl rfl
  have hl' : arpLookup (w'.setEntry i { w'.cache i with ha := sha }).cache (Ipv4Addr.read spa) =
      some i :=
    (arpLookup_setHa sha).trans hl
  have htype' : ((w'.setEntry i { w'.cache i with ha := sha }).cache i).ethertype ≠ ET_ARP := by
    simpa [NetWorld.setEntry] using htype
  generalize w'.setEntry i { w'.cache i with ha := sha } = v at hset hl' htype'
  dsimp only
  split
  · exact (hset.ethIntfSend hl' htype').congr rfl rfl
  · exact hset

/-- An answer carries the address of the interface. -/
theorem Silent.arpRecvTarget (h : Silent plan w w') (hintf : (w.intf intf).Follows plan)
    (merge : Bool) (op : BitVec 16)
    (sha : EthAddr) (spa : Ipv4Addr) :
    Speaks plan w (arpRecvTarget frames w' intf merge op sha spa) := by
  have hcache : Silent plan w (if merge then w'
      else { w' with cache := (arpAdd w'.cache sha spa).2 }) := by
    cases merge with
    | true => exact h
    | false => exact h.congr rfl rfl
  unfold MishaOS.arpRecvTarget
  dsimp only
  split
  · exact hcache.arpSend hintf _ _ _
  · exact hcache.speaks

/-- The parts of `arp_recv` for a packet of the right format. -/
theorem arpRecv_eq (frames : Nat → Nat) (w : NetWorld) (intf : Nat) {s : Ipv4Addr × EthAddr}
    (hs : arpSender data = some s) : ∃ merge v,
      ((arpLookup w.cache s.1 = none ∧ merge = false ∧ v = w.emit (.arpRecv s.1 s.2)) ∨
        ∃ i, arpLookup w.cache s.1 = some i ∧ merge = true ∧
          v = arpRecvMerge frames (w.emit (.arpRecv s.1 s.2)) s.2 (data.drop 14) i) ∧
      arpRecv frames w intf data =
        if (Ipv4Addr.read (data.drop 24)).bits = (v.intf intf).ipAddr.bits then
          arpRecvTarget frames v intf merge (readBe16 (data.drop 6)) s.2 s.1 else v := by
  obtain ⟨⟨hlen, hhtype, hptype⟩, hpa, hha⟩ := arpSender_eq_some hs
  rw [arpRecv, if_neg (by omega), if_neg (by simp [hhtype, hptype]; omega)]
  dsimp only
  rw [hpa, hha]
  have hcache : (w.emit (.arpRecv s.1 s.2)).cache = w.cache := rfl
  rw [hcache]
  cases hl : arpLookup w.cache s.1 with
  | none => exact ⟨false, _, .inl ⟨rfl, rfl, rfl⟩, rfl⟩
  | some i => exact ⟨true, _, .inr ⟨i, rfl, rfl, rfl⟩, rfl⟩

/-- So a host that hears the truth says the truth. -/
theorem arpRecv_speaks (hw : Honest plan w) (hdata : Truthful plan data) :
    Speaks plan w (arpRecv frames w intf data) := by
  cases hs : arpSender data with
  | none =>
    rw [arpRecv_no_sender hs]
    exact (Silent.refl plan w).speaks
  | some s =>
    have hheard : Silent plan w (w.emit (.arpRecv s.1 s.2)) :=
      (Silent.refl plan w).event rfl rfl (hdata s hs)
    obtain ⟨-, hpa, -⟩ := arpSender_eq_some hs
    obtain ⟨merge, v, hv, heq⟩ := arpRecv_eq frames w intf hs
    -- merging sends at most the packet that has waited, which is no ARP frame
    have hsilent : Silent plan w v := by
      rcases hv with ⟨-, -, rfl⟩ | ⟨i, hl, -, rfl⟩
      · exact hheard
      · exact hheard.arpRecvMerge s.2 (hpa.symm ▸ hl) (hw.entry i).ethertype
    rw [heq]
    split
    · exact hsilent.arpRecvTarget (hw.intf intf) _ _ _ _
    · exact hsilent.speaks

/-! ## What a call leaves in the cache -/

/-- One entry is written. -/
theorem entries_update (hc : ∀ j, EntryOk plan (c j)) (hx : EntryOk plan x) (i j : Fin 16) :
    EntryOk plan (Function.update c i x j) := by
  rw [Function.update_apply]
  split
  · exact hx
  · exact hc j

/-- A new entry is true when what it says is. -/
theorem entries_add (hc : ∀ j, EntryOk plan (c j)) (hb : BindingOk plan pa ha) (j : Fin 16) :
    EntryOk plan ((arpAdd c ha pa).2 j) := by
  rcases arpAdd_eq c ha pa with ⟨i, -, heq⟩ | ⟨-, heq⟩
  · rw [heq]
    have hnew : EntryOk plan { c i with ha := ha, pa := pa } := ⟨hb, (hc i).ethertype⟩
    exact entries_update hc hnew i j
  · rw [heq]
    have hshift (k : Fin 16) : EntryOk plan (arpShift c k) := by
      unfold arpShift
      split
      · exact hc _
      · exact hc k
    have hnew : EntryOk plan { c 15 with ha := ha, pa := pa } := ⟨hb, (hc 15).ethertype⟩
    exact entries_update hshift hnew 15 j

/-- An entry for a question says nothing yet. -/
theorem entries_requestEntry (hc : ∀ j, EntryOk plan (c j)) (pa : Ipv4Addr) (j : Fin 16) :
    EntryOk plan ((arpRequestEntry c pa).2 j) := by
  unfold arpRequestEntry
  cases arpLookup c pa with
  | some i => exact hc j
  | none => exact entries_add hc (fun _ => .inl rfl) j

/-- `arp_request` adds nothing wrong. -/
theorem arpRequest_entries (hc : ∀ j, EntryOk plan (w.cache j))
    (htype : ethertype ≠ ET_ARP) (j : Fin 16) :
    EntryOk plan ((arpRequest frames w intf pa ethertype p).cache j) := by
  have hentry := entries_requestEntry hc pa
  unfold arpRequest
  rw [arpSend_cache]
  generalize arpRequestEntry w.cache pa = e at hentry
  dsimp only
  -- the packet that waited in the slot is released first
  have hfree : (if (e.2 e.1).packet ≠ 0 then arpFreePacket { w with cache := e.2 } e.1
      else { w with cache := e.2 }).cache = e.2 := by
    split <;> rfl
  show EntryOk plan (Function.update (if (e.2 e.1).packet ≠ 0
    then arpFreePacket { w with cache := e.2 } e.1
      else { w with cache := e.2 }).cache e.1 _ j)
  rw [hfree]
  apply entries_update hentry
  exact ⟨(hentry e.1).binding, htype⟩

/-- Nor does `eth_intf_send`. -/
theorem ethIntfSend_entries (hc : ∀ j, EntryOk plan (w.cache j))
    (htype : ethertype ≠ ET_ARP) (j : Fin 16) :
    EntryOk plan ((ethIntfSend frames w intf dst ethertype p).cache j) := by
  unfold ethIntfSend
  rw [if_neg htype]
  split
  · dsimp only
    split
    · exact hc j
    · cases arpLookupEthAddr w.cache (Ipv4Addr.read dst) with
      | none => exact arpRequest_entries hc htype j
      | some mac => exact hc j
  · exact hc j

/-- An entry is overwritten with what has been heard. -/
theorem arpRecvMerge_entries (hc : ∀ j, EntryOk plan (w.cache j)) {spa : List Byte} {sha : EthAddr}
    (hl : arpLookup w.cache (Ipv4Addr.read spa) = some i)
    (hb : BindingOk plan (Ipv4Addr.read spa) sha) (j : Fin 16) :
    EntryOk plan ((arpRecvMerge frames w sha spa i).cache j) := by
  have hset := entries_update (i := i) hc (x := { w.cache i with ha := sha })
    ⟨(arpLookup_eq_some hl).symm ▸ hb, (hc i).ethertype⟩
  have hl' : arpLookup (w.setEntry i { w.cache i with ha := sha }).cache (Ipv4Addr.read spa) =
      some i :=
    (arpLookup_setHa sha).trans hl
  unfold arpRecvMerge
  change ∀ j, EntryOk plan ((w.setEntry i { w.cache i with ha := sha }).cache j) at hset
  generalize w.setEntry i { w.cache i with ha := sha } = v at hset hl'
  dsimp only
  -- a packet that waits is sent, and its entry cleared
  split
  · have hsend := ethIntfSend_cache frames (v.cache i).intf (v.cache i).packet
      (v.cache i).ethertype hl'
    generalize ethIntfSend frames v (v.cache i).intf spa (v.cache i).ethertype (v.cache i).packet =
      u at hsend
    rw [← hsend] at hset
    apply entries_update hset
    exact ⟨(hset i).binding, show (0 : BitVec 16) ≠ ET_ARP by decide⟩
  · exact hset j

/-- `arp_recv` adds nothing wrong when it hears the truth. -/
theorem arpRecv_entries (hw : Honest plan w) (hdata : Truthful plan data) (j : Fin 16) :
    EntryOk plan ((arpRecv frames w intf data).cache j) := by
  cases hs : arpSender data with
  | none =>
    rw [arpRecv_no_sender hs]
    exact hw.entry j
  | some s =>
    -- what is heard is true of the sender
    have hb : BindingOk plan s.1 s.2 := fun hnull => .inr (hdata s hs hnull)
    obtain ⟨-, hpa, -⟩ := arpSender_eq_some hs
    obtain ⟨merge, v, hv, heq⟩ := arpRecv_eq frames w intf hs
    have hentry : ∀ k, EntryOk plan (v.cache k) := by
      -- the entry was found and overwritten, or there was none
      rcases hv with ⟨-, -, rfl⟩ | ⟨i, hl, -, rfl⟩
      · exact hw.entry
      · have hl' : arpLookup (w.emit (.arpRecv s.1 s.2)).cache (Ipv4Addr.read (data.drop 14)) =
            some i := hpa.symm ▸ hl
        exact arpRecvMerge_entries (w := w.emit (.arpRecv s.1 s.2)) hw.entry hl' (hpa.symm ▸ hb)
    rw [heq]
    split
    · rw [arpRecvTarget_cache]
      -- a new sender is added
      split
      · exact hentry j
      · exact entries_add hentry hb j
    · exact hentry j

/-! ## Runs -/

/-- What has been heard is true. -/
theorem Speaks.heard (h : Speaks plan w w') (hw : Honest plan w) (he : .arpRecv a ha ∈ w'.log)
    (hnull : a ≠ ipv4NullAddr) : ha = plan a := by
  obtain ⟨new, hlog, hnew, -⟩ := h.log
  rw [hlog] at he
  rcases List.mem_append.mp he with he | he
  · exact hnew a ha he hnull
  · exact hw.heard a ha he hnull

/-- The ARP frames a call puts on the wire. -/
theorem Speaks.framesSent (h : Speaks plan w w') {f : LanFrame} (hf : f ∈ framesSent w w')
    (harp : f.header.ethertype = ET_ARP) : Truthful plan f.payload := by
  obtain ⟨new, hlog, -, hnew⟩ := h.log
  have htake : w'.log.take (w'.log.length - w.log.length) = new := by
    rw [hlog]
    exact List.take_left' (by simp)
  rw [MishaOS.framesSent, htake] at hf
  obtain ⟨e, he, hef⟩ := List.mem_filterMap.mp hf
  cases e with
  | devSend k header q =>
    obtain rfl := Option.some.inj hef
    exact hnew k header q he harp
  | _ => cases hef

/-- What one host does when its calls are in order and what it receives is true. -/
theorem netStep_honest (frames : Nat → Nat) (hw : Honest plan w) {op : NetOp}
    (hop : UpperOk plan op ∨ ∃ intf data, op = .recv intf data ∧ Truthful plan data) :
    Honest plan (netStep frames w op) ∧
      ∀ f ∈ framesSent w (netStep frames w op), f.header.ethertype = ET_ARP →
        Truthful plan f.payload := by
  have hdone {v : NetWorld} (h : Speaks plan w v) (hentry : ∀ j, EntryOk plan (v.cache j)) :
      Honest plan v ∧ ∀ f ∈ framesSent w v, f.header.ethertype = ET_ARP →
        Truthful plan f.payload := by
    refine ⟨⟨?_, hentry, fun a ha => h.heard hw⟩, fun f => h.framesSent⟩
    rw [h.intf]
    exact hw.intf
  have hquiet := Silent.refl plan w
  -- sending and receiving may write ARP frames, the other calls do not
  cases op with
  | alloc data =>
    have hlog : Silent plan w (netStep frames w (.alloc data)) :=
      hquiet.event (e := .alloc (netAllocBuf frames w.bufs).1) rfl rfl trivial
    exact hdone hlog.speaks hw.entry
  | release p =>
    have hlog : Silent plan w (netStep frames w (.release p)) := hquiet.event rfl rfl trivial
    exact hdone hlog.speaks hw.entry
  | send intf dst ethertype p =>
    have htype : ethertype ≠ ET_ARP := hop.resolve_right (by
      intro ⟨_, _, heq, _⟩
      cases heq)
    have hgiven : Silent plan w (w.emit (.handIn p (Ipv4Addr.read dst))) :=
      hquiet.event rfl rfl trivial
    exact hdone (hgiven.then (ethIntfSend_speaks (hw.intf intf) htype))
      (ethIntfSend_entries hw.entry htype)
  | request intf tpa ethertype p =>
    have htype : ethertype ≠ ET_ARP := hop.resolve_right (by
      intro ⟨_, _, heq, _⟩
      cases heq)
    have hgiven : Silent plan w (w.emit (.handIn p tpa)) := hquiet.event rfl rfl trivial
    exact hdone (hgiven.then (arpRequest_speaks (w := w.emit (.handIn p tpa)) (hw.intf intf) tpa))
      (arpRequest_entries hw.entry htype)
  | recv intf data =>
    obtain ⟨intf', data', heq, hdata⟩ := hop.resolve_left id
    cases heq
    exact hdone (arpRecv_speaks hw hdata) (arpRecv_entries hw hdata)
  | config k n =>
    have hn : n.Follows plan := hop.resolve_right (by
      intro ⟨_, _, heq, _⟩
      cases heq)
    -- a new configuration changes no entry and sends nothing
    refine ⟨⟨fun m => ?_, hw.entry, hw.heard⟩, fun f hf => ?_⟩
    · show (Function.update w.intf k n m).Follows plan
      rw [Function.update_apply]
      split
      · exact hn
      · exact hw.intf m
    · have hnone : framesSent w (netStep frames w (.config k n)) = [] := by
        show (w.log.take (w.log.length - w.log.length)).filterMap _ = []
        rw [Nat.sub_self, List.take_zero, List.filterMap_nil]
      rw [hnone] at hf
      cases hf

variable {ι : Type} {l : Lan ι}

/-- The hosts know nothing wrong, and nothing wrong is on the wire. -/
structure LanInv (plan : Ipv4Addr → EthAddr) (l : Lan ι) : Prop where
  honest : ∀ h, Honest plan (l.host h)
  wire : ∀ f ∈ l.wire, f.header.ethertype = ET_ARP → Truthful plan f.payload

/-- In the beginning nobody knows anything. -/
theorem LanInit.inv (h : LanInit plan l) : LanInv plan l where
  honest k := by
    have hinit := h.host k
    refine ⟨h.intf k, fun i => ?_, fun a ha he => ?_⟩
    · rw [hinit.cache]
      exact ⟨fun _ => .inl rfl, show (0 : BitVec 16) ≠ ET_ARP by decide⟩
    · rw [hinit.log] at he
      cases he
  wire f hf := by
    rw [h.wire] at hf
    cases hf

section Step

variable [DecidableEq ι] {frames : ι → Nat → Nat}

/-- A host acts, and what it sends is on the wire. -/
theorem LanInv.act (hl : LanInv plan l) {h : ι} {op : NetOp}
    (hop : UpperOk plan op ∨ ∃ intf data, op = .recv intf data ∧ Truthful plan data) :
    LanInv plan (l.act frames h op) := by
  obtain ⟨hhost, hsent⟩ := netStep_honest (frames h) (hl.honest h) hop
  refine ⟨fun k => ?_, fun f hf harp => ?_⟩
  · show Honest plan (Function.update l.host h _ k)
    obtain rfl | hne := eq_or_ne k h
    · rw [Function.update_self]
      exact hhost
    · rw [Function.update_of_ne hne]
      exact hl.honest k
  · rcases List.mem_append.mp hf with hf | hf
    · exact hsent f hf harp
    · exact hl.wire f hf harp

/-- Every step keeps the hosts honest. -/
theorem lanStep_inv (hl : LanInv plan l) {op : LanOp ι} (hok : LanOk plan l op) {l' : Lan ι}
    (hstep : lanStep frames l op = some l') : LanInv plan l' := by
  cases op with
  | call h op =>
    obtain rfl := Option.some.inj hstep
    exact hl.act (.inl hok)
  | receive h intf f =>
    rw [lanStep] at hstep
    split at hstep
    · rename_i harp
      obtain rfl := Option.some.inj hstep
      exact hl.act (.inr ⟨intf, f.payload, rfl, hl.wire f hok harp⟩)
    · obtain rfl := Option.some.inj hstep
      exact hl

/-- Whatever the hosts do, and whichever frames arrive, in any order, late, twice or never: a cache
    entry for an address says nothing, or what the interface with this address is called. -/
theorem lan_bindings (frames : ι → Nat → Nat) (plan : Ipv4Addr → EthAddr) (l₀ l : Lan ι)
    (ops : List (LanOp ι))
    (h₀ : LanInit plan l₀) (hrun : Run (lanStep frames) (LanOk plan) l₀ ops l) (h : ι) (i : Fin 16)
    (hpa : ((l.host h).cache i).pa ≠ ipv4NullAddr) :
    ((l.host h).cache i).ha = ethNullAddr ∨
      ((l.host h).cache i).ha = plan ((l.host h).cache i).pa := by
  have hinv : LanInv plan l :=
    hrun.invariant (LanInv plan) (fun _ _ _ hl hok hstep => lanStep_inv hl hok hstep) h₀.inv
  exact ((hinv.honest h).entry i).binding hpa

/-- `10.0.2.1` is `02:00:00:00:00:01`, and so on. -/
def numbered : Ipv4Addr → EthAddr := fun a => ⟨2, 0, 0, 0, 0, a.bits.extractLsb' 24 8⟩

def numberedIntf (n : Byte) : NetIntf :=
  ⟨⟨2, 0, 0, 0, 0, n⟩, .ofBytes 10 0 2 n, .ofBytes 10 0 2 255⟩

/-- The hosts `10.0.2.1` and `10.0.2.2`. -/
def twoHosts : Lan Bool where
  host b := { NetWorld.boot with intf := fun _ => numberedIntf (if b then 2 else 1) }
  wire := []

/-- The first host has a packet for the second one, which answers its question; the answer arrives
    twice. -/
def askAndAnswer : List (LanOp Bool) :=
  let ask : LanFrame := ⟨⟨ethBroadcastAddr, ⟨2, 0, 0, 0, 0, 1⟩, ET_ARP⟩,
    arpPacket ARP_OP_REQUEST ⟨2, 0, 0, 0, 0, 1⟩
    (.ofBytes 10 0 2 1) ethNullAddr (.ofBytes 10 0 2 2)⟩
  let answer : LanFrame := ⟨⟨⟨2, 0, 0, 0, 0, 1⟩, ⟨2, 0, 0, 0, 0, 2⟩, ET_ARP⟩,
    arpPacket ARP_OP_REPLY ⟨2, 0, 0, 0, 0, 2⟩
    (.ofBytes 10 0 2 2) ⟨2, 0, 0, 0, 0, 1⟩ (.ofBytes 10 0 2 1)⟩
  [.call false (.alloc [1]),
    .call false (.send 0 (Ipv4Addr.ofBytes 10 0 2 2).toBytes ET_IPV4 0x1000),
    .receive true 0 ask, .receive false 0 answer, .receive false 0 answer]

/-- Two hosts after boot. -/
theorem twoHosts_init : LanInit numbered twoHosts where
  host _ := ⟨rfl, rfl, rfl⟩
  intf b _ := by
    have hboth : ∀ b : Bool,
        (numberedIntf (if b then 2 else 1)).ethAddr =
          numbered (numberedIntf (if b then 2 else 1)).ipAddr := by decide
    exact fun _ => hboth b
  wire := rfl

/-- The first host learns the address of the second one. -/
theorem lan_bindings_learned :
    ∃ l, Run (lanStep fun _ => nextFrame) (LanOk numbered) twoHosts askAndAnswer l ∧
      ((l.host false).cache 0).pa = .ofBytes 10 0 2 2 ∧
      (((l.host false).cache 0).ha = ethNullAddr ∨
        ((l.host false).cache 0).ha = ⟨2, 0, 0, 0, 0, 2⟩) := by
  have hexec : ((Run.exec (lanStep fun _ => nextFrame) (LanOk numbered) twoHosts askAndAnswer).map
      fun l => ((l.host false).cache 0).pa) = some (.ofBytes 10 0 2 2) := by decide +kernel
  obtain ⟨l, hl, hpa⟩ := Option.map_eq_some_iff.mp hexec
  have hrun := Run.of_exec hl
  have hb := lan_bindings _ numbered _ l _ twoHosts_init hrun false 0 (by rw [hpa]; decide)
  rw [hpa] at hb
  exact ⟨l, hrun, hpa, hb⟩

/-! ## Frames -/

/-- Packets are passed on by who holds them, no entry that holds one is overwritten, and nothing is
    sent to an address that has been asked for and has not answered. -/
def HostCallOk (w : NetWorld) (op : NetOp) : Prop :=
  CallerOk w op ∧ CacheOk false w op ∧ AnsweredOk w op

/-- The calls an operation leads to are in order. -/
def LanCallOk (l : Lan ι) : LanOp ι → Prop
  | .call h op => HostCallOk (l.host h) op
  | .receive h intf f => f.header.ethertype = ET_ARP → HostCallOk (l.host h) (.recv intf f.payload)

instance (l : Lan ι) (op : LanOp ι) : Decidable (LanCallOk l op) :=
  match op with
  | .call h op =>
    inferInstanceAs (Decidable (CallerOk (l.host h) op ∧ CacheOk false (l.host h) op ∧
      AnsweredOk (l.host h) op))
  | .receive h intf f => inferInstanceAs (Decidable (f.header.ethertype = ET_ARP →
      CallerOk (l.host h) (.recv intf f.payload) ∧ CacheOk false (l.host h) (.recv intf f.payload) ∧
        AnsweredOk (l.host h) (.recv intf f.payload)))

/-- An IPv4 frame that is no broadcast goes to the interface that has the address of the next hop.
    Nothing is said of the next hop 0.0.0.0, which nobody has. -/
def FramesReach (plan : Ipv4Addr → EthAddr) (log : List NetEvent) : Prop :=
  ∀ l₁ intf header p l₂, log = l₁ ++ .devSend intf header p :: l₂ → header.ethertype = ET_IPV4 →
    ∃ dst, nextHop p l₂ = some dst ∧
      ((header.dst = ethBroadcastAddr ∧ (dst = ipv4BroadcastAddr ∨ dst = intf.broadcastAddr)) ∨
        (dst ≠ ipv4NullAddr → header.dst = plan dst))

/-- Frames for addresses that have been heard of reach them. -/
theorem Honest.framesReach (hw : Honest plan w) (hr : ResolveInv w) : FramesReach plan w.log := by
  intro l₁ intf header p l₂ hlog htype
  obtain ⟨dst, hhop, hdst⟩ := hr.resolved l₁ intf header p l₂ hlog htype
  refine ⟨dst, hhop, hdst.imp_right fun hheard => hw.heard dst header.dst ?_⟩
  rw [hlog]
  exact List.mem_append_right l₁ (List.mem_cons_of_mem _ hheard)

/-- The hosts know nothing wrong, and each has its packets in order. -/
structure LanFrameInv (frames : ι → Nat → Nat) (plan : Ipv4Addr → EthAddr) (l : Lan ι) : Prop where
  lan : LanInv plan l
  arp : ∀ h, ArpInv (frames h) false (l.host h)
  resolve : ∀ h, ResolveInv (l.host h)

/-- A host acts and keeps its packets in order. -/
theorem LanFrameInv.act (hi : LanFrameInv frames plan l) (hf : ∀ h, FramesOk (frames h))
    {h : ι} {op : NetOp}
    (hl : LanInv plan (l.act frames h op)) (hop : HostCallOk (l.host h) op) :
    LanFrameInv frames plan (l.act frames h op) := by
  obtain ⟨hcaller, hcache, hanswered⟩ := hop
  -- for the host that acts, and for the others
  refine ⟨hl, fun k => ?_, fun k => ?_⟩
  · show ArpInv (frames k) false (Function.update l.host h _ k)
    obtain rfl | hne := eq_or_ne k h
    · rw [Function.update_self]
      exact netStep_inv (hf k) (hi.arp k) hcaller hcache
    · rw [Function.update_of_ne hne]
      exact hi.arp k
  · show ResolveInv (Function.update l.host h _ k)
    obtain rfl | hne := eq_or_ne k h
    · rw [Function.update_self]
      exact netStep_resolve (hi.resolve k) (hi.arp k) hcaller hcache hanswered
    · rw [Function.update_of_ne hne]
      exact hi.resolve k

/-- In every such run whose calls are in order, an IPv4 frame is a broadcast or carries the hardware
    address of the interface its next hop names, if that is not 0.0.0.0. -/
theorem lan_frames (frames : ι → Nat → Nat) (hf : ∀ h, FramesOk (frames h))
    (plan : Ipv4Addr → EthAddr)
    (l₀ l : Lan ι) (ops : List (LanOp ι)) (h₀ : LanInit plan l₀)
    (hrun : Run (lanStep frames) (fun l op => LanOk plan l op ∧ LanCallOk l op) l₀ ops l) (h : ι) :
    FramesReach plan (l.host h).log := by
  have hinv : LanFrameInv frames plan l := by
    apply hrun.invariant (LanFrameInv frames plan)
    · intro l op l' hi hok hstep
      have hlan := lanStep_inv hi.lan hok.1 hstep
      -- a call of a host, or a frame that one receives
      cases op with
      | call h op =>
        obtain rfl := Option.some.inj hstep
        exact hi.act hf hlan hok.2
      | receive h intf f =>
        rw [lanStep] at hstep
        split at hstep
        · rename_i harp
          obtain rfl := Option.some.inj hstep
          exact hi.act hf hlan (hok.2 harp)
        · obtain rfl := Option.some.inj hstep
          exact hi
    · exact ⟨h₀.inv, fun k => (h₀.host k).inv, fun k => (h₀.host k).resolve⟩
  exact (hinv.lan.honest h).framesReach (hinv.resolve h)

/-- The packet that has waited is sent to the second host. -/
theorem lan_frames_answered :
    ∃ l, Run (lanStep fun _ => nextFrame) (fun l op => LanOk numbered l op ∧ LanCallOk l op)
      twoHosts askAndAnswer l ∧
      .devSend (numberedIntf 1) ⟨⟨2, 0, 0, 0, 0, 2⟩, ⟨2, 0, 0, 0, 0, 1⟩, ET_IPV4⟩ 0x1000 ∈
        (l.host false).log ∧
      FramesReach numbered (l.host false).log := by
  have hexec :
    ((Run.exec (lanStep fun _ => nextFrame) (fun l op => LanOk numbered l op ∧ LanCallOk l op)
    twoHosts
      askAndAnswer).map fun l =>
        decide (.devSend (numberedIntf 1) ⟨⟨2, 0, 0, 0, 0, 2⟩, ⟨2, 0, 0, 0, 0, 1⟩, ET_IPV4⟩ 0x1000 ∈
        (l.host false).log)) = some true := by decide +kernel
  obtain ⟨l, hl, hsent⟩ := Option.map_eq_some_iff.mp hexec
  have hrun := Run.of_exec hl
  exact ⟨l, hrun, of_decide_eq_true hsent,
    lan_frames _ (fun _ => nextFrame_framesOk) numbered _ l _ twoHosts_init hrun false⟩

end Step

end MishaOS
