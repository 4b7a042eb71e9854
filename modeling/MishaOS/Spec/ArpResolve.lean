import MishaOS.Spec.ArpOwnership

/-!
# Frames go to hardware addresses that were learned

The hardware address in an IPv4 frame has to come from an ARP packet of the
next hop.  The cache also has an entry for an address that was only asked
for, with the null hardware address in it, and `arp_lookup_eth_addr` does not
tell the two apart.

## Key results

- `arp_run_resolved`: frames carry learned addresses in every run that sends
  nothing to an address that has been asked for and has not answered.
-/

namespace MishaOS

/-! ## The property -/

/-- The next hop of a packet: what it was last given away for. -/
def nextHop (p : Nat) : List NetEvent → Option Ipv4Addr
  | [] => none
  | .handIn q a :: l => if q = p then some a else nextHop p l
  | _ :: l => nextHop p l

/-- A frame handed to the driver after the events `l`: it is a broadcast to a
    broadcast address, or its address came in an ARP packet from the next hop. -/
def FrameResolved (l : List NetEvent) (intf : NetIntf) (header : EthHeader) (p : Nat) : Prop :=
  ∃ dst, nextHop p l = some dst ∧
    ((header.dst = ethBroadcastAddr ∧ (dst = ipv4BroadcastAddr ∨ dst = intf.broadcastAddr)) ∨
      .arpRecv dst header.dst ∈ l)

/-- Every IPv4 frame of a log is resolved. -/
def FramesResolved (log : List NetEvent) : Prop :=
  ∀ l₁ intf header p l₂, log = l₁ ++ .devSend intf header p :: l₂ → header.ethertype = ET_IPV4 →
    FrameResolved l₂ intf header p

/-- A send to an address with an entry finds a hardware address in it, not
    the null address of a pending request. -/
def AnsweredOk (w : NetWorld) : NetOp → Prop
  | .send intf dst ethertype _ =>
    ethertype = ET_IPV4 → (Ipv4Addr.read dst).bits ≠ ipv4BroadcastAddr.bits →
      (Ipv4Addr.read dst).bits ≠ (w.intf intf).broadcastAddr.bits →
      ∀ i, arpLookup w.cache (Ipv4Addr.read dst) = some i →
        (w.cache i).ha ≠ ethNullAddr ∨ .arpRecv (Ipv4Addr.read dst) ethNullAddr ∈ w.log
  | _ => True

instance (w : NetWorld) (op : NetOp) : Decidable (AnsweredOk w op) :=
  match op with
  | .send _ _ _ _ => inferInstanceAs (Decidable (_ → _ → _ → ∀ _, _ → _))
  | .alloc _ => .isTrue trivial
  | .release _ => .isTrue trivial
  | .request _ _ _ _ => .isTrue trivial
  | .recv _ _ => .isTrue trivial
  | .config _ _ => .isTrue trivial

/-! ## The invariant -/

/-- An entry without the null address was answered, the packet of an entry
    was given away for its address, and the frames so far are resolved. -/
structure ResolveInv (w : NetWorld) : Prop where
  learned : ∀ i, (w.cache i).ha = ethNullAddr ∨ .arpRecv (w.cache i).pa (w.cache i).ha ∈ w.log
  hop : ∀ i, (w.cache i).packet ≠ 0 → nextHop (w.cache i).packet w.log = some (w.cache i).pa
  resolved : FramesResolved w.log

variable {frames : Nat → Nat} {keep : Bool} {w : NetWorld} {p : Nat} {i : Fin 16}

/-- An event that neither gives a packet away nor transmits one. -/
theorem ResolveInv.emit (hr : ResolveInv w) {e : NetEvent}
    (hhop : ∀ q, nextHop q (e :: w.log) = nextHop q w.log)
    (hsend : ∀ intf header q, e ≠ .devSend intf header q) : ResolveInv (w.emit e) := by
  refine ⟨fun i => (hr.learned i).imp_right (List.mem_cons_of_mem _), ?_, ?_⟩
  · exact fun i h0 => (hhop _).trans (hr.hop i h0)
  · intro l₁ intf header q l₂ hlog htype
    cases l₁ with
    | nil => exact absurd (List.cons.inj hlog).1 (hsend _ _ _)
    | cons e' l₁ => exact hr.resolved l₁ intf header q l₂ (List.cons.inj hlog).2 htype

/-- A packet is given away: it is not one of those that wait. -/
theorem ResolveInv.handIn (hr : ResolveInv w) (hi : ArpInv frames keep w) (hp : p ∈ heldBy w.log)
    (a : Ipv4Addr) : ResolveInv (w.emit (.handIn p a)) := by
  refine ⟨fun i => (hr.learned i).imp_right (List.mem_cons_of_mem _), ?_, ?_⟩
  · intro i h0
    have hne : p ≠ (w.cache i).packet := (hi.packet_ne hp i).symm
    exact (if_neg hne).trans (hr.hop i h0)
  · intro l₁ intf header q l₂ hlog htype
    cases l₁ with
    | nil => exact nomatch (List.cons.inj hlog).1
    | cons e' l₁ => exact hr.resolved l₁ intf header q l₂ (List.cons.inj hlog).2 htype

/-- A frame that is resolved may be transmitted. -/
theorem ResolveInv.transmit (hr : ResolveInv w) {intf : Nat} {dst : EthAddr} {ethertype : BitVec 16}
    (hframe : ethertype = ET_IPV4 →
      FrameResolved w.log (w.intf intf) ⟨dst, (w.intf intf).ethAddr, ethertype⟩ p) :
    ResolveInv (ethTransmit w intf dst ethertype p) := by
  refine ⟨fun i => (hr.learned i).imp_right (List.mem_cons_of_mem _), hr.hop, ?_⟩
  intro l₁ intf' header q l₂ hlog htype
  cases l₁ with
  | nil =>
    have hlog' := List.cons.inj hlog
    cases hlog'.1
    rw [← hlog'.2]
    exact hframe htype
  | cons e' l₁ => exact hr.resolved l₁ intf' header q l₂ (List.cons.inj hlog).2 htype

/-- ARP frames are no concern here. -/
theorem ResolveInv.arpSend (hr : ResolveInv w) (intf : Nat) (op : BitVec 16) (tha : EthAddr)
    (tpa : Ipv4Addr) : ResolveInv (arpSend frames w intf op tha tpa) := by
  unfold MishaOS.arpSend
  apply ResolveInv.transmit
  · have hbufs : ∀ b, ResolveInv { w with bufs := b } := fun b => ⟨hr.learned, hr.hop, hr.resolved⟩
    apply (hbufs _).emit
    · exact fun q => rfl
    · exact fun _ _ _ h => nomatch h
  · exact fun h => absurd h (by decide)

/-- Every entry is an old one or is in order by itself. -/
theorem ResolveInv.withCache (hr : ResolveInv w) {c : ArpCache}
    (hc : ∀ i, (∃ j, c i = w.cache j) ∨
      (((c i).ha = ethNullAddr ∨ .arpRecv (c i).pa (c i).ha ∈ w.log) ∧
        ((c i).packet ≠ 0 → nextHop (c i).packet w.log = some (c i).pa))) :
    ResolveInv { w with cache := c } := by
  refine ⟨fun i => ?_, fun i => ?_, hr.resolved⟩
  · rcases hc i with ⟨j, hj⟩ | h
    · show (c i).ha = ethNullAddr ∨ .arpRecv (c i).pa (c i).ha ∈ w.log
      rw [hj]
      exact hr.learned j
    · exact h.1
  · rcases hc i with ⟨j, hj⟩ | h
    · show (c i).packet ≠ 0 → nextHop (c i).packet w.log = some (c i).pa
      rw [hj]
      exact hr.hop j
    · exact h.2

theorem ResolveInv.setEntry (hr : ResolveInv w) {x : ArpEntry}
    (hha : x.ha = ethNullAddr ∨ .arpRecv x.pa x.ha ∈ w.log)
    (hhop : x.packet ≠ 0 → nextHop x.packet w.log = some x.pa) : ResolveInv (w.setEntry i x) := by
  apply hr.withCache
  intro j
  rw [Function.update_apply]
  split
  · exact .inr ⟨hha, hhop⟩
  · exact .inl ⟨j, rfl⟩

/-- The slot `arp_add` takes is the only one that is not an old entry. -/
theorem arpAdd_old (c : ArpCache) (ha : EthAddr) (pa : Ipv4Addr) :
    ((arpAdd c ha pa).2 (arpAdd c ha pa).1).ha = ha ∧
    ((arpAdd c ha pa).2 (arpAdd c ha pa).1).pa = pa ∧
      ∀ j ≠ (arpAdd c ha pa).1, ∃ k, (arpAdd c ha pa).2 j = c k := by
  rcases arpAdd_eq c ha pa with ⟨i, -, heq⟩ | ⟨-, heq⟩
  · rw [heq]
    refine ⟨by simp, by simp, fun j hj => ⟨j, ?_⟩⟩
    exact Function.update_of_ne hj _ _
  · rw [heq]
    refine ⟨by simp, by simp, fun j hj => ?_⟩
    show ∃ k, Function.update (arpShift c) 15 _ j = c k
    rw [Function.update_of_ne hj]
    unfold arpShift
    split
    · exact ⟨_, rfl⟩
    · exact ⟨_, rfl⟩

/-- `arp_add` when the slot it takes holds no packet. -/
theorem ResolveInv.arpAdd (hr : ResolveInv w) {ha : EthAddr} {pa : Ipv4Addr}
    (hha : ha = ethNullAddr ∨ .arpRecv pa ha ∈ w.log) (hevict : EvictOk keep w.cache)
    (hreuse : ReuseOk w.cache) : ResolveInv { w with cache := (arpAdd w.cache ha pa).2 } := by
  obtain ⟨hnewha, hnewpa, hold⟩ := arpAdd_old w.cache ha pa
  have hpk : ((MishaOS.arpAdd w.cache ha pa).2 (MishaOS.arpAdd w.cache ha pa).1).packet = 0 := by
    rcases arpAdd_eq w.cache ha pa with ⟨i, hfirst, heq⟩ | ⟨hfull, heq⟩
    · rw [heq]
      simpa using hreuse i hfirst
    · rw [heq]
      simpa using (hevict hfull).2
  apply hr.withCache
  intro j
  by_cases hj : j = (MishaOS.arpAdd w.cache ha pa).1
  · right
    rw [hj, hnewha, hnewpa]
    exact ⟨hha, fun h0 => absurd hpk h0⟩
  · exact .inl (hold j hj)

/-- The entry `arp_request` works on has the address `tpa`; the others are old ones. -/
theorem ResolveInv.requestEntry (hr : ResolveInv w) {tpa : Ipv4Addr} {c : ArpCache}
    (h : arpRequestEntry w.cache tpa = (i, c)) :
    ((c i).ha = ethNullAddr ∨ .arpRecv tpa (c i).ha ∈ w.log) ∧ (c i).pa = tpa ∧
      ∀ j ≠ i, ∃ k, c j = w.cache k := by
  unfold arpRequestEntry at h
  cases hl : arpLookup w.cache tpa with
  | some k =>
    rw [hl] at h
    cases h
    have hpa := arpLookup_eq_some hl
    exact ⟨hpa ▸ hr.learned i, hpa, fun j _ => ⟨j, rfl⟩⟩
  | none =>
    rw [hl] at h
    have hadd : MishaOS.arpAdd w.cache ethNullAddr tpa = (i, c) := h
    obtain ⟨hha, hpa, hold⟩ := arpAdd_old w.cache ethNullAddr tpa
    rw [hadd] at hha hpa hold
    exact ⟨.inl hha, hpa, hold⟩

/-- `arp_request` for a packet given away for `tpa`. -/
theorem ResolveInv.arpRequest (hr : ResolveInv w) {tpa : Ipv4Addr}
    (hhop : nextHop p w.log = some tpa)
    (intf : Nat) (ethertype : BitVec 16) :
    ResolveInv (arpRequest frames w intf tpa ethertype p) := by
  unfold MishaOS.arpRequest
  cases hentry : arpRequestEntry w.cache tpa with
  | mk i c =>
    obtain ⟨hha, hpa, hold⟩ := hr.requestEntry hentry
    simp only
    apply ResolveInv.arpSend
    -- the entry is written, whatever was released before
    have hfinal : ∀ b log, ResolveInv { w with bufs := b, log := log } →
        ((c i).ha = ethNullAddr ∨ .arpRecv tpa (c i).ha ∈ log) → nextHop p log = some tpa →
        ResolveInv { w with
          bufs := b
          log := log
          cache := Function.update c i ⟨(c i).ha, (c i).pa, intf, ethertype, p⟩ } := by
      intro b log hlog hha hhop
      apply hlog.withCache
      intro j
      rw [Function.update_apply]
      split
      -- the entry of the request holds the packet given away for `tpa`
      · right
        rw [hpa]
        exact ⟨hha, fun _ => hhop⟩
      · rename_i hj
        exact .inl (hold j hj)
    have hqueue : ∀ w', ResolveInv w' → ResolveInv (w'.emit (.queue tpa p)) :=
      fun w' hw' => hw'.emit (fun q => rfl) (fun _ _ _ h => nomatch h)
    apply hqueue
    split
    · -- the packet that waited in the entry is released first
      apply hfinal (netFreeBuf w.bufs (c i).packet) (.freeBuf (c i).packet _ :: w.log)
      · have hbufs : ResolveInv { w with bufs := netFreeBuf w.bufs (c i).packet } :=
          ⟨hr.learned, hr.hop, hr.resolved⟩
        exact hbufs.emit (fun q => rfl) (fun _ _ _ h => nomatch h)
      · exact hha.imp_right (List.mem_cons_of_mem _)
      · exact hhop
    · exact hfinal w.bufs w.log hr hha hhop

/-- `eth_intf_send` of a packet given away for its destination. -/
theorem ResolveInv.ethIntfSend (hr : ResolveInv w) {intf : Nat} {dst : List Byte}
    {ethertype : BitVec 16}
    (hhop : nextHop p w.log = some (Ipv4Addr.read dst))
    (hanswered : AnsweredOk w (.send intf dst ethertype p)) :
    ResolveInv (ethIntfSend frames w intf dst ethertype p) := by
  unfold MishaOS.ethIntfSend
  split
  -- an ARP frame is no IPv4 frame
  · rename_i harp
    apply hr.transmit
    exact fun h4 => absurd (harp.symm.trans h4) (by decide)
  split
  · rename_i h4
    simp only
    split
    -- a broadcast goes to everybody
    · rename_i hbcast
      apply hr.transmit
      intro _
      refine ⟨_, hhop, .inl ⟨rfl, ?_⟩⟩
      exact hbcast.imp (congrArg Ipv4Addr.mk) (congrArg Ipv4Addr.mk)
    · rename_i hbcast
      rw [not_or] at hbcast
      unfold arpLookupEthAddr
      -- the address is known, or the packet waits for the answer
      cases hl : arpLookup w.cache (Ipv4Addr.read dst) with
      | none => exact hr.arpRequest hhop intf ethertype
      | some i =>
        apply hr.transmit
        intro _
        refine ⟨_, hhop, .inr ?_⟩
        show .arpRecv (Ipv4Addr.read dst) (w.cache i).ha ∈ w.log
        have hpa := arpLookup_eq_some hl
        rcases hr.learned i with hnull | hmem
        · rw [hnull]
          exact (hanswered h4 hbcast.1 hbcast.2 i hl).resolve_left (fun h => h hnull)
        · exact hpa ▸ hmem
  · exact hr

/-- `arp_recv` from a sender with an entry: the packet that waits there was
    given away for the sender. -/
theorem ResolveInv.arpRecvMerge (hr : ResolveInv w) (hi : ArpInv frames keep w) {sha : EthAddr}
    {spa : List Byte} (hl : arpLookup w.cache (Ipv4Addr.read spa) = some i)
    (hlog : .arpRecv (Ipv4Addr.read spa) sha ∈ w.log) :
    ResolveInv (arpRecvMerge frames w sha spa i) := by
  unfold MishaOS.arpRecvMerge
  have hpa := arpLookup_eq_some hl
  have hset : ResolveInv (w.setEntry i { w.cache i with ha := sha }) := by
    apply hr.setEntry
    · exact .inr (hpa.symm ▸ hlog)
    · exact hr.hop i
  have hl' : arpLookup (w.setEntry i { w.cache i with ha := sha }).cache (Ipv4Addr.read spa) =
      some i := by
    rw [← hl]
    exact arpLookup_setHa sha
  have hself : (w.setEntry i { w.cache i with ha := sha }).cache i =
      { w.cache i with ha := sha } := by
    simp [NetWorld.setEntry]
  simp only [hself]
  -- a packet waits in the entry: it goes out now
  split
  · rename_i h0
    obtain ⟨mac, hsend, hmac⟩ := ethIntfSend_of_entry frames (w.cache i).intf (w.cache i).packet
      hl' (hi.types i h0)
    rw [hsend]
    have hhop : nextHop (w.cache i).packet w.log = some (Ipv4Addr.read spa) := hpa ▸ hr.hop i h0
    have htrans : ResolveInv (ethTransmit (w.setEntry i { w.cache i with ha := sha })
        (w.cache i).intf mac (w.cache i).ethertype (w.cache i).packet) := by
      apply hset.transmit
      intro h4
      refine ⟨_, hhop, ?_⟩
      -- it goes to the address just heard, or it is a broadcast
      rcases hmac h4 with hmac | hmac
      · right
        show .arpRecv (Ipv4Addr.read spa) mac ∈ w.log
        rw [hmac, hself]
        exact hlog
      · exact .inl hmac
    apply htrans.setEntry
    · exact htrans.learned i
    · exact fun h => absurd rfl h
  · exact hset

theorem ResolveInv.arpRecv (hr : ResolveInv w) (hi : ArpInv frames keep w) {intf : Nat}
    {data : List Byte} (hadd : RecvAdds w intf data → EvictOk keep w.cache ∧ ReuseOk w.cache) :
    ResolveInv (arpRecv frames w intf data) := by
  unfold MishaOS.arpRecv
  split
  · exact hr
  split
  · exact hr
  rename_i hlen hok
  rw [not_or, not_or, not_not, not_not] at hok
  simp only
  have hr' : ResolveInv
      (w.emit (.arpRecv (Ipv4Addr.read (data.drop 14)) (EthAddr.read (data.drop 8)))) :=
    hr.emit (fun q => rfl) (fun _ _ _ h => nomatch h)
  have hi' : ArpInv frames keep
      (w.emit (.arpRecv (Ipv4Addr.read (data.drop 14)) (EthAddr.read (data.drop 8)))) :=
    hi.emitRecv _ _
  -- the sender has an entry, or it gets one when the packet asks for us
  cases hl : arpLookup (w.emit (.arpRecv (Ipv4Addr.read (data.drop 14))
      (EthAddr.read (data.drop 8)))).cache (Ipv4Addr.read (data.drop 14)) with
  | some i =>
    have hmerge := hr'.arpRecvMerge hi' hl List.mem_cons_self
    simp only
    split
    · unfold arpRecvTarget
      simp only [if_true]
      split
      · exact hmerge.arpSend _ _ _ _
      · exact hmerge
    · exact hmerge
  | none =>
    simp only
    split
    · rename_i htpa
      obtain ⟨hevict, hreuse⟩ := hadd ⟨by omega, hok.1, hok.2.1, hl, htpa⟩
      have hcache := hr'.arpAdd (.inr List.mem_cons_self) hevict hreuse
      unfold arpRecvTarget
      simp only [Bool.false_eq_true, if_false]
      split
      · exact hcache.arpSend _ _ _ _
      · exact hcache
    · exact hr'

/-! ## Runs -/

/-- One step of a run. -/
theorem netStep_resolve {op : NetOp} (hr : ResolveInv w) (hi : ArpInv frames keep w)
    (hcaller : CallerOk w op) (hcache : CacheOk keep w op) (hanswered : AnsweredOk w op) :
    ResolveInv (netStep frames w op) := by
  have hbufs : ∀ b, ResolveInv { w with bufs := b } := fun b => ⟨hr.learned, hr.hop, hr.resolved⟩
  cases op with
  | alloc data => exact (hbufs _).emit (fun q => rfl) (fun _ _ _ h => nomatch h)
  | release p => exact (hbufs _).emit (fun q => rfl) (fun _ _ _ h => nomatch h)
  | send intf dst ethertype p =>
    apply (hr.handIn hi hcaller _).ethIntfSend
    · simp [NetWorld.emit, nextHop]
    · intro h4 hb hb' i hl
      exact (hanswered h4 hb hb' i hl).imp_right (List.mem_cons_of_mem _)
  | request intf tpa ethertype p =>
    apply (hr.handIn hi hcaller.1 _).arpRequest
    simp [NetWorld.emit, nextHop]
  | recv intf data => exact hr.arpRecv hi hcache
  | config intf x => exact ⟨hr.learned, hr.hop, hr.resolved⟩

theorem NetInit.resolve (h : NetInit w) : ResolveInv w := by
  refine ⟨fun i => .inl (by rw [h.cache]), fun i h0 => absurd (by rw [h.cache]) h0, ?_⟩
  intro l₁ intf header p l₂ hlog
  rw [h.log] at hlog
  simp at hlog

/-- Every run that sends only to addresses without an entry or with an answered
    one transmits IPv4 frames to broadcast or learned addresses only. -/
theorem arp_run_resolved (frames : Nat → Nat) (hf : FramesOk frames) (w₀ w : NetWorld)
    (ops : List NetOp) (h₀ : NetInit w₀)
    (hrun : Run (fun w op => some (netStep frames w op))
      (fun w op => CallerOk w op ∧ CacheOk false w op ∧ AnsweredOk w op) w₀ ops w) :
    FramesResolved w.log := by
  have hinv : ArpInv frames false w ∧ ResolveInv w := by
    apply hrun.invariant (fun w => ArpInv frames false w ∧ ResolveInv w) _ ⟨h₀.inv, h₀.resolve⟩
    intro u op v hi hok hstep
    obtain rfl := Option.some.inj hstep
    exact ⟨netStep_inv hf hi.1 hok.1 hok.2.1, netStep_resolve hi.2 hi.1 hok.1 hok.2.1 hok.2.2⟩
  exact hinv.2.resolved

/-- A packet of the given bytes is allocated and sent to the gateway `10.0.2.2`. -/
def sendToGateway (packet : Nat) : List NetOp :=
  [.alloc [], .send 1 (Ipv4Addr.ofBytes 10 0 2 2).toBytes ET_IPV4 packet]

theorem arp_run_resolved_after_reply :
    ∃ w, Run (fun w op => some (netStep nextFrame w op))
        (fun w op => CallerOk w op ∧ CacheOk false w op ∧ AnsweredOk w op) NetWorld.boot
        (sendToGateway 0x1000 ++ [.recv 1 gatewayReply] ++ sendToGateway 0x3000) w ∧
      (.devSend (NetWorld.boot.intf 1) ⟨⟨2, 0, 0, 0, 0, 2⟩, ⟨2, 0, 0, 0, 0, 1⟩, ET_IPV4⟩ 0x3000) ∈
        w.log ∧
      FramesResolved w.log := by
  have hexec : ((Run.exec (fun w op => some (netStep nextFrame w op))
      (fun w op => CallerOk w op ∧ CacheOk false w op ∧ AnsweredOk w op) NetWorld.boot
      (sendToGateway 0x1000 ++ [.recv 1 gatewayReply] ++ sendToGateway 0x3000)).map
      fun w => decide ((.devSend (NetWorld.boot.intf 1)
        ⟨⟨2, 0, 0, 0, 0, 2⟩, ⟨2, 0, 0, 0, 0, 1⟩, ET_IPV4⟩ 0x3000) ∈ w.log)) = some true := by
    decide +kernel
  obtain ⟨w, hw, hsent⟩ := Option.map_eq_some_iff.mp hexec
  have hrun := Run.of_exec hw
  exact ⟨w, hrun, of_decide_eq_true hsent,
    arp_run_resolved _ nextFrame_framesOk _ w _ ⟨rfl, rfl, rfl⟩ hrun⟩

/-- Two packets to one host that has not answered: the second is transmitted
    to the null hardware address. -/
theorem arp_run_sends_to_null_address :
    ¬ ∀ (frames : Nat → Nat) (w₀ w : NetWorld) (ops : List NetOp), FramesOk frames → NetInit w₀ →
      Run (fun w op => some (netStep frames w op)) CallerOk w₀ ops w → FramesResolved w.log := by
  intro hall
  have hexec : ((Run.exec (fun w op => some (netStep nextFrame w op)) CallerOk NetWorld.boot
      (sendToGateway 0x1000 ++ sendToGateway 0x3000)).map fun w => w.log) = some [
      .devSend (NetWorld.boot.intf 1) ⟨ethNullAddr, ⟨2, 0, 0, 0, 0, 1⟩, ET_IPV4⟩ 0x3000,
      .handIn 0x3000 (.ofBytes 10 0 2 2), .alloc 0x3000,
      .devSend (NetWorld.boot.intf 1) ⟨ethBroadcastAddr, ⟨2, 0, 0, 0, 0, 1⟩, ET_ARP⟩ 0x2000,
      .alloc 0x2000, .queue (.ofBytes 10 0 2 2) 0x1000, .handIn 0x1000 (.ofBytes 10 0 2 2),
      .alloc 0x1000] := by decide +kernel
  obtain ⟨w, hw, hlog⟩ := Option.map_eq_some_iff.mp hexec
  have hok := hall _ _ w _ nextFrame_framesOk ⟨rfl, rfl, rfl⟩ (Run.of_exec hw)
  obtain ⟨dst, -, hbcast | hlearned⟩ := hok [] _ _ _ _ hlog rfl
  · exact absurd hbcast.1 (by decide)
  · simp at hlearned

end MishaOS
