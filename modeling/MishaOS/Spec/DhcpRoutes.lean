import MishaOS.Native.Send
import MishaOS.Spec.DhcpMessage
import MishaOS.Spec.RouteCorrect

/-!
# Where packets go after DHCP

`loopback_init` adds one route, and each acknowledged lease up to three more.
Nothing ever takes a route out: an old lease's routes stay in the table behind
those of the newer ones, and the last route of the table is never looked at.

## Key results

- `setLease_inv`: what a lease does to the table.
- `dhcp_run_routes`: over every run, where `ipv4_send` sends.
-/

namespace MishaOS

open LinkedList InsertAfter

/-! ## What leases ask for -/

namespace DhcpMessage

/-- Where a lease sends a packet for `dst`: into its own network, or through its router. -/
def next (m : DhcpMessage) (dst : Ipv4Addr) : Option Ipv4Addr :=
  let direct := (m.address OPT_SUBNET_MASK).filter fun k =>
    dst.bits &&& k.bits = m.yourIpAddr.bits &&& k.bits
  if direct.isSome then some dst
  else (m.address OPT_ROUTER).map fun r => if r.bits ≠ 0 then r else dst

/-- The message gives this client a lease. -/
def Grants (m : DhcpMessage) (client : EthAddr) : Prop := m.For client ∧ m.messageType = DHCP_ACK

instance (m : DhcpMessage) (client : EthAddr) : Decidable (m.Grants client) :=
  inferInstanceAs (Decidable (_ ∧ _))

/-- The reply that is read through a null pointer. -/
def Nameless (m : DhcpMessage) (client : EthAddr) : Prop :=
  m.For client ∧ m.messageType = DHCP_OFFER ∧ m.address OPT_SERVER_ID = none

end DhcpMessage

/-- The interface and the next address for `dst` under leases, the newest one first: the own
    address of the newest lease is not looked at. -/
def leasesNext (loop eth : Nat) (leases : List DhcpMessage) (dst : Ipv4Addr) :
    Option (Nat × Ipv4Addr) :=
  if leases = [] then none
  else if dst = .ofBytes 127 0 0 1 then some (loop, dst)
  else
    match leases.findSome? (·.next dst) with
    | some next => some (eth, next)
    | none => if ∃ m ∈ leases.tail, m.yourIpAddr = dst then some (eth, dst) else none

/-! ## The table -/

/-- The table holds the routes of `l`, with all their fields. -/
structure TableInv (t : RouteTable) (l : List RouteAdd) : Prop where
  inv : RouteInv t l
  gateway : ∀ r ∈ l, (t.route r.page).gateway = r.gateway.getD ipv4NullAddr
  intf : ∀ r ∈ l, (t.route r.page).intf = r.intf

/-- A route without the page it stands in. -/
def RouteAdd.forget (r : RouteAdd) : RouteAdd := { r with page := 0 }

/-- The routes of a host, wherever they stand. -/
structure HostInv (h : DhcpHost) (l : List RouteAdd) : Prop where
  table : ∃ adds, TableInv h.routes adds ∧ adds.map RouteAdd.forget = l ∧
    ∀ r ∈ adds, r.page ∈ h.pages ∧ r.page < 4294967296

variable {t t' : RouteTable} {l adds : List RouteAdd} {r : RouteAdd} {page prev : Nat}

/-- Linking a route does not change where it leads. -/
theorem netLinkRoute_kept (t : RouteTable) (page prev p : Nat) :
    ((netLinkRoute t page prev).route p).gateway = (t.route p).gateway ∧
      ((netLinkRoute t page prev).route p).intf = (t.route p).intf := by
  unfold netLinkRoute
  generalize ht' : (if (t.route prev).next ≠ 0 then t.setRoute (t.route prev).next
    { t.route (t.route prev).next with prev := page } else t) = t'
  -- the `prev` of the next route is no gateway
  have hsame (p : Nat) : (t'.route p).gateway = (t.route p).gateway ∧
      (t'.route p).intf = (t.route p).intf := by
    rw [← ht']
    split
    · by_cases hp : p = (t.route prev).next <;> simp [hp]
    · exact ⟨rfl, rfl⟩
  simp only [ht', RouteTable.setRoute_route]
  -- of the two routes that are written only the links change
  by_cases hprev : p = prev
  · by_cases hpage : prev = page
    · simp [hprev, hpage, hsame page]
    · simp [hprev, hpage, hsame prev]
  · by_cases hpage : p = page
    · subst hpage
      simp [hprev, hsame p]
    · simp [hprev, hpage, hsame p]

/-- `net_add_route` writes the gateway and the interface of its own page only. -/
theorem netAddRoute_kept (h : netAddRoute t r.page r.dst r.mask r.gateway r.intf = some t')
    (p : Nat) :
    (t'.route p).gateway = (if p = r.page then r.gateway.getD ipv4NullAddr
      else (t.route p).gateway) ∧
      (t'.route p).intf = if p = r.page then r.intf else (t.route p).intf := by
  unfold netAddRoute at h
  dsimp only at h
  split at h
  · obtain rfl := Option.some.inj h
    by_cases hp : p = r.page <;> simp [hp]
  · obtain ⟨prev, -, rfl⟩ := Option.map_eq_some_iff.mp h
    obtain ⟨hgateway, hintf⟩ := netLinkRoute_kept (t.setRoute r.page ⟨0, 0, r.dst, r.mask,
      r.gateway.getD ipv4NullAddr, r.intf⟩) r.page prev p
    rw [hgateway, hintf, RouteTable.setRoute_route]
    by_cases hp : p = r.page <;> simp [hp]

/-- A route is added in its place. -/
theorem TableInv.add (hi : TableInv t l) (hr0 : r.page ≠ 0) (hr : r.page ∉ l.map RouteAdd.page)
    (hlt : ∀ x ∈ l, x.page < 4294967296) :
    ∃ t', netAddRoute t r.page r.dst r.mask r.gateway r.intf = some t' ∧
      TableInv t' (insertAfter (fun x => r.mask.bits < x.mask.bits) r l) := by
  obtain ⟨t', hadd, hinv⟩ := netAddRoute_inv hi.inv hr0 hr hlt
  -- the page is new, so an old route is not on it
  have hmem : ∀ x ∈ insertAfter (fun x => r.mask.bits < x.mask.bits) r l, x = r ∨
      x.page ≠ r.page ∧ x ∈ l := by
    intro x hx
    obtain rfl | hx := List.mem_cons.mp ((insertAfter_perm _ r l).mem_iff.mp hx)
    · exact .inl rfl
    · exact .inr ⟨fun e => hr (e ▸ List.mem_map_of_mem hx), hx⟩
  refine ⟨t', hadd, hinv, fun x hx => ?_, fun x hx => ?_⟩
  · rw [(netAddRoute_kept hadd _).1]
    obtain rfl | ⟨hne, hx⟩ := hmem x hx
    · rw [if_pos rfl]
    · rw [if_neg hne, hi.gateway x hx]
  · rw [(netAddRoute_kept hadd _).2]
    obtain rfl | ⟨hne, hx⟩ := hmem x hx
    · rw [if_pos rfl]
    · rw [if_neg hne, hi.intf x hx]

variable {h h' : DhcpHost} {eth loop : Nat}

/-- A route as `addRoute` is asked for it. -/
def routeOf (eth : Nat) (route : Ipv4Addr × Ipv4Addr × Option Ipv4Addr) : RouteAdd :=
  ⟨0, route.1, route.2.1, route.2.2, eth⟩

/-- The place of a new route. -/
def addedTo (l : List RouteAdd) (r : RouteAdd) : List RouteAdd :=
  insertAfter (fun x => r.mask.bits < x.mask.bits) r l

/-- A page that has not been handed out. -/
def DhcpHost.Fresh (h : DhcpHost) (p : Nat) : Prop := p ≠ 0 ∧ p < 4294967296 ∧ p ∉ h.pages

instance (h : DhcpHost) (p : Nat) : Decidable (h.Fresh p) := inferInstanceAs (Decidable (_ ∧ _ ∧ _))

/-- So is a route of a lease. -/
theorem addRoute_inv (eth : Nat) (hi : HostInv h l) (route : Ipv4Addr × Ipv4Addr × Option Ipv4Addr)
    (hpage : h.Fresh page) :
    ∃ h', h.addRoute eth page route = some h' ∧ HostInv h' (addedTo l (routeOf eth route)) ∧
      h'.intf = h.intf ∧ h'.dnsServer = h.dnsServer ∧ h'.pages = page :: h.pages := by
  obtain ⟨adds, htable, rfl, hpages⟩ := hi.table
  obtain ⟨hp0, hplt, hfresh⟩ := hpage
  let r : RouteAdd := ⟨page, route.1, route.2.1, route.2.2, eth⟩
  -- the page has just been allocated
  have hr : r.page ∉ adds.map RouteAdd.page := by
    intro hmem
    obtain ⟨x, hx, hxp⟩ := List.mem_map.mp hmem
    have hin := (hpages x hx).1
    rw [hxp] at hin
    exact hfresh hin
  obtain ⟨t', hadd, hinv⟩ := htable.add (r := r) hp0 hr fun x hx => (hpages x hx).2
  refine ⟨{ h with routes := t', pages := page :: h.pages }, ?_,
    ⟨_, hinv, ?_, fun x hx => ?_⟩, rfl, rfl, rfl⟩
  · show (netAddRoute h.routes r.page r.dst r.mask r.gateway r.intf).bind _ = _
    rw [hadd]
    rfl
  · exact insertAfter_map RouteAdd.forget (fun x => r.mask.bits < x.mask.bits) r adds
  · obtain rfl | hx := List.mem_cons.mp ((insertAfter_perm _ r adds).mem_iff.mp hx)
    · exact ⟨List.mem_cons_self, hplt⟩
    · exact ⟨List.mem_cons_of_mem _ (hpages x hx).1, (hpages x hx).2⟩

/-- The calls of `net_add_route` of one lease. -/
theorem addRoutes_inv (eth : Nat) {routes : List (Ipv4Addr × Ipv4Addr × Option Ipv4Addr)}
    {pages : List Nat} (hi : HostInv h l)
    (hlen : routes.length ≤ pages.length) (hnodup : pages.Nodup) (hfresh : ∀ p ∈ pages, h.Fresh p) :
    ∃ h', (pages.zip routes).foldlM (fun h r => h.addRoute eth r.1 r.2) h = some h' ∧
      HostInv h' ((routes.map (routeOf eth)).foldl addedTo l) ∧ h'.intf = h.intf ∧
      h'.dnsServer = h.dnsServer := by
  -- one page for each route
  induction routes generalizing h l pages with
  | nil =>
    rw [List.zip_nil_right]
    exact ⟨h, rfl, hi, rfl, rfl⟩
  | cons route routes ih =>
    cases pages with
    | nil => exact absurd hlen (Nat.not_succ_le_zero _)
    | cons page pages =>
      obtain ⟨hnot, hnodup⟩ := List.nodup_cons.mp hnodup
      obtain ⟨h₁, hadd, hi₁, hintf₁, hdns₁, hpages₁⟩ :=
        addRoute_inv eth hi route (hfresh page List.mem_cons_self)
      obtain ⟨h', hrest, hi', hintf', hdns'⟩ := ih hi₁ (Nat.le_of_succ_le_succ hlen) hnodup (by
        intro p hp
        obtain ⟨hp0, hplt, hpfresh⟩ := hfresh p (List.mem_cons_of_mem _ hp)
        refine ⟨hp0, hplt, ?_⟩
        rw [hpages₁, List.mem_cons, not_or]
        exact ⟨fun e => hnot (e ▸ hp), hpfresh⟩)
      refine ⟨h', ?_, hi', hintf'.trans hintf₁, hdns'.trans hdns₁⟩
      rw [List.zip_cons_cons, List.foldlM_cons, hadd]
      exact hrest

/-! ## Leases -/

def loopRoute (loop : Nat) : RouteAdd := ⟨0, .ofBytes 127 0 0 1, ipv4BroadcastAddr, none, loop⟩

def routerRoutes (eth : Nat) (m : DhcpMessage) : List RouteAdd :=
  (m.address OPT_ROUTER).toList.map fun r => ⟨0, ipv4NullAddr, ipv4NullAddr, some r, eth⟩

def subnetRoutes (eth : Nat) (m : DhcpMessage) : List RouteAdd :=
  (m.address OPT_SUBNET_MASK).toList.map fun k => ⟨0, ⟨m.yourIpAddr.bits &&& k.bits⟩, k, none, eth⟩

def hostRoute (eth : Nat) (m : DhcpMessage) : RouteAdd :=
  ⟨0, m.yourIpAddr, ipv4BroadcastAddr, none, eth⟩

/-- The table after leases, the newest one first. -/
def leaseTable (loop eth : Nat) (leases : List DhcpMessage) : List RouteAdd :=
  loopRoute loop :: (leases.flatMap (fun m => subnetRoutes eth m ++ routerRoutes eth m) ++
    leases.reverse.map (hostRoute eth))

/-- A route of a network goes behind that of the host itself. -/
theorem addedTo_front (hmask : r.mask ≠ ipv4BroadcastAddr) :
    addedTo (loopRoute loop :: l) r = loopRoute loop :: r :: l := by
  have hne : r.mask.bits.toNat ≠ 4294967295 := by
    intro e
    have hbits : r.mask.bits = 0xFFFFFFFF#32 := BitVec.eq_of_toNat_eq e
    exact hmask (congrArg Ipv4Addr.mk hbits)
  have hlt : r.mask.bits < (loopRoute loop).mask.bits := by
    have hbound := r.mask.bits.isLt
    show r.mask.bits < 0xFFFFFFFF#32
    rw [BitVec.lt_def]
    show _ < 4294967295
    omega
  rw [addedTo, insertAfter, if_pos (decide_eq_true hlt)]

/-- A route with the longest mask goes to the end. -/
theorem addedTo_last (hr : r.mask = ipv4BroadcastAddr) : addedTo l r = l ++ [r] := by
  apply insertAfter_of_forall
  intro x _
  have hbound := x.mask.bits.isLt
  apply decide_eq_false
  rw [hr, BitVec.lt_def]
  show ¬ 4294967295 < _
  omega

/-- A lease's routes go in front of the older ones, its own address to the end. -/
theorem leaseTable_cons {m : DhcpMessage} {leases : List DhcpMessage}
    (hmask : m.address OPT_SUBNET_MASK ≠ some ipv4BroadcastAddr) :
    (m.lease.routes.map (routeOf eth)).foldl addedTo (leaseTable loop eth leases) =
      leaseTable loop eth (m :: leases) := by
  -- the routes are added in the order of the source: own address, router, subnet
  have hroutes : m.lease.routes.map (routeOf eth) =
      routerRoutes eth m ++ subnetRoutes eth m ++ [hostRoute eth m] := by
    simp only [DhcpMessage.lease, List.map_append, List.map_map]
    rfl
  -- the router is a route with the mask 0.0.0.0
  have hrouter (l : List RouteAdd) :
      (routerRoutes eth m).foldl addedTo (loopRoute loop :: l) =
        loopRoute loop :: (routerRoutes eth m ++ l) := by
    unfold routerRoutes
    cases m.address OPT_ROUTER with
    | none => rfl
    | some r =>
      exact addedTo_front (r := ⟨0, ipv4NullAddr, ipv4NullAddr, some r, eth⟩)
        (by decide : ipv4NullAddr ≠ ipv4BroadcastAddr)
  have hsubnet (l : List RouteAdd) :
      (subnetRoutes eth m).foldl addedTo (loopRoute loop :: l) =
        loopRoute loop :: (subnetRoutes eth m ++ l) := by
    unfold subnetRoutes
    cases hk : m.address OPT_SUBNET_MASK with
    | none => rfl
    | some k =>
      exact addedTo_front (r := ⟨0, ⟨m.yourIpAddr.bits &&& k.bits⟩, k, none, eth⟩) fun e =>
        hmask (hk.trans (congrArg some e))
  rw [hroutes, List.foldl_append, List.foldl_append, leaseTable, hrouter, hsubnet, List.foldl_cons,
    List.foldl_nil,
    addedTo_last rfl, leaseTable, List.flatMap_cons, List.reverse_cons, List.map_append]
  simp only [List.append_assoc, List.cons_append, List.map_cons, List.map_nil]

/-- What a lease sets. -/
theorem setLease_inv {m : DhcpMessage} {leases : List DhcpMessage} {pages : List Nat}
    (hi : HostInv h (leaseTable loop eth leases))
    (hmask : m.address OPT_SUBNET_MASK ≠ some ipv4BroadcastAddr)
    (hlen : pages.length = 3) (hnodup : pages.Nodup) (hfresh : ∀ p ∈ pages, h.Fresh p) :
    ∃ h', h.setLease eth pages m.lease = some h' ∧ HostInv h' (leaseTable loop eth (m :: leases)) ∧
      h'.intf = ⟨h.intf.ethAddr, m.yourIpAddr, m.lease.broadcastAddr.getD h.intf.broadcastAddr⟩ ∧
      h'.dnsServer = (m.address OPT_DNS).getD h.dnsServer := by
  -- three pages are enough
  have hroutes : m.lease.routes.length ≤ pages.length := by
    have hrouter : (m.address OPT_ROUTER).toList.length ≤ 1 := by
      cases m.address OPT_ROUTER <;> simp
    have hsubnet : (m.address OPT_SUBNET_MASK).toList.length ≤ 1 := by
      cases m.address OPT_SUBNET_MASK <;> simp
    simp only [DhcpMessage.lease, List.length_append, List.length_map, List.length_singleton]
    omega
  obtain ⟨h', hadd, hi', hintf, hdns⟩ := addRoutes_inv eth
    (h := { h with intf := { h.intf with ipAddr := m.yourIpAddr } })
      ⟨hi.table⟩ hroutes hnodup hfresh
  rw [leaseTable_cons hmask] at hi'
  let h'' : DhcpHost := { h' with
    intf := { h'.intf with broadcastAddr := m.lease.broadcastAddr.getD h'.intf.broadcastAddr }
    dnsServer := m.lease.dnsServer.getD h'.dnsServer }
  have hset : h.setLease eth pages m.lease = some h'' := by
    unfold DhcpHost.setLease
    exact congrArg (Option.bind · _) hadd
  refine ⟨h'', hset, ⟨hi'.table⟩, ?_, ?_⟩
  · show NetIntf.mk h'.intf.ethAddr h'.intf.ipAddr
      (m.lease.broadcastAddr.getD h'.intf.broadcastAddr) = _
    rw [hintf]
  · show (m.address OPT_DNS).getD h'.dnsServer = _
    rw [hdns]

/-! ## Lookups -/

/-- The address a route sends a packet for `dst` to. -/
def RouteAdd.nextAddr (r : RouteAdd) (dst : Ipv4Addr) : Ipv4Addr :=
  if (r.gateway.getD ipv4NullAddr).bits ≠ 0 then r.gateway.getD ipv4NullAddr else dst

variable {dst : Ipv4Addr} {frames : Nat → Nat} {w : SendWorld} {protocol : Byte} {packet : Nat}

/-- A packet with a route goes to its interface. -/
theorem ipv4Send_of_route {route : Nat} (hfind : netFindRoute w.routes dst = some route)
    (h0 : route ≠ 0) :
    ipv4Send frames w dst protocol packet = some (ipv4IntfSend frames w (w.routes.route route).intf
      (netNextAddr w.routes route dst) dst protocol packet false) := by
  rw [ipv4Send, hfind]
  cases route with
  | zero => exact absurd rfl h0
  | succ k => rfl

/-- `ipv4_send` takes the first route that matches, except the last one of all. -/
theorem ipv4Send_table (hi : HostInv h l) (hl : l ≠ []) (hw : w.routes = h.routes) :
    ipv4Send frames w dst protocol packet = some ((l.dropLast.find? (·.Matches dst)).elim w fun r =>
      ipv4IntfSend frames w r.intf (r.nextAddr dst) dst protocol packet false) := by
  obtain ⟨adds, htable, rfl, hpages⟩ := hi.table
  have hchain := htable.inv.chain
  -- the table is not longer than the fuel
  have hfuel : adds.length ≤ walkFuel := by
    have hlt := hchain.length_lt (n := 4294967296) (by decide) (by
      intro p hp
      obtain ⟨r, hr, rfl⟩ := List.mem_map.mp hp
      exact (hpages r hr).2)
    rw [List.length_map] at hlt
    exact Nat.le_of_lt hlt
  have hne : adds ≠ [] := fun e => hl (by rw [e]; rfl)
  -- `net_find_route` takes the first that matches, the last one if none does
  have hfind : netFindRoute w.routes dst =
      some ((adds.dropLast.find? (·.Matches dst)).map RouteAdd.page |>.getD 0) := by
    rw [hw]
    exact netFindRouteFrom_spec hchain htable.inv.dst htable.inv.mask hne hfuel
  have hforget : (adds.map RouteAdd.forget).dropLast.find? (·.Matches dst) =
      (adds.dropLast.find? (·.Matches dst)).map RouteAdd.forget := by
    rw [← List.map_dropLast, List.find?_map]
    rfl
  rw [hforget]
  -- the last one is the null route, which drops the packet
  cases hr : adds.dropLast.find? (·.Matches dst) with
  | none =>
    rw [hr] at hfind
    rw [ipv4Send, hfind]
    rfl
  | some r =>
    have hmem : r ∈ adds := List.dropLast_subset _ (List.mem_of_find?_eq_some hr)
    have hp0 : r.page ≠ 0 := hchain.ne_null (List.mem_map_of_mem hmem)
    rw [hr] at hfind
    rw [ipv4Send_of_route hfind hp0]
    show some (ipv4IntfSend frames w (w.routes.route r.page).intf (netNextAddr w.routes r.page dst)
      dst protocol packet
      false) = _
    rw [netNextAddr, hw, htable.gateway r hmem, htable.intf r hmem]
    rfl

/-- The first route of a lease that applies. -/
theorem next_eq (m : DhcpMessage) :
    ((subnetRoutes eth m ++ routerRoutes eth m).find? (·.Matches dst)).map
      (fun r => (r.intf, r.nextAddr dst)) =
      (m.next dst).map fun next => (eth, next) := by
  rw [List.find?_append]
  unfold subnetRoutes routerRoutes DhcpMessage.next
  cases hk : m.address OPT_SUBNET_MASK with
  | none => cases hr : m.address OPT_ROUTER <;>
    simp [RouteAdd.Matches, ipv4NullAddr, RouteAdd.nextAddr]
  | some k =>
    by_cases hdirect : dst.bits &&& k.bits = m.yourIpAddr.bits &&& k.bits
    · simp [RouteAdd.Matches, ipv4NullAddr, RouteAdd.nextAddr, hdirect]
    · cases hr : m.address OPT_ROUTER <;>
        simp [RouteAdd.Matches, ipv4NullAddr, RouteAdd.nextAddr, hdirect]

/-- A route with the longest mask leads to one address. -/
theorem matches_broadcast {addr : Ipv4Addr} {gateway : Option Ipv4Addr} {intf : Nat} :
    (⟨0, addr, ipv4BroadcastAddr, gateway, intf⟩ : RouteAdd).Matches dst ↔ addr = dst := by
  have hand : dst.bits &&& ipv4BroadcastAddr.bits = dst.bits := BitVec.and_allOnes
  show dst.bits &&& ipv4BroadcastAddr.bits = addr.bits ↔ _
  rw [hand, Ipv4Addr.mk.injEq, eq_comm]

/-- What the routes in front of the last one say. -/
theorem leaseTable_find (leases : List DhcpMessage) :
    ((leaseTable loop eth leases).dropLast.find? (·.Matches dst)).map
      (fun r => (r.intf, r.nextAddr dst)) =
      leasesNext loop eth leases dst := by
  have hnext (addr : Ipv4Addr) (intf : Nat) :
      (⟨0, addr, ipv4BroadcastAddr, none, intf⟩ : RouteAdd).nextAddr dst = dst := by
    simp [RouteAdd.nextAddr, ipv4NullAddr]
  unfold leasesNext
  cases leases with
  | nil => rfl
  | cons m leases =>
    have hdrop : (leaseTable loop eth (m :: leases)).dropLast = loopRoute loop ::
        ((m :: leases).flatMap (fun m => subnetRoutes eth m ++ routerRoutes eth m) ++
          leases.reverse.map (hostRoute eth)) := by
      rw [leaseTable, List.reverse_cons, List.map_append, List.map_singleton, ← List.append_assoc,
        ← List.cons_append,
        List.dropLast_concat]
    rw [hdrop, if_neg (List.cons_ne_nil _ _), List.find?_cons]
    by_cases hloop : dst = .ofBytes 127 0 0 1
    · have hm : (loopRoute loop).Matches dst := matches_broadcast.mpr hloop.symm
      rw [decide_eq_true hm, if_pos hloop]
      exact congrArg some (Prod.ext rfl (hnext (.ofBytes 127 0 0 1) loop))
    · have hm : ¬ (loopRoute loop).Matches dst := fun h => hloop (matches_broadcast.mp h).symm
      rw [decide_eq_false hm, if_neg hloop, List.find?_append, List.find?_flatMap]
      dsimp only
      have hfront : ((m :: leases).findSome? fun m =>
          (subnetRoutes eth m ++ routerRoutes eth m).find? (·.Matches dst)).map
            (fun r => (r.intf, r.nextAddr dst)) =
          ((m :: leases).findSome? (·.next dst)).map fun next => (eth, next) := by
        rw [List.map_findSome?, List.map_findSome?]
        congr 1
        funext m
        exact next_eq m
      cases hfind : (m :: leases).findSome? fun m =>
        (subnetRoutes eth m ++ routerRoutes eth m).find? (·.Matches dst) with
      | some r =>
        rw [hfind] at hfront
        obtain ⟨next, hn, hpair⟩ := Option.map_eq_some_iff.mp hfront.symm
        rw [hn]
        exact congrArg some hpair.symm
      | none =>
        rw [hfind] at hfront
        have hn := Option.map_eq_none_iff.mp hfront.symm
        rw [hn, Option.none_or, List.find?_map, List.tail_cons]
        -- only the own addresses of older leases are left
        cases hhost : leases.reverse.find? ((fun x => decide (x.Matches dst)) ∘ hostRoute eth) with
        | some old =>
          have hmem := List.mem_reverse.mp (List.mem_of_find?_eq_some hhost)
          have hold := (List.find?_eq_some_iff_append.mp hhost).1
          rw [if_pos ⟨old, hmem, matches_broadcast.mp (of_decide_eq_true hold)⟩]
          exact congrArg some (Prod.ext rfl (hnext old.yourIpAddr eth))
        | none =>
          have hnone : ¬ ∃ m ∈ leases, m.yourIpAddr = dst := by
            intro ⟨old, hmem, hip⟩
            have hno := List.find?_eq_none.mp hhost old (List.mem_reverse.mpr hmem)
            exact hno (decide_eq_true (matches_broadcast.mpr hip))
          rw [if_neg hnone]
          rfl

/-! ## Runs -/

/-- A message that comes in, and the pages that `pfa_request_page` has for its routes. -/
structure DhcpInput where
  message : DhcpMessage
  pages : List Nat

def dhcpStep (eth : Nat) (h : DhcpHost) (x : DhcpInput) : Option DhcpHost :=
  h.recv eth x.message.toBytes x.pages

/-- Three pages that have not been handed out, and a network of more than one address. -/
structure DhcpOk (h : DhcpHost) (x : DhcpInput) : Prop where
  three : x.pages.length = 3
  nodup : x.pages.Nodup
  fresh : ∀ p ∈ x.pages, h.Fresh p
  mask : x.message.address OPT_SUBNET_MASK ≠ some ipv4BroadcastAddr

/-- What the host is like after `leases`, the newest one first. -/
structure LeaseInv (loop eth : Nat) (h₀ h : DhcpHost) (leases : List DhcpMessage) : Prop where
  table : HostInv h (leaseTable loop eth leases)
  ethAddr : h.intf.ethAddr = h₀.intf.ethAddr
  ipAddr : h.intf.ipAddr = (leases.head?.map (·.yourIpAddr)).getD h₀.intf.ipAddr
  broadcast : h.intf.broadcastAddr = (leases.findSome? (·.lease.broadcastAddr)).getD
    h₀.intf.broadcastAddr
  dns : h.dnsServer = (leases.findSome? (·.address OPT_DNS)).getD h₀.dnsServer

variable {h₀ : DhcpHost} {leases : List DhcpMessage} {x : DhcpInput} {ops : List DhcpInput}

/-- Of the writes the last one counts. -/
theorem findSome?_getD_cons {α β : Type} (f : α → Option β) (a : α) (l : List α) (b : β) :
    (f a).getD ((l.findSome? f).getD b) = ((a :: l).findSome? f).getD b := by
  rw [List.findSome?_cons]
  cases f a <;> rfl

/-- Any other message that names its server is answered without a lease. -/
theorem DhcpMessage.answer_not_granted {m : DhcpMessage} {client : EthAddr}
    (hgrants : ¬ m.Grants client)
    (hname : ¬ m.Nameless client) : ∃ reply, m.answer client = .ok reply ∧
    ∀ y, reply ≠ .lease y := by
  unfold DhcpMessage.answer
  by_cases hfor : m.For client
  · rw [if_pos hfor]
    by_cases hoffer : m.messageType = DHCP_OFFER
    · obtain ⟨server, hserver⟩ := Option.ne_none_iff_exists'.mp fun hn => hname ⟨hfor, hoffer, hn⟩
      rw [if_pos hoffer, hserver]
      exact ⟨_, rfl, by simp⟩
    · rw [if_neg hoffer, if_neg fun hack => hgrants ⟨hfor, hack⟩]
      split
      · exact ⟨_, rfl, by simp⟩
      · exact ⟨_, rfl, by simp⟩
  · rw [if_neg hfor]
    exact ⟨_, rfl, by simp⟩

/-- One message. -/
theorem LeaseInv.step (hi : LeaseInv loop eth h₀ h leases) (hok : DhcpOk h x)
    (hname : ¬ x.message.Nameless h₀.intf.ethAddr) :
    ∃ h', dhcpStep eth h x = some h' ∧ LeaseInv loop eth h₀ h'
      (if x.message.Grants h₀.intf.ethAddr then x.message :: leases else leases) := by
  have hrecv : dhcpRecv h.intf x.message.toBytes = x.message.answer h₀.intf.ethAddr := by
    rw [dhcp_recv_message, hi.ethAddr]
  unfold dhcpStep DhcpHost.recv
  rw [hrecv]
  -- an ACK with a lease for us, or anything else
  by_cases hgrants : x.message.Grants h₀.intf.ethAddr
  · have hanswer : x.message.answer h₀.intf.ethAddr = .ok (.lease x.message.lease) := by
      rw [DhcpMessage.answer, if_pos hgrants.1, hgrants.2, if_neg (by decide), if_pos rfl]
    obtain ⟨h', hset, htable, hintf, hdns⟩ :=
      setLease_inv hi.table hok.mask hok.three hok.nodup hok.fresh
    rw [hanswer, if_pos hgrants]
    refine ⟨h', hset, htable, ?_, ?_, ?_, ?_⟩
    · rw [hintf]
      exact hi.ethAddr
    · rw [hintf]
      rfl
    · rw [hintf, hi.broadcast, ← findSome?_getD_cons]
    · rw [hdns, hi.dns, ← findSome?_getD_cons]
  -- what grants nothing leaves the host as it was
  · obtain ⟨reply, hanswer, hreply⟩ := DhcpMessage.answer_not_granted hgrants hname
    rw [hanswer, if_neg hgrants]
    refine ⟨h, ?_, hi⟩
    cases reply with
    | lease y => exact absurd rfl (hreply y)
    | _ => rfl

/-- An offer without a server id is not handled. -/
theorem dhcpStep_nameless (hi : LeaseInv loop eth h₀ h leases)
    (hname : x.message.Nameless h₀.intf.ethAddr) :
    dhcpStep eth h x = none := by
  obtain ⟨hfor, hoffer, hserver⟩ := hname
  unfold dhcpStep DhcpHost.recv
  rw [dhcp_recv_message, DhcpMessage.answer, hi.ethAddr, if_pos hfor, if_pos hoffer, hserver]

/-- The leases a client is given by messages, the newest one first. -/
def granted (client : EthAddr) (ops : List DhcpInput) : List DhcpMessage :=
  ((ops.map DhcpInput.message).filter (·.Grants client)).reverse

/-- Every run of messages keeps the routes of all leases. -/
theorem LeaseInv.run (hi : LeaseInv loop eth h₀ h leases)
    (hrun : Run (dhcpStep eth) DhcpOk h ops h') :
    LeaseInv loop eth h₀ h' (granted h₀.intf.ethAddr ops ++ leases) := by
  -- message by message; the newest lease is put in front
  induction hrun generalizing leases with
  | nil h => exact hi
  | @cons h h₁ h' x ops hok hstep _ ih =>
    -- `dhcp_recv` of a nameless message does not return
    have hname : ¬ x.message.Nameless h₀.intf.ethAddr := by
      intro hname
      rw [dhcpStep_nameless hi hname] at hstep
      cases hstep
    obtain ⟨h₂, hstep', hi'⟩ := hi.step hok hname
    obtain rfl := Option.some.inj (hstep.symm.trans hstep')
    have hrest := ih hi'
    unfold granted
    rw [List.map_cons, List.filter_cons]
    by_cases hgrants : x.message.Grants h₀.intf.ethAddr
    · rw [if_pos hgrants] at hrest
      rw [if_pos (decide_eq_true hgrants), List.reverse_cons, List.append_assoc]
      exact hrest
    · rw [if_neg hgrants] at hrest
      rw [if_neg (by simpa using hgrants)]
      exact hrest

/-- A host whose only route is the one of `loopback_init`. -/
structure Booted (loop : Nat) (h : DhcpHost) : Prop where
  routes : ∃ t page, t.routeList = 0 ∧ page ≠ 0 ∧ page < 4294967296 ∧
    loopbackInit t page loop = some h.routes ∧ h.pages = [page]

/-- Before the first lease there is the loopback route. -/
theorem Booted.inv (hb : Booted loop h₀) (eth : Nat) : LeaseInv loop eth h₀ h₀ [] := by
  obtain ⟨t, page, ht, hp0, hplt, hinit, hpages⟩ := hb.routes
  have hempty : TableInv t [] := ⟨⟨ht, by simp, by simp⟩, by simp, by simp⟩
  obtain ⟨t', hadd, hinv⟩ :=
    hempty.add (r := ⟨page, .ofBytes 127 0 0 1, ipv4BroadcastAddr, none, loop⟩) hp0
    List.not_mem_nil (by simp)
  obtain rfl := Option.some.inj (hinit.symm.trans hadd)
  refine ⟨⟨_, hinv, rfl, fun r hr => ?_⟩, rfl, rfl, rfl, rfl⟩
  obtain rfl := List.mem_singleton.mp hr
  rw [hpages]
  exact ⟨List.mem_singleton_self _, hplt⟩

/-- Whatever messages come in, in any number and order: packets go where the newest lease says,
    where it is silent the one before it, and so on; and only an offer that does not name its
    server keeps a message from being handled. -/
theorem dhcp_run_routes (loop eth : Nat) (h₀ h : DhcpHost) (ops : List DhcpInput)
    (hb : Booted loop h₀)
    (hrun : Run (dhcpStep eth) DhcpOk h₀ ops h) :
    (∀ (frames : Nat → Nat) (w : SendWorld) (dst : Ipv4Addr) (protocol : Byte) (packet : Nat),
      w.routes = h.routes →
        ipv4Send frames w dst protocol packet =
          some ((leasesNext loop eth (granted h₀.intf.ethAddr ops) dst).elim w fun hop =>
            ipv4IntfSend frames w hop.1 hop.2 dst protocol packet false)) ∧
      h.intf.ipAddr = ((granted h₀.intf.ethAddr ops).head?.map (·.yourIpAddr)).getD h₀.intf.ipAddr ∧
      h.intf.broadcastAddr =
        ((granted h₀.intf.ethAddr ops).findSome? (·.lease.broadcastAddr)).getD
          h₀.intf.broadcastAddr ∧
      h.dnsServer = ((granted h₀.intf.ethAddr ops).findSome? (·.address OPT_DNS)).getD
        h₀.dnsServer ∧
      ∀ x, DhcpOk h x → ((dhcpStep eth h x).isSome ↔ ¬ x.message.Nameless h₀.intf.ethAddr) := by
  -- every lease is in the table by now
  have hi : LeaseInv loop eth h₀ h (granted h₀.intf.ethAddr ops) := by
    have hrun' := (hb.inv eth).run hrun
    rw [List.append_nil] at hrun'
    exact hrun'
  refine ⟨fun frames w dst protocol packet hw => ?_, hi.ipAddr, hi.broadcast, hi.dns,
    fun x hok => ?_⟩
  · rw [ipv4Send_table hi.table (List.cons_ne_nil _ _) hw, ← leaseTable_find]
    cases (leaseTable loop eth (granted h₀.intf.ethAddr ops)).dropLast.find? (·.Matches dst) <;> rfl
  · constructor
    · intro hsome hname
      rw [dhcpStep_nameless hi hname] at hsome
      cases hsome
    · intro hname
      obtain ⟨h', hstep, -⟩ := hi.step hok hname
      rw [hstep]
      rfl

instance (h : DhcpHost) (x : DhcpInput) : Decidable (DhcpOk h x) :=
  decidable_of_iff (x.pages.length = 3 ∧ x.pages.Nodup ∧ (∀ p ∈ x.pages, h.Fresh p) ∧
      x.message.address OPT_SUBNET_MASK ≠ some ipv4BroadcastAddr)
    ⟨fun ⟨h3, hn, hf, hm⟩ => ⟨h3, hn, hf, hm⟩, fun h => ⟨h.three, h.nodup, h.fresh, h.mask⟩⟩

/-- A reply to `02:00:00:00:00:01`. -/
def serverReply (yourIp : Ipv4Addr) (items : List DhcpItem) : DhcpMessage :=
  { DhcpMessage.fromClient 0 ⟨2, 0, 0, 0, 0, 1⟩ items with
    opcode := OP_REPLY, yourIpAddr := yourIp }

/-- An offer, the lease of `10.0.2.15/24` behind `10.0.2.2`, and then one of `10.0.3.7/24` that
    names no router. -/
def twoLeases : List DhcpInput :=
  let server : DhcpItem := DhcpMessage.addressItem OPT_SERVER_ID (.ofBytes 10 0 2 2) (by decide)
  let mask : DhcpItem :=
    DhcpMessage.addressItem OPT_SUBNET_MASK (.ofBytes 255 255 255 0) (by decide)
  let router : DhcpItem := DhcpMessage.addressItem OPT_ROUTER (.ofBytes 10 0 2 2) (by decide)
  [⟨serverReply (.ofBytes 10 0 2 15) [DhcpMessage.typeItem 2, server], [0x2000, 0x3000, 0x4000]⟩,
    ⟨serverReply (.ofBytes 10 0 2 15) [mask, .pad, DhcpMessage.typeItem 5, router],
      [0x2000, 0x3000, 0x4000]⟩,
    ⟨serverReply (.ofBytes 10 0 3 7) [DhcpMessage.typeItem 5, mask], [0x5000, 0x6000, 0x7000]⟩]

/-- The host `02:00:00:00:00:01` with the loopback interface 1. -/
def bootedHost : DhcpHost where
  intf := ⟨⟨2, 0, 0, 0, 0, 1⟩, ⟨0⟩, ⟨0⟩⟩
  dnsServer := ⟨0⟩
  routes := ((loopbackInit RouteTable.empty 0x1000 1).getD RouteTable.empty)
  pages := [0x1000]

/-- A neighbour of the old address is still reached directly, anything else through the old router.
    -/
theorem dhcp_run_routes_two :
    ∃ h, Run (dhcpStep 2) DhcpOk bootedHost twoLeases h ∧ h.intf.ipAddr = .ofBytes 10 0 3 7 ∧
      ∀ (frames : Nat → Nat) (w : SendWorld), w.routes = h.routes →
        ipv4Send frames w (.ofBytes 10 0 2 99) 17 0x9000 =
            some (ipv4IntfSend frames w 2 (.ofBytes 10 0 2 99) (.ofBytes 10 0 2 99)
              17 0x9000 false) ∧
          ipv4Send frames w (.ofBytes 8 8 8 8) 17 0x9000 =
            some (ipv4IntfSend frames w 2 (.ofBytes 10 0 2 2) (.ofBytes 8 8 8 8)
              17 0x9000 false) := by
  have hexec : (Run.exec (dhcpStep 2) DhcpOk bootedHost twoLeases).isSome = true := by
    decide +kernel
  obtain ⟨h, hh⟩ := Option.isSome_iff_exists.mp hexec
  have hrun := Run.of_exec hh
  have hb : Booted 1 bootedHost := ⟨RouteTable.empty, 0x1000, rfl, by decide, by decide, rfl, rfl⟩
  obtain ⟨hsend, hip, -⟩ := dhcp_run_routes 1 2 bootedHost h twoLeases hb hrun
  refine ⟨h, hrun, ?_, fun frames w hw => ?_⟩
  · rw [hip]
    decide +kernel
  -- the address of the first lease is near, the other one is not
  · have hnear : leasesNext 1 2 (granted bootedHost.intf.ethAddr twoLeases) (.ofBytes 10 0 2 99) =
        some (2, .ofBytes 10 0 2 99) := by decide +kernel
    have hfar : leasesNext 1 2 (granted bootedHost.intf.ethAddr twoLeases) (.ofBytes 8 8 8 8) =
        some (2, .ofBytes 10 0 2 2) := by decide +kernel
    rw [hsend frames w _ 17 0x9000 hw, hsend frames w _ 17 0x9000 hw, hnear, hfar]
    exact ⟨rfl, rfl⟩

end MishaOS
