import MishaOS.ForStd.InsertAfter
import MishaOS.ForStd.LinkedList
import MishaOS.Native.Route
import Mathlib.Data.List.GetD

/-!
# Which route a lookup finds

`net_add_route` puts a route behind the first one with a longer mask and
`net_find_route` returns the first match it comes across, but never looks at
the last route of the list.

## Key results

- `netAddRoutes_inv`: the table holds the added routes in the order `place`.
- `net_find_route_longest_iff`: exactly when a lookup returns a longest match.
-/

namespace MishaOS

open LinkedList InsertAfter

/-! ## Netmasks -/

/-- The byte with the first `n` bits set. -/
def byteMask (n : Nat) : BitVec 8 := 0xFF#8 <<< (8 - n)

/-- The netmask of prefix length `n`. -/
def Ipv4Addr.netmask (n : Nat) : Ipv4Addr :=
  .ofBytes (byteMask n) (byteMask (n - 8)) (byteMask (n - 16)) (byteMask (n - 24))

/-- The number of set bits: the prefix length of a netmask. -/
def Ipv4Addr.prefixLen (m : Ipv4Addr) : Nat := (List.range 32).countP m.bits.getLsbD

/-- A netmask: ones followed by zeros in network order. -/
def Ipv4Addr.Contiguous (m : Ipv4Addr) : Prop := ∃ n : Fin 33, m = .netmask n

/-- The words of netmasks, though stored least significant byte first, are
    ordered as their lengths. -/
theorem netmask_lt_iff {a b : Ipv4Addr} (ha : a.Contiguous) (hb : b.Contiguous) :
    a.bits < b.bits ↔ a.prefixLen < b.prefixLen := by
  obtain ⟨n, rfl⟩ := ha
  obtain ⟨m, rfl⟩ := hb
  revert n m
  decide +kernel

/-! ## Tables built by net_add_route -/

/-- The arguments of one call of `net_add_route` and the page it got. -/
structure RouteAdd where
  page : Nat
  dst : Ipv4Addr
  mask : Ipv4Addr
  gateway : Option Ipv4Addr
  intf : Nat
deriving DecidableEq, Repr, Inhabited

/-- A sequence of calls of `net_add_route`. -/
def netAddRoutes (t : RouteTable) (adds : List RouteAdd) : Option RouteTable :=
  adds.foldlM (fun t r => netAddRoute t r.page r.dst r.mask r.gateway r.intf) t

/-- The page allocator hands out distinct non-null pages. -/
structure PagesOk (adds : List RouteAdd) : Prop where
  ne_null : ∀ r ∈ adds, r.page ≠ 0
  lt : ∀ r ∈ adds, r.page < 4294967296
  nodup : (adds.map RouteAdd.page).Nodup

/-- No two routes are at one place. -/
theorem PagesOk.page_injective {adds : List RouteAdd} (h : PagesOk adds) {a b : RouteAdd}
    (ha : a ∈ adds) (hb : b ∈ adds) (hab : a.page = b.page) : a = b :=
  List.inj_on_of_nodup_map h.nodup ha hb hab

/-- The table holds the routes of `l`, in this order. -/
structure RouteInv (t : RouteTable) (l : List RouteAdd) : Prop where
  chain : Chain (fun p => (t.route p).next) 0 t.routeList (l.map RouteAdd.page)
  dst : ∀ r ∈ l, (t.route r.page).dst = r.dst
  mask : ∀ r ∈ l, (t.route r.page).mask = r.mask

variable {t t' : RouteTable} {l : List RouteAdd} {r : RouteAdd} {adds : List RouteAdd}
  {l₁ : List Nat} {z : Nat}

/-- The search for the place of a new route. -/
theorem netAddRoutePrev_spec (mask : Ipv4Addr) {fuel p : Nat}
    (hc : Chain (fun p => (t.route p).next) 0 p (l.map RouteAdd.page))
    (hmask : ∀ r ∈ l, (t.route r.page).mask = r.mask) (hl : l ≠ []) (hfuel : l.length ≤ fuel) :
    ∃ l₁ a l₂, l = l₁ ++ a :: l₂ ∧ netAddRoutePrev t mask fuel p = some a.page ∧
      ∀ x, insertAfter (fun r => mask.bits < r.mask.bits) x l = l₁ ++ a :: x :: l₂ := by
  -- along the list, until a shorter mask is found
  induction l generalizing fuel p with
  | nil => exact absurd rfl hl
  | cons a l ih =>
    obtain ⟨rfl, -, hrest⟩ := hc
    cases fuel with
    | zero => simp at hfuel
    | succ fuel =>
      have hlen : l.length ≤ fuel := by simpa using hfuel
      cases l with
      | nil =>
        have hnext : (t.route a.page).next = 0 := hrest
        refine ⟨[], a, [], rfl, by simp [netAddRoutePrev, hnext], fun x => ?_⟩
        simp [insertAfter]
      | cons b l =>
        have hnext : (t.route a.page).next ≠ 0 := fun h0 => hrest.2.1 (hrest.1.symm.trans h0)
        by_cases hlt : mask.bits < a.mask.bits
        · refine ⟨[], a, b :: l, rfl, ?_, fun x => by simp [insertAfter, hlt]⟩
          simp [netAddRoutePrev, hnext, hmask a List.mem_cons_self, hlt]
        · obtain ⟨l₁, c, l₂, hsplit, hprev, hins⟩ :=
            ih hrest (fun r hr => hmask r (List.mem_cons_of_mem _ hr)) (by simp) hlen
          refine ⟨a :: l₁, c, l₂, by simp [hsplit], ?_, fun x => ?_⟩
          · simp [netAddRoutePrev, hnext, hmask a List.mem_cons_self, hlt, hprev]
          · rw [insertAfter, if_neg (by simpa using hlt), hins x]
            rfl

/-- Two tables that differ in `prev` fields only. -/
def SameButPrev (t t' : RouteTable) : Prop :=
  ∀ p, (t.route p).next = (t'.route p).next ∧ (t.route p).dst = (t'.route p).dst ∧
    (t.route p).mask = (t'.route p).mask

/-- The backward link is written. -/
theorem sameButPrev_setRoute (q prev : Nat) :
    SameButPrev (t.setRoute q { t.route q with prev := prev }) t := by
  intro p
  rw [RouteTable.setRoute_route]
  split
  · rename_i hp
    rw [hp]
    exact ⟨rfl, rfl, rfl⟩
  · exact ⟨rfl, rfl, rfl⟩

/-- What linking writes. -/
theorem netLinkRoute_next {page prev : Nat} (hne : prev ≠ page) (p : Nat) :
    ((netLinkRoute t page prev).route p).next =
        (if p = prev then page else if p = page then (t.route prev).next else (t.route p).next) ∧
      ((netLinkRoute t page prev).route p).dst = (t.route p).dst ∧
      ((netLinkRoute t page prev).route p).mask = (t.route p).mask := by
  unfold netLinkRoute
  generalize ht' : (if (t.route prev).next ≠ 0 then t.setRoute (t.route prev).next
    { t.route (t.route prev).next with prev := page } else t) = t'
  -- the `prev` of the next route is not looked at by the search
  have hsame : SameButPrev t' t := by
    rw [← ht']
    split
    · exact sameButPrev_setRoute _ _
    · exact fun p => ⟨rfl, rfl, rfl⟩
  simp only [ht', RouteTable.setRoute_route]
  -- the route in front, the new one, and the others
  by_cases h1 : p = prev
  · simp [h1, hne, hsame prev]
  · by_cases h2 : p = page
    · simp [h2, hne.symm, hsame prev, hsame page]
    · simp [h1, h2, hsame p]

/-- Linking does not move the start of the list. -/
theorem netLinkRoute_routeList {page prev : Nat} :
    (netLinkRoute t page prev).routeList = t.routeList := by
  simp only [netLinkRoute, RouteTable.setRoute_routeList]
  split <;> rfl

/-- Linking a node that has been written. -/
theorem netLinkRoute_inv {l₁ l₂ : List RouteAdd} {a : RouteAdd}
    (hi : RouteInv t (l₁ ++ a :: l₂)) (hr : r.page ∉ (l₁ ++ a :: l₂).map RouteAdd.page)
    (hr0 : r.page ≠ 0) (hdst : (t.route r.page).dst = r.dst)
    (hmask : (t.route r.page).mask = r.mask) :
    RouteInv (netLinkRoute t r.page a.page) (l₁ ++ a :: r :: l₂) := by
  have hne : a.page ≠ r.page := fun e => hr (by simp [← e])
  have hmem : ∀ x ∈ l₁ ++ a :: r :: l₂, x = r ∨ x ∈ l₁ ++ a :: l₂ := by
    intro x hx
    simp only [List.mem_append, List.mem_cons] at hx ⊢
    tauto
  refine ⟨?_, fun x hx => ?_, fun x hx => ?_⟩
  -- the chain is the old one with one page inserted
  · have hchain : Chain (fun p => (t.route p).next) 0 t.routeList
        (l₁.map RouteAdd.page ++ a.page :: l₂.map RouteAdd.page) := by simpa using hi.chain
    have hins := hchain.insert (by simpa using hr) hr0
    rw [netLinkRoute_routeList, List.map_append, List.map_cons, List.map_cons]
    refine hins.congr fun p _ => ?_
    rw [(netLinkRoute_next hne p).1, Function.update_apply, Function.update_apply]
  · rw [(netLinkRoute_next hne _).2.1]
    rcases hmem x hx with rfl | hx
    · exact hdst
    · exact hi.dst x hx
  · rw [(netLinkRoute_next hne _).2.2]
    rcases hmem x hx with rfl | hx
    · exact hmask
    · exact hi.mask x hx

/-- One call of `net_add_route`. -/
theorem netAddRoute_inv (hi : RouteInv t l) (hr0 : r.page ≠ 0) (hr : r.page ∉ l.map RouteAdd.page)
    (hlt : ∀ x ∈ l, x.page < 4294967296) :
    ∃ t', netAddRoute t r.page r.dst r.mask r.gateway r.intf = some t' ∧
      RouteInv t' (insertAfter (fun x => r.mask.bits < x.mask.bits) r l) := by
  unfold netAddRoute
  generalize hnew : NetRoute.mk 0 0 r.dst r.mask (r.gateway.getD ipv4NullAddr) r.intf = new
  cases l with
  | nil =>
    have hlist : t.routeList = 0 := hi.chain
    refine ⟨_, if_pos hlist, ?_⟩
    subst hnew
    exact ⟨⟨rfl, hr0, by simp⟩, by simp [insertAfter], by simp [insertAfter]⟩
  | cons b l =>
    have hlist : t.routeList ≠ 0 := hi.chain.1.symm ▸ hi.chain.2.1
    -- writing the new node does not disturb the routes that are listed
    have hi' : RouteInv (t.setRoute r.page new) (b :: l) := by
      have hne : ∀ x ∈ b :: l, x.page ≠ r.page := fun x hx e => hr (e ▸ List.mem_map_of_mem hx)
      refine ⟨hi.chain.congr fun x hx => ?_, fun x hx => ?_, fun x hx => ?_⟩
      · obtain ⟨y, hy, rfl⟩ := List.mem_map.mp hx
        simp [hne y hy]
      · simp [hne x hx, hi.dst x hx]
      · simp [hne x hx, hi.mask x hx]
    have hfuel : (b :: l).length ≤ walkFuel := by
      have := hi.chain.length_lt (n := 4294967296) (by decide) (by simpa using hlt)
      rw [List.length_map] at this
      exact Nat.le_of_lt this
    obtain ⟨l₁, a, l₂, hsplit, hprev, hins⟩ :=
      netAddRoutePrev_spec r.mask hi'.chain hi'.mask (by simp) hfuel
    rw [hsplit] at hi' hr
    refine ⟨netLinkRoute (t.setRoute r.page new) r.page a.page, ?_, ?_⟩
    · refine (if_neg hlist).trans ?_
      rw [hprev]
      rfl
    · rw [hins]
      exact netLinkRoute_inv hi' hr hr0 (by simp [← hnew]) (by simp [← hnew])

/-- The prefix length of the `i`-th added route. -/
def maskLen (adds : List RouteAdd) (i : Nat) : Nat := (adds.getD i default).mask.prefixLen

/-- The added routes in the order they stand in the table. -/
def placed (adds : List RouteAdd) (n : Nat) : List RouteAdd :=
  (place (maskLen adds) n).map (adds.getD · default)

/-- One more route is placed. -/
theorem placed_succ {n : Nat} (hn : n < adds.length) (hmask : ∀ r ∈ adds, r.mask.Contiguous) :
    placed adds (n + 1) = insertAfter
      (fun x => (adds.getD n default).mask.bits < x.mask.bits) (adds.getD n default)
      (placed adds n) := by
  have hget : ∀ j < adds.length, (adds.getD j default).mask.Contiguous := fun j hj => by
    rw [List.getD_eq_getElem _ _ hj]
    exact hmask _ (List.getElem_mem hj)
  have hcongr : place (maskLen adds) (n + 1) = insertAfter
      (fun j => (adds.getD n default).mask.bits < (adds.getD j default).mask.bits) n
      (place (maskLen adds) n) := by
    refine insertAfter_congr fun j hj => ?_
    have hj : j < n := (mem_place _).mp hj
    rw [decide_eq_decide, netmask_lt_iff (hget n hn) (hget j (by omega))]
    rfl
  rw [placed, hcongr]
  exact insertAfter_map (adds.getD · default)
    (fun x => (adds.getD n default).mask.bits < x.mask.bits) n _

/-- The table holds the added routes in the order `place` of their mask lengths. -/
theorem netAddRoutes_inv (ht : t.routeList = 0) (hpages : PagesOk adds)
    (hmask : ∀ r ∈ adds, r.mask.Contiguous) :
    ∃ t', netAddRoutes t adds = some t' ∧ RouteInv t' (placed adds adds.length) := by
  -- after `n` calls the first `n` routes are placed
  suffices h : ∀ n ≤ adds.length,
      ∃ t', netAddRoutes t (adds.take n) = some t' ∧ RouteInv t' (placed adds n) by
    simpa using h adds.length (Nat.le_refl _)
  intro n
  induction n with
  | zero => exact fun _ => ⟨t, rfl, ht, by simp [placed, place], by simp [placed, place]⟩
  | succ n ih =>
    intro hn
    obtain ⟨t', hadd, hi⟩ := ih (by omega)
    have hlast : adds.take (n + 1) = adds.take n ++ [adds.getD n default] := by
      rw [List.take_succ_eq_append_getElem hn, List.getD_eq_getElem _ _ hn]
    have hget : adds.getD n default = adds[n] := List.getD_eq_getElem _ _ hn
    have hmem : adds.getD n default ∈ adds := hget ▸ List.getElem_mem hn
    have hplaced : ∀ x ∈ placed adds n, ∃ j < n, ∃ h : j < adds.length, x = adds[j] := by
      intro x hx
      obtain ⟨j, hj, rfl⟩ := List.mem_map.mp hx
      have hj : j < n := (mem_place _).mp hj
      exact ⟨j, hj, by omega, List.getD_eq_getElem _ _ (by omega)⟩
    -- the page is none of those that are in the table
    have hfresh : (adds.getD n default).page ∉ (placed adds n).map RouteAdd.page := by
      intro hx
      obtain ⟨x, hx, hpage⟩ := List.mem_map.mp hx
      obtain ⟨j, hj, hlen, rfl⟩ := hplaced x hx
      have hinj := List.nodup_iff_injective_getElem.mp hpages.nodup
      have := @hinj ⟨j, by rw [List.length_map]; exact hlen⟩ ⟨n,
        by rw [List.length_map]; exact hn⟩ (by
        rw [hget] at hpage
        simpa using hpage)
      simp only [Fin.mk.injEq] at this
      omega
    obtain ⟨t'', hadd', hi'⟩ := netAddRoute_inv hi (hpages.ne_null _ hmem) hfresh fun x hx => by
      obtain ⟨j, -, hlen, rfl⟩ := hplaced x hx
      exact hpages.lt _ (List.getElem_mem hlen)
    refine ⟨t'', ?_, ?_⟩
    · rw [hlast, netAddRoutes, List.foldlM_append]
      rw [netAddRoutes] at hadd
      simp only [hadd, List.foldlM_cons, List.foldlM_nil, Option.bind_eq_bind,
        Option.bind_some, hadd']
      rfl
    -- placing the routes one by one is what `placed` does
    · rw [placed_succ hn hmask]
      exact hi'

/-! ## Lookups -/

/-- The route applies to the destination. -/
def RouteAdd.Matches (r : RouteAdd) (dst : Ipv4Addr) : Prop := dst.bits &&& r.mask.bits = r.dst.bits

instance (r : RouteAdd) (dst : Ipv4Addr) : Decidable (r.Matches dst) :=
  inferInstanceAs (Decidable (_ = _))

/-- The lookup returns the first match in front of the last route. -/
theorem netFindRouteFrom_spec {dst : Ipv4Addr} {fuel p : Nat}
    (hc : Chain (fun p => (t.route p).next) 0 p (l.map RouteAdd.page))
    (hdst : ∀ r ∈ l, (t.route r.page).dst = r.dst) (hmask : ∀ r ∈ l, (t.route r.page).mask = r.mask)
    (hl : l ≠ []) (hfuel : l.length ≤ fuel) :
    netFindRouteFrom t dst fuel p =
      some ((l.dropLast.find? (·.Matches dst)).map RouteAdd.page |>.getD 0) := by
  -- the last route of the list is not looked at
  induction l generalizing fuel p with
  | nil => exact absurd rfl hl
  | cons a l ih =>
    obtain ⟨rfl, ha, hrest⟩ := hc
    cases fuel with
    | zero => simp at hfuel
    | succ fuel =>
      cases l with
      | nil =>
        have hnext : (t.route a.page).next = 0 := hrest
        simp [netFindRouteFrom, ha, hnext]
      | cons b l =>
        have hnext : (t.route a.page).next ≠ 0 := fun h0 => hrest.2.1 (hrest.1.symm.trans h0)
        have hrest' := ih hrest (fun r hr => hdst r (List.mem_cons_of_mem _ hr))
          (fun r hr => hmask r (List.mem_cons_of_mem _ hr)) (by simp) (by simpa using hfuel)
        rw [List.dropLast_cons_cons, List.find?_cons]
        by_cases hm : a.Matches dst
        · have hm' := hm
          unfold RouteAdd.Matches at hm'
          simp [netFindRouteFrom, ha, hnext, hdst a List.mem_cons_self,
            hmask a List.mem_cons_self, hm,
            hm']
        · have hm' := hm
          unfold RouteAdd.Matches at hm'
          simp [netFindRouteFrom, ha, hnext, hdst a List.mem_cons_self,
            hmask a List.mem_cons_self, hm,
            hm', hrest']

/-- The property asked of a lookup: it returns an added route that matches and
    has the longest mask of those that do, and null when none does. -/
def FindsLongest (t : RouteTable) (adds : List RouteAdd) (dst : Ipv4Addr) : Prop :=
  match netFindRoute t dst with
  | none => False
  | some p =>
    if p = 0 then ∀ r ∈ adds, ¬ r.Matches dst
    else ∃ r ∈ adds, r.page = p ∧ r.Matches dst ∧
      ∀ r' ∈ adds, r'.Matches dst → r'.mask.prefixLen ≤ r.mask.prefixLen

/-- Some longest matching route stands in front of every shorter match and in
    front of at least one other route.  Where routes stand is read off the
    order they were added in and their mask lengths. -/
def LongestInFront (adds : List RouteAdd) (dst : Ipv4Addr) : Prop :=
  ∃ i < adds.length, (adds.getD i default).Matches dst ∧
    (∀ j < adds.length, (adds.getD j default).Matches dst → maskLen adds j ≤ maskLen adds i) ∧
    (∃ j < adds.length, Before (maskLen adds) i j) ∧
    ∀ j < adds.length, (adds.getD j default).Matches dst → maskLen adds j < maskLen adds i →
      Before (maskLen adds) i j

/-- The first match in front of the last route is a longest one. -/
theorem find?_longest_iff {dst : Ipv4Addr} (hl : place (maskLen adds) adds.length = l₁ ++ [z]) :
    (∃ i ∈ l₁.find? fun i => (adds.getD i default).Matches dst,
      ∀ j < adds.length, (adds.getD j default).Matches dst → maskLen adds j ≤ maskLen adds i) ↔
    LongestInFront adds dst := by
  have hmem : ∀ i, i < adds.length ↔ i ∈ l₁ ++ [z] := fun i => by rw [← hl, mem_place]
  have hpair := pairwise_place (maskLen adds) adds.length
  rw [hl] at hpair
  constructor
  · rintro ⟨i, hi, hlongest⟩
    obtain ⟨hm, as, bs, rfl, hno⟩ := List.find?_eq_some_iff_append.mp hi
    have hm : (adds.getD i default).Matches dst := by simpa using hm
    rw [List.append_assoc] at hpair
    have hafter := (List.pairwise_cons.mp (List.pairwise_append.mp hpair).2.1).1
    refine ⟨i, (hmem i).mpr (by simp), hm, hlongest, ⟨z, (hmem z).mpr (by simp), ?_⟩, ?_⟩
    · exact hafter z (by simp)
    · intro j hj hmj hlt
      -- a match that is not in front of `i` and is not `i` is behind it
      have hj' := (hmem j).mp hj
      simp only [List.append_assoc, List.cons_append, List.mem_append, List.mem_cons] at hj'
      rcases hj' with hj' | rfl | hj'
      · exact absurd hmj (by simpa using hno j hj')
      · exact absurd hlt (Nat.lt_irrefl _)
      · exact hafter j (by simpa using hj')
  · rintro ⟨i, hi, hm, hlongest, ⟨k, hk, hik⟩, hfront⟩
    have hil : i ∈ l₁ := by
      rcases List.mem_append.mp ((hmem i).mp hi) with h | h
      · exact h
      -- the last route is in front of none
      · obtain rfl := List.mem_singleton.mp h
        rcases List.mem_append.mp ((hmem k).mp hk) with h' | h'
        · exact absurd hik ((List.pairwise_append.mp hpair).2.2 k h' i (by simp)).asymm
        · exact absurd (List.mem_singleton.mp h' ▸ hik) Before.irrefl
    obtain ⟨f, hf⟩ : ∃ f, l₁.find? (fun i => (adds.getD i default).Matches dst) = some f := by
      rw [← Option.isSome_iff_exists, List.find?_isSome]
      exact ⟨i, hil, by simpa using hm⟩
    obtain ⟨hmf, as, bs, rfl, hno⟩ := List.find?_eq_some_iff_append.mp hf
    have hmf : (adds.getD f default).Matches dst := by simpa using hmf
    refine ⟨f, hf, fun j hj hmj => ?_⟩
    have hge : maskLen adds i ≤ maskLen adds f := by
      by_contra hlt
      have hif := hfront f ((hmem f).mpr (by simp)) hmf (by omega)
      rw [List.append_assoc] at hpair
      have hafter := (List.pairwise_cons.mp (List.pairwise_append.mp hpair).2.1).1
      simp only [List.mem_append, List.mem_cons] at hil
      rcases hil with hil | rfl | hil
      · exact absurd hm (by simpa using hno i hil)
      · exact Before.irrefl hif
      · exact (hafter i (by simp [hil])).asymm hif
    exact Nat.le_trans (hlongest j hj hmj) hge

/-- What `net_find_route` returns on a table with at least one route. -/
theorem netFindRoute_eq {dst : Ipv4Addr} (hi : RouteInv t (placed adds adds.length))
    (hpages : PagesOk adds) (hl : place (maskLen adds) adds.length = l₁ ++ [z]) :
    netFindRoute t dst = some (((l₁.find? fun i => (adds.getD i default).Matches dst).map
      fun i => (adds.getD i default).page).getD 0) := by
  -- the pages are below 4 GiB, so the fuel is enough
  have hfuel : (placed adds adds.length).length ≤ walkFuel := by
    have hlt : ∀ p ∈ (placed adds adds.length).map RouteAdd.page, p < 4294967296 := by
      intro p hp
      obtain ⟨r, hr, rfl⟩ := List.mem_map.mp hp
      obtain ⟨j, hj, rfl⟩ := List.mem_map.mp hr
      have hj : j < adds.length := (mem_place _).mp hj
      rw [List.getD_eq_getElem _ _ hj]
      exact hpages.lt _ (List.getElem_mem hj)
    have := hi.chain.length_lt (by decide) hlt
    rw [List.length_map] at this
    exact Nat.le_of_lt this
  rw [netFindRoute, netFindRouteFrom_spec hi.chain hi.dst hi.mask (by simp [placed, hl]) hfuel]
  simp only [placed, hl, List.map_append, List.map_cons, List.map_nil, List.dropLast_concat,
    List.find?_map, Option.map_map]
  rfl

/-- Exactly when a lookup finds a longest match. -/
theorem net_find_route_longest_iff (t : RouteTable) (adds : List RouteAdd) (dst : Ipv4Addr)
    (ht : t.routeList = 0) (hpages : PagesOk adds) (hmask : ∀ r ∈ adds, r.mask.Contiguous) :
    ∃ t', netAddRoutes t adds = some t' ∧
      (FindsLongest t' adds dst ↔
        adds ≠ [] ∧ ((∀ r ∈ adds, ¬ r.Matches dst) ∨ LongestInFront adds dst)) := by
  obtain ⟨t', hadd, hi⟩ := netAddRoutes_inv ht hpages hmask
  refine ⟨t', hadd, ?_⟩
  have hget : ∀ i < adds.length, adds.getD i default ∈ adds := fun i hlt => by
    rw [List.getD_eq_getElem _ _ hlt]
    exact List.getElem_mem hlt
  rcases List.eq_nil_or_concat (place (maskLen adds) adds.length) with hnil | ⟨l₁, z, hl⟩
  · -- no routes: the lookup reads through the null pointer
    have hempty : adds = [] := by
      have := (place_perm (maskLen adds) adds.length).length_eq
      rw [hnil, List.length_range] at this
      exact List.length_eq_zero_iff.mp this.symm
    subst hempty
    have hlist : t'.routeList = 0 := hi.chain
    simp [FindsLongest, netFindRoute, hlist, walkFuel, netFindRouteFrom]
  · rw [List.concat_eq_append] at hl
    have hne : adds ≠ [] := by
      rintro rfl
      simp [place] at hl
    have hz : ∀ i ∈ l₁, i < adds.length := fun i hi' =>
      (mem_place (maskLen adds)).mp (by rw [hl]; simp [hi'])
    -- what matches first is the longest, when nothing longer is last
    rw [← find?_longest_iff hl]
    simp only [FindsLongest, netFindRoute_eq hi hpages hl, ne_eq, hne, not_false_eq_true, true_and]
    -- nothing in front matches, or the route `i` is the first that does
    cases hf : l₁.find? fun i => decide ((adds.getD i default).Matches dst) with
    | none => simp
    | some i =>
      have hm : (adds.getD i default).Matches dst := by simpa using List.find?_some hf
      have hi' : i < adds.length := hz i (List.mem_of_find?_eq_some hf)
      have hp0 := hpages.ne_null _ (hget i hi')
      simp only [Option.map_some, Option.getD_some, if_neg hp0, Option.mem_def, Option.some.injEq,
        exists_eq_left']
      constructor
      · rintro ⟨r, hr, hpage, -, hlongest⟩
        obtain rfl : r = adds.getD i default := hpages.page_injective hr (hget i hi') hpage
        exact .inr fun j hj hmj => hlongest _ (hget j hj) hmj
      · rintro (hno | hlongest)
        · exact absurd hm (hno _ (hget i hi'))
        · refine ⟨_, hget i hi', rfl, hm, fun r' hr' hm' => ?_⟩
          obtain ⟨j, hj, rfl⟩ := List.getElem_of_mem hr'
          rw [← List.getD_eq_getElem _ default hj] at hm' ⊢
          exact hlongest j hj hm'

/-- The routes of a host `10.0.2.15/24` behind the gateway `10.0.2.2`: what
    `loopback_init` and then `dhcp_ack` add. -/
def dhcpRoutes : List RouteAdd := [
  ⟨0x1000, .ofBytes 127 0 0 1, .netmask 32, none, 1⟩,
  ⟨0x2000, ipv4NullAddr, .netmask 0, some (.ofBytes 10 0 2 2), 2⟩,
  ⟨0x3000, .ofBytes 10 0 2 0, .netmask 24, none, 2⟩,
  ⟨0x4000, .ofBytes 10 0 2 15, .netmask 32, none, 2⟩]

def RouteTable.empty : RouteTable := ⟨0, fun _ => ⟨0, 0, ⟨0⟩, ⟨0⟩, ⟨0⟩, 0⟩⟩

/-- The routes of a lease at their places. -/
theorem dhcpRoutes_pagesOk : PagesOk dhcpRoutes := ⟨by decide, by decide, by decide⟩

/-- Their masks have no gaps. -/
theorem dhcpRoutes_contiguous : ∀ r ∈ dhcpRoutes, r.mask.Contiguous := by
  simp only [dhcpRoutes, List.forall_mem_cons]
  exact ⟨⟨32, rfl⟩, ⟨0, rfl⟩, ⟨24, rfl⟩, ⟨32, rfl⟩, by simp⟩

/-- A neighbour is reached directly. -/
theorem net_find_route_longest_neighbour :
    ∃ t', netAddRoutes RouteTable.empty dhcpRoutes = some t' ∧
      FindsLongest t' dhcpRoutes (.ofBytes 10 0 2 7) := by
  obtain ⟨t', hadd, hiff⟩ := net_find_route_longest_iff RouteTable.empty dhcpRoutes
    (.ofBytes 10 0 2 7) rfl dhcpRoutes_pagesOk dhcpRoutes_contiguous
  refine ⟨t', hadd, hiff.mpr ⟨by simp [dhcpRoutes], .inr ?_⟩⟩
  unfold LongestInFront
  decide +kernel

/-- A lookup of the host's own address finds the route of its network: the host
    route is the last one of the list. -/
theorem net_find_route_skips_host_route :
    ¬ ∀ (t : RouteTable) (adds : List RouteAdd) (dst : Ipv4Addr) (t' : RouteTable),
      t.routeList = 0 → PagesOk adds →
      (∀ r ∈ adds, r.mask.Contiguous ∧ r.dst.bits &&& r.mask.bits = r.dst.bits) →
      netAddRoutes t adds = some t' → FindsLongest t' adds dst := by
  intro hall
  have hrun : ((netAddRoutes RouteTable.empty dhcpRoutes).bind
      (netFindRoute · (.ofBytes 10 0 2 15))) = some 0x3000 := by decide +kernel
  obtain ⟨t', hadd, hfind⟩ := Option.bind_eq_some_iff.mp hrun
  have hmasked : ∀ r ∈ dhcpRoutes, r.dst.bits &&& r.mask.bits = r.dst.bits := by decide +kernel
  have hlongest := hall _ _ (.ofBytes 10 0 2 15) t' rfl dhcpRoutes_pagesOk
    (fun r hr => ⟨dhcpRoutes_contiguous r hr, hmasked r hr⟩) hadd
  simp only [FindsLongest, hfind] at hlongest
  revert hlongest
  decide +kernel

end MishaOS
