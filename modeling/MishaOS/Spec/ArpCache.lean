import MishaOS.ForStd.FifoTable
import MishaOS.Spec.ArpOwnership

/-!
# What the ARP cache remembers

The cache is a table of sixteen entries that forgets the oldest one.  A slot
without an address is free; the address 0.0.0.0 is looked up and added like any
other, but the slot it takes stays free.

## Key results

- `arpRun_law`: addresses once each and in the order of insertion, the hardware
  address heard last.
- `losesOldest_iff`: a call drops an entry for a new one only, unless it adds
  0.0.0.0 to a full cache.
- `arp_cache_law`: both for a whole run.
-/

namespace MishaOS

open FifoTable

variable {c c' : ArpCache} {l : List (Entry Ipv4Addr EthAddr)} {a pa : Ipv4Addr}
    {ha : EthAddr} {i j : Fin 16}

/-! ## The slots as a table -/

/-- The slots of the cache are the entries of `l`, and free slots behind them. -/
structure Remembers (c : ArpCache) (l : List (Entry Ipv4Addr EthAddr)) : Prop where
  length_le : l.length ≤ 16
  slot : ∀ (i : Fin 16) x, l[i.val]? = some x → (c i).pa = x.key ∧ (c i).ha = x.value
  rest : ∀ i : Fin 16, l.length ≤ i.val → (c i).pa = ipv4NullAddr
  nonzero : ∀ x ∈ l, x.key ≠ ipv4NullAddr

/-- Comparing the words of two addresses compares the addresses. -/
theorem Ipv4Addr.bits_eq_iff (a b : Ipv4Addr) : a.bits = b.bits ↔ a = b :=
  ⟨congrArg Ipv4Addr.mk, congrArg Ipv4Addr.bits⟩

/-- The word 0 is the null address. -/
theorem Ipv4Addr.bits_eq_zero (a : Ipv4Addr) : a.bits = 0 ↔ a = ipv4NullAddr :=
  a.bits_eq_iff ipv4NullAddr

/-- The packets in the entries do not matter. -/
theorem Remembers.congr (h : Remembers c l)
    (hc : ∀ i, (c' i).pa = (c i).pa ∧ (c' i).ha = (c i).ha) :
    Remembers c' l where
  length_le := h.length_le
  slot i x hx := by
    obtain ⟨hpa, hha⟩ := h.slot i x hx
    exact ⟨(hc i).1.trans hpa, (hc i).2.trans hha⟩
  rest i hi := (hc i).1.trans (h.rest i hi)
  nonzero := h.nonzero

/-- The slots show the list in its order. -/
theorem Remembers.entry (h : Remembers c l) (hi : i.val < l.length) :
    (c i).pa = l[i.val].key ∧ (c i).ha = l[i.val].value :=
  h.slot i l[i.val] (List.getElem?_eq_getElem hi)

/-- The slots with an address are those of the list. -/
theorem Remembers.used_iff (h : Remembers c l) : (c i).pa ≠ ipv4NullAddr ↔ i.val < l.length := by
  constructor
  · intro hi
    by_contra hge
    exact hi (h.rest i (Nat.le_of_not_lt hge))
  · intro hlt
    rw [(h.entry hlt).1]
    exact h.nonzero _ (List.getElem_mem hlt)

/-- Some slot has the address. -/
def Cached (c : ArpCache) (pa : Ipv4Addr) : Prop := ∃ i, (c i).pa = pa

/-- An address is in the cache if and only if it is in the list. -/
theorem Remembers.cached_iff (h : Remembers c l) (hpa : pa ≠ ipv4NullAddr) :
    Cached c pa ↔ pa ∈ l.map Entry.key := by
  constructor
  · intro ⟨i, hi⟩
    have hlt : i.val < l.length := h.used_iff.mp (hi ▸ hpa)
    exact List.mem_map.mpr ⟨l[i.val], List.getElem_mem hlt, (h.entry hlt).1.symm.trans hi⟩
  · intro hmem
    obtain ⟨x, hx, rfl⟩ := List.mem_map.mp hmem
    obtain ⟨n, hn, hnx⟩ := List.getElem_of_mem hx
    have hlen := h.length_le
    exact ⟨⟨n, by omega⟩, (h.slot ⟨n, by omega⟩ x (hnx ▸ List.getElem?_eq_getElem hn)).1⟩

/-- An address without a slot is the key of no entry. -/
theorem Remembers.notMem (h : Remembers c l) (hnot : ¬ Cached c pa) : pa ∉ l.map Entry.key := by
  intro hmem
  obtain ⟨x, hx, hkey⟩ := List.mem_map.mp hmem
  exact hnot ((h.cached_iff (hkey ▸ h.nonzero x hx)).mpr hmem)

/-- `arp_lookup` finds nothing if and only if the address is not in the cache. -/
theorem arpLookup_eq_none : arpLookup c a = none ↔ ¬ Cached c a := by
  unfold arpLookup Cached
  rw [List.find?_eq_none]
  simp only [List.mem_finRange, true_implies, decide_eq_true_eq, Ipv4Addr.bits_eq_iff, not_exists]

/-- The first free slot is the one behind the last entry. -/
theorem Remembers.firstEmpty (h : Remembers c l) :
    firstEmpty c = if hlt : l.length < 16 then some ⟨l.length, hlt⟩ else none := by
  -- the slots in use are those of the entries
  have hused : ∀ i : Fin 16, i.val < l.length → (c i).pa.bits ≠ 0 := by
    intro i hi
    rw [ne_eq, Ipv4Addr.bits_eq_zero]
    exact h.used_iff.mpr hi
  unfold MishaOS.firstEmpty
  split
  · rename_i hlt
    rw [List.find?_eq_some_iff_getElem]
    refine ⟨?_, l.length, by simpa using hlt, ?_, fun n hn => ?_⟩
    · rw [decide_eq_true_eq, Ipv4Addr.bits_eq_zero]
      exact h.rest _ (Nat.le_refl _)
    · exact List.getElem_finRange _
    · rw [List.getElem_finRange]
      simpa using hused ⟨n, by omega⟩ hn
  · rename_i hfull
    rw [List.find?_eq_none]
    intro i _
    have hlt := i.isLt
    have hbits := hused i (by omega)
    simpa using hbits

/-! ## Edits of the table -/

/-- An entry is overwritten in its place. -/
theorem Remembers.refresh (h : Remembers c l) (hi : arpLookup c a = some i)
    (hkeys : (l.map Entry.key).Nodup)
    (ha : EthAddr) : Remembers (Function.update c i { c i with ha := ha }) (refresh l a ha) := by
  -- the slot that is written is the one of the address
  have hia := arpLookup_eq_some hi
  have hlen := length_refresh l a ha
  constructor
  · exact hlen ▸ h.length_le
  · intro j x hx
    obtain ⟨y, hy, rfl⟩ : ∃ y, l[j.val]? = some y ∧
        (if y.key = a then { y with value := ha } else y) = x := by
      simpa [FifoTable.refresh] using hx
    obtain ⟨hpa, hha⟩ := h.slot j y hy
    obtain rfl | hne := eq_or_ne j i
    · rw [Function.update_self, if_pos (hpa.symm.trans hia)]
      exact ⟨hpa, rfl⟩
    · -- the address is in one slot only
      have hkey : y.key ≠ a := by
        intro hya
        have hia' : (c i).pa = y.key := hia.trans hya.symm
        have hlt : i.val < l.length := h.used_iff.mp (hia' ▸ h.nonzero y (List.mem_of_getElem? hy))
        have hxi : (l[i.val]).key = y.key := (h.entry hlt).1.symm.trans hia'
        exact hne (Fin.ext (index_unique hkeys hy (List.getElem?_eq_getElem hlt) hxi.symm))
      rw [Function.update_of_ne hne, if_neg hkey]
      exact ⟨hpa, hha⟩
  -- behind the entries every slot is free, also the one that is written
  · intro j hj
    have hnull := h.rest j (hlen ▸ hj)
    obtain rfl | hne := eq_or_ne j i
    · rw [Function.update_self]
      exact hnull
    · rw [Function.update_of_ne hne]
      exact hnull
  · intro x hx
    obtain ⟨y, hy, hkey, -⟩ := mem_refresh hx
    exact hkey ▸ h.nonzero y hy

/-- A full cache is shifted, so each slot has what the next one had. -/
theorem Remembers.shift (h : Remembers c l) (hi : i.val < 15) (x : Entry Ipv4Addr EthAddr)
    (hx : l.tail[i.val]? = some x) : (arpShift c i).pa = x.key ∧ (arpShift c i).ha = x.value := by
  have hlt : i.val + 1 < 16 := by omega
  rw [List.getElem?_tail] at hx
  rw [arpShift, dif_pos hlt]
  exact h.slot ⟨i.val + 1, hlt⟩ x hx

/-- A new entry goes to the end, behind the loss of the oldest one when there is no room. -/
theorem Remembers.add (h : Remembers c l) (ha : EthAddr) (hpa : pa ≠ ipv4NullAddr) (n : Nat) :
    Remembers (arpAdd c ha pa).2 (room 16 l ++ [⟨pa, ha, n⟩]) := by
  have hempty := h.firstEmpty
  have hlen := h.length_le
  have hnonzero : ∀ x ∈ room 16 l ++ [⟨pa, ha, n⟩], x.key ≠ ipv4NullAddr := by
    intro x hx
    rcases List.mem_append.mp hx with hx | hx
    · exact h.nonzero x ((room_sublist 16 l).subset hx)
    · obtain rfl := List.mem_singleton.mp hx
      exact hpa
  -- an entry is dropped before one is added
  have hlength : (room 16 l ++ [(⟨pa, ha, n⟩ : Entry Ipv4Addr EthAddr)]).length ≤ 16 := by
    have hroom := length_room (l := l) (by decide : 0 < 16) hlen
    rw [List.length_append, List.length_singleton]
    omega
  rcases arpAdd_eq c ha pa with ⟨i, hi, heq⟩ | ⟨hi, heq⟩
  · rw [hi] at hempty
    split at hempty
    · -- a free slot: the one behind the entries
      rename_i hlt
      obtain rfl := Option.some.inj hempty
      have hroom : room 16 l = l := if_neg (by omega)
      rw [heq]
      dsimp only
      refine ⟨hlength, fun j x hx => ?_, fun j hj => ?_, hnonzero⟩
      · rw [hroom] at hx
        rcases Nat.lt_trichotomy j.val l.length with hj | hj | hj
        · rw [List.getElem?_append_left hj] at hx
          rw [Function.update_of_ne (Fin.ne_of_val_ne (Nat.ne_of_lt hj))]
          exact h.slot j x hx
        · have hji : j = ⟨l.length, hlt⟩ := Fin.ext hj
          rw [List.getElem?_append_right (by omega), hj, Nat.sub_self] at hx
          obtain rfl := Option.some.inj hx
          rw [hji, Function.update_self]
          exact ⟨rfl, rfl⟩
        · rw [List.getElem?_eq_none (by simp; omega)] at hx
          cases hx
      · rw [hroom, List.length_append, List.length_singleton] at hj
        rw [Function.update_of_ne (Fin.ne_of_val_ne (by simp; omega))]
        exact h.rest j (by omega)
    · cases hempty
  · -- none: the entries move down by one, and the last slot is written
    have hfull : l.length = 16 := by
      by_contra hne
      rw [hi, dif_pos (by omega)] at hempty
      cases hempty
    have hroom : room 16 l = l.tail := if_pos hfull
    have htail : l.tail.length = 15 := by rw [List.length_tail, hfull]
    rw [heq]
    dsimp only
    refine ⟨hlength, fun j x hx => ?_, fun j hj => ?_, hnonzero⟩
    · rw [hroom] at hx
      by_cases hj : j.val < 15
      · rw [List.getElem?_append_left (by omega)] at hx
        rw [Function.update_of_ne (Fin.ne_of_val_ne (Nat.ne_of_lt hj))]
        exact h.shift hj x hx
      · obtain rfl : j = 15 := Fin.ext (by have := j.isLt; omega)
        rw [List.getElem?_append_right (by omega), htail] at hx
        obtain rfl := Option.some.inj hx
        rw [Function.update_self]
        exact ⟨rfl, rfl⟩
    · rw [hroom, List.length_append, htail, List.length_singleton] at hj
      have := j.isLt
      omega

/-- The address 0.0.0.0 is only added to a full cache, and leaves the last slot free. -/
theorem Remembers.add_null (h : Remembers c l) (ha : EthAddr) (hfull : l.length = 16) :
    Remembers (arpAdd c ha ipv4NullAddr).2 (room 16 l) := by
  have hempty := h.firstEmpty
  rw [dif_neg (by omega)] at hempty
  have hroom : room 16 l = l.tail := if_pos hfull
  have htail : l.tail.length = 15 := by rw [List.length_tail, hfull]
  -- the cache is full, so no slot is free
  rcases arpAdd_eq c ha ipv4NullAddr with ⟨i, hi, -⟩ | ⟨-, heq⟩
  · rw [hi] at hempty
    exact nomatch hempty
  · rw [heq, hroom]
    dsimp only
    refine ⟨by omega, fun j x hx => ?_, fun j hj => ?_,
      fun x hx => h.nonzero x (List.mem_of_mem_tail hx)⟩
    -- the others have moved down by one
    · have hj : j.val < 15 := htail ▸ (List.getElem?_eq_some_iff.mp hx).1
      rw [Function.update_of_ne (Fin.ne_of_val_ne (Nat.ne_of_lt hj))]
      exact h.shift hj x hx
    · obtain rfl : j = 15 := Fin.ext (by have := j.isLt; omega)
      rw [Function.update_self]

/-! ## Calls -/

inductive ArpOp
  /-- `arp_recv` -/
  | recv (intf : Nat) (data : List Byte)
  /-- `arp_request` -/
  | request (intf : Nat) (tpa : Ipv4Addr) (ethertype : BitVec 16) (packet : Nat)

def arpStep (frames : Nat → Nat) (w : NetWorld) : ArpOp → NetWorld
  | .recv intf data => arpRecv frames w intf data
  | .request intf tpa ethertype packet => arpRequest frames w intf tpa ethertype packet

/-- Who sent the packet, if it has the format of an ARP packet. -/
def arpSender (data : List Byte) : Option (Ipv4Addr × EthAddr) :=
  if data.length < 28 ∨ readBe16 data ≠ ARP_HTYPE_ETH ∨ readBe16 (data.drop 2) ≠ ET_IPV4 then none
  else some (Ipv4Addr.read (data.drop 14), EthAddr.read (data.drop 8))

/-- The sender of the ARP packet that is received. -/
def ArpOp.hears : ArpOp → Option (Ipv4Addr × EthAddr)
  | .recv _ data => arpSender data
  | .request .. => none

/-- The hardware address that is heard from `pa`. -/
def ArpOp.heardFrom (pa : Ipv4Addr) (op : ArpOp) : Option EthAddr :=
  op.hears.bind fun s => if s.1 = pa then some s.2 else none

/-- The address that gets an entry if it has none: the one asked for, or the sender of a packet
    for this interface. -/
def ArpOp.adds (w : NetWorld) : ArpOp → Option Ipv4Addr
  | .recv intf data => (arpSender data).bind fun s =>
      if (Ipv4Addr.read (data.drop 24)).bits = (w.intf intf).ipAddr.bits then some s.1 else none
  | .request _ tpa _ _ => some tpa

variable {w : NetWorld} {frames : Nat → Nat} {intf : Nat} {data : List Byte}
    {s : Ipv4Addr × EthAddr} {op : ArpOp}

/-- Only the addresses of the entries are compared. -/
def SameAddrs (c c' : ArpCache) : Prop := ∀ i, (c' i).pa = (c i).pa ∧ (c' i).ha = (c i).ha

/-- The packet that waits is no part of the addresses. -/
theorem sameAddrs_setEntry {x : ArpEntry} (hpa : x.pa = (w.cache i).pa)
    (hha : x.ha = (w.cache i).ha) :
    SameAddrs w.cache (w.setEntry i x).cache := by
  intro j
  show (Function.update w.cache i x j).pa = _ ∧ (Function.update w.cache i x j).ha = _
  obtain rfl | hne := eq_or_ne j i
  · rw [Function.update_self]
    exact ⟨hpa, hha⟩
  · rw [Function.update_of_ne hne]
    exact ⟨rfl, rfl⟩

/-- Sending does not touch the cache. -/
theorem arpSend_cache (w : NetWorld) (intf : Nat) (op : BitVec 16) (tha : EthAddr)
    (tpa : Ipv4Addr) :
    (arpSend frames w intf op tha tpa).cache = w.cache := rfl

/-- `arp_request` only makes an entry. -/
theorem arpRequest_cache (frames : Nat → Nat) (w : NetWorld) (intf : Nat) (tpa : Ipv4Addr)
    (ethertype : BitVec 16) (packet : Nat) :
    SameAddrs (arpRequestEntry w.cache tpa).2
      (arpRequest frames w intf tpa ethertype packet).cache := by
  unfold arpRequest
  rw [arpSend_cache]
  generalize arpRequestEntry w.cache tpa = e
  dsimp only
  -- the packet that waited in the slot is released first
  have hfree : ∀ w : NetWorld, (if (w.cache e.1).packet ≠ 0 then arpFreePacket w e.1 else w).cache =
      w.cache := by
    intro w
    split <;> rfl
  have hv : (if (e.2 e.1).packet ≠ 0 then arpFreePacket { w with cache := e.2 } e.1
      else { w with cache := e.2 }).cache = e.2 := hfree { w with cache := e.2 }
  generalize (if (e.2 e.1).packet ≠ 0 then arpFreePacket { w with cache := e.2 } e.1
      else { w with cache := e.2 }) = v at hv ⊢
  rw [← hv]
  exact sameAddrs_setEntry rfl rfl

/-- A packet for an address with an entry is sent, and no entry is added. -/
theorem ethIntfSend_cache (frames : Nat → Nat) (intf p : Nat) {dst : List Byte}
    (ethertype : BitVec 16)
    (hl : arpLookup w.cache (Ipv4Addr.read dst) = some i) :
    (ethIntfSend frames w intf dst ethertype p).cache = w.cache := by
  unfold ethIntfSend
  split
  · rfl
  · split
    · dsimp only
      split
      · rfl
      · rw [arpLookupEthAddr, hl]
        rfl
    · rfl

/-- The entry of the sender is overwritten. -/
theorem arpRecvMerge_cache (sha : EthAddr) {spa : List Byte}
    (hl : arpLookup w.cache (Ipv4Addr.read spa) = some i) :
    SameAddrs (Function.update w.cache i { w.cache i with ha := sha })
      (arpRecvMerge frames w sha spa i).cache := by
  have hl' : arpLookup (w.setEntry i { w.cache i with ha := sha }).cache (Ipv4Addr.read spa) =
      some i :=
    (arpLookup_setHa sha).trans hl
  unfold arpRecvMerge
  dsimp only
  change SameAddrs (w.setEntry i { w.cache i with ha := sha }).cache _
  generalize w.setEntry i { w.cache i with ha := sha } = w' at hl'
  -- sending the packet that has waited changes no address
  split
  · have hsend := ethIntfSend_cache frames (w'.cache i).intf (w'.cache i).packet
      (w'.cache i).ethertype hl'
    generalize ethIntfSend frames w' (w'.cache i).intf spa (w'.cache i).ethertype
      (w'.cache i).packet = w'' at hsend
    rw [← hsend]
    exact sameAddrs_setEntry rfl rfl
  · exact fun j => ⟨rfl, rfl⟩

/-- The sender is added when it is not there. -/
theorem arpRecvTarget_cache (w : NetWorld) (intf : Nat) (merge : Bool) (op : BitVec 16)
    (sha : EthAddr)
    (spa : Ipv4Addr) : (arpRecvTarget frames w intf merge op sha spa).cache =
      if merge then w.cache else (arpAdd w.cache sha spa).2 := by
  -- a reply leaves the cache as it is
  have hreply : ∀ v : NetWorld,
      (if op = ARP_OP_REQUEST then arpReply frames v intf sha spa else v).cache = v.cache := by
    intro v
    split <;> rfl
  unfold arpRecvTarget
  dsimp only
  rw [hreply]
  cases merge <;> rfl

/-- A packet with a sender is long enough and of the right kinds. -/
theorem arpSender_eq_some {data : List Byte} {s : Ipv4Addr × EthAddr}
    (h : arpSender data = some s) :
    (28 ≤ data.length ∧ readBe16 data = ARP_HTYPE_ETH ∧ readBe16 (data.drop 2) = ET_IPV4) ∧
      Ipv4Addr.read (data.drop 14) = s.1 ∧ EthAddr.read (data.drop 8) = s.2 := by
  unfold arpSender at h
  split at h
  · exact nomatch h
  · rename_i hformat
    rw [← Option.some.inj h]
    exact ⟨by simpa [not_or] using hformat, rfl, rfl⟩

/-- Any other packet is ignored. -/
theorem arpRecv_no_sender (hs : arpSender data = none) : arpRecv frames w intf data = w := by
  have hformat : data.length < 28 ∨ readBe16 data ≠ ARP_HTYPE_ETH ∨
      readBe16 (data.drop 2) ≠ ET_IPV4 := by
    by_contra hnot
    exact nomatch (if_neg hnot).symm.trans hs
  unfold arpRecv
  split
  · rfl
  · exact if_pos (by tauto)

/-- A sender with an entry. -/
theorem arpRecv_known (hs : arpSender data = some s) (hl : arpLookup w.cache s.1 = some i) :
    SameAddrs (Function.update w.cache i { w.cache i with ha := s.2 })
      (arpRecv frames w intf data).cache := by
  obtain ⟨⟨hlen, hhtype, hptype⟩, hpa, hha⟩ := arpSender_eq_some hs
  unfold arpRecv
  -- the packet is accepted, and its sender is the one of `hs`
  rw [if_neg (by omega), if_neg (by simp [hhtype, hptype]; omega)]
  dsimp only
  rw [hpa, hha]
  have hlookup : arpLookup (w.emit (.arpRecv s.1 s.2)).cache s.1 = some i := hl
  have hmerge : SameAddrs (Function.update w.cache i { w.cache i with ha := s.2 })
      (arpRecvMerge frames (w.emit (.arpRecv s.1 s.2)) s.2 (data.drop 14) i).cache :=
    arpRecvMerge_cache (w := w.emit (.arpRecv s.1 s.2)) s.2 (by rw [hpa]; exact hlookup)
  rw [hlookup]
  dsimp only
  split
  · rw [arpRecvTarget_cache, if_pos rfl]
    exact hmerge
  · exact hmerge

/-- A sender without an entry. -/
theorem arpRecv_new (hs : arpSender data = some s) (hl : arpLookup w.cache s.1 = none) :
    (arpRecv frames w intf data).cache =
      if (Ipv4Addr.read (data.drop 24)).bits = (w.intf intf).ipAddr.bits
        then (arpAdd w.cache s.2 s.1).2
      else w.cache := by
  obtain ⟨⟨hlen, hhtype, hptype⟩, hpa, hha⟩ := arpSender_eq_some hs
  unfold arpRecv
  rw [if_neg (by omega), if_neg (by simp [hhtype, hptype]; omega)]
  dsimp only
  rw [hpa, hha]
  have hlookup : arpLookup (w.emit (.arpRecv s.1 s.2)).cache s.1 = none := hl
  rw [hlookup]
  dsimp only
  -- the sender is added when the packet asks for our address
  by_cases htarget : (Ipv4Addr.read (data.drop 24)).bits = (w.intf intf).ipAddr.bits
  · rw [if_pos htarget]
    exact (congrArg NetWorld.cache (if_pos htarget)).trans
      (arpRecvTarget_cache _ intf false _ s.2 s.1)
  · rw [if_neg htarget]
    exact (congrArg NetWorld.cache (if_neg htarget)).trans rfl

/-! ## One call -/

/-- The new entry: none for the address 0.0.0.0. -/
def newEntry (pa : Ipv4Addr) (ha : EthAddr) (now : Nat) : List (Entry Ipv4Addr EthAddr) :=
  if pa = ipv4NullAddr then [] else [⟨pa, ha, now⟩]

/-- Adding an address without an entry, also 0.0.0.0: this has none only if no slot is free. -/
theorem Remembers.addNew (h : Remembers c l) (ha : EthAddr) (hnot : ¬ Cached c pa) (n : Nat) :
    Remembers (arpAdd c ha pa).2 (room 16 l ++ newEntry pa ha n) := by
  unfold newEntry
  split
  · rename_i hpa
    subst hpa
    have hfull : l.length = 16 := by
      by_contra hne
      have hlen := h.length_le
      exact hnot ⟨⟨l.length, by omega⟩, h.rest _ (Nat.le_refl _)⟩
    rw [List.append_nil]
    exact h.add_null ha hfull
  · rename_i hpa
    exact h.add ha hpa n

/-- The new address is in the cache. -/
theorem Remembers.cached_new {n : Nat} (h : Remembers c (l ++ newEntry pa ha n))
    (hl : l.length < 16) : Cached c pa := by
  by_cases hpa : pa = ipv4NullAddr
  · rw [newEntry, if_pos hpa, List.append_nil] at h
    exact ⟨⟨l.length, hl⟩, (h.rest _ (Nat.le_refl _)).trans hpa.symm⟩
  · rw [h.cached_iff hpa, newEntry, if_neg hpa]
    simp

/-- What one call does to the cache: nothing, or the hardware address of the sender is replaced,
    or an address without an entry is added. -/
theorem arpStep_spec (frames : Nat → Nat) (h : Remembers w.cache l)
    (hkeys : (l.map Entry.key).Nodup)
    (op : ArpOp) (n : Nat) :
    (op.hears = none ∧ (∀ a, op.adds w = some a → Cached w.cache a) ∧
      Remembers (arpStep frames w op).cache l) ∨
    (∃ s, op.hears = some s ∧ (∀ a, op.adds w = some a → Cached w.cache a) ∧
      Remembers (arpStep frames w op).cache (refresh l s.1 s.2)) ∨
    (∃ a, op.adds w = some a ∧ ¬ Cached w.cache a ∧ (∀ s, op.hears = some s → s.1 = a) ∧
      Remembers (arpStep frames w op).cache
        (room 16 l ++ newEntry a ((op.heardFrom a).getD ethNullAddr) n)) := by
  cases op with
  | request intf tpa ethertype packet =>
    have hsame := arpRequest_cache frames w intf tpa ethertype packet
    unfold arpRequestEntry at hsame
    cases hl : arpLookup w.cache tpa with
    | some i =>
      rw [hl] at hsame
      refine .inl ⟨rfl, fun a ha => ?_, h.congr hsame⟩
      obtain rfl := Option.some.inj ha
      exact ⟨i, arpLookup_eq_some hl⟩
    | none =>
      have hnot := arpLookup_eq_none.mp hl
      rw [hl] at hsame
      exact .inr (.inr ⟨tpa, rfl, hnot, (fun s hs => nomatch hs),
        (h.addNew ethNullAddr hnot n).congr hsame⟩)
  | recv intf data =>
    cases hs : arpSender data with
    | none =>
      refine .inl ⟨hs, fun a ha => ?_, (congrArg NetWorld.cache (arpRecv_no_sender hs)).symm ▸ h⟩
      rw [ArpOp.adds, hs] at ha
      exact nomatch ha
    | some s =>
      -- the address that may be added is that of the sender
      have hadds : ∀ a, ArpOp.adds w (.recv intf data) = some a → s.1 = a := by
        intro a ha
        rw [ArpOp.adds, hs, Option.bind_some, Option.ite_none_right_eq_some] at ha
        exact Option.some.inj ha.2
      cases hl : arpLookup w.cache s.1 with
      | some i =>
        refine .inr (.inl ⟨s, hs, fun a ha => ?_,
          (h.refresh hl hkeys s.2).congr (arpRecv_known hs hl)⟩)
        rw [← hadds a ha]
        exact ⟨i, arpLookup_eq_some hl⟩
      | none =>
        have hnot := arpLookup_eq_none.mp hl
        have hrecv : (arpStep frames w (.recv intf data)).cache = _ := arpRecv_new hs hl
        rw [hrecv]
        split
        · rename_i htarget
          have hadds : ArpOp.adds w (.recv intf data) = some s.1 := by
            rw [ArpOp.adds, hs, Option.bind_some, if_pos htarget]
          have hfrom : ArpOp.heardFrom s.1 (.recv intf data) = some s.2 := by
            rw [ArpOp.heardFrom, ArpOp.hears, hs, Option.bind_some, if_pos rfl]
          have honly : ∀ s', ArpOp.hears (.recv intf data) = some s' → s'.1 = s.1 :=
            fun s' hs' => congrArg Prod.fst (Option.some.inj (hs'.symm.trans hs))
          refine .inr (.inr ⟨s.1, hadds, hnot, honly, ?_⟩)
          rw [hfrom]
          exact h.addNew s.2 hnot n
        · rename_i htarget
          refine .inr (.inl ⟨s, hs, fun a ha => ?_, ?_⟩)
          · rw [ArpOp.adds, hs, Option.bind_some, if_neg htarget] at ha
            exact nomatch ha
          · rw [refresh_of_notMem (h.notMem hnot)]
            exact h

/-! ## The entry that is lost -/

/-- The call adds 0.0.0.0 to a cache without a free slot: a packet from 0.0.0.0 for this interface,
    or a request for 0.0.0.0. -/
def AddsNull (w : NetWorld) (op : ArpOp) : Prop :=
  op.adds w = some ipv4NullAddr ∧ ∀ i, (w.cache i).pa ≠ ipv4NullAddr

/-- What the call removes from the cache is the first entry of a full cache, and a new address is in
    the cache then. -/
def LosesOldest (frames : Nat → Nat) (w : NetWorld) (op : ArpOp) : Prop :=
  ∀ pa, pa ≠ ipv4NullAddr → Cached w.cache pa → ¬ Cached (arpStep frames w op).cache pa →
    (w.cache 0).pa = pa ∧ (∀ i, (w.cache i).pa ≠ ipv4NullAddr) ∧
      ∃ a, a ≠ ipv4NullAddr ∧ op.adds w = some a ∧ ¬ Cached w.cache a ∧
        Cached (arpStep frames w op).cache a

/-- A full cache has sixteen entries. -/
theorem Remembers.full_iff (h : Remembers c l) : (∀ i, (c i).pa ≠ ipv4NullAddr) ↔
    l.length = 16 := by
  have hle := h.length_le
  constructor
  · intro hused
    have hlast := h.used_iff.mp (hused 15)
    have hval : (15 : Fin 16).val = 15 := rfl
    omega
  · intro hfull i
    rw [h.used_iff, hfull]
    exact i.isLt

/-- The oldest entry makes room for 0.0.0.0, which takes no slot. -/
theorem AddsNull.loses (hnull : AddsNull w op) (h : Remembers w.cache l)
    (hkeys : (l.map Entry.key).Nodup) :
    ¬ LosesOldest frames w op := by
  obtain ⟨hadds, hfull⟩ := hnull
  have hnot : ¬ Cached w.cache ipv4NullAddr := fun ⟨i, hi⟩ => hfull i hi
  intro hloses
  -- the entries are the same, refreshed, or one is new: here 0.0.0.0 is added
  rcases arpStep_spec frames h hkeys op 0 with ⟨-, hin, -⟩ | ⟨s, -, hin, -⟩ | ⟨a, ha, -, -, hslots⟩
  · exact hnot (hin _ hadds)
  · exact hnot (hin _ hadds)
  obtain rfl := Option.some.inj (ha.symm.trans hadds)
  have hlen := h.full_iff.mp hfull
  rw [room, if_pos hlen, newEntry, if_pos rfl, List.append_nil] at hslots
  -- the oldest entry is lost, and no address has come in its place
  cases l with
  | nil => cases hlen
  | cons x l =>
    have hx : x.key ≠ ipv4NullAddr := h.nonzero x List.mem_cons_self
    have hcached : Cached w.cache x.key := (h.cached_iff hx).mpr List.mem_cons_self
    have hlost : ¬ Cached (arpStep frames w op).cache x.key := by
      rw [hslots.cached_iff hx]
      exact (List.nodup_cons.mp hkeys).1
    obtain ⟨-, -, a', hne, ha', -⟩ := hloses x.key hx hcached hlost
    exact hne (Option.some.inj (ha'.symm.trans hadds))

/-- An entry is lost without a new one exactly when 0.0.0.0 is added to a full cache. -/
theorem losesOldest_iff (h : Remembers w.cache l) (hkeys : (l.map Entry.key).Nodup) :
    LosesOldest frames w op ↔ ¬ AddsNull w op := by
  constructor
  · intro hloses hnull
    exact hnull.loses h hkeys hloses
  · intro hnull pa hpa hcached hlost
    rw [h.cached_iff hpa] at hcached
    rcases arpStep_spec frames h hkeys op 0 with ⟨-, -, hslots⟩ | ⟨s, -, -, hslots⟩ | ⟨a, hadds,
      hnot, -, hslots⟩
    -- nothing was added, so nothing is missing
    · exact absurd ((hslots.cached_iff hpa).mpr hcached) hlost
    · rw [hslots.cached_iff hpa, refresh_keys] at hlost
      exact absurd hcached hlost
    · -- what is missing now had no room beside the new address
      have hnow := hslots.cached_new (length_room (by decide) h.length_le)
      rw [hslots.cached_iff hpa, List.map_append, List.mem_append, not_or] at hlost
      obtain ⟨x, hx, rfl⟩ := List.mem_map.mp hcached
      have hmissing : x ∉ room 16 l := fun hmem => hlost.1 (List.mem_map_of_mem hmem)
      obtain ⟨hlen, hhead⟩ := missing_of_room hx hmissing
      rw [List.head?_eq_getElem?] at hhead
      have hfull := h.full_iff.mpr hlen
      have hne : a ≠ ipv4NullAddr := by
        rintro rfl
        exact hnull ⟨hadds, hfull⟩
      exact ⟨(h.slot 0 x hhead).1, hfull, a, hne, hadds, hnot, hnow⟩

/-! ## Runs -/

def arpRun (frames : Nat → Nat) (w : NetWorld) (ops : List ArpOp) : NetWorld :=
  ops.foldl (arpStep frames) w

/-- `arp_init`. -/
def arpInit (c : ArpCache) : ArpCache := fun i => { c i with ha := ethNullAddr, pa := ipv4NullAddr }

/-- The hardware address heard last from `pa`. -/
def latest (pa : Ipv4Addr) (ops : List ArpOp) : Option EthAddr :=
  ops.reverse.findSome? (ArpOp.heardFrom pa)

/-- The call `k` put `pa` into the cache, and it has been there since. -/
def InsertedBy (frames : Nat → Nat) (w : NetWorld) (ops : List ArpOp) (pa : Ipv4Addr)
    (k : Nat) : Prop :=
  k < ops.length ∧ ¬ Cached (arpRun frames w (ops.take k)).cache pa ∧
    ∀ m, k < m → m ≤ ops.length → Cached (arpRun frames w (ops.take m)).cache pa

variable {ops : List ArpOp} {k m : Nat}

/-- The last call that tells of an address counts. -/
theorem latest_concat (pa : Ipv4Addr) (ops : List ArpOp) (op : ArpOp) :
    latest pa (ops ++ [op]) = (op.heardFrom pa).or (latest pa ops) := by
  unfold latest
  rw [List.reverse_append, List.reverse_singleton, List.singleton_append, List.findSome?_cons]
  cases op.heardFrom pa <;> rfl

/-- A run and one more call. -/
theorem arpRun_concat (frames : Nat → Nat) (w : NetWorld) (ops : List ArpOp) (op : ArpOp) :
    arpRun frames w (ops ++ [op]) = arpStep frames (arpRun frames w ops) op :=
  List.foldl_concat ..

/-- An address is put in once between two losses. -/
theorem InsertedBy.unique (hk : InsertedBy frames w ops pa k)
    (hm : InsertedBy frames w ops pa m) : k = m := by
  obtain ⟨hklt, hknot, hksince⟩ := hk
  obtain ⟨hmlt, hmnot, hmsince⟩ := hm
  rcases Nat.lt_trichotomy k m with h | h | h
  · exact absurd (hksince m h (Nat.le_of_lt hmlt)) hmnot
  · exact h
  · exact absurd (hmsince k h (Nat.le_of_lt hklt)) hknot

/-- An address that stays in the cache was inserted by the same call. -/
theorem InsertedBy.concat (h : InsertedBy frames w ops pa k)
    (hnow : Cached (arpRun frames w (ops ++ [op])).cache pa) :
    InsertedBy frames w (ops ++ [op]) pa k := by
  obtain ⟨hlt, hnot, hsince⟩ := h
  refine ⟨by rw [List.length_append]; omega, ?_, fun m hkm hm => ?_⟩
  · rw [List.take_append_of_le_length (Nat.le_of_lt hlt)]
    exact hnot
  · rw [List.length_append, List.length_singleton] at hm
    rcases Nat.lt_or_eq_of_le hm with hm | rfl
    · rw [List.take_append_of_le_length (by omega)]
      exact hsince m hkm (by omega)
    · rw [List.take_of_length_le (by simp)]
      exact hnow

/-- A list of the entries, each since its insertion. -/
structure Recorded (frames : Nat → Nat) (w : NetWorld) (ops : List ArpOp)
    (l : List (Entry Ipv4Addr EthAddr)) :
    Prop where
  slots : Remembers (arpRun frames w ops).cache l
  ordered : Ordered ops.length l
  inserted : ∀ x ∈ l, InsertedBy frames w ops x.key x.since
  value : ∀ x ∈ l, x.value = (latest x.key (ops.drop x.since)).getD ethNullAddr

/-- What is recorded is in the cache. -/
theorem Recorded.cached (h : Recorded frames w ops l) {x : Entry Ipv4Addr EthAddr} (hx : x ∈ l) :
    Cached (arpRun frames w ops).cache x.key :=
  (h.slots.cached_iff (h.slots.nonzero x hx)).mpr (List.mem_map_of_mem hx)

/-- The value of an entry from before, after one more call. -/
theorem Recorded.value_concat (h : Recorded frames w ops l) {y : Entry Ipv4Addr EthAddr}
    (hy : y ∈ l) (op : ArpOp) :
    (latest y.key ((ops ++ [op]).drop y.since)).getD ethNullAddr =
      (op.heardFrom y.key).getD y.value := by
  have hpast := h.ordered.past y hy
  rw [List.drop_append_of_le_length (Nat.le_of_lt hpast), latest_concat, h.value y hy]
  cases op.heardFrom y.key <;> rfl

/-- The entries that are in the cache after one more call were inserted when they were before. -/
theorem Recorded.inserted_concat (h : Recorded frames w ops l) {l' : List (Entry Ipv4Addr EthAddr)}
    (hslots : Remembers (arpRun frames w (ops ++ [op])).cache l')
    {x y : Entry Ipv4Addr EthAddr} (hx : x ∈ l')
    (hy : y ∈ l) (hkey : x.key = y.key) (hsince : x.since = y.since) :
    InsertedBy frames w (ops ++ [op]) x.key x.since := by
  have hnow : Cached (arpRun frames w (ops ++ [op])).cache x.key :=
    (hslots.cached_iff (hslots.nonzero x hx)).mpr (List.mem_map_of_mem hx)
  rw [hkey] at hnow
  rw [hkey, hsince]
  exact (h.inserted y hy).concat hnow

/-- A call that tells nothing changes no record. -/
theorem Recorded.silent (h : Recorded frames w ops l) (hhears : op.hears = none)
    (hslots : Remembers (arpRun frames w (ops ++ [op])).cache l) :
    Recorded frames w (ops ++ [op]) l where
  slots := hslots
  ordered := h.ordered.mono (by simp)
  inserted x hx := h.inserted_concat hslots hx hx rfl rfl
  value x hx := by
    rw [h.value_concat hx, ArpOp.heardFrom, hhears]
    rfl

/-- A call that tells of a known address changes its record. -/
theorem Recorded.refresh (h : Recorded frames w ops l) (hhears : op.hears = some s)
    (hslots : Remembers (arpRun frames w (ops ++ [op])).cache (refresh l s.1 s.2)) :
    Recorded frames w (ops ++ [op]) (refresh l s.1 s.2) where
  slots := hslots
  ordered := (h.ordered.refresh s.1 s.2).mono (by simp)
  inserted x hx := by
    obtain ⟨y, hy, hkey, hsince, -⟩ := mem_refresh hx
    exact h.inserted_concat hslots hx hy hkey hsince
  value x hx := by
    obtain ⟨y, hy, hkey, hsince, hvalue⟩ := mem_refresh hx
    rw [hkey, hsince, h.value_concat hy, ArpOp.heardFrom, hhears, Option.bind_some, hvalue]
    by_cases hs : y.key = s.1
    · rw [if_pos hs, if_pos hs.symm]
      rfl
    · rw [if_neg hs, if_neg (Ne.symm hs)]
      rfl

/-- The null address makes no entry. -/
theorem mem_newEntry {x : Entry Ipv4Addr EthAddr} {n : Nat} (h : x ∈ newEntry pa ha n) :
    pa ≠ ipv4NullAddr ∧ x = ⟨pa, ha, n⟩ := by
  unfold newEntry at h
  split at h
  · exact absurd h List.not_mem_nil
  · rename_i hpa
    exact ⟨hpa, List.mem_singleton.mp h⟩

/-- A call with a new address adds a record. -/
theorem Recorded.add (h : Recorded frames w ops l) (hnot : ¬ Cached (arpRun frames w ops).cache pa)
    (honly : ∀ s, op.hears = some s → s.1 = pa)
    (hslots : Remembers (arpRun frames w (ops ++ [op])).cache
      (room 16 l ++ newEntry pa ((op.heardFrom pa).getD ethNullAddr) ops.length)) :
    Recorded frames w (ops ++ [op]) (room 16 l ++
      newEntry pa ((op.heardFrom pa).getD ethNullAddr) ops.length) where
  slots := hslots
  ordered := by
    rw [List.length_append, List.length_singleton]
    unfold newEntry
    split
    · rw [List.append_nil]
      exact (h.ordered.room 16).mono (Nat.le_succ _)
    · have hnew : pa ∉ (room 16 l).map Entry.key :=
        fun hmem => h.slots.notMem hnot (((room_sublist 16 l).map _).subset hmem)
      exact (h.ordered.room 16).append hnew rfl
  inserted x hx := by
    rcases List.mem_append.mp hx with hroom | hnew
    · exact h.inserted_concat hslots hx ((room_sublist 16 l).subset hroom) rfl rfl
    · -- the call itself is the one that inserts the new entry
      obtain ⟨hpa, rfl⟩ := mem_newEntry hnew
      have hnow := (hslots.cached_iff hpa).mpr (List.mem_map_of_mem hx)
      refine ⟨by simp, ?_, fun m (hkm : ops.length < m) hm => ?_⟩
      · rw [List.take_append_of_le_length (Nat.le_refl _), List.take_length]
        exact hnot
      · rw [List.take_of_length_le (by simp; omega)]
        exact hnow
  value x hx := by
    rcases List.mem_append.mp hx with hroom | hnew
    · have hxl := (room_sublist 16 l).subset hroom
      -- the sender is not the address of an entry
      have hfrom : op.heardFrom x.key = none := by
        unfold ArpOp.heardFrom
        cases hs : op.hears with
        | none => rfl
        | some s =>
          have hne : s.1 ≠ x.key := by
            rw [honly s hs]
            exact fun hpa => hnot (hpa ▸ h.cached hxl)
          rw [Option.bind_some, if_neg hne]
      rw [h.value_concat hxl, hfrom]
      rfl
    · obtain ⟨-, rfl⟩ := mem_newEntry hnew
      dsimp only
      rw [List.drop_append_of_le_length (Nat.le_refl _), List.drop_length, latest_concat]
      cases op.heardFrom pa <;> rfl

/-- Behind `arp_init` nothing is recorded. -/
theorem recorded_nil (frames : Nat → Nat) (w : NetWorld) :
    Recorded frames { w with cache := arpInit w.cache } [] [] where
  slots := ⟨Nat.zero_le _, (fun _ _ hx => nomatch hx), fun _ _ => rfl, fun _ hx => nomatch hx⟩
  ordered := .nil 0
  inserted _ hx := nomatch hx
  value _ hx := nomatch hx

/-- The run invariant. -/
theorem exists_recorded (frames : Nat → Nat) (w : NetWorld) (ops : List ArpOp) :
    ∃ l, Recorded frames { w with cache := arpInit w.cache } ops l := by
  induction ops using List.reverseRecOn with
  | nil => exact ⟨[], recorded_nil frames w⟩
  | append_singleton ops op ih =>
    -- the last call, on what the calls before it recorded
    obtain ⟨l, h⟩ := ih
    have hrun := arpRun_concat frames { w with cache := arpInit w.cache } ops op
    rcases arpStep_spec frames h.slots h.ordered.keys op ops.length with
      ⟨hhears, -, hslots⟩ | ⟨s, hhears, -, hslots⟩ | ⟨a, -, hnot, honly, hslots⟩
    · exact ⟨_, h.silent hhears (hrun ▸ hslots)⟩
    · exact ⟨_, h.refresh hhears (hrun ▸ hslots)⟩
    · exact ⟨_, h.add hnot honly (hrun ▸ hslots)⟩

/-! ## The law of the cache -/

/-- The cache after the calls `ops`. -/
structure CacheLaw (frames : Nat → Nat) (w : NetWorld) (ops : List ArpOp) : Prop where
  /-- One entry for an address. -/
  unique : ∀ i j, ((arpRun frames w ops).cache i).pa ≠ ipv4NullAddr →
    ((arpRun frames w ops).cache i).pa = ((arpRun frames w ops).cache j).pa → i = j
  /-- No free slot before an entry. -/
  packed : ∀ i j, i ≤ j → ((arpRun frames w ops).cache j).pa ≠ ipv4NullAddr →
    ((arpRun frames w ops).cache i).pa ≠ ipv4NullAddr
  /-- Entries stand in the order in which they were inserted. -/
  order : ∀ i j k m, i < j → ((arpRun frames w ops).cache j).pa ≠ ipv4NullAddr →
    InsertedBy frames w ops ((arpRun frames w ops).cache i).pa k →
    InsertedBy frames w ops ((arpRun frames w ops).cache j).pa m → k < m
  /-- An entry has what was heard last since it was inserted. -/
  holds : ∀ i, ((arpRun frames w ops).cache i).pa ≠ ipv4NullAddr →
    ∃ k, InsertedBy frames w ops ((arpRun frames w ops).cache i).pa k ∧
      ((arpRun frames w ops).cache i).ha =
      (latest ((arpRun frames w ops).cache i).pa (ops.drop k)).getD ethNullAddr

/-- The record is what the law says. -/
theorem Recorded.law (h : Recorded frames w ops l) : CacheLaw frames w ops := by
  constructor
  -- two slots of one address would be two entries of one key
  case unique =>
    intro i j hi hij
    have hilt := h.slots.used_iff.mp hi
    have hjlt := h.slots.used_iff.mp (hij ▸ hi)
    have hsame : (l[i.val]).key = (l[j.val]).key := by
      rw [← (h.slots.entry hilt).1, ← (h.slots.entry hjlt).1, hij]
    exact Fin.ext (index_unique h.ordered.keys (List.getElem?_eq_getElem hilt)
      (List.getElem?_eq_getElem hjlt) hsame)
  case packed =>
    intro i j hij hj
    exact h.slots.used_iff.mpr (Nat.lt_of_le_of_lt hij (h.slots.used_iff.mp hj))
  -- the entries are in the order in which they were added
  case order =>
    intro i j k m hij hj hk hm
    have hjlt := h.slots.used_iff.mp hj
    have hilt : i.val < l.length := Nat.lt_trans hij hjlt
    rw [(h.slots.entry hilt).1] at hk
    rw [(h.slots.entry hjlt).1] at hm
    rw [hk.unique (h.inserted _ (List.getElem_mem hilt)),
      hm.unique (h.inserted _ (List.getElem_mem hjlt))]
    exact List.pairwise_iff_getElem.mp h.ordered.times i.val j.val hilt hjlt hij
  -- each entry holds what was recorded last
  case holds =>
    intro i hi
    have hilt := h.slots.used_iff.mp hi
    obtain ⟨hikey, hivalue⟩ := h.slots.entry hilt
    refine ⟨l[i.val].since, ?_, ?_⟩
    · rw [hikey]
      exact h.inserted _ (List.getElem_mem hilt)
    · rw [hikey, hivalue]
      exact h.value _ (List.getElem_mem hilt)

/-- For every sequence of received ARP packets and requests. -/
theorem arpRun_law (frames : Nat → Nat) (w : NetWorld) (ops : List ArpOp) :
    CacheLaw frames { w with cache := arpInit w.cache } ops := by
  obtain ⟨l, h⟩ := exists_recorded frames w ops
  exact h.law

/-- The law of a whole run: in every state of it, and for the entry that each call removes. -/
structure ArpLaw (frames : Nat → Nat) (w : NetWorld) (ops : List ArpOp) : Prop where
  states : ∀ k, CacheLaw frames w (ops.take k)
  loses : ∀ k op, ops[k]? = some op → LosesOldest frames (arpRun frames w (ops.take k)) op

/-- After any calls, the call loses an entry without a new one exactly when it adds 0.0.0.0 to a
    full cache. -/
theorem arpRun_loses_iff (frames : Nat → Nat) (w : NetWorld) (ops : List ArpOp) (op : ArpOp) :
    LosesOldest frames (arpRun frames { w with cache := arpInit w.cache } ops) op ↔
      ¬ AddsNull (arpRun frames { w with cache := arpInit w.cache } ops) op := by
  obtain ⟨l, h⟩ := exists_recorded frames w ops
  exact losesOldest_iff h.slots h.ordered.keys

/-- Every sequence of received ARP packets and requests keeps the law, except that an entry is lost
    for nothing when 0.0.0.0 is added to a full cache; and it is lost then. -/
theorem arp_cache_law (frames : Nat → Nat) (w : NetWorld) (ops : List ArpOp) :
    ArpLaw frames { w with cache := arpInit w.cache } ops ↔
      ∀ k op, ops[k]? = some op →
        ¬ AddsNull (arpRun frames { w with cache := arpInit w.cache } (ops.take k)) op := by
  constructor
  · intro h k op hop
    exact (arpRun_loses_iff frames w (ops.take k) op).mp (h.loses k op hop)
  · intro h
    constructor
    · intro k
      exact arpRun_law frames w (ops.take k)
    · intro k op hop
      exact (arpRun_loses_iff frames w (ops.take k) op).mpr (h k op hop)

/-- Requests for sixteen neighbours, then a probe for the address of the interface: a packet from
    0.0.0.0, as a host sends it before it takes an address. -/
def requestsAndProbe : List ArpOp :=
  (List.range 16).map (fun k => .request 1
    (.ofBytes 10 0 2 (BitVec.ofNat 8 (100 + k))) ET_IPV4 0) ++
    [.recv 1 (arpPacket ARP_OP_REQUEST ⟨2, 0, 0, 0, 0, 2⟩ ipv4NullAddr ethNullAddr
      (.ofBytes 10 0 2 15))]

/-- The probe makes room for no new entry: the first neighbour is lost. -/
theorem arp_probe_drops_oldest :
    ¬ ∀ (frames : Nat → Nat) (w : NetWorld) (ops : List ArpOp),
      ArpLaw frames { w with cache := arpInit w.cache } ops := by
  intro hall
  have hlast : requestsAndProbe[16]? = some
      (.recv 1 (arpPacket ARP_OP_REQUEST ⟨2, 0, 0, 0, 0, 2⟩ ipv4NullAddr ethNullAddr
        (.ofBytes 10 0 2 15))) := rfl
  apply (arpRun_loses_iff nextFrame .boot (requestsAndProbe.take 16) _).mp
    ((hall _ _ _).loses 16 _ hlast)
  have hfull : ∀ i, ((arpRun nextFrame { NetWorld.boot with cache := arpInit NetWorld.boot.cache }
      (requestsAndProbe.take 16)).cache i).pa ≠ ipv4NullAddr := by decide +kernel
  have hadds :
    ArpOp.adds (arpRun nextFrame { NetWorld.boot with cache := arpInit NetWorld.boot.cache }
      (requestsAndProbe.take 16)) (.recv 1
        (arpPacket ARP_OP_REQUEST ⟨2, 0, 0, 0, 0, 2⟩ ipv4NullAddr ethNullAddr
        (.ofBytes 10 0 2 15))) = some ipv4NullAddr := by decide +kernel
  exact ⟨hadds, hfull⟩

end MishaOS
