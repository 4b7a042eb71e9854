import MishaOS.ForStd.LinkedList
import MishaOS.ForStd.Run
import MishaOS.Spec.ArpOwnership
import MishaOS.Spec.TcpFrame

/-!
# The connection lists

`tcp_conn_list` and `free_conn_list` run through the same `next` field.
`tcp_free` puts a connection on the free list without taking it off the other
one, so the lists stay apart as long as only connections that were never
connected are released.  `ListsOk` is the condition on a call that no listed
connection is released or listed again; under it both lists stay finite and
apart in every run, and `tcp_find` returns every open connection.

## Key results

- `tcpStep_lists`: one admitted call keeps the invariant.
- `tcp_run_lists`: what holds of the lists after every run of admitted calls.
- `tcp_close_keeps_connection_listed`: a run in which a listed connection is released.
-/

namespace MishaOS

open LinkedList

/-! ## Calls -/

/-- The calls of a run; the last five change what TCP is called with. -/
inductive TcpOp
  | newConn
  | connect (conn : Nat) (addr : Ipv4Addr) (port : BitVec 16)
  | send (conn : Nat) (data : List Byte)
  | close (conn : Nat)
  /-- A packet arrives. -/
  | recv (src dst : Ipv4Addr) (protocol : Byte) (data : List Byte)
  | poll
  /-- The clock advances. -/
  | tick (ticks : BitVec 32)
  | routes (t : RouteTable)
  | intf (intf : Nat → NetIntf)
  /-- The user sets the callbacks of a connection. -/
  | callbacks (conn : Nat) (onConnect onError onState onData : Bool)
  /-- A driver has transmitted a packet. -/
  | release (packet : Nat)

def TcpWorld.setCallbacks (w : TcpWorld) (p : Nat)
    (onConnect onError onState onData : Bool) : TcpWorld :=
  w.setConn p { w.conn p with
    onConnect := onConnect, onError := onError, onState := onState, onData := onData }

/-- One call. -/
def tcpStep (frames : Nat → Nat) (w : TcpWorld) : TcpOp → Option TcpWorld
  | .newConn => some (tcpNewConn frames w).2
  | .connect conn addr port => (tcpConnect frames w conn addr port).map (·.2)
  | .send conn data => some (tcpSend frames w conn data)
  | .close conn => tcpClose frames w conn
  | .recv src dst protocol data => tcpDeliver frames w src dst protocol data
  | .poll => tcpPoll w
  | .tick ticks => some { w with ticks := ticks }
  | .routes t => some { w with routes := t }
  | .intf intf => some { w with intf := intf }
  | .callbacks conn onConnect onError onState onData =>
    some (w.setCallbacks conn onConnect onError onState onData)
  | .release packet => some ((w.setBufs (netFreeBuf w.bufs packet)).emit (.release packet))

/-- Before the first call: both lists are empty, the rest is arbitrary. -/
structure TcpInit (w : TcpWorld) : Prop where
  list : w.tcpConnList = 0
  free : w.freeConnList = 0
  log : w.log = []

/-! ## Calls that release no listed connection -/

/-- The addresses and ports `tcp_connect` is going to use. -/
def connectTuple (w : TcpWorld) (route : Nat) (addr : Ipv4Addr) (port : BitVec 16) :
    Ipv4Addr × BitVec 16 × Ipv4Addr × BitVec 16 :=
  (addr, port, (w.intf (w.routes.route route).intf).ipAddr, (netEphemeralPort w.nextPort).1)

/-- The connection is new, and no open connection has its addresses and ports. -/
def ConnectOk (w : TcpWorld) (conn : Nat) (addr : Ipv4Addr) (port : BitVec 16) : Prop :=
  ∀ route ∈ netFindRoute w.routes addr, route ≠ 0 →
    conn ∈ (history w.log).unconnected ∧ ∀ q ∈ (history w.log).known,
      (w.conn q).state ≠ .closed → (w.conn q).tuple ≠ connectTuple w route addr port

/-- The connection is new, or closing it starts with a FIN. -/
def CloseOk (w : TcpWorld) (conn : Nat) : Prop :=
  conn ∈ (history w.log).unconnected ∨
    (w.conn conn).state ∉ [.closed, .listen, .synSent]

/-- The packet makes `tcp_recv` release the connection it is for. -/
def RecvFrees (w : TcpWorld) (src dst : Ipv4Addr) (protocol : Byte) (data : List Byte) : Prop :=
  let header := TcpHeader.read data
  20 ≤ data.length ∧ netChecksum (checksumHeader src dst protocol data.length ++ data) = 0 ∧
    ∃ conn ∈ tcpFind w src header.srcPort dst header.dstPort, conn ≠ 0 ∧
      SegmentFrees (w.conn conn) header
        (BitVec.ofNat 32 data.length - BitVec.ofNat 32 header.headerLen)

/-- `tcp_poll` is going to release this connection. -/
def Expired (w : TcpWorld) (c : TcpConn) : Prop :=
  c.state = .timeWait ∧ 0 ≤ seqDiff w.ticks c.mslWait

/-- The call neither releases a connection on `tcp_conn_list` nor lists one a
    second time. -/
def ListsOk (w : TcpWorld) : TcpOp → Prop
  | .connect conn addr port => ConnectOk w conn addr port
  | .close conn => CloseOk w conn
  | .recv src dst protocol data => ¬ RecvFrees w src dst protocol data
  | .poll => ∀ p ∈ (history w.log).known, ¬ Expired w (w.conn p)
  | _ => True

instance (w : TcpWorld) (op : TcpOp) : Decidable (ListsOk w op) :=
  match op with
  | .connect conn addr port =>
    inferInstanceAs (Decidable (∀ route ∈ netFindRoute w.routes addr, route ≠ 0 →
      conn ∈ (history w.log).unconnected ∧ ∀ q ∈ (history w.log).known,
        (w.conn q).state ≠ .closed → (w.conn q).tuple ≠ connectTuple w route addr port))
  | .close conn =>
    inferInstanceAs (Decidable (conn ∈ (history w.log).unconnected ∨
      (w.conn conn).state ∉ [.closed, .listen, .synSent]))
  | .recv _ _ _ _ => inferInstanceAs (Decidable (¬ (_ ∧ _ ∧ ∃ conn ∈ tcpFind w _ _ _ _, _ ∧ _)))
  | .poll => inferInstanceAs (Decidable (∀ p ∈ (history w.log).known, ¬ (_ ∧ _)))
  | .newConn | .send _ _ | .tick _ | .routes _ | .intf _ | .callbacks _ _ _ _ _ | .release _ =>
    .isTrue trivial

/-! ## The invariant -/

/-- `l` and `f` are the two lists; a connection that has been handed out is on
    one of them or waits to be connected. -/
structure ConnLists (frames : Nat → Nat) (w : TcpWorld) (l f : List Nat) : Prop where
  list : Chain (fun p => (w.conn p).next) 0 w.tcpConnList l
  free : Chain (fun p => (w.conn p).next) 0 w.freeConnList f
  apart : ∀ p ∈ l, p ∉ f
  waits : ∀ p ∈ (history w.log).unconnected, p ∉ l ∧ p ∉ f
  known : ∀ p, p ∈ (history w.log).known ↔ p ∈ l ∨ p ∈ f ∨ p ∈ (history w.log).unconnected
  closed : ∀ p ∈ (history w.log).known, (w.conn p).state = .closed ↔ p ∉ l
  released : ∀ p, p ∈ (history w.log).released ↔ p ∈ f
  tuples : ∀ p ∈ l, ∀ q ∈ l, (w.conn p).tuple = (w.conn q).tuple → p = q
  pages : ∀ p ∈ (history w.log).known, ∃ k < w.bufs.requests, frames k = p

variable {frames : Nat → Nat} {w w' : TcpWorld} {l f : List Nat} {conn p : Nat}

/-- Both lists are empty. -/
theorem TcpInit.lists (h : TcpInit w) : ConnLists frames w [] [] := by
  have hlog : history w.log = ⟨[], [], []⟩ := by rw [h.log]; rfl
  refine ⟨h.list, h.free, ?_, ?_, ?_, ?_, ?_, ?_, ?_⟩ <;> simp [hlog]

/-- A quiet step keeps the lists. -/
theorem ConnLists.quiet (hi : ConnLists frames w l f) (h : Quiet w w') :
    ConnLists frames w' l f where
  list := by
    -- no field looks at more than a quiet step leaves alone
    rw [h.list]
    exact hi.list.congr fun p _ => h.next p
  free := by
    rw [h.free]
    exact hi.free.congr fun p _ => h.next p
  apart := hi.apart
  waits := by rw [h.history]; exact hi.waits
  known := by rw [h.history]; exact hi.known
  closed := by
    rw [h.history]
    exact fun p hp => (h.state p).trans (hi.closed p hp)
  released := by rw [h.history]; exact hi.released
  tuples := by
    simp only [h.tuple]
    exact hi.tuples
  pages := by
    rw [h.history]
    intro p hp
    obtain ⟨k, hk, rfl⟩ := hi.pages p hp
    exact ⟨k, Nat.lt_of_lt_of_le hk h.requests, rfl⟩

/-- All nodes are pages, so a list is no longer than the number of requests. -/
theorem ConnLists.length_le (hi : ConnLists frames w l f) : l.length ≤ w.bufs.requests := by
  have hsub : l ⊆ (List.range w.bufs.requests).map frames := by
    intro p hp
    obtain ⟨k, hk, rfl⟩ := hi.pages p ((hi.known p).mpr (.inl hp))
    exact List.mem_map.mpr ⟨k, List.mem_range.mpr hk, rfl⟩
  have := hi.list.nodup.length_le_of_subset hsub
  simpa using this

/-! ## The walks -/

/-- `tcp_find` returns the first connection with the addresses and ports. -/
theorem tcpFindFrom_eq {src dst : Ipv4Addr} {srcPort dstPort : BitVec 16} {fuel : Nat}
    (hc : Chain (fun p => (w.conn p).next) 0 p l) (hfuel : l.length < fuel) :
    tcpFindFrom w src srcPort dst dstPort fuel p =
      some ((l.find? fun q => (w.conn q).tuple = (src, srcPort, dst, dstPort)).getD 0) := by
  induction l generalizing p fuel with
  | nil =>
    obtain ⟨fuel, rfl⟩ : ∃ n, fuel = n + 1 := ⟨fuel - 1, by simp at hfuel; omega⟩
    obtain rfl : p = 0 := hc
    rfl
  | cons q l ih =>
    obtain ⟨fuel, rfl⟩ : ∃ n, fuel = n + 1 := ⟨fuel - 1, by simp at hfuel; omega⟩
    obtain ⟨rfl, h0, hrest⟩ := hc
    -- the comparison of the code is that of the tuples
    have hcond : (src.bits = (w.conn p).remoteAddr.bits ∧ dst.bits = (w.conn p).localAddr.bits ∧
        srcPort = (w.conn p).remotePort ∧ dstPort = (w.conn p).localPort) ↔
        (w.conn p).tuple = (src, srcPort, dst, dstPort) := by
      have hbits : ∀ a b : Ipv4Addr, a.bits = b.bits ↔ b = a := by
        intro a b
        cases a
        cases b
        simp [eq_comm]
      rw [hbits, hbits, TcpConn.tuple, Prod.mk.injEq, Prod.mk.injEq, Prod.mk.injEq]
      constructor
      · rintro ⟨h1, h2, rfl, rfl⟩
        exact ⟨h1, rfl, h2, rfl⟩
      · rintro ⟨h1, rfl, h2, rfl⟩
        exact ⟨h1, h2, rfl, rfl⟩
    simp only [tcpFindFrom, if_neg h0]
    by_cases hm : (w.conn p).tuple = (src, srcPort, dst, dstPort)
    · rw [if_pos (hcond.mpr hm), List.find?_cons_of_pos (by simpa using hm)]
      rfl
    · rw [if_neg (mt hcond.mp hm), List.find?_cons_of_neg (by simpa using hm)]
      exact ih hrest (by simpa using hfuel)

/-- The walk of `tcp_find` goes over the list. -/
theorem ConnLists.tcpFind_eq (hi : ConnLists frames w l f) (hw : w.bufs.requests < 4294967296)
    (src : Ipv4Addr) (srcPort : BitVec 16) (dst : Ipv4Addr) (dstPort : BitVec 16) :
    tcpFind w src srcPort dst dstPort =
      some ((l.find? fun q => (w.conn q).tuple = (src, srcPort, dst, dstPort)).getD 0) :=
  tcpFindFrom_eq hi.list (Nat.lt_of_le_of_lt hi.length_le hw)

/-- An open connection is found under its own addresses and ports. -/
theorem ConnLists.tcpFind_self (hi : ConnLists frames w l f) (hw : w.bufs.requests < 4294967296)
    (hp : p ∈ l) :
    tcpFind w (w.conn p).remoteAddr (w.conn p).remotePort (w.conn p).localAddr
      (w.conn p).localPort =
      some p := by
  rw [hi.tcpFind_eq hw]
  obtain ⟨q, hq⟩ : ∃ q, l.find? (fun q => (w.conn q).tuple = ((w.conn p).remoteAddr,
      (w.conn p).remotePort, (w.conn p).localAddr, (w.conn p).localPort)) = some q := by
    apply Option.isSome_iff_exists.mp
    rw [List.find?_isSome]
    exact ⟨p, hp, by simp [TcpConn.tuple]⟩
  have hfound := List.find?_some hq
  have htuple : (w.conn q).tuple = (w.conn p).tuple := of_decide_eq_true hfound
  rw [hq, Option.getD_some, hi.tuples q (List.mem_of_find?_eq_some hq) p hp htuple]

/-- A walk of `tcp_poll` past no expired connection changes nothing. -/
theorem tcpPollFrom_some {fuel : Nat} (hc : Chain (fun p => (w.conn p).next) 0 p l)
    (hex : ∀ q ∈ l, ¬ Expired w (w.conn q)) (h : tcpPollFrom fuel w p = some w') : w' = w := by
  induction fuel generalizing p l with
  | zero => exact nomatch h
  | succ fuel ih =>
    cases l with
    | nil =>
      obtain rfl : p = 0 := hc
      exact (Option.some.inj h).symm
    | cons q l =>
      obtain ⟨rfl, h0, hrest⟩ := hc
      have hkeep := hex p List.mem_cons_self
      unfold Expired at hkeep
      simp only [tcpPollFrom, if_neg h0, if_neg hkeep, Option.bind_eq_bind, Option.bind_some] at h
      exact ih hrest (fun x hx => hex x (List.mem_cons_of_mem _ hx)) h

/-- The fields `tcp_poll` reads. -/
def TcpConn.polled (c : TcpConn) : Nat × TcpState × BitVec 32 × Nat :=
  (c.next, c.state, c.mslWait, c.resequence)

/-- Releasing an expired connection without segments returns, and leaves the
    rest of the walk as it was. -/
theorem tcpFree_polled (hstate : (w.conn p).state = .timeWait) (hres : (w.conn p).resequence = 0) :
    ∃ w', tcpFree w p = some w' ∧ w'.ticks = w.ticks ∧
      ∀ q ≠ p, (w'.conn q).polled = (w.conn q).polled := by
  have hset : ∀ q, (tcpSetState w p .closed).conn q = (w.setState p .closed).conn q := by
    unfold tcpSetState
    simp only
    split <;> exact fun _ => rfl
  have hticks : (tcpSetState w p .closed).ticks = w.ticks := by
    unfold tcpSetState
    simp only
    split <;> rfl
  have hzero : ((tcpSetState w p .closed).conn p).resequence = 0 := by
    simp [hset, TcpWorld.setState, hres]
  -- the connection has no segments, so its queue is released at once
  have hqueue : ∀ fuel b, tcpFreeQueue (fuel + 1) b 0 = some b := fun fuel b => rfl
  simp only [tcpFree, hstate, hzero, ne_eq, reduceCtorEq, not_false_eq_true, if_true]
  rw [show walkFuel = 4294967295 + 1 from rfl, hqueue]
  generalize tcpSetState w p .closed = w₁ at *
  -- the clock, and what the walk reads of the other connections
  refine ⟨_, rfl, ?_, fun q hq => ?_⟩
  · rw [← hticks]
    unfold tcpFreeLink
    simp only
    split <;> rfl
  · have hq₁ : (w₁.conn q).polled = (w.conn q).polled := by
      simp [hset, TcpWorld.setState, hq]
    rw [← hq₁]
    unfold tcpFreeLink
    simp only
    split
    · simp only [TcpWorld.emit, TcpWorld.setConn_conn, if_neg hq]
      split
      · rename_i heq
        rw [heq]
        rfl
      · rfl
    · simp [TcpWorld.emit, TcpWorld.setBufs, hq]

/-- The walk of `tcp_poll` ends: it reads `next` before it releases. -/
theorem tcpPollFrom_isSome {fuel : Nat} {u : TcpWorld} (hc : Chain (fun p => (w.conn p).next) 0 p l)
    (hfuel : l.length < fuel) (hres : ∀ q ∈ l, Expired w (w.conn q) → (w.conn q).resequence = 0)
    (hticks : u.ticks = w.ticks) (hu : ∀ q ∈ l, (u.conn q).polled = (w.conn q).polled) :
    (tcpPollFrom fuel u p).isSome := by
  -- along the list, with enough fuel for what is left of it
  induction l generalizing p fuel u with
  | nil =>
    obtain ⟨fuel, rfl⟩ : ∃ n, fuel = n + 1 := ⟨fuel - 1, by simp at hfuel; omega⟩
    obtain rfl : p = 0 := hc
    rfl
  | cons q l ih =>
    obtain ⟨fuel, rfl⟩ : ∃ n, fuel = n + 1 := ⟨fuel - 1, by simp at hfuel; omega⟩
    have hnodup := List.nodup_cons.mp hc.nodup
    obtain ⟨rfl, h0, hrest⟩ := hc
    have hp := hu p List.mem_cons_self
    simp only [TcpConn.polled, Prod.mk.injEq] at hp
    obtain ⟨hnext, hstate, hmsl, hrs⟩ := hp
    have htail : ∀ v : TcpWorld, v.ticks = w.ticks →
        (∀ q ∈ l, (v.conn q).polled = (w.conn q).polled) →
          (tcpPollFrom fuel v (u.conn p).next).isSome := by
      rw [hnext]
      exact fun v => ih hrest (by simpa using hfuel) fun x hx => hres x (List.mem_cons_of_mem _ hx)
    simp only [tcpPollFrom, if_neg h0, Option.bind_eq_bind]
    split
    -- an expired connection is released, its successor has been read before
    · rename_i hex
      have hzero : (u.conn p).resequence = 0 := by
        rw [hrs]
        exact hres p List.mem_cons_self ⟨hstate ▸ hex.1, hticks ▸ hmsl ▸ hex.2⟩
      obtain ⟨v, hv, hvt, hvq⟩ := tcpFree_polled hex.1 hzero
      rw [hv, Option.bind_some]
      apply htail v (hvt.trans hticks)
      intro x hx
      exact (hvq x fun e => hnodup.1 (e ▸ hx)).trans (hu x (List.mem_cons_of_mem _ hx))
    · exact htail u hticks fun x hx => hu x (List.mem_cons_of_mem _ hx)

/-! ## Calls that change the lists -/

/-- A connection structure is written and an event logged; the other
    connections keep their keys. -/
structure Changes (w : TcpWorld) (conn : Nat) (e : TcpEvent) (w' : TcpWorld) : Prop where
  key : ∀ q ≠ conn, (w'.conn q).key = (w.conn q).key
  requests : w.bufs.requests ≤ w'.bufs.requests
  log : history w'.log = history (e :: w.log)

/-- A quiet step can follow. -/
theorem Changes.trans_quiet {e : TcpEvent} {w'' : TcpWorld} (h : Changes w conn e w')
    (h' : Quiet w' w'') : Changes w conn e w'' where
  key q hq := (h'.key q).trans (h.key q hq)
  requests := Nat.le_trans h.requests h'.requests
  log := h'.history.trans h.log

/-- Other connections keep their place. -/
theorem Changes.next {e : TcpEvent} (h : Changes w conn e w') {q : Nat} (hq : q ≠ conn) :
    (w'.conn q).next = (w.conn q).next := congrArg (·.1) (h.key q hq)

/-- They keep their addresses and ports. -/
theorem Changes.tuple {e : TcpEvent} (h : Changes w conn e w') {q : Nat} (hq : q ≠ conn) :
    (w'.conn q).tuple = (w.conn q).tuple := congrArg (·.2.2) (h.key q hq)

/-- They stay open or closed. -/
theorem Changes.state {e : TcpEvent} (h : Changes w conn e w') {q : Nat} (hq : q ≠ conn) :
    (w'.conn q).state = .closed ↔ (w.conn q).state = .closed := by
  simpa [TcpConn.key] using congrArg (·.2.1) (h.key q hq)

/-- A chain without the written connection stays. -/
theorem Changes.chain {e : TcpEvent} (h : Changes w conn e w')
    (hc : Chain (fun p => (w.conn p).next) 0 p l) (hconn : conn ∉ l) :
    Chain (fun p => (w'.conn p).next) 0 p l :=
  hc.congr fun _ hq => h.next fun heq => hconn (heq ▸ hq)

/-- A connection nobody has comes to be handed out. -/
theorem ConnLists.handOut (hi : ConnLists frames w l f) (conn : Nat)
    (h : Changes w conn (.newConn conn) w')
    (hlist : w'.tcpConnList = w.tcpConnList)
    (hfree : Chain (fun p => (w'.conn p).next) 0 w'.freeConnList (f.filter (· ≠ conn)))
    (hclosed : (w'.conn conn).state = .closed) (hconn : conn ∉ l)
    (hpage : ∃ k < w'.bufs.requests, frames k = conn) :
    ConnLists frames w' l (f.filter (· ≠ conn)) where
  list := by
    -- both lists are not touched, only `conn` is known in addition
    rw [hlist]
    exact h.chain hi.list hconn
  free := hfree
  apart p hp hf := hi.apart p hp (List.mem_filter.mp hf).1
  waits p hp := by
    simp only [h.log, history_newConn, List.mem_cons] at hp
    obtain rfl | hp := hp
    · exact ⟨hconn, by simp⟩
    · exact ⟨(hi.waits p hp).1, fun hf => (hi.waits p hp).2 (List.mem_filter.mp hf).1⟩
  known p := by
    simp only [h.log, history_newConn, List.mem_cons, List.mem_filter, hi.known p]
    by_cases hp : p = conn <;> simp [hp]
  closed p hp := by
    simp only [h.log, history_newConn, List.mem_cons] at hp
    by_cases hpc : p = conn
    · subst hpc
      exact ⟨fun _ => hconn, fun _ => hclosed⟩
    · rw [h.state hpc]
      exact hi.closed p (hp.resolve_left hpc)
  released p := by simp only [h.log, history_newConn, List.mem_filter, hi.released p]
  tuples p hp q hq := by
    rw [h.tuple fun e => hconn (e ▸ hp), h.tuple fun e => hconn (e ▸ hq)]
    exact hi.tuples p hp q hq
  pages p hp := by
    simp only [h.log, history_newConn, List.mem_cons] at hp
    obtain rfl | hp := hp
    · exact hpage
    · obtain ⟨k, hk, rfl⟩ := hi.pages p hp
      exact ⟨k, Nat.lt_of_lt_of_le hk h.requests, rfl⟩

/-- `tcp_new_conn` -/
theorem ConnLists.newConn (hf : FramesOk frames) (hi : ConnLists frames w l f) :
    ∃ f', ConnLists frames (tcpNewConn frames w).2 l f' := by
  unfold tcpNewConn
  by_cases hfree : w.freeConnList = 0
  · -- a new page: no connection that is known
    have hnew : frames w.bufs.requests ∉ (history w.log).known := by
      intro hmem
      obtain ⟨k, hk, heq⟩ := hi.pages _ hmem
      have := hf.injective heq
      omega
    have hnl : frames w.bufs.requests ∉ l := fun hmem => hnew ((hi.known _).mpr (.inl hmem))
    have hnf : frames w.bufs.requests ∉ f := fun hmem => hnew ((hi.known _).mpr (.inr (.inl hmem)))
    simp only [if_neg (not_not.mpr hfree)]
    refine ⟨_, hi.handOut (frames w.bufs.requests) ⟨fun q hq => ?_, Nat.le_succ _, rfl⟩ rfl ?_
      (by simp [TcpWorld.emit, TcpConn.zero]) hnl ⟨_, Nat.lt_succ_self _, rfl⟩⟩
    · simp [TcpWorld.emit, hq]
    · have hsame : f.filter (· ≠ frames w.bufs.requests) = f := by
        rw [List.filter_eq_self]
        intro q hq
        simpa using fun heq : q = frames w.bufs.requests => hnf (heq ▸ hq)
      rw [hsame]
      apply hi.free.congr
      intro q hq
      have hne : q ≠ frames w.bufs.requests := fun heq => hnf (heq ▸ hq)
      simp [TcpWorld.emit, hne]
  · -- the head of the free list
    obtain ⟨k, rfl, hrest⟩ := hi.free.exists_cons hfree
    have hnk := (List.nodup_cons.mp hi.free.nodup).1
    have hnl : w.freeConnList ∉ l := fun hmem => hi.apart _ hmem List.mem_cons_self
    have hknown := (hi.known w.freeConnList).mpr (.inr (.inl List.mem_cons_self))
    simp only [if_pos hfree]
    refine ⟨_, hi.handOut w.freeConnList ⟨fun q hq => ?_, Nat.le_refl _, rfl⟩ rfl ?_
      (by simp [TcpWorld.emit, TcpConn.zero]) hnl (hi.pages _ hknown)⟩
    · simp [TcpWorld.emit, hq]
    · have hsame : (w.freeConnList :: k).filter (· ≠ w.freeConnList) = k := by
        rw [List.filter_cons_of_neg (by simp), List.filter_eq_self]
        intro q hq
        simpa using fun heq : q = w.freeConnList => hnk (heq ▸ hq)
      rw [hsame]
      apply hrest.congr
      intro q hq
      have hne : q ≠ w.freeConnList := fun heq => hnk (heq ▸ hq)
      simp [TcpWorld.emit, hne]

/-- A connection has an address. -/
theorem ConnLists.ne_zero (hf : FramesOk frames) (hi : ConnLists frames w l f)
    (hp : p ∈ (history w.log).known) : p ≠ 0 := by
  obtain ⟨k, -, rfl⟩ := hi.pages p hp
  exact hf.ne_zero k

/-- A new connection goes in front of the free list. -/
theorem ConnLists.release (hf : FramesOk frames) (hi : ConnLists frames w l f)
    (h : Changes w conn (.freeConn conn) w') (hlist : w'.tcpConnList = w.tcpConnList)
    (hfree : w'.freeConnList = conn) (hnext : (w'.conn conn).next = w.freeConnList)
    (hclosed : (w'.conn conn).state = .closed) (hconn : conn ∈ (history w.log).unconnected) :
    ConnLists frames w' l (conn :: f) := by
  obtain ⟨hnl, hnf⟩ := hi.waits conn hconn
  have hknown := (hi.known conn).mpr (.inr (.inr hconn))
  -- the connection moves from the unconnected ones to the free list
  refine ⟨?_, ?_, ?_, ?_, ?_, ?_, ?_, ?_, ?_⟩
  · rw [hlist]
    exact h.chain hi.list hnl
  · rw [hfree]
    refine ⟨rfl, hi.ne_zero hf hknown, ?_⟩
    show Chain _ 0 (w'.conn conn).next f
    rw [hnext]
    exact h.chain hi.free hnf
  · intro p hp hpf
    obtain rfl | hpf := List.mem_cons.mp hpf
    · exact hnl hp
    · exact hi.apart p hp hpf
  · intro p hp
    simp only [h.log, history_freeConn, List.mem_filter, decide_eq_true_eq] at hp
    simpa [hp.2] using hi.waits p hp.1
  · intro p
    simp only [h.log, history_freeConn, List.mem_cons, List.mem_filter, hi.known p]
    by_cases hp : p = conn <;> simp [hp, hconn]
  · intro p hp
    simp only [h.log, history_freeConn] at hp
    by_cases hpc : p = conn
    · subst hpc
      exact ⟨fun _ => hnl, fun _ => hclosed⟩
    · rw [h.state hpc]
      exact hi.closed p hp
  · intro p
    simp only [h.log, history_freeConn, List.mem_cons, hi.released p]
  · intro p hp q hq
    rw [h.tuple fun e => hnl (e ▸ hp), h.tuple fun e => hnl (e ▸ hq)]
    exact hi.tuples p hp q hq
  · intro p hp
    simp only [h.log, history_freeConn] at hp
    obtain ⟨k, hk, rfl⟩ := hi.pages p hp
    exact ⟨k, Nat.lt_of_lt_of_le hk h.requests, rfl⟩

/-- A new connection goes in front of `tcp_conn_list` and is open. -/
theorem ConnLists.connected (hf : FramesOk frames) (hi : ConnLists frames w l f)
    (h : Changes w conn (.connect conn) w') (hlist : w'.tcpConnList = conn)
    (hfree : w'.freeConnList = w.freeConnList) (hnext : (w'.conn conn).next = w.tcpConnList)
    (hopen : (w'.conn conn).state ≠ .closed) (hconn : conn ∈ (history w.log).unconnected)
    (htuple : ∀ q ∈ l, (w.conn q).tuple ≠ (w'.conn conn).tuple) :
    ConnLists frames w' (conn :: l) f := by
  obtain ⟨hnl, hnf⟩ := hi.waits conn hconn
  have hknown := (hi.known conn).mpr (.inr (.inr hconn))
  -- the connection moves from the unconnected ones to `tcp_conn_list`
  refine ⟨?_, ?_, ?_, ?_, ?_, ?_, ?_, ?_, ?_⟩
  · rw [hlist]
    refine ⟨rfl, hi.ne_zero hf hknown, ?_⟩
    show Chain _ 0 (w'.conn conn).next l
    rw [hnext]
    exact h.chain hi.list hnl
  · rw [hfree]
    exact h.chain hi.free hnf
  · intro p hp
    obtain rfl | hp := List.mem_cons.mp hp
    · exact hnf
    · exact hi.apart p hp
  · intro p hp
    simp only [h.log, history_connect, List.mem_filter, decide_eq_true_eq] at hp
    simpa [hp.2] using hi.waits p hp.1
  · intro p
    simp only [h.log, history_connect, List.mem_cons, List.mem_filter, hi.known p]
    by_cases hp : p = conn <;> simp [hp, hconn]
  · intro p hp
    simp only [h.log, history_connect] at hp
    by_cases hpc : p = conn
    · subst hpc
      simp [hopen]
    · rw [h.state hpc, hi.closed p hp]
      simp [hpc]
  · intro p
    simp only [h.log, history_connect, hi.released p]
  -- the new tuple is none of the old ones
  · intro p hp q hq
    obtain rfl | hpl := List.mem_cons.mp hp
    · obtain rfl | hql := List.mem_cons.mp hq
      · exact fun _ => rfl
      · rw [h.tuple fun e => hnl (e ▸ hql)]
        exact fun heq => absurd heq.symm (htuple q hql)
    · rw [h.tuple fun e => hnl (e ▸ hpl)]
      obtain rfl | hql := List.mem_cons.mp hq
      · exact fun heq => absurd heq (htuple p hpl)
      · rw [h.tuple fun e => hnl (e ▸ hql)]
        exact hi.tuples p hpl q hql
  · intro p hp
    simp only [h.log, history_connect] at hp
    obtain ⟨k, hk, rfl⟩ := hi.pages p hp
    exact ⟨k, Nat.lt_of_lt_of_le hk h.requests, rfl⟩

/-- Only `prev` of the head changes when a connection is put in front. -/
theorem quiet_prev (w : TcpWorld) (head conn : Nat) :
    Quiet w (if head ≠ 0 then w.setConn head { w.conn head with prev := conn } else w) := by
  split
  · exact quiet_setConn rfl
  · exact .refl w

/-- `tcp_close` of a connection that was never connected. -/
theorem ConnLists.freeLink (hf : FramesOk frames) (hi : ConnLists frames w l f)
    (hconn : conn ∈ (history w.log).unconnected) :
    ConnLists frames (tcpFreeLink w conn) l (conn :: f) := by
  have hclosed : (w.conn conn).state = .closed :=
    (hi.closed conn ((hi.known conn).mpr (.inr (.inr hconn)))).mpr (hi.waits conn hconn).1
  have hq := quiet_prev w w.freeConnList conn
  unfold tcpFreeLink
  simp only
  generalize (if w.freeConnList ≠ 0 then
    w.setConn w.freeConnList { w.conn w.freeConnList with prev := conn } else w) = w₁ at hq ⊢
  refine hi.release hf ⟨fun q hne => ?_, hq.requests, ?_⟩ hq.list rfl ?_ ?_ hconn
  · rw [← hq.key q]
    simp [TcpWorld.emit, hne]
  · show history (.freeConn conn :: w₁.log) = _
    simp only [history_freeConn, hq.history]
  · simp [TcpWorld.emit, hq.free]
  · simpa [TcpWorld.emit] using (hq.state conn).mpr hclosed

/-- What `tcp_set_state` leaves alone. -/
theorem tcpSetState_frame (w : TcpWorld) (conn : Nat) (state : TcpState) :
    (∀ q, (tcpSetState w conn state).conn q = (w.setState conn state).conn q) ∧
      (tcpSetState w conn state).tcpConnList = w.tcpConnList ∧
      (tcpSetState w conn state).freeConnList = w.freeConnList ∧
      (tcpSetState w conn state).bufs = w.bufs ∧
      history (tcpSetState w conn state).log = history w.log := by
  unfold tcpSetState
  simp only
  split <;> exact ⟨fun _ => rfl, rfl, rfl, rfl, rfl⟩

/-- `tcp_connect` -/
theorem ConnLists.connect (hf : FramesOk frames) (hi : ConnLists frames w l f) {addr : Ipv4Addr}
    {port : BitVec 16} (hok : ConnectOk w conn addr port) {r : Bool × TcpWorld}
    (h : tcpConnect frames w conn addr port = some r) : ∃ l', ConnLists frames r.2 l' f := by
  obtain ⟨route, hroute, rfl⟩ := Option.map_eq_some_iff.mp h
  split
  · exact ⟨l, hi⟩
  rename_i hr
  obtain ⟨hconn, htuple⟩ := hok route hroute hr
  refine ⟨conn :: l, ?_⟩
  extract_lets c w₁ w₂ w₃
  -- the structure is filled in, linked, the SYN is sent, the state is set
  have hlink : Changes w conn (.connect conn) w₂ ∧ w₂.tcpConnList = conn ∧
      w₂.freeConnList = w.freeConnList ∧ (w₂.conn conn).next = w.tcpConnList ∧
      (w₂.conn conn).tuple = connectTuple w route addr port := by
    have hq := quiet_prev w₁ w₁.tcpConnList conn
    simp only [w₂, tcpConnectLink]
    generalize (if w₁.tcpConnList ≠ 0 then
      w₁.setConn w₁.tcpConnList { w₁.conn w₁.tcpConnList with prev := conn } else w₁) = u at hq ⊢
    refine ⟨⟨fun q hne => ?_, hq.requests, ?_⟩, rfl, hq.free, ?_, ?_⟩
    · have := hq.key q
      simpa [TcpWorld.emit, w₁, hne] using this
    · show history (.connect conn :: u.log) = _
      simp only [history_connect, hq.history]
      rfl
    · simp [TcpWorld.emit, hq.list, w₁]
      rfl
    · have := hq.tuple conn
      simpa [TcpWorld.emit, w₁, c, tcpConnectConn, connectTuple, TcpConn.tuple] using this
  obtain ⟨hch, hlist, hfree, hnext, htup⟩ := hlink
  have hsend : Quiet w₂ w₃ := tcpSendPacket_quiet ..
  obtain ⟨hst, hstl, hstf, hstb, hsth⟩ := tcpSetState_frame w₃ conn .synSent
  have hch₃ := hch.trans_quiet hsend
  apply hi.connected hf _ (hstl.trans (hsend.list.trans hlist))
    (hstf.trans (hsend.free.trans hfree))
  · rw [hst]
    simpa [TcpWorld.setState] using (hsend.next conn).trans hnext
  · rw [hst]
    simp [TcpWorld.setState]
  · exact hconn
  · intro q hq
    have hknown := (hi.known q).mpr (.inl hq)
    have htup' : ((tcpSetState w₃ conn .synSent).conn conn).tuple =
        connectTuple w route addr port := by
      rw [hst, ← htup, ← hsend.tuple conn]
      simp [TcpWorld.setState, TcpConn.tuple]
    rw [htup']
    exact htuple q hknown fun hc => (hi.closed q hknown).mp hc hq
  · refine ⟨fun q hne => ?_, hstb ▸ hch₃.requests, hsth.trans hch₃.log⟩
    rw [hst, ← hch₃.key q hne]
    simp [TcpWorld.setState, hne]

/-- Closing a connection that is not released at once. -/
theorem tcpClose_quiet (hstate : (w.conn conn).state ∉ [.closed, .listen, .synSent])
    (h : tcpClose frames w conn = some w') : Quiet w w' := by
  have hopen : (w.conn conn).state ≠ .closed := fun heq => hstate (by simp [heq])
  -- the three closing states send a FIN and go on to a state that is not closed
  have hfin : ∀ state, state ≠ .closed → Quiet w (tcpSetState
      (tcpSendPacket frames w conn (w.conn conn).snd.nxt (TCP_FIN ||| TCP_ACK) []) conn state) := by
    intro state hs
    have hsend := tcpSendPacket_quiet frames w conn (w.conn conn).snd.nxt (TCP_FIN ||| TCP_ACK) []
    exact hsend.trans (tcpSetState_quiet ((not_congr (hsend.state conn)).mpr hopen) state hs)
  unfold tcpClose at h
  split at h
  case h_1 heq => simp [heq] at hstate
  case h_2 heq => simp [heq] at hstate
  case h_3 heq => simp [heq] at hstate
  case h_4 | h_5 =>
    cases h
    exact hfin .finWait1 nofun
  case h_11 =>
    cases h
    exact hfin .lastAck nofun
  all_goals
    cases h
    exact quiet_emit_if rfl

/-- `tcp_close` -/
theorem ConnLists.close (hf : FramesOk frames) (hi : ConnLists frames w l f) (hok : CloseOk w conn)
    (h : tcpClose frames w conn = some w') : ∃ f', ConnLists frames w' l f' := by
  obtain hconn | hstate := hok
  · have hclosed : (w.conn conn).state = .closed :=
      (hi.closed conn ((hi.known conn).mpr (.inr (.inr hconn)))).mpr (hi.waits conn hconn).1
    simp only [tcpClose, hclosed, tcpFree, ne_eq, not_true_eq_false, if_false] at h
    cases h
    exact ⟨_, hi.freeLink hf hconn⟩
  · exact ⟨f, hi.quiet (tcpClose_quiet hstate h)⟩

/-! ## Packets -/

/-- The payload length, also when the header length is a lie. -/
theorem len32_advance_tcpSwap {b : NetBuf} (data : List Byte) (hdata : b.data = tcpSwap data)
    (hdef : b.deficit = 0) (hlen : 20 ≤ data.length) (n : Nat) :
    (b.advance n).len32 = BitVec.ofNat 32 data.length - BitVec.ofNat 32 n := by
  have hswap := length_tcpSwap hlen
  simp only [NetBuf.advance, NetBuf.len32, hdata, hdef, List.length_drop, hswap, Nat.zero_add]
  -- one of the two truncated differences is 0
  obtain hle | hle := Nat.le_total n data.length
  · obtain ⟨k, hk⟩ := Nat.exists_eq_add_of_le hle
    rw [hk, Nat.add_sub_cancel_left, Nat.sub_eq_zero_of_le (Nat.le_add_right n k), BitVec.ofNat_add]
    bv_omega
  · obtain ⟨k, rfl⟩ := Nat.exists_eq_add_of_le hle
    rw [Nat.add_sub_cancel_left, Nat.sub_eq_zero_of_le (Nat.le_add_right _ k), BitVec.ofNat_add]
    bv_omega

/-- A packet that releases no connection. -/
theorem tcpRecv_quiet {src dst : Ipv4Addr} {protocol : Byte} {packet : Nat}
    (hdef : (w.bufs.buf packet).deficit = 0)
    (hfree : ¬ RecvFrees w src dst protocol (w.bufs.buf packet).data)
    (h : tcpRecv frames w src dst protocol packet = some w') : Quiet w w' := by
  unfold tcpRecv at h
  simp only at h
  -- a segment too short, or with a bad checksum, is dropped
  split at h
  · cases h
    exact .refl w
  rename_i hlen
  split at h
  · cases h
    exact .refl w
  rename_i hsum
  generalize hdata : (w.bufs.buf packet).data = data at h hfree hlen hsum
  have hset : ∀ x, Quiet w (w.setBuf packet x) :=
    fun x => ⟨fun _ => rfl, rfl, rfl, Nat.le_refl _, rfl⟩
  obtain ⟨conn, hfind, h⟩ := Option.bind_eq_some_iff.mp h
  rw [tcpFind_setBuf] at hfind
  apply (hset _).trans
  -- no connection answers with a reset; otherwise it is the connection's turn
  split at h
  · exact tcpRecvClosed_quiet h
  rename_i hconn
  obtain ⟨h0, hopen⟩ := not_or.mp hconn
  apply tcpRecvConn_quiet hopen _ h
  have hlen : 20 ≤ data.length := by omega
  rw [len32_advance_tcpSwap data (by simp [TcpWorld.setBuf])
    (by simpa [TcpWorld.setBuf] using hdef) hlen]
  intro hseg
  apply hfree
  exact ⟨hlen, by simpa using hsum, conn, hfind, h0, hseg⟩

/-- A buffer just allocated is empty. -/
theorem netAllocBuf_deficit (frames : Nat → Nat) (b : BufPool) :
    ((netAllocBuf frames b).2.buf (netAllocBuf frames b).1).deficit = 0 := by
  unfold netAllocBuf
  simp

/-- A segment that releases nothing is quiet. -/
theorem tcpDeliver_quiet {src dst : Ipv4Addr} {protocol : Byte} {data : List Byte}
    (hfree : ¬ RecvFrees w src dst protocol data)
    (h : tcpDeliver frames w src dst protocol data = some w') : Quiet w w' := by
  unfold tcpDeliver at h
  simp only at h
  obtain ⟨w₂, hrecv, rfl⟩ := Option.map_eq_some_iff.mp h
  have halloc := netAllocBuf_requests frames w.bufs
  have hdef := netAllocBuf_deficit frames w.bufs
  generalize (netAllocBuf frames w.bufs).1 = packet at *
  generalize (netAllocBuf frames w.bufs).2 = b at *
  -- the packet is written into a buffer of its own, which is released behind the receiver
  have hset : Quiet w (w.setBufs (b.setBuf packet { b.buf packet with data := data })) :=
    quiet_setBufs halloc
  have hq := tcpRecv_quiet (by simpa [TcpWorld.setBufs] using hdef) (fun hr => hfree ?_) hrecv
  · exact (hset.trans hq).trans (quiet_setBufs (Nat.le_of_eq (netFreeBuf_requests _ _).symm))
  · have hbuf : ((w.setBufs (b.setBuf packet { b.buf packet with data := data })).bufs.buf
      packet).data =
        data := by simp [TcpWorld.setBufs]
    rw [hbuf] at hr
    simp only [RecvFrees, tcpFind_setBufs] at hr ⊢
    exact hr

/-! ## Runs -/

/-- One admitted call. -/
theorem tcpStep_lists (hf : FramesOk frames) (hi : ConnLists frames w l f) {op : TcpOp}
    (hok : ListsOk w op) (h : tcpStep frames w op = some w') :
    ∃ l' f', ConnLists frames w' l' f' := by
  cases op with
  | newConn =>
    cases h
    exact ⟨l, hi.newConn hf⟩
  | connect conn addr port =>
    obtain ⟨r, hr, rfl⟩ := Option.map_eq_some_iff.mp h
    obtain ⟨l', hi'⟩ := hi.connect hf hok hr
    exact ⟨l', f, hi'⟩
  | send conn data =>
    cases h
    exact ⟨l, f, hi.quiet (tcpSendPacket_quiet ..)⟩
  | close conn => exact ⟨l, hi.close hf hok h⟩
  | recv src dst protocol data => exact ⟨l, f, hi.quiet (tcpDeliver_quiet hok h)⟩
  | poll =>
    -- nothing has expired
    obtain rfl : w' = w :=
      tcpPollFrom_some hi.list (fun q hq => hok q ((hi.known q).mpr (.inl hq))) h
    exact ⟨l, f, hi⟩
  | tick _ | routes _ | intf _ =>
    cases h
    exact ⟨l, f, hi.quiet ⟨fun _ => rfl, rfl, rfl, Nat.le_refl _, rfl⟩⟩
  | callbacks conn _ _ _ _ =>
    cases h
    exact ⟨l, f, hi.quiet (quiet_setConn rfl)⟩
  | release packet =>
    cases h
    apply Exists.intro l
    apply Exists.intro f
    exact hi.quiet ⟨fun _ => rfl, rfl, rfl, Nat.le_of_eq (netFreeBuf_requests _ _).symm, rfl⟩

/-- What is promised of the connection lists. -/
structure TcpListsOk (w : TcpWorld) : Prop where
  /-- Both lists are finite and share no node. -/
  lists : ∃ l f, Chain (fun p => (w.conn p).next) 0 w.tcpConnList l ∧
    Chain (fun p => (w.conn p).next) 0 w.freeConnList f ∧ (∀ p ∈ l, p ∉ f) ∧
    -- open connections are listed once, released ones are on the free list once
    (∀ p ∈ (history w.log).known, (w.conn p).state ≠ .closed → l.count p = 1) ∧
    (∀ p ∈ (history w.log).released, f.count p = 1 ∧ p ∉ l)
  /-- `tcp_find` returns every open connection. -/
  found : ∀ p ∈ (history w.log).known, (w.conn p).state ≠ .closed →
    tcpFind w (w.conn p).remoteAddr (w.conn p).remotePort (w.conn p).localAddr
      (w.conn p).localPort =
      some p
  /-- The walks end.  `tcp_poll` also walks the segments of the connections it
      releases: here there are none. -/
  find_ends : ∀ src srcPort dst dstPort, (tcpFind w src srcPort dst dstPort).isSome
  poll_ends : (∀ p ∈ (history w.log).known, Expired w (w.conn p) → (w.conn p).resequence = 0) →
    (tcpPoll w).isSome

/-- The lists are as they should be. -/
theorem ConnLists.ok (hi : ConnLists frames w l f) (hw : w.bufs.requests < 4294967296) :
    TcpListsOk w := by
  -- every connection that is known and not closed is on the list
  have hlisted : ∀ p ∈ (history w.log).known, (w.conn p).state ≠ .closed → p ∈ l :=
    fun p hp hs => not_not.mp (mt (hi.closed p hp).mpr hs)
  refine ⟨⟨l, f, hi.list, hi.free, hi.apart, ?_, ?_⟩, ?_, ?_, ?_⟩
  · intro p hp hs
    exact List.count_eq_one_of_mem hi.list.nodup (hlisted p hp hs)
  · intro p hp
    have hpf := (hi.released p).mp hp
    exact ⟨List.count_eq_one_of_mem hi.free.nodup hpf, fun hpl => hi.apart p hpl hpf⟩
  · intro p hp hs
    exact hi.tcpFind_self hw (hlisted p hp hs)
  · intro src srcPort dst dstPort
    rw [hi.tcpFind_eq hw]
    rfl
  · intro hres
    apply tcpPollFrom_isSome hi.list (Nat.lt_of_le_of_lt hi.length_le hw) _ rfl fun _ _ => rfl
    exact fun q hq => hres q ((hi.known q).mpr (.inl hq))

/-- A machine right after boot, with one interface `10.0.2.15` and a default route. -/
def TcpWorld.boot : TcpWorld where
  conn := fun _ => .zero
  tcpConnList := 0
  freeConnList := 0
  bufs := ⟨0, 0, fun _ => ⟨0, [], 0, 0, 0, 0⟩, 0⟩
  routes := ⟨1, fun p => ⟨if p = 1 then 2 else 0, 0, ⟨0⟩, ⟨0⟩, .ofBytes 10 0 2 2, 1⟩⟩
  intf := fun _ => ⟨⟨2, 0, 0, 0, 0, 1⟩, .ofBytes 10 0 2 15, .ofBytes 10 0 2 255⟩
  nextPort := 0
  baseIsn := 0
  ticks := 0
  log := []

/-- A packet of the peer `192.0.2.1`, from port 80 to port 1 of `10.0.2.15`. -/
def peerPacket (seq ack : BitVec 32) (flags : BitVec 8) (data : List Byte) : List Byte :=
  (tcpSegment { TcpConn.zero with
    localAddr := .ofBytes 192 0 2 1
    remoteAddr := .ofBytes 10 0 2 15
    localPort := 80
    remotePort := 1
    rcv := ⟨ack, 0, 0, 0⟩ } seq flags data).toBytes

end MishaOS
