import MishaOS.Spec.TcpAnswer

/-!
# Two hosts that talk

An established connection between two hosts that run this code.  Both users call
`tcp_send` at any time, and the network loses, repeats and reorders segments as it
likes.  Neither host sends anything twice, so what is lost is lost; but nothing
else than a beginning of what one user has sent gets to the other, and no byte is
acknowledged before it has.

## Key results

- `TalkInv.step`: the invariant of the two hosts and the segments between them.
- `tcp_talk_in_order`: what both ends have received and acknowledged after every run.
-/

namespace MishaOS

open Serial

/-! ## The two hosts -/

inductive Side
  | left | right
deriving DecidableEq

/-- The other host. -/
def Side.peer : Side → Side
  | .left => .right
  | .right => .left

/-- The peer of the peer is the host itself. -/
@[simp] theorem Side.peer_peer (e : Side) : e.peer.peer = e := by cases e <;> rfl

/-- The peer is another host. -/
@[simp] theorem Side.peer_ne (e : Side) : e.peer ≠ e := by cases e <;> decide

/-- There are two hosts. -/
theorem Side.eq_or (e e' : Side) : e' = e ∨ e' = e.peer := by cases e <;> cases e' <;> decide

structure TcpTalk where
  host : Side → TcpWorld
  /-- The segments on the way to a host, oldest first. -/
  net : Side → List TcpSegment
  /-- What the user of a host has passed to `tcp_send`. -/
  said : Side → List Byte

inductive TalkOp
  | send (e : Side) (data : List Byte)
  /-- The `i`-th of the segments on the way to `e` arrives. -/
  | arrive (e : Side) (i : Nat)
  /-- It is lost. -/
  | lose (e : Side) (i : Nat)
  /-- It will arrive once more. -/
  | copy (e : Side) (i : Nat)
  /-- A driver of `e` has transmitted a packet. -/
  | release (e : Side) (packet : Nat)

namespace TcpTalk

def setNet (s : TcpTalk) (e : Side) (segs : List TcpSegment) : TcpTalk :=
  { s with net := Function.update s.net e segs }

/-- The host `e` is in state `w` now; what it has sent is on its way. -/
def setHost (s : TcpTalk) (e : Side) (w : TcpWorld) : TcpTalk :=
  { s with host := Function.update s.host e w }.setNet e.peer
    (s.net e.peer ++ (segsSince (s.host e) w).reverse)

def say (s : TcpTalk) (e : Side) (data : List Byte) : TcpTalk :=
  { s with said := Function.update s.said e (s.said e ++ data) }

section Fields

variable (s : TcpTalk) (e : Side) (w : TcpWorld) (segs : List TcpSegment) (data : List Byte)

/-- The network is no part of the hosts. -/
@[simp] theorem setNet_host : (s.setNet e segs).host = s.host := rfl

/-- Nor is it a part of what has been said. -/
@[simp] theorem setNet_said : (s.setNet e segs).said = s.said := rfl

/-- The segments on the way to one host. -/
@[simp] theorem setNet_net : (s.setNet e segs).net = Function.update s.net e segs := rfl

/-- The host that has acted. -/
@[simp] theorem setHost_host : (s.setHost e w).host e = w := by simp [setHost]

/-- The other one has not. -/
@[simp] theorem setHost_host_peer : (s.setHost e w).host e.peer = s.host e.peer := by simp [setHost]

/-- Acting says nothing by itself. -/
@[simp] theorem setHost_said : (s.setHost e w).said = s.said := rfl

/-- Nothing is on the way to the host that has acted. -/
@[simp] theorem setHost_net : (s.setHost e w).net e = s.net e :=
  Function.update_of_ne (Side.peer_ne e).symm _ s.net

/-- What it has sent is on the way to its peer. -/
@[simp] theorem setHost_net_peer :
    (s.setHost e w).net e.peer = s.net e.peer ++ (segsSince (s.host e) w).reverse :=
  Function.update_self e.peer _ s.net

/-- Saying something changes no host by itself. -/
@[simp] theorem say_host : (s.say e data).host = s.host := rfl

/-- Nor does it change the network. -/
@[simp] theorem say_net : (s.say e data).net = s.net := rfl

/-- What has been said is appended. -/
@[simp] theorem say_said : (s.say e data).said = Function.update s.said e (s.said e ++ data) := rfl

end Fields

end TcpTalk

/-- `p e` is the connection of host `e`. -/
def talkStep (frames : Side → Nat → Nat) (p : Side → Nat) (s : TcpTalk) : TalkOp → Option TcpTalk
  | .send e data => some ((s.setHost e (tcpSend (frames e) (s.host e) (p e) data)).say e data)
  | .arrive e i => (s.net e)[i]?.bind fun seg =>
      (deliverSegment (frames e) seg (s.host e)).map ((s.setNet e ((s.net e).eraseIdx i)).setHost e)
  | .lose e i => some (s.setNet e ((s.net e).eraseIdx i))
  | .copy e i => (s.net e)[i]?.map fun seg => s.setNet e (s.net e ++ [seg])
  | .release e packet => some (s.setHost e
      (((s.host e).setBufs (netFreeBuf (s.host e).bufs packet)).emit (.release packet)))

/-- A segment holds at most 1460 bytes, and less than half the range of the sequence numbers
    is sent. -/
def TalkOk (s : TcpTalk) : TalkOp → Prop
  | .send e data => data.length ≤ 1460 ∧ (s.said e).length + data.length < 2147483648
  | .release e packet => packet ∈ inFlight (s.host e).log
  | _ => True

instance (s : TcpTalk) (op : TalkOp) : Decidable (TalkOk s op) :=
  match op with
  | .send _ _ => inferInstanceAs (Decidable (_ ∧ _))
  | .release e packet => inferInstanceAs (Decidable (packet ∈ inFlight (s.host e).log))
  | .arrive _ _ | .lose _ _ | .copy _ _ => .isTrue trivial

/-- The structure of the connection at `e`. -/
def TcpTalk.conn (s : TcpTalk) (p : Side → Nat) (e : Side) : TcpConn := (s.host e).conn (p e)

/-- What `on_data` of host `e` has been given. -/
def TcpTalk.got (s : TcpTalk) (p : Side → Nat) (e : Side) : List Byte :=
  received (p e) (s.host e).log

/-- The connection is open, nothing has been said and nothing is on its way. -/
structure TalkStart (frames : Side → Nat → Nat) (p : Side → Nat) (s : TcpTalk) : Prop where
  start : ∀ e, StreamStart (frames e) (s.conn p e).rcv.nxt (p e) (s.host e)
  mirrors : ∀ e, Mirrors (s.conn p e.peer) (s.conn p e)
  nxt : ∀ e, (s.conn p e).snd.nxt = (s.conn p e.peer).rcv.nxt
  una : ∀ e, (s.conn p e).snd.una = (s.conn p e).snd.nxt
  net : ∀ e, s.net e = []
  said : ∀ e, s.said e = []

/-! ## More of the stream -/

section More

variable {frames : Nat → Nat} {S : List Byte} {n₀ : BitVec 32} {conn k : Nat} {w w' : TcpWorld}

/-- A segment still carries its part of a longer stream. -/
theorem Carries.append {x : NetBuf} {off len : Nat} (h : Carries S n₀ x off len)
    (more : List Byte) :
    Carries (S ++ more) n₀ x off len := by
  have hle := h.le
  refine ⟨h.seq, ?_, by rw [List.length_append]; omega, h.deficit⟩
  rw [h.data]
  obtain hzero | hle := hle
  · rw [hzero, slice, slice, List.take_zero, List.take_zero]
  · exact (slice_append hle more).symm

/-- A receiver of the stream is one of every longer stream. -/
theorem Receiving.append (h : Receiving frames S n₀ conn w) (more : List Byte) :
    Receiving frames (S ++ more) n₀ conn w := by
  obtain ⟨k, q, hs⟩ := h.stream
  refine ⟨⟨k, q, ?_⟩, h.ne_zero, h.state, h.found⟩
  have hq := hs.queue
  have hle := hs.le
  exact ⟨hs.wnd, hs.nxt, hs.onData, ⟨hq.chain, fun t ht => (hq.carries t ht).append more, hq.sorted,
    hq.window, hq.short⟩,
    hs.refs, by rw [hs.received, List.take_append_of_le_length hle],
    by rw [List.length_append]; omega⟩

/-- What has been received is the front of the stream. -/
theorem Receiving.received (h : Receiving frames S n₀ conn w) : ∃ k ≤ S.length,
    MishaOS.received conn w.log = S.take k ∧ (MishaOS.received conn w.log).length = k ∧
      (w.conn conn).rcv.nxt = num n₀ k := by
  obtain ⟨k, q, hs⟩ := h.stream
  exact ⟨k, hs.le, hs.received, hs.length_received, hs.nxt⟩

/-- Sending leaves the receiving side alone. -/
theorem Receiving.send (hf : FramesOk frames) (h : Receiving frames S n₀ conn w)
    (data : List Byte) :
    Receiving frames S n₀ conn (tcpSend frames w conn data) := by
  obtain ⟨k, q, hs⟩ := h.stream
  exact h.of_quiet (tcpSendPacket_quiet frames w conn _ TCP_ACK data)
    ((tcpSendPacket_state ..).trans h.state)
    (hs.sendPacket hf _ _ _)

end More

/-! ## The invariant -/

/-- `seg` is on its way to the connection `c`: part of the stream `S`, whose first byte has number
    `n`, with an acknowledgement of at most `bound` bytes of the stream that starts at `m`. -/
def Voiced (S : List Byte) (n m : BitVec 32) (bound : Nat) (c : TcpConn)
    (seg : TcpSegment) : Prop :=
  ∃ (r : TcpConn) (off a : Nat) (data : List Byte), seg = r.plain (num n off) data ∧ Mirrors r c ∧
    Part S off data ∧ data.length ≤ 1460 ∧ r.rcv.nxt = num m a ∧ a ≤ bound

/-- Only addresses and ports matter. -/
theorem Mirrors.congr {r r' c c' : TcpConn} (h : Mirrors r c) (hr : r'.tuple = r.tuple)
    (hc : c'.tuple = c.tuple) :
    Mirrors r' c' := by
  simp only [TcpConn.tuple, Prod.mk.injEq] at hr hc
  obtain ⟨hra, hrp, hla, hlp⟩ := hr
  obtain ⟨hra', hrp', hla', hlp'⟩ := hc
  exact ⟨by rw [hla, hra', h.localAddr], by rw [hra, hla', h.remoteAddr],
    by rw [hlp, hrp', h.localPort],
    by rw [hrp, hlp', h.remotePort]⟩

/-- A segment is still right when more is said. -/
theorem Voiced.mono {S : List Byte} {n m : BitVec 32} {bound bound' : Nat} {c c' : TcpConn}
    {seg : TcpSegment}
    (h : Voiced S n m bound c seg) (more : List Byte) (hbound : bound ≤ bound')
    (hc : c'.tuple = c.tuple) :
    Voiced (S ++ more) n m bound' c' seg := by
  obtain ⟨r, off, a, data, heq, hm, hpart, hdata, hack, ha⟩ := h
  exact ⟨r, off, a, data, heq, hm.congr rfl hc, hpart.append more, hdata, hack, ha.trans hbound⟩

variable {frames : Side → Nat → Nat} {p : Side → Nat} {n₀ : Side → BitVec 32}
    {s s' : TcpTalk} {e : Side}

/-- `n₀ e` is the number of the first byte that `e` receives. -/
structure TalkInv (frames : Side → Nat → Nat) (p : Side → Nat) (n₀ : Side → BitVec 32)
    (s : TcpTalk) : Prop where
  recv : ∀ e, Receiving (frames e) (s.said e.peer) (n₀ e) (p e) (s.host e)
  mirrors : ∀ e, Mirrors (s.conn p e.peer) (s.conn p e)
  nxt : ∀ e, (s.conn p e).snd.nxt = num (n₀ e.peer) (s.said e).length
  una : ∀ e, ∃ u ≤ (s.got p e.peer).length, (s.conn p e).snd.una = num (n₀ e.peer) u
  short : ∀ e, (s.said e).length < 2147483648
  net : ∀ e, ∀ seg ∈ s.net e, Voiced (s.said e.peer) (n₀ e) (n₀ e.peer) (s.got p e.peer).length
    (s.conn p e) seg

/-- What a step of one host may do: it says more, hears more, and sends parts of what it has
    said with an acknowledgement of what it has heard. -/
structure Moves (p : Side → Nat) (n₀ : Side → BitVec 32) (e : Side) (s s' : TcpTalk)
    (more : List Byte) : Prop where
  host : s'.host e.peer = s.host e.peer
  said : s'.said = Function.update s.said e (s.said e ++ more)
  tuple : (s'.conn p e).tuple = (s.conn p e).tuple
  nxt : (s'.conn p e).snd.nxt = (s.conn p e).snd.nxt + BitVec.ofNat 32 more.length
  una : (s'.conn p e).snd.una = (s.conn p e).snd.una ∨
    ∃ u ≤ (s.got p e.peer).length, (s'.conn p e).snd.una = num (n₀ e.peer) u
  got : (s.got p e).length ≤ (s'.got p e).length
  old : ∀ seg ∈ s'.net e, seg ∈ s.net e
  new : ∀ seg ∈ s'.net e.peer, seg ∈ s.net e.peer ∨ ∃ (r : TcpConn) (off : Nat) (data : List Byte),
    seg = r.plain (num (n₀ e.peer) off) data ∧ r.tuple = (s'.conn p e).tuple ∧
      Part (s'.said e) off data ∧
      data.length ≤ 1460 ∧ r.rcv.nxt = (s'.conn p e).rcv.nxt

/-- A host moves, and everything sent before is still right. -/
theorem TalkInv.move (more : List Byte) (h : TalkInv frames p n₀ s) (hm : Moves p n₀ e s s' more)
    (hshort : (s.said e).length + more.length < 2147483648)
    (hrecv : Receiving (frames e) (s.said e.peer) (n₀ e) (p e) (s'.host e)) :
    TalkInv frames p n₀ s' := by
  -- only `e` has said more, and only its connection has moved
  have hsaid : s'.said e = s.said e ++ more := by rw [hm.said, Function.update_self]
  have hsaid' : s'.said e.peer = s.said e.peer := by
    rw [hm.said, Function.update_of_ne (Side.peer_ne e)]
  have hconn : s'.conn p e.peer = s.conn p e.peer := by rw [TcpTalk.conn, hm.host, TcpTalk.conn]
  have hgot : s'.got p e.peer = s.got p e.peer := by rw [TcpTalk.got, hm.host, TcpTalk.got]
  constructor
  -- each field once for `e` and once for the other side
  case recv =>
    intro e'
    obtain rfl | rfl := Side.eq_or e e'
    · rw [hsaid']
      exact hrecv
    · have hpeer := h.recv e.peer
      rw [Side.peer_peer] at hpeer ⊢
      rw [hsaid, hm.host]
      exact hpeer.append more
  case mirrors =>
    intro e'
    obtain rfl | rfl := Side.eq_or e e'
    · rw [hconn]
      exact (h.mirrors _).congr rfl hm.tuple
    · have hpeer := h.mirrors e.peer
      rw [Side.peer_peer] at hpeer ⊢
      rw [hconn]
      exact hpeer.congr hm.tuple rfl
  case nxt =>
    intro e'
    obtain rfl | rfl := Side.eq_or e e'
    · rw [hm.nxt, h.nxt, hsaid, num_add, List.length_append]
    · rw [hconn, hsaid']
      exact h.nxt e.peer
  case una =>
    intro e'
    obtain rfl | rfl := Side.eq_or e e'
    · rw [hgot]
      obtain hsame | hnew := hm.una
      · rw [hsame]
        exact h.una e'
      · exact hnew
    · obtain ⟨u, hu, heq⟩ := h.una e.peer
      rw [hconn]
      rw [Side.peer_peer] at hu heq ⊢
      exact ⟨u, hu.trans hm.got, heq⟩
  case short =>
    intro e'
    obtain rfl | rfl := Side.eq_or e e'
    · rw [hsaid, List.length_append]
      exact hshort
    · rw [hsaid']
      exact h.short e.peer
  -- a segment on the way is an old one, or it was sent just now
  case net =>
    intro e' seg hseg
    obtain rfl | rfl := Side.eq_or e e'
    · rw [hsaid', hgot]
      have hvoiced := (h.net e' seg (hm.old seg hseg)).mono [] (Nat.le_refl _) hm.tuple
      rwa [List.append_nil] at hvoiced
    · rw [Side.peer_peer, hconn, hsaid]
      obtain hold | ⟨r, off, data, heq, htuple, hpart, hdata, hack⟩ := hm.new seg hseg
      · have hvoiced := h.net e.peer seg hold
        rw [Side.peer_peer] at hvoiced
        exact hvoiced.mono more hm.got rfl
      · obtain ⟨k, -, -, hk, hrcv⟩ := hrecv.received
        have hpeer := h.mirrors e.peer
        rw [Side.peer_peer] at hpeer
        rw [hsaid] at hpart
        exact ⟨r, off, k, data, heq, hpeer.congr (htuple.trans hm.tuple) rfl, hpart, hdata,
          hack.trans hrcv,
          Nat.le_of_eq hk.symm⟩

/-! ## The steps -/

/-- `tcp_send` sends one segment with the data. -/
theorem tcpSend_does (frames : Nat → Nat) (w : TcpWorld) (conn : Nat) {c : TcpConn}
    (hc : w.conn conn = c)
    (data : List Byte) : Does conn w (tcpSend frames w conn data)
      { c with snd := { c.snd with nxt := c.snd.nxt + BitVec.ofNat 32 data.length } }
      [c.plain c.snd.nxt data] [] := by
  subst hc
  have hflags : hasFlag TCP_ACK (TCP_SYN ||| TCP_FIN) = false := by decide
  have hdoes := tcpSendPacket_does frames (rfl : w.conn conn = w.conn conn)
    (w.conn conn).snd.nxt TCP_ACK data
  unfold tcpSndNxt at hdoes
  rw [hflags, if_neg (by decide)] at hdoes
  exact hdoes

/-- Sending receives nothing. -/
theorem received_send (frames : Nat → Nat) (w : TcpWorld) (conn : Nat) (data : List Byte) :
    received conn (tcpSend frames w conn data).log = received conn w.log := rfl

/-- `tcp_send` -/
theorem TalkInv.send (hf : ∀ e, FramesOk (frames e)) (h : TalkInv frames p n₀ s) {data : List Byte}
    (hdata : data.length ≤ 1460) (hshort : (s.said e).length + data.length < 2147483648) :
    TalkInv frames p n₀ ((s.setHost e (tcpSend (frames e) (s.host e) (p e) data)).say e data) := by
  have hdoes := tcpSend_does (frames e) (s.host e) (p e) (c := s.conn p e) rfl data
  have hsegs := segsSince_eq hdoes.sent
  have hconn : ((s.setHost e (tcpSend (frames e) (s.host e) (p e) data)).say e data).conn p e =
      (tcpSend (frames e) (s.host e) (p e) data).conn (p e) := by simp [TcpTalk.conn]
  have hlen := h.nxt e
  refine h.move data (e := e) ⟨?_, rfl, ?_, ?_, ?_, ?_, ?_, ?_⟩ hshort ?_
  · simp
  · rw [hconn, hdoes.conn]
    rfl
  · rw [hconn, hdoes.conn]
  · rw [hconn, hdoes.conn]
    exact .inl rfl
  · simp [TcpTalk.got, received_send]
  · simp
  -- on the way is what was before, and the segments of this call
  · intro seg hseg
    rw [TcpTalk.say_net, TcpTalk.setHost_net_peer, hsegs, List.mem_append] at hseg
    obtain hseg | hseg := hseg
    · exact .inl hseg
    obtain rfl := List.mem_singleton.mp hseg
    rw [hconn, hdoes.conn]
    refine .inr ⟨s.conn p e, (s.said e).length, data, by rw [hlen], rfl, ?_, hdata, rfl⟩
    simp [part_end]
  -- what is received does not change by sending
  · simp only [TcpTalk.say_host, TcpTalk.setHost_host]
    exact (h.recv e).send (hf e) data

/-- The number of an acknowledgement is not ahead of what has been sent. -/
theorem TalkInv.not_ahead (h : TalkInv frames p n₀ s) {r : TcpConn} {a : Nat}
    (ha : a ≤ (s.got p e.peer).length)
    (hack : r.rcv.nxt = num (n₀ e.peer) a) : seqDiff r.rcv.nxt (s.conn p e).snd.nxt ≤ 0 := by
  obtain ⟨k, hk, -, hlen, -⟩ := (h.recv e.peer).received
  rw [Side.peer_peer] at hk
  have hshort := h.short e
  rw [TcpTalk.got, hlen] at ha
  rw [hack, h.nxt, seqDiff_num _ (by omega) (by omega)]
  omega

/-- A host answers, or takes something without an answer. -/
theorem Answering.moves {snd : TcpSndState} {answered : Bool} {w : TcpWorld}
    (segs : List TcpSegment)
    (h : TalkInv frames p n₀ s) (ha : Answering (p e) snd answered (s.host e) w)
    (hrecv : Receiving (frames e) (s.said e.peer) (n₀ e) (p e) w)
    (hgot : (s.got p e).length ≤ (received (p e) w.log).length) (hold : ∀ seg ∈ segs, seg ∈ s.net e)
    (hnxt : snd.nxt = (s.conn p e).snd.nxt)
    (huna : snd.una = (s.conn p e).snd.una ∨ ∃ u ≤ (s.got p e.peer).length,
      snd.una = num (n₀ e.peer) u) :
    TalkInv frames p n₀ ((s.setNet e segs).setHost e w) := by
  have hconn : ((s.setNet e segs).setHost e w).conn p e = w.conn (p e) := by simp [TcpTalk.conn]
  have hsegs : segsSince (s.host e) w = _ := segsSince_eq ha.sent
  have hshort := h.short e
  refine h.move [] (e := e) ⟨by simp, by simp, ?_, ?_, ?_, ?_, ?_, ?_⟩ (by simpa using hshort)
    (by simpa using hrecv)
  · rw [hconn]
    exact ha.tuple
  · rw [hconn, ha.snd, hnxt]
    simp
  · rw [hconn, ha.snd]
    exact huna
  · simpa [TcpTalk.got] using hgot
  · simpa using hold
  -- on the way is what was before, and at most one segment without data
  · intro seg hseg
    rw [TcpTalk.setHost_net_peer, TcpTalk.setNet_host, hsegs, TcpTalk.setNet_net,
      Function.update_of_ne (Side.peer_ne e), List.mem_append] at hseg
    obtain hseg | hseg := hseg
    · exact .inl hseg
    cases answered with
    | false => simp at hseg
    | true =>
      obtain rfl : seg = (w.conn (p e)).bareAck := by simpa using hseg
      have hnum : (w.conn (p e)).snd.nxt = num (n₀ e.peer) (s.said e).length := by
        rw [ha.snd, hnxt, h.nxt]
      rw [hconn]
      refine .inr ⟨w.conn (p e), (s.said e).length, [],
        by rw [← hnum]; rfl, rfl, ⟨?_, ?_⟩, by simp, rfl⟩
      · simp [slice]
      · simp

/-- What has been received is not taken back. -/
theorem Deaf.received {conn : Nat} {w w' : TcpWorld} (h : Deaf conn w w') :
    (MishaOS.received conn w.log).length ≤ (MishaOS.received conn w'.log).length := by
  -- only the calls count
  have hcalls (l : List TcpEvent) : MishaOS.received conn (l.filter TcpEvent.isCall) =
      MishaOS.received conn l := by
    induction l with
    | nil => rfl
    | cons e l ih =>
      by_cases he : e.isCall
      · rw [List.filter_cons_of_pos he]
        cases e <;> simp [MishaOS.received, ih]
      · rw [List.filter_cons_of_neg he, ih]
        cases e <;> first | rfl | exact absurd rfl he
  -- and they are added in front
  have hgrow (new l : List TcpEvent) :
      (MishaOS.received conn l).length ≤ (MishaOS.received conn (new ++ l)).length := by
    induction new with
    | nil => exact Nat.le_refl _
    | cons e new ih =>
      apply ih.trans
      cases e <;> simp only [List.cons_append, MishaOS.received, Nat.le_refl]
      split <;> simp
  obtain ⟨new, hnew, -⟩ := h.calls
  unfold TcpWorld.calls at hnew
  rw [← hcalls, ← hcalls w'.log, hnew]
  exact hgrow new _

/-- A segment arrives: it is taken. -/
theorem TalkInv.hear (hf : ∀ e, FramesOk (frames e)) (h : TalkInv frames p n₀ s) {seg : TcpSegment}
    (hseg : seg ∈ s.net e) (segs : List TcpSegment) (hold : ∀ seg ∈ segs, seg ∈ s.net e) :
    ∃ w, deliverSegment (frames e) seg (s.host e) = some w ∧
      TalkInv frames p n₀ ((s.setNet e segs).setHost e w) := by
  obtain ⟨r, off, a, data, rfl, hm, hpart, hdata, hack, ha⟩ := h.net e seg hseg
  have hi := h.recv e
  have hshort := h.short e.peer
  obtain ⟨w, hw, hrecv⟩ := hi.hear (hf e) hm hpart hdata hshort
  have hgot : (s.got p e).length ≤ (received (p e) w.log).length := 
    (deliverSegment_deaf hi.ne_zero (by rw [hi.state]; decide) hw).received
  refine ⟨w, hw, ?_⟩
  -- the other side has not been told of more than was sent
  have hahead : seqDiff r.rcv.nxt (s.conn p e).snd.nxt ≤ 0 := h.not_ahead ha hack
  -- outside the window the segment is answered, inside it is taken
  cases hwin : inWindow (s.conn p e) (num (n₀ e) off) (BitVec.ofNat 32 data.length) with
  | false =>
    have hout := deliverSegment_outside hm hi.ne_zero hi.found hi.state hdata hwin hw
    exact hout.moves segs h hrecv hgot hold rfl (.inl rfl)
  | true =>
    have hin := deliverSegment_inside hm hi.ne_zero hi.found hi.state hdata hwin hahead hw
    obtain ⟨-, hnxt, huna⟩ :=
      tcpAckUpdate_una (s.conn p e).snd (r.plain (num (n₀ e) off) data).header
    refine hin.moves segs h hrecv hgot hold hnxt ?_
    obtain hsame | ⟨hnew, -⟩ := huna
    · exact .inl hsame
    · have hnum : (r.plain (num (n₀ e) off) data).header.ack = r.rcv.nxt :=
        tcpSegment_ack (by decide)
      exact .inr ⟨a, ha, by rw [← hack, ← hnum]; exact hnew⟩

/-- The network drops or repeats segments. -/
theorem TalkInv.setNet (h : TalkInv frames p n₀ s) {segs : List TcpSegment}
    (hsegs : ∀ seg ∈ segs, seg ∈ s.net e) :
    TalkInv frames p n₀ (s.setNet e segs) := by
  refine ⟨h.recv, h.mirrors, h.nxt, h.una, h.short, fun e' seg hseg => h.net e' seg ?_⟩
  by_cases he : e' = e
  · subst he
    rw [TcpTalk.setNet_net, Function.update_self] at hseg
    exact hsegs seg hseg
  · rwa [TcpTalk.setNet_net, Function.update_of_ne he] at hseg

/-- A driver releases a buffer. -/
theorem TalkInv.release (hf : ∀ e, FramesOk (frames e)) (h : TalkInv frames p n₀ s) {packet : Nat}
    (hp : packet ∈ inFlight (s.host e).log) :
    TalkInv frames p n₀ (s.setHost e
      (((s.host e).setBufs (netFreeBuf (s.host e).bufs packet)).emit (.release packet))) := by
  obtain ⟨w, hw, hrecv⟩ := (h.recv e).step (hf e) (show ArrivalOk _ _ _ _ (.release packet) from hp)
  obtain rfl := Option.some.inj hw
  have hanswers : Answering (p e) (s.conn p e).snd false (s.host e)
      (((s.host e).setBufs (netFreeBuf (s.host e).bufs packet)).emit (.release packet)) :=
    ⟨rfl, rfl, rfl, fun _ => rfl, rfl⟩
  have hmove := hanswers.moves (s.net e) h hrecv (Nat.le_refl _) (fun _ hseg => hseg) rfl (.inl rfl)
  rwa [show s.setNet e (s.net e) = s from by simp [TcpTalk.setNet]] at hmove

/-- Every step keeps the invariant, and a segment that arrives is taken. -/
theorem TalkInv.step (hf : ∀ e, FramesOk (frames e)) (h : TalkInv frames p n₀ s) {op : TalkOp}
    (hok : TalkOk s op)
    (hstep : talkStep frames p s op = some s') : TalkInv frames p n₀ s' := by
  -- one case per step; losses and copies are steps of the network alone
  cases op with
  | send e data =>
    obtain rfl := Option.some.inj hstep
    exact h.send hf hok.1 hok.2
  | arrive e i =>
    obtain ⟨seg, hseg, hstep⟩ := Option.bind_eq_some_iff.mp hstep
    obtain ⟨w, hw, rfl⟩ := Option.map_eq_some_iff.mp hstep
    obtain ⟨w', hw', hinv⟩ := h.hear hf (e := e) (List.mem_of_getElem? hseg) ((s.net e).eraseIdx i)
      (fun _ hmem => List.mem_of_mem_eraseIdx hmem)
    obtain rfl := Option.some.inj (hw.symm.trans hw')
    exact hinv
  | lose e i =>
    obtain rfl := Option.some.inj hstep
    exact h.setNet fun _ hmem => List.mem_of_mem_eraseIdx hmem
  | copy e i =>
    obtain ⟨seg, hseg, rfl⟩ := Option.map_eq_some_iff.mp hstep
    apply h.setNet
    intro seg' hmem
    obtain hmem | hmem := List.mem_append.mp hmem
    · exact hmem
    · obtain rfl := List.mem_singleton.mp hmem
      exact List.mem_of_getElem? hseg
  | release e packet =>
    obtain rfl := Option.some.inj hstep
    exact h.release hf hok

/-- Nothing has been said. -/
theorem TalkStart.inv (h : TalkStart frames p s) :
    TalkInv frames p (fun e => (s.conn p e).rcv.nxt) s := by
  -- nobody has said anything, so every position is the first one
  constructor
  case recv =>
    intro e
    rw [h.said]
    exact (h.start e).receiving []
  case mirrors => exact h.mirrors
  case nxt =>
    intro e
    rw [h.nxt, h.said]
    exact (num_zero _).symm
  case una =>
    intro e
    refine ⟨0, Nat.zero_le _, ?_⟩
    rw [h.una, h.nxt, num_zero]
  case short =>
    intro e
    rw [h.said]
    decide
  case net =>
    intro e seg hseg
    rw [h.net] at hseg
    cases hseg

/-- Whatever the network loses, repeats and reorders while both users send: each end has been
    given a beginning of what the other one has sent, what is acknowledged has been received, and
    no segment gets an end stuck. -/
theorem tcp_talk_in_order (frames : Side → Nat → Nat) (hf : ∀ e, FramesOk (frames e))
    (p : Side → Nat)
    (s₀ s : TcpTalk) (ops : List TalkOp) (h₀ : TalkStart frames p s₀)
    (hrun : Run (talkStep frames p) TalkOk s₀ ops s) :
    (∀ e : Side, ∃ u k, u ≤ k ∧ k ≤ (s.said e).length ∧ s.got p e.peer = (s.said e).take k ∧
        (s.conn p e.peer).rcv.nxt = (s₀.conn p e).snd.nxt + BitVec.ofNat 32 k ∧
        (s.conn p e).snd.una = (s₀.conn p e).snd.nxt + BitVec.ofNat 32 u ∧
        (s.conn p e).snd.nxt = (s₀.conn p e).snd.nxt + BitVec.ofNat 32 (s.said e).length ∧
        (s.conn p e).state = .established) ∧
      ∀ (e : Side) (i : Nat), i < (s.net e).length →
        (talkStep frames p s (.arrive e i)).isSome := by
  have hi : TalkInv frames p (fun e => (s₀.conn p e).rcv.nxt) s := by
    apply hrun.invariant (TalkInv frames p _) _ h₀.inv
    exact fun s op s' hinv hok hstep => hinv.step hf hok hstep
  refine ⟨fun e => ?_, fun e i hlt => ?_⟩
  -- what `e` sends is received at the other end
  · obtain ⟨k, hk, hgot, hlen, hnxt⟩ := (hi.recv e.peer).received
    rw [Side.peer_peer] at hk hgot
    obtain ⟨u, hu, huna⟩ := hi.una e
    have hsnd := hi.nxt e
    rw [TcpTalk.got, hlen] at hu
    rw [← h₀.nxt e] at hnxt huna hsnd
    exact ⟨u, k, hu, hk, hgot, hnxt, huna, hsnd, (hi.recv e).state⟩
  -- a segment on the way is taken, whenever it arrives
  · obtain ⟨w, hw, -⟩ := hi.hear hf (e := e) (List.getElem_mem hlt) [] nofun
    rw [talkStep, List.getElem?_eq_getElem hlt, Option.bind_some, hw]
    rfl

/-- The other end of `TcpWorld.connected`. -/
def TcpWorld.connectedPeer (n₀ : BitVec 32) : TcpWorld :=
  (TcpWorld.connected 1).setConn 0x1000
    { (TcpWorld.connected 1).conn 0x1000 with
      localAddr := .ofBytes 192 0 2 1
      remoteAddr := .ofBytes 10 0 2 15
      localPort := 80
      remotePort := 1
      snd := ⟨n₀, n₀, 8192, 0, 0, 0, n₀ - 1⟩ }

/-- Two hosts with an open connection. -/
def TcpTalk.connected (n₀ : BitVec 32) : TcpTalk where
  host
    | .left => TcpWorld.connected n₀
    | .right => TcpWorld.connectedPeer n₀
  net _ := []
  said _ := []

/-- Two hosts with an open connection. -/
theorem TcpTalk.connected_start :
    TalkStart (fun _ => nextFrame) (fun _ => 0x1000) (TcpTalk.connected 0xFFFFFFFE) where
  start
    | .left => ⟨by decide, rfl, rfl, rfl, rfl, rfl, rfl, TcpWorld.connected_refs _,
      by decide +kernel⟩
    | .right => ⟨by decide, rfl, rfl, rfl, rfl, rfl, rfl, TcpWorld.connected_refs 1,
      by decide +kernel⟩
  mirrors
    | .left => ⟨rfl, rfl, rfl, rfl⟩
    | .right => ⟨rfl, rfl, rfl, rfl⟩
  nxt
    | .left => rfl
    | .right => rfl
  una
    | .left => rfl
    | .right => rfl
  net _ := rfl
  said _ := rfl

/-- The left user sends three times; the second segment comes first and is repeated, the third
    one is lost, and so is an answer. -/
def TcpTalk.disturbed : List TalkOp :=
  [.send .left [1, 2, 3], .send .left [4, 5], .send .left [6], .copy .right 1, .arrive .right 1,
    .send .right [7, 8], .lose .left 0, .arrive .right 0, .arrive .right 1, .lose .right 0,
    .arrive .left 0]

/-- Two segments arrive in the wrong order and one of them twice. -/
theorem tcp_talk_in_order_disturbed :
    ∃ s, Run (talkStep (fun _ => nextFrame) fun _ => 0x1000) TalkOk (TcpTalk.connected 0xFFFFFFFE)
        TcpTalk.disturbed s ∧ s.said .left = [1, 2, 3, 4, 5, 6] ∧
      ∀ e : Side, ∃ u k, u ≤ k ∧ k ≤ (s.said e).length ∧
        s.got (fun _ => 0x1000) e.peer = (s.said e).take k := by
  have hexec :
    ((Run.exec (talkStep (fun _ => nextFrame) fun _ => 0x1000) TalkOk (TcpTalk.connected 0xFFFFFFFE)
      TcpTalk.disturbed).map fun s => s.said .left) = some [1, 2, 3, 4, 5, 6] := by decide +kernel
  obtain ⟨s, hw, hsaid⟩ := Option.map_eq_some_iff.mp hexec
  have hrun := Run.of_exec hw
  refine ⟨s, hrun, hsaid, fun e => ?_⟩
  obtain ⟨hall, -⟩ :=
    tcp_talk_in_order (fun _ => nextFrame) (fun _ => nextFrame_framesOk) (fun _ => 0x1000) _ s _
    TcpTalk.connected_start hrun
  obtain ⟨u, k, hu, hk, hgot, -⟩ := hall e
  exact ⟨u, k, hu, hk, hgot⟩

end MishaOS
