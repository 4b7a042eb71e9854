import MishaOS.Spec.TcpTalk

/-!
# A network that loses nothing

The two hosts of `TcpTalk` over a network that delivers every segment once and in
order.  What one user has sent is what the other end has been given and what is
still on its way.  Both ends run dry: after at most two deliveries for every
segment on its way nothing is left, everything sent has been received, and
everything has been acknowledged.

## Key results

- `FlowInv.hear`: a segment arrives, and its data is delivered at once.
- `tcp_flow_complete`: nothing is missing in the end.
-/

namespace MishaOS

open Serial

/-! ## Segments in order -/

/-- The segments on the way to the connection `c`: behind the `k` bytes that it has they carry the
    rest of `S`, and their acknowledgements go up from `a` to `a'`. -/
inductive Flow (S : List Byte) (n m : BitVec 32) (c : TcpConn) : (k a : Nat) → List TcpSegment →
    (a' : Nat) → Prop
  | nil (a : Nat) : Flow S n m c S.length a [] a
  | cons {k a a₁ a' : Nat} {segs : List TcpSegment} {r : TcpConn} {data : List Byte}
    (hm : Mirrors r c)
      (hpart : Part S k data) (hdata : data.length ≤ 1460)
        (hack : r.rcv.nxt = num m a₁) (ha : a ≤ a₁)
      (hrest : Flow S n m c (k + data.length) a₁ segs a') :
        Flow S n m c k a (r.plain (num n k) data :: segs) a'

variable {S : List Byte} {n m : BitVec 32} {c c' r : TcpConn} {k a a' : Nat}
    {segs : List TcpSegment}

/-- What has arrived is not more than what was said. -/
theorem Flow.le (h : Flow S n m c k a segs a') : k ≤ S.length ∧ a ≤ a' := by
  induction h with
  | nil a => exact ⟨Nat.le_refl _, Nat.le_refl a⟩
  | cons hm hpart hdata hack ha hrest ih => omega

/-- What has been received and what is on its way is the whole stream. -/
theorem Flow.payload (h : Flow S n m c k a segs a') :
    S.take k ++ segs.flatMap TcpSegment.payload = S := by
  induction h with
  | nil a => simp
  | @cons k a a₁ a' segs r data hm hpart hdata hack ha hrest ih =>
    have hnext : S.take (k + data.length) = S.take k ++ data := by
      rw [← take_append_slice, ← hpart.eq]
    rw [hnext, List.append_assoc] at ih
    exact ih

/-- Only addresses and ports matter. -/
theorem Flow.congr (h : Flow S n m c k a segs a') (hc : c'.tuple = c.tuple) :
    Flow S n m c' k a segs a' := by
  induction h with
  | nil a => exact .nil a
  | cons hm hpart hdata hack ha hrest ih => exact .cons (hm.congr rfl hc) hpart hdata hack ha ih

/-- When nothing is on the way everything has arrived. -/
theorem Flow.done (h : Flow S n m c k a [] a') : k = S.length ∧ a = a' := by
  cases h with
  | nil a => exact ⟨rfl, rfl⟩

/-- The next segment carries the next part of the stream. -/
theorem Flow.head {seg : TcpSegment} (h : Flow S n m c k a (seg :: segs) a') :
    ∃ (r : TcpConn) (data : List Byte) (a₁ : Nat), seg = r.plain (num n k) data ∧ Mirrors r c ∧
      Part S k data ∧
      data.length ≤ 1460 ∧ r.rcv.nxt = num m a₁ ∧ a ≤ a₁ ∧
      Flow S n m c (k + data.length) a₁ segs a' := by
  cases h with
  | cons hm hpart hdata hack ha hrest => exact ⟨_, _, _, rfl, hm, hpart, hdata, hack, ha, hrest⟩

/-- One more segment is sent. -/
theorem Flow.snoc (h : Flow S n m c k a segs a') (hm : Mirrors r c) (data : List Byte)
    (hdata : data.length ≤ 1460)
    {a'' : Nat} (hack : r.rcv.nxt = num m a'') (ha : a' ≤ a'') :
    Flow (S ++ data) n m c k a (segs ++ [r.plain (num n S.length) data]) a'' := by
  induction h with
  | nil a =>
    have hend : Flow (S ++ data) n m c (S.length + data.length) a'' [] a'' := by
      rw [← List.length_append]
      exact .nil a''
    exact .cons hm (part_end S data) hdata hack ha hend
  | cons hm' hpart hdata' hack' ha' hrest ih =>
    exact .cons hm' (hpart.append data) hdata' hack' ha' (ih ha)

/-! ## The invariant -/

variable {frames : Side → Nat → Nat} {p : Side → Nat} {n₀ : Side → BitVec 32}
    {s s' : TcpTalk} {e : Side}

/-- An end that has been given `got` has received all of a stream that ends there. -/
structure FlowInv (frames : Side → Nat → Nat) (p : Side → Nat) (n₀ : Side → BitVec 32)
    (s : TcpTalk) : Prop where
  recv : ∀ e, Receiving (frames e) (s.got p e) (n₀ e) (p e) (s.host e)
  front : ∀ e, s.got p e = (s.said e.peer).take (s.got p e).length
  mirrors : ∀ e, Mirrors (s.conn p e.peer) (s.conn p e)
  nxt : ∀ e, (s.conn p e).snd.nxt = num (n₀ e.peer) (s.said e).length
  short : ∀ e, (s.said e).length < 2147483648
  flow : ∀ e, ∃ u, (s.conn p e).snd.una = num (n₀ e.peer) u ∧
    Flow (s.said e.peer) (n₀ e) (n₀ e.peer) (s.conn p e) (s.got p e).length u (s.net e)
      (s.got p e.peer).length

/-- An end receives a number that its peer will send next. -/
theorem FlowInv.rcv_nxt (h : FlowInv frames p n₀ s) (e : Side) :
    (s.conn p e).rcv.nxt = num (n₀ e) (s.got p e).length := by
  obtain ⟨k, -, -, hlen, hnxt⟩ := (h.recv e).received
  rw [TcpTalk.got, hlen]
  exact hnxt

/-- One host does something. -/
theorem FlowInv.move (more : List Byte) (h : FlowInv frames p n₀ s)
    (hhost : s'.host e.peer = s.host e.peer)
    (hsaid : s'.said = Function.update s.said e (s.said e ++ more))
    (hshort : (s.said e).length + more.length < 2147483648)
    (hrecv : Receiving (frames e) (s'.got p e) (n₀ e) (p e) (s'.host e))
    (hfront : s'.got p e = (s.said e.peer).take (s'.got p e).length)
    (htuple : (s'.conn p e).tuple = (s.conn p e).tuple)
    (hnxt : (s'.conn p e).snd.nxt = (s.conn p e).snd.nxt + BitVec.ofNat 32 more.length)
    (hflow : ∃ u, (s'.conn p e).snd.una = num (n₀ e.peer) u ∧
      Flow (s.said e.peer) (n₀ e) (n₀ e.peer) (s.conn p e)
      (s'.got p e).length u (s'.net e) (s.got p e.peer).length)
    (hpeer : ∀ u, Flow (s.said e) (n₀ e.peer) (n₀ e) (s.conn p e.peer) (s.got p e.peer).length
      u (s.net e.peer)
      (s.got p e).length → Flow (s.said e ++ more) (n₀ e.peer) (n₀ e) (s.conn p e.peer)
        (s.got p e.peer).length u
        (s'.net e.peer) (s'.got p e).length) :
    FlowInv frames p n₀ s' := by
  -- only `e` has said more, and only its connection has moved
  have hsaidE : s'.said e = s.said e ++ more := by rw [hsaid, Function.update_self]
  have hsaidP : s'.said e.peer = s.said e.peer := by
    rw [hsaid, Function.update_of_ne (Side.peer_ne e)]
  have hconn : s'.conn p e.peer = s.conn p e.peer := by rw [TcpTalk.conn, hhost, TcpTalk.conn]
  have hgot : s'.got p e.peer = s.got p e.peer := by rw [TcpTalk.got, hhost, TcpTalk.got]
  -- each field once for `e` and once for the other side
  constructor
  case recv =>
    intro e'
    obtain rfl | rfl := Side.eq_or e e'
    · exact hrecv
    · rw [hgot, hhost]
      exact h.recv e.peer
  case front =>
    intro e'
    obtain rfl | rfl := Side.eq_or e e'
    · rw [hsaidP]
      exact hfront
    -- a beginning of what was said is one of what is said now
    · have hold := h.front e.peer
      rw [Side.peer_peer] at hold ⊢
      have hle := congrArg List.length hold
      rw [List.length_take] at hle
      rw [hgot, hsaidE, List.take_append_of_le_length (by omega)]
      exact hold
  case mirrors =>
    intro e'
    obtain rfl | rfl := Side.eq_or e e'
    · rw [hconn]
      exact (h.mirrors _).congr rfl htuple
    · have hold := h.mirrors e.peer
      rw [Side.peer_peer] at hold ⊢
      rw [hconn]
      exact hold.congr htuple rfl
  case nxt =>
    intro e'
    obtain rfl | rfl := Side.eq_or e e'
    · rw [hnxt, h.nxt, hsaidE, num_add, List.length_append]
    · rw [hconn, hsaidP]
      exact h.nxt e.peer
  case short =>
    intro e'
    obtain rfl | rfl := Side.eq_or e e'
    · rw [hsaidE, List.length_append]
      exact hshort
    · rw [hsaidP]
      exact h.short e.peer
  case flow =>
    intro e'
    -- what `e` sends, and what it receives
    obtain rfl | rfl := Side.eq_or e e'
    · obtain ⟨u, huna, hrest⟩ := hflow
      rw [hsaidP, hgot]
      exact ⟨u, huna, hrest.congr htuple⟩
    · obtain ⟨u, huna, hrest⟩ := h.flow e.peer
      rw [Side.peer_peer] at huna hrest ⊢
      rw [hconn, hgot, hsaidE]
      exact ⟨u, huna, hpeer u hrest⟩

/-- `tcp_send` -/
theorem FlowInv.send (hf : ∀ e, FramesOk (frames e)) (h : FlowInv frames p n₀ s) {data : List Byte}
    (hdata : data.length ≤ 1460) (hshort : (s.said e).length + data.length < 2147483648) :
    FlowInv frames p n₀ ((s.setHost e (tcpSend (frames e) (s.host e) (p e) data)).say e data) := by
  have hdoes := tcpSend_does (frames e) (s.host e) (p e) (c := s.conn p e) rfl data
  have hsegs := segsSince_eq hdoes.sent
  have hconn : ((s.setHost e (tcpSend (frames e) (s.host e) (p e) data)).say e data).conn p e =
      (tcpSend (frames e) (s.host e) (p e) data).conn (p e) := by simp [TcpTalk.conn]
  have hgot : ((s.setHost e (tcpSend (frames e) (s.host e) (p e) data)).say e data).got p e =
      s.got p e := by
    simp [TcpTalk.got, received_send]
  have hnum := h.nxt e
  apply h.move data (e := e) (by simp) rfl hshort
  case hrecv =>
    rw [hgot, TcpTalk.say_host, TcpTalk.setHost_host]
    exact (h.recv e).send (hf e) data
  case hfront =>
    rw [hgot]
    exact h.front e
  case htuple =>
    rw [hconn, hdoes.conn]
    rfl
  case hnxt => rw [hconn, hdoes.conn]
  case hflow =>
    rw [hconn, hdoes.conn, hgot, TcpTalk.say_net, TcpTalk.setHost_net]
    exact h.flow e
  -- the segments sent last lie behind all others
  case hpeer =>
    intro u hu
    have hm := h.mirrors e.peer
    rw [Side.peer_peer] at hm
    rw [hgot, TcpTalk.say_net, TcpTalk.setHost_net_peer, hsegs, hnum]
    exact hu.snoc hm data hdata (h.rcv_nxt e) (Nat.le_refl _)

/-- A driver releases a buffer. -/
theorem FlowInv.release (hf : ∀ e, FramesOk (frames e)) (h : FlowInv frames p n₀ s) {packet : Nat}
    (hp : packet ∈ inFlight (s.host e).log) :
    FlowInv frames p n₀ (s.setHost e
      (((s.host e).setBufs (netFreeBuf (s.host e).bufs packet)).emit (.release packet))) := by
  obtain ⟨w', hstep, hrecv⟩ :=
    (h.recv e).step (hf e) (show ArrivalOk _ _ _ _ (.release packet) from hp)
  obtain rfl := Option.some.inj hstep
  clear hstep
  generalize hw : ((s.host e).setBufs (netFreeBuf (s.host e).bufs packet)).emit (.release packet) =
    w at *
  -- nothing is sent, and only the buffers change
  have hsegs : segsSince (s.host e) w = [] := segsSince_eq (by rw [← hw]; rfl)
  have hconn : (s.setHost e w).conn p e = s.conn p e := by
    rw [TcpTalk.conn, TcpTalk.setHost_host, ← hw]
    rfl
  have hgot : (s.setHost e w).got p e = s.got p e := by
    rw [TcpTalk.got, TcpTalk.setHost_host, ← hw]
    rfl
  have hshort := h.short e
  apply h.move [] (e := e) (by simp) (by simp) (by simpa using hshort)
  case hrecv =>
    rw [hgot, TcpTalk.setHost_host]
    exact hrecv
  case hfront =>
    rw [hgot]
    exact h.front e
  case htuple => rw [hconn]
  case hnxt =>
    rw [hconn]
    simp
  case hflow =>
    rw [hconn, hgot, TcpTalk.setHost_net]
    exact h.flow e
  case hpeer =>
    intro u hu
    rw [hgot, TcpTalk.setHost_net_peer, hsegs, List.append_nil]
    simpa using hu

/-- An acknowledgement between what is acknowledged and what is sent is taken. -/
theorem tcpAckUpdate_taken {snd : TcpSndState} {header : TcpHeader}
    (hlow : seqDiff snd.una header.ack ≤ 0)
    (hhigh : seqDiff header.ack snd.nxt ≤ 0) : (tcpAckUpdate snd header).una = header.ack := by
  unfold tcpAckUpdate
  rw [if_pos ⟨hlow, hhigh⟩]
  dsimp only
  split <;> rfl

/-- What an end has been given is no more than the other one has sent. -/
theorem FlowInv.got_le (h : FlowInv frames p n₀ s) (e : Side) :
    (s.got p e.peer).length ≤ (s.said e).length := by
  have hfront := congrArg List.length (h.front e.peer)
  rw [Side.peer_peer, List.length_take] at hfront
  omega

/-- A segment arrives: its data is delivered at once, and answered. -/
theorem FlowInv.hear (hf : ∀ e, FramesOk (frames e)) (h : FlowInv frames p n₀ s) {seg : TcpSegment}
    {segs : List TcpSegment} (hnet : s.net e = seg :: segs) :
    ∃ w, deliverSegment (frames e) seg (s.host e) = some w ∧
      FlowInv frames p n₀ ((s.setNet e segs).setHost e w) ∧
      segsSince (s.host e) w = if seg.payload = [] then [] else [(w.conn (p e)).bareAck] := by
  obtain ⟨u, huna, hflow⟩ := h.flow e
  rw [hnet] at hflow
  obtain ⟨r, data, a₁, rfl, hm, hpart, hdata, hack, ha, hrest⟩ := hflow.head
  have hgot := h.got_le e
  have hshort := h.short e
  have hshort' := h.short e.peer
  have hle := hpart.le
  have hupper := hrest.le
  -- the stream so far, with this data
  have hi := (h.recv e).append data
  have hnow := part_end (s.got p e) data
  obtain ⟨w, hw, hrecv⟩ := hi.hear (hf e) hm hnow hdata (by rw [List.length_append]; omega)
  have hahead : seqDiff r.rcv.nxt (s.conn p e).snd.nxt ≤ 0 := by
    rw [hack, h.nxt, seqDiff_num _ (by omega) (by omega)]
    omega
  have hnext := hi.hear_next (hf e) hm hnow hdata hahead rfl hw
  have hall : received (p e) w.log = s.got p e ++ data := by
    obtain ⟨k, hk, htake, hlen, -⟩ := hrecv.received
    rw [htake, List.take_of_length_le]
    rw [hlen] at hnext
    rw [List.length_append]
    exact hnext
  obtain ⟨k, q, hstream⟩ := (h.recv e).stream
  have hrcv := h.rcv_nxt e
  have hwin : inWindow (s.conn p e) (num (n₀ e) (s.got p e).length) (BitVec.ofNat 32 data.length) :=
    (inWindow_iff hrcv hstream.wnd (by omega) (by omega) (by omega)).mpr (by omega)
  have hanswers := deliverSegment_inside hm hi.ne_zero hi.found hi.state hdata hwin hahead hw
  have hsegs := segsSince_eq hanswers.sent
  -- the acknowledgement is between what is acknowledged and what is sent
  have hnum : (r.plain (num (n₀ e) (s.got p e).length) data).header.ack = r.rcv.nxt :=
    tcpSegment_ack (by decide)
  have htaken :
    (tcpAckUpdate (s.conn p e).snd (r.plain (num (n₀ e) (s.got p e).length) data).header).una =
      num (n₀ e.peer) a₁ := by
    rw [tcpAckUpdate_taken _ (by rw [hnum]; exact hahead), hnum, hack]
    rw [hnum, hack, huna, seqDiff_num _ (by omega) (by omega)]
    omega
  have hsnd : (w.conn (p e)).snd.nxt = num (n₀ e.peer) (s.said e).length := by
    rw [hanswers.snd, (tcpAckUpdate_una _ _).2.1]
    exact h.nxt e
  have hconn : ((s.setNet e segs).setHost e w).conn p e = w.conn (p e) := by simp [TcpTalk.conn]
  have hgotw : ((s.setNet e segs).setHost e w).got p e = s.got p e ++ data := by
    simp [TcpTalk.got, hall]
  refine ⟨w, hw, ?_, ?_⟩
  · apply h.move [] (e := e) (by simp) (by simp) (by simpa using hshort)
    case hrecv =>
      rw [hgotw, TcpTalk.setHost_host]
      exact hrecv
    case hfront =>
      rw [hgotw, List.length_append, ← take_append_slice, ← h.front e, ← hpart.eq]
    case htuple =>
      rw [hconn]
      exact hanswers.tuple
    case hnxt =>
      rw [hconn, hsnd, h.nxt]
      simp
    case hflow =>
      rw [hconn, hanswers.snd, hgotw, List.length_append]
      exact ⟨a₁, htaken, by simpa using hrest⟩
    case hpeer =>
      intro v hv
      have hmp := h.mirrors e.peer
      rw [Side.peer_peer] at hmp
      obtain ⟨k', -, -, hlen', hnxt'⟩ := hrecv.received
      rw [hgotw, TcpTalk.setHost_net_peer, TcpTalk.setNet_host, hsegs, TcpTalk.setNet_net,
        Function.update_of_ne (Side.peer_ne e)]
      by_cases hempty : data = []
      · simpa [hempty] using hv
      · have hrcv' : (w.conn (p e)).rcv.nxt = num (n₀ e) (s.got p e ++ data).length := by
          rw [← hall, hlen', hnxt']
        have hsnoc := hv.snoc (hmp.congr hanswers.tuple rfl) [] (by simp) hrcv'
          (by rw [List.length_append]; omega)
        rw [← hsnd] at hsnoc
        rw [decide_eq_true hempty]
        exact hsnoc
  · rw [hsegs]
    show _ = if data = [] then [] else _
    by_cases hempty : data = [] <;> simp [hempty]

/-! ## Runs -/

/-- The network delivers segments in order. -/
def Arrives (_ : TcpTalk) : TalkOp → Prop
  | .arrive _ i => i = 0
  | _ => False

instance (s : TcpTalk) (op : TalkOp) : Decidable (Arrives s op) :=
  match op with
  | .arrive _ i => inferInstanceAs (Decidable (i = 0))
  | .send _ _ | .release _ _ | .lose _ _ | .copy _ _ => .isFalse not_false

/-- It neither loses nor repeats any, and both users send. -/
def FlowOk (s : TcpTalk) (op : TalkOp) : Prop :=
  match op with
  | .send _ _ | .release _ _ => TalkOk s op
  | .arrive _ _ | .lose _ _ | .copy _ _ => Arrives s op

instance (s : TcpTalk) (op : TalkOp) : Decidable (FlowOk s op) :=
  match op with
  | .send e data => inferInstanceAs (Decidable (TalkOk s (.send e data)))
  | .release e packet => inferInstanceAs (Decidable (TalkOk s (.release e packet)))
  | .arrive e i => inferInstanceAs (Decidable (Arrives s (.arrive e i)))
  | .lose _ _ | .copy _ _ => .isFalse not_false

/-- The deliveries that are still to come: of the segments, and of the answers to those with data.
    -/
def deliveries (segs : List TcpSegment) : Nat :=
  segs.length + segs.countP fun seg => seg.payload ≠ []

def TcpTalk.pending (s : TcpTalk) : Nat := deliveries (s.net .left) + deliveries (s.net .right)

/-- The deliveries that can still follow, in both directions. -/
theorem TcpTalk.pending_eq (s : TcpTalk) (e : Side) :
    s.pending = deliveries (s.net e) + deliveries (s.net e.peer) := by
  cases e with
  | left => rfl
  | right => exact Nat.add_comm _ _

/-- A delivery leaves fewer of them. -/
theorem FlowInv.arrive (hf : ∀ e, FramesOk (frames e)) (h : FlowInv frames p n₀ s)
    (hstep : talkStep frames p s (.arrive e 0) = some s') :
    FlowInv frames p n₀ s' ∧ s'.said = s.said ∧ s'.pending < s.pending := by
  obtain ⟨seg, hseg, hstep⟩ := Option.bind_eq_some_iff.mp hstep
  obtain ⟨w, hw, rfl⟩ := Option.map_eq_some_iff.mp hstep
  -- the segment that arrives is the first one on the way
  obtain ⟨segs, hnet⟩ : ∃ segs, s.net e = seg :: segs := by
    cases hl : s.net e with
    | nil =>
      rw [hl] at hseg
      cases hseg
    | cons seg' segs =>
      rw [hl] at hseg
      obtain rfl := Option.some.inj hseg
      exact ⟨segs, rfl⟩
  obtain ⟨w', hw', hinv, hsegs⟩ := h.hear hf hnet
  obtain rfl := Option.some.inj (hw.symm.trans hw')
  rw [hnet, List.eraseIdx_cons_zero]
  refine ⟨hinv, rfl, ?_⟩
  rw [TcpTalk.pending_eq _ e, TcpTalk.pending_eq s e, TcpTalk.setHost_net, TcpTalk.setHost_net_peer,
    TcpTalk.setNet_host, TcpTalk.setNet_net, Function.update_self,
    Function.update_of_ne (Side.peer_ne e), hsegs, hnet]
  -- it needed two deliveries if it had data, and is answered with one that needs one
  unfold deliveries
  have hack : (w.conn (p e)).bareAck.payload = [] := rfl
  by_cases hempty : seg.payload = []
  · simp [hempty]
  · simp [hempty, hack]
    omega

/-- A segment that is next is taken. -/
theorem FlowInv.arrives (hf : ∀ e, FramesOk (frames e)) (h : FlowInv frames p n₀ s)
    (hnet : s.net e ≠ []) :
    (talkStep frames p s (.arrive e 0)).isSome := by
  obtain ⟨seg, segs, hcons⟩ := List.exists_cons_of_ne_nil hnet
  obtain ⟨w, hw, -⟩ := h.hear hf hcons
  rw [talkStep, hcons, List.getElem?_cons_zero, Option.bind_some, hw]
  rfl

/-- Every step keeps the order. -/
theorem FlowInv.step (hf : ∀ e, FramesOk (frames e)) (h : FlowInv frames p n₀ s) {op : TalkOp}
    (hok : FlowOk s op)
    (hstep : talkStep frames p s op = some s') : FlowInv frames p n₀ s' := by
  cases op with
  | send e data =>
    obtain rfl := Option.some.inj hstep
    exact h.send hf hok.1 hok.2
  | arrive e i =>
    obtain rfl : i = 0 := hok
    exact (h.arrive hf hstep).1
  | release e packet =>
    obtain rfl := Option.some.inj hstep
    exact h.release hf hok
  | lose e i | copy e i => exact hok.elim

/-- Deliveries come to an end. -/
theorem FlowInv.run (hf : ∀ e, FramesOk (frames e)) (h : FlowInv frames p n₀ s) {ops : List TalkOp}
    (hrun : Run (talkStep frames p) Arrives s ops s') :
    FlowInv frames p n₀ s' ∧ s'.said = s.said ∧ ops.length + s'.pending ≤ s.pending := by
  induction hrun with
  | nil s => exact ⟨h, rfl, by simp⟩
  | @cons s t u op ops hok hstep _ ih =>
    cases op with
    | arrive e i =>
      obtain rfl : i = 0 := hok
      obtain ⟨ht, hsaid, hpending⟩ := h.arrive hf hstep
      obtain ⟨hu, hsaid', hpending'⟩ := ih ht
      exact ⟨hu, hsaid'.trans hsaid, by rw [List.length_cons]; omega⟩
    | send e data | release e packet | lose e i | copy e i => exact hok.elim

/-- Nothing has been said. -/
theorem TalkStart.flowInv (h : TalkStart frames p s) :
    FlowInv frames p (fun e => (s.conn p e).rcv.nxt) s := by
  have hgot (e : Side) : s.got p e = [] := (h.start e).received
  constructor
  case recv =>
    intro e
    rw [hgot]
    exact (h.start e).receiving []
  case front =>
    intro e
    rw [hgot]
    rfl
  case mirrors => exact h.mirrors
  case nxt => exact h.inv.nxt
  case short => exact h.inv.short
  -- on neither way is there a segment
  case flow =>
    intro e
    refine ⟨0, ?_, ?_⟩
    · rw [h.una, h.nxt, num_zero]
    · rw [hgot, hgot, h.said, h.net]
      exact .nil 0

/-- A network that loses, repeats and reorders nothing, while both users send: what one has sent
    is what the other one has been given and what is on its way.  From then on the hosts run dry in
    a bounded number of deliveries, however these alternate; in the end everything has been
    received and acknowledged. -/
theorem tcp_flow_complete (frames : Side → Nat → Nat) (hf : ∀ e, FramesOk (frames e))
    (p : Side → Nat)
    (s₀ s : TcpTalk) (ops : List TalkOp) (h₀ : TalkStart frames p s₀)
    (hrun : Run (talkStep frames p) FlowOk s₀ ops s) :
    (∀ e : Side, s.got p e.peer ++ (s.net e.peer).flatMap TcpSegment.payload = s.said e) ∧
      ∀ ops' s', Run (talkStep frames p) Arrives s ops' s' →
        ops'.length + s'.pending ≤ s.pending ∧
        (∀ e : Side, s'.net e ≠ [] → (talkStep frames p s' (.arrive e 0)).isSome) ∧
        ((∀ e : Side, s'.net e = []) →
          ∀ e : Side, s'.got p e.peer = s.said e ∧
            (s'.conn p e).snd.una = (s'.conn p e).snd.nxt) := by
  have hi : FlowInv frames p (fun e => (s₀.conn p e).rcv.nxt) s := by
    apply hrun.invariant (FlowInv frames p _) _ h₀.flowInv
    exact fun s op s' hinv hok hstep => hinv.step hf hok hstep
  refine ⟨fun e => ?_, fun ops' s' hrun' => ?_⟩
  · obtain ⟨u, -, hflow⟩ := hi.flow e.peer
    have hall := hflow.payload
    rw [← hi.front e.peer, Side.peer_peer] at hall
    exact hall
  · obtain ⟨hi', hsaid, hpending⟩ := hi.run hf hrun'
    refine ⟨hpending, fun e hnet => hi'.arrives hf hnet, fun hempty e => ?_⟩
    obtain ⟨u, huna, hflow⟩ := hi'.flow e
    obtain ⟨v, -, hflow'⟩ := hi'.flow e.peer
    have hfront := hi'.front e.peer
    rw [hempty, Side.peer_peer] at hflow'
    rw [hempty] at hflow
    rw [Side.peer_peer] at hfront
    -- with nothing on the way the last acknowledgement is of all that has been received
    obtain ⟨hall, -⟩ := hflow'.done
    obtain ⟨-, rfl⟩ := hflow.done
    rw [hall, List.take_length] at hfront
    refine ⟨by rw [hfront, hsaid], ?_⟩
    rw [huna, hi'.nxt, hall]

/-- Both users send, and the left host has got the first segment of the other one. -/
theorem tcp_flow_complete_both :
    ∃ s s' ops', Run (talkStep (fun _ => nextFrame) fun _ => 0x1000) FlowOk
      (TcpTalk.connected 0xFFFFFFFE)
        [.send .left [1, 2, 3], .send .right [7, 8], .send .left [4], .arrive .left 0,
          .send .right [9]] s ∧
      Run (talkStep (fun _ => nextFrame) fun _ => 0x1000) Arrives s ops' s' ∧ s.pending = 7 ∧
      ops'.length = 7 ∧
      ∀ e : Side, s'.got (fun _ => 0x1000) e.peer = s.said e ∧
        (s'.conn (fun _ => 0x1000) e).snd.una = (s'.conn (fun _ => 0x1000) e).snd.nxt := by
  -- both runs are evaluated at once
  have hexec :
    ((Run.exec (talkStep (fun _ => nextFrame) fun _ => 0x1000) FlowOk (TcpTalk.connected 0xFFFFFFFE)
      [.send .left [1, 2, 3], .send .right [7, 8], .send .left [4], .arrive .left 0,
        .send .right [9]]).bind
        fun s => (Run.exec (talkStep (fun _ => nextFrame) fun _ => 0x1000) Arrives s
          [.arrive .right 0, .arrive .left 0, .arrive .right 0, .arrive .right 0, .arrive .left 0,
            .arrive .left 0,
            .arrive .right 0]).map fun s' => (s.pending, s'.net .left, s'.net .right)) =
              some (7, [], []) := by
    decide +kernel
  obtain ⟨s, hs, hrest⟩ := Option.bind_eq_some_iff.mp hexec
  obtain ⟨s', hs', hres⟩ := Option.map_eq_some_iff.mp hrest
  simp only [Prod.mk.injEq] at hres
  obtain ⟨hpending, hleft, hright⟩ := hres
  have hrun := Run.of_exec hs
  have hrun' := Run.of_exec hs'
  obtain ⟨-, hall⟩ :=
    tcp_flow_complete (fun _ => nextFrame) (fun _ => nextFrame_framesOk) (fun _ => 0x1000) _ s _
    TcpTalk.connected_start hrun
  obtain ⟨-, -, hend⟩ := hall _ s' hrun'
  exact ⟨s, s', _, hrun, hrun', hpending, rfl, hend fun e => by cases e <;> assumption⟩

end MishaOS
