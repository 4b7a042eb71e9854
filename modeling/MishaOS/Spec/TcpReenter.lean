import MishaOS.Native.TcpReenter
import MishaOS.Spec.TcpPeers

/-!
# When the answer arrives

Over the loopback interface the answer to a SYN or a FIN is processed inside
`tcp_send_packet`, before `snd.nxt` counts what was sent and before the state is
set.  `tcp_connect` is then still in `TCP_CLOSED`, and `tcp_close` in the state it
was called in; the state is overwritten afterwards.

## Key results

- `answers_form`: what the peer can answer.
- `answer_timing_iff`: when the two orders come to the same.
-/

namespace MishaOS

variable {frames : Nat → Nat} {w w' w'' : TcpWorld} {conn : Nat} {c c' : TcpConn}
  {segs : List TcpSegment} {calls : List TcpEvent}

/-- When nothing happens in `intf->send`, this is `tcp_connect`. -/
theorem tcpConnectDuring_some (frames : Nat → Nat) (w : TcpWorld) (conn : Nat) (addr : Ipv4Addr)
    (port : BitVec 16) : tcpConnectDuring frames some w conn addr port =
      tcpConnect frames w conn addr port := by
  unfold tcpConnectDuring tcpConnect
  rw [Option.map_eq_bind]
  congr 1
  funext route
  dsimp only [Function.comp]
  split <;> rfl

/-- When nothing happens in `intf->send`, this is `tcp_close`. -/
theorem tcpCloseDuring_some (frames : Nat → Nat) (w : TcpWorld) (conn : Nat) :
    tcpCloseDuring frames some w conn = tcpClose frames w conn := by
  unfold tcpCloseDuring tcpClose
  cases (w.conn conn).state <;> rfl

/-- Over an interface that delivers later, the calls are `tcp_connect` and `tcp_close`. -/
theorem tcpCallDuring_some (frames : Nat → Nat) (w : TcpWorld) (conn : Nat) (call : TcpCall) :
    tcpCallDuring frames some w conn call =
      match call with
      | .connect addr port => (tcpConnect frames w conn addr port).map (·.2)
      | .close => tcpClose frames w conn := by
  cases call with
  | connect addr port =>
    exact congrArg (Option.map (·.2)) (tcpConnectDuring_some frames w conn addr port)
  | close => exact tcpCloseDuring_some frames w conn

/-! ## The two orders -/

/-- The state of the connection, its sequence variables and the calls since `w`. -/
def outcome (w w' : TcpWorld) (conn : Nat) : TcpState × TcpSndState × TcpRcvState × List TcpEvent :=
  ((w'.conn conn).state, (w'.conn conn).snd, (w'.conn conn).rcv, callsSince w w')

/-- It does not matter whether `seg` arrives while the call sends, or right after it. -/
def SameOutcome (frames : Nat → Nat) (w : TcpWorld) (conn : Nat) (call : TcpCall)
    (seg : TcpSegment) : Prop :=
  ∃ w₁ w₂, tcpCallDuring frames (deliverSegment frames seg) w conn call = some w₁ ∧
    (tcpCallDuring frames some w conn call).bind (deliverSegment frames seg) = some w₂ ∧
    outcome w w₁ conn = outcome w w₂ conn

/-- `seg` is an answer of a host that runs this code, in whatever state, to the segment `sent`. -/
def Answers (framesB : Nat → Nat) (b : TcpWorld) (sent seg : TcpSegment) : Prop :=
  ∃ b₁, deliverSegment framesB sent b = some b₁ ∧ seg ∈ segsSince b b₁

/-- The connection is one that `tcp_new_conn` returned, or one that is found. -/
def CallOk (w : TcpWorld) (conn : Nat) : TcpCall → Prop
  | .connect _ _ => conn ≠ 0 ∧ (w.conn conn).state = .closed
  | .close => conn ≠ 0 ∧ tcpFind w (w.conn conn).remoteAddr (w.conn conn).remotePort
      (w.conn conn).localAddr (w.conn conn).localPort = some conn

/-! ## When they agree -/

/-- `ack` lies between `snd.una` and `nxt`. -/
def AckIn (snd : TcpSndState) (ack nxt : BitVec 32) : Prop :=
  seqDiff snd.una ack ≤ 0 ∧ seqDiff ack nxt ≤ 0

/-- The segment is newer than the one the send window is from. -/
def WindowNews (snd : TcpSndState) (header : TcpHeader) : Prop :=
  seqDiff snd.wl1 header.seq < 0 ∨ (snd.wl1 = header.seq ∧ seqDiff snd.wl2 header.ack ≤ 0)

instance (snd : TcpSndState) (header : TcpHeader) : Decidable (WindowNews snd header) :=
  inferInstanceAs (Decidable (_ ∨ _))

def WindowKnown (snd : TcpSndState) (header : TcpHeader) : Prop :=
  snd.wnd = header.windowSize.zeroExtend 32 ∧ snd.wl1 = header.seq ∧ snd.wl2 = header.ack

/-- The acknowledgement brings nothing new. -/
def AckKnown (snd : TcpSndState) (header : TcpHeader) : Prop :=
  snd.una = header.ack ∧ (WindowNews snd header → WindowKnown snd header)

/-- The answers that `TCP_SYN_SENT` does not take: another number than the one behind the SYN is
    acknowledged, a RST acknowledges nothing, or there is neither RST nor SYN. -/
def ConnectHarmless (isn : BitVec 32) (header : TcpHeader) : Prop :=
  hasFlag header.flags TCP_ACK = true ∧ header.ack ≠ isn + 1 ∨
    hasFlag header.flags TCP_RST = true ∧ hasFlag header.flags TCP_ACK = false ∨
    hasFlag header.flags TCP_RST = false ∧ hasFlag header.flags TCP_SYN = false

/-- The answers to a FIN outside the window, and acknowledgements that leave out the FIN and
    change the same in both states. -/
def CloseHarmless (c : TcpConn) (header : TcpHeader) : Prop :=
  inWindow c header.seq 0 = false ∨
    hasFlag header.flags TCP_RST = false ∧
      match c.state with
      | .established =>
        header.ack ≠ c.snd.nxt + 1 ∧
          ((AckIn c.snd header.ack c.snd.nxt ↔ AckIn c.snd header.ack (c.snd.nxt + 1)) ∨
            AckKnown c.snd header)
      | .closeWait =>
        seqDiff header.ack (c.snd.nxt + 1) < 0 ∧
          (AckIn c.snd header.ack c.snd.nxt → AckKnown c.snd header)
      | _ =>
        header.ack ≠ c.snd.nxt + 1 ∧
          ((synAckOk c.snd header ∧ c.onState = false ∧
              (AckIn c.snd header.ack (c.snd.nxt + 1) →
                c.snd.una = header.ack ∧ (WindowNews c.snd header ∨ WindowKnown c.snd header)) ∧
              (¬ AckIn c.snd header.ack (c.snd.nxt + 1) → WindowKnown c.snd header)) ∨
            (¬ synAckOk c.snd header ∧
              (AckIn c.snd header.ack (c.snd.nxt + 1) → AckKnown c.snd header)))

def Harmless (w : TcpWorld) (conn : Nat) (header : TcpHeader) : TcpCall → Prop
  | .connect _ _ => ConnectHarmless (w.baseIsn + w.ticks * 250) header
  | .close => CloseHarmless (w.conn conn) header

/-! ## What the peer answers -/

/-- For `q` nothing is sent but segments without data that `P` allows, and its addresses stay. -/
structure Replies (P : BitVec 32 → BitVec 8 → Prop) (q : Nat) (w w' : TcpWorld) : Prop where
  tuple : (w'.conn q).tuple = (w.conn q).tuple
  sent : ∃ segs, w'.sent = segs ++ w.sent ∧ ∀ seg ∈ segs, ∃ r s f,
    seg = tcpSegment r s f [] ∧ r.tuple = (w.conn q).tuple ∧ P s f

variable {P : BitVec 32 → BitVec 8 → Prop} {q : Nat} {header : TcpHeader}

/-- Nothing has been sent. -/
theorem Replies.refl (w : TcpWorld) : Replies P q w w := ⟨rfl, [], rfl, by simp⟩

/-- Two steps that only reply are one. -/
theorem Replies.trans (h : Replies P q w w') (h' : Replies P q w' w'') : Replies P q w w'' := by
  obtain ⟨segs, hsent, hsegs⟩ := h.sent
  obtain ⟨segs', hsent', hsegs'⟩ := h'.sent
  refine ⟨h'.tuple.trans h.tuple, segs' ++ segs, by rw [hsent', hsent, List.append_assoc], ?_⟩
  intro seg hseg
  rcases List.mem_append.mp hseg with hseg | hseg
  · obtain ⟨r, s, f, hr, htuple, hP⟩ := hsegs' seg hseg
    exact ⟨r, s, f, hr, htuple.trans h.tuple, hP⟩
  · exact hsegs seg hseg

/-- What sends nothing replies nothing. -/
theorem Does.replies (h : Does q w w' c [] calls) (hc : c.tuple = (w.conn q).tuple) :
    Replies P q w w' :=
  ⟨by rw [h.conn, hc], [], h.sent, by simp⟩

/-- A bare segment of the right kind is a reply. -/
theorem tcpSendPacket_replies (frames : Nat → Nat) (w : TcpWorld) (q : Nat)
    {s : BitVec 32} {f : BitVec 8}
    (hP : P s f) : Replies P q w (tcpSendPacket frames w q s f []) := by
  have hdoes := tcpSendPacket_does frames (c := w.conn q) rfl s f []
  refine ⟨by rw [hdoes.conn]; rfl, _, hdoes.sent, ?_⟩
  intro seg hseg
  obtain rfl := List.mem_singleton.mp hseg
  exact ⟨w.conn q, s, f, rfl, rfl, hP⟩

/-- A change of state sends nothing. -/
theorem tcpSetState_replies (w : TcpWorld) (q : Nat) (state : TcpState) :
    Replies P q w (tcpSetState w q state) :=
  (tcpSetState_does rfl state).replies rfl

/-- Nor does a change of the send state. -/
theorem setSnd_replies (w : TcpWorld) (q : Nat) (x : TcpSndState) : Replies P q w (w.setSnd q x) :=
  (does_setConn w q { w.conn q with snd := x }).replies rfl

/-- Nor does a change of the receive state. -/
theorem setRcv_replies (w : TcpWorld) (q : Nat) (x : TcpRcvState) : Replies P q w (w.setRcv q x) :=
  (does_setConn w q { w.conn q with rcv := x }).replies rfl

/-- Nor does the timer. -/
theorem setMslWait_replies (w : TcpWorld) (q : Nat) (x : BitVec 32) :
    Replies P q w (w.setMslWait q x) :=
  (does_setConn w q { w.conn q with mslWait := x }).replies rfl

/-- Nor does the start of the timer. -/
theorem tcpTimeWait_replies (w : TcpWorld) (q : Nat) : Replies P q w (tcpTimeWait w q) := by
  unfold tcpTimeWait
  exact setMslWait_replies w q _

/-- Nor does a callback. -/
theorem call_replies (w : TcpWorld) (q : Nat) {e : TcpEvent} (he : e.isCall = true)
    (hseg : e.seg? = none)
    (set : Bool) : Replies P q w (if set then w.emit e else w) :=
  (does_call rfl he hseg set).replies rfl

/-- Nor does the release of an open connection. -/
theorem tcpFree_replies (hopen : (w.conn q).state ≠ .closed) (h : tcpFree w q = some w') :
    Replies P q w w' :=
  (tcpFree_does rfl hopen h).replies rfl

/-- Nor does an error of an open connection. -/
theorem tcpError_replies {error : Nat} (hopen : (w.conn q).state ≠ .closed)
    (h : tcpError w q error = some w') :
    Replies P q w w' :=
  (tcpError_does rfl hopen h).replies rfl

/-- What this code answers to a segment without data. -/
def ReplyOk (header : TcpHeader) (s : BitVec 32) (f : BitVec 8) : Prop :=
  f = TCP_ACK ∨ f = TCP_RST ∧ s = header.ack ∨
    (hasFlag header.flags TCP_SYN = true ∨ hasFlag header.flags TCP_ACK = false)

/-- The replies in `TCP_SYN_SENT`. -/
theorem tcpRecvSynSent_replies (h : tcpRecvSynSent frames w q header = some w')
    (hopen : (w.conn q).state ≠ .closed) : Replies (ReplyOk header) q w w' := by
  unfold tcpRecvSynSent at h
  -- a bad acknowledgement, a reset, a SYN, or nothing to answer
  split at h
  · split at h
    · cases h
      exact .refl w
    · cases h
      exact tcpSendPacket_replies frames w q (.inr (.inl ⟨rfl, rfl⟩))
  split at h
  · split at h
    · exact tcpError_replies hopen h
    · cases h
      exact .refl w
  split at h
  · rename_i hsyn
    cases h
    -- with the ACK the connection is open, without it both sides called
    unfold tcpRecvSynSentOpen
    dsimp only
    split
    · apply Replies.trans (setRcv_replies w q _)
      apply Replies.trans (setSnd_replies _ q _)
      apply Replies.trans (tcpSetState_replies _ q .established)
      apply Replies.trans (tcpSendPacket_replies frames _ q (.inl rfl))
      exact call_replies _ q rfl rfl _
    · apply Replies.trans (setRcv_replies w q _)
      apply Replies.trans (tcpSetState_replies _ q .synReceived)
      apply Replies.trans (setSnd_replies _ q _)
      exact tcpSendPacket_replies frames _ q (.inr (.inr (.inl hsyn)))
  · cases h
    exact .refl w

/-- The replies of `tcp_recv_ack`. -/
theorem tcpRecvAck_replies (h : tcpRecvAck frames w q header = some w') :
    Replies (ReplyOk header) q w w' := by
  unfold tcpRecvAck at h
  split at h
  -- the states of the handshake and of the last FIN answer on their own
  case h_1 =>
    split at h
    · cases h
      exact (setSnd_replies w q _).trans (tcpSetState_replies _ q .established)
    · cases h
      exact tcpSendPacket_replies frames w q (.inr (.inl ⟨rfl, rfl⟩))
  case h_7 hs =>
    split at h
    · exact tcpFree_replies (by rw [hs]; decide) h
    · cases h
      exact .refl w
  case h_8 =>
    cases h
    exact .refl w
  -- the open states: `snd` is updated, and then the state may change
  all_goals
    cases h
    unfold tcpRecvAckOpen
    dsimp only
    apply Replies.trans (setSnd_replies w q (tcpAckUpdate (w.conn q).snd header))
    generalize w.setSnd q (tcpAckUpdate (w.conn q).snd header) = u
    split
    · exact tcpSendPacket_replies frames u q (.inl rfl)
    split
    · split
      · exact tcpSetState_replies _ q .finWait2
      · exact (tcpSetState_replies _ q .timeWait).trans (tcpTimeWait_replies _ q)
      · exact .refl _
    · exact .refl _

/-- The replies of `tcp_recv_fin`. -/
theorem tcpRecvFin_replies (frames : Nat → Nat) (w : TcpWorld) (q : Nat) (header : TcpHeader) :
    Replies (ReplyOk header) q w (tcpRecvFin frames w q header) := by
  unfold tcpRecvFin
  dsimp only
  apply Replies.trans (setRcv_replies w q { (w.conn q).rcv with nxt := header.seq + 1 })
  apply Replies.trans (tcpSendPacket_replies frames _ q (.inl rfl))
  split
  · exact tcpSetState_replies _ q .closeWait
  · exact tcpSetState_replies _ q .closeWait
  · split
    · exact (tcpSetState_replies _ q .timeWait).trans (tcpTimeWait_replies _ q)
    · exact tcpSetState_replies _ q .closing
  · exact (tcpSetState_replies _ q .timeWait).trans (tcpTimeWait_replies _ q)
  · exact tcpTimeWait_replies _ q
  · exact .refl _

/-- `tcp_recv_rst` sends nothing. -/
theorem tcpRecvRst_replies (h : tcpRecvRst w q = some w') : Replies P q w w' := by
  unfold tcpRecvRst at h
  split at h
  case h_9 =>
    cases h
    exact .refl w
  all_goals
    rename_i hs
    first
      | exact tcpError_replies (by rw [hs]; decide) h
      | exact tcpFree_replies (by rw [hs]; decide) h

/-- The replies of `tcp_recv_general` to a bare segment. -/
theorem tcpRecvBareGeneral_replies (h : tcpRecvBareGeneral frames w q header = some w')
    (hopen : (w.conn q).state ≠ .closed) : Replies (ReplyOk header) q w w' := by
  unfold tcpRecvBareGeneral at h
  split at h
  · split at h
    · cases h
      exact .refl w
    · cases h
      exact tcpSendPacket_replies frames w q (.inl rfl)
  split at h
  · exact tcpRecvRst_replies h
  obtain ⟨w₁, hsyn, h⟩ := Option.bind_eq_some_iff.mp h
  -- a SYN in the window is answered with a reset and ends the connection
  have h₁ : Replies (ReplyOk header) q w w₁ := by
    split at hsyn
    · rename_i hflag
      apply Replies.trans (tcpSendPacket_replies frames w q (.inr (.inr (.inl hflag))))
      apply tcpError_replies _ hsyn
      rwa [(tcpSendPacket_does frames rfl 0 (TCP_RST ||| TCP_ACK) []).conn]
    · cases hsyn
      exact .refl w
  apply h₁.trans
  split at h
  · cases h
    exact .refl _
  obtain ⟨w₂, hack, rfl⟩ := Option.map_eq_some_iff.mp h
  apply (tcpRecvAck_replies hack).trans
  split
  · exact tcpRecvFin_replies frames w₂ q header
  · exact .refl w₂

/-- What `tcp_find` finds for a segment of `c` is its other end. -/
theorem tcpFindFrom_mirrors {fuel p : Nat}
    (h : tcpFindFrom w c.localAddr c.localPort c.remoteAddr c.remotePort fuel p = some q) :
    q = 0 ∨ Mirrors (w.conn q) c := by
  induction fuel generalizing p with
  | zero => exact nomatch h
  | succ fuel ih =>
    rw [tcpFindFrom] at h
    split at h
    · exact .inl (Option.some.inj h).symm
    split at h
    · rename_i hmatch
      obtain rfl := Option.some.inj h
      have haddr : ∀ a b : Ipv4Addr, a.bits = b.bits → b = a := by
        rintro ⟨a⟩ ⟨b⟩ rfl
        rfl
      exact .inr ⟨haddr _ _ hmatch.2.1, haddr _ _ hmatch.1, hmatch.2.2.2.symm, hmatch.2.2.1.symm⟩
    · exact ih h

/-- Only addresses and ports matter. -/
theorem Mirrors.of_tuple {r r' c : TcpConn} (h : Mirrors r c) (ht : r'.tuple = r.tuple) :
    Mirrors r' c := by
  simp only [TcpConn.tuple, Prod.mk.injEq] at ht
  obtain ⟨hra, hrp, hla, hlp⟩ := ht
  exact ⟨hla.trans h.localAddr, hra.trans h.remoteAddr, hlp.trans h.localPort,
    hrp.trans h.remotePort⟩

/-- The replies of `tcp_recv_closed` come from the other end of the segment. -/
theorem tcpRecvClosed_replies {seq : BitVec 32} {flags : BitVec 8} {len : BitVec 16}
    (h : tcpRecvClosed frames w c.localAddr c.remoteAddr
      (tcpSegment c seq flags []).header len = some w') :
    ∃ segs, w'.sent = segs ++ w.sent ∧ ∀ seg ∈ segs, ∃ r s f,
    seg = tcpSegment r s f [] ∧ Mirrors r c ∧
      ReplyOk (tcpSegment c seq flags []).header s f := by
  unfold tcpRecvClosed at h
  split at h
  · cases h
    exact ⟨[], rfl, by simp⟩
  obtain ⟨route, -, rfl⟩ := Option.map_eq_some_iff.mp h
  split
  · exact ⟨[], rfl, by simp⟩
  dsimp only
  split
  · refine ⟨[_], rfl, ?_⟩
    intro seg hseg
    obtain rfl := List.mem_singleton.mp hseg
    exact ⟨_, _, _, rfl, ⟨rfl, rfl, rfl, rfl⟩, .inr (.inl ⟨rfl, rfl⟩)⟩
  · rename_i hack
    refine ⟨[_], rfl, ?_⟩
    intro seg hseg
    obtain rfl := List.mem_singleton.mp hseg
    exact ⟨_, _, _, rfl, ⟨rfl, rfl, rfl, rfl⟩, .inr (.inr (.inr (by simpa using hack)))⟩

/-- Every answer to a segment of `c` without data is a segment without data back to it. -/
theorem answers_form {framesB : Nat → Nat} {b : TcpWorld} {seq : BitVec 32} {flags : BitVec 8}
    {seg : TcpSegment}
    (h : Answers framesB b (tcpSegment c seq flags []) seg) :
    ∃ r s f, seg = tcpSegment r s f [] ∧ Mirrors r c ∧
      ReplyOk (tcpSegment c seq flags []).header s f := by
  obtain ⟨b₁, hdeliver, hseg⟩ := h
  obtain ⟨bufs, packet, -, -, heq⟩ := tcpDeliver_segment framesB b c seq flags [] (by simp)
  -- without a connection, or with a closed one, `tcp_recv_closed` answers
  cases hfind : tcpFind b c.localAddr c.localPort c.remoteAddr c.remotePort with
  | none =>
    rw [hfind] at heq
    exact nomatch heq.symm.trans hdeliver
  | some q =>
    by_cases hclosed : q = 0 ∨ (b.conn q).state = .closed
    · rw [hfind, Option.bind_some, if_pos hclosed] at heq
      obtain ⟨b₂, hb₂, rfl⟩ := Option.map_eq_some_iff.mp (heq.symm.trans hdeliver)
      obtain ⟨segs, hsent, hsegs⟩ := tcpRecvClosed_replies hb₂
      have hsince : segsSince b (b₂.setBufs (netFreeBuf b₂.bufs packet)) = segs :=
        segsSince_eq hsent
      rw [hsince] at hseg
      exact hsegs seg hseg
    · obtain ⟨h0, hopen⟩ := not_or.mp hclosed
      have hmirrors := (tcpFindFrom_mirrors hfind).resolve_left h0
      obtain ⟨bufs, packet, heq⟩ := tcpDeliver_bare framesB seq flags hfind h0 hopen
      obtain ⟨b₂, hb₂, rfl⟩ := Option.map_eq_some_iff.mp (heq.symm.trans hdeliver)
      have hreplies : Replies (ReplyOk (tcpSegment c seq flags []).header) q
          (b.setBufs bufs) b₂ := by
        split at hb₂
        · exact tcpRecvSynSent_replies hb₂ hopen
        · cases hb₂
          exact .refl _
        · exact tcpRecvBareGeneral_replies hb₂ hopen
      obtain ⟨segs, hsent, hsegs⟩ := hreplies.sent
      have hsince : segsSince b (b₂.setBufs (netFreeBuf b₂.bufs packet)) = segs :=
        segsSince_eq hsent
      rw [hsince] at hseg
      obtain ⟨r, s, f, hr, htuple, hok⟩ := hsegs seg hseg
      exact ⟨r, s, f, hr, hmirrors.of_tuple htuple, hok⟩

/-! ## Sending with an answer inside -/

/-- What a call leaves behind, read off what it does. -/
theorem Does.outcome (h : Does conn w' w'' c segs calls) (hcalls : w'.calls = w.calls) :
    outcome w w'' conn = (c.state, c.snd, c.rcv, calls) := by
  rw [MishaOS.outcome, h.conn, callsSince_eq (h.calls.trans (by rw [hcalls]))]

/-- The answer is processed with the old `snd.nxt`, which is counted on afterwards. -/
theorem tcpSendPacketDuring_does (frames : Nat → Nat) (during : TcpWorld → Option TcpWorld)
    {seq : BitVec 32} {flags : BitVec 8}
    (hc : w.conn conn = c)
    (hduring : ∃ u, during (tcpTransmit frames w conn c seq flags []) = some u ∧
      Does conn (tcpTransmit frames w conn c seq flags []) u c' segs calls) :
    ∃ u, tcpSendPacketDuring frames during w conn seq flags [] = some u ∧
      Does conn w u { c' with snd := { c'.snd with nxt := tcpSndNxt c'.snd.nxt flags [] } }
        (segs ++ [tcpSegment c seq flags []]) calls := by
  obtain ⟨u, hu, hdoes⟩ := hduring
  refine ⟨u.setSnd conn { (u.conn conn).snd with nxt := tcpSndNxt (u.conn conn).snd.nxt flags [] },
    ?_, ?_⟩
  · unfold tcpSendPacketDuring
    rw [hc, hu]
    rfl
  -- transmit, answer, then the count of `snd.nxt`
  · have hsent := tcpTransmit_does frames hc c conn seq flags []
    have hset := does_setConn u conn { u.conn conn with
      snd := { (u.conn conn).snd with nxt := tcpSndNxt (u.conn conn).snd.nxt flags [] } }
    have hall := (hsent.trans hdoes).trans hset
    rw [hdoes.conn, List.append_nil] at hall
    unfold TcpWorld.setSnd
    rw [hdoes.conn]
    exact hall

/-- `tcp_recv_closed` leaves every connection alone. -/
theorem tcpRecvClosed_does {route : Nat} {src : Ipv4Addr} (frames : Nat → Nat) (header : TcpHeader)
    (hroute : netFindRoute w.routes src = some route) (hc : w.conn conn = c) (dst : Ipv4Addr)
    (len : BitVec 16) :
    ∃ u segs, tcpRecvClosed frames w src dst header len = some u ∧ Does conn w u c segs [] := by
  unfold tcpRecvClosed
  rw [hroute]
  split
  · exact ⟨_, [], rfl, .refl hc⟩
  rw [Option.map_some]
  split
  · exact ⟨_, [], rfl, .refl hc⟩
  dsimp only
  split
  · exact ⟨_, _, rfl, tcpTransmit_does frames hc _ 0 _ _ []⟩
  · exact ⟨_, _, rfl, tcpTransmit_does frames hc _ 0 _ _ []⟩

/-! ## tcp_connect -/

/-- `w'` is the state in which `tcp_connect` sends the SYN, and `c` the structure then. -/
structure Calling (w w' : TcpWorld) (q : Nat) (addr : Ipv4Addr) (c : TcpConn) : Prop where
  conn : w'.conn q = c
  list : w'.tcpConnList = q
  routes : w'.routes = w.routes
  sent : w'.sent = w.sent
  calls : w'.calls = w.calls
  remoteAddr : c.remoteAddr = addr
  state : c.state = (w.conn q).state
  snd : c.snd = ⟨w.baseIsn + w.ticks * 250, w.baseIsn + w.ticks * 250, TCP_WINDOW_SIZE, 0, 0, 0,
    w.baseIsn + w.ticks * 250⟩

/-- Before its SYN `tcp_connect` puts a calling connection in front of the list. -/
theorem tcpConnectLink_calling {addr : Ipv4Addr} {route : Nat} (frames : Nat → Nat) (conn : Nat)
    (port : BitVec 16) (hroute : netFindRoute w.routes addr = some route) (hne : route ≠ 0) :
    ∃ w' c, Calling w w' conn addr c ∧ ∀ during, tcpConnectDuring frames during w conn addr port =
      (tcpSendPacketDuring frames during w' conn c.snd.nxt TCP_SYN []).map fun u =>
        (true, tcpSetState u conn .synSent) := by
  set w₁ : TcpWorld := { w with nextPort := (netEphemeralPort w.nextPort).2 }.setConn conn
    (tcpConnectConn w conn route addr port) with hw₁
  obtain ⟨prev, hprev⟩ := tcpConnectLink_conn w₁ conn conn
  rw [if_pos rfl] at hprev
  have hc : w₁.conn conn = tcpConnectConn w conn route addr port := by
    rw [hw₁, TcpWorld.setConn_conn, if_pos rfl]
  have hlog := tcpConnectLink_log w₁ conn
  have hroutes : (tcpConnectLink w₁ conn).routes = w.routes := by
    unfold tcpConnectLink
    dsimp only
    split <;> rfl
  rw [hc] at hprev
  refine ⟨tcpConnectLink w₁ conn, _, ⟨hprev, rfl, hroutes, by rw [TcpWorld.sent, hlog]; rfl,
    by rw [TcpWorld.calls, hlog]; rfl, rfl, rfl, rfl⟩, ?_⟩
  intro during
  have hnxt : ((tcpConnectLink w₁ conn).conn conn).snd.nxt =
      (tcpConnectConn w conn route addr port).snd.nxt := by
    rw [hprev]
  unfold tcpConnectDuring
  rw [hroute, Option.bind_some, if_neg hne]
  dsimp only
  rw [← hw₁, hnxt]

/-- The acknowledgement that `TCP_SYN_SENT` takes is the one of the SYN. -/
theorem synSentAckBad_iff {header : TcpHeader} (hnxt : c.snd.nxt = c.snd.iss + 1) :
    synSentAckBad c header = true ↔ header.ack ≠ c.snd.iss + 1 := by
  have hnext : header.ack - c.snd.nxt = (header.ack - c.snd.iss) - 1 := by
    rw [hnxt, sub_add_eq_sub_sub]
  have hone : header.ack = c.snd.iss + 1 ↔ header.ack - c.snd.iss = 1 := by
    rw [sub_eq_iff_eq_add, add_comm]
  unfold synSentAckBad seqDiff
  rw [decide_eq_true_iff, hnext, ne_eq, hone]
  generalize header.ack - c.snd.iss = d
  have hd := d.isLt
  rw [← BitVec.toNat_inj, BitVec.toInt_eq_toNat_cond, BitVec.toInt_eq_toNat_cond, BitVec.toNat_sub]
  split <;> split <;> simp at * <;> omega

/-- In `TCP_SYN_SENT` a harmless answer changes nothing. -/
theorem tcpRecvSynSent_harmless {header : TcpHeader} (frames : Nat → Nat) (conn : Nat)
    (hnxt : c.snd.nxt = c.snd.iss + 1) (hharmless : ConnectHarmless c.snd.iss header) :
    ∃ segs, ∀ w : TcpWorld, w.conn conn = c →
      ∃ u, tcpRecvSynSent frames w conn header = some u ∧ Does conn w u c segs [] := by
  -- a bad acknowledgement is answered with a reset at most
  by_cases hbad : hasFlag header.flags TCP_ACK = true ∧ synSentAckBad c header = true
  · cases hrst : hasFlag header.flags TCP_RST with
    | true =>
      refine ⟨[], fun w hc => ⟨w, ?_, .refl hc⟩⟩
      unfold tcpRecvSynSent
      rw [hc, if_pos hbad, if_pos hrst]
    | false =>
      refine ⟨[tcpSegment c header.ack TCP_RST []],
        fun w hc => ⟨tcpSendPacket frames w conn header.ack TCP_RST [], ?_, ?_⟩⟩
      · unfold tcpRecvSynSent
        rw [hc, if_pos hbad, hrst]
        rfl
      · have hsend := tcpSendPacket_does frames hc header.ack TCP_RST []
        rw [tcpSndNxt_nil (by decide)] at hsend
        exact hsend
  · refine ⟨[], fun w hc => ⟨w, ?_, .refl hc⟩⟩
    unfold tcpRecvSynSent
    rw [hc, if_neg hbad]
    rw [synSentAckBad_iff hnxt, not_and, not_not] at hbad
    -- a good one is not harmless, what is left has neither a reset nor a SYN
    rcases hharmless with ⟨hack, hne⟩ | ⟨hrst, hack⟩ | ⟨hrst, hsyn⟩
    · exact absurd (hbad hack) hne
    · rw [if_pos hrst, hack]
      rfl
    · rw [hrst, hsyn]
      rfl

/-- Every other answer ends `TCP_SYN_SENT`. -/
theorem tcpRecvSynSent_harmful {header : TcpHeader} (hc : w.conn conn = c)
    (hstate : c.state = .synSent)
    (hnxt : c.snd.nxt = c.snd.iss + 1) (hharmful : ¬ ConnectHarmless c.snd.iss header)
    (h : tcpRecvSynSent frames w conn header = some w') : (w'.conn conn).state ≠ .synSent := by
  unfold ConnectHarmless at hharmful
  simp only [not_or, not_and, not_not, Bool.not_eq_false] at hharmful
  obtain ⟨hack, hrst, hsyn⟩ := hharmful
  unfold tcpRecvSynSent at h
  rw [hc, if_neg (by rw [synSentAckBad_iff hnxt, not_and, not_not]; exact hack)] at h
  split at h
  · rename_i hr
    rw [if_pos (hrst hr)] at h
    rw [(tcpError_does hc (by rw [hstate]; decide) h).conn]
    exact TcpState.noConfusion
  · rename_i hr
    rw [if_pos (hsyn (by simpa using hr))] at h
    obtain rfl := Option.some.inj h
    cases hflag : hasFlag header.flags TCP_ACK with
    | true =>
      obtain ⟨u, c', rfl, rfl, hdoes⟩ := tcpRecvSynSentOpen_ack frames hc hflag
      rw [hdoes.conn]
      exact TcpState.noConfusion
    | false =>
      obtain ⟨u, c', rfl, rfl, hdoes⟩ := tcpRecvSynSentOpen_syn frames hc hflag
      rw [hdoes.conn]
      exact TcpState.noConfusion

/-- While `tcp_connect` sends, the connection is closed: whatever arrives is refused. -/
theorem deliverSegment_closed {r : TcpConn} {route : Nat} (s : BitVec 32) (f : BitVec 8)
    (frames : Nat → Nat)
    (hc : w.conn conn = c) (hclosed : c.state = .closed) (h0 : conn ≠ 0)
    (hlist : w.tcpConnList = conn)
    (hroute : netFindRoute w.routes c.remoteAddr = some route) (hmirrors : Mirrors r c) :
    ∃ u segs, deliverSegment frames (tcpSegment r s f []) w = some u ∧ Does conn w u c segs [] := by
  obtain ⟨bufs, packet, -, -, hdeliver⟩ := tcpDeliver_segment frames w r s f [] (by simp)
  rw [hmirrors.tcpFind (tcpFind_head h0 hlist hc), Option.bind_some,
    if_pos (.inr (by rw [hc, hclosed]))] at hdeliver
  rw [← hmirrors.localAddr] at hroute
  obtain ⟨u, segs, hu, hdoes⟩ := tcpRecvClosed_does (w := w.setBufs bufs) (c := c) frames
    (tcpSegment r s f []).header hroute hc r.remoteAddr
      (BitVec.ofNat 16 (tcpSegment r s f []).toBytes.length)
  rw [hu, Option.map_some] at hdeliver
  exact ⟨_, segs, hdeliver, hdoes.conn, hdoes.list, hdoes.sent, hdoes.calls⟩

/-- The answer to the SYN. -/
theorem connect_timing_iff {framesB : Nat → Nat} {b : TcpWorld} {addr : Ipv4Addr} {port : BitVec 16}
    {sent seg : TcpSegment} (h0 : conn ≠ 0) (hclosed : (w.conn conn).state = .closed)
    (hcall : tcpConnectDuring frames some w conn addr port = some (true, w'))
    (hsent : sent ∈ segsSince w w') (hanswer : Answers framesB b sent seg) :
    SameOutcome frames w conn (.connect addr port) seg ↔
      ConnectHarmless (w.baseIsn + w.ticks * 250) seg.header := by
  obtain ⟨route, hroute, hr⟩ := Option.bind_eq_some_iff.mp hcall
  have hne : route ≠ 0 := by
    rintro rfl
    simp at hr
  obtain ⟨w₁, c, hcalling, hduring⟩ := tcpConnectLink_calling frames conn port hroute hne
  have hisn : c.snd.iss = w.baseIsn + w.ticks * 250 := by
    rw [hcalling.snd]
  have hnxt : tcpSndNxt c.snd.nxt TCP_SYN [] = c.snd.iss + 1 := by
    have hflags : hasFlag TCP_SYN (TCP_SYN ||| TCP_FIN) = true := by decide
    rw [hcalling.snd]
    simp [tcpSndNxt, hflags]
  -- the SYN goes out, and nothing comes back yet
  have htransmit := tcpTransmit_does frames hcalling.conn c conn c.snd.nxt TCP_SYN []
  obtain ⟨u, hu, hdoes⟩ := tcpSendPacketDuring_does frames some hcalling.conn ⟨_, rfl,
    .refl htransmit.conn⟩
  have hstate := hdoes.trans (tcpSetState_does hdoes.conn .synSent)
  rw [hduring some, hu] at hcall
  obtain rfl := (Prod.mk.inj (Option.some.inj hcall)).2
  have hsince : segsSince w (tcpSetState u conn .synSent) =
      [tcpSegment c c.snd.nxt TCP_SYN []] := by
    apply segsSince_eq
    rw [hstate.sent, hcalling.sent]
    rfl
  rw [hsince] at hsent
  obtain rfl := List.mem_singleton.mp hsent
  obtain ⟨r, s, f, rfl, hmirrors, -⟩ := answers_form hanswer
  -- the answer inside
  have hroutes :
    netFindRoute (tcpTransmit frames w₁ conn c c.snd.nxt TCP_SYN []).routes c.remoteAddr =
      some route := by
    rw [hcalling.remoteAddr, ← hroute, ← hcalling.routes]
    rfl
  obtain ⟨x, segs, hx, hinside⟩ :=
    deliverSegment_closed s f frames htransmit.conn (hcalling.state.trans hclosed) h0
    hcalling.list hroutes hmirrors
  obtain ⟨u₁, hu₁, hdoes₁⟩ :=
    tcpSendPacketDuring_does frames (deliverSegment frames (tcpSegment r s f []))
    hcalling.conn ⟨x, hx, hinside⟩
  have hstate₁ := hdoes₁.trans (tcpSetState_does hdoes₁.conn .synSent)
  have hfirst : tcpCallDuring frames (deliverSegment frames (tcpSegment r s f [])) w conn
    (.connect addr port) =
      some (tcpSetState u₁ conn .synSent) := by
    rw [tcpCallDuring, hduring, hu₁]
    rfl
  have hsecond : tcpCallDuring frames some w conn (.connect addr port) =
      some (tcpSetState u conn .synSent) := by
    rw [tcpCallDuring, hduring, hu]
    rfl
  have hout₁ := hstate₁.outcome hcalling.calls
  -- the answer after the call finds the structure `cs`
  obtain ⟨cs, hcs⟩ : ∃ cs, cs = { c with
      snd := { c.snd with nxt := tcpSndNxt c.snd.nxt TCP_SYN [] }
      state := .synSent } := ⟨_, rfl⟩
  have hmirrors' : Mirrors r cs := by
    rw [hcs]
    exact ⟨hmirrors.localAddr, hmirrors.remoteAddr, hmirrors.localPort, hmirrors.remotePort⟩
  have hconn : (tcpSetState u conn .synSent).conn conn = cs := hstate.conn.trans hcs.symm
  have hfind := hmirrors'.tcpFind (tcpFind_head h0 (hstate.list.trans hcalling.list) hconn)
  have hsynSent : ((tcpSetState u conn .synSent).conn conn).state = .synSent := by
    rw [hconn, hcs]
  have hnxt' : cs.snd.nxt = cs.snd.iss + 1 := by
    rw [hcs]
    exact hnxt
  have hiss : cs.snd.iss = w.baseIsn + w.ticks * 250 := by
    rw [hcs]
    exact hisn
  rw [← hiss]
  constructor
  · rintro ⟨v₁, v₂, hv₁, hv₂, heq⟩
    rw [hfirst] at hv₁
    obtain rfl := Option.some.inj hv₁
    rw [hsecond, Option.bind_some] at hv₂
    by_contra hharmful
    obtain ⟨bufs, packet, hdeliver⟩ :=
      tcpDeliver_bare frames s f hfind h0 (by rw [hsynSent]; decide)
    rw [hsynSent] at hdeliver
    obtain ⟨v, hv, rfl⟩ := Option.map_eq_some_iff.mp (hdeliver.symm.trans hv₂)
    have hconn' : ((tcpSetState u conn .synSent).setBufs bufs).conn conn = cs := hconn
    have hleft := tcpRecvSynSent_harmful hconn' (by rw [hcs]) hnxt' hharmful hv
    rw [hout₁] at heq
    exact hleft (congrArg Prod.fst heq).symm
  · intro hharmless
    obtain ⟨segs', hkeeps⟩ := tcpRecvSynSent_harmless frames conn hnxt' hharmless
    obtain ⟨v, hv, hafter⟩ := tcpDeliver_synSent frames s f hfind h0 hsynSent fun b =>
      hkeeps _ hconn
    refine ⟨_, v, hfirst, by rw [hsecond]; exact hv, ?_⟩
    rw [hout₁, (hstate.trans hafter).outcome hcalling.calls, hcs]
    rfl

/-! ## Acknowledgements -/

/-- `snd` with what the acknowledgement brings. -/
def ackTaken (snd : TcpSndState) (header : TcpHeader) : TcpSndState :=
  if WindowNews snd header then
    { snd with
      una := header.ack
      wnd := header.windowSize.zeroExtend 32
      wl1 := header.seq
      wl2 := header.ack }
  else { snd with una := header.ack }

variable {snd : TcpSndState}

/-- An acknowledgement in the window is taken. -/
theorem tcpAckUpdate_of_ackIn (h : AckIn snd header.ack snd.nxt) :
    tcpAckUpdate snd header = ackTaken snd header := by
  unfold AckIn at h
  unfold tcpAckUpdate
  rw [if_pos h]
  rfl

/-- Any other one is ignored. -/
theorem tcpAckUpdate_of_not_ackIn (h : ¬ AckIn snd header.ack snd.nxt) :
    tcpAckUpdate snd header = snd := by
  unfold AckIn at h
  unfold tcpAckUpdate
  rw [if_neg h]

/-- Taking an acknowledgement changes nothing when it brings nothing new. -/
theorem ackTaken_eq_self : ackTaken snd header = snd ↔ AckKnown snd header := by
  obtain ⟨una, nxt, wnd, urp, wl1, wl2, iss⟩ := snd
  unfold ackTaken AckKnown WindowKnown
  by_cases hnews : WindowNews ⟨una, nxt, wnd, urp, wl1, wl2, iss⟩ header
  · rw [if_pos hnews]
    simp only [TcpSndState.mk.injEq, hnews, true_and, and_true, forall_const]
    grind
  · rw [if_neg hnews]
    simp only [TcpSndState.mk.injEq, hnews, and_true, false_implies]
    grind

/-- The number behind the FIN does not change what is taken. -/
theorem ackTaken_nxt (m : BitVec 32) :
    { ackTaken snd header with nxt := m } = ackTaken { snd with nxt := m } header := by
  unfold ackTaken
  by_cases hnews : WindowNews snd header
  · have hnews' : WindowNews { snd with nxt := m } header := hnews
    rw [if_pos hnews, if_pos hnews']
  · have hnews' : ¬ WindowNews { snd with nxt := m } header := hnews
    rw [if_neg hnews, if_neg hnews']

/-- When it does not matter whether `snd.nxt` moves before the acknowledgement or behind it. -/
theorem tcpAckUpdate_agree {m : BitVec 32} :
    { tcpAckUpdate snd header with nxt := m } = tcpAckUpdate { snd with nxt := m } header ↔
      ((AckIn snd header.ack snd.nxt ↔ AckIn snd header.ack m) ∨ AckKnown snd header) := by
  have hknown : AckKnown { snd with nxt := m } header ↔ AckKnown snd header := Iff.rfl
  -- the acknowledgement may be in the range of the old `nxt`, of the new one, of both or of none
  by_cases hold : AckIn snd header.ack snd.nxt <;> by_cases hnew : AckIn snd header.ack m
  · have hnew' : AckIn { snd with nxt := m } header.ack m := hnew
    rw [tcpAckUpdate_of_ackIn hold, tcpAckUpdate_of_ackIn hnew', ackTaken_nxt]
    simp [hold, hnew]
  · have hnew' : ¬ AckIn { snd with nxt := m } header.ack m := hnew
    rw [tcpAckUpdate_of_ackIn hold, tcpAckUpdate_of_not_ackIn hnew', ackTaken_nxt,
      ackTaken_eq_self, hknown]
    simp [hold, hnew]
  · have hnew' : AckIn { snd with nxt := m } header.ack m := hnew
    rw [tcpAckUpdate_of_not_ackIn hold, tcpAckUpdate_of_ackIn hnew', eq_comm,
      ackTaken_eq_self, hknown]
    simp [hold, hnew]
  · have hnew' : ¬ AckIn { snd with nxt := m } header.ack m := hnew
    rw [tcpAckUpdate_of_not_ackIn hold, tcpAckUpdate_of_not_ackIn hnew']
    simp [hold, hnew]

/-- When an acknowledgement changes nothing. -/
theorem tcpAckUpdate_eq_self : tcpAckUpdate snd header = snd ↔
    (AckIn snd header.ack snd.nxt → AckKnown snd header) := by
  by_cases hin : AckIn snd header.ack snd.nxt
  · rw [tcpAckUpdate_of_ackIn hin, ackTaken_eq_self]
    simp [hin]
  · rw [tcpAckUpdate_of_not_ackIn hin]
    simp [hin]

/-- The window of the acknowledgement that ends the handshake. -/
theorem ackTaken_eq_window : { snd with
      wnd := header.windowSize.zeroExtend 32
      wl1 := header.seq
      wl2 := header.ack } = ackTaken snd header ↔
    snd.una = header.ack ∧ (WindowNews snd header ∨ WindowKnown snd header) := by
  obtain ⟨una, nxt, wnd, urp, wl1, wl2, iss⟩ := snd
  unfold ackTaken WindowKnown
  by_cases hnews : WindowNews ⟨una, nxt, wnd, urp, wl1, wl2, iss⟩ header
  · rw [if_pos hnews]
    simp only [TcpSndState.mk.injEq, hnews, true_or, and_true]
  · rw [if_neg hnews]
    simp only [TcpSndState.mk.injEq, hnews, false_or, and_true, true_and]
    grind

/-- When a window update changes nothing. -/
theorem window_eq_self : { snd with
      wnd := header.windowSize.zeroExtend 32
      wl1 := header.seq
      wl2 := header.ack } = snd ↔ WindowKnown snd header := by
  obtain ⟨una, nxt, wnd, urp, wl1, wl2, iss⟩ := snd
  unfold WindowKnown
  simp only [TcpSndState.mk.injEq, true_and, and_true]
  grind

/-- When it changes as much as the acknowledgement does. -/
theorem window_eq_tcpAckUpdate : { snd with
      wnd := header.windowSize.zeroExtend 32
      wl1 := header.seq
      wl2 := header.ack } = tcpAckUpdate snd header ↔
    (AckIn snd header.ack snd.nxt → snd.una = header.ack ∧
      (WindowNews snd header ∨ WindowKnown snd header)) ∧
      (¬ AckIn snd header.ack snd.nxt → WindowKnown snd header) := by
  by_cases hin : AckIn snd header.ack snd.nxt
  · rw [tcpAckUpdate_of_ackIn hin, ackTaken_eq_window]
    simp [hin]
  · rw [tcpAckUpdate_of_not_ackIn hin, window_eq_self]
    simp [hin]

/-! ## tcp_close -/

/-- The state `tcp_close` sets after the FIN. -/
def closeState : TcpState → TcpState
  | .closeWait => .lastAck
  | _ => .finWait1

/-- Releasing a connection sends nothing. -/
theorem tcpFree_sent (h : tcpFree w conn = some w') : w'.sent = w.sent := by
  by_cases hopen : (w.conn conn).state = .closed
  · unfold tcpFree at h
    rw [if_neg (not_not.mpr hopen)] at h
    obtain rfl := Option.some.inj h
    exact (tcpFreeLink_does rfl).sent
  · exact (tcpFree_does rfl hopen h).sent

/-- `tcp_close` sends something in three states only. -/
theorem tcpCloseDuring_sends {sent : TcpSegment} (hc : w.conn conn = c)
    (hcall : tcpCloseDuring frames some w conn = some w') (hsent : sent ∈ segsSince w w') :
    c.state ∈ [.synReceived, .established, .closeWait] ∧
    ∀ during, tcpCloseDuring frames during w conn =
      (tcpSendPacketDuring frames during w conn c.snd.nxt (TCP_FIN ||| TCP_ACK) []).map fun u =>
        tcpSetState u conn (closeState c.state) := by
  have hnothing : w'.sent = w.sent → False := by
    intro heq
    have hnone : segsSince w w' = [] := segsSince_eq heq
    rw [hnone] at hsent
    exact absurd hsent List.not_mem_nil
  unfold tcpCloseDuring at hcall ⊢
  rw [hc] at hcall ⊢
  -- three states send a FIN, the others send nothing
  cases hstate : c.state
  case synReceived => exact ⟨by decide, fun _ => rfl⟩
  case established => exact ⟨by decide, fun _ => rfl⟩
  case closeWait => exact ⟨by decide, fun _ => rfl⟩
  all_goals
    rw [hstate] at hcall
    dsimp only at hcall
    refine (hnothing ?_).elim
  case closed => exact tcpFree_sent hcall
  case listen => exact tcpFree_sent hcall
  case synSent => exact tcpFree_sent hcall
  all_goals
    obtain rfl := Option.some.inj hcall
    exact (@does_call _ conn _ rfl _ rfl rfl c.onError).sent

section Close

variable {r : TcpConn} {s : BitVec 32} {f : BitVec 8}

/-- The structure after `tcp_close`, before the answer. -/
def TcpConn.closing (c : TcpConn) : TcpConn :=
  { c with snd := { c.snd with nxt := c.snd.nxt + 1 }, state := closeState c.state }

/-- A FIN takes one sequence number. -/
theorem tcpSndNxt_fin (nxt : BitVec 32) : tcpSndNxt nxt (TCP_FIN ||| TCP_ACK) [] = nxt + 1 := by
  have hflags : hasFlag (TCP_FIN ||| TCP_ACK) (TCP_SYN ||| TCP_FIN) = true := by decide
  simp [tcpSndNxt, hflags]

/-- Before and behind `tcp_close` segments of the connection go to `tcp_recv_general`. -/
theorem closeState_general (h : c.state ∈ [.synReceived, .established, .closeWait]) :
    c.state ∉ [.closed, .listen, .synSent] ∧ c.closing.state ∉ [.closed, .listen, .synSent] := by
  show c.state ∉ _ ∧ closeState c.state ∉ _
  revert h
  cases c.state <;> decide

/-- The call, with no answer yet. -/
theorem tcpClose_does (frames : Nat → Nat) (hc : w.conn conn = c)
    (hstate : c.state ∈ [.synReceived, .established, .closeWait])
    (hclose : ∀ during, tcpCloseDuring frames during w conn =
      (tcpSendPacketDuring frames during w conn c.snd.nxt (TCP_FIN ||| TCP_ACK) []).map fun u =>
        tcpSetState u conn (closeState c.state)) :
    ∃ u, tcpCloseDuring frames some w conn = some u ∧ Quiet w u ∧
      Does conn w u c.closing [tcpSegment c c.snd.nxt (TCP_FIN ||| TCP_ACK) []]
        (if c.onState then [.onState conn c.state (closeState c.state)] else []) := by
  have htransmit := tcpTransmit_does frames hc c conn c.snd.nxt (TCP_FIN ||| TCP_ACK) []
  obtain ⟨u, hu, hdoes⟩ := tcpSendPacketDuring_does frames some hc ⟨_, rfl, .refl htransmit.conn⟩
  have hall := hdoes.trans (tcpSetState_does hdoes.conn (closeState c.state))
  rw [tcpSndNxt_fin, List.append_nil] at hall
  have hcall := hclose some
  rw [hu] at hcall
  refine ⟨_, hcall, ?_, hall⟩
  rw [tcpCloseDuring_some] at hcall
  exact tcpClose_quiet (by rw [hc]; exact (closeState_general hstate).1) hcall

/-- The call, with the answer inside. -/
theorem tcpClose_inside {ci : TcpConn} (frames : Nat → Nat) (hc : w.conn conn = c) (h0 : conn ≠ 0)
    (hstate : c.state ∈ [.synReceived, .established, .closeWait])
    (hfind : tcpFind w c.remoteAddr c.remotePort c.localAddr c.localPort = some conn)
    (hmirrors : Mirrors r c)
    (hclose : ∀ during, tcpCloseDuring frames during w conn =
      (tcpSendPacketDuring frames during w conn c.snd.nxt (TCP_FIN ||| TCP_ACK) []).map fun u =>
        tcpSetState u conn (closeState c.state))
    (hin : ∀ u : TcpWorld, u.conn conn = c →
      ∃ x, tcpRecvBareGeneral frames u conn (tcpSegment r s f []).header = some x ∧
        Does conn u x ci segs calls) :
    ∃ x segs, tcpCloseDuring frames (deliverSegment frames (tcpSegment r s f [])) w conn = some x ∧
      Does conn w x { ci with snd := { ci.snd with
        nxt := ci.snd.nxt + 1 }, state := closeState c.state } segs
        ((if ci.onState then [.onState conn ci.state (closeState c.state)] else []) ++ calls) := by
  have htransmit := tcpTransmit_does frames hc c conn c.snd.nxt (TCP_FIN ||| TCP_ACK) []
  have hquiet := tcpTransmit_quiet frames w conn c c.snd.nxt (TCP_FIN ||| TCP_ACK) []
  -- the connection is found inside as well: the transmission changes no connection
  have hfind' := hmirrors.tcpFind ((hquiet.tcpFind _ _ _ _).trans hfind)
  obtain ⟨y, hy, hinside⟩ := tcpDeliver_general frames s f hfind' h0
    (by rw [htransmit.conn]; exact (closeState_general hstate).1) fun b => hin _ htransmit.conn
  obtain ⟨u, hu, hdoes⟩ :=
    tcpSendPacketDuring_does frames (deliverSegment frames (tcpSegment r s f [])) hc
    ⟨y, hy, hinside⟩
  have hall := hdoes.trans (tcpSetState_does hdoes.conn (closeState c.state))
  rw [tcpSndNxt_fin] at hall
  have hcall := hclose (deliverSegment frames (tcpSegment r s f []))
  rw [hu] at hcall
  exact ⟨_, _, hcall, hall⟩

/-- Over both orders the outcomes are compared. -/
theorem close_same_iff {ci ca : TcpConn} {segs' : List TcpSegment} {calls' : List TcpEvent}
    (hc : w.conn conn = c)
    (h0 : conn ≠ 0) (hstate : c.state ∈ [.synReceived, .established, .closeWait])
    (hfind : tcpFind w c.remoteAddr c.remotePort c.localAddr c.localPort = some conn)
    (hmirrors : Mirrors r c)
    (hclose : ∀ during, tcpCloseDuring frames during w conn =
      (tcpSendPacketDuring frames during w conn c.snd.nxt (TCP_FIN ||| TCP_ACK) []).map fun u =>
        tcpSetState u conn (closeState c.state))
    (hheader : (tcpSegment r s f []).header = header)
    (hin : ∀ u : TcpWorld, u.conn conn = c →
      ∃ x, tcpRecvBareGeneral frames u conn header = some x ∧ Does conn u x ci segs calls)
    (hafter : ∀ u : TcpWorld, u.conn conn = c.closing →
      ∃ x, tcpRecvBareGeneral frames u conn header = some x ∧ Does conn u x ca segs' calls') :
    SameOutcome frames w conn .close (tcpSegment r s f []) ↔
      (closeState c.state, { ci.snd with nxt := ci.snd.nxt + 1 }, ci.rcv,
        (if ci.onState then [.onState conn ci.state (closeState c.state)] else []) ++ calls) =
      (ca.state, ca.snd, ca.rcv, calls' ++
        (if c.onState then [.onState conn c.state (closeState c.state)] else [])) := by
  subst hheader
  obtain ⟨x, segs₁, hx, hdoes₁⟩ := tcpClose_inside frames hc h0 hstate hfind hmirrors hclose hin
  obtain ⟨u, hu, hquiet, hdoes₂⟩ := tcpClose_does frames hc hstate hclose
  have hfind' := hmirrors.tcpFind ((hquiet.tcpFind _ _ _ _).trans hfind)
  obtain ⟨y, hy, hdoes₃⟩ := tcpDeliver_general frames s f hfind' h0
    (by rw [hdoes₂.conn]; exact (closeState_general hstate).2) fun b => hafter _ hdoes₂.conn
  -- both runs, each with its outcome
  have hout₁ := hdoes₁.outcome (w := w) rfl
  have hout₂ := (hdoes₂.trans hdoes₃).outcome (w := w) rfl
  constructor
  · rintro ⟨v₁, v₂, hv₁, hv₂, heq⟩
    obtain rfl := Option.some.inj (hx.symm.trans hv₁)
    rw [tcpCallDuring, hu, Option.bind_some] at hv₂
    obtain rfl := Option.some.inj (hy.symm.trans hv₂)
    rw [hout₁, hout₂] at heq
    exact heq
  · intro heq
    refine ⟨x, y, hx, ?_, by rw [hout₁, hout₂]; exact heq⟩
    rw [tcpCallDuring, hu, Option.bind_some]
    exact hy

/-- Where the answer ends the connection behind `tcp_close`, it is not ended inside. -/
theorem close_not_same (hc : w.conn conn = c) (h0 : conn ≠ 0)
    (hstate : c.state ∈ [.synReceived, .established, .closeWait])
    (hfind : tcpFind w c.remoteAddr c.remotePort c.localAddr c.localPort = some conn)
    (hmirrors : Mirrors r c)
    (hclose : ∀ during, tcpCloseDuring frames during w conn =
      (tcpSendPacketDuring frames during w conn c.snd.nxt (TCP_FIN ||| TCP_ACK) []).map fun u =>
        tcpSetState u conn (closeState c.state))
    (hheader : (tcpSegment r s f []).header = header)
    (hafter : ∀ u x : TcpWorld, u.conn conn = c.closing →
      tcpRecvBareGeneral frames u conn header = some x → (x.conn conn).state = .closed) :
    ¬ SameOutcome frames w conn .close (tcpSegment r s f []) := by
  subst hheader
  rintro ⟨v₁, v₂, hv₁, hv₂, heq⟩
  -- inside the call the connection only goes to the next state
  have hleft : (v₁.conn conn).state = closeState c.state := by
    rw [tcpCallDuring, hclose] at hv₁
    obtain ⟨u, -, rfl⟩ := Option.map_eq_some_iff.mp hv₁
    rw [tcpSetState_conn]
  obtain ⟨u, hu, hquiet, hdoes⟩ := tcpClose_does frames hc hstate hclose
  have hfind' := hmirrors.tcpFind ((hquiet.tcpFind _ _ _ _).trans hfind)
  rw [tcpCallDuring, hu, Option.bind_some] at hv₂
  have hgeneral := (closeState_general hstate).2
  rw [← hdoes.conn] at hgeneral
  obtain ⟨b, packet, hdeliver⟩ := tcpDeliver_general_eq frames s f hfind' h0 hgeneral
  obtain ⟨x, hx, rfl⟩ := Option.map_eq_some_iff.mp (hdeliver.symm.trans hv₂)
  -- behind the call it is gone
  have hright : (x.conn conn).state = .closed := hafter (u.setBufs b) x hdoes.conn hx
  have hstates : (v₁.conn conn).state = (x.conn conn).state := congrArg Prod.fst heq
  rw [hleft, hright] at hstates
  revert hstates
  cases c.state <;> decide

end Close

/-- `tcp_close` leads to one of two states. -/
theorem closeState_eq (state : TcpState) :
    closeState state = .finWait1 ∨ closeState state = .lastAck := by
  cases state <;> decide

/-- A reset closes a connection that is closing. -/
theorem tcpRecvRst_closing (hc : w.conn conn = c)
    (hstate : c.state = .finWait1 ∨ c.state = .lastAck)
    (h : tcpRecvRst w conn = some w') : (w'.conn conn).state = .closed := by
  unfold tcpRecvRst at h
  rw [hc] at h
  rcases hstate with hstate | hstate
  · rw [hstate] at h
    rw [tcpError_conn h]
  · rw [hstate] at h
    rw [tcpFree_conn h]

section Ack

variable {r : TcpConn} {s : BitVec 32}
  (hc : w.conn conn = c) (h0 : conn ≠ 0)
  (hfind : tcpFind w c.remoteAddr c.remotePort c.localAddr c.localPort = some conn)
    (hmirrors : Mirrors r c)
  (hclose : ∀ during, tcpCloseDuring frames during w conn =
    (tcpSendPacketDuring frames during w conn c.snd.nxt (TCP_FIN ||| TCP_ACK) []).map fun u =>
      tcpSetState u conn (closeState c.state))
  (hheader : (tcpSegment r s TCP_ACK []).header = header) (hflags : header.flags = TCP_ACK)
  (hwin : inWindow c header.seq 0 = true)
include hc h0 hfind hmirrors hclose hheader hflags hwin

/-- In `TCP_ESTABLISHED` an acknowledgement may come in before or behind the FIN. -/
theorem close_ack_established (hstate : c.state = .established) :
    SameOutcome frames w conn .close (tcpSegment r s TCP_ACK []) ↔
      header.ack ≠ c.snd.nxt + 1 ∧
        ((AckIn c.snd header.ack c.snd.nxt ↔ AckIn c.snd header.ack (c.snd.nxt + 1)) ∨
          AckKnown c.snd header) := by
  have hwin' : inWindow c.closing header.seq 0 = true := hwin
  have hclosing : c.closing.state = .finWait1 := by
    rw [TcpConn.closing, hstate]
    rfl
  -- inside, the state is still the open one
  have hin : ∀ u : TcpWorld, u.conn conn = c →
      ∃ x, tcpRecvBareGeneral frames u conn header = some x ∧ Does conn u x _ _ _ := fun u hu =>
    ⟨_, (tcpRecvBareGeneral_ack frames hu hwin hflags).trans
      (tcpRecvAck_open frames hu (by simp [hstate])),
      tcpRecvAckOpen_does frames hu (.inl (by simp [hstate]))⟩
  by_cases hack : header.ack = c.snd.nxt + 1
  -- behind the call the FIN itself is acknowledged, and the state goes on
  · have hafter : ∀ u : TcpWorld, u.conn conn = c.closing →
        ∃ x, tcpRecvBareGeneral frames u conn header = some x ∧ Does conn u x _ _ _ := fun u hu =>
      ⟨_, (tcpRecvBareGeneral_ack frames hu hwin' hflags).trans
        (tcpRecvAck_open frames hu (by simp [hclosing])),
        tcpRecvAckOpen_finWait1 frames hu hclosing hack⟩
    rw [close_same_iff hc h0 (by simp [hstate]) hfind hmirrors hclose hheader hin hafter]
    refine iff_of_false ?_ fun h => h.1 hack
    rw [hstate]
    intro heq
    exact TcpState.noConfusion (congrArg Prod.fst heq)
  · have hafter : ∀ u : TcpWorld, u.conn conn = c.closing →
        ∃ x, tcpRecvBareGeneral frames u conn header = some x ∧ Does conn u x _ _ _ := fun u hu =>
      ⟨_, (tcpRecvBareGeneral_ack frames hu hwin' hflags).trans
        (tcpRecvAck_open frames hu (by simp [hclosing])),
        tcpRecvAckOpen_does frames hu (.inr ⟨hclosing, hack⟩)⟩
    rw [close_same_iff hc h0 (by simp [hstate]) hfind hmirrors hclose hheader hin hafter,
      ← tcpAckUpdate_agree]
    simp only [Prod.mk.injEq, tcpAckUpdate_nxt, TcpConn.closing, List.append_nil,
      List.nil_append, true_and,
      and_true, ne_eq, hack, not_false_eq_true]

/-- The same in `TCP_CLOSE_WAIT`. -/
theorem close_ack_closeWait (hstate : c.state = .closeWait) :
    SameOutcome frames w conn .close (tcpSegment r s TCP_ACK []) ↔
      seqDiff header.ack (c.snd.nxt + 1) < 0 ∧
        (AckIn c.snd header.ack c.snd.nxt → AckKnown c.snd header) := by
  have hwin' : inWindow c.closing header.seq 0 = true := hwin
  have hclosing : c.closing.state = .lastAck := by
    rw [TcpConn.closing, hstate]
    rfl
  by_cases hack : 0 ≤ seqDiff header.ack (c.snd.nxt + 1)
  · refine iff_of_false ?_ fun h => Int.not_lt.mpr hack h.1
    apply close_not_same hc h0 (by simp [hstate]) hfind hmirrors hclose hheader
    intro u x hu hx
    rw [tcpRecvBareGeneral_ack frames hu hwin' hflags] at hx
    unfold tcpRecvAck at hx
    rw [hu, hclosing] at hx
    dsimp only at hx
    have hack' : 0 ≤ seqDiff header.ack c.closing.snd.nxt := hack
    rw [if_pos hack'] at hx
    rw [tcpFree_conn hx]
  · have hin : ∀ u : TcpWorld, u.conn conn = c →
        ∃ x, tcpRecvBareGeneral frames u conn header = some x ∧ Does conn u x _ _ _ := fun u hu =>
      ⟨_, (tcpRecvBareGeneral_ack frames hu hwin hflags).trans
        (tcpRecvAck_open frames hu (by simp [hstate])),
        tcpRecvAckOpen_does frames hu (.inl (by simp [hstate]))⟩
    have hafter : ∀ u : TcpWorld, u.conn conn = c.closing →
        ∃ x, tcpRecvBareGeneral frames u conn header = some x ∧ Does conn u x c.closing [] [] := by
      intro u hu
      refine ⟨u, ?_, .refl hu⟩
      rw [tcpRecvBareGeneral_ack frames hu hwin' hflags]
      unfold tcpRecvAck
      rw [hu, hclosing]
      exact if_neg hack
    rw [close_same_iff hc h0 (by simp [hstate]) hfind hmirrors hclose hheader hin hafter,
      ← tcpAckUpdate_eq_self]
    have hlt : seqDiff header.ack (c.snd.nxt + 1) < 0 := Int.not_le.mp hack
    simp only [Prod.mk.injEq, tcpAckUpdate_nxt, TcpConn.closing, List.append_nil,
      List.nil_append, true_and,
      and_true, hlt]
    -- `snd.nxt` is not what an acknowledgement changes
    have hnxt := tcpAckUpdate_nxt c.snd header
    generalize tcpAckUpdate c.snd header = snd' at hnxt ⊢
    cases snd'
    cases hsnd : c.snd
    rw [hsnd] at hnxt
    simp only [TcpSndState.mk.injEq] at hnxt ⊢
    grind

/-- The same in `TCP_SYN_RECEIVED`. -/
theorem close_ack_synReceived (hstate : c.state = .synReceived) :
    SameOutcome frames w conn .close (tcpSegment r s TCP_ACK []) ↔
      header.ack ≠ c.snd.nxt + 1 ∧
        ((synAckOk c.snd header ∧ c.onState = false ∧
            (AckIn c.snd header.ack (c.snd.nxt + 1) →
              c.snd.una = header.ack ∧ (WindowNews c.snd header ∨ WindowKnown c.snd header)) ∧
            (¬ AckIn c.snd header.ack (c.snd.nxt + 1) → WindowKnown c.snd header)) ∨
          (¬ synAckOk c.snd header ∧
            (AckIn c.snd header.ack (c.snd.nxt + 1) → AckKnown c.snd header))) := by
  have hwin' : inWindow c.closing header.seq 0 = true := hwin
  have hclosing : c.closing.state = .finWait1 := by
    rw [TcpConn.closing, hstate]
    rfl
  have hin : synAckOk c.snd header → ∀ u : TcpWorld, u.conn conn = c →
      ∃ x, tcpRecvBareGeneral frames u conn header = some x ∧ Does conn u x _ _ _ :=
        fun hacked u hu =>
    (tcpRecvBareGeneral_ack frames hu hwin hflags) ▸ tcpRecvAck_synAcked frames hu hstate hacked
  have hin' : ¬ synAckOk c.snd header → ∀ u : TcpWorld, u.conn conn = c →
      ∃ x, tcpRecvBareGeneral frames u conn header = some x ∧ Does conn u x _ _ _ :=
        fun hacked u hu =>
    (tcpRecvBareGeneral_ack frames hu hwin hflags) ▸ tcpRecvAck_synRejected frames hu hstate hacked
  by_cases hack : header.ack = c.snd.nxt + 1
  · have hafter : ∀ u : TcpWorld, u.conn conn = c.closing →
        ∃ x, tcpRecvBareGeneral frames u conn header = some x ∧ Does conn u x _ _ _ := fun u hu =>
      ⟨_, (tcpRecvBareGeneral_ack frames hu hwin' hflags).trans
        (tcpRecvAck_open frames hu (by simp [hclosing])),
        tcpRecvAckOpen_finWait1 frames hu hclosing hack⟩
    refine iff_of_false ?_ fun h => h.1 hack
    by_cases hacked : synAckOk c.snd header
    · rw [close_same_iff hc h0 (by simp [hstate]) hfind hmirrors hclose hheader (hin hacked) hafter,
        hstate]
      exact fun heq => TcpState.noConfusion (congrArg Prod.fst heq)
    · rw [close_same_iff hc h0 (by simp [hstate]) hfind hmirrors hclose hheader
        (hin' hacked) hafter, hstate]
      exact fun heq => TcpState.noConfusion (congrArg Prod.fst heq)
  · have hafter : ∀ u : TcpWorld, u.conn conn = c.closing →
        ∃ x, tcpRecvBareGeneral frames u conn header = some x ∧ Does conn u x _ _ _ := fun u hu =>
      ⟨_, (tcpRecvBareGeneral_ack frames hu hwin' hflags).trans
        (tcpRecvAck_open frames hu (by simp [hclosing])),
        tcpRecvAckOpen_does frames hu (.inr ⟨hclosing, hack⟩)⟩
    by_cases hacked : synAckOk c.snd header
    · rw [close_same_iff hc h0 (by simp [hstate]) hfind hmirrors hclose hheader (hin hacked) hafter]
      have hwindow := @window_eq_tcpAckUpdate header { c.snd with nxt := c.snd.nxt + 1 }
      -- the user hears of `TCP_ESTABLISHED` only inside
      cases honState : c.onState with
      | true =>
        refine iff_of_false ?_ (by simp [hacked])
        intro heq
        have hlen := congrArg (fun x => x.2.2.2.length) heq
        simp at hlen
      | false =>
        have hto : (closeState c.state) = .finWait1 := by
          rw [hstate]
          rfl
        simp only [Prod.mk.injEq, TcpConn.closing, hto, true_and, and_true, hack, hacked,
          not_true_eq_false,
          false_and, or_false, ne_eq, not_false_eq_true, Bool.false_eq_true, if_false,
          List.append_nil]
        exact hwindow
    · rw [close_same_iff hc h0 (by simp [hstate]) hfind hmirrors hclose hheader
        (hin' hacked) hafter]
      have hself := @tcpAckUpdate_eq_self header { c.snd with nxt := c.snd.nxt + 1 }
      simp only [Prod.mk.injEq, TcpConn.closing, true_and, and_true, hack, hacked,
        Bool.false_eq_true, not_false_eq_true, false_and, false_or, ne_eq, List.append_nil,
        List.nil_append]
      rw [eq_comm]
      exact hself

end Ack

/-- The answer to the FIN. -/
theorem close_timing_iff {framesB : Nat → Nat} {b : TcpWorld} {sent seg : TcpSegment}
    (hc : w.conn conn = c) (h0 : conn ≠ 0)
    (hfind : tcpFind w c.remoteAddr c.remotePort c.localAddr c.localPort = some conn)
    (hcall : tcpCloseDuring frames some w conn = some w') (hsent : sent ∈ segsSince w w')
    (hanswer : Answers framesB b sent seg) :
    SameOutcome frames w conn .close seg ↔ CloseHarmless c seg.header := by
  obtain ⟨hstate, hclose⟩ := tcpCloseDuring_sends hc hcall hsent
  obtain ⟨u, hu, -, hdoes⟩ := tcpClose_does frames hc hstate hclose
  obtain rfl := Option.some.inj (hu.symm.trans hcall)
  rw [segsSince_eq hdoes.sent] at hsent
  obtain rfl := List.mem_singleton.mp hsent
  obtain ⟨r, s, f, rfl, hmirrors, hreply⟩ := answers_form hanswer
  have hsyn : hasFlag (TCP_FIN ||| TCP_ACK) TCP_SYN = false := by decide
  have hack : hasFlag (TCP_FIN ||| TCP_ACK) TCP_ACK = true := by decide
  -- neither a SYN nor a segment without ACK is an answer to a FIN
  have hform : f = TCP_ACK ∨ f = TCP_RST := by
    rcases hreply with rfl | ⟨rfl, -⟩ | hodd | hodd
    · exact .inl rfl
    · exact .inr rfl
    · exact absurd (hsyn.symm.trans hodd) (by decide)
    · exact absurd (hack.symm.trans hodd) (by decide)
  obtain ⟨header, hheader⟩ : ∃ header, (tcpSegment r s f []).header = header := ⟨_, rfl⟩
  have hflags : header.flags = f := by
    rw [← hheader]
    rfl
  rw [hheader]
  clear hreply
  by_cases hwin : inWindow c header.seq 0 = false
  · -- outside the window nothing but the answer to the answer
    have hwin' : inWindow c.closing header.seq 0 = false := hwin
    refine iff_of_true ?_ (.inl hwin)
    rw [close_same_iff hc h0 hstate hfind hmirrors hclose hheader
      (fun u hu => tcpRecvBareGeneral_outside frames hu hwin)
      (fun u hu => tcpRecvBareGeneral_outside frames hu hwin'), List.append_nil, List.nil_append]
    rfl
  have hin : inWindow c header.seq 0 = true := by simpa using hwin
  have hin' : inWindow c.closing header.seq 0 = true := hin
  rcases hform with rfl | rfl
  -- an ACK in the window
  · have hno : hasFlag header.flags TCP_RST = false := by
      rw [hflags]
      decide
    unfold CloseHarmless
    rw [hin, hno]
    simp only [Bool.true_eq_false, false_or, true_and]
    cases hs : c.state
    case established =>
      exact close_ack_established hc h0 hfind hmirrors hclose hheader hflags hin hs
    case closeWait =>
      exact close_ack_closeWait hc h0 hfind hmirrors hclose hheader hflags hin hs
    case synReceived =>
      exact close_ack_synReceived hc h0 hfind hmirrors hclose hheader hflags hin hs
    all_goals simp [hs] at hstate
  · -- a RST in the window
    have hrst : hasFlag header.flags TCP_RST = true := by
      rw [hflags]
      decide
    refine iff_of_false ?_ ?_
    · apply close_not_same hc h0 hstate hfind hmirrors hclose hheader
      intro u x hu hx
      rw [tcpRecvBareGeneral_rst frames hu hin' hrst] at hx
      exact tcpRecvRst_closing hu (closeState_eq c.state) hx
    · rintro (hout | ⟨hno, -⟩)
      · exact hwin hout
      · rw [hrst] at hno
        exact absurd hno (by decide)

/-- When it does not matter whether the answer to a SYN or FIN arrives inside `tcp_send_packet`
    or right after the call: for every connection, and every answer that a host with this code,
    in whatever state, gives. -/
theorem answer_timing_iff (frames framesB : Nat → Nat) (w w₁ b : TcpWorld) (conn : Nat)
    (call : TcpCall)
    (sent seg : TcpSegment) (hok : CallOk w conn call)
    (hcall : tcpCallDuring frames some w conn call = some w₁) (hsent : sent ∈ segsSince w w₁)
    (hanswer : Answers framesB b sent seg) :
    SameOutcome frames w conn call seg ↔ Harmless w conn seg.header call := by
  cases call with
  | connect addr port =>
    obtain ⟨⟨called, w'⟩, hconnect, rfl⟩ := Option.map_eq_some_iff.mp hcall
    cases called with
    | true => exact connect_timing_iff hok.1 hok.2 hconnect hsent hanswer
    | false =>
      -- without a route nothing is sent
      have hsame : w' = w := by
        rw [tcpConnectDuring_some] at hconnect
        obtain ⟨route, -, hr⟩ := Option.map_eq_some_iff.mp hconnect
        split at hr
        · exact (Prod.mk.inj hr).2.symm
        · exact Bool.noConfusion (Prod.mk.inj hr).1
      have hnone : segsSince w w' = [] := segsSince_eq (by rw [hsame]; rfl)
      rw [hnone] at hsent
      exact absurd hsent List.not_mem_nil
  | close => exact close_timing_iff rfl hok.1 hok.2 hcall hsent hanswer

/-- A host that has called its own address and waits in `TCP_SYN_SENT`, and a connection for the
    call back. -/
def TcpWorld.calling : TcpWorld :=
  (tcpNewConn nextFrame ((tcpConnect nextFrame (tcpNewConn nextFrame TcpWorld.boot).2 0x1000
    (.ofBytes 10 0 2 15) 2).getD (false, TcpWorld.boot)).2).2

/-- A call that is refused at once hears nothing of it. -/
theorem answer_timing_refused :
    ∃ w₁ sent seg, tcpCallDuring nextFrame some TcpWorld.calling 0x3000
      (.connect (.ofBytes 10 0 2 15) 7) =
        some w₁ ∧
      sent ∈ segsSince TcpWorld.calling w₁ ∧ Answers nextFrame TcpWorld.boot sent seg ∧
      seg.header.flags = TCP_RST ||| TCP_ACK ∧
      (SameOutcome nextFrame TcpWorld.calling 0x3000 (.connect (.ofBytes 10 0 2 15) 7) seg ↔
        Harmless TcpWorld.calling 0x3000 seg.header (.connect (.ofBytes 10 0 2 15) 7)) := by
  -- the whole exchange is evaluated once, and its parts are read off
  have hexec :
    ((tcpCallDuring nextFrame some TcpWorld.calling 0x3000 (.connect (.ofBytes 10 0 2 15) 7)).bind
      fun w₁ => (segsSince TcpWorld.calling w₁).head?.bind fun sent =>
        (deliverSegment nextFrame sent TcpWorld.boot).bind fun b₁ =>
          (segsSince TcpWorld.boot b₁).head?.map fun seg => seg.header.flags) =
      some (TCP_RST ||| TCP_ACK) := by decide +kernel
  obtain ⟨w₁, hw₁, hexec⟩ := Option.bind_eq_some_iff.mp hexec
  obtain ⟨sent, hsent, hexec⟩ := Option.bind_eq_some_iff.mp hexec
  obtain ⟨b₁, hb₁, hexec⟩ := Option.bind_eq_some_iff.mp hexec
  obtain ⟨seg, hseg, hflags⟩ := Option.map_eq_some_iff.mp hexec
  have hmem := List.mem_of_mem_head? hsent
  have hanswer : Answers nextFrame TcpWorld.boot sent seg := ⟨b₁, hb₁, List.mem_of_mem_head? hseg⟩
  have hok : CallOk TcpWorld.calling 0x3000 (.connect (.ofBytes 10 0 2 15) 7) :=
    ⟨by decide, by decide +kernel⟩
  exact ⟨w₁, sent, seg, hw₁, hmem, hanswer, hflags,
    answer_timing_iff nextFrame nextFrame TcpWorld.calling w₁
    TcpWorld.boot 0x3000 (.connect (.ofBytes 10 0 2 15) 7) sent seg hok hw₁ hmem hanswer⟩

/-- The call back is answered with SYN and ACK.  Inside `tcp_send_packet` the answer is refused and
    the connection goes on to wait; right after the call it is established. -/
theorem answer_inside_refused :
    ∃ w₁ sent seg w₂ w₃,
      tcpCallDuring nextFrame some TcpWorld.calling 0x3000 (.connect (.ofBytes 10 0 2 15) 1) =
        some w₁ ∧
      sent ∈ segsSince TcpWorld.calling w₁ ∧ Answers nextFrame TcpWorld.calling sent seg ∧
      tcpCallDuring nextFrame (deliverSegment nextFrame seg) TcpWorld.calling 0x3000
        (.connect (.ofBytes 10 0 2 15) 1) = some w₂ ∧ (w₂.conn 0x3000).state = .synSent ∧
      deliverSegment nextFrame seg w₁ = some w₃ ∧ (w₃.conn 0x3000).state = .established ∧
      ¬ SameOutcome nextFrame TcpWorld.calling 0x3000 (.connect (.ofBytes 10 0 2 15) 1) seg := by
  -- the call, the answer, and both orders are evaluated at once
  have hexec :
    ((tcpCallDuring nextFrame some TcpWorld.calling 0x3000 (.connect (.ofBytes 10 0 2 15) 1)).bind
      fun w₁ => (segsSince TcpWorld.calling w₁).head?.bind fun sent =>
        (deliverSegment nextFrame sent TcpWorld.calling).bind fun b₁ =>
          (segsSince TcpWorld.calling b₁).head?.bind fun seg =>
            (tcpCallDuring nextFrame (deliverSegment nextFrame seg) TcpWorld.calling 0x3000
              (.connect (.ofBytes 10 0 2 15) 1)).bind fun w₂ =>
              (deliverSegment nextFrame seg w₁).map fun w₃ =>
                ((w₂.conn 0x3000).state, (w₃.conn 0x3000).state)) =
      some (.synSent, .established) := by decide +kernel
  obtain ⟨w₁, hw₁, hexec⟩ := Option.bind_eq_some_iff.mp hexec
  obtain ⟨sent, hsent, hexec⟩ := Option.bind_eq_some_iff.mp hexec
  obtain ⟨b₁, hb₁, hexec⟩ := Option.bind_eq_some_iff.mp hexec
  obtain ⟨seg, hseg, hexec⟩ := Option.bind_eq_some_iff.mp hexec
  obtain ⟨w₂, hw₂, hexec⟩ := Option.bind_eq_some_iff.mp hexec
  obtain ⟨w₃, hw₃, hstates⟩ := Option.map_eq_some_iff.mp hexec
  obtain ⟨hstate₂, hstate₃⟩ := Prod.mk.inj hstates
  refine ⟨w₁, sent, seg, w₂, w₃, hw₁, List.mem_of_mem_head? hsent,
    ⟨b₁, hb₁, List.mem_of_mem_head? hseg⟩, hw₂,
    hstate₂, hw₃, hstate₃, ?_⟩
  rintro ⟨v₂, v₃, hv₂, hv₃, heq⟩
  obtain rfl := Option.some.inj (hw₂.symm.trans hv₂)
  rw [hw₁, Option.bind_some] at hv₃
  obtain rfl := Option.some.inj (hw₃.symm.trans hv₃)
  have hsame : (w₂.conn 0x3000).state = (w₃.conn 0x3000).state := congrArg Prod.fst heq
  rw [hstate₂, hstate₃] at hsame
  exact TcpState.noConfusion hsame

end MishaOS
