import MishaOS.Spec.TcpLists

/-!
# What a segment of one connection leaves alone

A segment is processed for one connection `q`.  Everything it does is sent,
called and written for `q`, except that `tcp_free` links `q` in front of the
free list and so writes `prev` of the connection that was first there.
`Local q w w'` says so; it is transitive, and every handler is local.

## Key results

- `tcpRecvConn_local`: a segment is local to its connection.
- `tcpDeliver_cases`: what becomes of a packet that arrives.
-/

namespace MishaOS

variable {w w' w'' : TcpWorld} {conn p q : Nat} {frames : Nat → Nat}

/-- The connection an event is about. -/
def TcpEvent.conn? : TcpEvent → Option Nat
  | .newConn conn | .connect conn | .freeConn conn | .ipSend conn _ _ _ _ | .onConnect conn
  | .onError conn _ | .onState conn _ _ | .onData conn _ _ => some conn
  | .release _ => none

structure Local (q : Nat) (w w' : TcpWorld) : Prop where
  conn : ∀ p, p ≠ q → w'.conn p = w.conn p ∨
    p = w.freeConnList ∧ w'.freeConnList = q ∧ w'.conn p = { w.conn p with prev := q }
  free : w'.freeConnList = w.freeConnList ∨ w'.freeConnList = q
  events : ∃ new, w'.log = new ++ w.log ∧ ∀ e ∈ new, e.conn? = some q

/-- Nothing has changed. -/
theorem Local.refl (q : Nat) (w : TcpWorld) : Local q w w :=
  ⟨fun _ _ => .inl rfl, .inl rfl, [], rfl, by simp⟩

/-- Two steps on the connection are one. -/
theorem Local.trans (h : Local q w w') (h' : Local q w' w'') : Local q w w'' := by
  constructor
  · intro p hp
    -- the two runs of the free list fit together
    rcases h'.conn p hp with h₂ | ⟨hfree, hfree', h₂⟩
    · rw [h₂]
      rcases h.conn p hp with h₁ | ⟨hfirst, hfree, h₁⟩
      · exact .inl h₁
      · exact .inr ⟨hfirst, h'.free.elim (fun heq => heq.trans hfree) id, h₁⟩
    · -- the free list of `w'` starts with a connection other than `q`, so it is that of `w`
      have hsame : w'.freeConnList = w.freeConnList :=
        h.free.resolve_right fun heq => hp (hfree.trans heq)
      refine .inr ⟨hfree.trans hsame, hfree', ?_⟩
      rw [h₂]
      rcases h.conn p hp with h₁ | ⟨-, -, h₁⟩
      · rw [h₁]
      · rw [h₁]
  · rcases h'.free with h₂ | h₂
    · rw [h₂]
      exact h.free
    · exact .inr h₂
  · obtain ⟨new, hlog, hnew⟩ := h.events
    obtain ⟨new', hlog', hnew'⟩ := h'.events
    refine ⟨new' ++ new, by rw [hlog', hlog, List.append_assoc], ?_⟩
    intro e he
    -- both new parts of the log are about `q`
    rcases List.mem_append.mp he with he | he
    · exact hnew' e he
    · exact hnew e he

/-- The connection is written. -/
theorem local_setConn (w : TcpWorld) (q : Nat) (c : TcpConn) : Local q w (w.setConn q c) := by
  refine ⟨fun p hp => .inl ?_, .inl rfl, [], rfl, by simp⟩
  rw [TcpWorld.setConn_conn, if_neg hp]

/-- An event of the connection is recorded. -/
theorem local_emit {e : TcpEvent} (he : e.conn? = some q) : Local q w (w.emit e) :=
  ⟨fun _ _ => .inl rfl, .inl rfl, [e], rfl, by simpa using he⟩

/-- The same behind a test. -/
theorem local_emit_if {e : TcpEvent} {c : Bool} (he : e.conn? = some q) :
    Local q w (if c then w.emit e else w) := by
  split
  · exact local_emit he
  · exact .refl q w

/-- The buffers belong to all. -/
theorem local_setBufs (w : TcpWorld) (q : Nat) (b : BufPool) : Local q w (w.setBufs b) :=
  ⟨fun _ _ => .inl rfl, .inl rfl, [], rfl, by simp⟩

/-- So does a single one. -/
theorem local_setBuf (w : TcpWorld) (q packet : Nat) (b : NetBuf) : Local q w (w.setBuf packet b) :=
  ⟨fun _ _ => .inl rfl, .inl rfl, [], rfl, by simp⟩

/-! ## Sending and states -/

/-- A segment of the connection is sent. -/
theorem tcpTransmit_local (frames : Nat → Nat) (w : TcpWorld) (q : Nat) (c : TcpConn)
    (seq : BitVec 32)
    (flags : BitVec 8) (data : List Byte) : Local q w (tcpTransmit frames w q c seq flags data) :=
  (local_setBufs w q _).trans (local_emit rfl)

/-- `tcp_send_packet` only touches its connection. -/
theorem tcpSendPacket_local (frames : Nat → Nat) (w : TcpWorld) (q : Nat) (seq : BitVec 32)
    (flags : BitVec 8) (data : List Byte) : Local q w (tcpSendPacket frames w q seq flags data) :=
  (tcpTransmit_local frames w q (w.conn q) seq flags data).trans (local_setConn _ q _)

/-- So does the acknowledgement. -/
theorem tcpSendAck_local (frames : Nat → Nat) (w : TcpWorld) (q : Nat) :
    Local q w (tcpSendAck frames w q) := tcpSendPacket_local ..

/-- So does a change of state. -/
theorem tcpSetState_local (w : TcpWorld) (q : Nat) (state : TcpState) :
    Local q w (tcpSetState w q state) :=
  (local_setConn w q _).trans (local_emit_if rfl)

/-- So does the timer. -/
theorem tcpTimeWait_local (w : TcpWorld) (q : Nat) : Local q w (tcpTimeWait w q) :=
  local_setConn w q _

/-- The connections after `tcp_free` has linked `q` in front of the free list. -/
theorem tcpFreeLink_conn (w : TcpWorld) (q p : Nat) :
    (tcpFreeLink w q).conn p =
      if p = q then { w.conn q with next := w.freeConnList, prev := 0 }
      else if p = w.freeConnList ∧ w.freeConnList ≠ 0 then { w.conn p with prev := q }
        else w.conn p := by
  unfold tcpFreeLink
  -- an empty free list has no head to link back
  by_cases hfree : w.freeConnList = 0
  · simp [hfree, TcpWorld.emit, TcpWorld.setConn_conn]
  · by_cases hpq : p = q
    · subst hpq
      simp only [hfree, ne_eq, not_false_eq_true, if_true, TcpWorld.emit, TcpWorld.setConn_conn]
      split
      · rename_i heq
        have hsame : w.conn w.freeConnList = w.conn p := by rw [← heq]
        rw [hsame]
        rfl
      · rfl
    -- the old head, and any other connection
    · by_cases hp : p = w.freeConnList
      · subst hp
        simp [hfree, hpq, TcpWorld.emit, TcpWorld.setConn_conn]
      · simp [hfree, hpq, hp, TcpWorld.emit, TcpWorld.setConn_conn]

/-- The release is recorded. -/
theorem tcpFreeLink_log (w : TcpWorld) (q : Nat) :
    (tcpFreeLink w q).log = .freeConn q :: w.log := by
  unfold tcpFreeLink
  by_cases hfree : w.freeConnList = 0
  · simp [hfree, TcpWorld.emit, TcpWorld.setConn]
  · simp [hfree, TcpWorld.emit, TcpWorld.setConn]

/-- Putting the connection on the free list writes to the one that was first there, but not to its
    state. -/
theorem tcpFreeLink_local (w : TcpWorld) (q : Nat) : Local q w (tcpFreeLink w q) := by
  refine ⟨fun p hp => ?_, .inr rfl, [.freeConn q], tcpFreeLink_log w q, by simp [TcpEvent.conn?]⟩
  rw [tcpFreeLink_conn, if_neg hp]
  split
  · rename_i hfree
    exact .inr ⟨hfree.1, rfl, rfl⟩
  · exact .inl rfl

/-- `tcp_free` only touches its connection. -/
theorem tcpFree_local (h : tcpFree w q = some w') : Local q w w' := by
  unfold tcpFree at h
  split at h
  · obtain ⟨b, -, rfl⟩ := Option.map_eq_some_iff.mp h
    exact ((tcpSetState_local w q .closed).trans (local_setBufs _ q b)).trans
      (tcpFreeLink_local _ q)
  · cases h
    exact tcpFreeLink_local w q

/-- So does `tcp_error`. -/
theorem tcpError_local {error : Nat} (h : tcpError w q error = some w') : Local q w w' :=
  (local_emit_if rfl).trans (tcpFree_local h)

/-! ## The connections after a call -/

/-- A segment without payload, SYN and FIN takes no sequence number. -/
theorem tcpSndNxt_nil {nxt : BitVec 32} {flags : BitVec 8}
    (hflags : hasFlag flags (TCP_SYN ||| TCP_FIN) = false) :
    tcpSndNxt nxt flags [] = nxt := by
  simp [tcpSndNxt, hflags]

/-- `tcp_send_packet` moves `snd.nxt` and changes nothing else of a connection. -/
theorem tcpSendPacket_conn (frames : Nat → Nat) (w : TcpWorld) (q : Nat) (seq : BitVec 32)
    (flags : BitVec 8) (data : List Byte) (p : Nat) :
    (tcpSendPacket frames w q seq flags data).conn p =
      if p = q then { w.conn q with snd := { (w.conn q).snd with
        nxt := tcpSndNxt (w.conn q).snd.nxt flags data } } else w.conn p :=
  TcpWorld.setConn_conn _ _ _ _

/-- A segment without data, SYN and FIN leaves the connections alone. -/
theorem tcpSendPacket_plain (frames : Nat → Nat) (w : TcpWorld) (q : Nat) (seq : BitVec 32)
    {flags : BitVec 8} (hflags : hasFlag flags (TCP_SYN ||| TCP_FIN) = false) :
    (tcpSendPacket frames w q seq flags []).conn = w.conn := by
  funext p
  rw [tcpSendPacket_conn, tcpSndNxt_nil hflags]
  split
  · rename_i hp
    rw [hp]
  · rfl

/-- An acknowledgement changes no connection. -/
theorem tcpSendAck_conn (frames : Nat → Nat) (w : TcpWorld) (q : Nat) :
    (tcpSendAck frames w q).conn = w.conn := tcpSendPacket_plain frames w q _ (by decide)

/-- Only the state is changed. -/
theorem tcpSetState_conn (w : TcpWorld) (q : Nat) (state : TcpState) :
    (tcpSetState w q state).conn q = { w.conn q with state := state } := by
  rw [(tcpSetState_frame w q state).1, TcpWorld.setState, TcpWorld.setConn_conn, if_pos rfl]

/-- The structure as `tcp_free` leaves it. -/
theorem tcpFree_conn (h : tcpFree w q = some w') :
    w'.conn q = { w.conn q with state := .closed, next := w.freeConnList, prev := 0 } := by
  unfold tcpFree at h
  split at h
  · obtain ⟨b, -, rfl⟩ := Option.map_eq_some_iff.mp h
    rw [tcpFreeLink_conn, if_pos rfl]
    show { (tcpSetState w q .closed).conn q with
      next := (tcpSetState w q .closed).freeConnList, prev := 0 } = _
    rw [tcpSetState_conn, (tcpSetState_frame w q .closed).2.2.1]
  · rename_i hclosed
    cases h
    rw [tcpFreeLink_conn, if_pos rfl, ← not_not.mp hclosed]

/-- Behind an error the connection is closed and in front of the free list. -/
theorem tcpError_conn {error : Nat} (h : tcpError w q error = some w') :
    w'.conn q = { w.conn q with state := .closed, next := w.freeConnList, prev := 0 } := by
  have hfree := tcpFree_conn h
  split at hfree
  · exact hfree
  · exact hfree

/-- `tcp_new_conn` clears the structure it gives out. -/
theorem tcpNewConn_conn (frames : Nat → Nat) (w : TcpWorld) (p : Nat) :
    (tcpNewConn frames w).2.conn p = if p = (tcpNewConn frames w).1 then .zero else w.conn p := by
  unfold tcpNewConn
  by_cases hfree : w.freeConnList = 0
  · simp [hfree, TcpWorld.emit, TcpWorld.setConn_conn]
  · simp [hfree, TcpWorld.emit, TcpWorld.setConn_conn]

/-- Linking a connection writes links only. -/
theorem tcpConnectLink_conn (w : TcpWorld) (q p : Nat) :
    ∃ prev, (tcpConnectLink w q).conn p =
      if p = q then { w.conn q with prev := prev, next := w.tcpConnList }
        else { w.conn p with prev := prev } := by
  -- the first connection of the list gets a new `prev`
  have hprev : ∃ prev, (if w.tcpConnList ≠ 0 then
      w.setConn w.tcpConnList { w.conn w.tcpConnList with prev := q } else w).conn p =
        { w.conn p with prev := prev } := by
    split
    · rw [TcpWorld.setConn_conn]
      split
      · rename_i hsame
        exact ⟨q, by rw [← hsame]⟩
      · exact ⟨(w.conn p).prev, rfl⟩
    · exact ⟨(w.conn p).prev, rfl⟩
  obtain ⟨prev, hprev⟩ := hprev
  have hlist : (if w.tcpConnList ≠ 0 then
      w.setConn w.tcpConnList { w.conn w.tcpConnList with prev := q } else w).tcpConnList =
        w.tcpConnList := by
    split <;> rfl
  refine ⟨prev, ?_⟩
  unfold tcpConnectLink
  dsimp only
  generalize (if w.tcpConnList ≠ 0 then
    w.setConn w.tcpConnList { w.conn w.tcpConnList with prev := q } else w) = u at hprev hlist ⊢
  show (u.setConn q { u.conn q with next := u.tcpConnList }).conn p = _
  rw [TcpWorld.setConn_conn]
  split
  · rename_i hp
    rw [← hp, hprev, hlist]
  · exact hprev

/-- The connections after `tcp_connect`. -/
theorem tcpConnect_conn {addr : Ipv4Addr} {port : BitVec 16} {r : Bool × TcpWorld}
    (h : tcpConnect frames w q addr port = some r) :
    (∀ p, p ≠ q → ∃ prev, r.2.conn p = { w.conn p with prev := prev }) ∧
      (r.1 = true → ∃ isn wnd, (r.2.conn q).snd = ⟨isn, isn + 1, wnd, 0, 0, 0, isn⟩) := by
  obtain ⟨route, -, rfl⟩ := Option.map_eq_some_iff.mp h
  -- without a route nothing is written
  split
  · exact ⟨fun p _ => ⟨(w.conn p).prev, rfl⟩, nofun⟩
  extract_lets c w₁ w₂ w₃
  obtain ⟨hst, -⟩ := tcpSetState_frame w₃ q .synSent
  constructor
  · intro p hp
    -- another connection gets a new `prev`, if it was the head of the list
    obtain ⟨prev, hlink⟩ := tcpConnectLink_conn w₁ q p
    have hw₁ : w₁.conn p = w.conn p := by
      simp [w₁, hp]
    have hw₃ : w₃.conn p = w₂.conn p := by
      simp only [w₃, tcpSendPacket_conn, if_neg hp]
    refine ⟨prev, ?_⟩
    rw [hst, TcpWorld.setState, TcpWorld.setConn_conn, if_neg hp, hw₃, ← hw₁]
    rw [if_neg hp] at hlink
    exact hlink
  · intro _
    refine ⟨w.baseIsn + w.ticks * 250, TCP_WINDOW_SIZE, ?_⟩
    -- the calling connection keeps the numbers it was given
    have hsnd : (w₂.conn q).snd = c.snd := by
      obtain ⟨prev, hlink⟩ := tcpConnectLink_conn w₁ q q
      rw [if_pos rfl] at hlink
      rw [show w₂.conn q = _ from hlink]
      simp [w₁]
    have hflags : hasFlag TCP_SYN (TCP_SYN ||| TCP_FIN) = true := by decide
    rw [tcpSetState_conn]
    show (w₃.conn q).snd = _
    simp only [w₃, tcpSendPacket_conn, if_true, hsnd]
    simp [c, tcpConnectConn, tcpSndNxt, hflags]

/-! ## Segments -/

/-- Handing data over only touches the connection. -/
theorem tcpRecvProcessFrom_local {fuel packet : Nat}
    (h : tcpRecvProcessFrom q fuel w packet = some w') :
    Local q w w' := by
  induction fuel generalizing w packet with
  | zero => exact nomatch h
  | succ fuel ih =>
    simp only [tcpRecvProcessFrom] at h
    split at h
    · cases h
      exact .refl q _
    split at h
    · cases h
      exact .refl q _
    · apply Local.trans _ (ih h)
      apply Local.trans (local_setConn w q _)
      apply Local.trans (local_emit_if (e := .onData q _ _) rfl)
      exact (local_setBufs _ q _).trans (local_setConn _ q _)

/-- So does `tcp_recv_data`. -/
theorem tcpRecvData_local {packet : Nat} (h : tcpRecvData frames w q packet = some w') :
    Local q w w' := by
  unfold tcpRecvData at h
  split at h
  case h_4 =>
    cases h
    exact .refl q w
  all_goals
    simp only [Option.bind_eq_some_iff, Option.map_eq_some_iff] at h
    obtain ⟨r, -, w₁, hproc, rfl⟩ := h
    apply Local.trans _ (tcpSendAck_local _ _ _)
    apply Local.trans _ (tcpRecvProcessFrom_local hproc)
    exact ((local_setBuf w q packet _).trans (local_setBufs _ q r.1)).trans (local_setConn _ q _)

/-- So does an acknowledgement in an open state. -/
theorem tcpRecvAckOpen_local (frames : Nat → Nat) (w : TcpWorld) (q : Nat) (header : TcpHeader) :
    Local q w (tcpRecvAckOpen frames w q header) := by
  unfold tcpRecvAckOpen
  extract_lets w₁
  have hset : Local q w w₁ := local_setConn w q _
  clear_value w₁
  apply hset.trans
  split
  · exact tcpSendAck_local _ _ _
  split
  · split
    · exact tcpSetState_local _ q _
    · exact (tcpSetState_local _ q _).trans (tcpTimeWait_local _ q)
    · exact .refl q _
  · exact .refl q _

/-- So does `tcp_recv_ack`. -/
theorem tcpRecvAck_local {header : TcpHeader} (h : tcpRecvAck frames w q header = some w') :
    Local q w w' := by
  unfold tcpRecvAck at h
  -- the handshake, the last FIN, and the states that stay open
  split at h
  · split at h
    · cases h
      exact (local_setConn w q _).trans (tcpSetState_local _ q _)
    · cases h
      exact tcpSendPacket_local ..
  case h_7 =>
    split at h
    · exact tcpFree_local h
    · cases h
      exact .refl q w
  case h_8 =>
    cases h
    exact .refl q w
  all_goals
    cases h
    exact tcpRecvAckOpen_local frames w q header

/-- So does `tcp_recv_fin`. -/
theorem tcpRecvFin_local (frames : Nat → Nat) (w : TcpWorld) (q : Nat) (header : TcpHeader) :
    Local q w (tcpRecvFin frames w q header) := by
  unfold tcpRecvFin
  extract_lets rcv w₁ w₂
  have hset : Local q w w₂ := (local_setConn w q _).trans (tcpSendAck_local frames w₁ q)
  clear_value w₂
  apply hset.trans
  split
  · exact tcpSetState_local _ q _
  · exact tcpSetState_local _ q _
  · split
    · exact (tcpSetState_local _ q _).trans (tcpTimeWait_local _ q)
    · exact tcpSetState_local _ q _
  · exact (tcpSetState_local _ q _).trans (tcpTimeWait_local _ q)
  · exact tcpTimeWait_local _ q
  · exact .refl q _

/-- So does `tcp_recv_syn_sent`. -/
theorem tcpRecvSynSent_local {header : TcpHeader} (h : tcpRecvSynSent frames w q header = some w') :
    Local q w w' := by
  unfold tcpRecvSynSent at h
  -- refused, reset, opened, or not answered
  split at h
  · split at h
    · cases h
      exact .refl q w
    · cases h
      exact tcpSendPacket_local ..
  split at h
  · split at h
    · exact tcpError_local h
    · cases h
      exact .refl q w
  split at h
  · cases h
    unfold tcpRecvSynSentOpen
    extract_lets rcv w₁ snd w₂ w₃ w₄ w₅ snd' w₆
    apply Local.trans (local_setConn w q _ : Local q w w₁)
    split
    · have hsnd : Local q w₁ w₂ := local_setConn w₁ q _
      apply ((hsnd.trans (tcpSetState_local w₂ q _)).trans (tcpSendAck_local frames w₃ q)).trans
      exact local_emit_if rfl
    · apply Local.trans (tcpSetState_local w₁ q _)
      exact Local.trans (local_setConn w₅ q _) (tcpSendPacket_local ..)
  · cases h
    exact .refl q w

/-- So does `tcp_recv_rst`. -/
theorem tcpRecvRst_local (h : tcpRecvRst w q = some w') : Local q w w' := by
  unfold tcpRecvRst at h
  split at h
  case h_9 =>
    cases h
    exact .refl q w
  all_goals first
    | exact tcpError_local h
    | exact tcpFree_local h

/-- So does `tcp_recv_syn`. -/
theorem tcpRecvSyn_local (h : tcpRecvSyn frames w q = some w') : Local q w w' :=
  (tcpSendPacket_local ..).trans (tcpError_local h)

/-- `tcp_recv_general` behind `tcp_recv_syn`. -/
def tcpRecvAfterSyn (frames : Nat → Nat) (w : TcpWorld) (conn : Nat)
    (header : TcpHeader) (packet : Nat)
    (dataLen : BitVec 32) : Option TcpWorld :=
  if !hasFlag header.flags TCP_ACK then some w
  else
    (tcpRecvAck frames w conn header).bind fun w₁ =>
      (if dataLen ≠ 0 then tcpRecvData frames w₁ conn packet else some w₁).map fun w₂ =>
        if hasFlag header.flags TCP_FIN then tcpRecvFin frames w₂ conn header else w₂

/-- `tcp_recv_general` as a sequence of handlers. -/
theorem tcpRecvGeneral_eq (frames : Nat → Nat) (w : TcpWorld) (conn : Nat) (header : TcpHeader)
    (packet : Nat) :
    tcpRecvGeneral frames w conn header packet =
      if !inWindow (w.conn conn) header.seq (w.bufs.buf packet).len32 then
        if hasFlag header.flags TCP_RST then some w else some (tcpSendAck frames w conn)
      else if hasFlag header.flags TCP_RST then tcpRecvRst w conn
      else (if hasFlag header.flags TCP_SYN then tcpRecvSyn frames w conn else some w).bind
        fun w₁ =>
        tcpRecvAfterSyn frames w₁ conn header packet (w.bufs.buf packet).len32 := by
  -- what follows the SYN test is the same in both forms
  have hafter : ∀ w₁ : TcpWorld, (if !hasFlag header.flags TCP_ACK then some w₁
      else (tcpRecvAck frames w₁ conn header).bind fun w₂ =>
        if (w.bufs.buf packet).len32 ≠ 0 then (tcpRecvData frames w₂ conn packet).bind fun w₃ =>
            some (if hasFlag header.flags TCP_FIN then tcpRecvFin frames w₃ conn header else w₃)
          else some (if hasFlag header.flags TCP_FIN
            then tcpRecvFin frames w₂ conn header else w₂)) =
      tcpRecvAfterSyn frames w₁ conn header packet (w.bufs.buf packet).len32 := by
    intro w₁
    unfold tcpRecvAfterSyn
    congr 2
    funext w₂
    split
    · rw [Option.map_eq_bind]
      rfl
    · rfl
  unfold tcpRecvGeneral
  simp only [Option.bind_eq_bind, Option.bind_some]
  simp only [hafter]
  congr 2
  split <;> rfl

/-- So does the rest of `tcp_recv_general`. -/
theorem tcpRecvAfterSyn_local {header : TcpHeader} {packet : Nat} {dataLen : BitVec 32}
    (h : tcpRecvAfterSyn frames w q header packet dataLen = some w') : Local q w w' := by
  unfold tcpRecvAfterSyn at h
  split at h
  · cases h
    exact .refl q w
  obtain ⟨w₁, hack, h⟩ := Option.bind_eq_some_iff.mp h
  obtain ⟨w₂, hdata, rfl⟩ := Option.map_eq_some_iff.mp h
  apply (tcpRecvAck_local hack).trans
  -- the data go to the connection `q`
  have h₂ : Local q w₁ w₂ := by
    split at hdata
    · exact tcpRecvData_local hdata
    · cases hdata
      exact .refl q w₁
  apply h₂.trans
  split
  · exact tcpRecvFin_local ..
  · exact .refl q w₂

/-- So does `tcp_recv_general`. -/
theorem tcpRecvGeneral_local {header : TcpHeader} {packet : Nat}
    (h : tcpRecvGeneral frames w q header packet = some w') : Local q w w' := by
  rw [tcpRecvGeneral_eq] at h
  split at h
  · split at h
    · cases h
      exact .refl q w
    · cases h
      exact tcpSendAck_local ..
  split at h
  · exact tcpRecvRst_local h
  obtain ⟨w₁, hsyn, h⟩ := Option.bind_eq_some_iff.mp h
  apply Local.trans _ (tcpRecvAfterSyn_local h)
  split at hsyn
  · exact tcpRecvSyn_local hsyn
  · cases hsyn
    exact .refl q w

/-- A segment is local to its connection. -/
theorem tcpRecvConn_local {header : TcpHeader} {packet : Nat}
    (h : tcpRecvConn frames w q header packet = some w') : Local q w w' := by
  unfold tcpRecvConn at h
  split at h
  · exact tcpRecvSynSent_local h
  · cases h
    exact .refl q w
  · exact (local_setBuf w q packet _).trans (tcpRecvGeneral_local h)

/-- A segment for no open connection is answered through a temporary structure. -/
theorem tcpRecvClosed_local {src dst : Ipv4Addr} {header : TcpHeader} {len : BitVec 16}
    (h : tcpRecvClosed frames w src dst header len = some w') :
    Local 0 w w' ∧ w'.conn = w.conn ∧ w'.freeConnList = w.freeConnList := by
  unfold tcpRecvClosed at h
  split at h
  · cases h
    exact ⟨.refl 0 w, rfl, rfl⟩
  · obtain ⟨route, -, rfl⟩ := Option.map_eq_some_iff.mp h
    simp only
    split
    · exact ⟨.refl 0 w, rfl, rfl⟩
    split
    · exact ⟨tcpTransmit_local .., rfl, rfl⟩
    · exact ⟨tcpTransmit_local .., rfl, rfl⟩

/-! ## Packets -/

/-- The length of the payload, as `tcp_recv` computes it. -/
def payloadLen (data : List Byte) : BitVec 32 :=
  BitVec.ofNat 32 data.length - BitVec.ofNat 32 (TcpHeader.read data).headerLen

/-- `tcp_recv` processes the packet for the connection `q`. -/
def RecvFor (w : TcpWorld) (src dst : Ipv4Addr) (protocol : Byte) (data : List Byte)
    (q : Nat) : Prop :=
  20 ≤ data.length ∧ netChecksum (checksumHeader src dst protocol data.length ++ data) = 0 ∧
    q ≠ 0 ∧ (w.conn q).state ≠ .closed

/-- The connection the packet is processed for, if any, meets `P`. -/
def RecvAll (w : TcpWorld) (src dst : Ipv4Addr) (protocol : Byte) (data : List Byte)
    (P : Nat → Prop) :
    Prop :=
  ∀ q ∈ tcpFind w src (TcpHeader.read data).srcPort dst (TcpHeader.read data).dstPort,
    RecvFor w src dst protocol data q → P q

instance (w : TcpWorld) (src dst : Ipv4Addr) (protocol : Byte) (data : List Byte) (P : Nat → Prop)
    [DecidablePred P] : Decidable (RecvAll w src dst protocol data P) :=
  have : ∀ q, Decidable (RecvFor w src dst protocol data q) :=
    fun _ => inferInstanceAs (Decidable (_ ∧ _))
  inferInstanceAs (Decidable (∀ q ∈ tcpFind w _ _ _ _, _ → P q))

/-- A packet that arrives is dropped, answered through a temporary structure, or
    processed for a connection; buffers apart, that starts in `w` and ends in `w'`. -/
theorem tcpDeliver_cases {src dst : Ipv4Addr} {protocol : Byte} {data : List Byte}
    (h : tcpDeliver frames w src dst protocol data = some w') :
    ∃ b b' w₂, w' = w₂.setBufs b' ∧ (w₂ = w.setBufs b ∨
      (∃ len, tcpRecvClosed frames (w.setBufs b) src dst (TcpHeader.read data) len = some w₂) ∨
      ∃ q packet, tcpFind w src (TcpHeader.read data).srcPort dst (TcpHeader.read data).dstPort =
        some q ∧
        RecvFor w src dst protocol data q ∧
        ((b.buf packet).advance (TcpHeader.read data).headerLen).len32 = payloadLen data ∧
        tcpRecvConn frames (w.setBufs b) q (TcpHeader.read data) packet = some w₂) := by
  unfold tcpDeliver at h
  simp only at h
  obtain ⟨w₂, hrecv, rfl⟩ := Option.map_eq_some_iff.mp h
  have hdef := netAllocBuf_deficit frames w.bufs
  generalize (netAllocBuf frames w.bufs).1 = packet at *
  generalize (netAllocBuf frames w.bufs).2 = b at *
  have hbuf : ((w.setBufs (b.setBuf packet { b.buf packet with data := data })).bufs.buf
    packet).data =
      data := by simp [TcpWorld.setBufs]
  unfold tcpRecv at hrecv
  simp only [hbuf] at hrecv
  -- too short, or a bad checksum: nothing is processed
  split at hrecv
  · cases hrecv
    exact ⟨_, _, _, rfl, .inl rfl⟩
  rename_i hlen
  split at hrecv
  · cases hrecv
    exact ⟨_, _, _, rfl, .inl rfl⟩
  rename_i hsum
  obtain ⟨q, hfind, hrecv⟩ := Option.bind_eq_some_iff.mp hrecv
  rw [tcpFind_setBuf, tcpFind_setBufs] at hfind
  -- no connection, or a closed one, is answered from outside
  split at hrecv
  · exact ⟨_, _, w₂, rfl, .inr (.inl ⟨_, hrecv⟩)⟩
  · rename_i hq
    obtain ⟨hq0, hopen⟩ := not_or.mp hq
    have hlen : 20 ≤ data.length := by omega
    refine ⟨_, _, w₂, rfl,
      .inr (.inr ⟨q, packet, hfind, ⟨hlen, by simpa using hsum, hq0, hopen⟩, ?_, hrecv⟩)⟩
    exact len32_advance_tcpSwap data (by simp) (by simpa [TcpWorld.setBufs] using hdef) hlen _

end MishaOS
