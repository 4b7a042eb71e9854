import MishaOS.Native.TcpRecv
import MishaOS.Spec.BufPool
import Mathlib.Tactic.SplitIfs

/-!
# What TCP leaves alone

Most of TCP changes sequence numbers, states and buffers and leaves alone what
the connection lists are made of: the `next` fields, the addresses and ports,
and whether a connection is closed.  `Quiet w w'` says so, and everything that
does not release a connection is quiet.

## Key results

- `tcpRecvConn_quiet`: a segment that releases no connection is quiet.
-/

namespace MishaOS

/-! ## The relation -/

/-- The addresses and ports `tcp_find` compares. -/
def TcpConn.tuple (c : TcpConn) : Ipv4Addr × BitVec 16 × Ipv4Addr × BitVec 16 :=
  (c.remoteAddr, c.remotePort, c.localAddr, c.localPort)

/-- What the connection lists are made of. -/
def TcpConn.key (c : TcpConn) : Nat × Bool × Ipv4Addr × BitVec 16 × Ipv4Addr × BitVec 16 :=
  (c.next, decide (c.state = .closed), c.tuple)

/-- Which connections have been handed out, not connected since, and released. -/
structure ConnHistory where
  known : List Nat
  unconnected : List Nat
  released : List Nat

/-- What the log says about connection structures. -/
def history : List TcpEvent → ConnHistory
  | [] => ⟨[], [], []⟩
  | .newConn p :: l =>
    ⟨p :: (history l).known, p :: (history l).unconnected, (history l).released.filter (· ≠ p)⟩
  | .connect p :: l =>
    { history l with unconnected := (history l).unconnected.filter (· ≠ p) }
  | .freeConn p :: l =>
    { history l with
      unconnected := (history l).unconnected.filter (· ≠ p)
      released := p :: (history l).released }
  | _ :: l => history l

theorem history_newConn (p : Nat) (l : List TcpEvent) :
    history (.newConn p :: l) =
      ⟨p :: (history l).known, p :: (history l).unconnected,
        (history l).released.filter (· ≠ p)⟩ := rfl

theorem history_connect (p : Nat) (l : List TcpEvent) :
    history (.connect p :: l) =
      { history l with unconnected := (history l).unconnected.filter (· ≠ p) } := rfl

theorem history_freeConn (p : Nat) (l : List TcpEvent) :
    history (.freeConn p :: l) =
      { history l with
        unconnected := (history l).unconnected.filter (· ≠ p)
        released := p :: (history l).released } := rfl

/-- Nothing the connection lists depend on has changed. -/
structure Quiet (w w' : TcpWorld) : Prop where
  key : ∀ p, (w'.conn p).key = (w.conn p).key
  list : w'.tcpConnList = w.tcpConnList
  free : w'.freeConnList = w.freeConnList
  requests : w.bufs.requests ≤ w'.bufs.requests
  history : history w'.log = history w.log

variable {w w' w'' : TcpWorld} {conn p : Nat} {frames : Nat → Nat} {b b' : BufPool}

/-- Nothing has happened. -/
theorem Quiet.refl (w : TcpWorld) : Quiet w w := ⟨fun _ => rfl, rfl, rfl, Nat.le_refl _, rfl⟩

/-- Two quiet steps are a quiet one. -/
theorem Quiet.trans (h : Quiet w w') (h' : Quiet w' w'') : Quiet w w'' :=
  ⟨fun p => (h'.key p).trans (h.key p), h'.list.trans h.list, h'.free.trans h.free,
    Nat.le_trans h.requests h'.requests, h'.history.trans h.history⟩

/-- Behind a quiet step the same connections are closed. -/
theorem Quiet.state (h : Quiet w w') (p : Nat) :
    (w'.conn p).state = .closed ↔ (w.conn p).state = .closed := by
  have := congrArg (·.2.1) (h.key p)
  simpa [TcpConn.key] using this

/-- The lists run through the same connections. -/
theorem Quiet.next (h : Quiet w w') (p : Nat) : (w'.conn p).next = (w.conn p).next :=
  congrArg (·.1) (h.key p)

/-- The addresses and ports of a connection stay. -/
theorem Quiet.tuple (h : Quiet w w') (p : Nat) : (w'.conn p).tuple = (w.conn p).tuple :=
  congrArg (·.2.2) (h.key p)

/-- The connections after one of them is written. -/
@[simp] theorem TcpWorld.setConn_conn (w : TcpWorld) (p q : Nat) (c : TcpConn) :
    (w.setConn p c).conn q = if q = p then c else w.conn q := Function.update_apply _ _ _ _

/-- Writing a connection without touching its key. -/
theorem quiet_setConn {c : TcpConn} (hc : c.key = (w.conn conn).key) :
    Quiet w (w.setConn conn c) := by
  refine ⟨fun q => ?_, rfl, rfl, Nat.le_refl _, rfl⟩
  rw [TcpWorld.setConn_conn]
  split
  · rename_i hq
    rw [hc, hq]
  · rfl

/-- The send state is not looked at. -/
theorem quiet_setSnd (w : TcpWorld) (conn : Nat) (x : TcpSndState) : Quiet w (w.setSnd conn x) :=
  quiet_setConn rfl

/-- Nor is the receive state. -/
theorem quiet_setRcv (w : TcpWorld) (conn : Nat) (x : TcpRcvState) : Quiet w (w.setRcv conn x) :=
  quiet_setConn rfl

/-- Nor is the resequence list. -/
theorem quiet_setResequence (w : TcpWorld) (conn x : Nat) : Quiet w (w.setResequence conn x) :=
  quiet_setConn rfl

/-- Nor is the timer. -/
theorem quiet_setMslWait (w : TcpWorld) (conn : Nat) (x : BitVec 32) :
    Quiet w (w.setMslWait conn x) :=
  quiet_setConn rfl

/-- An event that is not about the life of a connection structure. -/
theorem quiet_emit {e : TcpEvent} (he : history (e :: w.log) = history w.log) :
    Quiet w (w.emit e) :=
  ⟨fun _ => rfl, rfl, rfl, Nat.le_refl _, he⟩

/-- An event that the history leaves out can be recorded. -/
theorem quiet_emit_if {e : TcpEvent} {c : Bool} (he : history (e :: w.log) = history w.log) :
    Quiet w (if c then w.emit e else w) := by
  split
  · exact quiet_emit he
  · exact .refl w

/-- The buffers can change as long as no requested page is forgotten. -/
theorem quiet_setBufs (hb : w.bufs.requests ≤ b.requests) : Quiet w (w.setBufs b) :=
  ⟨fun _ => rfl, rfl, rfl, hb, rfl⟩

/-! ## Looking up a connection -/

/-- `tcp_find` reads the `next` fields, the addresses and the ports. -/
theorem tcpFindFrom_congr (hnext : ∀ p, (w'.conn p).next = (w.conn p).next)
    (htuple : ∀ p, (w'.conn p).tuple = (w.conn p).tuple) (src dst : Ipv4Addr)
    (srcPort dstPort : BitVec 16) (fuel p : Nat) :
    tcpFindFrom w' src srcPort dst dstPort fuel p =
      tcpFindFrom w src srcPort dst dstPort fuel p := by
  induction fuel generalizing p with
  | zero => rfl
  | succ fuel ih =>
    have ht := htuple p
    simp only [TcpConn.tuple, Prod.mk.injEq] at ht
    obtain ⟨hra, hrp, hla, hlp⟩ := ht
    simp only [tcpFindFrom, hnext, hra, hrp, hla, hlp, ih]

/-- A quiet step does not change what `tcp_find` finds. -/
theorem Quiet.tcpFind (h : Quiet w w') (src dst : Ipv4Addr) (srcPort dstPort : BitVec 16) :
    tcpFind w' src srcPort dst dstPort = tcpFind w src srcPort dst dstPort := by
  unfold MishaOS.tcpFind
  rw [h.list]
  exact tcpFindFrom_congr h.next h.tuple src dst srcPort dstPort walkFuel w.tcpConnList

/-- Buffers do not matter to `tcp_find`. -/
@[simp] theorem tcpFind_setBufs (w : TcpWorld) (b : BufPool) (src dst : Ipv4Addr)
    (srcPort dstPort : BitVec 16) :
    tcpFind (w.setBufs b) src srcPort dst dstPort = tcpFind w src srcPort dst dstPort := by
  have hconn : ∀ p, (w.setBufs b).conn p = w.conn p := fun _ => rfl
  exact tcpFindFrom_congr (fun p => by rw [hconn]) (fun p => by rw [hconn]) src dst srcPort dstPort
    walkFuel w.tcpConnList

/-- Nor does a write to a buffer. -/
@[simp] theorem tcpFind_setBuf (w : TcpWorld) (p : Nat) (x : NetBuf) (src dst : Ipv4Addr)
    (srcPort dstPort : BitVec 16) :
    tcpFind (w.setBuf p x) src srcPort dst dstPort = tcpFind w src srcPort dst dstPort :=
  tcpFind_setBufs w (w.bufs.setBuf p x) src dst srcPort dstPort

/-! ## Buffers -/

/-- Allocating a buffer asks for one more page or for none. -/
theorem netAllocBuf_requests (frames : Nat → Nat) (b : BufPool) :
    b.requests ≤ (netAllocBuf frames b).2.requests := by
  unfold netAllocBuf
  by_cases h : b.netBufList = 0
  · simp [h]
  · simp [h]

/-- Dropping segments asks for no page. -/
theorem tcpInsertDrop_requests {fuel cur : Nat} (h : tcpInsertDrop fuel b cur = some b') :
    b'.requests = b.requests := by
  induction fuel generalizing b cur with
  | zero => exact nomatch h
  | succ fuel ih =>
    simp only [tcpInsertDrop] at h
    split at h
    · rw [Option.some.inj h]
    · rw [ih h, netFreeBuf_requests]
      rfl

/-- Nor does merging them. -/
theorem tcpInsertMerge_requests {packet fuel cur : Nat} {dataLen : BitVec 32} {r : BufPool × Nat}
    (h : tcpInsertMerge packet dataLen fuel b cur = some r) : r.1.requests = b.requests := by
  -- no branch of the loop asks for a page
  induction fuel generalizing b cur with
  | zero => exact nomatch h
  | succ fuel ih =>
    simp only [tcpInsertMerge] at h
    split at h
    · cases h
      rfl
    split at h
    · cases h
      rfl
    split at h
    · cases h
      rfl
    · rw [ih h, netFreeBuf_requests]
      rfl

/-- Nor does linking them. -/
theorem tcpInsertLink_requests (b : BufPool) (packet cur : Nat) :
    (tcpInsertLink b packet cur).requests = b.requests := by
  unfold tcpInsertLink
  split <;> rfl

/-- Nor does the end of `tcp_recv_insert`. -/
theorem tcpInsertRest_requests {packet cur : Nat} {dataLen : BitVec 32} {r : BufPool × Nat}
    (h : tcpInsertRest b packet dataLen cur = some r) : r.1.requests = b.requests := by
  simp only [tcpInsertRest, Option.bind_eq_some_iff, Option.map_eq_some_iff] at h
  obtain ⟨d, hdrop, m, hmerge, rfl⟩ := h
  rw [tcpInsertLink_requests, tcpInsertMerge_requests hmerge]
  split at hdrop
  · obtain ⟨b₂, h₂, rfl⟩ := Option.map_eq_some_iff.mp hdrop
    exact tcpInsertDrop_requests h₂
  · cases hdrop
    rfl

/-- So `tcp_recv_insert` asks for no page. -/
theorem tcpRecvInsert_requests {resequence packet : Nat} {r : BufPool × Nat}
    (h : tcpRecvInsert b resequence packet = some r) : r.1.requests = b.requests := by
  simp only [tcpRecvInsert, Option.bind_eq_some_iff] at h
  obtain ⟨pos, -, h⟩ := h
  split at h
  · cases h
    exact netFreeBuf_requests b packet
  · rw [tcpInsertRest_requests h]
    unfold tcpInsertTrim
    simp only
    split <;> rfl

/-! ## Sending and states -/

/-- A segment that is sent changes no connection. -/
theorem tcpTransmit_quiet (frames : Nat → Nat) (w : TcpWorld) (conn : Nat) (c : TcpConn)
    (seq : BitVec 32) (flags : BitVec 8) (data : List Byte) :
    Quiet w (tcpTransmit frames w conn c seq flags data) := by
  refine ⟨fun _ => rfl, rfl, rfl, ?_, rfl⟩
  exact netAllocBuf_requests frames w.bufs

/-- `tcp_send_packet` only moves `snd.nxt`. -/
theorem tcpSendPacket_quiet (frames : Nat → Nat) (w : TcpWorld) (conn : Nat) (seq : BitVec 32)
    (flags : BitVec 8) (data : List Byte) :
    Quiet w (tcpSendPacket frames w conn seq flags data) := by
  apply (tcpTransmit_quiet frames w conn (w.conn conn) seq flags data).trans
  exact quiet_setSnd _ _ _

/-- So does the acknowledgement. -/
theorem tcpSendAck_quiet (frames : Nat → Nat) (w : TcpWorld) (conn : Nat) :
    Quiet w (tcpSendAck frames w conn) := tcpSendPacket_quiet ..

/-- A change between states other than `TCP_CLOSED`. -/
theorem tcpSetState_quiet (hw : (w.conn conn).state ≠ .closed) (state : TcpState)
    (hs : state ≠ .closed) : Quiet w (tcpSetState w conn state) := by
  have hset : Quiet w (w.setState conn state) := by
    apply quiet_setConn
    simp [TcpConn.key, TcpConn.tuple, hw, hs]
  apply hset.trans
  unfold tcpSetState
  exact quiet_emit_if rfl

/-- The timer is started. -/
theorem tcpTimeWait_quiet (w : TcpWorld) (conn : Nat) : Quiet w (tcpTimeWait w conn) :=
  quiet_setMslWait _ _ _

/-! ## Segments -/

/-- Handing data over moves `rcv.nxt` and shortens the resequence list. -/
theorem tcpRecvProcessFrom_quiet {fuel packet : Nat}
    (h : tcpRecvProcessFrom conn fuel w packet = some w') : Quiet w w' := by
  induction fuel generalizing w packet with
  | zero => exact nomatch h
  | succ fuel ih =>
    simp only [tcpRecvProcessFrom] at h
    split at h
    · cases h
      exact .refl _
    split at h
    · cases h
      exact .refl _
    · apply Quiet.trans _ (ih h)
      -- `rcv.nxt`, the callback, the buffer, the head of the list
      apply Quiet.trans (quiet_setRcv w conn _)
      generalize w.setRcv conn _ = w₁
      have hcall : Quiet w₁ (if (w₁.conn conn).onData then
          w₁.emit (.onData conn (w₁.bufs.buf packet).data (w.bufs.buf packet).len32) else w₁) :=
        quiet_emit_if rfl
      apply hcall.trans
      apply Quiet.trans (quiet_setBufs (Nat.le_of_eq (netFreeBuf_requests _ packet).symm))
      exact quiet_setResequence _ _ _

/-- `tcp_recv_data` neither opens nor closes a connection. -/
theorem tcpRecvData_quiet {packet : Nat} (h : tcpRecvData frames w conn packet = some w') :
    Quiet w w' := by
  unfold tcpRecvData at h
  split at h
  case h_4 =>
    cases h
    exact .refl w
  -- the four states that take data: insert, process, acknowledge
  all_goals
    simp only [Option.bind_eq_some_iff, Option.map_eq_some_iff] at h
    obtain ⟨r, hins, w₁, hproc, rfl⟩ := h
    apply Quiet.trans _ (tcpSendAck_quiet _ _ _)
    apply Quiet.trans _ (tcpRecvProcessFrom_quiet hproc)
    have hreq := tcpRecvInsert_requests hins
    apply Quiet.trans _ (quiet_setResequence _ _ _)
    exact quiet_setBufs (w := w) (Nat.le_of_eq hreq.symm)

/-- An acknowledgement moves an open connection to a state that is open too. -/
theorem tcpRecvAckOpen_quiet (frames : Nat → Nat) (header : TcpHeader)
    (hw : (w.conn conn).state ≠ .closed) : Quiet w (tcpRecvAckOpen frames w conn header) := by
  unfold tcpRecvAckOpen
  extract_lets w₁
  -- `snd` is no state, and what comes behind only moves between open states
  have hset : Quiet w w₁ := quiet_setSnd w conn _
  have hopen := (not_congr (hset.state conn)).mpr hw
  clear_value w₁
  apply hset.trans
  split
  · exact tcpSendAck_quiet _ _ _
  split
  · split
    · exact tcpSetState_quiet hopen .finWait2 nofun
    · exact (tcpSetState_quiet hopen .timeWait nofun).trans (tcpTimeWait_quiet _ _)
    · exact .refl _
  · exact .refl _

/-- So does a FIN. -/
theorem tcpRecvFin_quiet (frames : Nat → Nat) (header : TcpHeader)
    (hw : (w.conn conn).state ≠ .closed) : Quiet w (tcpRecvFin frames w conn header) := by
  unfold tcpRecvFin
  extract_lets rcv w₁ w₂
  have hset : Quiet w w₂ := (quiet_setRcv w conn _).trans (tcpSendAck_quiet frames w₁ conn)
  have hopen := (not_congr (hset.state conn)).mpr hw
  clear_value w₂
  apply hset.trans
  -- each state goes to one that is open, or stays
  split
  · exact tcpSetState_quiet hopen .closeWait nofun
  · exact tcpSetState_quiet hopen .closeWait nofun
  · split
    · exact (tcpSetState_quiet hopen .timeWait nofun).trans (tcpTimeWait_quiet _ _)
    · exact tcpSetState_quiet hopen .closing nofun
  · exact (tcpSetState_quiet hopen .timeWait nofun).trans (tcpTimeWait_quiet _ _)
  · exact tcpTimeWait_quiet _ _
  · exact .refl _

/-- The answer for an unknown connection touches no connection. -/
theorem tcpRecvClosed_quiet {src dst : Ipv4Addr} {header : TcpHeader} {len : BitVec 16}
    (h : tcpRecvClosed frames w src dst header len = some w') : Quiet w w' := by
  unfold tcpRecvClosed at h
  split at h
  · cases h
    exact .refl w
  · obtain ⟨route, -, rfl⟩ := Option.map_eq_some_iff.mp h
    simp only
    split
    · exact .refl w
    split
    · exact tcpTransmit_quiet ..
    · exact tcpTransmit_quiet ..

/-- The answer to a SYN leaves the connection open. -/
theorem tcpRecvSynSentOpen_quiet (frames : Nat → Nat) (header : TcpHeader)
    (hw : (w.conn conn).state ≠ .closed) : Quiet w (tcpRecvSynSentOpen frames w conn header) := by
  unfold tcpRecvSynSentOpen
  extract_lets rcv w₁ snd w₂ w₃ w₄ w₅ snd' w₆
  -- the numbers are written first; the state that follows is an open one
  have hset : Quiet w w₁ := quiet_setRcv w conn _
  have hopen := (not_congr (hset.state conn)).mpr hw
  apply hset.trans
  split
  · have hsnd : Quiet w₁ w₂ := quiet_setSnd w₁ conn _
    have hstate := tcpSetState_quiet ((not_congr (hsnd.state conn)).mpr hopen) .established nofun
    apply ((hsnd.trans hstate).trans (tcpSendAck_quiet frames w₃ conn)).trans
    exact quiet_emit_if rfl
  · apply Quiet.trans (tcpSetState_quiet hopen .synReceived nofun)
    exact Quiet.trans (quiet_setSnd w₅ conn _) (tcpSendPacket_quiet ..)

/-! ## Segments that release no connection -/

/-- The branches of `tcp_recv_syn_sent` that end in `tcp_free`. -/
def SynSentFrees (c : TcpConn) (header : TcpHeader) : Prop :=
  hasFlag header.flags TCP_ACK ∧ hasFlag header.flags TCP_RST ∧ synSentAckBad c header = false

/-- The branches of `tcp_recv_general` that end in `tcp_free`. -/
def GeneralFrees (c : TcpConn) (header : TcpHeader) (dataLen : BitVec 32) : Prop :=
  inWindow c header.seq dataLen ∧ (hasFlag header.flags TCP_RST ∨ hasFlag header.flags TCP_SYN ∨
    (hasFlag header.flags TCP_ACK ∧ c.state = .lastAck ∧ 0 ≤ seqDiff header.ack c.snd.nxt))

/-- A segment with this header and payload length, for the connection `c`, makes
    `tcp_recv` release the connection. -/
def SegmentFrees (c : TcpConn) (header : TcpHeader) (dataLen : BitVec 32) : Prop :=
  (c.state = .synSent ∧ SynSentFrees c header) ∨
    (c.state ∉ [.closed, .listen, .synSent] ∧ GeneralFrees c header dataLen)

instance (c : TcpConn) (header : TcpHeader) (dataLen : BitVec 32) :
    Decidable (SegmentFrees c header dataLen) :=
  have : Decidable (SynSentFrees c header) := inferInstanceAs (Decidable (_ ∧ _))
  have : Decidable (GeneralFrees c header dataLen) := inferInstanceAs (Decidable (_ ∧ _))
  inferInstanceAs (Decidable (_ ∨ _))

/-- In `TCP_SYN_SENT` a segment that does not release the connection is quiet. -/
theorem tcpRecvSynSent_quiet {header : TcpHeader} (hopen : (w.conn conn).state ≠ .closed)
    (hfree : ¬ SynSentFrees (w.conn conn) header)
    (h : tcpRecvSynSent frames w conn header = some w') : Quiet w w' := by
  unfold tcpRecvSynSent at h
  split at h
  · split at h
    · cases h
      exact .refl w
    · cases h
      exact tcpSendPacket_quiet ..
  split at h
  -- the reset behind a good acknowledgement is what `SynSentFrees` excludes
  · rename_i hbad hrst
    split at h
    · rename_i hack
      exact absurd ⟨hack, hrst, by simpa [hack] using hbad⟩ hfree
    · cases h
      exact .refl w
  split at h
  · cases h
    exact tcpRecvSynSentOpen_quiet frames header hopen
  · cases h
    exact .refl w

/-- `tcp_recv_ack` is quiet unless it is the last acknowledgement. -/
theorem tcpRecvAck_quiet {header : TcpHeader} (hopen : (w.conn conn).state ≠ .closed)
    (hlast : (w.conn conn).state = .lastAck → ¬ 0 ≤ seqDiff header.ack (w.conn conn).snd.nxt)
    (h : tcpRecvAck frames w conn header = some w') : Quiet w w' := by
  unfold tcpRecvAck at h
  split at h
  case h_1 =>
    split at h
    · cases h
      have hset : ∀ x, Quiet w (w.setSnd conn x) := quiet_setSnd w conn
      exact (hset _).trans
        (tcpSetState_quiet ((not_congr ((hset _).state conn)).mpr hopen) .established nofun)
    · cases h
      exact tcpSendPacket_quiet ..
  -- `TCP_LAST_ACK`: the connection is only released by the acknowledgement of the FIN
  case h_7 hstate =>
    rw [if_neg (hlast hstate)] at h
    cases h
    exact .refl w
  case h_8 =>
    cases h
    exact .refl w
  all_goals
    cases h
    exact tcpRecvAckOpen_quiet frames header hopen

/-- `tcp_recv_general` for an acknowledging segment in the window. -/
theorem tcpRecvGeneral_ack {header : TcpHeader} {packet : Nat}
    (hwin : inWindow (w.conn conn) header.seq (w.bufs.buf packet).len32)
    (hrst : ¬ hasFlag header.flags TCP_RST) (hsyn : ¬ hasFlag header.flags TCP_SYN)
    (hack : hasFlag header.flags TCP_ACK) :
    tcpRecvGeneral frames w conn header packet =
      (tcpRecvAck frames w conn header).bind fun w₁ =>
        (if (w.bufs.buf packet).len32 ≠ 0 then tcpRecvData frames w₁ conn packet else some w₁).map
          fun w₂ => if hasFlag header.flags TCP_FIN then tcpRecvFin frames w₂ conn header
            else w₂ := by
  unfold tcpRecvGeneral
  simp only [hwin, hrst, hsyn, hack, Bool.not_true, Bool.false_eq_true, if_false,
    Option.bind_eq_bind, Option.bind_some]
  -- the bind of the source is the map of the statement
  congr 1
  funext w₁
  split
  · rw [Option.map_eq_bind]
    rfl
  · rfl

/-- `tcp_recv_general` is quiet unless the segment releases the connection. -/
theorem tcpRecvGeneral_quiet {header : TcpHeader} {packet : Nat}
    (hopen : (w.conn conn).state ≠ .closed)
    (hfree : ¬ GeneralFrees (w.conn conn) header (w.bufs.buf packet).len32)
    (h : tcpRecvGeneral frames w conn header packet = some w') : Quiet w w' := by
  by_cases hwin : inWindow (w.conn conn) header.seq (w.bufs.buf packet).len32
  case neg =>
    -- outside the window: an acknowledgement at most
    simp only [tcpRecvGeneral, hwin, Bool.not_false, if_true] at h
    split at h
    · cases h
      exact .refl w
    · cases h
      exact tcpSendAck_quiet _ _ _
  have hrst : ¬ hasFlag header.flags TCP_RST := fun hrst => hfree ⟨hwin, .inl hrst⟩
  have hsyn : ¬ hasFlag header.flags TCP_SYN := fun hsyn => hfree ⟨hwin, .inr (.inl hsyn)⟩
  by_cases hack : hasFlag header.flags TCP_ACK
  case neg =>
    simp only [tcpRecvGeneral, hwin, hrst, hsyn, hack, Bool.not_true, Bool.not_false, if_true,
      Bool.false_eq_true, if_false] at h
    cases h
    exact .refl w
  rw [tcpRecvGeneral_ack hwin hrst hsyn hack] at h
  obtain ⟨w₁, hw₁, h⟩ := Option.bind_eq_some_iff.mp h
  obtain ⟨w₂, hw₂, rfl⟩ := Option.map_eq_some_iff.mp h
  have hq₁ : Quiet w w₁ := tcpRecvAck_quiet hopen
    (fun hlast hge => hfree ⟨hwin, .inr (.inr ⟨hack, hlast, hge⟩)⟩) hw₁
  have hq₂ : Quiet w₁ w₂ := by
    split at hw₂
    · exact tcpRecvData_quiet hw₂
    · cases hw₂
      exact .refl _
  have hq := hq₁.trans hq₂
  split
  · exact hq.trans (tcpRecvFin_quiet frames header ((not_congr (hq.state conn)).mpr hopen))
  · exact hq

/-- A segment that releases no connection changes nothing the lists depend on. -/
theorem tcpRecvConn_quiet {header : TcpHeader} {packet : Nat}
    (hopen : (w.conn conn).state ≠ .closed)
    (hfree : ¬ SegmentFrees (w.conn conn) header
      ((w.bufs.buf packet).advance header.headerLen).len32)
    (h : tcpRecvConn frames w conn header packet = some w') : Quiet w w' := by
  unfold tcpRecvConn at h
  split at h
  case h_1 hstate => exact tcpRecvSynSent_quiet hopen (fun hs => hfree (.inl ⟨hstate, hs⟩)) h
  case h_2 =>
    cases h
    exact .refl w
  case h_3 hsyn hlisten =>
    -- `packet->start`, `seq` and `flags` are set first
    have hstate : (w.conn conn).state ∉ [.closed, .listen, .synSent] := by
      simp only [List.mem_cons, List.not_mem_nil, or_false, not_or]
      exact ⟨hopen, hlisten, hsyn⟩
    have hset : ∀ x, Quiet w (w.setBuf packet x) :=
      fun x => ⟨fun _ => rfl, rfl, rfl, Nat.le_refl _, rfl⟩
    apply (hset _).trans
    apply tcpRecvGeneral_quiet _ _ h
    · exact (not_congr ((hset _).state conn)).mpr hopen
    · intro hg
      apply hfree
      right
      exact ⟨hstate, by simpa [TcpWorld.setBuf, NetBuf.len32] using hg⟩

end MishaOS
