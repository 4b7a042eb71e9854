import MishaOS.Spec.TcpReassembly
import MishaOS.Spec.TcpShiftRecv
import MishaOS.Spec.TcpUna

/-!
# When shifted runs stay together

A segment and the shifted segment are processed in states whose numbers are shifted.
The runs stay together but for the acknowledgement of a SYN, which `tcp_recv_ack`
compares without regard to the wrap: `ShiftOk` says that this comparison comes out
the same.

## Key results

- `tcpRecvConn_shift`: under `ShiftOk` the runs stay together.
- `tcp_recv_shift_iff`: they stay together only then.
-/

namespace MishaOS

open LinkedList

variable {frames : Nat → Nat} {a b : BitVec 32} {q head packet : Nat} {H : Set Nat}
    {link : Nat → Nat}
  {w w' : TcpWorld} {l : List Nat} {header : TcpHeader}

/-! ## Segments -/

/-- The window does not see the shift. -/
theorem inWindow_shift (c : TcpConn) (seq dataLen : BitVec 32) :
    inWindow (c.shift a b) (seq + b) dataLen = inWindow c seq dataLen := by
  have hend : seqDiff (seq + b + dataLen) (c.rcv.nxt + b + c.rcv.wnd) =
      seqDiff (seq + dataLen) (c.rcv.nxt + c.rcv.wnd) := seqDiff_shift_add ..
  simp only [inWindow, TcpConn.shift, seqDiff_shift, hend]

/-- The segment acknowledges a SYN, and nothing has been done with it before. -/
def AcksSyn (c : TcpConn) (header : TcpHeader) (dataLen : BitVec 32) : Prop :=
  c.state = .synReceived ∧ inWindow c header.seq dataLen ∧ hasFlag header.flags TCP_ACK ∧
    ¬ hasFlag header.flags TCP_RST ∧ ¬ hasFlag header.flags TCP_SYN

instance (c : TcpConn) (header : TcpHeader) (dataLen : BitVec 32) :
    Decidable (AcksSyn c header dataLen) := inferInstanceAs (Decidable (_ ∧ _))

/-- If the acknowledgement of a SYN is compared, the numbers compare as the shifted ones. -/
def ShiftOk (a b : BitVec 32) (c : TcpConn) (header : TcpHeader) (dataLen : BitVec 32) : Prop :=
  AcksSyn c header dataLen → synAckOk (c.shift a b).snd (header.shift a b) = synAckOk c.snd header

/-- The data of the segment, behind `tcp_recv_ack`. -/
theorem Pending.data (hf : FramesOk frames) (h : Pending frames a b q H link head w w')
    (hc : Chain link 0 head l) (hl : ∀ p ∈ l, p ∈ H) (hp : Arrived packet H link l)
    (dataLen : BitVec 32) :
    Option.Rel (Follows frames a b q)
      (if dataLen ≠ 0 then tcpRecvData frames w q packet else some w)
      (if dataLen ≠ 0 then tcpRecvData frames w' q packet else some w') := by
  split
  · rcases h with hopen | ⟨hclosed, hfree⟩
    · exact hopen.data hf hc hl hp
    · -- a closed connection takes no data
      have hclosed' : (w'.conn q).state = .closed := hfree.state.trans hclosed
      simp only [tcpRecvData, hclosed, hclosed']
      exact .some (hfree.follows_closed hclosed)
  · exact .some (h.follows hc hl)

/-- `tcp_recv_general` behind `tcp_recv_syn`, for a connection that is still there. -/
theorem Shifted.afterSyn (hf : FramesOk frames) (h : Shifted frames a b q H link head w w')
    (hc : Chain link 0 head l) (hl : ∀ p ∈ l, p ∈ H) (hp : Arrived packet H link l)
    (dataLen : BitVec 32)
    (hok : (w.conn q).state = .synReceived → hasFlag header.flags TCP_ACK →
      synAckOk ((w.conn q).shift a b).snd (header.shift a b) = synAckOk (w.conn q).snd header) :
    Option.Rel (Follows frames a b q) (tcpRecvAfterSyn frames w q header packet dataLen)
      (tcpRecvAfterSyn frames w' q (header.shift a b) packet dataLen) := by
  unfold tcpRecvAfterSyn
  rw [TcpHeader.shift_flags]
  -- without an acknowledgement nothing more is looked at
  split
  · exact .some (h.follows hc hl)
  rename_i hack
  apply rel_bind (h.recvAck hf hc hl fun hstate => hok hstate (by simpa using hack))
  intro u u' hpending
  apply rel_map (hpending.data hf hc hl hp dataLen)
  intro v v' hfollows
  -- the FIN counts on both sides
  split
  · exact hfollows.fin hf
  · exact hfollows

/-- After `tcp_recv_syn` only a FIN is looked at. -/
theorem Shifted.afterSyn_closed (hf : FramesOk frames) (h : Shifted frames a b q H link head w w')
    (hclosed : (w.conn q).state = .closed) (dataLen : BitVec 32) :
    Option.Rel (Follows frames a b q) (tcpRecvAfterSyn frames w q header packet dataLen)
      (tcpRecvAfterSyn frames w' q (header.shift a b) packet dataLen) := by
  have hfollows := h.follows_closed hclosed
  have hclosed' : (w'.conn q).state = .closed := h.state.trans hclosed
  -- a closed connection takes no data
  have hdata : ∀ u : TcpWorld, (u.conn q).state = .closed →
      (if dataLen ≠ 0 then tcpRecvData frames u q packet else some u) = some u := by
    intro u hu
    split
    · simp only [tcpRecvData, hu]
    · rfl
  unfold tcpRecvAfterSyn
  rw [TcpHeader.shift_flags]
  simp only [tcpRecvAck, hclosed, hclosed', Option.bind_some, hdata w hclosed, hdata w' hclosed',
    Option.map_some]
  split
  · exact .some hfollows
  · split
    · exact .some (hfollows.fin hf)
    · exact .some hfollows

/-- `tcp_recv_general` -/
theorem Shifted.general (hf : FramesOk frames) (h : Shifted frames a b q H link head w w')
    (hc : Chain link 0 head l) (hl : ∀ p ∈ l, p ∈ H) (hp : Arrived packet H link l)
    (hok : ShiftOk a b (w.conn q) header (w.bufs.buf packet).len32) :
    Option.Rel (Follows frames a b q) (tcpRecvGeneral frames w q header packet)
      (tcpRecvGeneral frames w' q (header.shift a b) packet) := by
  rw [tcpRecvGeneral_eq, tcpRecvGeneral_eq, h.self, h.bufs.len32 hp.mem, TcpHeader.shift_flags,
    TcpHeader.shift_seq, inWindow_shift]
  -- the window is given by differences
  split
  · split
    · exact .some (h.follows hc hl)
    · exact .some ((h.ack hf).follows hc hl)
  rename_i hin
  split
  · exact rel_imp (h.rst hc hl) fun _ _ _ hpending => hpending.follows hc hl
  rename_i hrst
  split
  · -- the connection is closed by the SYN
    -- both runs send the reset and release the connection
    have hsyn : Option.Rel (fun u u' => (u.conn q).state = .closed ∧
      Shifted frames a b q ∅ link head u u')
        (tcpRecvSyn frames w q) (tcpRecvSyn frames w' q) := by
      have hsent := h.send hf 0 0 (TCP_RST ||| TCP_ACK) []
      apply rel_imp (hsent.error hc hl TCP_CONN_RESET)
      intro u u' herror hshift
      refine ⟨?_, hshift⟩
      rw [tcpError_conn herror]
    apply rel_bind hsyn
    intro u u' ⟨hclosed, hshift⟩
    exact hshift.afterSyn_closed hf hclosed _
  · rename_i hsyn
    apply h.afterSyn hf hc hl hp
    intro hstate hack
    exact hok ⟨hstate, by simpa using hin, hack, hrst, hsyn⟩

/-- Two shifted states in which a packet has arrived for the connection `q`: behind `n` bytes of
    header it carries the same payload in both.  The buffers of the queue and the packet are
    allocated. -/
structure Arrival (frames : Nat → Nat) (a b : BitVec 32) (q packet n : Nat)
    (w w' : TcpWorld) : Prop where
  conn : w'.conn = Function.update w.conn q ((w.conn q).shift a b)
  outside : w'.outside = w.outside
  log : observed w'.log = observed w.log
  queue : ∃ l, Chain (fun p => (w.bufs.buf p).link) 0 (w.conn q).resequence l ∧ packet ∉ l ∧
    PoolShift b { p | p ∈ l } w.bufs w'.bufs ∧ PoolInv frames w.bufs { p | p ∈ packet :: l }
  link : (w.bufs.buf packet).link = 0
  data : ((w'.bufs.buf packet).advance n).data = ((w.bufs.buf packet).advance n).data
  deficit : ((w'.bufs.buf packet).advance n).deficit = ((w.bufs.buf packet).advance n).deficit

/-- The buffer as `tcp_recv` hands it to `tcp_recv_general`. -/
def tcpPayload (w : TcpWorld) (packet : Nat) (header : TcpHeader) : NetBuf :=
  { (w.bufs.buf packet).advance header.headerLen with
    seq := header.seq, flags := header.flags.zeroExtend 32 }

/-- The payload is part of what is shifted. -/
theorem Arrival.payload (h : Arrival frames a b q packet header.headerLen w w') :
    ∃ H link head l, Shifted frames a b q H link head
        (w.setBuf packet (tcpPayload w packet header))
        (w'.setBuf packet (tcpPayload w' packet (header.shift a b))) ∧
      Chain link 0 head l ∧ (∀ p ∈ l, p ∈ H) ∧ Arrived packet H link l := by
  -- the packet and the queue are what may hold shifted numbers
  obtain ⟨l, hc, hnot, hshift, hpool⟩ := h.queue
  refine ⟨{ p | p ∈ packet :: l }, fun p => (w.bufs.buf p).link, (w.conn q).resequence, l, ?_, hc,
    fun p hp => List.mem_cons_of_mem _ hp, List.mem_cons_self, hnot, h.link⟩
  constructor
  · exact h.conn
  · exact h.outside
  · apply hshift.setBuf
    · exact hshift.link packet
    · exact hshift.refCount packet
    · intro _
      unfold tcpPayload NetBuf.advance
      rw [NetBuf.mk.injEq]
      exact ⟨hshift.link packet, h.data, h.deficit, hshift.refCount packet, rfl, rfl⟩
    · exact fun p hp hne => (List.mem_cons.mp hp).resolve_left hne
  · exact hpool.setBuf List.mem_cons_self _
  · exact h.log
  -- the packet keeps its link, only its bytes are moved on
  · intro p _
    rw [TcpWorld.setBuf, BufPool.setBuf_buf]
    split
    · rename_i heq
      rw [heq]
      rfl
    · rfl
  · rfl

/-- `tcp_recv` for the connection it found. -/
theorem tcpRecvConn_shift (hf : FramesOk frames)
    (h : Arrival frames a b q packet header.headerLen w w')
    (hok : ShiftOk a b (w.conn q) header (tcpPayload w packet header).len32) :
    Option.Rel (Follows frames a b q) (tcpRecvConn frames w q header packet)
      (tcpRecvConn frames w' q (header.shift a b) packet) := by
  obtain ⟨l, hc, hnot, hshift, hpool⟩ := h.queue
  have hstart : Shifted frames a b q { p | p ∈ l } (fun p => (w.bufs.buf p).link)
    (w.conn q).resequence
      w w' :=
    { conn := h.conn
      outside := h.outside
      bufs := hshift
      pool := hpool.anti fun p hp => List.mem_cons_of_mem _ hp
      log := h.log
      link := fun _ _ => rfl
      head := rfl }
  unfold tcpRecvConn
  rw [hstart.state]
  -- the answer to a call, a closed connection, or any other state
  split
  · apply rel_imp (hstart.synSent hf hc fun _ hp => hp)
    exact fun _ _ _ hpending => hpending.follows hc fun _ hp => hp
  · exact .some (hstart.follows hc fun _ hp => hp)
  · obtain ⟨H, link, head, k, hgeneral, hk, hmem, harrived⟩ := h.payload
    apply hgeneral.general hf hk hmem harrived
    rw [TcpWorld.setBuf, BufPool.setBuf_buf, if_pos rfl]
    exact hok

/-! ## When they part -/

/-- A segment with RST. -/
def TcpEvent.isReset : TcpEvent → Bool
  | .ipSend _ _ _ _ seg => hasFlag seg.header.flags TCP_RST
  | _ => false

/-- The resets that have been sent. -/
def resets (log : List TcpEvent) : Nat := log.countP TcpEvent.isReset

/-- Nor do resets. -/
theorem TcpEvent.isReset_unnumbered (e : TcpEvent) : e.unnumbered.isReset = e.isReset := by
  cases e <;> rfl

/-- Resets are seen. -/
theorem resets_observed (log : List TcpEvent) : resets (observed log) = resets log := by
  unfold resets observed
  rw [List.countP_map]
  congr 1
  funext e
  exact e.isReset_unnumbered

/-- Other events are no resets. -/
theorem resets_emit (w : TcpWorld) {e : TcpEvent} (he : e.isReset = false) :
    resets (w.emit e).log = resets w.log := by
  simp [TcpWorld.emit, resets, he]

/-- The same behind a test. -/
theorem resets_emit_if (w : TcpWorld) {e : TcpEvent} (he : e.isReset = false) (c : Bool) :
    resets (if c then w.emit e else w).log = resets w.log := by
  split
  · exact resets_emit w he
  · rfl

/-- A change of state sends no reset. -/
theorem resets_setState (w : TcpWorld) (q : Nat) (state : TcpState) :
    resets (tcpSetState w q state).log = resets w.log :=
  resets_emit_if _ rfl _

/-- A segment with RST is a reset. -/
theorem resets_send (frames : Nat → Nat) (w : TcpWorld) (q : Nat) (seq : BitVec 32)
    (flags : BitVec 8)
    (data : List Byte) :
    resets (tcpSendPacket frames w q seq flags data).log =
      resets w.log + if hasFlag flags TCP_RST then 1 else 0 := by
  show List.countP TcpEvent.isReset (_ :: w.log) = _
  rw [List.countP_cons]
  rfl

/-- An acknowledgement is none. -/
theorem resets_ack (frames : Nat → Nat) (w : TcpWorld) (q : Nat) :
    resets (tcpSendAck frames w q).log = resets w.log := resets_send ..

/-- Handing data over sends none. -/
theorem resets_processFrom {fuel : Nat} (h : tcpRecvProcessFrom q fuel w packet = some w') :
    resets w'.log = resets w.log := by
  induction fuel generalizing w packet with
  | zero => exact nomatch h
  | succ fuel ih =>
    simp only [tcpRecvProcessFrom] at h
    split at h
    · cases h
      rfl
    split at h
    · cases h
      rfl
    · apply (ih h).trans
      exact resets_emit_if (w.setRcv q _) rfl _

/-- Data does not change the state and is not answered by a reset. -/
theorem tcpRecvData_resets (h : tcpRecvData frames w q packet = some w') :
    resets w'.log = resets w.log ∧ (w'.conn q).state = (w.conn q).state := by
  unfold tcpRecvData at h
  split at h
  case h_4 =>
    cases h
    exact ⟨rfl, rfl⟩
  all_goals
    simp only [Option.bind_eq_some_iff, Option.map_eq_some_iff] at h
    obtain ⟨r, -, u, hproc, rfl⟩ := h
    constructor
    · rw [resets_ack, resets_processFrom hproc]
      rfl
    · rw [tcpSendAck_conn, (tcpRecvProcessFrom_snd hproc).2]
      simp [TcpWorld.setResequence, TcpWorld.setBufs, TcpWorld.setBuf]

/-- Nor does a FIN. -/
theorem resets_fin (frames : Nat → Nat) (w : TcpWorld) (q : Nat) (header : TcpHeader) :
    resets (tcpRecvFin frames w q header).log = resets w.log := by
  unfold tcpRecvFin
  extract_lets r u v
  have hv : resets v.log = resets w.log := resets_ack frames u q
  clear_value v
  rw [← hv]
  split
  · exact resets_setState v q _
  · exact resets_setState v q _
  · split
    · exact resets_setState v q _
    · exact resets_setState v q _
  · exact resets_setState v q _
  · rfl
  · rfl

/-- Such a segment goes to `tcp_recv_ack` at once. -/
theorem AcksSyn.recvConn (h : AcksSyn (w.conn q) header (tcpPayload w packet header).len32) :
    tcpRecvConn frames w q header packet =
      tcpRecvAfterSyn frames (w.setBuf packet (tcpPayload w packet header)) q header packet
        (tcpPayload w packet header).len32 := by
  obtain ⟨hstate, hin, -, hrst, hsyn⟩ := h
  unfold tcpRecvConn
  rw [hstate]
  show tcpRecvGeneral frames (w.setBuf packet (tcpPayload w packet header)) q header packet = _
  rw [tcpRecvGeneral_eq, TcpWorld.setBuf, BufPool.setBuf_buf, if_pos rfl]
  simp [hin, hrst, hsyn]

/-- The test of `tcp_recv_ack`, with the result of `synAckOk`. -/
theorem tcpRecvAck_synReceived (frames : Nat → Nat) (hstate : (w.conn q).state = .synReceived)
    (header : TcpHeader) :
    tcpRecvAck frames w q header = some (if synAckOk (w.conn q).snd header then
      tcpSetState (w.setSnd q { (w.conn q).snd with
        wnd := header.windowSize.zeroExtend 32, wl1 := header.seq, wl2 := header.ack }) q
          .established
      else tcpSendPacket frames w q header.ack TCP_RST []) := by
  simp only [tcpRecvAck, hstate]
  split <;> rfl

/-- A reset goes out, or the connection is open. -/
theorem tcpRecvAfterSyn_synReceived {dataLen : BitVec 32} (hstate : (w.conn q).state = .synReceived)
    (hack : hasFlag header.flags TCP_ACK)
    (h : tcpRecvAfterSyn frames w q header packet dataLen = some w') :
    resets w'.log = resets w.log + (if synAckOk (w.conn q).snd header then 0 else 1) ∧
      (¬ hasFlag header.flags TCP_FIN → (w'.conn q).state =
        if synAckOk (w.conn q).snd header then .established else .synReceived) := by
  rw [tcpRecvAfterSyn, tcpRecvAck_synReceived frames hstate, hack] at h
  obtain ⟨v, hdata, rfl⟩ := Option.map_eq_some_iff.mp h
  clear h
  -- the acknowledgement opens the connection or is refused with a reset
  have hanswer : ∀ u, u = (if synAckOk (w.conn q).snd header then
      tcpSetState (w.setSnd q { (w.conn q).snd with
        wnd := header.windowSize.zeroExtend 32, wl1 := header.seq, wl2 := header.ack }) q
          .established
      else tcpSendPacket frames w q header.ack TCP_RST []) →
      resets u.log = resets w.log + (if synAckOk (w.conn q).snd header then 0 else 1) ∧
        (u.conn q).state = if synAckOk (w.conn q).snd header then .established
          else .synReceived := by
    rintro u rfl
    split
    · rw [tcpSetState_conn]
      exact ⟨resets_setState _ _ _, rfl⟩
    · rw [tcpSendPacket_plain _ _ _ _ (by decide)]
      exact ⟨resets_send .., hstate⟩
  -- the data change neither the count of resets nor the state
  have hv : resets v.log = resets w.log + (if synAckOk (w.conn q).snd header then 0 else 1) ∧
      (v.conn q).state = if synAckOk (w.conn q).snd header then .established else .synReceived := by
    split at hdata
    · obtain ⟨hlog, hsame⟩ := tcpRecvData_resets hdata
      rw [hlog, hsame]
      exact hanswer _ rfl
    · cases hdata
      exact hanswer _ rfl
  constructor
  · split
    · rw [resets_fin]
      exact hv.1
    · exact hv.1
  · intro hfin
    rw [if_neg hfin]
    exact hv.2

/-- A reset is sent without a walk over the queue. -/
theorem tcpRecvAfterSyn_reset {dataLen : BitVec 32} (hstate : (w.conn q).state = .synReceived)
    (hack : hasFlag header.flags TCP_ACK) (hbad : synAckOk (w.conn q).snd header = false) :
    tcpRecvAfterSyn frames w q header packet dataLen ≠ none := by
  have hsent : ((tcpSendPacket frames w q header.ack TCP_RST []).conn q).state = .synReceived := by
    rw [tcpSendPacket_plain _ _ _ _ (by decide)]
    exact hstate
  have hdata : (if dataLen ≠ 0 then
      tcpRecvData frames (tcpSendPacket frames w q header.ack TCP_RST []) q packet
      else some (tcpSendPacket frames w q header.ack TCP_RST [])) =
        some (tcpSendPacket frames w q header.ack TCP_RST []) := by
    split
    · simp only [tcpRecvData, hsent]
    · rfl
  rw [tcpRecvAfterSyn, tcpRecvAck_synReceived frames hstate, hack, hbad, Bool.not_true,
    if_neg Bool.false_ne_true, if_neg Bool.false_ne_true, Option.bind_some, hdata]
  exact nofun

/-- What becomes of the acknowledgement of a SYN. -/
theorem AcksSyn.recv (h : AcksSyn (w.conn q) header (tcpPayload w packet header).len32)
    (hrecv : tcpRecvConn frames w q header packet = some w') :
    resets w'.log = resets w.log + (if synAckOk (w.conn q).snd header then 0 else 1) ∧
      (¬ hasFlag header.flags TCP_FIN → (w'.conn q).state =
        if synAckOk (w.conn q).snd header then .established else .synReceived) := by
  rw [h.recvConn] at hrecv
  obtain ⟨hstate, -, hack, -, -⟩ := h
  obtain ⟨u, hu, hconn, hlog⟩ : ∃ u, w.setBuf packet (tcpPayload w packet header) = u ∧
      u.conn = w.conn ∧ u.log = w.log := ⟨_, rfl, rfl, rfl⟩
  rw [hu] at hrecv
  rw [← hconn] at hstate ⊢
  rw [← hlog]
  exact tcpRecvAfterSyn_synReceived hstate hack hrecv

/-- A wrong acknowledgement of the SYN is answered. -/
theorem AcksSyn.recv_reset (h : AcksSyn (w.conn q) header (tcpPayload w packet header).len32)
    (hbad : synAckOk (w.conn q).snd header = false) :
    tcpRecvConn frames w q header packet ≠ none := by
  rw [h.recvConn]
  obtain ⟨hstate, -, hack, -, -⟩ := h
  obtain ⟨u, hu, hconn⟩ : ∃ u, w.setBuf packet (tcpPayload w packet header) = u ∧ u.conn = w.conn :=
    ⟨_, rfl, rfl⟩
  rw [hu]
  rw [← hconn] at hstate hbad
  exact tcpRecvAfterSyn_reset hstate hack hbad

/-- The segment acknowledges the shifted SYN. -/
theorem AcksSyn.shift {c : TcpConn} {dataLen : BitVec 32} (h : AcksSyn c header dataLen) :
    AcksSyn (c.shift a b) (header.shift a b) dataLen := by
  obtain ⟨hstate, hin, hflags⟩ := h
  refine ⟨hstate, ?_, hflags⟩
  rw [TcpHeader.shift_seq, inWindow_shift]
  exact hin

/-- The shifted segment is an acknowledgement of a SYN, too. -/
theorem Arrival.acksSyn (h : Arrival frames a b q packet header.headerLen w w')
    (hacks : AcksSyn (w.conn q) header (tcpPayload w packet header).len32) :
    AcksSyn (w'.conn q) (header.shift a b) (tcpPayload w' packet (header.shift a b)).len32 := by
  have hlen : (tcpPayload w' packet (header.shift a b)).len32 =
      (tcpPayload w packet header).len32 := by
    show BitVec.ofNat 32 ((w'.bufs.buf packet).advance header.headerLen).data.length -
      BitVec.ofNat 32 ((w'.bufs.buf packet).advance header.headerLen).deficit = _
    rw [h.data, h.deficit]
    rfl
  rw [h.conn, Function.update_self, hlen]
  exact hacks.shift

/-- A segment and the shifted segment are processed alike if and only if the acknowledgement of a
    SYN compares alike.  Without FIN already the states are different otherwise. -/
theorem tcp_recv_shift_iff (hf : FramesOk frames)
    (h : Arrival frames a b q packet header.headerLen w w') :
    (Option.Rel (Follows frames a b q) (tcpRecvConn frames w q header packet)
        (tcpRecvConn frames w' q (header.shift a b) packet) ↔
      ShiftOk a b (w.conn q) header (tcpPayload w packet header).len32) ∧
    (¬ hasFlag header.flags TCP_FIN →
      ∀ u ∈ tcpRecvConn frames w q header packet,
      ∀ v ∈ tcpRecvConn frames w' q (header.shift a b) packet,
        (v.conn q).state = (u.conn q).state →
          ShiftOk a b (w.conn q) header (tcpPayload w packet header).len32) := by
  have hself : w'.conn q = (w.conn q).shift a b := by rw [h.conn, Function.update_self]
  have hresets : resets w'.log = resets w.log := by
    rw [← resets_observed, h.log, resets_observed]
  refine ⟨⟨fun hrel hacks => ?_, tcpRecvConn_shift hf h⟩, fun hfin u hu v hv hstate hacks => ?_⟩
  · have hacks' := h.acksSyn hacks
    rw [← hself]
    generalize hrun : tcpRecvConn frames w q header packet = r at hrel
    generalize hrun' : tcpRecvConn frames w' q (header.shift a b) packet = r' at hrel
    cases hrel with
    | none =>
      -- a run that does not end has opened the connection
      rw [Bool.eq_true_of_not_eq_false fun hbad => hacks.recv_reset hbad hrun,
        Bool.eq_true_of_not_eq_false fun hbad => hacks'.recv_reset hbad hrun']
    | some hfollows =>
      -- the resets in the two logs are the same
      obtain ⟨H, link, head, l, hs, -⟩ := hfollows
      have hsame := congrArg resets hs.log
      rw [resets_observed, resets_observed, (hacks.recv hrun).1, (hacks'.recv hrun').1, hresets]
        at hsame
      generalize synAckOk (w.conn q).snd header = x at hsame ⊢
      generalize synAckOk (w'.conn q).snd (header.shift a b) = y at hsame ⊢
      cases x <;> cases y <;> simp at hsame ⊢
  · have hacks' := h.acksSyn hacks
    rw [(hacks.recv hu).2 hfin, (hacks'.recv hv).2 hfin] at hstate
    rw [← hself]
    generalize synAckOk (w.conn q).snd header = x at hstate ⊢
    generalize synAckOk (w'.conn q).snd (header.shift a b) = y at hstate ⊢
    cases x <;> cases y <;> simp at hstate ⊢

/-- `TcpWorld.connected` while the SYN with the number `isn` is not acknowledged; a packet has
    arrived in the buffer `0x2000`. -/
def TcpWorld.answered (isn : BitVec 32) : TcpWorld :=
  { TcpWorld.connected 5001 with
    conn := Function.update (TcpWorld.connected 5001).conn 0x1000
      { (TcpWorld.connected 5001).conn 0x1000 with
        state := .synReceived, snd := ⟨isn, isn + 1, 8192, 0, 0, 0, isn⟩ }
    bufs := ⟨0, 1, fun _ => ⟨0, tcpSwap (peerPacket 5001 (isn + 1) TCP_ACK []), 0, 1, 0, 0⟩, 2⟩ }

/-- The acknowledgement of the SYN. -/
def answeredAck (isn : BitVec 32) : TcpHeader := ⟨80, 1, 5001, isn + 1, 80, TCP_ACK, 8192, 0, 0⟩

/-- The same with all numbers shifted. -/
def TcpWorld.answeredShift (isn a b : BitVec 32) : TcpWorld :=
  { TcpWorld.answered isn with
    conn := Function.update (TcpWorld.answered isn).conn 0x1000
      (((TcpWorld.answered isn).conn 0x1000).shift a b) }

/-- The segment has arrived on both sides. -/
theorem TcpWorld.answered_arrival (isn a b : BitVec 32) :
    Arrival nextFrame a b 0x1000 0x2000 (answeredAck isn).headerLen (TcpWorld.answered isn)
      (TcpWorld.answeredShift isn a b) := by
  refine ⟨rfl, rfl, rfl, ⟨[], rfl, nofun, ⟨rfl, rfl, fun _ => rfl, fun _ => rfl, nofun⟩, ?_⟩,
    rfl, rfl, rfl⟩
  refine ⟨⟨[], rfl, nofun, nofun⟩, fun p hp => ?_, fun k hk hmem => ?_⟩
  · rw [List.mem_singleton.mp hp]
    decide
  · have hframe : (k + 1) * 0x1000 = 0x2000 := List.mem_singleton.mp hmem
    have hk : 2 ≤ k := hk
    omega

/-- A SYN|ACK that has been answered. -/
theorem tcp_recv_shift_answered :
    ShiftOk 1 7 ((TcpWorld.answered 100).conn 0x1000) (answeredAck 100)
        (tcpPayload (TcpWorld.answered 100) 0x2000 (answeredAck 100)).len32 ∧
      Option.Rel (Follows nextFrame 1 7 0x1000)
        (tcpRecvConn nextFrame (TcpWorld.answered 100) 0x1000 (answeredAck 100) 0x2000)
        (tcpRecvConn nextFrame (TcpWorld.answeredShift 100 1 7) 0x1000 ((answeredAck 100).shift 1 7)
          0x2000) := by
  have hok : ShiftOk 1 7 ((TcpWorld.answered 100).conn 0x1000) (answeredAck 100)
      (tcpPayload (TcpWorld.answered 100) 0x2000 (answeredAck 100)).len32 := fun _ => by decide
  exact ⟨hok, (tcp_recv_shift_iff nextFrame_framesOk (TcpWorld.answered_arrival 100 1 7)).1.mpr hok⟩

/-- Both sides are in the same state. -/
theorem rel_follows_state {o o' : Option TcpWorld} (h : Option.Rel (Follows frames a b q) o o') :
    o'.map (fun w => (w.conn q).state) = o.map fun w => (w.conn q).state := by
  cases h with
  | none => rfl
  | some hfollows =>
    obtain ⟨H, link, head, l, hs, -⟩ := hfollows
    exact congrArg some hs.state

/-- The acknowledgement of a SYN with the number `2 ^ 32 - 1` is answered with a reset, that of a
    SYN with the next number opens the connection. -/
theorem tcp_recv_shift_wraps :
    Arrival nextFrame 1 0 0x1000 0x2000 (answeredAck 0xFFFFFFFF).headerLen
        (TcpWorld.answered 0xFFFFFFFF) (TcpWorld.answeredShift 0xFFFFFFFF 1 0) ∧
      (tcpRecvConn nextFrame (TcpWorld.answered 0xFFFFFFFF) 0x1000
        (answeredAck 0xFFFFFFFF) 0x2000).map
        (fun w => (w.conn 0x1000).state) = some .synReceived ∧
      (tcpRecvConn nextFrame (TcpWorld.answeredShift 0xFFFFFFFF 1 0) 0x1000
        ((answeredAck 0xFFFFFFFF).shift 1 0) 0x2000).map (fun w => (w.conn 0x1000).state) =
          some .established ∧
      ¬ Option.Rel (Follows nextFrame 1 0 0x1000)
        (tcpRecvConn nextFrame (TcpWorld.answered 0xFFFFFFFF) 0x1000
          (answeredAck 0xFFFFFFFF) 0x2000)
        (tcpRecvConn nextFrame (TcpWorld.answeredShift 0xFFFFFFFF 1 0) 0x1000
          ((answeredAck 0xFFFFFFFF).shift 1 0) 0x2000) := by
  have hrun : (tcpRecvConn nextFrame (TcpWorld.answered 0xFFFFFFFF) 0x1000 (answeredAck 0xFFFFFFFF)
      0x2000).map (fun w => (w.conn 0x1000).state) = some .synReceived := by decide +kernel
  have hrun' : (tcpRecvConn nextFrame (TcpWorld.answeredShift 0xFFFFFFFF 1 0) 0x1000
      ((answeredAck 0xFFFFFFFF).shift 1 0) 0x2000).map (fun w => (w.conn 0x1000).state) =
        some .established := by decide +kernel
  refine ⟨TcpWorld.answered_arrival _ _ _, hrun, hrun', fun hrel => ?_⟩
  -- runs that follow each other end in the same state
  have hsame := rel_follows_state hrel
  rw [hrun, hrun'] at hsame
  exact nomatch hsame

end MishaOS
