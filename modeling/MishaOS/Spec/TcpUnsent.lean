import MishaOS.Spec.TcpAck
import MishaOS.Spec.TcpRelease

/-!
# Acknowledgements of data never sent

A segment whose acknowledgement is behind `snd.nxt` is to be answered with an
acknowledgement and dropped.  `tcp_recv_ack` sends the answer and returns, but
`tcp_recv_general` does not see that it did: the data of the segment is taken
and its FIN processed as if the acknowledgement had been good.  RST and SYN are
looked at in front of the acknowledgement and end the connection.

## Key results

- `tcpRecvAck_unsent`: what `tcp_recv_ack` does with such a segment.
- `tcp_unsent_ack_dropped_iff`: the segments that are dropped are those with
  nothing left to process behind `tcp_recv_ack`.
-/

namespace MishaOS

open LinkedList

variable {frames : Nat → Nat} {w w' w₁ : TcpWorld} {conn packet : Nat}
    {header : TcpHeader} {l : List Nat}

/-- One acknowledgement is sent and the segment is dropped: nothing else is in
    the log, all connections are as before, and so are the buffers `l` that wait
    in the resequence list. -/
structure DroppedWithAck (conn : Nat) (l : List Nat) (w w' : TcpWorld) : Prop where
  log : ∃ packet, w'.log = .ipSend conn (w.conn conn).intf (w.conn conn).nextAddr packet
    (tcpSegment (w.conn conn) (w.conn conn).snd.nxt TCP_ACK []) :: w.log
  conns : w'.conn = w.conn
  queue : ∀ p ∈ l, w'.bufs.buf p = w.bufs.buf p

/-- The states in which `tcp_recv_ack` compares the acknowledgement with `snd.nxt`. -/
def checksAck (state : TcpState) : Bool :=
  state ∈ [.established, .finWait1, .finWait2, .closeWait, .closing]

/-- The states in which `tcp_recv_data` takes data. -/
def takesData (state : TcpState) : Bool :=
  state ∈ [.established, .finWait1, .finWait2]

/-! ## The answer -/

theorem tcpSendAck_log (frames : Nat → Nat) (w : TcpWorld) (conn : Nat) :
    ∃ packet, (tcpSendAck frames w conn).log =
      .ipSend conn (w.conn conn).intf (w.conn conn).nextAddr packet
      (tcpSegment (w.conn conn) (w.conn conn).snd.nxt TCP_ACK []) :: w.log :=
  ⟨_, rfl⟩

/-- The buffer of the answer is none of those that wait. -/
theorem tcpSendAck_dropped (hf : FramesOk frames) (hpool : PoolInv frames w.bufs { p | p ∈ l }) :
    DroppedWithAck conn l w (tcpSendAck frames w conn) where
  log := tcpSendAck_log frames w conn
  conns := tcpSendAck_conn frames w conn
  queue := by
    intro p hp
    obtain ⟨hnew, -, hother, -⟩ := netAllocBuf_spec hf hpool
    have hne : p ≠ (netAllocBuf frames w.bufs).1 := fun heq => hnew (heq ▸ hp)
    show ((netAllocBuf frames w.bufs).2.setBuf (netAllocBuf frames w.bufs).1 _).buf p = w.bufs.buf p
    rw [BufPool.setBuf_buf, if_neg hne]
    exact hother p hne

/-- `tcp_recv_ack` answers and does nothing else. -/
theorem tcpRecvAck_unsent (hstate : checksAck (w.conn conn).state)
    (hunsent : 0 < seqDiff header.ack (w.conn conn).snd.nxt) :
    tcpRecvAck frames w conn header = some (tcpSendAck frames w conn) := by
  -- `SEG.ACK <= SND.NXT` fails, so neither `snd.una` nor the window moves.
  have hupdate : tcpAckUpdate (w.conn conn).snd header = (w.conn conn).snd := by
    unfold tcpAckUpdate
    rw [if_neg (by omega)]
  have hsame : w.setSnd conn (w.conn conn).snd = w := by
    simp [TcpWorld.setSnd, TcpWorld.setConn]
  have hopen : tcpRecvAckOpen frames w conn header = tcpSendAck frames w conn := by
    unfold tcpRecvAckOpen
    simp only [hupdate, hsame]
    rw [if_pos hunsent]
  unfold tcpRecvAck
  split
  -- The states that do not compare it are not among those of `checksAck`.
  case h_1 hs => simp [hs, checksAck] at hstate
  case h_7 hs => simp [hs, checksAck] at hstate
  case h_8 h₂ h₃ h₄ h₅ h₆ _ =>
    exfalso
    cases hs : (w.conn conn).state <;> simp_all [checksAck]
  all_goals rw [hopen]

/-! ## What follows the answer -/

theorem Local.log_le (h : Local conn w w') : w.log.length ≤ w'.log.length := by
  obtain ⟨new, hnew, -⟩ := h.events
  rw [hnew, List.length_append]
  omega

/-- Data that is taken is acknowledged once more. -/
theorem tcpRecvData_log (hstate : takesData (w.conn conn).state)
    (h : tcpRecvData frames w conn packet = some w') : w.log.length < w'.log.length := by
  unfold tcpRecvData at h
  split at h
  case h_4 h₁ h₂ h₃ =>
    exfalso
    cases hs : (w.conn conn).state <;> simp_all [takesData]
  all_goals
    obtain ⟨r, -, h⟩ := Option.bind_eq_some_iff.mp h
    obtain ⟨w₂, hprocess, rfl⟩ := Option.map_eq_some_iff.mp h
    -- The delivery only adds to the log, and `tcp_send_ack` adds the answer.
    have hle := (tcpRecvProcessFrom_local hprocess).log_le
    exact Nat.lt_succ_of_le hle

/-- In the other states data is ignored. -/
theorem tcpRecvData_ignored (hstate : takesData (w.conn conn).state = false) :
    tcpRecvData frames w conn packet = some w := by
  unfold tcpRecvData
  split
  case h_4 => rfl
  all_goals
    rename_i hs
    simp [hs, takesData] at hstate

/-- A FIN is acknowledged once more. -/
theorem tcpRecvFin_log (frames : Nat → Nat) (w : TcpWorld) (conn : Nat) (header : TcpHeader) :
    w.log.length < (tcpRecvFin frames w conn header).log.length := by
  unfold tcpRecvFin
  extract_lets rcv w₁ w₂
  -- The acknowledgement is in the log before the state is looked at.
  have hsent : w.log.length < w₂.log.length := Nat.lt_succ_self w.log.length
  clear_value w₂
  split
  case h_6 => exact hsent
  case h_3 =>
    split
    · exact Nat.lt_of_lt_of_le hsent (tcpSetState_local w₂ conn .timeWait).log_le
    · exact Nat.lt_of_lt_of_le hsent (tcpSetState_local w₂ conn .closing).log_le
  case h_5 => exact hsent
  all_goals exact Nat.lt_of_lt_of_le hsent (tcpSetState_local w₂ conn _).log_le

/-- A released connection stays closed. -/
theorem tcpRecvAfterSyn_state {dataLen : BitVec 32} (hclosed : (w.conn conn).state = .closed)
    (h : tcpRecvAfterSyn frames w conn header packet dataLen = some w') :
    (w'.conn conn).state = .closed := by
  unfold tcpRecvAfterSyn at h
  -- None of the three steps leaves `TCP_CLOSED`.
  have hack : tcpRecvAck frames w conn header = some w := by simp [tcpRecvAck, hclosed]
  have hdata : tcpRecvData frames w conn packet = some w := by simp [tcpRecvData, hclosed]
  have hfin : ((tcpRecvFin frames w conn header).conn conn).state = .closed := by
    have hset : ((w.setRcv conn { (w.conn conn).rcv with nxt := header.seq + 1 }).conn conn).state =
        .closed := by
      simp [TcpWorld.setRcv, TcpWorld.setConn, hclosed]
    simp only [tcpRecvFin, tcpSendAck_conn, hset]
  simp only [hack, hdata, Option.bind_some, ite_self, Option.map_some] at h
  split at h
  · cases h
    exact hclosed
  · cases h
    split
    · exact hfin
    · exact hclosed

/-- RST and SYN end the connection. -/
theorem tcpRecvGeneral_reset (hstate : checksAck (w.conn conn).state)
    (hwin : inWindow (w.conn conn) header.seq (w.bufs.buf packet).len32)
    (hreset : hasFlag header.flags TCP_RST ∨ hasFlag header.flags TCP_SYN)
    (h : tcpRecvGeneral frames w conn header packet = some w') :
    (w'.conn conn).state = .closed := by
  rw [tcpRecvGeneral_eq, if_neg (by simp [hwin])] at h
  split at h
  -- A RST: `tcp_error` or `tcp_free` in each of these states.
  · unfold tcpRecvRst at h
    split at h
    case h_1 hs => simp [hs, checksAck] at hstate
    case h_9 h₁ h₂ h₃ h₄ h₅ h₆ h₇ h₈ =>
      exfalso
      cases hs : (w.conn conn).state <;> simp_all [checksAck]
    all_goals first
      | rw [tcpError_conn h]
      | rw [tcpFree_conn h]
  -- A SYN: `tcp_error`, and the rest goes over a closed connection.
  · rename_i hrst
    have hsyn := hreset.resolve_left hrst
    rw [if_pos hsyn] at h
    obtain ⟨w₁, herror, h⟩ := Option.bind_eq_some_iff.mp h
    exact tcpRecvAfterSyn_state (by rw [tcpError_conn herror]) h

/-! ## The segments that are dropped -/

/-- Nothing of the segment is left to process behind `tcp_recv_ack`, nor was in
    front of it. -/
structure BareAck (state : TcpState) (header : TcpHeader) (dataLen : BitVec 32) : Prop where
  rst : hasFlag header.flags TCP_RST = false
  syn : hasFlag header.flags TCP_SYN = false
  fin : hasFlag header.flags TCP_FIN = false
  data : dataLen = 0 ∨ takesData state = false

/-- One acknowledgement only: no FIN was processed and no data taken. -/
theorem DroppedWithAck.bareAck (hwin : inWindow (w.conn conn) header.seq (w.bufs.buf packet).len32)
    (hrst : ¬ hasFlag header.flags TCP_RST) (hsyn : ¬ hasFlag header.flags TCP_SYN)
    (hack : hasFlag header.flags TCP_ACK) (hstate : checksAck (w.conn conn).state)
    (hunsent : 0 < seqDiff header.ack (w.conn conn).snd.nxt)
    (hrecv : tcpRecvGeneral frames w conn header packet = some w')
    (hdropped : DroppedWithAck conn l w w') :
    BareAck (w.conn conn).state header (w.bufs.buf packet).len32 := by
  rw [tcpRecvGeneral_ack hwin hrst hsyn hack, tcpRecvAck_unsent hstate hunsent, Option.bind_some]
    at hrecv
  obtain ⟨w₂, hw₂, rfl⟩ := Option.map_eq_some_iff.mp hrecv
  obtain ⟨p, hlog⟩ := hdropped.log
  -- Every further step would add to the log, and only one event may be added.
  have hone := congrArg List.length hlog
  rw [List.length_cons] at hone
  have hlen : (tcpSendAck frames w conn).log.length = w.log.length + 1 := rfl
  have hle : w.log.length + 1 ≤ w₂.log.length := by
    split at hw₂
    · rw [← hlen]
      exact (tcpRecvData_local hw₂).log_le
    · cases hw₂
      exact Nat.le_of_eq hlen.symm
  have hfin : hasFlag header.flags TCP_FIN = false := by
    rw [← Bool.not_eq_true]
    intro hfin
    rw [if_pos hfin] at hone
    have hmore := tcpRecvFin_log frames w₂ conn header
    omega
  refine ⟨by simpa using hrst, by simpa using hsyn, hfin, ?_⟩
  by_cases hdata : (w.bufs.buf packet).len32 = 0
  · exact .inl hdata
  · right
    rw [← Bool.not_eq_true]
    intro htakes
    rw [if_pos hdata] at hw₂
    have hmore := tcpRecvData_log (by rw [tcpSendAck_conn]; exact htakes) hw₂
    simp only [hfin, Bool.false_eq_true, if_false] at hone
    omega

/-- Nothing follows the answer. -/
theorem BareAck.recv (hwin : inWindow (w.conn conn) header.seq (w.bufs.buf packet).len32)
    (hack : hasFlag header.flags TCP_ACK) (hstate : checksAck (w.conn conn).state)
    (hunsent : 0 < seqDiff header.ack (w.conn conn).snd.nxt)
    (hbare : BareAck (w.conn conn).state header (w.bufs.buf packet).len32) :
    tcpRecvGeneral frames w conn header packet = some (tcpSendAck frames w conn) := by
  rw [tcpRecvGeneral_ack hwin (by simp [hbare.rst]) (by simp [hbare.syn]) hack,
    tcpRecvAck_unsent hstate hunsent, Option.bind_some]
  have hdata : (if (w.bufs.buf packet).len32 ≠ 0
    then tcpRecvData frames (tcpSendAck frames w conn) conn packet
      else some (tcpSendAck frames w conn)) = some (tcpSendAck frames w conn) := by
    cases hbare.data with
    | inl hzero => rw [if_neg (by simp [hzero])]
    | inr hignored => rw [tcpRecvData_ignored (by rw [tcpSendAck_conn]; exact hignored), ite_self]
  rw [hdata]
  simp [hbare.fin]

/-- A segment in the window that acknowledges what was never sent is answered
    with one acknowledgement and dropped exactly if it has no RST, SYN or FIN and
    no data that is taken in the state. -/
theorem tcp_unsent_ack_dropped_iff (hf : FramesOk frames)
    (hchain : Chain (fun p => (w.bufs.buf p).link) 0 (w.conn conn).resequence l)
    (hpool : PoolInv frames w.bufs { p | p ∈ l }) (hstate : checksAck (w.conn conn).state)
    (hwin : inWindow (w.conn conn) header.seq (w.bufs.buf packet).len32)
    (hack : hasFlag header.flags TCP_ACK) (hunsent : 0 < seqDiff header.ack (w.conn conn).snd.nxt) :
    (∃ w', tcpRecvGeneral frames w conn header packet = some w' ∧ DroppedWithAck conn l w w' ∧
        Chain (fun p => (w'.bufs.buf p).link) 0 (w'.conn conn).resequence l) ↔
      BareAck (w.conn conn).state header (w.bufs.buf packet).len32 := by
  constructor
  · intro ⟨w', hrecv, hdropped, _⟩
    -- a RST or a SYN ends the connection, otherwise the acknowledgement is looked at
    by_cases hreset : hasFlag header.flags TCP_RST ∨ hasFlag header.flags TCP_SYN
    · -- the connection is closed in front of `tcp_recv_ack`
      have hclosed := tcpRecvGeneral_reset hstate hwin hreset hrecv
      rw [hdropped.conns] at hclosed
      simp [hclosed, checksAck] at hstate
    · obtain ⟨hrst, hsyn⟩ := not_or.mp hreset
      exact hdropped.bareAck hwin hrst hsyn hack hstate hunsent hrecv
  · intro hbare
    have hdropped : DroppedWithAck conn l w (tcpSendAck frames w conn) :=
      tcpSendAck_dropped hf hpool
    refine ⟨_, hbare.recv hwin hack hstate hunsent, hdropped, ?_⟩
    rw [hdropped.conns]
    -- the answer is in a buffer of its own, so the queue keeps its links
    apply hchain.congr
    intro p hp
    rw [hdropped.queue p hp]

/-- `TcpWorld.connected` with a segment that waits for three bytes, and the
    bytes of an arriving one. -/
def TcpWorld.expecting (data : List Byte) : TcpWorld :=
  let w := (TcpWorld.connected 1000).setResequence 0x1000 0x2000
  { w with bufs :=
    { w.bufs with
      requests := 3
      buf := fun p => if p = 0x2000 then ⟨0, [4], 0, 1, 1003, 16⟩ else ⟨0, data, 0, 1, 1000, 16⟩ } }

/-- The number 2 acknowledges a byte behind `snd.nxt = 1`. -/
def unsentHeader : TcpHeader := ⟨80, 1, 1000, 2, 0x50, TCP_ACK, 8192, 0, 0⟩

theorem TcpWorld.expecting_pool (data : List Byte) :
    PoolInv nextFrame (TcpWorld.expecting data).bufs { p | p ∈ [0x2000] } :=
  ⟨⟨[], rfl, by simp, by simp⟩, by simp, by
    intro k hk hmem
    have hk : 3 ≤ k := hk
    simp [nextFrame] at hmem
    omega⟩

theorem TcpWorld.expecting_chain (data : List Byte) :
    Chain (fun p => ((TcpWorld.expecting data).bufs.buf p).link) 0
      ((TcpWorld.expecting data).conn 0x1000).resequence [0x2000] :=
  ⟨rfl, by decide, rfl⟩

/-- A pure acknowledgement while a segment waits. -/
theorem tcp_unsent_ack_dropped_bare :
    ∃ w', tcpRecvGeneral nextFrame (TcpWorld.expecting []) 0x1000 unsentHeader 0x3000 = some w' ∧
      DroppedWithAck 0x1000 [0x2000] (TcpWorld.expecting []) w' ∧
      Chain (fun p => (w'.bufs.buf p).link) 0 (w'.conn 0x1000).resequence [0x2000] :=
  (tcp_unsent_ack_dropped_iff nextFrame_framesOk
    (TcpWorld.expecting_chain []) (TcpWorld.expecting_pool []) rfl
    (by decide) (by decide) (by decide)).mpr ⟨by decide, by decide, by decide, .inl (by decide)⟩

/-- The bytes of a segment with such an acknowledgement are passed to `on_data`. -/
theorem tcp_unsent_ack_data_taken :
    ¬ ∀ (frames : Nat → Nat) (w : TcpWorld) (conn packet : Nat) (header : TcpHeader) (l : List Nat),
      FramesOk frames → Chain (fun p => (w.bufs.buf p).link) 0 (w.conn conn).resequence l →
      PoolInv frames w.bufs { p | p ∈ l } → checksAck (w.conn conn).state →
      inWindow (w.conn conn) header.seq (w.bufs.buf packet).len32 → hasFlag header.flags TCP_ACK →
      0 < seqDiff header.ack (w.conn conn).snd.nxt →
      ∃ w', tcpRecvGeneral frames w conn header packet = some w' ∧ DroppedWithAck conn l w w' ∧
        Chain (fun p => (w'.bufs.buf p).link) 0 (w'.conn conn).resequence l := by
  intro hall
  obtain ⟨w', hrecv, hdropped, -⟩ := hall nextFrame (TcpWorld.expecting [7]) 0x1000 0x3000
    unsentHeader [0x2000]
    nextFrame_framesOk (TcpWorld.expecting_chain [7]) (TcpWorld.expecting_pool [7]) rfl
      (by decide) (by decide)
    (by decide)
  have hdata : (tcpRecvGeneral nextFrame (TcpWorld.expecting [7]) 0x1000 unsentHeader 0x3000).map
      (fun w' => (received 0x1000 w'.log, (w'.conn 0x1000).rcv.nxt)) = some ([7], 1001) := by
        decide +kernel
  rw [hrecv, Option.map_some, hdropped.conns] at hdata
  -- the segment would not have moved `rcv.nxt`
  have hnxt : ((TcpWorld.expecting [7]).conn 0x1000).rcv.nxt = 1001 := by
    simp only [Option.some.injEq, Prod.mk.injEq] at hdata
    exact hdata.2
  exact absurd hnxt (by decide)

end MishaOS
