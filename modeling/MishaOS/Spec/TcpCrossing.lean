import Mathlib.Data.BitVec
import MishaOS.ForStd.Run
import MishaOS.Spec.TcpPeers
import MishaOS.Spec.TcpRefuse

/-!
# Crossing calls

Two hosts call each other, and their SYNs cross.  The segments in flight are
delivered in any order.  `on_connect` is called in one place only, where a
SYN with an acknowledgement arrives in `TCP_SYN_SENT`; a side that gets the bare
SYN first leaves that state without it and is deaf from then on.

## Key results

- `deliverSegment_deaf`: outside `TCP_SYN_SENT` no segment leads to `on_connect`.
- `crossing_never_opens`: in every order of delivery.
-/

namespace MishaOS

variable {frames : Nat → Nat} {w w' w'' : TcpWorld} {p q : Nat} {header : TcpHeader}

/-! ## Deaf connections -/

/-- A connection that has left `TCP_SYN_SENT` does not return to it, and `on_connect` is not called
    for it. -/
structure Deaf (p : Nat) (w w' : TcpWorld) : Prop where
  state : (w.conn p).state ≠ .synSent → (w'.conn p).state ≠ .synSent
  calls : ∃ new, w'.calls = new ++ w.calls ∧ .onConnect p ∉ new

/-- Nothing has happened. -/
theorem Deaf.refl (p : Nat) (w : TcpWorld) : Deaf p w w := ⟨id, [], rfl, List.not_mem_nil⟩

/-- Two deaf steps are one. -/
theorem Deaf.trans (h : Deaf p w w') (h' : Deaf p w' w'') : Deaf p w w'' := by
  obtain ⟨new, hcalls, hnew⟩ := h.calls
  obtain ⟨new', hcalls', hnew'⟩ := h'.calls
  refine ⟨h'.state ∘ h.state, new' ++ new, by rw [hcalls', hcalls, List.append_assoc], ?_⟩
  rw [List.mem_append, not_or]
  exact ⟨hnew', hnew⟩

/-- A step that keeps the state and does not call `on_connect` is deaf. -/
theorem deaf_of_log (new : List TcpEvent) (hstate : (w'.conn p).state = (w.conn p).state)
    (hlog : w'.log = new ++ w.log) (hnew : .onConnect p ∉ new) : Deaf p w w' := by
  refine ⟨by rw [hstate]; exact id, new.filter TcpEvent.isCall, ?_, ?_⟩
  · rw [TcpWorld.calls, hlog, List.filter_append]
    rfl
  · exact fun hmem => hnew (List.mem_of_mem_filter hmem)

/-- So is one that leads away from `TCP_SYN_SENT`. -/
theorem Does.deaf {c : TcpConn} {segs : List TcpSegment} {calls : List TcpEvent}
    (h : Does p w w' c segs calls)
    (hstate : c.state ≠ .synSent) (hcalls : .onConnect p ∉ calls) : Deaf p w w' :=
  ⟨fun _ => by rw [h.conn]; exact hstate, calls, h.calls, hcalls⟩

/-- A connection that is not in `TCP_SYN_SENT` is written. -/
theorem deaf_setConn {c : TcpConn} (hc : (w.conn p).state ≠ .synSent → c.state ≠ .synSent) :
    Deaf p w (w.setConn p c) := by
  refine ⟨?_, [], rfl, List.not_mem_nil⟩
  rw [TcpWorld.setConn_conn, if_pos rfl]
  exact hc

/-- Any other event is recorded. -/
theorem deaf_emit {e : TcpEvent} (he : e ≠ .onConnect p) : Deaf p w (w.emit e) :=
  deaf_of_log [e] rfl rfl (by simpa using he.symm)

/-- The same behind a test. -/
theorem deaf_emit_if {e : TcpEvent} {c : Bool} (he : e ≠ .onConnect p) :
    Deaf p w (if c then w.emit e else w) := by
  split
  · exact deaf_emit he
  · exact .refl p w

/-- A change of the send state is deaf. -/
theorem setSnd_deaf (w : TcpWorld) (p : Nat) (x : TcpSndState) : Deaf p w (w.setSnd p x) :=
  deaf_setConn (c := { w.conn p with snd := x }) id

/-- So is a change of the receive state. -/
theorem setRcv_deaf (w : TcpWorld) (p : Nat) (x : TcpRcvState) : Deaf p w (w.setRcv p x) :=
  deaf_setConn (c := { w.conn p with rcv := x }) id

/-- So is one of the resequence list. -/
theorem setResequence_deaf (w : TcpWorld) (p : Nat) (x : Nat) : Deaf p w (w.setResequence p x) :=
  deaf_setConn (c := { w.conn p with resequence := x }) id

/-- So is one of the buffers. -/
theorem deaf_setBufs (w : TcpWorld) (p : Nat) (b : BufPool) : Deaf p w (w.setBufs b) :=
  ⟨id, [], rfl, List.not_mem_nil⟩

/-- Sending a segment is deaf. -/
theorem tcpTransmit_deaf (frames : Nat → Nat) (w : TcpWorld) (p : Nat) (c : TcpConn)
    (seq : BitVec 32)
    (flags : BitVec 8) (data : List Byte) : Deaf p w (tcpTransmit frames w p c seq flags data) :=
  deaf_of_log [_] rfl rfl (by simp)

/-- So is `tcp_send_packet`. -/
theorem tcpSendPacket_deaf (frames : Nat → Nat) (w : TcpWorld) (p : Nat) (seq : BitVec 32)
    (flags : BitVec 8)
    (data : List Byte) : Deaf p w (tcpSendPacket frames w p seq flags data) :=
  (tcpTransmit_deaf frames w p (w.conn p) seq flags data).trans (setSnd_deaf _ p _)

/-- So is a change to any state but `TCP_SYN_SENT`. -/
theorem tcpSetState_deaf {state : TcpState} (hstate : state ≠ .synSent) :
    Deaf p w (tcpSetState w p state) :=
  (deaf_setConn fun _ => hstate).trans (deaf_emit_if (by simp))

/-- So is the start of the timer. -/
theorem tcpTimeWait_deaf (w : TcpWorld) (p : Nat) : Deaf p w (tcpTimeWait w p) := by
  unfold tcpTimeWait TcpWorld.setMslWait
  exact deaf_setConn id

/-- So is putting a connection on the free list. -/
theorem tcpFreeLink_deaf (w : TcpWorld) (p : Nat) : Deaf p w (tcpFreeLink w p) := by
  have hconn : (tcpFreeLink w p).conn p = { w.conn p with next := w.freeConnList, prev := 0 } := by
    rw [tcpFreeLink_conn, if_pos rfl]
  exact deaf_of_log [.freeConn p] (by rw [hconn]) (tcpFreeLink_log w p) (by simp)

/-- So is its release. -/
theorem tcpFree_deaf (h : tcpFree w p = some w') : Deaf p w w' := by
  unfold tcpFree at h
  split at h
  · obtain ⟨b, -, rfl⟩ := Option.map_eq_some_iff.mp h
    exact ((tcpSetState_deaf (by decide)).trans (deaf_setBufs _ p b)).trans (tcpFreeLink_deaf _ p)
  · obtain rfl := Option.some.inj h
    exact tcpFreeLink_deaf w p

/-- So is an error. -/
theorem tcpError_deaf {error : Nat} (h : tcpError w p error = some w') : Deaf p w w' :=
  (deaf_emit_if (e := .onError p error) (by simp)).trans (tcpFree_deaf h)

/-- So is handing data over. -/
theorem tcpRecvProcessFrom_deaf {fuel packet : Nat}
    (h : tcpRecvProcessFrom p fuel w packet = some w') :
    Deaf p w w' := by
  induction fuel generalizing w packet with
  | zero => cases h
  | succ fuel ih =>
    simp only [tcpRecvProcessFrom] at h
    split at h
    · obtain rfl := Option.some.inj h
      exact .refl p _
    split at h
    · obtain rfl := Option.some.inj h
      exact .refl p _
    · apply Deaf.trans _ (ih h)
      apply Deaf.trans (setRcv_deaf w p _)
      apply Deaf.trans (deaf_emit_if (e := .onData p _ _) (by simp))
      exact (deaf_setBufs _ p _).trans (setResequence_deaf _ p _)

/-- So is `tcp_recv_data`. -/
theorem tcpRecvData_deaf {packet : Nat} (h : tcpRecvData frames w p packet = some w') :
    Deaf p w w' := by
  unfold tcpRecvData at h
  split at h
  case h_4 =>
    obtain rfl := Option.some.inj h
    exact .refl p _
  all_goals
    simp only [Option.bind_eq_some_iff, Option.map_eq_some_iff] at h
    obtain ⟨r, -, w₁, hproc, rfl⟩ := h
    apply Deaf.trans _ (tcpSendPacket_deaf frames _ p _ _ _)
    apply Deaf.trans _ (tcpRecvProcessFrom_deaf hproc)
    exact ((deaf_setBufs w p _).trans (deaf_setBufs _ p r.1)).trans (setResequence_deaf _ p _)

/-- So is `tcp_recv_ack`. -/
theorem tcpRecvAck_deaf (h : tcpRecvAck frames w p header = some w') : Deaf p w w' := by
  unfold tcpRecvAck at h
  -- the handshake and the last FIN on their own, the open states below
  split at h
  case h_1 =>
    split at h
    · obtain rfl := Option.some.inj h
      exact (setSnd_deaf w p _).trans (tcpSetState_deaf (by decide))
    · obtain rfl := Option.some.inj h
      exact tcpSendPacket_deaf ..
  case h_7 =>
    split at h
    · exact tcpFree_deaf h
    · obtain rfl := Option.some.inj h
      exact .refl p _
  case h_8 =>
    obtain rfl := Option.some.inj h
    exact .refl p _
  all_goals
    obtain rfl := Option.some.inj h
    unfold tcpRecvAckOpen TcpWorld.setSnd
    dsimp only
    refine Deaf.trans
      (deaf_setConn (c := { w.conn p with snd := tcpAckUpdate (w.conn p).snd header }) id) ?_
    generalize w.setConn p { w.conn p with snd := tcpAckUpdate (w.conn p).snd header } = u
    -- whether it is answered, or the state goes on, the other connections do not hear it
    split
    · exact tcpSendPacket_deaf ..
    split
    · split
      · exact tcpSetState_deaf (by decide)
      · exact (tcpSetState_deaf (by decide)).trans (tcpTimeWait_deaf _ p)
      · exact .refl p _
    · exact .refl p _

/-- So is `tcp_recv_fin`. -/
theorem tcpRecvFin_deaf (frames : Nat → Nat) (w : TcpWorld) (p : Nat) (header : TcpHeader) :
    Deaf p w (tcpRecvFin frames w p header) := by
  unfold tcpRecvFin
  dsimp only
  apply Deaf.trans
    (deaf_setConn (c := { w.conn p with rcv := { (w.conn p).rcv with nxt := header.seq + 1 } }) id)
  apply Deaf.trans (tcpSendPacket_deaf frames _ p _ _ _)
  split
  · exact tcpSetState_deaf (by decide)
  · exact tcpSetState_deaf (by decide)
  · split
    · exact (tcpSetState_deaf (by decide)).trans (tcpTimeWait_deaf _ p)
    · exact tcpSetState_deaf (by decide)
  · exact (tcpSetState_deaf (by decide)).trans (tcpTimeWait_deaf _ p)
  · exact tcpTimeWait_deaf _ p
  · exact .refl p _

/-- So is `tcp_recv_rst`. -/
theorem tcpRecvRst_deaf (h : tcpRecvRst w p = some w') : Deaf p w w' := by
  unfold tcpRecvRst at h
  split at h
  case h_9 =>
    obtain rfl := Option.some.inj h
    exact .refl p _
  all_goals
    first
      | exact tcpError_deaf h
      | exact tcpFree_deaf h

/-- So is `tcp_recv_general`. -/
theorem tcpRecvGeneral_deaf {packet : Nat} (h : tcpRecvGeneral frames w p header packet = some w') :
    Deaf p w w' := by
  rw [tcpRecvGeneral_eq] at h
  split at h
  · split at h
    · obtain rfl := Option.some.inj h
      exact .refl p _
    · obtain rfl := Option.some.inj h
      exact tcpSendPacket_deaf ..
  split at h
  · exact tcpRecvRst_deaf h
  obtain ⟨w₁, hsyn, h⟩ := Option.bind_eq_some_iff.mp h
  -- a SYN in the window ends the connection
  have h₁ : Deaf p w w₁ := by
    split at hsyn
    · exact (tcpSendPacket_deaf ..).trans (tcpError_deaf hsyn)
    · obtain rfl := Option.some.inj hsyn
      exact .refl p _
  apply h₁.trans
  unfold tcpRecvAfterSyn at h
  split at h
  · obtain rfl := Option.some.inj h
    exact .refl p _
  obtain ⟨w₂, hack, h⟩ := Option.bind_eq_some_iff.mp h
  obtain ⟨w₃, hdata, rfl⟩ := Option.map_eq_some_iff.mp h
  apply (tcpRecvAck_deaf hack).trans
  have h₂ : Deaf p w₂ w₃ := by
    split at hdata
    · exact tcpRecvData_deaf hdata
    · obtain rfl := Option.some.inj hdata
      exact .refl p _
  apply h₂.trans
  split
  · exact tcpRecvFin_deaf ..
  · exact .refl p _

/-- What is done for another connection. -/
theorem local_deaf (hpq : p ≠ q) (h : Local q w w') : Deaf p w w' := by
  obtain ⟨new, hlog, hnew⟩ := h.events
  have hstate : (w'.conn p).state = (w.conn p).state := by
    rcases h.conn p hpq with hc | ⟨-, -, hc⟩
    · rw [hc]
    · rw [hc]
  apply deaf_of_log new hstate hlog
  intro hmem
  have hconn := hnew _ hmem
  exact hpq (Option.some.inj hconn)

/-- Outside `TCP_SYN_SENT` no segment leads to `on_connect`, or back. -/
theorem deliverSegment_deaf {seg : TcpSegment} (hp : p ≠ 0) (hstate : (w.conn p).state ≠ .synSent)
    (h : deliverSegment frames seg w = some w') : Deaf p w w' := by
  obtain ⟨b, b', w₂, rfl, hcases⟩ := tcpDeliver_cases h
  apply ((deaf_setBufs w p b).trans _).trans (deaf_setBufs w₂ p b')
  obtain rfl | ⟨len, hclosed⟩ | ⟨q, packet, -, -, -, hconn⟩ := hcases
  · exact .refl p _
  · exact local_deaf hp (tcpRecvClosed_local hclosed).1
  by_cases hq : p = q
  · subst hq
    unfold tcpRecvConn at hconn
    split at hconn
    · rename_i hs
      exact absurd hs hstate
    · obtain rfl := Option.some.inj hconn
      exact .refl p _
    · exact (deaf_setBufs _ p _).trans (tcpRecvGeneral_deaf hconn)
  · exact local_deaf hq (tcpRecvConn_local hconn)

/-! ## One end of the crossing -/

/-- `c` is found first. -/
structure Head (p : Nat) (w : TcpWorld) (c : TcpConn) : Prop where
  ne : p ≠ 0
  list : w.tcpConnList = p
  conn : w.conn p = c

variable {c c' r : TcpConn} {segs : List TcpSegment} {calls : List TcpEvent}

/-- The connection is still the first one of the list. -/
theorem Head.after (h : Head p w c) (hdoes : Does p w w' c' segs calls) : Head p w' c' :=
  ⟨h.ne, hdoes.list.trans h.list, hdoes.conn⟩

/-- `tcp_find` finds it for a segment of its other end. -/
theorem Head.found (h : Head p w c) (hr : Mirrors r c) :
    tcpFind w r.localAddr r.localPort r.remoteAddr r.remotePort = some p :=
  hr.tcpFind (tcpFind_head h.ne h.list h.conn)

/-- The SYN of the other side gets there before the answer to the own one. -/
theorem Head.syn (h : Head p w c) (hr : Mirrors r c) (hstate : c.state = .synSent)
    (seq : BitVec 32) :
    ∃ u c', deliverSegment frames (tcpSegment r seq TCP_SYN []) w = some u ∧
      c' = { c with rcv := { c.rcv with irs := seq, nxt := seq + 1 }, state := .synReceived } ∧
      Does p w u c' [tcpSegment c' (c.snd.nxt - 1) (TCP_SYN ||| TCP_ACK) []]
        (if c.onState then [.onState p c.state .synReceived] else []) := by
  obtain ⟨c', hc'⟩ : ∃ c', c' =
      { c with rcv := { c.rcv with irs := seq, nxt := seq + 1 }, state := .synReceived } :=
    ⟨_, rfl⟩
  have hopen : ∀ b, ∃ u, tcpRecvSynSent frames (w.setBufs b) p
    (tcpSegment r seq TCP_SYN []).header = some u ∧
      Does p (w.setBufs b) u c' [tcpSegment c' (c.snd.nxt - 1) (TCP_SYN ||| TCP_ACK) []]
        (if c.onState then [.onState p c.state .synReceived] else []) := by
    intro b
    -- the flags of the segment, one by one
    have hack : hasFlag (tcpSegment r seq TCP_SYN []).header.flags TCP_ACK = false := by
      show hasFlag TCP_SYN TCP_ACK = false
      decide
    have hrst : hasFlag (tcpSegment r seq TCP_SYN []).header.flags TCP_RST = false := by
      show hasFlag TCP_SYN TCP_RST = false
      decide
    have hsyn : hasFlag (tcpSegment r seq TCP_SYN []).header.flags TCP_SYN = true := by
      show hasFlag TCP_SYN TCP_SYN = true
      decide
    obtain ⟨u, _, hu, rfl, hdoes⟩ := tcpRecvSynSentOpen_syn frames (w := w.setBufs b) h.conn hack
    rw [hc']
    refine ⟨u, ?_, hdoes⟩
    unfold tcpRecvSynSent
    -- neither an acknowledgement nor a reset: the branch of the SYN
    rw [if_neg (by rw [hack]; exact fun hbad => nomatch hbad.1), hrst, if_neg (by decide),
      if_pos hsyn, hu]
  obtain ⟨u, hu, hdoes⟩ := tcpDeliver_synSent frames seq TCP_SYN (h.found hr) h.ne
    (by rw [h.conn]; exact hstate) hopen
  exact ⟨u, c', hu, hc', hdoes⟩

/-- A segment acknowledges what its sender expects next. -/
theorem tcpSegment_ack {flags : BitVec 8} {seq : BitVec 32} {data : List Byte}
    (hack : hasFlag flags TCP_ACK = true) :
    (tcpSegment r seq flags data).header.ack = r.rcv.nxt := by
  show (if hasFlag flags TCP_ACK then r.rcv.nxt else 0) = r.rcv.nxt
  rw [if_pos hack]

/-- The number behind the own SYN is acknowledged. -/
theorem synSentAckBad_next (hiss : c.snd.nxt = c.snd.iss + 1) (hack : header.ack = c.snd.nxt) :
    synSentAckBad c header = false := by
  have hone : header.ack - c.snd.iss = 1 := by
    rw [hack, hiss]
    bv_omega
  have hlow : seqDiff header.ack c.snd.iss = 1 := by
    rw [seqDiff, hone]
    decide
  have hhigh : seqDiff header.ack c.snd.nxt = 0 := seqDiff_eq_zero.mpr hack
  unfold synSentAckBad
  rw [hlow, hhigh]
  decide

/-- A SYN|ACK for the SYN opens a calling connection. -/
theorem Head.synAck (h : Head p w c) (hr : Mirrors r c) (hstate : c.state = .synSent)
    (seq : BitVec 32)
    (hiss : c.snd.nxt = c.snd.iss + 1) (hack : r.rcv.nxt = c.snd.nxt) :
    ∃ u c', deliverSegment frames (tcpSegment r seq (TCP_SYN ||| TCP_ACK) []) w = some u ∧
      c' = { c with
        rcv := { c.rcv with irs := seq, nxt := seq + 1 }
        snd := { c.snd with una := r.rcv.nxt, wnd := 8192, wl1 := seq, wl2 := r.rcv.nxt }
        state := .established } ∧
      Does p w u c' [tcpSegment c' c.snd.nxt TCP_ACK []]
        ((if c.onConnect then [.onConnect p] else []) ++
          (if c.onState then [.onState p c.state .established] else [])) := by
  -- the flags of the segment and its acknowledgement
  have hflag : hasFlag (tcpSegment r seq (TCP_SYN ||| TCP_ACK) []).header.flags TCP_ACK = true := by
    show hasFlag (TCP_SYN ||| TCP_ACK) TCP_ACK = true
    decide
  have hrst : hasFlag (tcpSegment r seq (TCP_SYN ||| TCP_ACK) []).header.flags TCP_RST = false := by
    show hasFlag (TCP_SYN ||| TCP_ACK) TCP_RST = false
    decide
  have hsyn : hasFlag (tcpSegment r seq (TCP_SYN ||| TCP_ACK) []).header.flags TCP_SYN = true := by
    show hasFlag (TCP_SYN ||| TCP_ACK) TCP_SYN = true
    decide
  have hnum : (tcpSegment r seq (TCP_SYN ||| TCP_ACK) []).header.ack = r.rcv.nxt :=
    tcpSegment_ack (by decide)
  obtain ⟨c', hc'⟩ : ∃ c', c' = { c with
      rcv := { c.rcv with irs := seq, nxt := seq + 1 }
      snd := { c.snd with una := r.rcv.nxt, wnd := 8192, wl1 := seq, wl2 := r.rcv.nxt }
      state := .established } := ⟨_, rfl⟩
  have hopen : ∀ b, ∃ u, tcpRecvSynSent frames (w.setBufs b) p
      (tcpSegment r seq (TCP_SYN ||| TCP_ACK) []).header = some u ∧
      Does p (w.setBufs b) u c' [tcpSegment c' c.snd.nxt TCP_ACK []]
        ((if c.onConnect then [.onConnect p] else []) ++
          (if c.onState then [.onState p c.state .established] else [])) := by
    intro b
    obtain ⟨u, _, hu, rfl, hdoes⟩ := tcpRecvSynSentOpen_ack frames (w := w.setBufs b) h.conn hflag
    rw [hnum] at hdoes
    rw [hc']
    refine ⟨u, ?_, hdoes⟩
    -- the number acknowledged is that of the SYN
    have hgood : synSentAckBad c (tcpSegment r seq (TCP_SYN ||| TCP_ACK) []).header = false :=
      synSentAckBad_next hiss (hnum.trans hack)
    have hconn : (w.setBufs b).conn p = c := h.conn
    unfold tcpRecvSynSent
    rw [hconn, hgood, if_neg (by simp), hrst, if_neg (by decide), if_pos hsyn, hu]
  obtain ⟨u, hu, hdoes⟩ := tcpDeliver_synSent frames seq (TCP_SYN ||| TCP_ACK) (h.found hr) h.ne
    (by rw [h.conn]; exact hstate) hopen
  exact ⟨u, c', hu, hc', hdoes⟩

/-- The next sequence number is in the window. -/
theorem inWindow_nxt (hwnd : c.rcv.wnd = TCP_WINDOW_SIZE) : inWindow c c.rcv.nxt 0 = true := by
  have hlow : seqDiff c.rcv.nxt c.rcv.nxt = 0 := seqDiff_eq_zero.mpr rfl
  have hback : c.rcv.nxt + 0 - (c.rcv.nxt + TCP_WINDOW_SIZE) = -TCP_WINDOW_SIZE := by
    generalize TCP_WINDOW_SIZE = wnd
    bv_omega
  have hhigh : seqDiff (c.rcv.nxt + 0) (c.rcv.nxt + TCP_WINDOW_SIZE) = -8192 := by
    rw [seqDiff, hback]
    decide
  unfold inWindow
  rw [hwnd, hlow, hhigh]
  decide

/-- The number before it is not. -/
theorem inWindow_before {seq : BitVec 32} (hseq : c.rcv.nxt = seq + 1) :
    inWindow c seq 0 = false := by
  have hone : seq + 1 - seq = 1 := by bv_omega
  have hlow : seqDiff c.rcv.nxt seq = 1 := by
    rw [hseq, seqDiff, hone]
    decide
  unfold inWindow
  rw [hlow]
  rfl

/-- The SYN that an answer has overtaken lies in front of the window. -/
theorem Head.overtaken (h : Head p w c) (hr : Mirrors r c) (hstate : c.state = .established)
    {seq : BitVec 32}
    (hseq : c.rcv.nxt = seq + 1) :
    ∃ u, deliverSegment frames (tcpSegment r seq TCP_SYN []) w = some u ∧
      Does p w u c [tcpSegment c c.snd.nxt TCP_ACK []] [] := by
  apply tcpDeliver_general frames seq TCP_SYN (h.found hr) h.ne (by rw [h.conn, hstate]; decide)
  intro b
  have hrst : hasFlag (tcpSegment r seq TCP_SYN []).header.flags TCP_RST = false := by
    show hasFlag TCP_SYN TCP_RST = false
    decide
  have hwin : inWindow c (tcpSegment r seq TCP_SYN []).header.seq 0 = false := inWindow_before hseq
  have hout := tcpRecvBareGeneral_outside frames (w := w.setBufs b) h.conn hwin
  rw [hrst, if_neg (by decide)] at hout
  exact hout

/-- The acknowledgement that `TCP_SYN_RECEIVED` waits for. -/
theorem Head.acked (h : Head p w c) (hr : Mirrors r c) (hstate : c.state = .synReceived)
    (hwnd : c.rcv.wnd = TCP_WINDOW_SIZE) (hacked : c.snd.una ≤ r.rcv.nxt ∧ r.rcv.nxt ≤ c.snd.nxt) :
    ∃ u c', deliverSegment frames (tcpSegment r c.rcv.nxt TCP_ACK []) w = some u ∧
      c' = { c with
        state := .established
        snd := { c.snd with wnd := 8192, wl1 := c.rcv.nxt, wl2 := r.rcv.nxt } } ∧
      Does p w u c' [] (if c.onState then [.onState p .synReceived .established] else []) := by
  have hgeneral : ∀ b, ∃ u, tcpRecvBareGeneral frames (w.setBufs b) p
    (tcpSegment r c.rcv.nxt TCP_ACK []).header =
      some u ∧ Does p (w.setBufs b) u { c with
        state := .established
        snd := { c.snd with wnd := 8192, wl1 := c.rcv.nxt, wl2 := r.rcv.nxt } } []
          (if c.onState then [.onState p .synReceived .established] else []) := by
    intro b
    have hnum : (tcpSegment r c.rcv.nxt TCP_ACK []).header.ack = r.rcv.nxt :=
      tcpSegment_ack (by decide)
    have hseq : (tcpSegment r c.rcv.nxt TCP_ACK []).header.seq = c.rcv.nxt := rfl
    have hflags : (tcpSegment r c.rcv.nxt TCP_ACK []).header.flags = TCP_ACK := rfl
    have hsize : (tcpSegment r c.rcv.nxt TCP_ACK []).header.windowSize = 8192 := rfl
    generalize (tcpSegment r c.rcv.nxt TCP_ACK []).header = header at *
    -- the number expected next is in the window
    have hwin : inWindow c header.seq 0 = true := by
      rw [hseq]
      exact inWindow_nxt hwnd
    have hsyn : synAckOk c.snd header := by
      rw [synAckOk, hnum, decide_eq_true_eq]
      exact hacked
    have hconn : (w.setBufs b).conn p = c := h.conn
    have hack := tcpRecvAck_synAcked frames hconn hstate hsyn
    rw [hnum, hseq, hsize] at hack
    rw [tcpRecvBareGeneral_ack frames hconn hwin hflags]
    exact hack
  obtain ⟨u, hu, hdoes⟩ := tcpDeliver_general frames c.rcv.nxt TCP_ACK (h.found hr) h.ne
    (by rw [h.conn, hstate]; decide) hgeneral
  exact ⟨u, _, hu, rfl, hdoes⟩

/-- The comparison without wrap-around refuses the acknowledgement. -/
theorem Head.refused (h : Head p w c) (hr : Mirrors r c) (hstate : c.state = .synReceived)
    (hwnd : c.rcv.wnd = TCP_WINDOW_SIZE)
    (hacked : ¬ (c.snd.una ≤ r.rcv.nxt ∧ r.rcv.nxt ≤ c.snd.nxt)) :
    ∃ u, deliverSegment frames (tcpSegment r c.rcv.nxt TCP_ACK []) w = some u ∧
      Does p w u c [tcpSegment c r.rcv.nxt TCP_RST []] [] := by
  apply tcpDeliver_general frames c.rcv.nxt TCP_ACK (h.found hr) h.ne
    (by rw [h.conn, hstate]; decide)
  intro b
  have hnum : (tcpSegment r c.rcv.nxt TCP_ACK []).header.ack = r.rcv.nxt :=
    tcpSegment_ack (by decide)
  have hseq : (tcpSegment r c.rcv.nxt TCP_ACK []).header.seq = c.rcv.nxt := rfl
  have hflags : (tcpSegment r c.rcv.nxt TCP_ACK []).header.flags = TCP_ACK := rfl
  generalize (tcpSegment r c.rcv.nxt TCP_ACK []).header = header at *
  have hwin : inWindow c header.seq 0 = true := by
    rw [hseq]
    exact inWindow_nxt hwnd
  -- the comparison of `tcp_recv_ack` fails, so the answer is a reset
  have hsyn : ¬ synAckOk c.snd header := by
    rw [synAckOk, hnum, decide_eq_true_eq]
    exact hacked
  have hconn : (w.setBufs b).conn p = c := h.conn
  have hack := tcpRecvAck_synRejected frames hconn hstate hsyn
  rw [hnum] at hack
  rw [tcpRecvBareGeneral_ack frames hconn hwin hflags]
  exact hack

/-- An acknowledgement of everything that was sent is not answered. -/
theorem Head.ackedAll (h : Head p w c) (hr : Mirrors r c) (hstate : c.state = .established)
    (hwnd : c.rcv.wnd = TCP_WINDOW_SIZE) (hack : r.rcv.nxt = c.snd.nxt) :
    ∃ u c', deliverSegment frames (tcpSegment r c.rcv.nxt TCP_ACK []) w = some u ∧
      Does p w u c' [] [] := by
  have hgeneral : ∀ b, ∃ u, tcpRecvBareGeneral frames (w.setBufs b) p
    (tcpSegment r c.rcv.nxt TCP_ACK []).header =
      some u ∧ Does p (w.setBufs b) u
        { c with snd := tcpAckUpdate c.snd (tcpSegment r c.rcv.nxt TCP_ACK []).header } [] [] := by
    intro b
    have hnum : (tcpSegment r c.rcv.nxt TCP_ACK []).header.ack = c.snd.nxt :=
      (tcpSegment_ack (by decide)).trans hack
    have hseq : (tcpSegment r c.rcv.nxt TCP_ACK []).header.seq = c.rcv.nxt := rfl
    have hflags : (tcpSegment r c.rcv.nxt TCP_ACK []).header.flags = TCP_ACK := rfl
    generalize (tcpSegment r c.rcv.nxt TCP_ACK []).header = header at *
    have hwin : inWindow c header.seq 0 = true := by
      rw [hseq]
      exact inWindow_nxt hwnd
    have hconn : (w.setBufs b).conn p = c := h.conn
    have hopen : Does p (w.setBufs b) (tcpRecvAckOpen frames (w.setBufs b) p header) _ _ _ :=
      tcpRecvAckOpen_does frames hconn (.inl (by rw [hstate]; decide))
    -- with nothing left to acknowledge, no answer is owed
    have hzero : seqDiff header.ack c.snd.nxt = 0 := seqDiff_eq_zero.mpr hnum
    rw [hzero, if_neg (by decide)] at hopen
    rw [tcpRecvBareGeneral_ack frames hconn hwin hflags,
      tcpRecvAck_open frames hconn (by rw [hstate]; decide)]
    exact ⟨_, rfl, hopen⟩
  obtain ⟨u, hu, hdoes⟩ := tcpDeliver_general frames c.rcv.nxt TCP_ACK (h.found hr) h.ne
    (by rw [h.conn, hstate]; decide) hgeneral
  exact ⟨u, _, hu, hdoes⟩

/-- A connection without waiting segments can be released. -/
theorem tcpFree_empty (hc : w.conn p = c) (hopen : c.state ≠ .closed) (hres : c.resequence = 0) :
    ∃ u, tcpFree w p = some u := by
  subst hc
  have hset : ((tcpSetState w p .closed).conn p).resequence = 0 := by
    rw [(tcpSetState_does (rfl : w.conn p = w.conn p) .closed).conn]
    exact hres
  obtain ⟨n, hn⟩ : ∃ n, walkFuel = n + 1 := ⟨4294967295, rfl⟩
  unfold tcpFree
  rw [if_pos hopen]
  dsimp only
  rw [hset, hn, tcpFreeQueue, if_pos rfl, Option.map_some]
  exact ⟨_, rfl⟩

/-- A RST in the window ends an established connection. -/
theorem Head.reset (h : Head p w c) (hr : Mirrors r c) (hstate : c.state = .established)
    (hwnd : c.rcv.wnd = TCP_WINDOW_SIZE) (hres : c.resequence = 0) :
    ∃ u c' calls, deliverSegment frames (tcpSegment r c.rcv.nxt TCP_RST []) w = some u ∧
      c'.state = .closed ∧ Mirrors r c' ∧ Does p w u c' [] calls := by
  have hopen : c.state ≠ .closed := by
    rw [hstate]
    decide
  have hgeneral : ∀ b, ∃ u,
      tcpRecvBareGeneral frames (w.setBufs b) p (tcpSegment r c.rcv.nxt TCP_RST []).header =
        some u ∧
      Does p (w.setBufs b) u { c with state := .closed, next := w.freeConnList, prev := 0 } []
        ((if c.onState then [.onState p c.state .closed] else []) ++
          (if c.onError then [.onError p TCP_CONN_RESET] else [])) := by
    intro b
    have hwin : inWindow c (tcpSegment r c.rcv.nxt TCP_RST []).header.seq 0 = true :=
      inWindow_nxt hwnd
    have hrst : hasFlag (tcpSegment r c.rcv.nxt TCP_RST []).header.flags TCP_RST = true := by
      show hasFlag TCP_RST TCP_RST = true
      decide
    have hconn : (w.setBufs b).conn p = c := h.conn
    -- the callback, then the release; no segments wait
    have hcall := does_call hconn (e := .onError p TCP_CONN_RESET) rfl rfl c.onError
    obtain ⟨u, hu⟩ := tcpFree_empty hcall.conn hopen hres
    rw [← hconn] at hu
    have herror : tcpError (w.setBufs b) p TCP_CONN_RESET = some u := hu
    refine ⟨u, ?_, tcpError_does hconn hopen herror⟩
    rw [tcpRecvBareGeneral_rst frames hconn hwin hrst]
    unfold tcpRecvRst
    rw [hconn, hstate]
    exact herror
  obtain ⟨u, hu, hdoes⟩ := tcpDeliver_general frames c.rcv.nxt TCP_RST (h.found hr) h.ne
    (by rw [h.conn, hstate]; decide) hgeneral
  exact ⟨u, { c with state := .closed, next := w.freeConnList, prev := 0 }, _, hu, rfl,
    ⟨hr.localAddr, hr.remoteAddr, hr.localPort, hr.remotePort⟩, hdoes⟩

/-- The closed connection is still found, and a RST for it is dropped. -/
theorem Head.dropped (h : Head p w c) (hr : Mirrors r c) (hstate : c.state = .closed)
    (seq : BitVec 32) :
    ∃ u, deliverSegment frames (tcpSegment r seq TCP_RST []) w = some u ∧ Does p w u c [] [] := by
  obtain ⟨b, packet, -, -, hdeliver⟩ := tcpDeliver_segment frames w r seq TCP_RST [] (by simp)
  have hrst : hasFlag (tcpSegment r seq TCP_RST []).header.flags TCP_RST = true := by
    show hasFlag TCP_RST TCP_RST = true
    decide
  rw [h.found hr, Option.bind_some, if_pos (.inr (by rw [h.conn]; exact hstate))] at hdeliver
  unfold tcpRecvClosed at hdeliver
  rw [if_pos hrst, Option.map_some] at hdeliver
  exact ⟨_, hdeliver, h.conn, rfl, rfl, rfl⟩

/-! ## Two hosts -/

/-- Two hosts, and the segments in flight to each of them. -/
structure TcpPair where
  a : TcpWorld
  b : TcpWorld
  toA : List TcpSegment
  toB : List TcpSegment

/-- One of the segments in flight arrives. -/
inductive PairOp
  | toA (i : Nat)
  | toB (i : Nat)

/-- Nothing is lost, and what the host answers is in flight from then on. -/
def pairStep (framesA framesB : Nat → Nat) (s : TcpPair) : PairOp → Option TcpPair
  | .toA i => s.toA[i]?.bind fun seg => (deliverSegment framesA seg s.a).map fun a =>
      { s with a := a, toA := s.toA.eraseIdx i, toB := s.toB ++ (segsSince s.a a).reverse }
  | .toB i => s.toB[i]?.bind fun seg => (deliverSegment framesB seg s.b).map fun b =>
      { s with b := b, toB := s.toB.eraseIdx i, toA := s.toA ++ (segsSince s.b b).reverse }

/-- The segments arrive in the order of `ops`. -/
def Delivered (framesA framesB : Nat → Nat) (s : TcpPair) (ops : List PairOp)
    (s' : TcpPair) : Prop :=
  Run (pairStep framesA framesB) (fun _ _ => True) s ops s'

/-- `tcp_connect` has just sent `out`, for a connection from `tcp_new_conn`. -/
def HasCalled (frames : Nat → Nat) (w : TcpWorld) (p : Nat) (out : List TcpSegment) : Prop :=
  p ≠ 0 ∧ ∃ w₀ addr port, (w₀.conn p).resequence = 0 ∧
    tcpConnect frames w₀ p addr port = some (true, w) ∧
    out = segsSince w₀ w

/-- Both hosts have called each other, and nothing has arrived yet. -/
structure Crossed (framesA framesB : Nat → Nat) (s : TcpPair) (p q : Nat) : Prop where
  a : HasCalled framesA s.a p s.toB
  b : HasCalled framesB s.b q s.toA
  mirrors : Mirrors (s.b.conn q) (s.a.conn p)

/-- Both ends are established and agree, and each `on_connect` has been called once since `s₀`. -/
structure Opened (s₀ s : TcpPair) (p q : Nat) : Prop where
  stateA : (s.a.conn p).state = .established
  stateB : (s.b.conn q).state = .established
  rcvA : (s.a.conn p).rcv.nxt = (s.b.conn q).snd.nxt
  rcvB : (s.b.conn q).rcv.nxt = (s.a.conn p).snd.nxt
  callA : (callsSince s₀.a s.a).count (.onConnect p) = 1
  callB : (callsSince s₀.b s.b).count (.onConnect q) = 1

/-- Every order of delivery that comes to an end opens the connection. -/
def CrossingOpens (framesA framesB : Nat → Nat) (s₀ : TcpPair) (p q : Nat) : Prop :=
  ∀ ops s, Delivered framesA framesB s₀ ops s → s.toA = [] → s.toB = [] → Opened s₀ s p q

variable {framesA framesB : Nat → Nat} {s₀ s s' : TcpPair}

/-- A segment is delivered to `A`, and what it sends is on its way to `B`. -/
theorem pairStep_toA (framesB : Nat → Nat) {i : Nat} {seg : TcpSegment} {a : TcpWorld}
    {toA toB : List TcpSegment}
    (hseg : s.toA[i]? = some seg) (h : deliverSegment framesA seg s.a = some a)
    (hsent : a.sent = segs ++ s.a.sent)
    (htoA : s.toA.eraseIdx i = toA) (htoB : s.toB ++ segs.reverse = toB) :
    pairStep framesA framesB s (.toA i) = some ⟨a, s.b, toA, toB⟩ := by
  subst htoA htoB
  unfold pairStep
  dsimp only
  rw [hseg, Option.bind_some, h, Option.map_some, segsSince_eq hsent]

/-- The same for `B`. -/
theorem pairStep_toB (framesA : Nat → Nat) {i : Nat} {seg : TcpSegment} {b : TcpWorld}
    {toA toB : List TcpSegment}
    (hseg : s.toB[i]? = some seg) (h : deliverSegment framesB seg s.b = some b)
    (hsent : b.sent = segs ++ s.b.sent)
    (htoB : s.toB.eraseIdx i = toB) (htoA : s.toA ++ segs.reverse = toA) :
    pairStep framesA framesB s (.toB i) = some ⟨s.a, b, toA, toB⟩ := by
  subst htoA htoB
  unfold pairStep
  dsimp only
  rw [hseg, Option.bind_some, h, Option.map_some, segsSince_eq hsent]

/-- The ends of a connection mirror each other. -/
theorem Mirrors.symm (h : Mirrors r c) : Mirrors c r :=
  ⟨h.remoteAddr.symm, h.localAddr.symm, h.remotePort.symm, h.localPort.symm⟩

/-- The structure and the SYN of a side that has called. -/
theorem HasCalled.dialled {out : List TcpSegment} (h : HasCalled frames w p out) :
    ∃ isn, Head p w (w.conn p) ∧ (w.conn p).state = .synSent ∧
      (w.conn p).snd = ⟨isn, isn + 1, TCP_WINDOW_SIZE, 0, 0, 0, isn⟩ ∧
      (w.conn p).rcv = ⟨0, TCP_WINDOW_SIZE, 0, 0⟩ ∧ (w.conn p).resequence = 0 ∧
      out = [tcpSegment (w.conn p) isn TCP_SYN []] := by
  obtain ⟨hp, w₀, addr, port, hres, hconnect, rfl⟩ := h
  obtain ⟨hdialled, hlist, hsent⟩ := tcpConnect_does hconnect
  obtain ⟨isn, hsnd⟩ := hdialled.snd
  refine ⟨isn, ⟨hp, hlist, rfl⟩, hdialled.state, hsnd, hdialled.rcv,
    hdialled.resequence.trans hres, ?_⟩
  rw [hsent, hsnd]

/-! ## In every order -/

/-- The connection has left `TCP_SYN_SENT` without `on_connect`. -/
def Shut (p : Nat) (w w' : TcpWorld) : Prop := (w'.conn p).state ≠ .synSent ∧ Deaf p w w'

/-- No further segment opens the connection. -/
theorem Shut.step {seg : TcpSegment} (hp : p ≠ 0) (h : Shut p w w')
    (hdeliver : deliverSegment frames seg w' = some w'') : Shut p w w'' := by
  have hdeaf := deliverSegment_deaf hp h.1 hdeliver
  exact ⟨hdeaf.state h.1, h.2.trans hdeaf⟩

/-- `on_connect` has not been called. -/
theorem Shut.count (h : Shut p w w') : (callsSince w w').count (.onConnect p) = 0 := by
  obtain ⟨new, hcalls, hnew⟩ := h.2.calls
  rw [callsSince_eq hcalls]
  exact List.count_eq_zero.mpr hnew

/-- The bare SYN of the other side shuts a side that has called. -/
theorem HasCalled.shut {out : List TcpSegment} {seq : BitVec 32} (h : HasCalled frames w p out)
    (hr : Mirrors r (w.conn p))
    (hdeliver : deliverSegment frames (tcpSegment r seq TCP_SYN []) w = some w') :
    Shut p w w' := by
  obtain ⟨isn, hhead, hstate, -⟩ := h.dialled
  obtain ⟨u, c', hu, hc', hdoes⟩ := hhead.syn hr hstate seq
  obtain rfl := Option.some.inj (hu.symm.trans hdeliver)
  have hne : c'.state ≠ .synSent := by
    rw [hc']
    simp
  refine ⟨by rw [hdoes.conn]; exact hne, hdoes.deaf hne ?_⟩
  split
  · simp
  · exact List.not_mem_nil

/-- Whichever segment arrives first is a bare SYN, and the side that gets it stays shut. -/
theorem pairStep_shut {op : PairOp} (h : Crossed framesA framesB s₀ p q)
    (hs : s = s₀ ∨ Shut p s₀.a s.a ∨ Shut q s₀.b s.b)
    (hstep : pairStep framesA framesB s op = some s') :
    Shut p s₀.a s'.a ∨ Shut q s₀.b s'.b := by
  obtain ⟨x, -, -, -, -, -, houtA⟩ := h.a.dialled
  obtain ⟨y, -, -, -, -, -, houtB⟩ := h.b.dialled
  cases op with
  | toA i =>
    obtain ⟨seg, hseg, hstep⟩ := Option.bind_eq_some_iff.mp hstep
    obtain ⟨a, hdeliver, rfl⟩ := Option.map_eq_some_iff.mp hstep
    -- the first segment shuts its receiver, the later ones change nothing about that
    rcases hs with rfl | hshut | hshut
    · have hmem := List.mem_of_getElem? hseg
      rw [houtB, List.mem_singleton] at hmem
      subst hmem
      exact .inl (h.a.shut h.mirrors hdeliver)
    · exact .inl (hshut.step h.a.1 hdeliver)
    · exact .inr hshut
  | toB i =>
    obtain ⟨seg, hseg, hstep⟩ := Option.bind_eq_some_iff.mp hstep
    obtain ⟨b, hdeliver, rfl⟩ := Option.map_eq_some_iff.mp hstep
    rcases hs with rfl | hshut | hshut
    · have hmem := List.mem_of_getElem? hseg
      rw [houtA, List.mem_singleton] at hmem
      subst hmem
      exact .inr (h.b.shut h.mirrors.symm hdeliver)
    · exact .inl hshut
    · exact .inr (hshut.step h.b.1 hdeliver)

/-- In no state of any run have both sides called `on_connect`. -/
theorem delivered_not_opened {ops : List PairOp} (h : Crossed framesA framesB s₀ p q)
    (hrun : Delivered framesA framesB s₀ ops s) : ¬ Opened s₀ s p q := by
  have hinv : s = s₀ ∨ Shut p s₀.a s.a ∨ Shut q s₀.b s.b := by
    refine Run.invariant (fun s => s = s₀ ∨ Shut p s₀.a s.a ∨ Shut q s₀.b s.b) ?_ hrun (.inl rfl)
    intro s op t hs _ hstep
    exact .inr (pairStep_shut h hs hstep)
  intro hopened
  rcases hinv with rfl | hshut | hshut
  · have hnone : callsSince s.a s.a = [] := callsSince_eq (List.nil_append _).symm
    have hone := hopened.callA
    rw [hnone] at hone
    exact nomatch hone
  · exact absurd hopened.callA (by rw [hshut.count]; decide)
  · exact absurd hopened.callB (by rw [hshut.count]; decide)

/-! ## One order that ends -/

/-- The state in which `b` has taken the SYN of `a` from the answer of `a`, and its acknowledgements
    are on their way. -/
structure Answered (s : TcpPair) (p q : Nat) (ca cb : TcpConn) : Prop where
  headA : Head p s.a ca
  headB : Head q s.b cb
  mirrors : Mirrors cb ca
  stateA : ca.state = .synReceived
  stateB : cb.state = .established
  wndA : ca.rcv.wnd = TCP_WINDOW_SIZE
  wndB : cb.rcv.wnd = TCP_WINDOW_SIZE
  resequence : cb.resequence = 0
  acked : cb.rcv.nxt = ca.snd.nxt
  toA : s.toA = [tcpSegment cb ca.rcv.nxt TCP_ACK [], tcpSegment cb ca.rcv.nxt TCP_ACK []]
  toB : s.toB = []

/-- `b` hears the answer of `a` before its SYN. -/
theorem crossing_answered (h : Crossed framesA framesB s₀ p q) :
    ∃ s ca cb, Delivered framesA framesB s₀ [.toA 0, .toB 1, .toB 0] s ∧ Answered s p q ca cb := by
  obtain ⟨x, hheadA, hstateA, hsndA, hrcvA, -, houtA⟩ := h.a.dialled
  obtain ⟨y, hheadB, hstateB, hsndB, hrcvB, hresB, houtB⟩ := h.b.dialled
  have hmirrors := h.mirrors
  obtain ⟨a, b, toA, toB⟩ := s₀
  dsimp only at *
  generalize a.conn p = ca at *
  generalize b.conn q = cb at *
  subst houtA houtB
  -- the SYN of `b` arrives, and `a` sends its own again
  obtain ⟨a₁, ca₁, hdelA, hca₁, hdoesA⟩ := hheadA.syn hmirrors hstateA y
  have hstep₁ : pairStep framesA framesB
    ⟨a, b, [tcpSegment cb y TCP_SYN []], [tcpSegment ca x TCP_SYN []]⟩ (.toA 0) =
      some ⟨a₁, b, [], [tcpSegment ca x TCP_SYN [],
        tcpSegment ca₁ (ca.snd.nxt - 1) (TCP_SYN ||| TCP_ACK) []]⟩ :=
    pairStep_toA framesB rfl hdelA hdoesA.sent rfl rfl
  have hmirrors₁ : Mirrors ca₁ cb := by
    rw [hca₁]
    exact ⟨hmirrors.symm.localAddr, hmirrors.symm.remoteAddr, hmirrors.symm.localPort,
      hmirrors.symm.remotePort⟩
  have hrcv₁ : ca₁.rcv.nxt = cb.snd.nxt := by
    rw [hca₁, hsndB]
  -- the second one overtakes the first
  obtain ⟨b₁, cb₁, hdelB, hcb₁, hdoesB⟩ :=
    hheadB.synAck hmirrors₁ hstateB (ca.snd.nxt - 1) (by rw [hsndB]) hrcv₁
  have hstep₂ : pairStep framesA framesB
      ⟨a₁, b, [], [tcpSegment ca x TCP_SYN [],
        tcpSegment ca₁ (ca.snd.nxt - 1) (TCP_SYN ||| TCP_ACK) []]⟩ (.toB 1) =
      some ⟨a₁, b₁, [tcpSegment cb₁ cb.snd.nxt TCP_ACK []], [tcpSegment ca x TCP_SYN []]⟩ :=
    pairStep_toB framesA rfl hdelB hdoesB.sent rfl rfl
  have hmirrors₂ : Mirrors ca cb₁ := by
    rw [hcb₁]
    exact ⟨hmirrors.symm.localAddr, hmirrors.symm.remoteAddr, hmirrors.symm.localPort,
      hmirrors.symm.remotePort⟩
  have hnext : ca.snd.nxt - 1 = x := by
    rw [hsndA]
    exact BitVec.add_sub_cancel x 1
  have hrcv₂ : cb₁.rcv.nxt = x + 1 := by
    rw [hcb₁, ← hnext]
  obtain ⟨b₂, hdelB', hdoesB'⟩ :=
    (hheadB.after hdoesB).overtaken hmirrors₂ (by rw [hcb₁]) hrcv₂
  have hsnd₂ : cb₁.snd.nxt = cb.snd.nxt := by
    rw [hcb₁]
  rw [hsnd₂] at hdoesB'
  have hstep₃ : pairStep framesA framesB
      ⟨a₁, b₁, [tcpSegment cb₁ cb.snd.nxt TCP_ACK []], [tcpSegment ca x TCP_SYN []]⟩ (.toB 0) =
      some ⟨a₁, b₂, [tcpSegment cb₁ cb.snd.nxt TCP_ACK [], tcpSegment cb₁ cb.snd.nxt TCP_ACK []],
        []⟩ :=
    pairStep_toB framesA rfl hdelB' hdoesB'.sent rfl rfl
  refine ⟨_, ca₁, cb₁, .cons trivial hstep₁ (.cons trivial hstep₂ (.cons trivial hstep₃ (.nil _))),
    ?_⟩
  constructor
  case headA => exact hheadA.after hdoesA
  case headB => exact (hheadB.after hdoesB).after hdoesB'
  case mirrors =>
    rw [hcb₁, hca₁]
    exact ⟨hmirrors.localAddr, hmirrors.remoteAddr, hmirrors.localPort, hmirrors.remotePort⟩
  case stateA => rw [hca₁]
  case stateB => rw [hcb₁]
  case wndA => rw [hca₁, hrcvA]
  case wndB => rw [hcb₁, hrcvB]
  case resequence => rw [hcb₁, hresB]
  case acked => rw [hrcv₂, hca₁, hsndA]
  case toA => rw [hrcv₁]
  case toB => rfl

/-- The acknowledgements are taken, or refused twice. -/
theorem Answered.ends {ca cb : TcpConn} (h : Answered s p q ca cb) :
    ∃ ops s', Delivered framesA framesB s ops s' ∧ s'.toA = [] ∧ s'.toB = [] := by
  have hheadA := h.headA
  have hheadB := h.headB
  have htoA := h.toA
  have htoB := h.toB
  obtain ⟨a, b, toA, toB⟩ := s
  dsimp only at *
  subst htoA htoB
  -- the comparison is the plain one, so it depends on the numbers chosen
  by_cases hacked : ca.snd.una ≤ cb.rcv.nxt ∧ cb.rcv.nxt ≤ ca.snd.nxt
  · obtain ⟨a₁, ca₁, hdel, hca₁, hdoes⟩ := hheadA.acked h.mirrors h.stateA h.wndA hacked
    have hstep₁ : pairStep framesA framesB ⟨a, b, [tcpSegment cb ca.rcv.nxt TCP_ACK [],
        tcpSegment cb ca.rcv.nxt TCP_ACK []], []⟩ (.toA 0) =
        some ⟨a₁, b, [tcpSegment cb ca.rcv.nxt TCP_ACK []], []⟩ :=
      pairStep_toA framesB rfl hdel hdoes.sent rfl rfl
    have hmirrors₁ : Mirrors cb ca₁ := by
      rw [hca₁]
      exact ⟨h.mirrors.localAddr, h.mirrors.remoteAddr, h.mirrors.localPort, h.mirrors.remotePort⟩
    have hrcv₁ : ca₁.rcv.nxt = ca.rcv.nxt := by
      rw [hca₁]
    obtain ⟨a₂, ca₂, hdel', hdoes'⟩ := (hheadA.after hdoes).ackedAll hmirrors₁ (by rw [hca₁])
      (by rw [hca₁, h.wndA]) (by rw [hca₁, h.acked])
    rw [hrcv₁] at hdel'
    have hstep₂ : pairStep framesA framesB
      ⟨a₁, b, [tcpSegment cb ca.rcv.nxt TCP_ACK []], []⟩ (.toA 0) =
        some ⟨a₂, b, [], []⟩ := pairStep_toA framesB rfl hdel' hdoes'.sent rfl rfl
    exact ⟨_, _, .cons trivial hstep₁ (.cons trivial hstep₂ (.nil _)), rfl, rfl⟩
  · -- the number behind the last one is 0: `a` resets what `b` has opened
    -- `a` answers both copies with a reset
    obtain ⟨a₁, hdel, hdoes⟩ := hheadA.refused h.mirrors h.stateA h.wndA hacked
    have hstep₁ : pairStep framesA framesB ⟨a, b, [tcpSegment cb ca.rcv.nxt TCP_ACK [],
        tcpSegment cb ca.rcv.nxt TCP_ACK []], []⟩ (.toA 0) =
        some ⟨a₁, b, [tcpSegment cb ca.rcv.nxt TCP_ACK []],
          [tcpSegment ca cb.rcv.nxt TCP_RST []]⟩ :=
      pairStep_toA framesB rfl hdel hdoes.sent rfl rfl
    obtain ⟨a₂, hdel', hdoes'⟩ := (hheadA.after hdoes).refused h.mirrors h.stateA h.wndA hacked
    have hstep₂ : pairStep framesA framesB ⟨a₁, b, [tcpSegment cb ca.rcv.nxt TCP_ACK []],
        [tcpSegment ca cb.rcv.nxt TCP_RST []]⟩ (.toA 0) =
        some ⟨a₂, b, [], [tcpSegment ca cb.rcv.nxt TCP_RST [],
          tcpSegment ca cb.rcv.nxt TCP_RST []]⟩ :=
      pairStep_toA framesB rfl hdel' hdoes'.sent rfl rfl
    -- the first reset ends the connection of `b`, the second one finds it closed
    obtain ⟨b₁, cb₁, calls, hdelB, hclosed, hmirrors₁, hdoesB⟩ :=
      hheadB.reset h.mirrors.symm h.stateB h.wndB h.resequence
    have hstep₃ : pairStep framesA framesB ⟨a₂, b, [], [tcpSegment ca cb.rcv.nxt TCP_RST [],
        tcpSegment ca cb.rcv.nxt TCP_RST []]⟩ (.toB 0) =
        some ⟨a₂, b₁, [], [tcpSegment ca cb.rcv.nxt TCP_RST []]⟩ :=
      pairStep_toB framesA rfl hdelB hdoesB.sent rfl rfl
    obtain ⟨b₂, hdelB', hdoesB'⟩ := (hheadB.after hdoesB).dropped hmirrors₁ hclosed cb.rcv.nxt
    have hstep₄ : pairStep framesA framesB
      ⟨a₂, b₁, [], [tcpSegment ca cb.rcv.nxt TCP_RST []]⟩ (.toB 0) =
        some ⟨a₂, b₂, [], []⟩ := pairStep_toB framesA rfl hdelB' hdoesB'.sent rfl rfl
    exact ⟨_, _,
      .cons trivial hstep₁ (.cons trivial hstep₂
      (.cons trivial hstep₃ (.cons trivial hstep₄ (.nil _)))),
      rfl, rfl⟩

/-- Whatever the initial sequence numbers are, two hosts that call each other never open the
    connection: there is an order of delivery that ends, and none after which both have called
    `on_connect`. -/
theorem crossing_never_opens (framesA framesB : Nat → Nat) (s₀ : TcpPair) (p q : Nat)
    (h : Crossed framesA framesB s₀ p q) :
    ¬ CrossingOpens framesA framesB s₀ p q ∧
      ∀ ops s, Delivered framesA framesB s₀ ops s → ¬ Opened s₀ s p q := by
  refine ⟨fun hopens => ?_, fun ops s hrun => delivered_not_opened h hrun⟩
  obtain ⟨s, ca, cb, hrun, hanswered⟩ := crossing_answered h
  obtain ⟨ops, s', hrest, htoA, htoB⟩ := hanswered.ends
  have hall := hrun.append hrest
  exact delivered_not_opened h hall (hopens _ s' hall htoA htoB)

/-- The first connections of two hosts after boot call each other. -/
def TcpPair.calling : Option TcpPair :=
  let b := (tcpNewConn nextFrame TcpWorld.callee).2.setCallbacks 0x1000 true true true true
  (tcpConnect nextFrame TcpWorld.caller 0x1000 (.ofBytes 192 0 2 1) 1).bind fun ra =>
    (tcpConnect nextFrame b 0x1000 (.ofBytes 10 0 2 15) 1).bind fun rb =>
      if ra.1 ∧ rb.1 then some ⟨ra.2, rb.2, segsSince b rb.2, segsSince TcpWorld.caller ra.2⟩
        else none

/-- The addresses and the ports of a connection. -/
def TcpConn.ends (c : TcpConn) : Ipv4Addr × BitVec 16 × Ipv4Addr × BitVec 16 :=
  (c.localAddr, c.localPort, c.remoteAddr, c.remotePort)

/-- Both ends have called, and their SYNs are on the way. -/
theorem calling_crossed (h : TcpPair.calling = some s₀) (hends : (s₀.b.conn 0x1000).ends =
    ((s₀.a.conn 0x1000).remoteAddr, (s₀.a.conn 0x1000).remotePort, (s₀.a.conn 0x1000).localAddr,
      (s₀.a.conn 0x1000).localPort)) :
    Crossed nextFrame nextFrame s₀ 0x1000 0x1000 := by
  unfold TcpPair.calling at h
  dsimp only at h
  -- the two calls, one after the other
  rw [Option.bind_eq_some_iff] at h
  obtain ⟨⟨calledA, a⟩, hA, h⟩ := h
  rw [Option.bind_eq_some_iff] at h
  obtain ⟨⟨calledB, b⟩, hB, h⟩ := h
  dsimp only at h
  split at h
  · rename_i hcalled
    obtain ⟨rfl, rfl⟩ := hcalled
    obtain rfl := Option.some.inj h
    simp only [TcpConn.ends, Prod.mk.injEq] at hends
    exact ⟨⟨by decide, _, _, _, rfl, hA, rfl⟩, ⟨by decide, _, _, _, rfl, hB, rfl⟩,
      ⟨hends.1, hends.2.2.1, hends.2.1, hends.2.2.2⟩⟩
  · exact nomatch h

/-- Two hosts after boot that call each other. -/
theorem crossing_never_opens_boot :
    ∃ s₀, TcpPair.calling = some s₀ ∧ ¬ CrossingOpens nextFrame nextFrame s₀ 0x1000 0x1000 := by
  have hexec : TcpPair.calling.map (fun s => decide ((s.b.conn 0x1000).ends =
      ((s.a.conn 0x1000).remoteAddr, (s.a.conn 0x1000).remotePort, (s.a.conn 0x1000).localAddr,
        (s.a.conn 0x1000).localPort))) = some true := by decide +kernel
  obtain ⟨s₀, hcalling, hends⟩ := Option.map_eq_some_iff.mp hexec
  exact ⟨s₀, hcalling, (crossing_never_opens nextFrame nextFrame s₀ 0x1000 0x1000
    (calling_crossed hcalling (of_decide_eq_true hends))).1⟩

/-- The host that gets the SYN first has no call of `on_connect` when nothing is in flight any more.
    -/
theorem crossing_calls_one_side :
    ¬ ∀ s₀, TcpPair.calling = some s₀ → CrossingOpens nextFrame nextFrame s₀ 0x1000 0x1000 := by
  intro hopens
  have hexec : (TcpPair.calling.bind fun s₀ =>
      (Run.exec (pairStep nextFrame nextFrame) (fun _ _ => True) s₀ [.toA 0, .toB 1, .toB 0,
        .toA 0, .toA 0]).map
        fun s => (s.toA.length, s.toB.length, (callsSince s₀.a s.a).count (.onConnect 0x1000))) =
      some (0, 0, 0) := by decide +kernel
  obtain ⟨s₀, hcalling, hexec⟩ := Option.bind_eq_some_iff.mp hexec
  obtain ⟨s, hrun, hres⟩ := Option.map_eq_some_iff.mp hexec
  simp only [Prod.mk.injEq] at hres
  obtain ⟨htoA, htoB, hcount⟩ := hres
  have hopened := hopens s₀ hcalling _ s (Run.of_exec hrun) (List.length_eq_zero_iff.mp htoA)
    (List.length_eq_zero_iff.mp htoB)
  exact absurd hopened.callA (by rw [hcount]; decide)

end MishaOS
