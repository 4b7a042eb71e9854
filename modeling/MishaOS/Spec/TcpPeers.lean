import Mathlib.Data.BitVec
import MishaOS.Spec.TcpRelease
import MishaOS.Spec.TcpWire

/-!
# Two TCP hosts

What one host sends is delivered to another one that runs the same code.  Of a
host only the connection concerned, the head of `tcp_conn_list`, the segments
sent and the user's functions called are followed: `Does` says what a call does
to these.

## Key results

- `tcpDeliver_segment`: what becomes of a segment that a host has sent.
- `tcpDeliver_bare`: the same for one without data.
- `tcpConnect_does`: the SYN of `tcp_connect`.
-/

namespace MishaOS

variable {frames : Nat → Nat} {w w' w'' : TcpWorld} {conn : Nat} {c c' : TcpConn}

/-! ## What a call does -/

/-- The segment that an event hands to the network. -/
def TcpEvent.seg? : TcpEvent → Option TcpSegment
  | .ipSend _ _ _ _ seg => some seg
  | _ => none

/-- The call of one of the user's functions. -/
def TcpEvent.isCall : TcpEvent → Bool
  | .onConnect _ | .onError _ _ | .onState _ _ _ | .onData _ _ _ => true
  | _ => false

/-- All segments sent, newest first. -/
def TcpWorld.sent (w : TcpWorld) : List TcpSegment := w.log.filterMap TcpEvent.seg?

/-- All calls of the user's functions, newest first. -/
def TcpWorld.calls (w : TcpWorld) : List TcpEvent := w.log.filter TcpEvent.isCall

/-- What was sent between two states of a host. -/
def segsSince (w w' : TcpWorld) : List TcpSegment := w'.sent.take (w'.sent.length - w.sent.length)

/-- What was called between two states of a host. -/
def callsSince (w w' : TcpWorld) : List TcpEvent := w'.calls.take (w'.calls.length - w.calls.length)

/-- From `w` to `w'` the structure of the connection becomes `c`; the segments `segs` are
    sent and the user's functions `calls` called. -/
structure Does (conn : Nat) (w w' : TcpWorld) (c : TcpConn) (segs : List TcpSegment)
    (calls : List TcpEvent) : Prop where
  conn : w'.conn conn = c
  list : w'.tcpConnList = w.tcpConnList
  sent : w'.sent = segs ++ w.sent
  calls : w'.calls = calls ++ w.calls

variable {segs segs' : List TcpSegment} {calls calls' : List TcpEvent}

/-- Nothing is done. -/
theorem Does.refl (hc : w.conn conn = c) : Does conn w w c [] [] := ⟨hc, rfl, rfl, rfl⟩

/-- Two things are done one after the other. -/
theorem Does.trans (h : Does conn w w' c segs calls) (h' : Does conn w' w'' c' segs' calls') :
    Does conn w w'' c' (segs' ++ segs) (calls' ++ calls) where
  conn := h'.conn
  list := h'.list.trans h.list
  sent := by rw [h'.sent, h.sent, List.append_assoc]
  calls := by rw [h'.calls, h.calls, List.append_assoc]

/-- The segments that have been sent. -/
theorem segsSince_eq (h : w'.sent = segs ++ w.sent) : segsSince w w' = segs := by
  rw [segsSince, h, List.length_append, Nat.add_sub_cancel, List.take_left]

/-- The callbacks that have been called. -/
theorem callsSince_eq (h : w'.calls = calls ++ w.calls) : callsSince w w' = calls := by
  rw [callsSince, h, List.length_append, Nat.add_sub_cancel, List.take_left]

/-- The connection is written. -/
theorem does_setConn (w : TcpWorld) (conn : Nat) (c : TcpConn) :
    Does conn w (w.setConn conn c) c [] [] :=
  ⟨by rw [TcpWorld.setConn_conn, if_pos rfl], rfl, rfl, rfl⟩

/-- Its send state is written. -/
theorem setSnd_does (hc : w.conn conn = c) (x : TcpSndState) :
    Does conn w (w.setSnd conn x) { c with snd := x } [] [] := by
  subst hc
  exact does_setConn w conn { w.conn conn with snd := x }

/-- Its receive state is written. -/
theorem setRcv_does (hc : w.conn conn = c) (x : TcpRcvState) :
    Does conn w (w.setRcv conn x) { c with rcv := x } [] [] := by
  subst hc
  exact does_setConn w conn { w.conn conn with rcv := x }

/-- The buffers are no part of it. -/
theorem does_setBufs (hc : w.conn conn = c) (b : BufPool) : Does conn w (w.setBufs b) c [] [] :=
  ⟨hc, rfl, rfl, rfl⟩

/-- A user's function is called if it is set. -/
theorem does_call (hc : w.conn conn = c) {e : TcpEvent} (he : e.isCall = true)
    (hseg : e.seg? = none) (set : Bool) :
    Does conn w (if set then w.emit e else w) c [] (if set then [e] else []) := by
  cases set with
  | false => exact .refl hc
  | true => exact ⟨hc, rfl, List.filterMap_cons_none hseg, List.filter_cons_of_pos he⟩

/-- A segment is sent. -/
theorem tcpTransmit_does (frames : Nat → Nat) (hc : w.conn conn = c) (c' : TcpConn) (p : Nat)
    (seq : BitVec 32) (flags : BitVec 8)
    (data : List Byte) :
    Does conn w (tcpTransmit frames w p c' seq flags data) c [tcpSegment c' seq flags data] [] :=
  ⟨hc, rfl, rfl, rfl⟩

/-- `tcp_send_packet` sends a segment and moves `snd.nxt`. -/
theorem tcpSendPacket_does (frames : Nat → Nat) (hc : w.conn conn = c) (seq : BitVec 32)
    (flags : BitVec 8) (data : List Byte) :
    Does conn w (tcpSendPacket frames w conn seq flags data)
      { c with snd := { c.snd with nxt := tcpSndNxt c.snd.nxt flags data } }
      [tcpSegment c seq flags data] [] := by
  subst hc
  exact (tcpTransmit_does frames rfl (w.conn conn) conn seq flags data).trans
    (does_setConn _ conn _)

/-- An acknowledgement is sent. -/
theorem tcpSendAck_does (frames : Nat → Nat) (hc : w.conn conn = c) :
    Does conn w (tcpSendAck frames w conn) c [tcpSegment c c.snd.nxt TCP_ACK []] [] := by
  have hsent := tcpSendPacket_does frames hc c.snd.nxt TCP_ACK []
  rw [tcpSndNxt_nil (by decide)] at hsent
  unfold tcpSendAck
  rw [hc]
  exact hsent

/-- The state is changed, and `on_state` is told. -/
theorem tcpSetState_does (hc : w.conn conn = c) (state : TcpState) :
    Does conn w (tcpSetState w conn state) { c with state := state } []
      (if c.onState then [.onState conn c.state state] else []) := by
  subst hc
  have hset := does_setConn w conn { w.conn conn with state := state }
  have hcall := does_call hset.conn (e := .onState conn (w.conn conn).state state) rfl rfl
    (w.conn conn).onState
  have hboth := hset.trans hcall
  rw [List.append_nil, List.append_nil] at hboth
  have hon : ((w.setState conn state).conn conn).onState = (w.conn conn).onState := by
    rw [TcpWorld.setState, TcpWorld.setConn_conn, if_pos rfl]
  unfold tcpSetState
  dsimp only
  rw [hon]
  exact hboth

/-- The connection is put on the free list. -/
theorem tcpFreeLink_does (hc : w.conn conn = c) :
    Does conn w (tcpFreeLink w conn) { c with next := w.freeConnList, prev := 0 } [] [] := by
  subst hc
  have hlog := tcpFreeLink_log w conn
  refine ⟨by rw [tcpFreeLink_conn, if_pos rfl], ?_, by rw [TcpWorld.sent, hlog]; rfl,
    by rw [TcpWorld.calls, hlog]; rfl⟩
  unfold tcpFreeLink
  dsimp only
  split <;> rfl

/-- `tcp_free` of an open connection. -/
theorem tcpFree_does (hc : w.conn conn = c) (hopen : c.state ≠ .closed)
    (h : tcpFree w conn = some w') :
    Does conn w w' { c with state := .closed, next := w.freeConnList, prev := 0 } []
      (if c.onState then [.onState conn c.state .closed] else []) := by
  subst hc
  unfold tcpFree at h
  rw [if_pos hopen] at h
  obtain ⟨b, -, rfl⟩ := Option.map_eq_some_iff.mp h
  have hstate := tcpSetState_does (rfl : w.conn conn = w.conn conn) .closed
  have hlink := tcpFreeLink_does (w := (tcpSetState w conn .closed).setBufs b) hstate.conn
  have hfree : ((tcpSetState w conn .closed).setBufs b).freeConnList = w.freeConnList :=
    (tcpSetState_frame w conn .closed).2.2.1
  rw [hfree] at hlink
  exact (hstate.trans (does_setBufs hstate.conn b)).trans hlink

/-- `on_error` is told, and the connection is released. -/
theorem tcpError_does (hc : w.conn conn = c) (hopen : c.state ≠ .closed) {error : Nat}
    (h : tcpError w conn error = some w') :
    Does conn w w' { c with state := .closed, next := w.freeConnList, prev := 0 } []
      ((if c.onState then [.onState conn c.state .closed] else []) ++
        (if c.onError then [.onError conn error] else [])) := by
  subst hc
  have hcall := does_call (rfl : w.conn conn = w.conn conn) (e := .onError conn error) rfl rfl
    (w.conn conn).onError
  have hfree := tcpFree_does hcall.conn hopen h
  have hlist : (if (w.conn conn).onError then w.emit (.onError conn error) else w).freeConnList =
      w.freeConnList := by
    split <;> rfl
  rw [hlist] at hfree
  exact hcall.trans hfree

/-! ## Delivery -/

/-- A segment arrives. -/
def deliverSegment (frames : Nat → Nat) (seg : TcpSegment) (w : TcpWorld) : Option TcpWorld :=
  tcpDeliver frames w seg.src seg.dst IP_PROTOCOL_TCP seg.toBytes

/-- The head of the list is found. -/
theorem tcpFind_head (h0 : conn ≠ 0) (hlist : w.tcpConnList = conn) (hc : w.conn conn = c) :
    tcpFind w c.remoteAddr c.remotePort c.localAddr c.localPort = some conn := by
  obtain ⟨n, hn⟩ : ∃ n, walkFuel = n + 1 := ⟨4294967295, rfl⟩
  rw [tcpFind, hn, hlist, tcpFindFrom, if_neg h0, if_pos (by rw [hc]; exact ⟨rfl, rfl, rfl, rfl⟩)]

/-- What becomes of a segment that `c` has sent: it passes the tests, and buffers apart it
    is processed in `w`. -/
theorem tcpDeliver_segment (frames : Nat → Nat) (w : TcpWorld) (c : TcpConn) (seq : BitVec 32)
    (flags : BitVec 8)
    (data : List Byte) (hdata : data.length ≤ 1460) :
    ∃ b packet, (b.buf packet).data = tcpSwap (tcpSegment c seq flags data).toBytes ∧
      (b.buf packet).deficit = 0 ∧
      tcpDeliver frames w c.localAddr c.remoteAddr IP_PROTOCOL_TCP
        (tcpSegment c seq flags data).toBytes =
        ((tcpFind w c.localAddr c.localPort c.remoteAddr c.remotePort).bind fun conn =>
          if conn = 0 ∨ (w.conn conn).state = .closed then
            tcpRecvClosed frames (w.setBufs b) c.localAddr c.remoteAddr
              (tcpSegment c seq flags data).header
              (BitVec.ofNat 16 (tcpSegment c seq flags data).toBytes.length)
          else tcpRecvConn frames (w.setBufs b) conn
            (tcpSegment c seq flags data).header packet).map
            fun w => w.setBufs (netFreeBuf w.bufs packet) := by
  -- the segment is as long as its header says
  have hdeficit := netAllocBuf_deficit frames w.bufs
  have hlen : (tcpSwap (tcpSegment c seq flags data).toBytes).length =
      (tcpSegment c seq flags data).toBytes.length := by
    apply length_tcpSwap
    rw [tcpSegment_length]
    omega
  unfold tcpDeliver
  dsimp only
  generalize (netAllocBuf frames w.bufs).1 = packet at *
  generalize (netAllocBuf frames w.bufs).2 = b at *
  refine ⟨b.setBuf packet { b.buf packet
    with data := tcpSwap (tcpSegment c seq flags data).toBytes }, packet,
    by simp, by simpa using hdeficit, ?_⟩
  have hbuf : ((w.setBufs (b.setBuf packet { b.buf packet with
      data := (tcpSegment c seq flags data).toBytes })).bufs.buf packet).data =
        (tcpSegment c seq flags data).toBytes := by
    simp [TcpWorld.setBufs]
  -- the tests of `tcp_recv` pass, the rest is the search for a connection
  rw [tcpRecv_segment frames hdata hbuf]
  unfold tcpRecvChecked
  have hworld :
    (w.setBufs (b.setBuf packet { b.buf packet
    with data := (tcpSegment c seq flags data).toBytes })).setBuf
      packet { (w.setBufs (b.setBuf packet { b.buf packet with
        data := (tcpSegment c seq flags data).toBytes })).bufs.buf packet with
          data := tcpSwap (tcpSegment c seq flags data).toBytes } =
      w.setBufs (b.setBuf packet { b.buf packet
        with data := tcpSwap (tcpSegment c seq flags data).toBytes }) := by
    simp [TcpWorld.setBufs, TcpWorld.setBuf]
  dsimp only
  rw [hworld, tcpFind_setBufs, hlen]
  rfl

/-! ## Segments without data -/

/-- `tcp_recv_general` for a segment without data. -/
def tcpRecvBareGeneral (frames : Nat → Nat) (w : TcpWorld) (conn : Nat) (header : TcpHeader) :
    Option TcpWorld :=
  if !inWindow (w.conn conn) header.seq 0 then
    if hasFlag header.flags TCP_RST then some w else some (tcpSendAck frames w conn)
  else if hasFlag header.flags TCP_RST then tcpRecvRst w conn
  else (if hasFlag header.flags TCP_SYN then tcpRecvSyn frames w conn else some w).bind fun w₁ =>
    if !hasFlag header.flags TCP_ACK then some w₁
    else (tcpRecvAck frames w₁ conn header).map fun w₂ =>
      if hasFlag header.flags TCP_FIN then tcpRecvFin frames w₂ conn header else w₂

/-- What `tcp_recv_general` does with a segment without payload. -/
theorem tcpRecvGeneral_bare {header : TcpHeader} {packet : Nat}
    (hlen : (w.bufs.buf packet).len32 = 0) :
    tcpRecvGeneral frames w conn header packet = tcpRecvBareGeneral frames w conn header := by
  rw [tcpRecvGeneral_eq, hlen]
  unfold tcpRecvAfterSyn tcpRecvBareGeneral
  simp only [ne_eq, not_true_eq_false, if_false, Option.map_eq_bind]
  rfl

/-- A segment without data, for an open connection. -/
theorem tcpDeliver_bare (frames : Nat → Nat) (seq : BitVec 32) (flags : BitVec 8)
    (hfind : tcpFind w c.localAddr c.localPort c.remoteAddr c.remotePort = some conn)
    (h0 : conn ≠ 0)
    (hopen : (w.conn conn).state ≠ .closed) :
    ∃ (b : BufPool) (packet : Nat), tcpDeliver frames w c.localAddr c.remoteAddr IP_PROTOCOL_TCP
      (tcpSegment c seq flags []).toBytes =
      (match (w.conn conn).state with
      | .synSent => tcpRecvSynSent frames (w.setBufs b) conn (tcpSegment c seq flags []).header
      | .listen => some (w.setBufs b)
      | _ => tcpRecvBareGeneral frames (w.setBufs b) conn (tcpSegment c seq flags []).header).map
        fun w' : TcpWorld => w'.setBufs (netFreeBuf w'.bufs packet) := by
  obtain ⟨b, packet, hdata, hdeficit, hdeliver⟩ :=
    tcpDeliver_segment frames w c seq flags [] (by simp)
  rw [hfind, Option.bind_some, if_neg (by simp [h0, hopen])] at hdeliver
  have hstate : ((w.setBufs b).conn conn).state = (w.conn conn).state := rfl
  have hlen := tcpSegment_length c seq flags []
  have hpayload := tcpSegment_payload c seq flags []
  have hheader := tcpSegment_headerLen c seq flags []
  -- behind the header there is nothing left
  obtain ⟨buf, hbuf⟩ : ∃ buf,
    buf = { (b.buf packet).advance (tcpSegment c seq flags []).header.headerLen with
      seq := (tcpSegment c seq flags []).header.seq
      flags := (tcpSegment c seq flags []).header.flags.zeroExtend 32 } := ⟨_, rfl⟩
  have hempty : buf.len32 = 0 := by
    rw [hbuf, NetBuf.len32, NetBuf.advance]
    dsimp only
    rw [hdata, hpayload, hdeficit, length_tcpSwap (by omega), hlen, hheader]
    simp
  have hgeneral : tcpRecvGeneral frames ((w.setBufs b).setBuf packet buf) conn
    (tcpSegment c seq flags []).header
      packet = tcpRecvBareGeneral frames (w.setBufs (b.setBuf packet buf)) conn
        (tcpSegment c seq flags []).header := by
    apply tcpRecvGeneral_bare
    simpa [TcpWorld.setBuf, TcpWorld.setBufs] using hempty
  rw [hdeliver]
  unfold tcpRecvConn
  rw [hstate]
  cases hs : (w.conn conn).state
  case synSent => exact ⟨b, packet, rfl⟩
  case listen => exact ⟨b, packet, rfl⟩
  all_goals
    refine ⟨b.setBuf packet buf, packet, ?_⟩
    dsimp only
    rw [← hgeneral, hbuf]
    rfl

/-- A segment without data, for a connection in `TCP_SYN_SENT`: what is done to it. -/
theorem tcpDeliver_synSent (frames : Nat → Nat) (seq : BitVec 32) (flags : BitVec 8)
    (hfind : tcpFind w c.localAddr c.localPort c.remoteAddr c.remotePort = some conn)
    (h0 : conn ≠ 0)
    (hstate : (w.conn conn).state = .synSent)
    (h : ∀ b, ∃ u, tcpRecvSynSent frames (w.setBufs b) conn (tcpSegment c seq flags []).header =
      some u ∧
      Does conn (w.setBufs b) u c' segs calls) :
    ∃ u, tcpDeliver frames w c.localAddr c.remoteAddr IP_PROTOCOL_TCP
      (tcpSegment c seq flags []).toBytes =
      some u ∧ Does conn w u c' segs calls := by
  obtain ⟨b, packet, hdeliver⟩ := tcpDeliver_bare frames seq flags hfind h0 (by rw [hstate]; decide)
  obtain ⟨u, hu, hdoes⟩ := h b
  rw [hstate] at hdeliver
  dsimp only at hdeliver
  rw [hu, Option.map_some] at hdeliver
  exact ⟨_, hdeliver, hdoes.conn, hdoes.list, hdoes.sent, hdoes.calls⟩

/-- A bare segment for the connection gets to `tcp_recv_general`. -/
theorem tcpDeliver_general_eq (frames : Nat → Nat) (seq : BitVec 32) (flags : BitVec 8)
    (hfind : tcpFind w c.localAddr c.localPort c.remoteAddr c.remotePort = some conn)
    (h0 : conn ≠ 0)
    (hstate : (w.conn conn).state ∉ [.closed, .listen, .synSent]) :
    ∃ (b : BufPool) (packet : Nat),
      tcpDeliver frames w c.localAddr c.remoteAddr IP_PROTOCOL_TCP
        (tcpSegment c seq flags []).toBytes =
        (tcpRecvBareGeneral frames (w.setBufs b) conn (tcpSegment c seq flags []).header).map
          fun w' : TcpWorld => w'.setBufs (netFreeBuf w'.bufs packet) := by
  simp only [List.mem_cons, List.not_mem_nil, or_false, not_or] at hstate
  obtain ⟨b, packet, hdeliver⟩ := tcpDeliver_bare frames seq flags hfind h0 hstate.1
  refine ⟨b, packet, ?_⟩
  rw [hdeliver]
  -- the state is neither closed nor the one of a caller
  split
  · rename_i hs
    exact absurd hs hstate.2.2
  · rename_i hs
    exact absurd hs hstate.2.1
  · rfl

/-- The same behind `TCP_SYN_SENT`. -/
theorem tcpDeliver_general (frames : Nat → Nat) (seq : BitVec 32) (flags : BitVec 8)
    (hfind : tcpFind w c.localAddr c.localPort c.remoteAddr c.remotePort = some conn)
    (h0 : conn ≠ 0)
    (hstate : (w.conn conn).state ∉ [.closed, .listen, .synSent])
    (h : ∀ b, ∃ u, tcpRecvBareGeneral frames (w.setBufs b) conn (tcpSegment c seq flags []).header =
      some u ∧
      Does conn (w.setBufs b) u c' segs calls) :
    ∃ u, tcpDeliver frames w c.localAddr c.remoteAddr IP_PROTOCOL_TCP
      (tcpSegment c seq flags []).toBytes =
      some u ∧ Does conn w u c' segs calls := by
  obtain ⟨b, packet, hdeliver⟩ := tcpDeliver_general_eq frames seq flags hfind h0 hstate
  obtain ⟨u, hu, hdoes⟩ := h b
  rw [hu, Option.map_some] at hdeliver
  exact ⟨_, hdeliver, hdoes.conn, hdoes.list, hdoes.sent, hdoes.calls⟩

/-- `r` is the other end of the connection `c`. -/
structure Mirrors (r c : TcpConn) : Prop where
  localAddr : r.localAddr = c.remoteAddr
  remoteAddr : r.remoteAddr = c.localAddr
  localPort : r.localPort = c.remotePort
  remotePort : r.remotePort = c.localPort

/-- A segment of the other end finds the connection. -/
theorem Mirrors.tcpFind {r : TcpConn} (h : Mirrors r c)
    (hfind : tcpFind w c.remoteAddr c.remotePort c.localAddr c.localPort = some conn) :
    MishaOS.tcpFind w r.localAddr r.localPort r.remoteAddr r.remotePort = some conn := by
  rw [h.localAddr, h.localPort, h.remoteAddr, h.remotePort, hfind]

/-! ## The SYN of `tcp_connect` -/

/-- The structure that `tcp_connect` leaves behind. -/
structure Dialled (w : TcpWorld) (conn : Nat) (addr : Ipv4Addr) (port : BitVec 16)
    (c : TcpConn) : Prop where
  state : c.state = .synSent
  remoteAddr : c.remoteAddr = addr
  remotePort : c.remotePort = port
  snd : ∃ isn, c.snd = ⟨isn, isn + 1, TCP_WINDOW_SIZE, 0, 0, 0, isn⟩
  rcv : c.rcv = ⟨0, TCP_WINDOW_SIZE, 0, 0⟩
  resequence : c.resequence = (w.conn conn).resequence
  onConnect : c.onConnect = (w.conn conn).onConnect
  onState : c.onState = (w.conn conn).onState

/-- `tcp_connect` sends a SYN. -/
theorem tcpConnect_does {addr : Ipv4Addr} {port : BitVec 16}
    (h : tcpConnect frames w conn addr port = some (true, w')) :
    Dialled w conn addr port (w'.conn conn) ∧ w'.tcpConnList = conn ∧
      segsSince w w' = [tcpSegment (w'.conn conn) (w'.conn conn).snd.iss TCP_SYN []] := by
  obtain ⟨route, -, hr⟩ := Option.map_eq_some_iff.mp h
  -- without a route `tcp_connect` returns false
  by_cases hroute : route = 0
  · simp [hroute] at hr
  rw [if_neg hroute] at hr
  obtain rfl := (Prod.mk.inj hr).2
  set w₁ : TcpWorld := { w with nextPort := (netEphemeralPort w.nextPort).2 }.setConn conn
    (tcpConnectConn w conn route addr port) with hw₁
  obtain ⟨prev, hprev⟩ := tcpConnectLink_conn w₁ conn conn
  rw [if_pos rfl] at hprev
  have hc : w₁.conn conn = tcpConnectConn w conn route addr port := by
    rw [hw₁, TcpWorld.setConn_conn, if_pos rfl]
  rw [hc] at hprev
  -- the SYN, then the state
  have hsend :=
    tcpSendPacket_does frames hprev ((tcpConnectLink w₁ conn).conn conn).snd.nxt TCP_SYN []
  have hdoes := hsend.trans (tcpSetState_does hsend.conn .synSent)
  have hsent : (tcpConnectLink w₁ conn).sent = w.sent := by
    rw [TcpWorld.sent, tcpConnectLink_log]
    rfl
  -- the first number is taken from the clock
  have hnxt : ((tcpConnectLink w₁ conn).conn conn).snd.nxt = w.baseIsn + w.ticks * 250 := by
    rw [hprev]
    rfl
  refine ⟨?_, hdoes.list, ?_⟩
  · rw [hdoes.conn]
    refine ⟨rfl, rfl, rfl, ⟨w.baseIsn + w.ticks * 250, ?_⟩, rfl, rfl, rfl, rfl⟩
    -- the SYN counts one number
    have hflags : hasFlag TCP_SYN (TCP_SYN ||| TCP_FIN) = true := by decide
    simp [tcpConnectConn, tcpSndNxt, hflags]
  · apply segsSince_eq
    rw [hdoes.conn, hdoes.sent, hsent, hnxt]
    rfl

/-! ## What a segment without data does -/

variable {header : TcpHeader}

/-- Outside the window a segment is answered, unless it is a RST. -/
theorem tcpRecvBareGeneral_outside (frames : Nat → Nat) (hc : w.conn conn = c)
    (hwin : inWindow c header.seq 0 = false) :
    ∃ u, tcpRecvBareGeneral frames w conn header = some u ∧
      Does conn w u c (if hasFlag header.flags TCP_RST then []
        else [tcpSegment c c.snd.nxt TCP_ACK []]) [] := by
  unfold tcpRecvBareGeneral
  rw [hc, hwin]
  cases hasFlag header.flags TCP_RST with
  | true => exact ⟨w, rfl, .refl hc⟩
  | false => exact ⟨_, rfl, tcpSendAck_does frames hc⟩

/-- Nothing but an acknowledgement in the window. -/
theorem tcpRecvBareGeneral_ack (frames : Nat → Nat) (hc : w.conn conn = c)
    (hwin : inWindow c header.seq 0 = true)
    (hflags : header.flags = TCP_ACK) :
    tcpRecvBareGeneral frames w conn header = tcpRecvAck frames w conn header := by
  have hrst : hasFlag TCP_ACK TCP_RST = false := by decide
  have hsyn : hasFlag TCP_ACK TCP_SYN = false := by decide
  have hack : hasFlag TCP_ACK TCP_ACK = true := by decide
  have hfin : hasFlag TCP_ACK TCP_FIN = false := by decide
  unfold tcpRecvBareGeneral
  rw [hc, hwin, hflags, hrst, hsyn, hack, hfin]
  simp

/-- A reset in the window. -/
theorem tcpRecvBareGeneral_rst (frames : Nat → Nat) (hc : w.conn conn = c)
    (hwin : inWindow c header.seq 0 = true)
    (hrst : hasFlag header.flags TCP_RST = true) :
    tcpRecvBareGeneral frames w conn header = tcpRecvRst w conn := by
  unfold tcpRecvBareGeneral
  rw [hc, hwin, hrst]
  rfl

/-- The acknowledgement that ends the handshake. -/
theorem tcpRecvAck_synAcked (frames : Nat → Nat) (hc : w.conn conn = c)
    (hstate : c.state = .synReceived)
    (hacked : synAckOk c.snd header) :
    ∃ u, tcpRecvAck frames w conn header = some u ∧
      Does conn w u { c with
        state := .established
        snd := { c.snd with
          wnd := header.windowSize.zeroExtend 32
          wl1 := header.seq
          wl2 := header.ack } } [] (if c.onState then [.onState conn .synReceived .established]
            else []) := by
  subst hc
  unfold tcpRecvAck
  rw [hstate]
  dsimp only
  rw [if_pos hacked]
  refine ⟨_, rfl, ?_⟩
  -- `snd` first, then the state with its callback
  have hset := does_setConn w conn { w.conn conn with snd := { (w.conn conn).snd with
    wnd := header.windowSize.zeroExtend 32, wl1 := header.seq, wl2 := header.ack } }
  have hboth := hset.trans (tcpSetState_does hset.conn .established)
  rw [hstate] at hboth
  rw [List.append_nil, List.append_nil] at hboth
  exact hboth

/-- A wrong acknowledgement of the SYN is answered with a reset. -/
theorem tcpRecvAck_synRejected (frames : Nat → Nat) (hc : w.conn conn = c)
    (hstate : c.state = .synReceived)
    (hacked : ¬ synAckOk c.snd header) :
    ∃ u, tcpRecvAck frames w conn header = some u ∧
      Does conn w u c [tcpSegment c header.ack TCP_RST []] [] := by
  subst hc
  unfold tcpRecvAck
  rw [hstate]
  dsimp only
  rw [if_neg hacked]
  have hsend := tcpSendPacket_does frames (c := w.conn conn) rfl header.ack TCP_RST []
  rw [tcpSndNxt_nil (by decide)] at hsend
  exact ⟨_, rfl, hsend⟩

/-- An acknowledgement does not move `snd.nxt`. -/
theorem tcpAckUpdate_nxt (snd : TcpSndState) (header : TcpHeader) :
    (tcpAckUpdate snd header).nxt = snd.nxt := by
  unfold tcpAckUpdate
  dsimp only
  split
  · split <;> rfl
  · rfl

/-- Only equal numbers have no difference. -/
theorem seqDiff_eq_zero {x y : BitVec 32} : seqDiff x y = 0 ↔ x = y := by
  rw [seqDiff, ← BitVec.toInt_zero (w := 32), BitVec.toInt_inj]
  exact sub_eq_zero

/-- An acknowledgement that is not the one `TCP_FIN_WAIT_1` waits for. -/
theorem tcpRecvAckOpen_does (frames : Nat → Nat) (hc : w.conn conn = c)
    (hstate : c.state ∈ [.established, .closeWait] ∨ c.state = .finWait1 ∧ header.ack ≠ c.snd.nxt) :
    Does conn w (tcpRecvAckOpen frames w conn header) { c with snd := tcpAckUpdate c.snd header }
      (if 0 < seqDiff header.ack c.snd.nxt then
        [tcpSegment { c with snd := tcpAckUpdate c.snd header } c.snd.nxt TCP_ACK []]
          else []) [] := by
  subst hc
  have hset := does_setConn w conn { w.conn conn with snd := tcpAckUpdate (w.conn conn).snd header }
  unfold tcpRecvAckOpen TcpWorld.setSnd
  dsimp only
  rw [hset.conn]
  dsimp only
  rw [tcpAckUpdate_nxt]
  split
  -- what is acknowledged lies ahead of what was sent, and is answered
  · have hsend := tcpSendAck_does frames hset.conn
    rw [tcpAckUpdate_nxt] at hsend
    exact hset.trans hsend
  · split
    · rename_i hle hge
      -- both comparisons leave equality only
      have heq := seqDiff_eq_zero.mp (Int.le_antisymm (Int.not_lt.mp hle) hge)
      split
      · rename_i hs
        rcases hstate with hstate | hstate
        · simp [hs] at hstate
        · exact absurd heq hstate.2
      · rename_i hs
        rcases hstate with hstate | hstate
        · simp [hs] at hstate
        · rw [hs] at hstate
          exact nomatch hstate.1
      · exact hset
    · exact hset

/-- The states in which an acknowledgement is taken. -/
theorem tcpRecvAck_open (frames : Nat → Nat) (hc : w.conn conn = c)
    (hstate : c.state ∈ [.established, .finWait1, .closeWait]) :
    tcpRecvAck frames w conn header = some (tcpRecvAckOpen frames w conn header) := by
  unfold tcpRecvAck
  rw [hc]
  revert hstate
  cases c.state <;> simp

/-- The acknowledgement of the FIN. -/
theorem tcpRecvAckOpen_finWait1 (frames : Nat → Nat) (hc : w.conn conn = c)
    (hstate : c.state = .finWait1)
    (hack : header.ack = c.snd.nxt) :
    Does conn w (tcpRecvAckOpen frames w conn header)
      { c with snd := tcpAckUpdate c.snd header, state := .finWait2 } []
      (if c.onState then [.onState conn .finWait1 .finWait2] else []) := by
  subst hc
  -- `snd` is updated, and everything is acknowledged, the FIN too
  have hset := does_setConn w conn
    { w.conn conn with snd := tcpAckUpdate (w.conn conn).snd header, state := .finWait1 }
  have hzero := seqDiff_eq_zero.mpr hack
  unfold tcpRecvAckOpen TcpWorld.setSnd
  dsimp only
  rw [hstate, hset.conn]
  dsimp only
  rw [tcpAckUpdate_nxt, hzero, if_neg (by decide), if_pos (by decide)]
  have hboth := hset.trans (tcpSetState_does hset.conn .finWait2)
  rw [List.append_nil, List.append_nil] at hboth
  exact hboth

/-- A SYN with the acknowledgement of the own one establishes the connection. -/
theorem tcpRecvSynSentOpen_ack (frames : Nat → Nat) (hc : w.conn conn = c)
    (hack : hasFlag header.flags TCP_ACK = true) :
    ∃ u c', tcpRecvSynSentOpen frames w conn header = u ∧ c' = { c with
        rcv := { c.rcv with irs := header.seq, nxt := header.seq + 1 }
        snd := { c.snd with
          una := header.ack
          wnd := header.windowSize.zeroExtend 32
          wl1 := header.seq
          wl2 := header.ack }
        state := .established } ∧
      Does conn w u c' [tcpSegment c' c.snd.nxt TCP_ACK []]
        ((if c.onConnect then [.onConnect conn] else []) ++
          (if c.onState then [.onState conn c.state .established] else [])) := by
  subst hc
  -- the steps of the source in order: `rcv`, `snd`, state, answer, callback
  have hrcv := setRcv_does (rfl : w.conn conn = w.conn conn)
    { (w.conn conn).rcv with irs := header.seq, nxt := header.seq + 1 }
  have hsnd := hrcv.trans (setSnd_does hrcv.conn { (w.conn conn).snd with
    una := header.ack
    wnd := header.windowSize.zeroExtend 32
    wl1 := header.seq
    wl2 := header.ack })
  have hstate := hsnd.trans (tcpSetState_does hsnd.conn .established)
  have hsend := hstate.trans (tcpSendAck_does frames hstate.conn)
  have hcall :=
    hsend.trans (does_call hsend.conn (e := .onConnect conn) rfl rfl (w.conn conn).onConnect)
  refine ⟨_, _, rfl, rfl, ?_⟩
  unfold tcpRecvSynSentOpen
  dsimp only
  rw [if_pos hack, hrcv.conn]
  dsimp only
  rw [hsend.conn]
  simp only [List.append_nil, List.nil_append] at hcall
  exact hcall

/-- A bare SYN crosses the own one: `snd.nxt` goes back, and the SYN is sent again. -/
theorem tcpRecvSynSentOpen_syn (frames : Nat → Nat) (hc : w.conn conn = c)
    (hack : hasFlag header.flags TCP_ACK = false) :
    ∃ u c', tcpRecvSynSentOpen frames w conn header = u ∧ c' = { c with
        rcv := { c.rcv with irs := header.seq, nxt := header.seq + 1 }
        state := .synReceived } ∧
      Does conn w u c' [tcpSegment c' (c.snd.nxt - 1) (TCP_SYN ||| TCP_ACK) []]
        (if c.onState then [.onState conn c.state .synReceived] else []) := by
  subst hc
  have hrcv := setRcv_does (rfl : w.conn conn = w.conn conn)
    { (w.conn conn).rcv with irs := header.seq, nxt := header.seq + 1 }
  have hstate := hrcv.trans (tcpSetState_does hrcv.conn .synReceived)
  have hsnd :=
    hstate.trans (setSnd_does hstate.conn
    { (w.conn conn).snd with nxt := (w.conn conn).snd.nxt - 1 })
  have hsend :=
    hsnd.trans (tcpSendPacket_does frames hsnd.conn
    ((w.conn conn).snd.nxt - 1) (TCP_SYN ||| TCP_ACK) [])
  have hflags : hasFlag (TCP_SYN ||| TCP_ACK) (TCP_SYN ||| TCP_FIN) = true := by decide
  -- counted back by one and on by one
  have hnxt : tcpSndNxt ((w.conn conn).snd.nxt - 1) (TCP_SYN ||| TCP_ACK) [] =
      (w.conn conn).snd.nxt := by
    simp [tcpSndNxt, hflags]
  dsimp only at hsend
  rw [hnxt] at hsend
  refine ⟨_, _, rfl, rfl, ?_⟩
  unfold tcpRecvSynSentOpen
  dsimp only
  rw [hack, if_neg (by decide), hstate.conn]
  dsimp only
  rw [hsnd.conn]
  simp only [List.append_nil, List.nil_append] at hsend
  exact hsend

end MishaOS
