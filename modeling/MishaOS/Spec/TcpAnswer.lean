import MishaOS.Spec.TcpAck
import MishaOS.Spec.TcpCrossing
import MishaOS.Spec.TcpUna

/-!
# What an open connection answers

A segment that a host has sent with `tcp_send`, or as an acknowledgement, arrives
at an established connection of another one.  At most one segment is sent in
return: an acknowledgement of all that has come by then.

## Key results

- `tcpRecvGeneral_inside`, `tcpRecvGeneral_outside`: in the window and outside of it.
- `deliverSegment_inside`, `deliverSegment_outside`: the same for a segment on the wire.
- `Receiving.hear`: the segment is taken, and the stream goes on.
-/

namespace MishaOS

open Serial

variable {frames : Nat → Nat} {w w' w'' : TcpWorld} {conn packet : Nat} {c : TcpConn}
    {header : TcpHeader}
  {snd snd' : TcpSndState} {answered : Bool}

/-! ## The relation -/

/-- The acknowledgement of what has come. -/
def TcpConn.bareAck (c : TcpConn) : TcpSegment := tcpSegment c c.snd.nxt TCP_ACK []

/-- From `w` to `w'` the sending side becomes `snd`, and nothing is sent but an
    acknowledgement at the end. -/
structure Answering (conn : Nat) (snd : TcpSndState) (answered : Bool)
    (w w' : TcpWorld) : Prop where
  state : (w'.conn conn).state = (w.conn conn).state
  tuple : (w'.conn conn).tuple = (w.conn conn).tuple
  snd : (w'.conn conn).snd = snd
  rcv : answered = false → (w'.conn conn).rcv = (w.conn conn).rcv
  sent : w'.sent = (if answered then [(w'.conn conn).bareAck] else []) ++ w.sent

/-- The buffers do not matter. -/
theorem Answering.setBufs (h : Answering conn snd answered w w') (b : BufPool) :
    Answering conn snd answered w (w'.setBufs b) := ⟨h.state, h.tuple, h.snd, h.rcv, h.sent⟩

/-- Nor do those before. -/
theorem Answering.of_setBufs {b : BufPool} (h : Answering conn snd answered (w.setBufs b) w') :
    Answering conn snd answered w w' := ⟨h.state, h.tuple, h.snd, h.rcv, h.sent⟩

/-- Something silent happens first. -/
theorem Answering.after (h : Answering conn snd false w w')
    (h' : Answering conn snd' answered w' w'') :
    Answering conn snd' answered w w'' where
  state := h'.state.trans h.state
  tuple := h'.tuple.trans h.tuple
  snd := h'.snd
  rcv := fun ha => (h'.rcv ha).trans (h.rcv rfl)
  sent := by
    rw [h'.sent, h.sent]
    rfl

/-- An acknowledgement is an answer. -/
theorem tcpSendAck_answers (frames : Nat → Nat) (w : TcpWorld) (conn : Nat) :
    Answering conn (w.conn conn).snd true w (tcpSendAck frames w conn) := by
  have hconn : (tcpSendAck frames w conn).conn conn = w.conn conn := by rw [tcpSendAck_conn]
  have hdoes := tcpSendAck_does frames (rfl : w.conn conn = w.conn conn)
  refine ⟨by rw [hconn], by rw [hconn], by rw [hconn], nofun, ?_⟩
  rw [hdoes.sent, hconn]
  rfl

/-! ## Received data -/

/-- `tcp_recv_process` sends nothing, and only the receiving side changes. -/
theorem tcpRecvProcessFrom_silent {fuel : Nat}
    (h : tcpRecvProcessFrom conn fuel w packet = some w') :
    (w'.conn conn).tuple = (w.conn conn).tuple ∧ w'.sent = w.sent := by
  refine ⟨(tcpRecvProcessFrom_quiet h).tuple conn, ?_⟩
  induction fuel generalizing w packet with
  | zero => cases h
  | succ fuel ih =>
    simp only [tcpRecvProcessFrom] at h
    split at h
    · obtain rfl := Option.some.inj h
      rfl
    split at h
    · obtain rfl := Option.some.inj h
      rfl
    · rw [ih h]
      split <;> rfl

/-- `tcp_recv_data` acknowledges once, at the end. -/
theorem tcpRecvData_answers (hstate : (w.conn conn).state = .established)
    (h : tcpRecvData frames w conn packet = some w') :
    Answering conn (w.conn conn).snd true w w' := by
  unfold tcpRecvData at h
  rw [hstate] at h
  simp only [Option.bind_eq_some_iff, Option.map_eq_some_iff] at h
  obtain ⟨r, -, w₁, hproc, rfl⟩ := h
  -- processing sends nothing and leaves `snd` alone
  obtain ⟨hsnd, hst⟩ := tcpRecvProcessFrom_snd hproc
  obtain ⟨htuple, hsent⟩ := tcpRecvProcessFrom_silent hproc
  have hack := tcpSendAck_answers frames w₁ conn
  have hres (w : TcpWorld) (b : BufPool) : ((w.setBufs b).setResequence conn r.2).conn conn =
      { w.conn conn with resequence := r.2 } := by
    simp [TcpWorld.setResequence, TcpWorld.setBufs]
  rw [hres] at hsnd hst htuple
  refine ⟨hack.state.trans hst, hack.tuple.trans htuple, hack.snd.trans hsnd, fun h => ?_, ?_⟩
  · cases h
  · rw [hack.sent, hsent]
    rfl

/-- An acknowledgement of nothing that is still to be sent. -/
theorem tcpRecvAckOpen_answers (frames : Nat → Nat) (hstate : (w.conn conn).state = .established)
    (hack : seqDiff header.ack (w.conn conn).snd.nxt ≤ 0) :
    Answering conn (tcpAckUpdate (w.conn conn).snd header) false w
      (tcpRecvAckOpen frames w conn header) := by
  have hopen : (w.conn conn).state ∈ [.established, .closeWait] ∨
      (w.conn conn).state = .finWait1 ∧ header.ack ≠ (w.conn conn).snd.nxt :=
        .inl (by simp [hstate])
  have hdoes := tcpRecvAckOpen_does frames rfl hopen
  rw [if_neg (Int.not_lt.mpr hack)] at hdoes
  have hconn := hdoes.conn
  refine ⟨by rw [hconn], by rw [hconn]; rfl, by rw [hconn], fun _ => by rw [hconn], ?_⟩
  rw [hdoes.sent]
  rfl

/-- A segment outside the window is answered, and nothing else happens. -/
theorem tcpRecvGeneral_outside (packet : Nat) (hflags : header.flags = TCP_ACK)
    (hwin : inWindow (w.conn conn) header.seq (w.bufs.buf packet).len32 = false)
    (h : tcpRecvGeneral frames w conn header packet = some w') :
    Answering conn (w.conn conn).snd true w w' := by
  have hrst : hasFlag TCP_ACK TCP_RST = false := by decide
  unfold tcpRecvGeneral at h
  simp only [hwin, hflags, hrst, Bool.not_false, if_true, Bool.false_eq_true, if_false] at h
  obtain rfl := Option.some.inj h
  exact tcpSendAck_answers frames w conn

/-- A segment in the window: the acknowledgement is taken, and data is answered. -/
theorem tcpRecvGeneral_inside (packet : Nat) (hflags : header.flags = TCP_ACK)
    (hstate : (w.conn conn).state = .established)
    (hwin : inWindow (w.conn conn) header.seq (w.bufs.buf packet).len32)
    (hack : seqDiff header.ack (w.conn conn).snd.nxt ≤ 0)
    (h : tcpRecvGeneral frames w conn header packet = some w') :
    Answering conn (tcpAckUpdate (w.conn conn).snd header)
      (decide ((w.bufs.buf packet).len32 ≠ 0)) w w' := by
  -- neither RST nor SYN nor FIN: the branches of `tcp_recv_general` fall away
  have hfin : hasFlag header.flags TCP_FIN = false := by rw [hflags]; decide
  rw [tcpRecvGeneral_ack hwin (by rw [hflags]; decide) (by rw [hflags]; decide)
    (by rw [hflags]; decide),
    tcpRecvAck_established header hstate, Option.bind_some, hfin] at h
  simp only [Bool.false_eq_true, if_false, Option.map_id'] at h
  have hopen := tcpRecvAckOpen_answers frames hstate hack
  generalize tcpRecvAckOpen frames w conn header = w₁ at *
  -- with data there is an answer, without it none
  by_cases hlen : (w.bufs.buf packet).len32 ≠ 0
  · rw [if_pos hlen] at h
    have hdata := tcpRecvData_answers (hopen.state.trans hstate) h
    rw [hopen.snd] at hdata
    rw [decide_eq_true hlen]
    exact hopen.after hdata
  · rw [if_neg hlen] at h
    obtain rfl := Option.some.inj h
    rw [decide_eq_false hlen]
    exact hopen

/-! ## Segments on the wire -/

/-- A segment of `data`, or an acknowledgement, as the other end `c` of a connection sends it. -/
def TcpConn.plain (c : TcpConn) (seq : BitVec 32) (data : List Byte) : TcpSegment :=
  tcpSegment c seq TCP_ACK data

variable {seq : BitVec 32} {data : List Byte} {S : List Byte} {n₀ : BitVec 32} {off k : Nat}

/-- The header is read as it was written. -/
theorem tcpSegment_read (c : TcpConn) (seq : BitVec 32) (flags : BitVec 8) (data : List Byte) :
    TcpHeader.read (tcpSegment c seq flags data).toBytes =
      (tcpSegment c seq flags data).header := by
  unfold TcpSegment.toBytes
  rw [List.append_assoc, TcpHeader.read_toBytes]

/-- What is left of such a segment behind the header is its data. -/
theorem plain_payload (c : TcpConn) (seq : BitVec 32) (data : List Byte) :
    (c.plain seq data).toBytes.drop (c.plain seq data).header.headerLen = data ∧
      (c.plain seq data).header.headerLen = 20 ∧
      (c.plain seq data).toBytes.length = 20 + data.length := by
  have hopt : (tcpSegment c seq TCP_ACK data).options.length = if hasFlag TCP_ACK TCP_SYN
      then 4 else 0 :=
    length_tcpOptions TCP_ACK
  rw [if_neg (by decide)] at hopt
  have hheader := tcpSegment_headerLen c seq TCP_ACK data
  have hlen := tcpSegment_length c seq TCP_ACK data
  have hpayload := tcpSegment_payload c seq TCP_ACK data
  rw [tcpSwap_drop (by omega)] at hpayload
  unfold TcpConn.plain
  exact ⟨hpayload, by omega, by omega⟩

/-- In a connection that is open, what arrives is given to `tcp_recv_general`. -/
theorem deliverSegment_general (hm : Mirrors c (w.conn conn)) (h0 : conn ≠ 0)
    (hfind : tcpFind w (w.conn conn).remoteAddr (w.conn conn).remotePort (w.conn conn).localAddr
      (w.conn conn).localPort = some conn)
    (hstate : (w.conn conn).state = .established) (hdata : data.length ≤ 1460)
    (h : deliverSegment frames (c.plain seq data) w = some w') :
    ∃ (b : BufPool) (packet : Nat) (u : TcpWorld),
      tcpRecvGeneral frames (w.setBufs b) conn (c.plain seq data).header packet = some u ∧
        (b.buf packet).len32 = BitVec.ofNat 32 data.length ∧
        w' = u.setBufs (netFreeBuf u.bufs packet) := by
  obtain ⟨b, packet, hbytes, hdeficit, hdeliver⟩ :=
    tcpDeliver_segment frames w c seq TCP_ACK data hdata
  obtain ⟨-, hheader, hlen⟩ := plain_payload c seq data
  have hpayload := tcpSegment_payload c seq TCP_ACK data
  -- the segment passes the tests and finds the connection
  have hopen : ¬ (conn = 0 ∨ (w.conn conn).state = .closed) := by simp [h0, hstate]
  rw [hm.tcpFind hfind, Option.bind_some, if_neg hopen] at hdeliver
  obtain ⟨u, hu, rfl⟩ := Option.map_eq_some_iff.mp (hdeliver.symm.trans h)
  unfold tcpRecvConn at hu
  have hstate' : ((w.setBufs b).conn conn).state = .established := hstate
  rw [hstate'] at hu
  dsimp only at hu
  refine ⟨_, packet, u, hu, ?_, rfl⟩
  unfold TcpConn.plain at hheader hlen
  -- what is left behind the header are the data
  have hswap : (tcpSwap (tcpSegment c seq TCP_ACK data).toBytes).length = 20 + data.length := by
    rw [length_tcpSwap (by omega), hlen]
  show (((b.setBuf packet _).buf packet)).len32 = _
  rw [BufPool.setBuf_buf, if_pos rfl]
  unfold NetBuf.len32 NetBuf.advance
  dsimp only
  rw [show (w.setBufs b).bufs = b from rfl, hbytes, hdeficit, hpayload, hheader, hswap]
  simp

/-- A segment has a payload if its length is not 0. -/
theorem ofNat_length_ne_zero (hdata : data.length ≤ 1460) : BitVec.ofNat 32 data.length ≠ 0 ↔
    data ≠ [] := by
  constructor
  · rintro hne rfl
    exact hne rfl
  · intro hne
    exact ofNat_ne_zero (List.length_pos_iff.mpr hne) (by omega)

/-- In the window: the acknowledgement is taken, and data is answered. -/
theorem deliverSegment_inside (hm : Mirrors c (w.conn conn)) (h0 : conn ≠ 0)
    (hfind : tcpFind w (w.conn conn).remoteAddr (w.conn conn).remotePort (w.conn conn).localAddr
      (w.conn conn).localPort = some conn)
    (hstate : (w.conn conn).state = .established) (hdata : data.length ≤ 1460)
    (hwin : inWindow (w.conn conn) seq (BitVec.ofNat 32 data.length))
    (hack : seqDiff c.rcv.nxt (w.conn conn).snd.nxt ≤ 0)
    (h : deliverSegment frames (c.plain seq data) w = some w') :
    Answering conn (tcpAckUpdate (w.conn conn).snd (c.plain seq data).header)
      (decide (data ≠ [])) w w' := by
  obtain ⟨b, packet, u, hu, hlen, rfl⟩ := deliverSegment_general hm h0 hfind hstate hdata h
  -- outside of the buffers nothing has changed before `tcp_recv_general`
  have hin := tcpRecvGeneral_inside (w := w.setBufs b) packet
    (rfl : (c.plain seq data).header.flags = TCP_ACK)
    hstate (by rw [show (w.setBufs b).bufs = b from rfl, hlen]; exact hwin)
    (by rw [show (c.plain seq data).header.ack =
      c.rcv.nxt from tcpSegment_ack (by decide)]; exact hack) hu
  rw [show (w.setBufs b).bufs = b from rfl, hlen] at hin
  rw [decide_eq_decide.mpr (ofNat_length_ne_zero hdata)] at hin
  exact hin.of_setBufs.setBufs _

/-- Outside of it: it is answered, and nothing else happens. -/
theorem deliverSegment_outside (hm : Mirrors c (w.conn conn)) (h0 : conn ≠ 0)
    (hfind : tcpFind w (w.conn conn).remoteAddr (w.conn conn).remotePort (w.conn conn).localAddr
      (w.conn conn).localPort = some conn)
    (hstate : (w.conn conn).state = .established) (hdata : data.length ≤ 1460)
    (hwin : inWindow (w.conn conn) seq (BitVec.ofNat 32 data.length) = false)
    (h : deliverSegment frames (c.plain seq data) w = some w') :
    Answering conn (w.conn conn).snd true w w' := by
  obtain ⟨b, packet, u, hu, hlen, rfl⟩ := deliverSegment_general hm h0 hfind hstate hdata h
  have hout := tcpRecvGeneral_outside (w := w.setBufs b) packet
    (rfl : (c.plain seq data).header.flags = TCP_ACK)
    (by rw [show (w.setBufs b).bufs = b from rfl, hlen]; exact hwin) hu
  exact hout.of_setBufs.setBufs _

/-! ## A part of the stream -/

/-- A part of a longer stream. -/
theorem slice_append {off len : Nat} (h : off + len ≤ S.length) (more : List Byte) :
    slice (S ++ more) off len = slice S off len := by
  rw [slice, List.drop_append_of_le_length (by omega),
    List.take_append_of_le_length (by rw [List.length_drop]; omega),
    slice]

/-- `data` is what a stream holds from `off` on. -/
structure Part (S : List Byte) (off : Nat) (data : List Byte) : Prop where
  eq : data = slice S off data.length
  le : off + data.length ≤ S.length

/-- A part stays one when more is said. -/
theorem Part.append (h : Part S off data) (more : List Byte) : Part (S ++ more) off data := by
  have hle := h.le
  exact ⟨by rw [slice_append hle]; exact h.eq, by rw [List.length_append]; omega⟩

/-- What is said next. -/
theorem part_end (S data : List Byte) : Part (S ++ data) S.length data :=
  ⟨by rw [slice, List.drop_left, List.take_length], by rw [List.length_append]⟩

/-- A segment that carries a part. -/
theorem Part.segment (h : Part S off data) (c : TcpConn) (n₀ : BitVec 32) :
    Segment S n₀ (c.plain (num n₀ off) data).toBytes off := by
  obtain ⟨hpayload, hheader, hlen⟩ := plain_payload c (num n₀ off) data
  have hle := h.le
  have hread : TcpHeader.read (c.plain (num n₀ off) data).toBytes =
      (c.plain (num n₀ off) data).header :=
    tcpSegment_read c _ _ _
  have hsize : 20 + data.length - 20 = data.length := by omega
  refine ⟨by rw [hread, hheader], by rw [hread, hheader, hlen]; omega, by rw [hread]; rfl, ?_, ?_⟩
  · rw [hread, hpayload, hheader, hlen, hsize]
    exact h.eq
  · rw [hread, hheader, hlen, hsize]
    exact .inr hle

/-- A part of the stream arrives: it is taken without getting stuck. -/
theorem Receiving.hear (hf : FramesOk frames) (hi : Receiving frames S n₀ conn w)
    (hm : Mirrors c (w.conn conn))
    (hpart : Part S off data) (hdata : data.length ≤ 1460) (hS : S.length < 2147483648) :
    ∃ w', deliverSegment frames (c.plain (num n₀ off) data) w = some w' ∧
      Receiving frames S n₀ conn w' := by
  obtain ⟨hpayload, hheader, hlen⟩ := plain_payload c (num n₀ off) data
  have hread : TcpHeader.read (c.plain (num n₀ off) data).toBytes =
      (c.plain (num n₀ off) data).header :=
    tcpSegment_read c _ _ _
  -- the segment is what the peer is asked for
  obtain ⟨k, q, hs⟩ := hi.stream
  have hk : (received conn w.log).length ≤ S.length := by
    rw [hs.received, List.length_take]
    exact Nat.min_le_right _ _
  have hle := hpart.le
  apply hi.recv hf
  constructor
  case src => exact hm.localAddr
  case dst => exact hm.remoteAddr
  case srcPort => rw [hread]; exact hm.localPort
  case dstPort => rw [hread]; exact hm.remotePort
  case ack => rw [hread]; show hasFlag TCP_ACK TCP_ACK; decide
  case rst => rw [hread]; show ¬ hasFlag TCP_ACK TCP_RST; decide
  case syn => rw [hread]; show ¬ hasFlag TCP_ACK TCP_SYN; decide
  case fin => rw [hread]; show ¬ hasFlag TCP_ACK TCP_FIN; decide
  case size => rw [hread, hheader, hlen]; omega
  case segment => exact ⟨off, by omega, hpart.segment c n₀, by omega, by omega⟩

/-- The bytes that have been handed over. -/
theorem Stream.length_received {refs : List Nat} {r : Nat} {q : List QSeg}
    (h : Stream frames S n₀ conn w refs k r q) :
    (MishaOS.received conn w.log).length = k := by
  rw [h.received, List.length_take, Nat.min_eq_left h.le]

/-- What comes next is delivered at once. -/
theorem Stream.general_next {q : List QSeg} {len : Nat} (hf : FramesOk frames)
    (h : Stream frames S n₀ conn w [packet] k k q) (hstate : (w.conn conn).state = .established)
    (hflags : header.flags = TCP_ACK) (hseq : header.seq = num n₀ k)
    (hp : Carries S n₀ (w.bufs.buf packet) k len)
    (hnot : packet ∉ q.map QSeg.ptr) (hlink : (w.bufs.buf packet).link = 0)
    (hone : (w.bufs.buf packet).refCount = 1) (hlen : len ≤ 1460)
    (hrecv : tcpRecvGeneral frames w conn header packet = some w') :
    k + len ≤ (MishaOS.received conn w'.log).length := by
  -- the number expected next is in the window
  have hwin :=
    inWindow_iff h.nxt h.wnd (show len < 8192 by omega) (show k ≤ k + 2147483648 by omega)
    (by omega)
  rw [← hseq, ← hp.len32] at hwin
  have hfin : hasFlag header.flags TCP_FIN = false := by rw [hflags]; decide
  rw [tcpRecvGeneral_ack (hwin.mpr (by omega)) (by rw [hflags]; decide) (by rw [hflags]; decide)
    (by rw [hflags]; decide), tcpRecvAck_established header hstate, Option.bind_some, hfin] at hrecv
  simp only [Bool.false_eq_true, if_false, Option.map_id'] at hrecv
  have hstream := h.recvAckOpen hf header
  have hstate₁ := tcpRecvAckOpen_state frames header hstate
  have hbuf := h.recvAckOpen_buf hf List.mem_cons_self header
  generalize tcpRecvAckOpen frames w conn header = w₁ at *
  -- with data, the front of the queue is the packet; without, nothing is owed
  by_cases hdata : (w.bufs.buf packet).len32 ≠ 0
  · obtain ⟨w₂, k', q', hdeliver, hstream₂, -, -, hnext, -⟩ := hstream.recvData (by simp [hstate₁])
      (by rw [hbuf]; exact hp) hnot (by rw [hbuf]; exact hlink) (by rw [hbuf]; exact hone)
        (Nat.le_refl k) (by omega)
    rw [if_pos hdata, hdeliver] at hrecv
    obtain rfl := Option.some.inj hrecv
    have hsent : Stream frames S n₀ conn (tcpSendAck frames w₂ conn) [packet] k' k' q' :=
      hstream₂.sendPacket hf _ _ _
    rw [hsent.length_received]
    exact hnext rfl
  · rw [if_neg hdata] at hrecv
    obtain rfl := Option.some.inj hrecv
    have hzero : len = 0 := by
      by_contra hne
      apply hdata
      rw [hp.len32]
      exact ofNat_ne_zero (by omega) (by omega)
    rw [hstream.length_received, hzero]
    omega

/-- The part of the stream that comes next is delivered at once. -/
theorem Receiving.hear_next (hf : FramesOk frames) (hi : Receiving frames S n₀ conn w)
    (hm : Mirrors c (w.conn conn))
    (hpart : Part S off data) (hdata : data.length ≤ 1460)
    (hack : seqDiff c.rcv.nxt (w.conn conn).snd.nxt ≤ 0)
    (hoff : off = (received conn w.log).length)
    (h : deliverSegment frames (c.plain (num n₀ off) data) w = some w') :
    off + data.length ≤ (received conn w'.log).length := by
  obtain ⟨hpayload, hheader, hlen⟩ := plain_payload c (num n₀ off) data
  have hread : TcpHeader.read (c.plain (num n₀ off) data).toBytes =
      (c.plain (num n₀ off) data).header :=
    tcpSegment_read c _ _ _
  obtain ⟨k, q, hs⟩ := hi.stream
  rw [hs.length_received] at hoff
  subst hoff
  have hfind := hm.tcpFind hi.found
  have hsize : 20 + data.length - 20 = data.length := by omega
  -- the segment was dropped, or it was taken into a buffer
  obtain ⟨w₁, hw₁, hs₁, hsame⟩ | ⟨packet, w₁, hs₁, hsame, hcarry, hnot, hlink, hone, hdeliver⟩ :=
    hs.arrive hf IP_PROTOCOL_TCP (hpart.segment c n₀) (by rw [hread]; exact hfind) hi.ne_zero
      (by simp [hi.state])
  · -- data that is next would have been answered
    obtain rfl : w₁ = w' := Option.some.inj (hw₁.symm.trans h)
    have hwin := inWindow_iff hs.nxt hs.wnd (show data.length < 8192 by omega)
      (show off ≤ off + 2147483648 by omega) (by omega)
    have hin := deliverSegment_inside hm hi.ne_zero hi.found hi.state hdata
      (hwin.mpr (by omega)) hack h
    have hsent := hin.sent
    unfold TcpWorld.sent at hsent
    rw [hsame.2.1] at hsent
    have hnone : data = [] := by
      by_contra hne
      rw [if_pos (decide_eq_true hne)] at hsent
      have hcount := congrArg List.length hsent
      simp at hcount
    rw [hnone, hs₁.length_received]
    exact Nat.le_refl off
  · rw [hread, hheader, hlen, hsize] at hcarry
    have hgeneral := hdeliver.symm.trans h
    obtain ⟨u, hu, rfl⟩ := Option.map_eq_some_iff.mp hgeneral
    rw [hread] at hu
    have hnext := hs₁.general_next hf (by rw [hsame.1]; exact hi.state) rfl rfl hcarry hnot
      hlink hone hdata hu
    exact hnext

end MishaOS
