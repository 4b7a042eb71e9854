import MishaOS.Spec.TcpLists
import MishaOS.Spec.TcpStream

/-!
# Delivery of the stream

A peer sends a stream of bytes in segments that are lost, repeated, reordered
and cut in different places.  Whatever arrives, an established connection
passes a prefix of the stream to `on_data`, and `rcv.nxt` is the number of the
next byte.

## Key results

- `inWindow_iff`: the window test, also for numbers half the range away.
- `Stream.arrive`: a packet of the peer reaches `tcp_recv_general` as a part of the stream.
- `tcp_stream_delivered`: what has been delivered after every run of segments.
-/

namespace MishaOS

open LinkedList Serial

/-! ## The window -/

/-- Half the range away a number looks to be in front and behind at once; the
    second comparison rejects it. -/
theorem inWindow_iff {c : TcpConn} {n₀ : BitVec 32} {r off len : Nat} (hnxt : c.rcv.nxt = num n₀ r)
    (hwnd : c.rcv.wnd = 8192) (hlen : len < 8192) (hle : off ≤ r + 2147483648)
    (hge : r ≤ off + 2147483648) :
    inWindow c (num n₀ off) (BitVec.ofNat 32 len) = true ↔ r ≤ off ∧ off + len ≤ r + 8192 := by
  have hend : c.rcv.nxt + c.rcv.wnd = num n₀ (r + 8192) := by
    rw [hnxt, hwnd]
    exact num_add n₀ r 8192
  simp only [inWindow, decide_eq_true_eq]
  rw [hend, hnxt, num_add]
  obtain hlt | heq : r < off + 2147483648 ∨ r = off + 2147483648 := by omega
  -- the segment starts at most half the range behind `r`
  · rw [seqDiff_num n₀ (a := r) hle hlt]
    by_cases hro : r ≤ off
    · rw [seqDiff_num n₀ (a := off + len) (b := r + 8192) (by omega) (by omega)]
      omega
    · omega
  · -- the end of the segment, one range later
    -- the number is the same one range later
    have hwrap : num n₀ (off + len) = num n₀ (off + len + 4294967296) := by
      rw [← num_add n₀ (off + len) 4294967296]
      simp
    rw [hwrap, seqDiff_num n₀ (b := r + 8192) (by omega) (by omega)]
    omega

/-! ## A packet arrives -/

variable {frames : Nat → Nat} {S : List Byte} {n₀ : BitVec 32} {conn k r : Nat} {w w' : TcpWorld}
  {refs : List Nat} {q : List QSeg}

/-- `tcp_swap` leaves the payload alone. -/
theorem drop_tcpSwap {data : List Byte} {n : Nat} (hn : 20 ≤ n) :
    (tcpSwap data).drop n = data.drop n := by
  rw [tcpSwap, List.drop_append]
  simp only [List.length_map, List.length_cons, List.length_nil, List.drop_drop]
  rw [List.drop_eq_nil_of_le (by simpa using hn), List.nil_append]
  congr 1
  omega

/-- A driver's buffer. -/
theorem Stream.alloc (hf : FramesOk frames) (h : Stream frames S n₀ conn w refs k r q) {x : NetBuf}
    (hx : x.refCount = 1) :
    Stream frames S n₀ conn
        (w.setBufs ((netAllocBuf frames w.bufs).2.setBuf (netAllocBuf frames w.bufs).1 x))
        ((netAllocBuf frames w.bufs).1 :: refs) k r q ∧
      (netAllocBuf frames w.bufs).1 ∉ q.map QSeg.ptr := by
  obtain ⟨hnew, hrefs, hother, hbuf⟩ := h.refs.alloc hf
  generalize (netAllocBuf frames w.bufs).1 = packet at *
  generalize (netAllocBuf frames w.bufs).2 = b at *
  have hnot : packet ∉ q.map QSeg.ptr := fun hm => hnew (List.mem_append_left _ hm)
  -- the new buffer is none of the queue
  have hperm : (packet :: (q.map QSeg.ptr ++ (refs ++ inFlight w.log))).Perm
      (q.map QSeg.ptr ++ (packet :: refs ++ inFlight w.log)) := List.perm_middle.symm
  refine ⟨⟨h.wnd, h.nxt, h.onData, ?_, ?_, h.received, h.le⟩, hnot⟩
  · apply h.queue.congr_of_eq
    intro s hs
    have hne : s.ptr ≠ packet := fun heq => hnot (heq ▸ List.mem_map_of_mem hs)
    show (b.setBuf packet x).buf s.ptr = _
    simp [hne, hother _ hne]
  · apply RefInv.subperm _ hperm.symm.subperm
    exact hrefs.setBuf List.mem_cons_self (hx.trans hbuf.2.2.2.symm)

/-- What a segment of the stream looks like: `off` is the position of its first byte. -/
structure Segment (S : List Byte) (n₀ : BitVec 32) (data : List Byte) (off : Nat) : Prop where
  header : 20 ≤ (TcpHeader.read data).headerLen
  header_le : (TcpHeader.read data).headerLen ≤ data.length
  seq : (TcpHeader.read data).seq = n₀ + BitVec.ofNat 32 off
  payload : data.drop (TcpHeader.read data).headerLen =
    (S.drop off).take (data.length - (TcpHeader.read data).headerLen)
  le : data.length - (TcpHeader.read data).headerLen = 0 ∨
    off + (data.length - (TcpHeader.read data).headerLen) ≤ S.length

instance (S : List Byte) (n₀ : BitVec 32) (data : List Byte) (off : Nat) :
    Decidable (Segment S n₀ data off) :=
  decidable_of_iff (20 ≤ (TcpHeader.read data).headerLen ∧
      (TcpHeader.read data).headerLen ≤ data.length ∧
      (TcpHeader.read data).seq = n₀ + BitVec.ofNat 32 off ∧
      data.drop (TcpHeader.read data).headerLen =
        (S.drop off).take (data.length - (TcpHeader.read data).headerLen) ∧
      (data.length - (TcpHeader.read data).headerLen = 0 ∨
        off + (data.length - (TcpHeader.read data).headerLen) ≤ S.length))
    ⟨fun ⟨h₁, h₂, h₃, h₄, h₅⟩ => ⟨h₁, h₂, h₃, h₄, h₅⟩, fun h => ⟨h.1, h.2, h.3, h.4, h.5⟩⟩

/-- Nothing but buffers has changed. -/
def SameConns (w w' : TcpWorld) : Prop :=
  w'.conn = w.conn ∧ w'.log = w.log ∧ w'.tcpConnList = w.tcpConnList

/-- A segment for an open connection gets to `tcp_recv_general`, unless its
    checksum is wrong. -/
theorem Stream.arrive (hf : FramesOk frames) (h : Stream frames S n₀ conn w refs k r q)
    {src dst : Ipv4Addr} (protocol : Byte) {data : List Byte} {off : Nat}
    (hseg : Segment S n₀ data off)
    (hfind : tcpFind w src (TcpHeader.read data).srcPort dst
      (TcpHeader.read data).dstPort = some conn)
    (h0 : conn ≠ 0) (hstate : (w.conn conn).state ∉ [.closed, .listen, .synSent]) :
    (∃ w', tcpDeliver frames w src dst protocol data = some w' ∧
      Stream frames S n₀ conn w' refs k r q ∧
      SameConns w w') ∨
    ∃ packet w₁, Stream frames S n₀ conn w₁ (packet :: refs) k r q ∧ SameConns w w₁ ∧
      Carries S n₀ (w₁.bufs.buf packet) off (data.length - (TcpHeader.read data).headerLen) ∧
      packet ∉ q.map QSeg.ptr ∧ (w₁.bufs.buf packet).link = 0 ∧ (w₁.bufs.buf packet).refCount = 1 ∧
      tcpDeliver frames w src dst protocol data =
        (tcpRecvGeneral frames w₁ conn (TcpHeader.read data) packet).map
          fun w => w.setBufs (netFreeBuf w.bufs packet) := by
  have hlen : 20 ≤ data.length := Nat.le_trans hseg.header hseg.header_le
  obtain ⟨-, -, -, hbuf⟩ := h.refs.alloc hf
  have halloc := fun x => h.alloc (x := x) hf
  unfold tcpDeliver
  simp only
  generalize (netAllocBuf frames w.bufs).1 = packet at *
  generalize (netAllocBuf frames w.bufs).2 = b at *
  obtain ⟨hlink, -, hdef, hone⟩ := hbuf
  have hdata :
    ((w.setBufs (b.setBuf packet { b.buf packet with data := data })).bufs.buf packet).data =
      data := by simp [TcpWorld.setBufs]
  unfold tcpRecv
  simp only [hdata, if_neg (Nat.not_lt.mpr hlen)]
  split
  · -- dropped: only the driver's buffer is released again
    left
    exact ⟨_, rfl, (halloc { b.buf packet with data := data } hone).1.release, rfl, rfl, rfl⟩
  right
  -- the header has been swapped and skipped
  generalize hx : ({ (({ b.buf packet with data := tcpSwap data } : NetBuf).advance
    (TcpHeader.read data).headerLen) with
    seq := (TcpHeader.read data).seq, flags :=
      (TcpHeader.read data).flags.zeroExtend 32 } : NetBuf) = x
  have hswap := length_tcpSwap hlen
  have hcarry : Carries S n₀ x off (data.length - (TcpHeader.read data).headerLen) := by
    have hle := hseg.header_le
    refine ⟨?_, ?_, hseg.le, ?_⟩
    · rw [← hx]
      exact hseg.seq
    · rw [← hx]
      exact (drop_tcpSwap hseg.header).trans hseg.payload
    · rw [← hx]
      show (b.buf packet).deficit + _ = 0
      rw [hdef]
      show 0 + ((TcpHeader.read data).headerLen - (tcpSwap data).length) = 0
      omega
  obtain ⟨hstream, hnot⟩ := halloc x (by rw [← hx]; exact hone)
  have hxb : ((w.setBufs (b.setBuf packet x)).bufs.buf packet) = x := by simp [TcpWorld.setBufs]
  refine ⟨packet, w.setBufs (b.setBuf packet x), hstream, ⟨rfl, rfl, rfl⟩,
    by rw [hxb]; exact hcarry, hnot,
    by rw [hxb, ← hx]; exact hlink, by rw [hxb, ← hx]; exact hone, ?_⟩
  obtain ⟨hclosed, hlisten, hsyn⟩ : (w.conn conn).state ≠ .closed ∧ (w.conn conn).state ≠ .listen ∧
      (w.conn conn).state ≠ .synSent := by simpa using hstate
  simp only [tcpFind_setBuf, tcpFind_setBufs, hfind, Option.bind_some]
  rw [if_neg]
  case hnc => exact not_or.mpr ⟨h0, hclosed⟩
  congr 1
  unfold tcpRecvConn
  split
  · rename_i heq
    exact absurd heq hsyn
  · rename_i heq
    exact absurd heq hlisten
  · rw [← hx]
    simp only [TcpWorld.setBuf, TcpWorld.setBufs, BufPool.setBuf_buf, if_true,
      BufPool.setBuf_setBuf]

/-! ## An established connection -/

/-- An acknowledgement changes the sending side, and may be answered. -/
theorem Stream.recvAckOpen (hf : FramesOk frames) (h : Stream frames S n₀ conn w refs k r q)
    (header : TcpHeader) : Stream frames S n₀ conn (tcpRecvAckOpen frames w conn header)
      refs k r q := by
  unfold tcpRecvAckOpen
  extract_lets w₁
  have hsnd : Stream frames S n₀ conn w₁ refs k r q := h.setSnd _
  clear_value w₁
  split
  · exact hsnd.sendPacket hf _ _ _
  split
  · split
    · exact hsnd.setState _
    · exact (hsnd.setState _).timeWait
    · exact hsnd
  · exact hsnd

/-- A change of state touches no buffer. -/
theorem tcpSetState_bufs (w : TcpWorld) (conn : Nat) (state : TcpState) :
    (tcpSetState w conn state).bufs = w.bufs := (tcpSetState_frame w conn state).2.2.2.1

/-- An acknowledgement does not touch the packet. -/
theorem Stream.recvAckOpen_buf (hf : FramesOk frames) (h : Stream frames S n₀ conn w refs k r q)
    {packet : Nat} (hp : packet ∈ refs) (header : TcpHeader) :
    (tcpRecvAckOpen frames w conn header).bufs.buf packet = w.bufs.buf packet := by
  unfold tcpRecvAckOpen
  extract_lets w₁
  have hsnd : Stream frames S n₀ conn w₁ refs k r q := h.setSnd _
  have hbufs : w₁.bufs = w.bufs := rfl
  clear_value w₁
  -- what is answered is put into a buffer of its own
  split
  · rw [← hbufs]
    exact hsnd.sendPacket_buf hf hp _ _ _
  split
  · split
    · rw [tcpSetState_bufs, hbufs]
    · show (tcpSetState w₁ conn .timeWait).bufs.buf packet = _
      rw [tcpSetState_bufs, hbufs]
    · rw [hbufs]
  · rw [hbufs]

/-- Sending is no change of state. -/
theorem tcpSendPacket_state (frames : Nat → Nat) (w : TcpWorld) (conn : Nat) (seq : BitVec 32)
    (flags : BitVec 8) (data : List Byte) :
    ((tcpSendPacket frames w conn seq flags data).conn conn).state = (w.conn conn).state := by
  simp [tcpSendPacket, tcpTransmit, TcpWorld.setSnd, TcpWorld.emit, TcpWorld.setBufs]

/-- An established connection stays established. -/
theorem tcpRecvAckOpen_state (frames : Nat → Nat) (header : TcpHeader)
    (hstate : (w.conn conn).state = .established) :
    ((tcpRecvAckOpen frames w conn header).conn conn).state = .established := by
  unfold tcpRecvAckOpen
  extract_lets w₁
  have hsnd : (w₁.conn conn).state = .established := by simp [w₁, TcpWorld.setSnd, hstate]
  clear_value w₁
  split
  · rw [tcpSendAck, tcpSendPacket_state, hsnd]
  split
  · simp only [hsnd]
  · exact hsnd

/-- `tcp_recv_ack` in an established connection. -/
theorem tcpRecvAck_established (header : TcpHeader) (hstate : (w.conn conn).state = .established) :
    tcpRecvAck frames w conn header = some (tcpRecvAckOpen frames w conn header) := by
  simp only [tcpRecvAck, hstate]

/-- `tcp_recv_general` for a segment of an established connection. -/
theorem Stream.general {packet off len : Nat} {header : TcpHeader} (hf : FramesOk frames)
    (h : Stream frames S n₀ conn w (packet :: refs) k k q)
    (hstate : (w.conn conn).state = .established) (hseq : header.seq = num n₀ off)
    (hp : Carries S n₀ (w.bufs.buf packet) off len) (hnot : packet ∉ q.map QSeg.ptr)
    (hlink : (w.bufs.buf packet).link = 0) (hone : (w.bufs.buf packet).refCount = 1)
    (hlen : len ≤ 1460) (hle : off ≤ k + 2147483648) (hge : k ≤ off + 2147483648)
    (hack : hasFlag header.flags TCP_ACK) (hrst : ¬ hasFlag header.flags TCP_RST)
    (hsyn : ¬ hasFlag header.flags TCP_SYN) (hfin : ¬ hasFlag header.flags TCP_FIN) :
    ∃ w' k' q', tcpRecvGeneral frames w conn header packet = some w' ∧
      Stream frames S n₀ conn w' (packet :: refs) k' k' q' ∧
      (w'.conn conn).state = .established := by
  have hwin := inWindow_iff h.nxt h.wnd (show len < 8192 by omega) hle hge
  rw [← hseq, ← hp.len32] at hwin
  by_cases hin : inWindow (w.conn conn) header.seq (w.bufs.buf packet).len32
  -- outside the window the segment is only answered
  case neg =>
    refine ⟨tcpSendAck frames w conn, k, q, ?_, h.sendPacket hf _ _ _,
      (tcpSendPacket_state ..).trans hstate⟩
    simp only [tcpRecvGeneral, hin, hrst, Bool.not_false, if_true, Bool.false_eq_true, if_false]
  obtain ⟨hoff, hend⟩ := hwin.mp hin
  rw [tcpRecvGeneral_ack hin hrst hsyn hack, tcpRecvAck_established header hstate, Option.bind_some]
  have hstream := h.recvAckOpen hf header
  have hstate₁ := tcpRecvAckOpen_state frames header hstate
  have hbuf := h.recvAckOpen_buf hf List.mem_cons_self header
  generalize tcpRecvAckOpen frames w conn header = w₁ at *
  -- with data the stream may go on, without it nothing is delivered
  by_cases hdata : (w.bufs.buf packet).len32 ≠ 0
  · obtain ⟨w₂, k', q', hrecv, hstream₂, -, -, -, hdel⟩ := hstream.recvData (by simp [hstate₁])
      (by rw [hbuf]; exact hp) hnot (by rw [hbuf]; exact hlink) (by rw [hbuf]; exact hone) hoff hend
    refine ⟨tcpSendAck frames w₂ conn, k', q', ?_, hstream₂.sendPacket hf _ _ _,
      (tcpSendPacket_state ..).trans (hdel.state.trans hstate₁)⟩
    rw [if_pos hdata, hrecv, Option.map_some, if_neg hfin]
  · refine ⟨w₁, k, q, ?_, hstream, hstate₁⟩
    rw [if_neg hdata, Option.map_some, if_neg hfin]

/-! ## Runs -/

/-- A segment of the peer's stream for this connection, without SYN, RST and
    FIN; `k` bytes have been delivered. -/
structure DataSegment (S : List Byte) (n₀ : BitVec 32) (c : TcpConn) (k : Nat) (src dst : Ipv4Addr)
    (data : List Byte) : Prop where
  src : src = c.remoteAddr
  dst : dst = c.localAddr
  srcPort : (TcpHeader.read data).srcPort = c.remotePort
  dstPort : (TcpHeader.read data).dstPort = c.localPort
  ack : hasFlag (TcpHeader.read data).flags TCP_ACK
  rst : ¬ hasFlag (TcpHeader.read data).flags TCP_RST
  syn : ¬ hasFlag (TcpHeader.read data).flags TCP_SYN
  fin : ¬ hasFlag (TcpHeader.read data).flags TCP_FIN
  size : data.length - (TcpHeader.read data).headerLen ≤ 1460
  /-- The position is at most half the range away. -/
  segment : ∃ off ≤ S.length, Segment S n₀ data off ∧ off ≤ k + 2147483648 ∧ k ≤ off + 2147483648

instance (S : List Byte) (n₀ : BitVec 32) (c : TcpConn) (k : Nat) (src dst : Ipv4Addr)
    (data : List Byte) :
    Decidable (DataSegment S n₀ c k src dst data) :=
  decidable_of_iff (src = c.remoteAddr ∧ dst = c.localAddr ∧
      (TcpHeader.read data).srcPort = c.remotePort ∧ (TcpHeader.read data).dstPort = c.localPort ∧
      hasFlag (TcpHeader.read data).flags TCP_ACK ∧ ¬ hasFlag (TcpHeader.read data).flags TCP_RST ∧
      ¬ hasFlag (TcpHeader.read data).flags TCP_SYN ∧
      ¬ hasFlag (TcpHeader.read data).flags TCP_FIN ∧
      data.length - (TcpHeader.read data).headerLen ≤ 1460 ∧
      ∃ off < S.length + 1, Segment S n₀ data off ∧ off ≤ k + 2147483648 ∧
        k ≤ off + 2147483648)
    ⟨fun ⟨h₁, h₂, h₃, h₄, h₅, h₆, h₇, h₈, h₉, off, hlt, hoff⟩ =>
        ⟨h₁, h₂, h₃, h₄, h₅, h₆, h₇, h₈, h₉, off, Nat.le_of_lt_succ hlt, hoff⟩,
      fun h => ⟨h.1, h.2, h.3, h.4, h.5, h.6, h.7, h.8, h.9, h.10.elim fun off hoff =>
        ⟨off, Nat.lt_succ_of_le hoff.1, hoff.2⟩⟩⟩

/-- What happens to the connection: segments of the stream arrive, and drivers
    release the buffers of acknowledgements. -/
def ArrivalOk (S : List Byte) (n₀ : BitVec 32) (conn : Nat) (w : TcpWorld) : TcpOp → Prop
  | .recv src dst _ data =>
    DataSegment S n₀ (w.conn conn) (received conn w.log).length src dst data
  | .release packet => packet ∈ inFlight w.log
  | _ => False

instance (S : List Byte) (n₀ : BitVec 32) (conn : Nat) (w : TcpWorld) (op : TcpOp) :
    Decidable (ArrivalOk S n₀ conn w op) :=
  match op with
  | .recv _ _ _ _ => inferInstanceAs (Decidable (DataSegment _ _ _ _ _ _ _))
  | .release packet => inferInstanceAs (Decidable (packet ∈ inFlight w.log))
  | .newConn | .connect _ _ _ | .send _ _ | .close _ | .poll | .tick _ | .routes _ | .intf _
  | .callbacks _ _ _ _ _ => .isFalse not_false

/-- The connection has just become established; `on_data` is set.  Buffers may
    still be in flight from the handshake. -/
structure StreamStart (frames : Nat → Nat) (n₀ : BitVec 32) (conn : Nat) (w : TcpWorld) : Prop where
  ne_zero : conn ≠ 0
  state : (w.conn conn).state = .established
  nxt : (w.conn conn).rcv.nxt = n₀
  wnd : (w.conn conn).rcv.wnd = TCP_WINDOW_SIZE
  resequence : (w.conn conn).resequence = 0
  onData : (w.conn conn).onData = true
  received : received conn w.log = []
  refs : RefInv frames w.bufs (inFlight w.log)
  found : tcpFind w (w.conn conn).remoteAddr (w.conn conn).remotePort (w.conn conn).localAddr
    (w.conn conn).localPort = some conn

/-- The invariant of a run. -/
structure Receiving (frames : Nat → Nat) (S : List Byte) (n₀ : BitVec 32) (conn : Nat)
    (w : TcpWorld) :
    Prop where
  stream : ∃ k q, Stream frames S n₀ conn w [] k k q
  ne_zero : conn ≠ 0
  state : (w.conn conn).state = .established
  found : tcpFind w (w.conn conn).remoteAddr (w.conn conn).remotePort (w.conn conn).localAddr
    (w.conn conn).localPort = some conn

/-- Nothing has been received. -/
theorem StreamStart.stream (h : StreamStart frames n₀ conn w) (S : List Byte) :
    Stream frames S n₀ conn w [] 0 0 [] := by
  refine ⟨h.wnd, ?_, h.onData, ?_, h.refs, h.received, Nat.zero_le _⟩
  · rw [h.nxt, num_zero]
  · rw [h.resequence]
    exact Queue.nil S n₀ w.bufs 0

/-- The connection waits for the stream. -/
theorem StreamStart.receiving (h : StreamStart frames n₀ conn w) (S : List Byte) :
    Receiving frames S n₀ conn w :=
  ⟨⟨0, [], h.stream S⟩, h.ne_zero, h.state, h.found⟩

/-- The connection is found again after a quiet step. -/
theorem Receiving.of_quiet (hi : Receiving frames S n₀ conn w) (hq : Quiet w w')
    (hstate : (w'.conn conn).state = .established) (hs : Stream frames S n₀ conn w' [] k k q) :
    Receiving frames S n₀ conn w' := by
  refine ⟨⟨k, q, hs⟩, hi.ne_zero, hstate, ?_⟩
  have htuple := hq.tuple conn
  simp only [TcpConn.tuple, Prod.mk.injEq] at htuple
  obtain ⟨hra, hrp, hla, hlp⟩ := htuple
  rw [hq.tcpFind, hra, hrp, hla, hlp]
  exact hi.found

/-- A segment without SYN and RST releases no established connection. -/
theorem DataSegment.not_frees {src dst : Ipv4Addr} {protocol : Byte} {data : List Byte}
    (hseg : DataSegment S n₀ (w.conn conn) k src dst data) (hi : Receiving frames S n₀ conn w) :
    ¬ RecvFrees w src dst protocol data := by
  rintro ⟨-, -, c, hfind, -, hfrees⟩
  rw [hseg.src, hseg.dst, hseg.srcPort, hseg.dstPort, hi.found] at hfind
  obtain rfl : conn = c := by simpa using hfind
  obtain ⟨hsyn, -⟩ | ⟨-, -, hrst | hsyn | ⟨-, hlast, -⟩⟩ := hfrees
  · rw [hi.state] at hsyn
    exact nomatch hsyn
  · exact hseg.rst hrst
  · exact hseg.syn hsyn
  · rw [hi.state] at hlast
    exact nomatch hlast

/-- One segment: it returns, and the stream goes on. -/
theorem Receiving.recv (hf : FramesOk frames) (hi : Receiving frames S n₀ conn w)
    {src dst : Ipv4Addr}
    {protocol : Byte} {data : List Byte}
    (hseg : DataSegment S n₀ (w.conn conn) (received conn w.log).length src dst data) :
    ∃ w', tcpDeliver frames w src dst protocol data = some w' ∧ Receiving frames S n₀ conn w' := by
  obtain ⟨k, q, hs⟩ := hi.stream
  have hfrees : ¬ RecvFrees w src dst protocol data := hseg.not_frees hi
  obtain ⟨off, -, hoff, hle, hge⟩ := hseg.segment
  have hk : (received conn w.log).length = k := by
    rw [hs.received, List.length_take, Nat.min_eq_left hs.le]
  rw [hk] at hle hge
  -- the segment is for this connection
  have hfind : tcpFind w src (TcpHeader.read data).srcPort dst (TcpHeader.read data).dstPort =
      some conn := by
    rw [hseg.src, hseg.dst, hseg.srcPort, hseg.dstPort]
    exact hi.found
  obtain ⟨w', hw', hs', hsame⟩ | ⟨packet, w₁, hs₁, hsame, hcarry, hnot, hlink, hone, hdeliver⟩ :=
    hs.arrive hf protocol hoff hfind hi.ne_zero (by simp [hi.state])
  -- it was dropped before the connection saw it
  · refine ⟨w', hw', hi.of_quiet (tcpDeliver_quiet hfrees hw') ?_ hs'⟩
    rw [hsame.1]
    exact hi.state
  -- it was processed, and the stream goes on
  · obtain ⟨w₂, k', q', hgen, hs₂, hst₂⟩ :=
      hs₁.general hf (by rw [hsame.1]; exact hi.state) hoff.seq
      hcarry hnot hlink hone hseg.size hle hge hseg.ack hseg.rst hseg.syn hseg.fin
    rw [hgen, Option.map_some] at hdeliver
    exact ⟨_, hdeliver, hi.of_quiet (tcpDeliver_quiet hfrees hdeliver) hst₂ hs₂.release⟩

/-- Every step that is admitted succeeds and keeps what has been received. -/
theorem Receiving.step (hf : FramesOk frames) (hi : Receiving frames S n₀ conn w) {op : TcpOp}
    (hok : ArrivalOk S n₀ conn w op) :
    ∃ w', tcpStep frames w op = some w' ∧ Receiving frames S n₀ conn w' := by
  cases op with
  | recv src dst protocol data => exact hi.recv hf hok
  | release packet =>
    obtain ⟨k, q, hs⟩ := hi.stream
    refine ⟨_, rfl, hi.of_quiet ?_ hi.state (hs.releaseSent hok)⟩
    exact ⟨fun _ => rfl, rfl, rfl, Nat.le_of_eq (netFreeBuf_requests _ _).symm, rfl⟩
  | newConn | connect _ _ _ | send _ _ | close _ | poll | tick _ | routes _ | intf _
  | callbacks _ _ _ _ _ => exact hok.elim

/-- Whatever part of the stream arrives, in whatever order: a prefix has been
    delivered, `rcv.nxt` is the number of the next byte, and the next segment is
    received without getting stuck. -/
theorem tcp_stream_delivered (frames : Nat → Nat) (hf : FramesOk frames) (S : List Byte)
    (n₀ : BitVec 32) (conn : Nat) (w₀ w : TcpWorld) (ops : List TcpOp)
    (h₀ : StreamStart frames n₀ conn w₀)
    (hrun : Run (tcpStep frames) (ArrivalOk S n₀ conn) w₀ ops w) :
    (∃ k ≤ S.length, received conn w.log = S.take k ∧
        (w.conn conn).rcv.nxt = n₀ + BitVec.ofNat 32 k) ∧
      ∀ op, ArrivalOk S n₀ conn w op → (tcpStep frames w op).isSome := by
  have hi : Receiving frames S n₀ conn w := by
    apply hrun.invariant (Receiving frames S n₀ conn) _ (h₀.receiving S)
    intro u op v hi hok hstep
    obtain ⟨v', hv', hi'⟩ := hi.step hf hok
    obtain rfl : v' = v := Option.some.inj (hv'.symm.trans hstep)
    exact hi'
  refine ⟨?_, fun op hok => ?_⟩
  · obtain ⟨k, q, hs⟩ := hi.stream
    exact ⟨k, hs.le, hs.received, hs.nxt⟩
  -- a segment that is admitted returns
  · obtain ⟨w', hw', -⟩ := hi.step hf hok
    rw [hw']
    rfl

/-- `TcpWorld.boot` with a connection to `192.0.2.1` port 80. -/
def TcpWorld.connected (n₀ : BitVec 32) : TcpWorld :=
  { TcpWorld.boot with
    conn := fun p => if p = 0x1000 then
      { TcpConn.zero with
        state := .established
        intf := 1
        localAddr := .ofBytes 10 0 2 15
        nextAddr := .ofBytes 10 0 2 2
        remoteAddr := .ofBytes 192 0 2 1
        localPort := 1
        remotePort := 80
        snd := ⟨1, 1, 8192, 0, 0, 0, 0⟩
        rcv := ⟨n₀, 8192, 0, n₀ - 1⟩
        onData := true } else .zero
    tcpConnList := 0x1000
    bufs := { TcpWorld.boot.bufs with requests := 1 } }

/-- After boot no packet is on its way. -/
theorem TcpWorld.connected_refs (n₀ : BitVec 32) :
    RefInv nextFrame (TcpWorld.connected n₀).bufs (inFlight (TcpWorld.connected n₀).log) :=
  ⟨⟨⟨[], rfl, by simp, by simp⟩, by simp [TcpWorld.connected, TcpWorld.boot, inFlight],
    by simp [TcpWorld.connected, TcpWorld.boot, inFlight]⟩,
    by simp [TcpWorld.connected, TcpWorld.boot, inFlight]⟩

/-- A packet of the peer with bytes from position `off` on. -/
def peerSegment (S : List Byte) (n₀ : BitVec 32) (off len : Nat) (flags : BitVec 8) : TcpOp :=
  .recv (.ofBytes 192 0 2 1) (.ofBytes 10 0 2 15) IP_PROTOCOL_TCP
    (peerPacket (n₀ + BitVec.ofNat 32 off) 1 flags ((S.drop off).take len))

/-- Segments out of order, overlapping and repeated, around the end of the
    sequence numbers. -/
theorem tcp_stream_delivered_out_of_order :
    ∃ w, Run (tcpStep nextFrame) (ArrivalOk [1, 2, 3, 4, 5, 6, 7, 8] 0xFFFFFFFE 0x1000)
        (TcpWorld.connected 0xFFFFFFFE)
        [peerSegment [1, 2, 3, 4, 5, 6, 7, 8] 0xFFFFFFFE 3 4 TCP_ACK, .release 0x3000,
          peerSegment [1, 2, 3, 4, 5, 6, 7, 8] 0xFFFFFFFE 2 3 TCP_ACK,
          peerSegment [1, 2, 3, 4, 5, 6, 7, 8] 0xFFFFFFFE 0 3 TCP_ACK,
          peerSegment [1, 2, 3, 4, 5, 6, 7, 8] 0xFFFFFFFE 0 3 TCP_ACK] w ∧
      ∃ k ≤ 8, received 0x1000 w.log = [1, 2, 3, 4, 5, 6, 7, 8].take k ∧
        (w.conn 0x1000).rcv.nxt = 0xFFFFFFFE + BitVec.ofNat 32 k := by
  have hexec : (Run.exec (tcpStep nextFrame) (ArrivalOk [1, 2, 3, 4, 5, 6, 7, 8] 0xFFFFFFFE 0x1000)
      (TcpWorld.connected 0xFFFFFFFE)
      [peerSegment [1, 2, 3, 4, 5, 6, 7, 8] 0xFFFFFFFE 3 4 TCP_ACK, .release 0x3000,
        peerSegment [1, 2, 3, 4, 5, 6, 7, 8] 0xFFFFFFFE 2 3 TCP_ACK,
        peerSegment [1, 2, 3, 4, 5, 6, 7, 8] 0xFFFFFFFE 0 3 TCP_ACK,
        peerSegment [1, 2, 3, 4, 5, 6, 7, 8] 0xFFFFFFFE 0 3 TCP_ACK]).isSome := by decide +kernel
  obtain ⟨w, hw⟩ := Option.isSome_iff_exists.mp hexec
  have hrun := Run.of_exec hw
  have hstart : StreamStart nextFrame 0xFFFFFFFE 0x1000 (TcpWorld.connected 0xFFFFFFFE) :=
    ⟨by decide, rfl, rfl, rfl, rfl, rfl, rfl, TcpWorld.connected_refs _, by decide +kernel⟩
  exact ⟨w, hrun, (tcp_stream_delivered _ nextFrame_framesOk _ _ _ _ w _ hstart hrun).1⟩

end MishaOS
