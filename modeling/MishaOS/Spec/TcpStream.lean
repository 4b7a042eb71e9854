import MishaOS.Spec.TcpFrame
import MishaOS.Spec.TcpQueue

/-!
# The received stream

What a connection has passed to `on_data` is a prefix of the stream its peer
sends, and the resequence list holds later parts of it.  `Stream` is that
invariant, with the references to buffers it needs; sending segments and
changing states keep it, and `tcp_recv_data` extends the prefix.

## Key results

- `Stream.sendPacket`: sending a segment does not touch the stream.
- `Stream.recvData`: `tcp_recv_data` delivers the next bytes, in order.
- `Stream.release`: a buffer may be released when its reference is dropped.
-/

namespace MishaOS

open LinkedList Serial

/-! ## What the log says -/

/-- The bytes passed to `on_data` of a connection. -/
def received (conn : Nat) : List TcpEvent → List Byte
  | [] => []
  | .onData p data len :: l => if p = conn then received conn l ++ data.take len.toNat
    else received conn l
  | _ :: l => received conn l

/-- The buffers handed to `ipv4_intf_send` that are still in use there. -/
def inFlight : List TcpEvent → List Nat
  | [] => []
  | .ipSend _ _ _ packet _ :: l => packet :: inFlight l
  | .release packet :: l => (inFlight l).erase packet
  | _ :: l => inFlight l

/-- Events that are neither data, nor segments, nor releases. -/
def TcpEvent.isSilent : TcpEvent → Bool
  | .onData _ _ _ | .ipSend _ _ _ _ _ | .release _ => false
  | _ => true

theorem received_silent {e : TcpEvent} (he : e.isSilent) (conn : Nat) (l : List TcpEvent) :
    received conn (e :: l) = received conn l := by
  cases e <;> first | rfl | exact nomatch he

theorem inFlight_silent {e : TcpEvent} (he : e.isSilent) (l : List TcpEvent) :
    inFlight (e :: l) = inFlight l := by
  cases e <;> first | rfl | exact nomatch he

/-! ## The invariant -/

/-- `k` bytes of the stream have been delivered and `num n₀ r` is acknowledged
    next; the resequence list holds `q`.  `refs` are references to buffers of a
    call that has not returned. -/
structure Stream (frames : Nat → Nat) (S : List Byte) (n₀ : BitVec 32) (conn : Nat) (w : TcpWorld)
    (refs : List Nat) (k r : Nat) (q : List QSeg) : Prop where
  wnd : (w.conn conn).rcv.wnd = 8192
  nxt : (w.conn conn).rcv.nxt = num n₀ r
  onData : (w.conn conn).onData = true
  queue : Queue S n₀ w.bufs (w.conn conn).resequence k q
  refs : RefInv frames w.bufs (q.map QSeg.ptr ++ (refs ++ inFlight w.log))
  received : received conn w.log = S.take k
  le : k ≤ S.length

variable {frames : Nat → Nat} {S : List Byte} {n₀ : BitVec 32} {conn k r : Nat} {w w' : TcpWorld}
  {refs : List Nat} {q : List QSeg}

/-- Only what is received, the buffers and two readings of the log matter. -/
theorem Stream.congr (h : Stream frames S n₀ conn w refs k r q)
    (hrcv : (w'.conn conn).rcv = (w.conn conn).rcv)
    (hres : (w'.conn conn).resequence = (w.conn conn).resequence)
    (hdata : (w'.conn conn).onData = (w.conn conn).onData) (hbufs : w'.bufs = w.bufs)
    (hrec : MishaOS.received conn w'.log = MishaOS.received conn w.log)
    (hfly : inFlight w'.log = inFlight w.log) : Stream frames S n₀ conn w' refs k r q where
  wnd := by rw [hrcv]; exact h.wnd
  nxt := by rw [hrcv]; exact h.nxt
  onData := by rw [hdata]; exact h.onData
  queue := by rw [hbufs, hres]; exact h.queue
  refs := by rw [hbufs, hfly]; exact h.refs
  received := hrec.trans h.received
  le := h.le

theorem Stream.setSnd (h : Stream frames S n₀ conn w refs k r q) (x : TcpSndState) :
    Stream frames S n₀ conn (w.setSnd conn x) refs k r q :=
  h.congr (by simp [TcpWorld.setSnd]) (by simp [TcpWorld.setSnd]) (by simp [TcpWorld.setSnd]) rfl
    rfl rfl

theorem Stream.emit (h : Stream frames S n₀ conn w refs k r q) {e : TcpEvent} (he : e.isSilent) :
    Stream frames S n₀ conn (w.emit e) refs k r q :=
  h.congr rfl rfl rfl rfl (received_silent he conn w.log) (inFlight_silent he w.log)

theorem Stream.emit_if (h : Stream frames S n₀ conn w refs k r q) {e : TcpEvent} {c : Bool}
    (he : e.isSilent) : Stream frames S n₀ conn (if c then w.emit e else w) refs k r q := by
  split
  · exact h.emit he
  · exact h

theorem Stream.setState (h : Stream frames S n₀ conn w refs k r q) (state : TcpState) :
    Stream frames S n₀ conn (tcpSetState w conn state) refs k r q := by
  have hset : Stream frames S n₀ conn (w.setState conn state) refs k r q :=
    h.congr (by simp [TcpWorld.setState]) (by simp [TcpWorld.setState])
      (by simp [TcpWorld.setState])
      rfl rfl rfl
  exact hset.emit_if rfl

theorem Stream.timeWait (h : Stream frames S n₀ conn w refs k r q) :
    Stream frames S n₀ conn (tcpTimeWait w conn) refs k r q :=
  h.congr (by simp [tcpTimeWait, TcpWorld.setMslWait]) (by simp [tcpTimeWait, TcpWorld.setMslWait])
    (by simp [tcpTimeWait, TcpWorld.setMslWait]) rfl rfl rfl

/-! ## Sending -/

theorem Stream.transmit (hf : FramesOk frames) (h : Stream frames S n₀ conn w refs k r q) (p : Nat)
    (c : TcpConn) (seq : BitVec 32) (flags : BitVec 8) (data : List Byte) :
    Stream frames S n₀ conn (tcpTransmit frames w p c seq flags data) refs k r q := by
  obtain ⟨hnew, hrefs, hother, -⟩ := h.refs.alloc hf
  unfold tcpTransmit
  simp only
  generalize (netAllocBuf frames w.bufs).1 = packet at *
  generalize (netAllocBuf frames w.bufs).2 = b at *
  have hqueue :
    Queue S n₀ (b.setBuf packet { b.buf packet with data := (tcpSegment c seq flags data).toBytes })
      (w.conn conn).resequence k q := by
    apply h.queue.congr_of_eq
    intro s hs
    have hne : s.ptr ≠ packet := by
      intro heq
      apply hnew
      rw [← heq]
      exact List.mem_append_left _ (List.mem_map_of_mem hs)
    simp [hne, hother _ hne]
  refine ⟨h.wnd, h.nxt, h.onData, hqueue, ?_, h.received, h.le⟩
  -- the new buffer joins those in flight
  have hperm : (packet :: (q.map QSeg.ptr ++ (refs ++ inFlight w.log))).Perm
      (q.map QSeg.ptr ++ (refs ++ packet :: inFlight w.log)) := by
    rw [← List.append_assoc, ← List.append_assoc]
    exact List.perm_middle.symm
  apply RefInv.subperm _ hperm.symm.subperm
  exact hrefs.setBuf List.mem_cons_self rfl

/-- Sending a segment keeps the stream. -/
theorem Stream.sendPacket (hf : FramesOk frames) (h : Stream frames S n₀ conn w refs k r q)
    (seq : BitVec 32) (flags : BitVec 8) (data : List Byte) :
    Stream frames S n₀ conn (tcpSendPacket frames w conn seq flags data) refs k r q :=
  (h.transmit hf conn (w.conn conn) seq flags data).setSnd _

/-- A segment is built in a buffer of its own. -/
theorem Stream.sendPacket_buf (hf : FramesOk frames) (h : Stream frames S n₀ conn w refs k r q)
    {packet : Nat} (hp : packet ∈ refs) (seq : BitVec 32) (flags : BitVec 8) (data : List Byte) :
    (tcpSendPacket frames w conn seq flags data).bufs.buf packet = w.bufs.buf packet := by
  obtain ⟨hnew, -, hother, -⟩ := h.refs.alloc hf
  have hne : packet ≠ (netAllocBuf frames w.bufs).1 := by
    intro heq
    apply hnew
    rw [← heq]
    exact List.mem_append_right _ (List.mem_append_left _ hp)
  show ((netAllocBuf frames w.bufs).2.setBuf (netAllocBuf frames w.bufs).1 _).buf packet = _
  rw [BufPool.setBuf_buf, if_neg hne, hother packet hne]

/-! ## Releasing buffers -/

/-- One of the references is given up, in a call or by a driver: the queue keeps its own. -/
theorem Stream.free {packet : Nat} {refs' : List Nat} (h : Stream frames S n₀ conn w refs k r q)
    (hperm : (q.map QSeg.ptr ++ (refs ++ inFlight w.log)).Perm
      (packet :: (q.map QSeg.ptr ++ (refs' ++ inFlight w'.log))))
    (hbufs : w'.bufs = netFreeBuf w.bufs packet) (hconn : w'.conn conn = w.conn conn)
    (hrec : MishaOS.received conn w'.log = MishaOS.received conn w.log) :
    Stream frames S n₀ conn w' refs' k r q := by
  obtain ⟨hrefs, hother, hsame⟩ := (h.refs.subperm hperm.symm.subperm).free
  have hqueue : Queue S n₀ (netFreeBuf w.bufs packet) (w.conn conn).resequence k q := by
    apply h.queue.congr
    intro s hs
    -- the buffer that is released may be one of the queue, which keeps a reference
    by_cases heq : s.ptr = packet
    · obtain ⟨n, hn⟩ := hsame (heq ▸ List.mem_append_left _ (List.mem_map_of_mem hs))
      exact ⟨n, heq ▸ hn⟩
    · exact ⟨_, hother _ heq⟩
  rw [← hbufs] at hqueue hrefs
  rw [← hconn] at hqueue
  exact ⟨by rw [hconn]; exact h.wnd, by rw [hconn]; exact h.nxt,
    by rw [hconn]; exact h.onData, hqueue, hrefs,
    hrec.trans h.received, h.le⟩

/-- A reference of a running call is dropped. -/
theorem Stream.release {packet : Nat} (h : Stream frames S n₀ conn w (packet :: refs) k r q) :
    Stream frames S n₀ conn (w.setBufs (netFreeBuf w.bufs packet)) refs k r q :=
  h.free List.perm_middle rfl rfl rfl

/-- A driver releases a buffer that was handed to it. -/
theorem Stream.releaseSent {packet : Nat} (h : Stream frames S n₀ conn w refs k r q)
    (hp : packet ∈ inFlight w.log) :
    Stream frames S n₀ conn ((w.setBufs (netFreeBuf w.bufs packet)).emit (.release packet))
      refs k r q := by
  have hperm : (q.map QSeg.ptr ++ (refs ++ inFlight w.log)).Perm
      (packet :: (q.map QSeg.ptr ++ (refs ++ (inFlight w.log).erase packet))) := by
    rw [← List.append_assoc, ← List.append_assoc]
    exact ((List.perm_cons_erase hp).append_left _).trans List.perm_middle
  exact h.free hperm rfl rfl rfl

/-! ## Delivering -/

/-- Data has been delivered: the log grows by calls of `on_data`. -/
structure Delivers (conn : Nat) (w w' : TcpWorld) : Prop where
  state : (w'.conn conn).state = (w.conn conn).state
  log : ∃ l, w'.log = l ++ w.log ∧ ∀ e ∈ l, ∃ data len, e = .onData conn data len

theorem Delivers.trans {w'' : TcpWorld} (h : Delivers conn w w') (h' : Delivers conn w' w'') :
    Delivers conn w w'' := by
  obtain ⟨l, hl, hd⟩ := h.log
  obtain ⟨l', hl', hd'⟩ := h'.log
  refine ⟨h'.state.trans h.state, l' ++ l, by rw [hl', hl, List.append_assoc], fun e he => ?_⟩
  obtain he | he := List.mem_append.mp he
  · exact hd' e he
  · exact hd e he

/-- One turn of `tcp_recv_process` for a segment that is next. -/
def deliverHead (w : TcpWorld) (conn packet : Nat) : TcpWorld :=
  let dataLen := (w.bufs.buf packet).len32
  let w₁ := w.setRcv conn { (w.conn conn).rcv with nxt := (w.conn conn).rcv.nxt + dataLen }
  let w₂ := w₁.emit (.onData conn (w.bufs.buf packet).data dataLen)
  (w₂.setBufs (netFreeBuf w.bufs packet)).setResequence conn (w.bufs.buf packet).link

theorem tcpRecvProcessFrom_next {fuel packet : Nat} (h0 : packet ≠ 0)
    (hnext : (w.conn conn).rcv.nxt = (w.bufs.buf packet).seq)
    (hdata : (w.conn conn).onData = true) :
    tcpRecvProcessFrom conn (fuel + 1) w packet =
      tcpRecvProcessFrom conn fuel (deliverHead w conn packet) (w.bufs.buf packet).link := by
  rw [tcpRecvProcessFrom, if_neg h0]
  simp only [ne_eq, hnext, not_true_eq_false, if_false]
  rw [if_pos (by simpa [TcpWorld.setRcv] using hdata)]
  simp only [deliverHead, hnext]
  rfl

theorem deliverHead_conn (w : TcpWorld) (conn packet : Nat) :
    (deliverHead w conn packet).conn conn = { w.conn conn with
      rcv := { (w.conn conn).rcv with nxt := (w.conn conn).rcv.nxt + (w.bufs.buf packet).len32 }
      resequence := (w.bufs.buf packet).link } := by
  simp [deliverHead, TcpWorld.setResequence, TcpWorld.setBufs, TcpWorld.emit, TcpWorld.setRcv]

/-- The segment at the head of the list is next: it is delivered. -/
theorem Stream.deliverHead {s : QSeg} (h : Stream frames S n₀ conn w refs k k (s :: q))
    (hs : s.off = k) :
    Stream frames S n₀ conn (deliverHead w conn s.ptr) refs (k + s.len) (k + s.len) q := by
  subst hs
  have hc := h.queue.carries s List.mem_cons_self
  have hw := h.queue.window s List.mem_cons_self
  have hconn := deliverHead_conn w conn s.ptr
  obtain ⟨hrefs, hother, -⟩ := RefInv.free (p := s.ptr) h.refs
  have hnodup := (List.nodup_cons.mp h.queue.chain.nodup).1
  -- the rest of the queue is in other buffers
  have htail : Queue S n₀ (netFreeBuf w.bufs s.ptr) (w.bufs.buf s.ptr).link s.off q := by
    apply h.queue.tail.congr_of_eq
    exact fun t ht => hother _ fun heq => hnodup (heq ▸ List.mem_map_of_mem ht)
  refine ⟨?_, ?_, ?_, ?_, hrefs, ?_, ?_⟩
  · rw [hconn]
    exact h.wnd
  · rw [hconn]
    show (w.conn conn).rcv.nxt + _ = _
    rw [h.nxt, hc.len32, num_add]
  · rw [hconn]
    exact h.onData
  -- the queue goes on behind the segment
  · rw [hconn]
    refine ⟨htail.chain, htail.carries, htail.sorted, fun t ht => ?_, htail.short⟩
    have hle := (List.pairwise_cons.mp h.queue.sorted).1 t ht
    have hwt := htail.window t ht
    omega
  · -- the callback gets exactly the bytes of the segment
    have htake : (w.bufs.buf s.ptr).data.take (w.bufs.buf s.ptr).len32.toNat =
        slice S s.off s.len := by
      rw [hc.len32, BitVec.toNat_ofNat, Nat.mod_eq_of_lt (by omega), hc.data,
        slice_take _ _ (Nat.le_refl _)]
    show MishaOS.received conn (.onData conn _ _ :: w.log) = _
    rw [MishaOS.received, if_pos rfl, h.received, htake, take_append_slice]
  · have hle := h.le
    have hc' := hc.le
    omega

theorem deliverHead_delivers (w : TcpWorld) (conn packet : Nat) :
    Delivers conn w (deliverHead w conn packet) := by
  refine ⟨?_, [_], rfl, by simp⟩
  rw [deliverHead_conn]

/-- `tcp_recv_process` delivers the segments that are next, in order. -/
theorem Stream.process {fuel bound : Nat} (h : Stream frames S n₀ conn w refs k k q)
    (hbound : ∀ s ∈ q, s.off + s.len ≤ bound) (hk : k ≤ bound) (hfuel : q.length < fuel) :
    ∃ w' k' q', tcpRecvProcessFrom conn fuel w (w.conn conn).resequence = some w' ∧
      Stream frames S n₀ conn w' refs k' k' q' ∧ k ≤ k' ∧ k' ≤ bound ∧
      (∀ e, Reach k q e → e ≤ k') ∧ Delivers conn w w' := by
  -- along the queue
  induction q generalizing w k fuel with
  | nil =>
    obtain ⟨fuel, rfl⟩ : ∃ n, fuel = n + 1 := ⟨fuel - 1, by simp at hfuel; omega⟩
    have hhead : (w.conn conn).resequence = 0 := h.queue.chain
    refine ⟨w, k, [], ?_, h, Nat.le_refl k, hk, fun e he => he, rfl, [], rfl, by simp⟩
    rw [hhead]
    rfl
  | cons s q ih =>
    obtain ⟨fuel, rfl⟩ : ∃ n, fuel = n + 1 := ⟨fuel - 1, by simp at hfuel; omega⟩
    obtain ⟨hhead, h0, -⟩ := h.queue.chain
    have hc := h.queue.carries s List.mem_cons_self
    have hw := h.queue.window s List.mem_cons_self
    have hs := hbound s List.mem_cons_self
    rw [hhead]
    by_cases hnext : s.off = k
    · -- the bytes in front have all been delivered
      obtain ⟨w', k', q', hproc, hstream', hle, hb, hreach, hdel⟩ := ih (h.deliverHead hnext)
        (fun t ht => hbound t (List.mem_cons_of_mem s ht)) (by omega) (by simpa using hfuel)
      refine ⟨w', k', q', ?_, hstream', by omega, hb, fun e he => ?_,
        (deliverHead_delivers w conn s.ptr).trans hdel⟩
      case refine_2 =>
        obtain he | ⟨-, he⟩ := he
        · omega
        · exact hreach e he
      rw [tcpRecvProcessFrom_next h0 (by rw [h.nxt, hc.seq, hnext]) h.onData, ← hproc,
        deliverHead_conn]
    · -- a gap: this segment and those behind it wait
      have hne : (w.conn conn).rcv.nxt ≠ (w.bufs.buf s.ptr).seq := by
        rw [h.nxt, hc.seq]
        exact fun heq => hnext (num_inj n₀ hw.1 (by omega) heq.symm)
      simp only [tcpRecvProcessFrom, if_neg h0, if_pos hne]
      exact ⟨w, k, s :: q, rfl, h, Nat.le_refl k, hk,
        fun e he => he.elim id fun he => absurd he.1 hnext,
        rfl, [], rfl, by simp⟩

/-- `tcp_recv_data` of a segment in the window: more of the stream is
    delivered, a segment that is next entirely, and the new prefix is
    acknowledged. -/
theorem Stream.recvData {packet off len : Nat}
    (h : Stream frames S n₀ conn w (packet :: refs) k k q)
    (hstate : (w.conn conn).state ∈ [.established, .finWait1, .finWait2])
    (hp : Carries S n₀ (w.bufs.buf packet) off len) (hnot : packet ∉ q.map QSeg.ptr)
    (hlink : (w.bufs.buf packet).link = 0) (hone : (w.bufs.buf packet).refCount = 1)
    (hoff : k ≤ off) (hwin : off + len ≤ k + 8192) :
    ∃ w₁ k' q', tcpRecvData frames w conn packet = some (tcpSendAck frames w₁ conn) ∧
      Stream frames S n₀ conn w₁ (packet :: refs) k' k' q' ∧ k ≤ k' ∧ k' ≤ k + 8192 ∧
      (off = k → off + len ≤ k') ∧ Delivers conn w w₁ := by
  have hmem : packet ∈ q.map QSeg.ptr ++ (packet :: refs ++ inFlight w.log) := by simp
  generalize hx : ({ w.bufs.buf packet with
    refCount := u32 ((w.bufs.buf packet).refCount + 1) } : NetBuf) = x
  have hcount : x.refCount = (w.bufs.buf packet).refCount + 1 := by
    rw [← hx, hone]
    exact u32_of_lt (by decide)
  -- the list takes a reference of its own
  have href := h.refs.ref hmem hcount (by rw [hcount, hone]; decide)
  have hqueue : Queue S n₀ (w.bufs.setBuf packet x) (w.conn conn).resequence k q := by
    apply h.queue.congr_of_eq
    intro s hs
    have hne : s.ptr ≠ packet := fun heq => hnot (heq ▸ List.mem_map_of_mem hs)
    simp [hne]
  have hbuf : (w.bufs.setBuf packet x).buf packet = x := by simp
  have hpx : Carries S n₀ ((w.bufs.setBuf packet x).buf packet) off len := by
    rw [hbuf, ← hx]
    exact hp.congr rfl rfl rfl
  have hlx : ((w.bufs.setBuf packet x).buf packet).link = 0 := by
    rw [hbuf, ← hx]
    exact hlink
  obtain ⟨b', head', q₁, hins, hq₁, href₁, hnew⟩ :=
    tcpRecvInsert_spec hqueue hpx hnot hlx hoff hwin href
  generalize hw₁ : ((w.setBuf packet x).setBufs b').setResequence conn head' = w₁
  have hconn : w₁.conn conn = { w.conn conn with resequence := head' } := by
    simp [← hw₁, TcpWorld.setResequence, TcpWorld.setBufs, TcpWorld.setBuf]
  have hbufs : w₁.bufs = b' := by rw [← hw₁]; rfl
  have hlog : w₁.log = w.log := by rw [← hw₁]; rfl
  have hstream : Stream frames S n₀ conn w₁ (packet :: refs) k k q₁ := by
    refine ⟨?_, ?_, ?_, ?_, ?_, ?_, h.le⟩
    · rw [hconn]
      exact h.wnd
    · rw [hconn]
      exact h.nxt
    · rw [hconn]
      exact h.onData
    · rw [hconn, hbufs]
      exact hq₁
    · rw [hbufs, hlog]
      exact href₁
    · rw [hlog]
      exact h.received
  obtain ⟨w₂, k', q', hproc, hstream', hle, hb, hreach, hdel⟩ := hstream.process
    (fun s hs => (hq₁.window s hs).2) (Nat.le_add_right k 8192)
    (Nat.lt_of_le_of_lt hq₁.short (show 2 < walkFuel by decide))
  refine ⟨w₂, k', q', ?_, hstream', hle, hb, fun heq => hreach _ (hnew heq), ?_⟩
  · have hdata : tcpRecvData frames w conn packet =
        (tcpRecvInsert (w.setBuf packet x).bufs (w.conn conn).resequence packet).bind fun r =>
          (tcpRecvProcess (((w.setBuf packet x).setBufs r.1).setResequence conn r.2) conn).map
            fun w => tcpSendAck frames w conn := by
      simp only [List.mem_cons, List.not_mem_nil, or_false] at hstate
      unfold tcpRecvData
      obtain hs | hs | hs := hstate <;> rw [hs, ← hx] <;> rfl
    rw [hdata]
    show (tcpRecvInsert (w.bufs.setBuf packet x) _ _).bind _ = _
    rw [hins, Option.bind_some, hw₁]
    unfold tcpRecvProcess
    rw [hproc, Option.map_some]
  · have hfirst : Delivers conn w w₁ := ⟨by rw [hconn], [], by rw [hlog]; rfl, by simp⟩
    exact hfirst.trans hdel

end MishaOS
