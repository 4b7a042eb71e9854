import MishaOS.Spec.TcpShift

/-!
# Shifted segments

Two states of a connection with shifted numbers process a segment and the shifted
segment.  `Shifted` relates them at every step, and the handlers are followed one by
one.  `tcp_free` releases the queue, so that a closed connection has lost its
buffers: `Pending` and `Follows` allow for it.

## Key results

- `Shifted.send`, `Shifted.free`: what both runs send and release.
- `Shifted.recvAck`: the acknowledgement, if that of a SYN compares alike.
- `Shifted.data`, `Follows.fin`: the payload and the FIN.
-/

namespace MishaOS

open LinkedList

/-! ## States -/

/-- A segment that is sent is seen without its numbers and its checksum. -/
def TcpEvent.unnumbered : TcpEvent → TcpEvent
  | .ipSend conn intf nextAddr packet seg =>
    .ipSend conn intf nextAddr packet
      { seg with header := { seg.header with seq := 0, ack := 0, checksum := 0 } }
  | e => e

/-- Callbacks, deliveries and segments, newest first. -/
def observed (log : List TcpEvent) : List TcpEvent := log.map TcpEvent.unnumbered

/-- What belongs neither to a connection nor to a buffer. -/
def TcpWorld.outside (w : TcpWorld) :
    Nat × Nat × RouteTable × (Nat → NetIntf) × BitVec 16 × BitVec 32 × BitVec 32 :=
  (w.tcpConnList, w.freeConnList, w.routes, w.intf, w.nextPort, w.baseIsn, w.ticks)

/-- The connection `q` is shifted, and so are the segments in the buffers of `H`, which are
    allocated.  `link` gives the links of these buffers and `head` the start of the queue. -/
structure Shifted (frames : Nat → Nat) (a b : BitVec 32) (q : Nat) (H : Set Nat)
    (link : Nat → Nat) (head : Nat) (w w' : TcpWorld) : Prop where
  conn : w'.conn = Function.update w.conn q ((w.conn q).shift a b)
  outside : w'.outside = w.outside
  bufs : PoolShift b H w.bufs w'.bufs
  pool : PoolInv frames w.bufs H
  log : observed w'.log = observed w.log
  link : ∀ p ∈ H, (w.bufs.buf p).link = link p
  head : (w.conn q).resequence = head

variable {frames : Nat → Nat} {a b : BitVec 32} {q head packet : Nat} {H : Set Nat}
    {link : Nat → Nat}
  {w w' : TcpWorld} {l : List Nat} {header : TcpHeader}

/-- The connection is the shifted one. -/
theorem Shifted.self (h : Shifted frames a b q H link head w w') :
    w'.conn q = (w.conn q).shift a b := by
  rw [h.conn, Function.update_self]

/-- Its state is the same. -/
theorem Shifted.state (h : Shifted frames a b q H link head w w') :
    (w'.conn q).state = (w.conn q).state := by
  rw [h.self]
  rfl

/-- The clock is the same. -/
theorem Shifted.ticks (h : Shifted frames a b q H link head w w') : w'.ticks = w.ticks :=
  congrArg (·.2.2.2.2.2.2) h.outside

/-- So is the free list. -/
theorem Shifted.freeConnList (h : Shifted frames a b q H link head w w') :
    w'.freeConnList = w.freeConnList :=
  congrArg (·.2.1) h.outside

/-- The structure of the connection is written. -/
theorem Shifted.setConn (h : Shifted frames a b q H link head w w') {c c' : TcpConn}
    (hc : c' = c.shift a b) (hhead : c.resequence = head) :
    Shifted frames a b q H link head (w.setConn q c) (w'.setConn q c') := by
  refine { h with conn := ?_, outside := h.outside, head := ?_ }
  · simp only [TcpWorld.setConn, Function.update_self, Function.update_idem]
    rw [h.conn, Function.update_idem, hc]
  · simpa [TcpWorld.setConn] using hhead

/-- The structure is written from itself, in the same way in both runs. -/
theorem Shifted.modify (h : Shifted frames a b q H link head w w') {f g : TcpConn → TcpConn}
    (hfg : ∀ c, g (c.shift a b) = (f c).shift a b) (hhead : ∀ c, (f c).resequence = c.resequence) :
    Shifted frames a b q H link head (w.setConn q (f (w.conn q)))
      (w'.setConn q (g (w'.conn q))) := by
  apply h.setConn
  · rw [h.self, hfg]
  · rw [hhead, h.head]

/-- A link of the connection lists is written. -/
theorem Shifted.setPrev (h : Shifted frames a b q H link head w w') (p n : Nat) :
    Shifted frames a b q H link head (w.setConn p { w.conn p with prev := n })
      (w'.setConn p { w'.conn p with prev := n }) := by
  by_cases hp : p = q
  · subst hp
    exact h.modify (f := fun c => { c with prev := n }) (g := fun c => { c with prev := n })
      (fun _ => rfl) fun _ => rfl
  · have hsame : w'.conn p = w.conn p := by rw [h.conn, Function.update_of_ne hp]
    refine { h with conn := ?_, outside := h.outside, head := ?_ }
    · simp only [TcpWorld.setConn, hsame]
      rw [h.conn, Function.update_of_ne (Ne.symm hp), Function.update_comm hp]
    · simpa [TcpWorld.setConn, Ne.symm hp] using h.head

/-- An event is recorded on both sides. -/
theorem Shifted.emit (h : Shifted frames a b q H link head w w') {e e' : TcpEvent}
    (he : e'.unnumbered = e.unnumbered) :
    Shifted frames a b q H link head (w.emit e) (w'.emit e') := by
  refine { h with log := ?_, outside := h.outside }
  show e'.unnumbered :: observed w'.log = e.unnumbered :: observed w.log
  rw [he, h.log]

/-- The same behind a test. -/
theorem Shifted.emit_if (h : Shifted frames a b q H link head w w') (e : TcpEvent) {c c' : Bool}
    (hc : c' = c) :
    Shifted frames a b q H link head (if c then w.emit e else w)
      (if c' then w'.emit e else w') := by
  subst hc
  split
  · exact h.emit rfl
  · exact h

/-- Both runs fill a buffer outside `H`. -/
theorem Shifted.alloc (hf : FramesOk frames) (h : Shifted frames a b q H link head w w')
    (data data' : List Byte) :
    (netAllocBuf frames w'.bufs).1 = (netAllocBuf frames w.bufs).1 ∧
      Shifted frames a b q H link head
        (w.setBufs ((netAllocBuf frames w.bufs).2.setBuf (netAllocBuf frames w.bufs).1
          { (netAllocBuf frames w.bufs).2.buf (netAllocBuf frames w.bufs).1 with data := data }))
        (w'.setBufs ((netAllocBuf frames w'.bufs).2.setBuf (netAllocBuf frames w'.bufs).1
          { (netAllocBuf frames w'.bufs).2.buf (netAllocBuf frames w'.bufs).1
            with data := data' })) := by
  -- the allocator looks at nothing that is shifted
  obtain ⟨hsame, hshift⟩ := h.bufs.alloc frames
  obtain ⟨hnew, hpool, hother, -⟩ := netAllocBuf_spec hf h.pool
  rw [hsame]
  generalize (netAllocBuf frames w.bufs).1 = r at hnew hpool hother hshift ⊢
  have hne : ∀ p ∈ H, p ≠ r := fun p hp heq => hnew (heq ▸ hp)
  refine ⟨rfl, { h with outside := h.outside, bufs := ?_, pool := ?_, link := ?_ }⟩
  · apply hshift.setBuf
    · exact hshift.link r
    · exact hshift.refCount r
    · exact fun hr => absurd hr hnew
    · exact fun p hp hpr => ⟨hp, hpr⟩
  · exact (hpool.setBuf (Set.mem_insert r H) _).anti (Set.subset_insert r H)
  -- the segments of the queue are in other buffers
  · intro p hp
    rw [TcpWorld.setBufs, BufPool.setBuf_buf, if_neg (hne p hp), hother p (hne p hp)]
    exact h.link p hp

/-- Apart from their numbers the segments are the same. -/
theorem tcpSegment_unnumbered (c : TcpConn) (seq seq' : BitVec 32) (flags : BitVec 8)
    (data : List Byte) (conn packet : Nat) :
    (TcpEvent.ipSend conn (c.shift a b).intf (c.shift a b).nextAddr packet
        (tcpSegment (c.shift a b) seq' flags data)).unnumbered =
      (TcpEvent.ipSend conn c.intf c.nextAddr packet (tcpSegment c seq flags data)).unnumbered :=
        rfl

/-- Both sides move `snd.nxt` by the same length. -/
theorem tcpSndNxt_shift (nxt : BitVec 32) (flags : BitVec 8) (data : List Byte) :
    tcpSndNxt (nxt + a) flags data = tcpSndNxt nxt flags data + a := by
  unfold tcpSndNxt
  simp only
  split
  · rw [add_right_comm nxt a, add_right_comm _ a]
  · rw [add_right_comm nxt a]

/-- `tcp_send_packet`; the number of the segment need not be shifted. -/
theorem Shifted.send (hf : FramesOk frames) (h : Shifted frames a b q H link head w w')
    (seq seq' : BitVec 32) (flags : BitVec 8) (data : List Byte) :
    Shifted frames a b q H link head (tcpSendPacket frames w q seq flags data)
      (tcpSendPacket frames w' q seq' flags data) := by
  -- first the transmission, then the number of the next segment
  have htransmit : Shifted frames a b q H link head
    (tcpTransmit frames w q (w.conn q) seq flags data)
      (tcpTransmit frames w' q (w'.conn q) seq' flags data) := by
    obtain ⟨hsame, hfill⟩ := h.alloc hf (tcpSegment (w.conn q) seq flags data).toBytes
      (tcpSegment (w'.conn q) seq' flags data).toBytes
    have hsent :
      (TcpEvent.ipSend q (w'.conn q).intf (w'.conn q).nextAddr (netAllocBuf frames w'.bufs).1
          (tcpSegment (w'.conn q) seq' flags data)).unnumbered =
        (TcpEvent.ipSend q (w.conn q).intf (w.conn q).nextAddr (netAllocBuf frames w.bufs).1
          (tcpSegment (w.conn q) seq flags data)).unnumbered := by
      -- a segment in the log is compared without its numbers
      rw [hsame, h.self]
      exact tcpSegment_unnumbered (w.conn q) seq seq' flags data q _
    exact hfill.emit hsent
  apply htransmit.modify (f := fun c =>
    { c with snd := { c.snd with nxt := tcpSndNxt c.snd.nxt flags data } })
    (g := fun c => { c with snd := { c.snd with nxt := tcpSndNxt c.snd.nxt flags data } })
  · intro c
    simp [TcpConn.shift, tcpSndNxt_shift]
  · exact fun _ => rfl

/-- Both sides acknowledge. -/
theorem Shifted.ack (hf : FramesOk frames) (h : Shifted frames a b q H link head w w') :
    Shifted frames a b q H link head (tcpSendAck frames w q) (tcpSendAck frames w' q) :=
  h.send hf _ _ TCP_ACK []

/-- `tcp_set_state` -/
theorem Shifted.setState (h : Shifted frames a b q H link head w w') (state : TcpState) :
    Shifted frames a b q H link head (tcpSetState w q state) (tcpSetState w' q state) := by
  have hset : Shifted frames a b q H link head (w.setState q state) (w'.setState q state) :=
    h.modify (f := fun c => { c with state := state }) (g := fun c => { c with state := state })
      (fun _ => rfl) fun _ => rfl
  unfold tcpSetState
  simp only [h.state]
  apply hset.emit_if
  rw [hset.self]
  rfl

/-- Both sides start the timer. -/
theorem Shifted.timeWait (h : Shifted frames a b q H link head w w') :
    Shifted frames a b q H link head (tcpTimeWait w q) (tcpTimeWait w' q) := by
  unfold tcpTimeWait
  rw [h.ticks]
  exact h.modify (f := fun c => { c with mslWait := w.ticks + 2 * TCP_MSL })
    (g := fun c => { c with mslWait := w.ticks + 2 * TCP_MSL }) (fun _ => rfl) fun _ => rfl

/-- Fewer buffers are compared. -/
theorem Shifted.anti {K : Set Nat} (h : Shifted frames a b q H link head w w') (hsub : K ⊆ H) :
    Shifted frames a b q K link head w w' :=
  { h with
    outside := h.outside
    bufs := h.bufs.anti hsub
    pool := h.pool.anti hsub
    link := fun p hp => h.link p (hsub hp) }

/-- The waiting segments are the same list. -/
theorem Shifted.chain {cur : Nat} (h : Shifted frames a b q H link head w w')
    (hc : Chain link 0 cur l)
    (hl : ∀ p ∈ l, p ∈ H) : Chain (fun p => (w.bufs.buf p).link) 0 cur l :=
  hc.congr fun p hp => h.link p (hl p hp)

/-- The end of `tcp_free`. -/
theorem Shifted.freeLink (h : Shifted frames a b q H link head w w') :
    Shifted frames a b q H link head (tcpFreeLink w q) (tcpFreeLink w' q) := by
  unfold tcpFreeLink
  rw [h.freeConnList]
  -- both free lists have the same head
  have hprev : Shifted frames a b q H link head
      (if w.freeConnList ≠ 0 then w.setConn w.freeConnList { w.conn w.freeConnList with prev := q }
        else w)
      (if w.freeConnList ≠ 0 then w'.setConn w.freeConnList
        { w'.conn w.freeConnList with prev := q }
        else w') := by
    split
    · exact h.setPrev _ _
    · exact h
  generalize (if w.freeConnList ≠ 0 then
    w.setConn w.freeConnList { w.conn w.freeConnList with prev := q } else w) = u at hprev ⊢
  generalize (if w.freeConnList ≠ 0 then
    w'.setConn w.freeConnList { w'.conn w.freeConnList with prev := q } else w') = u' at hprev ⊢
  simp only [hprev.freeConnList]
  -- the connection becomes the head, with links that are not shifted
  have hlink := hprev.modify (f := fun c => { c with next := u.freeConnList, prev := 0 })
    (g := fun c => { c with next := u.freeConnList, prev := 0 }) (fun _ => rfl) fun _ => rfl
  apply Shifted.emit _ rfl
  refine { hlink with outside := ?_ }
  have hout := hlink.outside
  simp only [TcpWorld.outside, Prod.mk.injEq, true_and] at hout ⊢
  exact ⟨hout.1, hout.2.2⟩

/-- `tcp_free`; the queue is released. -/
theorem Shifted.free (h : Shifted frames a b q H link head w w') (hc : Chain link 0 head l)
    (hl : ∀ p ∈ l, p ∈ H) :
    Option.Rel (Shifted frames a b q ∅ link head) (tcpFree w q) (tcpFree w' q) := by
  unfold tcpFree
  rw [h.state]
  split
  · have hset := h.setState .closed
    have hhead : ((tcpSetState w' q .closed).conn q).resequence = head := by
      rw [hset.self]
      exact hset.head
    simp only [hset.head, hhead]
    apply rel_map (tcpFreeQueue_shift walkFuel hset.bufs hset.pool (hset.chain hc hl) hl)
    intro x y ⟨hshift, hpool⟩
    apply Shifted.freeLink
    exact { hset with outside := hset.outside, bufs := hshift, pool := hpool, link := nofun }
  · exact .some (h.freeLink.anti (Set.empty_subset H))

/-- Both sides release the connection. -/
theorem Shifted.error (h : Shifted frames a b q H link head w w') (hc : Chain link 0 head l)
    (hl : ∀ p ∈ l, p ∈ H) (error : Nat) :
    Option.Rel (Shifted frames a b q ∅ link head) (tcpError w q error) (tcpError w' q error) := by
  apply Shifted.free _ hc hl
  apply h.emit_if
  rw [h.self]
  rfl

/-! ## Handlers -/

/-- `tcp_recv_syn_sent`, for a SYN without RST. -/
theorem Shifted.synSentOpen (hf : FramesOk frames) (h : Shifted frames a b q H link head w w') :
    Shifted frames a b q H link head (tcpRecvSynSentOpen frames w q header)
      (tcpRecvSynSentOpen frames w' q (header.shift a b)) := by
  unfold tcpRecvSynSentOpen
  -- the numbers of the SYN are shifted as the header is
  have hrcv := h.modify
    (f := fun c => { c with rcv := { c.rcv with irs := header.seq, nxt := header.seq + 1 } })
    (g := fun c =>
      { c with rcv := { c.rcv with irs := header.seq + b, nxt := header.seq + b + 1 } })
    (fun c => by simp [TcpConn.shift, add_right_comm]) fun _ => rfl
  extract_lets r u s u₁ u₂ u₃ v s₁ v₁ r' u' s' u₁' u₂' u₃' v' s₁' v₁'
  replace hrcv : Shifted frames a b q H link head u u' := hrcv
  clear_value u u'
  rw [TcpHeader.shift_flags]
  split
  · -- the connection is open
    have hsnd : Shifted frames a b q H link head u₁ u₁' := hrcv.modify
      (f := fun c => { c with snd := { c.snd with
        una := header.ack, wnd := header.windowSize.zeroExtend 32, wl1 := header.seq, wl2 :=
          header.ack } })
      (g := fun c => { c with snd := { c.snd with
        una := header.ack + a, wnd := header.windowSize.zeroExtend 32, wl1 := header.seq + b,
        wl2 := header.ack + a } })
      (fun _ => rfl) fun _ => rfl
    have hack : Shifted frames a b q H link head u₃ u₃' := (hsnd.setState .established).ack hf
    apply hack.emit_if
    rw [hack.self]
    rfl
  -- both sides called: `snd.nxt` is counted back in both runs
  · have hsnd : Shifted frames a b q H link head v₁ v₁' := (hrcv.setState .synReceived).modify
      (f := fun c => { c with snd := { c.snd with nxt := c.snd.nxt - 1 } })
      (g := fun c => { c with snd := { c.snd with nxt := c.snd.nxt - 1 } })
      (fun c => by simp [TcpConn.shift, add_sub_right_comm]) fun _ => rfl
    exact hsnd.send hf _ _ _ _

/-- The test of `tcp_recv_syn_sent` does not see the shift. -/
theorem synSentAckBad_shift (c : TcpConn) (header : TcpHeader) :
    synSentAckBad (c.shift a b) (header.shift a b) = synSentAckBad c header := by
  simp [synSentAckBad, TcpConn.shift, TcpHeader.shift, seqDiff_shift]

/-- What a handler leaves before the data of the segment is looked at: a connection that is
    closed has lost its queue. -/
def Pending (frames : Nat → Nat) (a b : BitVec 32) (q : Nat) (H : Set Nat) (link : Nat → Nat)
    (head : Nat) (w w' : TcpWorld) : Prop :=
  Shifted frames a b q H link head w w' ∨
    (w.conn q).state = .closed ∧ Shifted frames a b q ∅ link head w w'

/-- `tcp_free` and `tcp_error` close the connection. -/
theorem Shifted.free_pending (h : Shifted frames a b q H link head w w') (hc : Chain link 0 head l)
    (hl : ∀ p ∈ l, p ∈ H) :
    Option.Rel (Pending frames a b q H link head) (tcpFree w q) (tcpFree w' q) := by
  have hclosed : ∀ u, tcpFree w q = some u → (u.conn q).state = .closed := by
    intro u hfree
    rw [tcpFree_conn hfree]
  exact rel_imp (h.free hc hl) fun u u' hfree hshift => .inr ⟨hclosed u hfree, hshift⟩

/-- Behind a release only buffers that wait may differ. -/
theorem Shifted.error_pending (h : Shifted frames a b q H link head w w') (hc : Chain link 0 head l)
    (hl : ∀ p ∈ l, p ∈ H) (error : Nat) :
    Option.Rel (Pending frames a b q H link head) (tcpError w q error) (tcpError w' q error) := by
  apply Shifted.free_pending _ hc hl
  apply h.emit_if
  rw [h.self]
  rfl

/-- `tcp_recv_syn_sent` -/
theorem Shifted.synSent (hf : FramesOk frames) (h : Shifted frames a b q H link head w w')
    (hc : Chain link 0 head l) (hl : ∀ p ∈ l, p ∈ H) :
    Option.Rel (Pending frames a b q H link head) (tcpRecvSynSent frames w q header)
      (tcpRecvSynSent frames w' q (header.shift a b)) := by
  unfold tcpRecvSynSent
  rw [h.self, synSentAckBad_shift, TcpHeader.shift_flags]
  split
  · split
    · exact .some (.inl h)
    · exact .some (.inl (h.send hf _ _ _ _))
  split
  · split
    · exact h.error_pending hc hl _
    · exact .some (.inl h)
  split
  · exact .some (.inl (h.synSentOpen hf))
  · exact .some (.inl h)

/-- `tcp_recv_rst` -/
theorem Shifted.rst (h : Shifted frames a b q H link head w w') (hc : Chain link 0 head l)
    (hl : ∀ p ∈ l, p ∈ H) :
    Option.Rel (Pending frames a b q H link head) (tcpRecvRst w q) (tcpRecvRst w' q) := by
  unfold tcpRecvRst
  rw [h.state]
  split
  case h_9 => exact .some (.inl h)
  all_goals first
    | exact h.error_pending hc hl _
    | exact h.free_pending hc hl

/-- `tcp_recv_syn` -/
theorem Shifted.syn (hf : FramesOk frames) (h : Shifted frames a b q H link head w w')
    (hc : Chain link 0 head l) (hl : ∀ p ∈ l, p ∈ H) :
    Option.Rel (Pending frames a b q H link head) (tcpRecvSyn frames w q)
      (tcpRecvSyn frames w' q) :=
  (h.send hf _ _ _ _).error_pending hc hl _

/-- The acknowledgement does not see the shift. -/
theorem tcpAckUpdate_shift (c : TcpConn) (header : TcpHeader) :
    tcpAckUpdate (c.shift a b).snd (header.shift a b) =
      (TcpConn.shift a b { c with snd := tcpAckUpdate c.snd header }).snd := by
  unfold tcpAckUpdate
  simp only [TcpConn.shift, TcpHeader.shift, seqDiff_shift, add_shift_cancel]
  split
  · split <;> rfl
  · rfl

/-- `tcp_recv_ack` in `TCP_ESTABLISHED` to `TCP_CLOSING`. -/
theorem Shifted.ackOpen (hf : FramesOk frames) (h : Shifted frames a b q H link head w w') :
    Shifted frames a b q H link head (tcpRecvAckOpen frames w q header)
      (tcpRecvAckOpen frames w' q (header.shift a b)) := by
  have hset : Shifted frames a b q H link head (w.setSnd q (tcpAckUpdate (w.conn q).snd header))
      (w'.setSnd q (tcpAckUpdate (w'.conn q).snd (header.shift a b))) := by
    apply h.setConn
    -- the comparisons of `tcp_ack_update` are of differences
    · rw [h.self, tcpAckUpdate_shift]
      rfl
    · exact h.head
  unfold tcpRecvAckOpen
  extract_lets u u'
  replace hset : Shifted frames a b q H link head u u' := hset
  clear_value u u'
  -- and so is the one that follows
  have hnxt : seqDiff (header.shift a b).ack (u'.conn q).snd.nxt =
      seqDiff header.ack (u.conn q).snd.nxt := by
    rw [hset.self]
    exact seqDiff_shift _ _ _
  rw [hnxt, hset.state]
  split
  · exact hset.ack hf
  split
  · split
    · exact hset.setState _
    · exact (hset.setState _).timeWait
    · exact hset
  · exact hset

/-- `tcp_recv_ack` -/
theorem Shifted.recvAck (hf : FramesOk frames) (h : Shifted frames a b q H link head w w')
    (hc : Chain link 0 head l) (hl : ∀ p ∈ l, p ∈ H)
    (hok : (w.conn q).state = .synReceived →
      synAckOk ((w.conn q).shift a b).snd (header.shift a b) = synAckOk (w.conn q).snd header) :
    Option.Rel (Pending frames a b q H link head) (tcpRecvAck frames w q header)
      (tcpRecvAck frames w' q (header.shift a b)) := by
  have hnxt : seqDiff (header.shift a b).ack (w'.conn q).snd.nxt =
      seqDiff header.ack (w.conn q).snd.nxt := by
    rw [h.self]
    exact seqDiff_shift _ _ _
  unfold tcpRecvAck
  rw [h.state, hnxt]
  split
  -- `TCP_SYN_RECEIVED` compares without wrap-around; here the two runs agree by `hok`
  · rename_i hstate
    have hcmp := hok hstate
    rw [← h.self] at hcmp
    simp only [hcmp]
    split
    · apply Option.Rel.some
      left
      apply Shifted.setState
      exact h.modify
        (f := fun c => { c with snd := { c.snd with
          wnd := header.windowSize.zeroExtend 32, wl1 := header.seq, wl2 := header.ack } })
        (g := fun c => { c with snd := { c.snd with
          wnd := header.windowSize.zeroExtend 32, wl1 := header.seq + b, wl2 := header.ack + a } })
        (fun _ => rfl) fun _ => rfl
    · exact .some (.inl (h.send hf _ _ _ _))
  -- `TCP_LAST_ACK`: both runs release the connection, or none does
  case h_7 =>
    split
    · exact h.free_pending hc hl
    · exact .some (.inl h)
  case h_8 => exact .some (.inl h)
  all_goals exact .some (.inl (h.ackOpen hf))

/-! ## Data -/

/-- The states are shifted, and as long as the connection is open its queue is a list of
    allocated buffers. -/
def Follows (frames : Nat → Nat) (a b : BitVec 32) (q : Nat) (w w' : TcpWorld) : Prop :=
  ∃ H link head l, Shifted frames a b q H link head w w' ∧
    ((w.conn q).state ≠ .closed → Chain link 0 head l) ∧ ∀ p ∈ l, p ∈ H

/-- The next step can follow. -/
theorem Shifted.follows (h : Shifted frames a b q H link head w w') (hc : Chain link 0 head l)
    (hl : ∀ p ∈ l, p ∈ H) : Follows frames a b q w w' := ⟨H, link, head, l, h, fun _ => hc, hl⟩

/-- So it can behind a release. -/
theorem Shifted.follows_closed (h : Shifted frames a b q H link head w w')
    (hclosed : (w.conn q).state = .closed) : Follows frames a b q w w' :=
  ⟨H, link, head, [], h, fun hopen => absurd hclosed hopen, nofun⟩

/-- So it can while buffers wait. -/
theorem Pending.follows (h : Pending frames a b q H link head w w') (hc : Chain link 0 head l)
    (hl : ∀ p ∈ l, p ∈ H) : Follows frames a b q w w' := by
  rcases h with hopen | ⟨hclosed, hfree⟩
  · exact hopen.follows hc hl
  · exact hfree.follows_closed hclosed

/-- `rcv.nxt` is advanced and `on_data` is called. -/
theorem Shifted.deliver (h : Shifted frames a b q H link head w w') (n : BitVec 32)
    {data data' : List Byte}
    (hdata : data' = data) :
    let u := w.setRcv q { (w.conn q).rcv with nxt := (w.conn q).rcv.nxt + n }
    let u' := w'.setRcv q { (w'.conn q).rcv with nxt := (w'.conn q).rcv.nxt + n }
    Shifted frames a b q H link head (if (u.conn q).onData then u.emit (.onData q data n) else u)
      (if (u'.conn q).onData then u'.emit (.onData q data' n) else u') := by
  intro u u'
  subst hdata
  have hrcv : Shifted frames a b q H link head u u' := h.modify
    (f := fun c => { c with rcv := { c.rcv with nxt := c.rcv.nxt + n } })
    (g := fun c => { c with rcv := { c.rcv with nxt := c.rcv.nxt + n } })
    (fun c => by simp [TcpConn.shift, add_right_comm]) fun _ => rfl
  apply hrcv.emit_if
  rw [hrcv.self]
  rfl

/-- The buffers are replaced, and the queue starts at `n`. -/
theorem Shifted.setQueue (h : Shifted frames a b q H link head w w') {K : Set Nat}
    {link' : Nat → Nat}
    {x y : BufPool} (hshift : PoolShift b K x y) (hpool : PoolInv frames x K)
    (hlink : ∀ p ∈ K, (x.buf p).link = link' p) (n : Nat) :
    Shifted frames a b q K link' n ((w.setBufs x).setResequence q n)
      ((w'.setBufs y).setResequence q n) := by
  constructor
  · simp only [TcpWorld.setResequence, TcpWorld.setBufs, TcpWorld.setConn, Function.update_self]
    rw [h.conn, Function.update_self, Function.update_idem, Function.update_idem]
    rfl
  · exact h.outside
  · exact hshift
  · exact hpool
  · exact h.log
  · exact hlink
  · simp [TcpWorld.setResequence]

/-- A buffer is released and the queue starts at `n`. -/
theorem Shifted.pop (h : Shifted frames a b q H link head w w') (hp : packet ∈ H) (n : Nat) :
    Shifted frames a b q (H \ {packet}) link n
      ((w.setBufs (netFreeBuf w.bufs packet)).setResequence q n)
      ((w'.setBufs (netFreeBuf w'.bufs packet)).setResequence q n) := by
  apply h.setQueue
  · exact (h.bufs.free packet).anti fun _ hq => hq.1
  · exact h.pool.release hp
  · intro p hq
    have hne : p ≠ packet := fun heq => hq.2 (Set.mem_singleton_iff.mpr heq)
    rw [netFreeBuf_other _ hne]
    exact h.link p hq.1

/-- `tcp_recv_process` delivers the same segments. -/
theorem Shifted.processFrom (fuel : Nat) (h : Shifted frames a b q H link head w w')
    (hc : Chain link 0 head l) (hl : ∀ p ∈ l, p ∈ H) :
    Option.Rel (Follows frames a b q) (tcpRecvProcessFrom q fuel w head)
      (tcpRecvProcessFrom q fuel w' head) := by
  induction fuel generalizing H head w w' l with
  | zero => exact .none
  | succ fuel ih =>
    rw [tcpRecvProcessFrom, tcpRecvProcessFrom]
    by_cases h0 : head = 0
    · rw [if_pos h0, if_pos h0]
      exact .some (h.follows hc hl)
    obtain ⟨k, rfl, hk⟩ := hc.exists_cons h0
    have hmem := hl head List.mem_cons_self
    have hnot : head ∉ k := (List.nodup_cons.mp hc.nodup).1
    have hbuf := h.bufs.held head hmem
    have hnext : (w.bufs.buf head).link = link head := h.link head hmem
    rw [if_neg h0, if_neg h0]
    simp only [h.bufs.link head, hnext, h.bufs.seq hmem, h.bufs.len32 hmem]
    have hexpected : (w'.conn q).rcv.nxt ≠ (w.bufs.buf head).seq + b ↔
        (w.conn q).rcv.nxt ≠ (w.bufs.buf head).seq := by
      rw [h.self]
      exact not_congr (add_shift_cancel b)
    simp only [hexpected]
    split
    · exact .some (h.follows hc hl)
    -- the segment is delivered and released
    have hdata : (w'.bufs.buf head).data = (w.bufs.buf head).data := by rw [hbuf]
    have hpop := (h.deliver (w.bufs.buf head).len32 hdata).pop hmem (link head)
    have hrest : ∀ p ∈ k, p ∈ H \ {head} := fun p hp =>
      ⟨hl p (List.mem_cons_of_mem _ hp), fun heq => hnot (Set.mem_singleton_iff.mp heq ▸ hp)⟩
    exact ih hpop hk hrest

/-- The packet has been received: it is allocated, and not yet part of the queue. -/
structure Arrived (packet : Nat) (H : Set Nat) (link : Nat → Nat) (l : List Nat) : Prop where
  mem : packet ∈ H
  apart : packet ∉ l
  link : link packet = 0

/-- The packet is written; its number is shifted and its link stays. -/
theorem Shifted.setBuf (h : Shifted frames a b q H link head w w') (hp : packet ∈ H) {x y : NetBuf}
    (hxy : y = { x with seq := x.seq + b }) (hlink : x.link = (w.bufs.buf packet).link) :
    Shifted frames a b q H link head (w.setBuf packet x) (w'.setBuf packet y) := by
  refine { h with outside := h.outside, bufs := ?_, pool := h.pool.setBuf hp x, link := ?_ }
  · apply h.bufs.setBuf
    · rw [hxy]
    · rw [hxy]
    · exact fun _ => hxy
    · exact fun p hq _ => hq
  · intro p hq
    rw [TcpWorld.setBuf, BufPool.setBuf_buf]
    split
    · rename_i heq
      rw [hlink, heq]
      exact h.link packet hp
    · exact h.link p hq

/-- Both sides acknowledge. -/
theorem Follows.ack (hf : FramesOk frames) (h : Follows frames a b q w w') :
    Follows frames a b q (tcpSendAck frames w q) (tcpSendAck frames w' q) := by
  obtain ⟨H, link, head, l, hs, hc, hl⟩ := h
  refine ⟨H, link, head, l, hs.ack hf, fun hopen => hc ?_, hl⟩
  rwa [tcpSendAck_conn] at hopen

/-- The packet is put into the queue, and what is complete is delivered. -/
theorem Shifted.insert (hf : FramesOk frames) (h : Shifted frames a b q H link head w w')
    (hc : Chain link 0 head l) (hl : ∀ p ∈ l, p ∈ H) (hp : Arrived packet H link l) :
    Option.Rel (Follows frames a b q)
      ((tcpRecvInsert w.bufs (w.conn q).resequence packet).bind fun r =>
        (tcpRecvProcess ((w.setBufs r.1).setResequence q r.2) q).map fun w => tcpSendAck frames w q)
      ((tcpRecvInsert w'.bufs (w'.conn q).resequence packet).bind fun r =>
        (tcpRecvProcess ((w'.setBufs r.1).setResequence q r.2) q).map fun w =>
          tcpSendAck frames w q) := by
  have hsplice : Splice frames b packet H l w.bufs w'.bufs head :=
    { shift := h.bufs
      pool := h.pool
      chain := h.chain hc hl
      mem := hl
      mine := hp.mem
      apart := hp.apart
      link := (h.link packet hp.mem).trans hp.link }
  have hhead : (w'.conn q).resequence = head := by
    rw [h.self]
    exact h.head
  rw [h.head, hhead]
  -- both queues are walked to the same place
  apply rel_bind (tcpRecvInsert_shift hsplice)
  rintro ⟨x, n⟩ ⟨y, n'⟩ ⟨hn, K, k, hshift, hpool, hchain, hmem⟩
  simp only at hn
  subst hn
  have hqueued := h.setQueue hshift hpool (fun _ _ => rfl) n'
  have hproc : Option.Rel (Follows frames a b q)
      (tcpRecvProcess ((w.setBufs x).setResequence q n') q)
      (tcpRecvProcess ((w'.setBufs y).setResequence q n') q) := by
    -- and both have the same segments to deliver
    have hhead' : (((w'.setBufs y).setResequence q n').conn q).resequence = n' := by
      rw [hqueued.self]
      exact hqueued.head
    unfold tcpRecvProcess
    rw [hqueued.head, hhead']
    exact hqueued.processFrom walkFuel hchain hmem
  exact rel_map hproc fun _ _ hrun => hrun.ack hf

/-- `tcp_recv_data` -/
theorem Shifted.data (hf : FramesOk frames) (h : Shifted frames a b q H link head w w')
    (hc : Chain link 0 head l) (hl : ∀ p ∈ l, p ∈ H) (hp : Arrived packet H link l) :
    Option.Rel (Follows frames a b q) (tcpRecvData frames w q packet)
      (tcpRecvData frames w' q packet) := by
  have hcount : Shifted frames a b q H link head
      (w.setBuf packet { w.bufs.buf packet
        with refCount := u32 ((w.bufs.buf packet).refCount + 1) })
      (w'.setBuf packet { w'.bufs.buf packet
        with refCount := u32 ((w'.bufs.buf packet).refCount + 1) }) := by
    apply h.setBuf hp.mem
    · rw [h.bufs.held packet hp.mem]
    · rfl
  unfold tcpRecvData
  rw [h.state]
  split
  case h_4 => exact .some (h.follows hc hl)
  all_goals exact hcount.insert hf hc hl hp

/-- `tcp_recv_fin` -/
theorem Follows.fin (hf : FramesOk frames) (h : Follows frames a b q w w') :
    Follows frames a b q (tcpRecvFin frames w q header)
      (tcpRecvFin frames w' q (header.shift a b)) := by
  obtain ⟨H, link, head, l, hs, hc, hl⟩ := h
  -- the FIN counts one number on each side
  have hrcv : Shifted frames a b q H link head
      (w.setRcv q { (w.conn q).rcv with nxt := header.seq + 1 })
      (w'.setRcv q { (w'.conn q).rcv with nxt := header.seq + b + 1 }) := hs.modify
    (f := fun c => { c with rcv := { c.rcv with nxt := header.seq + 1 } })
    (g := fun c => { c with rcv := { c.rcv with nxt := header.seq + b + 1 } })
    (fun c => by simp [TcpConn.shift, add_right_comm]) fun _ => rfl
  have hack := hrcv.ack hf
  have hstate :
    ((tcpSendAck frames (w.setRcv q { (w.conn q).rcv with nxt := header.seq + 1 }) q).conn
    q).state =
      (w.conn q).state := by
    rw [tcpSendAck_conn, TcpWorld.setRcv, TcpWorld.setConn_conn, if_pos rfl]
  rw [← hstate] at hc
  unfold tcpRecvFin
  extract_lets r u v r' u' v'
  replace hack : Shifted frames a b q H link head v v' := hack
  replace hc : (v.conn q).state ≠ .closed → Chain link 0 head l := hc
  clear_value v v'
  have hnxt : seqDiff (header.shift a b).ack (v'.conn q).snd.nxt =
      seqDiff header.ack (v.conn q).snd.nxt := by
    rw [hack.self]
    exact seqDiff_shift _ _ _
  rw [hnxt, hack.state]
  -- the same state on both sides, so the same branch
  split
  case h_6 => exact ⟨H, link, head, l, hack, hc, hl⟩
  all_goals
    rename_i hopen
    rw [hopen] at hc
    replace hc := hc nofun
  · exact (hack.setState _).follows hc hl
  · exact (hack.setState _).follows hc hl
  · split
    · exact (hack.setState _).timeWait.follows hc hl
    · exact (hack.setState _).follows hc hl
  · exact (hack.setState _).timeWait.follows hc hl
  · exact hack.timeWait.follows hc hl

end MishaOS
