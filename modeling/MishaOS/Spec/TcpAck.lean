import MishaOS.Spec.TcpReassembly

/-!
# Acknowledgements

A peer forgets a byte once it has been acknowledged, so a connection must not
acknowledge what it has not delivered.  Data is acknowledged after it has been
passed to `on_data`; `tcp_recv_fin` sets `rcv.nxt` to the number behind the
FIN's own sequence number, which is right for a FIN that is next and carries no
data.  `FinOk` is the condition on a FIN under which the acknowledgements of a
connection are right in every run.

## Key results

- `Acking.sendPacket`: a segment acknowledges what has been delivered.
- `Acking.fin`: a FIN at the end of the stream.
- `tcp_run_acks`: the acknowledgements of every run whose FINs meet `FinOk`.
- `tcp_fin_acknowledges_missing_data`: an early FIN acknowledges bytes that never arrived.
-/

namespace MishaOS

open LinkedList Serial

/-! ## Acknowledgements in the log -/

/-- The acknowledgement numbers a connection has sent, newest first, each with
    what had been passed to `on_data` before. -/
def acks (conn : Nat) : List TcpEvent → List (BitVec 32 × List Byte)
  | [] => []
  | .ipSend p _ _ _ seg :: l =>
    if p = conn ∧ hasFlag seg.header.flags TCP_ACK
      then (seg.header.ack, received conn l) :: acks conn l
    else acks conn l
  | _ :: l => acks conn l

/-- A silent event acknowledges nothing. -/
theorem acks_silent {e : TcpEvent} (he : e.isSilent) (conn : Nat) (l : List TcpEvent) :
    acks conn (e :: l) = acks conn l := by
  cases e <;> first | rfl | exact nomatch he

/-- Acknowledgements of a peer's stream `S` whose first byte has number `n₀`:
    position `S.length` is that of the FIN. -/
structure AcksOk (S : List Byte) (n₀ : BitVec 32) (l : List (BitVec 32 × List Byte)) : Prop where
  /-- All bytes in front of the number have been delivered, and all of `S` when
      the FIN is acknowledged.  The number is that of a position less than half
      the range behind. -/
  delivered : ∀ x ∈ l, ∃ j ≤ S.length + 1, x.1 = n₀ + BitVec.ofNat 32 j ∧ S.take j <+: x.2 ∧
    x.2.length < j + 2147483648
  /-- The numbers never move backwards. -/
  forward : l.IsChain fun newer older => 0 ≤ seqDiff newer.1 older.1

variable {frames : Nat → Nat} {S : List Byte} {n₀ : BitVec 32} {conn k r d : Nat} {w w' : TcpWorld}
  {refs refs' : List Nat} {q q' : List QSeg}

/-- The stream, and what has been acknowledged of it: the last number sent is
    at most `d` behind `r`. -/
structure Acking (frames : Nat → Nat) (S : List Byte) (n₀ : BitVec 32) (conn : Nat) (w : TcpWorld)
    (refs : List Nat) (k r : Nat) (q : List QSeg) (d : Nat) : Prop where
  stream : Stream frames S n₀ conn w refs k r q
  acks : AcksOk S n₀ (acks conn w.log)
  last : ∀ x ∈ (MishaOS.acks conn w.log).head?, ∃ j, x.1 = num n₀ j ∧ j ≤ r ∧ r ≤ j + d
  next : r = k ∨ k = S.length ∧ r = S.length + 1

/-- A step that sends no acknowledgement. -/
theorem Acking.of_stream (h : Acking frames S n₀ conn w refs k r q d)
    (hs : Stream frames S n₀ conn w' refs' k r q')
    (hlog : MishaOS.acks conn w'.log = MishaOS.acks conn w.log) :
    Acking frames S n₀ conn w' refs' k r q' d :=
  ⟨hs, hlog ▸ h.acks, hlog ▸ h.last, h.next⟩

/-- The number `r` may be acknowledged. -/
theorem AcksOk.cons {l : List (BitVec 32 × List Byte)} (h : AcksOk S n₀ l)
    (hlast : ∀ x ∈ l.head?, ∃ j, x.1 = num n₀ j ∧ j ≤ r ∧ r ≤ j + d) (hd : d ≤ 8193)
    (hnext : r = k ∨ k = S.length ∧ r = S.length + 1) (hk : k ≤ S.length) :
    AcksOk S n₀ ((num n₀ r, S.take k) :: l) := by
  refine ⟨fun x hx => ?_, ?_⟩
  · obtain rfl | hx := List.mem_cons.mp hx
    -- the acknowledgement names the bytes that have been delivered
    · have hlen : (S.take k).length = k := by rw [List.length_take, Nat.min_eq_left hk]
      refine ⟨r, by omega, rfl, ?_, by rw [hlen]; omega⟩
      obtain rfl | ⟨rfl, rfl⟩ := hnext
      · exact List.prefix_rfl
      · rw [List.take_of_length_le (Nat.le_succ _), List.take_length]
    · exact h.delivered x hx
  · cases l with
    | nil => simp
    | cons x l =>
      -- and it is not behind the one before it
      obtain ⟨j, hj, hle, hge⟩ := hlast x rfl
      refine List.isChain_cons_cons.mpr ⟨?_, h.forward⟩
      rw [hj, seqDiff_num n₀ (by omega) (by omega)]
      omega

/-- A segment with the ACK flag acknowledges `r`. -/
theorem acks_sendPacket (frames : Nat → Nat) (w : TcpWorld) (conn : Nat) (seq : BitVec 32)
    {flags : BitVec 8} (hflags : hasFlag flags TCP_ACK) (data : List Byte) :
    acks conn (tcpSendPacket frames w conn seq flags data).log =
      ((w.conn conn).rcv.nxt, received conn w.log) :: acks conn w.log := by
  show acks conn (.ipSend conn _ _ _ (tcpSegment (w.conn conn) seq flags data) :: w.log) = _
  have hflag : (tcpSegment (w.conn conn) seq flags data).header.flags = flags := rfl
  have hnum : (tcpSegment (w.conn conn) seq flags data).header.ack = (w.conn conn).rcv.nxt := by
    show (if hasFlag flags TCP_ACK then (w.conn conn).rcv.nxt else 0) = _
    rw [if_pos hflags]
  rw [acks, if_pos ⟨rfl, hflag ▸ hflags⟩, hnum]

/-- One more acknowledgement is sent. -/
theorem Acking.sendPacket (hf : FramesOk frames) (h : Acking frames S n₀ conn w refs k r q d)
    (hd : d ≤ 8193) (seq : BitVec 32) {flags : BitVec 8} (hflags : hasFlag flags TCP_ACK)
    (data : List Byte) :
    Acking frames S n₀ conn (tcpSendPacket frames w conn seq flags data) refs k r q 0 := by
  have hlog := acks_sendPacket frames w conn seq hflags data
  rw [h.stream.nxt, h.stream.received] at hlog
  refine ⟨h.stream.sendPacket hf seq flags data, ?_, ?_, h.next⟩
  · rw [hlog]
    exact h.acks.cons h.last hd h.next h.stream.le
  · rw [hlog]
    intro x hx
    obtain rfl : (num n₀ r, S.take k) = x := by simpa using hx
    exact ⟨r, rfl, Nat.le_refl r, Nat.le_refl r⟩

/-- A change of state acknowledges nothing. -/
theorem acks_setState (w : TcpWorld) (conn : Nat) (state : TcpState) :
    acks conn (tcpSetState w conn state).log = acks conn w.log := by
  unfold tcpSetState
  simp only
  split
  · exact acks_silent rfl conn w.log
  · rfl

/-- So the state may change. -/
theorem Acking.setState (h : Acking frames S n₀ conn w refs k r q d) (state : TcpState) :
    Acking frames S n₀ conn (tcpSetState w conn state) refs k r q d :=
  h.of_stream (h.stream.setState state) (acks_setState w conn state)

/-- The timer may be started. -/
theorem Acking.timeWait (h : Acking frames S n₀ conn w refs k r q d) :
    Acking frames S n₀ conn (tcpTimeWait w conn) refs k r q d :=
  h.of_stream h.stream.timeWait rfl

/-- Deliveries are acknowledged later. -/
theorem Delivers.acks (h : Delivers conn w w') :
    MishaOS.acks conn w'.log = MishaOS.acks conn w.log := by
  obtain ⟨l, hl, hdata⟩ := h.log
  rw [hl]
  clear hl
  induction l with
  | nil => rfl
  | cons e l ih =>
    obtain ⟨data, len, rfl⟩ := hdata e List.mem_cons_self
    exact ih fun e he => hdata e (List.mem_cons_of_mem _ he)

/-! ## States -/

/-- Before the FIN, what has been delivered is acknowledged next; afterwards
    everything has been delivered.  (A FIN with one byte of data leaves `rcv.nxt`
    at the FIN itself.) -/
def Phase (S : List Byte) (state : TcpState) (k r : Nat) : Prop :=
  match state with
  | .established | .finWait1 | .finWait2 => r = k
  | .closeWait | .closing | .lastAck | .timeWait => k = S.length ∧ (r = S.length ∨ r = S.length + 1)
  | _ => False

/-- The states in which data is accepted. -/
def acceptsData (state : TcpState) : Bool := state ∈ [.established, .finWait1, .finWait2]

/-- While data is accepted everything received has been handed over. -/
theorem Phase.of_accepts {state : TcpState} (h : Phase S state k r)
    (hs : acceptsData state) : r = k := by
  cases state <;> first | exact h | exact nomatch hs

/-- Behind the FIN there is nothing more. -/
theorem Phase.of_not_accepts {state : TcpState} (h : Phase S state k r) (hs : ¬ acceptsData state) :
    k = S.length ∧ (r = S.length ∨ r = S.length + 1) := by
  cases state <;> first | exact h | exact absurd rfl hs | exact h.elim

/-- The connection is open. -/
theorem Phase.ne_closed {state : TcpState} (h : Phase S state k r) :
    state ∉ [.closed, .listen, .synSent] := by
  cases state <;> first | exact h.elim | decide

/-- The state that has been set. -/
@[simp] theorem tcpSetState_state (w : TcpWorld) (conn : Nat) (state : TcpState) :
    ((tcpSetState w conn state).conn conn).state = state := by
  rw [(tcpSetState_frame w conn state).1]
  simp [TcpWorld.setState]

/-- The timer is no state. -/
@[simp] theorem tcpTimeWait_state (w : TcpWorld) (conn : Nat) :
    ((tcpTimeWait w conn).conn conn).state = (w.conn conn).state := by
  simp [tcpTimeWait, TcpWorld.setMslWait]

/-- `tcp_recv_ack` up to `TCP_CLOSING`: the phase stays. -/
theorem Acking.recvAckOpen (hf : FramesOk frames) (h : Acking frames S n₀ conn w refs k r q 0)
    (hphase : Phase S (w.conn conn).state k r) (header : TcpHeader) :
    Acking frames S n₀ conn (tcpRecvAckOpen frames w conn header) refs k r q 0 ∧
      Phase S ((tcpRecvAckOpen frames w conn header).conn conn).state k r := by
  unfold tcpRecvAckOpen
  extract_lets w₁
  have hsnd : Acking frames S n₀ conn w₁ refs k r q 0 := h.of_stream (h.stream.setSnd _) rfl
  have hstate : (w₁.conn conn).state = (w.conn conn).state := by simp [w₁, TcpWorld.setSnd]
  clear_value w₁
  rw [← hstate] at hphase
  split
  -- an acknowledgement of what was not sent is answered
  · refine ⟨hsnd.sendPacket hf (by decide) _ (by decide) _, ?_⟩
    rw [tcpSendAck, tcpSendPacket_state]
    exact hphase
  split
  · split
    -- `TCP_FIN_WAIT_1` and `TCP_CLOSING` go on, `rcv` does not
    · rename_i hs
      rw [hs] at hphase
      rw [tcpSetState_state]
      exact ⟨hsnd.setState _, hphase⟩
    · rename_i hs
      rw [hs] at hphase
      rw [tcpTimeWait_state, tcpSetState_state]
      exact ⟨(hsnd.setState _).timeWait, hphase⟩
    · exact ⟨hsnd, hphase⟩
  · exact ⟨hsnd, hphase⟩

/-- `tcp_free`: the connection is closed, nothing is sent or delivered. -/
theorem tcpFree_closed (h : tcpFree w conn = some w') :
    (w'.conn conn).state = .closed ∧ (w'.conn conn).rcv = (w.conn conn).rcv ∧
      acks conn w'.log = acks conn w.log ∧ received conn w'.log = received conn w.log := by
  have hlink : ∀ u : TcpWorld, ((tcpFreeLink u conn).conn conn).state = (u.conn conn).state ∧
      ((tcpFreeLink u conn).conn conn).rcv = (u.conn conn).rcv ∧
      acks conn (tcpFreeLink u conn).log = acks conn u.log ∧
      received conn (tcpFreeLink u conn).log = received conn u.log := by
    -- the links are written, and the one callback is neither a delivery nor an answer
    intro u
    unfold tcpFreeLink
    simp only
    split
    · refine ⟨?_, ?_, rfl, rfl⟩
      all_goals
        simp only [TcpWorld.emit, TcpWorld.setConn_conn, if_true]
        split
        · rename_i heq
          rw [← heq]
        · rfl
    · refine ⟨?_, ?_, rfl, rfl⟩ <;> simp [TcpWorld.emit]
  unfold tcpFree at h
  -- an open connection is closed and its segments released
  split at h
  · obtain ⟨b, -, rfl⟩ := Option.map_eq_some_iff.mp h
    obtain ⟨h₁, h₂, h₃, h₄⟩ := hlink ((tcpSetState w conn .closed).setBufs b)
    refine ⟨h₁.trans (tcpSetState_state w conn .closed), ?_,
      h₃.trans (acks_setState w conn .closed), ?_⟩
    · rw [h₂]
      show ((tcpSetState w conn .closed).conn conn).rcv = _
      rw [(tcpSetState_frame w conn .closed).1]
      simp [TcpWorld.setState]
    · rw [h₄]
      show received conn (tcpSetState w conn .closed).log = _
      unfold tcpSetState
      simp only
      split
      · exact received_silent rfl conn w.log
      · rfl
  · rename_i hs
    cases h
    obtain ⟨h₁, h₂, h₃, h₄⟩ := hlink w
    exact ⟨h₁.trans (not_not.mp hs), h₂, h₃, h₄⟩

/-- `tcp_recv_ack`: the phase stays, or the connection is released. -/
theorem Acking.recvAck (hf : FramesOk frames) (h : Acking frames S n₀ conn w refs k r q 0)
    (hphase : Phase S (w.conn conn).state k r) {header : TcpHeader}
    (hack : tcpRecvAck frames w conn header = some w') :
    (Acking frames S n₀ conn w' refs k r q 0 ∧ Phase S (w'.conn conn).state k r ∧
      (∀ packet ∈ refs, w'.bufs.buf packet = w.bufs.buf packet) ∧
      ¬ ((w.conn conn).state = .lastAck ∧ 0 ≤ seqDiff header.ack (w.conn conn).snd.nxt)) ∨
    ((w.conn conn).state = .lastAck ∧ tcpFree w conn = some w') := by
  have hopen : tcpRecvAck frames w conn header = some (tcpRecvAckOpen frames w conn header) →
      Acking frames S n₀ conn w' refs k r q 0 ∧ Phase S (w'.conn conn).state k r ∧
      ∀ packet ∈ refs, w'.bufs.buf packet = w.bufs.buf packet := by
    intro heq
    obtain rfl := Option.some.inj (heq.symm.trans hack)
    obtain ⟨ha, hp⟩ := h.recvAckOpen hf hphase header
    exact ⟨ha, hp, fun packet hp => h.stream.recvAckOpen_buf hf hp header⟩
  -- only `TCP_LAST_ACK` may release the connection
  cases hs : (w.conn conn).state with
  | closed | listen | synSent | synReceived =>
    rw [hs] at hphase
    exact hphase.elim
  | established | finWait1 | finWait2 | closeWait | closing =>
    left
    obtain ⟨ha, hp, hbuf⟩ := hopen (by simp only [tcpRecvAck, hs])
    exact ⟨ha, hp, hbuf, fun hlast => absurd hlast.1 (by decide)⟩
  | lastAck =>
    simp only [tcpRecvAck, hs] at hack
    split at hack
    · exact .inr ⟨rfl, hack⟩
    · rename_i hbehind
      left
      cases hack
      exact ⟨h, hphase, fun _ _ => rfl, fun hlast => hbehind hlast.2⟩
  | timeWait =>
    left
    simp only [tcpRecvAck, hs] at hack
    cases hack
    exact ⟨h, hphase, fun _ _ => rfl, fun hlast => absurd hlast.1 (by decide)⟩

/-! ## The FIN -/

/-- `conn->rcv.nxt` moves behind the FIN's sequence number. -/
theorem Acking.setNxt (h : Acking frames S n₀ conn w refs k r q d) {r' : Nat} {nxt : BitVec 32}
    (hnxt : nxt = num n₀ r') (hle : r ≤ r') (hle' : r' ≤ r + 1)
    (hnext : r' = k ∨ k = S.length ∧ r' = S.length + 1) :
    Acking frames S n₀ conn (w.setRcv conn { (w.conn conn).rcv with nxt := nxt }) refs k r'
      q (d + 1) := by
  have hs := h.stream
  refine ⟨⟨?_, ?_, ?_, ?_, hs.refs, hs.received, hs.le⟩, h.acks, ?_, hnext⟩
  · simpa [TcpWorld.setRcv] using hs.wnd
  · simpa [TcpWorld.setRcv] using hnxt
  · simpa [TcpWorld.setRcv] using hs.onData
  · have hres : ((w.setRcv conn { (w.conn conn).rcv with nxt := nxt }).conn conn).resequence =
        (w.conn conn).resequence := by simp [TcpWorld.setRcv]
    rw [hres]
    exact hs.queue
  · intro x hx
    obtain ⟨j, hj, hjr, hrj⟩ := h.last x hx
    exact ⟨j, hj, by omega, by omega⟩

/-- `tcp_recv_fin` when everything has been delivered. -/
theorem Acking.fin (hf : FramesOk frames) (h : Acking frames S n₀ conn w refs k r q d)
    (hd : d ≤ 8192)
    (hphase : Phase S (w.conn conn).state k r) {header : TcpHeader} {r' : Nat}
    (hseq : header.seq + 1 = num n₀ r') (hle : r ≤ r') (hle' : r' ≤ r + 1) (hk : k = S.length)
    (hr : r' = S.length ∨ r' = S.length + 1) :
    Acking frames S n₀ conn (tcpRecvFin frames w conn header) refs k r' q 0 ∧
      Phase S ((tcpRecvFin frames w conn header).conn conn).state k r' := by
  unfold tcpRecvFin
  extract_lets rcv w₁ w₂
  have hset : Acking frames S n₀ conn w₁ refs k r' q (d + 1) := h.setNxt hseq hle hle' (by omega)
  have hsend : Acking frames S n₀ conn w₂ refs k r' q 0 :=
    hset.sendPacket hf (by omega) _ (by decide) _
  have hstate : (w₂.conn conn).state = (w.conn conn).state := by
    refine (tcpSendPacket_state ..).trans ?_
    simp [w₁, TcpWorld.setRcv]
  clear_value w₂
  rw [← hstate] at hphase
  cases hs : (w₂.conn conn).state with
  | closed | listen | synSent | synReceived =>
    rw [hs] at hphase
    exact hphase.elim
  | established =>
    simp only [tcpSetState_state]
    exact ⟨hsend.setState _, hk, hr⟩
  | finWait1 =>
    simp only
    split
    · rw [tcpTimeWait_state, tcpSetState_state]
      exact ⟨(hsend.setState _).timeWait, hk, hr⟩
    · rw [tcpSetState_state]
      exact ⟨hsend.setState _, hk, hr⟩
  | finWait2 =>
    simp only [tcpTimeWait_state, tcpSetState_state]
    exact ⟨(hsend.setState _).timeWait, hk, hr⟩
  | timeWait =>
    simp only [tcpTimeWait_state, hs]
    exact ⟨hsend.timeWait, hk, hr⟩
  | closeWait | closing | lastAck =>
    -- the FIN has been here before
    simp only [hs]
    exact ⟨hsend, hk, hr⟩

/-- A FIN for a connection that has just been released is still acknowledged. -/
theorem AcksOk.fin_closed (frames : Nat → Nat) {header : TcpHeader} {r' : Nat}
    (h : AcksOk S n₀ (acks conn w.log))
    (hlast : ∀ x ∈ (acks conn w.log).head?, ∃ j, x.1 = num n₀ j ∧ j ≤ r' ∧ r' ≤ j + 1)
    (hseq : header.seq + 1 = num n₀ r') (hnext : r' = k ∨ k = S.length ∧ r' = S.length + 1)
    (hk : k ≤ S.length) (hrec : received conn w.log = S.take k)
    (hstate : (w.conn conn).state = .closed) :
    AcksOk S n₀ (acks conn (tcpRecvFin frames w conn header).log) ∧
      ((tcpRecvFin frames w conn header).conn conn).state = .closed := by
  unfold tcpRecvFin
  extract_lets rcv w₁ w₂
  -- the answer does not open it again
  have hclosed : (w₂.conn conn).state = .closed := by
    refine (tcpSendPacket_state ..).trans ?_
    simpa [w₁, TcpWorld.setRcv] using hstate
  have hflag : hasFlag TCP_ACK TCP_ACK := by decide
  have hlog := acks_sendPacket frames w₁ conn (w₁.conn conn).snd.nxt hflag []
  -- the number behind the FIN is acknowledged once more
  have hnxt : (w₁.conn conn).rcv.nxt = num n₀ r' := by simpa [w₁, TcpWorld.setRcv] using hseq
  have hrec₁ : received conn w₁.log = S.take k := hrec
  have hacks₁ : acks conn w₁.log = acks conn w.log := rfl
  rw [hnxt, hrec₁, hacks₁] at hlog
  simp only [hclosed]
  refine ⟨?_, trivial⟩
  show AcksOk S n₀ (acks conn (tcpSendPacket frames w₁ conn _ _ _).log)
  rw [hlog]
  exact h.cons hlast (by decide) hnext hk

/-! ## Segments -/

/-- A length below 2^32 is not 0 as a word. -/
theorem ofNat_ne_zero {n : Nat} (h0 : 0 < n) (hlt : n < 4294967296) : BitVec.ofNat 32 n ≠ 0 := by
  intro heq
  have hnat := congrArg BitVec.toNat heq
  rw [BitVec.toNat_ofNat, Nat.mod_eq_of_lt hlt] at hnat
  exact Nat.ne_of_gt h0 hnat

/-- `tcp_recv_data` acknowledges what it delivers; after the FIN it does nothing. -/
theorem Acking.recvData {packet off len : Nat} (hf : FramesOk frames)
    (h : Acking frames S n₀ conn w (packet :: refs) k r q 0)
    (hphase : Phase S (w.conn conn).state k r)
    (hp : Carries S n₀ (w.bufs.buf packet) off len) (hnot : packet ∉ q.map QSeg.ptr)
    (hlink : (w.bufs.buf packet).link = 0) (hone : (w.bufs.buf packet).refCount = 1)
    (hoff : r ≤ off) (hwin : off + len ≤ r + 8192)
    (hdata : tcpRecvData frames w conn packet = some w') :
    ∃ k' r' q', Acking frames S n₀ conn w' (packet :: refs) k' r' q' 0 ∧
      Phase S (w'.conn conn).state k' r' ∧
      (acceptsData (w.conn conn).state → r' = k' ∧ (off = r → off + len ≤ k')) := by
  by_cases hacc : acceptsData (w.conn conn).state
  · obtain rfl := hphase.of_accepts hacc
    obtain ⟨w₁, k', q', hrecv, hs, hle, hbound, hfull, hdel⟩ := h.stream.recvData
      (of_decide_eq_true hacc) hp hnot hlink hone hoff hwin
    rw [hrecv] at hdata
    obtain rfl := Option.some.inj hdata
    -- the last acknowledgement is at most a window behind
    have hw₁ : Acking frames S n₀ conn w₁ (packet :: refs) k' k' q' 8192 := by
      refine ⟨hs, hdel.acks ▸ h.acks, fun x hx => ?_, .inl rfl⟩
      rw [hdel.acks] at hx
      obtain ⟨j, hj, hjr, hrj⟩ := h.last x hx
      exact ⟨j, hj, by omega, by omega⟩
    refine ⟨k', k', q', hw₁.sendPacket hf (by decide) _ (by decide) _, ?_, fun _ => ⟨rfl, hfull⟩⟩
    rw [tcpSendAck, tcpSendPacket_state, hdel.state]
    unfold acceptsData at hacc
    cases hst : (w.conn conn).state <;> first | rfl | (rw [hst] at hacc; cases hacc)
  · have hsame : tcpRecvData frames w conn packet = some w := by
      unfold tcpRecvData
      cases hst : (w.conn conn).state <;> first | rfl | (rw [hst] at hacc; exact absurd rfl hacc)
    obtain rfl := Option.some.inj (hsame.symm.trans hdata)
    exact ⟨k, r, q, h, hphase, fun hacc' => absurd hacc' hacc⟩

/-- The branch of `tcp_recv_general` that handles a FIN is taken only for one
    that is next and carries at most one byte. -/
def FinOk (c : TcpConn) (header : TcpHeader) (dataLen : BitVec 32) : Prop :=
  hasFlag header.flags TCP_FIN → hasFlag header.flags TCP_ACK → inWindow c header.seq dataLen →
    header.seq = c.rcv.nxt ∧ dataLen.toNat ≤ 1

/-- `tcp_recv_general` for a segment of the peer. -/
theorem Acking.general {packet off len : Nat} {header : TcpHeader} (hf : FramesOk frames)
    (h : Acking frames S n₀ conn w (packet :: refs) k r q 0)
    (hphase : Phase S (w.conn conn).state k r) (hseq : header.seq = num n₀ off)
    (hp : Carries S n₀ (w.bufs.buf packet) off len) (hnot : packet ∉ q.map QSeg.ptr)
    (hlink : (w.bufs.buf packet).link = 0) (hone : (w.bufs.buf packet).refCount = 1)
    (hlen : len ≤ 1460) (hle : off ≤ r + 2147483648) (hge : r ≤ off + 2147483648)
    (hrst : ¬ hasFlag header.flags TCP_RST) (hsyn : ¬ hasFlag header.flags TCP_SYN)
    (hfin : hasFlag header.flags TCP_FIN → off + len = S.length)
    (hfinok : FinOk (w.conn conn) header (w.bufs.buf packet).len32)
    (hgen : tcpRecvGeneral frames w conn header packet = some w') :
    (¬ GeneralFrees (w.conn conn) header (w.bufs.buf packet).len32 ∧
      ∃ k' r' q', Acking frames S n₀ conn w' (packet :: refs) k' r' q' 0 ∧
        Phase S (w'.conn conn).state k' r') ∨
    ((w'.conn conn).state = .closed ∧ AcksOk S n₀ (MishaOS.acks conn w'.log)) := by
  have hwin := inWindow_iff h.stream.nxt h.stream.wnd (show len < 8192 by omega) hle hge
  rw [← hseq, ← hp.len32] at hwin
  by_cases hin : inWindow (w.conn conn) header.seq (w.bufs.buf packet).len32
  case neg =>
    -- outside the window: acknowledge again
    left
    simp only [tcpRecvGeneral, hin, hrst, Bool.not_false, if_true, Bool.false_eq_true, if_false]
      at hgen
    obtain rfl := Option.some.inj hgen
    refine ⟨fun hg => hin hg.1, k, r, q, h.sendPacket hf (by decide) _ (by decide) _, ?_⟩
    rw [tcpSendAck, tcpSendPacket_state]
    exact hphase
  obtain ⟨hoff, hend⟩ := hwin.mp hin
  by_cases hack : hasFlag header.flags TCP_ACK
  case neg =>
    left
    simp only [tcpRecvGeneral, hin, hrst, hsyn, hack, Bool.not_true, Bool.not_false, if_true,
      Bool.false_eq_true, if_false] at hgen
    obtain rfl := Option.some.inj hgen
    exact ⟨fun hg => hg.2.elim hrst fun hg => hg.elim hsyn fun hg => hack hg.1, k, r, q, h, hphase⟩
  -- a FIN is next: it stands at the end of what has been delivered
  have hfinpos : hasFlag header.flags TCP_FIN → off = r ∧ len ≤ 1 := by
    intro hflag
    obtain ⟨heq, hone⟩ := hfinok hflag hack hin
    rw [hseq, h.stream.nxt] at heq
    rw [hp.len32, BitVec.toNat_ofNat, Nat.mod_eq_of_lt (by omega)] at hone
    exact ⟨num_inj n₀ hoff (by omega) heq, hone⟩
  have hsucc : header.seq + 1 = num n₀ (off + 1) := by
    rw [hseq, ← num_add]
    rfl
  rw [tcpRecvGeneral_ack hin hrst hsyn hack] at hgen
  obtain ⟨w₁, hw₁, hgen⟩ := Option.bind_eq_some_iff.mp hgen
  obtain ⟨w₂, hw₂, rfl⟩ := Option.map_eq_some_iff.mp hgen
  obtain ⟨h₁, hphase₁, hbuf, hkeep⟩ | ⟨hlast, hfree⟩ := h.recvAck hf hphase hw₁
  · -- the connection stays: data, then the FIN
    left
    refine ⟨fun hg => hg.2.elim hrst fun hg => hg.elim hsyn fun hg => hkeep hg.2, ?_⟩
    have hbuf := hbuf packet List.mem_cons_self
    obtain ⟨k', r', q', h₂, hphase₂, hnone, hsome⟩ : ∃ k' r' q',
        Acking frames S n₀ conn w₂ (packet :: refs) k' r' q' 0 ∧
          Phase S (w₂.conn conn).state k' r' ∧
        (len = 0 → k' = k ∧ r' = r) ∧
        (len ≠ 0 → acceptsData (w₁.conn conn).state → r' = k' ∧ (off = r → off + len ≤ k')) := by
      by_cases hzero : len = 0
      · rw [if_neg (by simp [hp.len32, hzero])] at hw₂
        obtain rfl := Option.some.inj hw₂
        exact ⟨k, r, q, h₁, hphase₁, fun _ => ⟨rfl, rfl⟩, fun hne => absurd hzero hne⟩
      · rw [if_pos (by rw [hp.len32]; exact ofNat_ne_zero (by omega) (by omega))] at hw₂
        obtain ⟨k', r', q', h₂, hphase₂, hfull⟩ :=
          h₁.recvData hf hphase₁ (by rw [hbuf]; exact hp) hnot
          (by rw [hbuf]; exact hlink) (by rw [hbuf]; exact hone) hoff hend hw₂
        exact ⟨k', r', q', h₂, hphase₂, fun heq => absurd heq hzero, fun _ => hfull⟩
    split
    case isFalse => exact ⟨k', r', q', h₂, hphase₂⟩
    rename_i hflag
    obtain ⟨rfl, hone⟩ := hfinpos hflag
    have htotal := hfin hflag
    have hk' := h₂.stream.le
    obtain rfl | rfl : len = 0 ∨ len = 1 := by omega
    · -- the FIN alone, behind all data
      obtain ⟨rfl, rfl⟩ := hnone rfl
      have hk : k' = S.length := by
        by_cases haccepts : acceptsData (w₁.conn conn).state
        · have := hphase₁.of_accepts haccepts
          omega
        · exact (hphase₁.of_not_accepts haccepts).1
      obtain ⟨hfinal, hphase₃⟩ :=
        h₂.fin hf (by decide) hphase₂ hsucc (by omega) (by omega) hk (by omega)
      exact ⟨k', _, q', hfinal, hphase₃⟩
    · -- the FIN with the last byte
      have haccepts : acceptsData (w₁.conn conn).state := by
        by_contra hno
        have := (hphase₁.of_not_accepts hno).2
        omega
      obtain ⟨rfl, hfull⟩ := hsome (by decide) haccepts
      have hfull := hfull rfl
      obtain ⟨hfinal, hphase₃⟩ :=
        h₂.fin hf (by decide) hphase₂ hsucc (by omega) (by omega) (by omega)
        (by omega)
      exact ⟨_, _, q', hfinal, hphase₃⟩
  · -- the connection has been released: data is dropped, a FIN still acknowledged
    right
    obtain ⟨hclosed, -, hacks, hrec⟩ := tcpFree_closed hfree
    obtain rfl : w₁ = w₂ := by
      split at hw₂
      · simpa only [tcpRecvData, hclosed, Option.some.injEq] using hw₂
      · exact Option.some.inj hw₂
    rw [hlast] at hphase
    obtain ⟨hk, hr⟩ := hphase
    split
    · rename_i hflag
      obtain ⟨rfl, -⟩ := hfinpos hflag
      have htotal := hfin hflag
      have hres := AcksOk.fin_closed frames (hacks ▸ h.acks) (fun x hx => ?_) hsucc
        (k := k) (by omega) (by omega) (hrec.trans h.stream.received) hclosed
      · exact ⟨hres.2, hres.1⟩
      · rw [hacks] at hx
        obtain ⟨j, hj, hjr, hrj⟩ := h.last x hx
        exact ⟨j, hj, by omega, by omega⟩
    · exact ⟨hclosed, hacks ▸ h.acks⟩

/-! ## Runs -/

/-- A segment of a peer that sends the stream `S` and a FIN behind it; `k` bytes
    have been delivered.  A segment without data may stand behind the FIN. -/
structure PeerSegment (S : List Byte) (n₀ : BitVec 32) (c : TcpConn) (k : Nat) (src dst : Ipv4Addr)
    (data : List Byte) : Prop where
  src : src = c.remoteAddr
  dst : dst = c.localAddr
  srcPort : (TcpHeader.read data).srcPort = c.remotePort
  dstPort : (TcpHeader.read data).dstPort = c.localPort
  rst : ¬ hasFlag (TcpHeader.read data).flags TCP_RST
  syn : ¬ hasFlag (TcpHeader.read data).flags TCP_SYN
  size : data.length - (TcpHeader.read data).headerLen ≤ 1460
  segment : ∃ off ≤ S.length + 1, Segment S n₀ data off ∧
    (hasFlag (TcpHeader.read data).flags TCP_FIN →
      off + (data.length - (TcpHeader.read data).headerLen) = S.length) ∧
    off < k + 2147483648 ∧ k < off + 2147483648

instance (S : List Byte) (n₀ : BitVec 32) (c : TcpConn) (k : Nat) (src dst : Ipv4Addr)
    (data : List Byte) :
    Decidable (PeerSegment S n₀ c k src dst data) :=
  decidable_of_iff (src = c.remoteAddr ∧ dst = c.localAddr ∧
      (TcpHeader.read data).srcPort = c.remotePort ∧ (TcpHeader.read data).dstPort = c.localPort ∧
      ¬ hasFlag (TcpHeader.read data).flags TCP_RST ∧
      ¬ hasFlag (TcpHeader.read data).flags TCP_SYN ∧
      data.length - (TcpHeader.read data).headerLen ≤ 1460 ∧
      ∃ off < S.length + 2, Segment S n₀ data off ∧
        (hasFlag (TcpHeader.read data).flags TCP_FIN →
          off + (data.length - (TcpHeader.read data).headerLen) = S.length) ∧
        off < k + 2147483648 ∧ k < off + 2147483648)
    ⟨fun ⟨h₁, h₂, h₃, h₄, h₅, h₆, h₇, off, hlt, hoff⟩ =>
        ⟨h₁, h₂, h₃, h₄, h₅, h₆, h₇, off, Nat.le_of_lt_succ hlt, hoff⟩,
      fun h => ⟨h.1, h.2, h.3, h.4, h.5, h.6, h.7, h.8.elim fun off hoff =>
        ⟨off, Nat.lt_succ_of_le hoff.1, hoff.2⟩⟩⟩

/-- What happens to a connection until it is closed: segments of the peer
    arrive, the user sends and closes, time passes. -/
def PeerOk (S : List Byte) (n₀ : BitVec 32) (conn : Nat) (w : TcpWorld) (op : TcpOp) : Prop :=
  (w.conn conn).state ≠ .closed ∧
    match op with
    | .recv src dst _ data =>
      PeerSegment S n₀ (w.conn conn) (received conn w.log).length src dst data
    | .send p _ | .close p => p = conn
    | .poll | .tick _ => True
    | .release packet => packet ∈ inFlight w.log
    | _ => False

instance (S : List Byte) (n₀ : BitVec 32) (conn : Nat) (w : TcpWorld) (op : TcpOp) :
    Decidable (PeerOk S n₀ conn w op) :=
  match op with
  | .recv _ _ _ _ => inferInstanceAs (Decidable (_ ∧ PeerSegment _ _ _ _ _ _ _))
  | .send p _ => inferInstanceAs (Decidable (_ ∧ p = conn))
  | .close p => inferInstanceAs (Decidable (_ ∧ p = conn))
  | .poll => inferInstanceAs (Decidable (_ ∧ True))
  | .tick _ => inferInstanceAs (Decidable (_ ∧ True))
  | .release packet => inferInstanceAs (Decidable (_ ∧ packet ∈ inFlight w.log))
  | .newConn | .connect _ _ _ | .routes _ | .intf _ | .callbacks _ _ _ _ _ =>
    inferInstanceAs (Decidable (_ ∧ False))

/-- A FIN that gets to `tcp_recv_fin` is next and carries at most one byte. -/
def FinsOk (conn : Nat) (w : TcpWorld) : TcpOp → Prop
  | .recv _ _ _ data => FinOk (w.conn conn) (TcpHeader.read data)
      (BitVec.ofNat 32 (data.length - (TcpHeader.read data).headerLen))
  | _ => True

instance (conn : Nat) (w : TcpWorld) (op : TcpOp) : Decidable (FinsOk conn w op) :=
  match op with
  | .recv _ _ _ _ => inferInstanceAs (Decidable (_ → _ → _ → _ ∧ _))
  | .newConn | .connect _ _ _ | .send _ _ | .close _ | .poll | .tick _ | .routes _ | .intf _
  | .callbacks _ _ _ _ _ | .release _ => .isTrue trivial

/-- The connection is alone on the list; what was acknowledged before the
    stream is the SYN. -/
structure AckStart (frames : Nat → Nat) (n₀ : BitVec 32) (conn : Nat) (w : TcpWorld) : Prop
    extends StreamStart frames n₀ conn w where
  list : w.tcpConnList = conn
  alone : (w.conn conn).next = 0
  acks : ∀ x ∈ acks conn w.log, x = (n₀, [])

/-- The invariant of a connection that is not closed. -/
structure Live (frames : Nat → Nat) (S : List Byte) (n₀ : BitVec 32) (conn : Nat)
    (w : TcpWorld) : Prop where
  acking : ∃ k r q, Acking frames S n₀ conn w [] k r q 0 ∧ Phase S (w.conn conn).state k r
  ne_zero : conn ≠ 0
  list : w.tcpConnList = conn
  alone : (w.conn conn).next = 0

/-- The invariant of a run. -/
def AckInv (frames : Nat → Nat) (S : List Byte) (n₀ : BitVec 32) (conn : Nat)
    (w : TcpWorld) : Prop :=
  AcksOk S n₀ (acks conn w.log) ∧ ((w.conn conn).state ≠ .closed → Live frames S n₀ conn w)

/-- Nothing has been received. -/
theorem AckStart.inv (h : AckStart frames n₀ conn w) (S : List Byte) :
    AckInv frames S n₀ conn w := by
  -- what was acknowledged before is the first number
  have hacks : AcksOk S n₀ (MishaOS.acks conn w.log) := by
    refine ⟨fun x hx => ?_, ?_⟩
    · rw [h.acks x hx]
      exact ⟨0, Nat.zero_le _, by simp, by simp, by simp⟩
    · apply List.Pairwise.isChain
      apply List.pairwise_of_forall_mem_list
      intro x hx y hy
      rw [h.acks x hx, h.acks y hy]
      simp [seqDiff]
  refine ⟨hacks, fun _ => ⟨⟨0, 0, [], ⟨h.stream S, hacks, fun x hx => ?_, .inl rfl⟩, ?_⟩,
    h.ne_zero, h.list,
    h.alone⟩⟩
  · refine ⟨0, ?_, Nat.le_refl 0, Nat.le_refl 0⟩
    rw [h.acks x (List.mem_of_mem_head? hx), num_zero]
  · rw [h.state]
    rfl

/-- `tcp_find` returns the only connection. -/
theorem Live.find (h : Live frames S n₀ conn w) :
    tcpFind w (w.conn conn).remoteAddr (w.conn conn).remotePort (w.conn conn).localAddr
      (w.conn conn).localPort = some conn := by
  have hchain : Chain (fun p => (w.conn p).next) 0 w.tcpConnList [conn] :=
    ⟨h.list, h.ne_zero, h.alone⟩
  rw [tcpFind, tcpFindFrom_eq hchain (show 1 < walkFuel by decide)]
  simp [TcpConn.tuple]

/-- A quiet call that keeps the stream. -/
theorem Live.of_quiet (h : Live frames S n₀ conn w) (hq : Quiet w w')
    (ha : Acking frames S n₀ conn w' [] k r q 0) (hp : Phase S (w'.conn conn).state k r) :
    AckInv frames S n₀ conn w' :=
  ⟨ha.acks, fun _ => ⟨⟨k, r, q, ha, hp⟩, h.ne_zero, hq.list.trans h.list,
    (hq.next conn).trans h.alone⟩⟩

/-- A segment of the peer. -/
theorem Live.recv (hf : FramesOk frames) (h : Live frames S n₀ conn w) {src dst : Ipv4Addr}
    {protocol : Byte} {data : List Byte}
    (hseg : PeerSegment S n₀ (w.conn conn) (received conn w.log).length src dst data)
    (hfin : FinOk (w.conn conn) (TcpHeader.read data)
      (BitVec.ofNat 32 (data.length - (TcpHeader.read data).headerLen)))
    (hstep : tcpDeliver frames w src dst protocol data = some w') : AckInv frames S n₀ conn w' := by
  obtain ⟨k, r, q, ha, hphase⟩ := h.acking
  obtain ⟨off, -, hoff, hfinal, hle, hge⟩ := hseg.segment
  have hk : (received conn w.log).length = k := by
    rw [ha.stream.received, List.length_take, Nat.min_eq_left ha.stream.le]
  rw [hk] at hle hge
  have hfind : tcpFind w src (TcpHeader.read data).srcPort dst (TcpHeader.read data).dstPort =
      some conn := by
    rw [hseg.src, hseg.dst, hseg.srcPort, hseg.dstPort]
    exact h.find
  have hclose : r = k ∨ r = k + 1 := by
    have := ha.next
    omega
  obtain ⟨w₁, hw₁, hs₁, hsame⟩ | ⟨packet, w₁, hs₁, hsame, hcarry, hnot, hlink, hone, hdeliver⟩ :=
    ha.stream.arrive hf protocol hoff hfind h.ne_zero hphase.ne_closed
  · -- the checksum was wrong
    obtain rfl := Option.some.inj (hw₁.symm.trans hstep)
    have ha' := ha.of_stream hs₁ (by rw [hsame.2.1])
    refine ⟨ha'.acks, fun _ => ⟨⟨k, r, q, ha', by rw [hsame.1]; exact hphase⟩, h.ne_zero, ?_, ?_⟩⟩
    · exact hsame.2.2.trans h.list
    · rw [hsame.1]
      exact h.alone
  · have ha₁ := ha.of_stream hs₁ (by rw [hsame.2.1])
    have hfirst := hstep
    rw [hdeliver] at hstep
    obtain ⟨w₂, hgen, rfl⟩ := Option.map_eq_some_iff.mp hstep
    obtain ⟨hfrees, k', r', q', ha₂, hphase₂⟩ | ⟨hclosed, hacks⟩ := ha₁.general hf
      (by rw [hsame.1]; exact hphase) hoff.seq hcarry hnot hlink hone hseg.size
        (by omega) (by omega)
      hseg.rst hseg.syn hfinal (by rw [hsame.1, hcarry.len32]; exact hfin) hgen
    · apply h.of_quiet (tcpDeliver_quiet _ hfirst) (ha₂.of_stream ha₂.stream.release rfl) hphase₂
      -- no connection was released
      rintro ⟨-, -, c, hc, -, hsegfrees⟩
      rw [hfind] at hc
      obtain rfl : conn = c := by simpa using hc
      have hlen : (w₁.bufs.buf packet).len32 = BitVec.ofNat 32 data.length -
          BitVec.ofNat 32 (TcpHeader.read data).headerLen := by
        have hhl : (TcpHeader.read data).headerLen < 2 ^ 32 := by
          have := (TcpHeader.read data).off.isLt
          unfold TcpHeader.headerLen
          omega
        rw [hcarry.len32, BitVec.ofNat_sub_ofNat_of_le _ _ hhl hoff.header_le]
      rw [hsame.1, hlen] at hfrees
      obtain ⟨hsyn, -⟩ | ⟨-, hg⟩ := hsegfrees
      · exact hphase.ne_closed (by simp [hsyn])
      · exact hfrees hg
    · exact ⟨hacks, fun hne => absurd hclosed hne⟩

/-- `tcp_close` -/
theorem Live.close (hf : FramesOk frames) (h : Live frames S n₀ conn w)
    (hstep : tcpClose frames w conn = some w') : AckInv frames S n₀ conn w' := by
  obtain ⟨k, r, q, ha, hphase⟩ := h.acking
  have hquiet := tcpClose_quiet hphase.ne_closed hstep
  have hfin : Acking frames S n₀ conn
      (tcpSendPacket frames w conn (w.conn conn).snd.nxt (TCP_FIN ||| TCP_ACK) []) [] k r q 0 :=
    ha.sendPacket hf (by decide) _ (by decide) _
  unfold tcpClose at hstep
  cases hs : (w.conn conn).state with
  | closed | listen | synSent | synReceived =>
    rw [hs] at hphase
    exact hphase.elim
  | established =>
    rw [hs] at hstep hphase
    obtain rfl := Option.some.inj hstep
    exact h.of_quiet hquiet (hfin.setState _) (by rw [tcpSetState_state]; exact hphase)
  | closeWait =>
    rw [hs] at hstep hphase
    obtain rfl := Option.some.inj hstep
    exact h.of_quiet hquiet (hfin.setState _) (by rw [tcpSetState_state]; exact hphase)
  | finWait1 | finWait2 | closing | lastAck | timeWait =>
    -- the error callback at most
    rw [hs] at hstep
    obtain rfl := Option.some.inj hstep
    apply h.of_quiet (k := k) (r := r) (q := q) hquiet
    · apply ha.of_stream (ha.stream.emit_if rfl)
      split
      · exact acks_silent rfl conn w.log
      · rfl
    · split
      · exact hphase
      · exact hphase

/-- `tcp_poll` does nothing, or releases the connection. -/
theorem Live.poll (h : Live frames S n₀ conn w) (hinv : AckInv frames S n₀ conn w)
    (hstep : tcpPoll w = some w') : AckInv frames S n₀ conn w' := by
  -- the connection is alone on the list, so the walk has one step
  have hwalk : ∀ fuel, tcpPollFrom (fuel + 2) w conn =
      if (w.conn conn).state = .timeWait ∧ 0 ≤ seqDiff w.ticks (w.conn conn).mslWait
        then tcpFree w conn
      else some w := by
    intro fuel
    have hend : ∀ u, tcpPollFrom (fuel + 1) u 0 = some u := fun u => rfl
    rw [tcpPollFrom, if_neg h.ne_zero, h.alone]
    split
    · cases htf : tcpFree w conn with
      | none => rfl
      | some u => exact hend u
    · exact hend w
  rw [tcpPoll, h.list, show walkFuel = 4294967294 + 2 from rfl, hwalk] at hstep
  split at hstep
  · obtain ⟨hclosed, -, hacks, -⟩ := tcpFree_closed hstep
    exact ⟨hacks ▸ hinv.1, fun hne => absurd hclosed hne⟩
  · obtain rfl := Option.some.inj hstep
    exact hinv

/-- One call that meets `FinsOk`. -/
theorem AckInv.step (hf : FramesOk frames) (hi : AckInv frames S n₀ conn w) {op : TcpOp}
    (hok : PeerOk S n₀ conn w op ∧ FinsOk conn w op) (hstep : tcpStep frames w op = some w') :
    AckInv frames S n₀ conn w' := by
  obtain ⟨⟨hopen, hop⟩, hfins⟩ := hok
  have hlive := hi.2 hopen
  obtain ⟨k, r, q, ha, hphase⟩ := hlive.acking
  -- only segments, `send`, `close` and `poll` do something to the connection
  cases op with
  | recv src dst protocol data => exact hlive.recv hf hop hfins hstep
  | send p data =>
    obtain rfl : p = conn := hop
    cases hstep
    apply hlive.of_quiet (tcpSendPacket_quiet ..) (ha.sendPacket hf (by decide) _ (by decide) _)
    rw [tcpSendPacket_state]
    exact hphase
  | close p =>
    obtain rfl : p = conn := hop
    exact hlive.close hf hstep
  | poll => exact hlive.poll hi hstep
  | tick ticks =>
    cases hstep
    have hquiet : Quiet w { w with ticks := ticks } := ⟨fun _ => rfl, rfl, rfl, Nat.le_refl _, rfl⟩
    have hstream : Stream frames S n₀ conn { w with ticks := ticks } [] k r q :=
      ha.stream.congr rfl rfl rfl rfl rfl rfl
    exact hlive.of_quiet hquiet (ha.of_stream hstream rfl) hphase
  | release packet =>
    cases hstep
    apply hlive.of_quiet _ (ha.of_stream (ha.stream.releaseSent hop) rfl) hphase
    exact ⟨fun _ => rfl, rfl, rfl, Nat.le_of_eq (netFreeBuf_requests _ _).symm, rfl⟩
  | newConn | connect _ _ _ | routes _ | intf _ | callbacks _ _ _ _ _ => exact hop.elim

/-- In every run of a connection in which each FIN that is processed is next and
    carries at most one byte, the acknowledgements are right. -/
theorem tcp_run_acks (frames : Nat → Nat) (hf : FramesOk frames) (S : List Byte) (n₀ : BitVec 32)
    (conn : Nat) (w₀ w : TcpWorld) (ops : List TcpOp) (h₀ : AckStart frames n₀ conn w₀)
    (hrun : Run (tcpStep frames) (fun w op => PeerOk S n₀ conn w op ∧ FinsOk conn w op) w₀ ops w) :
    AcksOk S n₀ (acks conn w.log) := by
  have hi : AckInv frames S n₀ conn w := by
    apply hrun.invariant (AckInv frames S n₀ conn) _ (h₀.inv S)
    intro u op v hi hok hstep
    exact hi.step hf hok hstep
  exact hi.1

/-- An open connection after boot. -/
theorem TcpWorld.connected_ackStart (n₀ : BitVec 32) (hfind : tcpFind (TcpWorld.connected n₀)
    (.ofBytes 192 0 2 1) 80 (.ofBytes 10 0 2 15) 1 = some 0x1000) :
    AckStart nextFrame n₀ 0x1000 (TcpWorld.connected n₀) where
  ne_zero := by decide
  state := rfl
  nxt := rfl
  wnd := rfl
  resequence := rfl
  onData := rfl
  received := rfl
  refs := TcpWorld.connected_refs n₀
  found := hfind
  list := rfl
  alone := rfl
  acks := by simp [TcpWorld.connected, TcpWorld.boot, MishaOS.acks]

/-- Data out of order and repeated, an answer, both FINs, and the last
    acknowledgement: the connection ends closed. -/
theorem tcp_run_acks_both_close :
    ∃ w, Run (tcpStep nextFrame)
        (fun w op => PeerOk [1, 2, 3, 4] 0xFFFFFFFE 0x1000 w op ∧ FinsOk 0x1000 w op)
        (TcpWorld.connected 0xFFFFFFFE)
        [peerSegment [1, 2, 3, 4] 0xFFFFFFFE 2 2 TCP_ACK,
          peerSegment [1, 2, 3, 4] 0xFFFFFFFE 0 3 TCP_ACK,
          .send 0x1000 [7], peerSegment [1, 2, 3, 4] 0xFFFFFFFE 4 0 (TCP_FIN ||| TCP_ACK),
          .close 0x1000, .recv (.ofBytes 192 0 2 1) (.ofBytes 10 0 2 15) IP_PROTOCOL_TCP
            (peerPacket (0xFFFFFFFE + 5) 3 TCP_ACK [])] w ∧
      (w.conn 0x1000).state = .closed ∧ AcksOk [1, 2, 3, 4] 0xFFFFFFFE (acks 0x1000 w.log) := by
  have hexec : (Run.exec (tcpStep nextFrame)
      (fun w op => PeerOk [1, 2, 3, 4] 0xFFFFFFFE 0x1000 w op ∧ FinsOk 0x1000 w op)
      (TcpWorld.connected 0xFFFFFFFE)
      [peerSegment [1, 2, 3, 4] 0xFFFFFFFE 2 2 TCP_ACK,
        peerSegment [1, 2, 3, 4] 0xFFFFFFFE 0 3 TCP_ACK,
        .send 0x1000 [7], peerSegment [1, 2, 3, 4] 0xFFFFFFFE 4 0 (TCP_FIN ||| TCP_ACK),
        .close 0x1000, .recv (.ofBytes 192 0 2 1) (.ofBytes 10 0 2 15) IP_PROTOCOL_TCP
          (peerPacket (0xFFFFFFFE + 5) 3 TCP_ACK [])]).map
      (fun w => (w.conn 0x1000).state) = some .closed := by decide +kernel
  obtain ⟨w, hw, hstate⟩ := Option.map_eq_some_iff.mp hexec
  have hrun := Run.of_exec hw
  have hstart := TcpWorld.connected_ackStart 0xFFFFFFFE (by decide +kernel)
  exact ⟨w, hrun, hstate, tcp_run_acks _ nextFrame_framesOk _ _ _ _ w _ hstart hrun⟩

/-- A FIN that overtakes the data acknowledges three bytes that have not arrived. -/
theorem tcp_fin_acknowledges_missing_data :
    ¬ ∀ (frames : Nat → Nat) (S : List Byte) (n₀ : BitVec 32) (conn : Nat) (w₀ w : TcpWorld)
      (ops : List TcpOp), FramesOk frames → AckStart frames n₀ conn w₀ →
      Run (tcpStep frames) (PeerOk S n₀ conn) w₀ ops w → AcksOk S n₀ (acks conn w.log) := by
  intro hall
  have hexec :
    ((Run.exec (tcpStep nextFrame) (PeerOk [1, 2, 3] 1000 0x1000) (TcpWorld.connected 1000)
      [peerSegment [1, 2, 3] 1000 3 0 (TCP_FIN ||| TCP_ACK)]).map fun w => acks 0x1000 w.log) =
      some [(1004, [])] := by decide +kernel
  obtain ⟨w, hw, hacks⟩ := Option.map_eq_some_iff.mp hexec
  have hstart := TcpWorld.connected_ackStart 1000 (by decide +kernel)
  have hok := hall _ _ _ _ _ w _ nextFrame_framesOk hstart (Run.of_exec hw)
  rw [hacks] at hok
  obtain ⟨j, hj, hnum, hpre, -⟩ := hok.delivered (1004, []) (by simp)
  -- 1004 is the number behind the FIN
  obtain rfl : 4 = j := num_inj (1000 : BitVec 32) hj (by omega) hnum
  exact absurd hpre (by decide)

end MishaOS
