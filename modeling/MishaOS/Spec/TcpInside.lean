import MishaOS.Spec.TcpPayload

/-!
# What `on_data` gets

`tcp_recv` adds the header length of a packet to its start without looking at
it.  With a data offset below five words the header itself is passed to
`on_data`, with one beyond the end of the packet the length is a negative
number.  Here a run goes through all calls and packets, with the resequence
lists of all connections in view: as long as the header lengths are right,
`on_data` gets parts of payloads only and `rcv.nxt` counts them.

## Key results

- `Handled.deliver`: a packet arrives, for the connection it is for.
- `AllQueues.step`: what waits for the connections, after every call.
- `tcp_segment_inside`: what a segment delivers, after every run.
-/

namespace MishaOS

open LinkedList Serial

variable {frames : Nat → Nat} {R : List (List Byte)} {w w' w₀ : TcpWorld} {conn packet p q f : Nat}
  {l l' call refs : List Nat} {header : TcpHeader} {data : List Byte}

/-! ## A connection that opens -/

/-- Nothing waits, so all numbers may change while the connection opens. -/
theorem Handled.congr_nil (new : List TcpEvent) (h : Handled frames R conn w₀ call refs f w [])
    (hopen : (w.conn conn).state ≠ .closed) (hwnd : (w'.conn conn).rcv.wnd = (w.conn conn).rcv.wnd)
    (hres : (w'.conn conn).resequence = (w.conn conn).resequence) (hbufs : w'.bufs = w.bufs)
    (hlog : w'.log = new ++ w.log) (hnew : ∀ e ∈ new, e.isSilent)
    (hsyn : (w₀.conn conn).state = .synSent) :
    Handled frames R conn w₀ call refs f w' [] := by
  -- the old queue is empty, and so is the new one
  obtain ⟨base, hw⟩ := h.waiting hopen
  obtain ⟨told, htold, hparts, -⟩ := h.told
  refine ⟨fun _ => ⟨_, Waiting.nil (hwnd.trans hw.wnd) (hres.trans hw.queue.chain)⟩,
    ?_, h.apart, ?_,
    new ++ told,
    by rw [hlog, htold, List.append_assoc], fun r bytes len hmem => ?_, fun hs => absurd hsyn hs⟩
  · rw [hbufs, hlog, inFlight_append hnew]
    exact h.counted
  · rw [hbufs]
    exact h.frame
  -- what is new in the log was given to nobody
  · obtain hmem | hmem := List.mem_append.mp hmem
    · exact absurd (hnew _ hmem) Bool.false_ne_true
    · exact hparts r bytes len hmem

/-- `tcp_recv_syn_sent`, for a SYN without RST. -/
theorem Handled.recvSynSentOpen (hf : FramesOk frames)
    (h : Handled frames R conn w₀ call refs f w [])
    (hsyn : (w₀.conn conn).state = .synSent) (hopen : (w.conn conn).state ≠ .closed)
    (header : TcpHeader) :
    Handled frames R conn w₀ call refs f (tcpRecvSynSentOpen frames w conn header) [] := by
  unfold tcpRecvSynSentOpen
  extract_lets rcv w₁ snd w₂ w₃ w₄ w₅ snd' w₆
  have hset : Handled frames R conn w₀ call refs f w₁ [] := by
    have hbufs : w₁.bufs = w.bufs := rfl
    have hlog : w₁.log = [] ++ w.log := rfl
    apply h.congr_nil [] hopen _ _ hbufs hlog (by simp) hsyn
    · simp [w₁, rcv, TcpWorld.setRcv]
    · simp [w₁, TcpWorld.setRcv]
  have hopen₁ : (w₁.conn conn).state ≠ .closed := by simpa [w₁, TcpWorld.setRcv] using hopen
  -- In this phase every state may follow: nothing waits that it would have to fit to.
  have hstate : ∀ {u : TcpWorld} (state : TcpState), Handled frames R conn w₀ call refs f u [] →
      (u.conn conn).state ≠ .closed → Handled frames R conn w₀ call refs f
        (tcpSetState u conn state) [] := by
    intro u state hu hu'
    obtain ⟨new, hnew, hsilent⟩ := tcpSetState_log u conn state
    apply hu.congr_nil new hu' _ _ (tcpSetState_bufs u conn state) hnew hsilent hsyn
    · rw [tcpSetState_conn]
    · rw [tcpSetState_conn]
  clear_value w₁
  split
  · have hopen₂ : (w₂.conn conn).state ≠ .closed := by simpa [w₂, TcpWorld.setSnd] using hopen₁
    exact ((hstate _ (hset.setSnd _) hopen₂).sendPacket hf _ _ _).emit_if rfl
  · exact ((hstate _ hset hopen₁).setSnd _).sendPacket hf _ _ _

/-- `tcp_recv_syn_sent` -/
theorem Handled.recvSynSent (hf : FramesOk frames) (h : Handled frames R conn w₀ call refs f w l)
    (hsyn₀ : (w₀.conn conn).state = .synSent) (hsyn : (w.conn conn).state = .synSent)
    (hrecv : tcpRecvSynSent frames w conn header = some w') :
    Handled frames R conn w₀ call refs f w' [] := by
  have hopen : (w.conn conn).state ≠ .closed := by
    rw [hsyn]
    decide
  obtain ⟨base, hw⟩ := h.waiting hopen
  -- In `TCP_SYN_SENT` no data was taken yet.
  obtain rfl : l = [] := hw.opening (by rw [hsyn]; rfl)
  unfold tcpRecvSynSent at hrecv
  split at hrecv
  · split at hrecv
    · obtain rfl := Option.some.inj hrecv
      exact h
    · obtain rfl := Option.some.inj hrecv
      exact h.sendPacket hf _ _ _
  split at hrecv
  · split at hrecv
    · exact h.error hrecv
    · obtain rfl := Option.some.inj hrecv
      exact h
  split at hrecv
  · obtain rfl := Option.some.inj hrecv
    exact h.recvSynSentOpen hf hsyn₀ hopen header
  · obtain rfl := Option.some.inj hrecv
    exact h

/-! ## A packet arrives -/

/-- A driver's buffer. -/
theorem Handled.alloc (hf : FramesOk frames)
    (h : Handled frames R conn w₀ [] refs f w l) {x : NetBuf}
    (hx : x.refCount = 1) :
    Handled frames R conn w₀ [(netAllocBuf frames w.bufs).1] refs f
        (w.setBufs ((netAllocBuf frames w.bufs).2.setBuf (netAllocBuf frames w.bufs).1 x)) l ∧
      (netAllocBuf frames w.bufs).1 ∉ l := by
  obtain ⟨hnew, hcounted, hother, hbuf⟩ := h.counted.alloc hf
  generalize (netAllocBuf frames w.bufs).1 = packet at *
  generalize (netAllocBuf frames w.bufs).2 = b at *
  -- The buffer is a new one: whatever is referenced stays as it is.
  have hsame : ∀ p ∈ l ++ (refs ++ inFlight w.log), (b.setBuf packet x).buf p = w.bufs.buf p := by
    intro p hp
    have hne : p ≠ packet := fun heq => hnew (heq ▸ hp)
    rw [BufPool.setBuf_buf, if_neg hne, hother p hne]
  have hperm : (packet :: (l ++ (refs ++ inFlight w.log))).Perm
      (l ++ (packet :: (refs ++ inFlight w.log))) :=
    List.perm_middle.symm
  have hnot : packet ∉ l := fun hmem => hnew (List.mem_append_left _ hmem)
  refine ⟨⟨fun hs => ?_, ?_, fun p hp hmem => ?_, fun p hp => ?_, h.told⟩, hnot⟩
  · obtain ⟨base, hw⟩ := h.waiting hs
    refine ⟨base, hw.congr rfl rfl (fun p hp => ⟨(w.bufs.buf p).refCount, ?_⟩) id id⟩
    exact hsame p (List.mem_append_left _ hp)
  · apply RefInv.subperm _ hperm.symm.subperm
    exact hcounted.setBuf List.mem_cons_self (hx.trans hbuf.2.2.2.symm)
  · obtain hp | hp := List.mem_append.mp hp
    · exact h.apart p (List.mem_append_left _ hp) hmem
    · obtain rfl := List.mem_singleton.mp hp
      exact hnew (List.mem_append_right l (List.mem_append_right [] (List.mem_append_left _ hmem)))
  · obtain ⟨n, hn⟩ := h.frame p hp
    exact ⟨n, (hsame p (List.mem_append_right l (List.mem_append_left _ hp))).trans hn⟩

/-- The driver drops its reference; the buffer may still wait. -/
theorem Handled.release (h : Handled frames R conn w₀ [packet] refs f w l) :
    Handled frames R conn w₀ [] refs f (w.setBufs (netFreeBuf w.bufs packet)) l := by
  have hperm : (l ++ ([packet] ++ (refs ++ inFlight w.log))).Perm
      (packet :: (l ++ (refs ++ inFlight w.log))) :=
    List.perm_middle
  obtain ⟨hcounted, hother, hsame⟩ := (h.counted.subperm hperm.symm.subperm).free
  -- A buffer that is still referenced loses one count and keeps its bytes.
  have hbufs : ∀ p ∈ l ++ (refs ++ inFlight w.log),
      ∃ n, (netFreeBuf w.bufs packet).buf p = { w.bufs.buf p with refCount := n } := by
    intro p hp
    by_cases heq : p = packet
    · rw [heq] at hp ⊢
      exact hsame hp
    · exact ⟨(w.bufs.buf p).refCount, hother p heq⟩
  refine ⟨fun hs => ?_, hcounted, fun p hp => h.apart p (by simp_all), fun p hp => ?_, h.told⟩
  · obtain ⟨base, hw⟩ := h.waiting hs
    exact ⟨base, hw.congr rfl rfl (fun p hp => hbufs p (List.mem_append_left _ hp)) id id⟩
  · obtain ⟨n, hn⟩ := h.frame p hp
    obtain ⟨m, hm⟩ := hbufs p (by simp [hp])
    refine ⟨m, ?_⟩
    show (netFreeBuf w.bufs packet).buf p = _
    rw [hm, hn]

/-- The call writes its own buffer. -/
theorem Handled.setBuf (h : Handled frames R conn w₀ [packet] refs f w l)
    (hnot : packet ∉ l) {x : NetBuf}
    (hx : x.refCount = (w.bufs.buf packet).refCount) :
    Handled frames R conn w₀ [packet] refs f (w.setBuf packet x) l := by
  have hother : ∀ p ≠ packet, (w.bufs.setBuf packet x).buf p = w.bufs.buf p := by
    intro p hp
    rw [BufPool.setBuf_buf, if_neg hp]
  have hcall : packet ∈ l ++ ([packet] ++ (refs ++ inFlight w.log)) :=
    List.mem_append_right l List.mem_cons_self
  refine ⟨fun hs => ?_, h.counted.setBuf hcall hx, h.apart, fun p hp => ?_, h.told⟩
  · obtain ⟨base, hw⟩ := h.waiting hs
    refine ⟨base, hw.congr rfl rfl (fun p hp => ⟨(w.bufs.buf p).refCount, ?_⟩) id id⟩
    exact hother p fun heq => hnot (heq ▸ hp)
  · obtain ⟨n, hn⟩ := h.frame p hp
    refine ⟨n, (hother p fun heq => ?_).trans hn⟩
    exact h.apart packet (List.mem_append_right l List.mem_cons_self) (heq ▸ hp)

/-- A packet as `tcp_recv` passes it on: its bytes, with the header swapped. -/
structure SwappedPacket (data : List Byte) (x : NetBuf) : Prop where
  data : x.data = tcpSwap data
  deficit : x.deficit = 0
  link : x.link = 0
  one : x.refCount = 1

/-- With the header skipped the payload of the packet is left. -/
theorem SwappedPacket.payload {x y : NetBuf} (h : SwappedPacket data x) (hmem : data ∈ R)
    (hoff : OffsetOk data) (hy : y.data = (x.advance (TcpHeader.read data).headerLen).data)
    (hdef : y.deficit = (x.advance (TcpHeader.read data).headerLen).deficit) : Payload R y := by
  obtain ⟨hmin, hmax⟩ := hoff
  have hswap := length_tcpSwap (Nat.le_trans hmin hmax)
  have hdata : y.data = data.drop (TcpHeader.read data).headerLen := by
    rw [hy, NetBuf.advance, h.data]
    exact drop_tcpSwap hmin
  have hlen : y.data.length = data.length - (TcpHeader.read data).headerLen := by
    rw [hdata, List.length_drop]
  refine ⟨?_, data, hmem, (TcpHeader.read data).headerLen, hmin, by omega, ?_⟩
  · rw [hdef]
    show x.deficit + ((TcpHeader.read data).headerLen - x.data.length) = 0
    rw [h.deficit, h.data, hswap]
    omega
  · rw [hlen, hdata, ← List.length_drop, List.take_length]

/-- What a segment must be like for its connection to be delivered and counted right. -/
def ConnFits (c : TcpConn) (data : List Byte) : Prop :=
  c.state ∉ [.listen, .synSent] → SegmentFits c (TcpHeader.read data) (payloadLen data)

/-- `tcp_recv` for a connection and a packet whose header length is right. -/
theorem Handled.recvConn (hf : FramesOk frames) (h : Handled frames R conn w₀ [packet] refs 0 w l)
    (hnot : packet ∉ l) (hopen : (w.conn conn).state ≠ .closed) (hconn : w.conn conn = w₀.conn conn)
    (hp : SwappedPacket data (w.bufs.buf packet)) (hmem : data ∈ R) (hsize : data.length ≤ 2048)
    (hoff : OffsetOk data) (hfits : ConnFits (w.conn conn) data)
    (hrecv : tcpRecvConn frames w conn (TcpHeader.read data) packet = some w') :
    ∃ f l', f ≤ 1 ∧ (f = 1 → hasFlag (TcpHeader.read data).flags TCP_FIN) ∧
      Handled frames R conn w₀ [packet] refs f w' l' := by
  unfold tcpRecvConn at hrecv
  split at hrecv
  case h_1 hs =>
    exact ⟨0, [], by simp, by simp, h.recvSynSent hf (by rw [← hconn]; exact hs) hs hrecv⟩
  case h_2 =>
    obtain rfl := Option.some.inj hrecv
    exact ⟨0, l, by simp, by simp, h⟩
  -- Any other state: `tcp_recv_general`.
  case h_3 hsyn hlisten =>
    have hstate : (w.conn conn).state ∉ [.listen, .synSent] := by
      simp only [List.mem_cons, List.not_mem_nil, or_false, not_or]
      exact ⟨hlisten, hsyn⟩
    have hlen20 : 20 ≤ data.length := Nat.le_trans hoff.1 hoff.2
    dsimp only at hrecv
    -- the buffer as `tcp_recv_general` gets it
    generalize hx : ({ (w.bufs.buf packet).advance (TcpHeader.read data).headerLen with
      seq := (TcpHeader.read data).seq
      flags := (TcpHeader.read data).flags.zeroExtend 32 } : NetBuf) = x at hrecv
    have hbuf : (w.setBuf packet x).bufs.buf packet = x := by simp [TcpWorld.setBuf]
    have hlen32 : x.len32 = payloadLen data := by
      rw [← hx]
      exact len32_advance_tcpSwap data hp.data hp.deficit hlen20 _
    have hpay : Payload R x := hp.payload hmem hoff (by rw [← hx]) (by rw [← hx])
    have hlength : x.data.length < 8192 := by
      have hswap := length_tcpSwap hlen20
      rw [← hx]
      show ((w.bufs.buf packet).data.drop _).length < 8192
      rw [List.length_drop, hp.data, hswap]
      omega
    have hset := h.setBuf hnot (x := x) (by rw [← hx]; rfl)
    refine hset.recvGeneral hf hnot hopen
      (by rw [hbuf]; exact hpay) (by rw [hbuf]; exact hlength) ?_ ?_ ?_ ?_ ?_ hrecv
    · rw [hbuf, ← hx]
      exact hp.link
    · rw [hbuf, ← hx]
      exact hp.one
    · rw [hbuf, ← hx]
    · rw [hbuf, ← hx]
      simp
    · rw [hbuf, hlen32]
      exact hfits hstate

/-! ## Segments that are ignored -/

/-- The connection neither changes nor answers. -/
def ignoresSegment (c : TcpConn) (header : TcpHeader) (dataLen : BitVec 32) : Bool :=
  match c.state with
  | .listen => true
  | .synSent =>
    if hasFlag header.flags TCP_ACK ∧ synSentAckBad c header then hasFlag header.flags TCP_RST
    else if hasFlag header.flags TCP_RST then !hasFlag header.flags TCP_ACK
    else !hasFlag header.flags TCP_SYN
  | _ =>
    if inWindow c header.seq dataLen then
      !hasFlag header.flags TCP_RST && !hasFlag header.flags TCP_SYN &&
        !hasFlag header.flags TCP_ACK
    else hasFlag header.flags TCP_RST

/-- Writing what is there changes nothing. -/
theorem setBuf_self (w : TcpWorld) (p : Nat) : w.setBuf p (w.bufs.buf p) = w := by
  simp [TcpWorld.setBuf, BufPool.setBuf]

/-- Such a segment writes its own buffer at most. -/
theorem tcpRecvConn_ignored
    (hign : ignoresSegment (w.conn conn) header
      ((w.bufs.buf packet).advance header.headerLen).len32 = true)
    (hrecv : tcpRecvConn frames w conn header packet = some w') :
    ∃ x, x.refCount = (w.bufs.buf packet).refCount ∧ w' = w.setBuf packet x := by
  -- In `TCP_LISTEN` and `TCP_SYN_SENT` not even the buffer is written.
  have hsame : ∃ x, x.refCount = (w.bufs.buf packet).refCount ∧ w = w.setBuf packet x :=
    ⟨w.bufs.buf packet, rfl, (setBuf_self w packet).symm⟩
  unfold tcpRecvConn at hrecv
  split at hrecv
  case h_1 hs =>
    unfold tcpRecvSynSent at hrecv
    simp only [ignoresSegment, hs] at hign
    split at hrecv
    · rename_i hbad
      rw [if_pos hbad] at hign
      rw [if_pos hign] at hrecv
      obtain rfl := Option.some.inj hrecv
      exact hsame
    rename_i hbad
    rw [if_neg hbad] at hign
    split at hrecv
    · rename_i hrst
      rw [if_pos hrst] at hign
      rw [if_neg (by simpa using hign)] at hrecv
      obtain rfl := Option.some.inj hrecv
      exact hsame
    · rename_i hrst
      rw [if_neg hrst] at hign
      rw [if_neg (by simpa using hign)] at hrecv
      obtain rfl := Option.some.inj hrecv
      exact hsame
  case h_2 =>
    obtain rfl := Option.some.inj hrecv
    exact hsame
  case h_3 hsyn hlisten =>
    dsimp only at hrecv
    generalize hx : ({ (w.bufs.buf packet).advance header.headerLen with
      seq := header.seq
      flags := header.flags.zeroExtend 32 } : NetBuf) = x at hrecv
    have hbuf : (w.setBuf packet x).bufs.buf packet = x := by simp [TcpWorld.setBuf]
    have hlen : x.len32 = ((w.bufs.buf packet).advance header.headerLen).len32 := by
      rw [← hx]
      rfl
    -- Behind these two states `ignoresSegment` is its last case.
    have hign : (if inWindow (w.conn conn) header.seq x.len32 then
        !hasFlag header.flags TCP_RST && !hasFlag header.flags TCP_SYN &&
          !hasFlag header.flags TCP_ACK
        else hasFlag header.flags TCP_RST) = true := by
      rw [hlen]
      unfold ignoresSegment at hign
      split at hign
      · rename_i hs
        exact absurd hs hlisten
      · rename_i hs
        exact absurd hs hsyn
      · exact hign
    refine ⟨x, by rw [← hx]; rfl, ?_⟩
    have hconn : (w.setBuf packet x).conn conn = w.conn conn := rfl
    rw [tcpRecvGeneral_eq, hbuf, hconn] at hrecv
    split at hrecv
    -- Outside the window a RST is not answered.
    · rename_i hwin
      rw [if_neg (by simpa using hwin)] at hign
      rw [if_pos hign] at hrecv
      exact (Option.some.inj hrecv).symm
    -- Inside it `tcp_recv_general` gives up without RST, SYN and ACK.
    rename_i hwin
    rw [if_pos (by simpa using hwin)] at hign
    simp only [Bool.and_eq_true, Bool.not_eq_true'] at hign
    obtain ⟨⟨hrst, hsyn⟩, hack⟩ := hign
    simp only [hrst, hsyn, Bool.false_eq_true, if_false, Option.bind_some, tcpRecvAfterSyn, hack,
      Bool.not_false,
      if_true] at hrecv
    exact (Option.some.inj hrecv).symm

/-- What `tcp_recv` needs of a segment that passes its tests: a right header
    length, and a payload and a FIN that fit; or that the segment is ignored. -/
def SegmentOk (w : TcpWorld) : TcpOp → Prop
  | .recv src dst protocol data =>
    20 ≤ data.length → netChecksum (checksumHeader src dst protocol data.length ++ data) = 0 →
      ∀ q ∈ tcpFind w src (TcpHeader.read data).srcPort dst (TcpHeader.read data).dstPort,
        if q = 0 ∨ (w.conn q).state = .closed then
          OffsetOk data ∨ hasFlag (TcpHeader.read data).flags TCP_RST ∨
            netFindRoute w.routes src = some 0
        else if OffsetOk data then ConnFits (w.conn q) data
        else ignoresSegment (w.conn q) (TcpHeader.read data) (payloadLen data)
  | _ => True

instance (c : TcpConn) (data : List Byte) : Decidable (ConnFits c data) :=
  have : Decidable (SegmentFits c (TcpHeader.read data) (payloadLen data)) :=
    inferInstanceAs (Decidable (_ → _ → _ → (_ → _ ∧ (_ ∨ _ ∨ _)) ∧ (_ → _ → _ → _ → _)))
  inferInstanceAs (Decidable (_ → _))

instance (w : TcpWorld) (op : TcpOp) : Decidable (SegmentOk w op) :=
  match op with
  | .recv _ _ _ _ =>
    inferInstanceAs (Decidable (_ → _ → ∀ q ∈ tcpFind w _ _ _ _, ite _ _ (ite _ _ _)))
  | .newConn | .connect _ _ _ | .send _ _ | .close _ | .poll | .tick _ | .routes _ | .intf _
  | .callbacks _ _ _ _ _ | .release _ => .isTrue trivial

/-- A new packet with its bytes swapped. -/
theorem netAllocBuf_buf (frames : Nat → Nat) (b : BufPool) (data : List Byte) :
    SwappedPacket data { (netAllocBuf frames b).2.buf (netAllocBuf frames b).1
      with data := tcpSwap data } := by
  unfold netAllocBuf
  simp only [BufPool.setBuf_buf, if_true]
  exact ⟨rfl, rfl, rfl, rfl⟩

/-- `tcp_recv_closed` answers through a structure of its own. -/
theorem Handled.recvClosed (hf : FramesOk frames) {src dst : Ipv4Addr} {len : BitVec 16}
    (h : Handled frames R conn w₀ call refs f w l)
    (hrecv : tcpRecvClosed frames w src dst header len = some w') :
    Handled frames R conn w₀ call refs f w' l := by
  unfold tcpRecvClosed at hrecv
  split at hrecv
  · obtain rfl := Option.some.inj hrecv
    exact h
  obtain ⟨route, -, rfl⟩ := Option.map_eq_some_iff.mp hrecv
  dsimp only
  split
  · exact h
  split
  · exact h.transmit hf 0 _ _ _ _
  · exact h.transmit hf 0 _ _ _ _

/-- Without a route, or for a reset, there is no answer. -/
theorem tcpRecvClosed_ignored {src dst : Ipv4Addr} {len : BitVec 16}
    (hign : hasFlag header.flags TCP_RST ∨ netFindRoute w.routes src = some 0)
    (hrecv : tcpRecvClosed frames w src dst header len = some w') : w' = w := by
  unfold tcpRecvClosed at hrecv
  split at hrecv
  · exact (Option.some.inj hrecv).symm
  · rename_i hrst
    rw [hign.resolve_left hrst] at hrecv
    simpa using hrecv.symm

/-- A packet is processed for at most one connection `q`, whatever waits for it. -/
structure DeliveredFor (frames : Nat → Nat) (R : List (List Byte)) (data : List Byte) (q : Nat)
    (w w' : TcpWorld) : Prop where
  here : Local q w w'
  handled : ∀ l refs, Handled frames R q w [] refs 0 w l → ∃ f l', f ≤ 1 ∧
    (f = 1 → hasFlag (TcpHeader.read data).flags TCP_FIN) ∧ Handled frames R q w [] refs f w' l'
  discarded : ¬ OffsetOk data → w'.conn = w.conn ∧ w'.log = w.log

/-- A packet arrives. -/
theorem tcpDeliver_for (hf : FramesOk frames) {src dst : Ipv4Addr} {protocol : Byte}
    (hmem : data ∈ R)
    (hsize : data.length ≤ 2048) (hok : SegmentOk w (.recv src dst protocol data))
    (h : tcpDeliver frames w src dst protocol data = some w') :
    ∃ q, DeliveredFor frames R data q w w' := by
  unfold tcpDeliver at h
  simp only at h
  obtain ⟨w₂, hrecv, rfl⟩ := Option.map_eq_some_iff.mp h
  have hswap := netAllocBuf_buf frames w.bufs data
  have halloc : ∀ q l refs (x : NetBuf), x.refCount = 1 → Handled frames R q w [] refs 0 w l →
      Handled frames R q w [(netAllocBuf frames w.bufs).1] refs 0
        (w.setBufs ((netAllocBuf frames w.bufs).2.setBuf (netAllocBuf frames w.bufs).1 x)) l ∧
      (netAllocBuf frames w.bufs).1 ∉ l := fun q l refs x hx hw => hw.alloc hf hx
  generalize (netAllocBuf frames w.bufs).1 = packet at *
  generalize (netAllocBuf frames w.bufs).2 = b at *
  have hone : (b.buf packet).refCount = 1 := hswap.one
  have hdata :
      ((w.setBufs (b.setBuf packet { b.buf packet with data := data })).bufs.buf packet).data =
      data := by
    simp [TcpWorld.setBufs]
  -- a packet that is dropped
  have hdropped : ∀ x : NetBuf, x.refCount = 1 → ∀ u, u = w.setBufs (b.setBuf packet x) →
      DeliveredFor frames R data 0 w (u.setBufs (netFreeBuf u.bufs packet)) := by
    intro x hx u hu
    subst hu
    refine ⟨(local_setBufs w 0 _).trans (local_setBufs _ 0 _), fun l refs hw => ?_,
      fun _ => ⟨rfl, rfl⟩⟩
    exact ⟨0, l, by simp, by simp, (halloc 0 l refs x hx hw).1.release⟩
  -- The two tests of `tcp_recv`: the length and the checksum.
  unfold tcpRecv at hrecv
  simp only [hdata] at hrecv
  split at hrecv
  · obtain rfl := Option.some.inj hrecv
    exact ⟨0, hdropped { b.buf packet with data := data } hone _ rfl⟩
  rename_i hlen
  split at hrecv
  · obtain rfl := Option.some.inj hrecv
    exact ⟨0, hdropped { b.buf packet with data := data } hone _ rfl⟩
  rename_i hsum
  obtain ⟨q, hfind, hrecv⟩ := Option.bind_eq_some_iff.mp hrecv
  rw [tcpFind_setBuf, tcpFind_setBufs] at hfind
  have hok := hok (by omega) (by simpa using hsum) q hfind
  generalize hx : ({ b.buf packet with data := tcpSwap data } : NetBuf) = x at hswap
  -- From here on the buffer holds the packet with its header swapped.
  have hstart : (w.setBufs (b.setBuf packet { b.buf packet with data := data })).setBuf packet
      { (w.setBufs (b.setBuf packet { b.buf packet with data := data })).bufs.buf packet
        with data := tcpSwap data } =
        w.setBufs (b.setBuf packet x) := by
    rw [← hx]
    simp [TcpWorld.setBuf, TcpWorld.setBufs]
  rw [hstart] at hrecv
  have hbuf : (w.setBufs (b.setBuf packet x)).bufs.buf packet = x := by simp [TcpWorld.setBufs]
  have hwconn : (w.setBufs (b.setBuf packet x)).conn = w.conn := rfl
  split at hrecv
  -- No connection, or a closed one: `tcp_recv_closed` answers with a RST.
  · rename_i hclosed
    rw [hwconn] at hclosed
    rw [if_pos hclosed] at hok
    obtain ⟨hlocal, -⟩ := tcpRecvClosed_local hrecv
    refine ⟨0, ((local_setBufs w 0 _).trans hlocal).trans (local_setBufs _ 0 _),
      fun l refs hw => ?_, fun hoff => ?_⟩
    · exact ⟨0, l,
        by simp, by simp, ((halloc 0 l refs x hswap.one hw).1.recvClosed hf hrecv).release⟩
    · have hign : hasFlag (TcpHeader.read data).flags TCP_RST ∨
          netFindRoute (w.setBufs (b.setBuf packet x)).routes src = some 0 := hok.resolve_left hoff
      obtain rfl := tcpRecvClosed_ignored hign hrecv
      exact ⟨rfl, rfl⟩
  -- The connection takes the packet: its header length is right, or the packet is ignored.
  · rename_i hopen
    rw [hwconn] at hopen
    rw [if_neg hopen] at hok
    have hlocal := tcpRecvConn_local hrecv
    refine ⟨q, ((local_setBufs w q _).trans hlocal).trans (local_setBufs _ q _),
      fun l refs hw => ?_, fun hoff => ?_⟩
    · obtain ⟨hhandled, hnot⟩ := halloc q l refs x hswap.one hw
      split at hok
      · rename_i hoff
        obtain ⟨f, l', hle, hfin, h'⟩ := hhandled.recvConn hf hnot (fun hs => hopen (.inr hs)) rfl
          (by rw [hbuf]; exact hswap) hmem hsize hoff hok hrecv
        exact ⟨f, l', hle, hfin, h'.release⟩
      · obtain ⟨y, hy, rfl⟩ := tcpRecvConn_ignored (by
          rw [hbuf, len32_advance_tcpSwap data hswap.data hswap.deficit (by omega)]
          exact hok) hrecv
        exact ⟨0, l, by simp, by simp, (hhandled.setBuf hnot hy).release⟩
    · rw [if_neg hoff] at hok
      obtain ⟨y, hy, rfl⟩ := tcpRecvConn_ignored (by
        rw [hbuf, len32_advance_tcpSwap data hswap.data hswap.deficit (by omega)]
        exact hok) hrecv
      exact ⟨rfl, rfl⟩

/-! ## All connections -/

variable {qs : List (Nat × List Nat)}

/-- What waits for each connection; only closed connections may be missing. -/
structure AllQueues (frames : Nat → Nat) (R : List (List Byte)) (w : TcpWorld)
    (qs : List (Nat × List Nat)) :
    Prop where
  keys : (qs.map Prod.fst).Nodup
  listed : ∀ p, (w.conn p).state ≠ .closed → p ∈ qs.map Prod.fst
  waiting : ∀ x ∈ qs, (w.conn x.1).state ≠ .closed → ∃ base, Waiting R w x.1 base x.2
  apart : (qs.flatMap Prod.snd).Nodup
  counted : RefInv frames w.bufs (qs.flatMap Prod.snd ++ inFlight w.log)

/-- The order of the queues does not matter. -/
theorem AllQueues.perm {qs' : List (Nat × List Nat)} (h : AllQueues frames R w qs)
    (hperm : qs.Perm qs') :
    AllQueues frames R w qs' := by
  have hflat : (qs.flatMap Prod.snd).Perm (qs'.flatMap Prod.snd) := hperm.flatMap_right Prod.snd
  refine ⟨(hperm.map Prod.fst).nodup_iff.mp h.keys,
    fun p hp => (hperm.map Prod.fst).mem_iff.mp (h.listed p hp),
    fun x hx => h.waiting x (hperm.mem_iff.mpr hx), hflat.nodup_iff.mp h.apart, ?_⟩
  exact h.counted.subperm (hflat.append_right _).symm.subperm

/-- One connection is brought to the front. -/
theorem AllQueues.focus (h : AllQueues frames R w qs) (q : Nat) :
    ∃ l qs', AllQueues frames R w ((q, l) :: qs') := by
  by_cases hq : q ∈ qs.map Prod.fst
  · obtain ⟨⟨r, l⟩, hmem, rfl⟩ := List.mem_map.mp hq
    obtain ⟨before, after, rfl⟩ := List.append_of_mem hmem
    exact ⟨l, before ++ after, h.perm List.perm_middle⟩
  · -- it is closed
    have hclosed : (w.conn q).state = .closed := not_not.mp (mt (h.listed q) hq)
    refine ⟨[], qs, List.nodup_cons.mpr ⟨hq, h.keys⟩,
      fun p hp => List.mem_cons_of_mem q (h.listed p hp),
      fun x hx hs => ?_, h.apart, h.counted⟩
    obtain rfl | hx := List.mem_cons.mp hx
    · exact absurd hclosed hs
    · exact h.waiting x hx hs

/-- The start of a call for the connection in front. -/
theorem AllQueues.handled {q : Nat} {l : List Nat} (h : AllQueues frames R w ((q, l) :: qs)) :
    Handled frames R q w [] (qs.flatMap Prod.snd) 0 w l := by
  have happart := h.apart
  have hcounted := h.counted
  rw [List.flatMap_cons] at happart hcounted
  refine ⟨h.waiting (q, l) List.mem_cons_self, ?_, fun p hp hmem => ?_,
    fun p _ => ⟨(w.bufs.buf p).refCount, rfl⟩,
    [], rfl, by simp, fun _ => by simp [bytesTold]⟩
  · simpa only [List.append_assoc, List.nil_append] using hcounted
  · rw [List.append_nil] at hp
    exact (List.nodup_append.mp happart).2.2 p hp p hmem rfl

/-- What matters of the other connections. -/
structure SameQueue (c c' : TcpConn) : Prop where
  rcv : c'.rcv = c.rcv
  resequence : c'.resequence = c.resequence
  state : c'.state = c.state

/-- Other connections keep their queue. -/
theorem Local.sameQueue (h : Local q w w') (hp : p ≠ q) : SameQueue (w.conn p) (w'.conn p) := by
  obtain heq | ⟨-, -, heq⟩ := h.conn p hp
  · rw [heq]
    exact ⟨rfl, rfl, rfl⟩
  · rw [heq]
    exact ⟨rfl, rfl, rfl⟩

/-- Something happens to the connection in front; of the buffers of others only
    the reference counts change. -/
theorem AllQueues.replace (h : AllQueues frames R w ((q, l) :: qs))
    (hothers : ∀ p ≠ q, SameQueue (w.conn p) (w'.conn p))
    (hframe : ∀ p ∈ qs.flatMap Prod.snd, ∃ n, w'.bufs.buf p = { w.bufs.buf p with refCount := n })
    (hwait : (w'.conn q).state ≠ .closed → ∃ base, Waiting R w' q base l')
    (hcounted : RefInv frames w'.bufs (l' ++ (qs.flatMap Prod.snd ++ inFlight w'.log)))
    (hapart : ∀ p ∈ l', p ∉ qs.flatMap Prod.snd) : ∃ l', AllQueues frames R w' ((q, l') :: qs) := by
  have hkeys := List.nodup_cons.mp h.keys
  have hnodup : (qs.flatMap Prod.snd).Nodup := by
    have happart := h.apart
    rw [List.flatMap_cons] at happart
    exact (List.nodup_append.mp happart).2.1
  have hlisted : ∀ p, (w'.conn p).state ≠ .closed → p ∈ q :: qs.map Prod.fst := by
    intro p hp
    by_cases hpq : p = q
    · rw [hpq]
      exact List.mem_cons_self
    · exact h.listed p (by rw [← (hothers p hpq).state]; exact hp)
  -- What waits for the others stays: neither their lists nor their bytes change.
  have hrest : ∀ x ∈ qs, (w'.conn x.1).state ≠ .closed → ∃ base, Waiting R w' x.1 base x.2 := by
    intro x hx hs
    have hxq : x.1 ≠ q := fun heq => hkeys.1 (List.mem_map.mpr ⟨x, hx, heq⟩)
    have hsame := hothers x.1 hxq
    rw [hsame.state] at hs
    obtain ⟨base, hw⟩ := h.waiting x (List.mem_cons_of_mem _ hx) hs
    refine ⟨base, hw.congr hsame.rcv hsame.resequence (fun p hp => ?_) ?_ ?_⟩
    · exact hframe p (List.mem_flatMap.mpr ⟨x, hx, hp⟩)
    · rw [hsame.state]
      exact id
    · rw [hsame.state]
      exact id
  by_cases hclosed : (w'.conn q).state = .closed
  · -- nothing waits any more
    refine ⟨[], h.keys, hlisted, fun x hx hs => ?_, hnodup, ?_⟩
    · obtain rfl | hx := List.mem_cons.mp hx
      · exact absurd hclosed hs
      · exact hrest x hx hs
    · exact hcounted.subperm (List.sublist_append_right l' _).subperm
  · obtain ⟨base, hw⟩ := hwait hclosed
    refine ⟨l', h.keys, hlisted, fun x hx hs => ?_, ?_, ?_⟩
    · obtain rfl | hx := List.mem_cons.mp hx
      · exact ⟨base, hw⟩
      · exact hrest x hx hs
    · rw [List.flatMap_cons]
      apply List.nodup_append.mpr
      refine ⟨hw.queue.chain.nodup, hnodup, fun p hp r hr heq => ?_⟩
      exact hapart p hp (heq ▸ hr)
    · rw [List.flatMap_cons, List.append_assoc]
      exact hcounted

/-- The end of a call for the connection in front. -/
theorem AllQueues.of_handled (h : AllQueues frames R w ((q, l) :: qs))
    (hothers : ∀ p ≠ q, SameQueue (w.conn p) (w'.conn p))
    (h' : Handled frames R q w [] (qs.flatMap Prod.snd) f w' l') :
    ∃ l', AllQueues frames R w' ((q, l') :: qs) :=
  h.replace hothers h'.frame h'.waiting h'.counted fun p hp =>
    h'.apart p (List.mem_append_left [] hp)

/-- A call that concerns one connection at most. -/
theorem AllQueues.one (h : AllQueues frames R w qs) (q : Nat) (hlocal : Local q w w')
    (hhandled : ∀ l refs, Handled frames R q w [] refs 0 w l →
      ∃ f l', Handled frames R q w [] refs f w' l') : ∃ qs', AllQueues frames R w' qs' := by
  obtain ⟨l, qs', hfocus⟩ := h.focus q
  obtain ⟨f, l', h'⟩ := hhandled l _ hfocus.handled
  obtain ⟨l'', hall⟩ := hfocus.of_handled (fun p hp => hlocal.sameQueue hp) h'
  exact ⟨(q, l'') :: qs', hall⟩

theorem Waiting.mono {R' : List (List Byte)} {base : BitVec 32} (h : Waiting R w conn base l)
    (hsub : R ⊆ R') :
    Waiting R' w conn base l :=
  ⟨h.wnd, h.queue, fun p hp => (h.payload p hp).mono hsub, h.behind, h.short, h.base, h.opening⟩

theorem AllQueues.mono {R' : List (List Byte)} (h : AllQueues frames R w qs) (hsub : R ⊆ R') :
    AllQueues frames R' w qs :=
  ⟨h.keys, h.listed, fun x hx hs => (h.waiting x hx hs).imp fun _ hw => hw.mono hsub,
    h.apart, h.counted⟩

/-! ## Calls -/

theorem AllQueues.newConn (h : AllQueues frames R w qs) :
    ∃ qs', AllQueues frames R (tcpNewConn frames w).2 qs' := by
  obtain ⟨l, qs', hfocus⟩ := h.focus (tcpNewConn frames w).1
  have hconn := tcpNewConn_conn frames w
  -- A page for connections is no buffer; it is only one request more.
  have hrest : (tcpNewConn frames w).2.bufs.buf = w.bufs.buf ∧
      (∀ refs, RefInv frames w.bufs refs → RefInv frames (tcpNewConn frames w).2.bufs refs) ∧
      inFlight (tcpNewConn frames w).2.log = inFlight w.log := by
    unfold tcpNewConn
    by_cases hfree : w.freeConnList = 0
    · simp only [hfree, ne_eq, not_true_eq_false, if_false]
      exact ⟨rfl, fun refs href => href.request, rfl⟩
    · simp only [ne_eq, hfree, not_false_eq_true, if_true]
      exact ⟨rfl, fun refs href => href, rfl⟩
  generalize (tcpNewConn frames w).1 = q at *
  generalize (tcpNewConn frames w).2 = w' at *
  obtain ⟨hbuf, hcounted, hfly⟩ := hrest
  -- `tcp_new_conn` clears the structure, whatever was there before.
  have hclosed : (w'.conn q).state = .closed := by
    rw [hconn, if_pos rfl]
    rfl
  have hothers : ∀ p ≠ q, SameQueue (w.conn p) (w'.conn p) := by
    intro p hp
    rw [hconn, if_neg hp]
    exact ⟨rfl, rfl, rfl⟩
  have hkept : RefInv frames w'.bufs ([] ++ (qs'.flatMap Prod.snd ++ inFlight w'.log)) := by
    rw [hfly]
    exact hcounted _ (hfocus.handled.counted.subperm (List.sublist_append_right l _).subperm)
  obtain ⟨l', hall⟩ := hfocus.replace hothers (fun p _ => ⟨(w.bufs.buf p).refCount, by rw [hbuf]⟩)
    (fun hs => absurd hclosed hs) hkept (by simp)
  exact ⟨(q, l') :: qs', hall⟩

/-- `tcp_connect` on a connection on which nothing waits. -/
theorem AllQueues.connect (hf : FramesOk frames) (h : AllQueues frames R w qs) {addr : Ipv4Addr}
    {port : BitVec 16} {r : Bool × TcpWorld} (hres : (w.conn q).resequence = 0)
    (hconnect : tcpConnect frames w q addr port = some r) : ∃ qs', AllQueues frames R r.2 qs' := by
  have hothers := (tcpConnect_conn hconnect).1
  obtain ⟨l, qs', hfocus⟩ := h.focus q
  obtain ⟨route, -, rfl⟩ := Option.map_eq_some_iff.mp hconnect
  -- Without a route the call fails and changes nothing.
  split at hothers
  · rename_i hroute
    rw [if_pos hroute]
    exact ⟨qs, h⟩
  rename_i hroute
  rw [if_neg hroute]
  revert hothers
  extract_lets c w₁ w₂ w₃
  intro hothers
  obtain ⟨prev, hlink⟩ := tcpConnectLink_conn w₁ q q
  rw [if_pos rfl, show w₁.conn q = c by simp [w₁]] at hlink
  have hbufs : w₂.bufs = w.bufs := by
    simp only [w₂, tcpConnectLink]
    split <;> rfl
  have hlog : w₂.log = .connect q :: w.log := tcpConnectLink_log w₁ q
  -- the SYN is sent in a buffer of its own
  have hstart : Handled frames R q w₂ [] (qs'.flatMap Prod.snd) 0 w₂ [] := by
    have hhandled := hfocus.handled
    refine ⟨fun _ => ⟨_, Waiting.nil ?_ ?_⟩, ?_,
      by simp, fun p _ => ⟨(w₂.bufs.buf p).refCount, rfl⟩,
      [], rfl, by simp, fun _ => by simp [bytesTold]⟩
    · rw [show w₂.conn q = _ from hlink]
      rfl
    · rw [show w₂.conn q = _ from hlink]
      exact hres
    · rw [hbufs, hlog, inFlight_silent rfl]
      exact hhandled.counted.subperm (List.sublist_append_right l _).subperm
  have hsent : Handled frames R q w₂ [] (qs'.flatMap Prod.snd) 0 w₃ [] := hstart.sendPacket hf _ _ _
  have hconn₃ : (w₃.conn q).rcv = c.rcv ∧ (w₃.conn q).resequence = c.resequence := by
    simp only [w₃, tcpSendPacket_conn, if_true]
    rw [show w₂.conn q = _ from hlink]
    exact ⟨rfl, rfl⟩
  clear_value w₃
  obtain ⟨new, hnew, hsilent⟩ := tcpSetState_log w₃ q .synSent
  have hbufs₃ : (tcpSetState w₃ q .synSent).bufs = w₃.bufs := tcpSetState_bufs w₃ q .synSent
  have hfly : inFlight (tcpSetState w₃ q .synSent).log = inFlight w₃.log := by
    rw [hnew, inFlight_append hsilent]
  have hconn : (tcpSetState w₃ q .synSent).conn q = { w₃.conn q with state := .synSent } :=
    tcpSetState_conn w₃ q _
  generalize tcpSetState w₃ q .synSent = w' at *
  -- Of other connections at most `prev` is written.
  have hsame : ∀ p ≠ q, SameQueue (w.conn p) (w'.conn p) := by
    intro p hp
    obtain ⟨prev, hother⟩ := hothers p hp
    rw [show w'.conn p = _ from hother]
    exact ⟨rfl, rfl, rfl⟩
  have hframe : ∀ p ∈ qs'.flatMap Prod.snd, ∃ n,
      w'.bufs.buf p = { w.bufs.buf p with refCount := n } := by
    intro p hp
    obtain ⟨n, hn⟩ := hsent.frame p hp
    exact ⟨n, by rw [hbufs₃, hn, hbufs]⟩
  have hwait : (w'.conn q).state ≠ .closed → ∃ base, Waiting R w' q base [] := by
    intro _
    refine ⟨_, Waiting.nil ?_ ?_⟩
    · rw [hconn]
      show (w₃.conn q).rcv.wnd = 8192
      rw [hconn₃.1]
      rfl
    · rw [hconn]
      exact hconn₃.2.trans hres
  have hcounted : RefInv frames w'.bufs ([] ++ (qs'.flatMap Prod.snd ++ inFlight w'.log)) := by
    rw [hbufs₃, hfly]
    exact hsent.counted
  obtain ⟨l', hall⟩ := hfocus.replace hsame hframe hwait hcounted (by simp)
  exact ⟨(q, l') :: qs', hall⟩

/-- `tcp_close` -/
theorem tcpClose_for (hf : FramesOk frames) (hclose : tcpClose frames w q = some w') :
    Local q w w' ∧ ∀ l refs, Handled frames R q w [] refs 0 w l →
      ∃ f l', Handled frames R q w [] refs f w' l' := by
  unfold tcpClose at hclose
  split at hclose
  -- A connection that never was open is released, an open one sends a FIN.
  case h_1 | h_2 | h_3 => exact ⟨tcpFree_local hclose, fun l refs hw => ⟨0, [], hw.free hclose⟩⟩
  case h_4 hs | h_5 hs =>
    obtain rfl := Option.some.inj hclose
    refine ⟨(tcpSendPacket_local ..).trans (tcpSetState_local _ q _), fun l refs hw => ⟨0, l, ?_⟩⟩
    apply (hw.sendPacket hf _ _ _).setState
    rw [tcpSendPacket_state, hs]
    exact fun _ => ⟨by decide, fun _ => rfl, fun h => absurd h (by decide)⟩
  case h_11 hs =>
    obtain rfl := Option.some.inj hclose
    refine ⟨(tcpSendPacket_local ..).trans (tcpSetState_local _ q _), fun l refs hw => ⟨0, l, ?_⟩⟩
    apply (hw.sendPacket hf _ _ _).setState
    rw [tcpSendPacket_state, hs]
    exact fun _ => ⟨by decide, fun h => absurd h (by decide), fun h => absurd h (by decide)⟩
  all_goals
    obtain rfl := Option.some.inj hclose
    exact ⟨local_emit_if rfl, fun l refs hw => ⟨0, l, hw.emit_if rfl⟩⟩

/-- The loop of `tcp_poll`. -/
theorem AllQueues.poll {fuel : Nat} (h : AllQueues frames R w qs)
    (hpoll : tcpPollFrom fuel w q = some w') :
    ∃ qs', AllQueues frames R w' qs' := by
  induction fuel generalizing w q qs with
  | zero => simp [tcpPollFrom] at hpoll
  | succ fuel ih =>
    rw [tcpPollFrom] at hpoll
    split at hpoll
    · obtain rfl := Option.some.inj hpoll
      exact ⟨qs, h⟩
    · dsimp only at hpoll
      split at hpoll
      -- `next` is read before `tcp_free`, so the loop goes on behind `q`.
      · obtain ⟨w₁, hfree, hpoll⟩ := Option.bind_eq_some_iff.mp hpoll
        obtain ⟨qs₁, h₁⟩ := h.one q (tcpFree_local hfree) fun l refs hw => ⟨0, [], hw.free hfree⟩
        exact ih h₁ hpoll
      · exact ih h hpoll

/-- A driver releases a buffer that was handed to it. -/
theorem AllQueues.release (h : AllQueues frames R w qs) (hp : packet ∈ inFlight w.log) :
    ∃ qs', AllQueues frames R ((w.setBufs (netFreeBuf w.bufs packet)).emit (.release packet))
      qs' := by
  -- The buffer may belong to any connection, and none is looked at: address 0 stands in front.
  obtain ⟨l, qs', hfocus⟩ := h.focus 0
  have hhandled := hfocus.handled
  have hperm : (l ++ ([] ++ (qs'.flatMap Prod.snd ++ inFlight w.log))).Perm
      (packet :: (l ++ (qs'.flatMap Prod.snd ++ (inFlight w.log).erase packet))) := by
    rw [List.nil_append, ← List.append_assoc, ← List.append_assoc]
    exact ((List.perm_cons_erase hp).append_left _).trans List.perm_middle
  obtain ⟨hcounted, hother, hsame⟩ := (hhandled.counted.subperm hperm.symm.subperm).free
  have hbufs : ∀ p ∈ l ++ qs'.flatMap Prod.snd,
      ∃ n, (netFreeBuf w.bufs packet).buf p = { w.bufs.buf p with refCount := n } := by
    intro p hp
    by_cases heq : p = packet
    · rw [heq] at hp ⊢
      exact hsame (by rw [← List.append_assoc]; exact List.mem_append_left _ hp)
    · exact ⟨(w.bufs.buf p).refCount, hother p heq⟩
  generalize hw' : (w.setBufs (netFreeBuf w.bufs packet)).emit (.release packet) = w'
  have hwait : (w'.conn 0).state ≠ .closed → ∃ base, Waiting R w' 0 base l := by
    intro hs
    rw [← hw'] at hs ⊢
    obtain ⟨base, hw⟩ := hhandled.waiting hs
    exact ⟨base, hw.congr rfl rfl (fun p hp => hbufs p (List.mem_append_left _ hp)) id id⟩
  obtain ⟨l', hall⟩ := hfocus.replace (fun p _ => by rw [← hw']; exact ⟨rfl, rfl, rfl⟩)
    (fun p hp => by rw [← hw']; exact hbufs p (List.mem_append_right l hp)) hwait
    (by rw [← hw']; exact hcounted) (fun p hp => hhandled.apart p (List.mem_append_left [] hp))
  exact ⟨(0, l') :: qs', hall⟩

/-! ## Every run -/

/-- What the callers of TCP keep to: a packet fits into a buffer, a driver
    releases what it was handed, and `tcp_connect` gets a connection on which
    nothing waits, as `tcp_new_conn` returns it. -/
def CallersOk (w : TcpWorld) : TcpOp → Prop
  | .recv _ _ _ data => data.length ≤ 2048
  | .release packet => packet ∈ inFlight w.log
  | .connect conn _ _ => (w.conn conn).resequence = 0
  | _ => True

instance (w : TcpWorld) (op : TcpOp) : Decidable (CallersOk w op) :=
  match op with
  | .recv _ _ _ data => inferInstanceAs (Decidable (data.length ≤ 2048))
  | .release packet => inferInstanceAs (Decidable (packet ∈ inFlight w.log))
  | .connect conn _ _ => inferInstanceAs (Decidable ((w.conn conn).resequence = 0))
  | .newConn | .send _ _ | .close _ | .poll | .tick _ | .routes _ | .intf _ | .callbacks _ _ _ _
    _ =>
    .isTrue trivial

/-- The packets that have arrived. -/
def packets : List TcpOp → List (List Byte)
  | [] => []
  | .recv _ _ _ data :: ops => data :: packets ops
  | _ :: ops => packets ops

/-- Before the first call: all connections are closed, no buffer is in use. -/
structure InsideStart (frames : Nat → Nat) (w : TcpWorld) : Prop where
  closed : ∀ p, (w.conn p).state = .closed
  pool : RefInv frames w.bufs []
  log : w.log = []

theorem InsideStart.queues (h : InsideStart frames w) : AllQueues frames R w [] :=
  ⟨List.nodup_nil, fun p hp => absurd (h.closed p) hp,
    by simp, by simp, by simpa [h.log, inFlight] using h.pool⟩

/-- One call. -/
theorem AllQueues.step (hf : FramesOk frames) {op : TcpOp} (h : AllQueues frames R w qs)
    (hR : packets [op] ⊆ R) (hcall : CallersOk w op) (hok : SegmentOk w op)
    (hs : tcpStep frames w op = some w') :
    ∃ qs', AllQueues frames R w' qs' := by
  -- nothing but the clock, the routes and the interfaces changes
  have hsame : ∀ u : TcpWorld, u.conn = w.conn → u.bufs = w.bufs → u.log = w.log →
    u.freeConnList = w.freeConnList →
      ∃ qs', AllQueues frames R u qs' := by
    intro u hconn hbufs hlog hfree
    have hlocal : Local 0 w u := ⟨fun p _ => .inl (by rw [hconn]), .inl hfree, [], hlog, by simp⟩
    refine h.one 0 hlocal fun l refs hw => ⟨0, l, ?_⟩
    apply hw.congr [] _ _ _ hbufs hlog (by simp)
    · rw [hconn]
    · rw [hconn]
    · rw [hconn]
      exact .refl _
  cases op with
  | newConn =>
    obtain rfl := Option.some.inj hs
    exact h.newConn
  | connect q addr port =>
    obtain ⟨r, hr, rfl⟩ := Option.map_eq_some_iff.mp hs
    exact h.connect hf hcall hr
  | send q data =>
    obtain rfl := Option.some.inj hs
    exact h.one q (tcpSendPacket_local ..) fun l refs hw => ⟨0, l, hw.sendPacket hf _ _ _⟩
  | close q =>
    obtain ⟨hlocal, hhandled⟩ := tcpClose_for hf hs
    exact h.one q hlocal hhandled
  | recv src dst protocol data =>
    obtain ⟨q, hd⟩ := tcpDeliver_for (R := R) hf (hR List.mem_cons_self) hcall hok hs
    refine h.one q hd.here fun l refs hw => ?_
    obtain ⟨f, l', -, -, h'⟩ := hd.handled l refs hw
    exact ⟨f, l', h'⟩
  | poll => exact h.poll hs
  | tick _ | routes _ | intf _ =>
    obtain rfl := Option.some.inj hs
    exact hsame _ rfl rfl rfl rfl
  -- The callbacks are not part of what waits.
  | callbacks q onConnect onError onState onData =>
    obtain rfl := Option.some.inj hs
    refine h.one q (local_setConn w q _) fun l refs hw => ⟨0, l, ?_⟩
    have hconn : (w.setCallbacks q onConnect onError onState onData).conn q = { w.conn q with
        onConnect := onConnect, onError := onError, onState := onState, onData := onData } := by
      simp [TcpWorld.setCallbacks]
    have hbufs : (w.setCallbacks q onConnect onError onState onData).bufs = w.bufs := rfl
    have hlog : (w.setCallbacks q onConnect onError onState onData).log = [] ++ w.log := rfl
    apply hw.congr [] _ _ _ hbufs hlog (by simp)
    · rw [hconn]
    · rw [hconn]
    · rw [hconn]
      exact .refl _
  | release packet =>
    obtain rfl := Option.some.inj hs
    exact h.release hcall

theorem packets_append (ops ops' : List TcpOp) :
    packets (ops ++ ops') = packets ops ++ packets ops' := by
  induction ops with
  | nil => rfl
  | cons op ops ih => cases op <;> simp [packets, ih]

/-- What waits after a run are parts of the packets that have arrived. -/
theorem AllQueues.run (hf : FramesOk frames) {ops : List TcpOp}
    (hrun : Run (tcpStep frames) (fun w op => CallersOk w op ∧ SegmentOk w op) w₀ ops w)
    (h : AllQueues frames R w₀ qs) : ∃ qs', AllQueues frames (R ++ packets ops) w qs' := by
  induction hrun generalizing R qs with
  | nil s => exact ⟨qs, h.mono (List.subset_append_left R _)⟩
  | @cons s t u op ops hok hstep hrun ih =>
    -- The packets of the first call are added in front of those of the others.
    obtain ⟨qs₁, h₁⟩ := (h.mono (List.subset_append_left R (packets [op]))).step hf
      (List.subset_append_right R _) hok.1 hok.2 hstep
    obtain ⟨qs₂, h₂⟩ := ih h₁
    refine ⟨qs₂, ?_⟩
    rw [List.append_assoc, ← packets_append] at h₂
    exact h₂

/-- What is promised of a received segment: `on_data` gets ranges inside the
    packets `R` behind their headers, `rcv.nxt` counts what it got and a FIN, and
    a segment whose data offset is wrong is discarded. -/
structure SegmentInside (R : List (List Byte)) (data : List Byte) (w w' : TcpWorld) : Prop where
  told : ∃ new, w'.log = new ++ w.log ∧
    (∀ conn bytes len, .onData conn bytes len ∈ new → ∃ packet ∈ R, InsidePacket packet bytes len) ∧
    -- in `TCP_SYN_SENT` the SYN sets `rcv.nxt`
    ∀ conn, (w.conn conn).state ≠ .synSent →
      ∃ f ≤ 1, (f = 1 → hasFlag (TcpHeader.read data).flags TCP_FIN) ∧
      (w'.conn conn).rcv.nxt = (w.conn conn).rcv.nxt + BitVec.ofNat 32 (bytesTold conn new + f)
  discarded : ¬ OffsetOk data → w'.conn = w.conn ∧ w'.log = w.log

theorem bytesTold_other {new : List TcpEvent} (hnew : ∀ e ∈ new, e.conn? = some q)
    (hne : conn ≠ q) :
    bytesTold conn new = 0 := by
  induction new with
  | nil => rfl
  | cons e new ih =>
    have hrest := ih fun e he => hnew e (List.mem_cons_of_mem _ he)
    have he := hnew e List.mem_cons_self
    cases e with
    | onData p bytes len =>
      obtain rfl : p = q := Option.some.inj he
      rw [bytesTold, if_neg (Ne.symm hne), hrest]
    | newConn | connect | freeConn | ipSend | onConnect | onError | onState | release => exact hrest

/-- In every run in which the segments are right, each one delivers parts of
    packets only, and counts them. -/
theorem tcp_segment_inside {frames : Nat → Nat} (hf : FramesOk frames) {w₀ w w' : TcpWorld}
    {ops : List TcpOp}
    {src dst : Ipv4Addr} {protocol : Byte} {data : List Byte} (h₀ : InsideStart frames w₀)
    (hrun : Run (tcpStep frames) (fun w op => CallersOk w op ∧ SegmentOk w op) w₀ ops w)
    (hsize : CallersOk w (.recv src dst protocol data))
    (hok : SegmentOk w (.recv src dst protocol data))
    (h : tcpStep frames w (.recv src dst protocol data) = some w') :
    SegmentInside (data :: packets ops) data w w' := by
  -- What waits after the run may be delivered by this segment.
  obtain ⟨qs, hqs⟩ := (h₀.queues (R := [])).run hf hrun
  have hall := hqs.mono (List.subset_cons_self data _)
  obtain ⟨q, hd⟩ := tcpDeliver_for (R := data :: packets ops) hf List.mem_cons_self hsize hok h
  obtain ⟨l, qs', hfocus⟩ := hall.focus q
  obtain ⟨f, l', hle, hfin, h'⟩ := hd.handled l _ hfocus.handled
  obtain ⟨new, hlog, hparts, hcount⟩ := h'.told
  refine ⟨⟨new, hlog, hparts, fun conn hs => ?_⟩, hd.discarded⟩
  by_cases hconn : conn = q
  · subst hconn
    exact ⟨f, hle, hfin, hcount hs⟩
  · -- the segment is not for this connection
    obtain ⟨new', hlog', hnew'⟩ := hd.here.events
    obtain rfl := List.append_cancel_right (hlog.symm.trans hlog')
    refine ⟨0, by simp, by simp, ?_⟩
    rw [bytesTold_other hnew' hconn, (hd.here.sameQueue hconn).rcv]
    simp

theorem boot_insideStart : InsideStart nextFrame TcpWorld.boot :=
  ⟨fun _ => rfl, ⟨⟨⟨[], rfl, by simp, by simp⟩, by simp, by simp⟩, by simp⟩, rfl⟩

/-- Two bytes of the peer reach `on_data`. -/
theorem tcp_segment_inside_two_bytes :
    ∃ w w', Run (tcpStep nextFrame) (fun w op => CallersOk w op ∧ SegmentOk w op) TcpWorld.boot
        [.newConn, .callbacks 0x1000 true true true true, .connect 0x1000 (.ofBytes 192 0 2 1) 80,
          .recv (.ofBytes 192 0 2 1) (.ofBytes 10 0 2 15) IP_PROTOCOL_TCP
            (peerPacket 5000 1 (TCP_SYN ||| TCP_ACK) [])] w ∧
      tcpStep nextFrame w (.recv (.ofBytes 192 0 2 1) (.ofBytes 10 0 2 15) IP_PROTOCOL_TCP
        (peerPacket 5001 1 TCP_ACK [104, 105])) = some w' ∧
      .onData 0x1000 [104, 105] 2 ∈ w'.log ∧
      SegmentInside [peerPacket 5001 1 TCP_ACK [104, 105],
        peerPacket 5000 1 (TCP_SYN ||| TCP_ACK) []]
        (peerPacket 5001 1 TCP_ACK [104, 105]) w w' := by
  have hexec :
    ((Run.exec (tcpStep nextFrame) (fun w op => CallersOk w op ∧ SegmentOk w op) TcpWorld.boot
        [.newConn, .callbacks 0x1000 true true true true, .connect 0x1000 (.ofBytes 192 0 2 1) 80,
          .recv (.ofBytes 192 0 2 1) (.ofBytes 10 0 2 15) IP_PROTOCOL_TCP
            (peerPacket 5000 1 (TCP_SYN ||| TCP_ACK) [])]).bind fun w =>
      (tcpStep nextFrame w (.recv (.ofBytes 192 0 2 1) (.ofBytes 10 0 2 15) IP_PROTOCOL_TCP
        (peerPacket 5001 1 TCP_ACK [104, 105]))).map fun w' =>
      (decide (SegmentOk w (.recv (.ofBytes 192 0 2 1) (.ofBytes 10 0 2 15) IP_PROTOCOL_TCP
        (peerPacket 5001 1 TCP_ACK [104, 105]))), decide (.onData 0x1000 [104, 105] 2 ∈ w'.log))) =
      some (true, true) := by
    decide +kernel
  simp only [Option.bind_eq_some_iff, Option.map_eq_some_iff, Prod.mk.injEq, decide_eq_true_eq]
    at hexec
  obtain ⟨w, hw, w', hw', hok, hdata⟩ := hexec
  have hrun := Run.of_exec hw
  exact ⟨w, w', hrun, hw', hdata, tcp_segment_inside nextFrame_framesOk boot_insideStart hrun
    (show (peerPacket 5001 1 TCP_ACK [104, 105]).length ≤ 2048 by decide +kernel) hok hw'⟩

/-- A packet of the peer without data and with this data offset in its header. -/
def offsetPacket (off : Byte) (seq ack : BitVec 32) : List Byte :=
  let header : TcpHeader := ⟨80, 1, seq, ack, off, TCP_ACK, 8192, 0, 0⟩
  let checksum :=
    netChecksum (checksumHeader (.ofBytes 192 0 2 1) (.ofBytes 10 0 2 15) IP_PROTOCOL_TCP 20 ++
    header.toBytes)
  { header with checksum := checksum }.toBytes

/-- A segment without data whose data offset is 0: its header goes to `on_data`. -/
theorem tcp_segment_header_delivered :
    ¬ ∀ (frames : Nat → Nat) (w₀ w w' : TcpWorld) (ops : List TcpOp) (src dst : Ipv4Addr)
    (protocol : Byte)
        (data : List Byte), FramesOk frames → InsideStart frames w₀ →
        Run (tcpStep frames) CallersOk w₀ ops w →
      CallersOk w (.recv src dst protocol data) →
      tcpStep frames w (.recv src dst protocol data) = some w' →
      SegmentInside (data :: packets ops) data w w' := by
  intro hall
  have hexec : ((Run.exec (tcpStep nextFrame) CallersOk TcpWorld.boot
        [.newConn, .callbacks 0x1000 true true true true, .connect 0x1000 (.ofBytes 192 0 2 1) 80,
          .recv (.ofBytes 192 0 2 1) (.ofBytes 10 0 2 15) IP_PROTOCOL_TCP
            (peerPacket 5000 1 (TCP_SYN ||| TCP_ACK) [])]).bind fun w =>
      (tcpStep nextFrame w (.recv (.ofBytes 192 0 2 1) (.ofBytes 10 0 2 15) IP_PROTOCOL_TCP
        (offsetPacket 0 5001 1))).map fun w' =>
      (decide (.onData 0x1000 (tcpSwap (offsetPacket 0 5001 1)) 20 ∈ w.log),
        decide (.onData 0x1000 (tcpSwap (offsetPacket 0 5001 1)) 20 ∈ w'.log))) =
          some (false, true) := by
    decide +kernel
  simp only [Option.bind_eq_some_iff, Option.map_eq_some_iff, Prod.mk.injEq, decide_eq_true_eq,
    decide_eq_false_iff_not] at hexec
  obtain ⟨w, hw, w', hw', hbefore, hafter⟩ := hexec
  have hsize : (offsetPacket 0 5001 1).length ≤ 2048 := by decide +kernel
  obtain ⟨new, hlog, hparts, -⟩ :=
    (hall _ _ w w' _ _ _ _ _ nextFrame_framesOk boot_insideStart (Run.of_exec hw) hsize hw').told
  rw [hlog] at hafter
  obtain ⟨packet, hmem, start, hstart, hend, -⟩ :=
    hparts _ _ _ ((List.mem_append.mp hafter).resolve_right hbefore)
  -- no packet has 20 bytes behind its header
  have hshort : ∀ packet ∈ [offsetPacket 0 5001 1, peerPacket 5000 1 (TCP_SYN ||| TCP_ACK) []],
      packet.length < 40 := by decide +kernel
  have hlt := hshort packet hmem
  have hlen : (20 : BitVec 32).toNat = 20 := rfl
  omega

end MishaOS
