import MishaOS.Spec.TcpInsert
import MishaOS.Spec.TcpReassembly
import MishaOS.Spec.TcpUnsent

/-!
# Segments of any content

What `on_data` gets is a range of a buffer.  The length of the payload is the
difference of two pointers after the header length of the packet has been added
to one of them, and `tcp_recv` takes that header length as it comes.  Here the
packets are arbitrary bytes whose header length is right: every segment that
waits then is the front part of the payload of a packet that was received, and
`rcv.nxt` counts what has been passed to `on_data`.

## Key results

- `Spliced.refInv`: the references after `tcp_recv_insert`.
- `Handled.recvData`: `tcp_recv_data` passes parts of payloads to `on_data`.
- `Handled.recvGeneral`: a segment for a connection.
-/

namespace MishaOS

open LinkedList Serial

variable {frames : Nat → Nat} {b b' : BufPool} {p packet cur head fuel conn : Nat}
    {l l' q fs refs call : List Nat}
  {before dropped rest : List Nat} {nxt : BitVec 32} {wnd : Nat}

/-! ## References after an insertion -/

/-- Released buffers are referenced once less. -/
theorem Released.refInv (h : Released fs b b') (hnodup : fs.Nodup)
    (href : RefInv frames b (fs ++ refs)) :
    RefInv frames b' refs := by
  obtain ⟨l, hl, hdis, hfresh⟩ := href.pool.free
  -- each released buffer has the reference that is given back
  have hcount : ∀ p ∈ fs, refs.count p + 1 ≤ (b.buf p).refCount := by
    intro p hp
    have hle := (href.counted p (List.mem_append_left refs hp)).1
    rw [List.count_append, List.count_eq_one_of_mem hnodup hp] at hle
    omega
  have hfree := h.free l hl fun p hp hmem => hdis p hmem (List.mem_append_left refs hp)
  refine ⟨⟨⟨_, hfree, fun p hp hmem => ?_, fun k hk hmem => ?_⟩, fun p hp => ?_,
    fun k hk hmem => ?_⟩,
    fun p hp => ?_⟩
  -- a free buffer was free before, or its last reference was given back
  · obtain hp | hp := List.mem_append.mp hp
    · -- it had no other reference
      obtain ⟨hfs, hone⟩ := List.mem_filter.mp (List.mem_reverse.mp hp)
      have hone : (b.buf p).refCount = 1 := by simpa using hone
      have hpos := List.count_pos_iff.mpr (show p ∈ refs from hmem)
      have hle := hcount p hfs
      omega
    · exact hdis p hp (List.mem_append_right fs hmem)
  · rw [h.requests] at hk
    obtain hp | hp := List.mem_append.mp hmem
    · have hfs := (List.mem_filter.mp (List.mem_reverse.mp hp)).1
      exact href.pool.fresh k hk (List.mem_append_left refs hfs)
    · exact hfresh k hk hp
  · exact href.pool.ne_zero p (List.mem_append_right fs hp)
  · rw [h.requests] at hk
    exact href.pool.fresh k hk (List.mem_append_right fs hmem)
  · obtain ⟨hle, hlt⟩ := href.counted p (List.mem_append_right fs hp)
    -- the count of a released buffer is one less, the others keep theirs
    by_cases hfs : p ∈ fs
    · have hmore := hcount p hfs
      rw [h.count p hfs]
      omega
    · rw [h.other p hfs]
      rw [List.count_append, List.count_eq_zero_of_not_mem hfs] at hle
      omega

/-- Cutting off the end of a segment takes no reference. -/
theorem RefInv.tcpInsertTrim {prev : Nat} (href : RefInv frames b refs)
    (hprev : prev = 0 ∨ prev ∈ refs)
    (seq : BitVec 32) : RefInv frames (tcpInsertTrim b prev seq) refs := by
  unfold MishaOS.tcpInsertTrim
  extract_lets prevEnd
  split
  · rename_i hcut
    exact href.setBuf (hprev.resolve_left hcut.1) rfl
  · exact href

/-- Nor does cutting off the end of the packet. -/
theorem RefInv.cutAt (href : RefInv frames b refs) (hp : packet ∈ refs)
    (e : BitVec 32) (cur : Nat) :
    RefInv frames (cutAt b packet e cur) refs := by
  unfold MishaOS.cutAt
  split
  · exact href.setBuf hp rfl
  · exact href

/-- Nor does linking it. -/
theorem RefInv.tcpInsertLink (href : RefInv frames b refs) (hp : packet ∈ refs)
    (hcur : cur = 0 ∨ cur ∈ refs) :
    RefInv frames (tcpInsertLink b packet cur) refs := by
  unfold MishaOS.tcpInsertLink
  split
  · rename_i h0
    have hlink := href.setBuf (x := { b.buf cur with link := (b.buf packet).link })
      (hcur.resolve_left h0) rfl
    exact hlink.setBuf hp rfl
  · exact href

/-- The list keeps the references to the segments in it. -/
theorem Spliced.refInv (h : Spliced nxt b packet before dropped rest b') (hnodup : dropped.Nodup)
    (href : RefInv frames b (packet :: (before ++ (dropped ++ rest) ++ refs))) :
    RefInv frames b' (packet :: rest.head?.toList ++ refs) := by
  obtain ⟨b₁, hreleased, rfl⟩ := h.result
  have htrim := href.tcpInsertTrim ((getLast_getD before).imp_right fun hmem => by simp [hmem])
    (b.buf packet).seq
  -- Only what is still referenced is kept: `dropped` was released, `before` is no longer in the
  -- list.
  have hperm : (dropped ++ (packet :: rest ++ refs)).Subperm
      (packet :: (before ++ (dropped ++ rest) ++ refs)) := by
    have hmiddle :
        (dropped ++ (packet :: rest ++ refs)).Perm (packet :: (dropped ++ (rest ++ refs))) :=
      List.perm_middle
    apply hmiddle.subperm.trans
    apply List.Sublist.subperm
    apply List.Sublist.cons_cons
    rw [List.append_assoc, List.append_assoc]
    exact List.sublist_append_right before _
  have href₁ := hreleased.refInv hnodup (htrim.subperm hperm)
  -- Behind the first of `rest` the list is cut off.
  have hsub : (packet :: rest.head?.toList ++ refs).Subperm (packet :: rest ++ refs) := by
    cases rest with
    | nil => exact List.Subperm.refl _
    | cons r rest =>
      apply List.Sublist.subperm
      simp
  have hkept := href₁.subperm hsub
  have hcur : rest.head?.getD 0 = 0 ∨ rest.head?.getD 0 ∈ packet :: rest.head?.toList ++ refs := by
    cases rest with
    | nil => exact .inl rfl
    | cons r rest => exact .inr (by simp)
  exact (hkept.cutAt (by simp) _ _).tcpInsertLink (by simp) hcur

/-- Other buffers are not touched. -/
theorem Spliced.other (h : Spliced nxt b packet before dropped rest b')
    (hp : p ∉ packet :: (before ++ (dropped ++ rest))) : b'.buf p = b.buf p := by
  obtain ⟨b₁, hreleased, rfl⟩ := h.result
  simp only [List.mem_cons, List.mem_append, not_or] at hp
  obtain ⟨hpacket, hbefore, hdropped, hrest⟩ := hp
  have hcur : rest.head?.getD 0 = 0 ∨ p ≠ rest.head?.getD 0 := by
    cases rest with
    | nil => exact .inl rfl
    | cons r rest => exact .inr fun heq => hrest (by simp [heq])
  rw [tcpInsertLink_other hpacket hcur, cutAt_other _ _ hpacket, hreleased.other p hdropped]
  exact tcpInsertTrim_other _ ((getLast_getD before).imp_right fun hmem heq => hbefore (heq ▸ hmem))

/-! ## Parts of packets -/

/-- The data offset of the packet names a header of at least 20 bytes that ends
    inside the packet. -/
def OffsetOk (data : List Byte) : Prop :=
  20 ≤ (TcpHeader.read data).headerLen ∧ (TcpHeader.read data).headerLen ≤ data.length

instance (data : List Byte) : Decidable (OffsetOk data) := inferInstanceAs (Decidable (_ ∧ _))

/-- `bytes` are the `len` bytes from a place of the packet on that is behind its
    first 20 bytes, and the range ends inside the packet. -/
def InsidePacket (data bytes : List Byte) (len : BitVec 32) : Prop :=
  ∃ start, 20 ≤ start ∧ start + len.toNat ≤ data.length ∧ bytes = (data.drop start).take len.toNat

variable {R : List (List Byte)} {x y : NetBuf}

/-- The buffer holds a part of a packet in `R` behind its header. -/
structure Payload (R : List (List Byte)) (x : NetBuf) : Prop where
  deficit : x.deficit = 0
  part : ∃ data ∈ R, ∃ start, 20 ≤ start ∧ start + x.data.length ≤ data.length ∧
    x.data = (data.drop start).take x.data.length

/-- Only the bytes matter. -/
theorem Payload.congr (h : Payload R x) (hdata : y.data = x.data) (hdef : y.deficit = x.deficit) :
    Payload R y := by
  obtain ⟨data, hmem, start, hstart, hle, hpart⟩ := h.part
  refine ⟨hdef.trans h.deficit, data, hmem, start, hstart, ?_, ?_⟩
  · rw [hdata]
    exact hle
  · rw [hdata]
    exact hpart

/-- The end may be cut off. -/
theorem Payload.take (h : Payload R x) {k : Nat} (hk : k ≤ x.data.length)
    (hdata : y.data = x.data.take k)
    (hdef : y.deficit = 0) : Payload R y := by
  obtain ⟨data, hmem, start, hstart, hle, hpart⟩ := h.part
  have hlen : y.data.length = k := by rw [hdata, List.length_take, Nat.min_eq_left hk]
  refine ⟨hdef, data, hmem, start, hstart, by omega, ?_⟩
  rw [hlen, hdata, hpart, List.take_take, Nat.min_eq_left hk]

/-- What was received before has been received afterwards. -/
theorem Payload.mono {R' : List (List Byte)} (h : Payload R x) (hsub : R ⊆ R') : Payload R' x := by
  obtain ⟨data, hmem, hpart⟩ := h.part
  exact ⟨h.deficit, data, hsub hmem, hpart⟩

/-- The length of a segment has 32 bits. -/
theorem Payload.len32 (h : Payload R x) (hlen : x.data.length < 4294967296) :
    x.len32.toNat = x.data.length := by
  simp [NetBuf.len32, h.deficit, Nat.mod_eq_of_lt hlen]

/-- What `on_data` gets of such a buffer. -/
theorem Payload.inside (h : Payload R x) (hlen : x.data.length < 4294967296) :
    ∃ data ∈ R, InsidePacket data x.data x.len32 := by
  obtain ⟨data, hmem, start, hstart, hle, hpart⟩ := h.part
  refine ⟨data, hmem, start, hstart, ?_, ?_⟩
  · rw [h.len32 hlen]
    exact hle
  · rw [h.len32 hlen]
    exact hpart

/-- A segment that passes the window test lies in the window. -/
theorem inReceiveWindow_of_inWindow {c : TcpConn} (hwnd : c.rcv.wnd = 8192) (hdef : x.deficit = 0)
    (hlen : x.data.length < 8192) (h : inWindow c x.seq x.len32) :
    InReceiveWindow c.rcv.nxt 8192 x := by
  have hlen32 : x.len32 = BitVec.ofNat 32 x.data.length := by simp [NetBuf.len32, hdef]
  -- positions from half the range in front of `rcv.nxt` on
  obtain ⟨base, hbase⟩ : ∃ base, c.rcv.nxt = num base 2147483648 :=
    ⟨c.rcv.nxt - BitVec.ofNat 32 2147483648, (BitVec.sub_add_cancel _ _).symm⟩
  have hseq := num_toNat_sub base x.seq
  have hrange := (x.seq - base).isLt
  generalize (x.seq - base).toNat = off at hseq hrange
  rw [← hseq, hlen32, inWindow_iff hbase hwnd hlen (by omega) (by omega)] at h
  -- From there the window is the numbers up to half the range and 8192.
  have hoff : segOff c.rcv.nxt x = off - 2147483648 := by
    rw [segOff, hbase, ← hseq]
    exact num_sub_toNat base h.1 (by omega)
  refine ⟨hdef, ?_⟩
  rw [segEnd, hoff]
  omega

/-! ## The connection a segment is for -/

/-- The number of bytes passed to `on_data` of a connection. -/
def bytesTold (conn : Nat) : List TcpEvent → Nat
  | [] => 0
  | .onData p _ len :: l => (if p = conn then len.toNat else 0) + bytesTold conn l
  | _ :: l => bytesTold conn l

/-- The bytes of two parts of the log. -/
theorem bytesTold_append (conn : Nat) (l l' : List TcpEvent) :
    bytesTold conn (l ++ l') = bytesTold conn l + bytesTold conn l' := by
  induction l with
  | nil => simp [bytesTold]
  | cons e l ih => cases e <;> simp [bytesTold, ih, Nat.add_assoc]

/-- Before a connection is established nothing waits. -/
def isOpening (state : TcpState) : Bool := state ∈ [.listen, .synSent, .synReceived]

/-- Data is taken, or may be taken after the next segment. -/
def mayTakeData (state : TcpState) : Bool :=
  state ∈ [.synReceived, .established, .finWait1, .finWait2]

/-- The buffers `l` wait in the resequence list, at positions behind `base`,
    which is `rcv.nxt` as long as data is taken. -/
structure Waiting (R : List (List Byte)) (w : TcpWorld) (conn : Nat) (base : BitVec 32)
    (l : List Nat) :
    Prop where
  wnd : (w.conn conn).rcv.wnd = 8192
  queue : Resequence base 8192 w.bufs (w.conn conn).resequence l
  payload : ∀ p ∈ l, Payload R (w.bufs.buf p)
  behind : ∀ p ∈ l, 0 < segOff base (w.bufs.buf p)
  short : l.length ≤ 2
  base : mayTakeData (w.conn conn).state → base = (w.conn conn).rcv.nxt
  opening : isOpening (w.conn conn).state → l = []

/-- What a call has told a connection: only parts of packets in `R`, and
    `rcv.nxt` counts their bytes, with `f` for a FIN. -/
def Told (R : List (List Byte)) (conn : Nat) (w₀ : TcpWorld) (f : Nat) (w : TcpWorld) : Prop :=
  ∃ new, w.log = new ++ w₀.log ∧
    (∀ p bytes len, .onData p bytes len ∈ new → ∃ data ∈ R, InsidePacket data bytes len) ∧
    ((w₀.conn conn).state ≠ .synSent →
      (w.conn conn).rcv.nxt = (w₀.conn conn).rcv.nxt + BitVec.ofNat 32 (bytesTold conn new + f))

/-- A state in the middle of a call for the connection `conn`: the call holds the
    buffers `call`, the buffers `refs` belong to others. -/
structure Handled (frames : Nat → Nat) (R : List (List Byte)) (conn : Nat) (w₀ : TcpWorld)
    (call refs : List Nat) (f : Nat) (w : TcpWorld) (l : List Nat) : Prop where
  waiting : (w.conn conn).state ≠ .closed → ∃ base, Waiting R w conn base l
  counted : RefInv frames w.bufs (l ++ (call ++ (refs ++ inFlight w.log)))
  apart : ∀ p ∈ l ++ call, p ∉ refs
  frame : ∀ p ∈ refs, ∃ n, w.bufs.buf p = { w₀.bufs.buf p with refCount := n }
  told : Told R conn w₀ f w

variable {w w' w₀ : TcpWorld} {f : Nat} {state : TcpState} {header : TcpHeader}

/-- Other events tell nothing. -/
theorem Told.of_log (h : Told R conn w₀ f w) {new : List TcpEvent} (hlog : w'.log = new ++ w.log)
    (hnew : ∀ e ∈ new, ∀ p bytes len, e ≠ .onData p bytes len)
    (hnxt : (w'.conn conn).rcv.nxt = (w.conn conn).rcv.nxt) : Told R conn w₀ f w' := by
  obtain ⟨told, htold, hparts, hcount⟩ := h
  -- No event of `new` counts.
  have hzero : bytesTold conn new = 0 := by
    clear hlog
    induction new with
    | nil => rfl
    | cons e new ih =>
      have hrest := ih fun e he => hnew e (List.mem_cons_of_mem _ he)
      have he := hnew e List.mem_cons_self
      cases e with
      | onData p bytes len => exact absurd rfl (he p bytes len)
      | newConn | connect | freeConn | ipSend | onConnect | onError | onState | release =>
        exact hrest
  refine ⟨new ++ told,
    by rw [hlog, htold, List.append_assoc], fun p bytes len hmem => ?_, fun hs => ?_⟩
  · obtain hmem | hmem := List.mem_append.mp hmem
    · exact absurd rfl (hnew _ hmem p bytes len)
    · exact hparts p bytes len hmem
  · rw [hnxt, hcount hs, bytesTold_append, hzero, Nat.zero_add]

/-- So silent steps tell nothing. -/
theorem Told.of_silent (h : Told R conn w₀ f w) {new : List TcpEvent} (hlog : w'.log = new ++ w.log)
    (hnew : ∀ e ∈ new, e.isSilent) (hnxt : (w'.conn conn).rcv.nxt = (w.conn conn).rcv.nxt) :
    Told R conn w₀ f w' := by
  apply h.of_log hlog _ hnxt
  intro e he p bytes len heq
  have hsilent := hnew e he
  rw [heq] at hsilent
  exact absurd hsilent Bool.false_ne_true

/-- Silent events send nothing. -/
theorem inFlight_append {new : List TcpEvent} (hnew : ∀ e ∈ new, e.isSilent) (log : List TcpEvent) :
    inFlight (new ++ log) = inFlight log := by
  induction new with
  | nil => rfl
  | cons e new ih =>
    rw [List.cons_append, inFlight_silent (hnew e List.mem_cons_self)]
    exact ih fun e he => hnew e (List.mem_cons_of_mem _ he)

/-- A connection on which nothing waits. -/
theorem Waiting.nil (hwnd : (w.conn conn).rcv.wnd = 8192) (hres : (w.conn conn).resequence = 0) :
    Waiting R w conn (w.conn conn).rcv.nxt [] :=
  ⟨hwnd, ⟨hres, by simp, List.Pairwise.nil⟩, by simp, by simp, by simp, fun _ => rfl, fun _ => rfl⟩

/-- Only what is received, the waiting buffers and the state matter. -/
theorem Waiting.congr {base : BitVec 32} (h : Waiting R w conn base l)
    (hrcv : (w'.conn conn).rcv = (w.conn conn).rcv)
    (hres : (w'.conn conn).resequence = (w.conn conn).resequence)
    (hbufs : ∀ p ∈ l, ∃ n, w'.bufs.buf p = { w.bufs.buf p with refCount := n })
    (hset : mayTakeData (w'.conn conn).state → mayTakeData (w.conn conn).state)
    (hopen : isOpening (w'.conn conn).state → isOpening (w.conn conn).state) :
    Waiting R w' conn base l := by
  refine ⟨by rw [hrcv]; exact h.wnd, ⟨?_, fun p hp => ?_, ?_⟩, fun p hp => ?_, fun p hp => ?_,
    h.short, fun hs => ?_,
    fun hs => h.opening (hopen hs)⟩
  -- a waiting buffer may have been referenced once more, and that is all
  · rw [hres]
    apply h.queue.chain.congr
    intro p hp
    obtain ⟨n, hn⟩ := hbufs p hp
    rw [hn]
  · obtain ⟨n, hn⟩ := hbufs p hp
    rw [hn]
    exact ⟨(h.queue.window p hp).deficit, (h.queue.window p hp).le⟩
  · refine h.queue.sorted.imp_of_mem fun {p r} hp hr hle => ?_
    obtain ⟨n, hn⟩ := hbufs p hp
    obtain ⟨m, hm⟩ := hbufs r hr
    rw [hn, hm]
    exact hle
  · obtain ⟨n, hn⟩ := hbufs p hp
    exact (h.payload p hp).congr (by rw [hn]) (by rw [hn])
  · obtain ⟨n, hn⟩ := hbufs p hp
    rw [hn]
    exact h.behind p hp
  · rw [hrcv]
    exact h.base (hset hs)

/-- A state that may follow without a change of what waits. -/
def MayFollow (state state' : TcpState) : Prop :=
  state' ≠ .closed → state ≠ .closed ∧ (mayTakeData state' → mayTakeData state) ∧
    (isOpening state' → isOpening state)

/-- The state stays. -/
theorem MayFollow.refl (state : TcpState) : MayFollow state state := fun h => ⟨h, id, id⟩

/-- Buffers are as they were and the log grows by events of no interest. -/
theorem Handled.congr (new : List TcpEvent) (h : Handled frames R conn w₀ call refs f w l)
    (hrcv : (w'.conn conn).rcv = (w.conn conn).rcv)
    (hres : (w'.conn conn).resequence = (w.conn conn).resequence)
    (hstate : MayFollow (w.conn conn).state (w'.conn conn).state) (hbufs : w'.bufs = w.bufs)
    (hlog : w'.log = new ++ w.log) (hnew : ∀ e ∈ new, e.isSilent) :
    Handled frames R conn w₀ call refs f w' l := by
  have hfly : inFlight w'.log = inFlight w.log := by rw [hlog, inFlight_append hnew]
  refine ⟨fun hs => ?_, ?_, h.apart, ?_, h.told.of_silent hlog hnew (by rw [hrcv])⟩
  · obtain ⟨hs', hset, hopen⟩ := hstate hs
    obtain ⟨base, hw⟩ := h.waiting hs'
    exact ⟨base,
      hw.congr hrcv hres (fun p _ => ⟨(w.bufs.buf p).refCount, by rw [hbufs]⟩) hset hopen⟩
  · rw [hbufs, hfly]
    exact h.counted
  · rw [hbufs]
    exact h.frame

/-- The send state may change. -/
theorem Handled.setSnd (h : Handled frames R conn w₀ call refs f w l) (x : TcpSndState) :
    Handled frames R conn w₀ call refs f (w.setSnd conn x) l := by
  have hconn : (w.setSnd conn x).conn conn = { w.conn conn with snd := x } := by
    simp [TcpWorld.setSnd]
  apply h.congr []
  · rw [hconn]
  · rw [hconn]
  · rw [hconn]
    exact .refl _
  · rfl
  · rfl
  · simp

/-- A silent event may be recorded. -/
theorem Handled.emit_if (h : Handled frames R conn w₀ call refs f w l) {e : TcpEvent} {c : Bool}
    (he : e.isSilent) : Handled frames R conn w₀ call refs f (if c then w.emit e else w) l := by
  split
  · exact h.congr [e] rfl rfl (.refl _) rfl rfl (by simpa using he)
  · exact h

/-- The state may change to one that may follow. -/
theorem Handled.setState (h : Handled frames R conn w₀ call refs f w l)
    (hstate : MayFollow (w.conn conn).state state) :
    Handled frames R conn w₀ call refs f (tcpSetState w conn state) l := by
  have hconn : (w.setState conn state).conn conn = { w.conn conn with state := state } := by
    simp [TcpWorld.setState]
  have hset : Handled frames R conn w₀ call refs f (w.setState conn state) l := by
    apply h.congr []
    · rw [hconn]
    · rw [hconn]
    · rw [hconn]
      exact hstate
    · rfl
    · rfl
    · simp
  exact hset.emit_if rfl

/-- The timer may be started. -/
theorem Handled.timeWait (h : Handled frames R conn w₀ call refs f w l) :
    Handled frames R conn w₀ call refs f (tcpTimeWait w conn) l := by
  have hconn : (tcpTimeWait w conn).conn conn =
      { w.conn conn with mslWait := w.ticks + 2 * TCP_MSL } := by
    simp [tcpTimeWait, TcpWorld.setMslWait]
  apply h.congr []
  · rw [hconn]
  · rw [hconn]
  · rw [hconn]
    exact .refl _
  · rfl
  · rfl
  · simp

/-! ## Sending and releasing -/

/-- A segment is sent in a buffer of its own. -/
theorem Handled.transmit (hf : FramesOk frames)
    (h : Handled frames R conn w₀ call refs f w l) (q : Nat)
    (c : TcpConn) (seq : BitVec 32) (flags : BitVec 8) (data : List Byte) :
    Handled frames R conn w₀ call refs f (tcpTransmit frames w q c seq flags data) l := by
  obtain ⟨hnew, hcounted, hother, -⟩ := h.counted.alloc hf
  unfold tcpTransmit
  simp only
  generalize (netAllocBuf frames w.bufs).1 = packet at *
  generalize (netAllocBuf frames w.bufs).2 = b at *
  -- The buffer is a new one: whatever is referenced stays as it is.
  have hsame : ∀ p ∈ l ++ (call ++ (refs ++ inFlight w.log)), ∀ x, (b.setBuf packet x).buf p =
      w.bufs.buf p := by
    intro p hp x
    have hne : p ≠ packet := fun heq => hnew (heq ▸ hp)
    rw [BufPool.setBuf_buf, if_neg hne, hother p hne]
  -- The new reference is one in flight.
  have hperm : (packet :: (l ++ (call ++ (refs ++ inFlight w.log)))).Perm
      (l ++ (call ++ (refs ++ packet :: inFlight w.log))) := by
    have hmiddle : (l ++ (call ++ (refs ++ packet :: inFlight w.log))).Perm
        (packet :: (l ++ call ++ refs ++ inFlight w.log)) := by
      rw [← List.append_assoc, ← List.append_assoc]
      exact List.perm_middle
    simpa only [List.append_assoc] using hmiddle.symm
  refine ⟨fun hs => ?_, ?_, h.apart, fun p hp => ?_, ?_⟩
  · obtain ⟨base, hw⟩ := h.waiting hs
    exact ⟨base,
      hw.congr rfl rfl
      (fun p hp => ⟨(w.bufs.buf p).refCount, hsame p (List.mem_append_left _ hp) _⟩) id id⟩
  · apply RefInv.subperm _ hperm.symm.subperm
    exact hcounted.setBuf List.mem_cons_self rfl
  · obtain ⟨n, hn⟩ := h.frame p hp
    exact ⟨n, (hsame p (by simp [hp]) _).trans hn⟩
  · have hlog : ∀ e : TcpEvent, e :: w.log = [e] ++ w.log := fun _ => rfl
    exact h.told.of_log (hlog _) (by simp) rfl

/-- A segment may be sent. -/
theorem Handled.sendPacket (hf : FramesOk frames) (h : Handled frames R conn w₀ call refs f w l)
    (seq : BitVec 32) (flags : BitVec 8) (data : List Byte) :
    Handled frames R conn w₀ call refs f (tcpSendPacket frames w conn seq flags data) l :=
  (h.transmit hf conn (w.conn conn) seq flags data).setSnd _

/-- The loop of `tcp_free`. -/
theorem tcpFreeQueue_spec (hchain : Chain (fun p => (b.buf p).link) 0 cur l)
    (href : RefInv frames b (l ++ refs)) (h : tcpFreeQueue fuel b cur = some b') :
    RefInv frames b' refs ∧ ∀ p ∉ l, b'.buf p = b.buf p := by
  induction l generalizing b cur fuel with
  | nil =>
    obtain rfl : cur = 0 := hchain
    cases fuel with
    | zero => simp [tcpFreeQueue] at h
    | succ fuel =>
      simp only [tcpFreeQueue, if_true, Option.some.injEq] at h
      subst h
      exact ⟨href, fun _ _ => rfl⟩
  | cons p l ih =>
    have hnodup := List.nodup_cons.mp hchain.nodup
    obtain ⟨rfl, h0, hrest⟩ := hchain
    cases fuel with
    | zero => simp [tcpFreeQueue] at h
    | succ fuel =>
      simp only [tcpFreeQueue, if_neg h0] at h
      -- `next = packet->link` is read before the buffer is released.
      have hrest' : Chain (fun p => ((netFreeBuf b cur).buf p).link) 0 (b.buf cur).link l := by
        apply hrest.congr
        intro r hr
        have hne : r ≠ cur := fun heq => hnodup.1 (heq ▸ hr)
        rw [netFreeBuf_other b hne]
      obtain ⟨hcounted, hsame⟩ := ih hrest' (RefInv.free (p := cur) href).1 h
      refine ⟨hcounted, fun r hr => ?_⟩
      simp only [List.mem_cons, not_or] at hr
      rw [hsame r hr.2, netFreeBuf_other b hr.1]

/-- Putting the connection on the free list touches no buffer. -/
theorem tcpFreeLink_bufs (w : TcpWorld) (q : Nat) : (tcpFreeLink w q).bufs = w.bufs := by
  unfold tcpFreeLink
  by_cases hfree : w.freeConnList = 0
  · simp [hfree, TcpWorld.emit, TcpWorld.setConn]
  · simp [hfree, TcpWorld.emit, TcpWorld.setConn]

/-- A change of state is silent. -/
theorem tcpSetState_log (w : TcpWorld) (q : Nat) (state : TcpState) :
    ∃ new, (tcpSetState w q state).log = new ++ w.log ∧ ∀ e ∈ new, e.isSilent := by
  unfold tcpSetState
  extract_lets oldState w₁
  split
  · exact ⟨[_], rfl, by simp [TcpEvent.isSilent]⟩
  · exact ⟨[], rfl, by simp⟩

/-- `tcp_free` releases what waits. -/
theorem Handled.free (h : Handled frames R conn w₀ call refs f w l)
    (hfree : tcpFree w conn = some w') :
    Handled frames R conn w₀ call refs f w' [] := by
  have hconn := tcpFree_conn hfree
  -- A closed connection is only put on its list; any other one releases what waits.
  suffices hsuff : RefInv frames w'.bufs (call ++ (refs ++ inFlight w.log)) ∧
      (∀ p ∉ l, w'.bufs.buf p = w.bufs.buf p) ∧ ∃ new, w'.log = new ++ w.log ∧
        ∀ e ∈ new, e.isSilent by
    obtain ⟨hcounted, hsame, new, hlog, hnew⟩ := hsuff
    refine ⟨fun hs => absurd (by rw [hconn]) hs, ?_,
      fun p hp => h.apart p (List.mem_append_right l hp), fun p hp => ?_,
      h.told.of_silent hlog hnew (by rw [hconn])⟩
    · rw [hlog, inFlight_append hnew]
      exact hcounted
    · rw [hsame p fun hmem => h.apart p (List.mem_append_left call hmem) hp]
      exact h.frame p hp
  unfold tcpFree at hfree
  split at hfree
  · rename_i hopen
    obtain ⟨b, hqueue, rfl⟩ := Option.map_eq_some_iff.mp hfree
    obtain ⟨base, hw⟩ := h.waiting hopen
    have hbufs : (tcpSetState w conn .closed).bufs = w.bufs :=
      (tcpSetState_frame w conn .closed).2.2.2.1
    rw [tcpSetState_conn, hbufs] at hqueue
    obtain ⟨hcounted, hsame⟩ := tcpFreeQueue_spec hw.queue.chain h.counted hqueue
    obtain ⟨new, hlog, hnew⟩ := tcpSetState_log w conn .closed
    refine ⟨?_, ?_, .freeConn conn :: new, ?_, ?_⟩
    · rw [tcpFreeLink_bufs]
      exact hcounted
    · rw [tcpFreeLink_bufs]
      exact hsame
    · rw [tcpFreeLink_log, List.cons_append, ← hlog]
      rfl
    · simpa [TcpEvent.isSilent] using hnew
  · cases hfree
    refine ⟨?_, ?_, [.freeConn conn], tcpFreeLink_log w conn, by simp [TcpEvent.isSilent]⟩
    · rw [tcpFreeLink_bufs]
      exact h.counted.subperm (List.sublist_append_right l _).subperm
    · rw [tcpFreeLink_bufs]
      exact fun p _ => rfl

/-- The connection may be released with an error. -/
theorem Handled.error (h : Handled frames R conn w₀ call refs f w l) {error : Nat}
    (herror : tcpError w conn error = some w') : Handled frames R conn w₀ call refs f w' [] :=
  (h.emit_if rfl).free herror

/-! ## Delivering -/

/-- A position behind the first `n` numbers, counted from there. -/
theorem segOff_advance {n : Nat} (hle : n ≤ segOff nxt x) :
    segOff (nxt + BitVec.ofNat 32 n) x = segOff nxt x - n := by
  have hlt := (x.seq - nxt).isLt
  have hseq := seq_eq_num nxt x
  rw [segOff, hseq]
  exact num_sub_toNat nxt hle (by rw [segOff]; omega)

/-- The segment at the head of the list is delivered: the others are in the
    window behind it. -/
theorem Resequence.tail (h : Resequence nxt wnd b head (p :: l)) (hnext : segOff nxt (b.buf p) = 0)
    (hbufs : ∀ r ∈ l, b'.buf r = b.buf r) :
    Resequence (nxt + (b.buf p).len32) wnd b' (b.buf p).link l := by
  have hp := h.window p List.mem_cons_self
  have hlen : (b.buf p).len32 = BitVec.ofNat 32 (b.buf p).data.length := by
    simp [NetBuf.len32, hp.deficit]
  obtain ⟨hfirst, hsorted⟩ := List.pairwise_cons.mp h.sorted
  -- The others start behind the delivered segment, so their positions become less by its length.
  have hoff : ∀ r ∈ l, segOff (nxt + (b.buf p).len32) (b'.buf r) =
      segOff nxt (b.buf r) - (b.buf p).data.length := by
    intro r hr
    have hle := hfirst r hr
    rw [segEnd, hnext] at hle
    rw [hbufs r hr, hlen]
    exact segOff_advance (by omega)
  have hend : ∀ r ∈ l, segEnd (nxt + (b.buf p).len32) (b'.buf r) + (b.buf p).data.length =
      segEnd nxt (b.buf r) := by
    intro r hr
    have hle := hfirst r hr
    rw [segEnd, hnext] at hle
    rw [segEnd, segEnd, hoff r hr, hbufs r hr]
    omega
  refine ⟨?_, fun r hr => ⟨?_, ?_⟩, ?_⟩
  · apply h.chain.2.2.congr
    intro r hr
    rw [hbufs r hr]
  · rw [hbufs r hr]
    exact (h.window r (List.mem_cons_of_mem p hr)).deficit
  · have hle := (h.window r (List.mem_cons_of_mem p hr)).le
    have hsum := hend r hr
    omega
  · refine hsorted.imp_of_mem fun {r s} hr hs hle => ?_
    have hsum := hend r hr
    have hstart := hfirst s hs
    rw [segEnd, hnext] at hstart
    rw [hoff s hs]
    omega

/-- A call of `on_data` for a part of a packet. -/
theorem Told.deliverHead (h : Told R conn w₀ f w) (hp : Payload R (w.bufs.buf p))
    (hlen : (w.bufs.buf p).data.length < 4294967296) : Told R conn w₀ f (deliverHead w conn p) := by
  obtain ⟨new, hlog, hparts, hcount⟩ := h
  refine ⟨.onData conn (w.bufs.buf p).data (w.bufs.buf p).len32 :: new, ?_,
    fun q bytes len hmem => ?_, fun hs => ?_⟩
  · show TcpEvent.onData _ _ _ :: w.log = _
    rw [hlog]
    rfl
  · obtain heq | hmem := List.mem_cons.mp hmem
    · cases heq
      exact hp.inside hlen
    · exact hparts q bytes len hmem
  · rw [deliverHead_conn]
    show (w.conn conn).rcv.nxt + (w.bufs.buf p).len32 = _
    -- `rcv.nxt` advances by what `on_data` gets.
    have hsum : (w.bufs.buf p).len32.toNat + bytesTold conn new + f =
        bytesTold conn new + f + (w.bufs.buf p).len32.toNat := by omega
    rw [hcount hs, bytesTold, if_pos rfl, hsum, BitVec.ofNat_add (bytesTold conn new + f),
      BitVec.ofNat_toNat,
      BitVec.setWidth_eq, BitVec.add_assoc]

/-- What `tcp_recv_process` leaves. -/
structure ProcessKeeps (frames : Nat → Nat) (R : List (List Byte)) (conn : Nat)
    (w₀ : TcpWorld) (f : Nat)
    (w : TcpWorld) (l refs : List Nat) (w' : TcpWorld) (l' : List Nat) : Prop where
  sub : l' <:+ l
  queue : Resequence (w'.conn conn).rcv.nxt 8192 w'.bufs (w'.conn conn).resequence l'
  behind : ∀ p ∈ l', 0 < segOff (w'.conn conn).rcv.nxt (w'.bufs.buf p) ∧
    w'.bufs.buf p = w.bufs.buf p
  refs : RefInv frames w'.bufs (l' ++ refs)
  told : Told R conn w₀ f w'
  other : ∀ p ∉ l, w'.bufs.buf p = w.bufs.buf p
  state : (w'.conn conn).state = (w.conn conn).state
  wnd : (w'.conn conn).rcv.wnd = (w.conn conn).rcv.wnd
  inFlight : inFlight w'.log = inFlight w.log

/-- The loop of `tcp_recv_process`: segments that are next go to `on_data` and
    are released, the others are behind `rcv.nxt`. -/
theorem tcpRecvProcessFrom_spec (hdata : (w.conn conn).onData = true)
    (hq : Resequence (w.conn conn).rcv.nxt 8192 w.bufs (w.conn conn).resequence l)
    (hpay : ∀ p ∈ l, Payload R (w.bufs.buf p))
    (href : RefInv frames w.bufs (l ++ refs)) (htold : Told R conn w₀ f w)
    (h : tcpRecvProcessFrom conn fuel w (w.conn conn).resequence = some w') :
    ∃ l', ProcessKeeps frames R conn w₀ f w l refs w' l' := by
  induction l generalizing w fuel with
  | nil =>
    have hhead : (w.conn conn).resequence = 0 := hq.chain
    cases fuel with
    | zero => simp [tcpRecvProcessFrom] at h
    | succ fuel =>
      rw [hhead, tcpRecvProcessFrom, if_pos rfl] at h
      cases h
      exact ⟨[], List.suffix_refl _, hq, by simp, href, htold, fun _ _ => rfl, rfl, rfl, rfl⟩
  | cons p l ih =>
    obtain ⟨hhead, h0, -⟩ := hq.chain
    have hnodup := (List.nodup_cons.mp hq.chain.nodup).1
    have hwin := hq.window p List.mem_cons_self
    have hseq := seq_eq_num (w.conn conn).rcv.nxt (w.bufs.buf p)
    cases fuel with
    | zero => simp [tcpRecvProcessFrom] at h
    | succ fuel =>
      rw [hhead] at h
      by_cases hnext : segOff (w.conn conn).rcv.nxt (w.bufs.buf p) = 0
      · -- this segment is next
        rw [hnext, num_zero] at hseq
        rw [tcpRecvProcessFrom_next h0 hseq.symm hdata] at h
        have hconn := deliverHead_conn w conn p
        have hsame : ∀ r ≠ p, (deliverHead w conn p).bufs.buf r = w.bufs.buf r :=
          fun r hr => netFreeBuf_other w.bufs hr
        have hsamel : ∀ r ∈ l, (deliverHead w conn p).bufs.buf r = w.bufs.buf r :=
          fun r hr => hsame r fun heq => hnodup (heq ▸ hr)
        have hlen : (w.bufs.buf p).data.length < 4294967296 := by
          have hle := hwin.le
          rw [segEnd] at hle
          omega
        have hq' : Resequence ((deliverHead w conn p).conn conn).rcv.nxt 8192
          (deliverHead w conn p).bufs
            ((deliverHead w conn p).conn conn).resequence l := by
          rw [hconn]
          exact hq.tail hnext hsamel
        have hlink : ((deliverHead w conn p).conn conn).resequence = (w.bufs.buf p).link := by
          rw [hconn]
        -- The rest of the list from the next link on.
        obtain ⟨l', hk⟩ :=
          ih (by rw [hconn]; exact hdata) hq'
            (fun r hr => by rw [hsamel r hr]; exact hpay r (List.mem_cons_of_mem p hr))
            (RefInv.free (p := p) href).1 (htold.deliverHead (hpay p List.mem_cons_self) hlen)
            (by rw [hlink]; exact h)
        refine ⟨l', hk.sub.trans (List.suffix_cons p l), hk.queue, fun r hr => ?_, hk.refs, hk.told,
          fun r hr => ?_,
          ?_, ?_, hk.inFlight⟩
        · obtain ⟨hpos, hbuf⟩ := hk.behind r hr
          exact ⟨hpos, hbuf.trans (hsamel r (hk.sub.subset hr))⟩
        · simp only [List.mem_cons, not_or] at hr
          rw [hk.other r hr.2, hsame r hr.1]
        · rw [hk.state, hconn]
        · rw [hk.wnd, hconn]
      · -- a gap: everything waits
        have hne : (w.conn conn).rcv.nxt ≠ (w.bufs.buf p).seq := by
          intro heq
          apply hnext
          rw [segOff, heq, BitVec.sub_self]
          rfl
        rw [tcpRecvProcessFrom, if_neg h0] at h
        simp only [if_pos hne] at h
        obtain rfl := Option.some.inj h
        -- The first does not start at `rcv.nxt`, and the others start behind its end.
        have hfirst := (List.pairwise_cons.mp hq.sorted).1
        have hends := segOff_le_segEnd (w.conn conn).rcv.nxt (w.bufs.buf p)
        refine ⟨p :: l, List.suffix_refl _, hq, fun r hr => ⟨?_, rfl⟩, href, htold,
          fun _ _ => rfl, rfl, rfl, rfl⟩
        obtain heq | hr := List.mem_cons.mp hr
        · rw [heq]
          exact Nat.pos_of_ne_zero hnext
        · have hle := hfirst r hr
          omega

/-! ## Taking data -/

/-- What waits after `tcp_recv_insert`. -/
structure InsertKeeps (frames : Nat → Nat) (R : List (List Byte)) (nxt : BitVec 32)
    (b : BufPool) (packet : Nat)
    (l refs : List Nat) (b' : BufPool) (head' : Nat) (l' : List Nat) : Prop where
  queue : Resequence nxt 8192 b' head' l'
  payload : ∀ p ∈ l', Payload R (b'.buf p)
  short : l'.length ≤ 2
  mem : ∀ p ∈ l', p = packet ∨ p ∈ l
  /-- If the new segment is not next, none is. -/
  behind : 0 < segOff nxt (b.buf packet) → ∀ p ∈ l', 0 < segOff nxt (b'.buf p)
  refs : RefInv frames b' (l' ++ refs)
  other : ∀ p ∉ packet :: l, b'.buf p = b.buf p

/-- What `tcp_recv_insert` makes of at most two waiting segments. -/
theorem tcpRecvInsert_keeps (hq : Resequence nxt 8192 b head l)
    (hpay : ∀ p ∈ l, Payload R (b.buf p))
    (hbehind : ∀ p ∈ l, 0 < segOff nxt (b.buf p)) (hshort : l.length ≤ 2)
    (hx : InReceiveWindow nxt 8192 (b.buf packet)) (hpx : Payload R (b.buf packet))
    (hfin : hasFlag ((b.buf packet).flags.setWidth 8) TCP_FIN = false)
    (hlink : (b.buf packet).link = 0)
    (hnot : packet ∉ l) (href : RefInv frames b (packet :: (l ++ refs))) {r : BufPool × Nat}
    (h : tcpRecvInsert b head packet = some r) :
    ∃ l', InsertKeeps frames R nxt b packet l refs r.1 r.2 l' := by
  have hcount := href.countedBufs
  have hwnd : 8192 < 2147483648 := by decide
  obtain ⟨-, hrun⟩ | ⟨before, dropped, rest, b', rfl, hrun, hspliced, -⟩ :=
    tcpRecvInsert_cases hwnd hq hx hnot (fun p hp => hcount p (by simp [hp])) hfin
      (Nat.lt_of_le_of_lt hshort (show 2 < walkFuel by decide))
  · -- dropped again
    obtain rfl := Option.some.inj (h.symm.trans hrun)
    have hsame : ∀ p ≠ packet, (netFreeBuf b packet).buf p = b.buf p :=
      fun p hp => netFreeBuf_other b hp
    have hsamel : ∀ p ∈ l, (netFreeBuf b packet).buf p = b.buf p :=
      fun p hp => hsame p fun heq => hnot (heq ▸ hp)
    refine ⟨l, ⟨?_, fun p hp => ?_, ?_⟩, fun p hp => ?_, hshort, fun p hp => .inr hp,
      fun _ p hp => ?_,
      href.free.1, fun p hp => hsame p (by simp_all)⟩
    · apply hq.chain.congr
      intro p hp
      rw [hsamel p hp]
    · rw [hsamel p hp]
      exact hq.window p hp
    · refine hq.sorted.imp_of_mem fun {p s} hp hs hle => ?_
      rw [hsamel p hp, hsamel s hs]
      exact hle
    · rw [hsamel p hp]
      exact hpay p hp
    · rw [hsamel p hp]
      exact hbehind p hp
  -- Linked: the new segment and the first of `rest` make up the list.
  · obtain rfl := Option.some.inj (h.symm.trans hrun)
    have hcountr : Counted b rest := fun p hp => hcount p (by simp [hp])
    have hwin : ∀ p ∈ rest, InReceiveWindow nxt 8192 (b.buf p) :=
      fun p hp => hq.window p (by simp [hp])
    have hnodup := (List.nodup_append.mp hq.chain.nodup).2.1
    obtain ⟨⟨k, hcut⟩, hkept⟩ := hspliced.cut hwnd hx hwin hnot hq.chain.nodup hcountr
    have hhead : ∀ p ∈ rest.head?.toList, p ∈ rest :=
      fun p hp => List.mem_of_mem_head? (Option.mem_toList.mp hp)
    refine ⟨packet :: rest.head?.toList,
      hspliced.resequence hwnd hq hx hnot (hcount packet List.mem_cons_self).1 hlink hcountr,
      fun p hp => ?_, ?_,
      fun p hp => ?_, fun hpos p hp => ?_, hspliced.refInv (List.nodup_append.mp hnodup).1 href,
      fun p hp => hspliced.other hp⟩
    · obtain rfl | hp := List.mem_cons.mp hp
      · exact hpx.take hcut.le hcut.data hcut.deficit
      · obtain ⟨n, hn⟩ := hkept p (hhead p hp)
        rw [hn]
        exact (hpay p (by simp [hhead p hp])).congr rfl rfl
    · cases rest <;> simp
    · obtain rfl | hp := List.mem_cons.mp hp
      · exact .inl rfl
      · exact .inr (by simp [hhead p hp])
    · obtain rfl | hp := List.mem_cons.mp hp
      · rw [hcut.segOff_eq]
        exact hpos
      · obtain ⟨n, hn⟩ := hkept p (hhead p hp)
        rw [hn]
        exact hbehind p (by simp [hhead p hp])

/-- A packet that is about to be put into the list. -/
structure Insertable (R : List (List Byte)) (w : TcpWorld) (conn packet : Nat) : Prop where
  payload : Payload R (w.bufs.buf packet)
  window : InReceiveWindow (w.conn conn).rcv.nxt 8192 (w.bufs.buf packet)
  noFin : hasFlag ((w.bufs.buf packet).flags.setWidth 8) TCP_FIN = false
  link : (w.bufs.buf packet).link = 0
  one : (w.bufs.buf packet).refCount = 1
  /-- What is next can be delivered. -/
  onData : (w.conn conn).rcv.nxt = (w.bufs.buf packet).seq → (w.conn conn).onData = true

/-- `tcp_recv_process`, when `on_data` is set or nothing is next. -/
theorem tcpRecvProcess_keeps
    (hdata : (w.conn conn).onData = true ∨ ∀ p ∈ l, 0 < segOff (w.conn conn).rcv.nxt (w.bufs.buf p))
    (hq : Resequence (w.conn conn).rcv.nxt 8192 w.bufs (w.conn conn).resequence l)
    (hpay : ∀ p ∈ l, Payload R (w.bufs.buf p))
    (href : RefInv frames w.bufs (l ++ refs)) (htold : Told R conn w₀ f w)
    (h : tcpRecvProcess w conn = some w') :
    ∃ l', ProcessKeeps frames R conn w₀ f w l refs w' l' := by
  unfold tcpRecvProcess at h
  obtain hdata | hbehind := hdata
  · exact tcpRecvProcessFrom_spec hdata hq hpay href htold h
  -- Without `on_data` the loop must not find a segment that is next: it stops at once.
  · have hsame : some w = some w' := by
      rw [← h, show walkFuel = 4294967295 + 1 from rfl, tcpRecvProcessFrom]
      cases l with
      | nil => rw [if_pos (show (w.conn conn).resequence = 0 from hq.chain)]
      | cons p l =>
        obtain ⟨hhead, h0, -⟩ := hq.chain
        have hpos := hbehind p List.mem_cons_self
        have hne : (w.conn conn).rcv.nxt ≠ (w.bufs.buf p).seq := by
          intro heq
          rw [segOff, heq, BitVec.sub_self] at hpos
          exact absurd hpos (Nat.lt_irrefl 0)
        rw [hhead, if_neg h0]
        simp only [if_pos hne]
    obtain rfl := Option.some.inj hsame
    exact ⟨l, List.suffix_refl _, hq, fun p hp => ⟨hbehind p hp, rfl⟩, href, htold,
      fun _ _ => rfl, rfl, rfl, rfl⟩

/-- `tcp_recv_data` -/
theorem Handled.recvData (hf : FramesOk frames) (h : Handled frames R conn w₀ [packet] refs f w l)
    (hnot : packet ∉ l) (hopen : (w.conn conn).state ≠ .closed)
    (hp : takesData (w.conn conn).state → Insertable R w conn packet)
    (hrecv : tcpRecvData frames w conn packet = some w') :
    ∃ l', Handled frames R conn w₀ [packet] refs f w' l' ∧
      (w'.conn conn).state = (w.conn conn).state := by
  by_cases htakes : takesData (w.conn conn).state
  case neg =>
    rw [tcpRecvData_ignored (by simpa using htakes)] at hrecv
    obtain rfl := Option.some.inj hrecv
    exact ⟨l, h, rfl⟩
  have ha := hp htakes
  obtain ⟨base, hw⟩ := h.waiting hopen
  have hmay : mayTakeData (w.conn conn).state := by
    cases hs : (w.conn conn).state <;> simp_all [takesData, mayTakeData]
  -- Data is taken, so positions count from `rcv.nxt`.
  obtain rfl := hw.base hmay
  -- the list takes a reference of its own
  generalize hx : ({ w.bufs.buf packet with
    refCount := u32 ((w.bufs.buf packet).refCount + 1) } : NetBuf) = x
  have hcount : x.refCount = (w.bufs.buf packet).refCount + 1 := by
    rw [← hx, ha.one]
    exact u32_of_lt (by decide)
  have href :=
    h.counted.ref (show packet ∈ l ++ ([packet] ++ (refs ++ inFlight w.log)) by simp) hcount
    (by rw [hcount, ha.one]; decide)
  have hbuf : (w.bufs.setBuf packet x).buf packet = x := by simp
  have hsamel : ∀ p ∈ l, (w.bufs.setBuf packet x).buf p = w.bufs.buf p := by
    intro p hpl
    have hne : p ≠ packet := fun heq => hnot (heq ▸ hpl)
    simp [hne]
  have hdata : tcpRecvData frames w conn packet =
      (tcpRecvInsert (w.bufs.setBuf packet x) (w.conn conn).resequence packet).bind fun r =>
        (tcpRecvProcess (((w.setBuf packet x).setBufs r.1).setResequence conn r.2) conn).map
          fun w => tcpSendAck frames w conn := by
    unfold tcpRecvData
    cases hs : (w.conn conn).state <;> simp [hs, takesData] at htakes <;> simp only [hx] <;> rfl
  rw [hdata] at hrecv
  -- The three steps: the insertion, the delivery and the acknowledgement.
  obtain ⟨r, hins, hrecv⟩ := Option.bind_eq_some_iff.mp hrecv
  obtain ⟨w₃, hprocess, rfl⟩ := Option.map_eq_some_iff.mp hrecv
  have hq : Resequence (w.conn conn).rcv.nxt 8192 (w.bufs.setBuf packet x)
      (w.conn conn).resequence l := by
    refine ⟨?_, fun p hpl => ?_, ?_⟩
    · apply hw.queue.chain.congr
      intro p hpl
      rw [hsamel p hpl]
    · rw [hsamel p hpl]
      exact hw.queue.window p hpl
    · refine hw.queue.sorted.imp_of_mem fun {p s} hpl hs hle => ?_
      rw [hsamel p hpl, hsamel s hs]
      exact hle
  obtain ⟨l₁, hk⟩ :=
    tcpRecvInsert_keeps hq (fun p hpl => by rw [hsamel p hpl]; exact hw.payload p hpl)
    (fun p hpl => by rw [hsamel p hpl]; exact hw.behind p hpl) hw.short
    (by rw [hbuf, ← hx]; exact ⟨ha.window.deficit, ha.window.le⟩)
      (by rw [hbuf, ← hx]; exact ha.payload.congr rfl rfl)
    (by rw [hbuf, ← hx]; exact ha.noFin) (by rw [hbuf, ← hx]; exact ha.link) hnot href hins
  generalize hw₂ : ((w.setBuf packet x).setBufs r.1).setResequence conn r.2 = w₂ at hprocess
  have hconn : w₂.conn conn = { w.conn conn with resequence := r.2 } := by
    simp [← hw₂, TcpWorld.setResequence, TcpWorld.setBufs, TcpWorld.setBuf]
  have hbufs : w₂.bufs = r.1 := by rw [← hw₂]; rfl
  have hlog : w₂.log = [] ++ w.log := by rw [← hw₂]; rfl
  -- If the new segment is not next, none in the list is, and `on_data` is not called.
  have hdel : (w₂.conn conn).onData = true ∨
      ∀ p ∈ l₁, 0 < segOff (w₂.conn conn).rcv.nxt (w₂.bufs.buf p) := by
    rw [hconn, hbufs]
    by_cases hnext : (w.conn conn).rcv.nxt = (w.bufs.buf packet).seq
    · exact .inl (ha.onData hnext)
    · right
      apply hk.behind
      rw [hbuf, ← hx]
      apply Nat.pos_of_ne_zero
      intro hzero
      have hseq := seq_eq_num (w.conn conn).rcv.nxt (w.bufs.buf packet)
      rw [show segOff (w.conn conn).rcv.nxt (w.bufs.buf packet) = 0 from hzero, num_zero] at hseq
      exact hnext hseq.symm
  obtain ⟨l₂, hpk⟩ := tcpRecvProcess_keeps hdel (by rw [hconn, hbufs]; exact hk.queue)
    (fun p hp₁ => by rw [hbufs]; exact hk.payload p hp₁) (by rw [hbufs]; exact hk.refs)
    (h.told.of_log hlog (by simp) (by rw [hconn])) hprocess
  have hmem : ∀ p ∈ l₁, p ∈ l ++ [packet] := by
    intro p hp₁
    obtain rfl | hp₁ := hk.mem p hp₁ <;> simp [*]
  have hstate : (w₃.conn conn).state = (w.conn conn).state := by rw [hpk.state, hconn]
  have hhandled : Handled frames R conn w₀ [packet] refs f w₃ l₂ := by
    refine ⟨fun _ => ⟨_, ?_, hpk.queue, fun p hp₂ => ?_, fun p hp₂ => (hpk.behind p hp₂).1, ?_,
      fun _ => rfl, fun hs => ?_⟩,
      ?_, fun p hp₂ => ?_, fun p hpr => ?_, hpk.told⟩
    · rw [hpk.wnd, hconn]
      exact hw.wnd
    · rw [(hpk.behind p hp₂).2, hbufs]
      exact hk.payload p (hpk.sub.subset hp₂)
    · exact Nat.le_trans hpk.sub.length_le hk.short
    · rw [hstate] at hs
      cases hw₁ : (w.conn conn).state <;> simp_all [takesData, isOpening]
    · rw [hpk.inFlight, hlog, List.nil_append]
      exact hpk.refs
    · obtain hp₂ | hp₂ := List.mem_append.mp hp₂
      · exact h.apart p (hmem p (hpk.sub.subset hp₂))
      · exact h.apart p (List.mem_append_right l hp₂)
    · have hpacket : p ≠ packet := fun heq => h.apart packet (by simp) (heq ▸ hpr)
      have hpl : p ∉ l := fun hmem => h.apart p (List.mem_append_left _ hmem) hpr
      have hp₁ : p ∉ l₁ := fun hp₁ => h.apart p (hmem p hp₁) hpr
      rw [hpk.other p hp₁, hbufs, hk.other p (by simp [hpacket, hpl]), BufPool.setBuf_buf,
        if_neg hpacket]
      exact h.frame p hpr
  refine ⟨l₂, hhandled.sendPacket hf _ _ _, ?_⟩
  rw [tcpSendAck_conn]
  exact hstate

/-! ## The FIN -/

/-- `rcv.nxt` counts the FIN, and no data is taken any more. -/
theorem Handled.count (new : List TcpEvent) (h : Handled frames R conn w₀ call refs 0 w l)
    (hrcv : (w'.conn conn).rcv = { (w.conn conn).rcv with nxt := (w.conn conn).rcv.nxt + 1 })
    (hres : (w'.conn conn).resequence = (w.conn conn).resequence)
    (hstate : (w'.conn conn).state ≠ .closed → (w.conn conn).state ≠ .closed)
    (htake : mayTakeData (w'.conn conn).state = false)
    (hopen : isOpening (w'.conn conn).state → isOpening (w.conn conn).state)
    (hbufs : w'.bufs = w.bufs) (hlog : w'.log = new ++ w.log) (hnew : ∀ e ∈ new, e.isSilent) :
    Handled frames R conn w₀ call refs 1 w' l := by
  refine ⟨fun hs => ?_, ?_, h.apart, ?_, ?_⟩
  -- The positions stay those of the number before the FIN.
  · obtain ⟨base, hw⟩ := h.waiting (hstate hs)
    refine ⟨base, ?_, ?_, ?_, ?_, hw.short, ?_, ?_⟩
    · rw [hrcv]
      exact hw.wnd
    · rw [hbufs, hres]
      exact hw.queue
    · rw [hbufs]
      exact hw.payload
    · rw [hbufs]
      exact hw.behind
    · simp [htake]
    · exact fun hopening => hw.opening (hopen hopening)
  · rw [hbufs, hlog, inFlight_append hnew]
    exact h.counted
  · rw [hbufs]
    exact h.frame
  · -- the count without the FIN, then the FIN
    have htold : Told R conn w₀ 0 { w with log := w'.log } := h.told.of_silent hlog hnew rfl
    obtain ⟨told, htoldlog, hparts, hcount⟩ := htold
    refine ⟨told, htoldlog, hparts, fun hs => ?_⟩
    have hnxt : (w.conn conn).rcv.nxt =
        (w₀.conn conn).rcv.nxt + BitVec.ofNat 32 (bytesTold conn told + 0) := hcount hs
    rw [hrcv, BitVec.ofNat_add, ← BitVec.add_assoc]
    show (w.conn conn).rcv.nxt + 1 = _
    rw [hnxt]
    rfl

/-- `tcp_recv_fin` for a FIN that is next. -/
theorem Handled.recvFin (hf : FramesOk frames) (h : Handled frames R conn w₀ call refs 0 w l)
    (hseq : header.seq = (w.conn conn).rcv.nxt) :
    Handled frames R conn w₀ call refs 1 (tcpRecvFin frames w conn header) l := by
  unfold tcpRecvFin
  extract_lets rcv w₁ w₂
  -- the acknowledgement is built from the new number and sent first
  have hsent := h.transmit hf conn (w₁.conn conn) (w.conn conn).snd.nxt TCP_ACK []
  have hsame :
    w₂.bufs = (tcpTransmit frames w conn (w₁.conn conn) (w.conn conn).snd.nxt TCP_ACK []).bufs ∧
      w₂.log = (tcpTransmit frames w conn (w₁.conn conn) (w.conn conn).snd.nxt TCP_ACK []).log := by
    have hsnd : (w₁.conn conn).snd = (w.conn conn).snd := by simp [w₁, TcpWorld.setRcv]
    simp only [w₂, tcpSendAck, hsnd]
    exact ⟨rfl, rfl⟩
  have hconn : w₂.conn conn = { w.conn conn with
      rcv := { (w.conn conn).rcv with nxt := (w.conn conn).rcv.nxt + 1 } } := by
    rw [tcpSendAck_conn, ← hseq]
    simp [w₁, rcv, TcpWorld.setRcv]
  have huconn : (tcpTransmit frames w conn (w₁.conn conn) (w.conn conn).snd.nxt TCP_ACK []).conn =
      w.conn := rfl
  generalize tcpTransmit frames w conn (w₁.conn conn) (w.conn conn).snd.nxt TCP_ACK [] =
    u at hsent hsame huconn
  obtain ⟨hbufs, hlog⟩ := hsame
  clear_value w₂
  -- Either the FIN changes the state, or the state took no data before.
  have hset : ∀ state, (w.conn conn).state ≠ .closed → mayTakeData state = false →
    isOpening state = false →
      Handled frames R conn w₀ call refs 1 (tcpSetState w₂ conn state) l := by
    intro state hopen htake hopening
    obtain ⟨new, hnew, hsilent⟩ := tcpSetState_log w₂ conn state
    refine hsent.count new ?_ ?_ (fun _ => huconn ▸ hopen) ?_ ?_ ?_ (hlog ▸ hnew) hsilent
    · rw [tcpSetState_conn, hconn, huconn]
    · rw [tcpSetState_conn, hconn, huconn]
    · rw [tcpSetState_conn]
      exact htake
    · rw [tcpSetState_conn]
      exact fun hs => absurd hs (by simp [hopening])
    · rw [(tcpSetState_frame w₂ conn state).2.2.2.1, hbufs]
  have hkeep : mayTakeData (w.conn conn).state = false →
      Handled frames R conn w₀ call refs 1 w₂ l := by
    intro htake
    refine hsent.count [] ?_ ?_ ?_ ?_ ?_ hbufs hlog (by simp)
    · rw [hconn, huconn]
    · rw [hconn, huconn]
    · rw [hconn, huconn]
      exact id
    · rw [hconn]
      exact htake
    · rw [hconn, huconn]
      exact id
  have hs₂ : (w₂.conn conn).state = (w.conn conn).state := by rw [hconn]
  rw [hs₂]
  -- One case per state, as the `switch` of `tcp_recv_fin`.
  cases hs : (w.conn conn).state with
  | closed | listen | synSent | closeWait | closing | lastAck => exact hkeep (by rw [hs]; rfl)
  | synReceived | established => exact hset _ (by rw [hs]; decide) rfl rfl
  | finWait1 =>
    dsimp only
    split
    · exact (hset _ (by rw [hs]; decide) rfl rfl).timeWait
    · exact hset _ (by rw [hs]; decide) rfl rfl
  | finWait2 => exact (hset _ (by rw [hs]; decide) rfl rfl).timeWait
  | timeWait => exact (hkeep (by rw [hs]; rfl)).timeWait

/-! ## Acknowledgements and resets -/

/-- The packet that is being received is not the one that is sent. -/
theorem Handled.sendPacket_buf (hf : FramesOk frames) (h : Handled frames R conn w₀ call refs f w l)
    (hp : packet ∈ call) (seq : BitVec 32) (flags : BitVec 8) (data : List Byte) :
    (tcpSendPacket frames w conn seq flags data).bufs.buf packet = w.bufs.buf packet := by
  obtain ⟨hnew, -, hother, -⟩ := h.counted.alloc hf
  have hne : packet ≠ (netAllocBuf frames w.bufs).1 := fun heq => hnew (heq ▸ by simp [hp])
  show ((netAllocBuf frames w.bufs).2.setBuf (netAllocBuf frames w.bufs).1 _).buf packet = _
  rw [BufPool.setBuf_buf, if_neg hne, hother packet hne]

/-- `tcp_recv_ack` in `TCP_ESTABLISHED` to `TCP_CLOSING`. -/
theorem Handled.recvAckOpen (hf : FramesOk frames) (h : Handled frames R conn w₀ call refs f w l)
    (header : TcpHeader) : Handled frames R conn w₀ call refs f
      (tcpRecvAckOpen frames w conn header) l := by
  unfold tcpRecvAckOpen
  extract_lets w₁
  have hset : Handled frames R conn w₀ call refs f w₁ l := h.setSnd _
  clear_value w₁
  -- whatever is answered, `rcv` and the queue are left alone
  split
  · exact hset.sendPacket hf _ _ _
  · split
    · split
      · rename_i hs
        exact hset.setState (by rw [hs]; exact fun _ => ⟨by decide, fun _ => rfl, fun h => h⟩)
      · rename_i hs
        exact (hset.setState
          (by rw [hs]; exact fun _ => ⟨by decide, fun h => h, fun h => h⟩)).timeWait
      · exact hset
    · exact hset

/-- `tcp_recv_ack` -/
theorem Handled.recvAck (hf : FramesOk frames) (h : Handled frames R conn w₀ call refs f w l)
    (hrecv : tcpRecvAck frames w conn header = some w') :
    ∃ l', l' <:+ l ∧ Handled frames R conn w₀ call refs f w' l' := by
  unfold tcpRecvAck at hrecv
  split at hrecv
  case h_1 hs =>
    refine ⟨l, List.suffix_refl l, ?_⟩
    split at hrecv
    · cases hrecv
      apply (h.setSnd _).setState
      -- the handshake ends: from now on data may be taken
      simp only [TcpWorld.setSnd, TcpWorld.setConn_conn, if_true, hs]
      exact fun _ => ⟨by decide, fun _ => rfl, fun h => absurd h (by decide)⟩
    · cases hrecv
      exact h.sendPacket hf _ _ _
  -- `TCP_LAST_ACK`: the release takes the whole queue
  case h_7 =>
    split at hrecv
    · exact ⟨[], List.nil_suffix, h.free hrecv⟩
    · cases hrecv
      exact ⟨l, List.suffix_refl l, h⟩
  case h_8 =>
    cases hrecv
    exact ⟨l, List.suffix_refl l, h⟩
  all_goals
    cases hrecv
    exact ⟨l, List.suffix_refl l, h.recvAckOpen hf header⟩

/-- The receiving side is as it was, and no connection begins to take data. -/
structure SameReceiver (c c' : TcpConn) : Prop where
  rcv : c'.rcv = c.rcv
  onData : c'.onData = c.onData
  takes : takesData c'.state → takesData c.state

/-- A change of state leaves the receiver as it is. -/
theorem tcpSetState_receiver {c : TcpConn} (h : SameReceiver c (w.conn conn))
    (hset : takesData state → takesData c.state) :
    SameReceiver c ((tcpSetState w conn state).conn conn) := by
  rw [tcpSetState_conn]
  exact ⟨h.rcv, h.onData, hset⟩

/-- So does the timer. -/
theorem tcpTimeWait_receiver {c : TcpConn} (h : SameReceiver c (w.conn conn)) :
    SameReceiver c ((tcpTimeWait w conn).conn conn) := by
  have hconn : (tcpTimeWait w conn).conn conn =
      { w.conn conn with mslWait := w.ticks + 2 * TCP_MSL } := by
    simp [tcpTimeWait, TcpWorld.setMslWait]
  rw [hconn]
  exact ⟨h.rcv, h.onData, h.takes⟩

/-- So does an acknowledgement in an open state. -/
theorem tcpRecvAckOpen_receiver (frames : Nat → Nat) (w : TcpWorld) (conn : Nat)
    (header : TcpHeader) :
    SameReceiver (w.conn conn) ((tcpRecvAckOpen frames w conn header).conn conn) := by
  unfold tcpRecvAckOpen
  extract_lets w₁
  have hconn :
      w₁.conn conn = { w.conn conn with snd := tcpAckUpdate (w.conn conn).snd header } := by
    simp [w₁, TcpWorld.setSnd]
  clear_value w₁
  -- only `snd` has been written
  have hsame : SameReceiver (w.conn conn) (w₁.conn conn) := by
    rw [hconn]
    exact ⟨rfl, rfl, id⟩
  split
  · rw [tcpSendAck_conn]
    exact hsame
  · split
    · split
      · rename_i hs
        exact tcpSetState_receiver hsame fun _ => hsame.takes (by rw [hs]; rfl)
      · exact tcpTimeWait_receiver (tcpSetState_receiver hsame fun htakes =>
          absurd htakes (by decide))
      · exact hsame
    · exact hsame

/-- Whether data is taken behind `tcp_recv_ack`. -/
def TakesAfterAck (c : TcpConn) (header : TcpHeader) : Prop :=
  takesData c.state ∨ c.state = .synReceived ∧ synAckOk c.snd header

instance (c : TcpConn) (header : TcpHeader) : Decidable (TakesAfterAck c header) :=
  inferInstanceAs (Decidable (_ ∨ _))

/-- So does `tcp_recv_ack`, and the state behind it takes data only if it may. -/
theorem tcpRecvAck_receiver (hrecv : tcpRecvAck frames w conn header = some w') :
    (w'.conn conn).rcv = (w.conn conn).rcv ∧ (w'.conn conn).onData = (w.conn conn).onData ∧
      (takesData (w'.conn conn).state → TakesAfterAck (w.conn conn) header) := by
  unfold tcpRecvAck at hrecv
  split at hrecv
  case h_1 hs =>
    split at hrecv
    -- the handshake ends here, so the data behind it may be taken
    · rename_i hgood
      cases hrecv
      rw [tcpSetState_conn]
      exact ⟨by simp [TcpWorld.setSnd], by simp [TcpWorld.setSnd], fun _ => .inr ⟨hs, hgood⟩⟩
    · cases hrecv
      rw [tcpSendPacket_plain frames w conn header.ack (by decide), hs]
      exact ⟨rfl, rfl, fun htakes => absurd htakes (by decide)⟩
  case h_7 hs =>
    split at hrecv
    · rw [tcpFree_conn hrecv]
      -- a closed connection takes nothing
      exact ⟨rfl, rfl, fun htakes => absurd (show takesData .closed from htakes) (by decide)⟩
    · cases hrecv
      exact ⟨rfl, rfl, fun htakes => .inl htakes⟩
  case h_8 =>
    cases hrecv
    exact ⟨rfl, rfl, fun htakes => .inl htakes⟩
  all_goals
    cases hrecv
    have hsame := tcpRecvAckOpen_receiver frames w conn header
    exact ⟨hsame.rcv, hsame.onData, fun h => .inl (hsame.takes h)⟩

/-- The packet is as it was when its data comes to be taken. -/
theorem Handled.recvAck_buf (hf : FramesOk frames) (h : Handled frames R conn w₀ call refs f w l)
    (hp : packet ∈ call) (hrecv : tcpRecvAck frames w conn header = some w')
    (htakes : takesData (w'.conn conn).state) : w'.bufs.buf packet = w.bufs.buf packet := by
  unfold tcpRecvAck at hrecv
  split at hrecv
  case h_1 =>
    split at hrecv
    · cases hrecv
      rw [tcpSetState_bufs]
      rfl
    · cases hrecv
      exact h.sendPacket_buf hf hp _ _ _
  case h_7 =>
    split at hrecv
    -- a release would leave a state that takes nothing
    · rw [tcpFree_conn hrecv] at htakes
      exact absurd (show takesData .closed from htakes) (by decide)
    · cases hrecv
      rfl
  case h_8 =>
    cases hrecv
    rfl
  all_goals
    cases hrecv
    unfold tcpRecvAckOpen
    extract_lets w₁
    have hset : Handled frames R conn w₀ call refs f w₁ l := h.setSnd _
    have hbufs : w₁.bufs = w.bufs := rfl
    clear_value w₁
    rw [← hbufs]
    -- an answer is put into a buffer of its own
    split
    · exact hset.sendPacket_buf hf hp _ _ _
    · split
      · split
        · rw [tcpSetState_bufs]
        · show (tcpSetState w₁ conn .timeWait).bufs.buf packet = _
          rw [tcpSetState_bufs]
        · rfl
      · rfl

/-! ## A segment -/

/-- A FIN that is processed is next, and no data is taken in front of it. -/
def FinFits (c : TcpConn) (header : TcpHeader) (dataLen : BitVec 32) : Prop :=
  hasFlag header.flags TCP_ACK → hasFlag header.flags TCP_FIN →
    header.seq = c.rcv.nxt ∧ (dataLen = 0 ∨ ¬ TakesAfterAck c header)

/-- `tcp_recv_general` behind `tcp_recv_syn`. -/
theorem Handled.recvAfterSyn (hf : FramesOk frames)
    (h : Handled frames R conn w₀ [packet] refs 0 w l)
    (hnot : packet ∉ l) {dataLen : BitVec 32} (hfin : FinFits (w.conn conn) header dataLen)
    (hp : hasFlag header.flags TCP_ACK → dataLen ≠ 0 → TakesAfterAck (w.conn conn) header →
      Insertable R w conn packet)
    (hrecv : tcpRecvAfterSyn frames w conn header packet dataLen = some w') :
    ∃ f l', f ≤ 1 ∧ (f = 1 → hasFlag header.flags TCP_FIN) ∧
      Handled frames R conn w₀ [packet] refs f w' l' := by
  unfold tcpRecvAfterSyn at hrecv
  split at hrecv
  · cases hrecv
    exact ⟨0, l, by simp, by simp, h⟩
  rename_i hack
  have hack : hasFlag header.flags TCP_ACK := by simpa using hack
  -- The acknowledgement comes first; it may establish the connection or release it.
  obtain ⟨w₁, hw₁, hrecv⟩ := Option.bind_eq_some_iff.mp hrecv
  obtain ⟨w₂, hw₂, rfl⟩ := Option.map_eq_some_iff.mp hrecv
  obtain ⟨l₁, hsub, h₁⟩ := h.recvAck hf hw₁
  obtain ⟨hrcv, hondata, htakes⟩ := tcpRecvAck_receiver hw₁
  have hnot₁ : packet ∉ l₁ := fun hmem => hnot (hsub.subset hmem)
  -- the data
  have hdata : ∃ l₂, Handled frames R conn w₀ [packet] refs 0 w₂ l₂ ∧
      (dataLen = 0 ∨ ¬ takesData (w₁.conn conn).state → w₂ = w₁) := by
    split at hw₂
    · rename_i hlen
      by_cases htake : takesData (w₁.conn conn).state
      · have hbuf := h.recvAck_buf hf (show packet ∈ [packet] by simp) hw₁ htake
        have ha := hp hack hlen (htakes htake)
        -- `tcp_recv_ack` left the packet and the receiving side as they were.
        have ha₁ : Insertable R w₁ conn packet := by
          refine ⟨?_, ?_, ?_, ?_, ?_, ?_⟩
          · rw [hbuf]
            exact ha.payload
          · rw [hbuf, hrcv]
            exact ha.window
          · rw [hbuf]
            exact ha.noFin
          · rw [hbuf]
            exact ha.link
          · rw [hbuf]
            exact ha.one
          · rw [hbuf, hrcv, hondata]
            exact ha.onData
        have hopen : (w₁.conn conn).state ≠ .closed := by
          intro hs
          rw [hs] at htake
          exact absurd htake (by decide)
        obtain ⟨l₂, h₂, -⟩ := h₁.recvData hf hnot₁ hopen (fun _ => ha₁) hw₂
        exact ⟨l₂, h₂, fun hno => hno.elim (fun h0 => absurd h0 hlen) fun hno => absurd htake hno⟩
      · rw [tcpRecvData_ignored (by simpa using htake)] at hw₂
        obtain rfl := Option.some.inj hw₂
        exact ⟨l₁, h₁, fun _ => rfl⟩
    · obtain rfl := Option.some.inj hw₂
      exact ⟨l₁, h₁, fun _ => rfl⟩
  obtain ⟨l₂, h₂, hsame⟩ := hdata
  split
  · rename_i hfinflag
    -- The FIN is next: no data was taken in front of it that would move `rcv.nxt`.
    obtain ⟨hseq, hno⟩ := hfin hack hfinflag
    obtain rfl := hsame (hno.imp_right fun hno htake => hno (htakes htake))
    exact ⟨1, l₂, by simp, fun _ => hfinflag, h₂.recvFin hf (by rw [hrcv]; exact hseq)⟩
  · exact ⟨0, l₂, by simp, by simp, h₂⟩

/-- `tcp_recv_rst` -/
theorem Handled.recvRst (h : Handled frames R conn w₀ call refs f w l)
    (hrecv : tcpRecvRst w conn = some w') :
    ∃ l', Handled frames R conn w₀ call refs f w' l' := by
  unfold tcpRecvRst at hrecv
  split at hrecv
  case h_9 =>
    cases hrecv
    exact ⟨l, h⟩
  all_goals first
    | exact ⟨[], h.error hrecv⟩
    | exact ⟨[], h.free hrecv⟩

/-- What a segment must be like to be counted right: a FIN is next and behind no
    data that is taken, and data that is next can be delivered. -/
def SegmentFits (c : TcpConn) (header : TcpHeader) (dataLen : BitVec 32) : Prop :=
  inWindow c header.seq dataLen → ¬ hasFlag header.flags TCP_RST → hasFlag header.flags TCP_ACK →
    (hasFlag header.flags TCP_FIN → header.seq = c.rcv.nxt ∧
      (dataLen = 0 ∨ hasFlag header.flags TCP_SYN ∨ ¬ TakesAfterAck c header)) ∧
    (dataLen ≠ 0 → ¬ hasFlag header.flags TCP_SYN → TakesAfterAck c header →
      header.seq = c.rcv.nxt →
      c.onData = true)

/-- `tcp_recv_general` for a packet whose header length is right. -/
theorem Handled.recvGeneral (hf : FramesOk frames)
    (h : Handled frames R conn w₀ [packet] refs 0 w l)
    (hnot : packet ∉ l) (hopen : (w.conn conn).state ≠ .closed)
    (hpay : Payload R (w.bufs.buf packet)) (hlen : (w.bufs.buf packet).data.length < 8192)
    (hlink : (w.bufs.buf packet).link = 0) (hone : (w.bufs.buf packet).refCount = 1)
    (hseq : (w.bufs.buf packet).seq = header.seq)
    (hflags : (w.bufs.buf packet).flags.setWidth 8 = header.flags)
    (hfits : SegmentFits (w.conn conn) header (w.bufs.buf packet).len32)
    (hrecv : tcpRecvGeneral frames w conn header packet = some w') :
    ∃ f l', f ≤ 1 ∧ (f = 1 → hasFlag header.flags TCP_FIN) ∧
      Handled frames R conn w₀ [packet] refs f w' l' := by
  rw [tcpRecvGeneral_eq] at hrecv
  split at hrecv
  · -- outside the window
    split at hrecv
    · cases hrecv
      exact ⟨0, l, by simp, by simp, h⟩
    · cases hrecv
      exact ⟨0, l, by simp, by simp, h.sendPacket hf _ _ _⟩
  rename_i hwin
  have hwin : inWindow (w.conn conn) header.seq (w.bufs.buf packet).len32 := by simpa using hwin
  split at hrecv
  · obtain ⟨l', h'⟩ := h.recvRst hrecv
    exact ⟨0, l', by simp, by simp, h'⟩
  rename_i hrst
  have hfits := hfits hwin hrst
  obtain ⟨w₁, hsyn, hrecv⟩ := Option.bind_eq_some_iff.mp hrecv
  split at hsyn
  · -- the connection is released; a FIN is still counted
    have hclosed := tcpError_conn hsyn
    have h₁ := (h.sendPacket hf 0 (TCP_RST ||| TCP_ACK) []).error hsyn
    -- A closed connection takes no data.
    have hnotake : ¬ TakesAfterAck (w₁.conn conn) header := by
      intro htakes
      rw [hclosed] at htakes
      obtain htakes | ⟨hs, -⟩ := htakes
      · exact absurd (show takesData .closed from htakes) (by decide)
      · exact absurd (show TcpState.closed = .synReceived from hs) (by decide)
    have hnxt : (w₁.conn conn).rcv.nxt = (w.conn conn).rcv.nxt := by
      rw [hclosed, tcpSendPacket_plain frames w conn 0 (by decide)]
    refine h₁.recvAfterSyn hf (by simp) (fun hack hfin => ⟨?_, .inr hnotake⟩)
      (fun _ _ htakes => absurd htakes hnotake) hrecv
    rw [hnxt]
    exact ((hfits hack).1 hfin).1
  · rename_i hnosyn
    obtain rfl := Option.some.inj hsyn
    refine h.recvAfterSyn hf hnot (fun hack hfin => ?_) (fun hack hdata htakes => ?_) hrecv
    · obtain ⟨hnext, hno⟩ := (hfits hack).1 hfin
      exact ⟨hnext, hno.imp_right fun hno => hno.resolve_left hnosyn⟩
    · obtain ⟨hfin, hondata⟩ := hfits hack
      obtain ⟨base, hw⟩ := h.waiting hopen
      refine ⟨hpay, inReceiveWindow_of_inWindow hw.wnd hpay.deficit hlen (by rw [hseq]; exact hwin),
        ?_, hlink, hone,
        fun hnext => hondata hdata hnosyn htakes (by rw [← hseq]; exact hnext.symm)⟩
      -- A segment with FIN whose data is taken is ruled out.
      rw [hflags, ← Bool.not_eq_true]
      intro hfinflag
      obtain ⟨-, h0 | hsyn | hno⟩ := hfin hfinflag
      · exact hdata h0
      · exact hnosyn hsyn
      · exact hno htakes

end MishaOS
