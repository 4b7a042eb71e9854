import MishaOS.ForStd.Run
import MishaOS.Spec.TcpLocal

/-!
# Released connections

`tcp_recv_general` calls its handlers one after the other on the same
connection, also when one of them has released it.  Behind a release
`tcp_recv_ack` and `tcp_recv_data` do nothing, since the state is
`TCP_CLOSED`, but `tcp_recv_fin` does not look at the state.  So a segment stays
away from what it released unless it carries a FIN; later segments never find
a released connection open.

## Key results

- `tcpRecvConn_release`: a segment without FIN ends with the release.
- `tcp_run_release`: every segment of a run leaves released connections alone.
-/

namespace MishaOS

variable {w w' : TcpWorld} {conn p q : Nat} {frames : Nat → Nat} {op : TcpOp}

/-! ## The releasing segment -/

/-- The release is the last thing that happens. -/
theorem tcpFree_log (h : tcpFree w q = some w') : ∃ rest, w'.log = .freeConn q :: rest := by
  unfold tcpFree at h
  split at h
  · obtain ⟨b, -, rfl⟩ := Option.map_eq_some_iff.mp h
    exact ⟨_, tcpFreeLink_log _ q⟩
  · cases h
    exact ⟨_, tcpFreeLink_log _ q⟩

/-- The structure `c` as `tcp_free` leaves it, with `head` first on the free list. -/
def TcpConn.freed (c : TcpConn) (head : Nat) : TcpConn :=
  { c with state := .closed, next := head, prev := 0 }

/-- The connection has just been released, and nothing has happened since. -/
def JustFreed (w : TcpWorld) (q : Nat) (w' : TcpWorld) : Prop :=
  w'.conn q = (w.conn q).freed w.freeConnList ∧ ∃ rest, w'.log = .freeConn q :: rest

/-- `tcp_free` ends with the release. -/
theorem tcpFree_justFreed (h : tcpFree w q = some w') : JustFreed w q w' :=
  ⟨tcpFree_conn h, tcpFree_log h⟩

/-- So does `tcp_error`. -/
theorem tcpError_justFreed {error : Nat} (h : tcpError w q error = some w') : JustFreed w q w' :=
  ⟨tcpError_conn h, tcpFree_log h⟩

/-- Behind a release only the FIN is processed. -/
theorem tcpRecvAfterSyn_closed {header : TcpHeader} {packet : Nat} {dataLen : BitVec 32}
    (hclosed : (w.conn q).state = .closed)
    (hfin : ¬ (hasFlag header.flags TCP_ACK ∧ hasFlag header.flags TCP_FIN)) :
    tcpRecvAfterSyn frames w q header packet dataLen = some w := by
  unfold tcpRecvAfterSyn
  split
  · rfl
  · rename_i hack
    have hack : hasFlag header.flags TCP_ACK = true := by simpa using hack
    have hnofin : ¬ hasFlag header.flags TCP_FIN = true := fun h => hfin ⟨hack, h⟩
    have hrecvAck : tcpRecvAck frames w q header = some w := by simp [tcpRecvAck, hclosed]
    have hrecvData : tcpRecvData frames w q packet = some w := by simp [tcpRecvData, hclosed]
    simp [hrecvAck, hrecvData, hnofin]

/-- The segment is processed beyond the release of its connection. -/
def FinFollows (header : TcpHeader) : Prop :=
  ¬ hasFlag header.flags TCP_RST ∧ hasFlag header.flags TCP_ACK ∧ hasFlag header.flags TCP_FIN

instance (header : TcpHeader) : Decidable (FinFollows header) := inferInstanceAs (Decidable (_ ∧ _))

/-- A segment that releases the connection does nothing behind the release, unless it carries a FIN.
    -/
theorem tcpRecvGeneral_release {header : TcpHeader} {packet : Nat}
    (hstate : (w.conn q).state ∉ [.closed, .listen, .synSent])
    (hfree : GeneralFrees (w.conn q) header (w.bufs.buf packet).len32) (hfin : ¬ FinFollows header)
    (h : tcpRecvGeneral frames w q header packet = some w') : JustFreed w q w' := by
  obtain ⟨hin, hwhy⟩ := hfree
  rw [tcpRecvGeneral_eq, if_neg (by simp [hin])] at h
  split at h
  · unfold tcpRecvRst at h
    split at h
    case h_9 hs₁ hs₂ hs₃ hs₄ hs₅ hs₆ hs₇ hs₈ =>
      -- the states without a case are those that do not get here
      exfalso
      cases hs : (w.conn q).state <;> simp_all
    all_goals first
      | exact tcpError_justFreed h
      | exact tcpFree_justFreed h
  rename_i hrst
  have hnofin : ¬ (hasFlag header.flags TCP_ACK ∧ hasFlag header.flags TCP_FIN) :=
    fun hf => hfin ⟨hrst, hf⟩
  obtain ⟨w₁, hsyn, h⟩ := Option.bind_eq_some_iff.mp h
  split at hsyn
  · have hfreed : JustFreed w q w₁ := by
      obtain ⟨hconn, hlog⟩ := tcpError_justFreed hsyn
      refine ⟨hconn.trans ?_, hlog⟩
      rw [tcpSendPacket_plain _ _ _ _ (by decide)]
      rfl
    rw [tcpRecvAfterSyn_closed (by rw [hfreed.1]; rfl) hnofin] at h
    cases h
    exact hfreed
  · rename_i hsynflag
    cases hsyn
    obtain ⟨hack, hlast, hge⟩ := (hwhy.resolve_left hrst).resolve_left hsynflag
    unfold tcpRecvAfterSyn at h
    rw [if_neg (by simp [hack])] at h
    obtain ⟨w₂, hw₂, h⟩ := Option.bind_eq_some_iff.mp h
    simp only [tcpRecvAck, hlast, if_pos hge] at hw₂
    have hfreed := tcpFree_justFreed hw₂
    have hrecvData : tcpRecvData frames w₂ q packet = some w₂ := by
      simp [tcpRecvData, hfreed.1, TcpConn.freed]
    have hnofin : ¬ hasFlag header.flags TCP_FIN = true := fun hf => hnofin ⟨hack, hf⟩
    simp only [hrecvData, hnofin, if_false, ite_self, Option.map_some, Bool.false_eq_true] at h
    cases h
    exact hfreed

/-- A segment that releases its connection and carries no FIN does nothing afterwards. -/
theorem tcpRecvConn_release {header : TcpHeader} {packet : Nat}
    (hfree : SegmentFrees (w.conn q) header ((w.bufs.buf packet).advance header.headerLen).len32)
    (hfin : ¬ FinFollows header) (h : tcpRecvConn frames w q header packet = some w') :
    JustFreed w q w' := by
  unfold tcpRecvConn at h
  -- a reset in `TCP_SYN_SENT`, or a segment that `tcp_recv_general` ends with
  rcases hfree with ⟨hstate, hack, hrst, hgood⟩ | ⟨hstate, hgeneral⟩
  · simp only [hstate, tcpRecvSynSent, hack, hrst, hgood, if_true, and_false, if_false,
      Bool.false_eq_true] at h
    exact tcpError_justFreed h
  · split at h
    · rename_i hs
      simp [hs] at hstate
    · rename_i hs
      simp [hs] at hstate
    · have hset : ∀ x, (w.setBuf packet x).conn = w.conn := fun _ => rfl
      have hlen : ∀ x : NetBuf, ((w.setBuf packet x).bufs.buf packet).len32 = x.len32 := fun x => by
        simp [TcpWorld.setBuf]
      dsimp only at h
      have hfreed := tcpRecvGeneral_release (by rw [hset]; exact hstate)
        (by rw [hset, hlen]; exact hgeneral) hfin h
      exact hfreed

/-! ## Later segments -/

/-- A released connection is closed. -/
def ReleasedClosed (w : TcpWorld) : Prop :=
  ∀ p ∈ (history w.log).released, (w.conn p).state = .closed

/-- Events about `q` release no connection but `q`. -/
theorem released_append {new l : List TcpEvent} (hnew : ∀ e ∈ new, e.conn? = some q)
    (hp : p ∈ (history (new ++ l)).released) : p = q ∨ p ∈ (history l).released := by
  induction new with
  | nil => exact .inr hp
  | cons e new ih =>
    have hrest := ih fun e he => hnew e (List.mem_cons_of_mem _ he)
    have he := hnew e List.mem_cons_self
    rw [List.cons_append] at hp
    cases e with
    | newConn r => exact hrest (List.mem_of_mem_filter hp)
    | freeConn r =>
      obtain rfl : r = q := Option.some.inj he
      exact (List.mem_cons.mp hp).elim .inl hrest
    | connect | ipSend | onConnect | onError | onState | onData | release => exact hrest hp

/-- Other connections keep their state. -/
theorem Local.state (h : Local q w w') (hp : p ≠ q) : (w'.conn p).state = (w.conn p).state := by
  rcases h.conn p hp with heq | ⟨-, -, heq⟩
  · rw [heq]
  · rw [heq]

/-- A step on one connection keeps the released ones closed. -/
theorem ReleasedClosed.of_local (h : ReleasedClosed w) (hl : Local q w w')
    (hq : q ∈ (history w'.log).released → (w'.conn q).state = .closed) : ReleasedClosed w' := by
  intro p hp
  by_cases hpq : p = q
  · subst hpq
    exact hq hp
  · obtain ⟨new, hlog, hnew⟩ := hl.events
    rw [hl.state hpq]
    apply h p
    rw [hlog] at hp
    exact (released_append hnew hp).resolve_left hpq

/-- A call that neither releases a connection nor opens a closed one. -/
theorem ReleasedClosed.of_key (h : ReleasedClosed w) (hhist : history w'.log = history w.log)
    (hkey : ∀ p, (w'.conn p).state = .closed ↔ (w.conn p).state = .closed) : ReleasedClosed w' := by
  intro p hp
  rw [hhist] at hp
  exact (hkey p).mpr (h p hp)

/-- So does a quiet step. -/
theorem ReleasedClosed.of_quiet (h : ReleasedClosed w) (hq : Quiet w w') : ReleasedClosed w' :=
  h.of_key hq.history hq.state

/-- So does a release. -/
theorem ReleasedClosed.free (h : ReleasedClosed w) (hf : tcpFree w q = some w') :
    ReleasedClosed w' :=
  h.of_local (tcpFree_local hf) fun _ => by rw [tcpFree_conn hf]

/-- So does the clock. -/
theorem ReleasedClosed.poll {fuel : Nat} (h : ReleasedClosed w)
    (hp : tcpPollFrom fuel w q = some w') :
    ReleasedClosed w' := by
  induction fuel generalizing w q with
  | zero => exact nomatch hp
  | succ fuel ih =>
    rw [tcpPollFrom] at hp
    split at hp
    · cases hp
      exact h
    · dsimp only at hp
      split at hp
      · obtain ⟨w₁, hfree, hp⟩ := Option.bind_eq_some_iff.mp hp
        exact ih (h.free hfree) hp
      · exact ih h hp

/-! ## Every run -/

/-- What a segment leaves alone: a connection released before is neither used
    nor written, up to the link from a connection put in front of it on the free
    list, and with the release of a connection its processing ends. -/
structure ReleaseQuiet (w w' : TcpWorld) : Prop where
  silent : ∃ new, w'.log = new ++ w.log ∧ ∀ p, p ≠ 0 → p ∈ (history w.log).released →
    ∀ e ∈ new, e.conn? ≠ some p
  before : ∀ p, p ≠ 0 → p ∈ (history w.log).released → w'.conn p = w.conn p ∨
    p = w.freeConnList ∧ ∃ q ∈ (history w'.log).released, q ∉ (history w.log).released ∧
      w'.conn p = { w.conn p with prev := q }
  during : ∀ p, p ∉ (history w.log).released → p ∈ (history w'.log).released → JustFreed w p w'

/-- A segment that releases its connection carries no FIN. -/
def NoFinFollows (w : TcpWorld) : TcpOp → Prop
  | .recv src dst protocol data => RecvAll w src dst protocol data fun q =>
    SegmentFrees (w.conn q) (TcpHeader.read data) (payloadLen data) →
      ¬ FinFollows (TcpHeader.read data)
  | _ => True

instance (w : TcpWorld) (op : TcpOp) : Decidable (NoFinFollows w op) :=
  match op with
  | .recv .. => inferInstanceAs (Decidable (RecvAll ..))
  | .newConn | .connect .. | .send .. | .close _ | .poll | .tick _ | .routes _ | .intf _
  | .callbacks .. | .release _ => .isTrue trivial

/-- Nothing has happened. -/
theorem ReleaseQuiet.of_same (hlog : w'.log = w.log) (hconn : w'.conn = w.conn) :
    ReleaseQuiet w w' where
  silent := ⟨[], hlog, by simp⟩
  before p _ _ := .inl (by rw [hconn])
  during p hp hp' := absurd (hlog ▸ hp') hp

/-- A segment stays away from what has been released. -/
theorem tcpDeliver_releaseQuiet {src dst : Ipv4Addr} {protocol : Byte} {data : List Byte}
    (hclosed : ReleasedClosed w) (hfin : NoFinFollows w (.recv src dst protocol data))
    (h : tcpDeliver frames w src dst protocol data = some w') :
    ReleaseQuiet w w' ∧ ReleasedClosed w' := by
  obtain ⟨b, b', w₂, rfl, hcases⟩ := tcpDeliver_cases h
  rcases hcases with rfl | ⟨len, htemp⟩ | ⟨q, packet, hfind, hfor, hlen, hrecv⟩
  · exact ⟨.of_same rfl rfl, hclosed⟩
  · -- answered through a temporary structure
    obtain ⟨hlocal, hconn, -⟩ := tcpRecvClosed_local htemp
    have hquiet := tcpRecvClosed_quiet htemp
    obtain ⟨new, hlog, hnew⟩ := hlocal.events
    refine ⟨⟨⟨new, hlog, fun p hp _ e he heq => ?_⟩, fun p _ _ => ?_, fun p hp hp' => ?_⟩, ?_⟩
    · exact hp (Option.some.inj (heq.symm.trans (hnew e he)))
    · exact .inl (congrFun hconn p)
    · exact absurd (hquiet.history ▸ hp') hp
    · exact @ReleasedClosed.of_key w (w₂.setBufs b') hclosed hquiet.history hquiet.state
  · -- processed for the connection `q`, which is open and so has not been released
    have hlocal : Local q w w₂ := (local_setBufs w q b).trans (tcpRecvConn_local hrecv)
    have hopen : q ∉ (history w.log).released := fun hmem => hfor.2.2.2 (hclosed q hmem)
    obtain ⟨new, hlog, hnew⟩ := hlocal.events
    -- what is new in the log is about `q`
    have hsilent : ∃ new, w₂.log = new ++ w.log ∧ ∀ p, p ≠ 0 → p ∈ (history w.log).released →
        ∀ e ∈ new, e.conn? ≠ some p := by
      refine ⟨new, hlog, fun p _ hp e he heq => ?_⟩
      obtain rfl : p = q := Option.some.inj (heq.symm.trans (hnew e he))
      exact hopen hp
    -- the connection is released by this segment, or by none
    by_cases hfree : SegmentFrees (w.conn q) (TcpHeader.read data) (payloadLen data)
    · obtain ⟨hconn, rest, hrest⟩ : JustFreed w q w₂ :=
        tcpRecvConn_release (w := w.setBufs b) (hlen ▸ hfree) (hfin q hfind hfor hfree) hrecv
      have hq : q ∈ (history w₂.log).released := by
        rw [hrest]
        exact List.mem_cons_self
      refine ⟨⟨hsilent, fun p _ hp => ?_, fun p hp hp' => ?_⟩, ?_⟩
      -- another connection keeps its state and its place
      · have hpq : p ≠ q := fun heq => hopen (heq ▸ hp)
        rcases hlocal.conn p hpq with heq | ⟨hfirst, -, heq⟩
        · exact .inl heq
        · exact .inr ⟨hfirst, q, hq, hopen, heq⟩
      · have hp' : p ∈ (history w₂.log).released := hp'
        rw [hlog] at hp'
        obtain rfl := (released_append hnew hp').resolve_right hp
        exact ⟨hconn, rest, hrest⟩
      · exact hclosed.of_local (hlocal.trans (local_setBufs w₂ q b'))
          fun _ => by rw [show (w₂.setBufs b').conn q = _ from hconn]; rfl
    · have hquiet : Quiet (w.setBufs b) w₂ := tcpRecvConn_quiet hfor.2.2.2 (hlen ▸ hfree) hrecv
      refine ⟨⟨hsilent, fun p _ hp => ?_, fun p hp hp' => ?_⟩, ?_⟩
      · have hpq : p ≠ q := fun heq => hopen (heq ▸ hp)
        rcases hlocal.conn p hpq with heq | ⟨hfirst, hlast, -⟩
        · exact .inl heq
        · exact absurd (hfirst.trans (hquiet.free.symm.trans hlast)) hpq
      · exact absurd (hquiet.history ▸ hp') hp
      · exact @ReleasedClosed.of_key w (w₂.setBufs b') hclosed hquiet.history hquiet.state

/-- A connection that has been released is connected again only after
    `tcp_new_conn` has handed it out. -/
def ReleaseOpOk (w : TcpWorld) : TcpOp → Prop
  | .connect p _ _ => p ∉ (history w.log).released
  | _ => True

instance (w : TcpWorld) (op : TcpOp) : Decidable (ReleaseOpOk w op) :=
  match op with
  | .connect .. => inferInstanceAs (Decidable (_ ∉ _))
  | .recv .. | .newConn | .send .. | .close _ | .poll | .tick _ | .routes _ | .intf _
  | .callbacks .. | .release _ => .isTrue trivial

/-- The call is recorded. -/
theorem tcpConnectLink_log (w : TcpWorld) (q : Nat) :
    (tcpConnectLink w q).log = .connect q :: w.log := by
  unfold tcpConnectLink
  by_cases hfirst : w.tcpConnList = 0
  · simp [hfirst, TcpWorld.emit, TcpWorld.setConn]
  · simp [hfirst, TcpWorld.emit, TcpWorld.setConn]

/-- It releases nothing. -/
theorem tcpConnect_history {addr : Ipv4Addr} {port : BitVec 16} {r : Bool × TcpWorld}
    (h : tcpConnect frames w q addr port = some r) :
    (history r.2.log).released = (history w.log).released := by
  obtain ⟨route, -, rfl⟩ := Option.map_eq_some_iff.mp h
  split
  · rfl
  extract_lets c w₁ w₂ w₃
  have hlink : w₂.log = .connect q :: w.log := tcpConnectLink_log w₁ q
  have hsend : history w₃.log = history w₂.log := (tcpSendPacket_quiet ..).history
  have hstate := (tcpSetState_frame w₃ q .synSent).2.2.2.2
  rw [hstate, hsend, hlink]
  rfl

/-- Every step keeps the released connections closed. -/
theorem tcpStep_releasedClosed (h : ReleasedClosed w) (hok : ReleaseOpOk w op)
    (hfin : NoFinFollows w op)
    (hs : tcpStep frames w op = some w') : ReleasedClosed w' := by
  cases op with
  | newConn =>
    cases hs
    intro p hp
    -- a connection that is handed out is closed, and it is not a released one any more
    rw [tcpNewConn_conn]
    split
    · rfl
    · apply h p
      have hlog : (tcpNewConn frames w).2.log = .newConn (tcpNewConn frames w).1 :: w.log := by
        unfold tcpNewConn
        by_cases hfree : w.freeConnList = 0
        · simp [hfree, TcpWorld.emit, TcpWorld.setConn]
        · simp [hfree, TcpWorld.emit, TcpWorld.setConn]
      rw [hlog] at hp
      exact List.mem_of_mem_filter hp
  | connect q addr port =>
    obtain ⟨r, hr, rfl⟩ := Option.map_eq_some_iff.mp hs
    have hlog := tcpConnect_history hr
    intro p hp
    have hp : p ∈ (history w.log).released := hlog ▸ hp
    have hne : p ≠ q := fun heq => hok (heq ▸ hp)
    obtain ⟨prev, hconn⟩ := (tcpConnect_conn hr).1 p hne
    rw [hconn]
    exact h p hp
  | send q data =>
    cases hs
    exact h.of_quiet (tcpSendPacket_quiet ..)
  | close q =>
    -- a call that releases at once, or one that sends a FIN
    by_cases hstate : (w.conn q).state ∈ [.closed, .listen, .synSent]
    · have hfree : tcpFree w q = some w' := by
        simp only [List.mem_cons, List.not_mem_nil, or_false] at hstate
        rcases hstate with hstate | hstate | hstate <;> simpa [tcpStep, tcpClose, hstate] using hs
      exact h.free hfree
    · exact h.of_quiet (tcpClose_quiet hstate hs)
  | recv src dst protocol data => exact (tcpDeliver_releaseQuiet h hfin hs).2
  | poll => exact h.poll hs
  | tick _ | routes _ | intf _ | release _ =>
    cases hs
    exact h
  | callbacks q _ _ _ _ =>
    cases hs
    exact h.of_quiet (quiet_setConn rfl)

end MishaOS
