import MishaOS.ForStd.Run
import MishaOS.ForStd.Serial
import MishaOS.Spec.TcpLocal

/-!
# The oldest unacknowledged number

`snd.una` and `snd.nxt` are positions counted from `snd.iss`.  Only
`tcp_recv_syn_sent` and `tcp_recv_ack` move `snd.una`, and the acknowledgement
they accept lies between `snd.una` and `snd.nxt`, with one exception: when
everything is acknowledged, the number half the number space ahead is both not
behind `snd.una` and not ahead of `snd.nxt`.

## Key results

- `ack_le_nxt`: what the comparisons of `tcp_recv_ack` accept.
- `tcpStep_una`: a step moves both numbers forward, and `snd.una` to at most
  what `snd.nxt` was.
- `tcp_run_una`: in every run without that acknowledgement, all that `snd.una`
  has moved is at most what `snd.nxt` has, and no step moves it back.
-/

namespace MishaOS

open Serial

variable {w w' : TcpWorld} {c c' c'' : TcpConn} {conn q a n : Nat} {frames : Nat → Nat} {op : TcpOp}

/-- `snd.una` is at position `a` and `snd.nxt` at position `n` from `snd.iss`. -/
structure UnaOk (s : TcpSndState) (a n : Nat) : Prop where
  una : s.una = num s.iss a
  nxt : s.nxt = num s.iss n
  le : a ≤ n
  lt : n - a < 2147483648
  unacked : (s.nxt - s.una).toNat = n - a

/-- The number of unacknowledged sequence numbers. -/
def TcpConn.unacked (c : TcpConn) : Nat := (c.snd.nxt - c.snd.una).toNat

/-- Two positions less than 2^31 apart. -/
theorem UnaOk.mk' {s : TcpSndState} (hu : s.una = num s.iss a)
    (hn : s.nxt = num s.iss n) (hle : a ≤ n)
    (hlt : n - a < 2147483648) : UnaOk s a n := by
  refine ⟨hu, hn, hle, hlt, ?_⟩
  rw [hu, hn]
  exact num_sub_toNat s.iss hle (by omega)

/-! ## One acknowledgement -/

/-- The number half the number space away, when everything is acknowledged. -/
def HalfAway (c : TcpConn) (ack : BitVec 32) : Prop :=
  c.snd.una = c.snd.nxt ∧ ack = c.snd.una + BitVec.ofNat 32 2147483648

/-- The comparisons of `tcp_recv_ack` accept numbers between `una` and `nxt`, and
    the one half the number space away from both. -/
theorem ack_le_nxt {ack : BitVec 32} (hwin : c.unacked < 2147483648)
    (hlow : seqDiff c.snd.una ack ≤ 0) (hhigh : seqDiff ack c.snd.nxt ≤ 0)
    (hhalf : ¬ HalfAway c ack) :
    (ack - c.snd.una).toNat ≤ c.unacked := by
  -- the number half the space away is the only one accepted outside the range
  have hne : c.snd.una.toNat = c.snd.nxt.toNat →
      ack.toNat ≠ (c.snd.una.toNat + 2147483648) % 4294967296 := by
    intro hu ha
    apply hhalf
    refine ⟨BitVec.eq_of_toNat_eq hu, BitVec.eq_of_toNat_eq ?_⟩
    rw [ha, BitVec.toNat_add, BitVec.toNat_ofNat]
  -- from here on it is arithmetic with three numbers below 2^32
  simp only [seqDiff, BitVec.toInt_eq_toNat_cond, BitVec.toNat_sub] at hlow hhigh
  simp only [TcpConn.unacked, BitVec.toNat_sub] at hwin ⊢
  have h₁ := c.snd.una.isLt
  have h₂ := ack.isLt
  have h₃ := c.snd.nxt.isLt
  clear hhalf
  generalize c.snd.una.toNat = x at *
  generalize c.snd.nxt.toNat = y at *
  omega

/-- The comparisons of `tcp_recv_syn_sent`. -/
theorem synAck_le_nxt {iss ack nxt : BitVec 32} (hwin : (nxt - iss).toNat < 2147483648)
    (hlow : 0 < seqDiff ack iss) (hhigh : seqDiff ack nxt ≤ 0) :
    (ack - iss).toNat ≤ (nxt - iss).toNat := by
  simp only [seqDiff, BitVec.toInt_eq_toNat_cond, BitVec.toNat_sub] at hlow hhigh
  simp only [BitVec.toNat_sub] at hwin ⊢
  have h₁ := iss.isLt
  have h₂ := ack.isLt
  have h₃ := nxt.isLt
  omega

/-! ## What a segment does to `snd` -/

/-- `snd.una` moves forward to `snd.nxt` at most, and not while the SYN is out. -/
structure SndMoves (c c' : TcpConn) : Prop where
  iss : c'.snd.iss = c.snd.iss
  nxt : c'.snd.nxt = c.snd.nxt
  una : ∃ k, k ≤ c.unacked ∧ c'.snd.una = c.snd.una + BitVec.ofNat 32 k
  waiting : c'.state = .synSent → c.state = .synSent ∧ c'.snd.una = c.snd.una

/-- Nothing is acknowledged. -/
theorem SndMoves.of_snd (h : c'.snd = c.snd) (hs : c'.state = .synSent → c.state = .synSent) :
    SndMoves c c' where
  iss := by rw [h]
  nxt := by rw [h]
  una := ⟨0, Nat.zero_le _, by simp [h]⟩
  waiting hw := ⟨hs hw, by rw [h]⟩

/-- Nothing has happened. -/
theorem SndMoves.refl (c : TcpConn) : SndMoves c c := .of_snd rfl id

/-- Two acknowledgements are one. -/
theorem SndMoves.trans (h : SndMoves c c') (h' : SndMoves c' c'') : SndMoves c c'' := by
  obtain ⟨k, hk, hu⟩ := h.una
  obtain ⟨k', hk', hu'⟩ := h'.una
  refine ⟨h'.iss.trans h.iss, h'.nxt.trans h.nxt, ⟨k + k', ?_, ?_⟩, fun hw => ?_⟩
  · -- what is left behind the first move is `unacked - k`
    simp only [TcpConn.unacked, h.nxt, hu] at hk hk' ⊢
    simp only [BitVec.toNat_sub, BitVec.toNat_add, BitVec.toNat_ofNat] at hk hk' ⊢
    have h₁ := c.snd.una.isLt
    have h₂ := c.snd.nxt.isLt
    omega
  · rw [hu', hu, BitVec.ofNat_add, BitVec.add_assoc]
  · obtain ⟨hw', hu₂⟩ := h'.waiting hw
    obtain ⟨hw, hu₁⟩ := h.waiting hw'
    exact ⟨hw, hu₂.trans hu₁⟩

/-- The move to an accepted acknowledgement. -/
theorem ofNat_ack (una ack : BitVec 32) : una + BitVec.ofNat 32 (ack - una).toNat = ack :=
  num_toNat_sub una ack

/-- `snd.una` moves forwards, up to `snd.nxt`. -/
theorem UnaOk.moves (h : UnaOk c.snd a n) (hm : SndMoves c c') :
    ∃ a', a ≤ a' ∧ UnaOk c'.snd a' n := by
  obtain ⟨k, hk, hu⟩ := hm.una
  rw [TcpConn.unacked, h.unacked] at hk
  have hle := h.le
  have hlt := h.lt
  refine ⟨a + k, by omega, .mk' ?_ ?_ (by omega) (by omega)⟩
  · rw [hu, h.una, num_add, hm.iss]
  · rw [hm.nxt, h.nxt, hm.iss]

/-! ## The handlers -/

/-- The release acknowledges nothing. -/
theorem tcpFree_moves (h : tcpFree w q = some w') : SndMoves (w.conn q) (w'.conn q) := by
  rw [tcpFree_conn h]
  exact .of_snd rfl nofun

/-- Nor does an error. -/
theorem tcpError_moves {error : Nat} (h : tcpError w q error = some w') :
    SndMoves (w.conn q) (w'.conn q) := by
  rw [tcpError_conn h]
  exact .of_snd rfl nofun

/-- Handing data over does not touch the send state. -/
theorem tcpRecvProcessFrom_snd {fuel packet : Nat}
    (h : tcpRecvProcessFrom q fuel w packet = some w') :
    (w'.conn q).snd = (w.conn q).snd ∧ (w'.conn q).state = (w.conn q).state := by
  induction fuel generalizing w packet with
  | zero => exact nomatch h
  | succ fuel ih =>
    simp only [tcpRecvProcessFrom] at h
    split at h
    · cases h
      exact ⟨rfl, rfl⟩
    split at h
    · cases h
      exact ⟨rfl, rfl⟩
    · obtain ⟨hsnd, hstate⟩ := ih h
      rw [hsnd, hstate]
      -- the callback is called or not, the connection is written the same
      split <;> simp [TcpWorld.setResequence, TcpWorld.setBufs, TcpWorld.emit, TcpWorld.setRcv]

/-- Nor does `tcp_recv_data`. -/
theorem tcpRecvData_moves {packet : Nat} (h : tcpRecvData frames w q packet = some w') :
    SndMoves (w.conn q) (w'.conn q) := by
  unfold tcpRecvData at h
  split at h
  case h_4 =>
    cases h
    exact .refl _
  all_goals
    simp only [Option.bind_eq_some_iff, Option.map_eq_some_iff] at h
    obtain ⟨r, -, w₁, hproc, rfl⟩ := h
    obtain ⟨hsnd, hstate⟩ := tcpRecvProcessFrom_snd hproc
    rw [tcpSendAck_conn]
    apply SndMoves.of_snd
    · rw [hsnd]
      simp [TcpWorld.setResequence, TcpWorld.setBufs, TcpWorld.setBuf]
    · rw [hstate]
      simp [TcpWorld.setResequence, TcpWorld.setBufs, TcpWorld.setBuf]

/-- Nor does `tcp_recv_fin`. -/
theorem tcpRecvFin_moves (frames : Nat → Nat) (w : TcpWorld) (q : Nat) (header : TcpHeader) :
    SndMoves (w.conn q) ((tcpRecvFin frames w q header).conn q) := by
  unfold tcpRecvFin
  extract_lets rcv w₁ w₂
  -- the FIN is counted in `rcv`, and acknowledged; `snd` stays as it is
  have hw₂ : w₂.conn q = { w.conn q with rcv := { rcv with nxt := header.seq + 1 } } := by
    simp only [w₂, tcpSendAck_conn, w₁]
    simp [TcpWorld.setRcv, rcv]
  have hstep : SndMoves (w.conn q) (w₂.conn q) := by
    rw [hw₂]
    exact .of_snd rfl id
  clear_value w₂
  apply hstep.trans
  -- what comes behind only sets the state and the timer
  have hset : ∀ state, state ≠ .synSent →
      SndMoves (w₂.conn q) ((tcpSetState w₂ q state).conn q) := by
    intro state hs
    rw [tcpSetState_conn]
    exact .of_snd rfl fun h => absurd h hs
  have hwait : ∀ u : TcpWorld, SndMoves (u.conn q) ((tcpTimeWait u q).conn q) := by
    intro u
    simp only [tcpTimeWait, TcpWorld.setMslWait, TcpWorld.setConn_conn, if_true]
    exact .of_snd rfl id
  split
  · exact hset _ nofun
  · exact hset _ nofun
  · split
    · exact (hset .timeWait nofun).trans (hwait _)
    · exact hset _ nofun
  · exact (hset .timeWait nofun).trans (hwait _)
  · exact hwait _
  · exact .refl _

/-- An acknowledgement that is taken is neither behind `snd.una` nor ahead of `snd.nxt`. -/
theorem tcpAckUpdate_una (snd : TcpSndState) (header : TcpHeader) :
    (tcpAckUpdate snd header).iss = snd.iss ∧ (tcpAckUpdate snd header).nxt = snd.nxt ∧
      ((tcpAckUpdate snd header).una = snd.una ∨ (tcpAckUpdate snd header).una = header.ack ∧
        seqDiff snd.una header.ack ≤ 0 ∧ seqDiff header.ack snd.nxt ≤ 0) := by
  unfold tcpAckUpdate
  split
  · rename_i hin
    dsimp only
    split
    · exact ⟨rfl, rfl, .inr ⟨rfl, hin⟩⟩
    · exact ⟨rfl, rfl, .inr ⟨rfl, hin⟩⟩
  · exact ⟨rfl, rfl, .inl rfl⟩

/-- The states in which `tcp_recv_ack` moves `snd.una`. -/
def movesUna (state : TcpState) : Bool :=
  state ∈ [.established, .finWait1, .finWait2, .closeWait, .closing]

/-- Two numbers 2^31 apart are each ahead of the other, so they must not meet here. -/
theorem tcpRecvAckOpen_moves (frames : Nat → Nat) {header : TcpHeader}
    (hstate : movesUna (w.conn q).state)
    (hwin : (w.conn q).unacked < 2147483648) (hhalf : ¬ HalfAway (w.conn q) header.ack) :
    SndMoves (w.conn q) ((tcpRecvAckOpen frames w q header).conn q) := by
  have hne : (w.conn q).state ≠ .synSent := by
    intro hs
    rw [hs] at hstate
    exact nomatch hstate
  unfold tcpRecvAckOpen
  extract_lets w₁
  have hw₁ : w₁.conn q = { w.conn q with snd := tcpAckUpdate (w.conn q).snd header } := by
    simp [w₁, TcpWorld.setSnd]
  -- `snd.una` goes to the acknowledgement or stays
  have hstep : SndMoves (w.conn q) (w₁.conn q) := by
    rw [hw₁]
    obtain ⟨hiss, hnxt, huna⟩ := tcpAckUpdate_una (w.conn q).snd header
    refine ⟨hiss, hnxt, ?_, fun hs => absurd hs hne⟩
    -- not taken, or taken between `una` and `nxt`
    rcases huna with huna | ⟨huna, hlow, hhigh⟩
    · exact ⟨0, Nat.zero_le _, by simpa using huna⟩
    · refine ⟨_, ack_le_nxt hwin hlow hhigh hhalf, ?_⟩
      rw [ofNat_ack]
      exact huna
  have hopen : (w₁.conn q).state ≠ .synSent := by
    rw [hw₁]
    exact hne
  clear_value w₁
  apply hstep.trans
  -- the state may go on, `snd` is left alone
  have hset : ∀ state, state ≠ .synSent →
      SndMoves (w₁.conn q) ((tcpSetState w₁ q state).conn q) := by
    intro state hs
    rw [tcpSetState_conn]
    exact .of_snd rfl fun h => absurd h hs
  split
  · rw [tcpSendAck_conn]
    exact .refl _
  split
  · split
    · exact hset _ nofun
    · apply (hset .timeWait nofun).trans
      simp only [tcpTimeWait, TcpWorld.setMslWait, TcpWorld.setConn_conn, if_true]
      exact .of_snd rfl id
    · exact .refl _
  · exact .refl _

/-- `tcp_recv_ack` moves `snd.una` forwards. -/
theorem tcpRecvAck_moves {header : TcpHeader} (hwin : (w.conn q).unacked < 2147483648)
    (hhalf : movesUna (w.conn q).state → ¬ HalfAway (w.conn q) header.ack)
    (h : tcpRecvAck frames w q header = some w') : SndMoves (w.conn q) (w'.conn q) := by
  unfold tcpRecvAck at h
  split at h
  -- in `TCP_SYN_RECEIVED` `snd.una` is not written at all
  · split at h
    · cases h
      rw [tcpSetState_conn]
      refine ⟨?_, ?_, ⟨0, Nat.zero_le _, ?_⟩, by simp [TcpWorld.setSnd]⟩ <;> simp [TcpWorld.setSnd]
    · cases h
      rw [tcpSendPacket_plain _ _ _ _ (by decide)]
      exact .refl _
  -- `TCP_LAST_ACK`: the connection may be released
  case h_7 =>
    split at h
    · exact tcpFree_moves h
    · cases h
      exact .refl _
  case h_8 =>
    cases h
    exact .refl _
  all_goals
    rename_i hstate
    cases h
    -- in the other states the acknowledgement is taken as in `TCP_ESTABLISHED`
    have hmoves : movesUna (w.conn q).state := by
      rw [hstate]
      rfl
    exact tcpRecvAckOpen_moves frames hmoves hwin (hhalf hmoves)

/-- Before the answer to the SYN `snd.una` is `snd.iss`. -/
theorem tcpRecvSynSent_moves {header : TcpHeader} (hwin : (w.conn q).unacked < 2147483648)
    (hiss : (w.conn q).snd.una = (w.conn q).snd.iss)
    (h : tcpRecvSynSent frames w q header = some w') : SndMoves (w.conn q) (w'.conn q) := by
  unfold tcpRecvSynSent at h
  -- a bad acknowledgement is answered, at most, with a reset
  split at h
  · split at h
    · cases h
      exact .refl _
    · cases h
      rw [tcpSendPacket_plain _ _ _ _ (by decide)]
      exact .refl _
  rename_i hack
  split at h
  · split at h
    · exact tcpError_moves h
    · cases h
      exact .refl _
  split at h
  · cases h
    unfold tcpRecvSynSentOpen
    extract_lets rcv w₁ snd w₂ w₃ w₄ w₅ snd' w₆
    have hw₁ : (w₁.conn q).snd = (w.conn q).snd := by simp [w₁, TcpWorld.setRcv]
    split
    · rename_i hflag
      have hgood : ¬ synSentAckBad (w.conn q) header = true := fun hbad => hack ⟨hflag, hbad⟩
      simp only [synSentAckBad, decide_eq_true_eq, not_or, not_le, not_lt] at hgood
      rw [← hiss] at hgood
      -- the acknowledgement of the SYN lies behind `iss`
      have hle := synAck_le_nxt hwin hgood.1 hgood.2
      have hw₃ : w₃.conn q = { w₁.conn q with state := .established, snd := { snd with
          una := header.ack, wnd := header.windowSize.zeroExtend 32, wl1 := header.seq, wl2 :=
            header.ack } } := by
        simp only [w₃, tcpSetState_conn, w₂]
        simp [TcpWorld.setSnd]
      have hw₄ : w₄.conn = w₃.conn := tcpSendAck_conn frames w₃ q
      have hfinal : ∀ b : Bool, (if b then w₄.emit (.onConnect q) else w₄).conn q = w₃.conn q := by
        intro b
        rw [← hw₄]
        cases b <;> rfl
      rw [hfinal, hw₃]
      refine ⟨by simp [snd, hw₁], by simp [snd, hw₁], ⟨_, hle, ?_⟩, by simp⟩
      rw [ofNat_ack]
    · -- `snd.nxt` is counted back and the SYN sent again
      have hw₅ : w₅.conn q = { w₁.conn q with state := .synReceived } := tcpSetState_conn w₁ q _
      have hw₆ : w₆.conn q = { w₁.conn q with
          state := .synReceived, snd :=
            { (w₁.conn q).snd with nxt := (w₁.conn q).snd.nxt - 1 } } := by
        simp only [w₆, snd', TcpWorld.setSnd, TcpWorld.setConn_conn, if_true, hw₅]
      rw [tcpSendPacket_conn, if_pos rfl, hw₆]
      have hback : tcpSndNxt ((w₁.conn q).snd.nxt - 1) (TCP_SYN ||| TCP_ACK) [] =
          (w₁.conn q).snd.nxt := by
        have hflags : hasFlag (TCP_SYN ||| TCP_ACK) (TCP_SYN ||| TCP_FIN) = true := by decide
        simp [tcpSndNxt, hflags]
      exact ⟨by simp [hw₁], hback.trans (by rw [hw₁]), ⟨0, Nat.zero_le _, by simp [hw₁]⟩, by simp⟩
  · cases h
    exact .refl _

/-- A reset acknowledges nothing. -/
theorem tcpRecvRst_moves (h : tcpRecvRst w q = some w') : SndMoves (w.conn q) (w'.conn q) := by
  unfold tcpRecvRst at h
  split at h
  case h_9 =>
    cases h
    exact .refl _
  all_goals first
    | exact tcpError_moves h
    | exact tcpFree_moves h

/-! ## A segment -/

/-- The segment gets to the comparisons of `tcp_recv_ack` that move `snd.una`,
    with the number half the number space away. -/
def HalfAcks (c : TcpConn) (header : TcpHeader) (dataLen : BitVec 32) : Prop :=
  movesUna c.state ∧ inWindow c header.seq dataLen ∧ hasFlag header.flags TCP_ACK ∧
    ¬ hasFlag header.flags TCP_RST ∧ ¬ hasFlag header.flags TCP_SYN ∧ HalfAway c header.ack

instance (c : TcpConn) (header : TcpHeader) (dataLen : BitVec 32) :
    Decidable (HalfAcks c header dataLen) :=
  have : Decidable (HalfAway c header.ack) := inferInstanceAs (Decidable (_ ∧ _))
  inferInstanceAs (Decidable (_ ∧ _))

/-- The rest of `tcp_recv_general` moves `snd.una` forwards. -/
theorem tcpRecvAfterSyn_moves {header : TcpHeader} {packet : Nat} {dataLen : BitVec 32}
    (hwin : (w.conn q).unacked < 2147483648)
    (hhalf : hasFlag header.flags TCP_ACK → movesUna (w.conn q).state →
      ¬ HalfAway (w.conn q) header.ack)
    (h : tcpRecvAfterSyn frames w q header packet dataLen = some w') :
    SndMoves (w.conn q) (w'.conn q) := by
  unfold tcpRecvAfterSyn at h
  split at h
  · cases h
    exact .refl _
  rename_i hflag
  obtain ⟨w₁, hack, h⟩ := Option.bind_eq_some_iff.mp h
  obtain ⟨w₂, hdata, rfl⟩ := Option.map_eq_some_iff.mp h
  apply (tcpRecvAck_moves hwin (hhalf (by simpa using hflag)) hack).trans
  -- the data move `rcv` only
  have h₂ : SndMoves (w₁.conn q) (w₂.conn q) := by
    split at hdata
    · exact tcpRecvData_moves hdata
    · cases hdata
      exact .refl _
  apply h₂.trans
  split
  · exact tcpRecvFin_moves ..
  · exact .refl _

/-- So does `tcp_recv_general`. -/
theorem tcpRecvGeneral_moves {header : TcpHeader} {packet : Nat}
    (hwin : (w.conn q).unacked < 2147483648)
    (hhalf : ¬ HalfAcks (w.conn q) header (w.bufs.buf packet).len32)
    (h : tcpRecvGeneral frames w q header packet = some w') : SndMoves (w.conn q) (w'.conn q) := by
  rw [tcpRecvGeneral_eq] at h
  -- outside the window a segment is answered at most
  split at h
  · split at h
    · cases h
      exact .refl _
    · cases h
      rw [tcpSendAck_conn]
      exact .refl _
  rename_i hin
  split at h
  · exact tcpRecvRst_moves h
  rename_i hrst
  obtain ⟨w₁, hsyn, h⟩ := Option.bind_eq_some_iff.mp h
  split at hsyn
  · -- the connection has been released: its state moves nothing any more
    have hw₁ : w₁.conn q = { w.conn q with
      state := .closed, next := w.freeConnList, prev := 0 } := by
      rw [tcpError_conn hsyn, tcpSendPacket_plain _ _ _ _ (by decide)]
      rfl
    have hmove : SndMoves (w.conn q) (w₁.conn q) := by
      rw [hw₁]
      exact .of_snd rfl nofun
    apply hmove.trans
    apply tcpRecvAfterSyn_moves _ _ h
    · rw [hw₁]
      exact hwin
    · rw [hw₁]
      exact fun _ hs => nomatch hs
  · rename_i hsynflag
    cases hsyn
    apply tcpRecvAfterSyn_moves hwin _ h
    exact fun hack hs haway => hhalf ⟨hs, by simpa using hin, hack, hrst, hsynflag, haway⟩

/-- What a run keeps of one connection. -/
structure SndInv (c : TcpConn) (a n : Nat) : Prop extends UnaOk c.snd a n where
  waiting : c.state = .synSent → c.snd.una = c.snd.iss

/-- The invariant behind an acknowledgement. -/
theorem SndInv.moves (h : SndInv c a n) (hm : SndMoves c c') : ∃ a', a ≤ a' ∧ SndInv c' a' n := by
  obtain ⟨a', hle, hok⟩ := h.toUnaOk.moves hm
  refine ⟨a', hle, hok, fun hs => ?_⟩
  obtain ⟨hs, hu⟩ := hm.waiting hs
  rw [hu, hm.iss]
  exact h.waiting hs

/-- Fewer than 2^31 numbers are unacknowledged. -/
theorem SndInv.unacked_lt (h : SndInv c a n) : c.unacked < 2147483648 := by
  rw [TcpConn.unacked, h.unacked]
  exact h.lt

/-- A step of the connection from the positions `a` and `n`: both numbers move forward, and
    `snd.una` to at most what `snd.nxt` was. -/
structure SndForward (c c' : TcpConn) (a n : Nat) : Prop where
  iss : c'.snd.iss = c.snd.iss
  pos : ∃ a' n', a ≤ a' ∧ a' ≤ n ∧ n ≤ n' ∧ SndInv c' a' n'

/-- An acknowledgement moves `snd.una` by what lies between, and `snd.nxt` not at all. -/
theorem SndInv.forward (h : SndInv c a n) (hm : SndMoves c c') : SndForward c c' a n := by
  obtain ⟨a', hle, hinv⟩ := h.moves hm
  exact ⟨hm.iss, a', n, hle, hinv.le, Nat.le_refl n, hinv⟩

/-- How far the two numbers have moved. -/
theorem SndForward.moved (h : SndForward c c' a n) (hinv : SndInv c a n) :
    (c'.snd.una - c.snd.una).toNat ≤ c.unacked ∧
      SndInv c' (a + (c'.snd.una - c.snd.una).toNat) (n + (c'.snd.nxt - c.snd.nxt).toNat) := by
  obtain ⟨hiss, a', n', hle, hle', hnle, hinv'⟩ := h
  have hlt := hinv.lt
  have hlt' := hinv'.lt
  have huna : (c'.snd.una - c.snd.una).toNat = a' - a := by
    rw [hinv'.una, hinv.una, hiss]
    exact num_sub_toNat c.snd.iss hle (by omega)
  have hnxt : (c'.snd.nxt - c.snd.nxt).toNat = n' - n := by
    rw [hinv'.nxt, hinv.nxt, hiss]
    exact num_sub_toNat c.snd.iss hnle (by omega)
  constructor
  · rw [huna, TcpConn.unacked, hinv.unacked]
    omega
  · rw [huna, hnxt, Nat.add_sub_of_le hle, Nat.add_sub_of_le hnle]
    exact hinv'

/-- Only the list links of a connection are written. -/
theorem Local.moves (h : Local q w w') (hne : conn ≠ q) :
    SndMoves (w.conn conn) (w'.conn conn) := by
  rcases h.conn conn hne with heq | ⟨-, -, heq⟩
  · rw [heq]
    exact .refl _
  · rw [heq]
    exact .of_snd rfl id

/-- A segment for the connection moves `snd.una` forwards. -/
theorem tcpRecvConn_moves {header : TcpHeader} {packet : Nat} (hinv : SndInv (w.conn q) a n)
    (hhalf : ¬ HalfAcks (w.conn q) header ((w.bufs.buf packet).advance header.headerLen).len32)
    (h : tcpRecvConn frames w q header packet = some w') : SndMoves (w.conn q) (w'.conn q) := by
  unfold tcpRecvConn at h
  split at h
  · rename_i hstate
    exact tcpRecvSynSent_moves hinv.unacked_lt (hinv.waiting hstate) h
  · cases h
    exact .refl _
  · dsimp only at h
    -- the received buffer is not part of a connection
    have hconn : ∀ x, (w.setBuf packet x).conn = w.conn := fun _ => rfl
    have hlen : ∀ x : NetBuf, ((w.setBuf packet x).bufs.buf packet).len32 = x.len32 := fun x => by
      simp [TcpWorld.setBuf]
    rw [← hconn]
    apply tcpRecvGeneral_moves _ _ h
    · rw [hconn]
      exact hinv.unacked_lt
    · rw [hconn, hlen]
      exact hhalf

/-- So does any segment that comes in. -/
theorem tcpDeliver_moves {src dst : Ipv4Addr} {protocol : Byte} {data : List Byte}
    (hinv : SndInv (w.conn conn) a n)
    (hhalf : RecvAll w src dst protocol data fun q =>
      q = conn → ¬ HalfAcks (w.conn conn) (TcpHeader.read data) (payloadLen data))
    (h : tcpDeliver frames w src dst protocol data = some w') :
    SndMoves (w.conn conn) (w'.conn conn) := by
  obtain ⟨b, b', w₂, rfl, hcases⟩ := tcpDeliver_cases h
  have hconn : ∀ (u : TcpWorld) x, (u.setBufs x).conn = u.conn := fun _ _ => rfl
  rw [hconn, ← hconn w b]
  -- refused, for a closed connection, or for the connection `q`
  rcases hcases with rfl | ⟨len, hclosed⟩ | ⟨q, packet, hfind, hfor, hlen, hrecv⟩
  · exact .refl _
  · rw [(tcpRecvClosed_local hclosed).2.1]
    exact .refl _
  · by_cases hq : conn = q
    · subst hq
      apply tcpRecvConn_moves (a := a) (n := n) _ _ hrecv
      · rw [hconn]
        exact hinv
      · rw [hconn]
        exact hlen ▸ hhalf conn hfind hfor rfl
    · exact (tcpRecvConn_local hrecv).moves hq

/-! ## Calls of the user -/

/-- `snd.nxt` behind a segment. -/
theorem SndInv.send {flags : BitVec 8} {data : List Byte} {state : TcpState} (h : SndInv c a n)
    (hstate : state = .synSent → c.state = .synSent) (k : Nat)
    (hk : tcpSndNxt c.snd.nxt flags data = c.snd.nxt + BitVec.ofNat 32 k)
    (hlt : c.unacked + k < 2147483648) :
    SndInv { c with state := state, snd := { c.snd with nxt := tcpSndNxt c.snd.nxt flags data } }
      a (n + k) := by
  rw [TcpConn.unacked, h.unacked] at hlt
  have hle := h.le
  refine ⟨.mk' h.una ?_ (by omega) (by omega), fun hs => h.waiting (hstate hs)⟩
  show tcpSndNxt c.snd.nxt flags data = _
  rw [hk, h.nxt, num_add]

/-- `tcp_send` moves `snd.nxt` by the length of the data. -/
theorem tcpSend_forward {data : List Byte} (h : SndInv (w.conn conn) a n)
    (hlt : q = conn → (w.conn conn).unacked + data.length < 2147483648) :
    SndForward (w.conn conn) ((tcpSend frames w q data).conn conn) a n := by
  rw [tcpSend, tcpSendPacket_conn]
  split
  · rename_i hq
    subst hq
    have hk : tcpSndNxt (w.conn conn).snd.nxt TCP_ACK data =
        (w.conn conn).snd.nxt + BitVec.ofNat 32 data.length := by
      have hflags : hasFlag TCP_ACK (TCP_SYN ||| TCP_FIN) = false := by decide
      simp [tcpSndNxt, hflags]
    have hstate : (w.conn conn).state = .synSent → (w.conn conn).state = .synSent := id
    exact ⟨rfl, a, n + data.length, Nat.le_refl a, h.le, Nat.le_add_right n _,
      h.send hstate data.length hk (hlt rfl)⟩
  · exact ⟨rfl, a, n, Nat.le_refl a, h.le, Nat.le_refl n, h⟩

/-- A FIN is sent and the state set. -/
theorem SndInv.fin {seq : BitVec 32} {state : TcpState} (h : SndInv (w.conn conn) a n)
    (hstate : state ≠ .synSent) (hlt : (w.conn conn).unacked + 1 < 2147483648) :
    SndForward (w.conn conn)
      ((tcpSetState (tcpSendPacket frames w conn seq (TCP_FIN ||| TCP_ACK) []) conn state).conn
        conn) a n := by
  rw [tcpSetState_conn, tcpSendPacket_conn, if_pos rfl]
  have hk : tcpSndNxt (w.conn conn).snd.nxt (TCP_FIN ||| TCP_ACK) [] =
      (w.conn conn).snd.nxt + BitVec.ofNat 32 1 := by
    have hflags : hasFlag (TCP_FIN ||| TCP_ACK) (TCP_SYN ||| TCP_FIN) = true := by decide
    simp [tcpSndNxt, hflags]
  exact ⟨rfl, a, n + 1, Nat.le_refl a, h.le, Nat.le_succ n,
    h.send (fun hs => absurd hs hstate) 1 hk hlt⟩

/-- `tcp_close` moves it by the FIN. -/
theorem tcpClose_forward (h : SndInv (w.conn conn) a n)
    (hlt : q = conn → (w.conn conn).unacked + 1 < 2147483648)
    (hc : tcpClose frames w q = some w') : SndForward (w.conn conn) (w'.conn conn) a n := by
  by_cases hq : conn = q
  case neg =>
    -- closing another connection writes the links of this one at most
    have hlocal : Local q w w' := by
      unfold tcpClose at hc
      split at hc
      case h_4 | h_5 | h_11 =>
        cases hc
        exact (tcpSendPacket_local ..).trans (tcpSetState_local _ q _)
      case h_1 | h_2 | h_3 => exact tcpFree_local hc
      all_goals
        cases hc
        exact local_emit_if rfl
    exact h.forward (hlocal.moves hq)
  subst hq
  unfold tcpClose at hc
  split at hc
  case h_4 | h_5 | h_11 =>
    cases hc
    exact h.fin nofun (hlt rfl)
  case h_1 | h_2 | h_3 => exact h.forward (tcpFree_moves hc)
  all_goals
    cases hc
    apply h.forward
    split
    · exact .refl _
    · exact .refl _

/-- The release of any connection acknowledges nothing. -/
theorem tcpFree_moves_all (conn : Nat) (h : tcpFree w q = some w') :
    SndMoves (w.conn conn) (w'.conn conn) := by
  by_cases hq : conn = q
  · subst hq
    exact tcpFree_moves h
  · exact (tcpFree_local h).moves hq

/-- Nor does the clock. -/
theorem tcpPollFrom_moves {fuel : Nat} (conn : Nat) (h : tcpPollFrom fuel w q = some w') :
    SndMoves (w.conn conn) (w'.conn conn) := by
  induction fuel generalizing w q with
  | zero => exact nomatch h
  | succ fuel ih =>
    rw [tcpPollFrom] at h
    split at h
    · cases h
      exact .refl _
    · dsimp only at h
      split at h
      · obtain ⟨w₁, hfree, h⟩ := Option.bind_eq_some_iff.mp h
        exact (tcpFree_moves_all conn hfree).trans (ih h)
      · exact ih h

/-! ## Every run -/

/-- The calls of a run of one connection: its structure is not connected again
    or handed out, and fewer than `2 ^ 31` numbers are unacknowledged. -/
def UnaOpOk (frames : Nat → Nat) (conn : Nat) (w : TcpWorld) : TcpOp → Prop
  | .newConn => (tcpNewConn frames w).1 ≠ conn
  | .connect p _ _ => p ≠ conn
  | .send p data => p = conn → (w.conn conn).unacked + data.length < 2147483648
  | .close p => p = conn → (w.conn conn).unacked + 1 < 2147483648
  | _ => True

instance (frames : Nat → Nat) (conn : Nat) (w : TcpWorld) (op : TcpOp) :
    Decidable (UnaOpOk frames conn w op) :=
  match op with
  | .newConn => inferInstanceAs (Decidable (_ ≠ _))
  | .connect .. => inferInstanceAs (Decidable (_ ≠ _))
  | .send .. => inferInstanceAs (Decidable (_ → _))
  | .close _ => inferInstanceAs (Decidable (_ → _))
  | .recv .. | .poll | .tick _ | .routes _ | .intf _ | .callbacks .. | .release _ => .isTrue trivial

/-- No segment acknowledges the number half the number space away. -/
def NoHalfAck (conn : Nat) (w : TcpWorld) : TcpOp → Prop
  | .recv src dst protocol data => RecvAll w src dst protocol data fun q =>
    q = conn → ¬ HalfAcks (w.conn conn) (TcpHeader.read data) (payloadLen data)
  | _ => True

instance (conn : Nat) (w : TcpWorld) (op : TcpOp) : Decidable (NoHalfAck conn w op) :=
  match op with
  | .recv .. => inferInstanceAs (Decidable (RecvAll ..))
  | .newConn | .connect .. | .send .. | .close _ | .poll | .tick _ | .routes _ | .intf _
  | .callbacks .. | .release _ => .isTrue trivial

/-- Every step that meets the condition moves both numbers forwards, and none past the other. -/
theorem tcpStep_una (hinv : SndInv (w.conn conn) a n) (hok : UnaOpOk frames conn w op)
    (hhalf : NoHalfAck conn w op) (h : tcpStep frames w op = some w') :
    SndForward (w.conn conn) (w'.conn conn) a n := by
  -- one case per step; the ones of another connection leave `snd` as it is
  cases op with
  | newConn =>
    cases h
    have hne : conn ≠ (tcpNewConn frames w).1 := fun heq => hok heq.symm
    rw [tcpNewConn_conn, if_neg hne]
    exact hinv.forward (.refl _)
  | connect p addr port =>
    obtain ⟨r, hr, rfl⟩ := Option.map_eq_some_iff.mp h
    obtain ⟨prev, hconn⟩ := (tcpConnect_conn hr).1 conn fun heq => hok heq.symm
    rw [hconn]
    exact hinv.forward (.of_snd rfl id)
  | send p data =>
    cases h
    exact tcpSend_forward hinv hok
  | close p => exact tcpClose_forward hinv hok h
  | recv src dst protocol data => exact hinv.forward (tcpDeliver_moves hinv hhalf h)
  | poll => exact hinv.forward (tcpPollFrom_moves conn h)
  | tick _ | routes _ | intf _ | release _ =>
    cases h
    exact hinv.forward (.refl _)
  | callbacks p _ _ _ _ =>
    cases h
    apply hinv.forward
    simp only [TcpWorld.setCallbacks, TcpWorld.setConn_conn]
    split
    · rename_i hp
      rw [hp]
      exact .of_snd rfl id
    · exact .refl _

/-- By how much a step has moved `snd.una` forward, modulo `2 ^ 32`. -/
def unaMoved (conn : Nat) (w w' : TcpWorld) : Nat :=
  ((w'.conn conn).snd.una - (w.conn conn).snd.una).toNat

/-- By how much a step has moved `snd.nxt` forward, modulo `2 ^ 32`. -/
def nxtMoved (conn : Nat) (w w' : TcpWorld) : Nat :=
  ((w'.conn conn).snd.nxt - (w.conn conn).snd.nxt).toNat

/-- `snd.una` has not moved backwards from `s` to `s'`, and not over `snd.nxt`. -/
structure UnaForward (s s' : TcpSndState) : Prop where
  forward : 0 ≤ seqDiff s'.una s.una
  within : (s'.una - s.una).toNat ≤ (s.nxt - s.una).toNat

/-- The same in the numbers of the connection. -/
theorem SndForward.una (h : SndForward c c' a n) (hinv : SndInv c a n) :
    UnaForward c.snd c'.snd := by
  obtain ⟨hle, -⟩ := h.moved hinv
  refine ⟨?_, hle⟩
  have hlt := hinv.unacked_lt
  rw [seqDiff, BitVec.toInt_eq_toNat_of_lt (by omega)]
  exact Int.natCast_nonneg _

/-- `tcp_connect` of the first connection after boot; the SYN has number `2 ^ 32 - 1`. -/
def TcpWorld.dialled : Option (Bool × TcpWorld) :=
  tcpConnect nextFrame (tcpNewConn nextFrame { TcpWorld.boot with baseIsn := 0xFFFFFFFF }).2 0x1000
    (.ofBytes 192 0 2 1) 80

end MishaOS
