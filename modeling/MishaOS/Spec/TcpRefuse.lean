import MishaOS.Spec.TcpPeers

/-!
# A refused connection

A host without a connection for a SYN answers with a RST.  `tcp_recv_closed`
acknowledges the number of the SYN and not the one behind it, and
`tcp_recv_syn_sent` takes no such acknowledgement.

## Key results

- `tcpRecvClosed_syn`: the answer.
- `refusal_unheard`: the connection never hears of it.
-/

namespace MishaOS

variable {w : TcpWorld} {conn : Nat} {c : TcpConn}

/-- `tcp_recv_closed` answers a SYN with a RST that acknowledges its number: the SYN itself is
    not counted. -/
theorem tcpRecvClosed_syn (frames : Nat → Nat) (w : TcpWorld) (seq : BitVec 32) {route : Nat}
    (hroute : netFindRoute w.routes c.localAddr = some route)
    (hne : route ≠ 0) :
    ∃ w' r, tcpRecvClosed frames w c.localAddr c.remoteAddr (tcpSegment c seq TCP_SYN []).header
        (BitVec.ofNat 16 (tcpSegment c seq TCP_SYN []).toBytes.length) = some w' ∧
      Mirrors r c ∧ r.rcv.nxt = seq ∧ w'.sent =
        tcpSegment r 0 (TCP_RST ||| TCP_ACK) [] :: w.sent := by
  -- a SYN carries an option of four bytes
  have hlen : (tcpSegment c seq TCP_SYN []).toBytes.length = 24 := by
    rw [tcpSegment_length]
    rfl
  have hheader : (tcpSegment c seq TCP_SYN []).header.headerLen = 24 := by
    rw [tcpSegment_headerLen]
    rfl
  have hrst : hasFlag (tcpSegment c seq TCP_SYN []).header.flags TCP_RST = false := by
    show hasFlag TCP_SYN TCP_RST = false
    decide
  have hack : hasFlag (tcpSegment c seq TCP_SYN []).header.flags TCP_ACK = false := by
    show hasFlag TCP_SYN TCP_ACK = false
    decide
  unfold tcpRecvClosed
  simp only [hrst, hack, hroute, hlen, hheader, Option.map_some, hne, Bool.false_eq_true, if_false]
  refine ⟨_, _, rfl, ⟨rfl, rfl, rfl, rfl⟩, ?_, rfl⟩
  -- the length without the header is 0, so the number is that of the SYN
  show seq + ((BitVec.ofNat 16 24).zeroExtend 32 - BitVec.ofNat 32 24) = seq
  rw [show (BitVec.ofNat 16 24).zeroExtend 32 - BitVec.ofNat 32 24 = 0 by decide]
  exact BitVec.add_zero seq

/-- An acknowledgement of the initial number is not one of the SYN. -/
theorem synSentAckBad_iss {header : TcpHeader} (h : header.ack = c.snd.iss) :
    synSentAckBad c header = true := by
  have hzero : seqDiff header.ack c.snd.iss = 0 := by
    simp [seqDiff, h]
  exact decide_eq_true (.inl (Int.le_of_eq hzero))

/-- A SYN for which there is no connection: the answer finds its way back and changes nothing. -/
theorem refusal_ignored (framesA framesB : Nat → Nat) {b v : TcpWorld} {q route : Nat}
    (hq : tcpFind b c.localAddr c.localPort c.remoteAddr c.remotePort = some q)
    (hclosed : q = 0 ∨ (b.conn q).state = .closed)
    (hroute : netFindRoute b.routes c.localAddr = some route)
    (hne : route ≠ 0)
    (hfind : tcpFind v c.remoteAddr c.remotePort c.localAddr c.localPort = some conn)
    (h0 : conn ≠ 0) (hstate : (v.conn conn).state = .synSent)
    (hiss : (v.conn conn).snd.iss = c.snd.iss) :
    ∃ b₁ r v₁, tcpDeliver framesB b c.localAddr c.remoteAddr IP_PROTOCOL_TCP
        (tcpSegment c c.snd.iss TCP_SYN []).toBytes = some b₁ ∧
      segsSince b b₁ = [tcpSegment r 0 (TCP_RST ||| TCP_ACK) []] ∧
      tcpDeliver framesA v r.localAddr r.remoteAddr IP_PROTOCOL_TCP
        (tcpSegment r 0 (TCP_RST ||| TCP_ACK) []).toBytes = some v₁ ∧
      Does conn v v₁ (v.conn conn) [] [] := by
  obtain ⟨bufs, packet, -, -, hdeliver⟩ :=
    tcpDeliver_segment framesB b c c.snd.iss TCP_SYN [] (by simp)
  obtain ⟨b₁, r, hclosed₁, hmirror, hack, hsent⟩ :=
    tcpRecvClosed_syn framesB (b.setBufs bufs) c.snd.iss hroute hne
  rw [hq, Option.bind_some, if_pos hclosed, hclosed₁, Option.map_some] at hdeliver
  have hreply : ∃ v₁, tcpDeliver framesA v r.localAddr r.remoteAddr IP_PROTOCOL_TCP
      (tcpSegment r 0 (TCP_RST ||| TCP_ACK) []).toBytes = some v₁ ∧
        Does conn v v₁ (v.conn conn) [] [] := by
    apply tcpDeliver_synSent framesA 0 (TCP_RST ||| TCP_ACK) _ h0 hstate
    · intro bufs'
      refine ⟨v.setBufs bufs', ?_, .refl rfl⟩
      -- the acknowledgement is `iss`, and the test wants more
      have hbad : synSentAckBad ((v.setBufs bufs').conn conn)
          (tcpSegment r 0 (TCP_RST ||| TCP_ACK) []).header = true :=
        synSentAckBad_iss (hack.trans hiss.symm)
      have hflags : hasFlag (TCP_RST ||| TCP_ACK) TCP_ACK = true := by decide
      have hrst : hasFlag (TCP_RST ||| TCP_ACK) TCP_RST = true := by decide
      unfold tcpRecvSynSent
      rw [if_pos ⟨hflags, hbad⟩]
      exact if_pos hrst
    · rw [hmirror.localAddr, hmirror.localPort, hmirror.remoteAddr, hmirror.remotePort, hfind]
  obtain ⟨v₁, hv₁, hdoes⟩ := hreply
  exact ⟨_, r, v₁, hdeliver, segsSince_eq hsent, hv₁, hdoes⟩

/-- In every exchange of a SYN and the refusal, the connection hears of it: `TCP_CONN_RESET`
    is reported and the structure released. -/
def RefusalHeard (framesA framesB : Nat → Nat) (a a₁ b v : TcpWorld) (conn : Nat) : Prop :=
  ∀ syn ∈ segsSince a a₁, ∀ b₁ ∈ tcpDeliver framesB b syn.src syn.dst IP_PROTOCOL_TCP syn.toBytes,
    ∀ rst ∈ segsSince b b₁, ∀ v₁ ∈ tcpDeliver framesA v rst.src rst.dst IP_PROTOCOL_TCP rst.toBytes,
      .onError conn TCP_CONN_RESET ∈ callsSince v v₁ ∧ v₁.freeConnList = conn

instance (framesA framesB : Nat → Nat) (a a₁ b v : TcpWorld) (conn : Nat) :
    Decidable (RefusalHeard framesA framesB a a₁ b v conn) :=
  inferInstanceAs (Decidable (∀ syn ∈ segsSince a a₁,
    ∀ b₁ ∈ tcpDeliver framesB b syn.src syn.dst _ _,
    ∀ rst ∈ segsSince b b₁, ∀ v₁ ∈ tcpDeliver framesA v rst.src rst.dst _ _, _ ∧ _))

/-- Whatever the initial sequence number is, a refused `tcp_connect` does not hear of it.
    `v` is any later state of the connecting host in which the connection waits. -/
theorem refusal_unheard (framesA framesB : Nat → Nat) (a a₁ b v : TcpWorld) (conn : Nat)
    (addr : Ipv4Addr)
    (port : BitVec 16) (q route : Nat)
    (hconnect : tcpConnect framesA a conn addr port = some (true, a₁))
    (hq : tcpFind b (a₁.conn conn).localAddr (a₁.conn conn).localPort (a₁.conn conn).remoteAddr
      (a₁.conn conn).remotePort = some q)
    (hclosed : q = 0 ∨ (b.conn q).state = .closed)
    (hroute : netFindRoute b.routes (a₁.conn conn).localAddr = some route) (hne : route ≠ 0)
    (hfind : tcpFind v (a₁.conn conn).remoteAddr (a₁.conn conn).remotePort (a₁.conn conn).localAddr
      (a₁.conn conn).localPort = some conn)
    (h0 : conn ≠ 0) (hstate : (v.conn conn).state = .synSent)
    (hiss : (v.conn conn).snd.iss = (a₁.conn conn).snd.iss) :
    ¬ RefusalHeard framesA framesB a a₁ b v conn := by
  intro hheard
  -- the reset is taken for one that acknowledges nothing, so no callback is made
  obtain ⟨-, -, hsyn⟩ := tcpConnect_does hconnect
  obtain ⟨b₁, r, v₁, hdeliver, hrst, hreply, hdoes⟩ :=
    refusal_ignored framesA framesB hq hclosed hroute hne hfind h0 hstate hiss
  have hcall := (hheard _ (by rw [hsyn]; exact List.mem_singleton_self _) b₁ hdeliver _
    (by rw [hrst]; exact List.mem_singleton_self _) v₁ hreply).1
  rw [callsSince_eq hdoes.calls] at hcall
  exact absurd hcall List.not_mem_nil

/-- A connection with all the user's functions, ready for `tcp_connect`. -/
def TcpWorld.caller : TcpWorld := (tcpNewConn nextFrame TcpWorld.boot).2.setCallbacks 0x1000
    true true true true

/-- A host at the address that is called. -/
def TcpWorld.callee : TcpWorld :=
  { TcpWorld.boot with intf := fun _ =>
    ⟨⟨2, 0, 0, 0, 0, 2⟩, .ofBytes 192 0 2 1, .ofBytes 192 0 2 255⟩ }

theorem refusal_unheard_boot :
    ∃ a₁, tcpConnect nextFrame TcpWorld.caller 0x1000 (.ofBytes 192 0 2 1) 80 = some (true, a₁) ∧
      ¬ RefusalHeard nextFrame nextFrame TcpWorld.caller a₁ TcpWorld.callee a₁ 0x1000 := by
  have hexec : (tcpConnect nextFrame TcpWorld.caller 0x1000 (.ofBytes 192 0 2 1) 80).map (fun r =>
      (r.1, tcpFind TcpWorld.callee (r.2.conn 0x1000).localAddr (r.2.conn 0x1000).localPort
        (r.2.conn 0x1000).remoteAddr (r.2.conn 0x1000).remotePort,
        netFindRoute TcpWorld.callee.routes (r.2.conn 0x1000).localAddr,
        tcpFind r.2 (r.2.conn 0x1000).remoteAddr (r.2.conn 0x1000).remotePort
          (r.2.conn 0x1000).localAddr
          (r.2.conn 0x1000).localPort, (r.2.conn 0x1000).state)) =
      some (true, some 0, some 1, some 0x1000, .synSent) := by decide +kernel
  obtain ⟨⟨called, a₁⟩, hconnect, hres⟩ := Option.map_eq_some_iff.mp hexec
  simp only [Prod.mk.injEq] at hres
  obtain ⟨rfl, hq, hroute, hfind, hstate⟩ := hres
  exact ⟨a₁, hconnect, refusal_unheard nextFrame nextFrame TcpWorld.caller a₁
    TcpWorld.callee a₁ 0x1000
    (.ofBytes 192 0 2 1) 80 0 1 hconnect hq (.inl rfl) hroute (by decide) hfind
      (by decide) hstate rfl⟩

/-- The first connection after boot: the SYN has the number 0, and the RST acknowledges 0. -/
theorem refusal_unheard_first :
    ¬ ∀ a₁, tcpConnect nextFrame TcpWorld.caller 0x1000 (.ofBytes 192 0 2 1) 80 = some (true, a₁) →
      (segsSince TcpWorld.caller a₁).map (fun syn => syn.header.seq) = [0] →
      RefusalHeard nextFrame nextFrame TcpWorld.caller a₁ TcpWorld.callee a₁ 0x1000 := by
  intro hall
  have hexec : (tcpConnect nextFrame TcpWorld.caller 0x1000 (.ofBytes 192 0 2 1) 80).map (fun r =>
      (r.1, (segsSince TcpWorld.caller r.2).map (fun syn => syn.header.seq),
        decide (RefusalHeard nextFrame nextFrame TcpWorld.caller r.2 TcpWorld.callee r.2 0x1000))) =
      some (true, [0], false) := by decide +kernel
  obtain ⟨⟨called, a₁⟩, hconnect, hres⟩ := Option.map_eq_some_iff.mp hexec
  simp only [Prod.mk.injEq] at hres
  obtain ⟨rfl, hseq, hheard⟩ := hres
  exact of_decide_eq_false hheard (hall a₁ hconnect hseq)

end MishaOS
