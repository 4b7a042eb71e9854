import MishaOS.ForStd.LinkedList
import MishaOS.Native.Rtl8139
import MishaOS.Spec.TcpReassembly

/-!
# Polling the receive queue

The receive queue is linked by the same field as the resequence list of TCP and
the free list.  `rtl8139_poll` walks it twice, and what it meets is what the
protocols have left in that field.

## Key results

- `rxRecv_linked`, `rxRelease_linked`: what the two loops visit.
- `rtl8139_poll_iff`: a poll is right exactly when the protocols keep the links.
-/

namespace MishaOS

open LinkedList

variable {σ : Type} {bufs : σ → BufPool} {setBufs : σ → BufPool → σ} {recv : Nat → σ → Option σ}
  {s s' : σ} {b b' : BufPool} {device : Rtl8139} {n c f last last' rxBufs : Nat} {l k : List Nat}

/-- `eth_recv` of the frames of `l` in turn leads from `s` to `s'`, and behind each call the
    frame is linked to the next one, the last frame to none. -/
def RecvLinked (bufs : σ → BufPool) (recv : Nat → σ → Option σ) : σ → List Nat → σ → Prop
  | s, [], s' => s' = s
  | s, f :: l, s' =>
    ∃ s₁, recv f s = some s₁ ∧ ((bufs s₁).buf f).link = l.headD 0 ∧ RecvLinked bufs recv s₁ l s'

/-- Each buffer of the list is linked to the one behind it. -/
def BufLinked (b : BufPool) : List Nat → Prop
  | [] => True
  | [_] => True
  | x :: y :: l => (b.buf x).link = y ∧ BufLinked b (y :: l)

/-! ## The first loop -/

theorem rxRecv_head (h : rxRecv bufs recv n s c last = some (s', last', l)) : c = l.headD 0 := by
  cases n with
  | zero => simp [rxRecv] at h
  | succ n =>
    rw [rxRecv] at h
    split at h
    · rename_i hc
      obtain ⟨-, h⟩ := Prod.mk.inj (Option.some.inj h)
      rw [← (Prod.mk.inj h).2]
      exact hc
    · simp only [Option.bind_eq_bind, Option.bind_eq_some_iff] at h
      obtain ⟨s₁, -, ⟨s₂, last₂, received⟩, -, h⟩ := h
      obtain ⟨-, h⟩ := Prod.mk.inj (Option.some.inj h)
      rw [← (Prod.mk.inj h).2]
      rfl

/-- Where the first loop passes the frames of `l` on, these are linked. -/
theorem rxRecv_linked (h : rxRecv bufs recv n s c last = some (s', last', l)) :
    RecvLinked bufs recv s l s' ∧ last' = l.getLastD last := by
  -- the induction is on the rounds; the link is read after `eth_recv` has returned
  induction n generalizing s c last l with
  | zero => simp [rxRecv] at h
  | succ n ih =>
    rw [rxRecv] at h
    split at h
    · obtain ⟨hs, h⟩ := Prod.mk.inj (Option.some.inj h)
      obtain ⟨hlast, hl⟩ := Prod.mk.inj h
      rw [← hl]
      exact ⟨hs.symm, hlast.symm⟩
    · simp only [Option.bind_eq_bind, Option.bind_eq_some_iff] at h
      obtain ⟨s₁, hrecv, ⟨s₂, last₂, received⟩, hrest, h⟩ := h
      obtain ⟨hs, h⟩ := Prod.mk.inj (Option.some.inj h)
      obtain ⟨hlast, hl⟩ := Prod.mk.inj h
      dsimp only at hs hlast hl hrest
      subst hs hlast hl
      obtain ⟨hlinked, hlast⟩ := ih hrest
      exact ⟨⟨s₁, hrecv, rxRecv_head hrest, hlinked⟩, by rw [List.getLastD_cons]; exact hlast⟩

/-- Where the frames of `l` are linked, the first loop passes them on. -/
theorem rxRecv_of_linked (h : RecvLinked bufs recv s l s') (h0 : 0 ∉ l) (hn : l.length < n) :
    rxRecv bufs recv n s (l.headD 0) last = some (s', l.getLastD last, l) := by
  induction l generalizing s last n with
  | nil =>
    obtain ⟨n, rfl⟩ : ∃ k, n = k + 1 := ⟨n - 1, by simp at hn; omega⟩
    have hs : s' = s := h
    rw [List.headD_nil, rxRecv, if_pos rfl, hs]
    rfl
  | cons f l ih =>
    obtain ⟨s₁, hrecv, hlink, hrest⟩ := h
    rw [List.length_cons] at hn
    obtain ⟨n, rfl⟩ : ∃ k, n = k + 1 := ⟨n - 1, by omega⟩
    -- a frame is not the null pointer, so the loop goes on
    have hf : f ≠ 0 := fun e => h0 (by simp [e])
    have hloop : rxRecv bufs recv n s₁ (l.headD 0) f = some (s', l.getLastD f, l) :=
      ih hrest (fun hm => h0 (List.mem_cons_of_mem _ hm)) (by omega)
    rw [List.headD_cons, rxRecv, if_neg hf, hrecv]
    simp only [Option.bind_eq_bind, Option.bind_some, hlink, hloop, List.getLastD_cons]

/-! ## The second loop -/

/-- Only the links of the visited buffers matter. -/
theorem BufLinked.congr (h : BufLinked b l) (heq : ∀ x ∈ l, b'.buf x = b.buf x) :
    BufLinked b' l := by
  induction l with
  | nil => trivial
  | cons x l ih =>
    cases l with
    | nil => trivial
    | cons y l =>
      refine ⟨by rw [heq x List.mem_cons_self]; exact h.1, ih h.2 fun z hz => ?_⟩
      exact heq z (List.mem_cons_of_mem _ hz)

/-- Where the second loop releases the buffers of `l` once each, these are linked, and
    `last` is the last of them. -/
theorem rxRelease_linked (h : rxRelease n b c last = some (b', rxBufs, l)) (hnd : l.Nodup) :
    l ≠ [] ∧ BufLinked b l ∧ c = l.headD 0 ∧ last = l.getLastD 0 := by
  induction n generalizing b c l with
  | zero => simp [rxRelease] at h
  | succ n ih =>
    rw [rxRelease] at h
    dsimp only at h
    split at h
    -- the loop ends at `last`
    · rename_i hc
      obtain ⟨-, h⟩ := Prod.mk.inj (Option.some.inj h)
      rw [← (Prod.mk.inj h).2]
      exact ⟨by simp, trivial, rfl, hc.symm⟩
    · simp only [Option.bind_eq_bind, Option.bind_eq_some_iff] at h
      obtain ⟨⟨b₂, rx₂, released⟩, hrest, h⟩ := h
      obtain ⟨hb, h⟩ := Prod.mk.inj (Option.some.inj h)
      obtain ⟨hrx, hl⟩ := Prod.mk.inj h
      dsimp only at hb hrx hl hrest
      subst hb hrx hl
      rw [List.nodup_cons] at hnd
      obtain ⟨hne, hlinked, hhead, hlast⟩ := ih hrest hnd.2
      -- a buffer that is released once does not change the links of the others
      have hkeep : BufLinked b released := hlinked.congr fun x hx =>
        (netFreeBuf_other b (ne_of_mem_of_not_mem hx hnd.1)).symm
      obtain ⟨y, l, rfl⟩ := List.exists_cons_of_ne_nil hne
      exact ⟨by simp, ⟨hhead, hkeep⟩, rfl, hlast⟩

/-- Where the buffers of `l` are linked, the second loop releases them. -/
theorem rxRelease_of_linked (h : BufLinked b l) (hnd : l.Nodup) (hne : l ≠ []) (hn : l.length ≤ n) :
    ∃ b' rxBufs, rxRelease n b (l.headD 0) (l.getLastD 0) = some (b', rxBufs, l) := by
  induction l generalizing b n with
  | nil => exact absurd rfl hne
  | cons x l ih =>
    rw [List.length_cons] at hn
    obtain ⟨n, rfl⟩ : ∃ k, n = k + 1 := ⟨n - 1, by omega⟩
    cases l with
    | nil => exact ⟨_, _, by rw [rxRelease]; exact if_pos rfl⟩
    | cons y l =>
      rw [List.nodup_cons] at hnd
      have hkeep : BufLinked (netFreeBuf b x) (y :: l) := h.2.congr fun z hz =>
        netFreeBuf_other b (ne_of_mem_of_not_mem hz hnd.1)
      obtain ⟨b', rxBufs, hrest⟩ := ih (n := n) hkeep hnd.2 (by simp) (by omega)
      have hlast : (x :: y :: l).getLastD 0 = (y :: l).getLastD 0 := by simp
      -- only the last buffer ends the loop
      have hx : x ≠ (y :: l).getLastD 0 := by
        intro e
        apply hnd.1
        rw [e, List.getLastD_cons]
        exact List.getLastD_mem_cons
      refine ⟨b', rxBufs, ?_⟩
      rw [hlast, List.headD_cons, rxRelease, if_neg hx, h.1]
      rw [List.headD_cons] at hrest
      rw [hrest]
      rfl

/-! ## A poll -/

/-- The protocols keep the links of the frames `l`: each is linked to the next one right
    after it was passed on, and at the end the links still lead through all of them. -/
def RxKept (bufs : σ → BufPool) (recv : Nat → σ → Option σ) (s : σ) (l : List Nat) : Prop :=
  ∃ s' k, RecvLinked bufs recv s l s' ∧ k.Perm l ∧ k.headD 0 = l.headD 0 ∧
    k.getLastD 0 = l.getLastD 0 ∧ BufLinked (bufs s') k

/-- A poll passes on the queued frames once each, in order, and releases each of them
    once, exactly when the protocols keep the links. -/
theorem rtl8139_poll_iff (h : Chain (fun x => ((bufs s).buf x).link) 0 device.rxBufs l) :
    (∃ n r, rtl8139Poll bufs setBufs recv n s device = some r ∧ r.received = l ∧
      r.released.Perm l) ↔
      RxKept bufs recv s l := by
  -- no frame is queued, or `f` is the first one
  cases l with
  | nil =>
    have hc : device.rxBufs = 0 := h
    refine iff_of_true ⟨0, ⟨s, device, [], []⟩, ?_, rfl, .nil⟩ ⟨s, [], rfl, .nil, rfl, rfl, trivial⟩
    rw [rtl8139Poll, if_pos hc]
  | cons f l =>
    have hf : device.rxBufs = f := h.1
    have h0 : 0 ∉ f :: l := fun hm => h.ne_null hm rfl
    have hnd := h.nodup
    have hf0 : f ≠ 0 := h.2.1
    constructor
    · rintro ⟨n, r, hr, hreceived, hreleased⟩
      rw [rtl8139Poll, hf, if_neg hf0] at hr
      simp only [Option.bind_eq_bind, Option.bind_eq_some_iff] at hr
      -- the two loops: first all frames are passed on, then all are released
      obtain ⟨⟨s', last, received⟩, hrecv, ⟨b', rxBufs, released⟩, hrelease, hr⟩ := hr
      obtain rfl := Option.some.inj hr
      dsimp only at hreceived hreleased hrecv hrelease
      subst hreceived
      obtain ⟨hlinked, hlast⟩ := rxRecv_linked hrecv
      obtain ⟨-, hkept, hhead, hend⟩ := rxRelease_linked hrelease (hreleased.nodup_iff.mpr hnd)
      exact ⟨s', released, hlinked, hreleased, hhead.symm, hend.symm.trans hlast, hkept⟩
    · rintro ⟨s', k, hlinked, hperm, hhead, hend, hkept⟩
      -- conversely, each loop goes along its list to the end
      have hlen := hperm.length_eq
      have hne : k ≠ [] := fun e => by simp [e] at hlen
      obtain ⟨b', rxBufs, hrelease⟩ := rxRelease_of_linked (n := (f :: l).length + 1) hkept
        (hperm.nodup_iff.mpr hnd) hne (by omega)
      have hrecv : rxRecv bufs recv ((f :: l).length + 1) s f 0 =
          some (s', (f :: l).getLastD 0, f :: l) :=
        rxRecv_of_linked hlinked h0 (Nat.lt_succ_self _)
      rw [hhead, hend, List.headD_cons] at hrelease
      refine ⟨(f :: l).length + 1, ⟨setBufs s' b', ⟨rxBufs,
        if device.rxLast = (f :: l).getLastD 0 then 0 else device.rxLast⟩, f :: l, k⟩,
        ?_, rfl, hperm⟩
      rw [rtl8139Poll, hf, if_neg hf0, hrecv]
      simp only [Option.bind_eq_bind, Option.bind_some, hrelease]

/-! ## Two batches -/

/-- These frames arrive one after another while the connection of `TcpWorld.connected`
    is open, and nothing polls. -/
def rxBatch (data : List (List Byte)) : Rtl8139 × TcpWorld :=
  data.foldl (fun w data =>
    let (device, b) := rtl8139IrqHandler nextFrame w.1 w.2.bufs data
    (device, w.2.setBufs b)) (⟨0, 0⟩, TcpWorld.connected 100)

/-- `eth_recv`, where only TCP does something. -/
def tcpOnly : Nat → TcpWorld → Option TcpWorld :=
  ethRecv nextFrame (fun w _ => some w) fun _ w _ => some w

/-- A frame of the peer with data. -/
def peerFrame (seq : BitVec 32) (data : List Byte) : List Byte :=
  let packet := peerPacket seq 1 TCP_ACK data
  [2, 0, 0, 0, 0, 1, 2, 0, 0, 0, 0, 2] ++ be16 ET_IPV4 ++
    ipv4Header (.ofBytes 192 0 2 1) (.ofBytes 10 0 2 15) IP_PROTOCOL_TCP
      (20 + packet.length) ++ packet

/-- Two frames that are too short are dropped by `eth_recv`, and released. -/
theorem rtl8139_poll_two_runts :
    ∃ n r, rtl8139Poll TcpWorld.bufs TcpWorld.setBufs tcpOnly n
      (rxBatch [[1], [2]]).2 (rxBatch [[1], [2]]).1 =
        some r ∧ r.received = [0x2000, 0x3000] ∧ r.released.Perm [0x2000, 0x3000] := by
  have hfirst : (rxBatch [[1], [2]]).1.rxBufs = 0x2000 := by decide +kernel
  have hlink : ((rxBatch [[1], [2]]).2.bufs.buf 0x2000).link = 0x3000 := by decide +kernel
  have hend : ((rxBatch [[1], [2]]).2.bufs.buf 0x3000).link = 0 := by decide +kernel
  have hdata : ∀ p ∈ [0x2000, 0x3000],
      ethDecodeBytes ((rxBatch [[1], [2]]).2.bufs.buf p).data = none := by
    -- `eth_recv` drops a frame without a header at once
    have hshort : ∀ p ∈ [0x2000, 0x3000], ((rxBatch [[1], [2]]).2.bufs.buf p).data.length < 14 := by
      decide +kernel
    exact fun p hp => if_pos (hshort p hp)
  generalize rxBatch [[1], [2]] = q at hfirst hlink hend hdata
  have hrecv : ∀ p ∈ [0x2000, 0x3000], tcpOnly p q.2 = some q.2 := by
    intro p hp
    simp only [tcpOnly, ethRecv, hdata p hp]
  have hchain : Chain (fun x => (q.2.bufs.buf x).link) 0 q.1.rxBufs [0x2000, 0x3000] :=
    ⟨hfirst, by decide, hlink, by decide, hend⟩
  refine (rtl8139_poll_iff hchain).mpr
    ⟨q.2, [0x2000, 0x3000], ?_, .refl _, rfl, rfl, hlink, trivial⟩
  exact ⟨q.2, hrecv _ (by simp), hlink, q.2, hrecv _ (by simp), hend, rfl⟩

/-- Two segments ahead of the stream, the later one first: TCP puts the second frame in
    front of the first one.  The first frame is passed on again, the second one is never
    released. -/
theorem rtl8139_poll_passes_twice :
    Chain (fun x => ((rxBatch [peerFrame 104 [3, 4], peerFrame 102 [1, 2]]).2.bufs.buf x).link) 0
        (rxBatch [peerFrame 104 [3, 4], peerFrame 102 [1, 2]]).1.rxBufs [0x2000, 0x3000] ∧
      ∃ r, rtl8139Poll TcpWorld.bufs TcpWorld.setBufs tcpOnly 10
          (rxBatch [peerFrame 104 [3, 4], peerFrame 102 [1, 2]]).2
          (rxBatch [peerFrame 104 [3, 4], peerFrame 102 [1, 2]]).1 = some r ∧
        r.received = [0x2000, 0x3000, 0x2000] ∧ r.released = [0x2000] := by
  constructor
  · have hfacts : (rxBatch [peerFrame 104 [3, 4], peerFrame 102 [1, 2]]).1.rxBufs = 0x2000 ∧
        ((rxBatch [peerFrame 104 [3, 4], peerFrame 102 [1, 2]]).2.bufs.buf 0x2000).link = 0x3000 ∧
        ((rxBatch [peerFrame 104 [3, 4], peerFrame 102 [1, 2]]).2.bufs.buf 0x3000).link = 0 := by
      decide +kernel
    obtain ⟨hfirst, hlink, hend⟩ := hfacts
    exact ⟨hfirst, by decide, hlink, by decide, hend⟩
  · have hsome : (rtl8139Poll TcpWorld.bufs TcpWorld.setBufs tcpOnly 10
        (rxBatch [peerFrame 104 [3, 4], peerFrame 102 [1, 2]]).2
        (rxBatch [peerFrame 104 [3, 4], peerFrame 102 [1, 2]]).1).map (fun r =>
          (r.received, r.released)) =
        some ([0x2000, 0x3000, 0x2000], [0x2000]) := by
      decide +kernel
    obtain ⟨r, hr, hfacts⟩ := Option.map_eq_some_iff.mp hsome
    exact ⟨r, hr, Prod.mk.inj hfacts⟩

end MishaOS
