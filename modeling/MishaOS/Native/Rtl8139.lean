import MishaOS.Native.Recv

/-!
# RTL8139

The receive side of `rtl8139.c`: the interrupt handler queues frames by the
`link` of their buffers, `rtl8139_poll` passes them to `eth_recv` and drops the
driver's references.  What the protocols do is a parameter `ethRecv` on a state
that contains the buffers.  `none` stands for a call that does not return.
-/

namespace MishaOS

/-- The receive queue of `rtl8139_t`. -/
structure Rtl8139 where
  rxBufs : Nat
  rxLast : Nat

/-- The receive part of `rtl8139_irq_handler`; `data` is the frame in the receive buffer. -/
def rtl8139IrqHandler (frames : Nat → Nat) (device : Rtl8139) (b : BufPool) (data : List Byte) :
    Rtl8139 × BufPool :=
  let (currentBuf, b) := netAllocBuf frames b
  let b := if device.rxLast ≠ 0 then
      b.setBuf device.rxLast { b.buf device.rxLast with link := currentBuf } else b
  let device := { device with rxLast := currentBuf }
  let device := if device.rxBufs = 0 then { device with rxBufs := currentBuf } else device
  (device, b.setBuf currentBuf { b.buf currentBuf with data := data })

/-- What a poll leaves, the frames it has passed to `eth_recv` and the buffers it has
    passed to `net_free_buf`. -/
structure Polled (σ : Type) where
  world : σ
  device : Rtl8139
  received : List Nat
  released : List Nat

/-- The first loop of `rtl8139_poll`, from `current` on. -/
def rxRecv {σ : Type} (bufs : σ → BufPool) (ethRecv : Nat → σ → Option σ) :
    Nat → σ → (current last : Nat) → Option (σ × Nat × List Nat)
  | 0, _, _, _ => none
  | n + 1, s, current, last =>
    if current = 0 then some (s, last, [])
    else do
      let s ← ethRecv current s
      let (s, last, received) ← rxRecv bufs ethRecv n s ((bufs s).buf current).link current
      some (s, last, current :: received)

/-- The second loop of `rtl8139_poll`: the buffers, `rx_bufs`, and what is released. -/
def rxRelease : Nat → BufPool → (current last : Nat) → Option (BufPool × Nat × List Nat)
  | 0, _, _, _ => none
  | n + 1, b, current, last =>
    let next := (b.buf current).link
    let b := netFreeBuf b current
    if current = last then some (b, next, [current])
    else do
      let (b, rxBufs, released) ← rxRelease n b next last
      some (b, rxBufs, current :: released)

/-- `rtl8139_poll`, with `n` rounds for each loop. -/
def rtl8139Poll {σ : Type} (bufs : σ → BufPool) (setBufs : σ → BufPool → σ)
    (ethRecv : Nat → σ → Option σ) (n : Nat) (s : σ) (device : Rtl8139) : Option (Polled σ) :=
  if device.rxBufs = 0 then some ⟨s, device, [], []⟩
  else do
    let (s, last, received) ← rxRecv bufs ethRecv n s device.rxBufs 0
    let (b, rxBufs, released) ← rxRelease n (bufs s) device.rxBufs last
    let rxLast := if device.rxLast = last then 0 else device.rxLast
    some ⟨setBufs s b, ⟨rxBufs, rxLast⟩, received, released⟩

end MishaOS
