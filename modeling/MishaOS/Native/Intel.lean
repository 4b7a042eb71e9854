import MishaOS.Native.Buf

/-!
# Intel network card

The descriptor rings of `intel.c`: `eth_intel_rx_init`, `eth_intel_tx_init`,
`eth_intel_poll` and `eth_intel_send`, with the card they share the descriptors
with.  The card owns the receive descriptors from `RDH` up to `RDT`, writes a
frame into the buffer of the one at `RDH` and sets its status; it sends the
buffers of the descriptors from `TDH` up to `TDT`.  The address in a descriptor
is the `start` of a buffer, and stands here for the buffer.
-/

namespace MishaOS

def RX_DESC_COUNT : Nat := 32
def TX_DESC_COUNT : Nat := 8

/-- `CMD_EOP | CMD_IFCS | CMD_RS` -/
def txCommand : Byte := 0x0B

def TSTA_DD : Byte := 1

/-- `eth_intel_rx_desc_t` -/
structure RxDesc where
  addr : Nat
  len : BitVec 16
  status : Byte
deriving DecidableEq, Repr

/-- `eth_intel_tx_desc_t` -/
structure TxDesc where
  addr : Nat
  len : BitVec 16
  cmd : Byte
  status : Byte
deriving DecidableEq, Repr

/-- `eth_intel_device_t`, the descriptors in place of the pointers to them. -/
structure EthIntelDevice where
  rxIndex : Nat
  txIndex : Nat
  rxDescs : Nat → RxDesc
  txDescs : Nat → TxDesc
  rxBufs : Nat → Nat
  txBufs : Nat → Nat

/-- The registers of the card, what it has written behind the `start` of a buffer, and what
    it has sent. -/
structure IntelCard where
  rxDescHead : Nat
  rxDescTail : Nat
  txDescHead : Nat
  txDescTail : Nat
  mem : Nat → List Byte
  wire : List (List Byte)

structure IntelWorld where
  device : EthIntelDevice
  card : IntelCard
  bufs : BufPool

/-! ## The card -/

/-- A frame from the wire; without a descriptor it is lost. -/
def cardReceive (w : IntelWorld) (frame : List Byte) (status : Byte) : IntelWorld :=
  let head := w.card.rxDescHead
  if head = w.card.rxDescTail then w
  else
    let desc := w.device.rxDescs head
    let rxDescs := Function.update w.device.rxDescs head
      { desc with len := BitVec.ofNat 16 frame.length, status := status }
    { w with
      device := { w.device with rxDescs := rxDescs }
      card := { w.card with
        rxDescHead := (head + 1) % RX_DESC_COUNT
        mem := Function.update w.card.mem desc.addr frame } }

/-- Send what is between head and tail, at most `n` frames. -/
def cardTransmit : Nat → IntelWorld → IntelWorld
  | 0, w => w
  | n + 1, w =>
    let head := w.card.txDescHead
    if head = w.card.txDescTail then w
    else
      let desc := w.device.txDescs head
      let frame := (w.bufs.buf desc.addr).data.take desc.len.toNat
      cardTransmit n { w with
        device := { w.device with txDescs := Function.update w.device.txDescs head { desc with
          status := TSTA_DD } }
        card := { w.card with
          txDescHead := (head + 1) % TX_DESC_COUNT
          wire := w.card.wire ++ [frame] } }

/-! ## The driver -/

/-- The loop of `eth_intel_rx_init`. -/
def rxInitLoop (frames : Nat → Nat) : (n i : Nat) → IntelWorld → IntelWorld
  | 0, _, w => w
  | n + 1, i, w =>
    let (buf, bufs) := netAllocBuf frames w.bufs
    rxInitLoop frames n (i + 1) { w with
      bufs := bufs
      device := { w.device with
        rxBufs := Function.update w.device.rxBufs i buf
        rxDescs := Function.update w.device.rxDescs i
          { w.device.rxDescs i with addr := buf, status := 0 } } }

/-- `eth_intel_rx_init`; the page of the descriptors is the first one asked for. -/
def ethIntelRxInit (frames : Nat → Nat) (w : IntelWorld) : IntelWorld :=
  let w := { w with bufs := { w.bufs with requests := w.bufs.requests + 1 } }
  let w := rxInitLoop frames RX_DESC_COUNT 0 w
  { w with
    card := { w.card with rxDescHead := 0, rxDescTail := RX_DESC_COUNT - 1 }
    device := { w.device with rxIndex := 0 } }

/-- `eth_intel_tx_init` -/
def ethIntelTxInit (w : IntelWorld) : IntelWorld :=
  { w with
    bufs := { w.bufs with requests := w.bufs.requests + 1 }
    device := { w.device with
      txDescs := fun i => { w.device.txDescs i with addr := 0, cmd := 0, status := TSTA_DD }
      txIndex := 0 }
    card := { w.card with txDescHead := 0, txDescTail := 0 } }

/-- `eth_intel_poll` up to the call of `eth_recv`: the buffer it passes on, if there is one. -/
def ethIntelPollBegin (w : IntelWorld) : Option (Nat × IntelWorld) :=
  let desc := w.device.rxDescs w.device.rxIndex
  if desc.status &&& 1 ≠ 0 then
    let buf := w.device.rxBufs w.device.rxIndex
    some (buf, { w with
      bufs := w.bufs.setBuf buf { w.bufs.buf buf with
        data := (w.card.mem buf).take desc.len.toNat, deficit := 0 } })
  else none

/-- `eth_intel_poll` behind the call of `eth_recv`. -/
def ethIntelPollEnd (frames : Nat → Nat) (w : IntelWorld) : IntelWorld :=
  let index := w.device.rxIndex
  let bufs := netFreeBuf w.bufs (w.device.rxBufs index)
  let (buf, bufs) := netAllocBuf frames bufs
  { w with
    bufs := bufs
    device := { w.device with
      rxBufs := Function.update w.device.rxBufs index buf
      rxDescs := Function.update w.device.rxDescs index
        { w.device.rxDescs index with addr := buf, status := 0 }
      rxIndex := (index + 1) % RX_DESC_COUNT }
    card := { w.card with rxDescTail := index } }

/-- `eth_intel_poll`; what the protocols do, and the card in the meantime, is `ethRecv`. -/
def ethIntelPoll (frames : Nat → Nat) (ethRecv : Nat → IntelWorld → Option IntelWorld)
    (w : IntelWorld) :
    Option IntelWorld :=
  match ethIntelPollBegin w with
  | none => some w
  | some (buf, w) => (ethRecv buf w).map (ethIntelPollEnd frames)

/-- `eth_intel_send`, which waits until the card has sent the frame. -/
def ethIntelSend (w : IntelWorld) (buf : Nat) : IntelWorld :=
  let index := w.device.txIndex
  let oldBuf := w.device.txBufs index
  let bufs := if oldBuf ≠ 0 ∧ oldBuf ≠ buf then netFreeBuf w.bufs oldBuf else w.bufs
  let len := ((bufs.buf buf).len32).setWidth 16
  let txIndex := (index + 1) % TX_DESC_COUNT
  cardTransmit TX_DESC_COUNT { w with
    bufs := bufs
    device := { w.device with
      txBufs := Function.update w.device.txBufs index buf
      txDescs := Function.update w.device.txDescs index ⟨buf, len, txCommand, 0⟩
      txIndex := txIndex }
    card := { w.card with txDescTail := txIndex } }

end MishaOS
