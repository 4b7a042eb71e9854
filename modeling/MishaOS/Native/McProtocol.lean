import MishaOS.Native.Word
import Mathlib.Tactic.TypeStar

/-!
# Packets of the Minecraft protocol

A packet on the wire is a number, the length of the rest, then the number of
the packet, then its fields; numbers are written in groups of seven bits, the
low ones first.  `mc_read_packet` gets the bytes of a connection in chunks and
collects them in a buffer until there are as many as the length says.
-/

namespace MishaOS

/-- The memory from a pointer on. -/
abbrev Mem := Nat → Byte

/-! ## Numbers -/

-- `while (value & ~0x7F)` shifts a word of 32 bits four times at most

def varlenLoop : Nat → BitVec 32 → Nat
  | 0, _ => 1
  | n + 1, value => if value &&& ~~~0x7F ≠ 0 then varlenLoop n (value >>> 7) + 1 else 1

/-- `mc_varlen`. -/
def mcVarlen (value : BitVec 32) : Nat := varlenLoop 4 value

def varencodeLoop : Nat → BitVec 32 → List Byte
  | 0, value => [value.setWidth 8]
  | n + 1, value =>
    if value &&& ~~~0x7F ≠ 0 then ((value &&& 0x7F).setWidth 8 ||| 0x80) ::
      varencodeLoop n (value >>> 7)
    else [value.setWidth 8]

/-- The bytes `mc_varencode` writes. -/
def mcVarencode (value : BitVec 32) : List Byte := varencodeLoop 4 value

/-- The loop of `mc_vardecode`, with the rounds that are left, the bytes read and the value. -/
def vardecodeLoop (ptr : Mem) : Nat → Nat → BitVec 32 → BitVec 32 × Nat
  | 0, read, value => (value, read) -- "mc_vardecode: overflow"
  | n + 1, read, value =>
    let byte := ptr read
    let value := value ||| ((byte &&& 0x7F).setWidth 32 <<< (7 * read))
    if byte &&& 0x80 = 0 then (value, read + 1) else vardecodeLoop ptr n (read + 1) value

/-- `mc_vardecode`: the value, and how many bytes were read. -/
def mcVardecode (ptr : Mem) : BitVec 32 × Nat := vardecodeLoop ptr 5 0 0

/-! ## Receiving -/

def RX_BUF_SIZE : BitVec 32 := 16384

/-- The bytes of a call of `mc_read_packet`, and the memory behind them. -/
structure McChunk where
  data : List Byte
  behind : Mem
  length_lt : data.length < 4294967296

def McChunk.buf (c : McChunk) : Mem := fun i => c.data[i]?.getD (c.behind (i - c.data.length))

def McChunk.len (c : McChunk) : BitVec 32 := BitVec.ofNat 32 c.data.length

variable {α : Type*}

/-- `mc_packet_decoders` and `mc_packet_handlers`; decoders return packets of the type `α`. -/
structure McTables (α : Type*) where
  decoder : Nat → Option (List Byte → α)
  deallocator : Nat → Bool
  handler : Nat → Bool

/-- The calls through the tables. -/
inductive McCall (α : Type*)
  | decode (id : Nat) (payload : List Byte)
  | handle (id : Nat) (packet : α)
  | dealloc (id : Nat) (packet : α)
deriving DecidableEq

/-- `rx_ptr`, `rx_cnt`, `rx_len` and `rx_pos`, and the calls made. -/
structure McRx (α : Type*) where
  rxPtr : Mem
  rxCnt : BitVec 32
  rxLen : BitVec 32
  rxPos : BitVec 32
  calls : List (McCall α)

/-- `memcpy(dst + offset, src, len)`. -/
def memcpy (dst : Mem) (offset : Nat) (src : Mem) (len : Nat) : Mem :=
  fun i => if offset ≤ i ∧ i < offset + len then src (i - offset) else dst i

/-- The bytes from `start` to `stop`. -/
def bytesBetween (ptr : Mem) (start stop : Nat) : List Byte :=
  (List.range (stop - start)).map fun i => ptr (start + i)

/-- What is done with the packet with the number `id`, whose fields are `payload`. -/
def mcDispatch (tables : McTables α) (id : Nat) (payload : List Byte) : List (McCall α) :=
  match tables.decoder id, tables.handler id with
  | some decoder, true =>
    let packet := decoder payload
    [.decode id payload, .handle id packet] ++ if tables.deallocator id then [.dealloc id packet]
      else []
  | _, _ => []

/-- The length of a packet in memory with the bytes of the length itself: what `mc_read_packet`
    computes for `rx_len`, and once more for `packet_len`. -/
def mcPacketLen (ptr : Mem) : BitVec 32 :=
  let length := (mcVardecode ptr).1
  length + BitVec.ofNat 32 (mcVarlen length)

/-- `rx_bytes`: how many of `len` bytes the buffer takes. -/
def mcRxBytes (rxCnt len : BitVec 32) : BitVec 32 :=
  -- `int32_t overflow`
  let overflow := (RX_BUF_SIZE - (rxCnt + len)).toInt
  if overflow < 0 then if BitVec.ofInt 32 (-overflow) ≥ len then 0
    else len + BitVec.ofInt 32 overflow
  else len

/-- The end of `mc_read_packet`, with all bytes of the packet in the buffer up to `stop`. -/
def mcPacket (tables : McTables α) (rxPtr : Mem) (stop : Nat) (rxLen : BitVec 32) :
    List (McCall α) :=
  -- "Invalid packet size."
  if mcPacketLen rxPtr ≠ rxLen then []
  else
    let start := (mcVardecode rxPtr).2
    let (id, read) := mcVardecode fun i => rxPtr (start + i)
    mcDispatch tables (id.toNat % 0xFF) (bytesBetween rxPtr (start + read) stop)

/-- `mc_read_packet`. -/
def mcReadPacket (tables : McTables α) (s : McRx α) (c : McChunk) : McRx α :=
  let rxLen := if s.rxPos = 0 then mcPacketLen c.buf else s.rxLen
  let rxBytes := mcRxBytes s.rxCnt c.len
  let rxPtr := memcpy s.rxPtr s.rxCnt.toNat c.buf rxBytes.toNat
  let rxCnt := s.rxCnt + rxBytes
  let rxPos := s.rxPos + c.len
  if rxPos ≥ rxLen then
    { rxPtr := rxPtr, rxCnt := 0, rxLen := 0, rxPos := 0,
      calls := s.calls ++ mcPacket tables rxPtr rxCnt.toNat rxLen }
  else { rxPtr := rxPtr, rxCnt := rxCnt, rxLen := rxLen, rxPos := rxPos, calls := s.calls }

end MishaOS
