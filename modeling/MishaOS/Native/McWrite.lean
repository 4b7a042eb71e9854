import MishaOS.ForStd.Ring
import MishaOS.Native.McProtocol
import MishaOS.Native.Vfs

/-!
# Writing and reading packets

The `mc_write_` and `mc_read_` functions of `mcprotocol.c`, and
`mc_wrap_send_packet`, which puts the number and the length of a packet in
front of the fields that were written.  Pointers are addresses in 32 bits.
-/

namespace MishaOS

open Ring

/-! ## Writing -/

/-- `tx_buf`: the memory, and the pointers to the fields written so far. -/
structure McTx where
  mem : Mem
  start : Nat
  stop : Nat

/-- Bytes are stored at `tx_buf->end`, which is moved behind them. -/
def McTx.put (tx : McTx) (l : List Byte) : McTx :=
  { tx with mem := blit tx.mem tx.stop l, stop := u32 (tx.stop + l.length) }

def mcWriteVar (tx : McTx) (value : BitVec 32) : McTx := tx.put (mcVarencode value)

def mcWriteStr (tx : McTx) (str : CString) : McTx :=
  let len := BitVec.ofNat 32 str.bytes.length
  (tx.put (mcVarencode len)).put (str.bytes.take len.toNat)

def mcWrite8 (tx : McTx) (value : BitVec 8) : McTx := tx.put [value]

def mcWrite16 (tx : McTx) (value : BitVec 16) : McTx :=
  mcWrite8 (mcWrite8 tx ((value >>> 8).setWidth 8)) (value.setWidth 8)

def mcWrite32 (tx : McTx) (value : BitVec 32) : McTx :=
  -- the shift is by 8, not by 16
  mcWrite16 (mcWrite16 tx ((value >>> 8).setWidth 16)) (value.setWidth 16)

def mcWrite64 (tx : McTx) (value : BitVec 64) : McTx :=
  mcWrite32 (mcWrite32 tx ((value >>> 32).setWidth 32)) (value.setWidth 32)

/-! ## Sending -/

def NET_BUF_START : Nat := 256

/-- What `tcp_send` gets, and the buffer that `net_alloc_buf` returns at `next`. -/
def mcSendPacket (tx : McTx) (next : Nat) : List Byte × McTx :=
  (slice tx.mem tx.start (sub32 tx.stop tx.start),
    ⟨tx.mem, u32 (next + NET_BUF_START), u32 (next + NET_BUF_START)⟩)

def mcWrapSendPacket (tx : McTx) (id : BitVec 32) (next : Nat) : List Byte × McTx :=
  -- the room in front of the fields, first for the number and then for the length
  let start := sub32 tx.start (mcVarlen id)
  let len := BitVec.ofNat 32 (sub32 tx.stop start)
  let start := sub32 start (mcVarlen len)
  let mem := blit tx.mem start (mcVarencode len)
  let mem := blit mem (u32 (start + (mcVarencode len).length)) (mcVarencode id)
  mcSendPacket ⟨mem, start, tx.stop⟩ next

/-! ## Reading -/

/-- The memory, and `buf->start`. -/
structure McBuf where
  mem : Mem
  start : Nat

def mcReadVar (b : McBuf) : BitVec 32 × McBuf :=
  let (value, read) := mcVardecode fun i => b.mem (b.start + i)
  (value, { b with start := u32 (b.start + read) })

/-- The string is copied to the block that `malloc` returns, which held `block` before. -/
def mcReadStr (b : McBuf) (block : Mem) : Mem × McBuf :=
  let (len, b) := mcReadVar b
  -- no null byte is stored behind the string
  (blit block 0 (slice b.mem b.start len.toNat), { b with start := u32 (b.start + len.toNat) })

def mcRead8 (b : McBuf) : BitVec 8 × McBuf := (b.mem b.start, { b with start := u32 (b.start + 1) })

def mcRead16 (b : McBuf) : BitVec 16 × McBuf :=
  -- the left operand first
  let (high, b) := mcRead8 b
  let (low, b) := mcRead8 b
  (high.setWidth 16 <<< 8 ||| low.setWidth 16, b)

def mcRead32 (b : McBuf) : BitVec 32 × McBuf :=
  let (high, b) := mcRead16 b
  let (low, b) := mcRead16 b
  (high.setWidth 32 <<< 16 ||| low.setWidth 32, b)

def mcRead64 (b : McBuf) : BitVec 64 × McBuf :=
  let (high, b) := mcRead32 b
  let (low, b) := mcRead32 b
  (high.setWidth 64 <<< 32 ||| low.setWidth 64, b)

/-! ## Fields one after the other -/

inductive McField
  | var (value : BitVec 32)
  | str (s : CString)
  | u8 (value : BitVec 8)
  | u16 (value : BitVec 16)
  | u32 (value : BitVec 32)
  | u64 (value : BitVec 64)
deriving DecidableEq

/-- What is read: of a string the block it was copied to. -/
inductive McValue
  | var (value : BitVec 32)
  | str (block : Mem)
  | u8 (value : BitVec 8)
  | u16 (value : BitVec 16)
  | u32 (value : BitVec 32)
  | u64 (value : BitVec 64)

def mcWriteField (tx : McTx) : McField → McTx
  | .var value => mcWriteVar tx value
  | .str s => mcWriteStr tx s
  | .u8 value => mcWrite8 tx value
  | .u16 value => mcWrite16 tx value
  | .u32 value => mcWrite32 tx value
  | .u64 value => mcWrite64 tx value

/-- A field of the same type as `f` is read; `block` is what `malloc` returns for a string. -/
def mcReadField (b : McBuf) (block : Mem) (f : McField) : McValue × McBuf :=
  match f with
  | .var _ => let (value, b) := mcReadVar b; (.var value, b)
  | .str _ => let (block, b) := mcReadStr b block; (.str block, b)
  | .u8 _ => let (value, b) := mcRead8 b; (.u8 value, b)
  | .u16 _ => let (value, b) := mcRead16 b; (.u16 value, b)
  | .u32 _ => let (value, b) := mcRead32 b; (.u32 value, b)
  | .u64 _ => let (value, b) := mcRead64 b; (.u64 value, b)

def mcWriteFields (tx : McTx) (fields : List McField) : McTx := fields.foldl mcWriteField tx

/-- The values and the pointer in the end; `blocks k` is the block for field `k`. -/
def mcReadFields (b : McBuf) (blocks : Nat → Mem) : List McField → Nat → List McValue × McBuf
  | [], _ => ([], b)
  | f :: fields, k =>
    let (value, b) := mcReadField b (blocks k) f
    let (values, b) := mcReadFields b blocks fields (k + 1)
    (value :: values, b)

end MishaOS
