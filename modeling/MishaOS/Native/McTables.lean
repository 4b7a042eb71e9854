import MishaOS.Native.McProtocol

/-!
# The tables of the Minecraft protocol

`mc_read_packet` takes the handler and the decoder of a packet from the tables
that are installed when the packet is complete.  The tables of the three
states of the protocol have different sizes.  The memory that is copied to and
the entries that are looked up are recorded.
-/

namespace MishaOS

variable {α : Type*}

/-- `mc_status_handlers` and `mc_status_decoders`, and so on. -/
inductive McTable
  | status
  | login
  | play
deriving DecidableEq

/-- How many entries a table has. -/
def McTable.size : McTable → Nat
  | .status => 0x02
  | .login => 0x05
  | .play => 0xFF

/-- `rx_cnt` and `rx_bytes`: where in the buffer `mc_read_packet` copies to, and how many bytes. -/
def mcCopy (s : McRx α) (c : McChunk) : Nat × Nat :=
  (s.rxCnt.toNat, (mcRxBytes s.rxCnt c.len).toNat)

/-- The `id` that `mc_read_packet` looks up, if it gets so far. -/
def mcLookup (s : McRx α) (c : McChunk) : Option Nat :=
  let rxLen := if s.rxPos = 0 then mcPacketLen c.buf else s.rxLen
  let (offset, count) := mcCopy s c
  let rxPtr := memcpy s.rxPtr offset c.buf count
  if s.rxPos + c.len ≥ rxLen then
    -- "Invalid packet size."
    if mcPacketLen rxPtr ≠ rxLen then none
    else
      let start := (mcVardecode rxPtr).2
      some ((mcVardecode fun i => rxPtr (start + i)).1.toNat % 0xFF)
  else none

/-- The receive path with the table that is installed, the copies made and the entries looked up. -/
structure McLink (α : Type*) where
  rx : McRx α
  table : McTable
  copies : List (Nat × Nat)
  lookups : List (McTable × Nat)

inductive McLinkOp
  /-- As `f3f5_on_ping_connect` and `f3f5_on_login_connect` do. -/
  | install (table : McTable)
  /-- A call of `mc_read_packet`. -/
  | chunk (c : McChunk)

/-- `tables` says what is in the entries of each table. -/
def mcLinkStep (tables : McTable → McTables α) (l : McLink α) : McLinkOp → McLink α
  | .install table => { l with table := table }
  | .chunk c =>
    { l with
      rx := mcReadPacket (tables l.table) l.rx c
      copies := l.copies ++ [mcCopy l.rx c]
      lookups := l.lookups ++ (mcLookup l.rx c).toList.map fun id => (l.table, id) }

def mcLinkRun (tables : McTable → McTables α) (l : McLink α) (ops : List McLinkOp) : McLink α :=
  ops.foldl (mcLinkStep tables) l

end MishaOS
