import MishaOS.Native.Word

/-!
# Network addresses and byte order

`ipv4_addr_t` is a union of four bytes and one word; the code compares and
masks the word, whose first byte in memory is the least significant one.
Packets are lists of bytes; a pointer into a packet is the list from there on.
-/

namespace MishaOS

/-- `ipv4_addr_t`. -/
structure Ipv4Addr where
  bits : BitVec 32
deriving DecidableEq, Repr, Inhabited

/-- The address `a.b.c.d`. -/
def Ipv4Addr.ofBytes (a b c d : Byte) : Ipv4Addr := ⟨d ++ c ++ b ++ a⟩

def Ipv4Addr.toBytes (x : Ipv4Addr) : List Byte :=
  [x.bits.extractLsb' 0 8, x.bits.extractLsb' 8 8, x.bits.extractLsb' 16 8, x.bits.extractLsb' 24 8]

/-- The address at a pointer. -/
def Ipv4Addr.read (p : List Byte) : Ipv4Addr :=
  .ofBytes (p.getD 0 0) (p.getD 1 0) (p.getD 2 0) (p.getD 3 0)

/-- `eth_addr_t`. -/
structure EthAddr where
  a0 : Byte
  a1 : Byte
  a2 : Byte
  a3 : Byte
  a4 : Byte
  a5 : Byte
deriving DecidableEq, Repr, Inhabited

def EthAddr.toBytes (x : EthAddr) : List Byte := [x.a0, x.a1, x.a2, x.a3, x.a4, x.a5]

/-- The hardware address at a pointer. -/
def EthAddr.read (p : List Byte) : EthAddr :=
  ⟨p.getD 0 0, p.getD 1 0, p.getD 2 0, p.getD 3 0, p.getD 4 0, p.getD 5 0⟩

def ethNullAddr : EthAddr := ⟨0, 0, 0, 0, 0, 0⟩
def ethBroadcastAddr : EthAddr := ⟨0xFF, 0xFF, 0xFF, 0xFF, 0xFF, 0xFF⟩
def ipv4NullAddr : Ipv4Addr := ⟨0⟩
def ipv4BroadcastAddr : Ipv4Addr := ⟨0xFFFFFFFF⟩

/-- The bytes of `net_swap16(x)`: most significant first. -/
def be16 (x : BitVec 16) : List Byte := [x.extractLsb' 8 8, x.extractLsb' 0 8]

/-- `net_swap16` of the half word at a pointer. -/
def readBe16 (p : List Byte) : BitVec 16 := p.getD 0 0 ++ p.getD 1 0

end MishaOS
