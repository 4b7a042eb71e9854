import MishaOS.ForStd.Checked
import MishaOS.ForStd.Ring
import MishaOS.Native.Send

/-!
# DNS

`dns.c`: the walk of `skip_host` and `dns_get_ip4_a` over a received message,
the search of `dns_recv` for the query it answers, and the bytes that
`dns_query_host` writes.  Pointers into a message are offsets from
`buf->start`; the code checks none of its reads, the model checks all of them.
`dns_dump` does nothing unless `NET_DEBUG` is defined.
-/

namespace MishaOS

open Checked

/-! ## Received messages -/

/-- The loop of `skip_host`.  Every round reads one more byte, so there are no
    more than the bytes from `ptr` on. -/
def skipHostFrom (data : List Byte) : Nat → Nat → Except Fault Nat
  | 0, ptr => .error (.outside ptr)
  | n + 1, ptr => do
    let count ← byteAt data ptr
    if 64 ≤ count.toNat then return ptr + 1 + 1
    else if 0 < count.toNat then skipHostFrom data n (ptr + 1 + count.toNat)
    else return ptr + 1

/-- `skip_host` -/
def skipHost (data : List Byte) (ptr : Nat) : Except Fault Nat :=
  skipHostFrom data (data.length - ptr) ptr

/-- The first loop of `dns_get_ip4_a`. -/
def skipQuestions (data : List Byte) : Nat → Nat → Except Fault Nat
  | 0, ptr => return ptr
  | n + 1, ptr => do
    let ptr ← skipHost data ptr
    skipQuestions data n (ptr + 4)

/-- The second loop of `dns_get_ip4_a`: the result, and what `addr` is set to. -/
def searchAnswers (addr : Ipv4Addr) (data : List Byte) :
    Nat → Nat → Except Fault (BitVec 8 × Ipv4Addr)
  | 0, _ => return (0, addr)
  | n + 1, ptr => do
    let ptr ← skipHost data ptr
    let queryType ← be16At data ptr
    let dataLen ← be16At data (ptr + 8)
    let ptr := ptr + 10
    if queryType = 1 ∧ dataLen = 4 then
      let ip ← bytesAt data ptr 4
      return (1, .read ip)
    else searchAnswers addr data n (ptr + dataLen.toNat)

/-- `dns_get_ip4_a` -/
def dnsGetIp4A (addr : Ipv4Addr) (data : List Byte) : Except Fault (BitVec 8 × Ipv4Addr) := do
  let questionCount ← be16At data 4
  let answerCount ← be16At data 6
  let ptr ← skipQuestions data questionCount.toNat 12
  searchAnswers addr data answerCount.toNat ptr

/-- `dns_recv`: the entry whose callback gets the message, if there is one, and
    the entries that still wait. -/
def dnsRecv (entryList : List DnsEntry) (data : List Byte) :
    Except Fault (Option DnsEntry × List DnsEntry) := do
  let id ← be16At data 0
  let answers (entry : DnsEntry) : Bool := entry.id = id.setWidth 32
  return (entryList.find? answers, entryList.eraseP answers)

/-! ## Queries -/

/-- The loop of `dns_query_host` over the characters at `p`: the length of a
    label is written where the dot in front of it would stand. -/
def dnsWriteHost : List Byte → (Nat → Byte) → (q labelHead : Nat) → (Nat → Byte) × Nat
  | [], mem, q, _ => (mem, q)
  | c :: p, mem, q, labelHead =>
    let ends := c = 46 ∨ c = 0
    let labelLen := q - labelHead - 1
    let mem := if ends then Function.update mem labelHead (BitVec.ofNat 8 labelLen) else mem
    let labelHead := if ends then q else labelHead
    let mem := Function.update mem q c
    if c = 0 then (mem, q + 1) else dnsWriteHost p mem (q + 1) labelHead

/-- The packet `dns_query_host` builds in a buffer that holds `mem`; a name of 256
    characters or more is not asked for. -/
def dnsQueryPacket (mem : Nat → Byte) (id : BitVec 32) (host : CString) : Option (List Byte) :=
  let mem := Ring.blit mem 0
    (be16 (id.setWidth 16) ++ be16 0x0100 ++ be16 1 ++ be16 0 ++ be16 0 ++ be16 0)
  if host.bytes.length ≥ 256 then none
  else
    let (mem, q) := dnsWriteHost (host.bytes ++ [0]) mem 13 12
    let mem := Ring.blit mem q (be16 1)
    let mem := Ring.blit mem (q + 2) (be16 1)
    some (Ring.slice mem 0 (q + 2 + 2))

end MishaOS
