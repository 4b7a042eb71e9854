import MishaOS.Native.Addr
import MishaOS.Native.Buf
import Mathlib.Algebra.GroupWithZero.Nat
import Mathlib.Data.List.FinRange

/-!
# Ethernet transmission and the ARP cache

`eth_intf_send` looks up the hardware address of the next hop in the ARP cache
and hands the frame to the driver; when the address is unknown the packet
waits in the cache entry for the answer.  Calls whose effect is seen from
outside (`dev_send`, `net_free_buf`, ..) are recorded in `log`, newest first.
-/

namespace MishaOS

def ET_IPV4 : BitVec 16 := 0x0800
def ET_ARP : BitVec 16 := 0x0806
def ET_IPV6 : BitVec 16 := 0x86DD

def ARP_HTYPE_ETH : BitVec 16 := 0x01
def ARP_OP_REQUEST : BitVec 16 := 0x01
def ARP_OP_REPLY : BitVec 16 := 0x02

/-- The fields of `net_intf_t` that are read here.  `send` is `eth_intf_send`. -/
structure NetIntf where
  ethAddr : EthAddr
  ipAddr : Ipv4Addr
  broadcastAddr : Ipv4Addr
deriving DecidableEq, Repr

/-- `eth_header_t`. -/
structure EthHeader where
  dst : EthAddr
  src : EthAddr
  ethertype : BitVec 16
deriving DecidableEq, Repr

def EthHeader.toBytes (h : EthHeader) : List Byte :=
  h.dst.toBytes ++ h.src.toBytes ++ be16 h.ethertype

/-- `arp_entry_t`. -/
structure ArpEntry where
  ha : EthAddr
  pa : Ipv4Addr
  intf : Nat
  ethertype : BitVec 16
  packet : Nat
deriving DecidableEq, Repr

/-- `arp_cache`, with its `ARP_CACHE_SIZE` slots. -/
abbrev ArpCache := Fin 16 → ArpEntry

/-- The cache has a slot 0. -/
instance arpCacheSize_neZero : NeZero 16 := ⟨by decide⟩

/-- What can be observed of a run. -/
inductive NetEvent
  /-- `net_alloc_buf` returned the buffer. -/
  | alloc (packet : Nat)
  /-- `net_free_buf` was called; `shared`: another cache entry references the buffer. -/
  | freeBuf (packet : Nat) (shared : Bool)
  /-- A caller gave the packet away, to be sent to `dst`. -/
  | handIn (packet : Nat) (dst : Ipv4Addr)
  /-- The packet was put into the cache entry of `pa`. -/
  | queue (pa : Ipv4Addr) (packet : Nat)
  /-- An ARP packet of the right format arrived. -/
  | arpRecv (spa : Ipv4Addr) (sha : EthAddr)
  /-- `dev_send` of the interface was called. -/
  | devSend (intf : NetIntf) (header : EthHeader) (packet : Nat)
deriving DecidableEq, Repr

/-- The state below IPv4: the cache, the interfaces by address, the buffers. -/
structure NetWorld where
  cache : ArpCache
  intf : Nat → NetIntf
  bufs : BufPool
  log : List NetEvent

def NetWorld.emit (w : NetWorld) (e : NetEvent) : NetWorld := { w with log := e :: w.log }

def NetWorld.setEntry (w : NetWorld) (i : Fin 16) (x : ArpEntry) : NetWorld :=
  { w with cache := Function.update w.cache i x }

/-- `arp_lookup`: the first entry with this address. -/
def arpLookup (c : ArpCache) (pa : Ipv4Addr) : Option (Fin 16) :=
  (List.finRange 16).find? fun i => (c i).pa.bits = pa.bits

/-- The cache after `memcpy(arp_cache, arp_cache + 1, ..)`: the last slot keeps
    what it had. -/
def arpShift (c : ArpCache) : ArpCache :=
  fun i => if h : i.val + 1 < 16 then c ⟨i.val + 1, h⟩ else c i

/-- `arp_add`: the slot taken and the cache afterwards. -/
def arpAdd (c : ArpCache) (ha : EthAddr) (pa : Ipv4Addr) : Fin 16 × ArpCache :=
  match (List.finRange 16).find? fun i => (c i).pa.bits = 0 with
  | some i => (i, Function.update c i { c i with ha := ha, pa := pa })
  | none =>
    let c := arpShift c
    (15, Function.update c 15 { c 15 with ha := ha, pa := pa })

/-- The entry `arp_request` works on: the one of `tpa`, added if there is none. -/
def arpRequestEntry (c : ArpCache) (tpa : Ipv4Addr) : Fin 16 × ArpCache :=
  match arpLookup c tpa with
  | some i => (i, c)
  | none => arpAdd c ethNullAddr tpa

/-- `arp_lookup_eth_addr`. -/
def arpLookupEthAddr (c : ArpCache) (pa : Ipv4Addr) : Option EthAddr :=
  (arpLookup c pa).map fun i => (c i).ha

/-- `net_free_buf` of the packet an entry holds. -/
def arpFreePacket (w : NetWorld) (i : Fin 16) : NetWorld :=
  let packet := (w.cache i).packet
  let shared := (List.finRange 16).any fun j => j ≠ i ∧ (w.cache j).packet = packet
  { w with bufs := netFreeBuf w.bufs packet }.emit (.freeBuf packet shared)

/-- The end of `eth_intf_send`: write the header and call `dev_send`. -/
def ethTransmit (w : NetWorld) (intf : Nat) (dst : EthAddr) (ethertype : BitVec 16)
    (packet : Nat) : NetWorld :=
  let header : EthHeader := ⟨dst, (w.intf intf).ethAddr, ethertype⟩
  let data := header.toBytes ++ (w.bufs.buf packet).data
  { w with bufs := w.bufs.setBuf packet { w.bufs.buf packet with data := data } }.emit
    (.devSend (w.intf intf) header packet)

/-- The ARP packet `arp_send` builds. -/
def arpPacket (op : BitVec 16) (sha : EthAddr) (spa : Ipv4Addr) (tha : EthAddr) (tpa : Ipv4Addr) :
    List Byte :=
  be16 ARP_HTYPE_ETH ++ be16 ET_IPV4 ++ [6, 4] ++ be16 op ++ sha.toBytes ++ spa.toBytes ++
    tha.toBytes ++ tpa.toBytes

section Frames

-- `frames k` is what the `k`-th call of `pfa_request_page` returns.
variable (frames : Nat → Nat)

/-- `arp_send`; `intf->send` with `ET_ARP` goes straight to the driver. -/
def arpSend (w : NetWorld) (intf : Nat) (op : BitVec 16) (tha : EthAddr)
    (tpa : Ipv4Addr) : NetWorld :=
  let (packet, bufs) := netAllocBuf frames w.bufs
  let data := arpPacket op (w.intf intf).ethAddr (w.intf intf).ipAddr
    (if op = ARP_OP_REQUEST then ethNullAddr else tha) tpa
  let bufs := bufs.setBuf packet { bufs.buf packet with data := (bufs.buf packet).data ++ data }
  ethTransmit ({ w with bufs := bufs }.emit (.alloc packet)) intf tha ET_ARP packet

/-- `arp_request`. -/
def arpRequest (w : NetWorld) (intf : Nat) (tpa : Ipv4Addr) (ethertype : BitVec 16) (packet : Nat) :
    NetWorld :=
  let (i, cache) := arpRequestEntry w.cache tpa
  let w := { w with cache := cache }
  let w := if (w.cache i).packet ≠ 0 then arpFreePacket w i else w
  let w := w.setEntry i { w.cache i with intf := intf, ethertype := ethertype, packet := packet }
  arpSend frames (w.emit (.queue tpa packet)) intf ARP_OP_REQUEST ethBroadcastAddr tpa

/-- `arp_reply`. -/
def arpReply (w : NetWorld) (intf : Nat) (ha : EthAddr) (pa : Ipv4Addr) : NetWorld :=
  arpSend frames w intf ARP_OP_REPLY ha pa

/-- `eth_intf_send`; `dst` is the memory the pointer leads to. -/
def ethIntfSend (w : NetWorld) (intf : Nat) (dst : List Byte) (ethertype : BitVec 16)
    (packet : Nat) :
    NetWorld :=
  if ethertype = ET_ARP then ethTransmit w intf (EthAddr.read dst) ethertype packet
  else if ethertype = ET_IPV4 then
    let ip := Ipv4Addr.read dst
    if ip.bits = ipv4BroadcastAddr.bits ∨ ip.bits = (w.intf intf).broadcastAddr.bits then
      ethTransmit w intf ethBroadcastAddr ethertype packet
    else
      match arpLookupEthAddr w.cache ip with
      | none => arpRequest frames w intf ip ethertype packet
      | some ha => ethTransmit w intf ha ethertype packet
  else
    -- no destination address: "Dropped packet"
    w

/-- `arp_recv`, when the sender has the entry `i`; `spa` points to its address. -/
def arpRecvMerge (w : NetWorld) (sha : EthAddr) (spa : List Byte) (i : Fin 16) : NetWorld :=
  let w := w.setEntry i { w.cache i with ha := sha }
  if (w.cache i).packet ≠ 0 then
    let w := ethIntfSend frames w (w.cache i).intf spa (w.cache i).ethertype (w.cache i).packet
    w.setEntry i { w.cache i with intf := 0, ethertype := 0, packet := 0 }
  else w

/-- The end of `arp_recv`, for a packet that asks for this interface. -/
def arpRecvTarget (w : NetWorld) (intf : Nat) (merge : Bool) (op : BitVec 16) (sha : EthAddr)
    (spa : Ipv4Addr) : NetWorld :=
  let w := if merge then w else { w with cache := (arpAdd w.cache sha spa).2 }
  if op = ARP_OP_REQUEST then arpReply frames w intf sha spa else w

/-- `arp_recv` of a packet with the bytes `data`. -/
def arpRecv (w : NetWorld) (intf : Nat) (data : List Byte) : NetWorld :=
  if data.length < 8 then w
  else if readBe16 data ≠ ARP_HTYPE_ETH ∨ readBe16 (data.drop 2) ≠ ET_IPV4 ∨ data.length < 28 then w
  else
    let op := readBe16 (data.drop 6)
    let sha := EthAddr.read (data.drop 8)
    let spa := Ipv4Addr.read (data.drop 14)
    let tpa := Ipv4Addr.read (data.drop 24)
    let w := w.emit (.arpRecv spa sha)
    let (merge, w) :=
      match arpLookup w.cache spa with
      | some i => (true, arpRecvMerge frames w sha (data.drop 14) i)
      | none => (false, w)
    if tpa.bits = (w.intf intf).ipAddr.bits then arpRecvTarget frames w intf merge op sha spa else w

end Frames

end MishaOS
