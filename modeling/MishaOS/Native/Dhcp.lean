import MishaOS.ForStd.Checked
import MishaOS.Native.Arp
import MishaOS.Native.Route
import MishaOS.Native.Tcp

/-!
# DHCP

`dhcp_discover` and `dhcp_recv` of `dhcp.c`, with the option parser, the request
that answers an offer and what an acknowledgement sets.  Pointers into the packet
are offsets from `packet->start`; a pointer to an option carries the length the
option has, which the code forgets.  `dhcp_dump` does nothing unless `NET_DEBUG`
is defined.
-/

namespace MishaOS

open Checked

def OP_REQUEST : Byte := 1
def OP_REPLY : Byte := 2
def HTYPE_ETH : Byte := 1
def MAGIC_COOKIE : BitVec 32 := 0x63825363

def OPT_PAD : Byte := 0
def OPT_SUBNET_MASK : Byte := 1
def OPT_ROUTER : Byte := 3
def OPT_DNS : Byte := 6
def OPT_REQUESTED_IP_ADDR : Byte := 50
def OPT_LEASE_TIME : Byte := 51
def OPT_DHCP_MESSAGE_TYPE : Byte := 53
def OPT_SERVER_ID : Byte := 54
def OPT_PARAMETER_REQUEST : Byte := 55
def OPT_END : Byte := 255

def DHCP_DISCOVER : Byte := 1
def DHCP_OFFER : BitVec 32 := 2
def DHCP_REQUEST : Byte := 3
def DHCP_ACK : BitVec 32 := 5
def DHCP_NAK : BitVec 32 := 6

/-- `sizeof(dhcp_header_t)` -/
def dhcpHeaderSize : Nat := 236

/-- `dhcp_options_t`; the end pointers of the lists are the ends of their fields. -/
structure DhcpOptions where
  subnetMask : Option Field
  routerList : Option Field
  dnsList : Option Field
  leaseTime : BitVec 32
  messageType : BitVec 32
  serverId : Option Field
  parameterList : Option Field

/-- `memset(opt, 0, sizeof(*opt))` -/
def DhcpOptions.zero : DhcpOptions := ⟨none, none, none, 0, 0, none, none⟩

/-- The `switch` of `dhcp_parse_options`. -/
def dhcpParseOption (data : List Byte) (opt : DhcpOptions) (type : Byte) (f : Field) :
    Except Fault DhcpOptions :=
  if type = OPT_SUBNET_MASK then return { opt with subnetMask := some f }
  else if type = OPT_ROUTER then return { opt with routerList := some f }
  else if type = OPT_DNS then return { opt with dnsList := some f }
  else if type = OPT_LEASE_TIME then do
    let time ← fieldAt data f 4
    return { opt with leaseTime := readBe32 time }
  else if type = OPT_DHCP_MESSAGE_TYPE then do
    let message ← fieldAt data f 1
    return { opt with messageType := (message.getD 0 0).setWidth 32 }
  else if type = OPT_SERVER_ID then return { opt with serverId := some f }
  else if type = OPT_PARAMETER_REQUEST then return { opt with parameterList := some f }
  -- "[DHCP] unknown option"
  else return opt

/-- The loop of `dhcp_parse_options`, which takes at least one byte in a round; `none` is
    the return value 0. -/
def dhcpParseLoop (data : List Byte) : Nat → Nat → DhcpOptions → Except Fault (Option DhcpOptions)
  | 0, _, opt => return some opt
  | n + 1, ptr, opt =>
    if ptr < data.length then do
      let type ← byteAt data ptr
      if type = OPT_PAD then dhcpParseLoop data n (ptr + 1) opt
      else if type = OPT_END then return some opt
      else
        let optLen ← byteAt data (ptr + 1)
        let next := ptr + 2 + optLen.toNat
        if next > data.length then return none
        else
          let opt ← dhcpParseOption data opt type ⟨ptr + 2, optLen.toNat⟩
          dhcpParseLoop data n next opt
    else return some opt

/-- `dhcp_parse_options` -/
def dhcpParseOptions (data : List Byte) : Except Fault (Option DhcpOptions) :=
  if data.length < dhcpHeaderSize + 4 then return none
  else do
    let magicCookie ← bytesAt data dhcpHeaderSize 4
    if readBe32 magicCookie ≠ MAGIC_COOKIE then return none
    else dhcpParseLoop data (data.length - (dhcpHeaderSize + 4)) (dhcpHeaderSize + 4) .zero

/-- `dhcp_build_header` -/
def dhcpBuildHeader (xid : BitVec 32) (clientEthAddr : EthAddr) (messageType : Byte) : List Byte :=
  [OP_REQUEST, HTYPE_ETH, 6, 0] ++ be32 xid ++ List.replicate 20 0 ++ clientEthAddr.toBytes ++
    List.replicate 202 0 ++ be32 MAGIC_COOKIE ++ [OPT_DHCP_MESSAGE_TYPE, 1, messageType]

/-- `dhcp_discover`: the packet for `udp_intf_send`. -/
def dhcpDiscover (intf : NetIntf) : List Byte :=
  dhcpBuildHeader 0 intf.ethAddr DHCP_DISCOVER ++
    [OPT_PARAMETER_REQUEST, 3, OPT_SUBNET_MASK, OPT_ROUTER, OPT_DNS, OPT_END]

/-- `dhcp_request`: the packet for `udp_intf_send`. -/
def dhcpRequest (intf : NetIntf) (data : List Byte) (opt : DhcpOptions) :
    Except Fault (List Byte) := do
  let xid ← bytesAt data 4 4
  let requestedIpAddr ← bytesAt data 16 4
  let serverId ← derefAt data opt.serverId 4
  return dhcpBuildHeader (readBe32 xid) intf.ethAddr DHCP_REQUEST ++
    [OPT_SERVER_ID, 4] ++ serverId ++ [OPT_REQUESTED_IP_ADDR, 4] ++ requestedIpAddr ++
    [OPT_PARAMETER_REQUEST, 3, OPT_SUBNET_MASK, OPT_ROUTER, OPT_DNS, OPT_END]

/-- What `dhcp_ack` sets: the address of the interface, the arguments `dst`, `mask` and
    `gateway` of the calls of `net_add_route` in their order, and, if there are options
    for them, the broadcast address and `dns_server`. -/
structure DhcpLease where
  ipAddr : Ipv4Addr
  routes : List (Ipv4Addr × Ipv4Addr × Option Ipv4Addr)
  broadcastAddr : Option Ipv4Addr
  dnsServer : Option Ipv4Addr
deriving DecidableEq, Repr

/-- The address an option points to, if the option is there. -/
def dhcpAddress (data : List Byte) : Option Field → Except Fault (Option Ipv4Addr)
  | none => return none
  | some f => do
    let addr ← fieldAt data f 4
    return some (.read addr)

/-- `dhcp_ack` -/
def dhcpAck (data : List Byte) (opt : DhcpOptions) : Except Fault DhcpLease := do
  let yourIpAddr ← bytesAt data 16 4
  let ipAddr := Ipv4Addr.read yourIpAddr
  let router ← dhcpAddress data opt.routerList
  let mask ← dhcpAddress data opt.subnetMask
  let dns ← dhcpAddress data opt.dnsList
  let gatewayRoute := router.toList.map fun r => (ipv4NullAddr, ipv4NullAddr, some r)
  let subnetRoute := mask.toList.map fun m => (⟨ipAddr.bits &&& m.bits⟩, m, none)
  return {
    ipAddr := ipAddr
    routes := gatewayRoute ++ subnetRoute ++ [(ipAddr, ipv4BroadcastAddr, none)]
    broadcastAddr := mask.map fun m => ⟨ipAddr.bits ||| ~~~m.bits⟩
    dnsServer := dns }

inductive DhcpReply
  | ignored
  | request (packet : List Byte)
  | lease (x : DhcpLease)
  | nak
  | unhandled
deriving DecidableEq, Repr

/-- The `switch` of `dhcp_recv` over the message type. -/
def dhcpAnswer (intf : NetIntf) (data : List Byte) (opt : DhcpOptions) : Except Fault DhcpReply :=
  if opt.messageType = DHCP_OFFER then do
    let packet ← dhcpRequest intf data opt
    return .request packet
  else if opt.messageType = DHCP_ACK then do
    let lease ← dhcpAck data opt
    return .lease lease
  else if opt.messageType = DHCP_NAK then return .nak
  -- "DHCP message unhandled"
  else return .unhandled

/-- `dhcp_recv` -/
def dhcpRecv (intf : NetIntf) (data : List Byte) : Except Fault DhcpReply :=
  if data.length < dhcpHeaderSize then return .ignored
  else do
    let opcode ← byteAt data 0
    let htype ← byteAt data 1
    let hlen ← byteAt data 2
    if opcode ≠ OP_REPLY ∨ htype ≠ HTYPE_ETH ∨ hlen ≠ 6 then return .ignored
    else
      let clientEthAddr ← bytesAt data 28 6
      if intf.ethAddr.toBytes ≠ clientEthAddr then return .ignored
      else
        match ← dhcpParseOptions data with
        | none => return .ignored
        | some opt => dhcpAnswer intf data opt

/-! ## The host behind it -/

/-- What `dhcp_ack` writes to: the interface, `dns_server` and the routing table, whose
    routes stand in the pages of `pages`. -/
structure DhcpHost where
  intf : NetIntf
  dnsServer : Ipv4Addr
  routes : RouteTable
  pages : List Nat

/-- A call of `net_add_route` for the interface `intf`, with the page it gets. -/
def DhcpHost.addRoute (intf : Nat) (h : DhcpHost) (page : Nat)
    (route : Ipv4Addr × Ipv4Addr × Option Ipv4Addr) :
    Option DhcpHost := do
  let routes ← netAddRoute h.routes page route.1 route.2.1 route.2.2 intf
  return { h with routes := routes, pages := page :: h.pages }

/-- The writes of `dhcp_ack`, with the pages its calls of `net_add_route` get. -/
def DhcpHost.setLease (intf : Nat) (h : DhcpHost) (pages : List Nat) (x : DhcpLease) :
    Option DhcpHost := do
  let h : DhcpHost := { h with intf := { h.intf with ipAddr := x.ipAddr } }
  let h ← (pages.zip x.routes).foldlM (fun h r => h.addRoute intf r.1 r.2) h
  return { h with
    intf := { h.intf with broadcastAddr := x.broadcastAddr.getD h.intf.broadcastAddr }
    dnsServer := x.dnsServer.getD h.dnsServer }

/-- A packet that comes to the interface `intf`, from a DHCP server's port; `none` when a
    read goes wrong. -/
def DhcpHost.recv (intf : Nat) (h : DhcpHost) (data : List Byte) (pages : List Nat) :
    Option DhcpHost :=
  match dhcpRecv h.intf data with
  | .ok (.lease x) => h.setLease intf pages x
  | .ok _ => some h
  | .error _ => none

/-- The call of `net_add_route` in `loopback_init`. -/
def loopbackInit (routes : RouteTable) (page intf : Nat) : Option RouteTable :=
  netAddRoute routes page (.ofBytes 127 0 0 1) ipv4BroadcastAddr none intf

end MishaOS
