import MishaOS.Spec.ByteOrder
import MishaOS.Spec.DhcpParse
import MishaOS.Spec.TcpWire

/-!
# DHCP messages and their answers

The messages of the format, as they are laid out in a packet: the header, the
cookie, options in any order and repeated as one likes, padding between them, the
end option and anything behind it.  `dhcp_recv` answers each of them as the last
option of each kind says.

## Key results

- `DhcpMessage.packetOptions_toBytes`: the scan finds the options of the message.
- `dhcp_recv_message`: the answer to a message.
-/

namespace MishaOS

open Checked

/-! ## The format -/

/-- The kinds of option whose value is read as an address or a word. -/
def FourBytes (type : Byte) : Prop :=
  type ∈ [OPT_SUBNET_MASK, OPT_ROUTER, OPT_DNS, OPT_LEASE_TIME, OPT_SERVER_ID]

instance (type : Byte) : Decidable (FourBytes type) := inferInstanceAs (Decidable (_ ∈ _))

inductive DhcpItem
  | pad
  | option (type : Byte) (value : List Byte) (kind : type ≠ OPT_PAD ∧ type ≠ OPT_END)
      (four : FourBytes type → 4 ≤ value.length)
        (one : type = OPT_DHCP_MESSAGE_TYPE → 1 ≤ value.length)
      (short : value.length ≤ 255)

def DhcpItem.toBytes : DhcpItem → List Byte
  | .pad => [OPT_PAD]
  | .option type value _ _ _ _ => type :: BitVec.ofNat 8 value.length :: value

/-- The type and the value of an option. -/
def DhcpItem.pair : DhcpItem → Option (Byte × List Byte)
  | .pad => none
  | .option type value _ _ _ _ => some (type, value)

structure DhcpMessage where
  opcode : Byte
  hopCount : Byte
  xid : BitVec 32
  secCount : BitVec 16
  flags : BitVec 16
  clientIpAddr : Ipv4Addr
  yourIpAddr : Ipv4Addr
  serverIpAddr : Ipv4Addr
  gatewayIpAddr : Ipv4Addr
  clientEthAddr : EthAddr
  /-- `reserved`, `server_name` and `boot_filename`. -/
  texts : List Byte
  texts_length : texts.length = 202
  items : List DhcpItem
  /-- What follows the end option. -/
  rest : List Byte

namespace DhcpMessage

/-- The header up to the hardware address. -/
def front (m : DhcpMessage) : List Byte :=
  [m.opcode, HTYPE_ETH, 6, m.hopCount] ++ be32 m.xid ++ be16 m.secCount ++ be16 m.flags ++
    m.clientIpAddr.toBytes ++ m.yourIpAddr.toBytes ++ m.serverIpAddr.toBytes ++
      m.gatewayIpAddr.toBytes ++
    m.clientEthAddr.toBytes

/-- The header and the cookie. -/
def head (m : DhcpMessage) : List Byte := m.front ++ m.texts ++ be32 MAGIC_COOKIE

def toBytes (m : DhcpMessage) : List Byte :=
  m.head ++ m.items.flatMap DhcpItem.toBytes ++ OPT_END :: m.rest

/-- The value of the last option of a type. -/
def value (m : DhcpMessage) (type : Byte) : Option (List Byte) :=
  ((m.items.filterMap DhcpItem.pair).filter (·.1 = type)).getLast?.map (·.2)

/-- The first address in an option. -/
def address (m : DhcpMessage) (type : Byte) : Option Ipv4Addr := (m.value type).map .read

/-- The message type, 0 without one. -/
def messageType (m : DhcpMessage) : BitVec 32 :=
  ((m.value OPT_DHCP_MESSAGE_TYPE).map fun v => (v.getD 0 0).setWidth 32).getD 0

/-! ## Answers -/

/-- An option with one address in it. -/
def addressItem (type : Byte) (addr : Ipv4Addr)
    (kind : type ≠ OPT_PAD ∧ type ≠ OPT_END) : DhcpItem :=
  .option type addr.toBytes kind (fun _ => Nat.le_refl 4)
    (fun _ => Nat.succ_le_succ (Nat.zero_le 3))
    (Nat.le_add_right 4 251)

def typeItem (messageType : Byte) : DhcpItem :=
  .option OPT_DHCP_MESSAGE_TYPE [messageType] (by decide) (fun h => absurd h (by decide))
    (fun _ => Nat.le_refl 1)
    (Nat.le_add_right 1 254)

/-- What a client asks for. -/
def parameterItem : DhcpItem :=
  .option OPT_PARAMETER_REQUEST [OPT_SUBNET_MASK, OPT_ROUTER, OPT_DNS] (by decide) (by decide)
    (by decide) (by decide)

/-- The server identifier is an option with a length. -/
theorem serverId_kind : OPT_SERVER_ID ≠ OPT_PAD ∧ OPT_SERVER_ID ≠ OPT_END := by decide

/-- The options of a request: its type, the server, the address and what is asked for. -/
def requestItems (server requested : Ipv4Addr) : List DhcpItem :=
  [typeItem DHCP_REQUEST, addressItem OPT_SERVER_ID server serverId_kind,
    addressItem OPT_REQUESTED_IP_ADDR requested (by decide), parameterItem]

/-- The options of a discovery. -/
def discoverItems : List DhcpItem := [typeItem DHCP_DISCOVER, parameterItem]

/-- A message of a client. -/
def fromClient (xid : BitVec 32) (client : EthAddr) (items : List DhcpItem) : DhcpMessage where
  opcode := OP_REQUEST
  hopCount := 0
  xid := xid
  secCount := 0
  flags := 0
  clientIpAddr := ipv4NullAddr
  yourIpAddr := ipv4NullAddr
  serverIpAddr := ipv4NullAddr
  gatewayIpAddr := ipv4NullAddr
  clientEthAddr := client
  texts := List.replicate 202 0
  texts_length := List.length_replicate
  items := items
  rest := []

/-- The request that takes up an offer of `server`. -/
def request (m : DhcpMessage) (server : Ipv4Addr) (client : EthAddr) : DhcpMessage :=
  fromClient m.xid client (requestItems server m.yourIpAddr)

/-- The lease that an acknowledgement gives. -/
def lease (m : DhcpMessage) : DhcpLease where
  ipAddr := m.yourIpAddr
  routes := (m.address OPT_ROUTER).toList.map (fun r => (ipv4NullAddr, ipv4NullAddr, some r)) ++
    (m.address OPT_SUBNET_MASK).toList.map (fun k => (⟨m.yourIpAddr.bits &&& k.bits⟩, k, none)) ++
    [(m.yourIpAddr, ipv4BroadcastAddr, none)]
  broadcastAddr := (m.address OPT_SUBNET_MASK).map fun k => ⟨m.yourIpAddr.bits ||| ~~~k.bits⟩
  dnsServer := m.address OPT_DNS

/-- The message is a reply to this client. -/
def For (m : DhcpMessage) (client : EthAddr) : Prop :=
  m.opcode = OP_REPLY ∧ m.clientEthAddr = client

instance (m : DhcpMessage) (client : EthAddr) : Decidable (m.For client) :=
  inferInstanceAs (Decidable (_ ∧ _))

/-- What the message is answered with; an offer that does not name its server is read
    through a null pointer. -/
def answer (m : DhcpMessage) (client : EthAddr) : Except Fault DhcpReply :=
  if m.For client then
    if m.messageType = DHCP_OFFER then
      match m.address OPT_SERVER_ID with
      | some server => .ok (.request (m.request server client).toBytes)
      | none => .error .null
    else if m.messageType = DHCP_ACK then .ok (.lease m.lease)
    else if m.messageType = DHCP_NAK then .ok .nak
    else .ok .unhandled
  else .ok .ignored

/-! ## The bytes -/

variable (m : DhcpMessage)

/-- The front of the header has 34 bytes. -/
theorem front_length : m.front.length = 34 := rfl

/-- Header and cookie. -/
theorem head_length : m.head.length = dhcpHeaderSize + 4 := by
  have hcookie : (be32 MAGIC_COOKIE).length = 4 := rfl
  rw [head, List.length_append, List.length_append, m.front_length, m.texts_length, hcookie]
  rfl

/-- A message is header, cookie, options and the end. -/
theorem toBytes_length : m.toBytes.length =
    dhcpHeaderSize + 4 + (m.items.flatMap DhcpItem.toBytes).length + (m.rest.length + 1) := by
  rw [toBytes, List.length_append, List.length_append, m.head_length, List.length_cons]

/-- The bytes of the header stand in front. -/
theorem toBytes_front : ∃ l, m.toBytes = m.front ++ l :=
  ⟨m.texts ++ be32 MAGIC_COOKIE ++ m.items.flatMap DhcpItem.toBytes ++ OPT_END :: m.rest, by
    simp only [toBytes, head, List.append_assoc]⟩

/-- The cookie is behind the header. -/
theorem toBytes_cookie : readBe32 ((m.toBytes.drop dhcpHeaderSize).take 4) = MAGIC_COOKIE := by
  have hlen : (m.front ++ m.texts).length = dhcpHeaderSize := by
    rw [List.length_append, m.front_length, m.texts_length]
    rfl
  rw [toBytes, head, List.append_assoc, List.append_assoc, ← hlen, List.drop_left]
  exact readBe32_be32 MAGIC_COOKIE []

/-- The bytes of the message are a reply for an interface when the message is. -/
theorem addressed_iff {intf : NetIntf} : Addressed intf m.toBytes ↔ m.For intf.ethAddr := by
  obtain ⟨l, hl⟩ := m.toBytes_front
  -- the first bytes and the address are where the message has them
  have hhead : m.toBytes.take 3 = [m.opcode, HTYPE_ETH, 6] := by
    rw [hl]
    rfl
  have hclient : (m.toBytes.drop 28).take 6 = m.clientEthAddr.toBytes := by
    rw [hl]
    rfl
  -- the bytes of an address determine it
  have hinj : m.clientEthAddr.toBytes = intf.ethAddr.toBytes ↔ m.clientEthAddr = intf.ethAddr := by
    constructor
    · intro h
      have hread := congrArg EthAddr.read h
      exact hread
    · intro h
      rw [h]
  constructor
  · intro h
    have hop := h.header
    have heth := h.client
    rw [hhead] at hop
    rw [hclient] at heth
    exact ⟨(List.cons.inj hop).1, hinj.mp heth⟩
  · intro ⟨hop, heth⟩
    have hlen := m.toBytes_length
    exact ⟨by omega, by rw [hhead, hop], by rw [hclient, heth], m.toBytes_cookie⟩

end DhcpMessage

/-! ## Addresses -/

/-- An address is read from its first four bytes. -/
theorem Ipv4Addr.read_take {l : List Byte} {n : Nat} (h : 4 ≤ n) :
    Ipv4Addr.read (l.take n) = Ipv4Addr.read l := by
  have hget (i : Nat) (hi : i < 4) : (l.take n).getD i 0 = l.getD i 0 := by
    rw [List.getD_eq_getElem?_getD, List.getElem?_take_of_lt (by omega), List.getD_eq_getElem?_getD]
  rw [Ipv4Addr.read, hget 0 (by decide), hget 1 (by decide), hget 2 (by decide), hget 3 (by decide)]
  rfl

/-- Four bytes are an address. -/
theorem Ipv4Addr.toBytes_read {l : List Byte} (h : l.length = 4) :
    (Ipv4Addr.read l).toBytes = l := by
  match l, h with
  | [a, b, c, d], _ =>
    show [(d ++ c ++ b ++ a).extractLsb' 0 8, (d ++ c ++ b ++ a).extractLsb' 8 8,
      (d ++ c ++ b ++ a).extractLsb' 16 8, (d ++ c ++ b ++ a).extractLsb' 24 8] = _
    congr <;> (ext i hi; simp; grind)

/-- The last option of a type has this type. -/
theorem lastOption_type {opts : List DhcpOption} {type : Byte} {o : DhcpOption}
    (h : lastOption opts type = some o) :
    o.type = type := by
  have hmem := (List.mem_filter.mp (List.mem_of_getLast? h)).2
  exact of_decide_eq_true hmem

/-! ## The scan -/

/-- The options where they stand, the first item at offset `p`. -/
def itemFields : List DhcpItem → Nat → List DhcpOption
  | [], _ => []
  | .pad :: l, p => itemFields l (p + 1)
  | .option type value _ _ _ _ :: l, p =>
    ⟨type, ⟨p + 2, value.length⟩⟩ :: itemFields l (p + 2 + value.length)

/-- The bytes of an option's value. -/
def DhcpOption.slice (data : List Byte) (o : DhcpOption) : List Byte :=
  (data.drop o.field.pos).take o.field.len

variable {data front rest : List Byte} {n : Nat}

/-- The scan finds the options and stops at the end. -/
theorem scanOptions_items (items : List DhcpItem)
    (hdata : data = front ++ items.flatMap DhcpItem.toBytes ++ OPT_END :: rest)
    (hn : (items.flatMap DhcpItem.toBytes).length < n) :
    scanOptions data n front.length = (itemFields items front.length, .done) := by
  -- option by option; the fuel is longer than what is left
  induction items generalizing front n with
  | nil =>
    obtain ⟨n, rfl⟩ := Nat.exists_eq_succ_of_ne_zero (Nat.ne_of_gt (Nat.zero_lt_of_lt hn))
    have hend : data[front.length]? = some OPT_END := by simp [hdata]
    rw [scanOptions, hend]
    rfl
  | cons item items ih =>
    obtain ⟨n, rfl⟩ := Nat.exists_eq_succ_of_ne_zero (Nat.ne_of_gt (Nat.zero_lt_of_lt hn))
    rw [List.flatMap_cons, List.length_append] at hn
    rw [List.flatMap_cons] at hdata
    cases item with
    | pad =>
      -- a pad byte is passed over
      have hpad : data[front.length]? = some OPT_PAD := by simp [hdata, DhcpItem.toBytes]
      have hrest : scanOptions data n (front ++ [OPT_PAD]).length =
          (itemFields items (front ++ [OPT_PAD]).length, .done) := by
        apply ih
        · simp [hdata, DhcpItem.toBytes]
        · rw [DhcpItem.toBytes, List.length_singleton] at hn
          omega
      rw [List.length_append, List.length_singleton] at hrest
      rw [scanOptions, hpad]
      exact hrest
    | option type value kind four one short =>
      have htype : data[front.length]? = some type := by simp [hdata, DhcpItem.toBytes]
      have hlen : data[front.length + 1]? = some (BitVec.ofNat 8 value.length) := by
        rw [hdata, List.append_assoc, List.getElem?_append_right (by omega)]
        simp [DhcpItem.toBytes]
      -- the length fits into its byte
      have hnat : (BitVec.ofNat 8 value.length).toNat = value.length := by
        rw [BitVec.toNat_ofNat]
        exact Nat.mod_eq_of_lt (by omega)
      have hfront : (front ++ type :: BitVec.ofNat 8 value.length :: value).length =
          front.length + 2 + value.length := by
        rw [List.length_append, List.length_cons, List.length_cons]
        omega
      have hroom : front.length + 2 + value.length ≤ data.length := by
        rw [← hfront, hdata, DhcpItem.toBytes]
        simp
      have hrest :
        scanOptions data n (front ++ type :: BitVec.ofNat 8 value.length :: value).length =
          (itemFields items (front ++ type :: BitVec.ofNat 8 value.length :: value).length,
            .done) := by
        apply ih
        · simp [hdata, DhcpItem.toBytes]
        · rw [DhcpItem.toBytes, List.length_cons] at hn
          omega
      rw [hfront] at hrest
      rw [scanOptions, htype]
      dsimp only
      rw [if_neg kind.1, if_neg kind.2, hlen]
      dsimp only
      rw [hnat, if_neg (by omega), hrest]
      rfl

/-- What stands in the fields. -/
theorem itemFields_slice (items : List DhcpItem)
    (hdata : data = front ++ items.flatMap DhcpItem.toBytes ++ rest) :
    (itemFields items front.length).map (fun o => (o.type, o.slice data)) =
      items.filterMap DhcpItem.pair := by
  -- option by option, with the bytes before it as the front
  induction items generalizing front with
  | nil => rfl
  | cons item items ih =>
    rw [List.flatMap_cons] at hdata
    cases item with
    | pad =>
      have hrest : (itemFields items (front ++ [OPT_PAD]).length).map (fun o =>
        (o.type, o.slice data)) =
          items.filterMap DhcpItem.pair := ih (by simp [hdata, DhcpItem.toBytes])
      rw [List.length_append, List.length_singleton] at hrest
      exact hrest
    | option type value kind four one short =>
      have hfront : (front ++ type :: BitVec.ofNat 8 value.length :: value).length =
          front.length + 2 + value.length := by
        rw [List.length_append, List.length_cons, List.length_cons]
        omega
      have hrest :
        (itemFields items (front ++ type :: BitVec.ofNat 8 value.length :: value).length).map
          (fun o => (o.type, o.slice data)) = items.filterMap DhcpItem.pair :=
        ih (by simp [hdata, DhcpItem.toBytes])
      rw [hfront] at hrest
      -- the value is behind the type and the length
      have hslice : (data.drop (front.length + 2)).take value.length = value := by
        have hsplit : data = (front ++ [type, BitVec.ofNat 8 value.length]) ++
            (value ++ (items.flatMap DhcpItem.toBytes ++ rest)) := by simp [hdata, DhcpItem.toBytes]
        have h2 : (front ++ [type, BitVec.ofNat 8 value.length]).length = front.length + 2 := by
          simp
        rw [hsplit, ← h2, List.drop_left, List.take_left]
      rw [itemFields, List.map_cons, hrest]
      show (type, (data.drop (front.length + 2)).take value.length) :: _ = _
      rw [hslice]
      rfl

/-- The lengths the format asks for. -/
theorem itemFields_fits {items : List DhcpItem} {p : Nat} {o : DhcpOption}
    (ho : o ∈ itemFields items p) :
    (FourBytes o.type → 4 ≤ o.field.len) ∧ (o.type = OPT_DHCP_MESSAGE_TYPE → 1 ≤ o.field.len) := by
  induction items generalizing p with
  | nil => cases ho
  | cons item items ih =>
    cases item with
    | pad => exact ih ho
    | option type value kind four one short =>
      obtain rfl | hmem := List.mem_cons.mp ho
      · exact ⟨four, one⟩
      · exact ih hmem

namespace DhcpMessage

variable (m : DhcpMessage)

/-- The options as they stand in the packet. -/
def fields : List DhcpOption := itemFields m.items (dhcpHeaderSize + 4)

/-- So does the scan of a message. -/
theorem packetOptions_toBytes : packetOptions m.toBytes = (m.fields, .done) := by
  rw [packetOptions, fields, ← m.head_length]
  have hlen := m.toBytes_length
  exact scanOptions_items m.items rfl (by rw [m.head_length]; omega)

/-- The last option of a type carries the value. -/
theorem lastOption_slice (type : Byte) :
    (lastOption m.fields type).map (·.slice m.toBytes) = m.value type := by
  have hpairs : m.fields.map (fun o => (o.type, o.slice m.toBytes)) =
      m.items.filterMap DhcpItem.pair := by
    rw [fields, ← m.head_length]
    exact itemFields_slice m.items rfl
  rw [value, ← hpairs, List.filter_map, List.getLast?_map, Option.map_map]
  rfl

/-- The options are in the message. -/
theorem fields_inside {o : DhcpOption} (ho : o ∈ m.fields) :
    o.field.pos + o.field.len ≤ m.toBytes.length := by
  have hscan : (packetOptions m.toBytes).1 = m.fields := by rw [m.packetOptions_toBytes]
  rw [← hscan] at ho
  exact scanOptions_inside ho

/-! ## What the client writes -/

/-- A message of the client is what `dhcp_build_header` writes, and its options. -/
theorem fromClient_toBytes (xid : BitVec 32) (client : EthAddr) (messageType : Byte)
    (items : List DhcpItem) :
    (fromClient xid client (typeItem messageType :: items)).toBytes =
      dhcpBuildHeader xid client messageType ++ items.flatMap DhcpItem.toBytes ++ [OPT_END] := by
  have hzero : be16 0 ++ be16 0 ++ ipv4NullAddr.toBytes ++ ipv4NullAddr.toBytes ++
    ipv4NullAddr.toBytes ++
      ipv4NullAddr.toBytes = List.replicate 20 0 := by decide
  have htype : (typeItem messageType).toBytes = [OPT_DHCP_MESSAGE_TYPE, 1, messageType] := rfl
  rw [dhcpBuildHeader, ← hzero]
  simp only [toBytes, head, DhcpMessage.front, fromClient, List.flatMap_cons, htype,
    List.append_assoc]

/-! ## What is read -/

variable {m} {type : Byte}

/-- An option of four bytes is an address. -/
theorem dhcpAddress_eq (hfour : FourBytes type) :
    dhcpAddress m.toBytes ((lastOption m.fields type).map (·.field)) = .ok (m.address type) := by
  rw [address, ← m.lastOption_slice]
  cases hlast : lastOption m.fields type with
  | none => rfl
  | some o =>
    have hmem := lastOption_mem hlast
    have hlen : 4 ≤ o.field.len := (itemFields_fits hmem).1 (lastOption_type hlast ▸ hfour)
    show (fieldAt m.toBytes o.field 4 >>= fun addr => return some (Ipv4Addr.read addr)) = _
    rw [fieldAt_eq (m.fields_inside hmem) hlen, ok_bind, pure_eq_ok,
      Ipv4Addr.read_take (Nat.le_refl 4)]
    show _ = Except.ok (some (Ipv4Addr.read ((m.toBytes.drop o.field.pos).take o.field.len)))
    rw [Ipv4Addr.read_take hlen]

/-- The type of the message is that of the last such option. -/
theorem messageOf_eq : messageOf m.toBytes m.fields = m.messageType := by
  rw [messageOf, messageType, ← m.lastOption_slice]
  cases hlast : lastOption m.fields OPT_DHCP_MESSAGE_TYPE with
  | none => rfl
  | some o =>
    have hlen : 1 ≤ o.field.len :=
      (itemFields_fits (lastOption_mem hlast)).2 (lastOption_type hlast)
    have hbyte : (o.slice m.toBytes).getD 0 0 = m.toBytes.getD o.field.pos 0 := by
      rw [DhcpOption.slice, List.getD_eq_getElem?_getD, List.getElem?_take_of_lt hlen,
        List.getElem?_drop,
        Nat.add_zero, List.getD_eq_getElem?_getD]
    show BitVec.setWidth 32 (m.toBytes.getD o.field.pos 0) =
      BitVec.setWidth 32 ((o.slice m.toBytes).getD 0 0)
    rw [hbyte]

/-- The fields of the header that are read. -/
theorem bytesAt_header : bytesAt m.toBytes 4 4 = .ok (be32 m.xid) ∧
    bytesAt m.toBytes 16 4 = .ok m.yourIpAddr.toBytes := by
  have h236 : dhcpHeaderSize = 236 := rfl
  have hlen := m.toBytes_length
  obtain ⟨l, hl⟩ := m.toBytes_front
  rw [bytesAt_eq (by omega), bytesAt_eq (by omega), hl]
  exact ⟨rfl, rfl⟩

/-- What an acknowledgement grants. -/
theorem dhcpAck_message : dhcpAck m.toBytes (parsedOptions m.toBytes m.fields) = .ok m.lease := by
  obtain ⟨-, hrouter, hmask, hdns⟩ := parsedOptions_pointers m.toBytes m.fields
  have hip : Ipv4Addr.read m.yourIpAddr.toBytes = m.yourIpAddr := Ipv4Addr.read_toBytes _ []
  rw [dhcpAck, bytesAt_header.2, ok_bind, hrouter, hmask, hdns, dhcpAddress_eq (by decide), ok_bind,
    dhcpAddress_eq (by decide), ok_bind, dhcpAddress_eq (by decide), ok_bind, hip]
  rfl

/-- The request that answers an offer. -/
theorem dhcpRequest_message (intf : NetIntf) :
    dhcpRequest intf m.toBytes (parsedOptions m.toBytes m.fields) =
    match m.address OPT_SERVER_ID with
    | some server => .ok (m.request server intf.ethAddr).toBytes
    | none => .error .null := by
  rw [dhcpRequest, bytesAt_header.1, ok_bind, bytesAt_header.2, ok_bind,
    (parsedOptions_pointers _ _).1, address,
    ← m.lastOption_slice]
  -- without a server id the request reads through a null pointer
  cases hlast : lastOption m.fields OPT_SERVER_ID with
  | none => rfl
  | some o =>
    have hmem := lastOption_mem hlast
    have hlen : 4 ≤ o.field.len := (itemFields_fits hmem).1 (by rw [lastOption_type hlast]; decide)
    have hin := m.fields_inside hmem
    -- four bytes of the id are copied as they are
    have hserver : (Ipv4Addr.read (o.slice m.toBytes)).toBytes =
        (m.toBytes.drop o.field.pos).take 4 := by
      rw [DhcpOption.slice, Ipv4Addr.read_take hlen, ← Ipv4Addr.read_take (Nat.le_refl 4)]
      apply Ipv4Addr.toBytes_read
      rw [List.length_take, List.length_drop]
      omega
    show (fieldAt m.toBytes o.field 4 >>= fun serverId => _) =
      Except.ok (m.request (Ipv4Addr.read (o.slice m.toBytes)) intf.ethAddr).toBytes
    rw [fieldAt_eq hin hlen, ok_bind, ← hserver, ← List.append_nil (be32 m.xid), readBe32_be32,
      request, requestItems,
      fromClient_toBytes]
    simp only [List.append_assoc, pure_eq_ok]
    rfl

end DhcpMessage

/-- `dhcp_discover` sends a message of the format. -/
theorem dhcpDiscover_message (intf : NetIntf) :
    dhcpDiscover intf =
      (DhcpMessage.fromClient 0 intf.ethAddr DhcpMessage.discoverItems).toBytes := by
  rw [DhcpMessage.discoverItems, DhcpMessage.fromClient_toBytes, List.append_assoc]
  rfl

/-- A message is answered as the last option of each kind says, whatever their order, what is
    repeated or unknown, and what lies between and behind them. -/
theorem dhcp_recv_message (intf : NetIntf) (m : DhcpMessage) :
    dhcpRecv intf m.toBytes = m.answer intf.ethAddr := by
  unfold DhcpMessage.answer
  -- a reply for this interface is parsed, anything else is not looked at
  by_cases hfor : m.For intf.ethAddr
  · have hparsed : Parsed m.toBytes .zero (packetOptions m.toBytes)
        (some (parsedOptions m.toBytes m.fields)) := by
      rw [m.packetOptions_toBytes]
      refine ⟨fun o ho => ⟨fun h => ?_, (itemFields_fits ho).2⟩, by simp, rfl⟩
      exact (itemFields_fits ho).1 (by rw [h]; decide)
    rw [if_pos hfor, dhcpRecv_addressed (m.addressed_iff.mpr hfor),
      dhcpParseLoop_eq_ok.mpr hparsed, ok_bind]
    show dhcpAnswer intf m.toBytes (parsedOptions m.toBytes m.fields) = _
    rw [dhcpAnswer, parsedOptions_messageType, DhcpMessage.messageOf_eq,
      DhcpMessage.dhcpRequest_message,
      DhcpMessage.dhcpAck_message]
    split
    · cases m.address OPT_SERVER_ID <;> rfl
    · rfl
  · rw [if_neg hfor, dhcpRecv_not_addressed (fun h => hfor (m.addressed_iff.mp h))]

end MishaOS
