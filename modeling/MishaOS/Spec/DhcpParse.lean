import MishaOS.Native.Dhcp

/-!
# Which DHCP replies are read safely

`scanOptions` lists the options of a packet by their type and length bytes alone.
The parser succeeds when the scan does not end on a type without a length and
each option it reads is long enough; later reads go through the last option of
their kind.

## Key results

- `dhcpParseLoop_eq_ok`: the parser against the scan.
- `foldl_last_write`: of repeated options the last one counts.
- `dhcp_recv_reads`: the packets that are read safely.
-/

namespace MishaOS

open Checked

structure DhcpOption where
  type : Byte
  field : Field
deriving DecidableEq, Repr

/-- How a scan ends: at an end option or behind the last byte, at an option that is longer
    than what is left, or at a type that is the last byte of the packet. -/
inductive ScanEnd
  | done
  | cut
  | noLength
deriving DecidableEq, Repr

/-- The options from offset `p` on, in at most `n` rounds. -/
def scanOptions (data : List Byte) : Nat → Nat → List DhcpOption × ScanEnd
  | 0, _ => ([], .done)
  | n + 1, p =>
    match data[p]? with
    | none => ([], .done)
    | some type =>
      if type = OPT_PAD then scanOptions data n (p + 1)
      else if type = OPT_END then ([], .done)
      else
        match data[p + 1]? with
        | none => ([], .noLength)
        | some len =>
          if p + 2 + len.toNat > data.length then ([], .cut)
          else
            let (l, e) := scanOptions data n (p + 2 + len.toNat)
            (⟨type, ⟨p + 2, len.toNat⟩⟩ :: l, e)

/-- A lease time has four bytes and a message type one. -/
def DhcpOption.Fits (o : DhcpOption) : Prop :=
  (o.type = OPT_LEASE_TIME → 4 ≤ o.field.len) ∧ (o.type = OPT_DHCP_MESSAGE_TYPE → 1 ≤ o.field.len)

/-- What the parser makes of an option that fits. -/
def setOption (data : List Byte) (opt : DhcpOptions) (o : DhcpOption) : DhcpOptions :=
  if o.type = OPT_SUBNET_MASK then { opt with subnetMask := some o.field }
  else if o.type = OPT_ROUTER then { opt with routerList := some o.field }
  else if o.type = OPT_DNS then { opt with dnsList := some o.field }
  else if o.type = OPT_LEASE_TIME then
    { opt with leaseTime := readBe32 ((data.drop o.field.pos).take 4) }
  else if o.type = OPT_DHCP_MESSAGE_TYPE then
    { opt with messageType := (data.getD o.field.pos 0).setWidth 32 }
  else if o.type = OPT_SERVER_ID then { opt with serverId := some o.field }
  else if o.type = OPT_PARAMETER_REQUEST then { opt with parameterList := some o.field }
  else opt

variable {data : List Byte} {opt opt' : DhcpOptions} {o : DhcpOption} {n p : Nat}

/-! ## The parser -/

/-- An option that fits is stored. -/
theorem dhcpParseOption_fits (hin : o.field.pos + o.field.len ≤ data.length) (hfit : o.Fits) :
    dhcpParseOption data opt o.type o.field = .ok (setOption data opt o) := by
  unfold dhcpParseOption setOption
  split
  · rfl
  split
  · rfl
  split
  · rfl
  split
  -- The value is read through the option, so it has to be long enough.
  · rename_i hlease
    rw [fieldAt_eq hin (hfit.1 hlease)]
    rfl
  split
  · rename_i hmsg
    rw [fieldAt_eq hin (hfit.2 hmsg), ok_bind]
    simp [List.getD_eq_getElem?_getD]
  split
  · rfl
  split <;> rfl

/-- Reading an option that is too short leaves it. -/
theorem dhcpParseOption_short (hfit : ¬ o.Fits) :
    dhcpParseOption data opt o.type o.field ≠ .ok opt' := by
  -- An option that is too short for its value is read beyond its end.
  intro h
  apply hfit
  constructor
  · intro hlease
    by_contra hshort
    simp [dhcpParseOption, hlease, fieldAt_short (Nat.lt_of_not_le hshort), OPT_LEASE_TIME,
      OPT_SUBNET_MASK,
      OPT_ROUTER, OPT_DNS, bind, Except.bind] at h
  · intro hmsg
    by_contra hshort
    simp [dhcpParseOption, hmsg, fieldAt_short (Nat.lt_of_not_le hshort), OPT_DHCP_MESSAGE_TYPE,
      OPT_LEASE_TIME,
      OPT_SUBNET_MASK, OPT_ROUTER, OPT_DNS, bind, Except.bind] at h

/-- The options of a scan lie inside the packet. -/
theorem scanOptions_inside (ho : o ∈ (scanOptions data n p).1) :
    o.field.pos + o.field.len ≤ data.length := by
  induction n generalizing p with
  | zero => simp [scanOptions] at ho
  | succ n ih =>
    unfold scanOptions at ho
    split at ho
    · simp at ho
    · split at ho
      · exact ih ho
      · split at ho
        · simp at ho
        · split at ho
          · simp at ho
          · split at ho
            · simp at ho
            -- The bounds test of the loop keeps the option inside the packet.
            · rename_i hnext
              rcases List.mem_cons.mp ho with rfl | ho
              · exact Nat.le_of_not_lt hnext
              · exact ih ho

/-- The result `r` of parsing what a scan found. -/
structure Parsed (data : List Byte) (opt : DhcpOptions) (scan : List DhcpOption × ScanEnd)
    (r : Option DhcpOptions) : Prop where
  fits : ∀ o ∈ scan.1, o.Fits
  length : scan.2 ≠ .noLength
  result : r = if scan.2 = .done then some (scan.1.foldl (setOption data) opt) else none

/-- The loop reads what the scan finds. -/
theorem dhcpParseLoop_eq_ok {r : Option DhcpOptions} :
    dhcpParseLoop data n p opt = .ok r ↔ Parsed data opt (scanOptions data n p) r := by
  -- An end of the options, or the end of the packet: what was found so far.
  have hnil : ∀ opt, (.ok (some opt) : Except Fault (Option DhcpOptions)) = .ok r ↔
      Parsed data opt ([], .done) r := by
    intro opt
    constructor
    · intro h
      exact ⟨by simp, by simp, (Except.ok.inj h).symm⟩
    · intro h
      exact congrArg Except.ok h.result.symm
  induction n generalizing p opt with
  | zero => exact hnil opt
  | succ n ih =>
    unfold dhcpParseLoop scanOptions
    by_cases hp : p < data.length
    · have htype : data[p]? = some data[p] := List.getElem?_eq_getElem hp
      rw [if_pos hp, byteAt_eq_ok.mpr htype, ok_bind, htype]
      dsimp only
      generalize data[p] = type
      -- The branches of the loop, in its order: padding, the end, the length byte, the bounds test.
      by_cases hpad : type = OPT_PAD
      · rw [if_pos hpad, if_pos hpad]
        exact ih
      rw [if_neg hpad, if_neg hpad]
      by_cases hend : type = OPT_END
      · rw [if_pos hend, if_pos hend]
        exact hnil opt
      rw [if_neg hend, if_neg hend]
      by_cases hlen : p + 1 < data.length
      · have hopt : data[p + 1]? = some data[p + 1] := List.getElem?_eq_getElem hlen
        rw [byteAt_eq_ok.mpr hopt, ok_bind, hopt]
        dsimp only
        generalize data[p + 1].toNat = len
        by_cases hcut : p + 2 + len > data.length
        · rw [if_pos hcut, if_pos hcut]
          constructor
          · intro h
            exact ⟨by simp, by simp, (Except.ok.inj h).symm⟩
          · intro h
            exact congrArg Except.ok h.result.symm
        rw [if_neg hcut, if_neg hcut]
        -- one option, then the rest of the scan
        have hmem : ∀ (x : DhcpOption) l, (∀ y ∈ x :: l, y.Fits) ↔ x.Fits ∧ ∀ y ∈ l, y.Fits := by
          simp
        by_cases hfit : (⟨type, ⟨p + 2, len⟩⟩ : DhcpOption).Fits
        · have hone : dhcpParseOption data opt type ⟨p + 2, len⟩ =
              .ok (setOption data opt ⟨type, ⟨p + 2, len⟩⟩) :=
            dhcpParseOption_fits (o := ⟨type, ⟨p + 2, len⟩⟩) (Nat.le_of_not_lt hcut) hfit
          rw [hone, ok_bind]
          refine ih.trans ?_
          constructor
          · intro h
            exact ⟨(hmem _ _).mpr ⟨hfit, h.fits⟩, h.length, h.result⟩
          · intro h
            exact ⟨((hmem _ _).mp h.fits).2, h.length, h.result⟩
        · constructor
          · intro h
            obtain ⟨opt', hopt', -⟩ := bind_eq_ok.mp h
            exact absurd hopt' (dhcpParseOption_short (o := ⟨type, ⟨p + 2, len⟩⟩) hfit)
          · intro h
            exact absurd (h.fits _ List.mem_cons_self) hfit
      -- A type without a length byte is read over the end of the packet.
      · rw [byteAt_outside (by omega), List.getElem?_eq_none (by omega)]
        constructor
        · intro h
          cases h
        · intro h
          exact absurd rfl h.length
    · rw [if_neg hp, List.getElem?_eq_none (by omega)]
      exact hnil opt

/-! ## The last option of a kind -/

/-- Of several writes in a loop the last one counts. -/
theorem foldl_last_write {σ α β : Type} {f : σ → α → σ} {g : σ → β} {P : α → Bool} {w : α → β}
    (h : ∀ s a, g (f s a) = if P a then w a else g s) (l : List α) (s : σ) :
    g (l.foldl f s) = ((l.filter P).getLast?.map w).getD (g s) := by
  induction l generalizing s with
  | nil => rfl
  | cons a l ih =>
    -- The first write counts if no later one does.
    rw [List.foldl_cons, ih, h]
    by_cases ha : P a = true
    · rw [if_pos ha, List.filter_cons_of_pos ha, List.getLast?_cons]
      cases (l.filter P).getLast? <;> rfl
    · rw [if_neg ha, List.filter_cons_of_neg ha]

def lastOption (opts : List DhcpOption) (type : Byte) : Option DhcpOption :=
  (opts.filter (·.type = type)).getLast?

/-- The value of the last message type option, 0 without one. -/
def messageOf (data : List Byte) (opts : List DhcpOption) : BitVec 32 :=
  ((lastOption opts OPT_DHCP_MESSAGE_TYPE).map fun o => (data.getD o.field.pos 0).setWidth 32).getD
    0

/-- The options the parser fills in. -/
def parsedOptions (data : List Byte) (opts : List DhcpOption) : DhcpOptions :=
  opts.foldl (setOption data) .zero

/-- Of several options of one type the last one counts. -/
theorem parsedOptions_field {g : DhcpOptions → Option Field} {type : Byte}
    (hset : ∀ opt o, g (setOption data opt o) = if o.type = type then some o.field else g opt)
    (hzero : g .zero = none) (opts : List DhcpOption) :
    g (parsedOptions data opts) = (lastOption opts type).map (·.field) := by
  have hlast := foldl_last_write (f := setOption data) (g := g) (P := fun o => o.type = type)
    (w := fun o => some o.field) (by simpa using hset) opts .zero
  rw [hzero] at hlast
  unfold parsedOptions
  rw [hlast]
  show ((lastOption opts type).map fun o => some o.field).getD none = _
  cases lastOption opts type <;> rfl

/-- The pointers the parser keeps are those of the last options of their kind. -/
theorem parsedOptions_pointers (data : List Byte) (opts : List DhcpOption) :
    (parsedOptions data opts).serverId = (lastOption opts OPT_SERVER_ID).map (·.field) ∧
      (parsedOptions data opts).routerList = (lastOption opts OPT_ROUTER).map (·.field) ∧
      (parsedOptions data opts).subnetMask = (lastOption opts OPT_SUBNET_MASK).map (·.field) ∧
      (parsedOptions data opts).dnsList = (lastOption opts OPT_DNS).map (·.field) := by
  -- Each pointer is written by one kind of option only.
  refine ⟨parsedOptions_field ?_ rfl opts, parsedOptions_field ?_ rfl opts,
    parsedOptions_field ?_ rfl opts,
    parsedOptions_field ?_ rfl opts⟩
  all_goals
    intro opt o
    grind [setOption, OPT_SERVER_ID, OPT_SUBNET_MASK, OPT_ROUTER, OPT_DNS, OPT_LEASE_TIME,
      OPT_DHCP_MESSAGE_TYPE]

/-- So does the last message type. -/
theorem parsedOptions_messageType (opts : List DhcpOption) :
    (parsedOptions data opts).messageType = messageOf data opts := by
  have hset : ∀ opt o, (setOption data opt o).messageType =
      if (fun o : DhcpOption => decide (o.type = OPT_DHCP_MESSAGE_TYPE)) o = true then
        (data.getD o.field.pos 0).setWidth 32 else opt.messageType := by
    intro opt o
    grind [setOption, OPT_SUBNET_MASK, OPT_ROUTER, OPT_DNS, OPT_LEASE_TIME, OPT_DHCP_MESSAGE_TYPE]
  exact foldl_last_write hset opts .zero

/-- It is one of the options. -/
theorem lastOption_mem {opts : List DhcpOption} {type : Byte}
    (h : lastOption opts type = some o) : o ∈ opts :=
  (List.mem_filter.mp (List.mem_of_getLast? h)).1

/-! ## Answers -/

/-- What the answer to a message needs: the server's id for an offer, and for an
    acknowledgement four bytes in each address that is given. -/
structure AnswerReads (data : List Byte) (opts : List DhcpOption) : Prop where
  offer : messageOf data opts = DHCP_OFFER → ∃ o, lastOption opts OPT_SERVER_ID = some o ∧
    4 ≤ o.field.len
  ack : messageOf data opts = DHCP_ACK → ∀ type ∈ [OPT_ROUTER, OPT_SUBNET_MASK, OPT_DNS],
    ∀ o, lastOption opts type = some o → 4 ≤ o.field.len

variable {opts : List DhcpOption} {intf : NetIntf}

/-- An address can be read from an option of four bytes. -/
theorem dhcpAddress_reads (hin : ∀ o ∈ opts, o.field.pos + o.field.len ≤ data.length)
    (type : Byte) :
    (∃ x, dhcpAddress data ((lastOption opts type).map (·.field)) = .ok x) ↔
      ∀ o, lastOption opts type = some o → 4 ≤ o.field.len := by
  -- Without the option the address is null and nothing is read.
  cases hlast : lastOption opts type with
  | none => simp [dhcpAddress]
  | some o =>
    have hpos := hin o (lastOption_mem hlast)
    by_cases hlen : 4 ≤ o.field.len
    · simp [dhcpAddress, fieldAt_eq hpos hlen, hlen]
    · simp [dhcpAddress, fieldAt_short (Nat.lt_of_not_le hlen), hlen, bind, Except.bind]

/-- A request can be built when the offer names its server. -/
theorem dhcpRequest_reads (hlen : dhcpHeaderSize ≤ data.length)
    (hin : ∀ o ∈ opts, o.field.pos + o.field.len ≤ data.length) :
    (∃ x, dhcpRequest intf data (parsedOptions data opts) = .ok x) ↔
      ∃ o, lastOption opts OPT_SERVER_ID = some o ∧ 4 ≤ o.field.len := by
  -- The header fields lie inside; only the server's id may not, or may be missing.
  have h236 : dhcpHeaderSize = 236 := rfl
  rw [dhcpRequest, bytesAt_eq (by omega), ok_bind, bytesAt_eq (by omega), ok_bind,
    (parsedOptions_pointers data opts).1]
  cases hlast : lastOption opts OPT_SERVER_ID with
  | none => simp [derefAt, bind, Except.bind]
  | some o =>
    have hpos := hin o (lastOption_mem hlast)
    by_cases hfit : 4 ≤ o.field.len
    · simp [derefAt, fieldAt_eq hpos hfit, hfit]
    · simp [derefAt, fieldAt_short (Nat.lt_of_not_le hfit), hfit, bind, Except.bind]

/-- An acknowledgement can be read when its addresses are complete. -/
theorem dhcpAck_reads (hlen : dhcpHeaderSize ≤ data.length)
    (hin : ∀ o ∈ opts, o.field.pos + o.field.len ≤ data.length) :
    (∃ x, dhcpAck data (parsedOptions data opts) = .ok x) ↔
      ∀ type ∈ [OPT_ROUTER, OPT_SUBNET_MASK, OPT_DNS], ∀ o, lastOption opts type = some o →
        4 ≤ o.field.len := by
  have h236 : dhcpHeaderSize = 236 := rfl
  obtain ⟨-, hrouter, hmask, hdns⟩ := parsedOptions_pointers data opts
  -- The three addresses are read one after another, so each has to be readable.
  have hsplit : (∃ x, dhcpAck data (parsedOptions data opts) = .ok x) ↔
      (∃ x, dhcpAddress data ((lastOption opts OPT_ROUTER).map (·.field)) = .ok x) ∧
      (∃ x, dhcpAddress data ((lastOption opts OPT_SUBNET_MASK).map (·.field)) = .ok x) ∧
      ∃ x, dhcpAddress data ((lastOption opts OPT_DNS).map (·.field)) = .ok x := by
    rw [dhcpAck, bytesAt_eq (by omega), ok_bind, hrouter, hmask, hdns]
    constructor
    · intro ⟨x, hx⟩
      obtain ⟨r, hr, hx⟩ := bind_eq_ok.mp hx
      obtain ⟨m, hm, hx⟩ := bind_eq_ok.mp hx
      obtain ⟨d, hd, hx⟩ := bind_eq_ok.mp hx
      exact ⟨⟨r, hr⟩, ⟨m, hm⟩, ⟨d, hd⟩⟩
    · intro ⟨⟨r, hr⟩, ⟨m, hm⟩, ⟨d, hd⟩⟩
      rw [hr, ok_bind, hm, ok_bind, hd, ok_bind]
      exact ⟨_, rfl⟩
  rw [hsplit, dhcpAddress_reads hin, dhcpAddress_reads hin, dhcpAddress_reads hin]
  simp

/-- A message can be answered. -/
theorem dhcpAnswer_reads (intf : NetIntf) (hlen : dhcpHeaderSize ≤ data.length)
    (hin : ∀ o ∈ opts, o.field.pos + o.field.len ≤ data.length) :
    (∃ x, dhcpAnswer intf data (parsedOptions data opts) = .ok x) ↔ AnswerReads data opts := by
  have hbind : ∀ {α : Type} (x : Except Fault α) (f : α → DhcpReply),
      (∃ y, (do let a ← x; return f a) = Except.ok y) ↔ ∃ a, x = .ok a := by
    intro α x f
    cases x with
    | error e => simp [bind, Except.bind]
    | ok a => simp
  unfold dhcpAnswer
  rw [parsedOptions_messageType]
  split
  -- An offer is answered with a request.
  · rename_i hoffer
    rw [hbind, dhcpRequest_reads hlen hin]
    constructor
    · intro h
      exact ⟨fun _ => h, fun hack => absurd (hoffer.symm.trans hack) (by decide)⟩
    · intro h
      exact h.offer hoffer
  · rename_i hoffer
    split
    -- An acknowledgement configures the interface.
    · rename_i hack
      rw [hbind, dhcpAck_reads hlen hin]
      constructor
      · intro h
        exact ⟨fun ho => absurd ho hoffer, fun _ => h⟩
      · intro h
        exact h.ack hack
    -- A refusal, or any other message: nothing more is read.
    · rename_i hack
      have hok : AnswerReads data opts := ⟨fun ho => absurd ho hoffer, fun ha => absurd ha hack⟩
      split <;> simp [hok]

/-! ## Packets -/

/-- A reply for this interface, with options. -/
structure Addressed (intf : NetIntf) (data : List Byte) : Prop where
  length : dhcpHeaderSize + 4 ≤ data.length
  header : data.take 3 = [OP_REPLY, HTYPE_ETH, 6]
  client : (data.drop 28).take 6 = intf.ethAddr.toBytes
  cookie : readBe32 ((data.drop dhcpHeaderSize).take 4) = MAGIC_COOKIE

/-- The options behind the cookie. -/
def packetOptions (data : List Byte) : List DhcpOption × ScanEnd :=
  scanOptions data (data.length - (dhcpHeaderSize + 4)) (dhcpHeaderSize + 4)

/-- Every option has a length byte, those that are read while parsing are long enough, and
    so are the last ones of the kinds that the answer needs. -/
structure OptionsRead (data : List Byte) (scan : List DhcpOption × ScanEnd) : Prop where
  length : scan.2 ≠ .noLength
  fits : ∀ o ∈ scan.1, o.Fits
  answer : scan.2 = .done → AnswerReads data scan.1

/-- From the scan on, the packet is read safely exactly when the options are. -/
theorem parsed_reads (intf : NetIntf) {scan : List DhcpOption × ScanEnd}
    (hlen : dhcpHeaderSize ≤ data.length)
    (hin : ∀ o ∈ scan.1, o.field.pos + o.field.len ≤ data.length) :
    (∃ r parsed, Parsed data .zero scan parsed ∧
      parsed.elim (.ok .ignored) (dhcpAnswer intf data) = .ok r) ↔
      OptionsRead data scan := by
  -- The answer is looked at only if the parser got to the end.
  have hanswer := dhcpAnswer_reads intf hlen hin
  constructor
  · intro ⟨r, parsed, hscan, hr⟩
    refine ⟨hscan.length, hscan.fits, fun hdone => hanswer.mp ⟨r, ?_⟩⟩
    rw [hscan.result, if_pos hdone] at hr
    exact hr
  · intro h
    by_cases hdone : scan.2 = .done
    · obtain ⟨r, hr⟩ := hanswer.mpr (h.answer hdone)
      exact ⟨r, some (parsedOptions data scan.1), ⟨h.fits, h.length, (if_pos hdone).symm⟩, hr⟩
    · exact ⟨.ignored, none, ⟨h.fits, h.length, (if_neg hdone).symm⟩, rfl⟩

/-- A message for the client is parsed. -/
theorem dhcpRecv_addressed (h : Addressed intf data) : dhcpRecv intf data =
    (dhcpParseLoop data (data.length - (dhcpHeaderSize + 4)) (dhcpHeaderSize + 4) .zero >>=
      fun parsed =>
      parsed.elim (.ok .ignored) (dhcpAnswer intf data)) := by
  have h236 : dhcpHeaderSize = 236 := rfl
  have hlen := h.length
  have hheader : ∀ i < 3, data[i]? = [OP_REPLY, HTYPE_ETH, 6][i]? := by
    intro i hi
    rw [← h.header, List.getElem?_take_of_lt hi]
  -- Each test of the header is passed, and its reads are inside the 240 bytes.
  rw [dhcpRecv, if_neg (by omega), byteAt_eq_ok.mpr (hheader 0 (by decide)), ok_bind,
    byteAt_eq_ok.mpr (hheader 1 (by decide)), ok_bind,
    byteAt_eq_ok.mpr (hheader 2 (by decide)), ok_bind,
    if_neg (by simp), bytesAt_eq (by omega), ok_bind, h.client, if_neg (by simp), dhcpParseOptions,
    if_neg (by omega), bytesAt_eq (by omega), ok_bind, h.cookie, if_neg (by simp)]
  congr 1
  funext parsed
  cases parsed <;> rfl

/-- Three bytes. -/
theorem take_three {l : List Byte} (h : 3 ≤ l.length) : l.take 3 = [l[0], l[1], l[2]] := by
  match l, h with
  | _ :: _ :: _ :: _, _ => rfl

/-- Any other message is ignored. -/
theorem dhcpRecv_not_addressed (h : ¬ Addressed intf data) : dhcpRecv intf data = .ok .ignored := by
  have h236 : dhcpHeaderSize = 236 := rfl
  unfold dhcpRecv
  split
  · rfl
  -- The tests in their order: whichever fails, the packet is ignored before an option is read.
  · rename_i hlen
    have h0 : data[0]? = some data[0] := List.getElem?_eq_getElem (by omega)
    have h1 : data[1]? = some data[1] := List.getElem?_eq_getElem (by omega)
    have h2 : data[2]? = some data[2] := List.getElem?_eq_getElem (by omega)
    rw [byteAt_eq_ok.mpr h0, ok_bind, byteAt_eq_ok.mpr h1, ok_bind, byteAt_eq_ok.mpr h2, ok_bind]
    split
    · rfl
    · rename_i hfields
      rw [bytesAt_eq (by omega), ok_bind]
      split
      · rfl
      · rename_i hclient
        unfold dhcpParseOptions
        split
        · rfl
        · rename_i hcookie
          rw [bytesAt_eq (by omega), ok_bind]
          split
          · rfl
          · rename_i hmagic
            refine absurd ⟨by omega, ?_, (not_not.mp hclient).symm, not_not.mp hmagic⟩ h
            simp only [not_or, not_not] at hfields
            rw [take_three (by omega), hfields.1, hfields.2.1, hfields.2.2]

/-- `dhcp_recv` reads a packet safely exactly when it ignores it, or all its options are
    as they should be. -/
theorem dhcp_recv_reads (intf : NetIntf) (data : List Byte) :
    (∃ r, dhcpRecv intf data = .ok r) ↔
    (Addressed intf data → OptionsRead data (packetOptions data)) := by
  by_cases h : Addressed intf data
  · have hlen := h.length
    have hin : ∀ o ∈ (packetOptions data).1, o.field.pos + o.field.len ≤ data.length :=
      fun o ho => scanOptions_inside ho
    have hread := parsed_reads intf (by omega) hin
    simp only [h, true_implies, ← hread, dhcpRecv_addressed h, bind_eq_ok, dhcpParseLoop_eq_ok]
    rfl
  · rw [dhcpRecv_not_addressed h]
    simp [h]

/-- An offer without a server's id. -/
def bareOffer : List Byte :=
  [2, 1, 6, 0] ++ List.replicate 24 0 ++ [2, 0, 0, 0, 0, 1] ++ List.replicate 202 0 ++
    [0x63, 0x82, 0x53, 0x63, 53, 1, 2, 255]

/-- An offer without a server's id: `dhcp_request` reads it through the null pointer. -/
theorem dhcp_offer_without_server_id :
    dhcpRecv ⟨⟨2, 0, 0, 0, 0, 1⟩, ⟨0⟩, ⟨0⟩⟩ bareOffer = .error .null ∧
      ¬ ∀ (intf : NetIntf) (data : List Byte), ∃ r, dhcpRecv intf data = .ok r := by
  have hnull : dhcpRecv ⟨⟨2, 0, 0, 0, 0, 1⟩, ⟨0⟩, ⟨0⟩⟩ bareOffer = .error .null := by decide +kernel
  refine ⟨hnull, fun hall => ?_⟩
  obtain ⟨r, hr⟩ := hall ⟨⟨2, 0, 0, 0, 0, 1⟩, ⟨0⟩, ⟨0⟩⟩ bareOffer
  rw [hnull] at hr
  cases hr

end MishaOS
