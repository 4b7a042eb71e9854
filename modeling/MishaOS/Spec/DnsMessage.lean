import MishaOS.Spec.DnsParse
import MishaOS.Spec.TcpWire

/-!
# Well-formed DNS responses

A message as a value: labels of 1 to 63 bytes, names that end in a zero byte or in
a compression pointer, records of any type and length.  `dns_get_ip4_a` finds the
first address in the encoding of every such message.

## Key results

- `DnsName.nameAt`, `questionsAt_encode`, `recordsAt_encode`: the walk over an encoding.
- `dns_get_ip4_a_first_address`: what the whole function returns.
-/

namespace MishaOS

open Checked

/-! ## Messages -/

/-- A label behind its length. -/
def encodeLabel (l : List Byte) : List Byte := BitVec.ofNat 8 l.length :: l

/-- A domain name; without a pointer it ends in a zero byte. -/
structure DnsName where
  labels : List (List Byte)
  pointer : Option (Byte × Byte)
  labels_length : ∀ l ∈ labels, 1 ≤ l.length ∧ l.length ≤ 63
  pointer_bits : ∀ x ∈ pointer, 0xC0 ≤ x.1.toNat

def DnsName.ending (name : DnsName) : List Byte :=
  match name.pointer with
  | none => [0]
  | some (hi, lo) => [hi, lo]

def DnsName.encode (name : DnsName) : List Byte := name.labels.flatMap encodeLabel ++ name.ending

structure DnsQuestion where
  name : DnsName
  type : BitVec 16
  cls : BitVec 16

def DnsQuestion.encode (x : DnsQuestion) : List Byte := x.name.encode ++ (be16 x.type ++ be16 x.cls)

structure DnsRecord where
  name : DnsName
  type : BitVec 16
  cls : BitVec 16
  ttl : BitVec 32
  data : List Byte
  data_length : data.length < 65536

def DnsRecord.encode (x : DnsRecord) : List Byte :=
  x.name.encode ++ (be16 x.type ++ be16 x.cls ++ be32 x.ttl ++
    be16 (BitVec.ofNat 16 x.data.length) ++ x.data)

/-- An address record: type 1 and four bytes of data. -/
def DnsRecord.isA (x : DnsRecord) : Bool := x.type = 1 ∧ x.data.length = 4

/-- `rest` holds the authority and additional records, which are not looked at. -/
structure DnsMessage where
  id : BitVec 16
  flags : BitVec 16
  questions : List DnsQuestion
  answers : List DnsRecord
  authorityCount : BitVec 16
  additionalCount : BitVec 16
  rest : List Byte
  questions_length : questions.length < 65536
  answers_length : answers.length < 65536

def DnsMessage.header (msg : DnsMessage) : List Byte :=
  be16 msg.id ++ be16 msg.flags ++ be16 (BitVec.ofNat 16 msg.questions.length) ++
    be16 (BitVec.ofNat 16 msg.answers.length) ++ be16 msg.authorityCount ++ be16 msg.additionalCount

def DnsMessage.encode (msg : DnsMessage) : List Byte :=
  msg.header ++ (msg.questions.flatMap DnsQuestion.encode ++
    (msg.answers.flatMap DnsRecord.encode ++ msg.rest))

/-! ## The walk over an encoding -/

variable {data : List Byte} {p q r k n : Nat}

theorem be16At_be16 (front : List Byte) (x : BitVec 16) (back : List Byte) :
    be16At (front ++ (be16 x ++ back)) front.length = .ok x := by
  have hjoin : x.extractLsb' 8 8 ++ x.extractLsb' 0 8 = x := readBe16_be16 x []
  have := be16At_append front (x.extractLsb' 8 8) (x.extractLsb' 0 8) back
  rwa [hjoin] at this

/-- A name that goes on behind the labels `ls`. -/
theorem nameAt_labels (front back : List Byte) {ls : List (List Byte)}
    (hls : ∀ l ∈ ls, 1 ≤ l.length ∧ l.length ≤ 63)
    (h : NameAt (front ++ (ls.flatMap encodeLabel ++ back))
      (front.length + (ls.flatMap encodeLabel).length) q) :
    NameAt (front ++ (ls.flatMap encodeLabel ++ back)) front.length q := by
  induction ls generalizing front with
  | nil => exact h
  | cons l ls ih =>
    have hl := hls l List.mem_cons_self
    have hlen : (BitVec.ofNat 8 l.length).toNat = l.length := by
      rw [BitVec.toNat_ofNat]
      omega
    have heq : front ++ ((l :: ls).flatMap encodeLabel ++ back) =
        front ++ encodeLabel l ++ (ls.flatMap encodeLabel ++ back) := by simp
    -- One label is read; the others start behind it.
    rw [heq] at h ⊢
    refine .label (c := BitVec.ofNat 8 l.length) (by simp [encodeLabel]) (by omega) (by omega) ?_
    have hnext : front.length + 1 + (BitVec.ofNat 8 l.length).toNat =
        (front ++ encodeLabel l).length := by
      simp only [hlen, encodeLabel, List.length_append, List.length_cons]
      omega
    rw [hnext]
    apply ih (front ++ encodeLabel l) fun x hx => hls x (List.mem_cons_of_mem _ hx)
    have hend : front.length + ((l :: ls).flatMap encodeLabel).length =
        (front ++ encodeLabel l).length + (ls.flatMap encodeLabel).length := by
      simp only [List.flatMap_cons, List.length_append]
      omega
    rwa [hend] at h

theorem DnsName.nameAt (front : List Byte) (name : DnsName) (back : List Byte) :
    NameAt (front ++ (name.encode ++ back)) front.length (front.length + name.encode.length) := by
  have heq : front ++ (name.encode ++ back) =
      front ++ (name.labels.flatMap encodeLabel ++ (name.ending ++ back)) := by
        simp [DnsName.encode]
  rw [heq]
  apply nameAt_labels front _ name.labels_length
  have hmid : ∀ x : List Byte, front ++ (name.labels.flatMap encodeLabel ++ x) =
      (front ++ name.labels.flatMap encodeLabel) ++ x := fun x => (List.append_assoc _ _ _).symm
  have hpos : front.length + (name.labels.flatMap encodeLabel).length =
      (front ++ name.labels.flatMap encodeLabel).length := List.length_append.symm
  have hend : front.length + name.encode.length =
      (front ++ name.labels.flatMap encodeLabel).length + name.ending.length := by
    simp only [DnsName.encode, List.length_append]
    omega
  -- what follows starts behind the labels
  rw [hmid, hpos, hend]
  generalize front ++ name.labels.flatMap encodeLabel = before
  -- the zero byte, or the first byte of the pointer
  unfold DnsName.ending
  split
  · exact .root (by simp)
  · rename_i hi lo hptr
    have hbits : 0xC0 ≤ hi.toNat := name.pointer_bits (hi, lo) hptr
    exact .pointer (c := hi) (by simp) (by omega)

theorem questionsAt_encode (front : List Byte) (qs : List DnsQuestion) (back : List Byte) :
    QuestionsAt (front ++ (qs.flatMap DnsQuestion.encode ++ back)) qs.length front.length
      (front.length + (qs.flatMap DnsQuestion.encode).length) := by
  -- question by question
  induction qs generalizing front with
  | nil => rfl
  | cons x qs ih =>
    have hname :=
      x.name.nameAt front (be16 x.type ++ be16 x.cls ++ (qs.flatMap DnsQuestion.encode ++ back))
    have hrest := ih (front ++ x.encode)
    have heq : front ++ ((x :: qs).flatMap DnsQuestion.encode ++ back) =
        front ++ x.encode ++ (qs.flatMap DnsQuestion.encode ++ back) := by simp
    have heq' : front ++ (x.name.encode ++
      (be16 x.type ++ be16 x.cls ++ (qs.flatMap DnsQuestion.encode ++ back))) =
        front ++ x.encode ++ (qs.flatMap DnsQuestion.encode ++ back) := by simp [DnsQuestion.encode]
    -- behind the name there are type and class, four bytes
    have hlen : front.length + x.name.encode.length + 4 = (front ++ x.encode).length := by
      simp only [DnsQuestion.encode, List.length_append, be16, List.length_cons, List.length_nil]
      omega
    have hend : front.length + ((x :: qs).flatMap DnsQuestion.encode).length =
        (front ++ x.encode).length + (qs.flatMap DnsQuestion.encode).length := by
      simp only [List.flatMap_cons, List.length_append]
      omega
    rw [heq'] at hname
    rw [heq, hend]
    refine ⟨_, hname, ?_⟩
    rw [hlen]
    exact hrest

theorem DnsRecord.recordAt (front : List Byte) (x : DnsRecord) (back : List Byte) :
    RecordAt (front ++ (x.encode ++ back)) front.length (front.length + x.name.encode.length) x.type
      (BitVec.ofNat 16 x.data.length) where
  name := by
    have := x.name.nameAt front
      (be16 x.type ++ be16 x.cls ++ be32 x.ttl ++ be16 (BitVec.ofNat 16 x.data.length) ++
        x.data ++ back)
    simpa [DnsRecord.encode] using this
  type := by
    have := be16At_be16 (front ++ x.name.encode) x.type
      (be16 x.cls ++ be32 x.ttl ++ be16 (BitVec.ofNat 16 x.data.length) ++ x.data ++ back)
    simpa [DnsRecord.encode] using this
  len := by
    have := be16At_be16 (front ++ x.name.encode ++ be16 x.type ++ be16 x.cls ++ be32 x.ttl)
      (BitVec.ofNat 16 x.data.length) (x.data ++ back)
    simpa [DnsRecord.encode, be16, be32, Nat.add_assoc] using this

theorem DnsRecord.isA_iff (x : DnsRecord) : IsA x.type (BitVec.ofNat 16 x.data.length) ↔
    x.isA = true := by
  have hlen : BitVec.ofNat 16 x.data.length = 4 ↔ x.data.length = 4 := by
    have hlt := x.data_length
    constructor
    · intro h
      -- The length byte pair is exact: the data is shorter than 2^16.
      have hnat : x.data.length % 65536 = 4 := congrArg BitVec.toNat h
      omega
    · intro h
      rw [h]
      rfl
  simp only [IsA, DnsRecord.isA, hlen, decide_eq_true_eq]

theorem DnsRecord.encode_length (x : DnsRecord) :
    x.encode.length = x.name.encode.length + 10 + (BitVec.ofNat 16 x.data.length).toNat := by
  have hlt := x.data_length
  have hnat : (BitVec.ofNat 16 x.data.length).toNat = x.data.length := by
    rw [BitVec.toNat_ofNat]
    omega
  rw [hnat]
  simp only [DnsRecord.encode, be16, be32, List.length_append, List.length_cons, List.length_nil]
  omega

theorem recordsAt_encode (front : List Byte) (xs : List DnsRecord) (back : List Byte)
    (hxs : ∀ x ∈ xs, x.isA = false) :
    RecordsAt (fun type len => ¬ IsA type len)
      (front ++ (xs.flatMap DnsRecord.encode ++ back)) xs.length
      front.length (front.length + (xs.flatMap DnsRecord.encode).length) := by
  -- record by record
  induction xs generalizing front with
  | nil => rfl
  | cons x xs ih =>
    have heq : front ++ ((x :: xs).flatMap DnsRecord.encode ++ back) =
        front ++ x.encode ++ (xs.flatMap DnsRecord.encode ++ back) := by simp
    have hend : front.length + ((x :: xs).flatMap DnsRecord.encode).length =
        (front ++ x.encode).length + (xs.flatMap DnsRecord.encode).length := by
      simp only [List.flatMap_cons, List.length_append]
      omega
    -- ten bytes behind the name, then the data
    have hnext : front.length + x.name.encode.length + 10 + (BitVec.ofNat 16 x.data.length).toNat =
        (front ++ x.encode).length := by
      rw [List.length_append, x.encode_length]
      omega
    have hrec := x.recordAt front (xs.flatMap DnsRecord.encode ++ back)
    rw [← List.append_assoc] at hrec
    -- none of them is an address, so the search goes on
    have hA : ¬ IsA x.type (BitVec.ofNat 16 x.data.length) := by
      rw [x.isA_iff, hxs x List.mem_cons_self]
      decide
    rw [heq, hend]
    refine ⟨_, _, _, hrec, hA, ?_⟩
    rw [hnext]
    exact ih (front ++ x.encode) fun y hy => hxs y (List.mem_cons_of_mem _ hy)

/-- The first address behind `k` records that are none. -/
theorem RecordsAt.addressAt (h : RecordsAt (fun type len => ¬ IsA type len) data k p r)
    (hr : AddressAt data n r q) : AddressAt data (k + n) p q := by
  induction k generalizing p with
  | zero =>
    obtain rfl : r = p := h
    rwa [Nat.zero_add]
  | succ k ih =>
    obtain ⟨s, type, len, hrec, hA, hrest⟩ := h
    rw [Nat.succ_add]
    refine ⟨s, type, len, hrec, ?_⟩
    rw [if_neg hA]
    exact ih hrest

theorem DnsRecord.drop_data (front : List Byte) (x : DnsRecord) (back : List Byte) :
    (front ++ (x.encode ++ back)).drop (front.length + x.name.encode.length + 10) =
      x.data ++ back := by
  -- The name and the ten bytes of the fixed fields stand in front of the data.
  have hhead : front ++ (x.encode ++ back) = (front ++ x.name.encode ++
      (be16 x.type ++ be16 x.cls ++ be32 x.ttl ++ be16 (BitVec.ofNat 16 x.data.length))) ++
      (x.data ++ back) := by simp [DnsRecord.encode]
  rw [hhead]
  apply List.drop_left'
  simp only [be16, be32, List.length_append, List.length_cons, List.length_nil]

/-- The first address is that of `x`, the records of `before` being none. -/
theorem addressAt_encode (front : List Byte) (before : List DnsRecord) (x : DnsRecord)
    (back : List Byte) (n : Nat)
    (hbefore : ∀ y ∈ before, y.isA = false) (hx : x.isA = true) :
    AddressAt (front ++ (before.flatMap DnsRecord.encode ++ (x.encode ++ back)))
      (before.length + (n + 1))
      front.length ((front ++ before.flatMap DnsRecord.encode).length +
        x.name.encode.length + 10) := by
  have hskip := recordsAt_encode front before (x.encode ++ back) hbefore
  have hrec := x.recordAt (front ++ before.flatMap DnsRecord.encode) back
  rw [List.append_assoc] at hrec
  rw [← List.length_append] at hskip
  refine hskip.addressAt ⟨_, _, _, hrec, ?_⟩
  rw [if_pos (x.isA_iff.mpr hx)]

/-! ## The whole function -/

theorem DnsMessage.counts (msg : DnsMessage) :
    be16At msg.encode 4 = .ok (BitVec.ofNat 16 msg.questions.length) ∧
      be16At msg.encode 6 = .ok (BitVec.ofNat 16 msg.answers.length) := by
  constructor
  · have := be16At_be16 (be16 msg.id ++ be16 msg.flags) (BitVec.ofNat 16 msg.questions.length)
      (be16 (BitVec.ofNat 16 msg.answers.length) ++ be16 msg.authorityCount ++
        be16 msg.additionalCount ++
        (msg.questions.flatMap DnsQuestion.encode ++
          (msg.answers.flatMap DnsRecord.encode ++ msg.rest)))
    simpa [DnsMessage.encode, DnsMessage.header, be16] using this
  · have := be16At_be16 (be16 msg.id ++ be16 msg.flags ++
      be16 (BitVec.ofNat 16 msg.questions.length))
      (BitVec.ofNat 16 msg.answers.length)
      (be16 msg.authorityCount ++ be16 msg.additionalCount ++
        (msg.questions.flatMap DnsQuestion.encode ++
          (msg.answers.flatMap DnsRecord.encode ++ msg.rest)))
    simpa [DnsMessage.encode, DnsMessage.header, be16] using this

/-- What stands in front of the answers. -/
def DnsMessage.front (msg : DnsMessage) : List Byte :=
  msg.header ++ msg.questions.flatMap DnsQuestion.encode

theorem DnsMessage.encode_eq (msg : DnsMessage) :
    msg.encode = msg.front ++ (msg.answers.flatMap DnsRecord.encode ++ msg.rest) := by
  simp [DnsMessage.encode, DnsMessage.front]

/-- The search starts right behind the questions. -/
theorem dnsGetIp4A_encode (msg : DnsMessage) (addr : Ipv4Addr) {y : BitVec 8 × Ipv4Addr}
    (h : searchAnswers addr msg.encode msg.answers.length msg.front.length = .ok y) :
    dnsGetIp4A addr msg.encode = .ok y := by
  have hq := questionsAt_encode msg.header msg.questions
    (msg.answers.flatMap DnsRecord.encode ++ msg.rest)
  have hheader : msg.header.length = 12 := rfl
  have hfront : msg.front.length = 12 + (msg.questions.flatMap DnsQuestion.encode).length := by
    rw [DnsMessage.front, List.length_append, hheader]
  rw [hheader, ← hfront] at hq
  -- The counts of the header are those of the lists.
  have hqn : (BitVec.ofNat 16 msg.questions.length).toNat = msg.questions.length := by
    have := msg.questions_length
    rw [BitVec.toNat_ofNat]
    omega
  have han : (BitVec.ofNat 16 msg.answers.length).toNat = msg.answers.length := by
    have := msg.answers_length
    rw [BitVec.toNat_ofNat]
    omega
  refine dnsGetIp4A_eq_ok.mpr ⟨_, _, msg.front.length, msg.counts.1, msg.counts.2, ?_, ?_⟩
  · rw [hqn]
    exact hq
  · rw [han]
    exact h

/-- On every well-formed response, `dns_get_ip4_a` returns the first answer of type 1 with
    four bytes of data, and 0 when there is none. -/
theorem dns_get_ip4_a_first_address (msg : DnsMessage) (addr : Ipv4Addr) :
    dnsGetIp4A addr msg.encode =
      .ok (match msg.answers.find? DnsRecord.isA with
        | some x => (1, .read x.data)
        | none => (0, addr)) := by
  apply dnsGetIp4A_encode
  rw [searchAnswers_eq_ok]
  split
  -- The message splits at the first address, with no address in front of it.
  · rename_i x hfind
    right
    obtain ⟨hx, before, after, hanswers, hbefore⟩ := List.find?_eq_some_iff_append.mp hfind
    have hlen : x.data.length = 4 := (decide_eq_true_eq.mp hx).2
    have hsplit : msg.encode = msg.front ++ (before.flatMap DnsRecord.encode ++
        (x.encode ++ (after.flatMap DnsRecord.encode ++ msg.rest))) := by
      rw [msg.encode_eq, hanswers]
      simp
    have haddr :=
      addressAt_encode msg.front before x (after.flatMap DnsRecord.encode ++ msg.rest) after.length
      (fun y hy => by simpa using hbefore y hy) hx
    have hdrop := x.drop_data (msg.front ++ before.flatMap DnsRecord.encode)
      (after.flatMap DnsRecord.encode ++ msg.rest)
    rw [List.append_assoc, ← hsplit] at hdrop
    rw [← hsplit] at haddr
    refine ⟨(msg.front ++ before.flatMap DnsRecord.encode).length + x.name.encode.length +
      10, ?_, ?_, ?_⟩
    · rw [hanswers, List.length_append]
      exact haddr
    · have hle := congrArg List.length hdrop
      simp only [List.length_drop, List.length_append, hlen] at hle ⊢
      omega
    · rw [hdrop, ← read_take (x.data ++ _), List.take_left' hlen]
  -- No answer is an address: the search ends behind the last one.
  · rename_i hfind
    left
    have hskip := recordsAt_encode msg.front msg.answers msg.rest fun x hx => by
      simpa using List.find?_eq_none.mp hfind x hx
    rw [← msg.encode_eq] at hskip
    exact ⟨rfl, _, hskip⟩

end MishaOS
