import MishaOS.Native.Dns

/-!
# Which messages the DNS parser can walk

The walk of `dns_get_ip4_a` as relations between offsets of a message: where a
name, the questions and the answers end.  Each loop of the code succeeds exactly
when its relation holds, so a message can be read without leaving the payload
exactly when all the length bytes, types and lengths that the walk needs are there.

## Key results

- `skipHost_eq_ok`, `skipQuestions_eq_ok`, `searchAnswers_eq_ok`: one for each loop.
- `dns_payload_reads`: the payloads that are read safely.
-/

namespace MishaOS

open Checked

variable {data : List Byte} {addr : Ipv4Addr} {n p q r : Nat}

/-! ## Names -/

/-- By its length bytes, the name at `p` ends at `q`.  The byte behind the first of a
    pointer is skipped, and not looked at. -/
inductive NameAt (data : List Byte) : Nat → Nat → Prop
  | root {p : Nat} : data[p]? = some 0 → NameAt data p (p + 1)
  | pointer {p : Nat} {c : Byte} : data[p]? = some c → 64 ≤ c.toNat → NameAt data p (p + 1 + 1)
  | label {p q : Nat} {c : Byte} : data[p]? = some c → 0 < c.toNat → c.toNat < 64 →
      NameAt data (p + 1 + c.toNat) q → NameAt data p q

/-- A name begins in the message. -/
theorem NameAt.lt (h : NameAt data p q) : p < data.length := by
  cases h with
  | root hc => exact (List.getElem?_eq_some_iff.mp hc).1
  | pointer hc _ => exact (List.getElem?_eq_some_iff.mp hc).1
  | label hc _ _ _ => exact (List.getElem?_eq_some_iff.mp hc).1

/-- It ends behind its beginning. -/
theorem NameAt.le (h : NameAt data p q) : p ≤ q := by
  induction h with
  | root _ => omega
  | pointer _ _ => omega
  | label _ _ _ _ ih => omega

/-- One round of the loop, for the length byte `c`. -/
theorem nameAt_iff {c : Byte} (hc : data[p]? = some c) : NameAt data p q ↔
    if 64 ≤ c.toNat then q = p + 1 + 1
    else if 0 < c.toNat then NameAt data (p + 1 + c.toNat) q
    else q = p + 1 := by
  constructor
  · intro h
    -- the rules exclude each other by the length byte
    cases h with
    | root h0 =>
      obtain rfl := Option.some.inj (hc.symm.trans h0)
      simp
    | pointer h1 hge =>
      obtain rfl := Option.some.inj (hc.symm.trans h1)
      simp [hge]
    | label h1 hpos hlt hrest =>
      obtain rfl := Option.some.inj (hc.symm.trans h1)
      rw [if_neg (by omega), if_pos hpos]
      exact hrest
  · intro h
    split at h
    · rename_i hge
      exact h ▸ .pointer hc hge
    · rename_i hlt
      split at h
      · rename_i hpos
        exact .label hc hpos (by omega) h
      · rename_i hzero
        have h0 : c = 0 := BitVec.eq_of_toNat_eq (by simp; omega)
        exact h ▸ .root (h0 ▸ hc)

/-- The loop over the labels ends behind the name. -/
theorem skipHostFrom_eq_ok (hn : data.length - p ≤ n) :
    skipHostFrom data n p = .ok q ↔ NameAt data p q := by
  -- The fuel is what is left of the message: every label takes a byte at least.
  induction n generalizing p with
  | zero =>
    constructor
    · intro h
      cases h
    · intro h
      have := h.lt
      omega
  | succ n ih =>
    by_cases hp : p < data.length
    · have hc : data[p]? = some data[p] := List.getElem?_eq_getElem hp
      rw [skipHostFrom, byteAt_eq_ok.mpr hc, ok_bind, nameAt_iff hc]
      split
      · simp [eq_comm]
      · split
        · exact ih (by omega)
        · simp [eq_comm]
    -- The name runs out of the message.
    · rw [skipHostFrom, byteAt_outside (by omega)]
      constructor
      · intro h
        cases h
      · intro h
        exact absurd h.lt hp

/-- `skip_host` stays inside the message exactly when the length bytes of the name do. -/
theorem skipHost_eq_ok : skipHost data p = .ok q ↔ NameAt data p q :=
  skipHostFrom_eq_ok (Nat.le_refl _)

/-! ## Questions and records -/

/-- `n` questions from `p` on end at `q`. -/
def QuestionsAt (data : List Byte) : Nat → Nat → Nat → Prop
  | 0, p, q => q = p
  | n + 1, p, q => ∃ r, NameAt data p r ∧ QuestionsAt data n (r + 4) q

/-- So does the loop over the questions. -/
theorem skipQuestions_eq_ok : skipQuestions data n p = .ok q ↔ QuestionsAt data n p q := by
  induction n generalizing p with
  | zero => simp [skipQuestions, QuestionsAt, eq_comm]
  | succ n ih => simp only [skipQuestions, QuestionsAt, bind_eq_ok, skipHost_eq_ok, ih]

/-- The record at `p`: its name ends at `r`, behind it its type and, eight bytes on, the
    length of its data. -/
structure RecordAt (data : List Byte) (p r : Nat) (type len : BitVec 16) : Prop where
  name : NameAt data p r
  type : be16At data r = .ok type
  len : be16At data (r + 8) = .ok len

/-- An address of four bytes. -/
def IsA (type len : BitVec 16) : Prop := type = 1 ∧ len = 4

instance (type len : BitVec 16) : Decidable (IsA type len) := inferInstanceAs (Decidable (_ ∧ _))

/-- `n` records from `p` on, each with a type and a length that `P` admits, end at `q`. -/
def RecordsAt (P : BitVec 16 → BitVec 16 → Prop) (data : List Byte) : Nat → Nat → Nat → Prop
  | 0, p, q => q = p
  | n + 1, p, q => ∃ r type len, RecordAt data p r type len ∧ P type len ∧
      RecordsAt P data n (r + 10 + len.toNat) q

/-- Among `n` records from `p` on, the data of the first address is at `q`. -/
def AddressAt (data : List Byte) : Nat → Nat → Nat → Prop
  | 0, _, _ => False
  | n + 1, p, q => ∃ r type len, RecordAt data p r type len ∧
      if IsA type len then q = r + 10 else AddressAt data n (r + 10 + len.toNat) q

/-- Weaker conditions hold of the same records. -/
theorem RecordsAt.mono {P Q : BitVec 16 → BitVec 16 → Prop}
    (hPQ : ∀ type len, P type len → Q type len)
    (h : RecordsAt P data n p q) : RecordsAt Q data n p q := by
  induction n generalizing p with
  | zero => exact h
  | succ n ih =>
    obtain ⟨r, type, len, hrec, hP, hrest⟩ := h
    exact ⟨r, type, len, hrec, hPQ _ _ hP, ih hrest⟩

/-- An address is read from four bytes. -/
theorem read_take (l : List Byte) : Ipv4Addr.read (l.take 4) = .read l := by
  simp [Ipv4Addr.read, List.getD_eq_getElem?_getD]

/-- What the search returns when it stays inside the message: nothing was found, or the
    first address. -/
theorem searchAnswers_eq_ok {y : BitVec 8 × Ipv4Addr} : searchAnswers addr data n p = .ok y ↔
    (y = (0, addr) ∧ ∃ q, RecordsAt (fun type len => ¬ IsA type len) data n p q) ∨
      ∃ q, AddressAt data n p q ∧ q + 4 ≤ data.length ∧ y = (1, .read (data.drop q)) := by
  induction n generalizing p with
  | zero => simp [searchAnswers, RecordsAt, AddressAt, eq_comm]
  | succ n ih =>
    constructor
    · intro h
      simp only [searchAnswers, bind_eq_ok, skipHost_eq_ok] at h
      obtain ⟨r, hname, type, htype, len, hlen, h⟩ := h
      have hrec : RecordAt data p r type len := ⟨hname, htype, hlen⟩
      split at h
      -- An address is read where the data starts, four bytes of it.
      · rename_i hA
        obtain ⟨ip, hip, hy⟩ := bind_eq_ok.mp h
        have hle := bytesAt_le hip
        rw [bytesAt_eq hle] at hip
        obtain rfl := Except.ok.inj hip
        refine .inr ⟨r + 10, ⟨r, type, len, hrec, by rw [if_pos (show IsA type len from hA)]⟩, hle,
          ?_⟩
        rw [read_take] at hy
        exact (Except.ok.inj hy).symm
      -- Any other record is skipped by the length of its data.
      · rename_i hA
        rcases ih.mp h with ⟨hy, q, hq⟩ | ⟨q, hq, hle, hy⟩
        · exact .inl ⟨hy, q, r, type, len, hrec, hA, hq⟩
        · exact .inr ⟨q,
            ⟨r, type, len, hrec, by rw [if_neg (show ¬ IsA type len from hA)]; exact hq⟩, hle, hy⟩
    · intro h
      simp only [searchAnswers]
      rcases h with ⟨hy, q, r, type, len, hrec, hA, hq⟩ | ⟨q, ⟨r, type, len, hrec, hq⟩, hle, hy⟩
      · rw [skipHost_eq_ok.mpr hrec.name, ok_bind, hrec.type, ok_bind, hrec.len, ok_bind,
          if_neg (show ¬ (type = 1 ∧ len = 4) from hA)]
        exact ih.mpr (.inl ⟨hy, q, hq⟩)
      · rw [skipHost_eq_ok.mpr hrec.name, ok_bind, hrec.type, ok_bind, hrec.len, ok_bind]
        split at hq
        · rename_i hA
          subst hq
          rw [if_pos (show type = 1 ∧ len = 4 from hA), bytesAt_eq hle, ok_bind, read_take, hy]
          rfl
        · rename_i hA
          rw [if_neg (show ¬ (type = 1 ∧ len = 4) from hA)]
          exact ih.mpr (.inr ⟨q, hq, hle, hy⟩)

/-! ## Payloads -/

/-- The header, the questions and the answers that its counts announce are all there. -/
def Complete (data : List Byte) : Prop :=
  12 ≤ data.length ∧ ∃ questionCount answerCount p q,
    be16At data 4 = .ok questionCount ∧ be16At data 6 = .ok answerCount ∧
    QuestionsAt data questionCount.toNat 12 p ∧
    RecordsAt (fun _ _ => True) data answerCount.toNat p q ∧ q ≤ data.length

/-- The code stays inside the payload, whoever waits for it, and finds nothing in a
    message that is cut off. -/
structure PayloadOk (data : List Byte) : Prop where
  recv : ∀ entryList, ∃ r, dnsRecv entryList data = .ok r
  lookup : ∀ addr, ∃ r, dnsGetIp4A addr data = .ok r ∧ (¬ Complete data → r = (0, addr))

/-- The counts are there, the length bytes of the questions' names, and those of the
    answers with their types and lengths, up to the first address; if there is one, the
    message is complete. -/
def Readable (data : List Byte) : Prop :=
  ∃ questionCount answerCount p, be16At data 4 = .ok questionCount ∧
    be16At data 6 = .ok answerCount ∧
    QuestionsAt data questionCount.toNat 12 p ∧
    ((∃ q, RecordsAt (fun type len => ¬ IsA type len) data answerCount.toNat p q) ∨
      ∃ q, AddressAt data answerCount.toNat p q ∧ q + 4 ≤ data.length ∧ Complete data)

/-- What the parser returns. -/
theorem dnsGetIp4A_eq_ok {y : BitVec 8 × Ipv4Addr} : dnsGetIp4A addr data = .ok y ↔
    ∃ questionCount answerCount p, be16At data 4 = .ok questionCount ∧
      be16At data 6 = .ok answerCount ∧
      QuestionsAt data questionCount.toNat 12 p ∧
      searchAnswers addr data answerCount.toNat p = .ok y := by
  simp only [dnsGetIp4A, bind_eq_ok, skipQuestions_eq_ok]
  constructor
  · intro ⟨qc, hqc, ac, hac, p, hp, hy⟩
    exact ⟨qc, ac, p, hqc, hac, hp, hy⟩
  · intro ⟨qc, ac, p, hqc, hac, hp, hy⟩
    exact ⟨qc, hqc, ac, hac, p, hp, hy⟩

/-- The identifier is read inside the message. -/
theorem dnsRecv_inside (entryList : List DnsEntry) (h : 2 ≤ data.length) :
    ∃ r, dnsRecv entryList data = .ok r := by
  obtain ⟨id, hid⟩ := be16At_exists (show 0 + 1 < data.length by omega)
  exact ⟨_, by rw [dnsRecv, hid, ok_bind]; rfl⟩

/-- A payload can be read if and only if it is well formed. -/
theorem dns_payload_reads (data : List Byte) : PayloadOk data ↔ Readable data := by
  constructor
  · intro h
    obtain ⟨y, hy, hcut⟩ := h.lookup ⟨0⟩
    obtain ⟨qc, ac, p, hqc, hac, hp, hsearch⟩ := dnsGetIp4A_eq_ok.mp hy
    refine ⟨qc, ac, p, hqc, hac, hp, ?_⟩
    rcases searchAnswers_eq_ok.mp hsearch with ⟨-, hnone⟩ | ⟨q, hq, hle, rfl⟩
    · exact .inl hnone
    · refine .inr ⟨q, hq, hle, ?_⟩
      -- an address was found, so the message is not cut off
      by_contra hcomplete
      have hone : (1 : BitVec 8) = 0 := congrArg Prod.fst (hcut hcomplete)
      exact absurd hone (by decide)
  · intro ⟨qc, ac, p, hqc, hac, hp, hans⟩
    refine ⟨fun entryList => dnsRecv_inside entryList ?_, fun addr => ?_⟩
    · have := be16At_lt hqc
      omega
    · rcases hans with hnone | ⟨q, hq, hle, hcomplete⟩
      · exact ⟨(0, addr), dnsGetIp4A_eq_ok.mpr
          ⟨qc, ac, p, hqc, hac, hp, searchAnswers_eq_ok.mpr (.inl ⟨rfl, hnone⟩)⟩, fun _ => rfl⟩
      · exact ⟨_, dnsGetIp4A_eq_ok.mpr ⟨qc, ac, p, hqc, hac, hp,
          searchAnswers_eq_ok.mpr (.inr ⟨q, hq, hle, rfl⟩)⟩, fun h => absurd hcomplete h⟩

/-- A header that announces one question, and nothing behind it: the name is read from
    offset 12 on. -/
theorem dns_header_only_overread :
    dnsGetIp4A ⟨0⟩ [0, 1, 0x81, 0x80, 0, 1, 0, 0, 0, 0, 0, 0] = .error (.outside 12) ∧
      ¬ ∀ data, PayloadOk data := by
  have hread : dnsGetIp4A ⟨0⟩ [0, 1, 0x81, 0x80, 0, 1, 0, 0, 0, 0, 0, 0] =
      .error (.outside 12) := by
    decide
  refine ⟨hread, fun hall => ?_⟩
  obtain ⟨y, hy, -⟩ := (hall [0, 1, 0x81, 0x80, 0, 1, 0, 0, 0, 0, 0, 0]).lookup ⟨0⟩
  rw [hread] at hy
  cases hy

end MishaOS
