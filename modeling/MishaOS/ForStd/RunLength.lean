import Mathlib.Data.List.Induction

/-!
# Run-length packets

A packet says with its first byte how many units it stands for, up to 128: one
unit that is repeated, or as many units as are written out.  Every unit has the
same number of bytes, so a list of bytes starts with at most one packet.

## Key results

- `prefix_or_prefix`: two lists of packets that the same bytes start with.
- `Covers.not_short`, `Covers.not_long`: packets for exactly `n` units are neither too short nor too
  long.
-/

namespace RunLength

/-- A unit of `stride` bytes. -/
abbrev Chunk (stride : Nat) := {u : List (BitVec 8) // u.length = stride}

inductive Packet (stride : Nat)
  | same (n : Nat) (u : Chunk stride)
  | each (us : List (Chunk stride))

variable {stride : Nat} {p q : Packet stride} {ps qs : List (Packet stride)}
    {data rest rest' : List (BitVec 8)} {n : Nat}

/-- The units that a packet stands for. -/
def Packet.expand : Packet stride → List (Chunk stride)
  | .same n u => List.replicate n u
  | .each us => us

/-- A packet stands for one to 128 units. -/
def Packet.Ok (p : Packet stride) : Prop := 1 ≤ p.expand.length ∧ p.expand.length ≤ 128

def Packet.encode : Packet stride → List (BitVec 8)
  | .same n u => BitVec.ofNat 8 (n + 127) :: u.val
  | .each us => BitVec.ofNat 8 (us.length - 1) :: us.flatMap Subtype.val

def expand (ps : List (Packet stride)) : List (Chunk stride) := ps.flatMap Packet.expand

def encode (ps : List (Packet stride)) : List (BitVec 8) := ps.flatMap Packet.encode

@[simp] theorem expand_nil : expand ([] : List (Packet stride)) = [] := rfl

@[simp] theorem expand_cons (p : Packet stride) (ps : List (Packet stride)) :
    expand (p :: ps) = p.expand ++ expand ps := rfl

@[simp] theorem expand_append (ps qs : List (Packet stride)) :
    expand (ps ++ qs) = expand ps ++ expand qs :=
  List.flatMap_append

@[simp] theorem encode_nil : encode ([] : List (Packet stride)) = [] := rfl

@[simp] theorem encode_cons (p : Packet stride) (ps : List (Packet stride)) :
    encode (p :: ps) = p.encode ++ encode ps := rfl

@[simp] theorem encode_append (ps qs : List (Packet stride)) :
    encode (ps ++ qs) = encode ps ++ encode qs :=
  List.flatMap_append

theorem encode_eq_nil (h : encode ps = []) : ps = [] := by
  cases ps with
  | nil => rfl
  | cons p ps => cases p <;> exact absurd h nofun

theorem length_flatMap_val (us : List (Chunk stride)) :
    (us.flatMap Subtype.val).length = us.length * stride := by
  induction us with
  | nil => simp
  | cons u us ih => rw [List.flatMap_cons, List.length_append, ih, u.property, List.length_cons,
    Nat.succ_mul, Nat.add_comm]

/-- Bytes that start with the units have each of them in its place. -/
theorem flatMap_prefix_iff {us : List (Chunk stride)} :
    us.flatMap Subtype.val <+: data ↔ ∀ c u, us[c]? = some u →
    u.val <+: data.drop (c * stride) := by
  -- unit by unit; dropping a stride drops one unit
  induction us generalizing data with
  | nil => simp
  | cons u us ih =>
    constructor
    · rintro ⟨rest, hrest⟩ c v hv
      rw [List.flatMap_cons, List.append_assoc] at hrest
      cases c with
      | zero =>
        obtain rfl : u = v := by simpa using hv
        rw [Nat.zero_mul, List.drop_zero, ← hrest]
        exact List.prefix_append _ _
      | succ c =>
        have hdrop : data.drop stride = us.flatMap Subtype.val ++ rest := by
          rw [← hrest]
          exact List.drop_left' u.property
        have := ih.mp ⟨rest, hdrop.symm⟩ c v hv
        rwa [List.drop_drop, Nat.add_comm, ← Nat.succ_mul] at this
    · intro h
      obtain ⟨rest, hrest⟩ := h 0 u rfl
      rw [Nat.zero_mul, List.drop_zero] at hrest
      have hdrop : data.drop stride = rest := by
        rw [← hrest]
        exact List.drop_left' u.property
      have hus : us.flatMap Subtype.val <+: rest := ih.mpr fun c v hv => by
        rw [← hdrop, List.drop_drop, Nat.add_comm, ← Nat.succ_mul]
        exact h (c + 1) v hv
      obtain ⟨rest', hrest'⟩ := hus
      exact ⟨rest', by rw [List.flatMap_cons, List.append_assoc, hrest', hrest]⟩

/-- The same number of units in front of the same bytes. -/
theorem chunks_inj {us vs : List (Chunk stride)} (hlen : us.length = vs.length)
    (h : us.flatMap Subtype.val ++ rest = vs.flatMap Subtype.val ++ rest') :
    us = vs ∧ rest = rest' := by
  induction us generalizing vs with
  | nil =>
    obtain rfl : vs = [] := List.length_eq_zero_iff.mp hlen.symm
    exact ⟨rfl, h⟩
  | cons u us ih =>
    obtain ⟨v, vs, rfl⟩ := List.exists_cons_of_length_eq_add_one hlen.symm
    rw [List.flatMap_cons, List.flatMap_cons, List.append_assoc, List.append_assoc] at h
    obtain ⟨huv, h⟩ := List.append_inj h (u.property.trans v.property.symm)
    obtain ⟨rfl, hrest⟩ := ih (Nat.succ.inj hlen) h
    exact ⟨by rw [Subtype.ext huv], hrest⟩

/-- The first packet. -/
theorem Packet.encode_inj (hp : p.Ok) (hq : q.Ok) (h : p.encode ++ rest = q.encode ++ rest') :
    p = q ∧ rest = rest' := by
  have hbyte : ∀ a b : Nat, a < 256 → b < 256 → BitVec.ofNat 8 a = BitVec.ofNat 8 b → a = b := by
    intro a b ha hb heq
    have := congrArg BitVec.toNat heq
    rwa [BitVec.toNat_ofNat, BitVec.toNat_ofNat, Nat.mod_eq_of_lt ha, Nat.mod_eq_of_lt hb] at this
  -- the first byte tells the two kinds of packets apart
  unfold Packet.Ok at hp hq
  cases p with
  | same n u =>
    cases q with
    | same m v =>
      simp only [Packet.expand, List.length_replicate] at hp hq
      obtain ⟨hcode, h⟩ := List.cons.inj h
      have := hbyte _ _ (by omega) (by omega) hcode
      obtain ⟨huv, hrest⟩ := List.append_inj h (u.property.trans v.property.symm)
      exact ⟨by rw [Subtype.ext huv, show n = m by omega], hrest⟩
    | each vs =>
      simp only [Packet.expand, List.length_replicate] at hp hq
      obtain ⟨hcode, -⟩ := List.cons.inj h
      have := hbyte _ _ (by omega) (by omega) hcode
      omega
  | each us =>
    cases q with
    | same m v =>
      simp only [Packet.expand, List.length_replicate] at hp hq
      obtain ⟨hcode, -⟩ := List.cons.inj h
      have := hbyte _ _ (by omega) (by omega) hcode
      omega
    | each vs =>
      simp only [Packet.expand] at hp hq
      obtain ⟨hcode, h⟩ := List.cons.inj h
      have := hbyte _ _ (by omega) (by omega) hcode
      obtain ⟨rfl, hrest⟩ := chunks_inj (by omega) h
      exact ⟨rfl, hrest⟩

/-- Of two lists of packets that the same bytes start with, one starts with the other. -/
theorem prefix_or_prefix (hps : ∀ p ∈ ps, p.Ok) (hqs : ∀ q ∈ qs, q.Ok)
    (h : encode ps ++ rest = encode qs ++ rest') : ps <+: qs ∨ qs <+: ps := by
  induction ps generalizing qs with
  | nil => exact .inl List.nil_prefix
  | cons p ps ih =>
    cases qs with
    | nil => exact .inr List.nil_prefix
    | cons q qs =>
      rw [encode_cons, encode_cons, List.append_assoc, List.append_assoc] at h
      obtain ⟨rfl, hrest⟩ :=
        Packet.encode_inj (hps p List.mem_cons_self) (hqs q List.mem_cons_self) h
      have := ih (fun p' hp' => hps p' (List.mem_cons_of_mem _ hp'))
        (fun q' hq' => hqs q' (List.mem_cons_of_mem _ hq'))
        hrest
      rwa [List.prefix_cons_inj, List.prefix_cons_inj]

/-! ## Covering a number of units -/

/-- The bytes start with packets for exactly `n` units. -/
def Covers (stride : Nat) (data : List (BitVec 8)) (n : Nat) : Prop :=
  ∃ (ps : List (Packet stride)) (rest : List (BitVec 8)), (∀ p ∈ ps, p.Ok) ∧
    data = encode ps ++ rest ∧
    (expand ps).length = n

/-- The bytes end before there are packets for `n` units. -/
def Short (stride : Nat) (data : List (BitVec 8)) (n : Nat) : Prop :=
  ∀ (ps : List (Packet stride)) (rest : List (BitVec 8)), (∀ p ∈ ps, p.Ok) →
    data = encode ps ++ rest →
    (expand ps).length < n

/-- The packet that reaches `n` units goes further. -/
def Long (stride : Nat) (data : List (BitVec 8)) (n : Nat) : Prop :=
  ∃ (ps : List (Packet stride)) (p : Packet stride)
    (rest : List (BitVec 8)), (∀ q ∈ ps ++ [p], q.Ok) ∧
    data = encode (ps ++ [p]) ++ rest ∧ (expand ps).length < n ∧ n < (expand (ps ++ [p])).length

/-- Bytes that are nothing but packets for fewer units are too short. -/
theorem short_of_encode (hps : ∀ p ∈ ps, p.Ok) (hdata : data = encode ps)
    (hlt : (expand ps).length < n) :
    Short stride data n := by
  intro qs rest hqs hdata'
  rw [← List.append_nil (encode ps)] at hdata
  rcases prefix_or_prefix hps hqs (hdata.symm.trans hdata') with ⟨t, rfl⟩ | ⟨t, rfl⟩
  · -- no byte is left for the other packets
    have ht : encode t = [] := by
      rw [hdata, encode_append, List.append_assoc, List.append_cancel_left_eq] at hdata'
      exact (List.append_eq_nil_iff.mp hdata'.symm).1
    rwa [encode_eq_nil ht, List.append_nil]
  · rw [expand_append, List.length_append] at hlt
    omega

theorem Covers.not_short (h : Covers stride data n) : ¬ Short stride data n := by
  obtain ⟨ps, rest, hps, hdata, hlen⟩ := h
  intro hshort
  exact absurd (hshort ps rest hps hdata) (by omega)

theorem Covers.not_long (h : Covers stride data n) : ¬ Long stride data n := by
  obtain ⟨ps, rest, hps, hdata, hlen⟩ := h
  rintro ⟨qs, q, rest', hqs, hdata', hlt, hgt⟩
  -- the packets that cover `n` units and the ones that go further start alike
  rcases prefix_or_prefix hps hqs (hdata.symm.trans hdata') with ⟨t, ht⟩ | ⟨t, ht⟩
  · rcases List.eq_nil_or_concat t with rfl | ⟨t', q', rfl⟩
    · rw [List.append_nil] at ht
      rw [← ht] at hgt
      omega
    · rw [List.concat_eq_append, ← List.append_assoc] at ht
      obtain ⟨rfl, -⟩ := List.append_inj' ht rfl
      rw [expand_append, List.length_append] at hlt
      omega
  · rw [← ht, expand_append, List.length_append] at hlen
    omega

end RunLength
