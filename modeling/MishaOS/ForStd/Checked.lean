import Mathlib.Data.List.Basic

/-!
# Checked reads

A packet is a list of bytes, and a pointer into it is an offset.  A read that
breaks a rule ends in a `Fault` that says which one: the code would have gone on
with whatever the memory holds.

## Key results

- `byteAt_eq_ok`, `be16At_eq_ok`: a read succeeds exactly inside the packet.
- `bytesAt_eq`, `fieldAt_eq`: the bytes of a range inside the packet.
-/

namespace Checked

inductive Fault
  /-- A read behind the last byte of the packet. -/
  | outside (i : Nat)
  /-- A read behind the end of the field it is meant for. -/
  | overrun (i : Nat)
  /-- A read through the null pointer. -/
  | null
deriving DecidableEq, Repr

variable {α β : Type} {data front back : List (BitVec 8)} {i n : Nat} {b : BitVec 8}

/-- The byte at offset `i`. -/
def byteAt (data : List (BitVec 8)) (i : Nat) : Except Fault (BitVec 8) :=
  match data[i]? with
  | some b => .ok b
  | none => .error (.outside i)

/-- The half word at offset `i`, most significant byte first. -/
def be16At (data : List (BitVec 8)) (i : Nat) : Except Fault (BitVec 16) := do
  let a ← byteAt data i
  let b ← byteAt data (i + 1)
  return a ++ b

/-- The `n` bytes from offset `i` on. -/
def bytesAt (data : List (BitVec 8)) : Nat → Nat → Except Fault (List (BitVec 8))
  | _, 0 => .ok []
  | i, n + 1 => do
    let b ← byteAt data i
    let l ← bytesAt data (i + 1) n
    return b :: l

/-- A piece of the packet that a pointer is meant to reach. -/
structure Field where
  pos : Nat
  len : Nat
deriving DecidableEq, Repr

/-- The first `n` bytes of a field. -/
def fieldAt (data : List (BitVec 8)) (f : Field) (n : Nat) : Except Fault (List (BitVec 8)) :=
  if f.len < n then .error (.overrun (f.pos + f.len)) else bytesAt data f.pos n

/-- The first `n` bytes of a field, through a pointer that may be null. -/
def derefAt (data : List (BitVec 8)) (f : Option Field) (n : Nat) :
    Except Fault (List (BitVec 8)) :=
  match f with
  | some f => fieldAt data f n
  | none => .error .null

/-- A computation with reads succeeds when its first part does, and the rest. -/
theorem bind_eq_ok {x : Except Fault α} {f : α → Except Fault β} {y : β} :
    (x >>= f) = .ok y ↔ ∃ a, x = .ok a ∧ f a = .ok y := by
  cases x with
  | error e => simp [bind, Except.bind]
  | ok a => simp [bind, Except.bind]

/-- What succeeds goes on. -/
@[simp] theorem ok_bind (a : α) (f : α → Except Fault β) :
    ((Except.ok a : Except Fault α) >>= f) = f a := rfl

/-- A value is a success. -/
@[simp] theorem pure_eq_ok (a : α) : (pure a : Except Fault α) = .ok a := rfl

/-- The byte that is read. -/
theorem byteAt_eq_ok : byteAt data i = .ok b ↔ data[i]? = some b := by
  unfold byteAt
  cases data[i]? with
  | none => simp
  | some c => simp

/-- It is in the data. -/
theorem byteAt_lt (h : byteAt data i = .ok b) : i < data.length :=
  (List.getElem?_eq_some_iff.mp (byteAt_eq_ok.mp h)).1

/-- Behind the data there is a fault. -/
theorem byteAt_outside (h : data.length ≤ i) : byteAt data i = .error (.outside i) := by
  unfold byteAt
  rw [List.getElem?_eq_none h]

/-- The half word that is read. -/
theorem be16At_eq_ok {w : BitVec 16} : be16At data i = .ok w ↔
    ∃ a b, data[i]? = some a ∧ data[i + 1]? = some b ∧ w = a ++ b := by
  simp only [be16At, bind_eq_ok, byteAt_eq_ok, pure_eq_ok, Except.ok.injEq, eq_comm (a := w)]
  constructor
  · intro ⟨a, ha, b, hb, hw⟩
    exact ⟨a, b, ha, hb, hw⟩
  · intro ⟨a, b, ha, hb, hw⟩
    exact ⟨a, ha, b, hb, hw⟩

/-- It is in the data. -/
theorem be16At_lt {w : BitVec 16} (h : be16At data i = .ok w) : i + 1 < data.length := by
  obtain ⟨a, b, -, hb, -⟩ := be16At_eq_ok.mp h
  exact (List.getElem?_eq_some_iff.mp hb).1

/-- A half word in the data can be read. -/
theorem be16At_exists (h : i + 1 < data.length) : ∃ w, be16At data i = .ok w :=
  ⟨data[i] ++ data[i + 1], be16At_eq_ok.mpr
    ⟨data[i], data[i + 1], List.getElem?_eq_getElem (by omega), List.getElem?_eq_getElem h, rfl⟩⟩

/-! ## Known bytes -/

/-- The half word behind a piece. -/
theorem be16At_append (front : List (BitVec 8)) (a b : BitVec 8) (back : List (BitVec 8)) :
    be16At (front ++ a :: b :: back) front.length = .ok (a ++ b) := by
  simp [be16At_eq_ok]

/-- Bytes in the data can be read. -/
theorem bytesAt_eq (h : i + n ≤ data.length) : bytesAt data i n = .ok ((data.drop i).take n) := by
  induction n generalizing i with
  | zero => simp [bytesAt]
  | succ n ih =>
    have hlt : i < data.length := by omega
    rw [bytesAt, byteAt_eq_ok.mpr (List.getElem?_eq_getElem hlt), ok_bind, ih (by omega), ok_bind,
      List.drop_eq_getElem_cons hlt, List.take_succ_cons]
    rfl

/-- Bytes that are read are in the data. -/
theorem bytesAt_le {l : List (BitVec 8)} (h : bytesAt data i (n + 1) = .ok l) :
    i + (n + 1) ≤ data.length := by
  induction n generalizing i l with
  | zero =>
    obtain ⟨b, hb, -⟩ := bind_eq_ok.mp h
    exact byteAt_lt hb
  | succ n ih =>
    obtain ⟨b, hb, hrest⟩ := bind_eq_ok.mp h
    obtain ⟨l', hl', -⟩ := bind_eq_ok.mp hrest
    have := ih hl'
    omega

/-- A field inside the packet can be read as far as it goes. -/
theorem fieldAt_eq {f : Field} (hf : f.pos + f.len ≤ data.length) (hn : n ≤ f.len) :
    fieldAt data f n = .ok ((data.drop f.pos).take n) := by
  rw [fieldAt, if_neg (by omega), bytesAt_eq (by omega)]

/-- A field that is too short is overrun. -/
theorem fieldAt_short {f : Field} (hn : f.len < n) :
    fieldAt data f n = .error (.overrun (f.pos + f.len)) := by
  rw [fieldAt, if_pos hn]

end Checked
