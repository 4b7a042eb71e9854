import MishaOS.Spec.FormatRun

/-!
# Formats and the texts they prescribe

The formats of ordinary characters, conversions of integers with an optional
zero flag, width and length, characters, strings and per cent signs.  An
argument is converted to the type of its length; the sign comes before the zeros
that fill the width, and behind the blanks.

## Key results

- `readConversion_integer`, `readConversion_hh`: what is read of a conversion of an integer.
-/

namespace MishaOS

open Numeral (numeral)

/-! ## Integers -/

inductive IntSize
  | hh | h | int | l | ll | z
  deriving DecidableEq

inductive IntForm
  | d | u | x | X
  deriving DecidableEq

def IntSize.letters : IntSize → List Byte
  | .hh => ascii "hh"
  | .h => ascii "h"
  | .int => []
  | .l => ascii "l"
  | .ll => ascii "ll"
  | .z => ascii "z"

/-- The bits of the argument. -/
def IntSize.argBits : IntSize → Nat
  | .ll => 64
  | _ => 32

def IntSize.argOf : (size : IntSize) → BitVec size.argBits → Arg
  | .ll, v => .llong v
  | .hh, v | .h, v | .int, v | .l, v | .z, v => .int v

/-- The bits of the type that the argument is converted to. -/
def IntSize.bits : IntSize → Nat
  | .hh => 8
  | .h => 16
  | .ll => 64
  | _ => 32

def IntForm.letter : IntForm → Byte
  | .d => chr 'd'
  | .u => chr 'u'
  | .x => chr 'x'
  | .X => chr 'X'

def IntForm.base : IntForm → Nat
  | .d | .u => 10
  | .x | .X => 16

def IntForm.digit (form : IntForm) (d : Nat) : Byte :=
  BitVec.ofNat 8 (if d < 10 then 48 + d else if form = .X then 55 + d else 87 + d)

/-- A conversion of an integer, and its argument.  The width zero is none. -/
structure IntItem where
  zero : Bool
  width : Nat
  width_lt : width < 256
  size : IntSize
  form : IntForm
  arg : BitVec size.argBits

def IntItem.flag (i : IntItem) : List Byte := if i.zero then [chr '0'] else []

def IntItem.widthText (i : IntItem) : List Byte :=
  if i.width = 0 then [] else (numeral 10 i.width).map IntForm.d.digit

/-- What is between the per cent sign and what follows. -/
def IntItem.body (i : IntItem) : List Byte :=
  i.flag ++ i.widthText ++ i.size.letters ++ [i.form.letter]

/-- The argument, converted. -/
def IntItem.value (i : IntItem) : Int :=
  match i.form with
  | .d => (i.arg.setWidth i.size.bits).toInt
  | _ => (i.arg.setWidth i.size.bits).toNat

def IntItem.sign (i : IntItem) : List Byte := if i.value < 0 then [chr '-'] else []

def IntItem.digits (i : IntItem) : List Byte :=
  (numeral i.form.base i.value.natAbs).map i.form.digit

/-- The characters that fill the width. -/
def IntItem.fill (i : IntItem) : Nat := i.width - (i.sign.length + i.digits.length)

/-- What C99 prescribes. -/
def IntItem.text (i : IntItem) : List Byte :=
  if i.zero then i.sign ++ List.replicate i.fill (chr '0') ++ i.digits
  else List.replicate i.fill (chr ' ') ++ i.sign ++ i.digits

/-! ## Items -/

inductive FormatItem
  | ordinary (c : Byte) (hzero : 0 ≠ c) (hc : c ≠ chr '%')
  | integer (i : IntItem)
  | char (v : BitVec 32)
  | string (s : CString)
  | percent

def FormatItem.written : FormatItem → List Byte
  | .ordinary c _ _ => [c]
  | .integer i => chr '%' :: i.body
  | .char _ => ascii "%c"
  | .string _ => ascii "%s"
  | .percent => ascii "%%"

def FormatItem.list : FormatItem → List Arg
  | .integer i => [i.size.argOf i.arg]
  | .char v => [.int v]
  | .string s => [.str s]
  | _ => []

def FormatItem.text : FormatItem → List Byte
  | .ordinary c _ _ => [c]
  | .integer i => i.text
  | .char v => [v.setWidth 8]
  | .string s => s.bytes
  | .percent => ascii "%"

/-! ## Reading a conversion -/

variable {l rest : List Byte} {p : Byte → Bool}

/-- A run of characters, up to one that is not of them. -/
theorem takeWhile_run {a b : List Byte} (ha : ∀ c ∈ a, p c = true)
    (hb : ∀ c, b.head? = some c → p c = false) :
    (a ++ b).takeWhile p = a ∧ (a ++ b).dropWhile p = b := by
  induction a with
  | nil =>
    cases b with
    | nil => exact ⟨rfl, rfl⟩
    | cons c b => simp [hb c rfl]
  | cons c a ih =>
    obtain ⟨htake, hdrop⟩ := ih fun d hd => ha d (List.mem_cons_of_mem _ hd)
    simp [ha c List.mem_cons_self, htake, hdrop]

/-- The digits are those of `isdigit`. -/
theorem digit_isdigit : ∀ d < 10, isdigit (IntForm.d.digit d) = true := by decide

/-- No digit but `0` is a flag. -/
theorem digit_isFlag : ∀ d < 10, d ≠ 0 → isFlag (IntForm.d.digit d) = false := by decide

/-- The value of a digit. -/
theorem digit_toNat : ∀ d < 10, (IntForm.d.digit d).toNat - 48 = d := by decide

/-- The field width is written in digits. -/
theorem widthText_isdigit (i : IntItem) : ∀ c ∈ i.widthText, isdigit c = true := by
  unfold IntItem.widthText
  split
  · nofun
  · intro c hc
    obtain ⟨d, hd, rfl⟩ := List.mem_map.mp hc
    exact digit_isdigit d (Numeral.lt_of_mem_numeral (by decide) hd)

/-- They have its value. -/
theorem widthText_value (i : IntItem) : digitsValue 0 i.widthText = i.width := by
  unfold IntItem.widthText
  split
  · rename_i hwidth
    rw [hwidth]
    rfl
  · unfold digitsValue
    rw [List.foldl_map]
    calc (numeral 10 i.width).foldl (fun n d => n * 10 + ((IntForm.d.digit d).toNat - 48)) 0
        = (numeral 10 i.width).foldl (fun n d => n * 10 + d) 0 := by
          refine List.foldl_ext _ _ _ fun n d hd => ?_
          rw [digit_toNat d (Numeral.lt_of_mem_numeral (by decide) hd)]
      _ = i.width := Numeral.foldl_numeral 10 i.width

/-- The width does not start with a zero. -/
theorem widthText_head (i : IntItem) : ∀ c, i.widthText.head? = some c → isFlag c = false := by
  unfold IntItem.widthText
  split
  · nofun
  · rename_i hwidth
    have hcons : ∃ d ds, numeral 10 i.width = d :: ds ∧ d ≠ 0 :=
      Numeral.numeral_eq_cons (Nat.pos_of_ne_zero hwidth)
    obtain ⟨d, ds, hnumeral, hd⟩ := hcons
    have hlt : d < 10 := Numeral.lt_of_mem_numeral (by decide) (hnumeral ▸ List.mem_cons_self)
    rw [hnumeral]
    intro c hc
    rw [← Option.some.inj hc]
    exact digit_isFlag d hlt hd

/-- The flag is one. -/
theorem flag_isFlag (i : IntItem) : ∀ c ∈ i.flag, isFlag c = true := by
  unfold IntItem.flag
  split
  · intro c hc
    rw [List.mem_singleton.mp hc]
    rfl
  · nofun

/-- A letter behind the width: neither a flag, a digit, an asterisk nor a dot. -/
def IsLetter (c : Byte) : Prop := isFlag c = false ∧ isdigit c = false ∧ c ≠ chr '*' ∧ c ≠ chr '.'

instance (c : Byte) : Decidable (IsLetter c) := inferInstanceAs (Decidable (_ ∧ _))

/-- Flags and width come first. -/
theorem readConversion_parts (i : IntItem) (hl : ∀ c, l.head? = some c → IsLetter c) :
    readConversion (i.flag ++ (i.widthText ++ l)) =
      match (readLength l).2 with
      | [] => none
      | specifier :: rest =>
        some (⟨i.flag, ⟨i.widthText, false⟩, none, (readLength l).1, specifier⟩, rest) := by
  -- the flags end at the width, or at the letter if there is none
  have hhead : ∀ c, (i.widthText ++ l).head? = some c → isFlag c = false := by
    intro c hc
    cases hwidth : i.widthText with
    | nil =>
      rw [hwidth] at hc
      exact (hl c hc).1
    | cons d ds =>
      rw [hwidth] at hc
      exact widthText_head i c (hwidth ▸ hc)
  obtain ⟨htakeFlag, hdropFlag⟩ := takeWhile_run (flag_isFlag i) hhead
  obtain ⟨htakeDigit, hdropDigit⟩ := takeWhile_run (widthText_isdigit i) fun c hc => (hl c hc).2.1
  have hnumber : readNumber (i.widthText ++ l) = (⟨i.widthText, false⟩, l) := by
    unfold readNumber
    rw [htakeDigit, hdropDigit, if_neg fun hstar => (hl _ hstar).2.2.1 rfl]
  have hprecision : readPrecision l = (none, l) := if_neg fun hdot => (hl _ hdot).2.2.2 rfl
  unfold readConversion
  rw [htakeFlag, hdropFlag, hnumber]
  dsimp only
  generalize readPrecision l = precision at hprecision ⊢
  subst hprecision
  rfl

/-! ## The conversions of the items -/

/-- The length that is read. -/
def IntSize.length : IntSize → Length
  | .hh => .H
  | .h => .h
  | .int => .none
  | .l => .l
  | .ll => .q
  | .z => .z

/-- A letter follows them. -/
theorem letters_head (size : IntSize) (form : IntForm) (rest : List Byte) :
    ∀ c, (size.letters ++ form.letter :: rest).head? = some c → IsLetter c := by
  intro c hc
  cases size <;> cases form <;> rw [← Option.some.inj hc] <;> decide

/-- The length modifier is read. -/
theorem readLength_letters (size : IntSize) (hsize : size ≠ .hh) (form : IntForm)
    (rest : List Byte) :
    readLength (size.letters ++ form.letter :: rest) = (size.length, form.letter :: rest) := by
  cases size <;> cases form <;> first | exact absurd rfl hsize | rfl

/-- The parts of an item. -/
theorem body_eq (i : IntItem) (rest : List Byte) :
    i.body ++ rest = i.flag ++ (i.widthText ++ (i.size.letters ++ i.form.letter :: rest)) := by
  simp [IntItem.body]

/-- An item is read as it was written. -/
theorem readConversion_integer (i : IntItem) (hsize : i.size ≠ .hh) (rest : List Byte) :
    readConversion (i.body ++ rest) =
      some (⟨i.flag, ⟨i.widthText, false⟩, none, i.size.length, i.form.letter⟩, rest) := by
  rw [body_eq, readConversion_parts i (letters_head i.size i.form rest),
    readLength_letters i.size hsize]

/-- The second `h` is taken for the specifier. -/
theorem readConversion_hh (i : IntItem) (hsize : i.size = .hh) (rest : List Byte) :
    readConversion (i.body ++ rest) =
      some (⟨i.flag, ⟨i.widthText, false⟩, none, .H, chr 'h'⟩, i.form.letter :: rest) := by
  rw [body_eq, readConversion_parts i (letters_head i.size i.form rest), hsize]
  rfl

end MishaOS
