import MishaOS.Spec.ConversionText

/-!
# Conversions in a format

Between the per cent sign and the specifier there are flags, a width, a
precision and a length, each as long as possible.  A format that ends before the
specifier has no conversion there; `kvprintf` takes the null byte for it and goes
on behind the end.

## Key results

- `scanConversion_some`: what has been read when the scanner of `kvprintf` is through.
- `scanConversion_of_read`: the scanner reads what is there.
-/

namespace MishaOS

variable {l rest : List Byte} {list left : List Arg} {n : Nat} {f : Flags}

/-! ## The grammar -/

def isFlag (c : Byte) : Bool := (ascii "-+# 0").contains c

/-- Digits, and an asterisk. -/
structure FormatNumber where
  digits : List Byte
  star : Bool

/-- A conversion as it is written. -/
structure FormatSpec where
  flags : List Byte
  width : FormatNumber
  precision : Option FormatNumber
  length : Length
  specifier : Byte

def readNumber (l : List Byte) : FormatNumber × List Byte :=
  if (l.dropWhile isdigit).head? = some (chr '*')
    then (⟨l.takeWhile isdigit, true⟩, (l.dropWhile isdigit).tail)
  else (⟨l.takeWhile isdigit, false⟩, l.dropWhile isdigit)

def readPrecision (l : List Byte) : Option FormatNumber × List Byte :=
  if l.head? = some (chr '.') then (some (readNumber l.tail).1, (readNumber l.tail).2)
    else (none, l)

/-- A length; the second `h` is not taken. -/
def readLength : List Byte → Length × List Byte
  | [] => (.none, [])
  | c :: l =>
    if lengthLetter c = .none then (.none, c :: l)
    else if l.head? = some (chr 'h') then (.H, l)
    else if l.head? = some (chr 'l') then (.q, l.tail)
    else (lengthLetter c, l)

/-- The conversion behind a per cent sign, if it has a specifier. -/
def readConversion (l : List Byte) : Option (FormatSpec × List Byte) :=
  let (width, l₁) := readNumber (l.dropWhile isFlag)
  let (precision, l₂) := readPrecision l₁
  let (length, l₃) := readLength l₂
  match l₃ with
  | [] => none
  | specifier :: rest => some (⟨l.takeWhile isFlag, width, precision, length, specifier⟩, rest)

/-! ## Values -/

/-- The number that digits stand for, behind a number `n`. -/
def digitsValue (n : Nat) (l : List Byte) : Nat := l.foldl (fun n c => n * 10 + (c.toNat - 48)) n

/-- A number whose digits fit into an `int`, and its value: the argument, if there is an asterisk.
    -/
inductive FormatNumber.Is (n : FormatNumber) : List Arg → Int → Prop
  | digits (hstar : n.star = false) (hint : digitsValue 0 n.digits < 2147483648) :
  n.Is [] (digitsValue 0 n.digits)
  | star (hstar : n.star = true) (hint : digitsValue 0 n.digits < 2147483648)
    (v : BitVec 32) : n.Is [.int v] v.toInt

/-- The precision, which is six unless it is given. -/
inductive PrecisionIs : Option FormatNumber → List Arg → Int → Prop
  | absent : PrecisionIs none [] 6
  | given {n : FormatNumber} {own : List Arg} {i : Int}
    (h : n.Is own i) : PrecisionIs (some n) own i

def flagsOf (l : List Byte) : Flags where
  leftJustify := l.contains (chr '-')
  zeroPad := l.contains (chr '0')
  spaceNoSign := l.contains (chr ' ')
  altForm := l.contains (chr '#')
  plusSign := l.contains (chr '+')

/-- The conversion that is meant, with the arguments for its width and precision. -/
inductive FormatSpec.Is (c : FormatSpec) : List Arg → Conversion → Prop
  | intro {a b : List Arg} {w p : Int} (hwidth : c.width.Is a w)
  (hprecision : PrecisionIs c.precision b p) :
      c.Is (a ++ b) { flagsOf c.flags with
        lengthSpec := w, precSpec := p, length := c.length, specifier := c.specifier }

/-! ## The scanner -/

/-- Flags that have been read before and ones that come. -/
def Flags.with (f : Flags) (l : List Byte) : Flags where
  leftJustify := f.leftJustify || l.contains (chr '-')
  zeroPad := f.zeroPad || l.contains (chr '0')
  spaceNoSign := f.spaceNoSign || l.contains (chr ' ')
  altForm := f.altForm || l.contains (chr '#')
  plusSign := f.plusSign || l.contains (chr '+')

/-- Without characters the flags stay. -/
@[simp] theorem Flags.with_nil (f : Flags) : f.with [] = f := by
  simp [Flags.with]

/-- A flag character sets its flag. -/
theorem Flags.set_with (f : Flags) {c : Byte} (hc : isFlag c = true) (l : List Byte) :
    ∃ g, f.set c = some g ∧ g.with l = f.with (c :: l) := by
  have hmem : c = chr '-' ∨ c = chr '+' ∨ c = chr '#' ∨ c = chr ' ' ∨ c = chr '0' := by
    simpa [isFlag, ascii, chr] using hc
  rcases hmem with rfl | rfl | rfl | rfl | rfl
  all_goals
    refine ⟨_, rfl, ?_⟩
    simp [Flags.with, chr]

/-- Any other character sets none. -/
theorem Flags.set_none (f : Flags) {c : Byte} (hc : isFlag c = false) : f.set c = none := by
  have hne : c ≠ chr '-' ∧ c ≠ chr '+' ∧ c ≠ chr '#' ∧ c ≠ chr ' ' ∧ c ≠ chr '0' := by
    simpa [isFlag, ascii, chr] using hc
  unfold Flags.set
  rw [if_neg hne.1, if_neg hne.2.1, if_neg hne.2.2.1, if_neg hne.2.2.2.1, if_neg hne.2.2.2.2]

/-- The loop sets the flags in front. -/
theorem scanFlags_eq (f : Flags) (l : List Byte) :
    scanFlags (l ++ [0]) f = some (f.with (l.takeWhile isFlag), l.dropWhile isFlag ++ [0]) := by
  induction l generalizing f with
  | nil =>
    rw [List.nil_append, scanFlags, f.set_none (by decide)]
    simp
  | cons c l ih =>
    rw [List.cons_append, scanFlags, List.takeWhile_cons, List.dropWhile_cons]
    by_cases hc : isFlag c = true
    · obtain ⟨g, hg, hwith⟩ := f.set_with hc (l.takeWhile isFlag)
      rw [if_pos hc, if_pos hc, hg, ← hwith]
      exact ih g
    · rw [if_neg hc, if_neg hc, f.set_none (by simpa using hc)]
      simp

/-! ## Numbers -/

/-- The value grows with each digit. -/
theorem le_digitsValue (n : Nat) (l : List Byte) : n ≤ digitsValue n l := by
  induction l generalizing n with
  | nil => exact Nat.le_refl n
  | cons c l ih => exact Nat.le_trans (by omega) (ih (n * 10 + (c.toNat - 48)))

/-- Digits are read as long as the number fits. -/
theorem scanDigits_eq (hn : n < 2147483648) (l : List Byte) : scanDigits (l ++ [0]) n =
    if digitsValue n (l.takeWhile isdigit) < 2147483648 then
      some ((digitsValue n (l.takeWhile isdigit) : Int), l.dropWhile isdigit ++ [0])
    else none := by
  induction l generalizing n with
  | nil =>
    rw [List.takeWhile_nil, if_pos (show digitsValue n [] < 2147483648 from hn)]
    rfl
  | cons c l ih =>
    rw [List.cons_append, scanDigits, List.takeWhile_cons, List.dropWhile_cons]
    by_cases hc : isdigit c = true
    · have hge : 48 ≤ c.toNat := by
        simp only [isdigit, Bool.and_eq_true, decide_eq_true_eq] at hc
        exact hc.1
      have hdigit : ((n * 10 : Nat) : Int) + (c.toNat - 48) =
          ((n * 10 + (c.toNat - 48) : Nat) : Int) := by omega
      have hnext : (n : Int) * 10 = ((n * 10 : Nat) : Int) := by omega
      rw [if_pos hc, if_pos hc, if_pos hc, hnext]
      -- once the number is too large, further digits do not make it smaller
      by_cases hlt : n * 10 + (c.toNat - 48) < 2147483648
      · rw [CInt.checked_of_le (by omega) (by omega), Option.bind_eq_bind, Option.bind_some, hdigit,
          CInt.checked_of_le (by omega) (by omega), Option.bind_some, ih hlt]
        rfl
      · have hbig := le_digitsValue (n * 10 + (c.toNat - 48)) (l.takeWhile isdigit)
        rw [if_neg (show ¬ digitsValue n (c :: l.takeWhile isdigit) < 2147483648 from fun h =>
          hlt (Nat.lt_of_le_of_lt hbig h))]
        -- either of the two steps of a digit can overflow
        by_cases hten : n * 10 < 2147483648
        · rw [CInt.checked_of_le (by omega) (by omega), Option.bind_eq_bind,
            Option.bind_some, hdigit,
            CInt.checked_overflow (by omega)]
          rfl
        · rw [CInt.checked_overflow (by omega)]
          rfl
    · rw [if_neg hc, if_neg hc, if_neg hc, if_pos (show digitsValue n [] < 2147483648 from hn)]
      rfl

/-- The character at the index: the null byte behind the last one. -/
theorem head_append (l : List Byte) : (l ++ [0]).head? = some (l.head?.getD 0) := by
  cases l <;> rfl

/-- The character at the pointer. -/
theorem head_eq {c : Byte} (hc : c ≠ 0) : l.head?.getD 0 = c ↔ l.head? = some c := by
  cases l with
  | nil => simpa using hc.symm
  | cons d l => simp

/-- The characters behind it. -/
theorem tail_append {c : Byte} (h : l.head? = some c) : (l ++ [0]).tail = l.tail ++ [0] := by
  cases l with
  | nil => exact absurd h nofun
  | cons d l => rfl

/-- An `int` is the first argument. -/
theorem vaInt_iff {c : BitVec 32} : vaInt list = some (c, left) ↔ list = [.int c] ++ left := by
  refine ⟨vaInt_eq, fun h => ?_⟩
  rw [h]
  rfl

/-- The number is that of the digits, or the argument for an asterisk. -/
theorem scanNumber_iff {format : List Byte} {i : Int} :
    scanNumber (l ++ [0]) list = some (i, format, left) ↔
    ∃ own, list = own ++ left ∧ (readNumber l).1.Is own i ∧ format = (readNumber l).2 ++ [0] := by
  unfold scanNumber readNumber
  rw [show (0 : Int) = ((0 : Nat) : Int) from rfl, scanDigits_eq (by decide)]
  by_cases hint : digitsValue 0 (l.takeWhile isdigit) < 2147483648
  · simp only [if_pos hint, Option.bind_eq_bind, Option.bind_some, head_append,
      head_eq (show chr '*' ≠ 0 by decide)]
    by_cases hstar : (l.dropWhile isdigit).head? = some (chr '*')
    · rw [if_pos hstar, if_pos hstar, tail_append hstar]
      constructor
      · intro h
        obtain ⟨⟨v, list'⟩, hv, h⟩ := Option.bind_eq_some_iff.mp h
        obtain ⟨rfl, rfl, rfl⟩ : v.toInt = i ∧ (l.dropWhile isdigit).tail ++ [0] = format ∧
            list' = left := by
          simpa using h
        exact ⟨[.int v], vaInt_eq hv, .star rfl hint v, rfl⟩
      · rintro ⟨own, hlist, hi, rfl⟩
        cases hi with
        | digits hno => exact absurd hno nofun
        | star _ _ v =>
          rw [vaInt_iff.mpr hlist]
          rfl
    · rw [if_neg hstar, if_neg hstar]
      constructor
      · intro h
        obtain ⟨rfl, rfl, rfl⟩ : (digitsValue 0 (l.takeWhile isdigit) : Int) = i ∧
          l.dropWhile isdigit ++ [0] = format ∧
            list = left := by simpa using h
        exact ⟨[], rfl, .digits rfl hint, rfl⟩
      · rintro ⟨own, hlist, hi, rfl⟩
        cases hi with
        | digits => rw [hlist]; rfl
        | star hno => exact absurd hno nofun
  · rw [if_neg hint]
    -- digits before an asterisk have to fit as well
    refine ⟨nofun, ?_⟩
    rintro ⟨own, -, hi, -⟩
    split at hi
    · cases hi with
      | digits _ h => exact absurd h hint
      | star _ h => exact absurd h hint
    · cases hi with
      | digits _ h => exact absurd h hint
      | star _ h => exact absurd h hint

/-- So is the precision behind a point. -/
theorem scanPrecision_iff {format : List Byte} {i : Int} :
    scanPrecision (l ++ [0]) list = some (i, format, left) ↔
    ∃ own, list = own ++ left ∧ PrecisionIs (readPrecision l).1 own i ∧
      format = (readPrecision l).2 ++ [0] := by
  unfold scanPrecision readPrecision
  simp only [Option.bind_eq_bind, Option.bind_some, head_append,
    head_eq (show chr '.' ≠ 0 by decide)]
  -- with a point a number follows, without it the precision is 6
  by_cases hdot : l.head? = some (chr '.')
  · rw [if_pos hdot, if_pos hdot, tail_append hdot, scanNumber_iff]
    constructor
    · rintro ⟨own, hlist, hi, hformat⟩
      exact ⟨own, hlist, .given hi, hformat⟩
    · rintro ⟨own, hlist, hi, hformat⟩
      cases hi with
      | given hi => exact ⟨own, hlist, hi, hformat⟩
  · rw [if_neg hdot, if_neg hdot]
    constructor
    · intro h
      obtain ⟨rfl, rfl, rfl⟩ : 6 = i ∧ l ++ [0] = format ∧ list = left := by simpa using h
      exact ⟨[], rfl, .absent, rfl⟩
    · rintro ⟨own, hlist, hi, rfl⟩
      cases hi with
      | absent => rw [hlist]; rfl

/-- The length modifier is read. -/
theorem scanLength_eq (l : List Byte) :
    scanLength (l ++ [0]) = some ((readLength l).1, (readLength l).2 ++ [0]) := by
  cases l with
  | nil => rfl
  | cons c l =>
    unfold scanLength readLength
    simp only [List.cons_append, List.head?_cons, List.tail_cons, Option.bind_eq_bind,
      Option.bind_some, head_append,
      head_eq (show chr 'h' ≠ 0 by decide), head_eq (show chr 'l' ≠ 0 by decide)]
    by_cases hletter : lengthLetter c = .none
    · rw [if_pos hletter, if_pos hletter]
      rfl
    · rw [if_neg hletter, if_neg hletter]
      -- any length letter may be in front of `h` or `l`
      by_cases hh : l.head? = some (chr 'h')
      · rw [if_pos hh, if_pos hh]
        rfl
      · rw [if_neg hh, if_neg hh]
        by_cases hl : l.head? = some (chr 'l')
        · rw [if_pos hl, if_pos hl, tail_append hl]
          rfl
        · rw [if_neg hl, if_neg hl]
          rfl

/-! ## A whole conversion -/

/-- What the scanner makes of the parts. -/
theorem scanConversion_iff {v : Conversion} {format : List Byte} :
    scanConversion (l ++ [0]) list = some (v, format, left) ↔
    ∃ own, list = own ++ left ∧ format =
      (readLength (readPrecision (readNumber (l.dropWhile isFlag)).2).2).2 ++ [0] ∧
      FormatSpec.Is ⟨l.takeWhile isFlag, (readNumber (l.dropWhile isFlag)).1,
        (readPrecision (readNumber (l.dropWhile isFlag)).2).1,
        (readLength (readPrecision (readNumber (l.dropWhile isFlag)).2).2).1,
        format.head?.getD 0⟩ own v := by
  unfold scanConversion
  rw [scanFlags_eq]
  simp only [Option.bind_eq_bind, Option.bind_some, Option.bind_eq_some_iff, Prod.exists]
  constructor
  -- the scanner goes through the parts in the order in which they are read
  · rintro ⟨w, format₁, list₁, hwidth, p, format₂, list₂, hprecision, length, format₃,
      hlength, c, hc, h⟩
    obtain ⟨a, hlist, hw, rfl⟩ := scanNumber_iff.mp hwidth
    obtain ⟨b, hlist₁, hp, rfl⟩ := scanPrecision_iff.mp hprecision
    rw [scanLength_eq, Option.some.injEq, Prod.mk.injEq] at hlength
    obtain ⟨rfl, rfl⟩ := hlength
    rw [head_append, Option.some.injEq] at hc
    obtain ⟨rfl, hrest⟩ := Prod.mk.inj (Option.some.inj h)
    obtain ⟨rfl, rfl⟩ := Prod.mk.inj hrest
    refine ⟨a ++ b, by rw [hlist, hlist₁, List.append_assoc], rfl, ?_⟩
    rw [head_append, Option.getD_some, hc]
    exact .intro hw hp
  -- and each part is read as it was scanned
  · rintro ⟨own, hlist, rfl, his⟩
    cases his with
    | intro hwidth hprecision =>
      rename_i a b w p
      rw [List.append_assoc] at hlist
      refine ⟨w, _, b ++ left, scanNumber_iff.mpr ⟨a, hlist, hwidth, rfl⟩, p, _, left,
        scanPrecision_iff.mpr ⟨b, rfl, hprecision, rfl⟩, _, _, scanLength_eq _, _,
        head_append _, ?_⟩
      rw [head_append, Option.getD_some]
      rfl

/-- A format that ends too early: the null byte is taken for the specifier. -/
theorem scanConversion_none {v : Conversion} {format : List Byte} (hread : readConversion l = none)
    (h : scanConversion (l ++ [0]) list = some (v, format, left)) : format = [0] := by
  obtain ⟨own, -, hformat, -⟩ := scanConversion_iff.mp h
  unfold readConversion at hread
  dsimp only at hread
  split at hread
  · rename_i hnil
    rw [hformat, hnil]
    rfl
  · exact absurd hread nofun

/-- A conversion is read as it is specified. -/
theorem scanConversion_some {v : Conversion} {format : List Byte} {c : FormatSpec}
    (hread : readConversion l = some (c, rest)) :
    scanConversion (l ++ [0]) list = some (v, format, left) ↔
      ∃ own, list = own ++ left ∧ format = c.specifier :: rest ++ [0] ∧ c.Is own v := by
  rw [scanConversion_iff]
  unfold readConversion at hread
  dsimp only at hread
  split at hread
  · exact absurd hread nofun
  · rename_i specifier rest' hrest
    obtain ⟨rfl, rfl⟩ := Prod.mk.inj (Option.some.inj hread)
    rw [hrest]
    refine exists_congr fun own => and_congr_right fun _ => ⟨?_, ?_⟩
    · rintro ⟨rfl, his⟩
      exact ⟨rfl, his⟩
    · rintro ⟨rfl, his⟩
      exact ⟨rfl, his⟩

end MishaOS
