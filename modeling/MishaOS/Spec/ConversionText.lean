import MishaOS.Spec.IntText

/-!
# What a conversion prints

A conversion takes at most one argument besides its width and its precision, and
prints a text that depends on nothing else.  Both are stated as a relation: a
conversion that has no argument of its type, or whose number does not fit, is
not in it.

## Key results

- `convert_sound`, `convert_complete`: a conversion succeeds if it is in the relation.
-/

namespace MishaOS

variable {v : Conversion} {s s' : Printed} {own rest list : List Arg} {l text : List Byte} {i : Int}
    {length : Length}
  {α β : Type}

/-! ## Arguments -/

/-- A function that takes arguments from the front of a list. -/
def FromFront (f : List Arg → Option (α × List Arg)) : Prop :=
  ∀ list r rest, f list = some (r, rest) ↔ ∃ own, list = own ++ rest ∧ f own = some (r, [])

/-- One argument, if it has the right type. -/
theorem fromFront_head {f : List Arg → Option (α × List Arg)} (hnil : f [] = none)
    (hcons : ∀ a list, f (a :: list) = (f [a]).map fun r => (r.1, list)) : FromFront f := by
  intro list r rest
  constructor
  · intro h
    cases list with
    | nil => exact absurd (hnil.symm.trans h) nofun
    | cons a list =>
      -- the argument is the whole of what `f` takes
      rw [hcons] at h
      obtain ⟨found, hfound, hpair⟩ := Option.map_eq_some_iff.mp h
      obtain ⟨rfl, rfl⟩ := Prod.mk.inj hpair
      exact ⟨[a], rfl, (hcons a []).trans (by rw [hfound, Option.map_some])⟩
  · rintro ⟨own, rfl, h⟩
    cases own with
    | nil => exact absurd (hnil.symm.trans h) nofun
    | cons a own =>
      rw [hcons] at h
      obtain ⟨found, hfound, hpair⟩ := Option.map_eq_some_iff.mp h
      obtain ⟨rfl, rfl⟩ := Prod.mk.inj hpair
      rw [List.cons_append, hcons, hfound, Option.map_some, List.nil_append]

/-- An `int` is taken from the front of the arguments. -/
theorem fromFront_vaInt : FromFront vaInt :=
  fromFront_head rfl fun a list => by cases a <;> rfl

/-- So is a `long long`. -/
theorem fromFront_vaLlong : FromFront vaLlong :=
  fromFront_head rfl fun a list => by cases a <;> rfl

/-- So is a string. -/
theorem fromFront_vaStr : FromFront vaStr :=
  fromFront_head rfl fun a list => by cases a <;> rfl

/-- The argument that `va_arg(int)` has taken. -/
theorem vaInt_eq {c : BitVec 32} (h : vaInt list = some (c, rest)) : list = [.int c] ++ rest := by
  obtain ⟨own, hlist, hown⟩ := (fromFront_vaInt _ _ _).mp h
  match own, hown with
  | [.int v], hown => rw [hlist, (Prod.mk.inj (Option.some.inj hown)).1]

/-- The string that `va_arg(char*)` has taken. -/
theorem vaStr_eq {str : CString} (h : vaStr list = some (str, rest)) :
    list = [.str str] ++ rest := by
  obtain ⟨own, hlist, hown⟩ := (fromFront_vaStr _ _ _).mp h
  match own, hown with
  | [.str v], hown => rw [hlist, (Prod.mk.inj (Option.some.inj hown)).1]

/-- What is made of the argument does not matter. -/
theorem FromFront.map {f : List Arg → Option (α × List Arg)} (h : FromFront f) (g : α → β) :
    FromFront fun list => (f list).map fun (v, list) => (g v, list) := by
  intro list r rest
  simp only [Option.map_eq_some_iff, Prod.mk.injEq, Prod.exists]
  constructor
  · rintro ⟨a, b, hf, rfl, rfl⟩
    obtain ⟨own, hlist, hown⟩ := (h _ _ _).mp hf
    exact ⟨own, hlist, a, [], hown, rfl, rfl⟩
  · rintro ⟨own, hlist, a, b, hf, rfl, rfl⟩
    exact ⟨a, rest, (h _ _ _).mpr ⟨own, hlist, hf⟩, rfl, rfl⟩

/-- No argument at all. -/
theorem fromFront_none (r : α) : FromFront fun list => some (r, list) := by
  intro list r' rest
  constructor
  · intro h
    obtain ⟨rfl, rfl⟩ := Prod.mk.inj (Option.some.inj h)
    exact ⟨[], rfl, rfl⟩
  · rintro ⟨own, rfl, h⟩
    obtain ⟨rfl, rfl⟩ := Prod.mk.inj (Option.some.inj h)
    rfl

/-- An integer of any length is taken from the front. -/
theorem fromFront_vaInteger (value : Length → BitVec 32 → Int) (length : Length) :
    FromFront (vaInteger value length) := by
  cases length
  case L => exact fromFront_none _
  case q | j => exact fromFront_vaLlong.map fun v => some v.toInt
  all_goals exact fromFront_vaInt.map fun v => some (value _ v)

/-- Values of 32 bits are in the range of 64. -/
theorem unsignedValue_range (length : Length) (v : BitVec 32) :
    -9223372036854775808 ≤ unsignedValue length v ∧
    unsignedValue length v < 9223372036854775808 := by
  have := v.isLt
  have := v.toInt_lt
  have := v.le_toInt
  have := (v.setWidth 8).isLt
  have := (v.setWidth 16).isLt
  cases length <;> simp only [unsignedValue] <;> omega

/-- A signed value has 64 bits at most. -/
theorem signedValue_range (length : Length) (v : BitVec 32) :
    -9223372036854775808 ≤ signedValue length v ∧ signedValue length v < 9223372036854775808 := by
  have := v.isLt
  have := v.toInt_lt
  have := v.le_toInt
  have := (v.setWidth 8).toInt_lt
  have := (v.setWidth 8).le_toInt
  have := (v.setWidth 16).toInt_lt
  have := (v.setWidth 16).le_toInt
  cases length <;> simp only [signedValue] <;> omega

/-- An integer that has been taken has 64 bits at most. -/
theorem vaInteger_range {value : Length → BitVec 32 → Int}
    (hvalue : ∀ length v, -9223372036854775808 ≤ value length v ∧
      value length v < 9223372036854775808)
    (h : vaInteger value length list = some (some i, rest)) :
    -9223372036854775808 ≤ i ∧ i < 9223372036854775808 := by
  unfold vaInteger at h
  split at h
  case h_1 => exact absurd h nofun
  -- 32 bits of either sign are in the range
  case h_2 | h_3 =>
    simp only [Option.map_eq_some_iff, Prod.mk.injEq, Option.some.injEq] at h
    obtain ⟨⟨v, list'⟩, -, rfl, -⟩ := h
    exact ⟨v.le_toInt, v.toInt_lt⟩
  case h_4 =>
    simp only [Option.map_eq_some_iff, Prod.mk.injEq, Option.some.injEq] at h
    obtain ⟨⟨v, list'⟩, -, rfl, -⟩ := h
    exact hvalue _ v

/-- With the length `L` no argument is taken, and there is no value. -/
theorem vaInteger_none {value : Length → BitVec 32 → Int} :
    vaInteger value length own = some (none, []) ↔ length = .L ∧ own = [] := by
  unfold vaInteger
  split
  case h_1 => simp
  case h_2 | h_3 => simp
  case h_4 hL _ _ => simpa using fun h => absurd h hL

/-- Each radix is one that `itoa` can write. -/
theorem isBase_base (v : Conversion) : IsBase v.base := by
  unfold Conversion.base IsBase
  split
  · exact .inl rfl
  · split
    · exact .inr (.inr (.inl rfl))
    · split
      · exact .inr (.inr (.inr rfl))
      · exact .inr (.inl rfl)

/-! ## The relation -/

/-- What a conversion prints for its argument. -/
inductive Conversion.Prints (v : Conversion) : List Arg → List Byte → Prop
  | unsigned (h : kind v.specifier = .unsigned) {own : List Arg} {i : Int}
      (harg : vaInteger unsignedValue v.unsignedLength own = some (some i, []))
        (hroom : v.Room v.base i) :
      v.Prints own (v.start ++ v.padded v.base i)
  | signed (h : kind v.specifier = .signed) {own : List Arg} {i : Int}
      (harg : vaInteger signedValue v.length own = some (some i, []))
        (hroom : v.Room 10 i) : v.Prints own (v.padded 10 i)
  | unsignedNone (h : kind v.specifier = .unsigned)
    (hlength : v.unsignedLength = .L) : v.Prints [] v.start
  | signedNone (h : kind v.specifier = .signed) (hlength : v.length = .L) : v.Prints [] []
  | char (h : kind v.specifier = .char) (c : BitVec 32) : v.Prints [.int c] [c.setWidth 8]
  | string (h : kind v.specifier = .string) (str : CString) : v.Prints [.str str] str.bytes
  | count (h : kind v.specifier = .count) (hlength : v.length ≠ .L)
    (a : BitVec 32) : v.Prints [.int a] []
  | countNone (h : kind v.specifier = .count) (hlength : v.length = .L) : v.Prints [] []
  | exponent (h : kind v.specifier = .exponent) : v.Prints [] ([v.specifier, chr '+'] ++ ascii "00")
  | other (h : kind v.specifier = .other) : v.Prints [] []

/-! ## Output -/

/-- `text` has been printed, and `own` taken. -/
structure Printed.Step (s s' : Printed) (own : List Arg) (text : List Byte) : Prop where
  text_eq : s'.text = s.text ++ text
  list_eq : s.list = own ++ s'.list
  chars_lt : s'.chars < 2147483648

/-- What a successful `put` does. -/
theorem put_eq (h : s.put l = some s') :
    s' = { s with text := s.text ++ l, chars := s.chars + l.length } ∧
    s.chars + l.length < 2147483648 := by
  simp only [Printed.put, Option.bind_eq_bind, Option.bind_eq_some_iff] at h
  obtain ⟨chars, hchars, h⟩ := h
  obtain ⟨rfl, -, hlt⟩ := CInt.checked_eq_some.mp hchars
  exact ⟨(Option.some.inj h).symm, hlt⟩

/-- The count behind `put_string` is an `int`. -/
theorem putString_lt (s : Printed) (l : List Byte) : (s.putString l).chars < 2147483648 := by
  unfold Printed.putString CInt.wrapped
  show _ % _ - _ < _
  omega

/-- The count is right so far. -/
def Printed.Counts (s : Printed) : Prop := s.chars = s.text.length

/-- As long as the text is no longer than an `int` counts, `put` appends it and the count is right.
    -/
theorem Printed.Counts.put (h : s.Counts) (hlt : (s.text ++ l).length < 2147483648) :
    s.put l = some { s with text := s.text ++ l, chars := (s.text ++ l).length } := by
  unfold Printed.Counts at h
  rw [List.length_append] at hlt
  have hchecked : CInt.checked (s.chars + l.length) = some ((s.text ++ l).length : Int) := by
    rw [h, ← Int.natCast_add, ← List.length_append]
    exact CInt.checked_of_le (by omega) (by rw [List.length_append]; omega)
  unfold Printed.put
  rw [hchecked]
  rfl

/-- The same for `put_string`. -/
theorem Printed.Counts.putString (h : s.Counts) (hlt : (s.text ++ l).length < 2147483648) :
    (s.putString l).Counts := by
  unfold Printed.Counts at h
  show CInt.wrapped (s.chars + l.length) = ((s.text ++ l).length : Nat)
  rw [h, ← Int.natCast_add, ← List.length_append]
  exact CInt.wrapped_of_le (by omega) (by omega)

/-- The exponent is always zero. -/
theorem exponent_buffer : intStr 0 (List.replicate 256 0) 10 false false 2 false true =
    some (buffer (ascii "00")) := by
  rw [intStr_eq (.inr (.inl rfl)) (by decide) (by decide) (by decide)]
  rfl

/-- The exponent `00` is appended. -/
theorem putBuffer_exponent (s : Printed) :
    s.putBuffer (buffer (ascii "00")) = some (s.putString (ascii "00")) := by
  rw [putBuffer_buffer (by decide) (by decide)]
  rfl

/-! ## One conversion -/

/-- A conversion that is done prints a text its specification allows, for arguments from the front.
    -/
theorem convert_sound (hw : v.lengthSpec < 2147483648) (hs : s.chars < 2147483648)
    (h : convert v s = some s') :
    ∃ own text, v.Prints own text ∧ s.Step s' own text := by
  unfold convert at h
  split at h
  case h_1 hkind =>
    simp only [Option.bind_eq_bind, Option.bind_eq_some_iff, Prod.exists] at h
    -- the alternative form comes before the argument is taken
    obtain ⟨s₁, hput, r, list, harg, h⟩ := h
    obtain ⟨rfl, hlt⟩ := put_eq hput
    obtain ⟨own, hlist, hown⟩ := (fromFront_vaInteger _ _ _ _ _).mp harg
    cases r with
    | none =>
      obtain ⟨hlength, rfl⟩ := vaInteger_none.mp hown
      rw [← Option.some.inj h]
      exact ⟨[], _, .unsignedNone hkind hlength, rfl, hlist, hlt⟩
    | some i =>
      obtain ⟨hlo, hhi⟩ := vaInteger_range unsignedValue_range hown
      obtain ⟨hroom, rfl⟩ := (putInt_iff (isBase_base v) hlo hhi hw).mp h
      exact ⟨own, _, .unsigned hkind hown hroom, List.append_assoc _ _ _, hlist, putString_lt _ _⟩
  case h_2 hkind =>
    simp only [Option.bind_eq_bind, Option.bind_eq_some_iff, Prod.exists] at h
    obtain ⟨r, list, harg, h⟩ := h
    obtain ⟨own, hlist, hown⟩ := (fromFront_vaInteger _ _ _ _ _).mp harg
    cases r with
    | none =>
      obtain ⟨hlength, rfl⟩ := vaInteger_none.mp hown
      rw [← Option.some.inj h]
      exact ⟨[], [], .signedNone hkind hlength, (List.append_nil _).symm, hlist, hs⟩
    | some i =>
      -- a value of the length is printed in base 10
      obtain ⟨hlo, hhi⟩ := vaInteger_range signedValue_range hown
      obtain ⟨hroom, rfl⟩ := (putInt_iff (.inr (.inl rfl)) hlo hhi hw).mp h
      exact ⟨own, _, .signed hkind hown hroom, rfl, hlist, putString_lt _ _⟩
  case h_3 hkind =>
    simp only [Option.bind_eq_bind, Option.bind_eq_some_iff, Prod.exists] at h
    obtain ⟨c, list, harg, h⟩ := h
    obtain ⟨rfl, hlt⟩ := put_eq h
    exact ⟨[.int c], _, .char hkind c, rfl, vaInt_eq harg, hlt⟩
  case h_4 hkind =>
    simp only [Option.bind_eq_bind, Option.bind_eq_some_iff, Prod.exists] at h
    obtain ⟨str, list, harg, h⟩ := h
    rw [← Option.some.inj h]
    exact ⟨[.str str], _, .string hkind str, rfl, vaStr_eq harg, putString_lt _ _⟩
  case h_5 hkind =>
    split at h
    · rename_i hlength
      rw [← Option.some.inj h]
      exact ⟨[], [], .countNone hkind hlength, (List.append_nil _).symm, rfl, hs⟩
    · rename_i hlength
      simp only [Option.bind_eq_bind, Option.bind_eq_some_iff, Prod.exists] at h
      obtain ⟨a, list, harg, h⟩ := h
      rw [← Option.some.inj h]
      exact ⟨[.int a], [], .count hkind hlength a, (List.append_nil _).symm, vaInt_eq harg, hs⟩
  case h_6 hkind =>
    simp only [exponent_buffer, Option.bind_eq_bind, Option.bind_some, Option.bind_eq_some_iff] at h
    obtain ⟨s₁, hput, h⟩ := h
    obtain ⟨rfl, -⟩ := put_eq hput
    rw [putBuffer_exponent] at h
    rw [← Option.some.inj h]
    exact ⟨[], _, .exponent hkind, List.append_assoc _ _ _, rfl, putString_lt _ _⟩
  case h_7 hkind =>
    rw [← Option.some.inj h]
    exact ⟨[], [], .other hkind, (List.append_nil _).symm, rfl, hs⟩

/-- A text that the specification allows is printed, as long as the count fits. -/
theorem convert_complete (hw : v.lengthSpec < 2147483648) (h : v.Prints own text) (hs : s.Counts)
    (hlist : s.list = own ++ rest) (hlt : (s.text ++ text).length < 2147483648) :
    ∃ s', convert v s = some s' ∧ s'.Counts ∧ s'.text = s.text ++ text ∧ s'.list = rest := by
  unfold convert
  cases h with
  | unsigned hkind harg hroom =>
    rename_i i
    -- the count has to fit after each of the two parts
    rw [← List.append_assoc] at hlt
    have hlt₁ : (s.text ++ v.start).length < 2147483648 := by
      rw [List.length_append] at hlt
      omega
    have harg' := (fromFront_vaInteger _ _ _ _ _).mpr ⟨_, hlist, harg⟩
    obtain ⟨hlo, hhi⟩ := vaInteger_range unsignedValue_range harg
    simp only [hkind, hs.put hlt₁, Option.bind_eq_bind, Option.bind_some, harg']
    refine ⟨_, (putInt_iff (isBase_base v) hlo hhi hw).mpr ⟨hroom, rfl⟩, ?_, ?_, rfl⟩
    · exact Printed.Counts.putString (show _ = _ from rfl) hlt
    · exact List.append_assoc _ _ _
  | signed hkind harg hroom =>
    have harg' := (fromFront_vaInteger _ _ _ _ _).mpr ⟨_, hlist, harg⟩
    obtain ⟨hlo, hhi⟩ := vaInteger_range signedValue_range harg
    simp only [hkind, Option.bind_eq_bind, Option.bind_some, harg']
    refine ⟨_, (putInt_iff (.inr (.inl rfl)) hlo hhi hw).mpr ⟨hroom, rfl⟩, ?_, rfl, rfl⟩
    exact Printed.Counts.putString hs hlt
  | unsignedNone hkind hlength =>
    have harg := (fromFront_vaInteger unsignedValue _ _ _ _).mpr ⟨_, hlist,
      vaInteger_none.mpr ⟨hlength, rfl⟩⟩
    simp only [hkind, hs.put hlt, Option.bind_eq_bind, Option.bind_some, harg]
    exact ⟨_, rfl, rfl, rfl, rfl⟩
  | signedNone hkind hlength =>
    have harg := (fromFront_vaInteger signedValue _ _ _ _).mpr ⟨_, hlist,
      vaInteger_none.mpr ⟨hlength, rfl⟩⟩
    simp only [hkind, Option.bind_eq_bind, Option.bind_some, harg]
    exact ⟨_, rfl, hs, (List.append_nil _).symm, rfl⟩
  | char hkind c =>
    simp only [hkind, hlist, List.singleton_append, vaInt, Option.bind_eq_bind, Option.bind_some]
    exact ⟨_, Printed.Counts.put hs hlt, rfl, rfl, rfl⟩
  | string hkind str =>
    simp only [hkind, hlist, List.singleton_append, vaStr, Option.bind_eq_bind, Option.bind_some]
    exact ⟨_, rfl, Printed.Counts.putString hs hlt, rfl, rfl⟩
  | count hkind hlength a =>
    simp only [hkind, hlist, if_neg hlength, List.singleton_append, vaInt, Option.bind_eq_bind,
      Option.bind_some]
    exact ⟨_, rfl, hs, (List.append_nil _).symm, rfl⟩
  | countNone hkind hlength =>
    simp only [hkind, if_pos hlength]
    exact ⟨s, rfl, hs, (List.append_nil _).symm, hlist⟩
  | exponent hkind =>
    rw [← List.append_assoc] at hlt
    have hlt₁ : (s.text ++ [v.specifier, chr '+']).length < 2147483648 := by
      rw [List.length_append] at hlt
      omega
    simp only [hkind, hs.put hlt₁, exponent_buffer, Option.bind_eq_bind, Option.bind_some,
      putBuffer_exponent]
    refine ⟨_, rfl, ?_, List.append_assoc _ _ _, hlist⟩
    exact Printed.Counts.putString (show _ = _ from rfl) hlt
  | other hkind =>
    simp only [hkind]
    exact ⟨s, rfl, hs, (List.append_nil _).symm, hlist⟩

end MishaOS
