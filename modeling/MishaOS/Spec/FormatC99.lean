import MishaOS.Spec.FormatText

/-!
# The text of C99

Where `kvprintf` prints what C99 prescribes.  An item goes wrong if it is a per
cent sign or has the length `hh`, if its argument loses or gains a sign on the
way through an `intmax_t`, or if zeros come before the sign.  No later item makes
up for it: what has been lost cannot be found in the rest.

## Key results

- `formatPrints_items_iff`: the items of which a format can be made.
- `kvprintf_c99_iff`: the same for `kvprintf`.
-/

namespace MishaOS

open Numeral (numeral)

variable {format rest a b m u w x : List Byte} {list args : List Arg} {i : IntItem}
    {c : Byte} {j n : Nat}

/-! ## Items that are printed right -/

structure IntItem.Good (i : IntItem) : Prop where
  length : i.size ≠ .hh
  size_t : ¬ (i.form = .d ∧ i.size = .z ∧ i.value < 0)
  unsigned : ¬ (i.form ≠ .d ∧ i.size = .ll ∧ 9223372036854775808 ≤ i.value)
  least : i.value ≠ -9223372036854775808
  zeros : ¬ (i.zero = true ∧ i.value < 0 ∧ i.sign.length + i.digits.length < i.width)

def FormatItem.Good : FormatItem → Prop
  | .integer i => i.Good
  | .percent => False
  | _ => True

/-! ## One item -/

/-- An ordinary character is printed as it is. -/
theorem formatPrints_ordinary (hc : c ≠ chr '%') :
    FormatPrints (c :: format) list a ↔ ∃ a', FormatPrints format list a' ∧ a = c :: a' := by
  constructor
  · intro h
    cases h with
    | ordinary _ h => exact ⟨_, h, rfl⟩
    | conversion => exact absurd rfl hc
  · rintro ⟨a', h, rfl⟩
    exact .ordinary hc h

/-- A conversion is read, takes its arguments from the front, and prints its text. -/
theorem formatPrints_percent : FormatPrints (chr '%' :: format) list a ↔
    ∃ c rest stars own v text list' a', readConversion format = some (c, rest) ∧ c.Is stars v ∧
      v.Prints own text ∧
      FormatPrints rest list' a' ∧ list = stars ++ own ++ list' ∧ a = text ++ a' := by
  constructor
  · intro h
    cases h with
    | ordinary hc _ => exact absurd rfl hc
    | conversion hread his hprints h =>
      exact ⟨_, _, _, _, _, _, _, _, hread, his, hprints, h, rfl, rfl⟩
  · rintro ⟨c, rest, stars, own, v, text, list', a', hread, his, hprints, h, rfl, rfl⟩
    exact .conversion hread his hprints h

/-- The conversion that is meant by what is written of an integer. -/
def IntItem.conversion (i : IntItem) (length : Length) (specifier : Byte) : Conversion where
  zeroPad := i.zero
  lengthSpec := i.width
  precSpec := 6
  length := length
  specifier := specifier

/-- An item has at most the flag `0`. -/
theorem flagsOf_flag (i : IntItem) : flagsOf i.flag = { zeroPad := i.zero } := by
  unfold IntItem.flag
  cases i.zero <;> rfl

/-- The conversion of an item has no asterisk. -/
theorem is_conversion {length : Length} {specifier : Byte} {stars : List Arg} {v : Conversion} :
    FormatSpec.Is ⟨i.flag, ⟨i.widthText, false⟩, none, length, specifier⟩ stars v ↔
      stars = [] ∧ v = i.conversion length specifier := by
  have hvalue := widthText_value i
  have hlt := i.width_lt
  constructor
  · intro h
    cases h with
    | intro hwidth hprecision =>
      -- neither a precision nor an asterisk is written
      cases hprecision with
      | absent =>
        cases hwidth with
        | digits =>
          rw [hvalue, flagsOf_flag]
          exact ⟨rfl, rfl⟩
        | star hstar => exact absurd hstar nofun
  · rintro ⟨rfl, rfl⟩
    have hwidth : FormatNumber.Is ⟨i.widthText, false⟩ [] (digitsValue 0 i.widthText) :=
      .digits rfl (by rw [hvalue]; omega)
    have := FormatSpec.Is.intro (c := ⟨i.flag, ⟨i.widthText, false⟩, none, length, specifier⟩)
      hwidth .absent
    rwa [hvalue, flagsOf_flag] at this

/-! ## Integers -/

/-- The number that is printed: a negative `size_t` has become positive, and an unsigned number
    from 2^63 on negative. -/
def IntItem.taken (i : IntItem) : Int :=
  if i.form = .d then if i.size = .z ∧ i.value < 0 then i.value + 4294967296 else i.value
  else if i.size = .ll ∧ 9223372036854775808 ≤ i.value then i.value - 18446744073709551616
    else i.value

/-- The number is the one that was meant. -/
theorem taken_eq (hsize_t : ¬ (i.form = .d ∧ i.size = .z ∧ i.value < 0))
    (hunsigned : ¬ (i.form ≠ .d ∧ i.size = .ll ∧ 9223372036854775808 ≤ i.value)) :
    i.taken = i.value := by
  unfold IntItem.taken
  split
  · rename_i hform
    exact if_neg fun h => hsize_t ⟨hform, h⟩
  · rename_i hform
    exact if_neg fun h => hunsigned ⟨hform, h⟩

/-- `%d` shows the argument as a signed number. -/
theorem value_signed (hform : i.form = .d) : i.value = (i.arg.setWidth i.size.bits).toInt := by
  rw [IntItem.value, hform]

/-- The other conversions show it as an unsigned one. -/
theorem value_unsigned (hform : i.form ≠ .d) : i.value = (i.arg.setWidth i.size.bits).toNat := by
  unfold IntItem.value
  cases h : i.form
  case d => exact absurd h hform
  all_goals rfl

/-- A signed argument of any length but `z`. -/
theorem signed_eq {size : IntSize} (hsize : size ≠ .hh) (hz : size ≠ .z) (v : BitVec size.argBits) :
    vaInteger signedValue size.length [size.argOf v] =
      some (some (v.setWidth size.bits).toInt, []) := by
  have hself : ∀ v : BitVec 32, v.setWidth 32 = v := fun v => BitVec.setWidth_eq v
  cases size
  case hh => exact absurd rfl hsize
  case z => exact absurd rfl hz
  case h => rfl
  case ll =>
    exact congrArg (fun v : BitVec 64 => some (some v.toInt, [])) (BitVec.setWidth_eq v).symm
  all_goals exact congrArg (fun v : BitVec 32 => some (some v.toInt, [])) (hself v).symm

/-- An unsigned argument of any length but `ll`. -/
theorem unsigned_eq {size : IntSize} (hsize : size ≠ .hh) (hll : size ≠ .ll)
    (v : BitVec size.argBits) :
    vaInteger unsignedValue size.length [size.argOf v] =
      some (some ((v.setWidth size.bits).toNat : Int), []) := by
  have hself : ∀ v : BitVec 32, v.setWidth 32 = v := fun v => BitVec.setWidth_eq v
  cases size
  case hh => exact absurd rfl hsize
  case ll => exact absurd rfl hll
  case h => rfl
  all_goals exact congrArg (fun v : BitVec 32 => some (some (v.toNat : Int), [])) (hself v).symm

/-- The `size_t` is read as what it is. -/
theorem signed_z {size : IntSize} (hz : size = .z) (v : BitVec size.argBits) :
    vaInteger signedValue size.length [size.argOf v] =
      some (some (if (v.setWidth size.bits).toInt < 0 then (v.setWidth size.bits).toInt + 4294967296
        else (v.setWidth size.bits).toInt), []) := by
  have hread : ∀ v : BitVec 32, (v.toNat : Int) =
      if (v.setWidth 32).toInt < 0 then (v.setWidth 32).toInt + 4294967296
        else (v.setWidth 32).toInt := by
    intro v
    have := v.isLt
    rw [BitVec.setWidth_eq, BitVec.toInt_eq_toNat_cond]
    split <;> split <;> omega
  subst hz
  exact congrArg (fun n => some (some n, [])) (hread v)

/-- The unsigned number of 64 bits becomes signed. -/
theorem unsigned_ll {size : IntSize} (hll : size = .ll) (v : BitVec size.argBits) :
    vaInteger unsignedValue size.length [size.argOf v] =
      some (some (if 9223372036854775808 ≤ ((v.setWidth size.bits).toNat : Int) then
        ((v.setWidth size.bits).toNat : Int) - 18446744073709551616
          else (v.setWidth size.bits).toNat), []) := by
  have hread : ∀ v : BitVec 64, v.toInt = if 9223372036854775808 ≤
    ((v.setWidth 64).toNat : Int) then
      ((v.setWidth 64).toNat : Int) - 18446744073709551616 else (v.setWidth 64).toNat := by
    intro v
    have := v.isLt
    rw [BitVec.setWidth_eq, BitVec.toInt_eq_toNat_cond]
    split <;> split <;> omega
  subst hll
  exact congrArg (fun n => some (some n, [])) (hread v)

/-- What `va_arg` gives for `%d`. -/
theorem vaInteger_signed (hsize : i.size ≠ .hh) (hform : i.form = .d) :
    vaInteger signedValue i.size.length [i.size.argOf i.arg] = some (some i.taken, []) := by
  rw [IntItem.taken, if_pos hform, value_signed hform]
  by_cases hz : i.size = .z
  · simp only [and_iff_right hz]
    exact signed_z hz i.arg
  · rw [if_neg fun h => hz h.1]
    exact signed_eq hsize hz i.arg

/-- What it gives for the other conversions. -/
theorem vaInteger_unsigned (hsize : i.size ≠ .hh) (hform : i.form ≠ .d) :
    vaInteger unsignedValue i.size.length [i.size.argOf i.arg] = some (some i.taken, []) := by
  rw [IntItem.taken, if_neg hform, value_unsigned hform]
  by_cases hll : i.size = .ll
  · simp only [and_iff_right hll]
    exact unsigned_ll hll i.arg
  · rw [if_neg fun h => hll h.1]
    exact unsigned_eq hsize hll i.arg

/-- The base as `kvprintf` has it. -/
def IntForm.selector : IntForm → Nat
  | .d | .u => 10
  | .x => 17
  | .X => 16

/-- What `kvprintf` prints for an integer. -/
def IntItem.shown (i : IntItem) : List Byte :=
  padded (intText i.taken i.form.selector false false) i.width false i.zero

/-- The radix is one that `itoa` can write. -/
theorem isBase_selector (form : IntForm) : IsBase form.selector := by
  cases form <;> simp [IsBase, IntForm.selector]

/-- The number has 64 bits at most. -/
theorem taken_range (hsize : i.size ≠ .hh) :
    -9223372036854775808 ≤ i.taken ∧ i.taken < 9223372036854775808 := by
  by_cases hform : i.form = .d
  · exact vaInteger_range signedValue_range (vaInteger_signed hsize hform)
  · exact vaInteger_range unsignedValue_range (vaInteger_unsigned hsize hform)

/-- The text is filled up to the field width. -/
theorem length_shown (i : IntItem) : i.shown.length =
    (intText i.taken i.form.selector false false).length +
      ((i.width : Int) - (intText i.taken i.form.selector false false).length).toNat :=
  length_padded _ _ _ _

/-- There is always room for a width below 256. -/
theorem room_iff (hsize : i.size ≠ .hh) (length : Length) (specifier : Byte) :
    (i.conversion length specifier).Room i.form.selector i.taken ↔
    i.taken ≠ -9223372036854775808 := by
  obtain ⟨hlo, hhi⟩ := taken_range hsize
  have hlen := length_intText_le (isBase_selector i.form)
    (show i.taken.natAbs ≤ 9223372036854775808 by omega) false false
  have hwidth := i.width_lt
  refine ⟨fun h => h.not_least, fun hne => ⟨hne, ?_, ?_⟩⟩
  · show -2147483648 ≤ (i.width : Int) - (intText i.taken i.form.selector false false).length
    omega
  · show i.shown.length ≤ 255
    rw [length_shown]
    omega

/-- No item has the length `L`. -/
theorem length_ne_L (size : IntSize) : size.length ≠ .L := by
  cases size <;> decide

/-- The argument that is taken is the first one. -/
theorem arg_unique {value : Length → BitVec 32 → Int} {length : Length} {arg : Arg} {k t : Int}
    {own : List Arg}
    (htaken : vaInteger value length [arg] = some (some t, []))
    (harg : vaInteger value length own = some (some k, []))
    (hown : own ++ args = arg :: list) : k = t ∧ args = list := by
  -- both take the front of one list
  have hleft := (fromFront_vaInteger value length (own ++ args) _ _).mpr ⟨own, rfl, harg⟩
  have hright := (fromFront_vaInteger value length (arg :: list) _ _).mpr ⟨[arg], rfl, htaken⟩
  rw [hown, hright] at hleft
  obtain ⟨hk, hlist⟩ := Prod.mk.inj (Option.some.inj hleft)
  exact ⟨(Option.some.inj hk).symm, hlist.symm⟩

/-- `%d` is a signed conversion. -/
theorem kind_signed (hform : i.form = .d) : kind i.form.letter = .signed := by
  rw [hform]
  rfl

/-- All others are unsigned. -/
theorem kind_unsigned (hform : i.form ≠ .d) : kind i.form.letter = .unsigned := by
  cases h : i.form <;> first | exact absurd h hform | rfl

/-- The length is that of the item. -/
theorem unsignedLength_conversion (i : IntItem) (length : Length) :
    (i.conversion length i.form.letter).unsignedLength = length :=
  if_neg (show i.form.letter ≠ chr 'p' by cases i.form <;> decide)

/-- So is the radix. -/
theorem base_conversion (i : IntItem) (length : Length) :
    (i.conversion length i.form.letter).base = i.form.selector := by
  unfold Conversion.base IntItem.conversion
  cases i.form <;> rfl

/-- The conversion of an integer prints its number. -/
theorem prints_integer (hsize : i.size ≠ .hh) {own : List Arg} {text : List Byte}
    (hown : own ++ args = i.size.argOf i.arg :: list)
    (h : (i.conversion i.size.length i.form.letter).Prints own text) :
    args = list ∧ text = i.shown ∧ i.taken ≠ -9223372036854775808 := by
  -- `%d` and `%i` are signed, the other letters unsigned
  by_cases hform : i.form = .d
  · have hbase : i.form.selector = 10 := by rw [hform]; rfl
    cases h with
    | signed _ harg hroom =>
      -- the argument is read in one way only
      obtain ⟨rfl, hlist⟩ := arg_unique (vaInteger_signed hsize hform) harg hown
      refine ⟨hlist, ?_, hroom.not_least⟩
      rw [IntItem.shown, hbase]
      rfl
    | signedNone _ hlength => exact absurd hlength (length_ne_L i.size)
    -- a conversion of this letter is of no other kind
    | _ hkind => exact absurd ((kind_signed hform).symm.trans hkind) nofun
  · cases h with
    | unsigned _ harg hroom =>
      rw [unsignedLength_conversion] at harg
      obtain ⟨rfl, hlist⟩ := arg_unique (vaInteger_unsigned hsize hform) harg hown
      refine ⟨hlist, ?_, hroom.not_least⟩
      rw [base_conversion]
      rfl
    | unsignedNone _ hlength =>
      rw [unsignedLength_conversion] at hlength
      exact absurd hlength (length_ne_L i.size)
    | _ hkind => exact absurd ((kind_unsigned hform).symm.trans hkind) nofun

/-- The conversion prints `shown`, except for the one number that has no absolute value. -/
theorem prints_shown (hsize : i.size ≠ .hh) (hne : i.taken ≠ -9223372036854775808) :
    (i.conversion i.size.length i.form.letter).Prints [i.size.argOf i.arg] i.shown := by
  have hroom := (room_iff hsize i.size.length i.form.letter).mpr hne
  by_cases hform : i.form = .d
  · have hbase : i.form.selector = 10 := by rw [hform]; rfl
    rw [hbase] at hroom
    have := Conversion.Prints.signed (kind_signed hform) (vaInteger_signed hsize hform) hroom
    rw [IntItem.shown, hbase]
    exact this
  · rw [← base_conversion i i.size.length] at hroom
    have harg := vaInteger_unsigned hsize hform
    rw [← unsignedLength_conversion i i.size.length] at harg
    have := Conversion.Prints.unsigned (kind_unsigned hform) harg hroom
    rw [base_conversion] at this
    exact this

/-- An integer item prints `shown`, and then the rest follows. -/
theorem formatPrints_integer (hsize : i.size ≠ .hh) :
    FormatPrints (chr '%' :: (i.body ++ rest)) (i.size.argOf i.arg :: list) a ↔
      i.taken ≠ -9223372036854775808 ∧ ∃ a', FormatPrints rest list a' ∧ a = i.shown ++ a' := by
  rw [formatPrints_percent]
  constructor
  · rintro ⟨c, rest', stars, own, v, text, args, a', hread, his, hprints, h, hlist, rfl⟩
    rw [readConversion_integer i hsize rest] at hread
    obtain ⟨rfl, rfl⟩ := Prod.mk.inj (Option.some.inj hread)
    obtain ⟨rfl, rfl⟩ := is_conversion.mp his
    obtain ⟨rfl, rfl, hne⟩ := prints_integer hsize hlist.symm hprints
    exact ⟨hne, a', h, rfl⟩
  · rintro ⟨hne, a', h, rfl⟩
    exact ⟨_, rest, [], _, _, _, list, a', readConversion_integer i hsize rest,
      is_conversion.mpr ⟨rfl, rfl⟩,
      prints_shown hsize hne, h, rfl, rfl⟩

/-- The letter of a conversion is no percent sign. -/
theorem letter_ne (form : IntForm) : form.letter ≠ chr '%' := by
  cases form <;> decide

/-- With the length `hh` no argument is taken, and the letter is printed. -/
theorem formatPrints_hh (hsize : i.size = .hh)
    (h : FormatPrints (chr '%' :: (i.body ++ rest)) list a) :
    ∃ a', a = i.form.letter :: a' := by
  -- the second `h` is the specifier, and the letter an ordinary character behind it
  obtain ⟨c, rest', stars, own, v, text, args, a', hread, his, hprints, h, -, rfl⟩ :=
    formatPrints_percent.mp h
  rw [readConversion_hh i hsize rest] at hread
  obtain ⟨rfl, rfl⟩ := Prod.mk.inj (Option.some.inj hread)
  obtain ⟨-, rfl⟩ := is_conversion.mp his
  obtain ⟨a'', -, rfl⟩ := (formatPrints_ordinary (letter_ne i.form)).mp h
  have hkind : kind (chr 'h') = .other := rfl
  cases hprints with
  | other => exact ⟨a'', rfl⟩
  | _ hkind' => exact absurd (hkind.symm.trans hkind') nofun

/-! ## Both texts -/

/-- The digits of the table are those of the conversion. -/
theorem digitsText_selector (form : IntForm) (n : Nat) :
    digitsText form.selector n = (numeral form.base n).map form.digit := by
  have hbase : radix form.selector = form.base := by cases form <;> rfl
  have hdigit : ∀ d < form.base, (digitChars form.selector).getD d 0 = form.digit d := by
    cases form <;> decide
  rw [digitsText, hbase]
  refine List.map_congr_left fun d hd => hdigit d (Numeral.lt_of_mem_numeral ?_ hd)
  cases form <;> decide

/-- Every radix is at least 2. -/
theorem one_lt_base (form : IntForm) : 1 < form.base := by
  cases form <;> decide

/-- A number has at least one digit. -/
theorem length_digits_pos (form : IntForm) (n : Nat) :
    0 < ((numeral form.base n).map form.digit).length := by
  rw [List.length_map]
  exact Numeral.length_numeral_pos

/-- A minus sign and the digits of the absolute value. -/
theorem intText_selector (form : IntForm) (k : Int) : intText k form.selector false false =
    (if k < 0 then [chr '-'] else []) ++ (numeral form.base k.natAbs).map form.digit := by
  rw [intText, digitsText_selector]
  rfl

/-- The text of a number is not empty. -/
theorem length_intText_pos (i : IntItem) :
    0 < (intText i.taken i.form.selector false false).length := by
  have hdigits := length_digits_pos i.form i.taken.natAbs
  rw [intText_selector, List.length_append]
  omega

/-- The padding, the sign and the digits. -/
theorem shown_eq (i : IntItem) : i.shown =
    padding (intText i.taken i.form.selector false false) i.width i.zero ++
    ((if i.taken < 0 then [chr '-'] else []) ++
      (numeral i.form.base i.taken.natAbs).map i.form.digit) := by
  rw [← intText_selector]
  rfl

/-- The text is that of C99 when the number is, and when no zero comes before a minus sign. -/
theorem shown_eq_text (htaken : i.taken = i.value)
    (hzeros : ¬ (i.zero = true ∧ i.value < 0 ∧ i.sign.length + i.digits.length < i.width)) :
    i.shown = i.text := by
  have hfill : ((i.width : Int) - (intText i.taken i.form.selector false false).length).toNat =
      i.fill := by
    rw [intText_selector, List.length_append, htaken]
    show ((i.width : Int) - ((i.sign.length + i.digits.length : Nat) : Int)).toNat = i.fill
    unfold IntItem.fill
    omega
  rw [shown_eq, padding, hfill, htaken]
  show _ ++ (i.sign ++ i.digits) = _
  unfold IntItem.text
  cases hzero : i.zero
  · simp
  · by_cases hneg : i.value < 0
    -- nothing is filled where zeros would come before the sign
    · have hnone : i.fill = 0 := by
        unfold IntItem.fill
        have : ¬ i.sign.length + i.digits.length < i.width := fun h => hzeros ⟨hzero, hneg, h⟩
        omega
      simp [hnone]
    · have hsign : i.sign = [] := if_neg hneg
      simp [hsign]

/-- The characters of a number. -/
def IntForm.IsChar (form : IntForm) (c : Byte) : Prop :=
  c = chr ' ' ∨ c = chr '-' ∨ ∃ d < form.base, c = form.digit d

/-- A digit is the digit of a number below the radix. -/
theorem isChar_digits {form : IntForm} (h : c ∈ (numeral form.base n).map form.digit) :
    ∃ d < form.base, c = form.digit d := by
  obtain ⟨d, hd, rfl⟩ := List.mem_map.mp h
  exact ⟨d, Numeral.lt_of_mem_numeral (one_lt_base form) hd, rfl⟩

/-- `0` is such a digit. -/
theorem isChar_zero (form : IntForm) : ∃ d < form.base, chr '0' = form.digit d :=
  ⟨0, by cases form <;> decide, by cases form <;> rfl⟩

/-- Neither a letter of a conversion nor the per cent sign is a character of a number, and no digit
    is a minus sign. -/
theorem not_isChar (form : IntForm) : ¬ form.IsChar form.letter ∧ ¬ form.IsChar (chr '%') ∧
    ∀ d < form.base, form.digit d ≠ chr '-' := by
  unfold IntForm.IsChar
  cases form <;> decide

/-- Every character that is shown is a sign, a digit or a blank. -/
theorem isChar_shown (hc : c ∈ i.shown) : i.form.IsChar c := by
  rw [shown_eq, List.mem_append, List.mem_append] at hc
  rcases hc with hc | hc | hc
  · rw [List.eq_of_mem_replicate hc]
    split
    · exact .inr (.inr (isChar_zero i.form))
    · exact .inl rfl
  · split at hc
    · exact .inr (.inl (List.mem_singleton.mp hc))
    · exact absurd hc List.not_mem_nil
  · exact .inr (.inr (isChar_digits hc))

/-- So is every character that C99 asks for. -/
theorem isChar_text (hc : c ∈ i.text) : i.form.IsChar c := by
  have hsign : c ∈ i.sign → i.form.IsChar c := fun hc => by
    unfold IntItem.sign at hc
    split at hc
    · exact .inr (.inl (List.mem_singleton.mp hc))
    · exact absurd hc List.not_mem_nil
  unfold IntItem.text at hc
  -- padding on the right comes behind the sign, on the left in front of it
  split at hc
  · rw [List.mem_append, List.mem_append] at hc
    rcases hc with (hc | hc) | hc
    · exact hsign hc
    · rw [List.eq_of_mem_replicate hc]
      exact .inr (.inr (isChar_zero i.form))
    · exact .inr (.inr (isChar_digits hc))
  · rw [List.mem_append, List.mem_append] at hc
    rcases hc with (hc | hc) | hc
    · exact .inl (List.eq_of_mem_replicate hc)
    · exact hsign hc
    · exact .inr (.inr (isChar_digits hc))

/-- Filling, sign and digits make up the text. -/
theorem length_text (i : IntItem) : i.text.length = i.fill + (i.sign.length + i.digits.length) := by
  unfold IntItem.text
  split
  · simp
    omega
  · simp

/-! ## Texts that differ -/

/-- A minus sign where the other text has something else. -/
theorem dash_ne (hm : chr '-' ∉ m) (hlen : u.length < m.length) : u ++ chr '-' :: w ≠ m ++ b := by
  intro h
  have hleft : (u ++ chr '-' :: w)[u.length]? = some (chr '-') := by simp
  rw [h, List.getElem?_append_left hlen] at hleft
  exact hm (List.mem_of_getElem? hleft)

/-- No digit is a minus sign. -/
theorem dash_not_mem_digits (form : IntForm) (n : Nat) :
    chr '-' ∉ (numeral form.base n).map form.digit := by
  intro h
  obtain ⟨d, hd, heq⟩ := isChar_digits h
  exact (not_isChar form).2.2 d hd heq.symm

/-- Nor is the filling. -/
theorem dash_not_mem_replicate (zero : Bool) (n : Nat) :
    chr '-' ∉ List.replicate n (if zero then chr '0' else chr ' ') := by
  intro h
  have := List.eq_of_mem_replicate h
  cases zero <;> exact absurd this (by decide)

/-- Where the minus sign of a negative number stands. -/
theorem text_of_neg (hneg : i.value < 0) : ∃ u w, i.text = u ++ chr '-' :: w ∧ u.length = if i.zero
    then 0 else i.fill := by
  have hsign : i.sign = [chr '-'] := if_pos hneg
  unfold IntItem.text
  rw [hsign]
  cases i.zero
  · exact ⟨List.replicate i.fill (chr ' '), i.digits, by simp, by simp⟩
  · exact ⟨[], List.replicate i.fill (chr '0') ++ i.digits, by simp, rfl⟩

/-- For a negative number the filling comes before the minus sign. -/
theorem shown_of_neg (hneg : i.taken < 0) :
    i.shown = padding (intText i.taken i.form.selector false false) i.width i.zero ++
    chr '-' :: (numeral i.form.base i.taken.natAbs).map i.form.digit := by
  rw [shown_eq, if_pos hneg]
  rfl

/-- `%zd` shows 32 bits. -/
theorem le_toInt_z {size : IntSize} (hz : size = .z) (v : BitVec size.argBits) :
    -2147483648 ≤ (v.setWidth size.bits).toInt := by
  subst hz
  exact BitVec.le_toInt (w := 32) _

/-- `%llu` shows 64 bits. -/
theorem toNat_lt_ll {size : IntSize} (hll : size = .ll) (v : BitVec size.argBits) :
    (v.setWidth size.bits).toNat < 18446744073709551616 := by
  subst hll
  exact BitVec.isLt (w := 64) _

/-- A negative `size_t` loses its sign. -/
theorem size_t_ne (hform : i.form = .d) (hsize : i.size = .z) (hneg : i.value < 0) :
    i.shown ++ a ≠ i.text ++ b := by
  have hvalue := value_signed hform
  have hrange : -2147483648 ≤ i.value := by
    rw [hvalue]
    exact le_toInt_z hsize i.arg
  have htaken : i.taken = i.value + 4294967296 := by
    rw [IntItem.taken, if_pos hform, if_pos ⟨hsize, hneg⟩]
  have hpos : ¬ i.taken < 0 := by omega
  -- the minus sign is within the length of what is shown instead
  have hdash : chr '-' ∉ i.shown := by
    rw [shown_eq, if_neg hpos, List.nil_append, List.mem_append, not_or]
    exact ⟨dash_not_mem_replicate _ _, dash_not_mem_digits _ _⟩
  have hlen := length_shown i
  have hone := length_intText_pos i
  obtain ⟨u, w, htext, hu⟩ := text_of_neg hneg
  have hfill : i.fill ≤ i.width := Nat.sub_le _ _
  have hdigit : 0 < i.digits.length := length_digits_pos _ _
  intro h
  rw [htext, List.append_assoc, List.cons_append] at h
  refine dash_ne hdash ?_ h.symm
  unfold IntItem.fill at hu
  split at hu <;> omega

/-- An unsigned number from 2^63 on gets a sign. -/
theorem unsigned_ne (hform : i.form ≠ .d) (hsize : i.size = .ll)
    (hbig : 9223372036854775808 ≤ i.value) :
    i.shown ++ a ≠ i.text ++ b := by
  have hrange : i.value < 18446744073709551616 := by
    rw [value_unsigned hform]
    have := toNat_lt_ll hsize i.arg
    omega
  have htaken : i.taken = i.value - 18446744073709551616 := by
    rw [IntItem.taken, if_neg hform, if_pos ⟨hsize, hbig⟩]
  have hneg : i.taken < 0 := by omega
  have hsign : i.sign = [] := if_neg (by omega)
  -- now the minus sign is in what is shown
  have hdash : chr '-' ∉ i.text := by
    have hdigits : chr '-' ∉ i.digits := dash_not_mem_digits _ _
    have hzero := dash_not_mem_replicate true i.fill
    have hblank := dash_not_mem_replicate false i.fill
    unfold IntItem.text
    rw [hsign]
    split
    · rw [List.nil_append, List.mem_append, not_or]
      exact ⟨hzero, hdigits⟩
    · rw [List.append_nil, List.mem_append, not_or]
      exact ⟨hblank, hdigits⟩
  have hdigit : 0 < i.digits.length := length_digits_pos _ _
  have hlen := length_text i
  have hone := length_intText_pos i
  rw [hsign, List.length_nil, IntItem.fill, hsign, List.length_nil] at hlen
  rw [shown_of_neg hneg, List.append_assoc, List.cons_append]
  refine dash_ne hdash ?_
  rw [length_padding]
  omega

/-- Zeros come before the sign. -/
theorem zeros_ne (htaken : i.taken = i.value) (hzero : i.zero = true) (hneg : i.value < 0)
    (hwidth : i.sign.length + i.digits.length < i.width) : i.shown ++ a ≠ i.text ++ b := by
  have hsign : i.sign.length = 1 := by rw [IntItem.sign, if_pos hneg]; rfl
  have hlen : (intText i.taken i.form.selector false false).length =
      i.sign.length + i.digits.length := by
    rw [intText_selector, htaken, List.length_append]
    rfl
  obtain ⟨u, w, htext, hu⟩ := text_of_neg hneg
  rw [if_pos hzero] at hu
  intro h
  rw [htext, shown_eq, List.append_assoc, List.append_assoc u, List.cons_append] at h
  refine dash_ne (dash_not_mem_replicate _ _) ?_ h.symm
  rw [hu, List.length_replicate, hlen]
  omega

/-- The text is all that can be found, unless the item is good. -/
theorem good_of_eq (hsize : i.size ≠ .hh) (hne : i.taken ≠ -9223372036854775808)
    (h : i.shown ++ a = i.text ++ b) :
    i.Good := by
  have hsize_t : ¬ (i.form = .d ∧ i.size = .z ∧ i.value < 0) := fun hbad =>
    size_t_ne hbad.1 hbad.2.1 hbad.2.2 h
  have hunsigned : ¬ (i.form ≠ .d ∧ i.size = .ll ∧ 9223372036854775808 ≤ i.value) := fun hbad =>
    unsigned_ne hbad.1 hbad.2.1 hbad.2.2 h
  have htaken := taken_eq hsize_t hunsigned
  exact ⟨hsize, hsize_t, hunsigned, htaken ▸ hne,
    fun hbad => zeros_ne htaken hbad.1 hbad.2.1 hbad.2.2 h⟩

/-! ## Other conversions -/

/-- A conversion without anything before its letter. -/
def letterItem : IntItem := ⟨false, 0, by decide, .int, .d, 0⟩

/-- A percent sign with a letter behind it is a conversion without flags and width. -/
theorem formatPrints_letter (hc : IsLetter c) (hlength : lengthLetter c = .none) :
    FormatPrints (chr '%' :: c :: rest) list a ↔
    ∃ own text list' a', (letterItem.conversion .none c).Prints own text ∧
      FormatPrints rest list' a' ∧ list = own ++ list' ∧ a = text ++ a' := by
  -- a letter is a conversion of its own, without a size
  have hread : readConversion (c :: rest) =
      some (⟨letterItem.flag, ⟨letterItem.widthText, false⟩, none, .none, c⟩, rest) := by
    have hparts := readConversion_parts letterItem (l := c :: rest) fun d hd => by
      rw [← Option.some.inj hd]
      exact hc
    have hletter : readLength (c :: rest) = (.none, c :: rest) := by rw [readLength, if_pos hlength]
    rw [hletter] at hparts
    exact hparts
  rw [formatPrints_percent]
  constructor
  · rintro ⟨c', rest', stars, own, v, text, list', a', hread', his, hprints, h, rfl, rfl⟩
    rw [hread] at hread'
    obtain ⟨rfl, rfl⟩ := Prod.mk.inj (Option.some.inj hread')
    obtain ⟨rfl, rfl⟩ := is_conversion.mp his
    exact ⟨own, text, list', a', hprints, h, rfl, rfl⟩
  · rintro ⟨own, text, list', a', hprints, h, rfl, rfl⟩
    exact ⟨_, rest, [], own, _, text, list', a', hread, is_conversion.mpr ⟨rfl, rfl⟩,
      hprints, h, rfl, rfl⟩

/-- `%c` prints the low byte of its argument. -/
theorem formatPrints_char {v : BitVec 32} : FormatPrints (ascii "%c" ++ rest) (.int v :: list) a ↔
    ∃ a', FormatPrints rest list a' ∧ a = [v.setWidth 8] ++ a' := by
  have hkind : kind (chr 'c') = .char := rfl
  refine (formatPrints_letter (c := chr 'c') (by decide) rfl).trans ⟨?_, ?_⟩
  · rintro ⟨own, text, list', a', hprints, h, hlist, rfl⟩
    cases hprints with
    | char _ v' =>
      obtain ⟨hv, rfl⟩ := List.cons.inj hlist
      obtain rfl := Arg.int.inj hv
      exact ⟨a', h, rfl⟩
    | _ hkind' => exact absurd (hkind.symm.trans hkind') nofun
  · rintro ⟨a', h, rfl⟩
    exact ⟨[.int v], _, list, a', .char hkind v, h, rfl, rfl⟩

/-- `%s` prints its string. -/
theorem formatPrints_string {str : CString} :
    FormatPrints (ascii "%s" ++ rest) (.str str :: list) a ↔
    ∃ a', FormatPrints rest list a' ∧ a = str.bytes ++ a' := by
  have hkind : kind (chr 's') = .string := rfl
  refine (formatPrints_letter (c := chr 's') (by decide) rfl).trans ⟨?_, ?_⟩
  · rintro ⟨own, text, list', a', hprints, h, hlist, rfl⟩
    cases hprints with
    | string _ str' =>
      obtain ⟨hstr, rfl⟩ := List.cons.inj hlist
      obtain rfl := Arg.str.inj hstr
      exact ⟨a', h, rfl⟩
    | _ hkind' => exact absurd (hkind.symm.trans hkind') nofun
  · rintro ⟨a', h, rfl⟩
    exact ⟨[.str str], _, list, a', .string hkind str, h, rfl, rfl⟩

/-- Two per cent signs print nothing. -/
theorem formatPrints_twice : FormatPrints (ascii "%%" ++ rest) list a ↔
    FormatPrints rest list a := by
  have hkind : kind (chr '%') = .other := rfl
  refine (formatPrints_letter (c := chr '%') (by decide) rfl).trans ⟨?_, ?_⟩
  · rintro ⟨own, text, list', a', hprints, h, rfl, rfl⟩
    cases hprints with
    | other => exact h
    | _ hkind' => exact absurd (hkind.symm.trans hkind') nofun
  · exact fun h => ⟨[], [], list, a, .other hkind, h, rfl, rfl⟩

/-! ## All items -/

variable {items : List FormatItem}

def formatBytes (items : List FormatItem) : List Byte := items.flatMap FormatItem.written

def argsOf (items : List FormatItem) : List Arg := items.flatMap FormatItem.list

/-- What C99 prescribes for the format and its arguments. -/
def textOf (items : List FormatItem) : List Byte := items.flatMap FormatItem.text

/-- What both texts start with can be taken off, also behind per cent signs that are missing. -/
theorem append_cancel (h : x ++ a = List.replicate j c ++ (x ++ b)) :
    a = List.replicate j c ++ b := by
  induction x generalizing b with
  | nil => exact h
  | cons d x ih =>
    -- the letters that are missing are all equal, so they can be moved behind `x`
    cases j with
    | zero => exact List.append_cancel_left h
    | succ j =>
      rw [List.replicate_succ, List.cons_append, List.cons_append, List.cons.injEq] at h
      obtain ⟨rfl, h⟩ := h
      refine ih (h.trans ?_)
      rw [List.replicate_succ', List.append_assoc]
      rfl

/-- No item asks for an empty text. -/
theorem text_eq_cons (i : IntItem) : ∃ c x, i.text = c :: x := by
  have hlen := length_text i
  have hpos : 0 < i.digits.length := length_digits_pos _ _
  exact List.exists_cons_of_ne_nil (List.ne_nil_of_length_pos (by omega))

/-- No item is shown as an empty text. -/
theorem shown_eq_cons (i : IntItem) : ∃ c x, i.shown = c :: x := by
  have hlen := length_shown i
  have hone := length_intText_pos i
  exact List.exists_cons_of_ne_nil (List.ne_nil_of_length_pos (by omega))

/-- Neither a number nor the letter of its conversion starts with a per cent sign. -/
theorem no_percent (hc : c ≠ chr '%') (h : c :: x = List.replicate j (chr '%') ++ a) : j = 0 := by
  cases j with
  | zero => rfl
  | succ j =>
    rw [List.replicate_succ, List.cons_append, List.cons.injEq] at h
    exact absurd h.1 hc

/-- A number is only found where it was meant to be. -/
theorem integer_of_eq
    (h : FormatPrints (chr '%' :: (i.body ++ rest)) (i.size.argOf i.arg :: list)
      (List.replicate j (chr '%') ++ (i.text ++ b))) :
    j = 0 ∧ i.Good ∧ FormatPrints rest list b := by
  by_cases hsize : i.size = .hh
  · obtain ⟨a, ha⟩ := formatPrints_hh hsize h
    obtain rfl := no_percent (letter_ne i.form) ha.symm
    -- the text would start with the letter
    obtain ⟨c, x, htext⟩ := text_eq_cons i
    rw [List.replicate_zero, List.nil_append, htext, List.cons_append, List.cons.injEq] at ha
    have hchar : i.form.IsChar c := isChar_text (htext ▸ List.mem_cons_self)
    exact absurd (ha.1 ▸ hchar) (not_isChar i.form).1
  · obtain ⟨hne, a, hrest, ha⟩ := (formatPrints_integer hsize).mp h
    obtain ⟨c, x, hshown⟩ := shown_eq_cons i
    have hchar : i.form.IsChar c := isChar_shown (hshown ▸ List.mem_cons_self)
    have hc : c ≠ chr '%' := fun hc => (not_isChar i.form).2.1 (hc ▸ hchar)
    -- a per cent sign would have to come first
    have hj : j = 0 := by
      rw [hshown, List.cons_append] at ha
      exact no_percent hc ha.symm
    subst hj
    rw [List.replicate_zero, List.nil_append] at ha
    have hgood := good_of_eq hsize hne ha.symm
    have hshown := shown_eq_text (taken_eq hgood.size_t hgood.unsigned) hgood.zeros
    rw [hshown] at ha
    exact ⟨rfl, hgood, List.append_cancel_left ha ▸ hrest⟩

/-- Behind an item as many per cent signs are missing as before it, and one more behind a per cent
    sign. -/
theorem item_of_eq {item : FormatItem}
    (h : FormatPrints (item.written ++ rest) (item.list ++ list) (List.replicate j (chr '%') ++
      (item.text ++ b))) :
    ∃ k, FormatPrints rest list (List.replicate k (chr '%') ++ b) ∧
      (k = 0 → j = 0 ∧ item.Good) := by
  -- one case per kind of item
  cases item with
  | ordinary c hzero hc =>
    obtain ⟨a, hrest, ha⟩ := (formatPrints_ordinary hc).mp h
    exact ⟨j, append_cancel (x := [c]) ha.symm ▸ hrest, fun hj => ⟨hj, trivial⟩⟩
  -- the text of an integer has no percent sign, so none was missing before it
  | integer i =>
    obtain ⟨hj, hgood, hrest⟩ := integer_of_eq h
    exact ⟨0, hrest, fun _ => ⟨hj, hgood⟩⟩
  | char v =>
    obtain ⟨a, hrest, ha⟩ := formatPrints_char.mp h
    exact ⟨j, append_cancel ha.symm ▸ hrest, fun hj => ⟨hj, trivial⟩⟩
  | string str =>
    obtain ⟨a, hrest, ha⟩ := formatPrints_string.mp h
    exact ⟨j, append_cancel ha.symm ▸ hrest, fun hj => ⟨hj, trivial⟩⟩
  -- the second percent sign is what is missing behind it
  | percent =>
    refine ⟨j + 1, ?_, fun hj => absurd hj (Nat.succ_ne_zero j)⟩
    rw [List.replicate_succ', List.append_assoc]
    exact formatPrints_twice.mp h

/-- An item that is good is printed as it is meant to be. -/
theorem prints_of_good {item : FormatItem} (hgood : item.Good) (h : FormatPrints rest list a) :
    FormatPrints (item.written ++ rest) (item.list ++ list) (item.text ++ a) := by
  cases item with
  | ordinary c hzero hc => exact .ordinary hc h
  | integer i =>
    have hi : i.Good := hgood
    have htaken := taken_eq hi.size_t hi.unsigned
    exact (formatPrints_integer hi.length).mpr
      ⟨htaken ▸ hi.least, a, h, congrArg (· ++ a) (shown_eq_text htaken hi.zeros).symm⟩
  | char v => exact formatPrints_char.mpr ⟨a, h, rfl⟩
  | string str => exact formatPrints_string.mpr ⟨a, h, rfl⟩
  | percent => exact absurd hgood id

/-- If the text is the right one but for `j` per cent signs, then it is the right one. -/
theorem good_of_formatPrints
    (h : FormatPrints (formatBytes items) (argsOf items)
    (List.replicate j (chr '%') ++ textOf items)) :
    j = 0 ∧ ∀ item ∈ items, item.Good := by
  induction items generalizing j with
  | nil =>
    generalize hnone : List.replicate j (chr '%') ++ textOf [] = text at h
    cases h
    exact ⟨(List.replicate_eq_nil_iff _).mp (List.append_eq_nil_iff.mp hnone).1, nofun⟩
  | cons item items ih =>
    obtain ⟨k, hrest, hk⟩ := item_of_eq h
    obtain ⟨rfl, hgood⟩ := ih hrest
    obtain ⟨hj, hitem⟩ := hk rfl
    exact ⟨hj, List.forall_mem_cons.mpr ⟨hitem, hgood⟩⟩

/-- The output is the one C99 asks for if and only if each item is good. -/
theorem formatPrints_items_iff :
    FormatPrints (formatBytes items) (argsOf items) (textOf items) ↔ ∀ item ∈ items, item.Good := by
  refine ⟨fun h => (good_of_formatPrints (j := 0) h).2, fun h => ?_⟩
  induction items with
  | nil => exact .done []
  | cons item items ih =>
    obtain ⟨hitem, hitems⟩ := List.forall_mem_cons.mp h
    exact prints_of_good hitem (ih hitems)

/-! ## Running the format -/

/-- An item is written without a null byte. -/
theorem written_noNull (item : FormatItem) : 0 ∉ item.written := by
  cases item with
  | ordinary c hzero hc => exact fun h => hzero (List.mem_singleton.mp h)
  | integer i =>
    have hletters : 0 ∉ i.size.letters := by cases i.size <;> decide
    have hletter : 0 ∉ [i.form.letter] := by cases i.form <;> decide
    have hflag : 0 ∉ i.flag := fun h => absurd (flag_isFlag i 0 h) (by decide)
    have hwidth : 0 ∉ i.widthText := fun h => absurd (widthText_isdigit i 0 h) (by decide)
    have hpercent : 0 ≠ chr '%' := by decide
    show 0 ∉ chr '%' :: (i.flag ++ i.widthText ++ i.size.letters ++ [i.form.letter])
    simp only [List.mem_cons, List.mem_append, not_or]
    exact ⟨hpercent, ⟨⟨hflag, hwidth⟩, hletters⟩, not_or.mp (List.mem_cons.not.mp hletter)⟩
  | char v => exact show 0 ∉ ascii "%c" by decide
  | string str => exact show 0 ∉ ascii "%s" by decide
  | percent => decide

/-- The format of the items. -/
def formatOf (items : List FormatItem) : CString where
  bytes := formatBytes items
  noNull := fun h => by
    obtain ⟨item, -, h⟩ := List.mem_flatMap.mp h
    exact written_noNull item h

/-- `kvprintf` prints what C99 prescribes if all items are good, and returns the length of the text
    if it fits. -/
theorem kvprintf_c99_iff (items : List FormatItem) :
    (∃ s, kvprintf (formatOf items) (argsOf items) = some s ∧ s.text = textOf items ∧
      s.chars = (textOf items).length) ↔
      (∀ item ∈ items, item.Good) ∧ (textOf items).length < 2147483648 := by
  rw [← formatPrints_items_iff]
  constructor
  · rintro ⟨s, hs, htext, hchars⟩
    obtain ⟨text, hprints, happend, hlt⟩ :=
      kvprintfLoop_sound (formatOf items).noNull (show (0 : Int) < 2147483648 by decide) hs
    rw [List.nil_append, htext] at happend
    subst happend
    exact ⟨hprints, by omega⟩
  · rintro ⟨hprints, hlt⟩
    obtain ⟨s, hs, hcounts, htext⟩ := kvprintfLoop_complete (s := ⟨[], 0, argsOf items, []⟩) hprints
      (formatOf items).noNull rfl rfl (by rw [List.nil_append]; exact hlt) (Nat.lt_succ_self _)
    rw [List.nil_append] at htext
    exact ⟨s, hs, htext, htext ▸ hcounts⟩

/-- The format `%%` prints nothing. -/
theorem percent_not_printed : ¬ ∃ s, kvprintf (formatOf [.percent]) (argsOf [.percent]) = some s ∧
    s.text = textOf [.percent] ∧ s.chars = (textOf [.percent]).length := by
  rintro ⟨s, hs, htext, -⟩
  rw [← Option.some.inj hs] at htext
  exact absurd htext nofun

end MishaOS
