import MishaOS.Native.Kprintf

/-!
# The text of an integer

`__int_str` counts the digits of a number with one loop, writes them with
another and adds the padding byte by byte, each time searching the end of the
string.  All of this happens in buffers whose unused bytes are zero.

## Key results

- `intStr_eq`: the text that is in the buffer in the end, and when there is none.
- `intStr_numeral`: the canonical numeral, and the padding in front of it or behind it.
- `putInt_iff`: when the terminal gets it.
-/

namespace MishaOS

open Numeral (numeral)

variable {s t dst old front back : List Byte} {c : Byte} {base n p k : Nat} {i w : Int}

/-! ## Strings in buffers -/

/-- A string in a buffer whose other bytes are zero. -/
def buffer (s : List Byte) : List Byte := s ++ List.replicate (256 - s.length) 0

/-- The array has 256 bytes. -/
theorem length_buffer (h : s.length ≤ 256) : (buffer s).length = 256 := by
  rw [buffer, List.length_append, List.length_replicate]
  omega

/-- Behind the text there are zeros. -/
theorem drop_buffer (s : List Byte) (k : Nat) :
    (buffer s).drop (s.length + k) = List.replicate (256 - s.length - k) 0 := by
  rw [buffer, ← List.drop_drop, List.drop_left, List.drop_replicate]

/-- The first unused byte. -/
theorem buffer_eq (h : s.length < 256) :
    buffer s = s ++ 0 :: List.replicate (255 - s.length) 0 := by
  rw [buffer, show 256 - s.length = 255 - s.length + 1 by omega, List.replicate_succ]

/-- The length up to the first null byte. -/
theorem strlen_append (h : 0 ∉ s) : strlen (s ++ 0 :: t) = some s.length := by
  induction s with
  | nil => rfl
  | cons c s ih =>
    have hc : c ≠ 0 := fun hc => h (hc ▸ List.mem_cons_self)
    rw [List.cons_append, strlen, if_neg hc, ih fun hs => h (List.mem_cons_of_mem _ hs)]
    rfl

/-- A string without an end. -/
theorem strlen_eq_none (h : 0 ∉ s) : strlen s = none := by
  induction s with
  | nil => rfl
  | cons c s ih =>
    have hc : c ≠ 0 := fun hc => h (hc ▸ List.mem_cons_self)
    rw [strlen, if_neg hc, ih fun hs => h (List.mem_cons_of_mem _ hs)]
    rfl

/-- The length of a text in the array. -/
theorem strlen_buffer (h : 0 ∉ s) (hlen : s.length < 256) : strlen (buffer s) = some s.length := by
  rw [buffer_eq hlen, strlen_append h]

/-- A text that fills the array has no end. -/
theorem strlen_full (h : 0 ∉ s) (hlen : s.length = 256) : strlen (buffer s) = none := by
  rw [buffer, hlen, Nat.sub_self, List.replicate_zero, List.append_nil, strlen_eq_none h]

/-- The byte behind the string. -/
theorem setByte_buffer (hlen : s.length < 256) (c : Byte) :
    setByte (buffer s) s.length c = some (buffer (s ++ [c])) := by
  rw [setByte, if_pos (by rw [length_buffer (Nat.le_of_lt hlen)]; exact hlen), buffer_eq hlen,
    List.set_append_right _ _ (Nat.le_refl _), Nat.sub_self, List.set_cons_zero, buffer,
    List.length_append,
    List.append_assoc, List.length_singleton, Nat.sub_add_eq 256, Nat.sub_right_comm]
  rfl

/-- A filling is no null byte. -/
theorem not_mem_replicate (hc : c ≠ 0) (n : Nat) : 0 ∉ List.replicate n c := fun h =>
  hc (List.eq_of_mem_replicate h).symm

/-- The padding, as long as there is room. -/
theorem padLoop_buffer (hc : c ≠ 0) (h : 0 ∉ s) (hlen : s.length ≤ 256) :
    padLoop c n (buffer s) = if s.length + n ≤ 256 then some (buffer (s ++ List.replicate n c))
      else none := by
  induction n generalizing s with
  | zero =>
    rw [if_pos (by omega), List.replicate_zero, List.append_nil]
    rfl
  | succ n ih =>
    -- in a buffer that is full, `strlen` runs out of it
    rcases Nat.lt_or_eq_of_le hlen with hlt | hfull
    · have hnot : 0 ∉ s ++ [c] := by
        rw [List.mem_append, List.mem_singleton]
        exact not_or.mpr ⟨h, fun hc' => hc hc'.symm⟩
      have hlen' : (s ++ [c]).length = s.length + 1 := by
        rw [List.length_append, List.length_singleton]
      simp only [padLoop, strlen_buffer h hlt, setByte_buffer hlt, Option.bind_eq_bind,
        Option.bind_some]
      rw [ih hnot (by omega), hlen', List.append_assoc, Nat.add_assoc, Nat.add_comm 1 n]
      rfl
    · rw [if_neg (by omega), padLoop, strlen_full h hfull]
      rfl

/-- A string is copied with its null byte, when it fits. -/
theorem strcpy_append (h : 0 ∉ t) : strcpy dst p (t ++ 0 :: back) =
    if p + t.length < dst.length then some (dst.take p ++ t ++ 0 :: dst.drop (p + t.length + 1))
      else none := by
  -- byte by byte
  induction t generalizing dst p with
  | nil =>
    rw [List.nil_append, strcpy, setByte, List.length_nil, Nat.add_zero]
    -- the null byte is the last one that is written
    by_cases hp : p < dst.length
    · rw [if_pos hp, if_pos (by omega), List.set_eq_take_cons_drop _ hp, List.append_nil]
      rfl
    · rw [if_neg hp, if_neg (by omega)]
      rfl
  | cons c t ih =>
    have hc : c ≠ 0 := fun hc => h (hc ▸ List.mem_cons_self)
    rw [List.cons_append, strcpy, setByte]
    -- the byte fits, or the copy ends here
    by_cases hp : p < dst.length
    · rw [if_pos hp, Option.bind_eq_bind, Option.bind_some, if_neg hc,
        ih fun ht => h (List.mem_cons_of_mem _ ht),
        List.length_set, List.length_cons, Nat.add_right_comm, Nat.add_assoc p]
      split
      · rw [List.drop_set_of_lt (by omega), List.set_eq_take_cons_drop _ hp, List.take_append,
          List.length_take,
          Nat.min_eq_left (Nat.le_of_lt hp), Nat.add_sub_cancel_left, List.take_take,
          Nat.min_eq_right (Nat.le_succ p)]
        simp
      · rfl
    · rw [if_neg hp, if_neg (by rw [List.length_cons]; omega)]
      rfl

/-- Another string behind the one in the buffer. -/
theorem strcat_buffer (hs : 0 ∉ s) (ht : 0 ∉ t) (hslen : s.length ≤ 256) (htlen : t.length < 256) :
    strcat (buffer s) (buffer t) = if s.length + t.length < 256 then some (buffer (s ++ t))
      else none := by
  unfold strcat
  rcases Nat.lt_or_eq_of_le hslen with hlt | hfull
  · rw [strlen_buffer hs hlt, Option.bind_eq_bind, Option.bind_some, buffer_eq htlen,
      strcpy_append ht, length_buffer hslen]
    split
    · rename_i hroom
      have htake : (buffer s).take s.length = s := List.take_left
      have hrest : 256 - s.length - (t.length + 1) = 255 - (s ++ t).length := by
        rw [List.length_append]
        omega
      rw [htake, Nat.add_assoc, drop_buffer, hrest, ← buffer_eq (by rw [List.length_append]; omega)]
    · rfl
  · rw [strlen_full hs hfull, if_neg (by omega)]
    rfl

/-- A longer string in the place of the one in the buffer. -/
theorem strcpy_buffer (ht : 0 ∉ t) (hle : s.length ≤ t.length) (htlen : t.length < 256) :
    strcpy (buffer s) 0 (buffer t) = some (buffer t) := by
  rw [buffer_eq htlen, strcpy_append ht, length_buffer (by omega), if_pos (by omega),
    List.take_zero, List.nil_append,
    show 0 + t.length + 1 = s.length + (t.length + 1 - s.length) by omega, drop_buffer,
    show 256 - s.length - (t.length + 1 - s.length) = 255 - t.length by omega]

/-! ## Digits -/

/-- The loop counts the digits. -/
theorem sizeLoop_eq {fuel : Nat} (hbase : 1 < base) (h : n < base ^ (fuel + 1)) :
    sizeLoop base (fuel + 1) n p = p + (numeral base n).length := by
  induction fuel generalizing n p with
  | zero =>
    rw [pow_one] at h
    rw [sizeLoop, if_pos (Nat.div_eq_of_lt h), Numeral.numeral_of_lt h]
    rfl
  | succ fuel ih =>
    rw [sizeLoop]
    -- the last digit ends the loop, whatever fuel is left
    by_cases hlt : n < base
    · rw [if_pos (Nat.div_eq_of_lt hlt), Numeral.numeral_of_lt hlt]
      rfl
    · have hdiv : n / base ≠ 0 := (Nat.div_pos (Nat.not_lt.mp hlt) (by omega)).ne'
      have hpow : n / base < base ^ (fuel + 1) := Nat.div_lt_of_lt_mul (by rwa [← pow_succ'])
      rw [if_neg hdiv, ih hpow, Numeral.numeral_of_le hbase (Nat.not_lt.mp hlt), List.length_append,
        List.length_singleton]
      omega

/-- The byte between `front` and `back`. -/
theorem setByte_between (d : Byte) :
    setByte (front ++ c :: back) front.length d = some (front ++ d :: back) := by
  rw [setByte, if_pos (by simp)]
  simp

/-- One digit has the place of `c`. -/
theorem digitLoop_last {fuel : Nat} (digit : List Byte) (h : n < base) :
    digitLoop digit base (fuel + 1) n (front.length + [c].length) (front ++ [c] ++ back) =
      some (front ++ (numeral base n).map (fun d => digit.getD d 0) ++ back) := by
  rw [List.append_assoc, List.singleton_append, List.length_singleton, digitLoop, setByte_between,
    Option.bind_eq_bind,
    Option.bind_some, if_pos (Nat.div_eq_of_lt h), Nat.mod_eq_of_lt h, Numeral.numeral_of_lt h,
    List.append_assoc]
  rfl

/-- The digits take the place of what was there. -/
theorem digitLoop_eq {fuel : Nat} (digit : List Byte) (hbase : 1 < base) (h : n < base ^ (fuel + 1))
    (hold : old.length = (numeral base n).length) :
    digitLoop digit base (fuel + 1) n (front.length + old.length) (front ++ old ++ back) =
      some (front ++ (numeral base n).map (fun d => digit.getD d 0) ++ back) := by
  induction fuel generalizing n old back with
  | zero =>
    rw [pow_one] at h
    rw [Numeral.numeral_of_lt h] at hold
    obtain ⟨c, rfl⟩ := List.length_eq_one_iff.mp hold
    exact digitLoop_last digit h
  | succ fuel ih =>
    by_cases hlt : n < base
    · rw [Numeral.numeral_of_lt hlt] at hold
      obtain ⟨c, rfl⟩ := List.length_eq_one_iff.mp hold
      exact digitLoop_last digit hlt
    · have hdiv : n / base ≠ 0 := (Nat.div_pos (Nat.not_lt.mp hlt) (by omega)).ne'
      have hpow : n / base < base ^ (fuel + 1) := Nat.div_lt_of_lt_mul (by rwa [← pow_succ'])
      have hnumeral := Numeral.numeral_of_le hbase (Nat.not_lt.mp hlt)
      rw [hnumeral, List.length_append, List.length_singleton] at hold
      -- digits are written from the end, so the last byte goes first
      rcases List.eq_nil_or_concat old with rfl | ⟨old, c, rfl⟩
      · exact absurd hold (Nat.succ_ne_zero _).symm
      · rw [List.concat_eq_append, List.length_append, List.length_singleton] at hold
        have hsplit : front ++ (old ++ [c]) ++ back = (front ++ old) ++ c :: back := by simp
        rw [List.concat_eq_append, List.length_append, List.length_singleton, ← Nat.add_assoc,
          digitLoop, hsplit,
          ← List.length_append, setByte_between, Option.bind_eq_bind, Option.bind_some, if_neg hdiv,
          List.length_append,
          ih hpow (Nat.succ.inj hold), hnumeral, List.map_append]
        simp

/-! ## The whole text -/

/-- The sign, or what takes its place. -/
def signText (i : Int) (plusSign spaceSign : Bool) : List Byte :=
  if i < 0 then [chr '-'] else if plusSign then [chr '+'] else if spaceSign then [chr ' '] else []

/-- The base that a selector stands for. -/
def radix (base : Nat) : Nat := if base = 17 then 16 else base

def digitsText (base n : Nat) : List Byte :=
  (numeral (radix base) n).map fun d => (digitChars base).getD d 0

/-- Sign and digits. -/
def intText (i : Int) (base : Nat) (plusSign spaceSign : Bool) : List Byte :=
  signText i plusSign spaceSign ++ digitsText base i.natAbs

def padding (l : List Byte) (w : Int) (zeroPad : Bool) : List Byte :=
  List.replicate (w - l.length).toNat (if zeroPad then chr '0' else chr ' ')

/-- The text with its padding, which may come between nothing and the sign. -/
def padded (l : List Byte) (w : Int) (justify zeroPad : Bool) : List Byte :=
  if justify then l ++ padding l w zeroPad else padding l w zeroPad ++ l

/-- The selectors of `kvprintf`. -/
def IsBase (base : Nat) : Prop := base = 8 ∨ base = 10 ∨ base = 16 ∨ base = 17

/-- No digit is a null byte. -/
theorem digit_ne_zero (hbase : IsBase base) : ∀ d < radix base, (digitChars base).getD d 0 ≠ 0 := by
  rcases hbase with rfl | rfl | rfl | rfl <;> decide

/-- The radix is 8 or more. -/
theorem radix_ge (hbase : IsBase base) : 8 ≤ radix base := by
  rcases hbase with rfl | rfl | rfl | rfl <;> decide

/-- 64 bits have at most 22 digits. -/
theorem length_digitsText_le (hbase : IsBase base) (hn : n ≤ 9223372036854775808) :
    (digitsText base n).length ≤ 22 := by
  have hradix := radix_ge hbase
  rw [digitsText, List.length_map, Numeral.length_numeral_le (by omega) (by decide)]
  calc n < 8 ^ 22 := by omega
    _ ≤ radix base ^ 22 := Nat.pow_le_pow_left hradix 22

/-- The text of a number has no null byte. -/
theorem zero_not_mem_intText (hbase : IsBase base) (i : Int) (plusSign spaceSign : Bool) :
    0 ∉ intText i base plusSign spaceSign := by
  have hradix := radix_ge hbase
  rw [intText, List.mem_append, not_or]
  constructor
  · unfold signText
    split
    · decide
    · split
      · decide
      · split <;> decide
  · intro h
    obtain ⟨d, hd, hzero⟩ := List.mem_map.mp h
    exact digit_ne_zero hbase d (Numeral.lt_of_mem_numeral (by omega) hd) hzero

/-- A sign is one character. -/
theorem length_signText_le (i : Int) (plusSign spaceSign : Bool) :
    (signText i plusSign spaceSign).length ≤ 1 := by
  unfold signText
  split
  · exact Nat.le_refl 1
  · split
    · exact Nat.le_refl 1
    · split <;> decide

/-- A number with its sign has at most 23 characters. -/
theorem length_intText_le (hbase : IsBase base) (hi : i.natAbs ≤ 9223372036854775808)
    (plusSign spaceSign : Bool) :
    (intText i base plusSign spaceSign).length ≤ 23 := by
  have := length_signText_le i plusSign spaceSign
  have := length_digitsText_le hbase hi
  rw [intText, List.length_append]
  omega

/-- The two loops that write the digits behind the sign. -/
theorem digits_buffer (hbase : IsBase base) (hn : n ≤ 9223372036854775808) (ht : t.length ≤ 1) :
    digitsInto n base t.length (buffer t) = some (buffer (t ++ digitsText base n)) := by
  have hradix := radix_ge hbase
  have hpow : n < radix base ^ (63 + 1) := by
    calc n < 8 ^ 64 := by omega
      _ ≤ radix base ^ 64 := Nat.pow_le_pow_left hradix 64
  have hlen : (numeral (radix base) n).length = (digitsText base n).length := by
    rw [digitsText, List.length_map]
  have hle := length_digitsText_le hbase hn
  -- the bytes of the digits are zero before
  have hsplit : buffer t = t ++ List.replicate (digitsText base n).length 0 ++
      List.replicate (256 - (t ++ digitsText base n).length) 0 := by
    rw [buffer, List.append_assoc, List.replicate_append_replicate, List.length_append]
    congr 2
    omega
  have hzero : setByte (buffer t) (t.length + (digitsText base n).length) 0 = some (buffer t) := by
    rw [setByte, if_pos (by rw [length_buffer (by omega)]; omega), buffer,
      List.set_append_right _ _ (by omega),
      List.set_replicate_self]
  show (setByte (buffer t) (sizeLoop (radix base) 64 n t.length) 0 >>=
    digitLoop (digitChars base) (radix base) 64 n (sizeLoop (radix base) 64 n t.length)) = _
  rw [sizeLoop_eq (by omega) hpow, hlen, hzero, Option.bind_eq_bind, Option.bind_some, hsplit]
  have hold : (List.replicate (digitsText base n).length (0 : Byte)).length =
      (numeral (radix base) n).length := by
    rw [List.length_replicate, hlen]
  have hdigits : digitLoop (digitChars base) (radix base) 64 n
      (t.length + (List.replicate (digitsText base n).length (0 : Byte)).length)
      (t ++ List.replicate (digitsText base n).length 0 ++
        List.replicate (256 - (t ++ digitsText base n).length) 0) =
      some (t ++ digitsText base n ++ List.replicate (256 - (t ++ digitsText base n).length) 0) :=
    digitLoop_eq (digitChars base) (by omega) hpow hold
  rw [List.length_replicate] at hdigits
  exact hdigits

/-- The sign comes first. -/
theorem sign_buffer (i : Int) (plusSign spaceSign : Bool) :
    signInto i plusSign spaceSign (buffer []) =
    some (buffer (signText i plusSign spaceSign), (signText i plusSign spaceSign).length) := by
  have hset : ∀ c, setByte (buffer []) 0 c = some (buffer [c]) :=
    fun c => setByte_buffer (by decide) c
  unfold signInto signText
  simp only [hset]
  split
  · rfl
  · split
    · rfl
    · split <;> rfl

/-- The filling up to the width. -/
theorem length_padding (l : List Byte) (w : Int) (zeroPad : Bool) :
    (padding l w zeroPad).length = (w - l.length).toNat :=
  List.length_replicate

/-- The text with its filling. -/
theorem length_padded (l : List Byte) (w : Int) (justify zeroPad : Bool) :
    (padded l w justify zeroPad).length = l.length + (w - l.length).toNat := by
  unfold padded
  split
  · rw [List.length_append, length_padding]
  · rw [List.length_append, length_padding, Nat.add_comm]

/-- The padding, if the text fits into the buffer with it. -/
theorem padInto_buffer (h : 0 ∉ t) (hlen : t.length < 256) (w : Int) (justify zeroPad : Bool) :
    padInto (buffer t) (w - t.length).toNat justify zeroPad =
      if (padded t w justify zeroPad).length ≤ (if justify then 256 else 255) then
        some (buffer (padded t w justify zeroPad))
      else none := by
  have hpad : (if zeroPad then chr '0' else chr ' ') ≠ 0 := by cases zeroPad <;> decide
  rw [length_padded]
  unfold padInto padded
  cases justify with
  | true => exact padLoop_buffer hpad h (Nat.le_of_lt hlen)
  | false =>
    have hstart : (List.replicate 256 (0 : Byte)) = buffer [] := rfl
    -- padding on the left needs room for its null byte in a second buffer
    simp only [Bool.false_eq_true, if_false, hstart]
    rw [padLoop_buffer hpad List.not_mem_nil (Nat.zero_le _), List.length_nil, Nat.zero_add,
      List.nil_append]
    have hzeros := not_mem_replicate hpad (w - t.length).toNat
    by_cases hroom : (w - t.length).toNat ≤ 256
    · rw [if_pos hroom, Option.bind_eq_bind, Option.bind_some,
        strcat_buffer hzeros h (by rwa [List.length_replicate]) hlen, List.length_replicate]
      by_cases hfit : (w - t.length).toNat + t.length < 256
      · rw [if_pos hfit, if_pos (show t.length + (w - t.length).toNat ≤ 255 by omega)]
        have hnot : 0 ∉ padding t w zeroPad ++ t := by
          rw [List.mem_append, not_or]
          exact ⟨hzeros, h⟩
        have hlt : (padding t w zeroPad ++ t).length < 256 := by
          rw [List.length_append, length_padding]
          exact hfit
        exact strcpy_buffer hnot (by rw [List.length_append]; omega) hlt
      · rw [if_neg hfit, if_neg (show ¬ t.length + (w - t.length).toNat ≤ 255 by omega)]
        rfl
    · rw [if_neg hroom, if_neg (show ¬ t.length + (w - t.length).toNat ≤ 255 by omega)]
      rfl

/-- What `int_str` writes, and when it runs over its array. -/
theorem intStr_eq (hbase : IsBase base) (hlo : -9223372036854775808 ≤ i)
    (hhi : i < 9223372036854775808)
    (hw : w < 2147483648) (plusSign spaceSign justify zeroPad : Bool) :
    intStr i (List.replicate 256 0) base plusSign spaceSign w justify zeroPad =
      if i = -9223372036854775808 ∨ w - (intText i base plusSign spaceSign).length <
        -2147483648 then none
      else if (padded (intText i base plusSign spaceSign) w justify zeroPad).length ≤
        (if justify then 256 else 255) then
        some (buffer (padded (intText i base plusSign spaceSign) w justify zeroPad))
      else none := by
  have hsign := length_signText_le i plusSign spaceSign
  have hzero := zero_not_mem_intText hbase i plusSign spaceSign
  have hdigits := digits_buffer hbase (show i.natAbs ≤ 9223372036854775808 by omega) hsign
  have htext :=
    length_intText_le hbase (show i.natAbs ≤ 9223372036854775808 by omega) plusSign spaceSign
  have hstart : (List.replicate 256 (0 : Byte)) = buffer [] := rfl
  simp only [intStr, hstart, sign_buffer, Option.bind_eq_bind, Option.bind_some]
  -- the least number has no negation, and the difference can leave the `int`
  by_cases hleast : i = -9223372036854775808
  · rw [if_pos hleast, if_pos (.inl hleast)]
  · rw [if_neg hleast, hdigits, Option.bind_some, ← intText, strlen_buffer hzero (by omega),
      Option.bind_some]
    by_cases hlow : w - (intText i base plusSign spaceSign).length < -2147483648
    · rw [if_pos (.inr hlow), CInt.checked, if_neg (by omega)]
      rfl
    · rw [if_neg (by omega), CInt.checked_of_le (by omega) (by omega), Option.bind_some,
        padInto_buffer hzero (by omega)]

/-- The filled text has no null byte. -/
theorem zero_not_mem_padded (h : 0 ∉ t) (w : Int) (justify zeroPad : Bool) :
    0 ∉ padded t w justify zeroPad := by
  have hpad : (if zeroPad then chr '0' else chr ' ') ≠ 0 := by cases zeroPad <;> decide
  have hpadding : 0 ∉ padding t w zeroPad := not_mem_replicate hpad _
  unfold padded
  split
  · rw [List.mem_append, not_or]
    exact ⟨h, hpadding⟩
  · rw [List.mem_append, not_or]
    exact ⟨hpadding, h⟩

/-- Digits, in lower case for the selector 17, with the sign of a negative number. -/
def signedDigits (base : Nat) (i : Int) (ds : List Nat) : List Byte :=
  (if i < 0 then [chr '-'] else []) ++
    ds.map fun d => (ascii (if base = 17 then "0123456789abcdef" else "0123456789ABCDEF")).getD d 0

/-- The digits of the selectors 8 and 10 are the first ones of the selector 16. -/
theorem digitChars_eq (hbase : IsBase base) : ∀ d < radix base, (digitChars base).getD d 0 =
    (ascii (if base = 17 then "0123456789abcdef" else "0123456789ABCDEF")).getD d 0 := by
  rcases hbase with rfl | rfl | rfl | rfl <;> decide

/-- The text is the sign and the numeral. -/
theorem intText_eq_signedDigits (hbase : IsBase base) (i : Int) :
    intText i base false false = signedDigits base i (numeral (radix base) i.natAbs) := by
  have hradix := radix_ge hbase
  have hdigits : digitsText base i.natAbs = (numeral (radix base) i.natAbs).map fun d =>
      (ascii (if base = 17 then "0123456789abcdef" else "0123456789ABCDEF")).getD d 0 :=
    List.map_congr_left fun d hd => digitChars_eq hbase d (Numeral.lt_of_mem_numeral (by omega) hd)
  rw [intText, hdigits]
  rfl

/-- Without a flag for the sign the string is the canonical numeral of the number, filled up
    to a width below 256 with the pad character on one side.  A width is not negative; the
    bound is what keeps the difference to the length in an `int`. -/
theorem intStr_numeral (hbase : IsBase base) (hlo : -9223372036854775808 < i)
    (hhi : i < 9223372036854775808)
    (hlow : -2147483625 ≤ w) (hw : w < 256) (justify zeroPad : Bool) :
    ∃ (ds : List Nat) (s : List Byte) (k : Nat), Numeral.IsNumeral (radix base) i.natAbs ds ∧
      intStr i (List.replicate 256 0) base false false w justify zeroPad =
        some (s ++ List.replicate (256 - s.length) 0) ∧
      0 ∉ s ∧ s.length < 256 ∧
      (s.length : Int) = max w (signedDigits base i ds).length ∧
      s = (if justify then signedDigits base i ds ++
        List.replicate k (if zeroPad then chr '0' else chr ' ')
        else List.replicate k (if zeroPad then chr '0' else chr ' ') ++ signedDigits base i ds) ∧
      (w = 0 → s = signedDigits base i ds) := by
  have hradix := radix_ge hbase
  have htext := length_intText_le hbase (show i.natAbs ≤ 9223372036854775808 by omega) false false
  have hzero := zero_not_mem_padded (zero_not_mem_intText hbase i false false) w justify zeroPad
  have hlength := length_padded (intText i base false false) w justify zeroPad
  have hstr := intStr_eq hbase (Int.le_of_lt hlo) hhi (show w < 2147483648 by omega) false false
    justify zeroPad
  -- the buffer has room for the padded text and its null byte
  have hroom : (padded (intText i base false false) w justify zeroPad).length ≤ if justify
      then 256 else 255 := by
    rw [hlength]
    split <;> omega
  rw [if_neg (by omega), if_pos hroom] at hstr
  refine ⟨numeral (radix base) i.natAbs, padded (intText i base false false) w justify zeroPad,
    (w - (intText i base false false).length).toNat, Numeral.isNumeral_numeral (by omega) _,
    hstr, hzero, ?_⟩
  rw [← intText_eq_signedDigits hbase i]
  refine ⟨by omega, by omega, rfl, ?_⟩
  -- without a width there is no padding
  intro hw0
  have hnone : (w - (intText i base false false).length).toNat = 0 := by omega
  unfold padded padding
  rw [hnone, List.replicate_zero, List.append_nil, List.nil_append, ite_self]

/-- `-255` with the selector 17, in six characters on the left. -/
theorem intStr_numeral_lower : ∃ (ds : List Nat) (s : List Byte)
    (k : Nat), Numeral.IsNumeral 16 255 ds ∧
    intStr (-255) (List.replicate 256 0) 17 false false 6 true false =
      some (s ++ List.replicate (256 - s.length) 0) ∧
    0 ∉ s ∧ s.length < 256 ∧ (s.length : Int) = max (6 : Int) (signedDigits 17 (-255) ds).length ∧
    s = signedDigits 17 (-255) ds ++ List.replicate k (chr ' ') := by
  obtain ⟨ds, s, k, hds, hstr, hzero, hlt, hlength, hs, -⟩ := intStr_numeral (i := -255) (w := 6)
    (.inr (.inr (.inr rfl))) (by decide) (by decide) (by decide) (by decide) true false
  exact ⟨ds, s, k, hds, hstr, hzero, hlt, hlength, hs⟩

/-! ## Printing -/

/-- A text in the buffer is printed if there is an end. -/
theorem putBuffer_buffer {out : Printed} (h : 0 ∉ s) (hlen : s.length ≤ 256) :
    out.putBuffer (buffer s) = if s.length ≤ 255 then some (out.putString s) else none := by
  unfold Printed.putBuffer
  rcases Nat.lt_or_eq_of_le hlen with hlt | hfull
  · rw [strlen_buffer h hlt, if_pos (by omega), Option.bind_eq_bind, Option.bind_some, buffer,
      List.take_left]
    rfl
  · rw [strlen_full h hfull, if_neg (by omega)]
    rfl

/-- The text of a conversion of an integer. -/
def Conversion.intText (v : Conversion) (base : Nat) (integer : Int) : List Byte :=
  MishaOS.intText integer base v.plusSign v.spaceNoSign

def Conversion.padded (v : Conversion) (base : Nat) (integer : Int) : List Byte :=
  MishaOS.padded (v.intText base integer) v.lengthSpec v.leftJustify v.zeroPad

/-- The number has a negation, and its padding fits into the buffer. -/
structure Conversion.Room (v : Conversion) (base : Nat) (integer : Int) : Prop where
  not_least : integer ≠ -9223372036854775808
  not_low : -2147483648 ≤ v.lengthSpec - (v.intText base integer).length
  length_le : (v.padded base integer).length ≤ 255

/-- When a number can be printed. -/
theorem putInt_iff {out out' : Printed} {v : Conversion} (hbase : IsBase base)
    (hlo : -9223372036854775808 ≤ i)
    (hhi : i < 9223372036854775808) (hw : v.lengthSpec < 2147483648) :
    out.putInt v base i = some out' ↔ v.Room base i ∧ out.putString (v.padded base i) = out' := by
  have hzero := zero_not_mem_intText hbase i v.plusSign v.spaceNoSign
  have hnot : 0 ∉ v.padded base i := zero_not_mem_padded hzero v.lengthSpec v.leftJustify v.zeroPad
  unfold Printed.putInt
  rw [intStr_eq hbase hlo hhi hw]
  show ((if i = -9223372036854775808 ∨ v.lengthSpec - (v.intText base i).length <
    -2147483648 then none
    else if (v.padded base i).length ≤ (if v.leftJustify then 256 else 255)
      then some (buffer (v.padded base i))
    else none) >>= out.putBuffer) = some out' ↔ _
  by_cases hbad : i = -9223372036854775808 ∨ v.lengthSpec - (v.intText base i).length < -2147483648
  · rw [if_pos hbad]
    refine ⟨nofun, fun ⟨hroom, _⟩ => ?_⟩
    rcases hbad with hleast | hlow
    · exact absurd hleast hroom.not_least
    · exact absurd hlow (Int.not_lt.mpr hroom.not_low)
  · rw [if_neg hbad]
    rw [not_or] at hbad
    -- padding on the right may fill the whole buffer, but then the text has no end
    by_cases hfit : (v.padded base i).length ≤ 255
    · have hle : (v.padded base i).length ≤ if v.leftJustify then 256 else 255 := by
        split
        · omega
        · exact hfit
      rw [if_pos hle, Option.bind_eq_bind, Option.bind_some, putBuffer_buffer hnot (by omega),
        if_pos hfit, Option.some.injEq]
      exact ⟨fun h => ⟨⟨hbad.1, Int.not_lt.mp hbad.2, hfit⟩, h⟩, fun h => h.2⟩
    · refine iff_of_false ?_ fun h => hfit h.1.length_le
      by_cases hleft : (v.padded base i).length ≤ if v.leftJustify then 256 else 255
      · have hle : (v.padded base i).length ≤ 256 := by
          split at hleft <;> omega
        rw [if_pos hleft, Option.bind_eq_bind, Option.bind_some,
          putBuffer_buffer hnot hle, if_neg hfit]
        nofun
      · rw [if_neg hleft]
        nofun

end MishaOS
