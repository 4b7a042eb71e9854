import MishaOS.Spec.CivilTime
import MishaOS.Spec.NumberText

/-!
# The text of a date

`format_time` prints `+` in front of the hours and minutes of the time zone, and
`itoa` prints a sign of its own: a zone west of Greenwich gets two signs, and one
character more for each.  So does the time of day of a time before 1970.

## Key results

- `formatTwo_of_nonneg`, `length_formatTwo_of_neg`: the fields of two digits.
- `format_time_iff`: when the text fits and its zone is right.
-/

namespace MishaOS

open Numeral (numeral)
open Calendar (leap monthDays)

variable {v tzOffset : Int} {date : DateTime} {t : BitVec 32} {n : Nat}

/-- The two decimal digits of a number below 100. -/
def twoDigits (n : Nat) : List Byte := [BitVec.ofNat 8 (48 + n / 10), BitVec.ofNat 8 (48 + n % 10)]

/-- `zone` is a sign, hours and minutes of two digits each, and they mean `tzOffset` minutes. -/
def ZoneDenotes (zone : List Byte) (tzOffset : Int) : Prop :=
  ∃ h m : Nat, h < 100 ∧ m < 60 ∧
    (zone = ascii "+" ++ twoDigits h ++ ascii ":" ++ twoDigits m ∧ tzOffset = h * 60 + m ∨
      zone = ascii "-" ++ twoDigits h ++ ascii ":" ++ twoDigits m ∧ tzOffset = -(h * 60 + m : Int))

/-- The text has at most `TIME_STRING_SIZE` bytes with its null byte, and what stands behind its
    last space means the time zone of the date. -/
def TimeTextOk (date : DateTime) : Prop :=
  ∃ text front zone, formatTime date = some text ∧ text.length ≤ TIME_STRING_SIZE ∧
    text = front ++ 32 :: (zone ++ [0]) ∧ ZoneDenotes zone date.tzOffset

/-- A field below zero has a sign, and takes a character more for each of its digits. -/
def overhang (v : Int) : Nat := if v < 0 then (numeral 10 v.natAbs).length else 0

def DateTime.overhang (date : DateTime) : Nat :=
  MishaOS.overhang date.day + MishaOS.overhang date.hour + MishaOS.overhang date.min +
    MishaOS.overhang date.sec

/-! ## Fields -/

/-- The digits of the table. -/
theorem alphabet_digit (hn : n < 10) : alphabet.getD n 0 = BitVec.ofNat 8 (48 + n) := by
  have hall : ∀ i : Fin 10, alphabet.getD i.val 0 = BitVec.ofNat 8 (48 + i.val) := by decide
  exact hall ⟨n, hn⟩

/-- A decimal numeral with its sign. -/
theorem itoa_ten (hge : -9223372036854775808 < v) (hlt : v < 9223372036854775808) :
    itoa v 10 = some ((if v < 0 then ascii "-" else []) ++ numeralText 10 v.natAbs) :=
  itoa_eq (by decide) (by decide) hge hlt

/-- Two digits. -/
theorem formatTwo_of_nonneg (hge : 0 ≤ v) (hlt : v < 100) :
    formatTwo v = some (twoDigits v.toNat) := by
  rw [formatTwo, itoa_ten (by omega) (by omega), Option.map_some, if_neg (Int.not_lt.mpr hge),
    List.nil_append,
    numeralText, show v.natAbs = v.toNat by omega, twoDigits]
  split
  · rw [Numeral.numeral_of_lt (by omega), List.map_singleton, alphabet_digit (by omega),
      Nat.div_eq_of_lt (by omega),
      Nat.mod_eq_of_lt (by omega)]
    rfl
  · rw [Numeral.numeral_of_le (by decide) (by omega), Numeral.numeral_of_lt (by omega),
      List.map_append,
      List.map_singleton, List.map_singleton, alphabet_digit (by omega), alphabet_digit (by omega)]
    rfl

/-- A negative number takes more room. -/
theorem length_formatTwo (hge : -9223372036854775808 < v) (hlt : v < 100) :
    ∃ text, formatTwo v = some text ∧ text.length = 2 + overhang v := by
  -- the digits of a negative number come behind both `0` and `-`
  by_cases hneg : v < 0
  · refine ⟨_, by rw [formatTwo, itoa_ten hge (by omega)]; rfl, ?_⟩
    rw [if_pos (show v < 10 by omega), if_pos hneg, overhang, if_pos hneg, numeralText]
    simp only [List.length_append, List.length_map]
    rw [show (ascii "0").length = 1 from rfl, show (ascii "-").length = 1 from rfl]
    omega
  · exact ⟨_, formatTwo_of_nonneg (by omega) hlt, by rw [overhang, if_neg hneg]; rfl⟩

/-- At least one character more. -/
theorem overhang_pos (hneg : v < 0) : 0 < overhang v := by
  rw [overhang, if_pos hneg]
  exact Numeral.length_numeral_pos

/-- A year of four digits. -/
theorem length_itoa_year (hge : 1000 ≤ v) (hlt : v < 10000) :
    ∃ text, itoa v 10 = some text ∧ text.length = 4 := by
  refine ⟨_, itoa_ten (by omega) (by omega), ?_⟩
  rw [if_neg (by omega), List.nil_append, numeralText, List.length_map]
  exact Numeral.length_numeral_eq (by decide) (by omega) (by omega)

/-- All names have three characters. -/
theorem length_name {l : List (List Byte)} (h : ∀ name ∈ l, name.length = 3) (i : Nat) :
    (l.getD i (ascii "???")).length = 3 := by
  rw [List.getD_eq_getElem?_getD]
  cases hi : l[i]? with
  | none => rfl
  | some name => exact h name (List.mem_of_getElem? hi)

/-! ## The parts -/

/-- No digit is a space. -/
theorem formatTwo_no_space {text : List Byte} (hge : -9223372036854775808 < v) (hlt : v < 100)
    (h : formatTwo v = some text) : 32 ∉ text := by
  have hdigits : 32 ∉ numeralText 10 v.natAbs := by
    intro hmem
    obtain ⟨d, hd, hchar⟩ := List.mem_map.mp hmem
    have hall : ∀ i : Fin 10, alphabet.getD i.val 0 ≠ 32 := by decide
    exact hall ⟨d, Numeral.lt_of_mem_numeral (by decide) hd⟩ hchar
  rw [formatTwo, itoa_ten hge (by omega), Option.map_some, Option.some.injEq] at h
  rw [← h, List.mem_append, List.mem_append, not_or, not_or]
  refine ⟨?_, ?_, hdigits⟩
  · split <;> decide
  · split <;> decide

/-- The hours and minutes of a time zone. -/
theorem tdiv_sixty_bounds (hge : -840 ≤ tzOffset) (hle : tzOffset ≤ 840) :
    (-14 ≤ tzOffset.tdiv 60 ∧ tzOffset.tdiv 60 ≤ 14) ∧ -60 < tzOffset.tmod 60 ∧
    tzOffset.tmod 60 < 60 := by
  have hmod := Int.tmod_add_mul_tdiv tzOffset 60
  have hlo := Int.lt_tmod_of_pos tzOffset (show (0 : Int) < 60 by decide)
  have hhi := Int.tmod_lt_of_pos tzOffset (show (0 : Int) < 60 by decide)
  omega

/-- The length of a zone. -/
theorem length_formatZone (hge : -840 ≤ tzOffset) (hle : tzOffset ≤ 840) :
    ∃ zone, formatZone tzOffset = some zone ∧
    zone.length = 6 + overhang (tzOffset.tdiv 60) + overhang (tzOffset.tmod 60) ∧ 32 ∉ zone := by
  obtain ⟨hdiv, hmod⟩ := tdiv_sixty_bounds hge hle
  obtain ⟨tzh, htzh, htzhLen⟩ := length_formatTwo (v := tzOffset.tdiv 60) (by omega) (by omega)
  obtain ⟨tzm, htzm, htzmLen⟩ := length_formatTwo (v := tzOffset.tmod 60) (by omega) (by omega)
  have htzhSpace := formatTwo_no_space (by omega) (by omega) htzh
  have htzmSpace := formatTwo_no_space (by omega) (by omega) htzm
  simp only [formatZone, htzh, htzm, Option.bind_eq_bind, Option.bind_some, Option.pure_def]
  refine ⟨_, rfl, ?_, ?_⟩
  · simp only [List.length_append, htzhLen, htzmLen]
    simp [ascii]
    omega
  · simp only [List.mem_append, not_or]
    exact ⟨⟨⟨by decide, htzhSpace⟩, by decide⟩, htzmSpace⟩

/-- East of Greenwich the zone is right. -/
theorem formatZone_of_nonneg (hge : 0 ≤ tzOffset) (hle : tzOffset ≤ 840) :
    ∃ zone, formatZone tzOffset = some zone ∧ ZoneDenotes zone tzOffset := by
  obtain ⟨hdiv, hmod⟩ := tdiv_sixty_bounds (by omega) hle
  have hquot : 0 ≤ tzOffset.tdiv 60 := Int.tdiv_nonneg hge (by decide)
  have hrem : 0 ≤ tzOffset.tmod 60 := Int.tmod_nonneg 60 hge
  have hsum := Int.tmod_add_mul_tdiv tzOffset 60
  simp only [formatZone, formatTwo_of_nonneg hquot (by omega), formatTwo_of_nonneg hrem (by omega),
    Option.bind_eq_bind, Option.bind_some, Option.pure_def]
  exact ⟨_, rfl, (tzOffset.tdiv 60).toNat, (tzOffset.tmod 60).toNat,
    by omega, by omega, .inl ⟨rfl, by omega⟩⟩

/-- West of Greenwich the zone is too long. -/
theorem length_formatZone_of_neg {zone : List Byte} (hge : -840 ≤ tzOffset) (hneg : tzOffset < 0)
    (h : formatZone tzOffset = some zone) : 6 < zone.length := by
  obtain ⟨zone', hzone, hlen, -⟩ := length_formatZone hge (by omega)
  obtain rfl : zone' = zone := Option.some.inj (hzone.symm.trans h)
  have hsum := Int.tmod_add_mul_tdiv tzOffset 60
  -- the hours or the minutes are negative
  by_cases hquot : tzOffset.tdiv 60 < 0
  · have := overhang_pos hquot
    omega
  · have := overhang_pos (v := tzOffset.tmod 60) (by omega)
    omega

/-- The length of date and time. -/
theorem length_formatStamp (hsec : -60 < date.sec ∧ date.sec < 60)
    (hmin : -60 < date.min ∧ date.min < 60)
    (hhour : -24 < date.hour ∧ date.hour < 24) (hday : -400 ≤ date.day ∧ date.day ≤ 31)
    (hyear : 1902 ≤ date.year ∧ date.year ≤ 2038) :
    ∃ stamp, formatStamp date = some (stamp ++ [32]) ∧
      stamp.length = 25 + date.overhang := by
  -- each two-digit field with its length
  obtain ⟨sec, hsec', hsecLen⟩ := length_formatTwo (v := date.sec) (by omega) (by omega)
  obtain ⟨min, hmin', hminLen⟩ := length_formatTwo (v := date.min) (by omega) (by omega)
  obtain ⟨hour, hhour', hhourLen⟩ := length_formatTwo (v := date.hour) (by omega) (by omega)
  obtain ⟨day, hday', hdayLen⟩ := length_formatTwo (v := date.day) (by omega) (by omega)
  obtain ⟨year, hyear', hyearLen⟩ := length_itoa_year (v := date.year) (by omega) (by omega)
  have hweekDay := length_name (l := weekDays) (by decide) (BitVec.ofInt 32 date.weekDay).toNat
  have hmonth := length_name (l := months) (by decide) (BitVec.ofInt 32 (date.month - 1)).toNat
  simp only [formatStamp, hsec', hmin', hhour', hday', hyear', Option.bind_eq_bind,
    Option.bind_some, Option.pure_def]
  refine ⟨_, rfl, ?_⟩
  simp only [List.length_append, hweekDay, hmonth, hsecLen, hminLen, hhourLen, hdayLen, hyearLen]
  simp [ascii, DateTime.overhang]
  omega

/-! ## The whole text -/

/-- The time of day of every date that `split_time` makes. -/
theorem splitTime_clock (h : splitTime t tzOffset = some date) :
    (-60 < date.sec ∧ date.sec < 60) ∧ (-60 < date.min ∧ date.min < 60) ∧ -24 < date.hour ∧
    date.hour < 24 := by
  have hmod : ∀ a k : Int, 0 < k → -k < a.tmod k ∧ a.tmod k < k := fun a k hk =>
    ⟨Int.lt_tmod_of_pos a hk, Int.tmod_lt_of_pos a hk⟩
  obtain ⟨month, -, rfl⟩ := Option.map_eq_some_iff.mp h
  -- every field is a remainder, or the quotient of one
  generalize (t + BitVec.ofInt 32 (tzOffset * 60)).toInt = secs
  have hday := hmod secs (24 * 60 * 60) (by decide)
  generalize secs.tmod (24 * 60 * 60) = daySecs at hday ⊢
  have hrest := hmod daySecs 3600 (by decide)
  refine ⟨hmod daySecs 60 (by decide), ?_, ?_⟩
  · dsimp only
    rw [show (60 : Int) = (60 : Nat) from rfl, tdiv_eq_ite]
    split <;> omega
  · dsimp only
    rw [show (3600 : Int) = (3600 : Nat) from rfl, tdiv_eq_ite]
    split <;> omega

/-- The day and the year. -/
theorem splitTime_bounds (h : splitTime t tzOffset = some date) :
    (-400 ≤ date.day ∧ date.day ≤ 31) ∧ 1902 ≤ date.year ∧ date.year ≤ 2038 := by
  -- before 1970 only the bounds are known, from 1970 on the date is a civil one
  rcases lt_or_ge (t + BitVec.ofInt 32 (tzOffset * 60)).toInt 0 with hneg | hnonneg
  · obtain ⟨date', hsplit, hyear, hday⟩ := splitTime_before rfl hneg
    obtain rfl : date' = date := Option.some.inj (hsplit.symm.trans h)
    omega
  · obtain ⟨date', hsplit, hcivil, hyear, hdays⟩ := splitTime_civil rfl hnonneg
    obtain rfl : date' = date := Option.some.inj (hsplit.symm.trans h)
    obtain ⟨n, -, hn, -, -, -, hn68⟩ := epochYears_spec (by omega) hdays
    have hpos := hcivil.isDate.day_pos
    have hle := hcivil.isDate.day_le
    have hmonth : ∀ b m, monthDays b m ≤ 31 := by
      intro b m
      unfold monthDays
      split <;> (try split) <;> omega
    have := hmonth (leap date'.year.toNat) date'.month.toNat
    omega

/-- The text of a date, and what is behind its last space. -/
theorem formatTime_eq (h : splitTime t tzOffset = some date) (hge : -840 ≤ tzOffset)
    (hle : tzOffset ≤ 840) :
    ∃ stamp zone, formatTime date = some (stamp ++ 32 :: (zone ++ [0])) ∧
      formatZone tzOffset = some zone ∧
      stamp.length = 25 + date.overhang ∧ 32 ∉ zone := by
  obtain ⟨hsec, hmin, hhour⟩ := splitTime_clock h
  obtain ⟨hday, hyear⟩ := splitTime_bounds h
  obtain ⟨stamp, hstamp, hlen⟩ := length_formatStamp hsec hmin hhour hday hyear
  obtain ⟨zone, hzone, -, hspace⟩ := length_formatZone hge hle
  refine ⟨stamp, zone, ?_, hzone, hlen, hspace⟩
  simp [formatTime, hstamp, splitTime_tzOffset h, hzone]

/-- A shorter end behind a space leaves the space in the longer one. -/
theorem space_mem {stamp front zone zone' : List Byte}
    (h : stamp ++ 32 :: (zone ++ [0]) = front ++ 32 :: (zone' ++ [0]))
    (hlt : zone'.length < zone.length) :
    32 ∈ zone := by
  have hlen := congrArg List.length h
  simp only [List.length_append, List.length_cons, List.length_nil] at hlen
  -- look at both texts where the shorter end has its space
  have hcell : (stamp ++ 32 :: (zone ++ [0]))[front.length]? =
      (front ++ 32 :: (zone' ++ [0]))[front.length]? := by
    rw [h]
  rw [List.getElem?_append_right (by omega),
    List.getElem?_append_right (Nat.le_refl _), Nat.sub_self,
    show front.length - stamp.length = zone.length - zone'.length - 1 +
      1 by omega, List.getElem?_cons_succ,
    List.getElem?_append_left (by omega)] at hcell
  exact List.mem_of_getElem? hcell

/-- A zone has six characters. -/
theorem ZoneDenotes.length_eq {zone : List Byte} (h : ZoneDenotes zone tzOffset) :
    zone.length = 6 := by
  obtain ⟨h, m, -, -, ⟨rfl, -⟩ | ⟨rfl, -⟩⟩ := h
  · rfl
  · rfl

/-- No field of a time from 1970 on is below zero. -/
theorem CivilTime.overhang_eq {secs : Int} (h : CivilTime secs date) : date.overhang = 0 := by
  have hday := h.isDate.day_pos
  obtain ⟨hsec, -⟩ := h.sec
  obtain ⟨hmin, -⟩ := h.min
  obtain ⟨hhour, -⟩ := h.hour
  have hzero : ∀ v : Int, 0 ≤ v → overhang v = 0 := fun v hv => if_neg (Int.not_lt.mpr hv)
  rw [DateTime.overhang, hzero _ (show 0 ≤ date.day by omega), hzero _ hhour,
    hzero _ hmin, hzero _ hsec]

/-- When the text is right. -/
theorem timeTextOk_iff (h : splitTime t tzOffset = some date) (hge : -840 ≤ tzOffset)
    (hle : tzOffset ≤ 840) :
    TimeTextOk date ↔ 0 ≤ tzOffset ∧ date.overhang ≤ 1 := by
  obtain ⟨stamp, zone, htext, hzone, hlen, hspace⟩ := formatTime_eq h hge hle
  constructor
  · rintro ⟨text, front, zone', htext', hfits, heq, hdenotes⟩
    obtain rfl := Option.some.inj (htext'.symm.trans htext)
    have hlen' := hdenotes.length_eq
    -- a longer zone would have a space inside
    have hzoneLen : zone.length ≤ 6 := by
      by_contra hlong
      exact hspace (space_mem heq (by omega))
    have hnonneg : 0 ≤ tzOffset := by
      by_contra hneg
      have := length_formatZone_of_neg hge (by omega) hzone
      omega
    obtain ⟨zone₂, hzone₂, hlen₂, -⟩ := length_formatZone hge hle
    obtain rfl : zone₂ = zone := Option.some.inj (hzone₂.symm.trans hzone)
    unfold TIME_STRING_SIZE at hfits
    simp only [List.length_append, List.length_cons, List.length_nil] at hfits
    exact ⟨hnonneg, by omega⟩
  · rintro ⟨hnonneg, hover⟩
    obtain ⟨zone', hzone', hdenotes⟩ := formatZone_of_nonneg hnonneg hle
    obtain rfl : zone' = zone := Option.some.inj (hzone'.symm.trans hzone)
    have hlen' := hdenotes.length_eq
    refine ⟨_, stamp, zone', htext, ?_, rfl, ?_⟩
    · unfold TIME_STRING_SIZE
      simp only [List.length_append, List.length_cons, List.length_nil]
      omega
    · rw [splitTime_tzOffset h]
      exact hdenotes

/-- The text of a date of `split_time` is right if and only if its time zone is not west of
    Greenwich and at most one of its fields, of one digit, is below zero; times from 1970 on have
    no such field. -/
theorem format_time_iff (h : splitTime t tzOffset = some date) (hge : -840 ≤ tzOffset)
    (hle : tzOffset ≤ 840) :
    (TimeTextOk date ↔ 0 ≤ tzOffset ∧ date.overhang ≤ 1) ∧
      (0 ≤ (t + BitVec.ofInt 32 (tzOffset * 60)).toInt → date.overhang = 0) := by
  refine ⟨timeTextOk_iff h hge hle, fun hnonneg => ?_⟩
  obtain ⟨date', hsplit, hcivil, -⟩ := splitTime_civil rfl hnonneg
  obtain rfl : date' = date := Option.some.inj (hsplit.symm.trans h)
  exact hcivil.overhang_eq

/-- The first second of 1970 in Greenwich. -/
theorem format_time_iff_first :
    (TimeTextOk ⟨0, 0, 0, 1, 1, 1970, 4, 0, 0⟩ ↔
        (0 : Int) ≤ 0 ∧ DateTime.overhang ⟨0, 0, 0, 1, 1, 1970, 4, 0, 0⟩ ≤ 1) ∧
      (0 ≤ ((0 : BitVec 32) + BitVec.ofInt 32 (0 * 60)).toInt →
        DateTime.overhang ⟨0, 0, 0, 1, 1, 1970, 4, 0, 0⟩ = 0) :=
  format_time_iff (by decide) (by decide) (by decide)

/-- Seven and a half hours west: the zone has two signs, and the text 36 bytes. -/
theorem two_signs : ∃ date text, splitTime 946711800 (-450) = some date ∧
    formatTime date = some (text ++ ascii " +0-7:0-30" ++ [0]) ∧
    (text ++ ascii " +0-7:0-30" ++ [0]).length = 36 ∧
    ¬ TimeTextOk date := by
  have hsplit : splitTime 946711800 (-450) = some ⟨0, 0, 0, 1, 1, 2000, 6, 0, -450⟩ := by decide
  refine ⟨_, ascii "Sat, 01 Jan 2000 00:00:00", hsplit, by decide, by decide, fun h => ?_⟩
  have := (timeTextOk_iff hsplit (by decide) (by decide)).mp h
  omega

end MishaOS
