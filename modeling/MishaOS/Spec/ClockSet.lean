import MishaOS.Native.Rtc
import MishaOS.Spec.TimeText

/-!
# Setting the clock from a time server

`ntp_recv` prints the date before it sets the clock.  The buffer has room for a
date from 1970 on; before 1970 the fields of the date have signs, and the text
fits only at the few midnights at which none of them is negative.

## Key results

- `Shows.getTime`: what the registers show is what `rtc_get_time` reads.
- `length_localText`: how long the text of a date is.
- `ntp_recv_sets_civil_time`: the clock shows the civil time of the packet,
  or is not touched when this is no time from 2000 to 2038, exactly when the
  text fits.
-/

namespace MishaOS

variable {rtc rtc' : Rtc} {date d : DateTime} {addr : Byte} {secs : Int}

/-! ## The registers -/

def clockRegs : List Byte := [REG_SEC, REG_MIN, REG_HOUR, REG_WEEK_DAY, REG_DAY,
    REG_MONTH, REG_YEAR]

/-- The number that a register shows, of two decimal digits or binary. -/
def Rtc.shown (rtc : Rtc) (addr : Byte) : Nat :=
  if rtc.bcd then (rtc addr).toNat / 16 * 10 + (rtc addr).toNat % 16 else (rtc addr).toNat

/-- The clock shows the date; Sunday is the first day of its week. -/
structure Shows (rtc : Rtc) (date : DateTime) : Prop where
  sec : date.sec = rtc.shown REG_SEC
  min : date.min = rtc.shown REG_MIN
  hour : date.hour = rtc.shown REG_HOUR
  day : date.day = rtc.shown REG_DAY
  month : date.month = rtc.shown REG_MONTH
  year : date.year = 2000 + rtc.shown REG_YEAR
  weekDay : date.weekDay + 1 = (rtc REG_WEEK_DAY).toNat
  /-- Decimal digits are below ten. -/
  digits : rtc.bcd → ∀ addr ∈ clockRegs, (rtc addr).toNat / 16 < 10 ∧ (rtc addr).toNat % 16 < 10

/-- The two dates agree in all that the clock has. -/
structure SameTime (date date' : DateTime) : Prop where
  sec : date.sec = date'.sec
  min : date.min = date'.min
  hour : date.hour = date'.hour
  day : date.day = date'.day
  month : date.month = date'.month
  year : date.year = date'.year
  weekDay : date.weekDay = date'.weekDay

theorem bcdToBin_toNat (v : Byte) : (bcdToBin v).toNat = v.toNat / 16 * 10 + v.toNat % 16 := by
  revert v
  decide

theorem binToBcd_digits (v : Byte) (h : v < 100) :
    (binToBcd v).toNat / 16 < 10 ∧ (binToBcd v).toNat % 16 < 10 ∧
    (binToBcd v).toNat / 16 * 10 + (binToBcd v).toNat % 16 = v.toNat := by
  revert v
  decide

/-- What the clock shows is read, for a week day that is not negative. -/
theorem Shows.getTime (h : Shows rtc date) (hweek : 0 ≤ date.weekDay) (d : DateTime) :
    SameTime (rtcGetTime rtc d) date := by
  -- the registers are read as they are, or decoded from BCD
  have hdec : ∀ v, (if rtc.bcd then bcdToBin v else v).toNat =
      if rtc.bcd then v.toNat / 16 * 10 + v.toNat % 16 else v.toNat := by
    intro v
    split
    · exact bcdToBin_toNat v
    · rfl
  have hshown : ∀ addr, (if rtc.bcd then bcdToBin (rtc addr) else rtc addr).toNat =
      rtc.shown addr :=
    fun addr => hdec (rtc addr)
  constructor
  case sec => exact (congrArg Nat.cast (hshown REG_SEC)).trans h.sec.symm
  case min => exact (congrArg Nat.cast (hshown REG_MIN)).trans h.min.symm
  case hour => exact (congrArg Nat.cast (hshown REG_HOUR)).trans h.hour.symm
  case day => exact (congrArg Nat.cast (hshown REG_DAY)).trans h.day.symm
  case month => exact (congrArg Nat.cast (hshown REG_MONTH)).trans h.month.symm
  case year =>
    have hlt : (if rtc.bcd then bcdToBin (rtc REG_YEAR) else rtc REG_YEAR).toNat < 256 :=
      BitVec.isLt _
    have hyear := hshown REG_YEAR
    -- the year is counted from 2000, in 16 bits
    show (((if rtc.bcd then bcdToBin (rtc REG_YEAR) else rtc REG_YEAR).setWidth 16 +
      2000 : BitVec 16).toNat : Int) = _
    rw [BitVec.toNat_add, BitVec.toNat_setWidth, h.year,
      show (2000 : BitVec 16).toNat = 2000 from rfl]
    omega
  case weekDay =>
    -- the week day is counted from 1 in the clock
    show ((rtc REG_WEEK_DAY - 1).toNat : Int) = _
    have hweekDay := h.weekDay
    have hlt := (rtc REG_WEEK_DAY).isLt
    rw [BitVec.toNat_sub, show (1 : Byte).toNat = 1 from rfl]
    omega

/-! ## Setting the clock -/

/-- A register after `rtc_set_time` of these values. -/
theorem rtcWrite_apply (rtc : Rtc) (addr value reg : Byte) :
    rtcWrite rtc addr value reg = if reg = addr then value else rtc reg :=
  Function.update_apply rtc addr value reg

/-- The bytes written are those of the fields. -/
theorem toNat_ofInt8 {x : Int} (h : 0 ≤ x) (hlt : x < 256) :
    ((BitVec.ofInt 8 x).toNat : Int) = x := by
  rw [BitVec.toNat_ofInt]
  omega

/-- The fields that pass the check and are what the clock can show. -/
structure Settable (date : DateTime) : Prop where
  sec : 0 ≤ date.sec ∧ date.sec < 60
  min : 0 ≤ date.min ∧ date.min < 60
  hour : 0 ≤ date.hour ∧ date.hour < 24
  day : 0 ≤ date.day ∧ date.day ≤ 31
  month : 0 ≤ date.month ∧ date.month ≤ 12
  year : 2000 ≤ date.year ∧ date.year < 2100
  weekDay : 0 ≤ date.weekDay ∧ date.weekDay < 7

/-- The register is not one of the clock. -/
theorem rtcSetTime_frame (rtc : Rtc) (date : DateTime) (h : addr ∉ clockRegs) :
    rtcSetTime rtc date addr = rtc addr := by
  simp only [clockRegs, List.mem_cons, List.not_mem_nil, or_false, not_or] at h
  obtain ⟨hsec, hmin, hhour, hweek, hday, hmonth, hyear⟩ := h
  unfold rtcSetTime
  dsimp only
  split
  · rfl
  · simp only [rtcWrite_apply]
    rw [if_neg hyear, if_neg hmonth, if_neg hday, if_neg hweek, if_neg hhour,
      if_neg hmin, if_neg hsec]

/-- The year of a date before 2000 does not pass the check. -/
theorem rtcSetTime_rejects (rtc : Rtc) (h : 1902 ≤ date.year) (hlt : date.year < 2000) :
    rtcSetTime rtc date = rtc := by
  have hyear : (BitVec.ofInt 8 (date.year - 2000)).toNat ≥ 100 := by
    rw [BitVec.toNat_ofInt]
    omega
  have hcheck : BitVec.ofInt 8 (date.year - 2000) ≥ 100 := hyear
  unfold rtcSetTime
  dsimp only
  rw [if_pos]
  tauto

/-- The byte that is written for a number, in a clock with decimal digits or without. -/
def Rtc.enc (rtc : Rtc) (v : Byte) : Byte := if rtc.bcd then binToBcd v else v

/-- What is written is shown. -/
theorem Rtc.shown_enc {v : Byte} (hv : v < 100) (hbcd : rtc'.bcd ↔ rtc.bcd)
    (hreg : rtc' addr = rtc.enc v) :
    rtc'.shown addr = v.toNat ∧
    (rtc'.bcd → (rtc' addr).toNat / 16 < 10 ∧ (rtc' addr).toNat % 16 < 10) := by
  obtain ⟨htens, hones, hvalue⟩ := binToBcd_digits v hv
  unfold Rtc.shown
  rw [hreg, Rtc.enc]
  by_cases h : rtc.bcd
  · rw [if_pos (hbcd.mpr h), if_pos h]
    exact ⟨hvalue, fun _ => ⟨htens, hones⟩⟩
  · rw [if_neg (hbcd.not.mpr h), if_neg h]
    exact ⟨rfl, fun h' => absurd (hbcd.mp h') h⟩

/-- The registers after a date that passes the check. -/
theorem Settable.regs (h : Settable date) (rtc : Rtc) :
    rtcSetTime rtc date REG_SEC = rtc.enc (BitVec.ofInt 8 date.sec) ∧
    rtcSetTime rtc date REG_MIN = rtc.enc (BitVec.ofInt 8 date.min) ∧
    rtcSetTime rtc date REG_HOUR = rtc.enc (BitVec.ofInt 8 date.hour) ∧
    rtcSetTime rtc date REG_WEEK_DAY = BitVec.ofInt 8 (date.weekDay + 1) ∧
    rtcSetTime rtc date REG_DAY = rtc.enc (BitVec.ofInt 8 date.day) ∧
    rtcSetTime rtc date REG_MONTH = rtc.enc (BitVec.ofInt 8 date.month) ∧
    rtcSetTime rtc date REG_YEAR = rtc.enc (BitVec.ofInt 8 (date.year - 2000)) := by
  -- a number from 0 to `k` is not larger than `k` as a byte
  have hbyte : ∀ (x : Int) (k : Nat), 0 ≤ x → x ≤ k → k < 256 →
      ¬ BitVec.ofInt 8 x > BitVec.ofNat 8 k := by
    intro x k hx hxk hk hgt
    have hgt' : (BitVec.ofNat 8 k).toNat < (BitVec.ofInt 8 x).toNat := hgt
    have htoNat := toNat_ofInt8 hx (by omega)
    rw [BitVec.toNat_ofNat] at hgt'
    omega
  have hbyte' : ∀ (x : Int) (k : Nat), 0 ≤ x → x < k → k < 256 →
      ¬ BitVec.ofInt 8 x ≥ BitVec.ofNat 8 k := by
    intro x k hx hxk hk hge
    have hge' : (BitVec.ofNat 8 k).toNat ≤ (BitVec.ofInt 8 x).toNat := hge
    have htoNat := toNat_ofInt8 hx (by omega)
    rw [BitVec.toNat_ofNat] at hge'
    omega
  have hcheck : ¬ (BitVec.ofInt 8 date.sec ≥ 60 ∨ BitVec.ofInt 8 date.min ≥ 60 ∨
    BitVec.ofInt 8 date.hour ≥ 24 ∨
      BitVec.ofInt 8 date.day > 31 ∨ BitVec.ofInt 8 date.month > 12 ∨
      BitVec.ofInt 8 (date.year - 2000) ≥ 100 ∨
      BitVec.ofInt 8 (date.weekDay + 1) > 7) := by
    obtain ⟨hsec, hmin, hhour, hday, hmonth, hyear, hweek⟩ := h
    -- one comparison of the check for each field
    rintro (hc | hc | hc | hc | hc | hc | hc)
    · exact hbyte' _ 60 hsec.1 hsec.2 (by decide) hc
    · exact hbyte' _ 60 hmin.1 hmin.2 (by decide) hc
    · exact hbyte' _ 24 hhour.1 hhour.2 (by decide) hc
    · exact hbyte _ 31 hday.1 hday.2 (by decide) hc
    · exact hbyte _ 12 hmonth.1 hmonth.2 (by decide) hc
    · exact hbyte' _ 100 (by omega) (by omega) (by decide) hc
    · exact hbyte _ 7 (by omega) (by omega) (by decide) hc
  unfold rtcSetTime Rtc.enc
  dsimp only
  rw [if_neg hcheck]
  simp only [rtcWrite_apply]
  exact ⟨rfl, rfl, rfl, rfl, rfl, rfl, rfl⟩

theorem Settable.setTime (h : Settable date) (rtc : Rtc) : Shows (rtcSetTime rtc date) date := by
  obtain ⟨hsec, hmin, hhour, hweek, hday, hmonth, hyear⟩ := h.regs rtc
  -- writing the time does not touch the format
  have hbcd : (rtcSetTime rtc date).bcd ↔ rtc.bcd := by
    unfold Rtc.bcd
    rw [rtcSetTime_frame rtc date (by decide)]
  -- two digits come back as they were written
  have hshown : ∀ (x : Int) (addr : Byte), 0 ≤ x → x < 100 →
    rtcSetTime rtc date addr = rtc.enc (BitVec.ofInt 8 x) →
      x = (rtcSetTime rtc date).shown addr ∧ ((rtcSetTime rtc date).bcd →
        (rtcSetTime rtc date addr).toNat / 16 < 10 ∧
        (rtcSetTime rtc date addr).toNat % 16 < 10) := by
    intro x addr hx hlt hreg
    have htoNat := toNat_ofInt8 hx (by omega)
    have hv : BitVec.ofInt 8 x < 100 := by
      show (BitVec.ofInt 8 x).toNat < 100
      omega
    obtain ⟨heq, hdigits⟩ := Rtc.shown_enc hv hbcd hreg
    exact ⟨by omega, hdigits⟩
  have hsec' := hshown _ _ h.sec.1 (by have := h.sec.2; omega) hsec
  have hmin' := hshown _ _ h.min.1 (by have := h.min.2; omega) hmin
  have hhour' := hshown _ _ h.hour.1 (by have := h.hour.2; omega) hhour
  have hday' := hshown _ _ h.day.1 (by have := h.day.2; omega) hday
  have hmonth' := hshown _ _ h.month.1 (by have := h.month.2; omega) hmonth
  have hyear' := hshown _ _ (by have := h.year.1; omega) (by have := h.year.2; omega) hyear
  -- the week day has one digit in both formats
  have hweek' : ((rtcSetTime rtc date REG_WEEK_DAY).toNat : Int) = date.weekDay + 1 := by
    have hweekDay := h.weekDay
    rw [hweek]
    exact toNat_ofInt8 (by omega) (by omega)
  constructor
  case sec => exact hsec'.1
  case min => exact hmin'.1
  case hour => exact hhour'.1
  case day => exact hday'.1
  case month => exact hmonth'.1
  case year =>
    have hvalue := hyear'.1
    omega
  case weekDay => exact hweek'.symm
  case digits =>
    -- what is written is valid BCD
    intro hdec reg hreg
    simp only [clockRegs, List.mem_cons, List.not_mem_nil, or_false] at hreg
    obtain rfl | rfl | rfl | rfl | rfl | rfl | rfl := hreg
    · exact hsec'.2 hdec
    · exact hmin'.2 hdec
    · exact hhour'.2 hdec
    · have hweekDay := h.weekDay
      omega
    · exact hday'.2 hdec
    · exact hmonth'.2 hdec
    · exact hyear'.2 hdec

/-! ## The packet -/

/-- The time in the packet, in seconds since 1970 modulo `2 ^ 32`, shifted by the time zone. -/
def ntpTime (data : List Byte) : Int :=
  ((readBe64 (data.drop 40)).toNat / 4294967296 - 2208988800 : Int) % 4294967296 +
    localTimeZone * 60

/-- The sum of 32 bits is the time, or the time less `2 ^ 32`. -/
theorem ntpTime_toInt (data : List Byte) :
    ((((readBe64 (data.drop 40) >>> 32) - UNIX_EPOCH).setWidth 32 : BitVec 32) +
      BitVec.ofInt 32 (localTimeZone * 60)).toInt =
      if ntpTime data < 2147483648 then ntpTime data else ntpTime data - 4294967296 := by
  unfold ntpTime
  generalize readBe64 (data.drop 40) = stamp
  have hstamp := stamp.isLt
  have hzone : (BitVec.ofInt 32 (localTimeZone * 60)).toNat = 4294942096 := by decide
  have hdiff : (((stamp >>> 32) - UNIX_EPOCH).setWidth 32 : BitVec 32).toNat =
      (18446744073709551616 - 2208988800 + stamp.toNat / 4294967296) % 18446744073709551616 %
        4294967296 := by
    rw [BitVec.toNat_setWidth, BitVec.toNat_sub, BitVec.toNat_ushiftRight,
      Nat.shiftRight_eq_div_pow]
    rfl
  rw [BitVec.toInt_eq_toNat_cond, BitVec.toNat_add, hzone, hdiff,
    show localTimeZone * 60 = -25200 from rfl]
  omega

/-- A date of a time from 2000 on passes the check. -/
theorem CivilTime.settable (h : CivilTime secs date) (hyear : 2000 ≤ date.year)
    (hlt : date.year < 2100) :
    Settable date := by
  have hmonth := h.isDate.month_le
  have hday := h.isDate.day_le
  have hmonth' := h.isDate.month_pos
  have hday' := h.isDate.day_pos
  have hdays : ∀ b m, Calendar.monthDays b m ≤ 31 := by
    intro b m
    unfold Calendar.monthDays
    split <;> cases b <;> decide
  have hle := Nat.le_trans hday (hdays _ _)
  have hweek := h.weekDay
  exact ⟨h.sec, h.min, h.hour, by omega, by omega, ⟨hyear, hlt⟩, by omega⟩

/-! ## The text -/

theorem overhang_eq_zero {v : Int} : overhang v = 0 ↔ 0 ≤ v := by
  constructor
  · intro h
    by_contra hneg
    have hpos := overhang_pos (v := v) (by omega)
    omega
  · intro h
    exact if_neg (Int.not_lt.mpr h)

/-- No field is below zero. -/
theorem DateTime.overhang_eq_zero :
    date.overhang = 0 ↔ 0 ≤ date.day ∧ 0 ≤ date.hour ∧ 0 ≤ date.min ∧ 0 ≤ date.sec := by
  unfold DateTime.overhang
  rw [Nat.add_eq_zero_iff, Nat.add_eq_zero_iff, Nat.add_eq_zero_iff, MishaOS.overhang_eq_zero,
    MishaOS.overhang_eq_zero, MishaOS.overhang_eq_zero, MishaOS.overhang_eq_zero,
    and_assoc, and_assoc]

/-- The text of a date in the local time zone, seven hours west of Greenwich. -/
theorem length_localText {t : BitVec 32} (h : splitTime t localTimeZone = some date) :
    ∃ str, formatTime date = some str ∧ str.length = TIME_STRING_SIZE + date.overhang := by
  obtain ⟨stamp, zone, hstr, hzone, hstamp, -⟩ := formatTime_eq h (by decide) (by decide)
  have hlocal : formatZone localTimeZone = some (ascii "+0-7:00") := by decide
  obtain rfl := Option.some.inj (hzone.symm.trans hlocal)
  refine ⟨_, hstr, ?_⟩
  rw [List.length_append, List.length_cons, List.length_append, hstamp,
    show (ascii "+0-7:00").length = 7 from rfl, TIME_STRING_SIZE, List.length_singleton]
  omega

/-- The time of day before 1970 has a negative field, except at midnight. -/
theorem clock_nonneg_iff {r : Int} (hr : r ≤ 0) :
    0 ≤ r.tdiv 3600 ∧ 0 ≤ (r.tmod 3600).tdiv 60 ∧ 0 ≤ r.tmod 60 ↔ r = 0 := by
  obtain ⟨e, rfl⟩ : ∃ e, r = -e := ⟨-r, by omega⟩
  rw [Int.neg_tdiv, Int.neg_tmod, Int.neg_tmod, Int.neg_tdiv, Int.tdiv_eq_ediv_of_nonneg (by omega),
    Int.tmod_eq_emod_of_nonneg (by omega), Int.tmod_eq_emod_of_nonneg (by omega),
    Int.tdiv_eq_ediv_of_nonneg (by omega)]
  omega

/-- That many days before 1970 `split_time` starts its year. -/
def yearBack (n : Nat) : Nat := 365 * n + (n - 1) / 4

/-- The day of the year of the day `e` days before 1970, counted from the start of its year. -/
theorem epochYearDay_back {e : Nat} (hpos : 0 < e) (hle : e ≤ 24855) :
    ∃ n : Nat, epochYearDay (-e) = yearBack n - e ∧ yearBack n ≤ e ∧ e < yearBack (n + 1) := by
  unfold yearBack
  -- in the first year the correction is zero; before it, all divisions are of negative numbers
  by_cases hsmall : e < 365
  · refine ⟨0, ?_, by omega, by omega⟩
    have hq : (-(e : Int) + 365).tdiv 1460 = 0 := by
      rw [Int.tdiv_eq_ediv_of_nonneg (by omega)]
      omega
    have hn : epochYears (-e) = 0 := by
      rw [epochYears, hq, Int.sub_zero, Int.neg_tdiv, Int.tdiv_eq_ediv_of_nonneg (by omega)]
      omega
    rw [epochYearDay, hn, show ((0 : Int) + 1).tdiv 4 = 0 from rfl]
    omega
  · have hq : (-(e : Int) + 365).tdiv 1460 = -(((e - 365) / 1460 : Nat) : Int) := by
      rw [show -(e : Int) + 365 =
        -((e : Int) - 365) by omega, Int.neg_tdiv, Int.tdiv_eq_ediv_of_nonneg (by omega)]
      omega
    have hn : epochYears (-e) = -(((e - (e - 365) / 1460) / 365 : Nat) : Int) := by
      rw [epochYears, hq, show -(e : Int) - -(((e - 365) / 1460 : Nat) : Int) =
        -((e - (e - 365) / 1460 : Nat) :
          Int) by omega, Int.neg_tdiv, Int.tdiv_eq_ediv_of_nonneg (by omega)]
      omega
    generalize hN : (e - (e - 365) / 1460) / 365 = N at hn
    have hN1 : 1 ≤ N := by omega
    have hone : (-(N : Int) + 1).tdiv 4 = -(((N - 1) / 4 : Nat) : Int) := by
      rw [show -(N : Int) + 1 =
        -((N : Int) - 1) by omega, Int.neg_tdiv, Int.tdiv_eq_ediv_of_nonneg (by omega)]
      omega
    refine ⟨N, ?_, by omega, by omega⟩
    rw [epochYearDay, hn, hone]
    omega

/-- The days before 1970 whose date has no negative day: the first of a year, and the one before. -/
theorem epochYearDay_back_iff {e : Nat} (hpos : 0 < e) (hle : e ≤ 24855) :
    0 ≤ 1 + epochYearDay (-e) ↔ ∃ n, e = yearBack n ∨ e = yearBack n + 1 := by
  obtain ⟨n, heq, hlo, hhi⟩ := epochYearDay_back hpos hle
  rw [heq]
  constructor
  · intro hday
    exact ⟨n, by omega⟩
  · rintro ⟨n', hn'⟩
    -- no other year starts there
    have hn : n' = n := by
      unfold yearBack at hlo hhi hn'
      omega
    subst hn
    omega

/-- No field of the date is negative: the time is one from 1970 on, or the midnight at which a year
    starts for `split_time`, or the midnight before. -/
def NoSigns (secs : Int) : Prop :=
  0 ≤ secs ∨ ∃ n : Nat, secs = -86400 * (yearBack n : Int) ∨ secs = -86400 * (yearBack n + 1 : Int)

theorem splitTime_overhang {t : BitVec 32} {tzOffset : Int}
    (hsecs : (t + BitVec.ofInt 32 (tzOffset * 60)).toInt = secs)
    (h : splitTime t tzOffset = some date) :
    date.overhang = 0 ↔ NoSigns secs := by
  rcases lt_or_ge secs 0 with hneg | hnonneg
  -- before 1970 the quotient and the rest are at most 0
  · obtain rfl := Option.some.inj ((splitTime_before_eq hsecs hneg).symm.trans h)
    obtain ⟨hlow, hnonpos⟩ := tdiv_day_neg hsecs hneg
    have hrest : secs.tmod 86400 ≤ 0 := by
      have hback := Int.tmod_nonneg 86400 (show 0 ≤ -secs by omega)
      rw [Int.neg_tmod] at hback
      omega
    have hsum := Int.tmod_add_mul_tdiv secs 86400
    obtain ⟨e, he⟩ : ∃ e : Nat, secs.tdiv 86400 = -e := ⟨(-secs.tdiv 86400).toNat, by omega⟩
    rw [DateTime.overhang_eq_zero]
    dsimp only
    rw [clock_nonneg_iff hrest, he]
    rw [he] at hsum hlow
    -- only at midnight is no field of the time negative, and only 32 days have a date without
    -- signs
    constructor
    · rintro ⟨hday, hzero⟩
      obtain ⟨n, hn⟩ := (epochYearDay_back_iff (by omega) (by omega)).mp hday
      exact .inr ⟨n, by omega⟩
    · rintro (hnonneg | ⟨n, hn⟩)
      · omega
      · have hzero : secs.tmod 86400 = 0 := Int.tmod_eq_zero_of_dvd (by omega)
        exact ⟨(epochYearDay_back_iff (by omega) (by omega)).mpr ⟨n, by omega⟩, hzero⟩
  -- from 1970 on every field has its width
  · obtain ⟨date', hsplit, hcivil, -⟩ := splitTime_civil hsecs hnonneg
    obtain rfl := Option.some.inj (hsplit.symm.trans h)
    exact iff_of_true hcivil.overhang_eq (.inl hnonneg)

/-! ## The whole call -/

/-- The time of the packet as the signed word that `split_time` is given, after the shift. -/
def ntpSecs (data : List Byte) : Int :=
  if ntpTime data < 2147483648 then ntpTime data else ntpTime data - 4294967296

/-- A packet that is long enough sets the clock to its date, when the text of the date fits. -/
theorem ntpRecv_cases (rtc : Rtc) {data : List Byte} (hlen : ¬ data.length < 48) :
    ∃ date, splitTime (((readBe64 (data.drop 40) >>> 32) - UNIX_EPOCH).setWidth 32) localTimeZone =
      some date ∧
      (NoSigns (ntpSecs data) → ntpRecv rtc data = some (rtcSetTime rtc date)) ∧
      (¬ NoSigns (ntpSecs data) → ntpRecv rtc data = none) := by
  have hsecs : _ = ntpSecs data := ntpTime_toInt data
  -- the date exists, before 1970 and after it
  obtain ⟨date, hsplit⟩ : ∃ date, splitTime
      (((readBe64 (data.drop 40) >>> 32) - UNIX_EPOCH).setWidth 32) localTimeZone = some date := by
    rcases lt_or_ge (ntpSecs data) 0 with hneg | hnonneg
    · exact ⟨_, splitTime_before_eq hsecs hneg⟩
    · obtain ⟨date, hsplit, -⟩ := splitTime_civil hsecs hnonneg
      exact ⟨date, hsplit⟩
  obtain ⟨str, hstr, hlength⟩ := length_localText hsplit
  -- the text fits when no field is longer than its width
  have hfits : str.length ≤ TIME_STRING_SIZE ↔ NoSigns (ntpSecs data) := by
    rw [← splitTime_overhang hsecs hsplit]
    omega
  have hrecv : ntpRecv rtc data = if str.length ≤ TIME_STRING_SIZE then some (rtcSetTime rtc date)
      else none := by
    unfold ntpRecv
    rw [if_neg hlen]
    dsimp only
    rw [hsplit, Option.bind_some, hstr, Option.bind_some]
  refine ⟨date, hsplit, fun hsigns => ?_, fun hsigns => ?_⟩
  · rw [hrecv, if_pos (hfits.mpr hsigns)]
  · rw [hrecv, if_neg (hfits.not.mpr hsigns)]

/-- The clock after a packet of a time server: the civil time in the packet if this is from 2000
    on and has 31 bits, with all other registers as they were; and else the clock is not touched. -/
def SetsCivilTime (rtc : Rtc) (data : List Byte) : Prop :=
  ∃ rtc', ntpRecv rtc data = some rtc' ∧
    if 48 ≤ data.length ∧ 946684800 ≤ ntpTime data ∧ ntpTime data < 2147483648 then
      ∃ date, CivilTime (ntpTime data) date ∧ 2000 ≤ date.year ∧ date.year ≤ 2038 ∧
        Shows rtc' date ∧
        (∀ addr, addr ∉ clockRegs → rtc' addr = rtc addr) ∧ ∀ d, SameTime (rtcGetTime rtc' d) date
    else rtc' = rtc

/-- A packet sets the clock or leaves it alone if and only if it is too short, or the text of its
    date fits: from 1970 on, and at the midnights before at which no field is negative. -/
theorem ntp_recv_sets_civil_time (rtc : Rtc) (data : List Byte) :
    SetsCivilTime rtc data ↔ data.length < 48 ∨ NoSigns (ntpSecs data) := by
  unfold SetsCivilTime
  by_cases hlen : data.length < 48
  -- too short: nothing is set
  · refine iff_of_true ⟨rtc, if_pos hlen, ?_⟩ (.inl hlen)
    rw [if_neg (by omega)]
  · obtain ⟨date, hsplit, hfits, hlong⟩ := ntpRecv_cases rtc hlen
    rw [or_iff_right hlen]
    constructor
    -- a text that does not fit is written over the stack
    · rintro ⟨rtc', hset, -⟩
      by_contra hsigns
      rw [hlong hsigns] at hset
      exact nomatch hset
    · intro hsigns
      have hsecs := ntpTime_toInt data
      refine ⟨rtcSetTime rtc date, hfits hsigns, ?_⟩
      by_cases hneg : ntpTime data < 0 ∨ 2147483648 ≤ ntpTime data
      · -- the sum is a negative time
        have hlow : -25200 ≤ ntpTime data ∧ ntpTime data < 4294967296 := by
          unfold ntpTime
          rw [show localTimeZone * 60 = -25200 from rfl]
          omega
        obtain ⟨date', hsplit', hyear, hyear'⟩ := splitTime_neg hsecs (by split <;> omega)
        obtain rfl := Option.some.inj (hsplit.symm.trans hsplit')
        rw [if_neg (by omega)]
        exact rtcSetTime_rejects rtc hyear (by omega)
      · rw [if_pos (by omega)] at hsecs
        obtain ⟨date', hsplit', hcivil, hyear, hdays⟩ := splitTime_civil hsecs (by omega)
        obtain rfl := Option.some.inj (hsplit.symm.trans hsplit')
        rw [epochYears_of_nonneg (by omega)] at hyear
        split <;> rename_i hrange
        · have hset := hcivil.settable (by omega) (by omega)
          have hshows := hset.setTime rtc
          exact ⟨date, hcivil,
            by omega, by omega, hshows, fun addr haddr => rtcSetTime_frame rtc date haddr,
            hshows.getTime hset.weekDay.1⟩
        · exact rtcSetTime_rejects rtc (by omega) (by omega)

/-- The answer of a time server that believes it is the first second of 1970. -/
def ntpAnswer1970 : List Byte := List.replicate 40 0 ++ [0x83, 0xAA, 0x7E, 0x80, 0, 0, 0, 0]

/-- Seven hours west it is five in the afternoon, "0-7:00:00" to `format_time`: one byte too long.
    -/
theorem ntp_recv_overruns_text : ¬ ∀ rtc data, SetsCivilTime rtc data := by
  intro hall
  obtain ⟨rtc', hset, -⟩ := hall (fun _ => 0) ntpAnswer1970
  have hnone : ntpRecv (fun _ => 0) ntpAnswer1970 = none := by
    have hlen : ¬ ntpAnswer1970.length < 48 := by decide
    obtain ⟨date, -, -, hlong⟩ := ntpRecv_cases (fun _ => 0) hlen
    apply hlong
    have hsecs : ntpSecs ntpAnswer1970 = -25200 := by decide
    rw [hsecs]
    rintro (hnonneg | ⟨n, hn⟩)
    · omega
    · omega
  rw [hnone] at hset
  exact nomatch hset

end MishaOS
