import MishaOS.ForStd.Calendar
import MishaOS.ForStd.CInt
import MishaOS.Native.Time

/-!
# Splitting a time into a date

`split_time` finds the year without a loop, by a division that takes every
fourth year for a leap year and is off by a few days before it is off by a
year.  Up to 2038 it is exact; before 1970 the divisions truncate the other way
and the date is no date at all, but its year is still before 1971.

## Key results

- `split_time_civil`: the civil date and time of every time that is not negative.
- `splitTime_neg`: the year of a negative time.
- `join_time_never`: `join_time` counts the years from 1900, and never finds the way back.
-/

namespace MishaOS

open CInt (checked wrapped)
open Calendar (yearStart yearDays leap monthDays IsDate)

/-- The date of the time `secs` after 1 January 1970, a Thursday. -/
structure CivilTime (secs : Int) (date : DateTime) : Prop where
  nonneg : 0 ≤ secs
  isDate : IsDate 1970 (secs / 86400).toNat date.year.toNat date.month.toNat date.day.toNat
  sec : 0 ≤ date.sec ∧ date.sec < 60
  min : 0 ≤ date.min ∧ date.min < 60
  hour : 0 ≤ date.hour ∧ date.hour < 24
  clock : date.hour * 3600 + date.min * 60 + date.sec = secs % 86400
  weekDay : date.weekDay = (secs / 86400 + 4) % 7
  yearDay : date.yearDay + yearStart 1970 (date.year.toNat - 1970) = secs / 86400

variable {d yearDay secs : Int} {n : Nat} {t : BitVec 32} {tzOffset : Int}

/-! ## The year -/

theorem epochYears_of_nonneg (hd : 0 ≤ d) : epochYears d = (d - (d + 365) / 1460) / 365 := by
  unfold epochYears
  rw [Int.tdiv_eq_ediv_of_nonneg (by omega : 0 ≤ d + 365), Int.tdiv_eq_ediv_of_nonneg (by omega)]

/-- Every year up to 2099 that is divisible by four is a leap year. -/
theorem yearStart_1970 (hn : n ≤ 130) : yearStart 1970 n = 365 * n + (n + 1) / 4 :=
  Calendar.yearStart_eq (by decide) fun i hi => Calendar.leap_eq (by omega) (by omega)

theorem yearDays_1970 (hn : n < 130) :
    yearDays (1970 + n) = if (1970 + n) % 4 = 0 then 366 else 365 := by
  rw [yearDays, Calendar.leap_eq (by omega) (by omega)]
  simp only [decide_eq_true_eq]

/-- A leap day moves the start of the next year. -/
theorem leapDays_succ (n : Nat) :
    ((n : Int) + 2) / 4 = ((n : Int) + 1) / 4 + if (1970 + n) % 4 = 0 then 1 else 0 := by
  have hmod : n % 4 = 0 ∨ n % 4 = 1 ∨ n % 4 = 2 ∨ n % 4 = 3 := by omega
  rcases hmod with h | h | h | h <;> split <;> omega

/-- The year and the day of the year, for the days that a time of 31 bits has. -/
theorem epochYears_spec (hd : 0 ≤ d) (hle : d ≤ 24855) : ∃ n yearDay : Nat, epochYears d = n ∧
    epochYearDay d = yearDay ∧ d = yearStart 1970 n + yearDay ∧
    yearDay < yearDays (1970 + n) ∧ n ≤ 68 := by
  have hyears := epochYears_of_nonneg hd
  -- the estimate of the source, from 1970 to 2038
  have hpos : 0 ≤ epochYears d := by omega
  have hyearDay : epochYearDay d = d - (epochYears d * 365 + (epochYears d + 1) / 4) := by
    rw [epochYearDay, Int.tdiv_eq_ediv_of_nonneg (by omega)]
  have hle68 : epochYears d ≤ 68 := by omega
  obtain ⟨n, hn⟩ : ∃ n : Nat, epochYears d = n := ⟨(epochYears d).toNat, by omega⟩
  rw [hn] at hyearDay hle68 hyears
  have hlo : 0 ≤ epochYearDay d := by omega
  have hhi : epochYearDay d < 365 + ((n : Int) + 2) / 4 - ((n : Int) + 1) / 4 := by omega
  obtain ⟨yearDay, hyd⟩ : ∃ y : Nat, epochYearDay d = y := ⟨(epochYearDay d).toNat, by omega⟩
  refine ⟨n, yearDay, hn, hyd, ?_, ?_, by omega⟩
  · rw [yearStart_1970 (by omega)]
    omega
  · rw [yearDays_1970 (by omega)]
    have hleap := leapDays_succ n
    -- a leap year has one day more, and the estimate one leap day more behind it
    split <;> rename_i h
    · rw [if_pos h] at hleap
      omega
    · rw [if_neg h] at hleap
      omega

/-- A negative day has a year before 1971, and is before the end of its January. -/
theorem epochYears_neg (hd : d ≤ 0) (hge : -24856 ≤ d) :
    -68 ≤ epochYears d ∧ epochYears d ≤ 0 ∧ -400 ≤ epochYearDay d ∧ epochYearDay d ≤ 17 := by
  obtain ⟨e, rfl⟩ : ∃ e, d = -e := ⟨-d, by omega⟩
  -- in the first year the correction is zero; before it, all divisions are of negative numbers
  by_cases hsmall : e ≤ 365
  · have hq : (-e + 365).tdiv 1460 = 0 := by
      rw [Int.tdiv_eq_ediv_of_nonneg (by omega)]
      omega
    have hn : epochYears (-e) = -(e / 365) := by
      rw [epochYears, hq, Int.sub_zero, Int.neg_tdiv, Int.tdiv_eq_ediv_of_nonneg (by omega)]
    have hy : epochYearDay (-e) = -e - -(e / 365) * 365 := by
      have hone : (-(e / 365) + 1).tdiv 4 = 0 := by
        rw [Int.tdiv_eq_ediv_of_nonneg (by omega)]
        omega
      rw [epochYearDay, hn, hone, Int.add_zero]
    omega
  · have hq : (-e + 365).tdiv 1460 = -((e - 365) / 1460) := by
      rw [show -e + 365 = -(e - 365) by omega, Int.neg_tdiv, Int.tdiv_eq_ediv_of_nonneg (by omega)]
    have hn : epochYears (-e) = -((e - (e - 365) / 1460) / 365) := by
      rw [epochYears, hq, show -e - -((e - 365) / 1460) =
        -(e - (e - 365) / 1460) by omega, Int.neg_tdiv,
        Int.tdiv_eq_ediv_of_nonneg (by omega)]
    have hy : epochYearDay (-e) = -e - (epochYears (-e) * 365 - (-epochYears (-e) - 1) / 4) := by
      rw [epochYearDay, show epochYears (-e) + 1 = -(-epochYears (-e) - 1) by omega, Int.neg_tdiv,
        Int.tdiv_eq_ediv_of_nonneg (by omega)]
      omega
    omega

/-! ## The month -/

/-- `mstart`. -/
def monthTable (b : Bool) : List Int := if b then leapMonthStart else monthStart

theorem length_monthTable (b : Bool) : (monthTable b).length = 13 := by cases b <;> rfl

theorem monthTable_getD (b : Bool) (i : Nat) (hi : i < 13) :
    (monthTable b).getD i 0 = Calendar.monthStart b (i + 1) := by
  have htable : ∀ b, ∀ i : Fin 13, (monthTable b).getD i.val 0 =
      Calendar.monthStart b (i.val + 1) := by decide
  exact htable b ⟨i, hi⟩

/-- The loop stops at the first month that starts later. -/
theorem splitMonth_eq {l : List Int} (hlast : yearDay < l.getD (l.length - 1) 0) (hne : l ≠ [])
    (month : Int) :
    ∃ k, k < l.length ∧ splitMonth yearDay l month = some (month + k) ∧ yearDay < l.getD k 0 ∧
      (0 < k → l.getD (k - 1) 0 ≤ yearDay) := by
  -- along the table
  induction l generalizing month with
  | nil => exact absurd rfl hne
  | cons start rest ih =>
    by_cases hstart : yearDay ≥ start
    · have hrest : rest ≠ [] := by
        rintro rfl
        exact absurd hlast (Int.not_lt.mpr hstart)
      have hlen : 0 < rest.length := List.length_pos_iff.mpr hrest
      have hlast' : yearDay < rest.getD (rest.length - 1) 0 := by
        rw [List.length_cons, Nat.add_sub_cancel, show rest.length = rest.length - 1 + 1 by omega,
          List.getD_cons_succ] at hlast
        exact hlast
      obtain ⟨k, hk, heq, hlt, hge⟩ := ih hlast' hrest (month + 1)
      refine ⟨k + 1, Nat.succ_lt_succ hk, ?_, hlt, fun _ => ?_⟩
      · rw [splitMonth, if_pos hstart, heq]
        congr 1
        push_cast
        omega
      · -- the month before is the one just passed, or comes from the rest
        cases k with
        | zero => exact hstart
        | succ k => exact hge (Nat.succ_pos k)
    · refine ⟨0, Nat.succ_pos _, ?_, Int.not_le.mp hstart, fun h => absurd h (Nat.lt_irrefl 0)⟩
      rw [splitMonth, if_neg hstart]
      simp

/-- The month of a day of the year. -/
theorem splitMonth_spec (b : Bool) {yearDay : Nat} (h : yearDay < if b then 366 else 365) :
    ∃ month : Nat, 1 ≤ month ∧ month ≤ 12 ∧ splitMonth yearDay (monthTable b).tail 1 = some
    (month : Int) ∧
      Calendar.monthStart b month ≤ yearDay ∧ yearDay < Calendar.monthStart b (month + 1) := by
  have hlen : (monthTable b).tail.length = 12 := by rw [List.length_tail, length_monthTable]
  -- the loop starts with the second entry of the table
  have htail : ∀ i, (monthTable b).tail.getD i 0 = (monthTable b).getD (i + 1) 0 := by
    intro i
    cases b <;> rfl
  have hlast : (yearDay : Int) < (monthTable b).tail.getD ((monthTable b).tail.length - 1) 0 := by
    rw [hlen, htail]
    cases b
    · exact Int.ofNat_lt.mpr h
    · exact Int.ofNat_lt.mpr h
  obtain ⟨k, hk, heq, hlt, hge⟩ := splitMonth_eq hlast (by cases b <;> decide) 1
  rw [hlen] at hk
  refine ⟨k + 1, by omega, by omega, ?_, ?_, ?_⟩
  · rw [heq]
    congr 1
    push_cast
    omega
  -- in January there is no month before
  · cases k with
    | zero => exact Nat.zero_le _
    | succ k =>
      have hprev := hge (Nat.succ_pos k)
      rw [Nat.add_sub_cancel, htail, monthTable_getD b _ (by omega)] at hprev
      exact Int.ofNat_le.mp hprev
  · rw [htail, monthTable_getD b _ (by omega)] at hlt
    exact Int.ofNat_lt.mp hlt

/-! ## The date -/

/-- Truncating division by a positive number, also of a negative one. -/
theorem tdiv_eq_ite (a : Int) (k : Nat) : a.tdiv k = if 0 ≤ a then a / k else -(-a / k) := by
  split
  · rename_i h
    exact Int.tdiv_eq_ediv_of_nonneg h
  · obtain ⟨e, rfl⟩ : ∃ e, a = -e := ⟨-a, by omega⟩
    rw [Int.neg_tdiv, Int.tdiv_eq_ediv_of_nonneg (by omega), Int.neg_neg]

/-- The days of a time of 32 bits. -/
theorem toInt_tdiv_bounds (t : BitVec 32) :
    -24855 ≤ t.toInt.tdiv 86400 ∧ t.toInt.tdiv 86400 ≤ 24855 := by
  have hlo : -2 ^ (32 - 1) ≤ t.toInt := BitVec.le_toInt t
  have hhi : t.toInt < 2 ^ (32 - 1) := BitVec.toInt_lt
  rw [show (86400 : Int) = (86400 : Nat) from rfl, tdiv_eq_ite]
  split <;> omega

/-- The clock of a day. -/
theorem clock_spec {r : Int} (hr : 0 ≤ r) (hlt : r < 86400) :
    (0 ≤ r.tmod 60 ∧ r.tmod 60 < 60) ∧ (0 ≤ (r.tmod 3600).tdiv 60 ∧ (r.tmod 3600).tdiv 60 < 60) ∧
      (0 ≤ r.tdiv 3600 ∧ r.tdiv 3600 < 24) ∧
      r.tdiv 3600 * 3600 + (r.tmod 3600).tdiv 60 * 60 + r.tmod 60 = r := by
  rw [Int.tmod_eq_emod_of_nonneg hr, Int.tmod_eq_emod_of_nonneg hr, Int.tdiv_eq_ediv_of_nonneg hr,
    Int.tdiv_eq_ediv_of_nonneg (by omega)]
  omega

/-- `split_time` of the time that is `secs` after the shift. -/
theorem splitTime_eq (hsecs : (t + BitVec.ofInt 32 (tzOffset * 60)).toInt = secs) :
    splitTime t tzOffset = (splitMonth (epochYearDay (secs.tdiv 86400))
      (monthTable ((1970 + epochYears (secs.tdiv 86400)) % 4 = 0)).tail 1).map fun month => {
        sec := (secs.tmod 86400).tmod 60
        min := ((secs.tmod 86400).tmod 3600).tdiv 60
        hour := (secs.tmod 86400).tdiv 3600
        day := 1 + epochYearDay (secs.tdiv 86400) -
          (monthTable ((1970 + epochYears (secs.tdiv 86400)) % 4 = 0)).getD (month - 1).toNat 0
        month := month
        year := 1970 + epochYears (secs.tdiv 86400)
        weekDay := (secs.tdiv 86400 + 4).tmod 7
        yearDay := epochYearDay (secs.tdiv 86400)
        tzOffset := tzOffset } := by
  unfold splitTime monthTable
  dsimp only
  rw [hsecs, show (24 * 60 * 60 : Int) = 86400 from rfl]
  -- both branches of the source choose the table of the year
  by_cases h : (1970 + epochYears (secs.tdiv 86400)) % 4 = 0
  · rw [if_neg (not_not.mpr h), if_pos (decide_eq_true h)]
  · rw [if_pos h, if_neg (by simpa using h)]

/-- The date of a time that is not negative. -/
theorem splitTime_civil (hsecs : (t + BitVec.ofInt 32 (tzOffset * 60)).toInt = secs)
    (hnonneg : 0 ≤ secs) :
    ∃ date, splitTime t tzOffset = some date ∧ CivilTime secs date ∧
      date.year = 1970 + epochYears (secs / 86400) ∧ secs / 86400 ≤ 24855 := by
  -- at most 24855 days, which is in January 2038
  have hbounds := toInt_tdiv_bounds (t + BitVec.ofInt 32 (tzOffset * 60))
  rw [hsecs, Int.tdiv_eq_ediv_of_nonneg hnonneg] at hbounds
  obtain ⟨n, yearDay, hyears, hyearDay, hdays, hlt, hn⟩ := epochYears_spec (by omega) hbounds.2
  obtain ⟨month, hmonth, hmonth12, hsplit, hge, hlt'⟩ := splitMonth_spec (leap (1970 + n)) hlt
  have htable : monthTable ((1970 + (n : Int)) % 4 = 0) = monthTable (leap (1970 + n)) := by
    rw [Calendar.leap_eq (by omega) (by omega)]
    congr 1
    rw [decide_eq_decide]
    omega
  have hstart : (monthTable (leap (1970 + n))).getD ((month : Int) - 1).toNat 0 =
      Calendar.monthStart (leap (1970 + n)) month := by
    rw [show ((month : Int) - 1).toNat = month - 1 by omega, monthTable_getD _ _ (by omega),
      Nat.sub_add_cancel hmonth]
  have heq := splitTime_eq hsecs
  rw [Int.tdiv_eq_ediv_of_nonneg hnonneg, Int.tmod_eq_emod_of_nonneg hnonneg, hyears, hyearDay,
    htable, hsplit,
    Option.map_some, hstart] at heq
  refine ⟨_, heq, ?_, by rw [hyears], hbounds.2⟩
  -- the time of the day, then the date
  have hclock := clock_spec (r := secs % 86400) (by omega) (by omega)
  have hdate := IsDate.of_month hmonth hmonth12 hge hlt'
  constructor
  case nonneg => exact hnonneg
  case isDate =>
    dsimp only
    rw [hdays]
    convert hdate using 1 <;> omega
  case sec => exact hclock.1
  case min => exact hclock.2.1
  case hour => exact hclock.2.2.1
  case clock => exact hclock.2.2.2
  -- the first of January 1970 was a Thursday
  case weekDay =>
    dsimp only
    rw [Int.tmod_eq_emod_of_nonneg (by omega)]
  case yearDay =>
    dsimp only
    rw [hdays, show (1970 + (n : Int)).toNat - 1970 = n by omega]
    omega

theorem splitTime_tzOffset {date : DateTime} (h : splitTime t tzOffset = some date) :
    date.tzOffset = tzOffset := by
  obtain ⟨month, -, hdate⟩ := Option.map_eq_some_iff.mp h
  rw [← hdate]

/-- The shift by the time zone stays inside the word. -/
theorem toInt_add_ofInt (hnonneg : 0 ≤ t.toInt + 60 * tzOffset)
    (hlt : t.toInt + 60 * tzOffset < 2147483648) :
    (t + BitVec.ofInt 32 (tzOffset * 60)).toInt = t.toInt + 60 * tzOffset := by
  rw [BitVec.toInt_add, BitVec.toInt_ofInt, Int.add_bmod_bmod, Int.mul_comm tzOffset]
  exact Int.bmod_eq_of_le (by omega) (by omega)

/-- `split_time` gives the civil date and time of the shifted time. -/
theorem split_time_civil (hnonneg : 0 ≤ t.toInt + 60 * tzOffset)
    (hlt : t.toInt + 60 * tzOffset < 2147483648) :
    ∃ date, splitTime t tzOffset = some date ∧ CivilTime (t.toInt + 60 * tzOffset) date ∧
      date.tzOffset = tzOffset := by
  obtain ⟨date, hsplit, hcivil, -⟩ := splitTime_civil (toInt_add_ofInt hnonneg hlt) hnonneg
  exact ⟨date, hsplit, hcivil, splitTime_tzOffset hsplit⟩

/-- Noon of 29 February 2000, seven hours west. -/
theorem split_time_civil_leap : ∃ date, splitTime 951850800 (-420) = some date ∧
    CivilTime ((951850800 : BitVec 32).toInt + 60 * -420) date ∧ date.tzOffset = -420 :=
  split_time_civil (by decide) (by decide)

/-- The day of a negative time. -/
theorem tdiv_day_neg (hsecs : (t + BitVec.ofInt 32 (tzOffset * 60)).toInt = secs)
    (hneg : secs < 0) :
    -24855 ≤ secs.tdiv 86400 ∧ secs.tdiv 86400 ≤ 0 := by
  have hbounds := toInt_tdiv_bounds (t + BitVec.ofInt 32 (tzOffset * 60))
  rw [hsecs] at hbounds
  refine ⟨hbounds.1, ?_⟩
  rw [show (86400 : Int) = (86400 : Nat) from rfl, tdiv_eq_ite, if_neg (by omega)]
  omega

/-- The date of a negative time: all its fields are those of truncating divisions. -/
theorem splitTime_before_eq (hsecs : (t + BitVec.ofInt 32 (tzOffset * 60)).toInt = secs)
    (hneg : secs < 0) :
    splitTime t tzOffset = some {
      sec := (secs.tmod 86400).tmod 60
      min := ((secs.tmod 86400).tmod 3600).tdiv 60
      hour := (secs.tmod 86400).tdiv 3600
      day := 1 + epochYearDay (secs.tdiv 86400)
      month := 1
      year := 1970 + epochYears (secs.tdiv 86400)
      weekDay := (secs.tdiv 86400 + 4).tmod 7
      yearDay := epochYearDay (secs.tdiv 86400)
      tzOffset := tzOffset } := by
  obtain ⟨hlow, hnonpos⟩ := tdiv_day_neg hsecs hneg
  obtain ⟨-, -, -, hyearDay⟩ := epochYears_neg hnonpos (by omega)
  -- every such day is before the end of January
  have hfirst : ∀ b, splitMonth (epochYearDay (secs.tdiv 86400)) (monthTable b).tail 1 =
      some 1 := by
    intro b
    cases b <;> exact if_neg (by omega)
  have hstart : ∀ b, (monthTable b).getD ((1 : Int) - 1).toNat 0 = 0 := by
    intro b
    cases b <;> rfl
  rw [splitTime_eq hsecs, hfirst, Option.map_some, hstart, Int.sub_zero]

/-- A negative time has a year before 1971, and its day can be negative. -/
theorem splitTime_before (hsecs : (t + BitVec.ofInt 32 (tzOffset * 60)).toInt = secs)
    (hneg : secs < 0) :
    ∃ date, splitTime t tzOffset = some date ∧ (1902 ≤ date.year ∧ date.year ≤ 1970) ∧
      -400 ≤ date.day ∧ date.day ≤ 31 := by
  obtain ⟨hlow, hnonpos⟩ := tdiv_day_neg hsecs hneg
  obtain ⟨hlo, hhi, hyearDay, hyearDay'⟩ := epochYears_neg hnonpos (by omega)
  exact ⟨_, splitTime_before_eq hsecs hneg, ⟨by dsimp only; omega, by dsimp only; omega⟩,
    by dsimp only; omega,
    by dsimp only; omega⟩

/-- A negative time has a year before 1971. -/
theorem splitTime_neg (hsecs : (t + BitVec.ofInt 32 (tzOffset * 60)).toInt = secs)
    (hneg : secs < 0) :
    ∃ date, splitTime t tzOffset = some date ∧ 1902 ≤ date.year ∧ date.year ≤ 1970 := by
  obtain ⟨date, hsplit, hyear, -⟩ := splitTime_before hsecs hneg
  exact ⟨date, hsplit, hyear⟩

/-! ## The way back -/

/-- What `join_time` adds up for a year behind 1900: it counts the years of the struct from
    1900, and `split_time` from the birth of Christ. -/
def joinedTime (date : DateTime) : Int :=
  date.sec + date.min * 60 + date.hour * 3600 + date.yearDay * 86400 + (date.year - 70) * 31536000 +
    (date.year - 69).tdiv 4 * 86400 - (date.year - 1).tdiv 100 * 86400 +
      (date.year + 299).tdiv 400 * 86400

/-- Wrapping after every operation, or once at the end. -/
theorem joinTime_wrapped {date : DateTime} (hyear : 0 ≤ date.year) (hle : date.year < 2147483000) :
    joinTime (fun n => some (wrapped n)) date = some (wrapped (joinedTime date)) := by
  have hsub : ∀ k : Int, 0 ≤ k → k ≤ 70 → wrapped (date.year - k) = date.year - k := fun k hk hk' =>
    CInt.wrapped_of_le (by omega) (by omega)
  have hadd : wrapped (date.year + 299) = date.year + 299 :=
    CInt.wrapped_of_le (by omega) (by omega)
  simp only [joinTime, Option.bind_eq_bind, Option.bind_some, hsub 70 (by omega) (by omega),
    hsub 69 (by omega) (by omega), hsub 1 (by omega) (by omega), hadd]
  simp only [CInt.wrapped_add_left, CInt.wrapped_add_right, CInt.wrapped_sub_left,
    CInt.wrapped_sub_right]
  rfl

/-- The years from 1900 on, in seconds, do not fit into an `int`. -/
theorem joinTime_checked {date : DateTime} (hyear : 1970 ≤ date.year) :
    joinTime checked date = none := by
  cases hjoin : joinTime checked date with
  | none => rfl
  | some r =>
    simp only [joinTime, Option.bind_eq_bind, Option.bind_eq_some_iff] at hjoin
    -- the product of the years with the seconds of a year is the first to overflow
    obtain ⟨-, -, -, -, -, -, -, -, -, -, -, -, years, hyears, secs, hsecs, -⟩ := hjoin
    obtain ⟨rfl, -, -⟩ := CInt.checked_eq_some.mp hyears
    obtain ⟨-, -, hlt⟩ := CInt.checked_eq_some.mp hsecs
    omega

/-- Nineteen hundred years, their leap days and the day that `year / 100` leaves out: not a
    multiple of 2³². -/
theorem joinedTime_civil {date : DateTime} (h : CivilTime secs date)
    (hyear : date.year.toNat ≤ 2038) :
    joinedTime date = secs + 59958230400 ∨ joinedTime date = secs + 59958144000 := by
  have hge := h.isDate.year_ge
  have hclock := h.clock
  have hdays := h.yearDay
  obtain ⟨n, hn⟩ : ∃ n : Nat, date.year = 1970 + n := ⟨date.year.toNat - 1970, by omega⟩
  rw [hn, show (1970 + (n : Int)).toNat - 1970 = n by omega, yearStart_1970 (by omega)] at hdays
  unfold joinedTime
  rw [hn, Int.tdiv_eq_ediv_of_nonneg (by omega), Int.tdiv_eq_ediv_of_nonneg (by omega),
    Int.tdiv_eq_ediv_of_nonneg (by omega)]
  omega

/-- `join_time` does not give back any time that `split_time` has split. -/
theorem join_time_never (hnonneg : 0 ≤ t.toInt) : ∃ date, splitTime t 0 = some date ∧
    joinTime checked date = none ∧ joinTime (fun n => some (wrapped n)) date ≠ some t.toInt := by
  have hzero : (t + BitVec.ofInt 32 (0 * 60)).toInt = t.toInt := by simp
  obtain ⟨date, hsplit, hcivil, hyear, hdays⟩ := splitTime_civil hzero hnonneg
  obtain ⟨n, -, hn, -, -, -, hle⟩ := epochYears_spec (d := t.toInt / 86400) (by omega) hdays
  rw [hn] at hyear
  refine ⟨date, hsplit, joinTime_checked (by omega), ?_⟩
  rw [joinTime_wrapped (by omega) (by omega)]
  intro heq
  have hturns := CInt.wrapped_eq (Option.some.inj heq)
  rcases joinedTime_civil hcivil (by omega) with hjoined | hjoined
  · omega
  · omega

/-- The first second of 1970. -/
theorem join_time_never_first : ∃ date, splitTime 0 0 = some date ∧
    joinTime checked date = none ∧ joinTime (fun n => some (wrapped n)) date ≠ some
    (0 : BitVec 32).toInt :=
  join_time_never (by decide)

/-- It overflows; what the machine computes is a time in 1964. -/
theorem join_time_overflows : ∃ date, splitTime 0 0 = some date ∧ joinTime checked date = none ∧
    joinTime (fun n => some (wrapped n)) date = some (-171311744) :=
  ⟨⟨0, 0, 0, 1, 1, 1970, 4, 0, 0⟩, by decide, by decide, by decide⟩

end MishaOS
