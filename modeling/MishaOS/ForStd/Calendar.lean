import Mathlib

/-!
# The Gregorian calendar

Days are counted from 1 January of a year `epoch`.

## Key results

- `IsDate.of_month`: the day `yearDay` of a year, in the month that contains it.
- `yearStart_eq`: the days before a year, where every fourth year is a leap year.
-/

namespace Calendar

def leap (year : Nat) : Bool := decide (year % 4 = 0 ∧ (year % 100 ≠ 0 ∨ year % 400 = 0))

/-- The length of a month, from 1 for January. -/
def monthDays (leap : Bool) : Nat → Nat
  | 2 => if leap then 29 else 28
  | 4 | 6 | 9 | 11 => 30
  | _ => 31

/-- The days of a year before a month. -/
def monthStart (leap : Bool) (month : Nat) : Nat :=
  ((List.range (month - 1)).map fun i => monthDays leap (i + 1)).sum

def yearDays (year : Nat) : Nat := if leap year then 366 else 365

/-- The days from the epoch to the year `epoch + n`. -/
def yearStart (epoch : Nat) : Nat → Nat
  | 0 => 0
  | n + 1 => yearStart epoch n + yearDays (epoch + n)

/-- The day with the number `days` has this date. -/
structure IsDate (epoch days year month day : Nat) : Prop where
  year_ge : epoch ≤ year
  month_pos : 1 ≤ month
  month_le : month ≤ 12
  day_pos : 1 ≤ day
  day_le : day ≤ monthDays (leap year) month
  days_eq : days = yearStart epoch (year - epoch) + monthStart (leap year) month + (day - 1)

variable {epoch n year month yearDay : Nat}

theorem leap_eq (hge : 1900 < year) (hlt : year < 2100) : leap year = decide (year % 4 = 0) := by
  unfold leap
  rw [decide_eq_decide]
  omega

theorem monthStart_succ (b : Bool) (hmonth : 1 ≤ month) :
    monthStart b (month + 1) = monthStart b month + monthDays b month := by
  obtain ⟨m, rfl⟩ : ∃ m, month = m + 1 := ⟨month - 1, by omega⟩
  unfold monthStart
  rw [Nat.add_sub_cancel, Nat.add_sub_cancel, List.range_succ, List.map_append, List.sum_append,
    List.map_singleton,
    List.sum_singleton]

theorem IsDate.of_month (hpos : 1 ≤ month) (hle : month ≤ 12)
    (hge : monthStart (leap (epoch + n)) month ≤ yearDay)
    (hlt : yearDay < monthStart (leap (epoch + n)) (month + 1)) :
    IsDate epoch (yearStart epoch n + yearDay) (epoch + n) month
      (1 + yearDay - monthStart (leap (epoch + n)) month) where
  year_ge := Nat.le_add_right epoch n
  month_pos := hpos
  month_le := hle
  day_pos := by omega
  day_le := by
    rw [monthStart_succ _ hpos] at hlt
    omega
  days_eq := by
    rw [Nat.add_sub_cancel_left]
    omega

/-- The epoch is two years after a leap year, and no leap year is left out since. -/
theorem yearStart_eq (hepoch : epoch % 4 = 2)
    (hleap : ∀ i < n, leap (epoch + i) = decide ((epoch + i) % 4 = 0)) :
    yearStart epoch n = 365 * n + (n + 1) / 4 := by
  induction n with
  | zero => rfl
  | succ n ih =>
    rw [yearStart, ih fun i hi => hleap i (Nat.lt_succ_of_lt hi), yearDays,
      hleap n (Nat.lt_succ_self n)]
    split <;> rename_i h <;> rw [decide_eq_true_eq] at h <;> omega

end Calendar
