import MishaOS.Native.Stdlib

/-!
# Dates

`split_time` turns seconds since 1970 into a date.  `abs_time` is a signed
32-bit word, so the shift by the time zone wraps; the divisions are those of
C, which truncate.  `format_time` writes one character after the other; its
buffer is the list of what it writes, with the null byte at the end.
-/

namespace MishaOS

/-- `local_time_zone`, in minutes. -/
def localTimeZone : Int := -7 * 60

/-- `date_time_t`. -/
structure DateTime where
  sec : Int
  min : Int
  hour : Int
  day : Int
  month : Int
  year : Int
  weekDay : Int
  yearDay : Int
  tzOffset : Int
deriving DecidableEq, Repr

def monthStart : List Int := [0, 31, 59, 90, 120, 151, 181, 212, 243, 273, 304, 334, 365]
def leapMonthStart : List Int := [0, 31, 60, 91, 121, 152, 182, 213, 244, 274, 305, 335, 366]

/-- The loop over `mstart`, from the given month on; `none`: it reads past the end. -/
def splitMonth (yearDay : Int) : List Int → Int → Option Int
  | [], _ => none
  | start :: rest, month => if yearDay ≥ start then splitMonth yearDay rest (month + 1)
    else some month

/-- `epoch_years` in `split_time`. -/
def epochYears (epochDays : Int) : Int := (epochDays - (epochDays + 365).tdiv 1460).tdiv 365

/-- `year_day` in `split_time`. -/
def epochYearDay (epochDays : Int) : Int :=
  epochDays - (epochYears epochDays * 365 + (epochYears epochDays + 1).tdiv 4)

/-- `split_time`. -/
def splitTime (t : BitVec 32) (tzOffset : Int) : Option DateTime :=
  let t := (t + BitVec.ofInt 32 (tzOffset * 60)).toInt
  let epochDays := t.tdiv (24 * 60 * 60)
  let daySecs := t.tmod (24 * 60 * 60)
  let year := 1970 + epochYears epochDays
  let yearDay := epochYearDay epochDays
  -- `year & 3`, also of a year that is negative
  let mstart := if year % 4 ≠ 0 then monthStart else leapMonthStart
  (splitMonth yearDay mstart.tail 1).map fun month => {
    sec := daySecs.tmod 60
    min := (daySecs.tmod 3600).tdiv 60
    hour := daySecs.tdiv 3600
    day := 1 + yearDay - mstart.getD (month - 1).toNat 0
    month := month
    year := year
    weekDay := (epochDays + 4).tmod 7
    yearDay := yearDay
    tzOffset := tzOffset }

/-- `join_time`.  `int` is what the machine makes of the exact result of an operation. -/
def joinTime (int : Int → Option Int) (date : DateTime) : Option Int := do
  let t ← int (date.sec + (← int (date.min * 60)))
  let t ← int (t + (← int (date.hour * 3600)))
  let t ← int (t + (← int (date.yearDay * 86400)))
  let t ← int (t + (← int ((← int (date.year - 70)) * 31536000)))
  let t ← int (t + (← int (((← int (date.year - 69)).tdiv 4) * 86400)))
  let t ← int (t - (← int (((← int (date.year - 1)).tdiv 100) * 86400)))
  int (t + (← int (((← int (date.year + 299)).tdiv 400) * 86400)))

def weekDays : List (List Byte) := ["Sun", "Mon", "Tue", "Wed", "Thu", "Fri", "Sat"].map ascii

def months : List (List Byte) :=
  ["Jan", "Feb", "Mar", "Apr", "May", "Jun", "Jul", "Aug", "Sep", "Oct", "Nov", "Dec"].map ascii

/-- `itoa`, with a zero in front of what is less than ten. -/
def formatTwo (v : Int) : Option (List Byte) :=
  (itoa v 10).map fun digits => (if v < 10 then ascii "0" else []) ++ digits

/-- The end of `format_time`, from the sign of the time zone on. -/
def formatZone (tzOffset : Int) : Option (List Byte) := do
  let tzh := tzOffset.tdiv 60
  let tzm := tzOffset.tmod 60
  return ascii "+" ++ (← formatTwo tzh) ++ ascii ":" ++ (← formatTwo tzm)

/-- `format_time`, up to the sign of the time zone. -/
def formatStamp (date : DateTime) : Option (List Byte) := do
  -- both are unsigned
  let w := (BitVec.ofInt 32 date.weekDay).toNat
  let m := (BitVec.ofInt 32 (date.month - 1)).toNat
  return weekDays.getD w (ascii "???") ++ ascii ", " ++ (← formatTwo date.day) ++ ascii " " ++
    months.getD m (ascii "???") ++ ascii " " ++ (← itoa date.year 10) ++ ascii " " ++
    (← formatTwo date.hour) ++ ascii ":" ++ (← formatTwo date.min) ++ ascii ":" ++
      (← formatTwo date.sec) ++
    ascii " "

/-- `format_time`. -/
def formatTime (date : DateTime) : Option (List Byte) := do
  return (← formatStamp date) ++ (← formatZone date.tzOffset) ++ [0]

def TIME_STRING_SIZE : Nat := 34

end MishaOS
