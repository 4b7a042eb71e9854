import MishaOS.Native.Time
import Mathlib.Logic.Function.Basic

/-!
# The clock of the machine

`rtc_set_time` and `rtc_get_time` access the registers of the clock, binary or
in decimal digits as the bit `REGB_DM` says; `ntp_recv` sets the clock from the
answer of a time server.  The clock stands still: what is modelled is the
traffic of the registers.  `ntp_recv` prints the date into a buffer on its
stack; what a longer text overwrites there is not known, so `none` stands for it.
-/

namespace MishaOS

def REG_SEC : Byte := 0x00
def REG_MIN : Byte := 0x02
def REG_HOUR : Byte := 0x04
def REG_WEEK_DAY : Byte := 0x06
def REG_DAY : Byte := 0x07
def REG_MONTH : Byte := 0x08
def REG_YEAR : Byte := 0x09
def REG_B : Byte := 0x0B

def REGB_DM : Byte := 1 <<< 2

/-- The registers. -/
abbrev Rtc := Byte → Byte

/-- `rtc_write`. -/
def rtcWrite (rtc : Rtc) (addr value : Byte) : Rtc := Function.update rtc addr value

def bcdToBin (value : Byte) : Byte := (value &&& 0x0F) + (value >>> 4) * 10
def binToBcd (value : Byte) : Byte := ((value / 10) <<< 4) + value % 10

/-- `~regb & REGB_DM` -/
def Rtc.bcd (rtc : Rtc) : Prop := ~~~(rtc REG_B) &&& REGB_DM ≠ 0

instance (rtc : Rtc) : Decidable rtc.bcd := inferInstanceAs (Decidable (_ ≠ _))

/-- `rtc_get_time`, into `date`; an update in progress is waited for. -/
def rtcGetTime (rtc : Rtc) (date : DateTime) : DateTime :=
  let dec := fun v => if rtc.bcd then bcdToBin v else v
  -- `year` has sixteen bits, `week_day` eight
  let year : BitVec 16 := (dec (rtc REG_YEAR)).setWidth 16 + 2000
  let weekDay : Byte := rtc REG_WEEK_DAY - 1
  { date with
    sec := (dec (rtc REG_SEC)).toNat
    min := (dec (rtc REG_MIN)).toNat
    hour := (dec (rtc REG_HOUR)).toNat
    day := (dec (rtc REG_DAY)).toNat
    month := (dec (rtc REG_MONTH)).toNat
    year := year.toNat
    weekDay := weekDay.toNat
    tzOffset := localTimeZone }

/-- `rtc_set_time`. -/
def rtcSetTime (rtc : Rtc) (date : DateTime) : Rtc :=
  let sec := BitVec.ofInt 8 date.sec
  let min := BitVec.ofInt 8 date.min
  let hour := BitVec.ofInt 8 date.hour
  let day := BitVec.ofInt 8 date.day
  let month := BitVec.ofInt 8 date.month
  let year := BitVec.ofInt 8 (date.year - 2000)
  let weekDay := BitVec.ofInt 8 (date.weekDay + 1)
  if sec ≥ 60 ∨ min ≥ 60 ∨ hour ≥ 24 ∨ day > 31 ∨ month > 12 ∨ year ≥ 100 ∨ weekDay > 7 then
    -- "rtc_set_time: invalid date"
    rtc
  else
    let enc := fun v => if rtc.bcd then binToBcd v else v
    let rtc := rtcWrite rtc REG_SEC (enc sec)
    let rtc := rtcWrite rtc REG_MIN (enc min)
    let rtc := rtcWrite rtc REG_HOUR (enc hour)
    let rtc := rtcWrite rtc REG_WEEK_DAY weekDay
    let rtc := rtcWrite rtc REG_DAY (enc day)
    let rtc := rtcWrite rtc REG_MONTH (enc month)
    rtcWrite rtc REG_YEAR (enc year)

def UNIX_EPOCH : BitVec 64 := 0x83AA7E80

/-- `net_swap64` of the double word at a pointer. -/
def readBe64 (p : List Byte) : BitVec 64 :=
  p.getD 0 0 ++ p.getD 1 0 ++ p.getD 2 0 ++ p.getD 3 0 ++ p.getD 4 0 ++ p.getD 5 0 ++
    p.getD 6 0 ++ p.getD 7 0

/-- `ntp_recv` of a packet with the bytes `data`; `send_timestamp` is the last
    field of the 48 bytes of the header. -/
def ntpRecv (rtc : Rtc) (data : List Byte) : Option Rtc :=
  if data.length < 48 then some rtc
  else
    let time := ((readBe64 (data.drop 40) >>> 32) - UNIX_EPOCH).setWidth 32
    (splitTime time localTimeZone).bind fun date =>
      -- `char str[TIME_STRING_SIZE]`
      (formatTime date).bind fun str =>
        if str.length ≤ TIME_STRING_SIZE then some (rtcSetTime rtc date) else none

end MishaOS
