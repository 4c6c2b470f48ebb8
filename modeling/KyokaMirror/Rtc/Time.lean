import KyokaMirror.Library.Word

set_option autoImplicit false

namespace KyokaMirror.Rtc

open Library.Word

/-- `RTC_TimeTypeDef`, a byte for each field. -/
@[ext]
structure RtcTime where
  year : BitVec 8
  month : BitVec 8
  date : BitVec 8
  hours : BitVec 8
  minutes : BitVec 8
  seconds : BitVec 8
  deriving DecidableEq, Repr

/-- `RTC_TypeDef`. -/
structure RtcTypeDef where
  sysToywrite0 : BitVec 32
  sysToywrite1 : BitVec 32
  sysToyread0 : BitVec 32
  sysToyread1 : BitVec 32
  deriving DecidableEq, Repr

def ls1cSecOffset : Nat := 4
def ls1cMinOffset : Nat := 10
def ls1cHourOffset : Nat := 16
def ls1cDayOffset : Nat := 21
def ls1cMonthOffset : Nat := 26

def ls1cSecMask : BitVec 32 := 0x3f
def ls1cMinMask : BitVec 32 := 0x3f
def ls1cHourMask : BitVec 32 := 0x1f
def ls1cDayMask : BitVec 32 := 0x1f
def ls1cMonthMask : BitVec 32 := 0x3f
def ls1cYearMask : BitVec 32 := 0xff

/-- The word for `SYS_TOYWRITE0`. Nothing is masked. -/
def packed (sTime : RtcTime) : BitVec 32 :=
  sTime.month.setWidth 32 <<< ls1cMonthOffset |||
    sTime.date.setWidth 32 <<< ls1cDayOffset |||
    sTime.hours.setWidth 32 <<< ls1cHourOffset |||
    sTime.minutes.setWidth 32 <<< ls1cMinOffset |||
    sTime.seconds.setWidth 32 <<< ls1cSecOffset

def rtcSetTime (hrtc : RtcTypeDef) (sTime : RtcTime) : RtcTypeDef :=
  { hrtc with
    sysToywrite0 := packed sTime
    sysToywrite1 := (sTime.year % 100).setWidth 32 }

/-- `ls1c_get_sec` and the four macros like it. -/
def getField (t : BitVec 32) (offset : Nat) (mask : BitVec 32) : BitVec 8 :=
  (t >>> offset &&& mask).setWidth 8

def rtcGetTime (hrtc : RtcTypeDef) : RtcTime where
  seconds := getField hrtc.sysToyread0 ls1cSecOffset ls1cSecMask
  minutes := getField hrtc.sysToyread0 ls1cMinOffset ls1cMinMask
  hours := getField hrtc.sysToyread0 ls1cHourOffset ls1cHourMask
  date := getField hrtc.sysToyread0 ls1cDayOffset ls1cDayMask
  month := getField hrtc.sysToyread0 ls1cMonthOffset ls1cMonthMask
  year := (hrtc.sysToyread1 &&& ls1cYearMask).setWidth 8

/-- The chip takes over what was written. -/
def latch (hrtc : RtcTypeDef) : RtcTypeDef :=
  { hrtc with sysToyread0 := hrtc.sysToywrite0, sysToyread1 := hrtc.sysToywrite1 }

/-- `struct tm`. -/
structure Tm where
  sec : Int
  min : Int
  hour : Int
  mday : Int
  mon : Int
  year : Int
  wday : Int
  yday : Int
  isdst : Int
  deriving DecidableEq, Repr

/-- `set_timestamp`; each field goes into a byte. -/
def setTimestamp (localtime : Int → Tm) (hrtc : RtcTypeDef) (timestamp : Int) : RtcTypeDef :=
  let tm := localtime timestamp
  rtcSetTime hrtc
    { seconds := BitVec.ofInt 8 tm.sec
      minutes := BitVec.ofInt 8 tm.min
      hours := BitVec.ofInt 8 tm.hour
      date := BitVec.ofInt 8 tm.mday
      month := BitVec.ofInt 8 (tm.mon + 1)
      year := BitVec.ofInt 8 (tm.year + 1900 - 2000) }

/-- `get_timestamp`; the last three fields stay 0. -/
def getTimestamp (mktime : Tm → Int) (hrtc : RtcTypeDef) : Int :=
  let rtcDate := rtcGetTime hrtc
  mktime
    { sec := rtcDate.seconds.toNat
      min := rtcDate.minutes.toNat
      hour := rtcDate.hours.toNat
      mday := rtcDate.date.toNat
      mon := rtcDate.month.toNat - 1
      year := rtcDate.year.toNat + 2000 - 1900
      wday := 0
      yday := 0
      isdst := 0 }

/-- The ranges in the comments of `RTC_TimeTypeDef`; a leap second passes too. -/
structure RtcTime.Valid (time : RtcTime) : Prop where
  year : time.year.toNat ≤ 99
  month : 1 ≤ time.month.toNat ∧ time.month.toNat ≤ 12
  date : 1 ≤ time.date.toNat ∧ time.date.toNat ≤ 31
  hours : time.hours.toNat ≤ 23
  minutes : time.minutes.toNat ≤ 59
  seconds : time.seconds.toNat ≤ 60

theorem toNat_getField (t : BitVec 32) (offset : Nat) {n : Nat} {mask : BitVec 32}
    (ones : mask.toNat = 2 ^ n - 1) (byte : n ≤ 8) :
    (getField t offset mask).toNat = t.toNat / 2 ^ offset % 2 ^ n := by
  have small : t.toNat / 2 ^ offset % 2 ^ n < 2 ^ 8 :=
    Nat.lt_of_lt_of_le (Nat.mod_lt _ (Nat.two_pow_pos n)) (Nat.pow_le_pow_right (by decide) byte)
  rw [getField, BitVec.toNat_setWidth, toNat_taken t offset ones, Nat.mod_eq_of_lt small]

section

variable {time : RtcTime} (valid : time.Valid)
include valid

/-- The fields do not overlap, so that the word is their sum. -/
theorem toNat_packed :
    (packed time).toNat = time.month.toNat * 2 ^ 26 + time.date.toNat * 2 ^ 21 +
      time.hours.toNat * 2 ^ 16 + time.minutes.toNat * 2 ^ 10 + time.seconds.toNat * 2 ^ 4 := by
  have month := valid.month.2
  have date := valid.date.2
  have hours := valid.hours
  have minutes := valid.minutes
  have seconds := valid.seconds
  simp only [packed, ls1cMonthOffset, ls1cDayOffset, ls1cHourOffset, ls1cMinOffset, ls1cSecOffset,
    BitVec.toNat_or]
  rw [toNat_placed time.month (by omega), toNat_placed time.date (by omega),
    toNat_placed time.hours (by omega), toNat_placed time.minutes (by omega),
    toNat_placed time.seconds (by omega)]
  rw [@or_eq_add 26 _ (time.date.toNat * 2 ^ 21) (by omega) (by omega),
    @or_eq_add 21 _ (time.hours.toNat * 2 ^ 16) (by omega) (by omega),
    @or_eq_add 16 _ (time.minutes.toNat * 2 ^ 10) (by omega) (by omega),
    @or_eq_add 10 _ (time.seconds.toNat * 2 ^ 4) (by omega) (by omega)]

theorem year_kept :
    ((time.year % 100).setWidth 32 &&& ls1cYearMask).setWidth 8 = time.year := by
  apply BitVec.eq_of_toNat_eq
  have small := valid.year
  have mask : ls1cYearMask.toNat = 2 ^ 8 - 1 := rfl
  have hundred : (100 : BitVec 8).toNat = 100 := rfl
  rw [BitVec.toNat_setWidth, BitVec.toNat_and, BitVec.toNat_setWidth, mask,
    Nat.and_two_pow_sub_one_eq_mod, BitVec.toNat_umod, hundred]
  omega

/-- What is set is read back. -/
theorem rtcGetTime_latch (hrtc : RtcTypeDef) : rtcGetTime (latch (rtcSetTime hrtc time)) = time := by
  have word := toNat_packed valid
  have month := valid.month.2
  have date := valid.date.2
  have hours := valid.hours
  have minutes := valid.minutes
  have seconds := valid.seconds
  rw [rtcGetTime, latch, rtcSetTime]
  ext1
  · exact year_kept valid
  all_goals
    apply BitVec.eq_of_toNat_eq
    dsimp only
  · rw [toNat_getField (n := 6) _ _ rfl (by decide), word, ls1cMonthOffset]
    omega
  · rw [toNat_getField (n := 5) _ _ rfl (by decide), word, ls1cDayOffset]
    omega
  · rw [toNat_getField (n := 5) _ _ rfl (by decide), word, ls1cHourOffset]
    omega
  · rw [toNat_getField (n := 6) _ _ rfl (by decide), word, ls1cMinOffset]
    omega
  · rw [toNat_getField (n := 6) _ _ rfl (by decide), word, ls1cSecOffset]
    omega

end

/-- The ranges that `localtime` keeps to. -/
structure Tm.InRange (tm : Tm) : Prop where
  sec : 0 ≤ tm.sec ∧ tm.sec ≤ 60
  min : 0 ≤ tm.min ∧ tm.min ≤ 59
  hour : 0 ≤ tm.hour ∧ tm.hour ≤ 23
  mday : 1 ≤ tm.mday ∧ tm.mday ≤ 31
  mon : 0 ≤ tm.mon ∧ tm.mon ≤ 11

/-- The same date and time of day. -/
def Tm.SameTime (tm other : Tm) : Prop :=
  tm.sec = other.sec ∧ tm.min = other.min ∧ tm.hour = other.hour ∧ tm.mday = other.mday ∧
    tm.mon = other.mon ∧ tm.year = other.year

/-- `mktime` takes the local time of a timestamp back to it, whatever stands in
the fields for the day of the week and of the year. -/
def Inverts (localtime : Int → Tm) (mktime : Tm → Int) (timestamp : Int) : Prop :=
  ∀ tm : Tm, tm.SameTime (localtime timestamp) → tm.isdst = 0 → mktime tm = timestamp

theorem toNat_byte {n : Int} (lower : 0 ≤ n) (upper : n ≤ 255) :
    ((BitVec.ofInt 8 n).toNat : Int) = n := by
  rw [BitVec.toNat_ofInt]
  omega

/-- A date from 2000 to 2099 survives the way through the registers. -/
theorem getTimestamp_setTimestamp {localtime : Int → Tm} {mktime : Tm → Int} {timestamp : Int}
    (ranges : (localtime timestamp).InRange)
    (century : 100 ≤ (localtime timestamp).year ∧ (localtime timestamp).year ≤ 199)
    (inverts : Inverts localtime mktime timestamp) (hrtc : RtcTypeDef) :
    getTimestamp mktime (latch (setTimestamp localtime hrtc timestamp)) = timestamp := by
  obtain ⟨sec, min, hour, mday, mon⟩ := ranges
  have sec' := toNat_byte sec.1 (by omega)
  have min' := toNat_byte min.1 (by omega)
  have hour' := toNat_byte hour.1 (by omega)
  have mday' := toNat_byte (show 0 ≤ (localtime timestamp).mday by omega) (by omega)
  have mon' := toNat_byte (show 0 ≤ (localtime timestamp).mon + 1 by omega) (by omega)
  have year' := toNat_byte (show 0 ≤ (localtime timestamp).year + 1900 - 2000 by omega) (by omega)
  rw [getTimestamp, setTimestamp, rtcGetTime_latch]
  · apply inverts
    · exact ⟨sec', min', hour', mday', by dsimp only; omega, by dsimp only; omega⟩
    · rfl
  · exact {
      year := by dsimp only; omega
      month := by dsimp only; omega
      date := by dsimp only; omega
      hours := by dsimp only; omega
      minutes := by dsimp only; omega
      seconds := by dsimp only; omega }

end KyokaMirror.Rtc
