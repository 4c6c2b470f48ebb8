import KyokaMirror.Rtc.Time

set_option autoImplicit false

namespace KyokaMirror.Rtc

/-- `__spm`: the days before each month of a year without a leap day. -/
def spm (month : Nat) : Int :=
  [0, 31, 59, 90, 120, 151, 181, 212, 243, 273, 304, 334, 365].getD month 0

def isleap (year : Int) : Prop :=
  year.tmod 4 = 0 ∧ (year.tmod 100 ≠ 0 ∨ year.tmod 400 = 0)

instance (year : Int) : Decidable (isleap year) := inferInstanceAs (Decidable (_ ∧ _))

def yearLength (year : Int) : Int := if isleap year then 366 else 365

/-- `for (i = 1970;; ++i)`; every year takes days off `work`. -/
def yearLoop : Nat → Int → Int → Int × Int
  | 0, i, work => (i, work)
  | fuel + 1, i, work =>
      if work ≥ yearLength i then yearLoop fuel (i + 1) (work - yearLength i) else (i, work)

/-- The year and the day of it, from the days since 1970. -/
def yearDay (days : Int) : Int × Int := yearLoop days.toNat 1970 days

/-- `for (i = 11; i && (__spm[i] > work); --i)`. -/
def monthLoop (work : Int) : Nat → Nat
  | 0 => 0
  | i + 1 => if spm (i + 1) > work then monthLoop work i else i + 1

/-- `SPD`. -/
def secondsPerDay : Int := 24 * 60 * 60

/-- The month and the day of it, from the day of a year. Behind the leap day `work`
counts as in other years. -/
def monthDay (year work : Int) : Nat × Int :=
  let mday : Int := if isleap year ∧ work = 59 then 2 else 1
  let work := if isleap year ∧ work > 58 then work - 1 else work
  (monthLoop work 11, mday + (work - spm (monthLoop work 11)))

/-- `gmtime_r`, which leaves `tm_isdst` as it is. -/
def gmtimeR (timep : Int) (r : Tm) : Tm :=
  let work := timep.tmod secondsPerDay
  let days := timep.tdiv secondsPerDay
  let date := yearDay days
  { r with
    sec := work.tmod 60
    min := (work.tdiv 60).tmod 60
    hour := (work.tdiv 60).tdiv 60
    wday := (4 + days).tmod 7
    year := date.1 - 1900
    yday := date.2
    mday := (monthDay date.1 date.2).2
    mon := (monthDay date.1 date.2).1 }

/-- `localtime` with its static `struct tm`; there are no time zones. -/
def localtime (t : Int) : Tm := gmtimeR t ⟨0, 0, 0, 0, 0, 0, 0, 0, 0⟩

/-- The four carries at the start of `mktime`. -/
def carry (t : Tm) : Tm :=
  let t := if t.sec > 60 then
    { t with min := t.min + t.sec.tdiv 60, sec := t.sec.tmod 60 } else t
  let t := if t.min > 60 then
    { t with hour := t.hour + t.min.tdiv 60, min := t.min.tmod 60 } else t
  let t := if t.hour > 24 then
    { t with mday := t.mday + t.hour.tdiv 24, hour := t.hour.tmod 24 } else t
  if t.mon > 12 then { t with year := t.year + t.mon.tdiv 12, mon := t.mon.tmod 12 } else t

/-- `while (t->tm_mday > __spm[1 + t->tm_mon])`; only January takes no days off. -/
def dayLoop : Nat → Tm → Tm
  | 0, t => t
  | fuel + 1, t =>
      if t.mday > spm (1 + t.mon).toNat then
        let mday := if t.mon = 1 ∧ isleap (t.year + 1900) then t.mday - 1 else t.mday
        let t := { t with mday := mday - spm t.mon.toNat, mon := t.mon + 1 }
        dayLoop fuel (if t.mon > 11 then { t with mon := 0, year := t.year + 1 } else t)
      else t

/-- The leap days that the years from 2101 on lack. -/
def missingDays (years : Int) : Int :=
  let centuries := (years - 131).tdiv 100
  centuries / 4 * 3 + 1 + if centuries % 4 = 3 then 2 else centuries % 4

/-- What `mktime` returns. `years` is taken before the carries. -/
def mktime (t : Tm) : Int :=
  let years := t.year - 70
  let t := dayLoop (2 * (carry t).mday.toNat + 1) (carry t)
  if t.year < 70 then -1
  else
    let day := years * 365 + (years + 1).tdiv 4
    let day := if years ≥ 131 then day - missingDays years else day
    let yday := spm t.mon.toNat + t.mday - 1 +
      if isleap (t.year + 1900) ∧ t.mon > 1 then 1 else 0
    (((day + yday) * 24 + t.hour) * 60 + t.min) * 60 + t.sec

theorem spm_step : ∀ m ≤ 11, spm m + 28 ≤ spm (m + 1) ∧ spm (m + 1) ≤ spm m + 31 ∧
    31 ≤ spm (m + 1) := by
  decide

/-- The month that a day of the year falls into. -/
theorem monthLoop_spec {work : Int} (lower : 0 ≤ work) (n : Nat) :
    monthLoop work n ≤ n ∧ spm (monthLoop work n) ≤ work ∧
      (monthLoop work n < n → work < spm (monthLoop work n + 1)) := by
  induction n with
  | zero => exact ⟨Nat.le_refl 0, lower, fun less => absurd less (Nat.lt_irrefl 0)⟩
  | succ n ih =>
      obtain ⟨inside, begun, ended⟩ := ih
      rw [monthLoop]
      split
      · rename_i later
        refine ⟨by omega, begun, ?_⟩
        intro _
        by_cases last : monthLoop work n = n
        · rw [last]
          exact later
        · exact ended (by omega)
      · rename_i here
        exact ⟨Nat.le_refl _, by omega, fun less => absurd less (Nat.lt_irrefl _)⟩

/-- `__isleap` in the years in which no century is left out. -/
theorem isleap_iff {year : Int} (lower : 1970 ≤ year) (upper : year ≤ 2099) :
    isleap year ↔ year % 4 = 0 := by
  rw [isleap, Int.tmod_eq_emod_of_nonneg (by omega), Int.tmod_eq_emod_of_nonneg (by omega),
    Int.tmod_eq_emod_of_nonneg (by omega)]
  omega

/-- The days from 1970 to a year, as `mktime` counts them. -/
def daysTo (year : Int) : Int := (year - 1970) * 365 + (year - 1969) / 4

theorem daysTo_succ {year : Int} (lower : 1970 ≤ year) (upper : year ≤ 2099) :
    daysTo (year + 1) = daysTo year + yearLength year := by
  rw [daysTo, daysTo, yearLength]
  split
  · rename_i leap
    rw [isleap_iff lower upper] at leap
    omega
  · rename_i common
    rw [isleap_iff lower upper] at common
    omega

theorem yearLength_pos (year : Int) : 365 ≤ yearLength year := by
  rw [yearLength]
  split <;> omega

theorem yearLoop_spec (fuel : Nat) {i work : Int} (enough : work.toNat ≤ fuel)
    (lower : 0 ≤ work) (begun : 1970 ≤ i) (upper : (yearLoop fuel i work).1 ≤ 2099) :
    i ≤ (yearLoop fuel i work).1 ∧ 0 ≤ (yearLoop fuel i work).2 ∧
      (yearLoop fuel i work).2 < yearLength (yearLoop fuel i work).1 ∧
      daysTo (yearLoop fuel i work).1 + (yearLoop fuel i work).2 = daysTo i + work := by
  induction fuel generalizing i work with
  | zero =>
      have long := yearLength_pos i
      exact ⟨Int.le_refl i, lower, by rw [yearLoop]; dsimp only; omega, rfl⟩
  | succ fuel ih =>
      have long := yearLength_pos i
      rw [yearLoop] at upper ⊢
      split at upper
      · rename_i more
        rw [if_pos more]
        obtain ⟨later, rest⟩ := ih (by omega) (by omega) (by omega) upper
        rw [daysTo_succ begun (by omega)] at rest
        exact ⟨by omega, rest.1, rest.2.1, by omega⟩
      · rename_i inside
        rw [if_neg inside]
        exact ⟨Int.le_refl i, lower, by dsimp only; omega, rfl⟩

theorem yearDay_spec {days : Int} (lower : 0 ≤ days) (upper : (yearDay days).1 ≤ 2099) :
    0 ≤ (yearDay days).2 ∧ (yearDay days).2 < yearLength (yearDay days).1 ∧
      daysTo (yearDay days).1 + (yearDay days).2 = days := by
  have start : daysTo 1970 = 0 := rfl
  obtain ⟨_, first, last, whole⟩ :=
    yearLoop_spec days.toNat (Nat.le_refl _) lower (Int.le_refl 1970) upper
  rw [start, Int.zero_add] at whole
  exact ⟨first, last, whole⟩

/-- `mktime` counts the day of the year that `gmtime_r` took apart. -/
theorem monthDay_spec {year work : Int} (lower : 0 ≤ work) (inside : work < yearLength year) :
    (monthDay year work).1 ≤ 11 ∧ 1 ≤ (monthDay year work).2 ∧ (monthDay year work).2 ≤ 31 ∧
      spm (monthDay year work).1 + (monthDay year work).2 - 1 +
        (if isleap year ∧ ((monthDay year work).1 : Int) > 1 then 1 else 0) = work := by
  have second : spm 2 = 59 := rfl
  have last : spm 12 = 365 := rfl
  -- In which month a day of a year without a leap day is.
  have month : ∀ day : Int, 0 ≤ day → day < 365 → monthLoop day 11 ≤ 11 ∧
      spm (monthLoop day 11) ≤ day ∧ day < spm (monthLoop day 11) + 31 ∧
      (day < 59 ↔ monthLoop day 11 ≤ 1) := by
    intro day first short
    obtain ⟨early, begun, ended⟩ := monthLoop_spec first 11
    have ahead : day < spm (monthLoop day 11 + 1) := by
      by_cases december : monthLoop day 11 = 11
      · rw [december, last]
        exact short
      · exact ended (by omega)
    have length := spm_step _ early
    refine ⟨early, begun, by omega, ?_⟩
    generalize monthLoop day 11 = m at *
    have before : ∀ n ≤ 11, n ≤ 1 → spm (n + 1) ≤ 59 := by decide
    have behind : ∀ n ≤ 11, ¬ n ≤ 1 → 59 ≤ spm n := by decide
    constructor
    · intro small
      by_contra later
      have bound := behind m early later
      omega
    · intro small
      have bound := before m early small
      omega
  rw [yearLength] at inside
  by_cases leap : isleap year
  · rw [if_pos leap] at inside
    by_cases behind : work > 58
    · obtain ⟨early, begun, near, spring⟩ := month (work - 1) (by omega) (by omega)
      simp only [monthDay, leap, behind, and_self, true_and, ↓reduceIte]
      refine ⟨early, ?_⟩
      by_cases leapDay : work = 59
      · have february : monthLoop (work - 1) 11 = 1 := by
          rw [leapDay]
          rfl
        have january : spm 1 = 31 := rfl
        rw [if_pos leapDay, february, january, if_neg (by decide)]
        omega
      · have later : (monthLoop (work - 1) 11 : Int) > 1 := by omega
        rw [if_neg leapDay, if_pos later]
        omega
    · obtain ⟨early, begun, near, spring⟩ := month work lower (by omega)
      have other : work ≠ 59 := by omega
      simp only [monthDay, leap, behind, other, and_false, true_and, ↓reduceIte]
      refine ⟨early, ?_⟩
      split <;> omega
  · rw [if_neg leap] at inside
    obtain ⟨early, begun, near, _⟩ := month work lower inside
    simp only [monthDay, leap, false_and, ↓reduceIte]
    omega

/-- No carry and no later month is needed for what `localtime` delivers. -/
theorem mktime_inRange {t : Tm} (ranges : t.InRange) (lower : 70 ≤ t.year) (upper : t.year ≤ 199) :
    mktime t = (((daysTo (t.year + 1900) + (spm t.mon.toNat + t.mday - 1 +
      if isleap (t.year + 1900) ∧ t.mon > 1 then 1 else 0)) * 24 + t.hour) * 60 + t.min) * 60 +
        t.sec := by
  obtain ⟨sec, min, hour, mday, mon⟩ := ranges
  have carried : carry t = t := by
    have first : ¬ t.sec > 60 := by omega
    have second : ¬ t.min > 60 := by omega
    have third : ¬ t.hour > 24 := by omega
    have fourth : ¬ t.mon > 12 := by omega
    simp only [carry, first, second, third, fourth, ↓reduceIte]
  have length := (spm_step t.mon.toNat (by omega)).2.2
  have index : (1 + t.mon).toNat = t.mon.toNat + 1 := by omega
  have stays : ∀ fuel, dayLoop fuel t = t := by
    intro fuel
    cases fuel with
    | zero => rfl
    | succ fuel => rw [dayLoop, if_neg (by rw [index]; omega)]
  rw [mktime]
  dsimp only
  rw [carried, stays, if_neg (by omega), if_neg (by omega), daysTo,
    Int.tdiv_eq_ediv_of_nonneg (by omega)]
  congr 6
  omega

/-- A time before 1971 is taken for one of 1970. -/
theorem nonneg_of_localtime {timestamp : Int} (lower : 100 ≤ (localtime timestamp).year) :
    0 ≤ timestamp := by
  by_contra before
  have opposite : 0 ≤ (-timestamp).tdiv secondsPerDay :=
    Int.tdiv_nonneg (by omega) (by decide)
  rw [Int.neg_tdiv] at opposite
  have days : (timestamp.tdiv secondsPerDay).toNat = 0 := by omega
  simp only [localtime, gmtimeR, yearDay, days, yearLoop] at lower
  omega

theorem localtime_eq {timestamp : Int} (later : 0 ≤ timestamp) :
    localtime timestamp =
      { sec := timestamp % 86400 % 60
        min := timestamp % 86400 / 60 % 60
        hour := timestamp % 86400 / 60 / 60
        mday := (monthDay (yearDay (timestamp / 86400)).1 (yearDay (timestamp / 86400)).2).2
        mon := (monthDay (yearDay (timestamp / 86400)).1 (yearDay (timestamp / 86400)).2).1
        year := (yearDay (timestamp / 86400)).1 - 1900
        wday := (4 + timestamp / 86400) % 7
        yday := (yearDay (timestamp / 86400)).2
        isdst := 0 } := by
  have days : timestamp.tdiv secondsPerDay = timestamp / 86400 := Int.tdiv_eq_ediv_of_nonneg later
  have work : timestamp.tmod secondsPerDay = timestamp % 86400 := Int.tmod_eq_emod_of_nonneg later
  have sec : (timestamp % 86400).tmod 60 = timestamp % 86400 % 60 :=
    Int.tmod_eq_emod_of_nonneg (by omega)
  have minutes : (timestamp % 86400).tdiv 60 = timestamp % 86400 / 60 :=
    Int.tdiv_eq_ediv_of_nonneg (by omega)
  have min : (timestamp % 86400 / 60).tmod 60 = timestamp % 86400 / 60 % 60 :=
    Int.tmod_eq_emod_of_nonneg (by omega)
  have hour : (timestamp % 86400 / 60).tdiv 60 = timestamp % 86400 / 60 / 60 :=
    Int.tdiv_eq_ediv_of_nonneg (by omega)
  have wday : (4 + timestamp / 86400).tmod 7 = (4 + timestamp / 86400) % 7 :=
    Int.tmod_eq_emod_of_nonneg (by omega)
  simp only [localtime, gmtimeR, days, work, sec, minutes, min, hour, wday]

/-- `mktime` inverts `localtime` in the years 2000 to 2099. -/
theorem localtime_inverted {timestamp : Int} (lower : 100 ≤ (localtime timestamp).year)
    (upper : (localtime timestamp).year ≤ 199) :
    (localtime timestamp).InRange ∧ Inverts localtime mktime timestamp := by
  have later := nonneg_of_localtime lower
  have fields := localtime_eq later
  rw [Inverts]
  generalize localtime timestamp = tm at lower upper fields
  have year : tm.year = (yearDay (timestamp / 86400)).1 - 1900 := by rw [fields]
  obtain ⟨first, last, whole⟩ := yearDay_spec (show 0 ≤ timestamp / 86400 by omega) (by omega)
  obtain ⟨month, day, short, counted⟩ := monthDay_spec first last
  generalize yearDay (timestamp / 86400) = date at *
  have ranges : tm.InRange := by
    rw [fields]
    exact ⟨by dsimp only; omega, by dsimp only; omega, by dsimp only; omega, ⟨day, short⟩,
      by dsimp only; omega⟩
  refine ⟨ranges, ?_⟩
  rintro other ⟨sec, min, hour, mday, mon, sameYear⟩ _
  have same : other.InRange :=
    ⟨sec ▸ ranges.sec, min ▸ ranges.min, hour ▸ ranges.hour, mday ▸ ranges.mday, mon ▸ ranges.mon⟩
  rw [mktime_inRange same (by omega) (by omega), sec, min, hour, mday, mon, sameYear, year,
    Int.sub_add_cancel, fields]
  dsimp only
  rw [Int.toNat_natCast, counted, whole]
  omega

/-- Setting and getting the time gives the time back: over the registers, over the
timestamps of this century for every `mktime` that inverts `localtime`, and so for
the two functions of the C library here. -/
theorem rtc_round_trip (hrtc : RtcTypeDef) :
    (∀ time : RtcTime, time.Valid → rtcGetTime (latch (rtcSetTime hrtc time)) = time) ∧
    (∀ (localtime : Int → Tm) (mktime : Tm → Int) (timestamp : Int),
      (localtime timestamp).InRange →
      100 ≤ (localtime timestamp).year ∧ (localtime timestamp).year ≤ 199 →
      Inverts localtime mktime timestamp →
      getTimestamp mktime (latch (setTimestamp localtime hrtc timestamp)) = timestamp) ∧
    ∀ timestamp : Int, 100 ≤ (localtime timestamp).year ∧ (localtime timestamp).year ≤ 199 →
      getTimestamp mktime (latch (setTimestamp localtime hrtc timestamp)) = timestamp := by
  refine ⟨?_, ?_, ?_⟩
  · intro time valid
    exact rtcGetTime_latch valid hrtc
  · intro localtime mktime timestamp ranges century inverts
    exact getTimestamp_setTimestamp ranges century inverts hrtc
  · intro timestamp century
    obtain ⟨ranges, inverts⟩ := localtime_inverted century.1 century.2
    exact getTimestamp_setTimestamp ranges century inverts hrtc

/-- The day 2020-02-29. -/
theorem leap_day_restored :
    (localtime 1582979696).mon = 1 ∧ (localtime 1582979696).mday = 29 ∧
      getTimestamp mktime (latch (setTimestamp localtime ⟨0, 0, 0, 0⟩ 1582979696)) =
        1582979696 :=
  ⟨by decide +kernel, by decide +kernel, (rtc_round_trip _).2.2 1582979696 (by decide +kernel)⟩

end KyokaMirror.Rtc
