import Mathlib.Data.BitVec
import KyokaMirror.Library.Calendar

set_option autoImplicit false

namespace KyokaMirror.Rtc

open Library.Calendar

def rtcIsLeapYear (nYear : BitVec 32) : BitVec 8 :=
  if nYear % 4 ≠ 0 then 0
  else if nYear % 100 ≠ 0 then 1
  else if nYear % 400 = 0 then 1
  else 0

/-- The month and the day are widened first; `unsigned long` has 32 bits. -/
def rtcWeekDayNum (nYear : BitVec 32) (nMonth nDay : BitVec 8) : BitVec 8 :=
  let month : BitVec 32 := nMonth.setWidth 32
  let day : BitVec 32 := nDay.setWidth 32
  let year := 2000 + nYear
  let weekday :=
    if month < 3 then
      (23 * month / 9 + day + 4 + year + (year - 1) / 4 - (year - 1) / 100 + (year - 1) / 400) % 7
    else
      (23 * month / 9 + day + 4 + year + year / 4 - year / 100 + year / 400 - 2) % 7
  weekday.setWidth 8

def rtcLeap (nYear : Nat) : Bool := rtcIsLeapYear (2000 + BitVec.ofNat 32 nYear) ≠ 0

def weekDay (date : Date) : Nat :=
  (rtcWeekDayNum (BitVec.ofNat 32 date.year) (BitVec.ofNat 8 date.month)
    (BitVec.ofNat 8 date.day)).toNat

/-- The formula without the words. -/
def formula (year month day : Nat) : Nat :=
  if month < 3 then (23 * month / 9 + day + 4 + year + leapYears (year - 1)) % 7
  else (23 * month / 9 + day + 2 + year + leapYears year) % 7

theorem toNat_year {n : Nat} (small : n ≤ 2 ^ 30) :
    (2000 + BitVec.ofNat 32 n).toNat = 2000 + n := by
  have base : (2000 : BitVec 32).toNat = 2000 := rfl
  rw [BitVec.toNat_add, BitVec.toNat_ofNat, base]
  omega

theorem rtcLeap_iff {n : Nat} (small : n ≤ 2 ^ 30) : rtcLeap n = true ↔ Gregorian (2000 + n) := by
  have test : ∀ k : BitVec 32, (2000 + BitVec.ofNat 32 n) % k = 0 ↔ (2000 + n) % k.toNat = 0 := by
    intro k
    rw [← BitVec.toNat_inj, BitVec.toNat_umod, toNat_year small]
    rfl
  have four : (4 : BitVec 32).toNat = 4 := rfl
  have hundred : (100 : BitVec 32).toNat = 100 := rfl
  have fourHundred : (400 : BitVec 32).toNat = 400 := rfl
  rw [rtcLeap, rtcIsLeapYear, Gregorian, decide_eq_true_eq]
  simp only [ne_eq, test, four, hundred, fourHundred]
  by_cases byFour : (2000 + n) % 4 = 0
  · by_cases byHundred : (2000 + n) % 100 = 0
    · by_cases byFourHundred : (2000 + n) % 400 = 0
      · simp [byFour, byHundred, byFourHundred]
      · simp [byFour, byHundred, byFourHundred]
    · simp [byFour, byHundred]
  · simp [byFour]

/-- The sum of both branches does not wrap. -/
theorem toNat_sum {a d y p q r : BitVec 32} (less : q.toNat ≤ p.toNat)
    (bound : a.toNat + d.toNat + 4 + y.toNat + p.toNat + r.toNat < 2 ^ 32) :
    (a + d + 4 + y + p - q + r).toNat =
      a.toNat + d.toNat + 4 + y.toNat + (p.toNat - q.toNat + r.toNat) := by
  have four : (4 : BitVec 32).toNat = 4 := rfl
  have first : (a + d + 4 + y + p).toNat = a.toNat + d.toNat + 4 + y.toNat + p.toNat := by
    simp only [BitVec.toNat_add, four, Nat.mod_add_mod]
    exact Nat.mod_eq_of_lt (by omega)
  have below : (a + d + 4 + y + p - q).toNat =
      a.toNat + d.toNat + 4 + y.toNat + p.toNat - q.toNat := by
    rw [BitVec.toNat_sub_of_le (BitVec.le_def.mpr (by omega)), first]
  rw [BitVec.toNat_add_of_lt (by omega), below]
  omega

/-- The sum with the leap years up to a year. -/
theorem toNat_counted {a d y z : BitVec 32} (bound : a.toNat + d.toNat ≤ 100)
    (year : y.toNat < 2 ^ 31) (last : z.toNat ≤ y.toNat) :
    (a + d + 4 + y + z / 4 - z / 100 + z / 400).toNat =
      a.toNat + d.toNat + 4 + y.toNat + leapYears z.toNat := by
  have four : (z / 4).toNat = z.toNat / 4 := BitVec.toNat_udiv
  have hundred : (z / 100).toNat = z.toNat / 100 := BitVec.toNat_udiv
  have fourHundred : (z / 400).toNat = z.toNat / 400 := BitVec.toNat_udiv
  rw [toNat_sum (by omega) (by omega), four, hundred, fourHundred, leapYears]

theorem toNat_month {month : BitVec 32} (small : month.toNat ≤ 12) :
    (23 * month / 9).toNat = 23 * month.toNat / 9 := by
  have factor : (23 : BitVec 32).toNat = 23 := rfl
  have product : (23 * month).toNat = 23 * month.toNat := by
    rw [BitVec.toNat_mul, factor]
    omega
  rw [BitVec.toNat_udiv, product]
  rfl

theorem weekDay_eq {date : Date} (valid : date.Valid rtcLeap) (small : date.year ≤ 2 ^ 30) :
    weekDay date = formula (2000 + date.year) date.month date.day := by
  have upper := valid.month.2
  have length : monthLength rtcLeap date.year date.month ≤ 31 := monthLength_le _ _
  have last := valid.day.2
  have month : ((BitVec.ofNat 8 date.month).setWidth 32).toNat = date.month := by
    rw [BitVec.toNat_setWidth, BitVec.toNat_ofNat]
    omega
  have day : ((BitVec.ofNat 8 date.day).setWidth 32).toNat = date.day := by
    rw [BitVec.toNat_setWidth, BitVec.toNat_ofNat]
    omega
  have year := toNat_year small
  have seven : (7 : BitVec 32).toNat = 7 := rfl
  have three : (3 : BitVec 32).toNat = 3 := rfl
  rw [weekDay, rtcWeekDayNum, formula, BitVec.toNat_setWidth]
  generalize (BitVec.ofNat 8 date.month).setWidth 32 = m at month
  generalize (BitVec.ofNat 8 date.day).setWidth 32 = d at day
  generalize 2000 + BitVec.ofNat 32 date.year = y at year
  have part := toNat_month (month.le.trans upper)
  have byte : ∀ k, k % 7 % 2 ^ 8 = k % 7 := fun k => by omega
  by_cases early : date.month < 3
  · have before : (y - 1).toNat = y.toNat - 1 := BitVec.toNat_sub_of_le (BitVec.le_def.mpr (by
      rw [year]
      exact Nat.le_add_right_of_le (by decide)))
    rw [if_pos (BitVec.lt_def.mpr (by rw [month]; exact early)), if_pos early, BitVec.toNat_umod,
      toNat_counted (by omega) (by omega) (by omega), part, before, year, month, day, seven, byte]
  · have two : (2 : BitVec 32).toNat = 2 := rfl
    have counted := toNat_counted (show (23 * m / 9).toNat + d.toNat ≤ 100 by omega)
      (show y.toNat < 2 ^ 31 by omega) (Nat.le_refl y.toNat)
    rw [if_neg (fun less => early (by rw [← month]; exact BitVec.lt_def.mp less)), if_neg early,
      BitVec.toNat_umod, BitVec.toNat_sub_of_le (BitVec.le_def.mpr (by omega)), counted, part,
      year, month, day, seven, two, byte]
    congr 1
    omega

theorem formula_day (year month day : Nat) :
    formula year month (day + 1) = (formula year month day + 1) % 7 := by
  unfold formula
  split
  · omega
  · omega

/-- The months other than February end on the weekday before the next one
begins. -/
theorem formula_month {leap : Nat → Bool} {year n month : Nat} (lower : 1 ≤ month)
    (upper : month < 12) (other : month ≠ 2) :
    formula year (month + 1) 1 = (formula year month (monthLength leap n month) + 1) % 7 := by
  unfold formula
  interval_cases month
  case «2» => exact absurd rfl other
  all_goals
    simp only [monthLength, Nat.reduceLT, Nat.reduceAdd, Nat.reduceMul, Nat.reduceDiv, ↓reduceIte]
    omega

theorem formula_march (year : Nat) :
    formula (year + 1) 3 1 =
      (formula (year + 1) 2 (if Gregorian (year + 1) then 29 else 28) + 1) % 7 := by
  have leaps := leapYears_succ year
  simp only [formula, Nat.reduceLT, ↓reduceIte, Nat.reduceMul, Nat.reduceDiv, Nat.add_sub_cancel]
  by_cases long : Gregorian (year + 1)
  · rw [if_pos long] at leaps ⊢
    omega
  · rw [if_neg long] at leaps ⊢
    omega

theorem formula_january (year : Nat) :
    formula (year + 1) 1 1 = (formula year 12 31 + 1) % 7 := by
  simp only [formula, Nat.reduceLT, ↓reduceIte, Nat.reduceMul, Nat.reduceDiv, Nat.add_sub_cancel]
  omega

theorem weekDay_next {date : Date} (valid : date.Valid rtcLeap) (small : date.year < 2 ^ 30) :
    weekDay (next rtcLeap date) = (weekDay date + 1) % 7 := by
  have bound : (next rtcLeap date).year ≤ 2 ^ 30 := (year_next_le date).trans small
  rw [weekDay_eq valid.next bound, weekDay_eq valid (Nat.le_of_lt small)]
  obtain ⟨year, month, day⟩ := date
  obtain ⟨⟨lower, upper⟩, first, last⟩ := valid
  dsimp only at lower upper first last small ⊢
  by_cases inside : day < monthLength rtcLeap year month
  · rw [next_same_month inside]
    exact formula_day _ _ _
  obtain rfl : day = monthLength rtcLeap year month := Nat.le_antisymm last (Nat.not_lt.mp inside)
  by_cases december : month = 12
  · subst december
    rw [next_year]
    exact formula_january (2000 + year)
  rw [next_month (by omega)]
  by_cases february : month = 2
  · subst february
    have length : monthLength rtcLeap year 2 =
        if Gregorian (1999 + year + 1) then 29 else 28 := by
      have same : 1999 + year + 1 = 2000 + year := by omega
      rw [monthLength, same]
      exact if_congr (rtcLeap_iff (Nat.le_of_lt small)) rfl rfl
    have march := formula_march (1999 + year)
    rw [← length] at march
    have same : 2000 + year = 1999 + year + 1 := by omega
    rw [same]
    exact march
  · exact formula_month lower (by omega) february

/-- The weekday of the date `n` days after 2000-01-01, a Saturday. -/
theorem weekDay_after (n : Nat) (small : (after rtcLeap ⟨0, 1, 1⟩ n).year < 2 ^ 30) :
    weekDay (after rtcLeap ⟨0, 1, 1⟩ n) = (6 + n) % 7 := by
  induction n with
  | zero => decide
  | succ n ih =>
      rw [after_succ] at small ⊢
      have earlier := Nat.lt_of_le_of_lt (year_le_next _) small
      have january : (⟨0, 1, 1⟩ : Date).Valid rtcLeap := ⟨by decide, by decide⟩
      rw [weekDay_next (valid_after january n) earlier, ih earlier]
      omega

/-- The weekday moves on by one each day, over the ends of the months and years,
and 2000-01-01 is a Saturday; so the weekday of any later date is what counting
the days gives. February is as long as in the Gregorian calendar. -/
theorem weekday_agrees (date : Date) (valid : date.Valid rtcLeap) (small : date.year < 2 ^ 30) :
    weekDay (next rtcLeap date) = (weekDay date + 1) % 7 ∧
      rtcWeekDayNum 0 1 1 = 6 ∧
      (∃ n, after rtcLeap ⟨0, 1, 1⟩ n = date ∧ weekDay date = (6 + n) % 7) ∧
      (rtcLeap date.year = true ↔ Gregorian (2000 + date.year)) := by
  refine ⟨weekDay_next valid small, by decide, ?_, rtcLeap_iff (Nat.le_of_lt small)⟩
  obtain ⟨n, reached⟩ := reached_all valid (Nat.zero_le date.year)
  refine ⟨n, reached, ?_⟩
  rw [← reached]
  exact weekDay_after n (by rw [reached]; exact small)

/-- After 2024-02-29 comes a Friday. -/
theorem leap_day_friday : weekDay (next rtcLeap ⟨24, 2, 29⟩) = 5 := by
  rw [(weekday_agrees ⟨24, 2, 29⟩ ⟨by decide, by decide⟩ (by decide)).1]
  decide

end KyokaMirror.Rtc
