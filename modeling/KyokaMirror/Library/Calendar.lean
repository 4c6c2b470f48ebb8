import Mathlib.Data.Nat.Basic
import Mathlib.Logic.Function.Iterate
import Mathlib.Tactic.IntervalCases
import Mathlib.Tactic.SplitIfs

set_option autoImplicit false

namespace Library.Calendar

/-- A date; months and days count from 1. -/
@[ext]
structure Date where
  year : Nat
  month : Nat
  day : Nat
  deriving DecidableEq, Repr

variable (leap : Nat → Bool)

/-- The days of a month, for a rule that says which years have a leap day. -/
def monthLength (year month : Nat) : Nat :=
  match month with
  | 1 | 3 | 5 | 7 | 8 | 10 | 12 => 31
  | 4 | 6 | 9 | 11 => 30
  | 2 => if leap year then 29 else 28
  | _ => 0

structure Date.Valid (date : Date) : Prop where
  month : 1 ≤ date.month ∧ date.month ≤ 12
  day : 1 ≤ date.day ∧ date.day ≤ monthLength leap date.year date.month

/-- The day after. -/
def next (date : Date) : Date :=
  if date.day < monthLength leap date.year date.month then { date with day := date.day + 1 }
  else if date.month < 12 then ⟨date.year, date.month + 1, 1⟩
  else ⟨date.year + 1, 1, 1⟩

/-- The date `n` days after the first one. -/
def after (first : Date) (n : Nat) : Date := (next leap)^[n] first

variable {leap}

theorem monthLength_pos {year month : Nat} (lower : 1 ≤ month) (upper : month ≤ 12) :
    1 ≤ monthLength leap year month := by
  interval_cases month
  case «2» =>
    rw [monthLength]
    split <;> decide
  all_goals exact Nat.le_of_ble_eq_true rfl

theorem monthLength_le (year month : Nat) : monthLength leap year month ≤ 31 := by
  unfold monthLength
  split
  case h_12 => split <;> decide
  all_goals decide

theorem after_succ (first : Date) (n : Nat) :
    after leap first (n + 1) = next leap (after leap first n) :=
  Function.iterate_succ_apply' (next leap) n first

theorem next_same_month {year month day : Nat} (inside : day < monthLength leap year month) :
    next leap ⟨year, month, day⟩ = ⟨year, month, day + 1⟩ := if_pos inside

theorem next_month {year month : Nat} (inside : month < 12) :
    next leap ⟨year, month, monthLength leap year month⟩ = ⟨year, month + 1, 1⟩ := by
  rw [next, if_neg (Nat.lt_irrefl _), if_pos inside]

theorem next_year (year : Nat) :
    next leap ⟨year, 12, monthLength leap year 12⟩ = ⟨year + 1, 1, 1⟩ := by
  rw [next, if_neg (Nat.lt_irrefl _), if_neg (Nat.lt_irrefl 12)]

theorem year_le_next (date : Date) : date.year ≤ (next leap date).year := by
  unfold next
  split_ifs
  · exact Nat.le_refl _
  · exact Nat.le_refl _
  · exact Nat.le_succ _

theorem year_next_le (date : Date) : (next leap date).year ≤ date.year + 1 := by
  unfold next
  split_ifs
  · exact Nat.le_succ _
  · exact Nat.le_succ _
  · exact Nat.le_refl _

theorem Date.Valid.next {date : Date} (valid : date.Valid leap) :
    (Calendar.next leap date).Valid leap := by
  have month := valid.month
  unfold Calendar.next
  split_ifs with inside early
  · exact ⟨month, Nat.le_add_left 1 _, inside⟩
  · have upper : date.month + 1 ≤ 12 := early
    exact ⟨⟨Nat.le_add_left 1 _, upper⟩, Nat.le_refl 1, monthLength_pos (Nat.le_add_left 1 _) upper⟩
  · have early : 1 ≤ 12 := by decide
    exact ⟨⟨Nat.le_refl 1, early⟩, Nat.le_refl 1, monthLength_pos (Nat.le_refl 1) early⟩

theorem valid_after {first : Date} (valid : first.Valid leap) (n : Nat) :
    (after leap first n).Valid leap := by
  induction n with
  | zero => exact valid
  | succ n ih =>
      rw [after_succ]
      exact ih.next

section

variable {first : Date}

theorem reached_next {date : Date} (reached : ∃ n, after leap first n = date) :
    ∃ n, after leap first n = next leap date := by
  obtain ⟨n, here⟩ := reached
  exact ⟨n + 1, by rw [after_succ, here]⟩

theorem reached_day {year month : Nat} (reached : ∃ n, after leap first n = ⟨year, month, 1⟩)
    (day : Nat) (inside : day + 1 ≤ monthLength leap year month) :
    ∃ n, after leap first n = ⟨year, month, day + 1⟩ := by
  induction day with
  | zero => exact reached
  | succ day ih =>
      rw [← next_same_month inside]
      exact reached_next (ih (by omega))

theorem reached_month {year : Nat} (reached : ∃ n, after leap first n = ⟨year, 1, 1⟩)
    (month : Nat) (inside : month + 1 ≤ 12) :
    ∃ n, after leap first n = ⟨year, month + 1, 1⟩ := by
  induction month with
  | zero => exact reached
  | succ month ih =>
      have length : 1 ≤ monthLength leap year (month + 1) :=
        monthLength_pos (Nat.le_add_left 1 _) (by omega)
      have last := reached_day (ih (by omega)) (monthLength leap year (month + 1) - 1) (by omega)
      rw [Nat.sub_add_cancel length] at last
      have step : next leap ⟨year, month + 1, monthLength leap year (month + 1)⟩ =
          ⟨year, month + 2, 1⟩ := next_month (by omega)
      rw [← step]
      exact reached_next last

end

theorem reached_year (year k : Nat) : ∃ n, after leap ⟨year, 1, 1⟩ n = ⟨year + k, 1, 1⟩ := by
  induction k with
  | zero => exact ⟨0, rfl⟩
  | succ k ih =>
      have december := reached_month ih 11 (by decide)
      have last := reached_day december 30 (Nat.le_refl 31)
      have step : next leap ⟨year + k, 12, 31⟩ = ⟨year + (k + 1), 1, 1⟩ := next_year (year + k)
      rw [← step]
      exact reached_next last

/-- Each valid date from the first of a January on comes after some days. -/
theorem reached_all {date : Date} (valid : date.Valid leap) {year : Nat} (later : year ≤ date.year) :
    ∃ n, after leap ⟨year, 1, 1⟩ n = date := by
  obtain ⟨y, m, d⟩ := date
  obtain ⟨⟨lower, upper⟩, first, last⟩ := valid
  obtain ⟨k, rfl⟩ := Nat.exists_eq_add_of_le later
  obtain ⟨month, rfl⟩ := Nat.exists_eq_add_of_le' lower
  obtain ⟨day, rfl⟩ := Nat.exists_eq_add_of_le' first
  exact reached_day (reached_month (reached_year year k) month upper) day last

/-- The years with a leap day. -/
def Gregorian (year : Nat) : Prop := year % 4 = 0 ∧ (year % 100 ≠ 0 ∨ year % 400 = 0)

instance (year : Nat) : Decidable (Gregorian year) := inferInstanceAs (Decidable (_ ∧ _))

/-- The number of leap years up to a year. -/
def leapYears (year : Nat) : Nat := year / 4 - year / 100 + year / 400

/-- Years by 100 count against those by 4, and those by 400 for them. -/
theorem gregorian_balance (year : Nat) :
    (if Gregorian year then 1 else 0) + (if year % 100 = 0 then 1 else 0) =
      (if year % 4 = 0 then 1 else 0) + if year % 400 = 0 then 1 else 0 := by
  by_cases fourHundred : year % 400 = 0
  · have hundred : year % 100 = 0 := by omega
    have four : year % 4 = 0 := by omega
    simp [Gregorian, fourHundred, hundred, four]
  · by_cases hundred : year % 100 = 0
    · have four : year % 4 = 0 := by omega
      simp [Gregorian, fourHundred, hundred, four]
    · simp [Gregorian, fourHundred, hundred]

theorem leapYears_succ (year : Nat) :
    leapYears (year + 1) = leapYears year + if Gregorian (year + 1) then 1 else 0 := by
  have four : (year + 1) / 4 = _ := Nat.succ_div
  have hundred : (year + 1) / 100 = _ := Nat.succ_div
  have fourHundred : (year + 1) / 400 = _ := Nat.succ_div
  have fewer : year / 100 ≤ year / 4 := Nat.div_le_div_left (by decide) (by decide)
  have fewerNext : (year + 1) / 100 ≤ (year + 1) / 4 := Nat.div_le_div_left (by decide) (by decide)
  have balance := gregorian_balance (year + 1)
  simp only [Nat.dvd_iff_mod_eq_zero] at four hundred fourHundred
  rw [four, hundred] at fewerNext
  rw [leapYears, leapYears, four, hundred, fourHundred]
  clear four hundred fourHundred
  -- What is left is linear in the quotients and the four tests.
  generalize year / 4 = fours, year / 100 = hundreds, year / 400 = fourHundreds at *
  generalize (if Gregorian (year + 1) then 1 else 0) = leap at *
  omega

end Library.Calendar
