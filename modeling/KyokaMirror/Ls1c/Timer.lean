import KyokaMirror.Ls1c.Clock

set_option autoImplicit false

namespace KyokaMirror.Ls1c

def ls1cPwmCntr : Nat := 0x0
def ls1cPwmHrc : Nat := 0x4
def ls1cPwmLrc : Nat := 0x8
def ls1cPwmCtrl : Nat := 0xC

def ls1cRegBasePwm0 : Nat := 0xbfe5c000
def ls1cRegBasePwm1 : Nat := 0xbfe5c010
def ls1cRegBasePwm2 : Nat := 0xbfe5c020
def ls1cRegBasePwm3 : Nat := 0xbfe5c030

def ls1cPwmIntLrcEn : Nat := 11
def ls1cPwmInten : Nat := 5
def ls1cPwmSingle : Nat := 4
def ls1cPwmOe : Nat := 3
def ls1cPwmCntEn : Nat := 0

def timerCounterMax : BitVec 32 := 0xffffff

/-- `ls1c_timer_t`. -/
inductive Ls1cTimer where
  | pwm0 | pwm1 | pwm2 | pwm3
  deriving DecidableEq, Repr

def timerGetRegBase : Ls1cTimer → Nat
  | .pwm0 => ls1cRegBasePwm0
  | .pwm1 => ls1cRegBasePwm1
  | .pwm2 => ls1cRegBasePwm2
  | .pwm3 => ls1cRegBasePwm3

/-- `timer_info_t`, with the fields that are read here. -/
structure TimerInfo where
  timer : Ls1cTimer
  timeNs : BitVec 32
  deriving DecidableEq, Repr

def timerCtrl : BitVec 32 :=
  1 <<< ls1cPwmIntLrcEn ||| 1 <<< ls1cPwmInten ||| 1 <<< ls1cPwmSingle ||| 1 <<< ls1cPwmOe |||
    1 <<< ls1cPwmCntEn

/-- `timerClk` is what `clk_get_apb_rate` returns. The value written to LRC is
the one before `tmp--`. -/
def timerInit (timerClk : BitVec 32) (timerInfo : TimerInfo) (regs : Registers) : Registers :=
  let tmp := timerClk / 1000000 * (timerInfo.timeNs / 1000)
  let tmp := if tmp > timerCounterMax then timerCounterMax else tmp
  let base := timerGetRegBase timerInfo.timer
  let regs := regWrite32 regs 0 (base + ls1cPwmHrc)
  let regs := regWrite32 regs tmp (base + ls1cPwmLrc)
  let regs := regWrite32 regs 0 (base + ls1cPwmCntr)
  regWrite32 regs timerCtrl (base + ls1cPwmCtrl)

def timerGetTimeNs (timerClk : BitVec 32) (timerInfo : TimerInfo) (regs : Registers) :
    Option (BitVec 32) :=
  let cntr := regRead32 regs (timerGetRegBase timerInfo.timer + ls1cPwmCntr)
  divided (cntr * 1000) (timerClk / 1000000)

/-- A rate of `f` MHz. -/
def megahertz (f : Nat) : BitVec 32 := BitVec.ofNat 32 (f * 1000000)

def loadedValue (f : Nat) (timerInfo : TimerInfo) : Nat :=
  min (f * (timerInfo.timeNs.toNat / 1000)) 0xffffff

/-- The time that is reported when the counter of a timer at `f` MHz stands at
`c`. -/
def reported (f : Nat) (timerInfo : TimerInfo) (regs : Registers) (c : Nat) : Option Nat :=
  let started := timerInit (megahertz f) timerInfo regs
  let counted := regWrite32 started (BitVec.ofNat 32 c)
    (timerGetRegBase timerInfo.timer + ls1cPwmCntr)
  (timerGetTimeNs (megahertz f) timerInfo counted).map BitVec.toNat

/-- What a timer at `f` MHz is to do: LRC is the time asked for, and up to there
the elapsed time is exact and does not decrease. -/
structure TimesRight (f : Nat) (timerInfo : TimerInfo) (regs : Registers) : Prop where
  loaded : (timerInit (megahertz f) timerInfo regs
    (timerGetRegBase timerInfo.timer + ls1cPwmLrc)).toNat = loadedValue f timerInfo
  elapsed : ∀ c ≤ loadedValue f timerInfo, reported f timerInfo regs c = some (1000 * c / f)
  forward : ∀ c d, c ≤ d → d ≤ loadedValue f timerInfo →
    ∀ before ∈ reported f timerInfo regs c, ∀ later ∈ reported f timerInfo regs d, before ≤ later

section

variable {f : Nat} (least : 1 ≤ f) (most : f ≤ 400) (timerInfo : TimerInfo) (regs : Registers)
include most

theorem toNat_megahertz : (megahertz f / 1000000).toNat = f := by
  have million : (1000000 : BitVec 32).toNat = 1000000 := rfl
  rw [BitVec.toNat_udiv, megahertz, BitVec.toNat_ofNat, million]
  omega

/-- The product for LRC does not wrap. -/
theorem toNat_loaded :
    (timerInit (megahertz f) timerInfo regs
      (timerGetRegBase timerInfo.timer + ls1cPwmLrc)).toNat = loadedValue f timerInfo := by
  have clock := toNat_megahertz most
  have time : (timerInfo.timeNs / 1000).toNat = timerInfo.timeNs.toNat / 1000 := BitVec.toNat_udiv
  have word := timerInfo.timeNs.isLt
  have product : (megahertz f / 1000000 * (timerInfo.timeNs / 1000)).toNat =
      f * (timerInfo.timeNs.toNat / 1000) := by
    rw [BitVec.toNat_mul, clock, time]
    apply Nat.mod_eq_of_lt
    calc f * (timerInfo.timeNs.toNat / 1000)
        ≤ 400 * (timerInfo.timeNs.toNat / 1000) := Nat.mul_le_mul_right _ most
      _ < 2 ^ 32 := by omega
  have counter : timerCounterMax.toNat = 0xffffff := rfl
  have written : timerInit (megahertz f) timerInfo regs
      (timerGetRegBase timerInfo.timer + ls1cPwmLrc) =
      if megahertz f / 1000000 * (timerInfo.timeNs / 1000) > timerCounterMax then timerCounterMax
      else megahertz f / 1000000 * (timerInfo.timeNs / 1000) := by
    simp [timerInit, regWrite32, ls1cPwmLrc, ls1cPwmCntr, ls1cPwmCtrl]
  rw [written, loadedValue]
  split
  next large =>
    have above := BitVec.lt_def.mp large
    omega
  next small =>
    have below := BitVec.le_def.mp (BitVec.not_lt.mp small)
    omega

include least

/-- The product for the time wraps from the count 4294968 on. -/
theorem reported_eq (c : Nat) :
    reported f timerInfo regs c = some (c * 1000 % 2 ^ 32 / f) := by
  have clock := toNat_megahertz most
  have thousand : (1000 : BitVec 32).toNat = 1000 := rfl
  have nonzero : megahertz f / 1000000 ≠ 0 := by
    intro zero
    rw [zero] at clock
    exact absurd clock.symm (Nat.ne_of_gt least)
  simp only [reported, timerGetTimeNs, regRead32, regWrite32, ↓reduceIte, divided,
    if_neg nonzero, Option.map_some, BitVec.toNat_udiv, BitVec.toNat_mul, BitVec.toNat_ofNat,
    clock, thousand, Nat.mod_mul_mod]

end

/-- A timer is right exactly if the count asked for is at most 4294967. -/
theorem times_right_iff {f : Nat} (least : 1 ≤ f) (most : f ≤ 400) (timerInfo : TimerInfo)
    (regs : Registers) :
    TimesRight f timerInfo regs ↔ f * (timerInfo.timeNs.toNat / 1000) ≤ 4294967 := by
  constructor
  · intro right
    by_contra more
    have reached : 4294968 ≤ loadedValue f timerInfo := by
      rw [loadedValue]
      omega
    have wrong := right.elapsed 4294968 reached
    rw [reported_eq least most timerInfo regs] at wrong
    have same := Option.some.inj wrong
    -- 704 ns are reported where at least 10 ms have passed.
    have low : 4294968 * 1000 % 2 ^ 32 / f ≤ 704 := Nat.div_le_self 704 f
    have high : 1000 * 4294968 / 400 ≤ 1000 * 4294968 / f := Nat.div_le_div_left most least
    omega
  · intro few
    have bound : loadedValue f timerInfo ≤ 4294967 := (Nat.min_le_left _ _).trans few
    have elapsed : ∀ c ≤ loadedValue f timerInfo,
        reported f timerInfo regs c = some (1000 * c / f) := by
      intro c inside
      rw [reported_eq least most timerInfo regs, Nat.mod_eq_of_lt (by omega),
        Nat.mul_comm]
    refine ⟨toNat_loaded most timerInfo regs, elapsed, ?_⟩
    intro c d order inside before first later second
    rw [elapsed c (order.trans inside), Option.mem_some_iff] at first
    rw [elapsed d inside, Option.mem_some_iff] at second
    rw [← first, ← second]
    exact Nat.div_le_div_right (Nat.mul_le_mul_left 1000 order)

/-- Ten milliseconds at 126 MHz. -/
theorem short_time_right : TimesRight 126 ⟨.pwm0, 10000000⟩ (fun _ => 0) :=
  (times_right_iff (by decide) (by decide) _ _).mpr (by decide)

/-- Fifty milliseconds at 126 MHz. -/
theorem long_time_wraps : ¬TimesRight 126 ⟨.pwm0, 50000000⟩ (fun _ => 0) := by
  intro right
  exact absurd (right.elapsed 4294968 (by decide)) (by decide)

end KyokaMirror.Ls1c
