import KyokaMirror.Ls1c.Timer
import Mathlib.Algebra.Order.Floor.Semifield
import Mathlib.Data.Rat.Floor

set_option autoImplicit false

namespace KyokaMirror.Ls1c

def pwmMaxPeriod : Nat := 0xFFFFFF

inductive PwmMode where
  | normal
  | pulse
  deriving DecidableEq, Repr

/-- `pwm_info_t`, with an exact duty. -/
structure PwmInfo where
  gpio : Nat
  mode : PwmMode
  duty : ℚ
  periodNs : BitVec 32
  deriving DecidableEq

def pwmGetRegBase (gpio : Nat) : Nat :=
  match gpio with
  | 6 | 4 => ls1cRegBasePwm0
  | 92 | 5 => ls1cRegBasePwm1
  | 52 | 46 => ls1cRegBasePwm2
  | 47 | 53 => ls1cRegBasePwm3
  | _ => 0

def pwmDisable (pwmInfo : PwmInfo) (regs : Registers) : Registers :=
  regWrite32 regs 0 (pwmGetRegBase pwmInfo.gpio + ls1cPwmCtrl)

def pwmEnable (pwmInfo : PwmInfo) (regs : Registers) : Registers :=
  let base := pwmGetRegBase pwmInfo.gpio
  let regs := regWrite32 regs 0 (base + ls1cPwmCntr)
  let ctrl : BitVec 32 := 1 <<< ls1cPwmCntEn
  let ctrl := match pwmInfo.mode with
    | .pulse => ctrl ||| 1#32 <<< ls1cPwmSingle
    | .normal => ctrl &&& ~~~(1#32 <<< ls1cPwmSingle)
  regWrite32 regs ctrl (base + ls1cPwmCtrl)

def pwmSetRemap (regs : Registers) (gpio : Nat) : Registers :=
  match gpio with
  | 4 | 5 => pinSetRemap regs gpio .third
  | 52 | 46 | 47 | 53 => pinSetRemap regs gpio .fourth
  | _ => regs

/-- The first assignment to `period`. No rate of the bus takes it beyond a word. -/
def pwmTicks (pwmClk periodNs : BitVec 32) : Nat :=
  ⌊(1 * (pwmClk.toNat : ℚ) * periodNs.toNat) / 1000000000⌋₊

def pwmPeriod (pwmClk periodNs : BitVec 32) : Nat :=
  let period := pwmTicks pwmClk periodNs
  if period > pwmMaxPeriod then pwmMaxPeriod else period

/-- The assignment to `tmp`. -/
def pwmLow (pwmClk : BitVec 32) (pwmInfo : PwmInfo) : Nat :=
  let period := pwmPeriod pwmClk pwmInfo.periodNs
  ⌊(period : ℚ) - period * pwmInfo.duty⌋₊

/-- `pwmClk` is what `clk_get_apb_rate` returns. Both values are decremented as
words when they are written. -/
def pwmInit (pwmClk : BitVec 32) (pwmInfo : PwmInfo) (regs : Registers) : Registers :=
  let gpio := pwmInfo.gpio
  let regs := pinSetPurpose regs gpio .other
  let regs := pwmSetRemap regs gpio
  let base := pwmGetRegBase gpio
  let tmp := BitVec.ofNat 32 (pwmLow pwmClk pwmInfo)
  let regs := regWrite32 regs (tmp - 1) (base + ls1cPwmHrc)
  let period := BitVec.ofNat 32 (pwmPeriod pwmClk pwmInfo.periodNs)
  let regs := regWrite32 regs (period - 1) (base + ls1cPwmLrc)
  pwmEnable pwmInfo regs

/-- `struct rt_pwm_configuration`, in ns. -/
structure PwmConfiguration where
  channel : Nat
  period : BitVec 32
  pulse : BitVec 32
  deriving DecidableEq, Repr

/-- For a channel that the switch does not know, `gpio` keeps what the stack
held. -/
def channelGpio (stack channel : Nat) : Nat :=
  match channel with
  | 0 => 6
  | 1 => 92
  | 2 => 52
  | 3 => 47
  | _ => stack

/-- The `pwm_info` that both commands fill. The period is not 0. -/
def configuredInfo (stack : Nat) (configuration : PwmConfiguration) : PwmInfo where
  gpio := channelGpio stack configuration.channel
  mode := .normal
  duty := (configuration.pulse.toNat : ℚ) / configuration.period.toNat
  periodNs := configuration.period

structure PwmDevice where
  period : Nat → BitVec 32
  pulse : Nat → BitVec 32

inductive PwmCmd where
  | enable | disable | set | get
  deriving DecidableEq, Repr

def pwmChannelMax : Nat := 4

def rtEok : Int := 0
def rtEio : Int := 8

def setChannel (device : PwmDevice) (configuration : PwmConfiguration) : Int × PwmDevice :=
  if configuration.channel > pwmChannelMax - 1 then (-rtEio, device)
  else (rtEok,
    { period := Function.update device.period configuration.channel configuration.period
      pulse := Function.update device.pulse configuration.channel configuration.pulse })

def getChannel (device : PwmDevice) (configuration : PwmConfiguration) :
    Int × PwmConfiguration :=
  if configuration.channel > pwmChannelMax - 1 then (-rtEio, configuration)
  else (rtEok,
    { configuration with
      period := device.period configuration.channel
      pulse := device.pulse configuration.channel })

/-- What a command returns and leaves behind. -/
structure PwmReply where
  result : Int
  device : PwmDevice
  configuration : PwmConfiguration
  regs : Registers

def control (pwmClk : BitVec 32) (stack : Nat) (device : PwmDevice) (cmd : PwmCmd)
    (configuration : PwmConfiguration) (regs : Registers) : PwmReply :=
  let pwmInfo := configuredInfo stack configuration
  match cmd with
  | .enable => ⟨rtEok, device, configuration, pwmEnable pwmInfo (pwmInit pwmClk pwmInfo regs)⟩
  | .disable => ⟨rtEok, device, configuration, pwmDisable pwmInfo (pwmInit pwmClk pwmInfo regs)⟩
  | .set =>
    let (result, device) := setChannel device configuration
    ⟨result, device, configuration, regs⟩
  | .get =>
    let (result, configuration) := getChannel device configuration
    ⟨result, device, configuration, regs⟩

def hrc (pwmInfo : PwmInfo) (regs : Registers) : Nat :=
  (regs (pwmGetRegBase pwmInfo.gpio + ls1cPwmHrc)).toNat

def lrc (pwmInfo : PwmInfo) (regs : Registers) : Nat :=
  (regs (pwmGetRegBase pwmInfo.gpio + ls1cPwmLrc)).toNat

def highTime (pwmInfo : PwmInfo) (regs : Registers) : Int :=
  (lrc pwmInfo regs : Int) - hrc pwmInfo regs

/-- What is to hold of the values that are written for a duty. -/
structure PwmRight (pwmClk : BitVec 32) (pwmInfo : PwmInfo) (regs : Registers) : Prop where
  ordered : hrc pwmInfo (pwmInit pwmClk pwmInfo regs) ≤ lrc pwmInfo (pwmInit pwmClk pwmInfo regs)
  fits : lrc pwmInfo (pwmInit pwmClk pwmInfo regs) < 2 ^ 24
  clamped : lrc pwmInfo (pwmInit pwmClk pwmInfo regs) + 1 =
    max 1 (min (pwmClk.toNat * pwmInfo.periodNs.toNat / 1000000000) 0xFFFFFF)
  monotone : ∀ lower : ℚ, 0 ≤ lower → lower ≤ pwmInfo.duty →
    highTime pwmInfo (pwmInit pwmClk { pwmInfo with duty := lower } regs) ≤
      highTime pwmInfo (pwmInit pwmClk pwmInfo regs)

theorem pwmTicks_eq (pwmClk periodNs : BitVec 32) :
    pwmTicks pwmClk periodNs = pwmClk.toNat * periodNs.toNat / 1000000000 := by
  rw [pwmTicks, one_mul, ← Nat.cast_mul]
  exact Nat.floor_div_eq_div _ 1000000000

theorem pwmPeriod_eq (pwmClk periodNs : BitVec 32) :
    pwmPeriod pwmClk periodNs =
      min (pwmClk.toNat * periodNs.toNat / 1000000000) 0xFFFFFF := by
  rw [pwmPeriod, pwmTicks_eq, pwmMaxPeriod]
  split
  · omega
  · omega

/-- A rate of the bus keeps the ticks of every period within a word. -/
theorem pwmTicks_lt {regs : Registers} {pwmClk : BitVec 32}
    (returned : clkGetApbRate regs = some pwmClk) (periodNs : BitVec 32) :
    pwmTicks pwmClk periodNs < 2 ^ 32 := by
  have slow := clkGetApbRate_lt returned
  have word := periodNs.isLt
  have product : pwmClk.toNat * periodNs.toNat ≤ 2 ^ 29 * 2 ^ 32 :=
    Nat.mul_le_mul (Nat.le_of_lt slow) (Nat.le_of_lt word)
  rw [pwmTicks_eq]
  omega

/-- A decrement wraps at 0. -/
theorem toNat_decremented {n : Nat} (word : n < 2 ^ 32) :
    (BitVec.ofNat 32 n - 1).toNat = if n = 0 then 2 ^ 32 - 1 else n - 1 := by
  split
  next zero =>
    rw [zero]
    rfl
  next positive =>
    have one : (1 : BitVec 32).toNat = 1 := rfl
    have value : (BitVec.ofNat 32 n).toNat = n := Nat.mod_eq_of_lt word
    rw [BitVec.toNat_sub_of_le (by rw [BitVec.le_def, value, one]; omega), value, one]

section

variable (pwmClk : BitVec 32) (pwmInfo : PwmInfo) (regs : Registers)

theorem pwmPeriod_le : pwmPeriod pwmClk pwmInfo.periodNs ≤ 0xFFFFFF := by
  rw [pwmPeriod_eq]
  exact Nat.min_le_right _ _

theorem pwmLow_le (nonneg : 0 ≤ pwmInfo.duty) :
    pwmLow pwmClk pwmInfo ≤ pwmPeriod pwmClk pwmInfo.periodNs := by
  have whole : (pwmPeriod pwmClk pwmInfo.periodNs : ℚ) -
      pwmPeriod pwmClk pwmInfo.periodNs * pwmInfo.duty ≤
      pwmPeriod pwmClk pwmInfo.periodNs :=
    sub_le_self _ (mul_nonneg (Nat.cast_nonneg _) nonneg)
  exact (Nat.floor_le_floor whole).trans_eq (Nat.floor_natCast _)

/-- A lower duty leaves the output low for longer. -/
theorem pwmLow_antitone {lower : ℚ} (order : lower ≤ pwmInfo.duty) :
    pwmLow pwmClk pwmInfo ≤ pwmLow pwmClk { pwmInfo with duty := lower } := by
  apply Nat.floor_le_floor
  exact sub_le_sub_left (mul_le_mul_of_nonneg_left order (Nat.cast_nonneg _)) _

theorem hrc_pwmInit (nonneg : 0 ≤ pwmInfo.duty) :
    hrc pwmInfo (pwmInit pwmClk pwmInfo regs) =
      if pwmLow pwmClk pwmInfo = 0 then 2 ^ 32 - 1 else pwmLow pwmClk pwmInfo - 1 := by
  have period := pwmPeriod_le pwmClk pwmInfo
  have low := pwmLow_le pwmClk pwmInfo nonneg
  rw [← toNat_decremented (by omega)]
  simp [hrc, pwmInit, pwmEnable, regWrite32, ls1cPwmHrc, ls1cPwmLrc, ls1cPwmCntr, ls1cPwmCtrl]

theorem lrc_pwmInit (duty : ℚ) :
    lrc pwmInfo (pwmInit pwmClk { pwmInfo with duty := duty } regs) =
      if pwmPeriod pwmClk pwmInfo.periodNs = 0 then 2 ^ 32 - 1
      else pwmPeriod pwmClk pwmInfo.periodNs - 1 := by
  have period := pwmPeriod_le pwmClk pwmInfo
  rw [← toNat_decremented (by omega)]
  simp [lrc, pwmInit, pwmEnable, regWrite32, ls1cPwmLrc, ls1cPwmCntr, ls1cPwmCtrl]

/-- A duty that leaves less than a tick low wraps HRC. -/
theorem pwmLow_pos_iff :
    0 < pwmLow pwmClk pwmInfo ↔
      1 ≤ (pwmPeriod pwmClk pwmInfo.periodNs : ℚ) * (1 - pwmInfo.duty) := by
  rw [pwmLow, mul_sub, mul_one]
  exact Nat.floor_pos

end

/-- The values are right exactly if the output stays low for a tick at least. -/
theorem pwm_right_iff (pwmClk : BitVec 32) (pwmInfo : PwmInfo) (regs : Registers)
    (between : pwmInfo.duty ∈ Set.Icc 0 1) :
    PwmRight pwmClk pwmInfo regs ↔
      1 ≤ ((min (pwmClk.toNat * pwmInfo.periodNs.toNat / 1000000000) 0xFFFFFF : Nat) : ℚ) *
        (1 - pwmInfo.duty) := by
  have period := pwmPeriod_le pwmClk pwmInfo
  have low := pwmLow_le pwmClk pwmInfo between.1
  have lrcEq := lrc_pwmInit pwmClk pwmInfo regs
  have hrcEq := hrc_pwmInit pwmClk pwmInfo regs between.1
  rw [← pwmPeriod_eq, ← pwmLow_pos_iff]
  constructor
  · intro right
    by_contra none
    have ordered := right.ordered
    have fits := right.fits
    rw [hrcEq, if_pos (by omega)] at ordered
    omega
  · intro some
    have same : lrc pwmInfo (pwmInit pwmClk pwmInfo regs) =
        pwmPeriod pwmClk pwmInfo.periodNs - 1 :=
      (lrcEq pwmInfo.duty).trans (if_neg (by omega))
    rw [if_neg (by omega)] at hrcEq
    refine ⟨by omega, by omega, ?_, ?_⟩
    · rw [← pwmPeriod_eq]
      omega
    · intro lower least order
      have longer := pwmLow_antitone pwmClk pwmInfo order
      have other := hrc_pwmInit pwmClk { pwmInfo with duty := lower } regs least
      have unchanged := lrcEq lower
      rw [if_neg (by omega)] at other unchanged
      rw [highTime, highTime]
      change (lrc pwmInfo _ : Int) - hrc { pwmInfo with duty := lower } _ ≤ _
      omega

/-- A quarter of a millisecond, at 126 MHz. -/
theorem quarter_right :
    PwmRight (megahertz 126) ⟨6, .normal, 1 / 4, 1000000⟩ (fun _ => 0) := by
  apply (pwm_right_iff _ _ _ _).mpr
  · have ticks : min ((megahertz 126).toNat * (1000000 : BitVec 32).toNat / 1000000000) 0xFFFFFF =
        126000 := rfl
    rw [ticks]
    norm_num
  · constructor
    · norm_num
    · norm_num

/-- A pulse as long as its period. -/
theorem full_duty_wraps : ¬PwmRight (megahertz 126) ⟨6, .normal, 1, 1000000⟩ (fun _ => 0) := by
  intro right
  have ordered := right.ordered
  have fits := right.fits
  rw [hrc_pwmInit _ _ _ (by norm_num), if_pos (by simp [pwmLow])] at ordered
  omega

end KyokaMirror.Ls1c
