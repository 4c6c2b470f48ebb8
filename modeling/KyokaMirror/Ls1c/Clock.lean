import KyokaMirror.Library.Word
import KyokaMirror.Ls1c.Pin

set_option autoImplicit false

namespace KyokaMirror.Ls1c

open Library.Word

/-- The addresses that `gs232.h` calls `PLL_FREQ` and `PLL_DIV_PARAM`. -/
def ls1cStartFreq : Nat := 0xbfe78030
def ls1cClkDivParam : Nat := 0xbfe78034

def regRead32 (regs : Registers) (addr : Nat) : BitVec 32 := regs addr

def regWrite32 (regs : Registers) (data : BitVec 32) (addr : Nat) : Registers :=
  fun a => if a = addr then data else regs a

/-- The frequency of the crystal. -/
def apbClk : BitVec 32 := 24000000

def mPllShift : Nat := 8
def mPll : BitVec 32 := 0xff <<< mPllShift
def fracNShift : Nat := 16
def fracN : BitVec 32 := 0xff <<< fracNShift
def divSdram : BitVec 32 := 0x3

def divPixShift : Nat := 24
def divPix : BitVec 32 := 0x7f <<< divPixShift
def divCpuEn : BitVec 32 := 0x1 <<< 15
def divCpuShift : Nat := 8
def divCpu : BitVec 32 := 0x7f <<< divCpuShift
def divCpuSel : BitVec 32 := 0x1 <<< 0

/-- A division by zero traps. -/
def divided (rate divider : BitVec 32) : Option (BitVec 32) :=
  if divider = 0 then none else some (rate / divider)

/-- The fraction is added to the multiplier as it stands in the register. -/
def clkGetPllRate (regs : Registers) : BitVec 32 :=
  let ctrl := regRead32 regs ls1cStartFreq
  ((ctrl &&& mPll) >>> mPllShift + (ctrl &&& fracN) >>> fracNShift) * apbClk / 4

def clkGetCpuRate (regs : Registers) : Option (BitVec 32) :=
  let pllRate := clkGetPllRate regs
  let ctrl := regRead32 regs ls1cClkDivParam
  if divCpuSel &&& ctrl ≠ 0 then
    if divCpuEn &&& ctrl ≠ 0 then divided pllRate ((ctrl &&& divCpu) >>> divCpuShift)
    else some (pllRate / 2)
  else some apbClk

def clkGetDdrRate (regs : Registers) : Option (BitVec 32) :=
  (clkGetCpuRate regs).map fun cpuRate =>
    let ctrl := regRead32 regs ls1cStartFreq &&& divSdram
    if ctrl = 0 then cpuRate / 2 else if ctrl = 1 then cpuRate / 4 else cpuRate / 3

def clkGetApbRate (regs : Registers) : Option (BitVec 32) := clkGetDdrRate regs

def clkGetDcRate (regs : Registers) : Option (BitVec 32) :=
  let pllRate := clkGetPllRate regs
  let ctrl := regRead32 regs ls1cClkDivParam
  divided pllRate ((ctrl &&& divPix) >>> divPixShift)

/-- `M_PLL` and `FRAC_N` as numbers. -/
def multiplier (regs : Registers) : Nat := (regs ls1cStartFreq).toNat / 2 ^ 8 % 2 ^ 8
def fraction (regs : Registers) : Nat := (regs ls1cStartFreq).toNat / 2 ^ 16 % 2 ^ 8

/-- The rate is that of the sum, unless the product wraps. -/
theorem toNat_clkGetPllRate (regs : Registers) :
    (clkGetPllRate regs).toNat =
      (multiplier regs + fraction regs) * 24000000 % 2 ^ 32 / 4 := by
  have whole : ((regs ls1cStartFreq &&& mPll) >>> mPllShift).toNat = multiplier regs :=
    toNat_masked _ 8 (by decide)
  have part : ((regs ls1cStartFreq &&& fracN) >>> fracNShift).toNat = fraction regs :=
    toNat_masked _ 16 (by decide)
  have crystal : apbClk.toNat = 24000000 := rfl
  have four : (4 : BitVec 32).toNat = 4 := rfl
  rw [clkGetPllRate, regRead32, BitVec.toNat_udiv, BitVec.toNat_mul, BitVec.toNat_add, whole, part,
    crystal, four, Nat.mod_mul_mod]

theorem clkGetPllRate_lt (regs : Registers) : (clkGetPllRate regs).toNat < 2 ^ 30 := by
  rw [toNat_clkGetPllRate]
  omega

theorem divided_le {rate divider quotient : BitVec 32}
    (returned : divided rate divider = some quotient) : quotient.toNat ≤ rate.toNat := by
  unfold divided at returned
  split at returned
  · cases returned
  · cases returned
    rw [BitVec.toNat_udiv]
    exact Nat.div_le_self _ _

theorem clkGetCpuRate_lt {regs : Registers} {rate : BitVec 32}
    (returned : clkGetCpuRate regs = some rate) : rate.toNat < 2 ^ 30 := by
  have pll := clkGetPllRate_lt regs
  unfold clkGetCpuRate at returned
  dsimp only at returned
  split at returned
  · split at returned
    · exact Nat.lt_of_le_of_lt (divided_le returned) pll
    · cases returned
      rw [BitVec.toNat_udiv]
      exact Nat.lt_of_le_of_lt (Nat.div_le_self _ _) pll
  · cases returned
    decide

/-- No rate of the bus reaches 2^29 Hz. -/
theorem clkGetApbRate_lt {regs : Registers} {rate : BitVec 32}
    (returned : clkGetApbRate regs = some rate) : rate.toNat < 2 ^ 29 := by
  rw [clkGetApbRate, clkGetDdrRate, Option.map_eq_some_iff] at returned
  obtain ⟨cpuRate, cpu, rfl⟩ := returned
  have bound := clkGetCpuRate_lt cpu
  have two : (cpuRate / 2).toNat = cpuRate.toNat / 2 := BitVec.toNat_udiv
  have three : (cpuRate / 3).toNat = cpuRate.toNat / 3 := BitVec.toNat_udiv
  have four : (cpuRate / 4).toNat = cpuRate.toNat / 4 := BitVec.toNat_udiv
  dsimp only
  split
  · omega
  · split
    · omega
    · omega

end KyokaMirror.Ls1c
