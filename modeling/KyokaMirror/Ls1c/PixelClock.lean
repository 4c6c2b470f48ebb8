import Mathlib.Tactic.IntervalCases
import KyokaMirror.Ls1c.Clock

set_option autoImplicit false

namespace KyokaMirror.Ls1c

open Library.Word

/-- `pll_clk`, from the multiplier in the register. -/
def pllClk (regs : Registers) (xin : BitVec 32) : BitVec 32 :=
  xin * (regRead32 regs ls1cStartFreq >>> 8 &&& 0xff) / 4

/-- `divider_int`, rounded and clamped. -/
def dividerInt (regs : Registers) (xin pclk : BitVec 32) : BitVec 32 :=
  let thousandths := pllClk regs xin / 1000000 * pclk / 1000
  let rounded :=
    if thousandths % 1000 ≥ 500 then thousandths / 1000 + 1 else thousandths / 1000
  if rounded < 1 then 1 else if rounded > 100 then 100 else rounded

/-- The word for `PLL_DIV_PARAM`: the three bits are cleared, then the field,
which is taken as six bits wide, and the bits are set again at last. -/
def withDivider (regval divider : BitVec 32) : BitVec 32 :=
  (regval &&& ~~~(0x80000030 : BitVec 32) &&& ~~~((0x3f : BitVec 32) <<< 24)) ||| divider <<< 24

def caclulateFreq (regs : Registers) (xin pclk : BitVec 32) : Registers :=
  let regval := withDivider (regRead32 regs ls1cClkDivParam) (dividerInt regs xin pclk)
  let cleared := regWrite32 regs regval ls1cClkDivParam
  regWrite32 cleared (regval ||| 0x80000030) ls1cClkDivParam

theorem toNat_pllClk (regs : Registers) (xin : BitVec 32) :
    (pllClk regs xin).toNat = xin.toNat * multiplier regs % 2 ^ 32 / 4 := by
  have whole : (regs ls1cStartFreq >>> 8 &&& 0xff).toNat = multiplier regs :=
    toNat_taken _ 8 (by decide)
  rw [pllClk, regRead32, BitVec.toNat_udiv, BitVec.toNat_mul, whole]
  rfl

/-- What the rate is to be: 24 MHz times the multiplier with its fraction, by
four and rounded down; the product fits a word; and `pll_clk` is the same but
for the fraction. -/
structure PllRateOk (regs : Registers) : Prop where
  rate : (clkGetPllRate regs).toNat =
    24000000 * (256 * multiplier regs + fraction regs) / 256 / 4
  product : (multiplier regs + fraction regs) * 24000000 < 2 ^ 32
  agrees : (pllClk regs 24000000).toNat ≤ (clkGetPllRate regs).toNat ∧
    (clkGetPllRate regs).toNat < (pllClk regs 24000000).toNat + 6000000

/-- The rate is right exactly if there is no fraction and the multiplier is at
most 178. -/
theorem pll_rate_iff (regs : Registers) :
    PllRateOk regs ↔ fraction regs = 0 ∧ multiplier regs ≤ 178 := by
  have rate := toNat_clkGetPllRate regs
  have other := toNat_pllClk regs 24000000
  have crystal : (24000000 : BitVec 32).toNat = 24000000 := rfl
  rw [crystal] at other
  constructor
  · intro ok
    have product := ok.product
    have exact := ok.rate
    rw [rate, Nat.mod_eq_of_lt product] at exact
    omega
  · rintro ⟨none, few⟩
    rw [none] at rate
    have product : (multiplier regs + 0) * 24000000 < 2 ^ 32 := by omega
    rw [Nat.mod_eq_of_lt product] at rate
    have fits : 24000000 * multiplier regs < 2 ^ 32 := by omega
    rw [Nat.mod_eq_of_lt fits] at other
    refine ⟨?_, ?_, ?_⟩
    · rw [rate, none]
      omega
    · rw [none]
      exact product
    · omega

/-- The multiplier 42 with a fraction of 1/256. -/
theorem fraction_counted_whole : ¬PllRateOk fun _ => 0x00012A00 := by
  intro ok
  exact absurd ok.rate (by decide)

/-- `pll_clk/10^6 * PCLK/1000`, in thousandths of the divider. -/
def thousandths (regs : Registers) (xin pclk : BitVec 32) : Nat :=
  xin.toNat * multiplier regs / 4 / 1000000 * pclk.toNat / 1000

/-- The divider that is asked for: rounded to the nearest, from 1 to 100. -/
def wantedDivider (regs : Registers) (xin pclk : BitVec 32) : Nat :=
  max 1 (min 100 ((thousandths regs xin pclk + 500) / 1000))

/-- The products stay below 2^32. -/
structure SmallProducts (regs : Registers) (xin pclk : BitVec 32) : Prop where
  pll : xin.toNat * multiplier regs < 2 ^ 32
  pixel : xin.toNat * multiplier regs / 4 / 1000000 * pclk.toNat < 2 ^ 32

theorem toNat_rounded (t : BitVec 32) :
    (if t % 1000 ≥ 500 then t / 1000 + 1 else t / 1000).toNat = (t.toNat + 500) / 1000 := by
  have rest : (t % 1000).toNat = t.toNat % 1000 := BitVec.toNat_umod
  have quotient : (t / 1000).toNat = t.toNat / 1000 := BitVec.toNat_udiv
  have half : (500 : BitVec 32).toNat = 500 := rfl
  have one : (1 : BitVec 32).toNat = 1 := rfl
  have word := t.isLt
  by_cases up : t % 1000 ≥ 500
  · have large := BitVec.le_def.mp up
    rw [if_pos up, BitVec.toNat_add_of_lt (by omega), quotient, one]
    omega
  · have small := BitVec.lt_def.mp (BitVec.not_le.mp up)
    rw [if_neg up, quotient]
    omega

theorem toNat_clamped (r : BitVec 32) :
    (if r < 1 then 1 else if r > 100 then 100 else r).toNat = max 1 (min 100 r.toNat) := by
  have one : (1 : BitVec 32).toNat = 1 := rfl
  have hundred : (100 : BitVec 32).toNat = 100 := rfl
  split
  next low =>
    have less := BitVec.lt_def.mp low
    omega
  next low =>
    have more := BitVec.le_def.mp (BitVec.not_lt.mp low)
    split
    next high =>
      have large := BitVec.lt_def.mp high
      omega
    next high =>
      have small := BitVec.le_def.mp (BitVec.not_lt.mp high)
      omega

theorem toNat_dividerInt {regs : Registers} {xin pclk : BitVec 32}
    (small : SmallProducts regs xin pclk) :
    (dividerInt regs xin pclk).toNat = wantedDivider regs xin pclk := by
  have million : (1000000 : BitVec 32).toNat = 1000000 := rfl
  have thousand : (1000 : BitVec 32).toNat = 1000 := rfl
  have quotient : (pllClk regs xin / 1000000 * pclk / 1000).toNat = thousandths regs xin pclk := by
    rw [BitVec.toNat_udiv, BitVec.toNat_mul, BitVec.toNat_udiv, toNat_pllClk,
      Nat.mod_eq_of_lt small.pll, million, thousand, Nat.mod_eq_of_lt small.pixel, thousandths]
  rw [dividerInt, toNat_clamped, toNat_rounded, quotient, wantedDivider]

theorem wantedDivider_le (regs : Registers) (xin pclk : BitVec 32) :
    wantedDivider regs xin pclk ≤ 100 := by
  rw [wantedDivider]
  omega

/-- What the clock-divider register holds at last. -/
def programmed (old divider : BitVec 32) : BitVec 32 := withDivider old divider ||| 0x80000030

theorem caclulateFreq_clkDivParam (regs : Registers) (xin pclk : BitVec 32) :
    caclulateFreq regs xin pclk ls1cClkDivParam =
      programmed (regs ls1cClkDivParam) (dividerInt regs xin pclk) := by
  simp only [caclulateFreq, regWrite32, regRead32, programmed, ↓reduceIte]

theorem caclulateFreq_startFreq (regs : Registers) (xin pclk : BitVec 32) :
    caclulateFreq regs xin pclk ls1cStartFreq = regs ls1cStartFreq := rfl

section

variable (old divider : BitVec 32)

/-- The field keeps its highest bit from before. -/
theorem programmed_field :
    (programmed old divider).extractLsb' 24 7 =
      (old.extractLsb' 30 1).setWidth 7 <<< 6 ||| divider.setWidth 7 := by
  apply BitVec.eq_of_getLsbD_eq
  intro j inside
  simp only [programmed, withDivider]
  interval_cases j <;> simp

theorem programmed_enabled :
    (programmed old divider).getLsbD 31 = true ∧ (programmed old divider).getLsbD 5 = true ∧
      (programmed old divider).getLsbD 4 = true := by
  simp [programmed]

theorem programmed_kept {j : Nat} (low : j < 24) (four : j ≠ 4) (five : j ≠ 5) :
    (programmed old divider).getLsbD j = old.getLsbD j := by
  simp only [programmed, withDivider]
  interval_cases j <;> simp_all

end

/-- The field is the divider exactly if the bit from before is clear or is one of
the divider's own. -/
theorem field_iff : ∀ (high : BitVec 1) (divider : BitVec 7),
    (high.setWidth 7 <<< 6 ||| divider).toNat = divider.toNat ↔
      high = 0#1 ∨ 64 ≤ divider.toNat := by
  decide

theorem high_bit_iff (old : BitVec 32) : old.extractLsb' 30 1 = 0#1 ↔ old.getLsbD 30 = false := by
  constructor
  · intro zero
    have bit := congrArg (BitVec.getLsbD · 0) zero
    simpa using bit
  · intro clear
    apply BitVec.eq_of_getLsbD_eq
    intro j inside
    interval_cases j
    simpa using clear

/-- What `caclulate_freq` is to reach. -/
structure PixelClockSet (regs : Registers) (xin pclk : BitVec 32) (after : Registers) : Prop where
  field : ((after ls1cClkDivParam).extractLsb' 24 7).toNat = wantedDivider regs xin pclk
  enabled : (after ls1cClkDivParam).getLsbD 31 = true ∧ (after ls1cClkDivParam).getLsbD 5 = true ∧
    (after ls1cClkDivParam).getLsbD 4 = true
  kept : ∀ j < 24, j ≠ 4 → j ≠ 5 →
    (after ls1cClkDivParam).getLsbD j = (regs ls1cClkDivParam).getLsbD j
  rate : clkGetDcRate after =
    some (clkGetPllRate regs / BitVec.ofNat 32 (wantedDivider regs xin pclk))

/-- `clk_get_dc_rate` divides by the field. -/
theorem clkGetDcRate_eq {regs after : Registers} {divider : Nat}
    (same : after ls1cStartFreq = regs ls1cStartFreq)
    (field : ((after ls1cClkDivParam).extractLsb' 24 7).toNat = divider) (positive : 0 < divider) :
    clkGetDcRate after = some (clkGetPllRate regs / BitVec.ofNat 32 divider) := by
  have pll : clkGetPllRate after = clkGetPllRate regs := by
    rw [clkGetPllRate, clkGetPllRate, regRead32, regRead32, same]
  have taken : ((after ls1cClkDivParam &&& divPix) >>> divPixShift).toNat = divider := by
    rw [← field, BitVec.extractLsb'_toNat, Nat.shiftRight_eq_div_pow]
    exact toNat_masked _ 24 (by decide)
  have word : (after ls1cClkDivParam &&& divPix) >>> divPixShift = BitVec.ofNat 32 divider := by
    rw [← taken, BitVec.ofNat_toNat, BitVec.setWidth_eq]
  have nonzero : (after ls1cClkDivParam &&& divPix) >>> divPixShift ≠ 0 := by
    intro zero
    rw [zero] at taken
    exact absurd taken (Nat.ne_of_lt positive)
  rw [clkGetDcRate, regRead32, divided, if_neg nonzero, word, pll]

/-- The pixel clock is set as asked exactly if bit 30 of the register was clear
or the divider reaches 64. -/
theorem pixel_clock_iff (regs : Registers) (xin pclk : BitVec 32)
    (small : SmallProducts regs xin pclk) :
    PixelClockSet regs xin pclk (caclulateFreq regs xin pclk) ↔
      (regs ls1cClkDivParam).getLsbD 30 = false ∨ 63500 ≤ thousandths regs xin pclk := by
  have divider := toNat_dividerInt small
  have upper := wantedDivider_le regs xin pclk
  have word := caclulateFreq_clkDivParam regs xin pclk
  have narrow : ((dividerInt regs xin pclk).setWidth 7).toNat = wantedDivider regs xin pclk := by
    rw [BitVec.toNat_setWidth, divider]
    omega
  have large : 64 ≤ wantedDivider regs xin pclk ↔ 63500 ≤ thousandths regs xin pclk := by
    rw [wantedDivider]
    omega
  have field : ((caclulateFreq regs xin pclk ls1cClkDivParam).extractLsb' 24 7).toNat =
      wantedDivider regs xin pclk ↔
      (regs ls1cClkDivParam).getLsbD 30 = false ∨ 63500 ≤ thousandths regs xin pclk := by
    rw [word, programmed_field, ← narrow, field_iff, high_bit_iff, narrow, large]
  constructor
  · exact fun set => field.mp set.field
  · intro condition
    have fine := field.mpr condition
    have positive : 0 < wantedDivider regs xin pclk := by
      rw [wantedDivider]
      omega
    refine ⟨fine, ?_, ?_, clkGetDcRate_eq (caclulateFreq_startFreq _ _ _) fine positive⟩
    · rw [word]
      exact programmed_enabled _ _
    · intro j low four five
      rw [word]
      exact programmed_kept _ _ low four five

/-- The multiplier 42 and, from before, the divider 100. -/
def slowPixels : Registers := fun a => if a = ls1cStartFreq then 0x2A00 else 0xE4000030

/-- The mode 640x480 after a slow one: the divider 7 becomes 71. -/
theorem old_bit_stays : ¬PixelClockSet slowPixels 24000000 28560
    (caclulateFreq slowPixels 24000000 28560) := by
  intro set
  exact absurd set.field (by decide)

/-- With bit 30 clear the same mode is set. -/
theorem pixel_clock_set : PixelClockSet (fun _ => 0x2A00) 24000000 28560
    (caclulateFreq (fun _ => 0x2A00) 24000000 28560) :=
  (pixel_clock_iff _ _ _ ⟨by decide, by decide⟩).mpr (.inl (by decide))

end KyokaMirror.Ls1c
