import KyokaMirror.Ls1c.Clock
import KyokaMirror.Ls1c.Public
import Mathlib.Algebra.Order.Floor.Div
import Mathlib.Tactic.IntervalCases

set_option autoImplicit false

namespace KyokaMirror.Ls1c

/-- The registers that are one byte wide, by their address. -/
abbrev ByteRegisters := Nat → BitVec 8

def regRead8 (regs : ByteRegisters) (addr : Nat) : BitVec 8 := regs addr

def regWrite8 (regs : ByteRegisters) (data : BitVec 8) (addr : Nat) : ByteRegisters :=
  fun a => if a = addr then data else regs a

theorem regWrite8_self (regs : ByteRegisters) (data : BitVec 8) (addr : Nat) :
    regWrite8 regs data addr addr = data := if_pos rfl

theorem regWrite8_of_ne (regs : ByteRegisters) (data : BitVec 8) {addr other : Nat}
    (apart : other ≠ addr) : regWrite8 regs data addr other = regs other := if_neg apart

def ls1cSpi0Base : Nat := 0xbfe80000

def ls1cSpiSpcrOffset : Nat := 0
def ls1cSpiSperOffset : Nat := 3
def ls1cSpiSpcrSprMask : BitVec 32 := 0x03 <<< 0
def ls1cSpiSperSpreMask : BitVec 32 := 0x3 <<< 0

/-- `DIV_ROUND_UP`. -/
def divRoundUp (n d : BitVec 32) : Option (BitVec 32) := divided (n + d - 1) d

/-- The switch over the highest bit of the divider. -/
def spiDivCode (div : BitVec 32) : BitVec 32 :=
  let bit := ls1cFls div - 1
  let power := 1#32 <<< bit
  if power = 16 then
    if div > power then 2 + 1 else 2
  else if power = 32 then
    if div > power then 3 + 2 else 3
  else if power = 8 then
    if div > power then 4 - 2 else 4
  else
    let divTmp := BitVec.ofNat 32 bit - 1
    if div > power then divTmp + 1 else divTmp

/-- `clk` is what `clk_get_apb_rate` returns. -/
def ls1cSpiGetDiv (clk maxSpeedHz : BitVec 32) : Option (BitVec 32) :=
  (divRoundUp clk maxSpeedHz).map fun div =>
    let div := if div < 2 then 2 else div
    let div := if div > 4096 then 4096 else div
    spiDivCode div

/-- `val &= ~mask; val |= div & mask;`. -/
def setField (old : BitVec 8) (mask div : BitVec 32) : BitVec 8 :=
  let val := (old.setWidth 32 &&& ~~~mask).setWidth 8
  (val.setWidth 32 ||| (div &&& mask)).setWidth 8

def ls1cSpiSetClock (clk : BitVec 32) (spiBase : Nat) (maxHz : BitVec 32)
    (regs : ByteRegisters) : Option ByteRegisters :=
  (ls1cSpiGetDiv clk maxHz).map fun div =>
    let val := regRead8 regs (spiBase + ls1cSpiSpcrOffset)
    let regs := regWrite8 regs (setField val ls1cSpiSpcrSprMask div)
      (spiBase + ls1cSpiSpcrOffset)
    let val := regRead8 regs (spiBase + ls1cSpiSperOffset)
    regWrite8 regs (setField val ls1cSpiSperSpreMask (div >>> 2)) (spiBase + ls1cSpiSperOffset)

/-- The factor of a code, and the codes there are. -/
def spiFactor : Nat → Nat
  | 0 => 2
  | 1 => 4
  | 2 => 16
  | 3 => 32
  | 4 => 8
  | code => 2 ^ (code + 1)

def spiCodes : Nat := 12

/-- `{spre,spr}`. -/
def programmedCode (spiBase : Nat) (regs : ByteRegisters) : Nat :=
  (regs (spiBase + ls1cSpiSperOffset)).toNat % 4 * 4 +
    (regs (spiBase + ls1cSpiSpcrOffset)).toNat % 4

/-- The factors that keep within `maxHz`. -/
def slowEnough (clk maxHz : BitVec 32) : Set Nat :=
  { factor | (∃ code < spiCodes, factor = spiFactor code) ∧
    clk.toNat ≤ factor * maxHz.toNat }

/-- The smallest factor is programmed and no other bit changes. -/
structure SpiClockRight (clk maxHz : BitVec 32) (spiBase : Nat) (regs after : ByteRegisters) :
    Prop where
  programmed : programmedCode spiBase after < spiCodes
  smallest : IsLeast (slowEnough clk maxHz) (spiFactor (programmedCode spiBase after))
  others : ∀ addr bit, 2 ≤ bit → (after addr).getLsbD bit = (regs addr).getLsbD bit
  elsewhere : ∀ addr, addr ≠ spiBase + ls1cSpiSpcrOffset → addr ≠ spiBase + ls1cSpiSperOffset →
    after addr = regs addr

/-- The bits of the mask are replaced and the others stay. -/
theorem getLsbD_setField (old : BitVec 8) (mask div : BitVec 32) {i : Nat} (inside : i < 8) :
    (setField old mask div).getLsbD i =
      if mask.getLsbD i then div.getLsbD i else old.getLsbD i := by
  have wide : i < 32 := by omega
  simp only [setField, BitVec.getLsbD_setWidth, BitVec.getLsbD_or, BitVec.getLsbD_and,
    BitVec.getLsbD_not, inside, wide, decide_true, Bool.true_and]
  cases mask.getLsbD i
  · simp
  · simp

theorem getLsbD_three (i : Nat) : (3 : BitVec 32).getLsbD i = decide (i < 2) :=
  Nat.testBit_two_pow_sub_one 2 i

/-- The low two bits are the new ones. -/
theorem toNat_setField_mod (old : BitVec 8) (div : BitVec 32) :
    (setField old 3 div).toNat % 4 = div.toNat % 4 := by
  apply Nat.eq_of_testBit_eq
  intro i
  rw [show 4 = 2 ^ 2 from rfl, Nat.testBit_mod_two_pow, Nat.testBit_mod_two_pow]
  by_cases low : i < 2
  · have bit := getLsbD_setField old 3 div (i := i) (by omega)
    rw [getLsbD_three, decide_eq_true low, if_pos rfl] at bit
    rw [BitVec.getLsbD, BitVec.getLsbD] at bit
    rw [bit]
  · rw [decide_eq_false low, Bool.false_and, Bool.false_and]

theorem getLsbD_setField_high (old : BitVec 8) (div : BitVec 32) {i : Nat} (high : 2 ≤ i) :
    (setField old 3 div).getLsbD i = old.getLsbD i := by
  by_cases inside : i < 8
  · rw [getLsbD_setField old 3 div inside, getLsbD_three, decide_eq_false (by omega)]
    rfl
  · rw [BitVec.getLsbD_of_ge _ _ (by omega), BitVec.getLsbD_of_ge _ _ (by omega)]

/-- The divider as a number. -/
theorem divRoundUp_eq {clk maxHz : BitVec 32} (positive : maxHz ≠ 0)
    (fits : clk.toNat + maxHz.toNat < 2 ^ 32) :
    ∃ div, divRoundUp clk maxHz = some div ∧ div.toNat = clk.toNat ⌈/⌉ maxHz.toNat := by
  have least : 1 ≤ maxHz.toNat :=
    Nat.one_le_iff_ne_zero.mpr fun zero => positive (BitVec.eq_of_toNat_eq zero)
  have one : (1 : BitVec 32).toNat = 1 := rfl
  have sum := BitVec.toNat_add_of_lt fits
  refine ⟨_, if_neg positive, ?_⟩
  rw [BitVec.toNat_udiv, BitVec.toNat_sub_of_le (by rw [BitVec.le_def, sum, one]; omega), sum, one,
    Nat.ceilDiv_eq_add_pred_div]

theorem ls1cFls_sub_one {div : BitVec 32} {bit : Nat} (low : 2 ^ bit ≤ div.toNat)
    (high : div.toNat < 2 ^ (bit + 1)) : ls1cFls div - 1 = bit := by
  have nonzero : div ≠ 0 := by
    rintro rfl
    exact absurd low (Nat.not_le.mpr (Nat.two_pow_pos bit))
  obtain ⟨least, below, above⟩ := ls1cFls_bounds nonzero
  have up : ls1cFls div - 1 < bit + 1 :=
    (Nat.pow_lt_pow_iff_right (by decide)).mp (below.trans_lt high)
  have down : bit < ls1cFls div := (Nat.pow_lt_pow_iff_right (by decide)).mp (low.trans_lt above)
  omega

/-- The factors are the powers of 2 up to 4096. -/
theorem exists_spiFactor_iff (factor : Nat) :
    (∃ code < spiCodes, factor = spiFactor code) ↔
      ∃ bit, 1 ≤ bit ∧ bit ≤ 12 ∧ factor = 2 ^ bit := by
  constructor
  · rintro ⟨code, known, rfl⟩
    have powers : ∀ code < 12, ∃ bit < 13, 1 ≤ bit ∧ spiFactor code = 2 ^ bit := by decide
    obtain ⟨bit, most, least, same⟩ := powers code known
    exact ⟨bit, least, by omega, same⟩
  · rintro ⟨bit, least, most, rfl⟩
    have codes : ∀ bit < 13, 1 ≤ bit → ∃ code < 12, 2 ^ bit = spiFactor code := by decide
    exact codes bit (by omega) least

theorem toNat_one_shiftLeft : ∀ bit ≤ 12, (1#32 <<< bit).toNat = 2 ^ bit := by decide

/-- The powers around a divider. -/
theorem exists_highest_bit {n : Nat} (least : 2 ≤ n) (most : n ≤ 4096) :
    ∃ bit, 1 ≤ bit ∧ bit ≤ 12 ∧ 2 ^ bit ≤ n ∧ n < 2 ^ (bit + 1) := by
  have nonzero : n ≠ 0 := by omega
  have low := Nat.log2_self_le nonzero
  have high : n < 2 ^ (n.log2 + 1) := Nat.lt_log2_self
  refine ⟨n.log2, ?_, ?_, low, high⟩
  · have exponents := (Nat.pow_lt_pow_iff_right (a := 2) (n := 1) (by decide)).mp
      (least.trans_lt high)
    omega
  · exact (Nat.pow_le_pow_iff_right (a := 2) (m := 12) (by decide)).mp (low.trans most)

/-- A divider that is a power has the code of that power. -/
theorem spiDivCode_power {div : BitVec 32} {bit : Nat} (least : 1 ≤ bit) (most : bit ≤ 12)
    (power : div.toNat = 2 ^ bit) :
    (spiDivCode div).toNat < spiCodes ∧ spiFactor (spiDivCode div).toNat = 2 ^ bit := by
  have found : ls1cFls div - 1 = bit :=
    ls1cFls_sub_one power.ge (power.trans_lt (Nat.pow_lt_pow_succ (by decide)))
  have same : ¬div > 1#32 <<< bit := by
    rw [gt_iff_lt, BitVec.lt_def, toNat_one_shiftLeft bit most, power]
    exact Nat.lt_irrefl _
  simp only [spiDivCode, found, if_neg same]
  clear power found same
  interval_cases bit <;> decide

/-- Any other divider has the code of the next power, except below 8. -/
theorem spiDivCode_between {div : BitVec 32} {bit : Nat} (least : 1 ≤ bit) (most : bit < 12)
    (low : 2 ^ bit < div.toNat) (high : div.toNat < 2 ^ (bit + 1)) :
    (spiDivCode div).toNat < spiCodes ∧
      spiFactor (spiDivCode div).toNat = if bit = 2 then 16 else 2 ^ (bit + 1) := by
  have found : ls1cFls div - 1 = bit := ls1cFls_sub_one low.le high
  have more : div > 1#32 <<< bit := by
    rw [gt_iff_lt, BitVec.lt_def, toNat_one_shiftLeft bit most.le]
    exact low
  simp only [spiDivCode, found, if_pos more]
  clear low high found more
  interval_cases bit <;> decide

/-- The divider that the code is chosen for. -/
theorem ls1cSpiGetDiv_eq {clk maxHz : BitVec 32} (positive : maxHz ≠ 0)
    (fits : clk.toNat + maxHz.toNat < 2 ^ 32) (reached : clk.toNat ≤ 4096 * maxHz.toNat) :
    ∃ div, ls1cSpiGetDiv clk maxHz = some (spiDivCode div) ∧ 2 ≤ div.toNat ∧ div.toNat ≤ 4096 ∧
      ∀ factor ≥ 2, clk.toNat ≤ factor * maxHz.toNat ↔ div.toNat ≤ factor := by
  obtain ⟨div, rounded, value⟩ := divRoundUp_eq positive fits
  have above : 0 < maxHz.toNat :=
    Nat.pos_of_ne_zero fun zero => positive (BitVec.eq_of_toNat_eq zero)
  have within : ∀ factor, clk.toNat ≤ factor * maxHz.toNat ↔ div.toNat ≤ factor := by
    intro factor
    rw [value, ceilDiv_le_iff_le_mul above, Nat.mul_comm]
  have most := (within 4096).mp reached
  have two : (2 : BitVec 32).toNat = 2 := rfl
  have large : (4096 : BitVec 32).toNat = 4096 := rfl
  rw [ls1cSpiGetDiv, rounded, Option.map_some]
  by_cases small : div < 2
  · have low := BitVec.lt_def.mp small
    refine ⟨2, ?_, le_refl 2, by decide, ?_⟩
    · simp only [if_pos small]
      rfl
    · intro factor least
      rw [within factor]
      omega
  · have low : ¬div.toNat < 2 := fun lower => small (BitVec.lt_def.mpr lower)
    have high : ¬div > 4096 := fun more => absurd (BitVec.lt_def.mp more) (by omega)
    refine ⟨div, ?_, by omega, most, ?_⟩
    · simp only [if_neg small, if_neg high]
    · intro factor _
      exact within factor

section

variable {clk maxHz div : BitVec 32}
  (within : ∀ factor ≥ 2, clk.toNat ≤ factor * maxHz.toNat ↔ div.toNat ≤ factor)
include within

/-- The power that is next to the divider is the smallest factor. -/
theorem isLeast_next {bit : Nat} (least : 1 ≤ bit) (most : bit ≤ 12)
    (low : 2 ^ (bit - 1) < div.toNat) (high : div.toNat ≤ 2 ^ bit) :
    IsLeast (slowEnough clk maxHz) (2 ^ bit) := by
  have two : ∀ {b : Nat}, 1 ≤ b → 2 ^ b ≥ 2 := fun some => Nat.pow_le_pow_right Nat.two_pos some
  constructor
  · exact ⟨(exists_spiFactor_iff _).mpr ⟨bit, least, most, rfl⟩, (within _ (two least)).mpr high⟩
  · rintro factor ⟨supported, enough⟩
    obtain ⟨other, first, -, rfl⟩ := (exists_spiFactor_iff factor).mp supported
    have above := (within _ (two first)).mp enough
    have exponents := (Nat.pow_lt_pow_iff_right (by decide)).mp (low.trans_le above)
    exact Nat.pow_le_pow_right (by decide) (by omega)

theorem isLeast_spiDivCode_iff (least : 2 ≤ div.toNat) (most : div.toNat ≤ 4096) :
    (spiDivCode div).toNat < spiCodes ∧
    (IsLeast (slowEnough clk maxHz) (spiFactor (spiDivCode div).toNat) ↔
      ¬(4 < div.toNat ∧ div.toNat ≤ 7)) := by
  obtain ⟨bit, first, last, low, high⟩ := exists_highest_bit least most
  by_cases power : div.toNat = 2 ^ bit
  · obtain ⟨known, factor⟩ := spiDivCode_power first last power
    have lower : 2 ^ (bit - 1) < 2 ^ bit := Nat.pow_lt_pow_right (by decide) (by omega)
    have smallest := isLeast_next within first last (power ▸ lower) power.le
    refine ⟨known, ?_⟩
    rw [factor, power]
    refine iff_of_true smallest ?_
    interval_cases bit <;> decide
  · have between : 2 ^ bit < div.toNat := by omega
    have inside : bit < 12 := (Nat.pow_lt_pow_iff_right (a := 2) (by decide)).mp
      (between.trans_le most)
    obtain ⟨known, factor⟩ := spiDivCode_between first inside between high
    have smallest := isLeast_next within (Nat.le_add_left 1 bit) inside between high.le
    refine ⟨known, ?_⟩
    rw [factor]
    by_cases gap : bit = 2
    · subst gap
      rw [if_pos rfl]
      refine iff_of_false ?_ ?_
      · intro wrong
        exact absurd (wrong.unique smallest) (by decide)
      · intro outside
        exact outside ⟨between, by omega⟩
    · rw [if_neg gap]
      refine iff_of_true smallest ?_
      rintro ⟨more, less⟩
      interval_cases bit <;> omega

end

/-- What is left in the registers for a code. -/
theorem ls1cSpiSetClock_eq {clk maxHz div : BitVec 32} (spiBase : Nat) (regs : ByteRegisters)
    (got : ls1cSpiGetDiv clk maxHz = some div) (known : div.toNat < spiCodes) :
    ∃ after, ls1cSpiSetClock clk spiBase maxHz regs = some after ∧
      programmedCode spiBase after = div.toNat ∧
      (∀ addr bit, 2 ≤ bit → (after addr).getLsbD bit = (regs addr).getLsbD bit) ∧
      ∀ addr, addr ≠ spiBase + ls1cSpiSpcrOffset → addr ≠ spiBase + ls1cSpiSperOffset →
        after addr = regs addr := by
  have spr : ls1cSpiSpcrSprMask = 3 := by decide
  have spre : ls1cSpiSperSpreMask = 3 := by decide
  have apart : spiBase + ls1cSpiSperOffset ≠ spiBase + ls1cSpiSpcrOffset := by
    simp [ls1cSpiSperOffset, ls1cSpiSpcrOffset]
  have upper : (div >>> 2).toNat = div.toNat / 4 := by
    rw [BitVec.toNat_ushiftRight, Nat.shiftRight_eq_div_pow]
  rw [ls1cSpiSetClock, got, Option.map_some, spr, spre]
  refine ⟨_, rfl, ?_, ?_, ?_⟩
  · rw [programmedCode, regWrite8_self, regWrite8_of_ne _ _ apart.symm, regWrite8_self,
      toNat_setField_mod, toNat_setField_mod, upper]
    rw [spiCodes] at known
    omega
  · intro addr bit high
    by_cases sper : addr = spiBase + ls1cSpiSperOffset
    · rw [sper, regWrite8_self, getLsbD_setField_high _ _ high, regRead8,
        regWrite8_of_ne _ _ apart]
    · rw [regWrite8_of_ne _ _ sper]
      by_cases spcr : addr = spiBase + ls1cSpiSpcrOffset
      · rw [spcr, regWrite8_self, getLsbD_setField_high _ _ high, regRead8]
      · rw [regWrite8_of_ne _ _ spcr]
  · intro addr first second
    rw [regWrite8_of_ne _ _ second, regWrite8_of_ne _ _ first]

/-- The clock is right exactly if the divider is not from 5 to 7. -/
theorem spi_clock_iff (clk maxHz : BitVec 32) (spiBase : Nat) (regs : ByteRegisters)
    (positive : maxHz ≠ 0) (fits : clk.toNat + maxHz.toNat < 2 ^ 32)
    (reached : clk.toNat ≤ 4096 * maxHz.toNat) :
    (∃ after, ls1cSpiSetClock clk spiBase maxHz regs = some after ∧
      SpiClockRight clk maxHz spiBase regs after) ↔
      ¬(4 * maxHz.toNat < clk.toNat ∧ clk.toNat ≤ 7 * maxHz.toNat) := by
  obtain ⟨div, got, least, most, within⟩ := ls1cSpiGetDiv_eq positive fits reached
  obtain ⟨known, smallest⟩ := isLeast_spiDivCode_iff within least most
  obtain ⟨after, set, code, others, elsewhere⟩ := ls1cSpiSetClock_eq spiBase regs got known
  rw [← Nat.not_le, within 4 (by decide), within 7 (by decide), Nat.not_le, ← smallest, ← code]
  constructor
  · rintro ⟨other, returned, right⟩
    cases set.symm.trans returned
    exact right.smallest
  · intro optimal
    exact ⟨after, set, code ▸ known, optimal, others, elsewhere⟩

/-- 126 MHz and at most 10 MHz: the factor is 16. -/
theorem ten_megahertz_right :
    ∃ after, ls1cSpiSetClock 126000000 ls1cSpi0Base 10000000 (fun _ => 0xff) = some after ∧
      SpiClockRight 126000000 10000000 ls1cSpi0Base (fun _ => 0xff) after :=
  (spi_clock_iff _ _ _ _ (by decide) (by decide) (by decide)).mpr (by decide)

/-- 126 MHz and at most 20 MHz: the factor could be 8. -/
theorem twenty_megahertz_slow :
    ¬∃ after, ls1cSpiSetClock 126000000 ls1cSpi0Base 20000000 (fun _ => 0xff) = some after ∧
      SpiClockRight 126000000 20000000 ls1cSpi0Base (fun _ => 0xff) after := by
  rintro ⟨after, returned, right⟩
  have code : (ls1cSpiSetClock 126000000 ls1cSpi0Base 20000000 fun _ => 0xff).map
      (programmedCode ls1cSpi0Base) = some 2 := by decide
  rw [returned, Option.map_some] at code
  have smallest := right.smallest
  rw [Option.some.inj code] at smallest
  have eight : 8 ∈ slowEnough 126000000 20000000 := ⟨⟨4, by decide, rfl⟩, by decide⟩
  exact absurd (smallest.2 eight) (by decide)

end KyokaMirror.Ls1c
