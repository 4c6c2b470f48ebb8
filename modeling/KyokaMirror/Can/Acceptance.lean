import Mathlib.Tactic.IntervalCases
import KyokaMirror.Can.Consistency
import KyokaMirror.Can.Filter

set_option autoImplicit false

namespace KyokaMirror.Can

open Library.Pattern

/-- The AFM bit is that of before unless the single filter is chosen. -/
theorem canFilterInit_afm (chip : Chip) (stack : FilterBytes) (s : FilterInit) (can : Controller) :
    (canFilterInit chip stack s can).reg.afm = (decide (s.mode = 1) || can.reg.afm) := by
  have reset : (setResetMode chip can.reg).1.mod.getLsbD 3 = can.reg.mod.getLsbD 3 :=
    setResetLoop_other chip (by decide) 100 can.reg.mod
  have start : (canFilterInit chip stack s can).reg.afm =
      (filterMode s.mode (setResetMode chip can.reg).1.mod).getLsbD 3 :=
    setNormalLoop_other chip (by decide) (by decide) 100 _
  rw [start, filterMode]
  by_cases single : s.mode = 1
  · rw [if_pos single, BitVec.getLsbD_or, decide_eq_true single, Bool.true_or]
    exact Bool.or_true _
  · rw [if_neg single, if_neg single, reset, decide_eq_false single, Bool.false_or]
    rfl

theorem acceptance_canFilterInit (chip : Chip) (stack : FilterBytes) (s : FilterInit)
    (can : Controller) :
    acceptance (canFilterInit chip stack s can).frame = filterBytes stack s :=
  acceptance_writeFilter _ _

/-- A one-bit RTR of a frame is the one asked for. -/
theorem rtr_eq_iff (rtr : BitVec 1) {asked : BitVec 8} (small : asked.toNat ≤ 1) :
    rtr = asked.extractLsb' 0 1 ↔ rtr.setWidth 8 = asked := by
  have bit : asked = 0 ∨ asked = 1 := by
    have cases : asked.toNat = 0 ∨ asked.toNat = 1 := by omega
    rcases cases with zero | one
    · exact .inl (BitVec.eq_of_toNat_eq zero)
    · exact .inr (BitVec.eq_of_toNat_eq one)
  rcases bit with rfl | rfl
  · revert rtr
    decide
  · revert rtr
    decide

section

variable (x : BitVec 32) (rtr : BitVec 8)

/-- The bits above the lowest of RTR fall on the identifier. -/
theorem standard_code :
    ((x >>> 3).setWidth 8 ++ ((x <<< 5 ||| rtr.setWidth 32 <<< 4).setWidth 8).extractLsb' 5 3 :
      BitVec 11) = x.extractLsb' 0 11 ||| (rtr.extractLsb' 1 3).setWidth 11 := by
  apply BitVec.eq_of_getLsbD_eq
  intro j inside
  simp only [BitVec.getLsbD_append]
  interval_cases j <;> simp

theorem standard_rtr :
    ((x <<< 5 ||| rtr.setWidth 32 <<< 4).setWidth 8 : BitVec 8).extractLsb' 4 1 =
      rtr.extractLsb' 0 1 := by
  apply BitVec.eq_of_getLsbD_eq
  intro j inside
  interval_cases j
  simp

theorem standard_mask :
    ((x >>> 3).setWidth 8 ++ ((x <<< 5).setWidth 8 ||| 0x0F : BitVec 8).extractLsb' 5 3 :
      BitVec 11) = x.extractLsb' 0 11 := by
  apply BitVec.eq_of_getLsbD_eq
  intro j inside
  simp only [BitVec.getLsbD_append]
  interval_cases j <;> simp

theorem standard_rtr_mask :
    ((x <<< 5).setWidth 8 ||| 0x0F : BitVec 8).extractLsb' 4 1 = 0#1 := by
  apply BitVec.eq_of_getLsbD_eq
  intro j inside
  interval_cases j
  simp

theorem standard_unused_mask :
    ((x <<< 5).setWidth 8 ||| 0x0F : BitVec 8).extractLsb' 0 4 = BitVec.allOnes 4 := by
  apply BitVec.eq_of_getLsbD_eq
  intro j inside
  interval_cases j <;> simp

theorem extended_code :
    ((x >>> 21).setWidth 8 ++ (x >>> 13).setWidth 8 ++ (x >>> 5).setWidth 8 ++
      ((x <<< 3 ||| rtr.setWidth 32 <<< 2).setWidth 8).extractLsb' 3 5 : BitVec 29) =
      x.extractLsb' 0 29 ||| (rtr.extractLsb' 1 5).setWidth 29 := by
  apply BitVec.eq_of_getLsbD_eq
  intro j inside
  simp only [BitVec.getLsbD_append]
  interval_cases j <;> simp

theorem extended_rtr :
    ((x <<< 3 ||| rtr.setWidth 32 <<< 2).setWidth 8 : BitVec 8).extractLsb' 2 1 =
      rtr.extractLsb' 0 1 := by
  apply BitVec.eq_of_getLsbD_eq
  intro j inside
  interval_cases j
  simp

theorem extended_mask :
    ((x >>> 21).setWidth 8 ++ (x >>> 13).setWidth 8 ++ (x >>> 5).setWidth 8 ++
      ((x <<< 3).setWidth 8 ||| 0x03 : BitVec 8).extractLsb' 3 5 : BitVec 29) =
      x.extractLsb' 0 29 := by
  apply BitVec.eq_of_getLsbD_eq
  intro j inside
  simp only [BitVec.getLsbD_append]
  interval_cases j <;> simp

theorem extended_rtr_mask :
    ((x <<< 3).setWidth 8 ||| 0x03 : BitVec 8).extractLsb' 2 1 = 0#1 := by
  apply BitVec.eq_of_getLsbD_eq
  intro j inside
  interval_cases j
  simp

theorem extended_unused_mask :
    ((x <<< 3).setWidth 8 ||| 0x03 : BitVec 8).extractLsb' 0 2 = BitVec.allOnes 2 := by
  apply BitVec.eq_of_getLsbD_eq
  intro j inside
  interval_cases j <;> simp

end

theorem rtr_high {rtr : BitVec 8} (small : rtr.toNat ≤ 1) (n : Nat) :
    rtr.extractLsb' 1 n = 0#n := by
  apply BitVec.eq_of_getLsbD_eq
  intro j inside
  rw [BitVec.getLsbD_extractLsb', decide_eq_true inside, Bool.true_and, BitVec.getLsbD_zero]
  apply Nat.testBit_lt_two_pow
  calc rtr.toNat < 2 ^ 1 := by omega
    _ ≤ 2 ^ (1 + j) := Nat.pow_le_pow_right (by decide) (by omega)

/-- What a single filter is set up for: `ID` under `IDMASK`, and `RTR`. -/
def SingleFilter (s : FilterInit) : BusFrame → Prop
  | .standard id rtr _ _ _ =>
      Matches (s.id.extractLsb' 0 11) (s.idMask.extractLsb' 0 11) id ∧ rtr.setWidth 8 = s.rtr
  | .extended id rtr _ =>
      Matches (s.id.extractLsb' 0 29) (s.idMask.extractLsb' 0 29) id ∧ rtr.setWidth 8 = s.rtr

section

variable {s : FilterInit} (stack : FilterBytes) (single : s.mode = 1) (small : s.rtr.toNat ≤ 1)
include single small

theorem passesSingle_standard (format : s.ide = 0) (id : BitVec 11) (rtr : BitVec 1)
    (unused : BitVec 4) (data0 data1 : BitVec 8) :
    passesSingle (filterBytes stack s) (.standard id rtr unused data0 data1) ↔
      Matches (s.id.extractLsb' 0 11) (s.idMask.extractLsb' 0 11) id ∧
        rtr.setWidth 8 = s.rtr := by
  have other : ¬s.mode = 0 := by rw [single]; decide
  rw [filterBytes, if_pos format, if_neg other, if_pos single, passesSingle, standard_code,
    standard_mask, standard_rtr, standard_rtr_mask, standard_unused_mask, rtr_high small 3,
    BitVec.setWidth_zero, BitVec.or_zero, matches_zero_iff, rtr_eq_iff rtr small]
  have data : ∀ code x : BitVec 8, Matches code 0xFF x := matches_allOnes
  exact ⟨fun passes => ⟨passes.1, passes.2.1⟩,
    fun asked => ⟨asked.1, asked.2, matches_allOnes _ _, data _ _, data _ _⟩⟩

theorem passesSingle_extended (format : s.ide = 1) (id : BitVec 29) (rtr : BitVec 1)
    (unused : BitVec 2) :
    passesSingle (filterBytes stack s) (.extended id rtr unused) ↔
      Matches (s.id.extractLsb' 0 29) (s.idMask.extractLsb' 0 29) id ∧
        rtr.setWidth 8 = s.rtr := by
  have other : ¬s.mode = 0 := by rw [single]; decide
  have extended : ¬s.ide = 0 := by rw [format]; decide
  rw [filterBytes, if_neg extended, if_pos format, if_neg other, if_pos single, passesSingle,
    extended_code, extended_mask, extended_rtr, extended_rtr_mask, extended_unused_mask,
    rtr_high small 5, BitVec.setWidth_zero, BitVec.or_zero, matches_zero_iff,
    rtr_eq_iff rtr small]
  exact ⟨fun passes => ⟨passes.1, passes.2.1⟩,
    fun asked => ⟨asked.1, asked.2, matches_allOnes _ _⟩⟩

end

/-- After `CAN_FilterInit` with one filter, a frame of the format passes exactly
if it is one that the struct asks for. -/
theorem single_filter_accepts_iff (chip : Chip) (stack : FilterBytes) (s : FilterInit)
    (can : Controller) (single : s.mode = 1) (small : s.rtr.toNat ≤ 1) (frame : BusFrame)
    (format : frame.ide = s.ide) :
    Accepts (canFilterInit chip stack s can) frame ↔ SingleFilter s frame := by
  have afm : (canFilterInit chip stack s can).reg.afm = true := by
    rw [canFilterInit_afm, decide_eq_true single, Bool.true_or]
  rw [Accepts, if_pos afm, acceptance_canFilterInit]
  cases frame with
  | standard id rtr unused data0 data1 =>
      exact passesSingle_standard stack single small format.symm id rtr unused data0 data1
  | extended id rtr unused =>
      exact passesSingle_extended stack single small format.symm id rtr unused

/-- All registers zero. -/
def idleController : Controller where
  reg := ⟨0x00, 0, 0, 0, 0, 0, 0⟩
  frame := emptyRegs

/-- `ID` 0x120 with the low nibble masked. -/
theorem masked_id_accepted :
    Accepts (canFilterInit obedient ⟨0, 0, 0, 0, 0, 0, 0, 0⟩ ⟨0, 0, 1, 0, 0, 0x120, 0x00F⟩
      idleController) (.standard 0x12A 0 0x5 0x55 0xAA) :=
  (single_filter_accepts_iff _ _ _ _ (by decide) (by decide) (.standard 0x12A 0 0x5 0x55 0xAA)
    (by decide)).mpr ⟨by decide, by decide⟩

end KyokaMirror.Can
