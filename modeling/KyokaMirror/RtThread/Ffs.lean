import Mathlib.Data.BitVec

set_option autoImplicit false

namespace KyokaMirror.RtThread

def lowestBitRow : List Nat := [0, 0, 1, 0, 2, 0, 1, 0, 3, 0, 1, 0, 2, 0, 1, 0]

/-- `__lowest_bit_bitmap`, whose rows differ in their first entry only. -/
def lowestBitBitmap : List Nat :=
  ([0, 4, 5, 4, 6, 4, 5, 4, 7, 4, 5, 4, 6, 4, 5, 4].map fun first =>
    first :: lowestBitRow.tail).flatten

def lowestBit (byte : BitVec 32) : Nat := lowestBitBitmap.getD byte.toNat 0

def rtFfs (value : BitVec 32) : Nat :=
  if value = 0 then 0
  else if value &&& 0xff ≠ 0 then lowestBit (value &&& 0xff) + 1
  else if value &&& 0xff00 ≠ 0 then lowestBit ((value &&& 0xff00) >>> 8) + 9
  else if value &&& 0xff0000 ≠ 0 then lowestBit ((value &&& 0xff0000) >>> 16) + 17
  else lowestBit ((value &&& 0xff000000) >>> 24) + 25

/-- `bit` is the lowest one that is set. -/
structure Lowest (value : BitVec 32) (bit : Nat) : Prop where
  small : bit < 32
  set : value.getLsbD bit = true
  below : ∀ i < bit, value.getLsbD i = false

theorem lowestBitBitmap_length : lowestBitBitmap.length = 256 := by decide +kernel

theorem lowestBitBitmap_entries : ∀ entry ∈ lowestBitBitmap.zipIdx, entry.2 ≠ 0 →
    entry.1 < 8 ∧ entry.2.testBit entry.1 = true ∧ ∀ i < entry.1, entry.2.testBit i = false := by
  decide +kernel

theorem lowestBit_spec {byte : Nat} (small : byte < 256) (nonzero : byte ≠ 0) :
    lowestBitBitmap.getD byte 0 < 8 ∧ byte.testBit (lowestBitBitmap.getD byte 0) = true ∧
    ∀ i < lowestBitBitmap.getD byte 0, byte.testBit i = false := by
  rw [← lowestBitBitmap_length] at small
  rw [List.getD_eq_getElem?_getD, List.getElem?_eq_getElem small, Option.getD_some]
  apply lowestBitBitmap_entries (lowestBitBitmap[byte], byte) _ nonzero
  rw [List.mem_zipIdx_iff_getElem?]
  exact List.getElem?_eq_getElem small

/-- One byte of a word, as the masks and shifts of `__rt_ffs` take it out. -/
def IsByte (value byte : BitVec 32) (shift : Nat) : Prop :=
  ∀ i, byte.getLsbD i = (decide (i < 8) && value.getLsbD (i + shift))

section

variable {value mask byte : BitVec 32} {shift : Nat}

theorem isByte_mask (bits : ∀ i < 32, mask.getLsbD (shift + i) = decide (i < 8)) :
    IsByte value ((value &&& mask) >>> shift) shift := by
  intro i
  rw [BitVec.getLsbD_ushiftRight, BitVec.getLsbD_and, Nat.add_comm i]
  by_cases small : i < 32
  · rw [bits i small, Bool.and_comm]
  · rw [BitVec.getLsbD_of_ge value _ (by omega), Bool.false_and, Bool.and_false]

/-- A mask takes nothing that the shift would drop. -/
theorem masked_eq_zero (above : ∀ i < shift, mask.getLsbD i = false)
    (zero : (value &&& mask) >>> shift = 0) : value &&& mask = 0 := by
  apply BitVec.eq_of_getLsbD_eq
  intro i _
  by_cases low : i < shift
  · rw [BitVec.getLsbD_and, above i low, Bool.and_false]
    exact BitVec.getLsbD_zero.symm
  · have bit := congrArg (fun b : BitVec 32 => b.getLsbD (i - shift)) zero
    rw [BitVec.getLsbD_ushiftRight, Nat.add_sub_cancel' (by omega)] at bit
    rw [bit]
    exact BitVec.getLsbD_zero.trans BitVec.getLsbD_zero.symm

theorem IsByte.below (isByte : IsByte value byte shift)
    (zero : byte = 0) (lower : ∀ i < shift, value.getLsbD i = false) :
    ∀ i < shift + 8, value.getLsbD i = false := by
  intro i inside
  by_cases low : i < shift
  · exact lower i low
  · have bit := isByte (i - shift)
    rw [zero, decide_eq_true (by omega), Bool.true_and, Nat.sub_add_cancel (by omega)] at bit
    rw [← bit]
    exact BitVec.getLsbD_zero

theorem IsByte.lowest (isByte : IsByte value byte shift)
    (nonzero : byte ≠ 0) (fits : shift ≤ 24) (lower : ∀ i < shift, value.getLsbD i = false) :
    Lowest value (lowestBit byte + shift) := by
  have small : byte.toNat < 256 := by
    apply Nat.lt_pow_two_of_testBit (n := 8)
    intro i high
    have bit := isByte i
    rw [decide_eq_false (by omega), Bool.false_and] at bit
    exact bit
  have positive : byte.toNat ≠ 0 := fun zero => nonzero (BitVec.eq_of_toNat_eq zero)
  obtain ⟨inside, set, below⟩ := lowestBit_spec small positive
  have bit : ∀ i < 8, byte.toNat.testBit i = value.getLsbD (i + shift) := by
    intro i low
    have whole := isByte i
    rw [decide_eq_true low, Bool.true_and] at whole
    exact whole
  refine ⟨?_, ?_, ?_⟩
  · rw [lowestBit]
    omega
  · rw [lowestBit, ← bit _ inside]
    exact set
  · intro i before
    rw [lowestBit] at before
    by_cases low : i < shift
    · exact lower i low
    · have here := below (i - shift) (by omega)
      rw [bit _ (by omega), Nat.sub_add_cancel (by omega)] at here
      exact here

end

theorem rtFfs_lowest {value : BitVec 32} (nonzero : value ≠ 0) :
    Lowest value (rtFfs value - 1) := by
  have first : IsByte value ((value &&& 0xff) >>> 0) 0 := isByte_mask (by decide)
  have second : IsByte value ((value &&& 0xff00) >>> 8) 8 := isByte_mask (by decide)
  have third : IsByte value ((value &&& 0xff0000) >>> 16) 16 := isByte_mask (by decide)
  have fourth : IsByte value ((value &&& 0xff000000) >>> 24) 24 := isByte_mask (by decide)
  rw [BitVec.ushiftRight_zero] at first
  rw [rtFfs, if_neg nonzero]
  have none : ∀ i < 0, value.getLsbD i = false := fun i impossible => absurd impossible (by omega)
  split
  · rename_i here
    exact first.lowest here (by decide) none
  · rename_i zero
    have lower := first.below (Classical.not_not.mp zero) none
    split
    · rename_i here
      exact second.lowest (fun z => here (masked_eq_zero (by decide) z)) (by decide) lower
    · rename_i zero
      have lower := second.below (by rw [Classical.not_not.mp zero]; rfl) lower
      split
      · rename_i here
        exact third.lowest (fun z => here (masked_eq_zero (by decide) z)) (by decide) lower
      · rename_i zero
        have lower := third.below (by rw [Classical.not_not.mp zero]; rfl) lower
        refine fourth.lowest ?_ (by decide) lower
        intro zero
        apply nonzero
        apply BitVec.eq_of_getLsbD_eq
        intro i small
        rw [fourth.below zero lower i small]
        exact BitVec.getLsbD_zero.symm

end KyokaMirror.RtThread
