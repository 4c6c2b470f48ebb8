import Mathlib.Data.BitVec

set_option autoImplicit false

namespace Library.Word

/- The fields of a word, as numbers. -/

theorem or_eq_add {k hi lo : Nat} (aligned : 2 ^ k ∣ hi) (small : lo < 2 ^ k) :
    hi ||| lo = hi + lo := by
  obtain ⟨c, rfl⟩ := aligned
  exact (Nat.two_pow_add_eq_or_of_lt small c).symm

/-- A field that is moved to its place in a wider word and stays inside. -/
theorem toNat_placed {v w : Nat} (x : BitVec w) {k : Nat} (fits : x.toNat * 2 ^ k < 2 ^ v) :
    (x.setWidth v <<< k).toNat = x.toNat * 2 ^ k := by
  have small : x.toNat < 2 ^ v :=
    Nat.lt_of_le_of_lt (Nat.le_mul_of_pos_right _ (Nat.two_pow_pos k)) fits
  rw [BitVec.toNat_shiftLeft, BitVec.toNat_setWidth, Nat.mod_eq_of_lt small, Nat.shiftLeft_eq,
    Nat.mod_eq_of_lt fits]

/-- A field of `n` bits that is moved down and masked. -/
theorem toNat_taken {v : Nat} (t : BitVec v) (k : Nat) {n : Nat} {mask : BitVec v}
    (ones : mask.toNat = 2 ^ n - 1) :
    (t >>> k &&& mask).toNat = t.toNat / 2 ^ k % 2 ^ n := by
  rw [BitVec.toNat_and, BitVec.toNat_ushiftRight, ones, Nat.and_two_pow_sub_one_eq_mod,
    Nat.shiftRight_eq_div_pow]

/-- A field that is masked in its place and moved down. -/
theorem toNat_masked {v : Nat} (t : BitVec v) (k : Nat) {n : Nat} {mask : BitVec v}
    (ones : (mask >>> k).toNat = 2 ^ n - 1) :
    ((t &&& mask) >>> k).toNat = t.toNat / 2 ^ k % 2 ^ n := by
  rw [BitVec.ushiftRight_and_distrib, toNat_taken t k ones]

/-- The bits from `k` on are all clear exactly in the words below `2 ^ k`. -/
theorem and_high_eq_zero_iff {v k : Nat} (t : BitVec v) {mask : BitVec v}
    (inside : k ≤ v) (ones : mask.toNat = 2 ^ k * (2 ^ (v - k) - 1)) :
    t &&& mask = 0 ↔ t.toNat < 2 ^ k := by
  have zero : (0 : BitVec v).toNat = 0 := BitVec.toNat_zero
  rw [← BitVec.toNat_inj, BitVec.toNat_and, ones, zero]
  constructor
  · intro clear
    have word : t.toNat / 2 ^ k < 2 ^ (v - k) := by
      rw [Nat.div_lt_iff_lt_mul (Nat.two_pow_pos k), ← Nat.pow_add, Nat.sub_add_cancel inside]
      exact t.isLt
    have shifted := congrArg (· >>> k) clear
    rw [Nat.shiftRight_and_distrib, Nat.shiftRight_eq_div_pow, Nat.shiftRight_eq_div_pow,
      Nat.mul_div_cancel_left _ (Nat.two_pow_pos k), Nat.and_two_pow_sub_one_eq_mod,
      Nat.mod_eq_of_lt word, Nat.zero_shiftRight] at shifted
    exact (Nat.div_eq_zero_iff.mp shifted).resolve_left (Nat.two_pow_pos k).ne'
  · intro small
    apply Nat.eq_of_testBit_eq
    intro i
    rw [Nat.testBit_and, Nat.testBit_two_pow_mul, Nat.zero_testBit]
    by_cases low : i ≥ k
    · have clear : t.toNat.testBit i = false :=
        Nat.testBit_lt_two_pow (small.trans_le (Nat.pow_le_pow_right Nat.two_pos low))
      rw [clear, Bool.false_and]
    · rw [decide_eq_false low, Bool.false_and, Bool.and_false]

/-- The mask of `k` ones leaves nothing exactly in the words whose low `k` bits
are clear. -/
theorem and_low_eq_zero_iff {v k : Nat} (t : BitVec v) {mask : BitVec v}
    (ones : mask.toNat = 2 ^ k - 1) : t &&& mask = 0 ↔ ∀ j < k, t.getLsbD j = false := by
  have low : ∀ j, mask.getLsbD j = decide (j < k) := by
    intro j
    rw [← BitVec.testBit_toNat, ones, Nat.testBit_two_pow_sub_one]
  constructor
  · intro clear j inside
    have bit : (t &&& mask).getLsbD j = false := by rw [clear]; exact BitVec.getLsbD_zero
    rw [BitVec.getLsbD_and, low j, decide_eq_true inside, Bool.and_true] at bit
    exact bit
  · intro clear
    apply BitVec.eq_of_getLsbD_eq
    intro j _
    rw [BitVec.getLsbD_and, low j]
    by_cases inside : j < k
    · rw [clear j inside, Bool.false_and]
      exact BitVec.getLsbD_zero.symm
    · rw [decide_eq_false inside, Bool.and_false]
      exact BitVec.getLsbD_zero.symm

theorem getLsbD_sshiftRight_inside {v k j : Nat} (t : BitVec v) (inside : k + j < v) :
    (t.sshiftRight k).getLsbD j = t.getLsbD (k + j) := by
  have small : ¬ v ≤ j := by omega
  rw [BitVec.getLsbD_sshiftRight, if_pos inside, decide_eq_false small, Bool.not_false,
    Bool.true_and]

end Library.Word
