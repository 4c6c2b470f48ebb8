import Mathlib.Data.Int.Order.Basic

set_option autoImplicit false

namespace Library.Truncation

/- Quotients that are rounded towards 0, and what is left of them in a word. -/

section

variable {d : Int} (positive : 0 < d)
include positive

theorem tdiv_nonneg_iff (n : Int) : 0 ≤ n.tdiv d ↔ -d < n := by
  by_cases sign : 0 ≤ n
  · exact iff_of_true (Int.tdiv_nonneg sign (Int.le_of_lt positive)) (by omega)
  · have mirrored : n.tdiv d = -((-n) / d) := by
      rw [← Int.tdiv_eq_ediv_of_nonneg (by omega), Int.neg_tdiv, Int.neg_neg]
    have small : (-n) / d < 1 ↔ -n < 1 * d := Int.ediv_lt_iff_lt_mul positive
    omega

theorem tdiv_le_iff {bound : Int} (nonneg : 0 ≤ bound) (n : Int) :
    n.tdiv d ≤ bound ↔ n < (bound + 1) * d := by
  by_cases sign : 0 ≤ n
  · rw [Int.tdiv_eq_ediv_of_nonneg sign, ← Int.ediv_lt_iff_lt_mul positive, Int.lt_add_one_iff]
  · have zero : n.tdiv d ≤ 0 := by
      have mirrored := Int.tdiv_nonneg (show 0 ≤ -n by omega) (Int.le_of_lt positive)
      rw [Int.neg_tdiv] at mirrored
      omega
    have above : 0 ≤ (bound + 1) * d := Int.mul_nonneg (by omega) (Int.le_of_lt positive)
    exact iff_of_true (Int.le_trans zero nonneg) (by omega)

/-- The quotient is less than one divisor away. -/
theorem tdiv_mul_near (n : Int) : n - d < n.tdiv d * d ∧ n.tdiv d * d < n + d := by
  have above := Int.lt_tdiv_add_one_mul_self n positive
  have below := Int.lt_tdiv_add_one_mul_self (-n) positive
  rw [Int.add_mul, Int.one_mul] at above
  rw [Int.neg_tdiv, Int.add_mul, Int.one_mul, Int.neg_mul] at below
  omega

theorem add_ediv_le {w : Int} (nonneg : 0 ≤ w) (n : Int) : (n + w) / d ≤ n / d + w := by
  have wider : w * 1 ≤ w * d := Int.mul_le_mul_of_nonneg_left (by omega) nonneg
  calc (n + w) / d ≤ (n + w * d) / d := Int.ediv_le_ediv positive (by omega)
    _ = n / d + w := Int.add_mul_ediv_right _ _ (Int.ne_of_gt positive)

/-- A larger dividend moves the quotient by no more than the difference. -/
theorem add_tdiv_le {w : Int} (nonneg : 0 ≤ w) (n : Int) : (n + w).tdiv d ≤ n.tdiv d + w := by
  by_cases sign : 0 ≤ n
  · rw [Int.tdiv_eq_ediv_of_nonneg sign, Int.tdiv_eq_ediv_of_nonneg (by omega)]
    exact add_ediv_le positive nonneg n
  · by_cases moved : 0 ≤ n + w
    · -- The two quotients are on different sides of 0.
      have after := Int.tdiv_le_self d moved
      have before := Int.tdiv_le_self d (show 0 ≤ -n by omega)
      rw [Int.neg_tdiv] at before
      omega
    · have step := add_ediv_le positive nonneg (-(n + w))
      rw [← Int.tdiv_eq_ediv_of_nonneg (by omega), ← Int.tdiv_eq_ediv_of_nonneg (by omega),
        show -(n + w) + w = -n by omega, Int.neg_tdiv, Int.neg_tdiv] at step
      omega

end

/-- A sequence whose remainders and steps stay below half the modulus keeps its
quotient. -/
theorem ediv_eq_of_steps {f : Nat → Int} {modulus w : Int} (room : 2 * w < modulus)
    (nonneg : 0 ≤ w) {last : Nat} (steps : ∀ r < last, f r ≤ f (r + 1) ∧ f (r + 1) ≤ f r + w)
    (low : ∀ r < last, f r % modulus ≤ w) :
    ∀ r ≤ last, f r / modulus = f 0 / modulus := by
  have nonzero : modulus ≠ 0 := by omega
  intro r
  induction r with
  | zero => exact fun _ => rfl
  | succ r ih =>
      intro inside
      have moved := steps r inside
      have rest := low r inside
      have least := Int.emod_nonneg (f r) nonzero
      have whole := Int.emod_add_mul_ediv (f r) modulus
      have split : f (r + 1) =
          f r % modulus + (f (r + 1) - f r) + modulus * (f r / modulus) := by omega
      calc f (r + 1) / modulus
          = (f r % modulus + (f (r + 1) - f r) + modulus * (f r / modulus)) / modulus :=
            congrArg (· / modulus) split
        _ = (f r % modulus + (f (r + 1) - f r)) / modulus + f r / modulus :=
            Int.add_mul_ediv_left _ _ nonzero
        _ = f r / modulus := by rw [Int.ediv_eq_zero_of_lt (by omega) (by omega), Int.zero_add]
        _ = f 0 / modulus := ih (by omega)

end Library.Truncation
