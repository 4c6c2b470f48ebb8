import Mathlib.Tactic.Common

set_option autoImplicit false

namespace Library.Pattern

variable {w : Nat}

/-- The word agrees with the code wherever the mask bit is 0. -/
def Matches (code mask x : BitVec w) : Prop :=
  ∀ j < w, mask.getLsbD j = false → x.getLsbD j = code.getLsbD j

instance (code mask x : BitVec w) : Decidable (Matches code mask x) :=
  inferInstanceAs (Decidable (∀ j < w, _ → _))

theorem matches_self (code mask : BitVec w) : Matches code mask code := fun _ _ _ => rfl

/-- Without a mask bit the word is the code. -/
theorem matches_zero_iff (code x : BitVec w) : Matches code 0#w x ↔ x = code := by
  constructor
  · intro all
    apply BitVec.eq_of_getLsbD_eq
    intro j inside
    exact all j inside BitVec.getLsbD_zero
  · rintro rfl
    exact matches_self x 0#w

/-- With every mask bit set, each word matches. -/
theorem matches_allOnes (code x : BitVec w) : Matches code (BitVec.allOnes w) x := by
  intro j inside unmasked
  rw [BitVec.getLsbD_allOnes, decide_eq_true inside] at unmasked
  cases unmasked

/-- The code with one bit turned round. -/
def turn (x : BitVec w) (j : Nat) : BitVec w := x ^^^ BitVec.twoPow w j

theorem getLsbD_turn_self (x : BitVec w) {j : Nat} (inside : j < w) :
    (turn x j).getLsbD j = !x.getLsbD j := by
  rw [turn, BitVec.getLsbD_xor, BitVec.getLsbD_twoPow, decide_eq_true inside]
  simp

theorem getLsbD_turn_other (x : BitVec w) {j k : Nat} (other : k ≠ j) :
    (turn x j).getLsbD k = x.getLsbD k := by
  rw [turn, BitVec.getLsbD_xor, BitVec.getLsbD_twoPow, decide_eq_false (Ne.symm other),
    Bool.and_false, Bool.xor_false]

/-- The turned bit is noticed exactly where the mask is 0. -/
theorem matches_turn_iff (code mask : BitVec w) {j : Nat} (inside : j < w) :
    Matches code mask (turn code j) ↔ mask.getLsbD j = true := by
  constructor
  · intro all
    by_contra unmasked
    have same := all j inside (Bool.eq_false_iff.mpr unmasked)
    rw [getLsbD_turn_self code inside] at same
    simp at same
  · intro masked k _ unmasked
    apply getLsbD_turn_other
    rintro rfl
    rw [masked] at unmasked
    cases unmasked

/-- Two masks over one code that let the same words pass are equal. -/
theorem mask_ext {code mask other : BitVec w}
    (same : ∀ x, Matches code mask x ↔ Matches code other x) : mask = other := by
  apply BitVec.eq_of_getLsbD_eq
  intro j inside
  have turned := same (turn code j)
  rw [matches_turn_iff code mask inside, matches_turn_iff code other inside] at turned
  exact Bool.eq_iff_iff.mpr turned

end Library.Pattern
