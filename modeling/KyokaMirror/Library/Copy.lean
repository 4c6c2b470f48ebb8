import Mathlib.Logic.Function.Basic
import Mathlib.Tactic.Common

set_option autoImplicit false

namespace Library.Copy

variable {α : Type}

/-- The loop `for (k = 0; k < count; k++) dst[start + k] = src[from + k]`
between two separate arrays, each seen as a total memory. -/
def copy (dst src : Nat → α) (start origin : Nat) : Nat → Nat → α
  | 0 => dst
  | count + 1 =>
      Function.update (copy dst src start origin count) (start + count) (src (origin + count))

theorem copy_apply (dst src : Nat → α) (start origin count address : Nat) :
    copy dst src start origin count address =
      if start ≤ address ∧ address < start + count then src (origin + (address - start))
      else dst address := by
  induction count with
  | zero =>
      have empty : ¬ (start ≤ address ∧ address < start + 0) := by omega
      simp only [copy, empty, ↓reduceIte]
  | succ count ih =>
      rw [copy]
      by_cases last : address = start + count
      · have inside : start ≤ address ∧ address < start + (count + 1) := by omega
        rw [last, Function.update_self, ← last]
        simp only [inside, and_self, ↓reduceIte]
        congr 1
        omega
      · rw [Function.update_of_ne last, ih]
        have same : (start ≤ address ∧ address < start + count) ↔
            (start ≤ address ∧ address < start + (count + 1)) := by omega
        simp only [same]

theorem copy_inside (dst src : Nat → α) (start origin count address : Nat)
    (lower : start ≤ address) (upper : address < start + count) :
    copy dst src start origin count address = src (origin + (address - start)) := by
  rw [copy_apply]
  simp only [lower, upper, and_self, ↓reduceIte]

theorem copy_outside (dst src : Nat → α) (start origin count address : Nat)
    (outside : address < start ∨ start + count ≤ address) :
    copy dst src start origin count address = dst address := by
  rw [copy_apply]
  have absent : ¬ (start ≤ address ∧ address < start + count) := by omega
  simp only [absent, ↓reduceIte]

/-- Two copies whose source moves in step with their destination agree where
they overlap, so the second only extends the window of the first. -/
theorem copy_slide (dst src : Nat → α) (start origin first shift second : Nat)
    (touch : shift ≤ first) (extend : first ≤ shift + second) :
    copy (copy dst src start origin first) src (start + shift) (origin + shift) second =
      copy dst src start origin (shift + second) := by
  funext address
  by_cases later : start + shift ≤ address ∧ address < start + shift + second
  · rw [copy_inside _ _ _ _ _ _ later.1 later.2,
      copy_inside _ _ _ _ _ _ (show start ≤ address by omega) (by omega)]
    congr 1
    omega
  · rw [copy_outside _ _ _ _ _ _ (by omega)]
    by_cases early : start ≤ address ∧ address < start + first
    · rw [copy_inside _ _ _ _ _ _ early.1 early.2,
        copy_inside _ _ _ _ _ _ early.1 (by omega)]
    · rw [copy_outside _ _ _ _ _ _ (by omega), copy_outside _ _ _ _ _ _ (by omega)]

end Library.Copy
