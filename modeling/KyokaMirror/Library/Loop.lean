import Mathlib.Logic.Function.Iterate
import Mathlib.Data.Nat.Find

set_option autoImplicit false

namespace Library.Loop

variable {σ : Type} {test : σ → Prop} {body : σ → σ}

/-- `while (test) body` leads from `s` to `t` in `n` rounds and ends there. No
bound on the rounds is given to the loop. -/
structure Ends (test : σ → Prop) (body : σ → σ) (n : Nat) (s t : σ) : Prop where
  rounds : body^[n] s = t
  goes : ∀ k < n, test (body^[k] s)
  stops : ¬ test t

theorem ends_zero_iff {s t : σ} : Ends test body 0 s t ↔ ¬ test s ∧ s = t := by
  constructor
  · rintro ⟨rfl, _, stops⟩
    exact ⟨stops, rfl⟩
  · rintro ⟨stops, rfl⟩
    exact ⟨rfl, fun k early => absurd early (Nat.not_lt_zero k), stops⟩

theorem ends_succ_iff {n : Nat} {s t : σ} :
    Ends test body (n + 1) s t ↔ test s ∧ Ends test body n (body s) t := by
  constructor
  · rintro ⟨rounds, goes, stops⟩
    refine ⟨goes 0 (Nat.succ_pos n), rounds, ?_, stops⟩
    intro k early
    exact goes (k + 1) (Nat.succ_lt_succ early)
  · rintro ⟨first, rounds, goes, stops⟩
    refine ⟨rounds, ?_, stops⟩
    intro k early
    cases k with
    | zero => exact first
    | succ k => exact goes k (Nat.lt_of_succ_lt_succ early)

section

variable (state : Nat → σ) {n : Nat} (next : ∀ k < n, body (state k) = state (k + 1))
include next

theorem iterate_eq_state {k : Nat} (early : k ≤ n) : body^[k] (state 0) = state k := by
  induction k with
  | zero => rfl
  | succ k ih => rw [Function.iterate_succ_apply', ih (Nat.le_of_succ_le early), next k early]

/-- A loop whose states are known ends at the first one that fails the test. -/
theorem ends_of_states (goes : ∀ k < n, test (state k)) (stops : ¬ test (state n)) :
    Ends test body n (state 0) (state n) where
  rounds := iterate_eq_state state next (Nat.le_refl n)
  goes := by
    intro k early
    rw [iterate_eq_state state next (Nat.le_of_lt early)]
    exact goes k early
  stops := stops

/-- A loop some state of which fails the test ends there or earlier. -/
theorem exists_ends_of_states (stops : ¬ test (state n)) :
    ∃ m ≤ n, Ends test body m (state 0) (state m) := by
  classical
  have some : ∃ m, ¬ test (state m) := ⟨n, stops⟩
  have least : Nat.find some ≤ n := Nat.find_min' some stops
  refine ⟨Nat.find some, least, ?_⟩
  apply ends_of_states state _ _ (Nat.find_spec some)
  · intro k early
    exact next k (Nat.lt_of_lt_of_le early least)
  · intro k early
    exact Classical.not_not.mp (Nat.find_min some early)

end

end Library.Loop
