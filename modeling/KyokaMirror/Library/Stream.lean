import Mathlib.Data.List.Basic

set_option autoImplicit false

namespace Library.Stream

variable {α : Type}

/-- How one call of `recv` ends. -/
inductive Answer where
  | bytes (more : Nat)
  | closed
  | error (again : Bool)

/-- A connection: what the other side sends, in order, and how each call of
`recv` will end. `again` tells whether `errno` asks to try again. -/
structure Socket (α : Type) where
  stream : List α
  answers : Nat → Answer
  calls : Nat
  again : Bool

/-- `recv(socket, buffer, len, 0)`: some of what has arrived, or `none` for a
result of 0 or less. -/
def recv (s : Socket α) (len : Nat) : Option (List α) × Socket α :=
  match s.answers s.calls with
  | .closed => (none, { s with calls := s.calls + 1 })
  | .error again => (none, { s with calls := s.calls + 1, again := again })
  | .bytes more =>
      match s.stream.take (min (more + 1) len) with
      | [] => (none, { s with calls := s.calls + 1 })
      | first :: rest =>
          (some (first :: rest),
            { s with stream := s.stream.drop (min (more + 1) len), calls := s.calls + 1 })

/-- What a call of `recv` can do. -/
theorem recv_cases (s : Socket α) (len : Nat) :
    (∃ bytes s', recv s len = (some bytes, s') ∧ bytes ≠ [] ∧ bytes.length ≤ len ∧
      s.stream = bytes ++ s'.stream ∧ s'.answers = s.answers) ∨
    ∃ s', recv s len = (none, s') ∧ s'.stream = s.stream ∧ s'.answers = s.answers := by
  rw [recv]
  split
  · exact .inr ⟨_, rfl, rfl, rfl⟩
  · exact .inr ⟨_, rfl, rfl, rfl⟩
  · split
    · exact .inr ⟨_, rfl, rfl, rfl⟩
    · rename_i first rest taken
      left
      refine ⟨_, _, rfl, List.cons_ne_nil _ _, ?_, ?_, rfl⟩
      · rw [← taken, List.length_take]
        omega
      · rw [← taken]
        exact (List.take_append_drop _ _).symm

/-- Every call finds some bytes, as long as there are any. -/
def Steady (s : Socket α) : Prop := ∀ k, ∃ more, s.answers k = .bytes more

theorem recv_steady {s : Socket α} (steady : Steady s) {len : Nat} (positive : 0 < len)
    (left : s.stream ≠ []) :
    ∃ bytes s', recv s len = (some bytes, s') ∧ bytes ≠ [] ∧ bytes.length ≤ len ∧
      s.stream = bytes ++ s'.stream ∧ s'.answers = s.answers := by
  rcases recv_cases s len with done | ⟨s', result, _⟩
  · exact done
  · obtain ⟨more, answer⟩ := steady s.calls
    obtain ⟨first, rest, nonempty⟩ := List.exists_cons_of_ne_nil left
    have count : min (more + 1) len = min more (len - 1) + 1 := by omega
    rw [recv, answer, nonempty] at result
    simp only [count, List.take_succ_cons, Prod.mk.injEq, reduceCtorEq, false_and] at result

end Library.Stream
