import Mathlib.Tactic.Common

set_option autoImplicit false

namespace Library.Perform

variable {σ α β : Type} (perform : σ → α → σ × List β)

/-- One action after the other: the state they leave and all that they emit. -/
def performAll (s : σ) : List α → σ × List β
  | [] => (s, [])
  | action :: rest =>
      let first := perform s action
      let later := performAll first.1 rest
      (later.1, first.2 ++ later.2)

@[simp] theorem performAll_nil (s : σ) : performAll perform s [] = (s, []) := rfl

theorem performAll_cons (s : σ) (action : α) (rest : List α) :
    performAll perform s (action :: rest) =
      ((performAll perform (perform s action).1 rest).1,
        (perform s action).2 ++ (performAll perform (perform s action).1 rest).2) := rfl

theorem performAll_singleton (s : σ) (action : α) :
    performAll perform s [action] = perform s action := by
  rw [performAll_cons, performAll_nil, List.append_nil]

theorem performAll_append (s : σ) (first second : List α) :
    performAll perform s (first ++ second) =
      ((performAll perform (performAll perform s first).1 second).1,
        (performAll perform s first).2 ++
          (performAll perform (performAll perform s first).1 second).2) := by
  induction first generalizing s with
  | nil => rfl
  | cons action rest ih =>
      rw [List.cons_append, performAll_cons, ih, performAll_cons, List.append_assoc]

end Library.Perform
