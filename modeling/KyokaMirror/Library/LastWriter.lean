import Mathlib.Tactic.Common

set_option autoImplicit false

namespace Library.LastWriter

variable {σ α β : Type} {step : σ → α → σ} {read : σ → β} {sets : α → Option β}

/-- Each action either gives the part `read` a value of its own or leaves it as
it is. -/
def Governs (step : σ → α → σ) (read : σ → β) (sets : α → Option β) : Prop :=
  ∀ s a, read (step s a) = (sets a).getD (read s)

theorem Governs.kept (governs : Governs step read sets) (actions : List α) (s : σ)
    (none : ∀ a ∈ actions, sets a = Option.none) : read (actions.foldl step s) = read s := by
  induction actions generalizing s with
  | nil => rfl
  | cons a rest ih =>
      have here := none a List.mem_cons_self
      rw [List.foldl_cons, ih _ fun b member => none b (List.mem_cons_of_mem _ member), governs,
        here, Option.getD_none]

/-- The last action that sets the part decides it. -/
theorem Governs.last (governs : Governs step read sets) {a : α} {value : β}
    (before after : List α) (s : σ) (writes : sets a = some value)
    (none : ∀ b ∈ after, sets b = Option.none) :
    read ((before ++ a :: after).foldl step s) = value := by
  rw [List.foldl_append, List.foldl_cons, governs.kept after _ none, governs, writes,
    Option.getD_some]

end Library.LastWriter
