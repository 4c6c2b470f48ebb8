import Mathlib.Data.List.Basic

set_option autoImplicit false

namespace Library.Transition

variable {σ α : Type} (step : α → σ → Option σ)

/-- A run takes its actions from left to right and stops where one is not
enabled. -/
def run : List α → σ → Option σ
  | [], s => some s
  | a :: rest, s => (step a s).bind (run rest)

@[simp] theorem run_nil (s : σ) : run step [] s = some s := rfl

theorem run_cons (a : α) (rest : List α) (s : σ) :
    run step (a :: rest) s = (step a s).bind (run step rest) := rfl

theorem run_append (first second : List α) (s : σ) :
    run step (first ++ second) s = (run step first s).bind (run step second) := by
  induction first generalizing s with
  | nil => rfl
  | cons a rest ih =>
      simp only [List.cons_append, run_cons, Option.bind_assoc]
      congr 1
      funext t
      exact ih t

theorem run_singleton (a : α) (s : σ) : run step [a] s = step a s := by
  rw [run_cons]
  cases step a s <;> rfl

/-- `t` is reached from `s` by some sequence of enabled actions. -/
def Reaches (s t : σ) : Prop := ∃ actions, run step actions s = some t

theorem Reaches.refl (s : σ) : Reaches step s s := ⟨[], rfl⟩

variable {step}

theorem Reaches.single {a : α} {s t : σ} (taken : step a s = some t) : Reaches step s t :=
  ⟨[a], by rw [run_singleton, taken]⟩

theorem Reaches.trans {s t u : σ} (first : Reaches step s t) (second : Reaches step t u) :
    Reaches step s u := by
  obtain ⟨left, hleft⟩ := first
  obtain ⟨right, hright⟩ := second
  exact ⟨left ++ right, by rw [run_append, hleft, Option.bind_some, hright]⟩

/-- What every action of a run preserves under a side condition on it and on the
state before it, the run preserves. -/
theorem run_invariant (inv : σ → Prop) (side : α → σ → Prop)
    (preserved : ∀ a u v, inv u → side a u → step a u = some v → inv v) {actions : List α}
    {s t : σ} (initial : inv s) (h : run step actions s = some t)
    (sides : ∀ before a after u, actions = before ++ a :: after → run step before s = some u →
      side a u) : inv t := by
  induction actions generalizing s with
  | nil => cases h; exact initial
  | cons a rest ih =>
      rw [run_cons] at h
      obtain ⟨u, taken, left⟩ := Option.bind_eq_some_iff.mp h
      have here : side a s := sides [] a rest s rfl rfl
      apply ih (preserved a s u initial here taken) left
      intro before b after v split reached
      apply sides (a :: before) b after v (by rw [split, List.cons_append])
      rw [run_cons, taken, Option.bind_some, reached]

/-- The invariant rule: what one enabled action preserves, a whole run
preserves. -/
theorem Reaches.invariant {s t : σ} (reached : Reaches step s t) (inv : σ → Prop)
    (initial : inv s)
    (preserved : ∀ a u v, inv u → step a u = some v → inv v) : inv t := by
  obtain ⟨actions, h⟩ := reached
  apply run_invariant inv (fun _ _ => True) _ initial h
  · intro _ _ _ _ _ _
    trivial
  · intro a u v kept _ taken
    exact preserved a u v kept taken

/-- A run of one part of a system is a run of the system. -/
theorem Reaches.lift {β : Type} {whole : β → σ → Option σ} {s t : σ} (reached : Reaches step s t)
    (part : ∀ a u v, step a u = some v → ∃ b, whole b u = some v) : Reaches whole s t := by
  obtain ⟨actions, h⟩ := reached
  induction actions generalizing s with
  | nil => cases h; exact Reaches.refl whole t
  | cons a rest ih =>
      rw [run_cons] at h
      obtain ⟨u, taken, left⟩ := Option.bind_eq_some_iff.mp h
      obtain ⟨b, same⟩ := part a s u taken
      exact (Reaches.single same).trans (ih left)

section

variable (step)

/-- Every action of a run satisfies `P` with the states before and after it. -/
def Each (P : α → σ → σ → Prop) : List α → σ → Prop
  | [], _ => True
  | a :: rest, s =>
    match step a s with
    | none => True
    | some t => P a s t ∧ Each P rest t

instance Each.decidable (P : α → σ → σ → Prop) [∀ a s t, Decidable (P a s t)] :
    (actions : List α) → (s : σ) → Decidable (Each step P actions s)
  | [], _ => isTrue trivial
  | a :: rest, s =>
    match taken : step a s with
    | none => isTrue (by rw [Each, taken]; trivial)
    | some t =>
      have := Each.decidable P rest t
      decidable_of_iff (P a s t ∧ Each step P rest t) (by rw [Each, taken])

end

/-- What every action keeps under a condition that holds of all of them. -/
theorem Each.invariant {P : α → σ → σ → Prop} {actions : List α} {s t : σ}
    (each : Each step P actions s) (inv : σ → Prop)
    (preserved : ∀ a u v, inv u → P a u v → step a u = some v → inv v) (initial : inv s)
    (h : run step actions s = some t) : inv t := by
  induction actions generalizing s with
  | nil => cases h; exact initial
  | cons a rest ih =>
      rw [run_cons] at h
      obtain ⟨u, taken, left⟩ := Option.bind_eq_some_iff.mp h
      rw [Each, taken] at each
      exact ih each.2 (preserved a s u initial each.1 taken) left

theorem Each.and {P Q : α → σ → σ → Prop} {actions : List α} {s : σ}
    (first : Each step P actions s) (second : Each step Q actions s) :
    Each step (fun a s t => P a s t ∧ Q a s t) actions s := by
  induction actions generalizing s with
  | nil => trivial
  | cons a rest ih =>
      rw [Each] at first second ⊢
      split
      next => trivial
      next t taken =>
        rw [taken] at first second
        exact ⟨⟨first.1, second.1⟩, ih first.2 second.2⟩

theorem Each.front {P : α → σ → σ → Prop} {first second : List α} {s : σ}
    (each : Each step P (first ++ second) s) : Each step P first s := by
  induction first generalizing s with
  | nil => trivial
  | cons a rest ih =>
      rw [List.cons_append, Each] at each
      rw [Each]
      split
      next => trivial
      next t taken =>
        rw [taken] at each
        exact ⟨each.1, ih each.2⟩

/-- Two conditions that an invariant makes the same for one action are the same
for a run. -/
theorem each_iff {P Q : α → σ → σ → Prop} (inv : σ → Prop) (side : α → Prop)
    (same : ∀ a s t, inv s → side a → step a s = some t → inv t ∧ (P a s t ↔ Q a s t))
    {actions : List α} (sides : ∀ a ∈ actions, side a) {s : σ} (initial : inv s) :
    Each step P actions s ↔ Each step Q actions s := by
  induction actions generalizing s with
  | nil => exact Iff.rfl
  | cons a rest ih =>
      rw [Each, Each]
      split
      next => exact Iff.rfl
      next t taken =>
        obtain ⟨kept, agree⟩ := same a s t initial (sides a List.mem_cons_self) taken
        rw [agree, ih (fun b later => sides b (List.mem_cons_of_mem a later)) kept]

end Library.Transition
