import Mathlib.Data.List.Basic
import Mathlib.Tactic.Ring

set_option autoImplicit false

namespace Library

/-- The parties that wait for a resource: those asleep, and those that have been
woken and have not looked again yet. -/
structure Waiting (α : Type) where
  suspended : List α
  woken : List α

namespace Waiting

variable {α : Type}

def empty : Waiting α := ⟨[], []⟩

/-- Wakes the first sleeper, if there is one. -/
def wake (w : Waiting α) : Waiting α :=
  match w.suspended with
  | [] => w
  | first :: rest => ⟨rest, first :: w.woken⟩

/-- A woken party that satisfies `p` looks again. -/
def pick (w : Waiting α) (p : α → Bool) : Option (α × Waiting α) :=
  (w.woken.find? p).map fun a => (a, ⟨w.suspended, w.woken.eraseP p⟩)

/-- A sleeper that satisfies `p` gives up. -/
def giveUp (w : Waiting α) (p : α → Bool) : Option (α × Waiting α) :=
  (w.suspended.find? p).map fun a => (a, ⟨w.suspended.eraseP p, w.woken⟩)

/-- Nobody sleeps while more is available than the woken parties can take. -/
def Served (available : Nat) (w : Waiting α) : Prop :=
  w.suspended ≠ [] → available ≤ w.woken.length

def total (w : Waiting α) : Nat := w.suspended.length + w.woken.length

section

variable {w w' : Waiting α} {p : α → Bool} {a : α} {available : Nat}

theorem pick_cases (picked : w.pick p = some (a, w')) :
    a ∈ w.woken ∧ p a = true ∧ w' = ⟨w.suspended, w.woken.eraseP p⟩ ∧
      w'.woken.length + 1 = w.woken.length := by
  rw [pick, Option.map_eq_some_iff] at picked
  obtain ⟨b, found, same⟩ := picked
  obtain ⟨rfl, rfl⟩ := Prod.mk.inj same
  have member : b ∈ w.woken := List.mem_of_find?_eq_some found
  have holds : p b = true := List.find?_some found
  have shorter : (w.woken.eraseP p).length = w.woken.length - 1 :=
    List.length_eraseP_of_mem member holds
  have positive : 0 < w.woken.length := List.length_pos_of_mem member
  refine ⟨member, holds, rfl, ?_⟩
  dsimp only
  omega

theorem pick_of_mem (member : a ∈ w.woken) (holds : p a = true) : (w.pick p).isSome := by
  rw [pick, Option.isSome_map, List.find?_isSome]
  exact ⟨a, member, holds⟩

theorem giveUp_cases (left : w.giveUp p = some (a, w')) :
    a ∈ w.suspended ∧ p a = true ∧ w' = ⟨w.suspended.eraseP p, w.woken⟩ := by
  rw [giveUp, Option.map_eq_some_iff] at left
  obtain ⟨b, found, same⟩ := left
  obtain ⟨rfl, rfl⟩ := Prod.mk.inj same
  exact ⟨List.mem_of_find?_eq_some found, List.find?_some found, rfl⟩

@[simp] theorem total_wake : w.wake.total = w.total := by
  unfold wake total
  split
  · rfl
  · rename_i asleep
    rw [asleep, List.length_cons]
    dsimp only
    rw [List.length_cons]
    omega

theorem total_pick (picked : w.pick p = some (a, w')) : w'.total + 1 = w.total := by
  obtain ⟨_, _, rest, shorter⟩ := pick_cases picked
  have same : w'.suspended = w.suspended := by rw [rest]
  rw [total, total, same]
  omega

theorem served_zero : Served 0 w := fun _ => Nat.zero_le _

theorem Served.less {fewer : Nat} (served : Served available w) (less : fewer ≤ available) :
    Served fewer w := fun asleep => Nat.le_trans less (served asleep)

/-- One more is available and one more is awake. -/
theorem Served.wake (served : Served available w) : Served (available + 1) w.wake := by
  unfold Waiting.wake
  split
  · rename_i none
    intro asleep
    exact absurd none asleep
  · rename_i first rest some
    intro asleep
    have before : available ≤ w.woken.length := served (by rw [some]; exact List.cons_ne_nil _ _)
    show available + 1 ≤ (first :: w.woken).length
    rw [List.length_cons]
    omega

/-- A woken party that takes what is available leaves the rest to the others. -/
theorem Served.pick (served : Served available w) (picked : w.pick p = some (a, w')) :
    Served (available - 1) w' := by
  obtain ⟨_, _, rest, shorter⟩ := pick_cases picked
  intro asleep
  have same : w'.suspended = w.suspended := by rw [rest]
  have before := served (same ▸ asleep)
  omega

theorem Served.giveUp (served : Served available w) (left : w.giveUp p = some (a, w')) :
    Served available w' := by
  obtain ⟨member, _, rfl⟩ := giveUp_cases left
  intro _
  exact served (List.ne_nil_of_mem member)

end

/-- Decreases whenever a woken party looks again, whether it is served and leaves
or goes back to sleep. -/
def effort (total woken : Nat) : Nat := total * (total + 1) + woken

theorem effort_leave {total total' woken woken' : Nat} (left : total' + 1 = total)
    (bound : woken' ≤ total') : effort total' woken' < effort total woken := by
  obtain rfl := left
  have expand : (total' + 1) * (total' + 1 + 1) = total' * (total' + 1) + 2 * (total' + 1) := by
    ring
  rw [effort, effort, expand]
  omega

theorem effort_sleep {total woken woken' : Nat} (asleep : woken' + 1 = woken) :
    effort total woken' < effort total woken := by
  rw [effort, effort]
  omega

theorem effort_lt {total woken : Nat} (bound : woken ≤ total) :
    effort total woken < (total + 1) ^ 2 := by
  have expand : (total + 1) ^ 2 = total * (total + 1) + total + 1 := by ring
  rw [effort, expand]
  omega

end Waiting

end Library
