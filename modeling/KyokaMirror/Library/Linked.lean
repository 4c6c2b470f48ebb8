import Mathlib.Tactic.Common

set_option autoImplicit false

namespace Library

variable {α : Type}

/-- Following `link` from `start` visits exactly `nodes` and arrives at `stop`. -/
def Linked (link : α → α) : α → List α → α → Prop
  | start, [], stop => start = stop
  | start, a :: rest, stop => start = a ∧ Linked link (link a) rest stop

namespace Linked

/-- Links elsewhere do not matter. -/
theorem congr {link link' : α → α} {start stop : α} {nodes : List α}
    (same : ∀ a ∈ nodes, link' a = link a) (linked : Linked link start nodes stop) :
    Linked link' start nodes stop := by
  induction nodes generalizing start with
  | nil => exact linked
  | cons a rest ih =>
      obtain ⟨here, later⟩ := linked
      refine ⟨here, ?_⟩
      rw [same a List.mem_cons_self]
      exact ih (fun b member => same b (List.mem_cons_of_mem _ member)) later

/-- Hooking a node behind the last one. -/
theorem snoc {link link' : α → α} {start stop last b : α} {front : List α}
    (linked : Linked link start (front ++ [last]) stop) (same : ∀ a ∈ front, link' a = link a)
    (hooked : link' last = b) (ends : link' b = stop) :
    Linked link' start (front ++ [last] ++ [b]) stop := by
  induction front generalizing start with
  | nil =>
      obtain ⟨here, _⟩ := linked
      exact ⟨here, hooked, ends⟩
  | cons a rest ih =>
      obtain ⟨here, later⟩ := linked
      refine ⟨here, ?_⟩
      rw [same a List.mem_cons_self]
      exact ih later (fun c member => same c (List.mem_cons_of_mem _ member))

theorem front {link : α → α} {start last stop : α} {nodes : List α}
    (linked : Linked link start (nodes ++ [last]) stop) : Linked link start nodes last := by
  induction nodes generalizing start with
  | nil => exact linked.1
  | cons a rest ih => exact ⟨linked.1, ih linked.2⟩

/-- Every link leads to a node or to the end. -/
theorem next {link : α → α} {start stop a : α} {nodes : List α}
    (linked : Linked link start nodes stop) (member : a ∈ nodes) :
    link a ∈ nodes ∨ link a = stop := by
  induction nodes generalizing start with
  | nil => exact (List.not_mem_nil member).elim
  | cons b rest ih =>
      obtain ⟨_, later⟩ := linked
      rcases List.mem_cons.mp member with rfl | behind
      · cases rest with
        | nil => exact .inr later
        | cons c more =>
            rw [later.1]
            exact .inl (List.mem_cons_of_mem _ List.mem_cons_self)
      · exact (ih later behind).imp_left (List.mem_cons_of_mem _)

end Linked

end Library
