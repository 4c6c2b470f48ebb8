import Mathlib.Data.List.Sort
import Mathlib.Logic.Equiv.Basic

set_option autoImplicit false

namespace Library.Selection

/- Selection in place, on the first `n` elements of an array. -/

section

variable {α : Type}

/-- `temp = t[i]; t[i] = t[m]; t[m] = temp;`. -/
def exchange (t : Nat → α) (i m : Nat) : Nat → α :=
  Function.update (Function.update t i (t m)) m (t i)

theorem exchange_eq (t : Nat → α) (i m : Nat) : exchange t i m = t ∘ Equiv.swap i m := by
  funext p
  by_cases last : p = m
  · rw [last, exchange, Function.update_self, Function.comp_apply, Equiv.swap_apply_right]
  · by_cases first : p = i
    · rw [exchange, Function.update_of_ne last, first, Function.update_self, Function.comp_apply,
        Equiv.swap_apply_left]
    · rw [exchange, Function.update_of_ne last, Function.update_of_ne first, Function.comp_apply,
        Equiv.swap_apply_of_ne_of_ne first last]

theorem map_range_perm {n : Nat} {σ : Equiv.Perm Nat} (inside : ∀ p, σ p < n ↔ p < n)
    (t : Nat → α) : ((List.range n).map (t ∘ σ)).Perm ((List.range n).map t) := by
  rw [← List.map_map]
  apply List.Perm.map
  apply (List.perm_ext_iff_of_nodup (List.nodup_range.map σ.injective) List.nodup_range).mpr
  intro p
  rw [List.mem_map, List.mem_range]
  constructor
  · rintro ⟨q, member, rfl⟩
    exact (inside q).mpr (List.mem_range.mp member)
  · intro small
    refine ⟨σ.symm p, List.mem_range.mpr ?_, σ.apply_symm_apply p⟩
    rwa [← inside, σ.apply_symm_apply]

end

variable {α : Type} [LinearOrder α]

/-- The inner loop, with `count` elements from `j` on to go. -/
def least (t : Nat → α) : (count j min : Nat) → Nat
  | 0, _, min => min
  | count + 1, j, min => least t count (j + 1) (if t min > t j then j else min)

/-- The outer loop, with `count` rounds from `i` on to go. -/
def select (n : Nat) : (count i : Nat) → (Nat → α) → Nat → α
  | 0, _, t => t
  | count + 1, i, t => select n count (i + 1) (exchange t i (least t (n - (i + 1)) (i + 1) i))

def sort (n : Nat) (t : Nat → α) : Nat → α := select n (n - 1) 0 t

/-- What the inner loop returns. -/
structure IsLeastFrom (t : Nat → α) (i n m : Nat) : Prop where
  lower : i ≤ m
  inside : m < n
  smallest : ∀ q, i ≤ q → q < n → t m ≤ t q

/-- The induction is on what is left; what was passed is at least the minimum so far. -/
theorem least_spec (t : Nat → α) (i n : Nat) :
    ∀ count j min, j + count = n → i ≤ min → min < j →
      (∀ q, i ≤ q → q < j → t min ≤ t q) → IsLeastFrom t i n (least t count j min) := by
  intro count
  induction count with
  | zero =>
      intro j min total start before passed
      rw [← total]
      exact ⟨start, before, passed⟩
  | succ count ih =>
      intro j min total start before passed
      rw [least]
      have rest : j + 1 + count = n := by omega
      split
      next smaller =>
        apply ih (j + 1) j rest (by omega) (Nat.lt_succ_self j)
        intro q low high
        by_cases here : q = j
        · rw [here]
        · exact smaller.le.trans (passed q low (by omega))
      next larger =>
        apply ih (j + 1) min rest start (by omega)
        intro q low high
        by_cases here : q = j
        · rw [here]
          exact not_lt.mp larger
        · exact passed q low (by omega)

/-- After `i` rounds: the elements are those of `t` in another order, and the
first `i` are at most what follows them. -/
structure Placed (n : Nat) (t : Nat → α) (i : Nat) (u : Nat → α) : Prop where
  rearranged : ∃ σ : Equiv.Perm Nat, (∀ p, σ p < n ↔ p < n) ∧ u = t ∘ σ
  front : ∀ p q, p < i → p < q → q < n → u p ≤ u q

theorem placed_start (n : Nat) (t : Nat → α) : Placed n t 0 t :=
  ⟨⟨Equiv.refl Nat, fun _ => Iff.rfl, rfl⟩, fun _ _ none => absurd none (Nat.not_lt_zero _)⟩

/-- An exchange of two places from `i` on moves nothing across `i`. -/
theorem swap_between {i m n : Nat} (first : i ≤ m) (inside : m < n) {q : Nat} (low : i ≤ q)
    (high : q < n) : i ≤ Equiv.swap i m q ∧ Equiv.swap i m q < n := by
  rw [Equiv.swap_apply_def]
  split
  · exact ⟨first, inside⟩
  · split
    · exact ⟨le_refl i, first.trans_lt inside⟩
    · exact ⟨low, high⟩

theorem swap_lt_iff {i m n : Nat} (before : i < n) (inside : m < n) (p : Nat) :
    Equiv.swap i m p < n ↔ p < n := by
  rw [Equiv.swap_apply_def]
  split
  · omega
  · split
    · omega
    · rfl

/-- One round of the outer loop. -/
theorem Placed.round {n : Nat} {t : Nat → α} {i m : Nat} {u : Nat → α} (placed : Placed n t i u)
    (found : IsLeastFrom u i n m) : Placed n t (i + 1) (exchange u i m) := by
  obtain ⟨σ, inside, same⟩ := placed.rearranged
  have before : i < n := found.lower.trans_lt found.inside
  rw [exchange_eq]
  constructor
  · refine ⟨(Equiv.swap i m).trans σ, ?_, by rw [same]; rfl⟩
    intro p
    exact (inside _).trans (swap_lt_iff before found.inside p)
  · intro p q round later last
    rw [Function.comp_apply, Function.comp_apply]
    by_cases here : p = i
    · obtain ⟨low, high⟩ :=
        swap_between found.lower found.inside (show i ≤ q by omega) last
      rw [here, Equiv.swap_apply_left]
      exact found.smallest _ low high
    · -- The places before `i` keep their element, and `q` stays behind them.
      have early : p < i := by omega
      have start := found.lower
      rw [Equiv.swap_apply_of_ne_of_ne here (by omega)]
      by_cases behind : i ≤ q
      · obtain ⟨low, high⟩ := swap_between start found.inside behind last
        exact placed.front p _ early (early.trans_le low) high
      · rw [Equiv.swap_apply_of_ne_of_ne (by omega) (by omega)]
        exact placed.front p q early later last

theorem select_placed {n : Nat} {t : Nat → α} :
    ∀ count i u, i + count + 1 = n → Placed n t i u →
      Placed n t (i + count) (select n count i u) := by
  intro count
  induction count with
  | zero =>
      intro i u _ placed
      exact placed
  | succ count ih =>
      intro i u total placed
      have found : IsLeastFrom u i n (least u (n - (i + 1)) (i + 1) i) := by
        apply least_spec u i n _ _ _ (by omega) (le_refl i) (Nat.lt_succ_self i)
        intro q low high
        rw [show q = i by omega]
      have next := ih (i + 1) _ (by omega) (placed.round found)
      rw [select]
      rwa [show i + 1 + count = i + (count + 1) by omega] at next

/-- The loops sort. -/
theorem map_sort {n : Nat} (positive : 0 < n) (t : Nat → α) :
    (List.range n).map (sort n t) = ((List.range n).map t).insertionSort (· ≤ ·) := by
  have placed := select_placed (n - 1) 0 t (by omega) (placed_start n t)
  obtain ⟨σ, inside, same⟩ := placed.rearranged
  have order : ((List.range n).map (sort n t)).Pairwise (· ≤ ·) := by
    rw [List.pairwise_map]
    apply List.Pairwise.imp_of_mem _ (List.pairwise_lt_range (n := n))
    intro p q _ last later
    have high := List.mem_range.mp last
    exact placed.front p q (by omega) later high
  have rearranged : ((List.range n).map (sort n t)).Perm ((List.range n).map t) := by
    rw [sort, same]
    exact map_range_perm inside t
  exact List.Perm.eq_of_pairwise' order (List.pairwise_insertionSort _ _)
    (rearranged.trans (List.perm_insertionSort _ _).symm)

end Library.Selection
