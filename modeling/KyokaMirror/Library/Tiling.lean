import Mathlib.Data.List.Chain
import Mathlib.Algebra.BigOperators.Group.List.Basic
import Mathlib.Algebra.Order.Ring.Nat

set_option autoImplicit false

namespace Library.Tiling

/-- A piece of an interval, in use or free. -/
structure Tile where
  size : Nat
  used : Bool
  deriving DecidableEq, Repr

def width (tiles : List Tile) : Nat := (tiles.map Tile.size).sum

@[simp] theorem width_nil : width [] = 0 := rfl

@[simp] theorem width_cons (t : Tile) (rest : List Tile) :
    width (t :: rest) = t.size + width rest := rfl

@[simp] theorem width_append (first second : List Tile) :
    width (first ++ second) = width first + width second := by
  rw [width, List.map_append, List.sum_append]
  rfl

/-- The tiles in use, each with its start and its size. -/
def lives : Nat → List Tile → List (Nat × Nat)
  | _, [] => []
  | start, t :: rest =>
      if t.used then (start, t.size) :: lives (start + t.size) rest
      else lives (start + t.size) rest

/-- The free tiles, each with its start and its size. -/
def frees : Nat → List Tile → List (Nat × Nat)
  | _, [] => []
  | start, t :: rest =>
      if t.used then frees (start + t.size) rest
      else (start, t.size) :: frees (start + t.size) rest

/-- Where the first free tile begins, or else the end. -/
def firstFree : Nat → List Tile → Nat
  | start, [] => start
  | start, t :: rest => if t.used then firstFree (start + t.size) rest else start

/-- The sizes of the tiles in use together. -/
def usedSize (tiles : List Tile) : Nat := ((tiles.filter Tile.used).map Tile.size).sum

/-- No two free tiles touch. -/
def Separated (tiles : List Tile) : Prop :=
  tiles.IsChain fun a b => a.used = true ∨ b.used = true

theorem lives_append (start : Nat) (first second : List Tile) :
    lives start (first ++ second) = lives start first ++ lives (start + width first) second := by
  induction first generalizing start with
  | nil => rfl
  | cons t rest ih =>
      rw [List.cons_append, lives, lives, ih, width_cons, ← Nat.add_assoc]
      split
      · rw [List.cons_append]
      · rfl

theorem lives_bounds {start : Nat} {tiles : List Tile} {live : Nat × Nat}
    (member : live ∈ lives start tiles) :
    start ≤ live.1 ∧ live.1 + live.2 ≤ start + width tiles := by
  induction tiles generalizing start with
  | nil => cases member
  | cons t rest ih =>
      rw [lives] at member
      rw [width_cons]
      have later : live ∈ lives (start + t.size) rest →
          start ≤ live.1 ∧ live.1 + live.2 ≤ start + (t.size + width rest) := by
        intro behind
        have bounds := ih behind
        omega
      split at member
      · rcases List.mem_cons.mp member with rfl | behind
        · dsimp only
          omega
        · exact later behind
      · exact later member

/-- The tiles in use stand one behind the other. -/
theorem lives_pairwise (start : Nat) (tiles : List Tile) :
    (lives start tiles).Pairwise fun a b => a.1 + a.2 ≤ b.1 := by
  induction tiles generalizing start with
  | nil => exact List.Pairwise.nil
  | cons t rest ih =>
      rw [lives]
      split
      · refine List.Pairwise.cons ?_ (ih _)
        intro b behind
        exact (lives_bounds behind).1
      · exact ih _

theorem lives_apart {start : Nat} {tiles : List Tile} {a b : Nat × Nat}
    (first : a ∈ lives start tiles) (second : b ∈ lives start tiles) :
    a = b ∨ a.1 + a.2 ≤ b.1 ∨ b.1 + b.2 ≤ a.1 := by
  have ordered := lives_pairwise start tiles
  obtain ⟨i, inside, rfl⟩ := List.getElem_of_mem first
  obtain ⟨j, inside', rfl⟩ := List.getElem_of_mem second
  rw [List.pairwise_iff_getElem] at ordered
  rcases Nat.lt_trichotomy i j with before | rfl | behind
  · exact .inr (.inl (ordered i j inside inside' before))
  · exact .inl rfl
  · exact .inr (.inr (ordered j i inside' inside behind))

theorem exists_of_mem_lives {start : Nat} {tiles : List Tile} {live : Nat × Nat}
    (member : live ∈ lives start tiles) :
    ∃ pre post, tiles = pre ++ ⟨live.2, true⟩ :: post ∧ live.1 = start + width pre := by
  induction tiles generalizing start with
  | nil => cases member
  | cons t rest ih =>
      have later : live ∈ lives (start + t.size) rest →
          ∃ pre post, t :: rest = pre ++ ⟨live.2, true⟩ :: post ∧ live.1 = start + width pre := by
        intro behind
        obtain ⟨pre, post, split, place⟩ := ih behind
        refine ⟨t :: pre, post, by rw [split, List.cons_append], ?_⟩
        rw [place, width_cons, Nat.add_assoc]
      rw [lives] at member
      split at member
      · rename_i used
        rcases List.mem_cons.mp member with rfl | behind
        · refine ⟨[], rest, ?_, rfl⟩
          rw [List.nil_append, ← used]
        · exact later behind
      · exact later member

theorem lives_eq_nil_iff (start : Nat) (tiles : List Tile) :
    lives start tiles = [] ↔ ∀ t ∈ tiles, t.used = false := by
  induction tiles generalizing start with
  | nil => exact iff_of_true rfl (fun t member => absurd member List.not_mem_nil)
  | cons t rest ih =>
      rw [lives, List.forall_mem_cons]
      by_cases used : t.used = true
      · rw [if_pos used]
        simp only [reduceCtorEq, used, Bool.true_eq_false, false_and]
      · rw [if_neg used, ih]
        exact (and_iff_right (Bool.eq_false_iff.mpr used)).symm

theorem firstFree_append (start : Nat) (first second : List Tile) :
    firstFree start (first ++ second) =
      if ∀ t ∈ first, t.used = true then firstFree (start + width first) second
      else firstFree start first := by
  induction first generalizing start with
  | nil => rw [if_pos (fun t member => absurd member List.not_mem_nil)]; rfl
  | cons t rest ih =>
      rw [List.cons_append, firstFree, ih, width_cons, ← Nat.add_assoc]
      by_cases used : t.used = true
      · simp only [used, ↓reduceIte, List.forall_mem_cons, true_and, firstFree]
      · have some : ¬ ∀ s ∈ t :: rest, s.used = true := fun all => used (all t List.mem_cons_self)
        rw [if_neg used, if_neg some, firstFree, if_neg used]

theorem firstFree_bounds (start : Nat) (tiles : List Tile) :
    start ≤ firstFree start tiles ∧ firstFree start tiles ≤ start + width tiles := by
  induction tiles generalizing start with
  | nil => exact ⟨Nat.le_refl _, Nat.le_refl _⟩
  | cons t rest ih =>
      rw [firstFree, width_cons]
      split
      · have bounds := ih (start + t.size)
        omega
      · omega

@[simp] theorem usedSize_append (first second : List Tile) :
    usedSize (first ++ second) = usedSize first + usedSize second := by
  rw [usedSize, List.filter_append, List.map_append, List.sum_append]
  rfl

@[simp] theorem usedSize_used (size : Nat) (rest : List Tile) :
    usedSize (⟨size, true⟩ :: rest) = size + usedSize rest := rfl

@[simp] theorem usedSize_free (size : Nat) (rest : List Tile) :
    usedSize (⟨size, false⟩ :: rest) = usedSize rest := rfl

theorem mem_frees_iff {start : Nat} {tiles : List Tile} {free : Nat × Nat} :
    free ∈ frees start tiles ↔
      ∃ pre post, tiles = pre ++ ⟨free.2, false⟩ :: post ∧ free.1 = start + width pre := by
  induction tiles generalizing start with
  | nil =>
      constructor
      · intro member
        cases member
      · rintro ⟨pre, post, split, _⟩
        exact absurd split.symm (by simp)
  | cons t rest ih =>
      have later : free ∈ frees (start + t.size) rest ↔
          ∃ pre post, t :: rest = t :: pre ++ ⟨free.2, false⟩ :: post ∧
            free.1 = start + width (t :: pre) := by
        rw [ih]
        simp only [List.cons_append, List.cons.injEq, true_and, width_cons, Nat.add_assoc]
      constructor
      · intro member
        rw [frees] at member
        split at member
        · obtain ⟨pre, post, split, place⟩ := later.mp member
          exact ⟨t :: pre, post, split, place⟩
        · rename_i unused
          rcases List.mem_cons.mp member with rfl | behind
          · refine ⟨[], rest, ?_, rfl⟩
            rw [List.nil_append, ← Bool.eq_false_iff.mpr unused]
          · obtain ⟨pre, post, split, place⟩ := later.mp behind
            exact ⟨t :: pre, post, split, place⟩
      · rintro ⟨pre, post, split, place⟩
        rw [frees]
        cases pre with
        | nil =>
            obtain ⟨rfl, rfl⟩ := List.cons.inj split
            rw [if_neg Bool.false_ne_true]
            exact List.mem_cons.mpr (.inl (Prod.ext place rfl))
        | cons u pre =>
            obtain ⟨rfl, _⟩ := List.cons.inj split
            have behind := later.mpr ⟨pre, post, split, place⟩
            split
            · exact behind
            · exact List.mem_cons_of_mem _ behind

theorem frees_append (start : Nat) (first second : List Tile) :
    frees start (first ++ second) = frees start first ++ frees (start + width first) second := by
  induction first generalizing start with
  | nil => rfl
  | cons t rest ih =>
      rw [List.cons_append, frees, frees, ih, width_cons, ← Nat.add_assoc]
      split
      · rfl
      · rw [List.cons_append]

theorem frees_bounds {start : Nat} {tiles : List Tile} {free : Nat × Nat}
    (member : free ∈ frees start tiles) :
    start ≤ free.1 ∧ free.1 + free.2 ≤ start + width tiles := by
  obtain ⟨pre, post, rfl, place⟩ := mem_frees_iff.mp member
  rw [width_append, width_cons]
  dsimp only
  omega

theorem frees_of_used {start : Nat} {tiles : List Tile} (used : ∀ t ∈ tiles, t.used = true) :
    frees start tiles = [] := by
  induction tiles generalizing start with
  | nil => rfl
  | cons t rest ih =>
      obtain ⟨here, later⟩ := List.forall_mem_cons.mp used
      rw [frees, if_pos here, ih later]

/-- The tiles before the first free one are in use. -/
theorem exists_firstFree (start : Nat) (tiles : List Tile) :
    ∃ pre post, tiles = pre ++ post ∧ (∀ t ∈ pre, t.used = true) ∧
      (∀ t ∈ post.head?, t.used = false) ∧ firstFree start tiles = start + width pre := by
  induction tiles generalizing start with
  | nil =>
      refine ⟨[], [], rfl, ?_, ?_, rfl⟩
      · intro t member
        exact absurd member List.not_mem_nil
      · intro t member
        cases member
  | cons t rest ih =>
      rw [firstFree]
      split
      · rename_i used
        obtain ⟨pre, post, split, all, head, place⟩ := ih (start + t.size)
        refine ⟨t :: pre, post, by rw [split, List.cons_append], ?_, head, ?_⟩
        · exact List.forall_mem_cons.mpr ⟨used, all⟩
        · rw [place, width_cons, Nat.add_assoc]
      · rename_i unused
        refine ⟨[], t :: rest, rfl, ?_, ?_, rfl⟩
        · intro u member
          exact absurd member List.not_mem_nil
        · intro u member
          obtain rfl := Option.some.inj member
          exact Bool.eq_false_iff.mpr unused

def HeadUsed (tiles : List Tile) : Prop := ∀ t ∈ tiles.head?, t.used = true

def LastUsed (tiles : List Tile) : Prop := ∀ t ∈ tiles.getLast?, t.used = true

theorem separated_used_iff {size : Nat} {pre post : List Tile} :
    Separated (pre ++ ⟨size, true⟩ :: post) ↔ Separated pre ∧ Separated post := by
  rw [Separated, List.isChain_append, List.isChain_cons]
  constructor
  · rintro ⟨before, ⟨_, behind⟩, _⟩
    exact ⟨before, behind⟩
  · rintro ⟨before, behind⟩
    refine ⟨before, ⟨fun t _ => .inl rfl, behind⟩, ?_⟩
    intro t _ u head
    obtain rfl := Option.some.inj head
    exact .inr rfl

theorem separated_free_iff {size : Nat} {pre post : List Tile} :
    Separated (pre ++ ⟨size, false⟩ :: post) ↔
      Separated pre ∧ LastUsed pre ∧ Separated post ∧ HeadUsed post := by
  rw [Separated, List.isChain_append, List.isChain_cons]
  constructor
  · rintro ⟨before, ⟨head, behind⟩, last⟩
    refine ⟨before, ?_, behind, ?_⟩
    · intro t member
      exact (last t member _ rfl).resolve_right Bool.false_ne_true
    · intro t member
      exact (head t member).resolve_left Bool.false_ne_true
  · rintro ⟨before, last, behind, head⟩
    refine ⟨before, ⟨fun t member => .inr (head t member), behind⟩, ?_⟩
    intro t member _ _
    exact .inl (last t member)

end Library.Tiling
