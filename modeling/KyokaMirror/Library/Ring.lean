import Mathlib.Data.Nat.ModEq

set_option autoImplicit false

namespace Library

/-- Moves an offset to the next cell, and from the last cell to the first. -/
def Ring.advance (size offset : Nat) : Nat := if offset + 1 ≥ size then 0 else offset + 1

theorem Ring.advance_eq_mod {size offset : Nat} (inside : offset < size) :
    advance size offset = (offset + 1) % size := by
  unfold advance
  split
  · have full : offset + 1 = size := by omega
    rw [full, Nat.mod_self]
  · rw [Nat.mod_eq_of_lt (by omega)]

/-- A circular buffer: the offset of the oldest entry, the number of entries,
and the offset behind the newest one. -/
structure Ring (α : Type) (size : Nat) where
  cells : Nat → α
  entry : Nat
  inOffset : Nat
  outOffset : Nat
  entry_le : entry ≤ size
  out_lt : outOffset < size
  in_eq : inOffset = (outOffset + entry) % size

namespace Ring

variable {α : Type} {size : Nat}

def empty (cells : Nat → α) (positive : 0 < size) : Ring α size where
  cells := cells
  entry := 0
  inOffset := 0
  outOffset := 0
  entry_le := Nat.zero_le size
  out_lt := positive
  in_eq := (Nat.zero_mod size).symm

def push (r : Ring α size) (value : α) (space : r.entry < size) : Ring α size where
  cells := fun k => if k = r.inOffset then value else r.cells k
  entry := r.entry + 1
  inOffset := advance size r.inOffset
  outOffset := r.outOffset
  entry_le := space
  out_lt := r.out_lt
  in_eq := by
    have inside : r.inOffset < size := by
      rw [r.in_eq]
      exact Nat.mod_lt _ (Nat.zero_lt_of_lt space)
    rw [advance_eq_mod inside, r.in_eq, Nat.mod_add_mod, Nat.add_assoc]

def front (r : Ring α size) : α := r.cells r.outOffset

def pop (r : Ring α size) (filled : 0 < r.entry) : Ring α size where
  cells := r.cells
  entry := r.entry - 1
  inOffset := r.inOffset
  outOffset := advance size r.outOffset
  entry_le := Nat.le_trans (Nat.sub_le _ _) r.entry_le
  out_lt := by
    rw [advance_eq_mod r.out_lt]
    exact Nat.mod_lt _ (Nat.zero_lt_of_lt r.out_lt)
  in_eq := by
    have count : r.outOffset + 1 + (r.entry - 1) = r.outOffset + r.entry := by omega
    rw [advance_eq_mod r.out_lt, Nat.mod_add_mod, count, r.in_eq]

/-- The entries from the oldest to the newest. -/
def contents (r : Ring α size) : List α :=
  (List.range r.entry).map fun k => r.cells ((r.outOffset + k) % size)

@[simp] theorem contents_length (r : Ring α size) : r.contents.length = r.entry := by
  rw [contents, List.length_map, List.length_range]

/-- An entry never shares its cell with the cell that is written next. -/
theorem cell_ne_in {r : Ring α size} {k : Nat} (space : r.entry < size) (old : k < r.entry) :
    (r.outOffset + k) % size ≠ r.inOffset := by
  have out := r.out_lt
  rw [r.in_eq]
  intro same
  have equal : (r.outOffset + k) ≡ (r.outOffset + r.entry) [MOD size] := same
  have shifted := Nat.ModEq.add_left_cancel' r.outOffset equal
  rw [Nat.ModEq, Nat.mod_eq_of_lt (by omega), Nat.mod_eq_of_lt space] at shifted
  omega

theorem contents_push (r : Ring α size) (value : α) (space : r.entry < size) :
    (r.push value space).contents = r.contents ++ [value] := by
  show (List.range (r.entry + 1)).map _ = _
  rw [List.range_succ, List.map_append, List.map_singleton]
  congr 1
  · apply List.map_congr_left
    intro k member
    exact if_neg (cell_ne_in space (List.mem_range.mp member))
  · congr 1
    exact if_pos r.in_eq.symm

theorem contents_pop (r : Ring α size) (filled : 0 < r.entry) :
    r.contents = r.front :: (r.pop filled).contents := by
  have count : r.entry = (r.entry - 1) + 1 := by omega
  rw [contents, count, List.range_succ_eq_map, List.map_cons, List.map_map]
  congr 1
  · rw [Nat.add_zero, Nat.mod_eq_of_lt r.out_lt, front]
  · apply List.map_congr_left
    intro k _
    show r.cells ((r.outOffset + (k + 1)) % size) =
      r.cells ((advance size r.outOffset + k) % size)
    rw [advance_eq_mod r.out_lt, Nat.mod_add_mod, Nat.add_assoc, Nat.add_comm 1 k]

end Ring

end Library
