import KyokaMirror.RtThread.HeapBlocks

set_option autoImplicit false

namespace KyokaMirror.RtThread

open Library.Tiling

/-- The variables of the allocator describe the blocks. The blocks fill the heap
up to `heap_end`, which is marked as used. -/
structure Blocks (h : Heap) (tiles : List Tile) : Prop where
  chain : Chain h.mem 0 0 tiles
  sized : Sized tiles
  total : width tiles = h.heapEnd
  small : h.heapEnd + 16 ≤ 2 ^ 32
  last : h.used h.heapEnd ≠ 0
  lowest : h.lfree = firstFree 0 tiles
  counted : h.usedMem = usedSize tiles

/-- What every operation keeps: besides, no two free blocks touch. -/
structure Tiled (h : Heap) (tiles : List Tile) : Prop where
  blocks : Blocks h tiles
  separated : Separated tiles

/-- An offset that is in no block's data. -/
def Outside (blocks : List (Nat × Nat)) (a : Nat) : Prop :=
  ∀ live ∈ blocks, a < live.1 + 16 ∨ live.1 + live.2 ≤ a

/-- The data of the blocks has not changed. -/
def Kept (blocks : List (Nat × Nat)) (mem mem' : Words) : Prop :=
  ∀ live ∈ blocks, ∀ a, live.1 + 16 ≤ a → a < live.1 + live.2 → mem' a = mem a

theorem Kept.refl (blocks : List (Nat × Nat)) (mem : Words) : Kept blocks mem mem :=
  fun _ _ _ _ _ => rfl

theorem Kept.trans {blocks : List (Nat × Nat)} {mem mem' mem'' : Words}
    (first : Kept blocks mem mem') (second : Kept blocks mem' mem'') : Kept blocks mem mem'' := by
  intro live member a lower upper
  rw [second live member a lower upper, first live member a lower upper]

theorem Outside.kept {blocks : List (Nat × Nat)} {a : Nat} (outside : Outside blocks a)
    (mem : Words) (value : Nat) : Kept blocks mem (write mem a value) := by
  intro live member b lower upper
  apply write_other
  have := outside live member
  omega

section

variable {pre post : List Tile} {t : Tile}

/-- The places of the blocks in use around a block. -/
theorem mem_lives_around {live : Nat × Nat} (member : live ∈ lives 0 (pre ++ t :: post)) :
    live.1 + live.2 ≤ width pre ∨ (t.used = true ∧ live = (width pre, t.size)) ∨
      width pre + t.size ≤ live.1 := by
  rw [lives_append, Nat.zero_add] at member
  rcases List.mem_append.mp member with before | behind
  · have bounds := (lives_bounds before).2
    omega
  · rw [lives] at behind
    split at behind
    · rename_i used
      rcases List.mem_cons.mp behind with here | later
      · exact .inr (.inl ⟨used, here⟩)
      · exact .inr (.inr (lives_bounds later).1)
    · exact .inr (.inr (lives_bounds behind).1)

/-- A header is no block's data. -/
theorem outside_header (room : 16 ≤ t.size) {k : Nat} (inside : k < 16) :
    Outside (lives 0 (pre ++ t :: post)) (width pre + k) := by
  intro live member
  rcases mem_lives_around member with before | ⟨_, rfl⟩ | behind
  · omega
  · dsimp only
    omega
  · omega

/-- Nor is anything in a free block. -/
theorem outside_free {size k : Nat} (inside : k < size) :
    Outside (lives 0 (pre ++ ⟨size, false⟩ :: post)) (width pre + k) := by
  intro live member
  rcases mem_lives_around member with before | ⟨used, _⟩ | behind
  · omega
  · cases used
  · dsimp only at behind
    omega

theorem outside_end {tiles : List Tile} {a : Nat} (beyond : width tiles ≤ a) :
    Outside (lives 0 tiles) a := by
  intro live member
  have bounds := (lives_bounds member).2
  omega

/-- The header word of the block behind, or of `heap_end`. -/
theorem outside_next (sized : Sized post) {k : Nat} (inside : k < 16) :
    Outside (lives 0 (pre ++ post)) (width pre + k) := by
  cases post with
  | nil =>
      apply outside_end
      rw [List.append_nil]
      omega
  | cons u more =>
      have room := (Sized.cons_iff.mp sized).1.1
      exact outside_header (by omega) inside

end

theorem sub32_of_le {a b : Nat} (le : b ≤ a) (small : a < 2 ^ 32) : sub32 a b = a - b := by
  rw [sub32]
  omega

section

variable {h : Heap} {pre post : List Tile} {t : Tile}

theorem Blocks.header (blocks : Blocks h (pre ++ t :: post)) :
    h.magic (width pre) = heapMagic ∧ h.used (width pre) = usedFlag t.used ∧
      h.next (width pre) = width pre + t.size ∧ h.prev (width pre) = lastStart 0 0 pre :=
  blocks.chain.head

theorem Blocks.room (blocks : Blocks h (pre ++ t :: post)) :
    24 ≤ t.size ∧ t.size % 8 = 0 :=
  blocks.sized t (List.mem_append_right _ List.mem_cons_self)

theorem Blocks.fits (blocks : Blocks h (pre ++ t :: post)) :
    width pre + t.size ≤ h.heapEnd := by
  rw [← blocks.total, width_append, width_cons]
  omega

/-- The bytes of data in a block, as the source computes them. -/
theorem Blocks.data (blocks : Blocks h (pre ++ t :: post)) :
    sub32 (h.next (width pre)) (width pre + sizeofStructMem) = t.size - 16 := by
  have room := blocks.room
  have fits := blocks.fits
  have small := blocks.small
  rw [blocks.header.2.2.1, sizeofStructMem, sub32_of_le (by omega) (by omega)]
  omega

/-- `lfree` points to a free block or to the end of the heap. -/
theorem Blocks.lfree_free {tiles : List Tile} (blocks : Blocks h tiles) :
    h.lfree = h.heapEnd ∨ h.used h.lfree = 0 := by
  obtain ⟨pre, post, rfl, _, head, place⟩ := exists_firstFree 0 tiles
  rw [blocks.lowest, place, Nat.zero_add]
  cases post with
  | nil =>
      left
      rw [← blocks.total, List.append_nil]
  | cons t rest =>
      right
      rw [blocks.header.2.1, head t rfl]
      rfl

theorem Blocks.length_lt {tiles : List Tile} (blocks : Blocks h tiles) :
    tiles.length < h.heapEnd := by
  have most := blocks.sized.length_le
  have total := blocks.total
  have positive : 16 ≤ h.heapEnd := Nat.le_add_left _ _
  omega

/-- A free block that `rt_malloc` takes for `size` bytes. -/
def fits (h : Heap) (size : Nat) (free : Nat × Nat) : Bool :=
  decide (free.1 < h.memSizeAligned - size) && decide (size + 16 ≤ free.2)

/-- The search takes the first free block that fits. -/
theorem findBlock_eq {size : Nat} (inside : size ≤ h.memSizeAligned) {pre rest : List Tile}
    (blocks : Blocks h (pre ++ rest)) {fuel : Nat} (enough : rest.length < fuel) :
    findBlock h size fuel (width pre) =
      ((frees (width pre) rest).find? (fits h size)).map Prod.fst := by
  have small := blocks.small
  have limit : sub32 h.memSizeAligned size = h.memSizeAligned - size :=
    sub32_of_le inside (by rw [Heap.heapEnd, sizeofStructMem] at small; omega)
  induction rest generalizing pre fuel with
  | nil =>
      obtain ⟨fuel, rfl⟩ : ∃ n, fuel = n + 1 := ⟨fuel - 1, by omega⟩
      have total := blocks.total
      rw [List.append_nil, Heap.heapEnd] at total
      rw [findBlock, limit, if_neg (by omega)]
      rfl
  | cons t rest ih =>
      obtain ⟨fuel, rfl⟩ : ∃ n, fuel = n + 1 := ⟨fuel - 1, by omega⟩
      have next : pre ++ t :: rest = pre ++ [t] ++ rest := by
        rw [List.append_assoc, List.singleton_append]
      have along : Blocks h (pre ++ [t] ++ rest) := by rw [← next]; exact blocks
      have left : rest.length < fuel := by rw [List.length_cons] at enough; omega
      have later := ih along left
      have step : width (pre ++ [t]) = width pre + t.size := by
        rw [width_append, width_cons, width_nil, Nat.add_zero]
      rw [step] at later
      obtain ⟨_, used, nextBlock, _⟩ := blocks.header
      have room := blocks.room
      rw [findBlock, limit, blocks.data, used, nextBlock, later, frees]
      by_cases early : width pre < h.memSizeAligned - size
      · rw [if_pos early]
        cases own : t.used with
        | true => rw [if_neg (by simp [usedFlag]), if_pos rfl]
        | false =>
            rw [if_neg Bool.false_ne_true, List.find?_cons]
            by_cases large : size + 16 ≤ t.size
            · have fit : fits h size (width pre, t.size) = true := by
                rw [fits, decide_eq_true early, decide_eq_true large]
                rfl
              rw [fit, if_pos ⟨rfl, by omega⟩]
              rfl
            · have unfit : fits h size (width pre, t.size) = false := by
                rw [fits, decide_eq_false large, Bool.and_false]
              rw [unfit, if_neg (by omega)]
      · -- Behind the limit no free block fits.
        rw [if_neg early]
        symm
        rw [Option.map_eq_none_iff, List.find?_eq_none]
        intro free member
        have start : width pre ≤ free.1 := by
          have split : free ∈ frees (width pre) (t :: rest) := by rw [frees]; exact member
          exact (frees_bounds split).1
        rw [fits, decide_eq_false (by omega), Bool.false_and]
        exact Bool.false_ne_true

theorem findBlock_lfree {size : Nat} (inside : size ≤ h.memSizeAligned) {tiles : List Tile}
    (blocks : Blocks h tiles) :
    findBlock h size h.heapEnd h.lfree = ((frees 0 tiles).find? (fits h size)).map Prod.fst := by
  obtain ⟨pre, rest, rfl, used, _, place⟩ := exists_firstFree 0 tiles
  have length := blocks.length_lt
  rw [List.length_append] at length
  rw [blocks.lowest, place, frees_append, frees_of_used used, List.nil_append, Nat.zero_add]
  exact findBlock_eq inside blocks (by omega)

/-- Looking for the lowest free block from a place before which all are used. -/
theorem skipUsed_eq {pre rest : List Tile} (chain : Chain h.mem 0 0 (pre ++ rest))
    (sized : Sized (pre ++ rest)) (total : width (pre ++ rest) = h.heapEnd) {fuel : Nat}
    (enough : rest.length ≤ fuel) :
    skipUsed h fuel (width pre) = firstFree (width pre) rest := by
  induction rest generalizing pre fuel with
  | nil =>
      have same : width pre = h.heapEnd := by rw [← total, List.append_nil]
      cases fuel with
      | zero => rfl
      | succ fuel => rw [skipUsed, if_neg (fun both => both.2 same)]; rfl
  | cons t rest ih =>
      obtain ⟨fuel, rfl⟩ : ∃ n, fuel = n + 1 := ⟨fuel - 1, by rw [List.length_cons] at enough; omega⟩
      have next : pre ++ t :: rest = pre ++ [t] ++ rest := by
        rw [List.append_assoc, List.singleton_append]
      have step : width (pre ++ [t]) = width pre + t.size := by
        rw [width_append, width_cons, width_nil, Nat.add_zero]
      obtain ⟨_, used, nextBlock, _⟩ := chain.head
      rw [skipUsed, Heap.used, used, Heap.next, nextBlock, firstFree]
      have room := (sized t (List.mem_append_right _ List.mem_cons_self)).1
      have before : width pre ≠ h.heapEnd := by
        rw [← total, width_append, width_cons]
        omega
      cases own : t.used with
      | true =>
          rw [if_pos ⟨by decide, before⟩, if_pos rfl, ← step]
          rw [next] at chain sized total
          exact ih chain sized total (by rw [List.length_cons] at enough; omega)
      | false => rw [if_neg (fun both => both.1 rfl), if_neg Bool.false_ne_true]

end

end KyokaMirror.RtThread
