import KyokaMirror.RtThread.HeapOperations

set_option autoImplicit false

namespace KyokaMirror.RtThread

open Library.Tiling
open Library.Copy (copy copy_inside copy_outside)

section

variable {h : Heap} {pre post : List Tile} {s newsize : Nat}

/-- Where the headers are written when a block is cut. -/
theorem cut_other {part a : Nat} (blocks : Blocks h (pre ++ ⟨s, true⟩ :: post))
    (least : 24 ≤ part) (first : a ≠ width pre + 4)
    (second : a < width pre + part ∨ width pre + part + 8 < a) (back : a ≠ width pre + s + 8) :
    relink (insertMem2 h.mem (width pre) (width pre + part)) h.heapEnd (width pre + part) a =
      h.mem a := by
  have nextBlock := blocks.header.2.2.1
  have link := (@insertMem2_header h.mem _ _
    (show width pre + 24 ≤ width pre + part by omega)).2.2.1
  rw [show h.mem (width pre + 4) = _ from nextBlock] at link
  rw [relink_other (by rw [link]; exact back), insertMem2_other first second]

theorem cut_kept {part : Nat} (blocks : Blocks h (pre ++ ⟨s, true⟩ :: post))
    (least : 24 ≤ part) (rest : part + 24 ≤ s) :
    Kept (lives 0 (pre ++ ⟨part, true⟩ :: ⟨s - part, false⟩ :: post)) h.mem
      (relink (insertMem2 h.mem (width pre) (width pre + part)) h.heapEnd (width pre + part)) := by
  intro live member a lower upper
  have sizedPost := (Sized.cons_iff.mp (Sized.append_iff.mp blocks.sized).2).2
  have here := @outside_header pre (⟨s - part, false⟩ :: post) ⟨part, true⟩
    (show 16 ≤ part by omega) 4 (by omega) live member
  have next : width (pre ++ [⟨part, true⟩, ⟨s - part, false⟩]) = width pre + s := by
    simp only [width_append, width_cons, width_nil]
    omega
  have behind := @outside_next (pre ++ [⟨part, true⟩, ⟨s - part, false⟩]) post sizedPost 8 (by omega)
  rw [next, List.append_assoc] at behind
  have back := behind live member
  rcases mem_lives_around member with before | ⟨_, rfl⟩ | later
  · exact cut_other blocks least (by omega) (by omega) (by omega)
  · dsimp only at lower upper
    exact cut_other blocks least (by omega) (by omega) (by omega)
  · dsimp only at later
    have beyond : width pre + s ≤ live.1 := by
      have split : pre ++ ⟨part, true⟩ :: ⟨s - part, false⟩ :: post =
          pre ++ [⟨part, true⟩] ++ ⟨s - part, false⟩ :: post := by
        rw [List.append_assoc, List.singleton_append]
      rw [split] at member
      have place : width (pre ++ [⟨part, true⟩]) = width pre + part := by
        rw [width_append, width_cons, width_nil, Nat.add_zero]
      have around := mem_lives_around member
      rw [place] at around
      rcases around with early | ⟨used, _⟩ | later
      · omega
      · cases used
      · dsimp only at later
        omega
    exact cut_other blocks least (by omega) (by omega) (by omega)

/-- The end of a block in use becomes a free block. -/
theorem Blocks.cut {part : Nat} (blocks : Blocks h (pre ++ ⟨s, true⟩ :: post))
    (least : 24 ≤ part) (aligned : part % 8 = 0) (rest : part + 24 ≤ s) :
    Blocks { h with
      mem := relink (insertMem2 h.mem (width pre) (width pre + part)) h.heapEnd (width pre + part)
      lfree := if width pre + part < h.lfree then width pre + part else h.lfree
      usedMem := h.usedMem - (s - part) }
      (pre ++ ⟨part, true⟩ :: ⟨s - part, false⟩ :: post) := by
  have total := blocks.total
  have behind := (Sized.cons_iff.mp (Sized.append_iff.mp blocks.sized).2).2.width_cases
  have chain := blocks.chain.split blocks.sized least rest
  rw [total] at chain
  refine blocks.of_fields chain (blocks.sized.cut least aligned rest _ _) ?_ rfl ?_ ?_ ?_
  · simp only [width_append, width_cons]
    omega
  · simp only [width_append, width_cons] at total
    exact cut_other blocks least (by omega) (by omega) (by omega)
  · show (if width pre + part < h.lfree then width pre + part else h.lfree) = _
    rw [blocks.lowest, firstFree_append, firstFree_append, firstFree, firstFree, if_pos rfl,
      if_pos rfl, firstFree, if_neg Bool.false_ne_true, Nat.zero_add]
    dsimp only
    split
    · have bounds := (firstFree_bounds (width pre + s) post).1
      exact if_pos (by omega)
    · have bounds := (firstFree_bounds 0 pre).2
      exact if_neg (by omega)
  · show h.usedMem - (s - part) = _
    rw [blocks.counted]
    simp only [usedSize_append, usedSize_used, usedSize_free]
    omega

/-- The branch of `rt_realloc` that gives the end of the block back. -/
theorem shrinkBlock_spec (tiled : Tiled h (pre ++ ⟨s, true⟩ :: post)) (least : 8 ≤ newsize)
    (aligned : newsize % 8 = 0) (rest : newsize + 40 ≤ s) :
    ∃ h' tiles, shrinkBlock h (width pre) (s - 16) newsize = some h' ∧ Tiled h' tiles ∧
      lives 0 tiles =
        lives 0 pre ++ (width pre, newsize + 16) :: lives (width pre + s) post ∧
      Kept (lives 0 tiles) h.mem h'.mem ∧ h'.memSizeAligned = h.memSizeAligned := by
  have blocks := tiled.blocks
  have cut := blocks.cut (show 24 ≤ newsize + 16 by omega) (by omega)
    (show newsize + 16 + 24 ≤ s by omega)
  have split : pre ++ ⟨newsize + 16, true⟩ :: ⟨s - (newsize + 16), false⟩ :: post =
      pre ++ [⟨newsize + 16, true⟩] ++ ⟨s - (newsize + 16), false⟩ :: post := by
    rw [List.append_assoc, List.singleton_append]
  have place : width (pre ++ [⟨newsize + 16, true⟩]) = width pre + (newsize + 16) := by
    rw [width_append, width_cons, width_nil, Nat.add_zero]
  have kept := cut_kept blocks (show 24 ≤ newsize + 16 by omega)
    (show newsize + 16 + 24 ≤ s by omega)
  obtain ⟨before, behind⟩ := separated_used_iff.mp tiled.separated
  have single : Separated [] := List.isChain_nil
  rw [split] at cut kept
  obtain ⟨h', tiles, plugs, tiled', same, kept', size⟩ :=
    plugHoles_spec cut (separated_used_iff.mpr ⟨before, single⟩) behind
  rw [place] at plugs
  have bytes : s - 16 - newsize = s - (newsize + 16) := by omega
  have ptr2 : width pre + sizeofStructMem + newsize = width pre + (newsize + 16) := by
    rw [sizeofStructMem]
    omega
  have lived : lives 0 tiles =
      lives 0 pre ++ (width pre, newsize + 16) :: lives (width pre + s) post := by
    rw [same, ← split, lives_append, lives, if_pos rfl, lives, if_neg Bool.false_ne_true]
    dsimp only
    rw [Nat.zero_add, show width pre + (newsize + 16) + (s - (newsize + 16)) = width pre + s by omega]
  refine ⟨h', tiles, ?_, tiled', lived, ?_, size⟩
  · rw [← plugs, shrinkBlock, bytes, ptr2]
    rfl
  · rw [same] at kept' ⊢
    exact kept.trans kept'

theorem le_blockSize {size : Nat} (small : size ≤ 2 ^ 32 - 8) : size ≤ blockSize size := by
  rw [blockSize, rtAlign, minSizeAligned]
  split
  · omega
  · omega

theorem le_rtAlign {size : Nat} (small : size ≤ 2 ^ 32 - 8) : size ≤ rtAlign size := by
  rw [rtAlign]
  omega

/-- No two blocks begin at one place. -/
theorem Tiled.distinct {tiles : List Tile} {p n : Nat} {others : List (Nat × Nat)}
    (tiled : Tiled h tiles) (same : (lives 0 tiles).Perm ((p, n) :: others)) :
    ∀ live ∈ others, live.1 ≠ p := by
  have starts : ((lives 0 tiles).map Prod.fst).Nodup := by
    rw [List.nodup_iff_pairwise_ne, List.pairwise_map]
    apply (lives_pairwise 0 tiles).imp_of_mem
    intro a b first _ before
    obtain ⟨pre, post, split, _⟩ := exists_of_mem_lives first
    have room := tiled.blocks.sized ⟨a.2, true⟩
      (by rw [split]; exact List.mem_append_right _ List.mem_cons_self)
    dsimp only at room
    omega
  rw [(same.map _).nodup_iff, List.map_cons, List.nodup_cons] at starts
  intro live member equal
  exact starts.1 (List.mem_map.mpr ⟨live, member, equal⟩)

theorem rtMalloc_lives {tiles : List Tile} (tiled : Tiled h tiles)
    (least : 16 ≤ h.memSizeAligned) (size : Nat) :
    rtMalloc h size = some (h, none) ∨
      ∃ h' tiles' p n, rtMalloc h size = some (h', some (p + 16)) ∧ Tiled h' tiles' ∧
        (lives 0 tiles').Perm ((p, n) :: lives 0 tiles) ∧ blockSize size + 16 ≤ n ∧
        (∀ live ∈ lives 0 tiles, live.1 + live.2 ≤ p ∨ p + n ≤ live.1) ∧
        Kept (lives 0 tiles) h.mem h'.mem ∧ h'.memSizeAligned = h.memSizeAligned := by
  rcases rtMalloc_spec tiled least size with ⟨_, fails⟩ | ⟨pre, s, post, h', _, rfl, found, result,
    tiled', kept, same⟩
  · exact .inl fails
  right
  have fit := List.find?_some found
  rw [fits, Bool.and_eq_true, decide_eq_true_iff, decide_eq_true_iff] at fit
  obtain ⟨large, inside⟩ := le_takenSize fit.2
  refine ⟨h', _, width pre, takenSize s (blockSize size), result, tiled', ?_, large, ?_, kept, same⟩
  · rw [lives_append, lives_takenTiles, lives_append 0 pre (⟨s, false⟩ :: post), lives,
      if_neg Bool.false_ne_true, Nat.zero_add]
    exact List.perm_middle
  · intro live member
    rcases mem_lives_around member with before | ⟨used, _⟩ | behind
    · exact .inl before
    · cases used
    · dsimp only at behind inside
      right
      omega

theorem rtFree_lives {tiles : List Tile} (tiled : Tiled h tiles) {p n : Nat}
    (member : (p, n) ∈ lives 0 tiles) :
    ∃ h' tiles', rtFree h (some (p + 16)) = some h' ∧ Tiled h' tiles' ∧
      (lives 0 tiles).Perm ((p, n) :: lives 0 tiles') ∧
      Kept (lives 0 tiles') h.mem h'.mem ∧ h'.memSizeAligned = h.memSizeAligned := by
  obtain ⟨pre, post, rfl, place⟩ := exists_of_mem_lives member
  dsimp only at tiled place
  rw [Nat.zero_add] at place
  subst place
  obtain ⟨h', tiles', result, tiled', same, kept, size⟩ := rtFree_spec tiled
  refine ⟨h', tiles', result, tiled', ?_, kept, size⟩
  rw [same, lives_append, lives, if_pos rfl, Nat.zero_add]
  exact List.perm_middle

/-- The data of the blocks in use may be written. -/
theorem Tiled.write_data {tiles : List Tile} {mem' : Words} (tiled : Tiled h tiles)
    (same : ∀ a, Outside (lives 0 tiles) a → mem' a = h.mem a) : Tiled (h.setMem mem') tiles := by
  have blocks := tiled.blocks
  refine ⟨blocks.of_fields ?_ blocks.sized rfl rfl ?_ blocks.lowest blocks.counted, tiled.separated⟩
  · apply blocks.chain.congr_headers
    intro pre t post split k inside
    rw [Nat.zero_add]
    apply same
    subst split
    exact outside_header (by have := blocks.room; omega) inside
  · apply same
    apply outside_end
    rw [blocks.total]
    omega

/-- A block of `p` has been replaced by one at `q` with the same beginning. -/
structure Moved (h h' : Heap) (tiles tiles' : List Tile) (p s q n count : Nat) : Prop where
  others : ∃ others, (lives 0 tiles).Perm ((p, s) :: others) ∧
    (lives 0 tiles').Perm ((q, n) :: others) ∧ Kept others h.mem h'.mem
  beginning : ∀ k < count, h'.mem (q + 16 + k) = h.mem (p + 16 + k)

theorem expandBlock_lives {tiles : List Tile} (tiled : Tiled h tiles)
    (least : 16 ≤ h.memSizeAligned) {p s : Nat} (member : (p, s) ∈ lives 0 tiles)
    (small : newsize ≤ 2 ^ 32 - 8) :
    expandBlock h (p + 16) (s - 16) newsize = some (h, none) ∨
      ∃ h' tiles' q n, expandBlock h (p + 16) (s - 16) newsize = some (h', some (q + 16)) ∧
        Tiled h' tiles' ∧ newsize + 16 ≤ n ∧
        Moved h h' tiles tiles' p s q n (min (s - 16) newsize) ∧
        h'.memSizeAligned = h.memSizeAligned := by
  have count : (if s - 16 < newsize then s - 16 else newsize) = min (s - 16) newsize := by
    split
    · omega
    · omega
  rw [expandBlock, count]
  have wide := le_blockSize small
  rcases rtMalloc_lives tiled least newsize with fails | ⟨h₂, tiles₂, q, n, result, tiled₂, same₂,
    large, apart, kept₂, size₂⟩
  · left
    rw [fails]
    rfl
  right
  have new : (q, n) ∈ lives 0 tiles₂ := same₂.mem_iff.mpr List.mem_cons_self
  have old : (p, s) ∈ lives 0 tiles₂ := same₂.mem_iff.mpr (List.mem_cons_of_mem _ member)
  generalize copied : copy h₂.mem h₂.mem (q + 16) (p + 16) (min (s - 16) newsize) = mem₃
  have untouched : ∀ a, a < q + 16 ∨ q + n ≤ a → mem₃ a = h₂.mem a := by
    intro a outside
    rw [← copied]
    exact copy_outside _ _ _ _ _ _ (by omega)
  have tiled₃ : Tiled (h₂.setMem mem₃) tiles₂ := by
    apply tiled₂.write_data
    intro a outside
    exact untouched a (outside (q, n) new)
  obtain ⟨h₄, tiles₄, release, tiled₄, same₄, kept₄, size₄⟩ := rtFree_lives tiled₃ old
  have split := List.perm_cons_erase member
  have rest : (lives 0 tiles₄).Perm ((q, n) :: (lives 0 tiles).erase (p, s)) := by
    have both : ((p, s) :: lives 0 tiles₄).Perm ((p, s) :: (q, n) :: (lives 0 tiles).erase (p, s)) :=
      calc ((p, s) :: lives 0 tiles₄).Perm (lives 0 tiles₂) := same₄.symm
        _ |>.Perm ((q, n) :: lives 0 tiles) := same₂
        _ |>.Perm ((q, n) :: (p, s) :: (lives 0 tiles).erase (p, s)) := split.cons _
        _ |>.Perm ((p, s) :: (q, n) :: (lives 0 tiles).erase (p, s)) := List.Perm.swap _ _ _
    exact both.cons_inv
  refine ⟨h₄, tiles₄, q, n, ?_, tiled₄, by omega, ⟨⟨_, split, rest, ?_⟩, ?_⟩, ?_⟩
  · rw [result, Option.bind_some, moveBlock, copied]
    rw [release, Option.map_some]
  · intro live inside a lower upper
    have before : live ∈ lives 0 tiles := split.mem_iff.mpr (List.mem_cons_of_mem _ inside)
    have after : live ∈ lives 0 tiles₄ := rest.mem_iff.mpr (List.mem_cons_of_mem _ inside)
    rw [kept₄ live after a lower upper]
    have away := apart live before
    calc mem₃ a = h₂.mem a := untouched a (by omega)
      _ = h.mem a := kept₂ live before a lower upper
  · intro k inside
    have after : (q, n) ∈ lives 0 tiles₄ := rest.mem_iff.mpr List.mem_cons_self
    rw [kept₄ (q, n) after (q + 16 + k) (by dsimp only; omega) (by dsimp only; omega)]
    calc mem₃ (q + 16 + k) = h₂.mem (p + 16 + (q + 16 + k - (q + 16))) := by
          rw [← copied]
          exact copy_inside _ _ _ _ _ _ (by omega) (by omega)
      _ = h₂.mem (p + 16 + k) := by rw [Nat.add_sub_cancel_left]
      _ = h.mem (p + 16 + k) := kept₂ (p, s) member _ (by dsimp only; omega) (by dsimp only; omega)
  · rw [size₄]
    exact size₂

theorem shrinkBlock_lives {tiles : List Tile} (tiled : Tiled h tiles) {p s : Nat}
    (member : (p, s) ∈ lives 0 tiles) (least : 8 ≤ newsize) (aligned : newsize % 8 = 0)
    (rest : newsize + 40 ≤ s) :
    ∃ h' tiles', shrinkBlock h p (s - 16) newsize = some h' ∧ Tiled h' tiles' ∧
      Moved h h' tiles tiles' p s p (newsize + 16) newsize ∧
      h'.memSizeAligned = h.memSizeAligned := by
  obtain ⟨pre, post, rfl, place⟩ := exists_of_mem_lives member
  dsimp only at tiled place
  rw [Nat.zero_add] at place
  subst place
  obtain ⟨h', tiles', result, tiled', same, kept, size⟩ := shrinkBlock_spec tiled least aligned rest
  rw [same] at kept
  refine ⟨h', tiles', result, tiled', ⟨⟨lives 0 pre ++ lives (width pre + s) post, ?_, ?_, ?_⟩, ?_⟩,
    size⟩
  · rw [lives_append, lives, if_pos rfl, Nat.zero_add]
    exact List.perm_middle
  · rw [same]
    exact List.perm_middle
  · intro live inside
    apply kept live
    rw [List.mem_append, List.mem_cons]
    rcases List.mem_append.mp inside with before | behind
    · exact .inl before
    · exact .inr (.inr behind)
  · intro k inside
    have here : (width pre, newsize + 16) ∈
        lives 0 pre ++ (width pre, newsize + 16) :: lives (width pre + s) post :=
      List.mem_append_right _ List.mem_cons_self
    exact kept _ here _ (by dsimp only; omega) (by dsimp only; omega)

/-- What `rt_realloc` does with a block in use. -/
theorem rtRealloc_lives {tiles : List Tile} (tiled : Tiled h tiles)
    (least : 16 ≤ h.memSizeAligned) {p s : Nat} (member : (p, s) ∈ lives 0 tiles) (newsize : Nat) :
    (rtAlign newsize ≠ 0 ∧ rtRealloc h (some (p + 16)) newsize = some (h, none)) ∨
      (∃ h' tiles', rtAlign newsize = 0 ∧
        rtRealloc h (some (p + 16)) newsize = some (h', none) ∧ Tiled h' tiles' ∧
        (lives 0 tiles).Perm ((p, s) :: lives 0 tiles') ∧ Kept (lives 0 tiles') h.mem h'.mem ∧
        h'.memSizeAligned = h.memSizeAligned) ∨
      ∃ h' tiles' q n, rtAlign newsize ≠ 0 ∧
        rtRealloc h (some (p + 16)) newsize = some (h', some (q + 16)) ∧ Tiled h' tiles' ∧
        rtAlign newsize + 16 ≤ n ∧
        Moved h h' tiles tiles' p s q n (min (s - 16) (rtAlign newsize)) ∧
        h'.memSizeAligned = h.memSizeAligned := by
  have small := tiled.blocks.small
  have aligned : rtAlign newsize % 8 = 0 := Nat.mul_mod_left _ _
  unfold rtRealloc
  generalize rtAlign newsize = size at aligned
  dsimp only
  by_cases large : size > h.memSizeAligned
  · left
    exact ⟨by omega, if_pos large⟩
  rw [if_neg large]
  by_cases zero : size = 0
  · right; left
    obtain ⟨h', tiles', result, tiled', same, kept, sizes⟩ := rtFree_lives tiled member
    refine ⟨h', tiles', zero, ?_, tiled', same, kept, sizes⟩
    rw [if_pos zero, result, Option.map_some]
  rw [if_neg zero]
  obtain ⟨pre, post, split, place⟩ := exists_of_mem_lives member
  dsimp only at split place
  rw [Nat.zero_add] at place
  have blocks := tiled.blocks
  rw [split] at blocks
  have data := blocks.data
  have room := blocks.room
  have inside := blocks.fits
  rw [← place] at data inside
  dsimp only at data room inside
  have legal : ¬ p + 16 ≥ h.heapEnd := by omega
  have back : p + 16 - sizeofStructMem = p := Nat.add_sub_cancel _ _
  simp only [if_neg legal, back, data]
  by_cases equal : s - 16 = size
  · right; right
    rw [if_pos equal]
    refine ⟨h, tiles, p, s, zero, rfl, tiled, by omega, ⟨?_, fun k _ => rfl⟩, rfl⟩
    exact ⟨_, List.perm_cons_erase member, List.perm_cons_erase member, Kept.refl _ _⟩
  rw [if_neg equal]
  have limit : size + sizeofStructMem + minSize < s - 16 ↔ size + 28 < s - 16 := Iff.rfl
  by_cases shorter : size + 28 < s - 16
  · right; right
    obtain ⟨h', tiles', result, tiled', moved, sizes⟩ :=
      shrinkBlock_lives tiled member (show 8 ≤ size by omega) aligned (by omega)
    rw [if_pos (limit.mpr shorter), result, Option.map_some]
    refine ⟨h', tiles', p, size + 16, zero, rfl, tiled', by omega, ⟨moved.others, ?_⟩, sizes⟩
    intro k inside
    exact moved.beginning k (by omega)
  · rw [if_neg (fun less => shorter (limit.mp less))]
    have bound : size ≤ 2 ^ 32 - 8 := by
      rw [Heap.heapEnd, sizeofStructMem] at small
      omega
    rcases expandBlock_lives tiled least member bound with fails | ⟨h', tiles', q, n, result, tiled',
      wide, moved, sizes⟩
    · exact .inl ⟨zero, fails⟩
    · exact .inr (.inr ⟨h', tiles', q, n, zero, result, tiled', wide, moved, sizes⟩)

/-- `rt_calloc` clears the block it gets. -/
theorem rtCalloc_lives {tiles : List Tile} (tiled : Tiled h tiles)
    (least : 16 ≤ h.memSizeAligned) {count size : Nat} (small : count * size ≤ 2 ^ 32 - 8) :
    rtCalloc h count size = some (h, none) ∨
      ∃ h' tiles' p n, rtCalloc h count size = some (h', some (p + 16)) ∧ Tiled h' tiles' ∧
        (lives 0 tiles').Perm ((p, n) :: lives 0 tiles) ∧ count * size + 16 ≤ n ∧
        (∀ k < count * size, h'.mem (p + 16 + k) = 0) ∧
        Kept (lives 0 tiles) h.mem h'.mem ∧ h'.memSizeAligned = h.memSizeAligned := by
  have product : count * size % 2 ^ 32 = count * size := Nat.mod_eq_of_lt (by omega)
  rw [rtCalloc, product]
  have wide := le_blockSize small
  generalize count * size = bytes at *
  rcases rtMalloc_lives tiled least bytes with fails | ⟨h', tiles', p, n, result, tiled', same,
    large, apart, kept, sizes⟩
  · left
    rw [fails]
    rfl
  right
  have new : (p, n) ∈ lives 0 tiles' := same.mem_iff.mpr List.mem_cons_self
  refine ⟨h'.setMem (copy h'.mem (fun _ => 0) (p + 16) 0 bytes), tiles', p, n, ?_, ?_, same,
    by omega, ?_, ?_, sizes⟩
  · rw [result]
    rfl
  · apply tiled'.write_data
    intro a outside
    have away := outside (p, n) new
    dsimp only at away
    exact copy_outside _ _ _ _ _ _ (by omega)
  · intro k inside
    exact copy_inside _ _ _ _ _ _ (by omega) (by omega)
  · intro live member a lower upper
    have away := apart live member
    rw [← kept live member a lower upper]
    exact copy_outside _ _ _ _ _ _ (by omega)

end

end KyokaMirror.RtThread
