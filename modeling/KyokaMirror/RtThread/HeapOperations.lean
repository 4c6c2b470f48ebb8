import KyokaMirror.RtThread.HeapInvariant

set_option autoImplicit false

namespace KyokaMirror.RtThread

open Library.Tiling

theorem rtSystemHeapInit_tiled {mem : Words} {beginAddr endAddr : Nat} {h : Heap}
    (begins : rtSystemHeapInit mem beginAddr endAddr = some h) (room : 8 ≤ h.memSizeAligned)
    (small : endAddr < 2 ^ 32) : Tiled h [⟨h.heapEnd, false⟩] ∧ h.lfree = 0 ∧ h.usedMem = 0 := by
  rw [rtSystemHeapInit] at begins
  split at begins
  · rename_i fit
    obtain rfl := Option.some.inj begins
    dsimp only at room
    generalize size : rtAlignDown endAddr - rtAlign beginAddr - 2 * sizeofStructMem = n at room
    have place : n + sizeofStructMem = n + 16 := rfl
    have aligned : n % 8 = 0 := by
      rw [← size, rtAlign, rtAlignDown, sizeofStructMem]
      omega
    have below : n + 32 ≤ endAddr := by
      rw [rtAlign, rtAlignDown, sizeofStructMem] at *
      omega
    refine ⟨⟨⟨?_, ?_, ?_, ?_, ?_, ?_, ?_⟩, ?_⟩, rfl, rfl⟩
    · simp only [Chain, and_true]
      refine ⟨?_, ?_, ?_, ?_⟩
      · rw [write_other (by omega), write_other (by omega), write_other (by omega),
          write_other (by omega), write_other (by omega), write_other (by omega),
          write_other (by omega), write_same]
      · rw [write_other (by omega), write_other (by omega), write_other (by omega),
          write_other (by omega), write_same]
        rfl
      · rw [write_other (by omega), write_other (by omega), write_other (by omega),
          write_other (by omega), write_other (by omega), write_other (by omega), write_same,
          Nat.zero_add]
        rfl
      · rw [write_other (by omega), write_other (by omega), write_other (by omega),
          write_other (by omega), write_other (by omega), write_same]
    · intro t member
      rw [List.mem_singleton.mp member]
      simp only [Heap.heapEnd, sizeofStructMem]
      omega
    · rw [width_cons, width_nil, Nat.add_zero]
    · simp only [Heap.heapEnd, sizeofStructMem]
      omega
    · simp only [Heap.used, Heap.heapEnd]
      rw [write_other (by omega), write_other (by omega), write_same]
      exact Nat.one_ne_zero
    · rfl
    · rfl
    · exact List.isChain_singleton _
  · cases begins

theorem Blocks.of_fields {h h' : Heap} {tiles tiles' : List Tile} (blocks : Blocks h tiles)
    (chain : Chain h'.mem 0 0 tiles') (sized : Sized tiles') (same : width tiles' = width tiles)
    (aligned : h'.memSizeAligned = h.memSizeAligned)
    (last : h'.mem (h.heapEnd + 2) = h.mem (h.heapEnd + 2))
    (lowest : h'.lfree = firstFree 0 tiles') (counted : h'.usedMem = usedSize tiles') :
    Blocks h' tiles' := by
  have sameEnd : h'.heapEnd = h.heapEnd := by rw [Heap.heapEnd, aligned, Heap.heapEnd]
  refine ⟨chain, sized, ?_, ?_, ?_, lowest, counted⟩
  · rw [same, blocks.total, sameEnd]
  · rw [sameEnd]
    exact blocks.small
  · rw [sameEnd, Heap.used, last]
    exact blocks.last

section

variable {h : Heap} {pre post : List Tile} {s : Nat}

theorem firstFree_free (pre post : List Tile) (s : Nat) :
    firstFree 0 (pre ++ ⟨s, false⟩ :: post) =
      if ∀ t ∈ pre, t.used = true then width pre else firstFree 0 pre := by
  rw [firstFree_append, firstFree, if_neg Bool.false_ne_true, Nat.zero_add]

theorem firstFree_free_le (pre post : List Tile) (s : Nat) :
    firstFree 0 (pre ++ ⟨s, false⟩ :: post) ≤ width pre := by
  rw [firstFree_free]
  split
  · exact Nat.le_refl _
  · have bounds := (firstFree_bounds 0 pre).2
    omega

/-- Two free blocks that touch become one. -/
theorem Blocks.joined {r : Nat} (blocks : Blocks h (pre ++ ⟨s, false⟩ :: ⟨r, false⟩ :: post)) :
    Blocks (h.setMem (write (write h.mem (width pre + 4) (width pre + s + r))
      (width pre + s + r + 8) (width pre))) (pre ++ ⟨s + r, false⟩ :: post) := by
  have total := blocks.total
  simp only [width_append, width_cons] at total
  obtain ⟨_, later⟩ := Sized.append_iff.mp blocks.sized
  obtain ⟨⟨room, _⟩, later⟩ := Sized.cons_iff.mp later
  have behind := (Sized.cons_iff.mp later).2.width_cases
  dsimp only at room
  have sized : Sized (pre ++ ⟨s + r, false⟩ :: post) := by
    obtain ⟨sizedPre, later⟩ := Sized.append_iff.mp blocks.sized
    obtain ⟨⟨room, aligned⟩, later⟩ := Sized.cons_iff.mp later
    obtain ⟨⟨_, aligned'⟩, sizedPost⟩ := Sized.cons_iff.mp later
    dsimp only at room aligned aligned'
    refine Sized.append_iff.mpr ⟨sizedPre, Sized.cons_iff.mpr ⟨?_, sizedPost⟩⟩
    dsimp only
    omega
  refine ⟨blocks.chain.join blocks.sized, sized, ?_, blocks.small, ?_, ?_, ?_⟩
  · simp only [width_append, width_cons]
    rw [Nat.add_assoc s]
    exact total
  · show write _ _ _ (h.heapEnd + 2) ≠ 0
    rw [write_other (by omega), write_other (by omega)]
    exact blocks.last
  · show h.lfree = _
    rw [blocks.lowest, firstFree_free, firstFree_free]
  · show h.usedMem = _
    rw [blocks.counted]
    simp only [usedSize_append, usedSize_free]

theorem Blocks.joined_kept {r : Nat}
    (blocks : Blocks h (pre ++ ⟨s, false⟩ :: ⟨r, false⟩ :: post)) :
    Kept (lives 0 (pre ++ ⟨s, false⟩ :: ⟨r, false⟩ :: post)) h.mem
      (write (write h.mem (width pre + 4) (width pre + s + r)) (width pre + s + r + 8)
        (width pre)) := by
  have room := blocks.room
  dsimp only at room
  have sizedPost : Sized post := by
    obtain ⟨_, later⟩ := Sized.append_iff.mp blocks.sized
    exact (Sized.cons_iff.mp (Sized.cons_iff.mp later).2).2
  apply Kept.trans ((outside_free (show 4 < s by omega)).kept _ _)
  have place : width (pre ++ [⟨s, false⟩, ⟨r, false⟩]) = width pre + s + r := by
    simp only [width_append, width_cons, width_nil]
    omega
  have next := @outside_next (pre ++ [⟨s, false⟩, ⟨r, false⟩]) post sizedPost 8 (by omega)
  rw [place, List.append_assoc, List.cons_append, List.singleton_append] at next
  exact next.kept _ _

theorem plugForward_spec (blocks : Blocks h (pre ++ ⟨s, false⟩ :: post))
    (separated : Separated post) :
    ∃ r post', Blocks (plugForward h (width pre)) (pre ++ ⟨s + r, false⟩ :: post') ∧
      Separated post' ∧ HeadUsed post' ∧
      lives 0 (pre ++ ⟨s + r, false⟩ :: post') = lives 0 (pre ++ ⟨s, false⟩ :: post) ∧
      Kept (lives 0 (pre ++ ⟨s, false⟩ :: post)) h.mem (plugForward h (width pre)).mem ∧
      (plugForward h (width pre)).memSizeAligned = h.memSizeAligned := by
  have nextBlock := blocks.header.2.2.1
  have room := blocks.room.1
  dsimp only at nextBlock room
  have unchanged : HeadUsed post → (h.used (width pre + s) ≠ 0 ∨ width pre + s = h.heapEnd) →
      ∃ r post', Blocks (plugForward h (width pre)) (pre ++ ⟨s + r, false⟩ :: post') ∧
      Separated post' ∧ HeadUsed post' ∧
      lives 0 (pre ++ ⟨s + r, false⟩ :: post') = lives 0 (pre ++ ⟨s, false⟩ :: post) ∧
      Kept (lives 0 (pre ++ ⟨s, false⟩ :: post)) h.mem (plugForward h (width pre)).mem ∧
      (plugForward h (width pre)).memSizeAligned = h.memSizeAligned := by
    intro head stays
    have same : plugForward h (width pre) = h := by
      rw [plugForward, nextBlock]
      exact if_neg (by tauto)
    rw [same]
    exact ⟨0, post, blocks, separated, head, rfl, Kept.refl _ _, rfl⟩
  cases post with
  | nil =>
      apply unchanged (fun t member => by cases member)
      right
      have total := blocks.total
      simpa only [width_append, width_cons, width_nil, Nat.add_zero] using total
  | cons t more =>
      obtain ⟨r, used⟩ := t
      have split : pre ++ ⟨s, false⟩ :: ⟨r, used⟩ :: more =
          pre ++ [⟨s, false⟩] ++ ⟨r, used⟩ :: more := by
        rw [List.append_assoc, List.singleton_append]
      have place : width (pre ++ [⟨s, false⟩]) = width pre + s := by
        rw [width_append, width_cons, width_nil, Nat.add_zero]
      have along := blocks
      rw [split] at along
      have header := along.header
      rw [place] at header
      cases used with
      | true =>
          apply unchanged
          · intro t member
            obtain rfl := Option.some.inj member
            rfl
          · left
            rw [header.2.1]
            exact Nat.one_ne_zero
      | false =>
          have wide := along.room.1
          have inner := along.fits
          rw [place] at inner
          dsimp only at wide inner header
          have taken : width pre ≠ width pre + s ∧ h.used (width pre + s) = 0 ∧
              width pre + s ≠ h.heapEnd := by
            refine ⟨by omega, header.2.1, by omega⟩
          have lowest : h.lfree ≠ width pre + s := by
            have le := firstFree_free_le pre (⟨r, false⟩ :: more) s
            rw [← blocks.lowest] at le
            omega
          have result : plugForward h (width pre) =
              h.setMem (write (write h.mem (width pre + 4) (width pre + s + r))
                (width pre + s + r + 8) (width pre)) := by
            rw [plugForward, nextBlock, if_pos taken, if_neg lowest]
            simp only [Heap.setMem, Heap.next] at header ⊢
            rw [write_other (by omega), header.2.2.1]
          obtain ⟨behind, head⟩ := (separated_free_iff.mp
            (show Separated ([] ++ ⟨r, false⟩ :: more) from separated)).2.2
          rw [result]
          refine ⟨r, more, blocks.joined, behind, head, ?_, blocks.joined_kept, rfl⟩
          simp only [lives_append, lives, Bool.false_eq_true, ↓reduceIte, Nat.add_assoc]

theorem plugBackward_spec (blocks : Blocks h (pre ++ ⟨s, false⟩ :: post))
    (before : Separated pre) (behind : Separated post) (head : HeadUsed post) :
    ∃ tiles, Tiled (plugBackward h (width pre)) tiles ∧
      lives 0 tiles = lives 0 (pre ++ ⟨s, false⟩ :: post) ∧
      Kept (lives 0 tiles) h.mem (plugBackward h (width pre)).mem ∧
      (plugBackward h (width pre)).memSizeAligned = h.memSizeAligned := by
  have prevBlock := blocks.header.2.2.2
  have unchanged : LastUsed pre → plugBackward h (width pre) = h →
      ∃ tiles, Tiled (plugBackward h (width pre)) tiles ∧
        lives 0 tiles = lives 0 (pre ++ ⟨s, false⟩ :: post) ∧
        Kept (lives 0 tiles) h.mem (plugBackward h (width pre)).mem ∧
        (plugBackward h (width pre)).memSizeAligned = h.memSizeAligned := by
    intro last same
    rw [same]
    exact ⟨_, ⟨blocks, separated_free_iff.mpr ⟨before, last, behind, head⟩⟩, rfl,
      Kept.refl _ _, rfl⟩
  rcases List.eq_nil_or_concat' pre with rfl | ⟨first, ⟨q, used⟩, rfl⟩
  · apply unchanged (fun t member => by cases member)
    rw [plugBackward, prevBlock]
    exact if_neg (fun both => both.1 rfl)
  · have split : first ++ [⟨q, used⟩] ++ ⟨s, false⟩ :: post =
        first ++ ⟨q, used⟩ :: ⟨s, false⟩ :: post := by
      rw [List.append_assoc, List.singleton_append]
    rw [lastStart_snoc, Nat.zero_add] at prevBlock
    have along := blocks
    rw [split] at along
    have header := along.header
    have room := along.room.1
    have place : width (first ++ [⟨q, used⟩]) = width first + q := by
      rw [width_append, width_cons, width_nil, Nat.add_zero]
    dsimp only at header room
    cases used with
    | true =>
        apply unchanged
        · intro t member
          rw [List.getLast?_concat] at member
          obtain rfl := Option.some.inj member
          rfl
        · rw [plugBackward, prevBlock, header.2.1]
          exact if_neg (fun both => Nat.one_ne_zero both.2)
    | false =>
        have taken : width first ≠ width (first ++ [⟨q, false⟩]) ∧ h.used (width first) = 0 :=
          ⟨by rw [place]; omega, header.2.1⟩
        have lowest : h.lfree ≠ width (first ++ [⟨q, false⟩]) := by
          have le := firstFree_free_le first (⟨s, false⟩ :: post) q
          rw [← along.lowest] at le
          rw [place]
          omega
        have nextBlock := blocks.header.2.2.1
        rw [place] at nextBlock
        have result : plugBackward h (width (first ++ [⟨q, false⟩])) =
            h.setMem (write (write h.mem (width first + 4) (width first + q + s))
              (width first + q + s + 8) (width first)) := by
          rw [plugBackward, prevBlock, if_pos taken, if_neg lowest, place]
          simp only [Heap.setMem, Heap.next] at nextBlock ⊢
          rw [write_other (by omega), nextBlock]
        rw [result, split]
        obtain ⟨earlier, last, _⟩ := separated_free_iff.mp
          (show Separated (first ++ ⟨q, false⟩ :: []) from before)
        refine ⟨_, ⟨along.joined, separated_free_iff.mpr ⟨earlier, last, behind, head⟩⟩, ?_, ?_, rfl⟩
        · simp only [lives_append, lives, Bool.false_eq_true, ↓reduceIte, Nat.add_assoc]
        · have same : lives 0 (first ++ ⟨q + s, false⟩ :: post) =
              lives 0 (first ++ ⟨q, false⟩ :: ⟨s, false⟩ :: post) := by
            simp only [lives_append, lives, Bool.false_eq_true, ↓reduceIte, Nat.add_assoc]
          rw [same]
          exact along.joined_kept

/-- A free block is united with its free neighbours. -/
theorem plugHoles_spec (blocks : Blocks h (pre ++ ⟨s, false⟩ :: post))
    (before : Separated pre) (behind : Separated post) :
    ∃ h' tiles, plugHoles h (width pre) = some h' ∧ Tiled h' tiles ∧
      lives 0 tiles = lives 0 (pre ++ ⟨s, false⟩ :: post) ∧
      Kept (lives 0 tiles) h.mem h'.mem ∧ h'.memSizeAligned = h.memSizeAligned := by
  have room := blocks.room.1
  have inside := blocks.fits
  dsimp only at room inside
  have passes : width pre < h.heapEnd ∧ h.used (width pre) = 0 := ⟨by omega, blocks.header.2.1⟩
  obtain ⟨r, more, next, later, head, same, kept, size⟩ := plugForward_spec blocks behind
  obtain ⟨tiles, tiled, same', kept', size'⟩ := plugBackward_spec next before later head
  rw [same] at same'
  refine ⟨_, tiles, by rw [plugHoles, if_pos passes], tiled, same', ?_, size'.trans size⟩
  rw [same'] at kept' ⊢
  exact kept.trans kept'

theorem Blocks.freed (blocks : Blocks h (pre ++ ⟨s, true⟩ :: post)) :
    Blocks { h with
      mem := write h.mem (width pre + 2) 0
      lfree := if width pre < h.lfree then width pre else h.lfree
      usedMem := h.usedMem - s } (pre ++ ⟨s, false⟩ :: post) := by
  have room := blocks.room.1
  have inside := blocks.fits
  dsimp only at room inside
  refine ⟨blocks.chain.mark blocks.sized false, ?_, ?_, blocks.small, ?_, ?_, ?_⟩
  · obtain ⟨sizedPre, later⟩ := Sized.append_iff.mp blocks.sized
    obtain ⟨here, sizedPost⟩ := Sized.cons_iff.mp later
    exact Sized.append_iff.mpr ⟨sizedPre, Sized.cons_iff.mpr ⟨here, sizedPost⟩⟩
  · have total := blocks.total
    simp only [width_append, width_cons] at total ⊢
    exact total
  · show write _ _ _ (h.heapEnd + 2) ≠ 0
    rw [write_other (by omega)]
    exact blocks.last
  · show (if width pre < h.lfree then width pre else h.lfree) = _
    rw [blocks.lowest, firstFree_free, firstFree_append, firstFree, if_pos rfl, Nat.zero_add]
    dsimp only
    split
    · have bounds := (firstFree_bounds (width pre + s) post).1
      exact if_pos (by omega)
    · have bounds := (firstFree_bounds 0 pre).2
      exact if_neg (by omega)
  · show h.usedMem - s = _
    rw [blocks.counted]
    simp only [usedSize_append, usedSize_used, usedSize_free]
    omega

/-- The release of a block in use. -/
theorem rtFree_spec (tiled : Tiled h (pre ++ ⟨s, true⟩ :: post)) :
    ∃ h' tiles, rtFree h (some (width pre + 16)) = some h' ∧ Tiled h' tiles ∧
      lives 0 tiles = lives 0 pre ++ lives (width pre + s) post ∧
      Kept (lives 0 tiles) h.mem h'.mem ∧ h'.memSizeAligned = h.memSizeAligned := by
  have blocks := tiled.blocks
  have room := blocks.room
  have inside := blocks.fits
  have aligned := (Sized.append_iff.mp blocks.sized).1.width_mod
  obtain ⟨magic, used, nextBlock, _⟩ := blocks.header
  dsimp only at room inside used nextBlock
  obtain ⟨before, behind⟩ := separated_used_iff.mp tiled.separated
  obtain ⟨h', tiles, plugs, tiled', same, kept, size⟩ := plugHoles_spec blocks.freed before behind
  have back : width pre + 16 - sizeofStructMem = width pre := Nat.add_sub_cancel _ _
  have passes : (width pre + 16) % 8 = 0 ∧ width pre + 16 < h.heapEnd ∧
      h.used (width pre) ≠ 0 ∧ h.magic (width pre) = heapMagic := by
    refine ⟨by omega, by omega, ?_, magic⟩
    rw [used]
    exact Nat.one_ne_zero
  have marked : write (write h.mem (width pre + 2) 0) (width pre) heapMagic =
      write h.mem (width pre + 2) 0 := by
    apply write_self
    rw [write_other (by omega)]
    exact magic
  refine ⟨h', tiles, ?_, tiled', ?_, ?_, size⟩
  · rw [← plugs]
    have bytes : write h.mem (width pre + 2) 0 (width pre + 4) - width pre = s := by
      rw [write_other (by omega), show h.mem (width pre + 4) = _ from nextBlock]
      omega
    simp only [rtFree, back, if_pos passes, Heap.setMem, Heap.next, lowerFree, marked, bytes]
  · rw [same, lives_append, lives, if_neg Bool.false_ne_true, Nat.zero_add]
  · intro live member a lower upper
    rw [kept live member a lower upper]
    rw [same] at member
    exact (outside_free (show 2 < s by omega)).kept _ _ live member a lower upper

/-- The bytes that `rt_malloc` looks for. -/
def blockSize (size : Nat) : Nat :=
  if rtAlign size < minSizeAligned then minSizeAligned else rtAlign size

theorem blockSize_mod (size : Nat) : blockSize size % 8 = 0 ∧ 16 ≤ blockSize size := by
  rw [blockSize, minSizeAligned]
  split
  · decide
  · rename_i large
    rw [rtAlign] at large ⊢
    omega

/-- The block that is taken, and what is left behind it. -/
def takenTiles (s size : Nat) : List Tile :=
  if size + 48 ≤ s then [⟨size + 16, true⟩, ⟨s - (size + 16), false⟩] else [⟨s, true⟩]

def takenSize (s size : Nat) : Nat := if size + 48 ≤ s then size + 16 else s

theorem takenTiles_split {size : Nat} (wide : size + 48 ≤ s) :
    takenTiles s size = [⟨size + 16, true⟩, ⟨s - (size + 16), false⟩] ∧
      takenSize s size = size + 16 := ⟨if_pos wide, if_pos wide⟩

theorem takenTiles_whole {size : Nat} (tight : ¬ size + 48 ≤ s) :
    takenTiles s size = [⟨s, true⟩] ∧ takenSize s size = s := ⟨if_neg tight, if_neg tight⟩

theorem takenTiles_head (s size : Nat) :
    ∃ left, takenTiles s size = ⟨takenSize s size, true⟩ :: left := by
  rw [takenTiles, takenSize]
  split
  · exact ⟨_, rfl⟩
  · exact ⟨_, rfl⟩

theorem lives_takenTiles (s size start : Nat) (post : List Tile) :
    lives start (takenTiles s size ++ post) =
      (start, takenSize s size) :: lives (start + s) post := by
  by_cases wide : size + 48 ≤ s
  · obtain ⟨tiles, taken⟩ := takenTiles_split wide
    rw [tiles, taken]
    simp only [List.cons_append, List.nil_append, lives, ↓reduceIte, Bool.false_eq_true]
    rw [show start + (size + 16) + (s - (size + 16)) = start + s by omega]
  · obtain ⟨tiles, taken⟩ := takenTiles_whole wide
    rw [tiles, taken]
    simp only [List.cons_append, List.nil_append, lives, ↓reduceIte]

theorem width_takenTiles (s size : Nat) : width (takenTiles s size) = s := by
  by_cases wide : size + 48 ≤ s
  · rw [(takenTiles_split wide).1, width_cons, width_cons, width_nil]
    dsimp only
    omega
  · rw [(takenTiles_whole wide).1, width_cons, width_nil, Nat.add_zero]

theorem sized_takenTiles {size : Nat} (aligned : size % 8 = 0) (least : 16 ≤ size)
    (room : 24 ≤ s ∧ s % 8 = 0) : Sized (takenTiles s size) := by
  intro t member
  by_cases wide : size + 48 ≤ s
  · rw [(takenTiles_split wide).1, List.mem_cons, List.mem_singleton] at member
    rcases member with rfl | rfl
    · dsimp only
      omega
    · dsimp only
      omega
  · rw [(takenTiles_whole wide).1, List.mem_singleton] at member
    rw [member]
    exact room

theorem le_takenSize {size : Nat} (fit : size + 16 ≤ s) :
    size + 16 ≤ takenSize s size ∧ takenSize s size ≤ s := by
  rw [takenSize]
  split
  · omega
  · omega

theorem separated_takenTiles {size : Nat} (separated : Separated (pre ++ ⟨s, false⟩ :: post)) :
    Separated (pre ++ (takenTiles s size ++ post)) := by
  obtain ⟨before, _, behind, head⟩ := separated_free_iff.mp separated
  by_cases wide : size + 48 ≤ s
  · rw [(takenTiles_split wide).1]
    refine separated_used_iff.mpr ⟨before, ?_⟩
    show Separated ([] ++ _ :: post)
    have first : LastUsed [] := fun t member => by cases member
    exact separated_free_iff.mpr ⟨List.isChain_nil, first, behind, head⟩
  · rw [(takenTiles_whole wide).1]
    exact separated_used_iff.mpr ⟨before, behind⟩

theorem usedSize_takenTiles (s size : Nat) :
    usedSize (takenTiles s size) = takenSize s size := by
  rw [takenTiles, takenSize]
  split
  · rw [usedSize_used, usedSize_free]
    rfl
  · rw [usedSize_used]
    rfl

theorem relink_write {mem : Words} {heapEnd ptr2 a value : Nat} (link : a ≠ ptr2 + 4)
    (back : a ≠ mem (ptr2 + 4) + 8) :
    relink (write mem a value) heapEnd ptr2 = write (relink mem heapEnd ptr2) a value := by
  rw [relink, relink, write_other (Ne.symm link)]
  split
  · funext b
    by_cases here : b = a
    · rw [here, write_same, write_other back, write_same]
    · rw [write_other here]
      by_cases there : b = mem (ptr2 + 4) + 8
      · rw [there, write_same, write_same]
      · rw [write_other there, write_other there, write_other here]
  · rfl

/-- The headers behind `rt_malloc`. -/
theorem takeBlock_chain {size : Nat} (blocks : Blocks h (pre ++ ⟨s, false⟩ :: post))
    (aligned : size % 8 = 0) (least : 16 ≤ size) :
    Chain (takeBlock h (width pre) size).mem 0 0 (pre ++ (takenTiles s size ++ post)) := by
  have room := blocks.room.1
  have total := blocks.total
  have nextBlock := blocks.header.2.2.1
  dsimp only at room nextBlock
  by_cases wide : size + 48 ≤ s
  · have enough : size + sizeofStructMem + minSizeAligned ≤ s - 16 := by
      rw [sizeofStructMem, minSizeAligned]
      omega
    have place : width pre + sizeofStructMem + size = width pre + (size + 16) := by
      rw [sizeofStructMem]
      omega
    have cut := blocks.chain.split blocks.sized (show 24 ≤ size + 16 by omega)
      (show size + 16 + 24 ≤ s by omega)
    have link := (@insertMem2_header h.mem _ _
      (show width pre + 24 ≤ width pre + (size + 16) by omega)).2.2.1
    rw [show h.mem (width pre + 4) = _ from nextBlock] at link
    have sized := blocks.sized.cut (show 24 ≤ size + 16 by omega) (by omega)
      (show size + 16 + 24 ≤ s by omega) false false
    have marked := cut.mark sized true
    rw [takeBlock, blocks.data, if_pos enough, (takenTiles_split wide).1, place]
    dsimp only [Heap.setMem]
    rw [relink_write (by omega) (by rw [link]; omega), ← total]
    exact marked
  · have tight : ¬ size + sizeofStructMem + minSizeAligned ≤ s - 16 := by
      rw [sizeofStructMem, minSizeAligned]
      omega
    rw [takeBlock, blocks.data, if_neg tight, (takenTiles_whole wide).1]
    exact blocks.chain.mark blocks.sized true

/-- Only the block and the link back to it are written. -/
theorem takeBlock_other {size a : Nat} (blocks : Blocks h (pre ++ ⟨s, false⟩ :: post))
    (least : 16 ≤ size) (outside : a < width pre ∨ width pre + s ≤ a)
    (back : a ≠ width pre + s + 8) : (takeBlock h (width pre) size).mem a = h.mem a := by
  have room := blocks.room.1
  have nextBlock := blocks.header.2.2.1
  dsimp only at room nextBlock
  rw [takeBlock, blocks.data]
  split
  · rename_i enough
    rw [sizeofStructMem, minSizeAligned] at enough
    have link := (@insertMem2_header h.mem _ _
      (show width pre + 24 ≤ width pre + sizeofStructMem + size by rw [sizeofStructMem]; omega)).2.2.1
    rw [show h.mem (width pre + 4) = _ from nextBlock] at link
    rw [sizeofStructMem] at link ⊢
    dsimp only [Heap.setMem] at enough ⊢
    rw [relink_other, write_other (by omega), insertMem2_other (by omega) (by omega)]
    rw [write_other (by omega), link]
    exact back
  · exact write_other (by omega)

theorem takeBlock_fields {size : Nat} (blocks : Blocks h (pre ++ ⟨s, false⟩ :: post)) :
    (takeBlock h (width pre) size).memSizeAligned = h.memSizeAligned ∧
      (takeBlock h (width pre) size).lfree = h.lfree ∧
      (takeBlock h (width pre) size).usedMem = h.usedMem + takenSize s size := by
  have room := blocks.room.1
  have nextBlock := blocks.header.2.2.1
  dsimp only at room nextBlock
  rw [takeBlock, blocks.data, sizeofStructMem, minSizeAligned, takenSize]
  dsimp only
  split
  · rename_i enough
    rw [if_pos (by omega)]
    exact ⟨rfl, rfl, rfl⟩
  · rename_i tight
    rw [if_neg (by omega), nextBlock, Nat.add_sub_cancel_left]
    exact ⟨rfl, rfl, rfl⟩

theorem finishMalloc_fields {h h' : Heap} {ptr size : Nat} (taken : takeBlock h ptr size = h')
    (magic : h'.mem ptr = heapMagic) :
    (finishMalloc h ptr size).mem = h'.mem ∧
      (finishMalloc h ptr size).memSizeAligned = h'.memSizeAligned ∧
      (finishMalloc h ptr size).usedMem = h'.usedMem ∧
      (finishMalloc h ptr size).lfree =
        if ptr = h'.lfree then skipUsed h' h'.heapEnd h'.lfree else h'.lfree := by
  have same : h'.setMem (write h'.mem ptr heapMagic) = h' := by
    rw [write_self magic]
    rfl
  rw [finishMalloc, taken]
  simp only [same]
  split
  · exact ⟨rfl, rfl, rfl, rfl⟩
  · exact ⟨rfl, rfl, rfl, rfl⟩

/-- The data of the blocks in use is not written. -/
theorem takeBlock_kept {size : Nat} (blocks : Blocks h (pre ++ ⟨s, false⟩ :: post))
    (least : 16 ≤ size) :
    Kept (lives 0 (pre ++ ⟨s, false⟩ :: post)) h.mem (takeBlock h (width pre) size).mem := by
  intro live member a lower upper
  have behind : Outside (lives 0 (pre ++ ⟨s, false⟩ :: post)) (width pre + s + 8) := by
    have later := (Sized.cons_iff.mp (Sized.append_iff.mp blocks.sized).2).2
    have next := @outside_next (pre ++ [⟨s, false⟩]) post later 8 (by omega)
    rw [width_append, width_cons, width_nil, Nat.add_zero, List.append_assoc,
      List.singleton_append] at next
    exact next
  have apart := behind live member
  apply takeBlock_other blocks least
  · rcases mem_lives_around member with before | ⟨used, _⟩ | later
    · omega
    · cases used
    · dsimp only at later
      omega
  · omega

/-- The block found is taken: what `rt_malloc` leaves behind. -/
theorem finishMalloc_spec {size : Nat} (blocks : Blocks h (pre ++ ⟨s, false⟩ :: post))
    (aligned : size % 8 = 0) (least : 16 ≤ size) :
    Blocks (finishMalloc h (width pre) size) (pre ++ (takenTiles s size ++ post)) ∧
      Kept (lives 0 (pre ++ ⟨s, false⟩ :: post)) h.mem (finishMalloc h (width pre) size).mem ∧
      (finishMalloc h (width pre) size).memSizeAligned = h.memSizeAligned := by
  have total := blocks.total
  have behind := (Sized.cons_iff.mp (Sized.append_iff.mp blocks.sized).2).2.width_cases
  simp only [width_append, width_cons] at total
  obtain ⟨size', free', bytes'⟩ := @takeBlock_fields h pre post s size blocks
  have chain := takeBlock_chain blocks aligned least
  have kept := @takeBlock_kept h pre post s size blocks least
  have last := @takeBlock_other h pre post s size (h.heapEnd + 2) blocks least (by omega) (by omega)
  generalize taken : takeBlock h (width pre) size = h' at size' free' bytes' chain kept last
  have sized : Sized (pre ++ (takenTiles s size ++ post)) := by
    obtain ⟨sizedPre, later⟩ := Sized.append_iff.mp blocks.sized
    exact Sized.append_iff.mpr ⟨sizedPre, Sized.append_iff.mpr
      ⟨sized_takenTiles aligned least blocks.room, (Sized.cons_iff.mp later).2⟩⟩
  have same : width (pre ++ (takenTiles s size ++ post)) = width (pre ++ ⟨s, false⟩ :: post) := by
    simp only [width_append, width_cons, width_takenTiles]
  have sameEnd : h'.heapEnd = h.heapEnd := by rw [Heap.heapEnd, size', Heap.heapEnd]
  have magic : h'.mem (width pre) = heapMagic := by
    obtain ⟨left, head⟩ := takenTiles_head s size
    rw [head, List.cons_append] at chain
    exact chain.head.1
  obtain ⟨mem, aligned, bytes, lowest⟩ := finishMalloc_fields taken magic
  rw [mem]
  refine ⟨blocks.of_fields (by rw [mem]; exact chain) sized same (by rw [aligned, size'])
    (by rw [mem, last]) ?_ ?_, kept, by rw [aligned, size']⟩
  · rw [lowest, firstFree_append]
    rw [blocks.lowest, firstFree_free] at free'
    by_cases all : ∀ t ∈ pre, t.used = true
    · -- The lowest free block is taken, and the next one is looked for.
      rw [if_pos all] at free'
      have filled : width (pre ++ (takenTiles s size ++ post)) = h'.heapEnd := by
        rw [same, blocks.total, sameEnd]
      have enough : (takenTiles s size ++ post).length ≤ h'.heapEnd := by
        have long := sized.length_le
        rw [List.length_append] at long
        omega
      rw [if_pos all, if_pos free'.symm, free', skipUsed_eq chain sized filled enough, Nat.zero_add]
    · rw [if_neg all] at free'
      have below := (Sized.append_iff.mp blocks.sized).1.firstFree_lt all
      rw [if_neg all, if_neg (by omega), free']
  · rw [bytes, bytes', blocks.counted]
    simp only [usedSize_append, usedSize_takenTiles, usedSize_free]
    omega

theorem mallocAsserts_taken {size : Nat} (blocks : Blocks h (pre ++ ⟨s, false⟩ :: post))
    (aligned : size % 8 = 0) (least : 16 ≤ size) (fit : size + 16 ≤ s) :
    mallocAsserts h (finishMalloc h (width pre) size) (width pre) size := by
  obtain ⟨after, _, same⟩ := finishMalloc_spec blocks aligned least
  have start := (Sized.append_iff.mp blocks.sized).1.width_mod
  have inside := blocks.fits
  dsimp only at inside
  have sameEnd : (finishMalloc h (width pre) size).heapEnd = h.heapEnd := by
    rw [Heap.heapEnd, same, Heap.heapEnd]
  rw [mallocAsserts, sameEnd, sizeofStructMem]
  refine ⟨?_, by omega, by omega, start⟩
  intro _
  rw [← sameEnd]
  exact after.lfree_free

/-- `rt_malloc` with the first free block that fits, or without one. -/
theorem rtMalloc_spec {tiles : List Tile} (tiled : Tiled h tiles) (least : 16 ≤ h.memSizeAligned)
    (size : Nat) :
    ((size = 0 ∨ (frees 0 tiles).find? (fits h (blockSize size)) = none) ∧
        rtMalloc h size = some (h, none)) ∨
      ∃ pre s post h', size ≠ 0 ∧ tiles = pre ++ ⟨s, false⟩ :: post ∧
        (frees 0 tiles).find? (fits h (blockSize size)) = some (width pre, s) ∧
        rtMalloc h size = some (h', some (width pre + 16)) ∧
        Tiled h' (pre ++ (takenTiles s (blockSize size) ++ post)) ∧
        Kept (lives 0 tiles) h.mem h'.mem ∧ h'.memSizeAligned = h.memSizeAligned := by
  by_cases zero : size = 0
  · exact .inl ⟨.inl zero, if_pos zero⟩
  obtain ⟨aligned, atLeast⟩ := blockSize_mod size
  by_cases large : rtAlign size > h.memSizeAligned
  · refine .inl ⟨.inr ?_, ?_⟩
    · rw [List.find?_eq_none]
      intro free _
      have big : h.memSizeAligned - blockSize size = 0 := by
        rw [blockSize]
        split
        · omega
        · omega
      rw [fits, decide_eq_false (by omega), Bool.false_and]
      exact Bool.false_ne_true
    · rw [rtMalloc, if_neg zero]
      exact if_pos large
  have inside : blockSize size ≤ h.memSizeAligned := by
    rw [blockSize, minSizeAligned]
    split
    · exact least
    · omega
  have search := findBlock_lfree inside tiled.blocks
  have unfolded : rtMalloc h size =
      takeFound h (blockSize size) (findBlock h (blockSize size) h.heapEnd h.lfree) := by
    rw [rtMalloc, if_neg zero, blockSize]
    exact if_neg large
  rw [unfolded, search]
  cases found : (frees 0 tiles).find? (fits h (blockSize size)) with
  | none => exact .inl ⟨.inr rfl, rfl⟩
  | some free =>
      right
      obtain ⟨start, s⟩ := free
      obtain ⟨pre, post, split, place⟩ := mem_frees_iff.mp (List.mem_of_find?_eq_some found)
      dsimp only at split place
      rw [Nat.zero_add] at place
      subst place split
      have fit := List.find?_some found
      rw [fits, Bool.and_eq_true, decide_eq_true_iff, decide_eq_true_iff] at fit
      obtain ⟨after, kept, same⟩ := finishMalloc_spec tiled.blocks aligned atLeast
      refine ⟨pre, s, post, finishMalloc h (width pre) (blockSize size), zero, rfl, rfl, ?_,
        ⟨after, separated_takenTiles tiled.separated⟩, kept, same⟩
      have passes := mallocAsserts_taken tiled.blocks aligned atLeast fit.2
      rw [Option.map_some, takeFound, if_pos passes, sizeofStructMem]

end

end KyokaMirror.RtThread
