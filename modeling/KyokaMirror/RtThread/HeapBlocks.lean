import KyokaMirror.Library.Tiling
import KyokaMirror.RtThread.Heap

set_option autoImplicit false

namespace KyokaMirror.RtThread

open Library.Tiling

def usedFlag (used : Bool) : Nat := if used then 1 else 0

/-- The headers from `start` on describe the blocks, and each one points back to
the one before it. -/
def Chain (mem : Words) : Nat → Nat → List Tile → Prop
  | _, _, [] => True
  | before, start, t :: rest =>
      mem start = heapMagic ∧ mem (start + 2) = usedFlag t.used ∧
        mem (start + 4) = start + t.size ∧ mem (start + 8) = before ∧
        Chain mem start (start + t.size) rest

/-- Blocks have room for a header and some data, and are aligned. -/
def Sized (tiles : List Tile) : Prop := ∀ t ∈ tiles, 24 ≤ t.size ∧ t.size % 8 = 0

/-- Where the last block begins. -/
def lastStart : Nat → Nat → List Tile → Nat
  | before, _, [] => before
  | _, start, t :: rest => lastStart start (start + t.size) rest

theorem Sized.cons_iff {t : Tile} {rest : List Tile} :
    Sized (t :: rest) ↔ (24 ≤ t.size ∧ t.size % 8 = 0) ∧ Sized rest := List.forall_mem_cons

theorem Sized.append_iff {first second : List Tile} :
    Sized (first ++ second) ↔ Sized first ∧ Sized second := List.forall_mem_append

theorem Sized.width_mod {tiles : List Tile} (sized : Sized tiles) : width tiles % 8 = 0 := by
  induction tiles with
  | nil => rfl
  | cons t rest ih =>
      obtain ⟨first, later⟩ := Sized.cons_iff.mp sized
      have behind := ih later
      rw [width_cons]
      omega

theorem Sized.width_cases {tiles : List Tile} (sized : Sized tiles) :
    width tiles = 0 ∨ 24 ≤ width tiles := by
  cases tiles with
  | nil => exact .inl rfl
  | cons t rest =>
      have room := (Sized.cons_iff.mp sized).1.1
      rw [width_cons]
      omega

theorem Sized.length_le {tiles : List Tile} (sized : Sized tiles) :
    24 * tiles.length ≤ width tiles := by
  induction tiles with
  | nil => exact Nat.le_refl 0
  | cons t rest ih =>
      obtain ⟨⟨room, _⟩, later⟩ := Sized.cons_iff.mp sized
      have behind := ih later
      rw [List.length_cons, width_cons]
      omega

theorem Sized.firstFree_lt {tiles : List Tile} (sized : Sized tiles)
    (unused : ¬ ∀ t ∈ tiles, t.used = true) : firstFree 0 tiles < width tiles := by
  obtain ⟨pre, post, rfl, used, _, place⟩ := exists_firstFree 0 tiles
  cases post with
  | nil =>
      rw [List.append_nil] at unused
      exact absurd used unused
  | cons t rest =>
      have room := (Sized.cons_iff.mp (Sized.append_iff.mp sized).2).1.1
      rw [place, width_append, width_cons]
      omega

/-- A block may be cut where both parts are blocks. -/
theorem Sized.cut {pre post : List Tile} {t : Tile} {part : Nat} (sized : Sized (pre ++ t :: post))
    (least : 24 ≤ part) (aligned : part % 8 = 0) (rest : part + 24 ≤ t.size) (used used' : Bool) :
    Sized (pre ++ ⟨part, used⟩ :: ⟨t.size - part, used'⟩ :: post) := by
  obtain ⟨sizedPre, sizedHere⟩ := Sized.append_iff.mp sized
  obtain ⟨⟨_, whole⟩, sizedPost⟩ := Sized.cons_iff.mp sizedHere
  refine Sized.append_iff.mpr ⟨sizedPre, Sized.cons_iff.mpr ⟨⟨least, aligned⟩, ?_⟩⟩
  refine Sized.cons_iff.mpr ⟨?_, sizedPost⟩
  dsimp only
  omega

section

variable {mem mem' : Words}

/-- The chain only depends on the words of its blocks, and its first block may
be told of another block before it. -/
theorem Chain.told {before before' start : Nat} {tiles : List Tile} (sized : Sized tiles)
    (same : ∀ a, start ≤ a → a < start + width tiles → a ≠ start + 8 → mem' a = mem a)
    (told : tiles ≠ [] → mem' (start + 8) = before')
    (chain : Chain mem before start tiles) : Chain mem' before' start tiles := by
  induction tiles generalizing before before' start with
  | nil => trivial
  | cons t rest ih =>
      obtain ⟨⟨room, _⟩, later⟩ := Sized.cons_iff.mp sized
      obtain ⟨magic, used, next, _, chain⟩ := chain
      rw [width_cons] at same
      refine ⟨?_, ?_, ?_, told (List.cons_ne_nil t rest), ?_⟩
      · rw [same start (by omega) (by omega) (by omega), magic]
      · rw [same (start + 2) (by omega) (by omega) (by omega), used]
      · rw [same (start + 4) (by omega) (by omega) (by omega), next]
      · apply ih later _ _ chain
        · intro a lower upper _
          exact same a (by omega) (by omega) (by omega)
        · intro nonempty
          obtain ⟨u, more, rfl⟩ := List.exists_cons_of_ne_nil nonempty
          have wide := (Sized.cons_iff.mp later).1.1
          rw [width_cons] at same
          rw [same _ (by omega) (by omega) (by omega)]
          exact chain.2.2.2.1

theorem Chain.congr {before start : Nat} {tiles : List Tile} (sized : Sized tiles)
    (same : ∀ a, start ≤ a → a < start + width tiles → mem' a = mem a)
    (chain : Chain mem before start tiles) : Chain mem' before start tiles := by
  apply chain.told sized (fun a lower upper _ => same a lower upper)
  intro nonempty
  obtain ⟨t, rest, rfl⟩ := List.exists_cons_of_ne_nil nonempty
  have room := (Sized.cons_iff.mp sized).1.1
  rw [same (start + 8) (by omega) (by rw [width_cons]; omega)]
  exact chain.2.2.2.1

/-- The chain is read from the headers alone. -/
theorem Chain.congr_headers {before start : Nat} {tiles : List Tile}
    (same : ∀ pre t post, tiles = pre ++ t :: post → ∀ k < 16,
      mem' (start + width pre + k) = mem (start + width pre + k))
    (chain : Chain mem before start tiles) : Chain mem' before start tiles := by
  induction tiles generalizing before start with
  | nil => trivial
  | cons t rest ih =>
      obtain ⟨magic, used, next, prev, later⟩ := chain
      have here := same [] t rest rfl
      refine ⟨?_, ?_, ?_, ?_, ih ?_ later⟩
      · exact (here 0 (by omega)).trans magic
      · exact (here 2 (by omega)).trans used
      · exact (here 4 (by omega)).trans next
      · exact (here 8 (by omega)).trans prev
      · intro pre u post split k inside
        have there := same (t :: pre) u post (by rw [split, List.cons_append]) k inside
        rw [width_cons, ← Nat.add_assoc] at there
        exact there

theorem chain_append {before start : Nat} {first second : List Tile} :
    Chain mem before start (first ++ second) ↔
      Chain mem before start first ∧
        Chain mem (lastStart before start first) (start + width first) second := by
  induction first generalizing before start with
  | nil => exact ⟨fun chain => ⟨trivial, chain⟩, fun chain => chain.2⟩
  | cons t rest ih =>
      simp only [List.cons_append, Chain, ih, lastStart, width_cons, Nat.add_assoc, and_assoc]

theorem lastStart_snoc (before start : Nat) (tiles : List Tile) (t : Tile) :
    lastStart before start (tiles ++ [t]) = start + width tiles := by
  induction tiles generalizing before start with
  | nil => rfl
  | cons u rest ih => rw [List.cons_append, lastStart, ih, width_cons, Nat.add_assoc]

/-- What stands at the beginning of the block behind `pre`. -/
theorem Chain.head {pre post : List Tile} {t : Tile} (chain : Chain mem 0 0 (pre ++ t :: post)) :
    mem (width pre) = heapMagic ∧ mem (width pre + 2) = usedFlag t.used ∧
      mem (width pre + 4) = width pre + t.size ∧ mem (width pre + 8) = lastStart 0 0 pre := by
  have here := (chain_append.mp chain).2
  rw [Nat.zero_add] at here
  exact ⟨here.1, here.2.1, here.2.2.1, here.2.2.2.1⟩

/-- The chain with another part behind `pre`, when the memory before it is as it
was. -/
theorem Chain.replace {pre rest rest' : List Tile} (sized : Sized pre)
    (chain : Chain mem 0 0 (pre ++ rest)) (same : ∀ a < width pre, mem' a = mem a)
    (later : Chain mem' (lastStart 0 0 pre) (width pre) rest') :
    Chain mem' 0 0 (pre ++ rest') := by
  rw [chain_append, Nat.zero_add]
  refine ⟨(chain_append.mp chain).1.congr sized ?_, later⟩
  intro a _ upper
  exact same a (by omega)

/-- A block is marked. -/
theorem Chain.mark {pre post : List Tile} {t : Tile} (sized : Sized (pre ++ t :: post))
    (chain : Chain mem 0 0 (pre ++ t :: post)) (used : Bool) :
    Chain (write mem (width pre + 2) (usedFlag used)) 0 0 (pre ++ ⟨t.size, used⟩ :: post) := by
  obtain ⟨sizedPre, sizedHere⟩ := Sized.append_iff.mp sized
  obtain ⟨⟨room, _⟩, sizedPost⟩ := Sized.cons_iff.mp sizedHere
  obtain ⟨magic, _, next, prev⟩ := chain.head
  have behind := (chain_append.mp chain).2.2.2.2.2
  rw [Nat.zero_add] at behind
  apply chain.replace sizedPre
  · intro a early
    exact write_other (by omega)
  · refine ⟨?_, write_same _ _ _, ?_, ?_, ?_⟩
    · rw [write_other (by omega), magic]
    · rw [write_other (by omega), next]
    · rw [write_other (by omega), prev]
    · apply behind.congr sizedPost
      intro a lower _
      exact write_other (by omega)

/-- A block takes the next one in, and the block behind them is told. -/
theorem Chain.join {pre post : List Tile} {s t : Tile} (sized : Sized (pre ++ s :: t :: post))
    (chain : Chain mem 0 0 (pre ++ s :: t :: post)) :
    Chain (write (write mem (width pre + 4) (width pre + s.size + t.size))
      (width pre + s.size + t.size + 8) (width pre)) 0 0
      (pre ++ ⟨s.size + t.size, s.used⟩ :: post) := by
  obtain ⟨sizedPre, sizedHere⟩ := Sized.append_iff.mp sized
  obtain ⟨⟨room, _⟩, sizedNext⟩ := Sized.cons_iff.mp sizedHere
  obtain ⟨⟨_, _⟩, sizedPost⟩ := Sized.cons_iff.mp sizedNext
  obtain ⟨magic, used, _, prev⟩ := chain.head
  have behind := (chain_append.mp chain).2.2.2.2.2.2.2.2.2
  rw [Nat.zero_add] at behind
  apply chain.replace sizedPre
  · intro a early
    rw [write_other (by omega), write_other (by omega)]
  · refine ⟨?_, ?_, ?_, ?_, ?_⟩
    · rw [write_other (by omega), write_other (by omega), magic]
    · rw [write_other (by omega), write_other (by omega), used]
    · rw [write_other (by omega), write_same, Nat.add_assoc]
    · rw [write_other (by omega), write_other (by omega), prev]
    · rw [← Nat.add_assoc]
      apply behind.told sizedPost
      · intro a lower _ other
        rw [write_other other, write_other (by omega)]
      · intro _
        exact write_same _ _ _

theorem insertMem2_other {ptr ptr2 a : Nat} (first : a ≠ ptr + 4)
    (outside : a < ptr2 ∨ ptr2 + 8 < a) : insertMem2 mem ptr ptr2 a = mem a := by
  rw [insertMem2, write_other first, write_other (by omega), write_other (by omega),
    write_other (by omega), write_other (by omega)]

theorem relink_other {heapEnd ptr2 a : Nat} (other : a ≠ mem (ptr2 + 4) + 8) :
    relink mem heapEnd ptr2 a = mem a := by
  rw [relink]
  split
  · exact write_other other
  · rfl

/-- The header of the new block. -/
theorem insertMem2_header {ptr ptr2 : Nat} (apart : ptr + 24 ≤ ptr2) :
    insertMem2 mem ptr ptr2 ptr2 = heapMagic ∧ insertMem2 mem ptr ptr2 (ptr2 + 2) = 0 ∧
      insertMem2 mem ptr ptr2 (ptr2 + 4) = mem (ptr + 4) ∧
      insertMem2 mem ptr ptr2 (ptr2 + 8) = ptr ∧ insertMem2 mem ptr ptr2 (ptr + 4) = ptr2 := by
  simp only [insertMem2]
  refine ⟨?_, ?_, ?_, ?_, write_same _ _ _⟩
  · rw [write_other (by omega), write_other (by omega), write_other (by omega),
      write_other (by omega), write_same]
  · rw [write_other (by omega), write_other (by omega), write_other (by omega), write_same]
  · rw [write_other (by omega), write_other (by omega), write_same]
  · rw [write_other (by omega), write_same]

/-- A block is cut in two. -/
theorem Chain.split {pre post : List Tile} {t : Tile} {part : Nat}
    (sized : Sized (pre ++ t :: post)) (chain : Chain mem 0 0 (pre ++ t :: post))
    (least : 24 ≤ part) (rest : part + 24 ≤ t.size) :
    Chain (relink (insertMem2 mem (width pre) (width pre + part)) (width (pre ++ t :: post))
      (width pre + part)) 0 0 (pre ++ ⟨part, t.used⟩ :: ⟨t.size - part, false⟩ :: post) := by
  obtain ⟨sizedPre, sizedHere⟩ := Sized.append_iff.mp sized
  obtain ⟨⟨room, _⟩, sizedPost⟩ := Sized.cons_iff.mp sizedHere
  obtain ⟨magic, used, next, prev⟩ := chain.head
  have behind := (chain_append.mp chain).2.2.2.2.2
  rw [Nat.zero_add] at behind
  obtain ⟨magic2, used2, next2, prev2, next1⟩ :=
    @insertMem2_header mem _ _ (show width pre + 24 ≤ width pre + part by omega)
  rw [next] at next2
  have far : ∀ a, a < width pre + t.size → relink (insertMem2 mem (width pre) (width pre + part))
      (width (pre ++ t :: post)) (width pre + part) a =
      insertMem2 mem (width pre) (width pre + part) a := by
    intro a early
    apply relink_other
    rw [next2]
    omega
  apply chain.replace sizedPre
  · intro a early
    rw [far a (by omega), insertMem2_other (by omega) (by omega)]
  · simp only [Chain]
    refine ⟨?_, ?_, ?_, ?_, ?_, ?_, ?_, ?_, ?_⟩
    · rw [far _ (by omega), insertMem2_other (by omega) (by omega), magic]
    · rw [far _ (by omega), insertMem2_other (by omega) (by omega), used]
    · rw [far _ (by omega), next1]
    · rw [far _ (by omega), insertMem2_other (by omega) (by omega), prev]
    · rw [far _ (by omega), magic2]
    · rw [far _ (by omega), used2]
      rfl
    · rw [far _ (by omega), next2]
      omega
    · rw [far _ (by omega), prev2]
    · rw [show width pre + part + (t.size - part) = width pre + t.size by omega]
      apply behind.told sizedPost
      · intro a lower _ other
        rw [relink_other (by rw [next2]; exact other),
          insertMem2_other (by omega) (by omega)]
      · intro nonempty
        obtain ⟨u, more, rfl⟩ := List.exists_cons_of_ne_nil nonempty
        have wide := (Sized.cons_iff.mp sizedPost).1.1
        have inner : width pre + t.size ≠ width (pre ++ t :: u :: more) := by
          rw [width_append, width_cons, width_cons]
          omega
        rw [relink, next2, if_pos inner, write_same]

theorem write_self {a value : Nat} (same : mem a = value) : write mem a value = mem := by
  funext b
  rw [write]
  split
  next here => rw [here, same]
  next => rfl

end

end KyokaMirror.RtThread
