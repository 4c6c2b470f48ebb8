import KyokaMirror.Library.Transition
import KyokaMirror.RtThread.HeapResize

set_option autoImplicit false

namespace KyokaMirror.RtThread

open Library.Tiling Library.Transition
open Function (update update_self update_of_ne)

/-- What a thread believes to have behind a pointer. -/
structure Object where
  asked : Nat
  data : Nat → Nat

structure Clients where
  heap : Heap
  objects : Nat → Option Object

/-- A pointer from `rt_malloc` or `rt_calloc`. -/
def Clients.received (c : Clients) (object : Heap → Nat → Object) : Heap × Option Nat → Clients
  | (h, none) => ⟨h, c.objects⟩
  | (h, some q) => ⟨h, update c.objects q (some (object h q))⟩

/-- A pointer from `rt_realloc`, in place of the old one. -/
def Clients.resized (c : Clients) (old : Nat) (object : Object) (newsize : Nat) :
    Heap × Option Nat → Clients
  | (h, none) => ⟨h, if newsize = 0 then update c.objects old none else c.objects⟩
  | (h, some q) =>
      ⟨h, update (update c.objects old none) q
        (some ⟨newsize, fun i => if i < object.asked then object.data i else h.mem (q + i)⟩)⟩

inductive Call where
  | malloc (size : Nat)
  | calloc (count size : Nat)
  | realloc (rmem : Option Nat) (newsize : Nat)
  | free (rmem : Nat)
  | store (rmem i value : Nat)

/-- A thread passes on and writes only what it has, and gives up what it frees.
`none` where an assertion of the allocator fails. `heap_sem` makes `rt_malloc`, `rt_free`
and `rt_realloc` in place one step. `rt_calloc` and a moving `rt_realloc` let other
threads in between their parts; but these parts are an `rt_malloc`, stores into the new
object and an `rt_free`, so that such a run is one of those calls. -/
def perform : Call → Clients → Option Clients
  | .malloc size, c =>
      (rtMalloc c.heap size).map (c.received fun h q => ⟨size, fun i => h.mem (q + i)⟩)
  | .calloc count size, c =>
      (rtCalloc c.heap count size).map (c.received fun _ _ => ⟨count * size, fun _ => 0⟩)
  | .realloc none newsize, c =>
      (rtRealloc c.heap none newsize).map
        (c.received fun h q => ⟨newsize, fun i => h.mem (q + i)⟩)
  | .realloc (some rmem) newsize, c =>
      match c.objects rmem with
      | none => some c
      | some object => (rtRealloc c.heap (some rmem) newsize).map (c.resized rmem object newsize)
  | .free rmem, c =>
      match c.objects rmem with
      | none => some c
      | some _ => (rtFree c.heap (some rmem)).map fun h => ⟨h, update c.objects rmem none⟩
  | .store rmem i value, c =>
      match c.objects rmem with
      | none => some c
      | some object =>
          if i < object.asked then
            some ⟨c.heap.setMem (write c.heap.mem (rmem + i) value),
              update c.objects rmem (some { object with data := update object.data i value })⟩
          else some c

/-- Sizes that `RT_ALIGN` does not wrap to a smaller one. -/
def Call.Small : Call → Prop
  | .malloc size => size ≤ 2 ^ 32 - 8
  | .calloc count size => count * size ≤ 2 ^ 32 - 8
  | .realloc _ newsize => newsize ≤ 2 ^ 32 - 8
  | _ => True

structure Matched (c : Clients) (blocks : List (Nat × Nat)) : Prop where
  holds : ∀ q object, c.objects q = some object → ∃ p n, q = p + 16 ∧ (p, n) ∈ blocks ∧
    object.asked + 16 ≤ n ∧ ∀ i < object.asked, c.heap.mem (q + i) = object.data i
  owned : ∀ live ∈ blocks, c.objects (live.1 + 16) ≠ none

section

variable {h h' : Heap} {objects : Nat → Option Object} {blocks others : List (Nat × Nat)} {p n : Nat}

theorem Matched.perm {c : Clients} (matched : Matched c blocks) (same : blocks.Perm others) :
    Matched c others := by
  refine ⟨?_, fun live member => matched.owned live (same.mem_iff.mpr member)⟩
  intro q object has
  obtain ⟨p, n, place, member, rest⟩ := matched.holds q object has
  exact ⟨p, n, place, same.mem_iff.mp member, rest⟩

theorem Matched.keep (matched : Matched ⟨h, objects⟩ blocks) (kept : Kept blocks h.mem h'.mem) :
    Matched ⟨h', objects⟩ blocks := by
  refine ⟨?_, matched.owned⟩
  intro q object has
  obtain ⟨p, n, place, member, room, data⟩ := matched.holds q object has
  refine ⟨p, n, place, member, room, ?_⟩
  intro i inside
  rw [← data i inside]
  exact kept _ member _ (by dsimp only; omega) (by dsimp only; omega)

theorem Matched.remove (matched : Matched ⟨h, objects⟩ ((p, n) :: others))
    (distinct : ∀ live ∈ others, live.1 ≠ p) :
    Matched ⟨h, update objects (p + 16) none⟩ others := by
  constructor
  · intro q object has
    have other : q ≠ p + 16 := by
      rintro rfl
      dsimp only at has
      rw [update_self] at has
      cases has
    dsimp only at has
    rw [update_of_ne other] at has
    obtain ⟨p', n', place, member, rest⟩ := matched.holds q object has
    refine ⟨p', n', place, ?_, rest⟩
    rcases List.mem_cons.mp member with same | later
    · obtain ⟨rfl, _⟩ := Prod.mk.inj same
      exact absurd place other
    · exact later
  · intro live member
    have other : live.1 + 16 ≠ p + 16 := by
      have := distinct live member
      omega
    dsimp only
    rw [update_of_ne other]
    exact matched.owned live (List.mem_cons_of_mem _ member)

theorem Matched.add {object : Object} (matched : Matched ⟨h, objects⟩ blocks)
    (room : object.asked + 16 ≤ n)
    (data : ∀ i < object.asked, h.mem (p + 16 + i) = object.data i) :
    Matched ⟨h, update objects (p + 16) (some object)⟩ ((p, n) :: blocks) := by
  constructor
  · intro q object' has
    dsimp only at has
    by_cases same : q = p + 16
    · subst same
      rw [update_self] at has
      obtain rfl := Option.some.inj has
      exact ⟨p, n, rfl, List.mem_cons_self, room, data⟩
    · rw [update_of_ne same] at has
      obtain ⟨p', n', place, member, rest⟩ := matched.holds q object' has
      exact ⟨p', n', place, List.mem_cons_of_mem _ member, rest⟩
  · intro live member
    dsimp only
    by_cases same : live.1 + 16 = p + 16
    · rw [same, update_self]
      exact Option.some_ne_none _
    · rw [update_of_ne same]
      rcases List.mem_cons.mp member with rfl | later
      · exact absurd rfl same
      · exact matched.owned live later

end

/-- What every call keeps, for a heap of `total` bytes. -/
structure Intact (total : Nat) (c : Clients) (tiles : List Tile) : Prop where
  tiled : Tiled c.heap tiles
  size : c.heap.memSizeAligned = total
  room : 16 ≤ total
  matched : Matched c (lives 0 tiles)

section

variable {total : Nat} {c : Clients} {tiles : List Tile}

theorem Intact.least (intact : Intact total c tiles) : 16 ≤ c.heap.memSizeAligned := by
  rw [intact.size]
  exact intact.room

/-- A new block for a thread. -/
theorem Intact.receive {h : Heap} {tiles' : List Tile} {p n : Nat} {object : Heap → Nat → Object}
    (intact : Intact total c tiles) (tiled : Tiled h tiles')
    (same : (lives 0 tiles').Perm ((p, n) :: lives 0 tiles))
    (kept : Kept (lives 0 tiles) c.heap.mem h.mem)
    (size : h.memSizeAligned = c.heap.memSizeAligned)
    (room : (object h (p + 16)).asked + 16 ≤ n)
    (data : ∀ i < (object h (p + 16)).asked,
      h.mem (p + 16 + i) = (object h (p + 16)).data i) :
    Intact total (c.received object (h, some (p + 16))) tiles' := by
  refine ⟨tiled, size.trans intact.size, intact.room, ?_⟩
  exact ((intact.matched.keep kept).add room data).perm same.symm

theorem malloc_intact (intact : Intact total c tiles) {asked size : Nat} (large : asked ≤ blockSize size) :
    ∃ c' tiles', (rtMalloc c.heap size).map
      (c.received fun h q => ⟨asked, fun i => h.mem (q + i)⟩) = some c' ∧ Intact total c' tiles' := by
  rcases rtMalloc_lives intact.tiled intact.least size with fails | ⟨h, tiles', p, n, result, tiled,
    same, room, _, kept, sizes⟩
  · rw [fails]
    exact ⟨c, tiles, rfl, intact⟩
  · rw [result]
    refine ⟨_, tiles', rfl, intact.receive tiled same kept sizes ?_ fun i _ => rfl⟩
    dsimp only
    omega

theorem calloc_intact (intact : Intact total c tiles) {count size : Nat}
    (small : count * size ≤ 2 ^ 32 - 8) :
    ∃ c' tiles', perform (.calloc count size) c = some c' ∧ Intact total c' tiles' := by
  rw [perform]
  rcases rtCalloc_lives intact.tiled intact.least small with fails | ⟨h, tiles', p, n, result, tiled,
    same, room, zero, kept, sizes⟩
  · rw [fails]
    exact ⟨c, tiles, rfl, intact⟩
  · rw [result]
    exact ⟨_, tiles', rfl, intact.receive tiled same kept sizes room zero⟩

theorem free_intact (intact : Intact total c tiles) (rmem : Nat) :
    ∃ c' tiles', perform (.free rmem) c = some c' ∧ Intact total c' tiles' := by
  rw [perform]
  cases has : c.objects rmem with
  | none => exact ⟨c, tiles, rfl, intact⟩
  | some object =>
      obtain ⟨p, n, rfl, member, _⟩ := intact.matched.holds rmem object has
      obtain ⟨h, tiles', result, tiled, same, kept, sizes⟩ := rtFree_lives intact.tiled member
      have matched := (intact.matched.perm same).remove (intact.tiled.distinct same)
      dsimp only
      rw [result]
      exact ⟨_, tiles', rfl, tiled, sizes.trans intact.size, intact.room,
        matched.keep kept⟩

theorem store_intact (intact : Intact total c tiles) (rmem i value : Nat) :
    ∃ c' tiles', perform (.store rmem i value) c = some c' ∧ Intact total c' tiles' := by
  rw [perform]
  cases has : c.objects rmem with
  | none => exact ⟨c, tiles, rfl, intact⟩
  | some object =>
      dsimp only
      by_cases inside : i < object.asked
      · rw [if_pos inside]
        obtain ⟨p, n, rfl, member, room, data⟩ := intact.matched.holds rmem object has
        have same := List.perm_cons_erase member
        have distinct := intact.tiled.distinct same
        have kept : Kept ((lives 0 tiles).erase (p, n)) c.heap.mem
            (write c.heap.mem (p + 16 + i) value) := by
          apply Outside.kept
          intro live other
          have before := same.mem_iff.mpr (List.mem_cons_of_mem _ other)
          rcases lives_apart before member with equal | apart
          · exact absurd (congrArg Prod.fst equal) (distinct live other)
          · dsimp only at apart
            omega
        refine ⟨_, tiles, rfl, ?_, intact.size, intact.room, ?_⟩
        · apply intact.tiled.write_data
          intro a outside
          have away := outside (p, n) member
          dsimp only at away
          exact write_other (by omega)
        · have rest := ((intact.matched.perm same).remove distinct).keep
            (show Kept _ c.heap.mem (c.heap.setMem (write c.heap.mem (p + 16 + i) value)).mem from kept)
          have added := @Matched.add _ _ _ p n { object with data := update object.data i value } rest
            room ?_
          · rw [Function.update_idem] at added
            exact added.perm same.symm
          · intro k below
            dsimp only [Heap.setMem] at below ⊢
            by_cases here : k = i
            · rw [here, write_same, update_self]
            · rw [write_other (by omega), update_of_ne here, data k below]
      · rw [if_neg inside]
        exact ⟨c, tiles, rfl, intact⟩

theorem realloc_intact (intact : Intact total c tiles) (rmem : Option Nat) {newsize : Nat}
    (small : newsize ≤ 2 ^ 32 - 8) :
    ∃ c' tiles', perform (.realloc rmem newsize) c = some c' ∧ Intact total c' tiles' := by
  have large := le_rtAlign small
  cases rmem with
  | none =>
      rw [perform, rtRealloc]
      by_cases tooLarge : rtAlign newsize > c.heap.memSizeAligned
      · rw [if_pos tooLarge]
        exact ⟨c, tiles, rfl, intact⟩
      rw [if_neg tooLarge]
      by_cases zero : rtAlign newsize = 0
      · rw [if_pos zero]
        exact ⟨c, tiles, rfl, intact⟩
      rw [if_neg zero]
      have bound : rtAlign newsize ≤ 2 ^ 32 - 8 := by
        rw [rtAlign]
        omega
      exact malloc_intact intact (Nat.le_trans large (le_blockSize bound))
  | some rmem =>
      rw [perform]
      cases has : c.objects rmem with
      | none => exact ⟨c, tiles, rfl, intact⟩
      | some object =>
          dsimp only
          obtain ⟨p, s, rfl, member, room, data⟩ := intact.matched.holds rmem object has
          rcases rtRealloc_lives intact.tiled intact.least member newsize with ⟨nonzero, result⟩ |
            ⟨h, tiles', zero, result, tiled, same, kept, sizes⟩ |
            ⟨h, tiles', q, n, nonzero, result, tiled, wide, moved, sizes⟩
          · have positive : newsize ≠ 0 := by
              rintro rfl
              exact nonzero rfl
            rw [result, Option.map_some, Clients.resized, if_neg positive]
            exact ⟨c, tiles, rfl, intact⟩
          · have matched := (intact.matched.perm same).remove (intact.tiled.distinct same)
            rw [result, Option.map_some, Clients.resized, if_pos (by omega)]
            exact ⟨_, tiles', rfl, tiled, sizes.trans intact.size, intact.room,
              matched.keep kept⟩
          · obtain ⟨others, before, after, kept⟩ := moved.others
            have matched := ((intact.matched.perm before).remove
              (intact.tiled.distinct before)).keep kept
            rw [result, Option.map_some, Clients.resized]
            refine ⟨_, tiles', rfl, tiled, sizes.trans intact.size, intact.room, ?_⟩
            refine (matched.add (show _ + 16 ≤ n by dsimp only; omega) ?_).perm after.symm
            intro i inside
            dsimp only at inside ⊢
            split
            · rename_i old
              rw [moved.beginning i (by omega), data i old]
            · rfl

/-- A call keeps the invariant, and no assertion of the allocator fails. -/
theorem perform_intact (intact : Intact total c tiles) {call : Call} (small : call.Small) :
    ∃ c' tiles', perform call c = some c' ∧ Intact total c' tiles' := by
  cases call with
  | malloc size => exact malloc_intact intact (le_blockSize small)
  | calloc count size => exact calloc_intact intact small
  | realloc rmem newsize => exact realloc_intact intact rmem small
  | free rmem => exact free_intact intact rmem
  | store rmem i value => exact store_intact intact rmem i value

theorem run_intact (intact : Intact total c tiles) {calls : List Call}
    (small : ∀ call ∈ calls, call.Small) :
    ∃ c' tiles', run perform calls c = some c' ∧ Intact total c' tiles' := by
  induction calls generalizing c tiles with
  | nil => exact ⟨c, tiles, rfl, intact⟩
  | cons call rest ih =>
      obtain ⟨here, later⟩ := List.forall_mem_cons.mp small
      obtain ⟨c₁, tiles₁, step, intact₁⟩ := perform_intact intact here
      rw [run_cons, step, Option.bind_some]
      exact ih intact₁ later

/-- The headers in memory from `p` to the end of the heap. -/
def headers (h : Heap) : Nat → Nat → List Tile
  | 0, _ => []
  | fuel + 1, p =>
      if p = h.heapEnd then []
      else ⟨h.next p - p, decide (h.used p ≠ 0)⟩ :: headers h fuel (h.next p)

theorem headers_eq {h : Heap} {pre rest : List Tile} (blocks : Blocks h (pre ++ rest)) {fuel : Nat}
    (enough : rest.length < fuel) : headers h fuel (width pre) = rest := by
  induction rest generalizing pre fuel with
  | nil =>
      obtain ⟨fuel, rfl⟩ : ∃ n, fuel = n + 1 := ⟨fuel - 1, by omega⟩
      have last : width pre = h.heapEnd := by rw [← blocks.total, List.append_nil]
      rw [headers, if_pos last]
  | cons t rest ih =>
      obtain ⟨fuel, rfl⟩ : ∃ n, fuel = n + 1 := ⟨fuel - 1, by omega⟩
      have room := blocks.room
      have inside := blocks.fits
      obtain ⟨_, used, next, _⟩ := blocks.header
      have split : pre ++ t :: rest = pre ++ [t] ++ rest := by
        rw [List.append_assoc, List.singleton_append]
      have along : Blocks h (pre ++ [t] ++ rest) := by
        rw [← split]
        exact blocks
      have later := ih along (show rest.length < fuel by rw [List.length_cons] at enough; omega)
      rw [width_append, width_cons, width_nil, Nat.add_zero] at later
      rw [headers, if_neg (by omega), next, later, used, Nat.add_sub_cancel_left]
      obtain ⟨size, flag⟩ := t
      cases flag with
      | true => rfl
      | false => rfl

theorem Intact.headers (intact : Intact total c tiles) :
    headers c.heap c.heap.heapEnd 0 = tiles :=
  @headers_eq c.heap [] tiles intact.tiled.blocks _ intact.tiled.blocks.length_lt

theorem rtSystemHeapInit_intact {mem : Words} {beginAddr endAddr : Nat} {h : Heap}
    (begins : rtSystemHeapInit mem beginAddr endAddr = some h) (room : 16 ≤ h.memSizeAligned)
    (small : endAddr < 2 ^ 32) :
    Intact h.memSizeAligned ⟨h, fun _ => none⟩ [⟨h.heapEnd, false⟩] := by
  have tiled := (rtSystemHeapInit_tiled begins (by omega) small).1
  refine ⟨tiled, rfl, room, ?_, ?_⟩
  · intro q object has
    cases has
  · intro live member
    cases member

/-- Objects do not overlap, neither with each other nor with the header of any block,
free or used, or of `heap_end`, and hold what was stored. -/
structure Undisturbed (c : Clients) : Prop where
  placed : ∀ q object, c.objects q = some object →
    q % 8 = 0 ∧ 16 ≤ q ∧ q + object.asked ≤ c.heap.heapEnd
  stored : ∀ q object, c.objects q = some object →
    ∀ i < object.asked, c.heap.mem (q + i) = object.data i
  apart : ∀ q object q' object', q ≠ q' → c.objects q = some object →
    c.objects q' = some object' →
    q + object.asked + 16 ≤ q' ∨ q' + object'.asked + 16 ≤ q
  clear : ∀ q object, c.objects q = some object → ∀ before behind,
    headers c.heap c.heap.heapEnd 0 = before ++ behind →
    width before + 16 ≤ q ∨ q + object.asked ≤ width before

theorem Intact.undisturbed (intact : Intact total c tiles) : Undisturbed c := by
  refine ⟨?_, ?_, ?_, ?_⟩
  · intro q object has
    obtain ⟨p, n, rfl, member, room, _⟩ := intact.matched.holds q object has
    obtain ⟨pre, post, split, place⟩ := exists_of_mem_lives member
    have blocks := intact.tiled.blocks
    rw [split] at blocks
    have inside := blocks.fits
    have start := (Sized.append_iff.mp blocks.sized).1.width_mod
    dsimp only at place inside
    omega
  · intro q object has
    obtain ⟨_, _, _, _, _, data⟩ := intact.matched.holds q object has
    exact data
  · intro q object q' object' other has has'
    obtain ⟨p, n, rfl, member, room, _⟩ := intact.matched.holds q object has
    obtain ⟨p', n', rfl, member', room', _⟩ := intact.matched.holds q' object' has'
    rcases lives_apart member member' with same | apart
    · exact absurd (congrArg (fun live : Nat × Nat => live.1 + 16) same) other
    · dsimp only at apart
      omega
  · intro q object has before behind split
    obtain ⟨p, n, rfl, member, room, _⟩ := intact.matched.holds q object has
    rw [intact.headers] at split
    subst split
    cases behind with
    | nil =>
        -- The header at `heap_end`.
        have bounds := (lives_bounds member).2
        rw [List.append_nil] at bounds
        dsimp only at bounds
        omega
    | cons t rest =>
        have wide := (intact.tiled.blocks.room).1
        rcases mem_lives_around member with earlier | ⟨_, here⟩ | later
        · dsimp only at earlier
          omega
        · obtain ⟨rfl, _⟩ := Prod.mk.inj here
          omega
        · dsimp only at later
          omega

/-- Without objects the heap is one free block. -/
theorem Intact.recovered (intact : Intact total c tiles) (none : ∀ q, c.objects q = none) :
    tiles = [⟨c.heap.heapEnd, false⟩] := by
  have empty : lives 0 tiles = [] := by
    rw [List.eq_nil_iff_forall_not_mem]
    intro live member
    exact intact.matched.owned live member (none _)
  have unused := (lives_eq_nil_iff 0 tiles).mp empty
  have filled := intact.tiled.blocks.total
  have positive : 16 ≤ c.heap.heapEnd := Nat.le_add_left _ _
  cases tiles with
  | nil =>
      rw [width_nil] at filled
      omega
  | cons t rest =>
      cases rest with
      | nil =>
          obtain ⟨size, used⟩ := t
          rw [width_cons, width_nil, Nat.add_zero] at filled
          have free := unused _ List.mem_cons_self
          dsimp only at filled free
          rw [filled, free]
      | cons u rest =>
          -- Two free blocks would touch.
          have touch := (List.isChain_cons_cons.mp intact.tiled.separated).1
          rw [unused t List.mem_cons_self,
            unused u (List.mem_cons_of_mem _ List.mem_cons_self)] at touch
          simp only [Bool.false_eq_true, or_self] at touch

end

section

variable {mem : Words} {beginAddr endAddr : Nat} {h : Heap}

/-- No assertion of the allocator fails, whatever the threads call, and no call
disturbs another thread's object. -/
theorem run_undisturbed (begins : rtSystemHeapInit mem beginAddr endAddr = some h)
    (room : 16 ≤ h.memSizeAligned) (small : endAddr < 2 ^ 32) {calls : List Call}
    (sizes : ∀ call ∈ calls, call.Small) :
    ∃ c, run perform calls ⟨h, fun _ => none⟩ = some c ∧ Undisturbed c := by
  obtain ⟨c, tiles, reached, intact⟩ :=
    run_intact (rtSystemHeapInit_intact begins room small) sizes
  exact ⟨c, reached, intact.undisturbed⟩

theorem run_undisturbed_store : ∃ h c, rtSystemHeapInit (fun _ => 0) 0 96 = some h ∧
    run perform [.malloc 5, .store 16 0 7, .realloc (some 16) 24] ⟨h, fun _ => none⟩ = some c ∧
    Undisturbed c := by
  have sizes : ∀ call ∈ [Call.malloc 5, .store 16 0 7, .realloc (some 16) 24], call.Small := by
    simp [Call.Small]
  obtain ⟨c, result⟩ := run_undisturbed (show rtSystemHeapInit (fun _ => 0) 0 96 = some _ from rfl)
    (by decide) (by decide) sizes
  exact ⟨_, c, rfl, result⟩

/-- `rt_malloc` takes the first of all free blocks that fits, and `NULL` means
that there is none. -/
theorem run_first_fit (begins : rtSystemHeapInit mem beginAddr endAddr = some h)
    (room : 16 ≤ h.memSizeAligned) (small : endAddr < 2 ^ 32) {calls : List Call}
    (sizes : ∀ call ∈ calls, call.Small) {c : Clients}
    (reached : run perform calls ⟨h, fun _ => none⟩ = some c) {size : Nat} (positive : 0 < size) :
    ∃ h', rtMalloc c.heap size = some (h',
      ((frees 0 (headers c.heap c.heap.heapEnd 0)).find? (fits c.heap (blockSize size))).map
        fun free => free.1 + 16) := by
  obtain ⟨c', tiles, reached', intact⟩ :=
    run_intact (rtSystemHeapInit_intact begins room small) sizes
  obtain rfl := Option.some.inj (reached.symm.trans reached')
  rw [intact.headers]
  rcases rtMalloc_spec intact.tiled intact.least size with ⟨cause, result⟩ |
    ⟨pre, s, post, h', _, _, found, result, _⟩
  · have absent := cause.resolve_left (by omega)
    rw [absent]
    exact ⟨c.heap, result⟩
  · rw [found]
    exact ⟨h', result⟩

theorem run_first_fit_freed : ∃ h c h', rtSystemHeapInit (fun _ => 0) 0 96 = some h ∧
    run perform [.malloc 5, .malloc 9, .free 16] ⟨h, fun _ => none⟩ = some c ∧
    rtMalloc c.heap 5 = some (h',
      ((frees 0 (headers c.heap c.heap.heapEnd 0)).find? (fits c.heap (blockSize 5))).map
        fun free => free.1 + 16) := by
  have sizes : ∀ call ∈ [Call.malloc 5, .malloc 9, .free 16], call.Small := by
    simp [Call.Small]
  have begins : rtSystemHeapInit (fun _ => 0) 0 96 = some _ := rfl
  obtain ⟨c, _, reached, _⟩ :=
    run_intact (rtSystemHeapInit_intact begins (by decide) (by decide)) sizes
  obtain ⟨h', result⟩ :=
    run_first_fit begins (by decide) (by decide) sizes reached (show 0 < 5 by decide)
  exact ⟨_, c, h', rfl, reached, result⟩

/-- `used_mem` counts the blocks in use, and when everything is freed the heap
is again the one free block that it was. -/
theorem run_recovered (begins : rtSystemHeapInit mem beginAddr endAddr = some h)
    (room : 16 ≤ h.memSizeAligned) (small : endAddr < 2 ^ 32) {calls : List Call}
    (sizes : ∀ call ∈ calls, call.Small) {c : Clients}
    (reached : run perform calls ⟨h, fun _ => none⟩ = some c) :
    c.heap.usedMem = usedSize (headers c.heap c.heap.heapEnd 0) ∧
      ((∀ q, c.objects q = none) →
        headers c.heap c.heap.heapEnd 0 = headers h h.heapEnd 0 ∧ c.heap.lfree = h.lfree ∧
          c.heap.usedMem = 0) := by
  have initial := rtSystemHeapInit_intact begins room small
  obtain ⟨c', tiles, reached', intact⟩ := run_intact initial sizes
  obtain rfl := Option.some.inj (reached.symm.trans reached')
  have counted := intact.tiled.blocks.counted
  refine ⟨by rw [intact.headers, counted], ?_⟩
  intro none
  have single := intact.recovered none
  have sameEnd : c.heap.heapEnd = h.heapEnd := by rw [Heap.heapEnd, intact.size, Heap.heapEnd]
  refine ⟨?_, ?_, ?_⟩
  · rw [intact.headers, single, sameEnd]
    exact initial.headers.symm
  · rw [intact.tiled.blocks.lowest, initial.tiled.blocks.lowest, single, sameEnd]
  · rw [counted, single]
    rfl

/-- Two objects, freed in the order in which they came. -/
theorem run_recovered_freed : ∃ h c, rtSystemHeapInit (fun _ => 0) 0 96 = some h ∧
    run perform [.malloc 5, .malloc 9, .free 16, .free 48] ⟨h, fun _ => none⟩ = some c ∧
    c.heap.usedMem = usedSize (headers c.heap c.heap.heapEnd 0) ∧
    headers c.heap c.heap.heapEnd 0 = headers h h.heapEnd 0 ∧ c.heap.lfree = h.lfree ∧
      c.heap.usedMem = 0 := by
  have sizes : ∀ call ∈ [Call.malloc 5, .malloc 9, .free 16, .free 48], call.Small := by
    simp [Call.Small]
  have freed (first second : Option Object) (q : Nat) :
      (update (update (update (update (fun _ => none) 16 first) 48 second) 16 none) 48 none :
        Nat → Option Object) q = none := by
    by_cases last : q = 48
    · rw [last, update_self]
    · rw [update_of_ne last]
      by_cases other : q = 16
      · rw [other, update_self]
      · rw [update_of_ne other, update_of_ne last, update_of_ne other]
  have whole := @run_recovered (fun _ => 0) 0 96 _ rfl (by decide) (by decide)
    [.malloc 5, .malloc 9, .free 16, .free 48] sizes _ rfl
  exact ⟨_, _, rfl, rfl, whole.1, whole.2 (freed _ _)⟩

end

end KyokaMirror.RtThread
