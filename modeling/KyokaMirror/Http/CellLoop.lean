import KyokaMirror.Http.Cells
import KyokaMirror.Library.Loop

set_option autoImplicit false

namespace KyokaMirror.Http

open Users
open Library.Loop

/- The two loops of a cell without a bound on their rounds. The counter `i` and
the bytes of `date1` are the state of the first, the counter `k` and the tables
that of the second. -/

/-- `while (buffer[index+i] != '<')`. -/
def cellTest (buffer : Memory) (index : Nat) (state : Nat × List UInt8) : Prop :=
  buffer (index + state.1) ≠ charLt

/-- `date1[i-4] = buffer[index+i]; i++;` with the 8-bit counter. -/
def cellRound (buffer : Memory) (index : Nat) (state : Nat × List UInt8) : Nat × List UInt8 :=
  ((state.1 + 1) % 256, state.2 ++ [buffer (index + state.1)])

/-- The loop that ends within its fuel is the loop. -/
theorem cellLoop_of_ends {buffer : Memory} {index n : Nat} :
    ∀ {fuel i : Nat} {date1 : List UInt8} {found : Nat × List UInt8},
      Ends (cellTest buffer index) (cellRound buffer index) n (i, date1) found → n ≤ fuel →
      cellLoop buffer index fuel i date1 = found := by
  induction n with
  | zero =>
      intro fuel i date1 found ends _
      obtain ⟨stops, same⟩ := ends_zero_iff.mp ends
      have here : buffer (index + i) = charLt := Classical.not_not.mp stops
      cases fuel with
      | zero => rw [cellLoop, same]
      | succ fuel => rw [cellLoop, if_pos here, same]
  | succ n ih =>
      intro fuel i date1 found ends enough
      obtain ⟨other, later⟩ := ends_succ_iff.mp ends
      cases fuel with
      | zero => omega
      | succ fuel =>
          rw [cellLoop, if_neg other]
          exact ih later (Nat.le_of_succ_le_succ enough)

/-- The state before round `k`. -/
def cellState (buffer : Memory) (index k : Nat) : Nat × List UInt8 :=
  ((4 + k) % 256, (List.range k).map fun m => buffer (index + 4 + m))

theorem cellRound_cellState (buffer : Memory) (index : Nat) {k : Nat} (early : k < 252) :
    cellRound buffer index (cellState buffer index k) = cellState buffer index (k + 1) := by
  have counter : (4 + k) % 256 = 4 + k := Nat.mod_eq_of_lt (by omega)
  rw [cellRound, cellState, cellState, List.range_succ, List.map_append, counter]
  simp only [List.map_cons, List.map_nil, Nat.add_assoc]

/-- The first `<` behind the tag ends the loop, and else the tag itself does,
where the counter comes back to it. -/
theorem cellLoop_ends {buffer : Memory} {index : Nat} (here : keyword buffer index tag = true) :
    ∃ n ≤ 252, Ends (cellTest buffer index) (cellRound buffer index) n (4, [])
      (cellState buffer index n) := by
  have wrapped : ¬ cellTest buffer index (cellState buffer index 252) := by
    have first : buffer (index + 0) = charLt := keyword_apply here 0 (by decide)
    exact Classical.not_not.mpr first
  apply exists_ends_of_states (cellState buffer index) _ wrapped
  intro k early
  exact cellRound_cellState buffer index early

/-- The branch that the chain `if (j == 1) ... else if (j == 5)` takes. -/
def branchField : Nat → Option Field
  | 1 => some .name
  | 2 => some .event
  | 3 => some .address
  | 4 => some .eventTime
  | 5 => some .importent
  | _ => none

theorem columnField_of_branchField {j : Nat} {field : Field} (branch : branchField j = some field) :
    columnField j = field := by
  unfold branchField at branch
  split at branch <;> cases branch <;> rfl

theorem exists_branchField {j : Nat} (column : 1 ≤ j ∧ j ≤ 5) :
    ∃ field, branchField j = some field := by
  have cases : j = 1 ∨ j = 2 ∨ j = 3 ∨ j = 4 ∨ j = 5 := by omega
  rcases cases with rfl | rfl | rfl | rfl | rfl <;> exact ⟨_, rfl⟩

structure FieldCopy where
  k : Nat
  page : Page

/-- `k < (i-4)`, where the 8-bit counters are promoted to `int`. -/
def fieldTest (i : Nat) (copied : FieldCopy) : Prop := (copied.k : Int) < (i : Int) - 4

/-- `user_date_t[user_num].field[k] = date1[k]; user_date_len[user_num].field_len = k;` and
the step of the 8-bit counter. -/
def fieldRound (s : CellScan) (field : Field) (date1 : List UInt8) (copied : FieldCopy) :
    FieldCopy where
  k := (copied.k + 1) % 256
  page :=
    { userDate := Function.update copied.page.userDate (fieldAddress s.userNum field copied.k)
        (date1.getD copied.k 0)
      userDateLen := Function.update copied.page.userDateLen (lenAddress s.userNum s.j)
        (UInt8.ofNat copied.k) }

/-- Before round `k` the first `k` bytes of the cell are in their column. -/
theorem fieldRound_storeColumn {s : CellScan} {field : Field}
    (branch : branchField s.j = some field) (date1 : List UInt8) {k : Nat} (early : k < 252) :
    fieldRound s field date1 ⟨k, storeColumn s (4 + k) date1⟩ =
      ⟨k + 1, storeColumn s (4 + (k + 1)) date1⟩ := by
  have counter : (k + 1) % 256 = k + 1 := Nat.mod_eq_of_lt (by omega)
  have bytes : Function.update (storeColumn s (4 + k) date1).userDate
      (fieldAddress s.userNum field k) (date1.getD k 0) =
      (storeColumn s (4 + (k + 1)) date1).userDate := by
    simp only [storeColumn, Nat.add_sub_cancel_left, columnField_of_branchField branch, store,
      Library.Copy.copy, Nat.zero_add, ← fieldAddress_add]
  have length : Function.update (storeColumn s (4 + k) date1).userDateLen
      (lenAddress s.userNum s.j) (UInt8.ofNat k) =
      (storeColumn s (4 + (k + 1)) date1).userDateLen := by
    funext a
    simp only [storeColumn, Nat.add_sub_cancel_left, Nat.add_one_ne_zero, ↓reduceIte,
      Nat.add_sub_cancel, Function.update_apply]
    split
    next => rfl
    next other =>
      split
      next => rfl
      next => exact if_neg other
  rw [fieldRound, counter]
  dsimp only
  rw [bytes, length]

theorem storeColumn_of_le (s : CellScan) {i : Nat} (short : i ≤ 4) (date1 : List UInt8) :
    storeColumn s i date1 = s.page := by
  have none : i - 4 = 0 := Nat.sub_eq_zero_of_le short
  simp only [storeColumn, none, ↓reduceIte, store, Library.Copy.copy]

/-- The copy ends by itself, and a counter `i` below 4 lets no round of it begin. -/
theorem field_ends {s : CellScan} {field : Field} (branch : branchField s.j = some field)
    (date1 : List UInt8) {i : Nat} (byte : i < 256) :
    Ends (fieldTest i) (fieldRound s field date1) (i - 4) ⟨0, s.page⟩
      ⟨i - 4, storeColumn s i date1⟩ := by
  have start : storeColumn s (4 + 0) date1 = s.page := storeColumn_of_le s (Nat.le_refl 4) date1
  have last : storeColumn s (4 + (i - 4)) date1 = storeColumn s i date1 := by
    rcases Nat.le_total i 4 with short | long
    · rw [Nat.sub_eq_zero_of_le short, start, storeColumn_of_le s short]
    · rw [Nat.add_sub_cancel' long]
  have ends : Ends (fieldTest i) (fieldRound s field date1) (i - 4)
      ⟨0, storeColumn s (4 + 0) date1⟩ ⟨i - 4, storeColumn s (4 + (i - 4)) date1⟩ := by
    apply ends_of_states (fun k => FieldCopy.mk k (storeColumn s (4 + k) date1))
    · intro k early
      exact fieldRound_storeColumn branch date1 (by omega)
    · intro k early
      change (k : Int) < (i : Int) - 4
      omega
    · change ¬ (((i - 4 : Nat) : Int) < (i : Int) - 4)
      omega
  rw [start, last] at ends
  exact ends

/-- The `size` bytes of the cell are in the column of `field`, its length byte is
set as the source sets it, and no other byte has changed. -/
structure CellStored (s : CellScan) (field : Field) (cell : Memory) (size : Nat) (page : Page) :
    Prop where
  bytes : ∀ k < size, page.userDate (fieldAddress s.userNum field k) = cell k
  others : ∀ a, (∀ k < size, a ≠ fieldAddress s.userNum field k) →
    page.userDate a = s.page.userDate a
  length : page.userDateLen =
    Function.update s.page.userDateLen (lenAddress s.userNum s.j) (UInt8.ofNat (size - 1))

theorem cellStored_storeColumn {s : CellScan} {field : Field}
    (branch : branchField s.j = some field) {cell : Memory} {i : Nat} (nonempty : 5 ≤ i)
    {date1 : List UInt8} (filled : ∀ k < i - 4, date1.getD k 0 = cell k) :
    CellStored s field cell (i - 4) (storeColumn s i date1) where
  bytes := by
    intro k inside
    rw [← filled k inside, ← columnField_of_branchField branch]
    exact store_inside _ _ _ _ inside
  others := by
    intro a outside
    rw [← columnField_of_branchField branch] at outside
    exact store_outside _ _ _ _ outside
  length := by
    funext a
    have positive : i - 4 ≠ 0 := by omega
    simp only [storeColumn, positive, ↓reduceIte, Function.update_apply]

theorem cellBody_of_ends {buffer : Memory} {index n i : Nat} {date1 : List UInt8}
    (here : keyword buffer index tag = true)
    (ends : Ends (cellTest buffer index) (cellRound buffer index) n (4, []) (i, date1))
    (enough : n ≤ 252) (s : CellScan) :
    (cellBody buffer s index).page = storeColumn s i date1 := by
  have found := cellLoop_of_ends ends enough
  simp only [cellBody, here, ↓reduceIte, found]
  split
  next => rfl
  next empty =>
    have first : buffer (index + 4) = charLt := Classical.not_not.mp empty
    rw [cellLoop, if_pos first] at found
    have four : 4 = i := congrArg Prod.fst found
    exact (storeColumn_of_le s four.ge date1).symm

theorem column_cellBody (buffer : Memory) (index : Nat) {s : CellScan}
    (column : 1 ≤ s.j ∧ s.j ≤ 5) :
    1 ≤ (cellBody buffer s index).j ∧ (cellBody buffer s index).j ≤ 5 := by
  have next : 1 ≤ (if s.j = 5 then 1 else s.j + 1) ∧ (if s.j = 5 then 1 else s.j + 1) ≤ 5 := by
    split <;> omega
  rw [cellBody]
  split
  · dsimp only
    split
    · exact next
    · exact column
  · exact column

/-- At every position of a scan the chain takes one of its branches. -/
theorem exists_branchField_scan (buffer : Memory) (page : Page) (count : Nat) :
    ∃ field, branchField ((List.range count).foldl (cellBody buffer) ⟨1, 0, page⟩).j =
      some field := by
  apply exists_branchField
  induction count with
  | zero => exact (by decide : 1 ≤ 1 ∧ 1 ≤ 5)
  | succ count ih =>
      rw [List.range_succ, List.foldl_append]
      exact column_cellBody buffer count ih

/-- Both loops of a cell end, whatever the buffer holds behind the tag. A cell
with a `<` in the reach of the counter is stored as it is, and one without
changes no byte of the tables. -/
theorem cellBody_ends (buffer : Memory) (index : Nat) (here : keyword buffer index tag = true) :
    ∃ n ≤ 252, ∃ i date1,
      Ends (cellTest buffer index) (cellRound buffer index) n (4, []) (i, date1) ∧
      (i = 0 ∨ 4 ≤ i) ∧
      ∀ (s : CellScan) (field : Field), branchField s.j = some field →
        Ends (fieldTest i) (fieldRound s field date1) (i - 4) ⟨0, s.page⟩
          ⟨i - 4, (cellBody buffer s index).page⟩ ∧
        (5 ≤ i → CellStored s field (fun k => buffer (index + 4 + k)) (i - 4)
          (cellBody buffer s index).page) ∧
        (i = 0 → (cellBody buffer s index).page = s.page) := by
  obtain ⟨n, enough, ends⟩ := cellLoop_ends here
  refine ⟨n, enough, _, _, ends, by omega, ?_⟩
  intro s field branch
  rw [cellBody_of_ends here ends enough s]
  refine ⟨field_ends branch _ (Nat.mod_lt _ (by decide)), ?_, ?_⟩
  · intro nonempty
    apply cellStored_storeColumn branch nonempty
    intro k inside
    have early : k < n := by omega
    rw [List.getD_eq_getElem?_getD, List.getElem?_map, List.getElem?_range early, Option.map_some,
      Option.getD_some]
  · intro wrapped
    exact storeColumn_of_le s (by omega) _

theorem cellBody_ends_open : keyword (literal "<td>") 0 tag = true ∧
    ∃ n ≤ 252, ∃ i date1,
      Ends (cellTest (literal "<td>") 0) (cellRound (literal "<td>") 0) n (4, []) (i, date1) ∧
      (i = 0 → ∀ page, (cellBody (literal "<td>") ⟨1, 0, page⟩ 0).page = page) := by
  have here : keyword (literal "<td>") 0 tag = true := by decide
  obtain ⟨n, enough, i, date1, ends, _, cell⟩ := cellBody_ends (literal "<td>") 0 here
  refine ⟨here, n, enough, i, date1, ends, ?_⟩
  intro wrapped page
  exact (cell ⟨1, 0, page⟩ .name rfl).2.2 wrapped

end KyokaMirror.Http
