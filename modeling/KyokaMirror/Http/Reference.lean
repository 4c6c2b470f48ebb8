import KyokaMirror.Http.Cells

set_option autoImplicit false

namespace KyokaMirror.Http

open Users

def cellField (p : Nat) : Field := columnField (p % 5 + 1)

/-- The `m`-th byte of the `p`-th cell in `user_date_t`. -/
def cellAddress (p m : Nat) : Nat := fieldAddress (p / 5) (cellField p) m

def columnOffset (r : Nat) : Nat := if r = 0 then 2 else if r = 1 then 42 else 52 + 20 * r

theorem cellAddress_eq (p m : Nat) :
    cellAddress p m = 152 * (p / 5) + (columnOffset (p % 5) + m) := by
  have columns : ∀ r, r < 5 → (columnField (r + 1)).offset = columnOffset r := by decide
  rw [cellAddress, fieldAddress, cellField, columns (p % 5) (Nat.mod_lt p (by decide)),
    Nat.add_assoc]
  rfl

theorem columnOffset_inj {r s m n : Nat} (short : m < 20) (near : n < 20)
    (same : columnOffset r + m = columnOffset s + n) : r = s ∧ m = n := by
  unfold columnOffset at same
  split_ifs at same <;> omega

theorem columnOffset_lt {r m : Nat} (column : r < 5) (short : m < 20) :
    columnOffset r + m < 152 := by
  unfold columnOffset
  split_ifs <;> omega

/-- Cells of at most 20 bytes do not meet. -/
theorem cellAddress_inj {p q m n : Nat} (short : m < 20) (near : n < 20)
    (same : cellAddress p m = cellAddress q n) : p = q ∧ m = n := by
  rw [cellAddress_eq, cellAddress_eq] at same
  have left := columnOffset_lt (Nat.mod_lt p (by decide : 0 < 5)) short
  have right := columnOffset_lt (Nat.mod_lt q (by decide : 0 < 5)) near
  have rows : p / 5 = q / 5 := by omega
  obtain ⟨columns, bytes⟩ := columnOffset_inj short near (r := p % 5) (s := q % 5) (by omega)
  exact ⟨by omega, bytes⟩

/-- The parser stands at the `p`-th field of the table. -/
structure At (s : CellScan) (p : Nat) : Prop where
  lower : 1 ≤ s.j
  upper : s.j ≤ 5
  place : 5 * s.userNum + s.j = p + 1

theorem at_start (page : Page) : At ⟨1, 0, page⟩ 0 := ⟨Nat.le_refl 1, Nat.le_of_ble_eq_true rfl, rfl⟩

theorem At.row {s : CellScan} {p : Nat} (here : At s p) : s.userNum = p / 5 ∧ s.j = p % 5 + 1 := by
  obtain ⟨lower, upper, place⟩ := here
  omega

theorem storeRun_at {s : CellScan} {p : Nat} (here : At s p) (small : p + 1 < 1280)
    (cell : List UInt8) : At (storeRun s cell) (p + 1) := by
  obtain ⟨lower, upper, place⟩ := here
  simp only [storeRun, storeCell]
  by_cases last : s.j = 5
  · rw [if_pos last, if_pos last, Nat.mod_eq_of_lt (by omega)]
    exact ⟨Nat.le_refl 1, Nat.le_of_ble_eq_true rfl, by dsimp only; omega⟩
  · rw [if_neg last, if_neg last]
    exact ⟨by dsimp only; omega, by dsimp only; omega, by dsimp only; omega⟩

theorem storeRun_lens {s : CellScan} {p : Nat} (here : At s p) {cell : List UInt8}
    (nonempty : cell ≠ []) (a : Nat) : (storeRun s cell).page.userDateLen a =
      if a = p then UInt8.ofNat (cell.length - 1) else s.page.userDateLen a := by
  have size := List.length_pos_iff.mpr nonempty
  obtain ⟨lower, upper, place⟩ := here
  have address : lenAddress s.userNum s.j = p := by
    rw [lenAddress]
    omega
  simp only [storeRun, storeCell, storeColumn, address, Nat.add_sub_cancel_left]
  rw [if_neg (by omega)]

theorem storeRun_bytes {s : CellScan} {p : Nat} (here : At s p) (cell : List UInt8) :
    (storeRun s cell).page.userDate =
      store s.page.userDate (p / 5) (cellField p) (fun k => cell.getD k 0) cell.length := by
  obtain ⟨row, column⟩ := here.row
  simp only [storeRun, storeCell, storeColumn, Nat.add_sub_cancel_left, row, column, cellField]

theorem storeRuns_lens (found : List (List UInt8)) :
    ∀ (s : CellScan) (p : Nat), At s p → p + found.length < 1280 → (∀ cell ∈ found, cell ≠ []) →
      (∀ k, (inside : k < found.length) →
        (found.foldl storeRun s).page.userDateLen (p + k) = UInt8.ofNat (found[k].length - 1)) ∧
      ∀ a, a < p ∨ p + found.length ≤ a →
        (found.foldl storeRun s).page.userDateLen a = s.page.userDateLen a := by
  induction found with
  | nil => exact fun s p _ _ _ => ⟨fun k inside => absurd inside (Nat.not_lt_zero k), fun a _ => rfl⟩
  | cons cell rest ih =>
      intro s p here small nonempty
      rw [List.length_cons] at small
      have lens := storeRun_lens here (nonempty cell List.mem_cons_self)
      obtain ⟨each, others⟩ := ih (storeRun s cell) (p + 1) (storeRun_at here (by omega) cell)
        (by omega) fun c member => nonempty c (List.mem_cons_of_mem _ member)
      refine ⟨?_, ?_⟩
      · intro k inside
        cases k with
        | zero =>
            rw [List.foldl_cons, others _ (by omega), lens, if_pos (Nat.add_zero p),
              List.getElem_cons_zero]
        | succ k =>
            have later := each k (Nat.lt_of_succ_lt_succ inside)
            rw [List.foldl_cons, List.getElem_cons_succ, ← later, Nat.add_right_comm, Nat.add_assoc]
      · intro a outside
        rw [List.length_cons] at outside
        rw [List.foldl_cons, others a (by omega), lens, if_neg (by omega)]

theorem storeRuns_bytes (found : List (List UInt8)) :
    ∀ (s : CellScan) (p : Nat), At s p → p + found.length < 1280 →
      (∀ cell ∈ found, cell.length ≤ 20) →
      (∀ k, (inside : k < found.length) → ∀ m, (within : m < found[k].length) →
        (found.foldl storeRun s).page.userDate (cellAddress (p + k) m) = found[k][m]) ∧
      ∀ a, (∀ k, (inside : k < found.length) → ∀ m < found[k].length,
          a ≠ cellAddress (p + k) m) →
        (found.foldl storeRun s).page.userDate a = s.page.userDate a := by
  induction found with
  | nil => exact fun s p _ _ _ => ⟨fun k inside => absurd inside (Nat.not_lt_zero k), fun a _ => rfl⟩
  | cons cell rest ih =>
      intro s p here small short
      rw [List.length_cons] at small
      have bytes := storeRun_bytes here cell
      have size := short cell List.mem_cons_self
      have sizes : ∀ c ∈ rest, c.length ≤ 20 := fun c member => short c (List.mem_cons_of_mem _ member)
      obtain ⟨each, others⟩ := ih (storeRun s cell) (p + 1) (storeRun_at here (by omega) cell)
        (by omega) sizes
      refine ⟨?_, ?_⟩
      · intro k inside m within
        cases k with
        | zero =>
            -- The later cells lie elsewhere.
            rw [List.getElem_cons_zero] at within
            rw [List.foldl_cons, others, bytes]
            · rw [cellAddress, Nat.add_zero, store_inside _ _ _ _ within]
              rw [List.getD_eq_getElem?_getD, List.getElem?_eq_getElem within]
              rfl
            · intro l later n among meets
              have limit := sizes _ (List.getElem_mem later)
              have apart := (cellAddress_inj (by omega) (by omega) meets).1
              omega
        | succ k =>
            have later := each k (Nat.lt_of_succ_lt_succ inside) m within
            rw [List.foldl_cons, ← Nat.add_assoc, Nat.add_right_comm, later]
            rfl
      · intro a outside
        rw [List.foldl_cons, others, bytes]
        · apply store_outside
          intro m within
          exact outside 0 (Nat.succ_pos _) m within
        · intro k inside m within
          have apart := outside (k + 1) (Nat.succ_lt_succ inside) m within
          rwa [← Nat.add_assoc, Nat.add_right_comm] at apart

theorem storeCells_lens {found : List (List UInt8)} (few : found.length < 1280)
    (nonempty : ∀ cell ∈ found, cell ≠ []) (page : Page) :
    (∀ k, (inside : k < found.length) →
      (storeCells page found).userDateLen k = UInt8.ofNat (found[k].length - 1)) ∧
    ∀ a, found.length ≤ a → (storeCells page found).userDateLen a = page.userDateLen a := by
  have all := storeRuns_lens found ⟨1, 0, page⟩ 0 (at_start page) (by omega) nonempty
  simp only [Nat.zero_add, Nat.not_lt_zero, false_or] at all
  exact all

theorem storeCells_bytes {found : List (List UInt8)} (few : found.length < 1280)
    (short : ∀ cell ∈ found, cell.length ≤ 20) (page : Page) :
    (∀ k, (inside : k < found.length) → ∀ m, (within : m < found[k].length) →
      (storeCells page found).userDate (cellAddress k m) = found[k][m]) ∧
    ∀ a, (∀ k, (inside : k < found.length) → ∀ m < found[k].length, a ≠ cellAddress k m) →
      (storeCells page found).userDate a = page.userDate a := by
  have all := storeRuns_bytes found ⟨1, 0, page⟩ 0 (at_start page) (by omega) short
  simp only [Nat.zero_add] at all
  exact all

theorem cells_short {bytes : List UInt8} (closed : Closed bytes) :
    ∀ cell ∈ cells bytes, cell.length ≤ 20 := by
  induction bytes with
  | nil => intro cell member; cases member
  | cons c rest ih =>
      intro cell member
      rcases List.mem_append.mp member with here | later
      · unfold cellAt at here
        split at here
        · rename_i seen
          have first : tag <+: (c :: rest).drop 0 := seen
          have short := (closed.run_ends first).1
          rw [List.drop_zero] at short
          split at here
          · cases here
          · rw [List.mem_singleton.mp here]
            exact short
        · cases here
      · exact ih closed.tail cell later

/-- The scan of one read stores exactly its non-empty cells, five to a user,
each with its length less one, whatever the buffer and the tables held. -/
theorem scan_computes_reference (buffer : Memory) (bytes : List UInt8) (page : Page)
    (closed : Closed bytes) (few : (cells bytes).length ≤ 50) :
    (∀ k, (inside : k < (cells bytes).length) →
      (∀ m, (within : m < (cells bytes)[k].length) →
        (scanRead (fillRead buffer bytes) bytes.length page).userDate (cellAddress k m) =
          (cells bytes)[k][m]) ∧
      ((scanRead (fillRead buffer bytes) bytes.length page).userDateLen
        (lenAddress (k / 5) (k % 5 + 1))).toNat = (cells bytes)[k].length - 1) ∧
    (∀ a, (∀ k, (inside : k < (cells bytes).length) → ∀ m < (cells bytes)[k].length,
        a ≠ cellAddress k m) →
      (scanRead (fillRead buffer bytes) bytes.length page).userDate a = page.userDate a) ∧
    ∀ a, (∀ k < (cells bytes).length, a ≠ lenAddress (k / 5) (k % 5 + 1)) →
      (scanRead (fillRead buffer bytes) bytes.length page).userDateLen a = page.userDateLen a := by
  have place : ∀ k, lenAddress (k / 5) (k % 5 + 1) = k := by
    intro k
    rw [lenAddress]
    omega
  obtain ⟨bytesOf, otherBytes⟩ := storeCells_bytes (by omega) (cells_short closed) page
  obtain ⟨lenOf, otherLens⟩ := storeCells_lens (by omega) (cells_ne_nil bytes) page
  rw [scanRead_closed (holds_fillRead buffer bytes) closed]
  refine ⟨?_, otherBytes, ?_⟩
  · intro k inside
    refine ⟨bytesOf k inside, ?_⟩
    have short := cells_short closed _ (List.getElem_mem inside)
    rw [place, lenOf k inside, UInt8.toNat_ofNat_of_lt' (by show _ < 256; omega)]
  · intro a elsewhere
    apply otherLens
    by_contra early
    exact elsewhere a (by omega) (place a).symm

/-- The second cell of a read is the event of the first user. -/
theorem second_cell_stored :
    Closed (ascii "<td>a</td><td>bc</td>") ∧ (cells (ascii "<td>a</td><td>bc</td>")).length ≤ 50 ∧
      ((scanRead (fillRead (fun _ => 0) (ascii "<td>a</td><td>bc</td>")) 21
        ⟨fun _ => 255, fun _ => 255⟩).userDateLen (lenAddress 0 2)).toNat = 1 := by
  have closed : Closed (ascii "<td>a</td><td>bc</td>") := by decide +kernel
  have few : (cells (ascii "<td>a</td><td>bc</td>")).length ≤ 50 := by decide +kernel
  refine ⟨closed, few, ?_⟩
  exact ((scan_computes_reference (fun _ => 0) (ascii "<td>a</td><td>bc</td>")
    ⟨fun _ => 255, fun _ => 255⟩ closed few).1 1 (by decide +kernel)).2

end KyokaMirror.Http
