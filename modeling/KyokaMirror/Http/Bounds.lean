import KyokaMirror.Http.Reference

set_option autoImplicit false

namespace KyokaMirror.Http

open Users

/-- An array access of the cell scan. `field` and `len` are the stores into
`user_date_t[row]` and `user_date_len[row]`. -/
inductive CellAccess where
  | readBuffer (index : Nat)
  | writeDate1 (index : Nat)
  | writeField (row : Nat) (field : Field) (k : Nat)
  | writeLen (row : Nat)
  deriving DecidableEq, Repr

/-- The access lies in the array as it is declared. -/
def CellAccess.inBounds : CellAccess → Prop
  | .readBuffer index => index < 1024
  | .writeDate1 index => index < 20
  | .writeField row field k => row < 10 ∧ k < field.size
  | .writeLen row => row < 10

instance : (access : CellAccess) → Decidable access.inBounds
  | .readBuffer index => inferInstanceAs (Decidable (index < 1024))
  | .writeDate1 index => inferInstanceAs (Decidable (index < 20))
  | .writeField row field k => inferInstanceAs (Decidable (row < 10 ∧ k < field.size))
  | .writeLen row => inferInstanceAs (Decidable (row < 10))

/-- The accesses of `cellLoop`. Where the counter wraps, there is one more read,
that of the tag which ends the loop. -/
def cellLoopAccesses (buffer : Memory) (index : Nat) : Nat → Nat → List CellAccess
  | 0, _ => []
  | fuel + 1, i =>
      .readBuffer (index + i) ::
        if buffer (index + i) = charLt then []
        else .writeDate1 (i - 4) :: cellLoopAccesses buffer index fuel ((i + 1) % 256)

/-- The accesses of `storeColumn`. -/
def storeAccesses (s : CellScan) (i : Nat) : List CellAccess :=
  (List.range (i - 4)).flatMap fun k =>
    [.writeField s.userNum (columnField s.j) k, .writeLen s.userNum]

/-- The accesses of `cellBody`. -/
def cellAccesses (buffer : Memory) (s : CellScan) (index : Nat) : List CellAccess :=
  (keywordReads buffer index tag).map .readBuffer ++
    if keyword buffer index tag then
      cellLoopAccesses buffer index 253 4 ++ .readBuffer (index + 4) ::
        if buffer (index + 4) ≠ charLt then storeAccesses s (cellLoop buffer index 252 4 []).1
        else []
    else []

def accessesFrom (buffer : Memory) : List Nat → CellScan → List CellAccess
  | [], _ => []
  | index :: rest, s =>
      cellAccesses buffer s index ++ accessesFrom buffer rest (cellBody buffer s index)

/-- The accesses of `scanRead`. -/
def scanAccesses (buffer : Memory) (bytesRead : Nat) (page : Page) : List CellAccess :=
  accessesFrom buffer (List.range bytesRead) ⟨1, 0, page⟩

/-- A tag at the index fits the buffer with its cell of at most 20 bytes. -/
structure CellFits (buffer : Memory) (index : Nat) : Prop where
  tag : overrunsArray 1024 buffer index tag = false
  ends : keyword buffer index Http.tag = true →
    ∃ d ≤ 20, index + 4 + d < 1024 ∧ buffer (index + 4 + d) = charLt

/-- A tag with a non-empty cell behind it. -/
def startsCell (buffer : Memory) (index : Nat) : Bool :=
  keyword buffer index tag && buffer (index + 4) != charLt

theorem cellLoopAccesses_inBounds_iff (buffer : Memory) (index : Nat) :
    ∀ fuel i, 24 < fuel + i → i ≤ 24 → 4 ≤ i →
      ((∀ access ∈ cellLoopAccesses buffer index fuel i, access.inBounds) ↔
        ∃ e, i ≤ e ∧ e ≤ 24 ∧ index + e < 1024 ∧ buffer (index + e) = charLt) := by
  intro fuel
  induction fuel with
  | zero => intro i enough near _; omega
  | succ fuel ih =>
      intro i enough near start
      rw [cellLoopAccesses, List.forall_mem_cons]
      by_cases ends : buffer (index + i) = charLt
      · rw [if_pos ends]
        constructor
        · rintro ⟨here, -⟩
          exact ⟨i, Nat.le_refl i, near, here, ends⟩
        · rintro ⟨e, later, -, inside, -⟩
          refine ⟨?_, fun access member => absurd member List.not_mem_nil⟩
          show index + i < 1024
          omega
      · have next : (i + 1) % 256 = i + 1 := Nat.mod_eq_of_lt (by omega)
        rw [if_neg ends, List.forall_mem_cons, next]
        constructor
        · rintro ⟨-, date, rest⟩
          have room : i - 4 < 20 := date
          obtain ⟨e, later, found⟩ := (ih (i + 1) (by omega) (by omega) (by omega)).mp rest
          exact ⟨e, by omega, found⟩
        · rintro ⟨e, later, short, inside, found⟩
          have other : e ≠ i := by
            rintro rfl
            exact ends found
          refine ⟨?_, ?_, (ih (i + 1) (by omega) (by omega) (by omega)).mpr
            ⟨e, by omega, short, inside, found⟩⟩
          · show index + i < 1024
            omega
          · show i - 4 < 20
            omega

/-- The counter stops at the first `<`. -/
theorem cellLoop_stops (buffer : Memory) (index e : Nat) (found : buffer (index + e) = charLt) :
    ∀ fuel i date1, fuel + i = 256 → i ≤ e → e ≤ 24 →
      (cellLoop buffer index fuel i date1).1 ≤ e ∧
        (buffer (index + i) ≠ charLt → i < (cellLoop buffer index fuel i date1).1) := by
  have lower : ∀ fuel i date1, fuel + i = 256 → i ≤ e → e ≤ 24 →
      i ≤ (cellLoop buffer index fuel i date1).1 ∧ (cellLoop buffer index fuel i date1).1 ≤ e := by
    intro fuel
    induction fuel with
    | zero => intro i date1 total before near; omega
    | succ fuel ih =>
        intro i date1 total before near
        rw [cellLoop]
        by_cases ends : buffer (index + i) = charLt
        · rw [if_pos ends]
          exact ⟨Nat.le_refl i, before⟩
        · have other : e ≠ i := by
            rintro rfl
            exact ends found
          rw [if_neg ends, Nat.mod_eq_of_lt (by omega)]
          have later := ih (i + 1) (date1 ++ [buffer (index + i)]) (by omega) (by omega) near
          exact ⟨by omega, later.2⟩
  intro fuel i date1 total before near
  refine ⟨(lower fuel i date1 total before near).2, ?_⟩
  intro other
  have apart : e ≠ i := by
    rintro rfl
    exact other found
  cases fuel with
  | zero => omega
  | succ fuel =>
      rw [cellLoop, if_neg other, Nat.mod_eq_of_lt (by omega)]
      exact (lower fuel (i + 1) _ (by omega) (by omega) near).1

theorem columnField_size (j : Nat) : 20 ≤ (columnField j).size := by
  unfold columnField
  split <;> decide

/-- A cell of 1 to 20 bytes fits every column, so only the row matters. -/
theorem storeAccesses_inBounds_iff {s : CellScan} {p i : Nat} (here : At s p) (nonempty : 4 < i)
    (short : i ≤ 24) :
    (∀ access ∈ storeAccesses s i, access.inBounds) ↔ p < 50 := by
  have row : s.userNum < 10 ↔ p < 50 := by
    rw [here.row.1]
    omega
  constructor
  · intro fine
    have first : CellAccess.writeLen s.userNum ∈ storeAccesses s i := by
      apply List.mem_flatMap.mpr
      exact ⟨0, List.mem_range.mpr (by omega), List.mem_cons_of_mem _ List.mem_cons_self⟩
    exact row.mp (fine _ first)
  · intro room access member
    obtain ⟨k, inside, either⟩ := List.mem_flatMap.mp member
    have size := columnField_size s.j
    rw [List.mem_range] at inside
    rcases List.mem_cons.mp either with rfl | last
    · exact ⟨row.mpr room, by omega⟩
    · obtain rfl := List.mem_singleton.mp last
      exact row.mpr room

theorem cellAccesses_inBounds_iff (buffer : Memory) {s : CellScan} {p : Nat} (here : At s p)
    (index : Nat) :
    (∀ access ∈ cellAccesses buffer s index, access.inBounds) ↔
      CellFits buffer index ∧ (startsCell buffer index = true → p < 50) := by
  have reads : (∀ access ∈ (keywordReads buffer index tag).map CellAccess.readBuffer,
      access.inBounds) ↔ overrunsArray 1024 buffer index tag = false := by
    rw [← keywordReads_lt_size_iff, List.forall_mem_map]
    rfl
  rw [cellAccesses, List.forall_mem_append, reads]
  by_cases seen : keyword buffer index tag = true
  · have loop := cellLoopAccesses_inBounds_iff buffer index 253 4 (by omega) (by omega)
      (Nat.le_refl 4)
    rw [if_pos seen, List.forall_mem_append, loop, List.forall_mem_cons, startsCell, seen,
      Bool.true_and, bne_iff_ne]
    constructor
    · rintro ⟨fits, ⟨e, start, near, inside, found⟩, -, stores⟩
      refine ⟨⟨fits, fun _ => ⟨e - 4, by omega, by omega, ?_⟩⟩, ?_⟩
      · rw [← found]
        congr 1
        omega
      · intro other
        rw [if_pos other] at stores
        obtain ⟨short, nonempty⟩ := cellLoop_stops buffer index e found 252 4 [] rfl start near
        exact (storeAccesses_inBounds_iff here (nonempty other) (by omega)).mp stores
    · rintro ⟨⟨fits, ends⟩, room⟩
      obtain ⟨d, near, inside, found⟩ := ends seen
      rw [Nat.add_assoc] at inside found
      refine ⟨fits, ⟨4 + d, by omega, by omega, inside, found⟩, ?_, ?_⟩
      · show index + 4 < 1024
        omega
      · split
        · rename_i other
          obtain ⟨short, nonempty⟩ :=
            cellLoop_stops buffer index (4 + d) found 252 4 [] rfl (by omega) (by omega)
          exact (storeAccesses_inBounds_iff here (nonempty other) (by omega)).mpr (room other)
        · exact fun access member => absurd member List.not_mem_nil
  · rw [if_neg seen, startsCell, Bool.eq_false_iff.mpr seen]
    constructor
    · rintro ⟨fits, -⟩
      exact ⟨⟨fits, fun tagged => absurd tagged seen⟩, fun impossible => by cases impossible⟩
    · rintro ⟨⟨fits, -⟩, -⟩
      exact ⟨fits, fun access member => absurd member List.not_mem_nil⟩

theorem cellBody_still {buffer : Memory} {index : Nat} (none : startsCell buffer index ≠ true)
    (s : CellScan) : cellBody buffer s index = s := by
  rw [startsCell, ne_eq, Bool.and_eq_true, bne_iff_ne, not_and] at none
  unfold cellBody
  by_cases seen : keyword buffer index tag = true
  · rw [if_pos seen]
    exact if_neg (none seen)
  · exact if_neg seen

/-- A non-empty cell moves the parser on by one field. -/
theorem cellBody_at {buffer : Memory} {index : Nat} (starts : startsCell buffer index = true)
    {s : CellScan} {p : Nat} (here : At s p) (few : p < 50) :
    At (cellBody buffer s index) (p + 1) := by
  rw [startsCell, Bool.and_eq_true, bne_iff_ne] at starts
  have moved := storeRun_at here (by omega) []
  simp only [cellBody, if_pos starts.1, if_pos starts.2]
  exact ⟨moved.lower, moved.upper, moved.place⟩

theorem accessesFrom_inBounds_iff (buffer : Memory) (indices : List Nat) :
    ∀ (s : CellScan) (p : Nat), At s p → p ≤ 50 →
      ((∀ access ∈ accessesFrom buffer indices s, access.inBounds) ↔
        (∀ index ∈ indices, CellFits buffer index) ∧
          p + indices.countP (startsCell buffer) ≤ 50) := by
  induction indices with
  | nil =>
      intro s p here few
      rw [accessesFrom, List.countP_nil]
      exact ⟨fun _ => ⟨fun _ member => absurd member List.not_mem_nil, few⟩,
        fun _ _ member => absurd member List.not_mem_nil⟩
  | cons index rest ih =>
      intro s p here few
      rw [accessesFrom, List.forall_mem_append, cellAccesses_inBounds_iff buffer here,
        List.forall_mem_cons, List.countP_cons]
      by_cases starts : startsCell buffer index = true
      · rw [if_pos starts]
        by_cases room : p < 50
        · rw [ih _ (p + 1) (cellBody_at starts here room) room, Nat.add_right_comm, ← Nat.add_assoc]
          simp only [room, implies_true, and_true, and_assoc]
        · simp only [starts, room, true_implies, and_false, false_and, false_iff, not_and]
          intro _
          omega
      · rw [if_neg starts, cellBody_still starts, ih s p here few, Nat.add_zero]
        simp only [starts, Bool.false_eq_true, false_implies, and_true, and_assoc]

section

variable {buffer : Memory} {bytes : List UInt8} (holds : Holds buffer bytes)
  (closed : Closed bytes) {index : Nat} (inside : index < bytes.length)
include holds closed inside

end

/-- The scan stays in its arrays exactly when every tag and every cell fits the
buffer and no more than ten users are found. -/
theorem scan_inBounds_iff (buffer : Memory) (bytesRead : Nat) (page : Page) :
    (∀ access ∈ scanAccesses buffer bytesRead page, access.inBounds) ↔
      (∀ index < bytesRead, CellFits buffer index) ∧
        (List.range bytesRead).countP (startsCell buffer) ≤ 50 := by
  have all := accessesFrom_inBounds_iff buffer (List.range bytesRead) _ 0 (at_start page)
    (Nat.zero_le 50)
  simp only [List.mem_range, Nat.zero_add] at all
  exact all

/-- A cell of 21 bytes. -/
theorem long_cell_out_of_bounds :
    ¬ ∀ access ∈ scanAccesses (literal "<td>aaaaaaaaaaaaaaaaaaaaa</td>") 30
      ⟨fun _ => 0, fun _ => 0⟩, access.inBounds := by
  decide +kernel

end KyokaMirror.Http
