import KyokaMirror.Users
import Mathlib.Data.List.TakeWhile

set_option autoImplicit false

namespace KyokaMirror.Http

open Users

/-- The tables that the parser of `thread2_entry` fills, each as one block of
bytes. `user_date_len[10]` has five bytes per user. -/
structure Page where
  userDate : Memory
  userDateLen : Memory

/-- The parser within one read: the column `j` and the row `user_num`, both of
type `rt_uint8_t`. -/
structure CellScan where
  j : Nat
  userNum : Nat
  page : Page

def tag : List UInt8 := ascii "<td>"

def charLt : UInt8 := 60

/-- The field that column `j` of the table goes to. -/
def columnField : Nat → Field
  | 1 => .name
  | 2 => .event
  | 3 => .address
  | 4 => .eventTime
  | _ => .importent

/-- The byte of `user_date_len[row]` that belongs to column `j`. -/
def lenAddress (row j : Nat) : Nat := 5 * row + (j - 1)

/-- `while (buffer[index+i] != '<')` with the 8-bit counter `i`, which wraps to
0 where the tag itself ends the loop. The bytes of `date1` are listed in the
order in which they are stored. -/
def cellLoop (buffer : Memory) (index : Nat) : Nat → Nat → List UInt8 → Nat × List UInt8
  | 0, i, date1 => (i, date1)
  | fuel + 1, i, date1 =>
      if buffer (index + i) = charLt then (i, date1)
      else cellLoop buffer index fuel ((i + 1) % 256) (date1 ++ [buffer (index + i)])

/-- `for (k = 0; k < i - 4; k++)`, which stores the cell and, as its length, the
last `k`. -/
def storeColumn (s : CellScan) (i : Nat) (date1 : List UInt8) : Page :=
  let count := i - 4
  { userDate := store s.page.userDate s.userNum (columnField s.j) (fun k => date1.getD k 0) count
    userDateLen :=
      if count = 0 then s.page.userDateLen
      else fun a => if a = lenAddress s.userNum s.j then UInt8.ofNat (count - 1)
        else s.page.userDateLen a }

/-- A non-empty cell goes to the current column and moves on to the next. -/
def storeCell (s : CellScan) (i : Nat) (date1 : List UInt8) : CellScan :=
  { j := if s.j = 5 then 1 else s.j + 1
    userNum := if s.j = 5 then (s.userNum + 1) % 256 else s.userNum
    page := storeColumn s i date1 }

def cellBody (buffer : Memory) (s : CellScan) (index : Nat) : CellScan :=
  if keyword buffer index tag then
    let found := cellLoop buffer index 252 4 []
    if buffer (index + 4) ≠ charLt then storeCell s found.1 found.2 else s
  else s

/-- The parse of one read. The counters start anew. -/
def scanRead (buffer : Memory) (bytesRead : Nat) (page : Page) : Page :=
  ((List.range bytesRead).foldl (cellBody buffer) ⟨1, 0, page⟩).page

/-- `webclient_read` into the buffer; bytes behind the read stay. -/
def fillRead (buffer : Memory) (bytes : List UInt8) : Memory :=
  fun a => (bytes[a]?).getD (buffer a)

/-- The read loop over the bytes of its successful reads. -/
def parse (buffer : Memory) : List (List UInt8) → Page → Page
  | [], page => page
  | bytes :: rest, page =>
      parse (fillRead buffer bytes) rest (scanRead (fillRead buffer bytes) bytes.length page)

/-- The cell of a text that begins with the tag, unless it is empty. -/
def cellAt (bytes : List UInt8) : List (List UInt8) :=
  if tag <+: bytes then
    match (bytes.drop 4).takeWhile (· ≠ charLt) with
    | [] => []
    | cell => [cell]
  else []

/-- The non-empty cells in their order. -/
def cells : List UInt8 → List (List UInt8)
  | [] => []
  | c :: rest => cellAt (c :: rest) ++ cells rest

/-- Every tag is followed by a `<` at most 20 bytes behind it, and the text does
not break off inside a tag. -/
structure Closed (bytes : List UInt8) : Prop where
  ends : ∀ i, tag <+: bytes.drop i → ∃ d ≤ 20, bytes[i + 4 + d]? = some charLt
  whole : ∀ start, start <+: tag → start ≠ [] → start ≠ tag → ¬ start <:+ bytes

theorem closed_iff (bytes : List UInt8) :
    ((∀ i < bytes.length, tag <+: bytes.drop i → ∃ d ≤ 20, bytes[i + 4 + d]? = some charLt) ∧
      ∀ n < 4, n ≠ 0 → ¬ tag.take n <:+ bytes) ↔ Closed bytes := by
  constructor
  · rintro ⟨ends, whole⟩
    refine ⟨?_, ?_⟩
    · intro i here
      have inside : i < bytes.length := by
        have size := here.length_le
        have four : tag.length = 4 := rfl
        rw [List.length_drop] at size
        omega
      exact ends i inside here
    · intro start early nonempty proper
      have size : start.length < 4 := by
        apply Nat.lt_of_le_of_ne early.length_le
        intro same
        exact proper (early.eq_of_length same)
      have nonzero : start.length ≠ 0 := fun zero =>
        nonempty (List.eq_nil_of_length_eq_zero zero)
      rw [List.prefix_iff_eq_take.mp early]
      exact whole start.length size nonzero
  · intro closed
    refine ⟨fun i _ => closed.ends i, ?_⟩
    intro n small positive
    apply closed.whole _ (List.take_prefix n tag)
    · intro empty
      have size := congrArg List.length empty
      rw [List.length_take, List.length_nil, show tag.length = 4 from rfl] at size
      omega
    · intro same
      have size := congrArg List.length same
      rw [List.length_take, show tag.length = 4 from rfl] at size
      omega

instance (bytes : List UInt8) : Decidable (Closed bytes) := decidable_of_iff _ (closed_iff bytes)

/-- Stores a cell of the list as the parser does. -/
def storeRun (s : CellScan) (cell : List UInt8) : CellScan := storeCell s (4 + cell.length) cell

def storeCells (page : Page) (found : List (List UInt8)) : Page :=
  (found.foldl storeRun ⟨1, 0, page⟩).page

theorem Closed.tail {c : UInt8} {rest : List UInt8} (closed : Closed (c :: rest)) :
    Closed rest where
  ends := by
    intro i here
    obtain ⟨d, near, ends⟩ := closed.ends (i + 1) here
    refine ⟨d, near, ?_⟩
    rw [← ends, show i + 1 + 4 + d = i + 4 + d + 1 by omega, List.getElem?_cons_succ]
  whole := by
    intro start early nonempty proper suffix
    exact closed.whole start early nonempty proper (suffix.trans (List.suffix_cons c rest))

theorem Closed.drop {bytes : List UInt8} (closed : Closed bytes) (n : Nat) :
    Closed (bytes.drop n) := by
  induction n generalizing bytes with
  | zero => exact closed
  | succ n ih =>
      cases bytes with
      | nil => simpa using closed
      | cons c rest => exact ih closed.tail

/-- A tag that the text begins in lies in the text. -/
theorem Closed.tag_inside {bytes more : List UInt8} (closed : Closed bytes) (nonempty : bytes ≠ [])
    (seen : tag <+: bytes ++ more) : tag <+: bytes := by
  rcases List.prefix_or_prefix_of_prefix seen (List.prefix_append bytes more) with inside | short
  · exact inside
  · by_cases same : bytes = tag
    · exact ⟨[], by rw [List.append_nil, same]⟩
    · exact (closed.whole bytes short nonempty same (List.suffix_refl bytes)).elim

theorem cellLoop_run (buffer : Memory) (index : Nat) (cell : List UInt8) :
    ∀ (fuel i : Nat) (date1 : List UInt8), cell.length ≤ fuel → i + cell.length < 256 →
      (∀ k, (inside : k < cell.length) →
        buffer (index + (i + k)) = cell[k] ∧ cell[k] ≠ charLt) →
      buffer (index + (i + cell.length)) = charLt →
      cellLoop buffer index fuel i date1 = (i + cell.length, date1 ++ cell) := by
  induction cell with
  | nil =>
      intro fuel i date1 _ _ _ ends
      rw [List.length_nil, Nat.add_zero] at ends ⊢
      cases fuel with
      | zero => rw [cellLoop, List.append_nil]
      | succ fuel => rw [cellLoop, if_pos ends, List.append_nil]
  | cons c rest ih =>
      intro fuel i date1 enough small bytes ends
      rw [List.length_cons] at enough small ends ⊢
      cases fuel with
      | zero => omega
      | succ fuel =>
          obtain ⟨byte, other⟩ := bytes 0 (Nat.succ_pos _)
          rw [Nat.add_zero, List.getElem_cons_zero] at byte
          rw [List.getElem_cons_zero] at other
          have next : (i + 1) % 256 = i + 1 := Nat.mod_eq_of_lt (by omega)
          rw [cellLoop, byte, if_neg other, next,
            ih fuel (i + 1) (date1 ++ [c]) (by omega) (by omega), List.append_assoc,
            List.singleton_append]
          · congr 1
            omega
          · intro k inside
            have later := bytes (k + 1) (Nat.succ_lt_succ inside)
            rw [List.getElem_cons_succ, Nat.add_comm k 1, ← Nat.add_assoc i 1 k] at later
            exact later
          · rw [← ends]
            congr 2
            omega

theorem holds_fillRead (buffer : Memory) (bytes : List UInt8) :
    Holds (fillRead buffer bytes) bytes := by
  intro a inside
  rw [fillRead, List.getElem?_eq_getElem inside, Option.getD_some]

theorem keyword_closed_iff {buffer : Memory} {bytes : List UInt8} (holds : Holds buffer bytes)
    (closed : Closed bytes) {index : Nat} (inside : index < bytes.length) :
    keyword buffer index tag = true ↔ tag <+: bytes.drop index := by
  constructor
  · intro seen
    rcases keyword_prefix_or seen (holds.drop index) with here | short
    · exact here
    · by_cases same : bytes.drop index = tag
      · exact ⟨[], by rw [List.append_nil, same]⟩
      · have nonempty : bytes.drop index ≠ [] :=
          List.ne_nil_of_length_pos (by rw [List.length_drop]; omega)
        exact (closed.whole _ short nonempty same (List.drop_suffix index bytes)).elim
  · intro here
    exact keyword_of_prefix here (holds.drop index)

/-- The run up to the next `<`, when there is one. -/
theorem takeWhile_ends (bytes : List UInt8) (d : Nat) (ends : bytes[d]? = some charLt) :
    (bytes.takeWhile (· ≠ charLt)).length ≤ d ∧
      bytes[(bytes.takeWhile (· ≠ charLt)).length]? = some charLt := by
  induction bytes generalizing d with
  | nil => cases ends
  | cons c rest ih =>
      by_cases same : c = charLt
      · rw [List.takeWhile_cons_of_neg (by simp [same]), same]
        exact ⟨Nat.zero_le d, rfl⟩
      · rw [List.takeWhile_cons_of_pos (by simp [same])]
        cases d with
        | zero => exact absurd (Option.some.inj ends) same
        | succ d =>
            obtain ⟨short, found⟩ := ih d ends
            exact ⟨Nat.succ_le_succ short, found⟩

theorem Closed.run_ends {bytes : List UInt8} (closed : Closed bytes) {index : Nat}
    (here : tag <+: bytes.drop index) :
    (((bytes.drop index).drop 4).takeWhile (· ≠ charLt)).length ≤ 20 ∧
      ((bytes.drop index).drop 4)[(((bytes.drop index).drop 4).takeWhile
        (· ≠ charLt)).length]? = some charLt := by
  obtain ⟨d, near, ends⟩ := closed.ends index here
  rw [Nat.add_assoc, ← List.getElem?_drop, ← List.getElem?_drop] at ends
  obtain ⟨short, found⟩ := takeWhile_ends _ d ends
  exact ⟨Nat.le_trans short near, found⟩

/-- The loop lists the bytes of the text behind the tag up to the next `<`. -/
theorem cellLoop_takeWhile {buffer : Memory} {index : Nat} {rest : List UInt8}
    (bytesAt : ∀ k, (within : k < rest.length) → buffer (index + (4 + k)) = rest[k])
    (short : (rest.takeWhile (· ≠ charLt)).length ≤ 20)
    (found : rest[(rest.takeWhile (· ≠ charLt)).length]? = some charLt) :
    cellLoop buffer index 252 4 [] =
      (4 + (rest.takeWhile (· ≠ charLt)).length, rest.takeWhile (· ≠ charLt)) := by
  apply cellLoop_run buffer index _ 252 4 [] (by omega) (by omega)
  · intro k inside
    have cellPrefix := List.takeWhile_prefix (l := rest) (· ≠ charLt)
    refine ⟨?_, ?_⟩
    · rw [bytesAt k (Nat.lt_of_lt_of_le inside cellPrefix.length_le), cellPrefix.getElem inside]
    · simpa using List.mem_takeWhile_imp (List.getElem_mem inside)
  · obtain ⟨within, byte⟩ := List.getElem?_eq_some_iff.mp found
    exact (bytesAt _ within).trans byte

/-- One position of the scan: the cell behind a tag, and nothing elsewhere. -/
theorem cellBody_closed {buffer : Memory} {bytes : List UInt8} (holds : Holds buffer bytes)
    (closed : Closed bytes) {index : Nat} (inside : index < bytes.length) (s : CellScan) :
    cellBody buffer s index = (cellAt (bytes.drop index)).foldl storeRun s := by
  by_cases here : tag <+: bytes.drop index
  · obtain ⟨short, found⟩ := closed.run_ends here
    rw [cellBody, if_pos ((keyword_closed_iff holds closed inside).mpr here), cellAt, if_pos here]
    generalize behind : (bytes.drop index).drop 4 = rest at short found
    have bytesAt : ∀ k, (within : k < rest.length) → buffer (index + (4 + k)) = rest[k] := by
      intro k within
      have size := within
      rw [← behind, List.length_drop] at size
      rw [holds.drop index (4 + k) (by omega)]
      simp only [← behind, List.getElem_drop]
    have within : 0 < rest.length :=
      Nat.zero_lt_of_lt (List.getElem?_eq_some_iff.mp found).1
    have first : buffer (index + 4) = rest[0] := bytesAt 0 within
    rw [cellLoop_takeWhile bytesAt short found, first]
    obtain ⟨c, more, rfl⟩ := List.exists_cons_of_length_pos within
    by_cases ends : c = charLt
    · rw [List.takeWhile_cons_of_neg (by simp [ends]), if_neg (by simp [ends])]
      rfl
    · rw [List.takeWhile_cons_of_pos (by simp [ends]), if_pos (by simpa using ends)]
      rfl
  · have unseen : keyword buffer index tag ≠ true := fun seen =>
      here ((keyword_closed_iff holds closed inside).mp seen)
    rw [cellBody, if_neg unseen, cellAt, if_neg here]
    rfl

theorem scan_closed_from {buffer : Memory} {bytes : List UInt8} (holds : Holds buffer bytes)
    (closed : Closed bytes) (count : Nat) :
    ∀ (index : Nat) (s : CellScan), index + count = bytes.length →
      (List.range' index count).foldl (cellBody buffer) s =
        (cells (bytes.drop index)).foldl storeRun s := by
  induction count with
  | zero =>
      intro index s total
      rw [List.drop_eq_nil_of_le (by omega)]
      rfl
  | succ count ih =>
      intro index s total
      have inside : index < bytes.length := by omega
      have step : cells (bytes.drop index) =
          cellAt (bytes.drop index) ++ cells (bytes.drop (index + 1)) := by
        rw [List.drop_eq_getElem_cons inside]
        rfl
      rw [List.range'_succ, List.foldl_cons, ih (index + 1) _ (by omega), step, List.foldl_append,
        cellBody_closed holds closed inside]

/-- The parse of one closed read stores its cells from the first row on,
whatever lies in the buffer behind it. -/
theorem scanRead_closed {buffer : Memory} {bytes : List UInt8} (holds : Holds buffer bytes)
    (closed : Closed bytes) (page : Page) :
    scanRead buffer bytes.length page = storeCells page (cells bytes) := by
  rw [scanRead, List.range_eq_range', scan_closed_from holds closed bytes.length 0 _ (by omega),
    List.drop_zero, storeCells]

/-- The cells of closed texts do not depend on what follows them. -/
theorem cells_append {bytes : List UInt8} (closed : Closed bytes) (more : List UInt8) :
    cells (bytes ++ more) = cells bytes ++ cells more := by
  induction bytes with
  | nil => rfl
  | cons c rest ih =>
      have same : cellAt (c :: rest ++ more) = cellAt (c :: rest) := by
        by_cases here : tag <+: c :: rest
        · have longer : tag <+: c :: rest ++ more := here.trans (List.prefix_append _ _)
          have size : 4 ≤ (c :: rest).length := here.length_le
          have first : tag <+: (c :: rest).drop 0 := here
          obtain ⟨_, found⟩ := closed.run_ends first
          rw [List.drop_zero] at found
          rw [cellAt, cellAt, if_pos here, if_pos longer, List.drop_append_of_le_length size,
            List.takeWhile_append]
          have inside := (List.getElem?_eq_some_iff.mp found).1
          rw [if_neg (by omega)]
        · have absent : ¬ tag <+: c :: rest ++ more := fun seen =>
            here (closed.tag_inside (List.cons_ne_nil c rest) seen)
          rw [cellAt, cellAt, if_neg here, if_neg absent]
      rw [List.cons_append, cells, cells, ih closed.tail, List.append_assoc, ← List.cons_append,
        same]

theorem cells_ne_nil (bytes : List UInt8) : ∀ cell ∈ cells bytes, cell ≠ [] := by
  induction bytes with
  | nil => intro cell member; cases member
  | cons c rest ih =>
      intro cell member
      rcases List.mem_append.mp member with here | later
      · unfold cellAt at here
        split at here
        · split at here
          · cases here
          · rename_i nonempty
            rw [List.mem_singleton.mp here]
            exact nonempty
        · cases here
      · exact ih cell later

end KyokaMirror.Http
