import KyokaMirror.Json.Members

set_option autoImplicit false

namespace KyokaMirror.Json

open Users
open Esp32 (Action Globals Scan getTest listLoop rowAt)

/-- The values of a frame, each within its field and free of quotes,
backslashes and control bytes. -/
structure Record where
  id : List UInt8
  account : List UInt8
  psw : List UInt8
  idSize : 1 ≤ id.length ∧ id.length ≤ 2
  accountSize : 1 ≤ account.length ∧ account.length ≤ 20
  pswSize : 1 ≤ psw.length ∧ psw.length ≤ 20
  plain : ∀ c ∈ id ++ account ++ psw, 32 ≤ c.toNat ∧ c ≠ 34 ∧ c ≠ 92

def opening : List UInt8 := ascii "\x7b\""
def colon : List UInt8 := ascii "\":\""
def comma : List UInt8 := ascii "\",\""
def closing : List UInt8 := ascii "\"\x7d"

@[simp] theorem opening_length : opening.length = 2 := rfl
@[simp] theorem colon_length : colon.length = 3 := rfl
@[simp] theorem comma_length : comma.length = 3 := rfl
@[simp] theorem ascii_id_length : (ascii "id").length = 2 := rfl
@[simp] theorem ascii_account_length : (ascii "account").length = 7 := rfl
@[simp] theorem ascii_psw_length : (ascii "psw").length = 3 := rfl

/-- `{"id":"a","account":"b","psw":"c"}`. -/
def Record.text (record : Record) : List UInt8 :=
  opening ++ ascii "id" ++ colon ++ record.id ++ comma ++ ascii "account" ++ colon ++
    record.account ++ comma ++ ascii "psw" ++ colon ++ record.psw ++ closing

def Record.idExtent (record : Record) : Extent := ⟨7, record.id.length⟩

def Record.accountExtent (record : Record) : Extent :=
  ⟨20 + record.id.length, record.account.length⟩

def Record.pswExtent (record : Record) : Extent :=
  ⟨29 + record.id.length + record.account.length, record.psw.length⟩

/-- The extents of the text, as `jsmn` finds them. -/
def Record.document (record : Record) : Document where
  extent := ⟨0, record.text.length⟩
  members :=
    .cons ⟨2, 2⟩ (.string record.idExtent)
      (.cons ⟨10 + record.id.length, 7⟩ (.string record.accountExtent)
        (.cons ⟨23 + record.id.length + record.account.length, 3⟩ (.string record.pswExtent) .nil))

theorem bytes_of_split {str : Memory} {text : List UInt8} (holds : Holds str text)
    (front bytes back : List UInt8) (split : text = front ++ bytes ++ back) {extent : Extent}
    (start : extent.start = front.length) (length : extent.length = bytes.length) :
    extent.bytes str = bytes := by
  apply List.ext_getElem
  · rw [Extent.bytes, List.length_map, List.length_range, length]
  · intro k inside within
    have size : front.length + k < text.length := by
      rw [split, List.length_append, List.length_append]
      omega
    simp only [Extent.bytes, List.getElem_map, List.getElem_range, Extent.text]
    rw [start, holds _ size]
    simp only [split, List.append_assoc, List.getElem_append_right (Nat.le_add_right _ k),
      Nat.add_sub_cancel_left, List.getElem_append_left within]

section

variable {str : Memory} {record : Record} (holds : Holds str record.text)

include holds

theorem idExtent_bytes : record.idExtent.bytes str = record.id := by
  apply bytes_of_split holds (opening ++ ascii "id" ++ colon) record.id
    (comma ++ ascii "account" ++ colon ++ record.account ++ comma ++ ascii "psw" ++ colon ++
      record.psw ++ closing)
  · simp only [Record.text, List.append_assoc]
  · rfl
  · rfl

theorem accountExtent_bytes : record.accountExtent.bytes str = record.account := by
  apply bytes_of_split holds (opening ++ ascii "id" ++ colon ++ record.id ++ comma ++
    ascii "account" ++ colon) record.account
    (comma ++ ascii "psw" ++ colon ++ record.psw ++ closing)
  · simp only [Record.text, List.append_assoc]
  · simp only [Record.accountExtent, List.length_append, opening_length, ascii_id_length,
      colon_length, comma_length, ascii_account_length]
    omega
  · rfl

theorem pswExtent_bytes : record.pswExtent.bytes str = record.psw := by
  apply bytes_of_split holds (opening ++ ascii "id" ++ colon ++ record.id ++ comma ++
    ascii "account" ++ colon ++ record.account ++ comma ++ ascii "psw" ++ colon) record.psw closing
  · rfl
  · simp only [Record.pswExtent, List.length_append, opening_length, ascii_id_length,
      colon_length, comma_length, ascii_account_length, ascii_psw_length]
    omega
  · rfl

/-- Each of the three keys has its name. -/
theorem record_names :
    nameField ((⟨2, 2⟩ : Extent).bytes str) = some .id ∧
      nameField ((⟨10 + record.id.length, 7⟩ : Extent).bytes str) = some .name ∧
      nameField ((⟨23 + record.id.length + record.account.length, 3⟩ : Extent).bytes str) =
        some .psw := by
  have first : (⟨2, 2⟩ : Extent).bytes str = ascii "id" := by
    apply bytes_of_split holds opening (ascii "id") (colon ++ record.id ++ comma ++
      ascii "account" ++ colon ++ record.account ++ comma ++ ascii "psw" ++ colon ++ record.psw ++
      closing)
    · simp only [Record.text, List.append_assoc]
    · rfl
    · rfl
  have second : (⟨10 + record.id.length, 7⟩ : Extent).bytes str = ascii "account" := by
    apply bytes_of_split holds (opening ++ ascii "id" ++ colon ++ record.id ++ comma)
      (ascii "account") (colon ++ record.account ++ comma ++ ascii "psw" ++ colon ++ record.psw ++
        closing)
    · simp only [Record.text, List.append_assoc]
    · simp only [List.length_append, opening_length, ascii_id_length, colon_length, comma_length]
      omega
    · rfl
  have third : (⟨23 + record.id.length + record.account.length, 3⟩ : Extent).bytes str =
      ascii "psw" := by
    apply bytes_of_split holds (opening ++ ascii "id" ++ colon ++ record.id ++ comma ++
      ascii "account" ++ colon ++ record.account ++ comma) (ascii "psw")
      (colon ++ record.psw ++ closing)
    · simp only [Record.text, List.append_assoc]
    · simp only [List.length_append, opening_length, ascii_id_length, colon_length, comma_length,
        ascii_account_length]
      omega
    · rfl
  rw [first, second, third]
  decide

theorem record_named : record.document.members.named str =
    [(.id, record.idExtent), (.name, record.accountExtent), (.psw, record.pswExtent)] := by
  obtain ⟨first, second, third⟩ := record_names holds
  simp only [Record.document, Members.named, first, second, third, Value.extent]

theorem record_quiet : record.document.members.Quiet str := by
  obtain ⟨first, second, third⟩ := record_names holds
  have silent : Silent str [] := fun _ member => absurd member List.not_mem_nil
  simp only [Record.document, Members.Quiet, Value.inner, first, second, third, silent,
    reduceCtorEq, false_implies, and_self]

/-- The bytes of a stored field: the new value, and behind it what was there. -/
theorem record_stored (glob : Globals) {field : Field} {value : Extent}
    (among : (field, value) ∈ record.document.members.named str) {k : Nat}
    (inside : k < field.size) :
    (storeFrame str record.document.parsed glob).userDate (fieldAddress 0 field k) =
      if k < value.length then value.text str k else glob.userDate (fieldAddress 0 field k) := by
  have fits : Fits (record.document.members.named str) := by
    rw [record_named holds]
    simp only [Fits, List.forall_mem_cons, List.not_mem_nil, false_implies, implies_true, and_true]
    exact ⟨record.idSize.2, record.accountSize.2, record.pswSize.2⟩
  have distinct : (record.document.members.named str).Pairwise
      fun first second => first.1 ≠ second.1 := by
    rw [record_named holds]
    simp
  show (scanTokens str record.document.parsed glob.userDate).userDate _ = _
  rw [scanTokens_quiet (record_quiet holds), storeValues_field str fits distinct among inside]

end

/-- The bytes of a field as they are written out, less the NUL bytes. -/
def strip (bytes : List UInt8) : List UInt8 := bytes.filter (· ≠ 0)

theorem strip_eq_iff (g : Nat → UInt8) (bytes : List UInt8) (size : Nat) (fits : bytes.length ≤ size)
    (printable : ∀ c ∈ bytes, c ≠ 0) (front : ∀ k, (inside : k < bytes.length) → g k = bytes[k]) :
    strip ((List.range size).map g) = bytes ↔ ∀ k, bytes.length ≤ k → k < size → g k = 0 := by
  obtain ⟨rest, rfl⟩ := Nat.exists_eq_add_of_le fits
  have head : (List.range bytes.length).map g = bytes := by
    apply List.ext_getElem
    · rw [List.length_map, List.length_range]
    · intro k inside within
      rw [List.getElem_map, List.getElem_range, front k within]
  have kept : strip bytes = bytes := List.filter_eq_self.mpr (by simpa using printable)
  rw [List.range_add, List.map_append, head, strip, List.filter_append, ← strip, kept,
    List.append_right_eq_self, List.filter_eq_nil_iff]
  constructor
  · intro zero k behind inside
    have known := zero (g (bytes.length + (k - bytes.length)))
      (List.mem_map_of_mem (List.mem_map_of_mem (List.mem_range.mpr (by omega))))
    rw [Nat.add_sub_cancel' behind] at known
    simpa using known
  · intro zero c member
    obtain ⟨k, among, rfl⟩ := List.mem_map.mp member
    obtain ⟨m, small, rfl⟩ := List.mem_map.mp among
    have := List.mem_range.mp small
    simpa using zero (bytes.length + m) (by omega) (by omega)

theorem getTest_lists {s : Scan} (asked : s.lists = true) :
    (getTest s).actions = s.actions ++ [Action.getList (listLoop s.glob s.glob.userNum s.i).2] := by
  rw [Scan.lists, Bool.and_eq_true, Bool.and_eq_true, bne_iff_ne, bne_iff_ne] at asked
  obtain ⟨⟨seen, number⟩, dot⟩ := asked
  rw [getTest, if_pos seen, if_neg (by simpa using number), if_neg (by simpa using dot)]

theorem listLoop_rows (glob : Globals) (k i : Nat) :
    (listLoop glob (k + 1) i).2 =
      rowAt glob.userDate (glob.userNum - (k + 1)) :: (listLoop glob k (i + 1)).2 := rfl

/-- Nothing is left behind the values in the fields of the first user. -/
def Cleared (record : Record) (table : Memory) : Prop :=
  (∀ k, record.id.length ≤ k → k < 2 → table (fieldAddress 0 .id k) = 0) ∧
    (∀ k, record.account.length ≤ k → k < 20 → table (fieldAddress 0 .name k) = 0) ∧
    ∀ k, record.psw.length ≤ k → k < 20 → table (fieldAddress 0 .psw k) = 0

/-- One field of the reply shows the value exactly when the bytes behind it were
NUL. -/
theorem field_shown_iff {str : Memory} {record : Record} (holds : Holds str record.text)
    (glob : Globals) (field : Field) {value : Extent} {bytes : List UInt8}
    (among : (field, value) ∈ record.document.members.named str)
    (text : value.bytes str = bytes) (fits : bytes.length ≤ field.size)
    (printable : ∀ c ∈ bytes, c ≠ 0) :
    strip (fieldBytes (storeFrame str record.document.parsed glob).userDate 0 field) = bytes ↔
      ∀ k, bytes.length ≤ k → k < field.size → glob.userDate (fieldAddress 0 field k) = 0 := by
  have size : value.length = bytes.length := by
    rw [← text, Extent.bytes, List.length_map, List.length_range]
  rw [fieldBytes, strip_eq_iff _ bytes field.size fits printable]
  · constructor
    · intro zero k behind inside
      have known := zero k behind inside
      rwa [record_stored holds glob among inside, if_neg (by omega)] at known
    · intro zero k behind inside
      rw [record_stored holds glob among inside, if_neg (by omega)]
      exact zero k behind inside
  · intro k inside
    rw [record_stored holds glob among (by omega), if_pos (by omega)]
    simp only [← text, Extent.bytes, List.getElem_map, List.getElem_range]

/-- The list reply after a frame shows its record exactly when nothing stood
behind the values in the fields of the first user. -/
theorem round_trip_iff (record : Record) (str : Memory) (glob : Globals) (s : Scan)
    (holds : Holds str record.text)
    (stored : s.glob = storeFrame str record.document.parsed glob) (asked : s.lists = true) :
    (∃ row rows, (getTest s).actions = s.actions ++ [Action.getList (row :: rows)] ∧
      strip row.id = record.id ∧ strip row.name = record.account ∧ strip row.psw = record.psw) ↔
      Cleared record glob.userDate := by
  have rows : (getTest s).actions = s.actions ++
      [Action.getList (rowAt s.glob.userDate 0 :: (listLoop s.glob glob.userNum (s.i + 1)).2)] := by
    have count : s.glob.userNum = glob.userNum + 1 := by rw [stored]; rfl
    rw [getTest_lists asked, count, listLoop_rows, count, Nat.sub_self]
  have printable : ∀ c ∈ record.id ++ record.account ++ record.psw, c ≠ 0 := by
    rintro c member rfl
    exact absurd (record.plain 0 member).1 (by decide)
  simp only [List.forall_mem_append] at printable
  have named := record_named holds
  have idShown := field_shown_iff holds glob .id (by rw [named]; simp) (idExtent_bytes holds)
    record.idSize.2 printable.1.1
  have accountShown := field_shown_iff holds glob .name (by rw [named]; simp)
    (accountExtent_bytes holds) record.accountSize.2 printable.1.2
  have pswShown := field_shown_iff holds glob .psw (by rw [named]; simp) (pswExtent_bytes holds)
    record.pswSize.2 printable.2
  have shown : Cleared record glob.userDate ↔
      strip (rowAt s.glob.userDate 0).id = record.id ∧
        strip (rowAt s.glob.userDate 0).name = record.account ∧
        strip (rowAt s.glob.userDate 0).psw = record.psw := by
    simp only [rowAt, stored, idShown, accountShown, pswShown]
    rfl
  rw [shown, rows]
  constructor
  · rintro ⟨row, others, same, shows⟩
    obtain ⟨rfl, -⟩ := List.cons.inj (Action.getList.inj (List.head_eq_of_cons_eq
      (List.append_cancel_left same)))
    exact shows
  · intro shows
    exact ⟨_, _, rfl, shows⟩

/-- The frame `{"id":"7","account":"bob","psw":"x"}`. -/
def bob : Record where
  id := ascii "7"
  account := ascii "bob"
  psw := ascii "x"
  idSize := by decide
  accountSize := by decide
  pswSize := by decide
  plain := by decide +kernel

/-- The thread at the word `get` of a delivery. -/
def atGet (glob : Globals) : Scan :=
  { i := 0
    buf := ⟨literal "get", fun _ => 0, 0, false⟩
    glob := glob
    accesses := []
    actions := [] }

def bobFrame : Memory := literal "\x7b\"id\":\"7\",\"account\":\"bob\",\"psw\":\"x\"\x7d"

/-- In an empty table the record is shown. -/
theorem bob_shown_after_zeros :
    ∃ row rows, (getTest (atGet (storeFrame bobFrame bob.document.parsed
        ⟨fun _ => 0, 0, 0, 0⟩))).actions = [] ++ [Action.getList (row :: rows)] ∧
      strip row.id = bob.id ∧ strip row.name = bob.account ∧ strip row.psw = bob.psw :=
  (round_trip_iff bob bobFrame ⟨fun _ => 0, 0, 0, 0⟩
    (atGet (storeFrame bobFrame bob.document.parsed ⟨fun _ => 0, 0, 0, 0⟩))
    (by unfold Holds; decide +kernel) rfl (by decide +kernel)).mpr
    ⟨fun _ _ _ => rfl, fun _ _ _ => rfl, fun _ _ _ => rfl⟩

/-- Over the first of the two built-in users it is shown as
`bobkatest001@outlook`. -/
theorem bob_shown_with_old_name :
    strip (rowAt (storeFrame bobFrame bob.document.parsed
        ⟨builtinUsers fun _ => 0, 2, 0, 0⟩).userDate 0).name = ascii "bobkatest001@outlook" ∧
      ¬ ∃ row rows, (getTest (atGet (storeFrame bobFrame bob.document.parsed
          ⟨builtinUsers fun _ => 0, 2, 0, 0⟩))).actions = [] ++ [Action.getList (row :: rows)] ∧
        strip row.id = bob.id ∧ strip row.name = bob.account ∧ strip row.psw = bob.psw := by
  have old : strip (rowAt (storeFrame bobFrame bob.document.parsed
      ⟨builtinUsers fun _ => 0, 2, 0, 0⟩).userDate 0).name = ascii "bobkatest001@outlook" := by
    decide +kernel
  refine ⟨old, ?_⟩
  rintro ⟨row, rows, reply, -, name, -⟩
  rw [getTest_lists (by decide +kernel)] at reply
  obtain ⟨rfl, -⟩ := List.cons.inj (Action.getList.inj (List.head_eq_of_cons_eq
    (List.append_cancel_left reply)))
  exact absurd (old.symm.trans name) (by decide)

end KyokaMirror.Json
