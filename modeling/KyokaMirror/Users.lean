import KyokaMirror.Library.Copy

set_option autoImplicit false

namespace KyokaMirror.Users

open Library.Copy (copy copy_inside copy_outside)

/-- A byte array seen from its first element. Indices past the declared size
stand for whatever the linker has placed behind the array. -/
abbrev Memory := Nat → UInt8

def ascii (text : String) : List UInt8 := text.toList.map Char.toUInt8

/-- A string literal as the array the compiler emits for it, with its NUL. -/
def literal (text : String) : Memory := fun k => (ascii text).getD k 0

/-- The buffer begins with the text. -/
def Holds (buffer : Memory) (bytes : List UInt8) : Prop :=
  ∀ a, (inside : a < bytes.length) → buffer a = bytes[a]

theorem Holds.drop {buffer : Memory} {bytes : List UInt8} (holds : Holds buffer bytes)
    (index : Nat) :
    ∀ k, (inside : k < (bytes.drop index).length) →
      buffer (index + k) = (bytes.drop index)[k] := by
  intro k inside
  rw [List.length_drop] at inside
  rw [holds (index + k) (by omega), List.getElem_drop]

/-- The chain `b[i] == c0 && b[i+1] == c1 && ...`. -/
def keyword (b : Memory) (i : Nat) : List UInt8 → Bool
  | [] => true
  | c :: rest => b i == c && keyword b (i + 1) rest

theorem keyword_apply {b : Memory} {i : Nat} {kw : List UInt8} (seen : keyword b i kw = true)
    (k : Nat) (inside : k < kw.length) : b (i + k) = kw[k] := by
  induction kw generalizing i k with
  | nil => cases inside
  | cons c rest ih =>
      simp only [keyword, Bool.and_eq_true, beq_iff_eq] at seen
      cases k with
      | zero => exact seen.1
      | succ k =>
          have next := ih seen.2 k (by simpa using inside)
          simpa only [List.getElem_cons_succ, Nat.add_assoc, Nat.add_comm 1 k] using next

theorem keyword_of_prefix {b : Memory} {i : Nat} {kw bytes : List UInt8} (here : kw <+: bytes)
    (same : ∀ k, (inside : k < bytes.length) → b (i + k) = bytes[k]) : keyword b i kw = true := by
  induction kw generalizing i bytes with
  | nil => rfl
  | cons c rest ih =>
      cases bytes with
      | nil => exact absurd here (by simp)
      | cons d more =>
          obtain ⟨rfl, later⟩ := List.cons_prefix_cons.mp here
          rw [keyword, Bool.and_eq_true, beq_iff_eq]
          refine ⟨same 0 (Nat.succ_pos _), ih later ?_⟩
          intro k inside
          rw [Nat.add_assoc, Nat.add_comm 1 k]
          exact same (k + 1) (Nat.succ_lt_succ inside)

/-- A chain that holds at a text either lies in it or runs over its end. -/
theorem keyword_prefix_or {b : Memory} {i : Nat} {kw bytes : List UInt8}
    (seen : keyword b i kw = true)
    (same : ∀ k, (inside : k < bytes.length) → b (i + k) = bytes[k]) :
    kw <+: bytes ∨ bytes <+: kw := by
  induction kw generalizing i bytes with
  | nil => exact .inl List.nil_prefix
  | cons c rest ih =>
      cases bytes with
      | nil => exact .inr List.nil_prefix
      | cons d more =>
          rw [keyword, Bool.and_eq_true, beq_iff_eq] at seen
          have first : c = d := seen.1.symm.trans (same 0 (Nat.succ_pos _))
          have later : rest <+: more ∨ more <+: rest := ih seen.2 (by
            intro k inside
            rw [Nat.add_assoc, Nat.add_comm 1 k]
            exact same (k + 1) (Nat.succ_lt_succ inside))
          simp only [first, List.cons_prefix_cons, true_and]
          exact later

/-- The indices that the chain reads before `&&` cuts it off. -/
def keywordReads (b : Memory) (i : Nat) : List UInt8 → List Nat
  | [] => []
  | c :: rest => i :: if b i == c then keywordReads b (i + 1) rest else []

/-- The chain would go on past the end of an array of `size` bytes: what is left
of it from `i` on is a proper prefix of the keyword. -/
def overrunsArray (size : Nat) (b : Memory) (i : Nat) (kw : List UInt8) : Bool :=
  decide (size - i < kw.length) && keyword b i (kw.take (size - i))

theorem keywordReads_lt_size_iff (size : Nat) (b : Memory) (i : Nat) (kw : List UInt8) :
    (∀ index ∈ keywordReads b i kw, index < size) ↔ overrunsArray size b i kw = false := by
  induction kw generalizing i with
  | nil => simp only [keywordReads, overrunsArray, List.not_mem_nil, false_implies, implies_true,
      List.length_nil, Nat.not_lt_zero, decide_false, Bool.false_and]
  | cons c rest ih =>
      by_cases inside : i < size
      · have left : size - i = size - (i + 1) + 1 := by omega
        have step : overrunsArray size b i (c :: rest) =
            (b i == c && overrunsArray size b (i + 1) rest) := by
          simp only [overrunsArray, left, List.take_succ_cons, List.length_cons,
            Nat.add_lt_add_iff_right, keyword]
          cases b i == c <;> simp
        rw [step, keywordReads]
        by_cases here : b i == c
        · simp only [here, ↓reduceIte, List.forall_mem_cons, inside, true_and, Bool.true_and, ih]
        · simp [here, inside]
      · have spent : size - i = 0 := by omega
        simp [keywordReads, overrunsArray, spent, keyword, inside]

/- `struct user_date` consists of byte arrays only, so its fields follow each
other without padding and `user_date_t[10]` is one block of bytes. A store that
runs over the end of a field lands in the next one. -/

def sizeofUserDate : Nat := 152

inductive Field where
  | id | name | psw | event | address | eventTime | importent
  deriving DecidableEq, Repr

def Field.offset : Field → Nat
  | .id => 0
  | .name => 2
  | .psw => 22
  | .event => 42
  | .address => 92
  | .eventTime => 112
  | .importent => 132

def Field.size : Field → Nat
  | .id => 2
  | .name => 20
  | .psw => 20
  | .event => 50
  | .address => 20
  | .eventTime => 20
  | .importent => 20

/-- `&user_date_t[row].field[k]`, counted in bytes from `user_date_t`. -/
def fieldAddress (row : Nat) (field : Field) (k : Nat) : Nat :=
  sizeofUserDate * row + field.offset + k

/-- `for (m = 0; m < count; m++) user_date_t[row].field[m] = src[m]`. -/
def store (table : Memory) (row : Nat) (field : Field) (src : Memory) (count : Nat) : Memory :=
  copy table src (fieldAddress row field 0) 0 count

theorem fieldAddress_add (row : Nat) (field : Field) (k : Nat) :
    fieldAddress row field k = fieldAddress row field 0 + k := rfl

theorem store_inside (table : Memory) (row : Nat) (field : Field) (src : Memory) {count k : Nat}
    (inside : k < count) : store table row field src count (fieldAddress row field k) = src k := by
  rw [store, fieldAddress_add row field k, copy_inside _ _ _ _ _ _ (by omega) (by omega),
    Nat.add_sub_cancel_left, Nat.zero_add]

theorem store_outside (table : Memory) (row : Nat) (field : Field) (src : Memory) {count a : Nat}
    (outside : ∀ k < count, a ≠ fieldAddress row field k) :
    store table row field src count a = table a := by
  apply copy_outside
  by_contra within
  apply outside (a - fieldAddress row field 0) (by omega)
  rw [fieldAddress_add row field (a - _)]
  omega

theorem Field.offset_inj {field other : Field} {k m : Nat} (inside : k < field.size)
    (within : m < other.size) (same : field.offset + k = other.offset + m) :
    field = other ∧ k = m := by
  cases field <;> cases other <;> simp only [Field.offset, Field.size] at inside within same <;>
    first | exact ⟨rfl, by omega⟩ | omega

/-- The fields of a row do not meet. -/
theorem fieldAddress_inj {row : Nat} {field other : Field} {k m : Nat} (inside : k < field.size)
    (within : m < other.size) (same : fieldAddress row field k = fieldAddress row other m) :
    field = other ∧ k = m := by
  apply Field.offset_inj inside within
  rw [fieldAddress, fieldAddress] at same
  omega

/-- A field lies in its row. -/
theorem fieldAddress_row (row : Nat) {field : Field} {k : Nat} (inside : k < field.size) :
    sizeofUserDate * row ≤ fieldAddress row field k ∧
      fieldAddress row field k < sizeofUserDate * (row + 1) := by
  unfold fieldAddress sizeofUserDate
  cases field <;> simp only [Field.offset, Field.size] at inside ⊢ <;> omega

theorem fieldAddress_ne {row other : Nat} (apart : row ≠ other) {field second : Field} {k m : Nat}
    (inside : k < field.size) (within : m < second.size) :
    fieldAddress row field k ≠ fieldAddress other second m := by
  intro same
  have first := fieldAddress_row row inside
  have last := fieldAddress_row other within
  unfold sizeofUserDate at first last
  omega

structure FieldValue where
  field : Field
  bytes : Memory
  count : Nat

def storeFields (table : Memory) (row : Nat) (record : List FieldValue) : Memory :=
  record.foldl (fun table value => store table row value.field value.bytes value.count) table

/-- Every value fits its field. -/
def FieldsFit (record : List FieldValue) : Prop := ∀ value ∈ record, value.count ≤ value.field.size

theorem storeFields_cons (table : Memory) (row : Nat) (value : FieldValue) (rest : List FieldValue) :
    storeFields table row (value :: rest) =
      storeFields (store table row value.field value.bytes value.count) row rest := rfl

theorem storeFields_append (table : Memory) (row : Nat) (before after : List FieldValue) :
    storeFields table row (before ++ after) =
      storeFields (storeFields table row before) row after := List.foldl_append

theorem storeFields_untouched (row : Nat) (record : List FieldValue) {a : Nat}
    (apart : ∀ value ∈ record, ∀ k < value.count, a ≠ fieldAddress row value.field k)
    (table : Memory) : storeFields table row record a = table a := by
  induction record generalizing table with
  | nil => rfl
  | cons value rest ih =>
      rw [storeFields_cons, ih fun other among => apart other (List.mem_cons_of_mem _ among)]
      exact store_outside _ _ _ _ (apart value List.mem_cons_self)

theorem storeFields_congr (row : Nat) (record : List FieldValue) {a : Nat} {table other : Memory}
    (same : table a = other a) :
    storeFields table row record a = storeFields other row record a := by
  induction record generalizing table other with
  | nil => exact same
  | cons value rest ih =>
      apply ih
      simp only [store, Library.Copy.copy_apply, same]

/-- A byte that some value reaches no longer depends on the table. -/
theorem storeFields_written (row : Nat) {record : List FieldValue} {value : FieldValue}
    (among : value ∈ record) {k : Nat} (inside : k < value.count) (table other : Memory) :
    storeFields table row record (fieldAddress row value.field k) =
      storeFields other row record (fieldAddress row value.field k) := by
  obtain ⟨before, after, rfl⟩ := List.append_of_mem among
  rw [storeFields_append, storeFields_append, storeFields_cons, storeFields_cons]
  apply storeFields_congr
  rw [store_inside _ _ _ _ inside, store_inside _ _ _ _ inside]

/-- Values that fit leave the other rows alone. -/
theorem storeFields_other_row {row other : Nat} (apart : row ≠ other) {record : List FieldValue}
    (fits : FieldsFit record) {field : Field} {k : Nat} (inside : k < field.size)
    (table : Memory) :
    storeFields table row record (fieldAddress other field k) =
      table (fieldAddress other field k) := by
  apply storeFields_untouched
  intro value among m within
  have room := fits value among
  exact (fieldAddress_ne apart (by omega) inside).symm

theorem storeFields_beyond {row : Nat} {record : List FieldValue} (fits : FieldsFit record) {a : Nat}
    (behind : sizeofUserDate * (row + 1) ≤ a) (table : Memory) :
    storeFields table row record a = table a := by
  apply storeFields_untouched
  intro value among m within meets
  have room := fits value among
  have place := (fieldAddress_row row (show m < value.field.size by omega)).2
  omega

def fieldBytes (table : Memory) (row : Nat) (field : Field) : List UInt8 :=
  (List.range field.size).map (fun k => table (fieldAddress row field k))

/-- The two users that `esp32_thread_entry` writes before its loop. Each name
is copied with 25 bytes into a field of 20. -/
def builtinUsers (table : Memory) : Memory :=
  store (store (store (store table 0 .id (literal "1") 2) 1 .id (literal "2") 2)
    0 .name (literal "kyokatest001@outlook.com") 25) 1 .name (literal "kyokatest002@outlook.com") 25

end KyokaMirror.Users
