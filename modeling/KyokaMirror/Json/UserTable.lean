import KyokaMirror.Json.Document

set_option autoImplicit false

namespace KyokaMirror.Json

open Users
open Esp32 (Globals addUser listLoop rowAt)

/-- An accepted frame whose values fit their fields. -/
structure AcceptedFrame where
  str : Memory
  p : Parsed
  accepted : p.accepted = true
  fits : ∀ key ∈ taken str p, (p.t (key.1 + 1)).size ≤ key.2.size

/-- The values that the token loop takes from the frame. -/
def AcceptedFrame.record (frame : AcceptedFrame) : List FieldValue :=
  (taken frame.str frame.p).map fun key =>
    let value := frame.p.t (key.1 + 1)
    ⟨key.2, value.text frame.str, value.size.toNat⟩

/-- The user of the `add` command. -/
def addRecord : List FieldValue :=
  [⟨.id, literal "3", 2⟩, ⟨.name, literal "zwl", 4⟩, ⟨.psw, literal "12345687", 9⟩]

inductive Operation where
  | add
  | frame (frame : AcceptedFrame)
  | list

def Operation.apply : Operation → Globals → Globals
  | .add, glob => addUser glob
  | .frame accepted, glob => storeFrame accepted.str accepted.p glob
  | .list, glob => glob

/-- The record becomes the user behind the present ones. -/
structure Entered (record : List FieldValue) (before after : Globals) : Prop where
  counted : after.userNum = before.userNum + 1
  stored : ∀ (field : Field) (k : Nat), k < field.size →
    after.userDate (fieldAddress before.userNum field k) =
      storeFields before.userDate before.userNum record (fieldAddress before.userNum field k)
  kept : ∀ row < before.userNum, ∀ (field : Field) (k : Nat), k < field.size →
    after.userDate (fieldAddress row field k) = before.userDate (fieldAddress row field k)

def Refused (before after : Globals) : Prop :=
  after.userDate = before.userDate ∧ after.userNum = before.userNum

/-- The list reply shows every user once, in the order of the table. -/
def Listed (glob : Globals) : Prop :=
  ∀ i, (listLoop glob glob.userNum i).2 = (List.range glob.userNum).map (rowAt glob.userDate)

def Sound : Operation → Globals → Globals → Prop
  | .add, before, after => Entered addRecord before after ∨ Refused before after
  | .frame frame, before, after => Entered frame.record before after ∨ Refused before after
  | .list, before, after => Listed before ∧ after = before

/-- In every state of the run there are at most ten users, and every step is
sound. -/
def SoundRun : List Operation → Globals → Prop
  | [], glob => glob.userNum ≤ 10
  | op :: rest, glob =>
      glob.userNum ≤ 10 ∧ Sound op glob (op.apply glob) ∧ SoundRun rest (op.apply glob)

/-- No key of the frame has a value. -/
def AcceptedFrame.Empty (frame : AcceptedFrame) : Prop :=
  ∀ key ∈ taken frame.str frame.p, (frame.p.t (key.1 + 1)).size ≤ 0

/-- With `n` users before the first operation: `add` comes with two users, and a
frame has no value and comes with fewer than ten. -/
def Admissible : List Operation → Nat → Prop
  | [], _ => True
  | .add :: rest, n => n = 2 ∧ Admissible rest (n + 1)
  | .frame frame :: rest, n => frame.Empty ∧ n < 10 ∧ Admissible rest (n + 1)
  | .list :: rest, n => Admissible rest n

theorem addUser_userDate (glob : Globals) :
    (addUser glob).userDate = storeFields glob.userDate 2 addRecord := rfl

theorem storeFrame_userDate (frame : AcceptedFrame) (glob : Globals) :
    (storeFrame frame.str frame.p glob).userDate = storeFields glob.userDate 0 frame.record := by
  rw [storeFields, AcceptedFrame.record, List.foldl_map]
  exact scanTokens_userDate frame.str frame.p glob.userDate

theorem addRecord_fits : FieldsFit addRecord := by
  simp only [FieldsFit, addRecord, List.forall_mem_cons, List.not_mem_nil, false_implies,
    implies_true, and_true]
  decide

theorem AcceptedFrame.record_fits (frame : AcceptedFrame) : FieldsFit frame.record := by
  intro value among
  obtain ⟨key, member, rfl⟩ := List.mem_map.mp among
  have size := frame.fits key member
  dsimp only
  omega

theorem AcceptedFrame.Empty.count {frame : AcceptedFrame} (empty : frame.Empty) :
    ∀ value ∈ frame.record, value.count = 0 := by
  intro value among
  obtain ⟨key, member, rfl⟩ := List.mem_map.mp among
  have size := empty key member
  dsimp only
  omega

theorem storeFields_empty {record : List FieldValue} (empty : ∀ value ∈ record, value.count = 0)
    (table : Memory) (row : Nat) : storeFields table row record = table := by
  funext a
  apply storeFields_untouched
  intro value among k inside
  rw [empty value among] at inside
  exact absurd inside (Nat.not_lt_zero k)

theorem listLoop_listed (glob : Globals) (k : Nat) :
    ∀ i, k ≤ glob.userNum → (listLoop glob k i).2 =
      (List.range' (glob.userNum - k) k).map (rowAt glob.userDate) := by
  induction k with
  | zero => intro i _; rfl
  | succ k ih =>
      intro i enough
      have next : glob.userNum - k = glob.userNum - (k + 1) + 1 := by omega
      rw [listLoop, List.range'_succ, List.map_cons]
      dsimp only
      rw [ih (i + 1) (by omega), next]

theorem listed (glob : Globals) : Listed glob := by
  intro i
  rw [listLoop_listed glob glob.userNum i (Nat.le_refl _), Nat.sub_self, List.range_eq_range']

theorem add_entered {glob : Globals} (two : glob.userNum = 2) :
    Entered addRecord glob (addUser glob) where
  counted := rfl
  stored := by
    intro field k inside
    rw [addUser_userDate, two]
  kept := by
    intro row below field k inside
    rw [addUser_userDate, storeFields_other_row (by omega) addRecord_fits inside]

theorem frame_entered {frame : AcceptedFrame} (empty : frame.Empty) (glob : Globals) :
    Entered frame.record glob (storeFrame frame.str frame.p glob) where
  counted := rfl
  stored := by
    intro field k inside
    rw [storeFrame_userDate, storeFields_empty empty.count, storeFields_empty empty.count]
  kept := by
    intro row below field k inside
    rw [storeFrame_userDate, storeFields_empty empty.count]

theorem soundRun_of_admissible (ops : List Operation) :
    ∀ glob : Globals, glob.userNum ≤ 10 → Admissible ops glob.userNum → SoundRun ops glob := by
  induction ops with
  | nil => exact fun glob few _ => few
  | cons op rest ih =>
      intro glob few admissible
      cases op with
      | add =>
          obtain ⟨two, later⟩ := admissible
          exact ⟨few, .inl (add_entered two), ih _ (show glob.userNum + 1 ≤ 10 by omega) later⟩
      | frame frame =>
          obtain ⟨empty, room, later⟩ := admissible
          exact ⟨few, .inl (frame_entered empty glob),
            ih (storeFrame frame.str frame.p glob) room later⟩
      | list => exact ⟨few, ⟨listed glob, rfl⟩, ih glob few admissible⟩

theorem SoundRun.few {ops : List Operation} {glob : Globals} (sound : SoundRun ops glob) :
    glob.userNum ≤ 10 := by
  cases ops with
  | nil => exact sound
  | cons op rest => exact sound.1

/-- A state for every initial content of the table, with `n` users and nothing
stored behind them. -/
structure Fresh (n : Nat) (glob : Memory → Globals) : Prop where
  count : ∀ table, (glob table).userNum = n
  behind : ∀ table a, sizeofUserDate * n ≤ a → (glob table).userDate a = table a

theorem Fresh.next {n row : Nat} {before after : Memory → Globals} (fresh : Fresh n before)
    (near : row ≤ n) {record : List FieldValue} (fits : FieldsFit record)
    (counted : ∀ table, (after table).userNum = (before table).userNum + 1)
    (stores : ∀ table, (after table).userDate = storeFields (before table).userDate row record) :
    Fresh (n + 1) after where
  count := by
    intro table
    rw [counted, fresh.count]
  behind := by
    intro table a beyond
    unfold sizeofUserDate at beyond
    rw [stores, storeFields_beyond fits (by unfold sizeofUserDate; omega)]
    apply fresh.behind
    unfold sizeofUserDate
    omega

/-- A record stored in another row than the next one is not entered, whatever
the table held there. -/
theorem Fresh.not_entered {n row : Nat} {before after : Memory → Globals} (fresh : Fresh n before)
    (apart : row ≠ n) {record : List FieldValue} (fits : FieldsFit record) {value : FieldValue}
    (among : value ∈ record) (nonempty : 0 < value.count)
    (stores : ∀ table, (after table).userDate = storeFields (before table).userDate row record) :
    ¬ ∀ table, Entered record (before table) (after table) := by
  intro entered
  have size := fits value among
  have place : 0 < value.field.size := by omega
  have own : ∀ table : Memory, table (fieldAddress n value.field 0) =
      storeFields (before table).userDate n record (fieldAddress n value.field 0) := by
    intro table
    have stored := (entered table).stored value.field 0 place
    rw [fresh.count, stores, storeFields_other_row apart fits place,
      fresh.behind table _ (fieldAddress_row n place).1] at stored
    exact stored
  have same := storeFields_written n among nonempty (before fun _ => 0).userDate
    (before fun _ => 1).userDate
  rw [← own, ← own] at same
  exact absurd same (by decide)

/-- A step that counts a user has not refused it. -/
theorem entered_of_counted {record : List FieldValue} {before after : Globals}
    (sound : Entered record before after ∨ Refused before after)
    (counted : after.userNum = before.userNum + 1) : Entered record before after := by
  rcases sound with entered | refused
  · exact entered
  · exact absurd (counted.symm.trans refused.2) (Nat.succ_ne_self _)

theorem admissible_of_soundRun (ops : List Operation) :
    ∀ (n : Nat) (glob : Memory → Globals), 2 ≤ n → Fresh n glob →
      (∀ table, SoundRun ops (glob table)) → Admissible ops n := by
  induction ops with
  | nil => exact fun _ _ _ _ _ => trivial
  | cons op rest ih =>
      intro n glob two fresh sound
      cases op with
      | add =>
          have entered : ∀ table, Entered addRecord (glob table) (addUser (glob table)) :=
            fun table => entered_of_counted (sound table).2.1 rfl
          have here : n = 2 := by
            by_contra other
            exact fresh.not_entered (fun same => other same.symm) addRecord_fits
              List.mem_cons_self (by decide) (fun table => addUser_userDate _) entered
          have next : Fresh (n + 1) fun table => addUser (glob table) :=
            fresh.next two addRecord_fits (fun _ => rfl) (fun table => addUser_userDate _)
          exact ⟨here, ih (n + 1) _ (by omega) next fun table => (sound table).2.2⟩
      | frame frame =>
          have entered : ∀ table, Entered frame.record (glob table)
              (storeFrame frame.str frame.p (glob table)) :=
            fun table => entered_of_counted (sound table).2.1 rfl
          have empty : frame.Empty := by
            by_contra full
            rw [AcceptedFrame.Empty] at full
            push Not at full
            obtain ⟨key, member, size⟩ := full
            exact fresh.not_entered (by omega) frame.record_fits (List.mem_map_of_mem member)
              (by dsimp only; omega) (fun table => storeFrame_userDate frame _) entered
          have next : Fresh (n + 1) fun table => storeFrame frame.str frame.p (glob table) :=
            fresh.next (Nat.zero_le n) frame.record_fits (fun _ => rfl)
              (fun table => storeFrame_userDate frame _)
          have room : n + 1 ≤ 10 := by
            rw [← next.count fun _ => 0]
            exact (sound fun _ => 0).2.2.few
          exact ⟨empty, room, ih (n + 1) _ (by omega) next fun table => (sound table).2.2⟩
      | list => exact ih n glob two fresh fun table => (sound table).2.2

theorem builtinUsers_beyond (table : Memory) {a : Nat} (behind : sizeofUserDate * 2 ≤ a) :
    builtinUsers table a = table a := by
  unfold sizeofUserDate at behind
  simp only [builtinUsers, store, Library.Copy.copy_apply, fieldAddress, sizeofUserDate,
    Field.offset]
  rw [if_neg (by omega), if_neg (by omega), if_neg (by omega), if_neg (by omega)]

/-- From the two built-in users on, every step is sound exactly when `add` comes
first and no frame stores anything. -/
theorem user_table_sound_iff (ops : List Operation) (faceFlag userQuanFlag : Nat) :
    (∀ table, SoundRun ops ⟨builtinUsers table, 2, faceFlag, userQuanFlag⟩) ↔
      Admissible ops 2 := by
  constructor
  · intro sound
    have fresh : Fresh 2 fun table => ⟨builtinUsers table, 2, faceFlag, userQuanFlag⟩ :=
      ⟨fun _ => rfl, fun table _ behind => builtinUsers_beyond table behind⟩
    exact admissible_of_soundRun ops 2 _ (Nat.le_refl 2) fresh sound
  · intro admissible table
    exact soundRun_of_admissible ops _ (show 2 ≤ 10 by decide) admissible

/-- The second `add` stores its user where the first one did. -/
theorem second_add_unsound :
    ¬ SoundRun [.add, .add] ⟨builtinUsers fun _ => 0, 2, 0, 0⟩ := by
  rintro ⟨-, -, -, second | refused, -⟩
  · exact absurd (second.stored .id 0 (by decide)) (by decide +kernel)
  · exact absurd refused.2 (by decide)

end KyokaMirror.Json
