import KyokaMirror.Json.Document
import Mathlib.Data.List.Induction

set_option autoImplicit false

namespace KyokaMirror.Json

open Users

/-- No token of the list acts as a key. -/
def Silent (str : Memory) (tokens : List Token) : Prop :=
  ∀ token ∈ tokens, memberField str token = none

/-- Inside the values no string has one of the three names, and a value that
stands behind another key is no such string itself. -/
def Members.Quiet (str : Memory) : Members → Prop
  | .nil => True
  | .cons key value rest =>
      Silent str value.inner ∧
        (nameField (key.bytes str) = none → memberField str value.token = none) ∧ rest.Quiet str

/-- The named keys with their positions, the first key at `i`. -/
def Members.takenAt (str : Memory) : Members → Nat → List (Nat × Field)
  | .nil, _ => []
  | .cons key value rest, i =>
      let later := rest.takenAt str (i + 2 + value.inner.length)
      match nameField (key.bytes str) with
      | some field => (i, field) :: later
      | none => later

theorem walk_silent {str : Memory} {tokens : List Token} (silent : Silent str tokens)
    (rest : List Token) (i : Nat) :
    walk str (tokens ++ rest) i = walk str rest (i + tokens.length) := by
  induction tokens generalizing i with
  | nil => rfl
  | cons token more ih =>
      rw [List.cons_append, walk_cons_none (silent token List.mem_cons_self),
        ih fun other member => silent other (List.mem_cons_of_mem _ member), List.length_cons]
      congr 1
      omega

/-- Otherwise one of the tokens is taken. -/
theorem walk_loud {str : Memory} {tokens : List Token} (loud : ¬ Silent str tokens)
    (rest : List Token) (i : Nat) :
    ∃ key ∈ walk str (tokens ++ rest) i, i ≤ key.1 ∧ key.1 < i + tokens.length := by
  induction tokens generalizing i with
  | nil => exact absurd (fun _ member => absurd member List.not_mem_nil) loud
  | cons token more ih =>
      rw [List.cons_append, List.length_cons]
      cases named : memberField str token with
      | some field =>
          rw [walk_cons_some named]
          exact ⟨(i, field), List.mem_cons_self, Nat.le_refl i, by dsimp only; omega⟩
      | none =>
          have later : ¬ Silent str more := by
            intro silent
            apply loud
            intro other member
            rcases List.mem_cons.mp member with rfl | inside
            · exact named
            · exact silent other inside
          obtain ⟨key, member, lower, upper⟩ := ih later (i + 1)
          rw [walk_cons_none named]
          exact ⟨key, member, by omega, by omega⟩

theorem le_of_mem_walk {str : Memory} {tokens : List Token} {i : Nat} {key : Nat × Field}
    (member : key ∈ walk str tokens i) : i ≤ key.1 := by
  induction tokens, i using walk.induct str with
  | case1 i => cases member
  | case2 token i field named =>
      rw [walk_cons_some named] at member
      obtain rfl := List.mem_singleton.mp member
      exact Nat.le_refl i
  | case3 token i other =>
      rw [walk_cons_none other] at member
      cases member
  | case4 token value rest i field named ih =>
      rw [walk_cons_some named] at member
      rcases List.mem_cons.mp member with rfl | later
      · exact Nat.le_refl i
      · have := ih later
        omega
  | case5 token value rest i other ih =>
      rw [walk_cons_none other] at member
      have := ih member
      omega

theorem memberField_key (str : Memory) (key : Extent) :
    memberField str (key.token .string) = nameField (key.bytes str) := by
  rw [memberField_token, if_pos rfl]

/-- Behind a top-level key the loop goes on with the tokens that it has not
skipped. -/
theorem walk_member (str : Memory) (key : Extent) (value : Value) (rest : Members) (i : Nat) :
    walk str (Members.cons key value rest).tokens i =
      match nameField (key.bytes str) with
      | some field => (i, field) :: walk str (value.inner ++ rest.tokens) (i + 2)
      | none => walk str (value.token :: value.inner ++ rest.tokens) (i + 1) := by
  rw [Members.tokens]
  cases named : nameField (key.bytes str) with
  | some field =>
      rw [List.cons_append, List.cons_append, walk_cons_some ((memberField_key str key).trans named)]
      rfl
  | none => rw [List.cons_append, walk_cons_none ((memberField_key str key).trans named)]

theorem walk_quiet (str : Memory) (members : Members) :
    ∀ i, members.Quiet str → walk str members.tokens i = members.takenAt str i := by
  induction members using Members.along with
  | nil => intro i _; rfl
  | cons key value rest ih =>
      rintro i ⟨silent, other, quiet⟩
      rw [walk_member, Members.takenAt]
      cases named : nameField (key.bytes str) with
      | some field =>
          dsimp only
          rw [walk_silent silent, ih _ quiet]
      | none =>
          dsimp only
          rw [List.cons_append, walk_cons_none (other named), walk_silent silent, ih _ quiet]

theorem Members.le_of_mem_keys {members : Members} {i j : Nat} (member : j ∈ members.keys i) :
    i ≤ j := by
  induction members using Members.along generalizing i with
  | nil => cases member
  | cons key value rest ih =>
      rcases List.mem_cons.mp member with rfl | later
      · exact Nat.le_refl j
      · have := ih later
        omega

theorem takenAt_keys {str : Memory} {members : Members} {i : Nat} {key : Nat × Field}
    (member : key ∈ members.takenAt str i) : key.1 ∈ members.keys i := by
  induction members using Members.along generalizing i with
  | nil => cases member
  | cons name value rest ih =>
      rw [Members.keys]
      rw [Members.takenAt] at member
      cases named : nameField (name.bytes str) with
      | some field =>
          rw [named] at member
          rcases List.mem_cons.mp member with rfl | later
          · exact List.mem_cons_self
          · exact List.mem_cons_of_mem _ (ih later)
      | none =>
          rw [named] at member
          exact List.mem_cons_of_mem _ (ih member)

/-- A token that is taken before the next key would be none of the keys. -/
theorem silent_of_keys {str : Memory} {tokens : List Token} {rest : Members} {i j next : Nat}
    (after : i < j) (room : j + tokens.length ≤ next)
    (all : ∀ key ∈ walk str (tokens ++ rest.tokens) j, key.1 ∈ i :: rest.keys next) :
    Silent str tokens := by
  by_contra loud
  obtain ⟨key, member, lower, upper⟩ := walk_loud loud rest.tokens j
  rcases List.mem_cons.mp (all key member) with here | later
  · omega
  · have := Members.le_of_mem_keys later
    omega

theorem keys_of_walk {str : Memory} {rest : Members} {i next : Nat} (after : i < next)
    (all : ∀ key ∈ walk str rest.tokens next, key.1 ∈ i :: rest.keys next) :
    ∀ key ∈ walk str rest.tokens next, key.1 ∈ rest.keys next := by
  intro key member
  have lower := le_of_mem_walk member
  rcases List.mem_cons.mp (all key member) with here | later
  · omega
  · exact later

/-- Only top-level keys act as keys exactly when the values are quiet. -/
theorem walk_keys_iff (str : Memory) (members : Members) :
    ∀ i, (∀ key ∈ walk str members.tokens i, key.1 ∈ members.keys i) ↔ members.Quiet str := by
  induction members using Members.along with
  | nil => exact fun i => ⟨fun _ => trivial, fun _ key member => absurd member List.not_mem_nil⟩
  | cons name value rest ih =>
      intro i
      constructor
      · intro all
        rw [walk_member, Members.keys] at all
        cases named : nameField (name.bytes str) with
        | some field =>
            rw [named] at all
            have among : ∀ key ∈ walk str (value.inner ++ rest.tokens) (i + 2),
                key.1 ∈ i :: rest.keys (i + 2 + value.inner.length) :=
              fun key member => all key (List.mem_cons_of_mem _ member)
            have inner : Silent str value.inner :=
              silent_of_keys (by omega) (by omega) among
            rw [walk_silent inner] at among
            refine ⟨inner, fun none => absurd (named.symm.trans none) (by simp), ?_⟩
            exact (ih _).mp (keys_of_walk (by omega) among)
        | none =>
            rw [named] at all
            dsimp only at all
            have both : Silent str (value.token :: value.inner) :=
              silent_of_keys (by omega) (by rw [List.length_cons]; omega) all
            rw [walk_silent both, List.length_cons,
              show i + 1 + (value.inner.length + 1) = i + 2 + value.inner.length by omega] at all
            refine ⟨fun token member => both token (List.mem_cons_of_mem _ member),
              fun _ => both _ List.mem_cons_self, ?_⟩
            exact (ih _).mp (keys_of_walk (by omega) all)
      · intro quiet key member
        rw [walk_quiet str _ i quiet] at member
        exact takenAt_keys member

/-- A value with its field. -/
def fieldValue (str : Memory) (member : Field × Extent) : FieldValue :=
  ⟨member.1, member.2.text str, member.2.length⟩

theorem storeValues_eq (str : Memory) (values : List (Field × Extent)) (table : Memory) :
    values.foldl (storeValue str) table = storeFields table 0 (values.map (fieldValue str)) := by
  rw [storeFields, List.foldl_map]
  rfl

theorem storeValues_untouched (str : Memory) (values : List (Field × Extent)) {a : Nat}
    (apart : ∀ member ∈ values, ∀ k < member.2.length, a ≠ fieldAddress 0 member.1 k)
    (table : Memory) : values.foldl (storeValue str) table a = table a := by
  rw [storeValues_eq]
  exact storeFields_untouched 0 _ (List.forall_mem_map.mpr apart) table

/-- Every value fits its field. -/
def Fits (values : List (Field × Extent)) : Prop :=
  ∀ member ∈ values, member.2.length ≤ member.1.size

theorem storeValues_last (str : Memory) {before after : List (Field × Extent)} {field : Field}
    {value : Extent} (fits : Fits (before ++ (field, value) :: after))
    (last : ∀ member ∈ after, member.1 ≠ field) {k : Nat} (inside : k < value.length)
    (table : Memory) :
    (before ++ (field, value) :: after).foldl (storeValue str) table (fieldAddress 0 field k) =
      value.text str k := by
  have size : value.length ≤ field.size := fits (field, value) (by simp)
  rw [List.foldl_append, List.foldl_cons, storeValues_untouched, storeValue]
  · exact store_inside _ _ _ _ inside
  · intro member among m within same
    have room := fits member (List.mem_append_right _ (List.mem_cons_of_mem _ among))
    have equal := (fieldAddress_inj (by omega) (by omega) same).1
    exact last member among equal.symm

/-- Of values for different fields each has its own bytes of the table. -/
theorem storeValues_field (str : Memory) {values : List (Field × Extent)} (fits : Fits values)
    (distinct : values.Pairwise fun first second => first.1 ≠ second.1) {field : Field}
    {value : Extent} (among : (field, value) ∈ values) {k : Nat} (inside : k < field.size)
    (table : Memory) :
    values.foldl (storeValue str) table (fieldAddress 0 field k) =
      if k < value.length then value.text str k else table (fieldAddress 0 field k) := by
  obtain ⟨before, after, rfl⟩ := List.append_of_mem among
  obtain ⟨-, behind, apart⟩ := List.pairwise_append.mp distinct
  have later := (List.pairwise_cons.mp behind).1
  split
  · rename_i within
    exact storeValues_last str fits (fun member last => (later member last).symm) within table
  · rename_i beyond
    apply storeValues_untouched
    intro member place m within meets
    have room := fits member place
    obtain ⟨same, rfl⟩ := fieldAddress_inj inside (by omega) meets
    rcases List.mem_append.mp place with early | rest
    · exact apart member early (field, value) List.mem_cons_self same.symm
    · rcases List.mem_cons.mp rest with rfl | late
      · exact beyond within
      · exact later member late same

theorem lastValue_split {named : List (Field × Extent)} {field : Field} {value : Extent}
    (found : lastValue named field = some value) :
    ∃ before after, named = before ++ (field, value) :: after ∧
      ∀ member ∈ after, member.1 ≠ field := by
  induction named using List.reverseRecOn with
  | nil => cases found
  | append_singleton front member ih =>
      rw [lastValue, List.filter_append] at found
      by_cases same : member.1 = field
      · rw [List.filter_cons_of_pos (by simp [same]), List.filter_nil, List.getLast?_concat] at found
        obtain rfl : member.2 = value := Option.some.inj found
        exact ⟨front, [], by rw [← same], fun _ among => absurd among List.not_mem_nil⟩
      · rw [List.filter_cons_of_neg (by simp [same]), List.filter_nil, List.append_nil] at found
        obtain ⟨before, after, rfl, last⟩ := ih found
        refine ⟨before, after ++ [member], by simp, ?_⟩
        intro other among
        rcases List.mem_append.mp among with early | final
        · exact last other early
        · obtain rfl := List.mem_singleton.mp final
          exact same

theorem lastValue_none {named : List (Field × Extent)} {field : Field}
    (absent : lastValue named field = none) : ∀ member ∈ named, member.1 ≠ field := by
  rw [lastValue, Option.map_eq_none_iff, List.getLast?_eq_none_iff, List.filter_eq_nil_iff] at absent
  intro member among same
  exact absent member among (by simp [same])

theorem mem_lastMembers_iff (named : List (Field × Extent)) (field : Field) (value : Extent) :
    (field, value) ∈ lastMembers named ↔
      field ∈ [Field.id, .name, .psw] ∧ ∃ last, lastValue named field = some last ∧
        value = ⟨last.start, min last.length field.size⟩ := by
  rw [lastMembers, List.mem_filterMap]
  constructor
  · rintro ⟨other, among, found⟩
    obtain ⟨last, known, same⟩ := Option.map_eq_some_iff.mp found
    obtain ⟨rfl, rfl⟩ := Prod.mk.inj same
    exact ⟨among, last, known, rfl⟩
  · rintro ⟨among, last, known, rfl⟩
    exact ⟨field, among, by rw [known]; rfl⟩

theorem lastMembers_fits (named : List (Field × Extent)) : Fits (lastMembers named) := by
  rintro ⟨field, value⟩ among
  obtain ⟨-, last, -, rfl⟩ := (mem_lastMembers_iff named field value).mp among
  exact Nat.min_le_right _ _

theorem lastMembers_pairwise (named : List (Field × Extent)) :
    (lastMembers named).Pairwise fun first second => first.1 ≠ second.1 := by
  have distinct : [Field.id, .name, .psw].Pairwise (· ≠ ·) := by decide
  rw [lastMembers]
  refine List.Pairwise.filterMap _ ?_ distinct
  intro first second apart member left other right same
  obtain ⟨_, _, rfl⟩ := Option.map_eq_some_iff.mp left
  obtain ⟨_, _, rfl⟩ := Option.map_eq_some_iff.mp right
  exact apart same

theorem reference_inside {str : Memory} {named : List (Field × Extent)} {field : Field}
    (three : field ∈ [Field.id, .name, .psw]) {last : Extent}
    (known : lastValue named field = some last) {k : Nat} (inside : k < last.length)
    (within : k < field.size) (table : Memory) :
    (lastMembers named).foldl (storeValue str) table (fieldAddress 0 field k) =
      last.text str k := by
  have among := (mem_lastMembers_iff named field _).mpr ⟨three, last, known, rfl⟩
  rw [storeValues_field str (lastMembers_fits named) (lastMembers_pairwise named) among within,
    if_pos (by dsimp only; omega)]
  rfl

/-- The reference writes nothing behind the last value. -/
theorem reference_behind {str : Memory} {named : List (Field × Extent)} {field : Field}
    {last : Extent} (known : lastValue named field = some last) (room : last.length < field.size)
    (table : Memory) :
    (lastMembers named).foldl (storeValue str) table (fieldAddress 0 field last.length) =
      table (fieldAddress 0 field last.length) := by
  apply storeValues_untouched
  rintro ⟨other, value⟩ final k inside meets
  have size := lastMembers_fits named _ final
  dsimp only at size inside meets
  obtain ⟨rfl, rfl⟩ := fieldAddress_inj room (by omega) meets
  obtain ⟨-, own, found, rfl⟩ := (mem_lastMembers_iff named field value).mp final
  obtain rfl := Option.some.inj (known.symm.trans found)
  dsimp only at inside
  omega

/-- No value is longer than the last one of its name. -/
def LastLongest (named : List (Field × Extent)) : Prop :=
  ∀ member ∈ named, ∀ last, lastValue named member.1 = some last →
    member.2.length ≤ last.length

/-- Values that fit their fields are stored as they should exactly when the last
one of a name covers the earlier ones. -/
theorem storeValues_reference_iff (str : Memory) {named : List (Field × Extent)}
    (three : ∀ member ∈ named, member.1 ∈ [Field.id, .name, .psw]) (fits : Fits named) :
    (∀ table, named.foldl (storeValue str) table =
      (lastMembers named).foldl (storeValue str) table) ↔ LastLongest named := by
  constructor
  · intro same member among last known
    by_contra longer
    -- The byte behind the last value is written, but not by it.
    have size := fits member among
    have equal := storeFields_written 0 (List.mem_map_of_mem among)
      (show last.length < (fieldValue str member).count by show _ < member.2.length; omega)
      (fun _ => 0) (fun _ => 1)
    rw [← storeValues_eq, ← storeValues_eq, same, same] at equal
    change (lastMembers named).foldl (storeValue str) _ (fieldAddress 0 member.1 last.length) =
      (lastMembers named).foldl (storeValue str) _ (fieldAddress 0 member.1 last.length) at equal
    rw [reference_behind known (by omega), reference_behind known (by omega)] at equal
    exact absurd equal (by decide)
  · intro longest table
    funext a
    by_cases reached : ∃ member ∈ named, ∃ k < member.2.length, a = fieldAddress 0 member.1 k
    · obtain ⟨member, among, k, inside, rfl⟩ := reached
      have size := fits member among
      cases known : lastValue named member.1 with
      | none => exact absurd rfl (lastValue_none known member among)
      | some last =>
          have covered := longest member among last known
          rw [reference_inside (three member among) known (by omega) (by omega)]
          obtain ⟨before, after, split, final⟩ := lastValue_split known
          rw [split] at fits ⊢
          exact storeValues_last str fits final (by omega) table
    · have apart : ∀ member ∈ named, ∀ k < member.2.length, a ≠ fieldAddress 0 member.1 k :=
        fun member among k inside meets => reached ⟨member, among, k, inside, meets⟩
      rw [storeValues_untouched str named apart, storeValues_untouched]
      rintro ⟨field, value⟩ final k inside
      obtain ⟨-, last, known, rfl⟩ := (mem_lastMembers_iff named field value).mp final
      obtain ⟨before, after, split, -⟩ := lastValue_split known
      apply apart (field, last) (by rw [split]; simp) k
      dsimp only at inside ⊢
      omega

theorem named_three (str : Memory) (members : Members) :
    ∀ member ∈ members.named str, member.1 ∈ [Field.id, .name, .psw] := by
  induction members using Members.along with
  | nil => exact fun member among => absurd among List.not_mem_nil
  | cons key value rest ih =>
      intro member among
      rw [Members.named] at among
      cases name : nameField (key.bytes str) with
      | none =>
          rw [name] at among
          exact ih member among
      | some field =>
          rw [name] at among
          rcases List.mem_cons.mp among with rfl | later
          · unfold nameField at name
            split_ifs at name <;> cases name <;> simp
          · exact ih member later

/-- The value that the loop stores for a key. -/
def takenValue (t : Nat → Token) (key : Nat × Field) : Field × Extent :=
  (key.2, ⟨(t (key.1 + 1)).start.toNat, (t (key.1 + 1)).size.toNat⟩)

theorem takenAt_values (str : Memory) (doc : Document) (members : Members) :
    ∀ i, doc.tokens.drop i = members.tokens →
      (members.takenAt str i).map (takenValue doc.parsed.t) = members.named str := by
  induction members using Members.along with
  | nil => intro i _; rfl
  | cons key value rest ih =>
      intro i here
      rw [Members.tokens] at here
      have next : doc.parsed.t (i + 1) = value.token := by
        have second := congrArg (fun tokens => tokens[1]?) here
        simp only [List.getElem?_drop, List.cons_append, List.getElem?_cons_succ,
          List.getElem?_cons_zero] at second
        show doc.tokens.getD (i + 1) _ = _
        rw [List.getD_eq_getElem?_getD, second]
        rfl
      have later := ih (i + 2 + value.inner.length) (by
        rw [Nat.add_assoc, ← List.drop_drop, here, Nat.add_comm 2]
        simp)
      rw [Members.takenAt, Members.named]
      cases name : nameField (key.bytes str) with
      | some field =>
          dsimp only
          rw [List.map_cons, later, takenValue, next, Value.token, Extent.token_size]
          rfl
      | none => exact later

/-- The loop takes no string for a key but the top-level keys, keeps every store
within its field, and leaves the table as it is to become. -/
structure Exact (str : Memory) (doc : Document) : Prop where
  keys : ∀ key ∈ taken str doc.parsed, key.1 ∈ doc.members.keys 1
  confined : ∀ key ∈ taken str doc.parsed, (doc.parsed.t (key.1 + 1)).size ≤ key.2.size
  table : ∀ table, (scanTokens str doc.parsed table).userDate = reference str doc table

theorem taken_keys_iff (str : Memory) (doc : Document) :
    (∀ key ∈ taken str doc.parsed, key.1 ∈ doc.members.keys 1) ↔ doc.members.Quiet str := by
  rw [taken_eq_walk]
  exact walk_keys_iff str doc.members 1

theorem taken_values {str : Memory} {doc : Document} (quiet : doc.members.Quiet str) :
    (taken str doc.parsed).map (takenValue doc.parsed.t) = doc.members.named str := by
  rw [taken_eq_walk, walk_quiet str doc.members 1 quiet]
  exact takenAt_values str doc doc.members 1 rfl

theorem scanTokens_quiet {str : Memory} {doc : Document} (quiet : doc.members.Quiet str)
    (table : Memory) : (scanTokens str doc.parsed table).userDate =
      (doc.members.named str).foldl (storeValue str) table := by
  rw [scanTokens_userDate, ← taken_values quiet, List.foldl_map]
  rfl

/-- The extraction is exact precisely when the values are quiet, fit their
fields, and are nowhere longer than the last value of the same name. -/
theorem extraction_exact_iff (str : Memory) (doc : Document) :
    Exact str doc ↔ doc.members.Quiet str ∧ Fits (doc.members.named str) ∧
      LastLongest (doc.members.named str) := by
  have confined_iff : doc.members.Quiet str →
      ((∀ key ∈ taken str doc.parsed, (doc.parsed.t (key.1 + 1)).size ≤ key.2.size) ↔
        Fits (doc.members.named str)) := by
    intro quiet
    rw [Fits, ← taken_values quiet, List.forall_mem_map]
    simp only [takenValue, Int.toNat_le]
  have table_iff : doc.members.Quiet str → Fits (doc.members.named str) →
      ((∀ table, (scanTokens str doc.parsed table).userDate = reference str doc table) ↔
        LastLongest (doc.members.named str)) := by
    intro quiet fits
    simp only [scanTokens_quiet quiet]
    exact storeValues_reference_iff str (named_three str doc.members) fits
  constructor
  · rintro ⟨keys, confined, table⟩
    have quiet := (taken_keys_iff str doc).mp keys
    have fits := (confined_iff quiet).mp confined
    exact ⟨quiet, fits, (table_iff quiet fits).mp table⟩
  · rintro ⟨quiet, fits, longest⟩
    exact ⟨(taken_keys_iff str doc).mpr quiet, (confined_iff quiet).mpr fits,
      (table_iff quiet fits).mpr longest⟩

/-- The text `{"id":"7","x":"id","y":"z"}`. -/
def idAsValue : Document where
  extent := ⟨0, 27⟩
  members := .cons ⟨2, 2⟩ (.string ⟨7, 1⟩)
    (.cons ⟨11, 1⟩ (.string ⟨15, 2⟩) (.cons ⟨20, 1⟩ (.string ⟨24, 1⟩) .nil))

/-- The value `id` is taken for a key, and the next key is stored. -/
theorem value_acts_as_key :
    (scanTokens (literal "\x7b\"id\":\"7\",\"x\":\"id\",\"y\":\"z\"\x7d") idAsValue.parsed
        fun _ => 0).userDate (fieldAddress 0 .id 0) = 121 ∧
      ¬ Exact (literal "\x7b\"id\":\"7\",\"x\":\"id\",\"y\":\"z\"\x7d") idAsValue := by
  have stored : (scanTokens (literal "\x7b\"id\":\"7\",\"x\":\"id\",\"y\":\"z\"\x7d")
      idAsValue.parsed fun _ => 0).userDate (fieldAddress 0 .id 0) = 121 := by decide +kernel
  refine ⟨stored, ?_⟩
  intro whole
  rw [whole.table] at stored
  exact absurd stored (by decide +kernel)

end KyokaMirror.Json
