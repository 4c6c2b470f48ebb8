import KyokaMirror.Json.Tokens

set_option autoImplicit false

namespace KyokaMirror.Json

open Users

/-- Where a token lies in the text. -/
structure Extent where
  start : Nat
  length : Nat
  deriving DecidableEq, Repr

def Extent.token (extent : Extent) (type : TokenType) : Token :=
  ⟨type, extent.start, extent.start + extent.length⟩

def Extent.text (extent : Extent) (str : Memory) : Memory := fun k => str (extent.start + k)

def Extent.bytes (extent : Extent) (str : Memory) : List UInt8 :=
  (List.range extent.length).map (extent.text str)

/- A document with the extents of its parts. The quotes of a string do not
belong to its extent, the brackets of an array or an object do. -/

mutual

inductive Value where
  | string (extent : Extent)
  | primitive (extent : Extent)
  | array (extent : Extent) (items : Items)
  | object (extent : Extent) (members : Members)

inductive Items where
  | nil
  | cons (value : Value) (rest : Items)

inductive Members where
  | nil
  | cons (key : Extent) (value : Value) (rest : Members)

end

/-- Induction along the members of one object. -/
@[elab_as_elim] theorem Members.along {motive : Members → Prop} (nil : motive .nil)
    (cons : ∀ key value rest, motive rest → motive (.cons key value rest)) :
    ∀ members, motive members
  | .nil => nil
  | .cons key value rest => cons key value rest (Members.along nil cons rest)

def Value.extent : Value → Extent
  | .string extent => extent
  | .primitive extent => extent
  | .array extent _ => extent
  | .object extent _ => extent

def Value.type : Value → TokenType
  | .string _ => .string
  | .primitive _ => .primitive
  | .array _ _ => .array
  | .object _ _ => .object

def Value.token (value : Value) : Token := value.extent.token value.type

mutual

/-- The tokens behind the value's own. -/
def Value.inner : Value → List Token
  | .string _ => []
  | .primitive _ => []
  | .array _ items => items.tokens
  | .object _ members => members.tokens

def Items.tokens : Items → List Token
  | .nil => []
  | .cons value rest => value.token :: value.inner ++ rest.tokens

def Members.tokens : Members → List Token
  | .nil => []
  | .cons key value rest => key.token .string :: value.token :: value.inner ++ rest.tokens

end

/-- A text whose value is an object. -/
structure Document where
  extent : Extent
  members : Members

def Document.tokens (doc : Document) : List Token := doc.extent.token .object :: doc.members.tokens

/-- What `jsmn_parse` returns for the text; the rest of `t` keeps its initial
zeros. -/
def Document.parsed (doc : Document) : Parsed where
  res := doc.tokens.length
  t := fun i => doc.tokens.getD i ⟨.undefined, 0, 0⟩

/-- The field that a name stands for. -/
def nameField (name : List UInt8) : Option Field :=
  if name = ascii "id" then some .id
  else if name = ascii "account" then some .name
  else if name = ascii "psw" then some .psw
  else none

/-- The positions of the keys among the tokens, the first one at `i`. -/
def Members.keys : Members → Nat → List Nat
  | .nil, _ => []
  | .cons _ value rest, i => i :: rest.keys (i + 2 + value.inner.length)

/-- The members with one of the three names. -/
def Members.named (str : Memory) : Members → List (Field × Extent)
  | .nil => []
  | .cons key value rest =>
      match nameField (key.bytes str) with
      | some field => (field, value.extent) :: rest.named str
      | none => rest.named str

/-- The value of the last member of the field's name. -/
def lastValue (named : List (Field × Extent)) (field : Field) : Option Extent :=
  ((named.filter fun member => member.1 = field).getLast?).map Prod.snd

/-- The last value of each name, cut to its field. -/
def lastMembers (named : List (Field × Extent)) : List (Field × Extent) :=
  [Field.id, .name, .psw].filterMap fun field =>
    (lastValue named field).map fun value => (field, ⟨value.start, min value.length field.size⟩)

/-- A value goes to its field of the first user. -/
def storeValue (str : Memory) (table : Memory) (member : Field × Extent) : Memory :=
  store table 0 member.1 (member.2.text str) member.2.length

/-- What the table is to become. -/
def reference (str : Memory) (doc : Document) (table : Memory) : Memory :=
  (lastMembers (doc.members.named str)).foldl (storeValue str) table

theorem strncmp_eq_zero_iff (a b : Memory) (n : Nat) (printable : ∀ k < n, b k ≠ 0) :
    strncmp a b n = 0 ↔ ∀ k < n, a k = b k := by
  induction n generalizing a b with
  | zero => simp [strncmp]
  | succ n ih =>
      rw [strncmp, Nat.forall_lt_succ_left']
      by_cases same : a 0 = b 0
      · have nonzero : a 0 ≠ 0 := same ▸ printable 0 (Nat.succ_pos n)
        rw [if_neg (not_not.mpr same), if_neg nonzero,
          ih _ _ fun k inside => printable (k + 1) (Nat.succ_lt_succ inside)]
        exact (and_iff_right same).symm
      · rw [if_pos same]
        constructor
        · intro zero
          exact absurd (UInt8.toNat_inj.mp (by omega)) same
        · rintro ⟨first, -⟩
          exact absurd first same

theorem Extent.bytes_eq_iff (extent : Extent) (str : Memory) (key : String) :
    extent.bytes str = ascii key ↔
      extent.length = (ascii key).length ∧
        ∀ k < (ascii key).length, extent.text str k = literal key k := by
  constructor
  · intro same
    have size : extent.length = (ascii key).length := by
      rw [← same, Extent.bytes, List.length_map, List.length_range]
    refine ⟨size, ?_⟩
    intro k inside
    rw [literal, ← same, List.getD_eq_getElem?_getD, Extent.bytes, List.getElem?_map,
      List.getElem?_range (by omega)]
    rfl
  · rintro ⟨size, same⟩
    apply List.ext_getElem
    · rw [Extent.bytes, List.length_map, List.length_range, size]
    · intro k inside within
      simp only [Extent.bytes, List.getElem_map, List.getElem_range]
      rw [same k within, literal, List.getD_eq_getElem?_getD, List.getElem?_eq_getElem within]
      rfl

theorem Extent.token_size (extent : Extent) (type : TokenType) :
    (extent.token type).size = extent.length := by
  show ((extent.start : Int) + extent.length) - extent.start = extent.length
  omega

theorem fetchKey1_eq_zero_iff (str : Memory) (extent : Extent) (type : TokenType) (key : String)
    (printable : ∀ k < (ascii key).length, literal key k ≠ 0) :
    fetchKey1 str (extent.token type) key = 0 ↔ type = .string ∧ extent.bytes str = ascii key := by
  rw [fetchKey1, extent.token_size, Extent.bytes_eq_iff]
  have same : (extent.token type).text str = extent.text str := rfl
  split
  · rename_i fits
    have kind : type = .string := fits.1
    have size : extent.length = (ascii key).length := by omega
    rw [same, strncmp_eq_zero_iff _ _ _ printable, and_iff_right kind, and_iff_right size]
  · rename_i misses
    constructor
    · intro zero
      exact absurd zero (by decide)
    · rintro ⟨kind, size, -⟩
      exact absurd ⟨kind, by omega⟩ misses

/-- The loop takes a token for a key exactly when it is a string with one of the
three names. -/
theorem memberField_token (str : Memory) (extent : Extent) (type : TokenType) :
    memberField str (extent.token type) =
      if type = .string then nameField (extent.bytes str) else none := by
  unfold memberField nameField
  simp only [fetchKey1_eq_zero_iff str extent type "id" (by decide),
    fetchKey1_eq_zero_iff str extent type "account" (by decide),
    fetchKey1_eq_zero_iff str extent type "psw" (by decide)]
  by_cases kind : type = .string
  · simp only [kind, true_and, if_true]
  · simp only [kind, false_and, if_false]

/-- The keys that the loop takes, with their positions. -/
def takenFrom (str : Memory) (p : Parsed) : Nat → Nat → List (Nat × Field)
  | 0, _ => []
  | fuel + 1, i =>
      if (i : Int) < p.res then
        match memberField str (p.t i) with
        | some field => (i, field) :: takenFrom str p fuel (i + 2)
        | none => takenFrom str p fuel (i + 1)
      else []

def taken (str : Memory) (p : Parsed) : List (Nat × Field) := takenFrom str p p.res.toNat 1

def storeTaken (str : Memory) (t : Nat → Token) (table : Memory) (key : Nat × Field) : Memory :=
  let value := t (key.1 + 1)
  store table 0 key.2 (value.text str) value.size.toNat

/-- The loop does nothing to the table but the stores of the keys it takes. -/
theorem tokenLoop_userDate (str : Memory) (p : Parsed) (fuel : Nat) (s : TokenScan) :
    (tokenLoop str p fuel s).userDate =
      (takenFrom str p fuel s.i).foldl (storeTaken str p.t) s.userDate := by
  induction fuel generalizing s with
  | zero => rfl
  | succ fuel ih =>
      rw [tokenLoop, takenFrom]
      by_cases inside : (s.i : Int) < p.res
      · rw [if_pos inside, if_pos inside, ih]
        cases key : memberField str (p.t s.i) with
        | some field => rw [tokenBody_of_some key]; rfl
        | none => rw [tokenBody_of_none key]
      · rw [if_neg inside, if_neg inside]
        rfl

theorem scanTokens_userDate (str : Memory) (p : Parsed) (table : Memory) :
    (scanTokens str p table).userDate = (taken str p).foldl (storeTaken str p.t) table :=
  tokenLoop_userDate str p p.res.toNat ⟨1, table, [], []⟩

/-- The same on the list of the tokens from `i` on. -/
def walk (str : Memory) : List Token → Nat → List (Nat × Field)
  | [], _ => []
  | [key], i =>
      match memberField str key with
      | some field => [(i, field)]
      | none => []
  | key :: value :: rest, i =>
      match memberField str key with
      | some field => (i, field) :: walk str rest (i + 2)
      | none => walk str (value :: rest) (i + 1)

theorem walk_cons_none {str : Memory} {key : Token} (other : memberField str key = none)
    (rest : List Token) (i : Nat) : walk str (key :: rest) i = walk str rest (i + 1) := by
  cases rest with
  | nil => simp only [walk, other]
  | cons value more => rw [walk, other]

theorem walk_cons_some {str : Memory} {key : Token} {field : Field}
    (named : memberField str key = some field) (rest : List Token) (i : Nat) :
    walk str (key :: rest) i = (i, field) :: walk str (rest.drop 1) (i + 2) := by
  cases rest with
  | nil => simp only [walk, named, List.drop_nil]
  | cons value more => rw [walk, named, List.drop_one, List.tail_cons]

theorem takenFrom_eq_walk (str : Memory) (doc : Document) (fuel : Nat) :
    ∀ i, doc.tokens.length ≤ i + fuel →
      takenFrom str doc.parsed fuel i = walk str (doc.tokens.drop i) i := by
  induction fuel with
  | zero =>
      intro i enough
      rw [List.drop_eq_nil_of_le (by omega), takenFrom, walk]
  | succ fuel ih =>
      intro i enough
      rw [takenFrom]
      by_cases inside : i < doc.tokens.length
      · have here : doc.parsed.t i = doc.tokens[i] := by
          show doc.tokens.getD i _ = _
          rw [List.getD_eq_getElem?_getD, List.getElem?_eq_getElem inside]
          rfl
        have below : (i : Int) < doc.parsed.res := Int.ofNat_lt.mpr inside
        rw [if_pos below, here, List.drop_eq_getElem_cons inside]
        cases key : memberField str doc.tokens[i] with
        | some field =>
            rw [walk_cons_some key, List.drop_drop]
            exact congrArg _ (ih (i + 2) (by omega))
        | none =>
            rw [walk_cons_none key]
            exact ih (i + 1) (by omega)
      · have beyond : ¬ (i : Int) < doc.parsed.res := fun early => inside (Int.ofNat_lt.mp early)
        rw [if_neg beyond, List.drop_eq_nil_of_le (by omega), walk]

theorem taken_eq_walk (str : Memory) (doc : Document) :
    taken str doc.parsed = walk str doc.members.tokens 1 :=
  takenFrom_eq_walk str doc doc.tokens.length 1 (by omega)

end KyokaMirror.Json
