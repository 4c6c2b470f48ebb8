import KyokaMirror.Json.RoundTrip

set_option autoImplicit false

namespace KyokaMirror.Json

open Users
open Esp32 (Globals Row rowAt)

/-- One call of `rt_device_write`: the array that is passed, with the NUL of a
literal, and the number of bytes. -/
structure Write where
  source : List UInt8
  count : Nat
  deriving DecidableEq, Repr

/-- The bytes that are sent. What lies behind the array is not known. -/
def Write.bytes (behind : List UInt8 → Memory) (w : Write) : List UInt8 :=
  (List.range w.count).map fun k => (w.source[k]?).getD (behind w.source k)

def Write.Inside (w : Write) : Prop := w.count ≤ w.source.length

instance (w : Write) : Decidable w.Inside := inferInstanceAs (Decidable (_ ≤ _))

def literalWrite (text : String) (count : Nat) : Write := ⟨ascii text ++ [0], count⟩

def fieldWrite (bytes : List UInt8) (field : Field) : Write := ⟨bytes, field.size⟩

/-- The writes for one user; the separator depends on the users left. -/
def rowWrites (row : Row) (k : Nat) : List Write :=
  [literalWrite "\x7b\"id\":\"" 8, fieldWrite row.id .id,
    literalWrite "\",\"account\":\"" 14, fieldWrite row.name .name,
    literalWrite "\",\"psw\":\"" 10, fieldWrite row.psw .psw,
    literalWrite "\",\"pswSign\":\"True\"" 19,
    if k = 0 then literalWrite "\x7d" 2 else literalWrite "\x7d," 3]

/-- The loop `while (k)`. -/
def listWrites (glob : Globals) : Nat → List Write
  | 0 => []
  | k + 1 => rowWrites (rowAt glob.userDate (glob.userNum - (k + 1))) k ++ listWrites glob k

def listReply (glob : Globals) : List Write :=
  literalWrite "[" 3 :: listWrites glob glob.userNum ++ [literalWrite "]" 2]

def replyText (behind : List UInt8 → Memory) (glob : Globals) : List UInt8 :=
  (listReply glob).flatMap (Write.bytes behind)

def hexDigit (n : Nat) : UInt8 := UInt8.ofNat (if n < 10 then 48 + n else 87 + n)

def escape (c : UInt8) : List UInt8 :=
  if c = 34 ∨ c = 92 then [92, c]
  else if c < 32 then ascii "\\u00" ++ [hexDigit (c.toNat / 16), hexDigit (c.toNat % 16)]
  else [c]

def jsonString (value : List UInt8) : List UInt8 :=
  ascii "\"" ++ value.flatMap escape ++ ascii "\""

def jsonMember (name : String) (value : List UInt8) : List UInt8 :=
  jsonString (ascii name) ++ ascii ":" ++ jsonString value

def jsonObject (members : List (List UInt8)) : List UInt8 :=
  ascii "\x7b" ++ (ascii ",").intercalate members ++ ascii "\x7d"

def jsonArray (items : List (List UInt8)) : List UInt8 :=
  ascii "[" ++ (ascii ",").intercalate items ++ ascii "]"

/-- What the reply is to say of one user. -/
def userObject (row : Row) : List UInt8 :=
  jsonObject [jsonMember "id" (strip row.id), jsonMember "account" (strip row.name),
    jsonMember "psw" (strip row.psw), jsonMember "pswSign" (ascii "True")]

def userArray (glob : Globals) : List UInt8 :=
  jsonArray ((List.range glob.userNum).map fun row => userObject (rowAt glob.userDate row))

/-- No quote, backslash or control byte but NUL. -/
def Plain (bytes : List UInt8) : Prop := ∀ c ∈ bytes, c = 0 ∨ c ≠ 34 ∧ c ≠ 92 ∧ 32 ≤ c

structure PlainRow (row : Row) : Prop where
  id : Plain row.id
  name : Plain row.name
  psw : Plain row.psw

structure ListReplyOk (behind : List UInt8 → Memory) (glob : Globals) : Prop where
  text : strip (replyText behind glob) = userArray glob
  inside : ∀ w ∈ listReply glob, w.Inside

theorem Write.bytes_whole (behind : List UInt8 → Memory) {w : Write}
    (whole : w.count = w.source.length) : w.bytes behind = w.source := by
  rw [Write.bytes, whole]
  apply List.ext_getElem
  · rw [List.length_map, List.length_range]
  · intro k _ inside
    rw [List.getElem_map, List.getElem_range, List.getElem?_eq_getElem inside, Option.getD_some]

theorem strip_append (first second : List UInt8) :
    strip (first ++ second) = strip first ++ strip second := List.filter_append ..

theorem fieldBytes_length (table : Memory) (row : Nat) (field : Field) :
    (fieldBytes table row field).length = field.size := by
  rw [fieldBytes, List.length_map, List.length_range]

theorem escape_plain {c : UInt8} (plain : c ≠ 34 ∧ c ≠ 92 ∧ 32 ≤ c) : escape c = [c] := by
  rw [escape, if_neg (not_or.mpr ⟨plain.1, plain.2.1⟩), if_neg (UInt8.not_lt.mpr plain.2.2)]

/-- Plain bytes stand for themselves between the quotes. -/
theorem jsonString_strip {bytes : List UInt8} (plain : Plain bytes) :
    jsonString (strip bytes) = ascii "\"" ++ strip bytes ++ ascii "\"" := by
  have escapes : ∀ c ∈ strip bytes, escape c = [c] := by
    intro c inside
    obtain ⟨member, nonzero⟩ := List.mem_filter.mp inside
    exact escape_plain ((plain c member).resolve_left (of_decide_eq_true nonzero))
  rw [jsonString, List.flatMap, List.map_congr_left escapes, ← List.flatMap,
    List.flatMap_singleton']

/-- The object of a plain row, cut as the writes cut it. -/
theorem userObject_eq {row : Row} (plain : PlainRow row) :
    userObject row = ascii "\x7b\"id\":\"" ++ (strip row.id ++ (ascii "\",\"account\":\"" ++
      (strip row.name ++ (ascii "\",\"psw\":\"" ++ (strip row.psw ++
        (ascii "\",\"pswSign\":\"True\"" ++ ascii "\x7d")))))) := by
  have first : ascii "\x7b\"id\":\"" =
      ascii "\x7b" ++ (jsonString (ascii "id") ++ (ascii ":" ++ ascii "\"")) := by decide
  have second : ascii "\",\"account\":\"" =
      ascii "\"" ++ (ascii "," ++ (jsonString (ascii "account") ++ (ascii ":" ++ ascii "\""))) := by
    decide
  have third : ascii "\",\"psw\":\"" =
      ascii "\"" ++ (ascii "," ++ (jsonString (ascii "psw") ++ (ascii ":" ++ ascii "\""))) := by
    decide
  have fourth : ascii "\",\"pswSign\":\"True\"" =
      ascii "\"" ++ (ascii "," ++ jsonMember "pswSign" (ascii "True")) := by decide
  rw [userObject, jsonObject, List.intercalate_cons_cons, List.intercalate_cons_cons,
    List.intercalate_cons_cons, List.intercalate_singleton, first, second, third, fourth]
  simp only [jsonMember, jsonString_strip plain.id, jsonString_strip plain.name,
    jsonString_strip plain.psw, List.append_assoc]

section

variable (behind : List UInt8 → Memory)

theorem literalWrite_text {text : String} {count : Nat} (whole : count = (ascii text).length + 1)
    (printable : (0 : UInt8) ∉ ascii text) :
    strip ((literalWrite text count).bytes behind) = ascii text := by
  have length : count = (ascii text ++ [0]).length := by
    rw [whole, List.length_append, List.length_singleton]
  have kept : strip (ascii text) = ascii text :=
    List.filter_eq_self.mpr fun c inside => decide_eq_true fun zero => printable (zero ▸ inside)
  rw [Write.bytes_whole behind length, literalWrite, strip_append, kept]
  exact List.append_nil _

theorem fieldWrite_text {bytes : List UInt8} {field : Field} (size : bytes.length = field.size) :
    strip ((fieldWrite bytes field).bytes behind) = strip bytes := by
  rw [Write.bytes_whole behind size.symm, fieldWrite]

/-- The writes for one user are its object and, before another one, a comma. -/
theorem rowWrites_text (table : Memory) (row k : Nat) (plain : PlainRow (rowAt table row)) :
    strip ((rowWrites (rowAt table row) k).flatMap (Write.bytes behind)) =
      userObject (rowAt table row) ++ if k = 0 then [] else ascii "," := by
  have separator : strip ((if k = 0 then literalWrite "\x7d" 2
      else literalWrite "\x7d," 3).bytes behind) =
      ascii "\x7d" ++ if k = 0 then [] else ascii "," := by
    by_cases last : k = 0
    · rw [if_pos last, if_pos last, literalWrite_text behind (by decide) (by decide)]
      exact (List.append_nil _).symm
    · rw [if_neg last, if_neg last, literalWrite_text behind (by decide) (by decide)]
      rfl
  have field : ∀ which, strip ((fieldWrite (fieldBytes table row which) which).bytes behind) =
      strip (fieldBytes table row which) := fun which =>
    fieldWrite_text behind (fieldBytes_length table row which)
  rw [userObject_eq plain]
  simp only [rowWrites, rowAt, field, separator, List.flatMap_cons, List.flatMap_nil, strip_append,
    List.append_nil, List.append_assoc,
    literalWrite_text behind (show 8 = (ascii "\x7b\"id\":\"").length + 1 by decide) (by decide),
    literalWrite_text behind (show 14 = (ascii "\",\"account\":\"").length + 1 by decide) (by decide),
    literalWrite_text behind (show 10 = (ascii "\",\"psw\":\"").length + 1 by decide) (by decide),
    literalWrite_text behind (show 19 = (ascii "\",\"pswSign\":\"True\"").length + 1 by decide)
      (by decide)]

theorem listWrites_text (glob : Globals) {k : Nat} (left : k ≤ glob.userNum)
    (plain : ∀ row < glob.userNum, PlainRow (rowAt glob.userDate row)) :
    strip ((listWrites glob k).flatMap (Write.bytes behind)) =
      (ascii ",").intercalate ((List.range' (glob.userNum - k) k).map fun row =>
        userObject (rowAt glob.userDate row)) := by
  induction k with
  | zero => rfl
  | succ k ih =>
      have next : glob.userNum - (k + 1) + 1 = glob.userNum - k := by omega
      rw [listWrites, List.flatMap_append, strip_append, ih (by omega),
        rowWrites_text behind _ _ _ (plain _ (by omega)), List.range'_succ, next, List.map_cons]
      cases k with
      | zero => rw [if_pos rfl, List.append_nil]; rfl
      | succ k =>
          rw [if_neg (Nat.succ_ne_zero k), List.range'_succ, List.map_cons,
            List.intercalate_cons_cons, List.append_assoc]

/-- The text of the reply is the array, with one byte from behind the first
literal. -/
theorem replyText_eq (glob : Globals)
    (plain : ∀ row < glob.userNum, PlainRow (rowAt glob.userDate row)) :
    strip (replyText behind glob) = ascii "[" ++ strip [behind (ascii "[" ++ [0]) 2] ++
      (ascii ",").intercalate ((List.range glob.userNum).map fun row =>
        userObject (rowAt glob.userDate row)) ++ ascii "]" := by
  have first : strip ((literalWrite "[" 3).bytes behind) =
      ascii "[" ++ strip [behind (ascii "[" ++ [0]) 2] := by
    have bytes : (literalWrite "[" 3).bytes behind =
        ascii "[" ++ [0] ++ [behind (ascii "[" ++ [0]) 2] := rfl
    rw [bytes, strip_append]
    rfl
  have last : strip ((literalWrite "]" 2).bytes behind) = ascii "]" :=
    literalWrite_text behind (by decide) (by decide)
  rw [replyText, listReply, List.flatMap_append, List.flatMap_cons, List.flatMap_singleton,
    strip_append, strip_append, first, last, listWrites_text behind glob (Nat.le_refl _) plain,
    Nat.sub_self, List.range_eq_range']

end

/-- The literal `"["` has two bytes, three are sent. -/
theorem listReply_not_inside (glob : Globals) : ¬∀ w ∈ listReply glob, w.Inside := by
  intro all
  have inside := all (literalWrite "[" 3) (List.mem_append_left _ List.mem_cons_self)
  exact absurd inside (by decide)

/-- The reply takes a byte from behind its first literal in every case, and its
text is the array exactly if that byte is a NUL. -/
theorem list_reply_overreads (behind : List UInt8 → Memory) (glob : Globals)
    (plain : ∀ row < glob.userNum, PlainRow (rowAt glob.userDate row)) :
    ¬ListReplyOk behind glob ∧
      (strip (replyText behind glob) = userArray glob ↔ behind (ascii "[" ++ [0]) 2 = 0) := by
  constructor
  · exact fun ok => listReply_not_inside glob ok.inside
  · rw [replyText_eq behind glob plain, userArray, jsonArray]
    constructor
    · intro same
      have length := congrArg List.length same
      simp only [List.length_append] at length
      have none : strip [behind (ascii "[" ++ [0]) 2] = [] :=
        List.eq_nil_of_length_eq_zero (by omega)
      simpa [strip] using none
    · intro nul
      rw [nul]
      rfl

/-- One user with the id 7 and nothing else. -/
def oneUser : Globals := ⟨store (fun _ => 0) 0 .id (literal "7") 2, 1, 0, 0⟩

theorem oneUser_plain : ∀ row < oneUser.userNum, PlainRow (rowAt oneUser.userDate row) := by
  intro row first
  obtain rfl : row = 0 := Nat.lt_one_iff.mp first
  exact ⟨by unfold Plain; decide +kernel, by unfold Plain; decide +kernel,
    by unfold Plain; decide +kernel⟩

/-- With a NUL behind the literal the text is right. -/
theorem one_user_text : strip (replyText (fun _ _ => 0) oneUser) = userArray oneUser :=
  (list_reply_overreads (fun _ _ => 0) oneUser oneUser_plain).2.mpr rfl

theorem one_user_overread : ¬ListReplyOk (fun _ _ => 0) oneUser :=
  fun ok => listReply_not_inside oneUser ok.inside

end KyokaMirror.Json
