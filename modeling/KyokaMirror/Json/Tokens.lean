import KyokaMirror.Esp32.Scan

set_option autoImplicit false

namespace KyokaMirror.Json

open Users
open Esp32 (Globals)

inductive TokenType where
  | undefined | object | array | string | primitive
  deriving DecidableEq, Repr

/-- `jsmntok_t`: the type and the extent of a token in the text. -/
structure Token where
  type : TokenType
  start : Int
  stop : Int
  deriving DecidableEq, Repr

/-- What `jsmn_parse` leaves behind: its result and the array `t[128]`. -/
structure Parsed where
  res : Int
  t : Nat → Token

/-- `strncmp(a, b, n)` as the difference of the first two bytes that differ. -/
def strncmp (a b : Memory) : Nat → Int
  | 0 => 0
  | n + 1 =>
      if a 0 ≠ b 0 then ((a 0).toNat : Int) - (b 0).toNat
      else if a 0 = 0 then 0
      else strncmp (fun k => a (k + 1)) (fun k => b (k + 1)) n

def Token.size (token : Token) : Int := token.stop - token.start

/-- `str + token.start`. -/
def Token.text (token : Token) (str : Memory) : Memory := fun k => str (token.start.toNat + k)

def fetchKey1 (str : Memory) (token : Token) (key : String) : Int :=
  let length1 := (ascii key).length
  if token.type = .string ∧ (length1 : Int) = token.size then
    strncmp (token.text str) (literal key) length1
  else -1

/-- The token loop: its index, the user table, every token it has read, and for
each iteration where `json_p` pointed when it was printed (`none` when the
iteration has not assigned it). -/
structure TokenScan where
  i : Nat
  userDate : Memory
  tokenReads : List Nat
  printed : List (Option Nat)

/-- The branch of a matching key: the text of the next token goes to a field of
the first user, and the loop skips that token. -/
def storeMember (str : Memory) (t : Nat → Token) (field : Field) (s : TokenScan) : TokenScan :=
  let value := t (s.i + 1)
  { i := s.i + 2
    userDate := store s.userDate 0 field (value.text str) value.size.toNat
    tokenReads := s.tokenReads ++ [s.i, s.i + 1]
    printed := s.printed ++ [some value.start.toNat] }

def tokenBody (str : Memory) (t : Nat → Token) (s : TokenScan) : TokenScan :=
  if fetchKey1 str (t s.i) "id" = 0 then storeMember str t .id s
  else if fetchKey1 str (t s.i) "account" = 0 then storeMember str t .name s
  else if fetchKey1 str (t s.i) "psw" = 0 then storeMember str t .psw s
  else
    { s with
      i := s.i + 1
      tokenReads := s.tokenReads ++ [s.i]
      printed := s.printed ++ [none] }

/-- `for (i = 1; i < res; i++)`; every iteration moves the index on. -/
def tokenLoop (str : Memory) (p : Parsed) : Nat → TokenScan → TokenScan
  | 0, s => s
  | fuel + 1, s => if (s.i : Int) < p.res then tokenLoop str p fuel (tokenBody str p.t s) else s

def scanTokens (str : Memory) (p : Parsed) (userDate : Memory) : TokenScan :=
  tokenLoop str p p.res.toNat ⟨1, userDate, [], []⟩

/-- The field that the loop fills from the token behind this one. -/
def memberField (str : Memory) (token : Token) : Option Field :=
  if fetchKey1 str token "id" = 0 then some .id
  else if fetchKey1 str token "account" = 0 then some .name
  else if fetchKey1 str token "psw" = 0 then some .psw
  else none

theorem tokenBody_of_some {str : Memory} {t : Nat → Token} {s : TokenScan} {field : Field}
    (key : memberField str (t s.i) = some field) :
    tokenBody str t s = storeMember str t field s := by
  unfold memberField at key
  unfold tokenBody
  split_ifs at key ⊢ <;> cases key <;> rfl

theorem tokenBody_of_none {str : Memory} {t : Nat → Token} {s : TokenScan}
    (other : memberField str (t s.i) = none) : tokenBody str t s =
      { s with
        i := s.i + 1
        tokenReads := s.tokenReads ++ [s.i]
        printed := s.printed ++ [none] } := by
  unfold memberField at other
  unfold tokenBody
  split_ifs at other ⊢
  rfl

/-- The two checks that `json_thread_entry` makes on the parse. -/
def Parsed.accepted (p : Parsed) : Bool := 1 ≤ p.res && (p.t 0).type == .object

/-- What an accepted frame does to the globals. -/
def storeFrame (str : Memory) (p : Parsed) (glob : Globals) : Globals :=
  { glob with userDate := (scanTokens str p glob.userDate).userDate, userNum := glob.userNum + 1 }

end KyokaMirror.Json
