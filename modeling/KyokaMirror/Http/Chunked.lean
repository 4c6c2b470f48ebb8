import KyokaMirror.Http.KnownLength
import Mathlib.Data.Nat.Digits.Lemmas

set_option autoImplicit false

namespace KyokaMirror.Http

open Library.Stream

/-- The line before a chunk is read as its size, whatever stands behind it in
the buffer. -/
structure SizeLine (line : List UInt8) (size : Nat) : Prop where
  plain : charCr ∉ line
  fits : line.length ≤ 62
  value : ∀ tail, strtol16 (line ++ charCr :: tail) = size

structure Chunk where
  line : List UInt8
  data : List UInt8

structure Chunk.Valid (c : Chunk) : Prop where
  line : SizeLine c.line c.data.length
  nonempty : c.data ≠ []

/-- What follows from inside a chunk on: the rest of its data, the other chunks,
the line of size 0 and whatever the server sends behind it. -/
def wire (last trailer : List UInt8) : List UInt8 → List Chunk → List UInt8
  | data, [] => data ++ charCr :: charLf :: (last ++ charCr :: charLf :: trailer)
  | data, c :: rest =>
      data ++ charCr :: charLf :: (c.line ++ charCr :: charLf :: wire last trailer c.data rest)

def chunkBytes (chunks : List Chunk) : List UInt8 := (chunks.map Chunk.data).flatten

section

variable {last trailer body : List UInt8} {s : Session}

/-- An open session inside a chunk. -/
structure Inside (last trailer body : List UInt8) (s : Session) (delivered data : List UInt8)
    (chunks : List Chunk) : Prop where
  opened : s.opened = true
  valid : ∀ c ∈ chunks, c.Valid
  nonempty : data ≠ []
  size : s.chunkSz = s.chunkOffset + data.length
  offset : 0 ≤ s.chunkOffset
  small : s.chunkSz < 2 ^ 31
  stream : s.conn.stream = wire last trailer data chunks
  split : delivered ++ data ++ chunkBytes chunks = body

variable {stales : Nat → Nat → UInt8} {contentLength : Int}

end

def hexDigit (d : Nat) : UInt8 := if d < 10 then UInt8.ofNat (48 + d) else UInt8.ofNat (87 + d)

/-- With a digit left in `line[1]` the blank line is taken for a size, here for
one far beyond the body, and the size line and the end are handed out as data. -/
example : (downloadReads (fun _ _ => 53) (-1) 4 0
    ⟨⟨wire [48] [charCr, charLf] [97] [⟨[49], [99]⟩], fun _ => .bytes 0, 0, false⟩, true, 1, 0, -1,
      2 ^ 32 - 1⟩).1 = [[97], [49], [13], [10]] := by
  decide +kernel

end KyokaMirror.Http
