import KyokaMirror.Library.Stream
import Mathlib.Data.Nat.ModEq

set_option autoImplicit false

namespace KyokaMirror.Http

open Library.Stream

/-- What `webclient_read` uses of `struct webclient_session`. A negative
`socket` is a closed one. -/
structure Session where
  conn : Socket UInt8
  opened : Bool
  chunkSz : Int
  chunkOffset : Int
  contentLength : Int
  contentRemainder : Nat

def charCr : UInt8 := 13

def charLf : UInt8 := 10

/-- The loop of `webclient_read_line` with the room that is left in the buffer;
`none` where `recv` returns 0 or less. -/
def readLineLoop : Nat → UInt8 → List UInt8 → Socket UInt8 → Option (List UInt8) × Socket UInt8
  | 0, _, buffer, conn => (some buffer, conn)
  | room + 1, lastCh, buffer, conn =>
      match recv conn 1 with
      | (some (ch :: _), conn) =>
          if ch = charLf ∧ lastCh = charCr then (some buffer, conn)
          else readLineLoop room ch (buffer ++ [ch]) conn
      | (_, conn) => (none, conn)

def webclientReadLine (conn : Socket UInt8) (size : Nat) : Option (List UInt8) × Socket UInt8 :=
  readLineLoop size 0 [] conn

def isSpace (ch : UInt8) : Bool := ch == 32 || (9 ≤ ch && ch ≤ 13)

def hexValue (ch : UInt8) : Option Nat :=
  if 48 ≤ ch ∧ ch ≤ 57 then some (ch.toNat - 48)
  else if 65 ≤ ch ∧ ch ≤ 70 then some (ch.toNat - 55)
  else if 97 ≤ ch ∧ ch ≤ 102 then some (ch.toNat - 87)
  else none

def digitsValue : Nat → List UInt8 → Nat
  | acc, [] => acc
  | acc, ch :: rest =>
      match hexValue ch with
      | some digit => digitsValue (16 * acc + digit) rest
      | none => acc

def skipSign : List UInt8 → Bool × List UInt8
  | 45 :: rest => (true, rest)
  | 43 :: rest => (false, rest)
  | text => (false, text)

def skipHexMark : List UInt8 → List UInt8
  | 48 :: 120 :: rest => rest
  | 48 :: 88 :: rest => rest
  | text => text

/-- Values beyond a `long` of 32 bits become its limits. -/
def strtol16 (text : List UInt8) : Int :=
  let signed := skipSign (text.dropWhile isSpace)
  let value := digitsValue 0 (skipHexMark signed.2)
  if signed.1 then max (-(value : Int)) (-2 ^ 31) else min (value : Int) (2 ^ 31 - 1)

/-- `char line[64]` after a line has been read into it. -/
def lineBuffer (line : List UInt8) (stale : Nat → UInt8) : Nat → UInt8 :=
  fun i => line.getD i (stale i)

def startChunk (s : Session) (line : Nat → UInt8) : Session :=
  let size := strtol16 ((List.range 64).map line)
  { s with chunkSz := size, chunkOffset := 0, opened := if size = 0 then false else s.opened }

/-- `stale` is what the uninitialised `line` holds before. -/
def webclientNextChunk (stale : Nat → UInt8) (s : Session) : Session :=
  match webclientReadLine s.conn 64 with
  | (none, conn) => { s with conn := conn, opened := false }
  | (some text, conn) =>
      let line := lineBuffer text stale
      -- `rt_strcmp(line, "\r")` compares up to the first NUL.
      if line 0 = charCr ∧ line 1 = 0 then
        match webclientReadLine conn 64 with
        | (none, conn) => { s with conn := conn, opened := false }
        | (some text, conn) => startChunk { s with conn := conn } (lineBuffer text line)
      else startChunk { s with conn := conn } line

def timeoutCode : Int := -2

def disconnectCode : Int := -7

/-- What is returned when nothing could be read. -/
def nothingRead (s : Session) (conn : Socket UInt8) : Int × List UInt8 × Session :=
  if conn.again then (timeoutCode, [], { s with conn := conn })
  else (0, [], { s with conn := conn, opened := false })

/-- An `int` as a `size_t`. -/
def sizeOf32 (n : Int) : Nat := (n % 2 ^ 32).toNat

def readChunked (stale : Nat → UInt8) (s : Session) (length : Nat) : Int × List UInt8 × Session :=
  let left := s.chunkSz - s.chunkOffset
  let length := if (length : Int) > left then sizeOf32 left else length
  match recv s.conn length with
  | (some bytes, conn) =>
      let s := { s with conn := conn, chunkOffset := s.chunkOffset + bytes.length }
      (bytes.length, bytes,
        if s.chunkOffset ≥ s.chunkSz then webclientNextChunk stale s else s)
  | (_, conn) => nothingRead s conn

/-- The loop over `left`, which ends when `recv` has nothing. -/
def recvAll : Nat → Nat → List UInt8 → Socket UInt8 → List UInt8 × Socket UInt8
  | 0, _, buffer, conn => (buffer, conn)
  | fuel + 1, left, buffer, conn =>
      match recv conn left with
      | (some bytes, conn) =>
          if left - bytes.length = 0 then (buffer ++ bytes, conn)
          else recvAll fuel (left - bytes.length) (buffer ++ bytes) conn
      | (_, conn) => (buffer, conn)

def readPlain (s : Session) (length : Nat) : Int × List UInt8 × Session :=
  match recvAll length length [] s.conn with
  | ([], conn) => nothingRead s conn
  | (bytes, conn) =>
      (bytes.length, bytes, { s with
        conn := conn
        contentRemainder :=
          if s.contentLength > 0 then s.contentRemainder - bytes.length else s.contentRemainder })

def webclientRead (stale : Nat → UInt8) (s : Session) (length : Nat) :
    Int × List UInt8 × Session :=
  if s.opened = false then (disconnectCode, [], s)
  else if length = 0 then (0, [], s)
  else if s.chunkSz ≠ 0 then readChunked stale s length
  else if s.contentLength > 0 then
    let length := if length > s.contentRemainder then s.contentRemainder else length
    if length = 0 then (0, [], s) else readPlain s length
  else readPlain s length

end KyokaMirror.Http
