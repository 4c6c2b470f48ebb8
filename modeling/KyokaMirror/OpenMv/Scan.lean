import KyokaMirror.Esp32.Delivery
import KyokaMirror.Library.Perform

set_option autoImplicit false

namespace KyokaMirror.OpenMv

open Users
open Library.Perform
open Esp32 (fill fill_nul fill_text keyword_fill_iff keywordReads_le_nul)

/-- The globals that the scan of `openmv_thread_entry` reads and changes. -/
structure Globals where
  faceFlag : Nat
  userNumFlag : Nat
  deriving DecidableEq, Repr

/-- What the scan does to the rest of the system. -/
inductive Effect where
  | kprintf (text : String)
  | setFaceFlag (value : Nat)
  | setUserNumFlag (value : Nat)
  | postScreen (byte : UInt8)
  | guiDemoInit
  | threadDelay (ticks : Nat)
  | pwminitUser (value : Nat)
  deriving DecidableEq, Repr

/-- The scan of one delivery: the globals, and in order every index read from
`openmv_buffer` and every effect so far. -/
structure Scan where
  glob : Globals
  reads : List Nat
  effects : List Effect

def kwResuc : List UInt8 := ascii "resuc"
def kwGet : List UInt8 := ascii "get"
def kwUser : List UInt8 := ascii ">>>"

def digit1 : UInt8 := 49
def digit2 : UInt8 := 50
def digit3 : UInt8 := 51

def Scan.look (s : Scan) (b : Memory) (i : Nat) (kw : List UInt8) : Scan :=
  { s with reads := s.reads ++ keywordReads b i kw }

def Scan.emit (s : Scan) (effects : List Effect) : Scan :=
  { s with effects := s.effects ++ effects }

def resucTest (b : Memory) (i : Nat) (s : Scan) : Scan :=
  if keyword b i kwResuc then (s.look b i kwResuc).emit [.kprintf "openmv_device\n"]
  else s.look b i kwResuc

def getTest (b : Memory) (i : Nat) (s : Scan) : Scan :=
  if keyword b i kwGet then
    { (s.look b i kwGet).emit
        [.kprintf ("get_openmv_device" ++ toString s.glob.faceFlag ++ "\n"), .kprintf "face_flag",
          .setFaceFlag 1, .guiDemoInit, .threadDelay 100, .kprintf "pwmset:0.85-openmv_face-01\n",
          .pwminitUser 1] with
      glob := { s.glob with faceFlag := 1 } }
  else s.look b i kwGet

/-- The value that the three tests for `nums` assign, if one of them holds. -/
def userFlag (nums : UInt8) : Option Nat :=
  if nums = digit1 then some 0 else if nums = digit2 then some 1
  else if nums = digit3 then some 2 else none

def userTest (b : Memory) (i : Nat) (s : Scan) : Scan :=
  if keyword b i kwUser then
    let nums := b (i + 3)
    let seen := { s.look b i kwUser with reads := (s.look b i kwUser).reads ++ [i + 3] }
    let assigned := match userFlag nums with
      | some value =>
          { seen.emit [.setUserNumFlag value] with glob := { s.glob with userNumFlag := value } }
      | none => seen
    assigned.emit [.postScreen nums, .guiDemoInit, .kprintf "pwmset:0.85-openmv_face-02\n",
      .pwminitUser 1]
  else s.look b i kwUser

def scanBody (b : Memory) (s : Scan) (i : Nat) : Scan :=
  userTest b i (getTest b i (resucTest b i s))

/-- The bytes of one successful read, capped at `sizeof(openmv_buffer) - 1`. -/
structure Delivery where
  bytes : List UInt8
  capped : bytes.length ≤ 63

/-- `rt_device_read` into `openmv_buffer`, the NUL, and the loop
`for (i = 0; i < rx_length; i++)`. -/
def scanDelivery (buffer : Memory) (d : Delivery) (glob : Globals) : Scan :=
  (List.range d.bytes.length).foldl (scanBody (fill buffer d.bytes)) ⟨glob, [], []⟩

inductive Action where
  | resuc
  | get
  | user (nums : UInt8)
  deriving DecidableEq, Repr

/-- The words that begin at a position of the text. -/
def actionsAt (text : List UInt8) (p : Nat) : List Action :=
  (if kwResuc <+: text.drop p then [.resuc] else []) ++
    (if kwGet <+: text.drop p then [.get] else []) ++
    (if kwUser <+: text.drop p then [.user (text.getD (p + 3) 0)] else [])

/-- All words of the text, overlapping ones too, by position. -/
def occurrences (text : List UInt8) : List Action :=
  (List.range text.length).flatMap (actionsAt text)

/-- The globals after an action, and its effects. -/
def Action.perform (glob : Globals) : Action → Globals × List Effect
  | .resuc => (glob, [.kprintf "openmv_device\n"])
  | .get =>
      ({ glob with faceFlag := 1 },
        [.kprintf ("get_openmv_device" ++ toString glob.faceFlag ++ "\n"), .kprintf "face_flag",
          .setFaceFlag 1, .guiDemoInit, .threadDelay 100, .kprintf "pwmset:0.85-openmv_face-01\n",
          .pwminitUser 1])
  | .user nums =>
      ({ glob with userNumFlag := (userFlag nums).getD glob.userNumFlag },
        ((userFlag nums).map Effect.setUserNumFlag).toList ++
          [.postScreen nums, .guiDemoInit, .kprintf "pwmset:0.85-openmv_face-02\n",
            .pwminitUser 1])

abbrev perform (glob : Globals) (actions : List Action) : Globals × List Effect :=
  performAll Action.perform glob actions

/-- The flag that a word assigns. -/
def Action.flag : Action → Option Nat
  | .resuc => none
  | .get => none
  | .user nums => userFlag nums

section

variable (b : Memory) (i : Nat) (s : Scan)

end

section

variable (buffer : Memory) {bytes : List UInt8} {i : Nat} (start : i ≤ bytes.length)
include start

end

example : occurrences (ascii ">>>>2" ++ [0]) = [.user 62, .user 50] := by decide

end KyokaMirror.OpenMv
