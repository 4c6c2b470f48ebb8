import KyokaMirror.Json.Tokens
import KyokaMirror.Library.Transition
import KyokaMirror.RtThread.Mailbox

set_option autoImplicit false

namespace KyokaMirror.Json

open Users
open Esp32 (Globals addUser)
open RtThread (Mailbox)
open Library.Transition

/-- A mail is the address of `app_buffer` or of `json_mb_str`. The number of
the frame that it was sent for is not part of the mail: no thread looks at it. -/
inductive Mail where
  | appBuffer (frame : Nat)
  | jsonMbStr (frame : Nat)
  deriving DecidableEq, Repr

def Mail.frame : Mail → Nat
  | .appBuffer frame => frame
  | .jsonMbStr frame => frame

/-- What the esp32 thread does that the JSON threads can notice: it changes
`app_buffer`, it adds the built-in third user, and at a timeout with an open
frame it publishes. -/
inductive Output where
  | store (appBuffer : Memory)
  | add
  | publish

/-- Where the esp32 thread stands between the two sends of a publication. -/
inductive Sender where
  | idle
  | sendFrame
  | sendOver
  deriving DecidableEq, Repr

/-- A `json_entry` thread: in its receive, with a frame in hand, behind the
checks of the parse, before it creates the `json_state` thread, and behind the
loop. -/
inductive Entry where
  | waiting
  | parsing (frame : Nat)
  | storing (parsed : Parsed)
  | creating
  | leaving

structure Service where
  script : List Output
  sender : Sender
  appBuffer : Memory
  glob : Globals
  mailbox : Mailbox Mail 64
  published : Nat
  entries : List Entry
  jsonStates : Nat
  handled : List Nat
  misused : Bool

/-- One send of the esp32 thread, which ignores the result. -/
def sendMail (s : Service) (mail : Mail) : Service :=
  match s.mailbox.rtMbSend mail with
  | some sent => { s with mailbox := sent.1 }
  | none => { s with misused := true }

def esp32Step (s : Service) : Option Service :=
  match s.sender with
  | .idle =>
      match s.script with
      | [] => none
      | .store b :: rest => some { s with script := rest, appBuffer := b }
      | .add :: rest => some { s with script := rest, glob := addUser s.glob }
      | .publish :: rest => some { s with script := rest, sender := .sendFrame }
  | .sendFrame => some { sendMail s (.appBuffer s.published) with sender := .sendOver }
  | .sendOver =>
      some { sendMail s (.jsonMbStr s.published) with
        sender := .idle, published := s.published + 1 }

section

variable (jsmnParse : Memory → Parsed)

/-- The `k`-th `json_entry` thread. The two error returns and the success path
all end the thread; only the success path starts a `json_state` thread, where
`created` says whether the kernel could make one. -/
def jsonEntryStep (s : Service) (k : Nat) (created : Bool) : Option Service :=
  match s.entries[k]? with
  | none => none
  | some .waiting =>
      match s.mailbox.rtMbRecv with
      | none => some { s with misused := true }
      | some none => none
      | some (some (.jsonMbStr _, left)) =>
          some { s with mailbox := left, entries := s.entries.set k .leaving }
      | some (some (.appBuffer frame, left)) =>
          some { s with mailbox := left, entries := s.entries.set k (.parsing frame) }
  | some (.parsing frame) =>
      let parsed := jsmnParse s.appBuffer
      let done := { s with handled := s.handled ++ [frame] }
      if parsed.accepted then some { done with entries := s.entries.set k (.storing parsed) }
      else some { done with entries := s.entries.eraseIdx k }
  | some (.storing parsed) =>
      some { s with
        glob := storeFrame s.appBuffer parsed s.glob, entries := s.entries.set k .creating }
  | some .creating =>
      some { s with
        entries := s.entries.eraseIdx k
        jsonStates := s.jsonStates + if created then 1 else 0 }
  | some .leaving =>
      if s.mailbox.attached then
        some { s with mailbox := s.mailbox.rtMbDetach, entries := s.entries.eraseIdx k }
      else some { s with misused := true }

/-- A `json_state` thread starts the next `json_entry` thread and ends. -/
def jsonStateStep (s : Service) (created : Bool) : Option Service :=
  if 0 < s.jsonStates then
    some { s with
      jsonStates := s.jsonStates - 1
      entries := s.entries ++ if created then [.waiting] else [] }
  else none

inductive Label where
  | esp32
  | jsonEntry (k : Nat) (created : Bool)
  | jsonState (created : Bool)
  deriving DecidableEq, Repr

def step : Label → Service → Option Service
  | .esp32, s => esp32Step s
  | .jsonEntry k created, s => jsonEntryStep jsmnParse s k created
  | .jsonState created, s => jsonStateStep s created

/-- `test_rtt_uart_esp32` has started the esp32 thread and one `json_entry`. -/
def start (script : List Output) (appBuffer : Memory) (glob : Globals) (jsonMbPool : Nat → Mail) :
    Service where
  script := script
  sender := .idle
  appBuffer := appBuffer
  glob := glob
  mailbox := Mailbox.rtMbInit jsonMbPool Mailbox.size_pos
  published := 0
  entries := [.waiting]
  jsonStates := 0
  handled := []
  misused := false

/-- `app_buffer` behind a part of the script. -/
def bufferAfter (appBuffer : Memory) : List Output → Memory
  | [] => appBuffer
  | .store b :: rest => bufferAfter b rest
  | _ :: rest => bufferAfter appBuffer rest

end

end KyokaMirror.Json
