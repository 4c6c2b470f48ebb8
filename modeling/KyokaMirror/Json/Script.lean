import KyokaMirror.Json.Lifetime

set_option autoImplicit false

namespace KyokaMirror.Json

open Users
open Esp32 (Buffers Delivery Event Globals Receiver Scan)
open Library.Copy (copy)
open Library.Transition

def Output.isPublish : Output → Bool
  | .publish => true
  | _ => false

/-- The copy of one iteration, byte by byte. -/
def copyOutputs (rxLength i : Nat) (b : Buffers) : List Output :=
  (List.range rxLength).map fun k =>
    .store (copy b.appBuffer b.uartRxBuffer b.length i (k + 1))

/-- One iteration of the scan: the `add` command, then the frame capture. -/
def bodyOutputs (rxLength : Nat) (s : Scan) : List Output :=
  (if (Esp32.getTest (Esp32.stateTest s)).sees Esp32.kwAdd then [.add] else []) ++
    if s.buf.readstate || keyword s.buf.uartRxBuffer s.landing Esp32.kwFrame then
      copyOutputs rxLength s.landing s.buf
    else []

def scanOutputs (rxLength : Nat) : Nat → Scan → List Output
  | 0, _ => []
  | fuel + 1, s =>
      if s.i < rxLength then
        bodyOutputs rxLength s ++ scanOutputs rxLength fuel (Esp32.scanBody rxLength s)
      else []

def eventOutputs (r : Receiver) : Event → List Output
  | .delivery d => scanOutputs d.bytes.length d.bytes.length (Esp32.startScan r d.bytes)
  | .timeout => if r.buf.readstate then [.publish] else []

/-- An event of the receive loop, with the globals as the other threads have
left them. -/
structure Turn where
  glob : Globals
  event : Event

def takeTurn (r : Receiver) (turn : Turn) : Receiver :=
  Esp32.handle { r with glob := turn.glob } turn.event

def takeTurns (r : Receiver) (turns : List Turn) : Receiver := turns.foldl takeTurn r

/-- The script of the esp32 thread. -/
def outputs (r : Receiver) : List Turn → List Output
  | [] => []
  | turn :: rest =>
      eventOutputs { r with glob := turn.glob } turn.event ++ outputs (takeTurn r turn) rest

theorem outputs_append (r : Receiver) (front back : List Turn) :
    outputs r (front ++ back) = outputs r front ++ outputs (takeTurns r front) back := by
  induction front generalizing r with
  | nil => rfl
  | cons turn rest ih =>
      rw [List.cons_append, outputs, ih, outputs, List.append_assoc]
      rfl

theorem bufferAfter_copyOutputs (rxLength i : Nat) (b : Buffers) :
    bufferAfter b.appBuffer (copyOutputs rxLength i b) =
      copy b.appBuffer b.uartRxBuffer b.length i rxLength := by
  induction rxLength with
  | zero => rfl
  | succ count _ =>
      rw [copyOutputs, List.range_succ, List.map_append, bufferAfter_append]
      rfl

theorem bufferAfter_bodyOutputs (rxLength : Nat) (s : Scan) :
    bufferAfter s.buf.appBuffer (bodyOutputs rxLength s) =
      (Esp32.scanBody rxLength s).buf.appBuffer := by
  have added : ∀ rest : List Output, bufferAfter s.buf.appBuffer
      ((if (Esp32.getTest (Esp32.stateTest s)).sees Esp32.kwAdd then [.add] else []) ++ rest) =
        bufferAfter s.buf.appBuffer rest := by
    intro rest
    split <;> rfl
  rw [bodyOutputs, added, Esp32.scanBody_buf, Esp32.capture]
  split
  · exact bufferAfter_copyOutputs rxLength s.landing s.buf
  · rfl

theorem bufferAfter_scanOutputs (rxLength fuel : Nat) (s : Scan) :
    bufferAfter s.buf.appBuffer (scanOutputs rxLength fuel s) =
      (Esp32.scanLoop rxLength fuel s).buf.appBuffer := by
  induction fuel generalizing s with
  | zero => rfl
  | succ fuel ih =>
      rw [scanOutputs, Esp32.scanLoop]
      split
      · rw [bufferAfter_append, bufferAfter_bodyOutputs, ih]
      · rfl

theorem bufferAfter_eventOutputs (r : Receiver) (event : Event) :
    bufferAfter r.buf.appBuffer (eventOutputs r event) =
      (Esp32.handle r event).buf.appBuffer := by
  cases event with
  | delivery d =>
      exact bufferAfter_scanOutputs d.bytes.length d.bytes.length (Esp32.startScan r d.bytes)
  | timeout =>
      rw [eventOutputs, Esp32.handle, Esp32.timeout]
      split <;> rfl

theorem bufferAfter_outputs (r : Receiver) (turns : List Turn) :
    bufferAfter r.buf.appBuffer (outputs r turns) = (takeTurns r turns).buf.appBuffer := by
  induction turns generalizing r with
  | nil => rfl
  | cons turn rest ih =>
      have first := bufferAfter_eventOutputs { r with glob := turn.glob } turn.event
      rw [outputs, bufferAfter_append]
      show bufferAfter (bufferAfter r.buf.appBuffer _) _ = _
      rw [first]
      exact ih (takeTurn r turn)

theorem bodyOutputs_no_publish (rxLength : Nat) (s : Scan) :
    (bodyOutputs rxLength s).countP Output.isPublish = 0 := by
  have copies : (copyOutputs rxLength s.landing s.buf).countP Output.isPublish = 0 := by
    rw [copyOutputs, List.countP_map]
    exact List.countP_eq_zero.mpr fun _ _ => Bool.false_ne_true
  rw [bodyOutputs, List.countP_append]
  split <;> split <;> simp [copies, Output.isPublish]

theorem scanOutputs_no_publish (rxLength fuel : Nat) (s : Scan) :
    (scanOutputs rxLength fuel s).countP Output.isPublish = 0 := by
  induction fuel generalizing s with
  | zero => rfl
  | succ fuel ih =>
      rw [scanOutputs]
      split
      · rw [List.countP_append, bodyOutputs_no_publish, ih]
      · rfl

theorem outputs_published (r : Receiver) (turns : List Turn) :
    r.published + (outputs r turns).countP Output.isPublish = (takeTurns r turns).published := by
  induction turns generalizing r with
  | nil => rfl
  | cons turn rest ih =>
      have later := ih (takeTurn r turn)
      have here : r.published +
          (eventOutputs { r with glob := turn.glob } turn.event).countP Output.isPublish =
            (takeTurn r turn).published := by
        cases own : turn.event with
        | delivery d =>
            rw [eventOutputs, scanOutputs_no_publish, takeTurn, own]
            rfl
        | timeout =>
            rw [eventOutputs, takeTurn, own, Esp32.handle, Esp32.timeout]
            split <;> rfl
      rw [outputs, List.countP_append, ← Nat.add_assoc, here]
      exact later

theorem publish_mem_outputs {r : Receiver} {turns : List Turn}
    (grows : r.published < (takeTurns r turns).published) : .publish ∈ outputs r turns := by
  have count := outputs_published r turns
  obtain ⟨output, member, publishes⟩ := List.countP_pos_iff.mp
    (show 0 < (outputs r turns).countP Output.isPublish by omega)
  cases output with
  | store b => cases publishes
  | add => cases publishes
  | publish => exact member

/-- Two frames of the receive loop, with an acceptable text in `app_buffer`
somewhere between them, lead to a send on the detached mailbox. -/
theorem second_publication_misuses (jsmnParse : Memory → Parsed) (r : Receiver)
    (front back : List Turn) (glob : Globals) (jsonMbPool : Nat → Mail)
    (posted : r.published < (takeTurns r front).published)
    (again : (takeTurns r front).published < (takeTurns r (front ++ back)).published)
    (accepted : (jsmnParse (takeTurns r front).buf.appBuffer).accepted = true) :
    ∃ t, Reaches (step jsmnParse)
      (start (outputs r (front ++ back)) r.buf.appBuffer glob jsonMbPool) t ∧
      t.misused = true := by
  have later : takeTurns r (front ++ back) = takeTurns (takeTurns r front) back :=
    List.foldl_append
  rw [later] at again
  apply misuse_reached jsmnParse glob jsonMbPool (outputs_append r front back)
    (publish_mem_outputs posted) (publish_mem_outputs again)
  rw [bufferAfter_outputs]
  exact accepted

end KyokaMirror.Json
