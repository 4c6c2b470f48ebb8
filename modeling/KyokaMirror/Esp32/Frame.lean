import KyokaMirror.Esp32.Delivery

set_option autoImplicit false

namespace KyokaMirror.Esp32

open Library.Copy (copy copy_inside copy_outside)
open Users

/-- The bytes from the first opening marker on. -/
def fromMarker : List UInt8 → Option (List UInt8)
  | [] => none
  | c :: rest => if kwFrame.isPrefixOf (c :: rest) then some (c :: rest) else fromMarker rest

/-- The bytes received from the first marker that a delivery contains to the
end of the last delivery. -/
def frameOf : List Delivery → Option (List UInt8)
  | [] => none
  | d :: rest =>
      match fromMarker d.bytes with
      | some opening => some (opening ++ rest.flatMap Delivery.bytes)
      | none => frameOf rest

/-- The deliveries that go on with a frame of `soFar` bytes leave room for
their own copy windows. -/
def ContinuesWithin (soFar : Nat) : List Delivery → Prop
  | [] => True
  | d :: rest =>
      d.bytes.length ≤ 64 ∧ soFar + d.bytes.length + d.bytes.length ≤ 129 ∧
        ContinuesWithin (soFar + d.bytes.length) rest

/-- From the delivery that opens the frame on, each has at most 64 bytes, and
the bytes of the frame so far with it and its own length make at most 129. -/
def FrameWithin : List Delivery → Prop
  | [] => True
  | d :: rest =>
      match fromMarker d.bytes with
      | some opening =>
          d.bytes.length ≤ 64 ∧ opening.length + d.bytes.length ≤ 129 ∧
            ContinuesWithin opening.length rest
      | none => FrameWithin rest

theorem fromMarker_some {bytes opening : List UInt8} (found : fromMarker bytes = some opening) :
    ∃ start < bytes.length, opening = bytes.drop start ∧ kwFrame <+: bytes.drop start ∧
      ∀ i < start, ¬ kwFrame <+: bytes.drop i := by
  induction bytes with
  | nil => cases found
  | cons c rest ih =>
      rw [fromMarker] at found
      split at found
      · rename_i here
        cases found
        refine ⟨0, Nat.zero_lt_succ _, rfl, List.isPrefixOf_iff_prefix.mp here, ?_⟩
        simp only [Nat.not_lt_zero, false_implies, implies_true]
      · rename_i absent
        obtain ⟨start, inside, suffix, opens, quiet⟩ := ih found
        refine ⟨start + 1, Nat.succ_lt_succ inside, suffix, opens, ?_⟩
        intro i before
        cases i with
        | zero => exact fun here => absent (List.isPrefixOf_iff_prefix.mpr here)
        | succ i => exact quiet i (by omega)

theorem fromMarker_none {bytes : List UInt8} (missing : fromMarker bytes = none) :
    ¬ Contains bytes kwFrame := by
  induction bytes with
  | nil => decide
  | cons c rest ih =>
      rw [fromMarker] at missing
      split at missing
      · cases missing
      · rename_i absent
        intro inside
        rcases List.infix_cons_iff.mp inside with here | later
        · exact absent (List.isPrefixOf_iff_prefix.mpr here)
        · exact ih missing later

/-- A frame is open, and `app_buffer` holds exactly the bytes received so far. -/
structure Holds (b : Buffers) (frame : List UInt8) : Prop where
  opened : b.readstate = true
  length_eq : b.length = frame.length
  stored : ∀ k, (inside : k < frame.length) → b.appBuffer k = frame[k]

/-- The delivery that opens the frame. -/
theorem deliver_holds_opening (r : Receiver) (bytes opening : List UInt8)
    (free : ¬ Contains bytes kwGet) (empty : r.buf.length = 0) (closed : r.buf.readstate = false)
    (found : fromMarker bytes = some opening) : Holds (deliver r bytes).buf opening := by
  obtain ⟨start, inside, suffix, opens, quiet⟩ := fromMarker_some found
  have after := deliver_opening_buf r bytes free start closed quiet opens inside
  have size : opening.length = bytes.length - start := by rw [suffix, List.length_drop]
  have window : (deliver r bytes).buf.appBuffer = copy r.buf.appBuffer
      (fill r.buf.uartRxBuffer bytes) r.buf.length start
      (bytes.length - start + bytes.length - 1) := congrArg Buffers.appBuffer after
  refine ⟨by rw [after], by rw [after, empty, size, Nat.zero_add], ?_⟩
  intro k within
  rw [window, empty, copy_inside _ _ _ _ _ _ (Nat.zero_le _) (by omega), Nat.sub_zero,
    fill_inside _ _ _ (by omega)]
  simp only [suffix, List.getElem_drop]

/-- Every later delivery is appended: its overlapping windows leave the bytes
before it alone and overwrite the stale tail behind them. -/
theorem deliver_holds_append (r : Receiver) (bytes frame : List UInt8)
    (free : ¬ Contains bytes kwGet) (held : Holds r.buf frame) :
    Holds (deliver r bytes).buf (frame ++ bytes) := by
  have after := deliver_continuing_buf r bytes free held.opened
  have window : (deliver r bytes).buf.appBuffer = copy r.buf.appBuffer
      (fill r.buf.uartRxBuffer bytes) r.buf.length 0 (bytes.length + bytes.length - 1) :=
    congrArg Buffers.appBuffer after
  refine ⟨by rw [after], by rw [after, held.length_eq, List.length_append], ?_⟩
  intro k within
  rw [List.length_append] at within
  rw [window, held.length_eq]
  by_cases old : k < frame.length
  · rw [copy_outside _ _ _ _ _ _ (Or.inl old), held.stored k old, List.getElem_append_left old]
  · rw [copy_inside _ _ _ _ _ _ (by omega) (by omega), Nat.zero_add,
      fill_inside _ _ _ (by omega), List.getElem_append_right (by omega)]

theorem run_append (r : Receiver) (first second : List Event) :
    run r (first ++ second) = run (run r first) second := List.foldl_append

theorem run_published (r : Receiver) (cs : List Delivery) :
    (run r (cs.map .delivery)).published = r.published := by
  induction cs generalizing r with
  | nil => rfl
  | cons d rest ih => exact ih (deliver r d.bytes)

theorem run_holds_append (r : Receiver) (cs : List Delivery) (frame : List UInt8)
    (free : ∀ d ∈ cs, ¬ Contains d.bytes kwGet) (held : Holds r.buf frame) :
    Holds (run r (cs.map .delivery)).buf (frame ++ cs.flatMap Delivery.bytes) := by
  induction cs generalizing r frame with
  | nil => rwa [List.flatMap_nil, List.append_nil]
  | cons d rest ih =>
      have next := deliver_holds_append r d.bytes frame (free d List.mem_cons_self) held
      have all := ih (deliver r d.bytes) _
        (fun e later => free e (List.mem_cons_of_mem _ later)) next
      rwa [List.append_assoc] at all

theorem run_holds_frame (r : Receiver) (cs : List Delivery) (frame : List UInt8)
    (free : ∀ d ∈ cs, ¬ Contains d.bytes kwGet) (empty : r.buf.length = 0)
    (closed : r.buf.readstate = false) (received : frameOf cs = some frame) :
    Holds (run r (cs.map .delivery)).buf frame := by
  induction cs generalizing r with
  | nil => cases received
  | cons d rest ih =>
      have freeHead := free d List.mem_cons_self
      have freeRest : ∀ e ∈ rest, ¬ Contains e.bytes kwGet := fun e later =>
        free e (List.mem_cons_of_mem _ later)
      rw [frameOf] at received
      split at received
      · rename_i opening found
        cases received
        exact run_holds_append (deliver r d.bytes) rest opening freeRest
          (deliver_holds_opening r d.bytes opening freeHead empty closed found)
      · rename_i missing
        have silent := deliver_silent_buf r d.bytes freeHead closed (fromMarker_none missing)
        exact ih (deliver r d.bytes) freeRest (by rw [silent]; exact empty)
          (by rw [silent]; exact closed) received

/-- One delivery into an open frame. -/
theorem deliver_held_inBounds_iff {r : Receiver} {d : Delivery} {frame : List UInt8}
    (free : ¬ Contains d.bytes kwGet) (held : Holds r.buf frame) (room : frame.length ≤ 129) :
    InBounds (deliver r d.bytes).accesses ↔ InBounds r.accesses ∧
      d.bytes.length ≤ 64 ∧ frame.length + d.bytes.length + d.bytes.length ≤ 129 := by
  by_cases positive : 0 < d.bytes.length
  · rw [deliver_continuing_inBounds_iff r d (getFree_of_not_contains _ free) held.opened positive,
      held.length_eq]
    have halves : d.bytes.length + d.bytes.length ≤ 129 ↔ d.bytes.length ≤ 64 := by omega
    rw [halves]
  · have nothing : d.bytes = [] := List.eq_nil_of_length_eq_zero (by omega)
    have still : (deliver r d.bytes).accesses = r.accesses := by
      rw [nothing]
      rfl
    rw [still]
    exact (and_iff_left (by omega)).symm

theorem run_continuing_inBounds_iff (r : Receiver) (cs : List Delivery) (frame : List UInt8)
    (free : ∀ d ∈ cs, ¬ Contains d.bytes kwGet) (held : Holds r.buf frame)
    (room : frame.length ≤ 129) :
    InBounds (run r (cs.map .delivery)).accesses ↔
      InBounds r.accesses ∧ ContinuesWithin frame.length cs := by
  induction cs generalizing r frame with
  | nil => exact (and_iff_left trivial).symm
  | cons d rest ih =>
      have freeHead := free d List.mem_cons_self
      have freeRest : ∀ e ∈ rest, ¬ Contains e.bytes kwGet := fun e later =>
        free e (List.mem_cons_of_mem _ later)
      have next := deliver_holds_append r d.bytes frame freeHead held
      have size : (frame ++ d.bytes).length = frame.length + d.bytes.length := List.length_append
      have first := deliver_held_inBounds_iff freeHead held room
      rw [ContinuesWithin]
      by_cases fits : frame.length + d.bytes.length ≤ 129
      · have later := ih (deliver r d.bytes) (frame ++ d.bytes) freeRest next (by omega)
        rw [size, first] at later
        refine later.trans ?_
        simp only [and_assoc]
      · -- The accesses of this delivery are already out of bounds.
        constructor
        · intro bounded
          have here : InBounds (deliver r d.bytes).accesses :=
            ((run_inBounds_iff (deliver r d.bytes) (rest.map .delivery)).mp bounded).1
          have close := (first.mp here).2.2
          omega
        · rintro ⟨_, _, close, _⟩
          omega

theorem run_frame_inBounds_iff (r : Receiver) (cs : List Delivery)
    (free : ∀ d ∈ cs, ¬ Contains d.bytes kwGet) (empty : r.buf.length = 0)
    (closed : r.buf.readstate = false) :
    InBounds (run r (cs.map .delivery)).accesses ↔ InBounds r.accesses ∧ FrameWithin cs := by
  induction cs generalizing r with
  | nil => exact (and_iff_left trivial).symm
  | cons d rest ih =>
      have freeHead := free d List.mem_cons_self
      have freeRest : ∀ e ∈ rest, ¬ Contains e.bytes kwGet := fun e later =>
        free e (List.mem_cons_of_mem _ later)
      have getFree := getFree_of_not_contains r.buf.uartRxBuffer freeHead
      rw [FrameWithin]
      split
      · rename_i opening found
        have held := deliver_holds_opening r d.bytes opening freeHead empty closed found
        obtain ⟨start, inside, suffix, opens, quiet⟩ := fromMarker_some found
        have size : opening.length = d.bytes.length - start := by rw [suffix, List.length_drop]
        have capped := d.capped
        have first := deliver_opening_inBounds_iff r d getFree start closed
          (fun i before => by
            rw [← Bool.not_eq_true, keyword_fill_iff _ _ _ _ (by omega) nul_not_mem_kwFrame]
            exact quiet i before)
          ((keyword_fill_iff _ _ _ _ (Nat.le_of_lt inside) nul_not_mem_kwFrame).mpr opens) inside
        have later := run_continuing_inBounds_iff (deliver r d.bytes) rest opening freeRest held
          (by omega)
        rw [first, empty, ← size] at later
        refine later.trans ?_
        rw [and_assoc, and_assoc, Nat.zero_add]
        have halves : d.bytes.length + d.bytes.length ≤ 129 ↔ d.bytes.length ≤ 64 := by omega
        rw [halves]
      · rename_i missing
        have silent := deliver_silent_buf r d.bytes freeHead closed (fromMarker_none missing)
        have first := deliver_silent_inBounds_iff r d getFree closed (fun _ inside =>
          keyword_false_of_not_contains (fromMarker_none missing) (Nat.le_of_lt inside)
            nul_not_mem_kwFrame)
        rw [← first]
        exact ih (deliver r d.bytes) freeRest (by rw [silent]; exact empty)
          (by rw [silent]; exact closed)

/-- A timeout in an open frame publishes its length and changes no byte. -/
theorem timeout_open (r : Receiver) (opened : r.buf.readstate = true) :
    (timeout r).jsonLength = r.buf.length ∧ (timeout r).published = r.published + 1 ∧
      (timeout r).buf.appBuffer = r.buf.appBuffer := by
  simp only [timeout, opened, ↓reduceIte, and_self]

/-- Frame reassembly is exact: what the timeout publishes is the bytes received
from the first marker on, whatever the buffers held before, and no copy leaves
the buffers on the way. -/
theorem frame_reassembled (r : Receiver) (cs : List Delivery) (frame : List UInt8)
    (empty : r.buf.length = 0) (closed : r.buf.readstate = false)
    (free : ∀ d ∈ cs, ¬ Contains d.bytes kwGet) (received : frameOf cs = some frame)
    (fits : FrameWithin cs) :
    (run r (cs.map .delivery ++ [.timeout])).published = r.published + 1 ∧
      (run r (cs.map .delivery ++ [.timeout])).jsonLength = frame.length ∧
      (List.range frame.length).map
        (run r (cs.map .delivery ++ [.timeout])).buf.appBuffer = frame ∧
      (InBounds r.accesses → InBounds (run r (cs.map .delivery ++ [.timeout])).accesses) := by
  have held := run_holds_frame r cs frame free empty closed received
  obtain ⟨length, mail, bytes⟩ := timeout_open _ held.opened
  have last : run r (cs.map .delivery ++ [.timeout]) = timeout (run r (cs.map .delivery)) :=
    run_append r _ _
  rw [last]
  refine ⟨by rw [mail, run_published], by rw [length, held.length_eq], ?_, ?_⟩
  · apply List.ext_getElem
    · rw [List.length_map, List.length_range]
    · intro k inside within
      rw [List.getElem_map, List.getElem_range, bytes, held.stored k within]
  · intro before
    rw [timeout_accesses]
    exact (run_frame_inBounds_iff r cs free empty closed).mpr ⟨before, fits⟩

/-- A frame in two deliveries, the first with two bytes before its marker. -/
def splitFrame : List Delivery :=
  [⟨ascii "ok\x7b\"id", by decide⟩, ⟨ascii "\":\"7\"\x7d", by decide⟩]

theorem splitFrame_reassembled :
    frameOf splitFrame = some (ascii "\x7b\"id\":\"7\"\x7d") ∧
      (List.range 10).map (run (initial (fun _ => 255) (fun _ => 255) startGlobals)
        (splitFrame.map .delivery ++ [.timeout])).buf.appBuffer =
        ascii "\x7b\"id\":\"7\"\x7d" :=
  ⟨by decide, (frame_reassembled (initial (fun _ => 255) (fun _ => 255) startGlobals) splitFrame
    (ascii "\x7b\"id\":\"7\"\x7d") rfl rfl (by decide +kernel) (by decide)
    ⟨by decide, by decide, by decide, by decide, trivial⟩).2.2.1⟩

end KyokaMirror.Esp32
