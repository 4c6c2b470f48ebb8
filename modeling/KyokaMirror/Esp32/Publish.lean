import KyokaMirror.Esp32.Frame

set_option autoImplicit false

namespace KyokaMirror.Esp32

open Library.Copy (copy copy_inside copy_outside)
open Users

/-- `strlen(app_buffer)`, when a NUL stands in the buffer at all. -/
def strlen (b : Memory) : Option Nat := (List.range 128).find? (fun k => b k == 0)

/-- The text that `json_thread_entry` hands to `jsmn_parse`. -/
def parsedText (b : Memory) : Option (List UInt8) :=
  (strlen b).map (fun n => (List.range n).map b)

theorem strlen_eq_some_iff (b : Memory) (n : Nat) :
    strlen b = some n ↔ n < 128 ∧ b n = 0 ∧ ∀ k < n, b k ≠ 0 := by
  rw [strlen, List.find?_range_eq_some]
  simp only [beq_iff_eq, List.mem_range, Bool.not_eq_true', beq_eq_false_iff_ne]
  tauto

theorem parsedText_eq_some_iff (b : Memory) (text : List UInt8) (printable : (0 : UInt8) ∉ text) :
    parsedText b = some text ↔ text.length < 128 ∧ b text.length = 0 ∧
      ∀ k, (inside : k < text.length) → b k = text[k] := by
  rw [parsedText, Option.map_eq_some_iff]
  constructor
  · rintro ⟨n, found, same⟩
    have size : text.length = n := by rw [← same, List.length_map, List.length_range]
    obtain ⟨inside, nul, _⟩ := (strlen_eq_some_iff b n).mp found
    refine ⟨by rw [size]; exact inside, by rw [size]; exact nul, ?_⟩
    intro k within
    simp only [← same, List.getElem_map, List.getElem_range]
  · rintro ⟨inside, nul, bytes⟩
    refine ⟨text.length, (strlen_eq_some_iff b _).mpr ⟨inside, nul, ?_⟩, ?_⟩
    · intro k within zero
      rw [bytes k within] at zero
      exact printable (zero ▸ List.getElem_mem within)
    · apply List.ext_getElem
      · rw [List.length_map, List.length_range]
      · intro k _ within
        rw [List.getElem_map, List.getElem_range, bytes k within]

theorem frameOf_append (front : List Delivery) (last : Delivery) :
    frameOf (front ++ [last]) =
      match frameOf front with
      | some frame => some (frame ++ last.bytes)
      | none => fromMarker last.bytes := by
  induction front with
  | nil =>
      simp only [List.nil_append, frameOf]
      cases fromMarker last.bytes with
      | none => rfl
      | some opening => simp only [List.flatMap_nil, List.append_nil]
  | cons d rest ih =>
      rw [List.cons_append, frameOf, frameOf]
      cases fromMarker d.bytes with
      | none => exact ih
      | some opening =>
          simp only [List.flatMap_append, List.flatMap_cons, List.flatMap_nil, List.append_nil,
            List.append_assoc]

theorem continuesWithin_append (soFar : Nat) (front : List Delivery) (last : Delivery)
    (fits : ContinuesWithin soFar (front ++ [last])) :
    soFar + (front.flatMap Delivery.bytes).length + last.bytes.length + last.bytes.length ≤
      129 := by
  induction front generalizing soFar with
  | nil => simpa only [List.flatMap_nil, List.length_nil, Nat.add_zero] using fits.2.1
  | cons d rest ih =>
      have later := ih (soFar + d.bytes.length) fits.2.2
      simp only [List.flatMap_cons, List.length_append]
      omega

theorem frameWithin_append (front : List Delivery) (last : Delivery) (frame : List UInt8)
    (received : frameOf (front ++ [last]) = some frame) (fits : FrameWithin (front ++ [last])) :
    frame.length + last.bytes.length ≤ 129 := by
  induction front with
  | nil =>
      rw [List.nil_append, frameOf] at received
      rw [List.nil_append, FrameWithin] at fits
      cases found : fromMarker last.bytes with
      | none =>
          rw [found] at received
          cases received
      | some opening =>
          rw [found] at received fits
          simp only [List.flatMap_nil, List.append_nil, Option.some.injEq] at received
          rw [← received]
          exact fits.2.1
  | cons d rest ih =>
      rw [List.cons_append, frameOf] at received
      rw [List.cons_append, FrameWithin] at fits
      cases found : fromMarker d.bytes with
      | none =>
          rw [found] at received fits
          exact ih received fits
      | some opening =>
          rw [found] at received fits
          have close := continuesWithin_append opening.length rest last fits.2.2
          simp only [Option.some.injEq] at received
          rw [← received]
          simp only [List.flatMap_append, List.flatMap_cons, List.flatMap_nil, List.append_nil,
            List.length_append]
          omega

theorem run_silent_buf (r : Receiver) (cs : List Delivery) (closed : r.buf.readstate = false)
    (free : ∀ d ∈ cs, ¬ Contains d.bytes kwGet) (unopened : frameOf cs = none) :
    (run r (cs.map .delivery)).buf.readstate = false ∧
      (run r (cs.map .delivery)).buf.length = r.buf.length := by
  induction cs generalizing r with
  | nil => exact ⟨closed, rfl⟩
  | cons d rest ih =>
      rw [frameOf] at unopened
      split at unopened
      · cases unopened
      · rename_i missing
        have silent := deliver_silent_buf r d.bytes (free d List.mem_cons_self) closed
          (fromMarker_none missing)
        have later := ih (deliver r d.bytes) (by rw [silent]; exact closed)
          (fun e inRest => free e (List.mem_cons_of_mem _ inRest)) unopened
        rwa [silent] at later

/-- A last delivery of two or more bytes carries the NUL of `uart_rx_buffer`
along; a single byte leaves the cell behind it as it was. -/
theorem deliver_byte_behind (r : Receiver) (bytes frame : List UInt8)
    (free : ¬ Contains bytes kwGet) (held : Holds r.buf frame) (positive : 0 < bytes.length) :
    (deliver r bytes).buf.appBuffer (frame ++ bytes).length =
      if 2 ≤ bytes.length then 0 else r.buf.appBuffer (frame ++ bytes).length := by
  have window : (deliver r bytes).buf.appBuffer = copy r.buf.appBuffer
      (fill r.buf.uartRxBuffer bytes) r.buf.length 0 (bytes.length + bytes.length - 1) :=
    congrArg Buffers.appBuffer (deliver_continuing_buf r bytes free held.opened)
  rw [window, held.length_eq, List.length_append]
  split
  · rw [copy_inside _ _ _ _ _ _ (by omega) (by omega), Nat.zero_add, Nat.add_sub_cancel_left,
      fill_nul]
  · exact copy_outside _ _ _ _ _ _ (by omega)

theorem deliver_byte_behind_opening (r : Receiver) (bytes opening : List UInt8)
    (free : ¬ Contains bytes kwGet) (empty : r.buf.length = 0) (closed : r.buf.readstate = false)
    (found : fromMarker bytes = some opening) :
    2 ≤ bytes.length ∧ (deliver r bytes).buf.appBuffer opening.length = 0 := by
  obtain ⟨start, inside, suffix, opens, quiet⟩ := fromMarker_some found
  have window : (deliver r bytes).buf.appBuffer = copy r.buf.appBuffer
      (fill r.buf.uartRxBuffer bytes) r.buf.length start
      (bytes.length - start + bytes.length - 1) :=
    congrArg Buffers.appBuffer (deliver_opening_buf r bytes free start closed quiet opens inside)
  have two : kwFrame.length = 2 := by decide
  have long : 2 ≤ bytes.length - start := by
    have := opens.length_le
    rwa [two, List.length_drop] at this
  have size : opening.length = bytes.length - start := by rw [suffix, List.length_drop]
  refine ⟨by omega, ?_⟩
  rw [window, empty, size, copy_inside _ _ _ _ _ _ (by omega) (by omega), Nat.sub_zero,
    Nat.add_sub_cancel' (Nat.le_of_lt inside), fill_nul]

theorem run_byte_behind (r : Receiver) (front : List Delivery) (last : Delivery)
    (frame : List UInt8) (empty : r.buf.length = 0) (closed : r.buf.readstate = false)
    (free : ∀ d ∈ front ++ [last], ¬ Contains d.bytes kwGet)
    (received : frameOf (front ++ [last]) = some frame) (nonempty : last.bytes ≠ []) :
    (run r ((front ++ [last]).map .delivery)).buf.appBuffer frame.length =
      if 2 ≤ last.bytes.length then 0
      else (run r (front.map .delivery)).buf.appBuffer frame.length := by
  have freeFront : ∀ d ∈ front, ¬ Contains d.bytes kwGet := fun d member =>
    free d (List.mem_append_left _ member)
  have freeLast := free last (List.mem_append_right _ List.mem_cons_self)
  have step : run r ((front ++ [last]).map .delivery) =
      deliver (run r (front.map .delivery)) last.bytes := by
    rw [List.map_append, run_append]
    rfl
  rw [step]
  rw [frameOf_append] at received
  split at received
  · rename_i before opened
    cases received
    exact deliver_byte_behind _ _ _ freeLast
      (run_holds_frame r front before freeFront empty closed opened)
      (List.length_pos_iff.mpr nonempty)
  · rename_i unopened
    obtain ⟨still, length⟩ := run_silent_buf r front closed freeFront unopened
    obtain ⟨long, nul⟩ := deliver_byte_behind_opening _ _ _ freeLast (by rw [length, empty]) still
      received
    rw [nul, if_pos long]

/-- No event of the list opens a frame. -/
def NoFrameOpened : Receiver → List Event → Prop
  | _, [] => True
  | r, event :: rest =>
      (handle r event).buf.readstate = false ∧ NoFrameOpened (handle r event) rest

theorem capture_readstate_mono (rxLength i : Nat) (b : Buffers)
    (after : (capture rxLength i b).readstate = false) : capture rxLength i b = b := by
  unfold capture at after ⊢
  split at after
  · cases after
  · rename_i skipped
    rw [if_neg skipped]

/-- A scan that ends without an open frame has captured nothing. -/
theorem scanLoop_not_opened (rxLength fuel : Nat) (s : Scan)
    (after : (scanLoop rxLength fuel s).buf.readstate = false) :
    (scanLoop rxLength fuel s).buf = s.buf := by
  induction fuel generalizing s with
  | zero => rfl
  | succ fuel ih =>
      rw [scanLoop] at after ⊢
      split at after
      · rename_i inside
        rw [if_pos inside]
        have later := ih (scanBody rxLength s) after
        rw [later, scanBody_buf] at after
        rw [later, scanBody_buf, capture_readstate_mono _ _ _ after]
      · rename_i outside
        rw [if_neg outside]

theorem handle_appBuffer (r : Receiver) (event : Event)
    (after : (handle r event).buf.readstate = false) :
    (handle r event).buf.appBuffer = r.buf.appBuffer := by
  cases event with
  | timeout =>
      simp only [handle, timeout]
      split <;> rfl
  | delivery d =>
      have same := scanLoop_not_opened d.bytes.length d.bytes.length (startScan r d.bytes) after
      calc
        (handle r (.delivery d)).buf.appBuffer = (startScan r d.bytes).buf.appBuffer :=
          congrArg Buffers.appBuffer same
        _ = r.buf.appBuffer := rfl

theorem run_appBuffer (r : Receiver) (later : List Event) (quiet : NoFrameOpened r later) :
    (run r later).buf.appBuffer = r.buf.appBuffer := by
  induction later generalizing r with
  | nil => rfl
  | cons event rest ih =>
      rw [← handle_appBuffer r event quiet.1]
      exact ih (handle r event) quiet.2

/-- The receiver after the deliveries of a frame and the timeout that posts the
mail. -/
def posted (r : Receiver) (cs : List Delivery) : Receiver :=
  run r (cs.map .delivery ++ [.timeout])

/-- Whatever earlier frames left in the buffers: while no later frame is opened
before `json_entry` handles the mail, the parsed text is the frame, with every
copy inside the buffers, exactly when the copy windows fit and the last
delivery has two bytes or more, or finds a NUL behind the frame already. -/
theorem parsed_text_iff (r : Receiver) (front : List Delivery) (last : Delivery)
    (frame : List UInt8) (later : List Event) (empty : r.buf.length = 0)
    (closed : r.buf.readstate = false) (defined : InBounds r.accesses)
    (free : ∀ d ∈ front ++ [last], ¬ Contains d.bytes kwGet)
    (received : frameOf (front ++ [last]) = some frame) (nonempty : last.bytes ≠ [])
    (printable : (0 : UInt8) ∉ frame)
    (quiet : NoFrameOpened (posted r (front ++ [last])) later) :
    (InBounds (posted r (front ++ [last])).accesses ∧
      parsedText (run (posted r (front ++ [last])) later).buf.appBuffer = some frame) ↔
      FrameWithin (front ++ [last]) ∧
        (2 ≤ last.bytes.length ∨ frame.length < 128 ∧
          (run r (front.map .delivery)).buf.appBuffer frame.length = 0) := by
  have held := run_holds_frame r (front ++ [last]) frame free empty closed received
  have behind := run_byte_behind r front last frame empty closed free received nonempty
  have step : posted r (front ++ [last]) = timeout (run r ((front ++ [last]).map .delivery)) :=
    run_append r _ _
  have bytes : (run (posted r (front ++ [last])) later).buf.appBuffer =
      (run r ((front ++ [last]).map .delivery)).buf.appBuffer := by
    rw [run_appBuffer _ later quiet, step, (timeout_open _ held.opened).2.2]
  have bounded : InBounds (posted r (front ++ [last])).accesses ↔
      FrameWithin (front ++ [last]) := by
    rw [step, timeout_accesses, run_frame_inBounds_iff r _ free empty closed]
    exact and_iff_right defined
  rw [bounded, bytes, parsedText_eq_some_iff _ _ printable, behind]
  refine and_congr_right fun fits => ?_
  have room := frameWithin_append front last frame received fits
  split
  · rename_i long
    have short : frame.length < 128 := by omega
    simp only [short, long, true_and, true_or, iff_true]
    exact held.stored
  · rename_i single
    simp only [single, false_or]
    exact ⟨fun text => ⟨text.1, text.2.1⟩, fun nul => ⟨nul.1, nul.2, held.stored⟩⟩

/-- The receiver after a delivery that opens no frame, and its timeout. -/
def afterOther : Receiver :=
  posted (initial (fun _ => 0) (fun _ => 0) startGlobals)
    [⟨ascii "0123456789ABCDEF", by decide⟩]

def opensFrame : Delivery := ⟨ascii "\x7b\"id\":\"7\"", by decide⟩
def closesFrame : Delivery := ⟨ascii "\x7d", by decide⟩
def endsFrame : Delivery := ⟨ascii " \x7d", by decide⟩

theorem parsed_text_two_bytes :
    parsedText (posted afterOther [opensFrame, endsFrame]).buf.appBuffer =
      some (ascii "\x7b\"id\":\"7\" \x7d") :=
  ((parsed_text_iff afterOther [opensFrame] endsFrame (ascii "\x7b\"id\":\"7\" \x7d") []
    (by decide +kernel) (by decide +kernel) (by decide +kernel) (by decide +kernel)
    (by decide +kernel) (by decide +kernel) (by decide +kernel) trivial).mpr
    ⟨⟨by decide +kernel, by decide +kernel, by decide +kernel, by decide +kernel, trivial⟩,
      Or.inl (by decide +kernel)⟩).2

/-- The first frame of all; a single closing byte leaves the stale bytes of the other
delivery in the text. -/
theorem stale_tail_parsed :
    frameOf [opensFrame, closesFrame] = some (ascii "\x7b\"id\":\"7\"\x7d") ∧
    parsedText (posted afterOther [opensFrame, closesFrame]).buf.appBuffer =
      some (ascii "\x7b\"id\":\"7\"\x7dABCDEF") := by
  decide +kernel

end KyokaMirror.Esp32
