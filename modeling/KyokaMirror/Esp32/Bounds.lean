import KyokaMirror.Esp32.Scan

set_option autoImplicit false

namespace KyokaMirror.Esp32

open Users

theorem keywordReads_le_nul {b : Memory} {i n : Nat} {kw : List UInt8} (nul : b n = 0)
    (start : i ≤ n) (printable : (0 : UInt8) ∉ kw) :
    ∀ index ∈ keywordReads b i kw, index ≤ n := by
  induction kw generalizing i with
  | nil => simp only [keywordReads, List.not_mem_nil, false_implies, implies_true]
  | cons c rest ih =>
      intro index member
      rcases List.mem_cons.mp member with rfl | later
      · exact start
      · split at later
        · rename_i here
          have before : i ≠ n := by
            intro equal
            rw [equal, nul, beq_iff_eq] at here
            exact printable (here ▸ List.mem_cons_self)
          exact ih (by omega) (fun inRest => printable (List.mem_cons_of_mem _ inRest)) index later
        · cases later

/-- The chain would go on past the last byte of `uart_rx_buffer`. -/
def overruns (b : Memory) (i : Nat) (kw : List UInt8) : Bool := overrunsArray 128 b i kw

theorem keywordReads_lt_iff (b : Memory) (i : Nat) (kw : List UInt8) :
    (∀ index ∈ keywordReads b i kw, index < 128) ↔ overruns b i kw = false :=
  keywordReads_lt_size_iff 128 b i kw

theorem overruns_of_nul {b : Memory} {i n : Nat} {kw : List UInt8} (nul : b n = 0)
    (start : i ≤ n) (capped : n ≤ 127) (printable : (0 : UInt8) ∉ kw) :
    overruns b i kw = false := by
  rw [← keywordReads_lt_iff]
  intro index member
  have reached := keywordReads_le_nul nul start printable index member
  omega

theorem nul_not_mem_kwState : (0 : UInt8) ∉ kwState := by decide
theorem nul_not_mem_kwGet : (0 : UInt8) ∉ kwGet := by decide
theorem nul_not_mem_kwAdd : (0 : UInt8) ∉ kwAdd := by decide
theorem nul_not_mem_kwFace : (0 : UInt8) ∉ kwFace := by decide
theorem nul_not_mem_kwSign : (0 : UInt8) ∉ kwSign := by decide
theorem nul_not_mem_kwFrame : (0 : UInt8) ∉ kwFrame := by decide

def getReads (s : Scan) : List Nat :=
  if s.sees kwGet then
    if s.buf.uartRxBuffer (s.i + 7) == charN then [s.i + 7, s.i + 8]
    else if s.buf.uartRxBuffer (s.i + 7) == charDot then [s.i + 7, s.i + 7, s.i + 7]
    else [s.i + 7, s.i + 7]
  else []

def frameReads (s : Scan) : List Nat :=
  if s.buf.readstate then [] else keywordReads s.buf.uartRxBuffer s.landing kwFrame

/-- The tests behind `get`, in the order of the source. -/
def laterReads (s : Scan) : List Nat :=
  keywordReads s.buf.uartRxBuffer s.landing kwAdd ++
    keywordReads s.buf.uartRxBuffer s.landing kwFace ++
    keywordReads s.buf.uartRxBuffer s.landing kwSign

def Scan.captures (s : Scan) : Bool :=
  s.buf.readstate || keyword s.buf.uartRxBuffer s.landing kwFrame

def bodyAccesses (rxLength : Nat) (s : Scan) : List Access :=
  (keywordReads s.buf.uartRxBuffer s.i kwState ++ keywordReads s.buf.uartRxBuffer s.i kwGet ++
    getReads s ++ laterReads s ++ frameReads s).map .readRx ++
    if s.captures then copyAccesses s.buf.length s.landing rxLength else []

theorem stateTest_accesses (s : Scan) : (stateTest s).accesses =
    s.accesses ++ (keywordReads s.buf.uartRxBuffer s.i kwState).map .readRx := by
  unfold stateTest
  split <;> rfl

theorem getTest_accesses (s : Scan) : (getTest s).accesses =
    s.accesses ++ (keywordReads s.buf.uartRxBuffer s.i kwGet ++ getReads s).map .readRx := by
  unfold getTest getReads
  split_ifs <;> simp [Scan.look, Scan.read, Scan.act]

theorem addTest_accesses (s : Scan) : (addTest s).accesses =
    s.accesses ++ (keywordReads s.buf.uartRxBuffer s.i kwAdd).map .readRx := by
  unfold addTest
  split <;> rfl

theorem faceTest_accesses (s : Scan) : (faceTest s).accesses =
    s.accesses ++ (keywordReads s.buf.uartRxBuffer s.i kwFace).map .readRx := by
  unfold faceTest
  split_ifs <;> rfl

theorem signTest_accesses (s : Scan) : (signTest s).accesses =
    s.accesses ++ (keywordReads s.buf.uartRxBuffer s.i kwSign).map .readRx := by
  unfold signTest
  split <;> rfl

theorem getReads_congr {s t : Scan} (index : t.i = s.i) (buf : t.buf = s.buf) :
    getReads t = getReads s := by
  unfold getReads Scan.sees
  rw [index, buf]

theorem commands_accesses (s : Scan) : (commands s).accesses =
    s.accesses ++ (keywordReads s.buf.uartRxBuffer s.i kwState ++
      keywordReads s.buf.uartRxBuffer s.i kwGet ++ getReads s ++ laterReads s).map .readRx := by
  have moved : (stateTest s).landing = s.landing :=
    landing_congr (stateTest_i s) (stateTest_buf s) (stateTest_glob s)
  simp only [commands, signTest_accesses, faceTest_accesses, addTest_accesses, getTest_accesses,
    stateTest_accesses, faceTest_i, faceTest_buf, addTest_i, addTest_buf, getTest_i, getTest_buf,
    stateTest_i, stateTest_buf, moved, laterReads,
    getReads_congr (stateTest_i s) (stateTest_buf s), List.map_append, List.append_assoc]

theorem jsonTest_accesses (rxLength : Nat) (s : Scan) : (jsonTest rxLength s).accesses =
    s.accesses ++ ((if s.buf.readstate then []
      else keywordReads s.buf.uartRxBuffer s.i kwFrame).map .readRx ++
      if s.buf.readstate || s.sees kwFrame then copyAccesses s.buf.length s.i rxLength
      else []) := by
  unfold jsonTest Scan.lookFrame Scan.look
  split_ifs <;> simp_all

theorem scanBody_accesses (rxLength : Nat) (s : Scan) :
    (scanBody rxLength s).accesses = s.accesses ++ bodyAccesses rxLength s := by
  have tests := jsonTest_accesses rxLength (commands s)
  simp only [commands_accesses, commands_buf, commands_i, Scan.sees] at tests
  simp only [scanBody, tests, bodyAccesses, List.map_append, List.append_assoc]
  rfl

/-- Every access lies in the 128 bytes of the two buffers. -/
def InBounds (accesses : List Access) : Prop := ∀ a ∈ accesses, a.index < 128

instance : DecidablePred InBounds := fun accesses =>
  inferInstanceAs (Decidable (∀ a ∈ accesses, a.index < 128))

theorem inBounds_append (first second : List Access) :
    InBounds (first ++ second) ↔ InBounds first ∧ InBounds second := List.forall_mem_append

theorem inBounds_reads (indices : List Nat) :
    InBounds (indices.map .readRx) ↔ ∀ index ∈ indices, index < 128 := List.forall_mem_map

theorem inBounds_copyAccesses (length i rxLength : Nat) (positive : 0 < rxLength) :
    InBounds (copyAccesses length i rxLength) ↔ i + rxLength ≤ 128 ∧ length + rxLength ≤ 128 := by
  constructor
  · intro bounded
    have last : rxLength - 1 < rxLength := by omega
    have source := bounded (.readRx (i + (rxLength - 1)))
      (List.mem_flatMap.mpr ⟨_, List.mem_range.mpr last, by simp⟩)
    have target := bounded (.writeApp (length + (rxLength - 1)))
      (List.mem_flatMap.mpr ⟨_, List.mem_range.mpr last, by simp⟩)
    simp only [Access.index] at source target
    omega
  · rintro ⟨source, target⟩ a member
    obtain ⟨k, below, place⟩ := List.mem_flatMap.mp member
    have inside := List.mem_range.mp below
    simp only [List.mem_cons, List.not_mem_nil, or_false] at place
    rcases place with rfl | rfl <;> simp only [Access.index] <;> omega

/-- What an iteration of the scan needs of its state to stay in the buffers:
`get` is met early enough for its look-ahead; the index to which the list reply
jumps lies in the buffer, and no later test runs over the buffer's end there;
and a captured window ends inside both buffers. -/
structure Fits (rxLength : Nat) (s : Scan) : Prop where
  lookahead : s.sees kwGet = true →
    s.i + 7 < 128 ∧ (s.buf.uartRxBuffer (s.i + 7) = charN → s.i + 8 < 128)
  jump : s.lists = true → overruns s.buf.uartRxBuffer s.landing kwAdd = false ∧
    overruns s.buf.uartRxBuffer s.landing kwFace = false ∧
    overruns s.buf.uartRxBuffer s.landing kwSign = false
  marker : s.lists = true → s.buf.readstate = false →
    overruns s.buf.uartRxBuffer s.landing kwFrame = false
  window : s.captures = true →
    s.landing + rxLength ≤ 128 ∧ s.buf.length + rxLength ≤ 128

theorem getReads_lt_iff (s : Scan) : (∀ index ∈ getReads s, index < 128) ↔
    (s.sees kwGet = true →
      s.i + 7 < 128 ∧ (s.buf.uartRxBuffer (s.i + 7) = charN → s.i + 8 < 128)) := by
  have letters : charN ≠ charDot := by decide
  unfold getReads
  split_ifs with seen number dot <;> simp_all

theorem captured_inBounds_iff (s : Scan) {rxLength : Nat} (positive : 0 < rxLength) :
    InBounds (if s.captures then copyAccesses s.buf.length s.landing rxLength else []) ↔
      (s.captures = true → s.landing + rxLength ≤ 128 ∧ s.buf.length + rxLength ≤ 128) := by
  split
  · rename_i taken
    simp only [taken, true_implies]
    exact inBounds_copyAccesses _ _ _ positive
  · rename_i skipped
    simp [InBounds, skipped]

theorem landing_of_not_lists {s : Scan} (stays : ¬ s.lists = true) : s.landing = s.i := by
  simp only [Scan.landing, stays, Bool.false_eq_true, ↓reduceIte]

section iteration

variable {rxLength : Nat} {s : Scan} (inside : s.i < rxLength) (capped : rxLength ≤ 127)
  (nul : s.buf.uartRxBuffer rxLength = 0)

include inside capped nul

theorem overruns_at_index (kw : List UInt8) (printable : (0 : UInt8) ∉ kw) :
    overruns s.buf.uartRxBuffer s.i kw = false :=
  overruns_of_nul nul (Nat.le_of_lt inside) capped printable

/-- Without a jump the NUL behind the delivery stops every chain. -/
theorem overruns_landing_iff (kw : List UInt8) (printable : (0 : UInt8) ∉ kw) :
    overruns s.buf.uartRxBuffer s.landing kw = false ↔
      (s.lists = true → overruns s.buf.uartRxBuffer s.landing kw = false) := by
  by_cases jumps : s.lists = true
  · simp only [jumps, true_implies]
  · simp only [jumps, Bool.false_eq_true, false_implies, iff_true]
    rw [landing_of_not_lists jumps]
    exact overruns_at_index inside capped nul kw printable

theorem laterReads_lt_iff : (∀ index ∈ laterReads s, index < 128) ↔
    (s.lists = true → overruns s.buf.uartRxBuffer s.landing kwAdd = false ∧
      overruns s.buf.uartRxBuffer s.landing kwFace = false ∧
      overruns s.buf.uartRxBuffer s.landing kwSign = false) := by
  have add := overruns_landing_iff inside capped nul kwAdd nul_not_mem_kwAdd
  have face := overruns_landing_iff inside capped nul kwFace nul_not_mem_kwFace
  have sign := overruns_landing_iff inside capped nul kwSign nul_not_mem_kwSign
  simp only [laterReads, List.forall_mem_append, keywordReads_lt_iff]
  constructor
  · rintro ⟨⟨first, second⟩, third⟩ _
    exact ⟨first, second, third⟩
  · intro all
    exact ⟨⟨add.mpr fun jumps => (all jumps).1, face.mpr fun jumps => (all jumps).2.1⟩,
      sign.mpr fun jumps => (all jumps).2.2⟩

theorem frameReads_lt_iff : (∀ index ∈ frameReads s, index < 128) ↔
    (s.lists = true → s.buf.readstate = false →
      overruns s.buf.uartRxBuffer s.landing kwFrame = false) := by
  unfold frameReads
  cases s.buf.readstate with
  | true => simp
  | false =>
      simp only [Bool.false_eq_true, ↓reduceIte, keywordReads_lt_iff, true_implies]
      exact overruns_landing_iff inside capped nul kwFrame nul_not_mem_kwFrame

theorem bodyAccesses_inBounds_iff : InBounds (bodyAccesses rxLength s) ↔ Fits rxLength s := by
  have first := (keywordReads_lt_iff s.buf.uartRxBuffer s.i kwState).mpr
    (overruns_at_index inside capped nul kwState nul_not_mem_kwState)
  have second := (keywordReads_lt_iff s.buf.uartRxBuffer s.i kwGet).mpr
    (overruns_at_index inside capped nul kwGet nul_not_mem_kwGet)
  rw [bodyAccesses, inBounds_append, inBounds_reads]
  simp only [List.forall_mem_append]
  rw [getReads_lt_iff, laterReads_lt_iff inside capped nul, frameReads_lt_iff inside capped nul,
    captured_inBounds_iff s (Nat.zero_lt_of_lt inside)]
  constructor
  · rintro ⟨⟨⟨⟨_, lookahead⟩, jump⟩, marker⟩, window⟩
    exact ⟨lookahead, jump, marker, window⟩
  · rintro ⟨lookahead, jump, marker, window⟩
    exact ⟨⟨⟨⟨⟨first, second⟩, lookahead⟩, jump⟩, marker⟩, window⟩

end iteration

/-- `cond` holds of the state before every iteration that the scan makes. -/
def EachIteration (cond : Scan → Prop) (rxLength : Nat) : Nat → Scan → Prop
  | 0, _ => True
  | fuel + 1, s =>
      s.i < rxLength → cond s ∧ EachIteration cond rxLength fuel (scanBody rxLength s)

theorem scanLoop_inBounds_iff (rxLength fuel : Nat) (s : Scan) (capped : rxLength ≤ 127)
    (nul : s.buf.uartRxBuffer rxLength = 0) :
    InBounds (scanLoop rxLength fuel s).accesses ↔
      InBounds s.accesses ∧ EachIteration (Fits rxLength) rxLength fuel s := by
  induction fuel generalizing s with
  | zero => simp only [scanLoop, EachIteration, and_true]
  | succ fuel ih =>
      rw [scanLoop, EachIteration]
      split
      · rename_i inside
        rw [ih (scanBody rxLength s) (by rw [scanBody_uartRxBuffer, nul]), scanBody_accesses,
          inBounds_append, bodyAccesses_inBounds_iff inside capped nul]
        simp only [inside, true_implies, and_assoc]
      · rename_i outside
        simp only [outside, false_implies, and_true]

theorem fill_nul (b : Memory) (bytes : List UInt8) : fill b bytes bytes.length = 0 := by
  simp only [fill, ↓reduceIte]

/-- `cond` holds before every iteration of every delivery of the run. -/
def EachStep (cond : Nat → Scan → Prop) : Receiver → List Event → Prop
  | _, [] => True
  | r, .timeout :: rest => EachStep cond (timeout r) rest
  | r, .delivery d :: rest =>
      EachIteration (cond d.bytes.length) d.bytes.length d.bytes.length (startScan r d.bytes) ∧
        EachStep cond (deliver r d.bytes) rest

theorem timeout_accesses (r : Receiver) : (timeout r).accesses = r.accesses := by
  unfold timeout
  split <;> rfl

theorem deliver_inBounds_iff (r : Receiver) (d : Delivery) :
    InBounds (deliver r d.bytes).accesses ↔ InBounds r.accesses ∧
      EachIteration (Fits d.bytes.length) d.bytes.length d.bytes.length (startScan r d.bytes) :=
  scanLoop_inBounds_iff d.bytes.length d.bytes.length (startScan r d.bytes) d.capped
    (fill_nul r.buf.uartRxBuffer d.bytes)

theorem run_inBounds_iff (r : Receiver) (events : List Event) :
    InBounds (run r events).accesses ↔ InBounds r.accesses ∧ EachStep Fits r events := by
  induction events generalizing r with
  | nil => simp only [run, List.foldl_nil, EachStep, and_true]
  | cons event rest ih =>
      cases event with
      | timeout =>
          rw [EachStep, ← timeout_accesses r]
          exact ih (timeout r)
      | delivery d =>
          rw [EachStep, ← and_assoc, ← deliver_inBounds_iff]
          exact ih (deliver r d.bytes)

/-- The thread before its first message, with any buffer contents. -/
def initial (rx app : Memory) (glob : Globals) : Receiver :=
  { buf := ⟨rx, app, 0, false⟩
    glob := glob
    jsonLength := 0
    published := 0
    accesses := []
    actions := [] }

/- Deliveries without `get`: the scan visits every index, and the bounds of
its captures have a closed form. -/

/-- No index of the delivery starts the keyword `get`. -/
def GetFree (b : Memory) (rxLength : Nat) : Prop := ∀ i < rxLength, keyword b i kwGet = false

instance (b : Memory) (rxLength : Nat) : Decidable (GetFree b rxLength) :=
  inferInstanceAs (Decidable (∀ i < rxLength, keyword b i kwGet = false))

theorem GetFree.lists {rxLength : Nat} {s : Scan} (free : GetFree s.buf.uartRxBuffer rxLength)
    (inside : s.i < rxLength) : s.lists = false := by
  simp only [Scan.lists, Scan.sees, free s.i inside, Bool.false_and]

theorem GetFree.landing {rxLength : Nat} {s : Scan} (free : GetFree s.buf.uartRxBuffer rxLength)
    (inside : s.i < rxLength) : s.landing = s.i := by
  simp only [Scan.landing, free.lists inside, Bool.false_eq_true, ↓reduceIte]

theorem GetFree.fits_iff {rxLength : Nat} {s : Scan} (free : GetFree s.buf.uartRxBuffer rxLength)
    (inside : s.i < rxLength) : Fits rxLength s ↔
      (s.buf.readstate || keyword s.buf.uartRxBuffer s.i kwFrame) = true →
        s.i + rxLength ≤ 128 ∧ s.buf.length + rxLength ≤ 128 := by
  have here : s.captures = (s.buf.readstate || keyword s.buf.uartRxBuffer s.i kwFrame) := by
    rw [Scan.captures, free.landing inside]
  rw [← here]
  constructor
  · intro fits taken
    simpa only [free.landing inside] using fits.window taken
  · intro window
    refine ⟨?_, ?_, ?_, ?_⟩
    · intro seen
      rw [Scan.sees, free s.i inside] at seen
      cases seen
    · intro jumps
      rw [free.lists inside] at jumps
      cases jumps
    · intro jumps
      rw [free.lists inside] at jumps
      cases jumps
    · rw [free.landing inside]
      exact window

theorem GetFree.scanBody {rxLength : Nat} {s : Scan} (free : GetFree s.buf.uartRxBuffer rxLength) :
    GetFree (scanBody rxLength s).buf.uartRxBuffer rxLength := by
  rwa [scanBody_uartRxBuffer]

theorem capture_open {rxLength i : Nat} {b : Buffers}
    (taken : (b.readstate || keyword b.uartRxBuffer i kwFrame) = true) :
    (capture rxLength i b).readstate = true ∧ (capture rxLength i b).length = b.length + 1 := by
  simp only [capture, taken, ↓reduceIte, and_self]

/-- From the opening of a frame on, the last captured index decides. -/
theorem eachIteration_frame (rxLength fuel : Nat) (s : Scan)
    (free : GetFree s.buf.uartRxBuffer rxLength) (enough : rxLength ≤ s.i + fuel)
    (taken : (s.buf.readstate || keyword s.buf.uartRxBuffer s.i kwFrame) = true)
    (inside : s.i < rxLength) :
    EachIteration (Fits rxLength) rxLength fuel s ↔
      rxLength + rxLength ≤ 129 ∧ s.buf.length + (rxLength - s.i) + rxLength ≤ 129 := by
  induction fuel generalizing s with
  | zero => omega
  | succ fuel ih =>
      have index : (scanBody rxLength s).i = s.i + 1 := by
        rw [scanBody_i, free.landing inside]
      have opened : (scanBody rxLength s).buf.readstate = true ∧
          (scanBody rxLength s).buf.length = s.buf.length + 1 := by
        rw [scanBody_buf, free.landing inside]
        exact capture_open taken
      rw [EachIteration, free.fits_iff inside]
      simp only [inside, taken, true_implies]
      by_cases more : s.i + 1 < rxLength
      · rw [ih (scanBody rxLength s) free.scanBody (by rw [index]; omega)
          (by rw [opened.1, Bool.true_or]) (by rw [index]; exact more), index, opened.2]
        omega
      · have ended : EachIteration (Fits rxLength) rxLength fuel (scanBody rxLength s) := by
          cases fuel with
          | zero => trivial
          | succ fuel =>
              intro again
              rw [index] at again
              exact absurd again more
        simp only [ended, and_true]
        omega

theorem capture_closed {rxLength i : Nat} {b : Buffers} (closed : b.readstate = false)
    (quiet : keyword b.uartRxBuffer i kwFrame = false) : capture rxLength i b = b := by
  simp only [capture, closed, quiet, Bool.or_self, Bool.false_eq_true, ↓reduceIte]

/-- An index at which nothing begins leaves the buffers alone. -/
theorem GetFree.scanBody_quiet {rxLength : Nat} {s : Scan}
    (free : GetFree s.buf.uartRxBuffer rxLength) (inside : s.i < rxLength)
    (closed : s.buf.readstate = false)
    (quiet : keyword s.buf.uartRxBuffer s.i kwFrame = false) :
    (Esp32.scanBody rxLength s).i = s.i + 1 ∧ (Esp32.scanBody rxLength s).buf = s.buf := by
  rw [scanBody_i, scanBody_buf, free.landing inside]
  exact ⟨rfl, capture_closed closed quiet⟩

theorem eachIteration_opening (rxLength start fuel : Nat) (s : Scan)
    (free : GetFree s.buf.uartRxBuffer rxLength) (closed : s.buf.readstate = false)
    (quiet : ∀ i < start, keyword s.buf.uartRxBuffer i kwFrame = false)
    (opens : keyword s.buf.uartRxBuffer start kwFrame = true)
    (before : s.i ≤ start) (inside : start < rxLength) (enough : rxLength ≤ s.i + fuel) :
    EachIteration (Fits rxLength) rxLength fuel s ↔
      rxLength + rxLength ≤ 129 ∧ s.buf.length + (rxLength - start) + rxLength ≤ 129 := by
  induction fuel generalizing s with
  | zero => omega
  | succ fuel ih =>
      by_cases here : s.i = start
      · have framed := eachIteration_frame rxLength (fuel + 1) s free enough
          (by rw [here, opens, Bool.or_true]) (by rw [here]; exact inside)
        rwa [here] at framed
      · have now : s.i < rxLength := by omega
        have nothing := quiet s.i (by omega)
        obtain ⟨index, same⟩ := free.scanBody_quiet now closed nothing
        have idle : Fits rxLength s := (free.fits_iff now).mpr (by
          intro taken
          rw [closed, nothing] at taken
          cases taken)
        rw [EachIteration]
        simp only [now, idle, true_implies, true_and]
        rw [ih (scanBody rxLength s) free.scanBody (by rw [same]; exact closed)
          (by rw [same]; exact quiet) (by rw [same]; exact opens) (by rw [index]; omega)
          (by rw [index]; omega), same]

theorem eachIteration_silent (rxLength fuel : Nat) (s : Scan)
    (free : GetFree s.buf.uartRxBuffer rxLength) (closed : s.buf.readstate = false)
    (quiet : ∀ i < rxLength, keyword s.buf.uartRxBuffer i kwFrame = false) :
    EachIteration (Fits rxLength) rxLength fuel s := by
  induction fuel generalizing s with
  | zero => trivial
  | succ fuel ih =>
      intro inside
      have nothing := quiet s.i inside
      obtain ⟨index, same⟩ := free.scanBody_quiet inside closed nothing
      refine ⟨(free.fits_iff inside).mpr ?_, ?_⟩
      · intro taken
        rw [closed, nothing] at taken
        cases taken
      · exact ih (scanBody rxLength s) free.scanBody (by rw [same]; exact closed)
          (by rw [same]; exact quiet)

section delivery

variable (r : Receiver) (d : Delivery)
  (free : GetFree (fill r.buf.uartRxBuffer d.bytes) d.bytes.length)

include free

/-- A delivery that goes on with an open frame. -/
theorem deliver_continuing_inBounds_iff (opened : r.buf.readstate = true)
    (positive : 0 < d.bytes.length) :
    InBounds (deliver r d.bytes).accesses ↔ InBounds r.accesses ∧
      d.bytes.length + d.bytes.length ≤ 129 ∧
      r.buf.length + d.bytes.length + d.bytes.length ≤ 129 := by
  rw [deliver_inBounds_iff, eachIteration_frame _ _ (startScan r d.bytes) free
    (Nat.le_add_left _ _) (by simp only [startScan, opened, Bool.true_or]) positive]
  rfl

/-- A delivery whose index `start` opens a frame. -/
theorem deliver_opening_inBounds_iff (start : Nat) (closed : r.buf.readstate = false)
    (quiet : ∀ i < start, keyword (fill r.buf.uartRxBuffer d.bytes) i kwFrame = false)
    (opens : keyword (fill r.buf.uartRxBuffer d.bytes) start kwFrame = true)
    (inside : start < d.bytes.length) :
    InBounds (deliver r d.bytes).accesses ↔ InBounds r.accesses ∧
      d.bytes.length + d.bytes.length ≤ 129 ∧
      r.buf.length + (d.bytes.length - start) + d.bytes.length ≤ 129 := by
  rw [deliver_inBounds_iff, eachIteration_opening _ start _ (startScan r d.bytes) free closed
    quiet opens (Nat.zero_le _) inside (Nat.le_add_left _ _)]
  rfl

theorem deliver_silent_inBounds_iff (closed : r.buf.readstate = false)
    (quiet : ∀ i < d.bytes.length, keyword (fill r.buf.uartRxBuffer d.bytes) i kwFrame = false) :
    InBounds (deliver r d.bytes).accesses ↔ InBounds r.accesses := by
  rw [deliver_inBounds_iff]
  exact and_iff_left (eachIteration_silent _ _ (startScan r d.bytes) free closed quiet)

end delivery

/-- A run keeps every index in 0..127 exactly when each iteration of its scans
meets `Fits`. -/
theorem receiver_inBounds_iff (rx app : Memory) (glob : Globals) (events : List Event) :
    InBounds (run (initial rx app glob) events).accesses ↔
      EachStep Fits (initial rx app glob) events := by
  rw [run_inBounds_iff]
  simp [InBounds, initial]

/-- The globals when the thread enters its loop. -/
def startGlobals : Globals :=
  { userDate := builtinUsers (fun _ => 0), userNum := 2, faceFlag := 0, userQuanFlag := 0 }

/-- The capture of the last byte of this frame of 65 bytes reads
`uart_rx_buffer[128]`. -/
def longFrame : Delivery := ⟨ascii "\x7b\"" ++ List.replicate 63 97, by decide⟩

theorem longFrame_out_of_bounds :
    ¬ InBounds (run (initial (fun _ => 0) (fun _ => 0) startGlobals)
      [.delivery longFrame]).accesses := by
  intro bounded
  have limits := (deliver_opening_inBounds_iff
    (initial (fun _ => 0) (fun _ => 0) startGlobals) longFrame (by decide) 0 rfl
    (by simp only [Nat.not_lt_zero, false_implies, implies_true]) (by decide) (by decide)).mp
    bounded
  exact absurd limits.2.1 (by decide)

end KyokaMirror.Esp32
