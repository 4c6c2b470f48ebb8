import KyokaMirror.Esp32.Dispatch

set_option autoImplicit false

namespace KyokaMirror.Esp32

open Users

/-- No command starts at the index of the iteration: none of the words, apart
from a `get` of the third variant and a `face` without a pending face. -/
structure Harmless (s : Scan) : Prop where
  state : s.sees kwState = false
  get : s.sees kwGet = true → s.buf.uartRxBuffer (s.i + 7) = charDot
  add : s.sees kwAdd = false
  face : s.sees kwFace = true → s.glob.faceFlag ≠ 1
  sign : s.sees kwSign = false

/-- Neither an action nor a change of the globals. -/
def Unmoved (s t : Scan) : Prop := t.actions = s.actions ∧ t.glob = s.glob

theorem Unmoved.refl (s : Scan) : Unmoved s s := ⟨rfl, rfl⟩

theorem Unmoved.trans {s t u : Scan} (first : Unmoved s t) (second : Unmoved t u) : Unmoved s u :=
  ⟨second.1.trans first.1, second.2.trans first.2⟩

theorem stateTest_unmoved {s : Scan} (unseen : s.sees kwState = false) :
    Unmoved s (stateTest s) := by
  rw [stateTest, unseen]
  exact ⟨rfl, rfl⟩

theorem getTest_unmoved {s : Scan}
    (dot : s.sees kwGet = true → s.buf.uartRxBuffer (s.i + 7) = charDot) :
    Unmoved s (getTest s) := by
  unfold getTest
  by_cases seen : s.sees kwGet = true
  · rw [if_pos seen, dot seen, if_neg (by decide), if_pos (by decide)]
    exact ⟨rfl, rfl⟩
  · rw [if_neg seen]
    exact ⟨rfl, rfl⟩

theorem addTest_unmoved {s : Scan} (unseen : s.sees kwAdd = false) : Unmoved s (addTest s) := by
  rw [addTest, unseen]
  exact ⟨rfl, rfl⟩

theorem faceTest_unmoved {s : Scan} (none : s.sees kwFace = true → s.glob.faceFlag ≠ 1) :
    Unmoved s (faceTest s) := by
  unfold faceTest
  by_cases seen : s.sees kwFace = true
  · rw [if_pos seen, if_neg (none seen)]
    exact ⟨rfl, rfl⟩
  · rw [if_neg seen]
    exact ⟨rfl, rfl⟩

theorem signTest_unmoved {s : Scan} (unseen : s.sees kwSign = false) : Unmoved s (signTest s) := by
  rw [signTest, unseen]
  exact ⟨rfl, rfl⟩

theorem landing_of_dot {s : Scan}
    (dot : s.sees kwGet = true → s.buf.uartRxBuffer (s.i + 7) = charDot) : s.landing = s.i := by
  apply landing_of_not_lists
  intro jumps
  rw [Scan.lists, Bool.and_eq_true, Bool.and_eq_true, bne_iff_ne, bne_iff_ne] at jumps
  exact jumps.2 (dot jumps.1.1)

/-- What the tests behind `get` see when it does not move the index. -/
theorem sees_behind_get {s : Scan}
    (dot : s.sees kwGet = true → s.buf.uartRxBuffer (s.i + 7) = charDot) (kw : List UInt8) :
    (getTest (stateTest s)).sees kw = s.sees kw := by
  rw [Scan.sees, getTest_i, landing_congr (stateTest_i s) (stateTest_buf s) (stateTest_glob s),
    landing_of_dot dot, getTest_buf, stateTest_buf]
  rfl

theorem commands_unmoved {s : Scan} (harmless : Harmless s) : Unmoved s (commands s) := by
  obtain ⟨state, get, add, face, sign⟩ := harmless
  have first := stateTest_unmoved state
  have second : Unmoved (stateTest s) (getTest (stateTest s)) := by
    apply getTest_unmoved
    rw [Scan.sees, stateTest_buf, stateTest_i]
    exact get
  have third := addTest_unmoved ((sees_behind_get get kwAdd).trans add)
  have fourth : Unmoved (addTest (getTest (stateTest s)))
      (faceTest (addTest (getTest (stateTest s)))) := by
    apply faceTest_unmoved
    rw [Scan.sees, addTest_buf, addTest_i, addTest_faceFlag, getTest_glob, stateTest_glob]
    exact fun seen => face ((sees_behind_get get kwFace).symm.trans seen)
  have fifth : Unmoved (faceTest (addTest (getTest (stateTest s)))) (commands s) := by
    apply signTest_unmoved
    rw [Scan.sees, faceTest_buf, faceTest_i, addTest_buf, addTest_i]
    exact (sees_behind_get get kwSign).trans sign
  exact (((first.trans second).trans third).trans fourth).trans fifth

theorem getTest_acts_unless_dot {s : Scan} (seen : s.sees kwGet = true)
    (other : s.buf.uartRxBuffer (s.i + 7) ≠ charDot) :
    (getTest s).actions.length = s.actions.length + 1 := by
  unfold getTest
  rw [if_pos seen]
  split_ifs with number dot
  · exact List.length_append
  · exact absurd (beq_iff_eq.mp dot) other
  · exact List.length_append

/-- An iteration without an action met no command. -/
theorem harmless_of_commands {s : Scan} (still : (commands s).actions = s.actions) :
    Harmless s := by
  have state := (stateTest_extends_actions s).length_le
  have get := (getTest_extends_actions (stateTest s)).length_le
  have add := (addTest_extends_actions (getTest (stateTest s))).length_le
  have face := (faceTest_extends_actions (addTest (getTest (stateTest s)))).length_le
  have sign := (signTest_extends_actions (faceTest (addTest (getTest (stateTest s))))).length_le
  have total := congrArg List.length still
  simp only [commands] at total
  have dot : s.sees kwGet = true → s.buf.uartRxBuffer (s.i + 7) = charDot := by
    intro seen
    by_contra other
    have acted := getTest_acts_unless_dot (s := stateTest s)
      (by rw [Scan.sees, stateTest_buf, stateTest_i]; exact seen)
      (by rw [stateTest_buf, stateTest_i]; exact other)
    omega
  refine ⟨?_, dot, ?_, ?_, ?_⟩
  · rw [← Bool.not_eq_true]
    intro seen
    have acted := stateTest_acts s seen
    omega
  · rw [← Bool.not_eq_true]
    intro seen
    have acted := addTest_acts _ ((sees_behind_get dot kwAdd).trans seen)
    omega
  · intro seen flag
    have acted := faceTest_acts (addTest (getTest (stateTest s)))
      (by
        rw [Scan.sees, addTest_buf, addTest_i]
        exact (sees_behind_get dot kwFace).trans seen)
      (by rw [addTest_faceFlag, getTest_glob, stateTest_glob]; exact flag)
    omega
  · rw [← Bool.not_eq_true]
    intro seen
    have acted := signTest_acts (faceTest (addTest (getTest (stateTest s)))) (by
      rw [Scan.sees, faceTest_buf, faceTest_i, addTest_buf, addTest_i]
      exact (sees_behind_get dot kwSign).trans seen)
    omega

/-- The scan from here to the end of the delivery. -/
def RestInert (rxLength : Nat) (s : Scan) : Prop := Unmoved s (scanLoop rxLength rxLength s)

theorem scanLoop_fuel (rxLength fuel : Nat) :
    ∀ (other : Nat) (s : Scan), rxLength ≤ s.i + fuel → rxLength ≤ s.i + other →
      scanLoop rxLength fuel s = scanLoop rxLength other s := by
  induction fuel with
  | zero =>
      intro other s enough _
      have outside : ¬ s.i < rxLength := by omega
      cases other with
      | zero => rfl
      | succ other => rw [scanLoop, scanLoop, if_neg outside]
  | succ fuel ih =>
      intro other s enough also
      by_cases inside : s.i < rxLength
      · cases other with
        | zero => omega
        | succ other =>
            have grows := le_landing s
            rw [scanLoop, scanLoop, if_pos inside, if_pos inside]
            exact ih other _ (by rw [scanBody_i]; omega) (by rw [scanBody_i]; omega)
      · cases other with
        | zero => rw [scanLoop, scanLoop, if_neg inside]
        | succ other => rw [scanLoop, scanLoop, if_neg inside, if_neg inside]

theorem scanBody_readstate (rxLength : Nat) {s : Scan} (opened : s.buf.readstate = true) :
    (scanBody rxLength s).buf.readstate = true := by
  rw [scanBody_buf]
  exact (capture_open (by rw [opened, Bool.true_or])).1

theorem scanBody_unmoved (rxLength : Nat) {s : Scan} (harmless : Harmless s) :
    Unmoved s (scanBody rxLength s) := by
  obtain ⟨actions, glob⟩ := commands_unmoved harmless
  exact ⟨(scanBody_actions rxLength s).trans actions, (scanBody_glob rxLength s).trans glob⟩

theorem scanLoop_unmoved (rxLength fuel : Nat) :
    ∀ s : Scan, s.buf.readstate = true →
      EachIteration (fun s => s.buf.readstate = true → Harmless s) rxLength fuel s →
      Unmoved s (scanLoop rxLength fuel s) := by
  induction fuel with
  | zero => exact fun s _ _ => Unmoved.refl s
  | succ fuel ih =>
      intro s opened each
      rw [scanLoop]
      split
      · rename_i inside
        obtain ⟨here, later⟩ := each inside
        exact (scanBody_unmoved rxLength (here opened)).trans
          (ih _ (scanBody_readstate rxLength opened) later)
      · exact Unmoved.refl s

theorem harmless_of_restInert {rxLength : Nat} {s : Scan} (inside : s.i < rxLength)
    (inert : RestInert rxLength s) : Harmless s := by
  obtain ⟨actions, -⟩ := inert
  obtain ⟨fuel, rfl⟩ : ∃ fuel, rxLength = fuel + 1 := ⟨rxLength - 1, by omega⟩
  rw [scanLoop, if_pos inside] at actions
  -- The first iteration acts no more than the whole scan does.
  have first := scanBody_extends_actions (fuel + 1) s
  have rest := scanLoop_extends_actions (fuel + 1) fuel (scanBody (fuel + 1) s)
  rw [actions] at rest
  apply harmless_of_commands
  rw [← scanBody_actions (fuel + 1)]
  exact rest.eq_of_length_le first.length_le

theorem eachIteration_inert_iff (rxLength fuel : Nat) :
    ∀ s : Scan, rxLength ≤ s.i + fuel →
      (EachIteration (fun s => s.buf.readstate = true → RestInert rxLength s) rxLength fuel s ↔
        EachIteration (fun s => s.buf.readstate = true → Harmless s) rxLength fuel s) := by
  induction fuel with
  | zero => exact fun s _ => Iff.rfl
  | succ fuel ih =>
      intro s enough
      have next : s.i < rxLength → rxLength ≤ (scanBody rxLength s).i + fuel := by
        have grows := le_landing s
        rw [scanBody_i]
        omega
      constructor
      · intro each inside
        obtain ⟨here, later⟩ := each inside
        exact ⟨fun opened => harmless_of_restInert inside (here opened),
          (ih _ (next inside)).mp later⟩
      · intro each inside
        refine ⟨?_, (ih _ (next inside)).mpr (each inside).2⟩
        intro opened
        rw [RestInert, scanLoop_fuel rxLength rxLength (fuel + 1) s (Nat.le_add_left _ _) enough]
        exact scanLoop_unmoved rxLength (fuel + 1) s opened each

/-- While a frame is open, the rest of a delivery is without effect on the
globals and the outputs exactly when no command starts at any of its bytes. -/
theorem payload_inert_iff (r : Receiver) (events : List Event) :
    EachStep (fun rxLength s => s.buf.readstate = true → RestInert rxLength s) r events ↔
      EachStep (fun _ s => s.buf.readstate = true → Harmless s) r events := by
  induction events generalizing r with
  | nil => exact Iff.rfl
  | cons event rest ih =>
      cases event with
      | timeout => exact ih (timeout r)
      | delivery d =>
          rw [EachStep, EachStep, ih, eachIteration_inert_iff _ _ _ (Nat.le_add_left _ _)]

/-- The frame `{"add":""}`. -/
def addFrame : Delivery := ⟨ascii "\x7b\"add\":\"\"\x7d", by decide⟩

/-- Its member name adds a user. -/
theorem member_name_adds_user :
    (run (initial (fun _ => 0) (fun _ => 0) startGlobals) [.delivery addFrame]).glob.userNum = 3 ∧
      ¬ EachStep (fun rxLength s => s.buf.readstate = true → RestInert rxLength s)
        (initial (fun _ => 0) (fun _ => 0) startGlobals) [.delivery addFrame] := by
  refine ⟨by decide +kernel, ?_⟩
  intro each
  have third := ((each.1 (by decide)).2 (by decide +kernel)).2 (by decide +kernel)
  have inert := third.1 (by decide +kernel)
  exact absurd inert.1 (by decide +kernel)

end KyokaMirror.Esp32
