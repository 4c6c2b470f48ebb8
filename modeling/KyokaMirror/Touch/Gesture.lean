import KyokaMirror.Library.Transition
import KyokaMirror.Touch.Sample

set_option autoImplicit false

namespace KyokaMirror.Touch

open Library Library.Transition

/-- What the thread does that others see: events for the server, calls of
`calibration_func`, and the pen-ups it observes. -/
inductive Entry where
  | down (x y : BitVec 16)
  | up (x y : BitVec 16)
  | calibrated (x y : BitVec 16)
  | penUp
  deriving DecidableEq, Repr

/-- The thread between two checks; `tracking` is the inner loop. The log has its
newest entry first. -/
structure TouchThread where
  touch : RtguiTouchDevice
  touchDown : Bool
  previousX : BitVec 32
  previousY : BitVec 32
  tracking : Bool
  log : List Entry
  deriving DecidableEq, Repr

/-- What happens next: `rt_event_recv` returns with or without the event, the pen
is up at the first check, or only at the second one, or down at both, and another
thread calls `rtgui_touch_control`. -/
inductive Observation where
  | timeout
  | event
  | penUp
  | bounce
  | penDown (received : Received)
  | control (cmd : TouchCommand)

def previousKeep : BitVec 32 := 8

/-- The filter. The coordinates are promoted and then compared without a sign. -/
def moved (touch : RtguiTouchDevice) (previousX previousY : BitVec 32) : Bool :=
  let x := touch.x.setWidth 32
  let y := touch.y.setWidth 32
  previousX > x + previousKeep || previousX < x - previousKeep ||
    previousY > y + previousKeep || previousY < y - previousKeep

/-- The branch of `IS_TOUCH_UP()`, which leaves the inner loop. -/
def touchUp (s : TouchThread) : TouchThread :=
  if s.touchDown = false then { s with tracking := false, log := .penUp :: s.log }
  else
    let entry := if s.touch.calibrating && s.touch.calibrationFunc then
        Entry.calibrated s.touch.x s.touch.y
      else Entry.up s.touch.x s.touch.y
    { s with
      previousX := 0
      previousY := 0
      touchDown := false
      tracking := false
      log := entry :: .penUp :: s.log }

/-- The rest of the other branch, after the calculation. -/
def touchMoved (touch : RtguiTouchDevice) (s : TouchThread) : TouchThread :=
  if touch.calibrating then { s with touch := touch, touchDown := true }
  else if moved touch s.previousX s.previousY then
    { s with
      touch := touch
      previousX := touch.x.setWidth 32
      previousY := touch.y.setWidth 32
      touchDown := true
      log := .down touch.x touch.y :: s.log }
  else { s with touch := touch }

/-- `touch_thread_entry`, one observation at a time. -/
def touchThreadStep (observation : Observation) (s : TouchThread) : Option TouchThread :=
  match observation with
  | .timeout => if s.tracking then none else some s
  | .event => if s.tracking then none else some { s with tracking := true }
  | .penUp => if s.tracking then some (touchUp s) else none
  | .bounce => if s.tracking then some s else none
  | .penDown received =>
    if s.tracking then (rtguiTouchCalculate received s.touch).map (touchMoved · s) else none
  | .control cmd => some { s with touch := rtguiTouchControl cmd s.touch }

/-- `touch_previous` is static and `touch_down` starts as `RT_FALSE`. -/
def touchThreadEntry (touch : RtguiTouchDevice) : TouchThread where
  touch := touch
  touchDown := false
  previousX := 0
  previousY := 0
  tracking := false
  log := []

/-- The last position posted since the last pen-up, if any. -/
def posted : List Entry → Option (Nat × Nat)
  | [] => none
  | .down x y :: _ => some (x.toNat, y.toNat)
  | .penUp :: _ => none
  | .up _ _ :: rest => posted rest
  | .calibrated _ _ :: rest => posted rest

/-- The position that a sample is compared with. -/
def lastPosition (log : List Entry) : Nat × Nat := (posted log).getD (0, 0)

/-- Whether a DOWN event was posted since the last UP event. -/
def downSinceUp : List Entry → Bool
  | [] => false
  | .down _ _ :: _ => true
  | .up _ _ :: _ => false
  | .calibrated _ _ :: rest => downSinceUp rest
  | .penUp :: rest => downSinceUp rest

/-- One of the coordinates differs by more than 8. -/
def Far (touch : RtguiTouchDevice) (position : Nat × Nat) : Prop :=
  touch.x.toNat > position.1 + 8 ∨ position.1 > touch.x.toNat + 8 ∨
    touch.y.toNat > position.2 + 8 ∨ position.2 > touch.y.toNat + 8

instance (touch : RtguiTouchDevice) (position : Nat × Nat) : Decidable (Far touch position) :=
  inferInstanceAs (Decidable (_ ∨ _ ∨ _ ∨ _))

/-- What one observation is to add to the log. -/
def StepRight (observation : Observation) (s t : TouchThread) : Prop :=
  match observation with
  | .penDown _ =>
    t.log = if Far t.touch (lastPosition s.log) then .down t.touch.x t.touch.y :: s.log else s.log
  | .penUp =>
    t.log = if downSinceUp s.log then .up t.touch.x t.touch.y :: .penUp :: s.log
      else .penUp :: s.log
  | _ => t.log = s.log

instance : (observation : Observation) → (s t : TouchThread) →
    Decidable (StepRight observation s t)
  | .timeout, _, _ => inferInstanceAs (Decidable (_ = _))
  | .event, _, _ => inferInstanceAs (Decidable (_ = _))
  | .penUp, _, _ => inferInstanceAs (Decidable (_ = _))
  | .bounce, _, _ => inferInstanceAs (Decidable (_ = _))
  | .penDown _, _, _ => inferInstanceAs (Decidable (_ = _))
  | .control _, _, _ => inferInstanceAs (Decidable (_ = _))

/-- Below 8 the difference wraps, and every earlier value is below it. -/
theorem axis_moved_iff (value : BitVec 16) {previous : BitVec 32}
    (small : previous.toNat < 2 ^ 16) :
    (previous > value.setWidth 32 + previousKeep ∨ previous < value.setWidth 32 - previousKeep) ↔
      value.toNat < 8 ∨ value.toNat > previous.toNat + 8 ∨ previous.toNat > value.toNat + 8 := by
  have word := value.isLt
  have keep : previousKeep.toNat = 8 := rfl
  have wide : (value.setWidth 32).toNat = value.toNat := BitVec.toNat_setWidth_of_le (by decide)
  have sum : (value.setWidth 32 + previousKeep).toNat = value.toNat + 8 := by
    rw [BitVec.toNat_add_of_lt (by rw [wide, keep]; omega), wide, keep]
  have difference : (value.setWidth 32 - previousKeep).toNat =
      (2 ^ 32 - 8 + value.toNat) % 2 ^ 32 := by
    rw [BitVec.toNat_sub, wide, keep]
  rw [gt_iff_lt, BitVec.lt_def, BitVec.lt_def, sum, difference]
  omega

/-- A sample within 8 of the left or the upper edge always passes. -/
theorem moved_iff (touch : RtguiTouchDevice) {previousX previousY : BitVec 32}
    (smallX : previousX.toNat < 2 ^ 16) (smallY : previousY.toNat < 2 ^ 16) :
    moved touch previousX previousY = true ↔
      touch.x.toNat < 8 ∨ touch.y.toNat < 8 ∨ Far touch (previousX.toNat, previousY.toNat) := by
  have x := axis_moved_iff touch.x smallX
  have y := axis_moved_iff touch.y smallY
  simp only [moved, Bool.or_eq_true, decide_eq_true_eq, or_assoc, Far]
  rw [← or_assoc, x, y]
  omega

/-- The variables of the thread follow the log. -/
structure Follows (s : TouchThread) : Prop where
  normal : s.touch.calibrating = false
  down : s.touchDown = downSinceUp s.log
  released : s.touchDown = false → posted s.log = none
  positionX : s.previousX.toNat = (lastPosition s.log).1
  positionY : s.previousY.toNat = (lastPosition s.log).2
  smallX : s.previousX.toNat < 2 ^ 16
  smallY : s.previousY.toNat < 2 ^ 16

theorem follows_start {touch : RtguiTouchDevice} (normal : touch.calibrating = false) :
    Follows (touchThreadEntry touch) :=
  ⟨normal, rfl, fun _ => rfl, rfl, rfl, Nat.two_pow_pos 16, Nat.two_pow_pos 16⟩

/-- Only the device, the flag, the position and the log matter. -/
theorem Follows.congr {s t : TouchThread} (follows : Follows s)
    (normal : t.touch.calibrating = false) (down : t.touchDown = s.touchDown)
    (x : t.previousX = s.previousX) (y : t.previousY = s.previousY) (log : t.log = s.log) :
    Follows t := by
  refine ⟨normal, ?_, ?_, ?_, ?_, ?_, ?_⟩
  · rw [down, log, follows.down]
  · rw [down, log]
    exact follows.released
  · rw [x, log, follows.positionX]
  · rw [y, log, follows.positionY]
  · rw [x]
    exact follows.smallX
  · rw [y]
    exact follows.smallY

theorem rtguiTouchCalculate_calibrating {received : Received} {touch after : RtguiTouchDevice}
    (result : rtguiTouchCalculate received touch = some after) :
    after.calibrating = touch.calibrating := by
  rw [rtguiTouchCalculate_eq] at result
  split at result
  · rw [scale] at result
    split at result
    next => cases result; rfl
    next =>
      obtain ⟨x, -, result⟩ := Option.bind_eq_some_iff.mp result
      obtain ⟨y, -, result⟩ := Option.bind_eq_some_iff.mp result
      cases result
      rfl
  · cases result
    rfl

/-- A pen-up. -/
theorem touchUp_right {s : TouchThread} (follows : Follows s) :
    Follows (touchUp s) ∧ StepRight .penUp s (touchUp s) := by
  have normal := follows.normal
  have down := follows.down
  rw [touchUp]
  split
  next released =>
    have none := follows.released released
    have origin : lastPosition s.log = (0, 0) := by rw [lastPosition, none]; rfl
    have x := follows.positionX
    have y := follows.positionY
    rw [origin] at x y
    constructor
    · exact ⟨normal, down, fun _ => rfl, x, y, follows.smallX, follows.smallY⟩
    · rw [StepRight, ← down, released]
      rfl
  next held =>
    rw [Bool.not_eq_false] at held
    rw [normal]
    constructor
    · exact ⟨normal, rfl, fun _ => rfl, rfl, rfl, Nat.two_pow_pos 16, Nat.two_pow_pos 16⟩
    · rw [StepRight, ← down, held]
      rfl

theorem touchMoved_touch (touch : RtguiTouchDevice) (s : TouchThread) :
    (touchMoved touch s).touch = touch := by
  rw [touchMoved]
  split
  · rfl
  · split
    · rfl
    · rfl

/-- A sample; it is handled right unless it passes only because it is close to an
edge. -/
theorem touchMoved_right {s : TouchThread} (follows : Follows s) (received : Received)
    {touch : RtguiTouchDevice} (normal : touch.calibrating = false) :
    Follows (touchMoved touch s) ∧
      (StepRight (.penDown received) s (touchMoved touch s) ↔
        8 ≤ touch.x.toNat ∧ 8 ≤ touch.y.toNat ∨ Far touch (lastPosition s.log)) := by
  have position : (s.previousX.toNat, s.previousY.toNat) = lastPosition s.log := by
    rw [follows.positionX, follows.positionY]
  have passes := moved_iff touch follows.smallX follows.smallY
  have word : ∀ value : BitVec 16, (value.setWidth 32).toNat = value.toNat := fun value =>
    BitVec.toNat_setWidth_of_le (by decide)
  rw [position] at passes
  rw [touchMoved, if_neg (by rw [normal]; decide)]
  split
  next passed =>
    constructor
    · exact ⟨normal, rfl, fun released => Bool.noConfusion released, word _, word _,
        (word _).trans_lt touch.x.isLt, (word _).trans_lt touch.y.isLt⟩
    · rw [StepRight]
      by_cases far : Far touch (lastPosition s.log)
      · exact iff_of_true (if_pos far).symm (Or.inr far)
      · refine iff_of_false ?_ ?_
        · rw [if_neg far]
          exact List.cons_ne_self _ _
        · rintro (⟨insideX, insideY⟩ | really)
          · obtain edge | edge | really := passes.mp passed
            · omega
            · omega
            · exact far really
          · exact far really
  next kept =>
    constructor
    · exact follows.congr normal rfl rfl rfl rfl
    · have inside : ¬(touch.x.toNat < 8 ∨ touch.y.toNat < 8 ∨ Far touch (lastPosition s.log)) :=
        fun edge => kept (passes.mpr edge)
      rw [StepRight]
      refine iff_of_true ?_ (Or.inl (by omega))
      exact (if_neg fun far => inside (Or.inr (Or.inr far))).symm

/-- A sample is not within 8 of the left or the upper edge, or is far from the
position before it. -/
def EdgeFree (observation : Observation) (s t : TouchThread) : Prop :=
  match observation with
  | .penDown _ => 8 ≤ t.touch.x.toNat ∧ 8 ≤ t.touch.y.toNat ∨ Far t.touch (lastPosition s.log)
  | _ => True

instance : (observation : Observation) → (s t : TouchThread) →
    Decidable (EdgeFree observation s t)
  | .timeout, _, _ => isTrue trivial
  | .event, _, _ => isTrue trivial
  | .penUp, _, _ => isTrue trivial
  | .bounce, _, _ => isTrue trivial
  | .penDown _, _, _ => inferInstanceAs (Decidable (_ ∨ _))
  | .control _, _, _ => isTrue trivial

/-- The device is not put into calibration. -/
def Observation.normal : Observation → Bool
  | .control (.calibration _) => false
  | _ => true

theorem rtguiTouchControl_calibrating {cmd : TouchCommand}
    (normal : (Observation.control cmd).normal = true)
    {touch : RtguiTouchDevice} (before : touch.calibrating = false) :
    (rtguiTouchControl cmd touch).calibrating = false := by
  cases cmd with
  | calibration func => exact Bool.noConfusion normal
  | normal => rfl
  | calibrationData minX maxX minY maxY => exact before

/-- One observation: the invariant stays, and the log is right exactly if the
sample is free of the edges. -/
theorem step_right_iff {observation : Observation} (normal : observation.normal = true)
    {s t : TouchThread} (follows : Follows s) (taken : touchThreadStep observation s = some t) :
    Follows t ∧ (StepRight observation s t ↔ EdgeFree observation s t) := by
  cases observation with
  | timeout =>
      rw [touchThreadStep] at taken
      split at taken
      · cases taken
      · cases taken
        exact ⟨follows, iff_of_true rfl trivial⟩
  | event =>
      rw [touchThreadStep] at taken
      split at taken
      · cases taken
      · cases taken
        exact ⟨follows.congr follows.normal rfl rfl rfl rfl, iff_of_true rfl trivial⟩
  | penUp =>
      rw [touchThreadStep] at taken
      split at taken
      · cases taken
        obtain ⟨kept, right⟩ := touchUp_right follows
        exact ⟨kept, iff_of_true right trivial⟩
      · cases taken
  | bounce =>
      rw [touchThreadStep] at taken
      split at taken
      · cases taken
        exact ⟨follows, iff_of_true rfl trivial⟩
      · cases taken
  | penDown received =>
      rw [touchThreadStep] at taken
      split at taken
      · obtain ⟨touch, result, rfl⟩ := Option.map_eq_some_iff.mp taken
        have normal : touch.calibrating = false :=
          (rtguiTouchCalculate_calibrating result).trans follows.normal
        obtain ⟨kept, right⟩ := touchMoved_right follows received normal
        exact ⟨kept, by rw [right, EdgeFree, touchMoved_touch]⟩
      · cases taken
  | control cmd =>
      cases taken
      have usual := rtguiTouchControl_calibrating normal follows.normal
      exact ⟨follows.congr usual rfl rfl rfl rfl, iff_of_true rfl trivial⟩

/-- A run outside calibration is right exactly if each of its samples is free of
the edges or far from the position before it. -/
theorem gestures_right_iff (touch : RtguiTouchDevice) (observations : List Observation)
    (normal : touch.calibrating = false)
    (use : ∀ observation ∈ observations, observation.normal = true) :
    Each touchThreadStep StepRight observations (touchThreadEntry touch) ↔
      Each touchThreadStep EdgeFree observations (touchThreadEntry touch) := by
  apply each_iff Follows (fun observation => observation.normal = true) _ use (follows_start normal)
  intro observation s t follows usual taken
  exact step_right_iff usual follows taken

/-- A calibration that leaves the readings as they are. -/
def directDevice : RtguiTouchDevice :=
  { calibratingDevice with calibrating := false, minX := 0, maxX := 480, minY := 0, maxY := 272 }

/-- The pen at rest at x and y. -/
def pen (x y : Nat) : Received := fun k =>
  let value := if k % 2 = 0 then x else y
  (BitVec.ofNat 8 (value / 16), BitVec.ofNat 8 (value % 16 * 16))

/-- A stroke with a small move in it, and a pen-up with nothing posted before it. -/
theorem stroke_right :
    Each touchThreadStep StepRight
      [.timeout, .event, .penDown (pen 100 100), .penDown (pen 100 104), .bounce,
        .penDown (pen 120 104), .penUp, .event, .penUp]
      (touchThreadEntry directDevice) :=
  (gestures_right_iff directDevice _ rfl (by decide)).mpr (by decide +kernel)

/-- The pen at rest at the left edge is posted again and again. -/
theorem edge_posted_twice :
    ¬Each touchThreadStep StepRight
      [.event, .penDown (pen 4 100), .penDown (pen 4 100)] (touchThreadEntry directDevice) := by
  decide +kernel

end KyokaMirror.Touch
