import KyokaMirror.Library.Transition
import KyokaMirror.Library.Wrap

set_option autoImplicit false

namespace KyokaMirror.RtThread

open Library.Transition

/-- `RT_TICK_MAX / 2`. -/
def halfTicks : BitVec 32 := 0x7fffffff

/-- `struct rt_timer` without its place in the list. -/
structure Timer where
  initTick : BitVec 32
  timeoutTick : BitVec 32
  periodic : Bool
  activated : Bool
  deriving DecidableEq, Repr

/-- A call of a timeout function: when its timer was started, when it was due, when
it was put into the list, and when the call took place. -/
structure Firing where
  timer : Nat
  start : Nat
  due : Nat
  inserted : Nat
  time : Nat
  deriving DecidableEq, Repr

/-- Whether a thread or an interrupt other than the clock's runs, `rt_timer_check`
looks at its list, or a timeout function runs. -/
inductive CheckPhase where
  | outside
  | checking
  | calling (timer : Nat)
  deriving DecidableEq, Repr

/-- What a call has yet to do when interrupts may come in before its end: behind its
first critical section `rt_timer_start` reads the tick and then inserts the timer, and
behind its test of the flag `rt_timer_stop` removes the timer and then clears the flag. -/
inductive TimerPart where
  | arm (timer : Nat)
  | insert (timer : Nat)
  | unlink (timer : Nat)
  | unflag (timer : Nat)
  deriving DecidableEq, Repr

/-- `rt_tick`, `rt_timer_list`, the timers and, in `opened`, the calls that are not yet at
their end. `now` counts the ticks without wrapping round; `start`, `due`, `inserted`,
`order` and `fired` record what has happened. -/
structure Timers where
  tick : BitVec 32
  list : List Nat
  timer : Nat → Timer
  phase : CheckPhase
  opened : List TimerPart
  now : Nat
  start : Nat → Nat
  due : Nat → Nat
  inserted : Nat → Nat
  order : Nat → Nat
  starts : Nat
  fired : List Firing

/-- The loop of `rt_timer_start` that looks for the place of a timer. -/
def insertTimer (timeout : Nat → BitVec 32) (timer : Nat) : List Nat → List Nat
  | [] => [timer]
  | t :: rest =>
      if timeout t - timeout timer = 0 then t :: insertTimer timeout timer rest
      else if timeout t - timeout timer < halfTicks then timer :: t :: rest
      else t :: insertTimer timeout timer rest

namespace Timers

def change (s : Timers) (timer : Nat) (update : Timer → Timer) : Timers :=
  { s with timer := Function.update s.timer timer (update (s.timer timer)) }

/-- `_rt_timer_remove`. -/
def remove (s : Timers) (timer : Nat) : Timers := { s with list := s.list.erase timer }

/-- The first critical section of `rt_timer_start`. -/
def unlinked (s : Timers) (timer : Nat) : Timers :=
  (s.remove timer).change timer fun t => { t with activated := false }

/-- `rt_timer_start` between its critical sections; `none` where its assertion on
`init_tick` fails. -/
def arm (s : Timers) (timer : Nat) : Option Timers :=
  if (s.timer timer).initTick < halfTicks then
    some { s with
      timer := (s.change timer fun t => { t with timeoutTick := s.tick + t.initTick }).timer
      start := Function.update s.start timer s.now
      due := Function.update s.due timer (s.now + (s.timer timer).initTick.toNat) }
  else none

/-- The second critical section of `rt_timer_start`. -/
def link (s : Timers) (timer : Nat) : Timers :=
  { s with
    timer := (s.change timer fun t => { t with activated := true }).timer
    list := insertTimer (fun t => (s.timer t).timeoutTick) timer s.list
    inserted := Function.update s.inserted timer s.now
    order := Function.update s.order timer s.starts
    starts := s.starts + 1 }

/-- `rt_timer_start`, called with interrupts disabled. -/
def rtTimerStart (s : Timers) (timer : Nat) : Option Timers :=
  ((s.unlinked timer).arm timer).map fun s => s.link timer

/-- `rt_timer_stop`, called with interrupts disabled. It leaves alone a timer that is not
activated. -/
def rtTimerStop (s : Timers) (timer : Nat) : Timers :=
  if (s.timer timer).activated then s.unlinked timer else s

/-- What `rt_timer_check` does behind a timeout function. -/
def called (s : Timers) (timer : Nat) : Option Timers :=
  if (s.timer timer).periodic ∧ (s.timer timer).activated then
    (s.change timer fun t => { t with activated := false }).rtTimerStart timer
  else some (s.change timer fun t => { t with activated := false })

/-- Interrupts may come in. -/
def pause (s : Timers) (part : TimerPart) : Timers := { s with opened := part :: s.opened }

/-- A call goes on. -/
def complete (s : Timers) : TimerPart → Option Timers
  | .arm timer => (s.arm timer).map fun s => s.pause (.insert timer)
  | .insert timer => some (s.link timer)
  | .unlink timer => some ((s.remove timer).pause (.unflag timer))
  | .unflag timer => some (s.change timer fun t => { t with activated := false })

end Timers

open Timers

/-- Calls with interrupts disabled: `rt_timer_start`, `rt_timer_stop`, `rt_timer_detach`,
`rt_timer_control` with `RT_TIMER_CTRL_SET_TIME`, `RT_TIMER_CTRL_SET_ONESHOT` and
`RT_TIMER_CTRL_SET_PERIODIC`, and `rt_timer_init` on a timer that is not in use. -/
inductive TimerCall where
  | start (timer : Nat)
  | stop (timer : Nat)
  | detach (timer : Nat)
  | setTime (timer : Nat) (tick : BitVec 32)
  | setPeriodic (timer : Nat) (periodic : Bool)
  | init (timer : Nat) (time : BitVec 32) (periodic : Bool)
  deriving DecidableEq, Repr

def timerCall : TimerCall → Timers → Option Timers
  | .start timer, s => s.rtTimerStart timer
  | .stop timer, s => some (s.rtTimerStop timer)
  | .detach timer, s => some (s.remove timer)
  | .setTime timer tick, s => some (s.change timer fun t => { t with initTick := tick })
  | .setPeriodic timer periodic, s => some (s.change timer fun t => { t with periodic := periodic })
  | .init timer time periodic, s =>
      if timer ∈ s.list then none
      else some (s.change timer fun _ => ⟨time, 0, periodic, false⟩)

/-- A call with interrupts disabled, from a thread or from a timeout function; the parts
of `rt_timer_start` and `rt_timer_stop` with interrupts enabled; the next tick; and the
steps of `rt_timer_check`: a timeout function begins or returns, and the check ends. -/
inductive TimerAction where
  | call (c : TimerCall)
  | start (timer : Nat)
  | stop (timer : Nat)
  | finish (part : TimerPart)
  | tick
  | fire
  | done
  | leave
  deriving DecidableEq, Repr

/-- The test of `rt_timer_check` on the first timer. -/
def isDue (s : Timers) (timer : Nat) : Prop := s.tick - (s.timer timer).timeoutTick < halfTicks

instance (s : Timers) (timer : Nat) : Decidable (isDue s timer) :=
  inferInstanceAs (Decidable (_ < _))

def timerStep : TimerAction → Timers → Option Timers
  | .call c, s => if s.phase = .checking then none else timerCall c s
  | .start timer, s =>
      if s.phase = .outside then some ((s.unlinked timer).pause (.arm timer)) else none
  | .stop timer, s =>
      if s.phase = .outside then
        some (if (s.timer timer).activated then s.pause (.unlink timer) else s)
      else none
  | .finish part, s =>
      if s.phase = .outside ∧ part ∈ s.opened then
        ({ s with opened := s.opened.erase part } : Timers).complete part
      else none
  | .tick, s =>
      if s.phase = .outside then
        some { s with tick := s.tick + 1, now := s.now + 1, phase := .checking }
      else none
  | .fire, s =>
      match s.phase, s.list with
      | .checking, t :: rest =>
          if isDue s t then
            some { s with
              list := rest
              phase := .calling t
              fired := s.fired ++ [⟨t, s.start t, s.due t, s.inserted t, s.now⟩] }
          else none
      | _, _ => none
  | .done, s =>
      match s.phase with
      | .calling t => (called s t).map fun s => { s with phase := .checking }
      | _ => none
  | .leave, s =>
      match s.phase, s.list with
      | .checking, [] => some { s with phase := .outside }
      | .checking, t :: _ => if isDue s t then none else some { s with phase := .outside }
      | _, _ => none

/-- `rt_system_timer_init` at some tick. -/
def initTimers (now : Nat) : Timers where
  tick := BitVec.ofNat 32 now
  list := []
  timer := fun _ => ⟨0, 0, false, false⟩
  phase := .outside
  opened := []
  now := now
  start := fun _ => 0
  due := fun _ => 0
  inserted := fun _ => 0
  order := fun _ => 0
  starts := 0
  fired := []

section

variable {s s' : Timers} {timer other : Nat}

theorem change_self (update : Timer → Timer) :
    (s.change timer update).timer timer = update (s.timer timer) := Function.update_self _ _ _

theorem change_other (differ : other ≠ timer) (update : Timer → Timer) :
    (s.change timer update).timer other = s.timer other := Function.update_of_ne differ _ _

/-- What an update of one timer leaves as it is stays so for all timers. -/
theorem change_keeps {β : Type} (field : Timer → β) {update : Timer → Timer}
    (keeps : ∀ t, field (update t) = field t) :
    field ((s.change timer update).timer other) = field (s.timer other) := by
  by_cases same : other = timer
  · rw [same, change_self, keeps]
  · rw [change_other same]

theorem arm_cases (taken : s.arm timer = some s') :
    (s.timer timer).initTick.toNat < 0x7fffffff ∧
      s' = { s with
        timer := (s.change timer fun t => { t with timeoutTick := s.tick + t.initTick }).timer
        start := Function.update s.start timer s.now
        due := Function.update s.due timer (s.now + (s.timer timer).initTick.toNat) } := by
  rw [arm] at taken
  split at taken
  · rename_i allowed
    exact ⟨allowed, (Option.some.inj taken).symm⟩
  · cases taken

theorem start_cases (taken : s.rtTimerStart timer = some s') :
    ∃ armed, (s.unlinked timer).arm timer = some armed ∧ s' = armed.link timer := by
  obtain ⟨armed, first, same⟩ := Option.map_eq_some_iff.mp taken
  exact ⟨armed, first, same.symm⟩

theorem start_frame (taken : s.rtTimerStart timer = some s') :
    s'.now = s.now ∧ s'.phase = s.phase ∧ s'.fired = s.fired ∧ s'.opened = s.opened := by
  obtain ⟨armed, first, rfl⟩ := start_cases taken
  obtain ⟨_, rfl⟩ := arm_cases first
  exact ⟨rfl, rfl, rfl, rfl⟩

/-- Everything that a step can do. -/
inductive TimerStepped (s : Timers) : TimerAction → Timers → Prop where
  | call (c : TimerCall) (s' : Timers) (taken : timerCall c s = some s') :
      TimerStepped s (.call c) s'
  | start (timer : Nat) (outside : s.phase = .outside) :
      TimerStepped s (.start timer) ((s.unlinked timer).pause (.arm timer))
  | stop (timer : Nat) : TimerStepped s (.stop timer) (s.pause (.unlink timer))
  | stopped (timer : Nat) (inactive : (s.timer timer).activated = false) :
      TimerStepped s (.stop timer) s
  | finish (part : TimerPart) (s' : Timers) (outside : s.phase = .outside)
      (member : part ∈ s.opened)
      (taken : ({ s with opened := s.opened.erase part } : Timers).complete part = some s') :
      TimerStepped s (.finish part) s'
  | tick (outside : s.phase = .outside) :
      TimerStepped s .tick { s with tick := s.tick + 1, now := s.now + 1, phase := .checking }
  | fire (t : Nat) (rest : List Nat) (checking : s.phase = .checking) (listed : s.list = t :: rest)
      (dueNow : isDue s t) :
      TimerStepped s .fire { s with
        list := rest
        phase := .calling t
        fired := s.fired ++ [⟨t, s.start t, s.due t, s.inserted t, s.now⟩] }
  | done (t : Nat) (after : Timers) (calling : s.phase = .calling t)
      (returned : s.called t = some after) :
      TimerStepped s .done { after with phase := .checking }
  | leave (first : ∀ t rest, s.list = t :: rest → ¬ isDue s t) :
      TimerStepped s .leave { s with phase := .outside }

theorem timerStep_stepped {action : TimerAction} (taken : timerStep action s = some s') :
    TimerStepped s action s' := by
  cases action with
  | call c =>
      rw [timerStep] at taken
      split at taken
      · cases taken
      · exact .call c s' taken
  | start timer =>
      rw [timerStep] at taken
      split at taken
      · rename_i outside
        obtain rfl := Option.some.inj taken
        exact .start timer outside
      · cases taken
  | stop timer =>
      rw [timerStep] at taken
      split at taken
      · obtain rfl := Option.some.inj taken
        split
        · exact .stop timer
        · rename_i inactive
          exact .stopped timer (Bool.eq_false_iff.mpr inactive)
      · cases taken
  | finish part =>
      rw [timerStep] at taken
      split at taken
      · rename_i enabled
        exact .finish part s' enabled.1 enabled.2 taken
      · cases taken
  | tick =>
      rw [timerStep] at taken
      split at taken
      · rename_i outside
        obtain rfl := Option.some.inj taken
        exact .tick outside
      · cases taken
  | fire =>
      rw [timerStep] at taken
      split at taken
      · rename_i t rest checking listed
        split at taken
        · rename_i dueNow
          obtain rfl := Option.some.inj taken
          exact .fire t rest checking listed dueNow
        · cases taken
      · cases taken
  | done =>
      rw [timerStep] at taken
      split at taken
      · rename_i t calling
        obtain ⟨after, returned, rfl⟩ := Option.map_eq_some_iff.mp taken
        exact .done t after calling returned
      · cases taken
  | leave =>
      rw [timerStep] at taken
      split at taken
      · rename_i checking listed
        obtain rfl := Option.some.inj taken
        refine .leave ?_
        intro t rest more
        rw [listed] at more
        cases more
      · rename_i t rest checking listed
        split at taken
        · cases taken
        · rename_i later
          obtain rfl := Option.some.inj taken
          refine .leave ?_
          intro u more same
          rw [listed] at same
          obtain ⟨rfl, rfl⟩ := List.cons.inj same
          exact later
      · cases taken

end

/-- Due earlier, or at the same tick and started earlier. -/
def Before (due order : Nat → Nat) (a b : Nat) : Prop :=
  due a < due b ∨ due a = due b ∧ order a < order b

theorem mem_insertTimer {timeout : Nat → BitVec 32} {timer x : Nat} {list : List Nat} :
    x ∈ insertTimer timeout timer list ↔ x = timer ∨ x ∈ list := by
  induction list with
  | nil => exact List.mem_cons
  | cons t rest ih =>
      rw [insertTimer]
      split
      · rw [List.mem_cons, List.mem_cons, ih]
        exact or_left_comm
      · split
        · exact List.mem_cons
        · rw [List.mem_cons, List.mem_cons, ih]
          exact or_left_comm

/-- A timer goes behind those that are due earlier or at the same tick. -/
theorem insertTimer_sorted {timeout : Nat → BitVec 32} {due order : Nat → Nat} {timer : Nat}
    {list : List Nat} (sorted : list.Pairwise (Before due order))
    (same : ∀ t ∈ list, timeout t - timeout timer = 0 ↔ due t = due timer)
    (later : ∀ t ∈ list, timeout t - timeout timer < halfTicks ↔ due timer ≤ due t)
    (orders : ∀ t ∈ list, order t < order timer) :
    (insertTimer timeout timer list).Pairwise (Before due order) := by
  induction list with
  | nil => exact List.pairwise_singleton _ _
  | cons t rest ih =>
      obtain ⟨first, others⟩ := List.pairwise_cons.mp sorted
      obtain ⟨sameFirst, sameRest⟩ := List.forall_mem_cons.mp same
      obtain ⟨laterFirst, laterRest⟩ := List.forall_mem_cons.mp later
      obtain ⟨orderFirst, orderRest⟩ := List.forall_mem_cons.mp orders
      have inserted := ih others sameRest laterRest orderRest
      have behind (before : Before due order t timer) :
          (t :: insertTimer timeout timer rest).Pairwise (Before due order) := by
        refine List.pairwise_cons.mpr ⟨?_, inserted⟩
        intro x member
        rcases mem_insertTimer.mp member with rfl | old
        · exact before
        · exact first x old
      rw [insertTimer]
      split
      · rename_i zero
        exact behind (.inr ⟨sameFirst.mp zero, orderFirst⟩)
      · rename_i nonzero
        have differ : due t ≠ due timer := fun equal => nonzero (sameFirst.mpr equal)
        split
        · rename_i close
          have after := laterFirst.mp close
          refine List.pairwise_cons.mpr ⟨List.forall_mem_cons.mpr ⟨.inl (by omega), ?_⟩, sorted⟩
          intro x member
          rcases first x member with earlier | ⟨equal, _⟩
          · exact .inl (by omega)
          · exact .inl (by omega)
        · rename_i far
          have earlier : ¬ due timer ≤ due t := fun after => far (laterFirst.mpr after)
          exact behind (.inl (by omega))

theorem sub_lt_halfTicks {a b : Nat} (upper : a < b + 0x7fffffff) (lower : b ≤ a + 0x80000000) :
    BitVec.ofNat 32 a - BitVec.ofNat 32 b < halfTicks ↔ b ≤ a := by
  rw [BitVec.lt_def, show halfTicks.toNat = 0x7fffffff from rfl]
  by_cases le : b ≤ a
  · rw [Library.Wrap.toNat_sub_of_le le (by omega)]
    omega
  · rw [Library.Wrap.toNat_sub_of_lt (by omega) (by omega)]
    omega

theorem sub_eq_zero_iff {a b : Nat} (upper : a < b + 0x7fffffff) (lower : b ≤ a + 0x80000000) :
    BitVec.ofNat 32 a - BitVec.ofNat 32 b = 0 ↔ a = b := by
  rw [← BitVec.toNat_inj, show (0 : BitVec 32).toNat = 0 from rfl]
  by_cases le : b ≤ a
  · rw [Library.Wrap.toNat_sub_of_le le (by omega)]
    omega
  · rw [Library.Wrap.toNat_sub_of_lt (by omega) (by omega)]
    omega

/-- The timer that a call is about. -/
def TimerCall.timer : TimerCall → Nat
  | .start timer => timer
  | .stop timer => timer
  | .detach timer => timer
  | .setTime timer _ => timer
  | .setPeriodic timer _ => timer
  | .init timer _ _ => timer

def TimerPart.timer : TimerPart → Nat
  | .arm timer => timer
  | .insert timer => timer
  | .unlink timer => timer
  | .unflag timer => timer

/-- Nothing that concerns one timer has changed, but for its flags. -/
structure Spared (timer : Nat) (s s' : Timers) : Prop where
  listed : timer ∈ s'.list ↔ timer ∈ s.list
  start : s'.start timer = s.start timer
  due : s'.due timer = s.due timer
  inserted : s'.inserted timer = s.inserted timer
  init : (s'.timer timer).initTick = (s.timer timer).initTick
  timeout : (s'.timer timer).timeoutTick = (s.timer timer).timeoutTick
  now : s'.now = s.now
  phase : s'.phase = s.phase
  fired : s'.fired = s.fired

section

variable {s s' : Timers} {timer other : Nat}

theorem Spared.refl (timer : Nat) (s : Timers) : Spared timer s s :=
  ⟨Iff.rfl, rfl, rfl, rfl, rfl, rfl, rfl, rfl, rfl⟩

theorem Spared.trans {s'' : Timers} (first : Spared timer s s') (second : Spared timer s' s'') :
    Spared timer s s'' :=
  ⟨second.listed.trans first.listed, second.start.trans first.start,
    second.due.trans first.due, second.inserted.trans first.inserted,
    second.init.trans first.init, second.timeout.trans first.timeout,
    second.now.trans first.now, second.phase.trans first.phase, second.fired.trans first.fired⟩

theorem spared_reopen (opened : List TimerPart) : Spared timer s { s with opened := opened } :=
  ⟨Iff.rfl, rfl, rfl, rfl, rfl, rfl, rfl, rfl, rfl⟩

theorem spared_remove (differ : timer ≠ other) : Spared timer s (s.remove other) :=
  ⟨List.mem_erase_of_ne differ, rfl, rfl, rfl, rfl, rfl, rfl, rfl, rfl⟩

theorem spared_change (differ : timer ≠ other) (update : Timer → Timer) :
    Spared timer s (s.change other update) :=
  ⟨Iff.rfl, rfl, rfl, rfl, congrArg Timer.initTick (change_other differ update),
    congrArg Timer.timeoutTick (change_other differ update), rfl, rfl, rfl⟩

theorem spared_flag (timer other : Nat) (activated : Bool) :
    Spared timer s (s.change other fun t => { t with activated := activated }) :=
  ⟨Iff.rfl, rfl, rfl, rfl, change_keeps Timer.initTick fun _ => rfl,
    change_keeps Timer.timeoutTick fun _ => rfl, rfl, rfl, rfl⟩

theorem spared_unlinked (differ : timer ≠ other) : Spared timer s (s.unlinked other) :=
  (spared_remove differ).trans (spared_flag timer other false)

theorem spared_arm (differ : timer ≠ other) (taken : s.arm other = some s') :
    Spared timer s s' := by
  obtain ⟨_, rfl⟩ := arm_cases taken
  have changed := spared_change (s := s) differ fun t =>
    { t with timeoutTick := s.tick + t.initTick }
  exact ⟨Iff.rfl, Function.update_of_ne differ _ _, Function.update_of_ne differ _ _, rfl,
    changed.init, changed.timeout, rfl, rfl, rfl⟩

theorem spared_link (differ : timer ≠ other) : Spared timer s (s.link other) := by
  have changed := spared_flag (s := s) timer other true
  exact ⟨mem_insertTimer.trans (or_iff_right differ), rfl, rfl, Function.update_of_ne differ _ _,
    changed.init, changed.timeout, rfl, rfl, rfl⟩

theorem spared_start (differ : timer ≠ other) (taken : s.rtTimerStart other = some s') :
    Spared timer s s' := by
  obtain ⟨armed, first, rfl⟩ := start_cases taken
  exact ((spared_unlinked differ).trans (spared_arm differ first)).trans (spared_link differ)

theorem spared_call {c : TimerCall} (differ : timer ≠ c.timer) (taken : timerCall c s = some s') :
    Spared timer s s' := by
  cases c with
  | start other => exact spared_start differ taken
  | stop other =>
      obtain rfl := Option.some.inj taken
      rw [rtTimerStop]
      split
      · exact spared_unlinked differ
      · exact .refl timer s
  | detach other =>
      obtain rfl := Option.some.inj taken
      exact spared_remove differ
  | setTime other tick =>
      obtain rfl := Option.some.inj taken
      exact spared_change differ _
  | setPeriodic other periodic =>
      obtain rfl := Option.some.inj taken
      exact spared_change differ _
  | init other time periodic =>
      rw [timerCall] at taken
      split at taken
      · cases taken
      · obtain rfl := Option.some.inj taken
        exact spared_change differ _

theorem spared_called (differ : timer ≠ other) (taken : s.called other = some s') :
    Spared timer s s' := by
  have cleared := spared_flag (s := s) timer other false
  rw [called] at taken
  split at taken
  · exact cleared.trans (spared_start differ taken)
  · obtain rfl := Option.some.inj taken
    exact cleared

theorem spared_complete {part : TimerPart} (differ : timer ≠ part.timer)
    (taken : s.complete part = some s') : Spared timer s s' := by
  cases part with
  | arm other =>
      obtain ⟨armed, first, rfl⟩ := Option.map_eq_some_iff.mp taken
      exact (spared_arm differ first).trans (spared_reopen _)
  | insert other =>
      obtain rfl := Option.some.inj taken
      exact spared_link differ
  | unlink other =>
      obtain rfl := Option.some.inj taken
      exact (spared_remove differ).trans (spared_reopen _)
  | unflag other =>
      obtain rfl := Option.some.inj taken
      exact spared_flag timer other false

end

end KyokaMirror.RtThread
