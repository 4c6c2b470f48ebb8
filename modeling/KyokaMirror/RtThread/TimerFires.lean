import KyokaMirror.RtThread.TimerPunctual

set_option autoImplicit false

namespace KyokaMirror.RtThread

open Library.Transition
open Timers

/-- The timer of a call that begins or goes on. -/
def TimerAction.about : TimerAction → Option Nat
  | .finish part => some part.timer
  | action => action.timer

/-- A timer waits for its tick, or it has fired. A timeout function may have started
its own timer, which `rt_timer_check` then starts once more. -/
def Underway (timer began due inserted : Nat) (s : Timers) : Prop :=
  (timer ∈ s.list ∧ (s.start timer = began ∧ s.due timer = due ∧ s.inserted timer = inserted) ∧
    inserted ≤ s.now ∧ (s.phase ≠ .outside → inserted < s.now ∨ inserted < due) ∧
    (s.phase = .calling timer →
      began = s.now ∧ inserted = s.now ∧ due = s.now + (s.timer timer).initTick.toNat)) ∨
  ∃ time, (inserted < time ∨ inserted < due) ∧ ⟨timer, began, due, inserted, time⟩ ∈ s.fired

section

variable {s s' : Timers} {timer began due inserted : Nat}

theorem Underway.spared (u : Underway timer began due inserted s) (same : Spared timer s s') :
    Underway timer began due inserted s' := by
  rcases u with ⟨member, recorded, before, passed, again⟩ | ⟨time, behind, log⟩
  · refine .inl ⟨same.listed.mpr member, ?_, ?_, ?_, ?_⟩
    · rw [same.start, same.due, same.inserted]
      exact recorded
    · rw [same.now]
      exact before
    · rw [same.phase, same.now]
      exact passed
    · rw [same.phase, same.now, same.init]
      exact again
  · refine .inr ⟨time, behind, ?_⟩
    rw [same.fired]
    exact log

/-- What a start with interrupts disabled does to the timer itself. -/
theorem start_recorded (taken : s.rtTimerStart timer = some s') : timer ∈ s'.list ∧
    (s'.start timer = s.now ∧ s'.due timer = s.now + (s.timer timer).initTick.toNat ∧
      s'.inserted timer = s.now) ∧ (s'.timer timer).initTick = (s.timer timer).initTick := by
  obtain ⟨armed, first, rfl⟩ := start_cases taken
  obtain ⟨_, rfl⟩ := arm_cases first
  refine ⟨mem_insertTimer.mpr (.inl rfl), ⟨Function.update_self _ _ _, ?_,
    Function.update_self _ _ _⟩, ?_⟩
  · refine (Function.update_self _ _ _).trans ?_
    rw [unlinked_init]
    rfl
  · dsimp only [link]
    rw [change_self, change_self, unlinked_init]

theorem start_underway (taken : s.rtTimerStart timer = some s')
    (passed : s.phase ≠ .outside → 0 < (s.timer timer).initTick.toNat) :
    Underway timer s.now (s.now + (s.timer timer).initTick.toNat) s.now s' := by
  obtain ⟨member, recorded, init⟩ := start_recorded taken
  obtain ⟨now, phase, _, _⟩ := start_frame taken
  refine .inl ⟨member, recorded, Nat.le_of_eq now.symm, ?_, ?_⟩
  · intro inside
    rw [phase] at inside
    have ticks := passed inside
    exact .inr (by omega)
  · intro _
    rw [now, init]
    exact ⟨rfl, rfl, rfl⟩

/-- What the insertion of an interrupted start does to the timer itself. -/
theorem link_underway (outside : s.phase = .outside) :
    Underway timer (s.start timer) (s.due timer) s.now (s.link timer) := by
  refine .inl ⟨mem_insertTimer.mpr (.inl rfl), ⟨rfl, rfl, Function.update_self _ _ _⟩,
    Nat.le_refl _, fun inside => absurd outside inside, ?_⟩
  intro calling
  rw [show (s.link timer).phase = s.phase from rfl, outside] at calling
  cases calling

/-- The check goes on, or there is none. -/
theorem Underway.rephase (u : Underway timer began due inserted s) {phase : CheckPhase}
    (free : ∀ t, phase ≠ .calling t) (inside : phase ≠ .outside → s.phase ≠ .outside) :
    Underway timer began due inserted { s with phase := phase } := by
  rcases u with ⟨member, recorded, before, passed, _⟩ | log
  · exact .inl ⟨member, recorded, before, fun now => passed (inside now),
      fun calling => absurd calling (free timer)⟩
  · exact .inr log

theorem Underway.done (u : Underway timer began due inserted s) {other : Nat}
    (calling : s.phase = .calling other) (taken : s.called other = some s') :
    Underway timer began due inserted { s' with phase := .checking } := by
  have inside : s.phase ≠ .outside := by simp [calling]
  have marked : ∀ {u : Timers}, u.phase = s.phase → Underway timer began due inserted u →
      Underway timer began due inserted { u with phase := .checking } := by
    intro u phase underway
    refine underway.rephase (by simp) fun _ => ?_
    rw [phase]
    exact inside
  by_cases same : timer = other
  · -- The timer is started at the same tick as in its timeout function.
    subst same
    have cleared := spared_flag (s := s) timer timer false
    have phase := (called_frame taken).1
    rw [called] at taken
    split at taken
    · rcases u with ⟨_, _, _, passed, again⟩ | ⟨time, behind, log⟩
      · obtain ⟨rfl, rfl, rfl⟩ := again calling
        have ticks := passed inside
        have restarted := start_underway taken (fun _ => by
          rw [cleared.init]
          omega)
        rw [cleared.init] at restarted
        exact marked phase restarted
      · refine .inr ⟨time, behind, ?_⟩
        dsimp only
        rw [(start_frame taken).2.2.1]
        exact log
    · obtain rfl := Option.some.inj taken
      exact marked rfl (u.spared cleared)
  · exact marked (called_frame taken).1 (u.spared (spared_called same taken))

theorem Underway.ticked (u : Underway timer began due inserted s) {tick : BitVec 32} :
    Underway timer began due inserted
      { s with tick := tick, now := s.now + 1, phase := .checking } := by
  rcases u with ⟨member, recorded, before, _, _⟩ | log
  · refine .inl ⟨member, recorded, Nat.le_succ_of_le before, ?_, ?_⟩
    · intro _
      exact .inl (Nat.lt_succ_of_le before)
    · intro calling
      cases calling
  · exact .inr log

theorem Underway.fire (u : Underway timer began due inserted s) {t : Nat} {rest : List Nat}
    (checking : s.phase = .checking) (listed : s.list = t :: rest) :
    Underway timer began due inserted { s with
      list := rest
      phase := .calling t
      fired := s.fired ++ [⟨t, s.start t, s.due t, s.inserted t, s.now⟩] } := by
  have inside : s.phase ≠ .outside := by simp [checking]
  rcases u with ⟨member, recorded, before, passed, _⟩ | ⟨time, behind, log⟩
  · rw [listed] at member
    by_cases first : timer = t
    · obtain ⟨rfl, rfl, rfl⟩ := recorded
      refine .inr ⟨s.now, passed inside, List.mem_append_right _ (List.mem_singleton.mpr ?_)⟩
      rw [first]
    · refine .inl ⟨(List.mem_cons.mp member).resolve_left first, recorded, before,
        fun _ => passed inside, ?_⟩
      intro calling
      injection calling with same
      exact absurd same.symm first
  · exact .inr ⟨time, behind, List.mem_append_left _ log⟩

theorem Underway.step (u : Underway timer began due inserted s) {action : TimerAction}
    (untouched : timer ∉ action.about) (taken : timerStep action s = some s') :
    Underway timer began due inserted s' := by
  have other : ∀ t, action.about = some t → timer ≠ t := by
    intro t about same
    exact untouched (same ▸ about)
  cases timerStep_stepped taken with
  | call c s' taken => exact u.spared (spared_call (other _ rfl) taken)
  | start t outside => exact (u.spared (spared_unlinked (other t rfl))).spared (spared_reopen _)
  | stop t => exact u.spared (spared_reopen _)
  | stopped t inactive => exact u
  | finish part s' outside member taken =>
      exact (u.spared (spared_reopen _)).spared (spared_complete (other _ rfl) taken)
  | tick outside => exact u.ticked
  | fire t rest checking listed dueNow => exact u.fire checking listed
  | done t after calling returned => exact u.done calling returned
  | leave first => exact u.rephase (by simp) fun inside => absurd rfl inside

theorem Underway.run {actions : List TimerAction} (u : Underway timer began due inserted s)
    (untouched : ∀ action ∈ actions, timer ∉ action.about)
    (taken : Library.Transition.run timerStep actions s = some s') :
    Underway timer began due inserted s' := by
  induction actions generalizing s with
  | nil =>
      obtain rfl := Option.some.inj taken
      exact u
  | cons action rest ih =>
      obtain ⟨first, others⟩ := List.forall_mem_cons.mp untouched
      obtain ⟨after, here, later⟩ := Option.bind_eq_some_iff.mp taken
      exact ih (u.step first here) others later

end

/-- The timer goes to the list, by a start with interrupts disabled or at the end of an
interrupted one. -/
def Starts (timer : Nat) (action : TimerAction) : Prop :=
  action = .call (.start timer) ∨ action = .finish (.insert timer)

/-- What is recorded of the timer when it goes to the list. -/
theorem starts_underway {most timer : Nat} {action : TimerAction} {s t : Timers}
    (parted : Parted most s) (starts : Starts timer action) (started : timerStep action s = some t)
    (ahead : s.phase = .outside ∨ s.now < t.due timer) :
    t.due timer = t.start timer + (t.timer timer).initTick.toNat ∧
      Underway timer (t.start timer) (t.due timer) s.now t := by
  rcases starts with rfl | rfl
  · rw [timerStep] at started
    split at started
    · cases started
    · have taken : s.rtTimerStart timer = some t := started
      obtain ⟨_, ⟨began, dueAt, _⟩, init⟩ := start_recorded taken
      rw [began, dueAt, init]
      refine ⟨rfl, start_underway taken ?_⟩
      intro inside
      have later := ahead.resolve_left inside
      omega
  · rw [timerStep] at started
    split at started
    · rename_i enabled
      obtain rfl := Option.some.inj started
      have kept := spared_flag (s := { s with opened := s.opened.erase (.insert timer) }) timer
        timer true
      refine ⟨?_, link_underway enabled.1⟩
      exact (parted.sum timer enabled.2).trans (congrArg (s.start timer + ·.toNat) kept.init.symm)
    · cases started

theorem timer_fires (now most : Nat) (positive : 0 < most) (small : most ≤ 0x7ffffffe)
    {actions later : List TimerAction} {action : TimerAction} {s t u : Timers} {timer : Nat}
    (kept : Each timerStep (Disciplined most) (actions ++ action :: later) (initTimers now))
    (reached : run timerStep actions (initTimers now) = some s) (starts : Starts timer action)
    (started : timerStep action s = some t) (ahead : s.phase = .outside ∨ s.now < t.due timer)
    (untouched : ∀ a ∈ later, timer ∉ a.about) (goesOn : run timerStep later t = some u)
    (outside : u.phase = .outside) (elapsed : max (t.due timer) (s.now + 1) ≤ u.now) :
    t.due timer = t.start timer + (t.timer timer).initTick.toNat ∧
      ⟨timer, t.start timer, t.due timer, s.now, max (t.due timer) (s.now + 1)⟩ ∈ u.fired := by
  have whole : run timerStep (actions ++ action :: later) (initTimers now) = some u := by
    rw [run_append, reached, Option.bind_some, run_cons, started, Option.bind_some, goesOn]
  have p := (Timely.reached small positive kept whole).punctual
  have parted := (Timely.reached small positive kept.front reached).parted
  obtain ⟨sum, underway⟩ := starts_underway parted starts started ahead
  refine ⟨sum, ?_⟩
  rcases underway.run untouched goesOn with
    ⟨member, ⟨_, dueAt, insertedAt⟩, _⟩ | ⟨time, behind, log⟩
  · -- A timer that is still in the list is not due.
    have pending := p.pending timer member
    rw [Timers.Pending, if_pos outside, dueAt, insertedAt] at pending
    omega
  · have onTime := p.fired _ log
    rw [Firing.OnTime] at onTime
    dsimp only at onTime
    have sharp : time = max (t.due timer) (s.now + 1) := by omega
    rw [← sharp]
    exact log

/-- A start of the periodic timer 1, interrupted by a tick behind its reading of the
tick. -/
def startBegun : List TimerAction :=
  [.call (.init 1 2 true), .call (.init 2 1 false), .start 1, .finish (.arm 1), .tick, .leave]

/-- Another timer is started, and both are called behind the wrap. -/
def startedLater : List TimerAction :=
  [.call (.start 2), .tick, .fire, .done, .fire, .done, .leave]

theorem timer_fires_periodic : ∃ u : Timers,
    (⟨1, 0xfffffffe, 0x100000000, 0xffffffff, 0x100000000⟩ : Firing) ∈ u.fired ∧ u.list = [1] := by
  have result : ((run timerStep startBegun (initTimers 0xfffffffe)).bind fun s =>
      (timerStep (.finish (.insert 1)) s).bind fun t => (run timerStep startedLater t).map fun u =>
        ((s.phase, s.now), (t.start 1, t.due 1), (u.phase, u.now), u.list)) =
      some ((.outside, 0xffffffff), (0xfffffffe, 0x100000000), (.outside, 0x100000000), [1]) := by
    decide +kernel
  obtain ⟨s, reached, later⟩ := Option.bind_eq_some_iff.mp result
  obtain ⟨t, started, last⟩ := Option.bind_eq_some_iff.mp later
  obtain ⟨u, goesOn, shown⟩ := Option.map_eq_some_iff.mp last
  simp only [Prod.mk.injEq] at shown
  obtain ⟨⟨phase, now⟩, ⟨began, dueAt⟩, ⟨outside, ends⟩, list⟩ := shown
  have fired := (timer_fires 0xfffffffe 2 (by decide) (by decide) (by decide +kernel) reached
    (.inr rfl) started (.inl phase) (by decide +kernel) goesOn outside (by
      rw [dueAt, now, ends]
      decide)).2
  rw [began, dueAt, now] at fired
  exact ⟨u, fired, list⟩

/-- No timeout function has started its own timer without it being periodic. -/
def NotSelfStarted (action : TimerAction) (s _ : Timers) : Prop :=
  action = .done → ∀ t ∈ s.list, s.phase = .calling t → (s.timer t).periodic = true

instance (action : TimerAction) (s s' : Timers) : Decidable (NotSelfStarted action s s') :=
  inferInstanceAs (Decidable (_ → _))

/-- What is in the list has `RT_TIMER_FLAG_ACTIVATED`. -/
def Flagged (s : Timers) : Prop := ∀ t ∈ s.list, (s.timer t).activated = true

section

variable {s s' : Timers} {most timer : Nat}

theorem Flagged.remove (flagged : Flagged s) (timer : Nat) : Flagged (s.remove timer) :=
  fun t member => flagged t (List.mem_of_mem_erase member)

theorem Flagged.change {update : Timer → Timer} (flagged : Flagged s)
    (kept : timer ∈ s.list → (update (s.timer timer)).activated = true) :
    Flagged (s.change timer update) := by
  intro t member
  by_cases same : t = timer
  · rw [same, change_self]
    exact kept (same ▸ member)
  · rw [change_other same]
    exact flagged t member

theorem Flagged.unlinked (flagged : Flagged s) (p : Punctual most s) (timer : Nat) :
    Flagged (s.unlinked timer) :=
  (flagged.remove timer).change fun left => absurd left (p.not_mem_unlinked timer)

theorem Flagged.arm (flagged : Flagged s) (taken : s.arm timer = some s') : Flagged s' := by
  obtain ⟨_, rfl⟩ := arm_cases taken
  intro t member
  by_cases same : t = timer
  · dsimp only
    rw [same, change_self]
    exact flagged timer (same ▸ member)
  · dsimp only
    rw [change_other same]
    exact flagged t member

theorem Flagged.link (flagged : Flagged s) (timer : Nat) : Flagged (s.link timer) := by
  intro t member
  dsimp only [Timers.link]
  by_cases same : t = timer
  · rw [same, change_self]
  · rw [change_other same]
    exact flagged t ((mem_insertTimer.mp member).resolve_left same)

theorem start_flagged (others : Flagged (s.unlinked timer))
    (taken : s.rtTimerStart timer = some s') : Flagged s' := by
  obtain ⟨armed, first, rfl⟩ := start_cases taken
  exact (others.arm first).link timer

theorem Flagged.call {c : TimerCall} (flagged : Flagged s) (p : Punctual most s)
    (taken : timerCall c s = some s') : Flagged s' := by
  cases c with
  | start timer => exact start_flagged (flagged.unlinked p timer) taken
  | stop timer =>
      obtain rfl := Option.some.inj taken
      rw [rtTimerStop]
      split
      · exact flagged.unlinked p timer
      · exact flagged
  | detach timer =>
      obtain rfl := Option.some.inj taken
      exact flagged.remove timer
  | setTime timer tick =>
      obtain rfl := Option.some.inj taken
      exact flagged.change fun member => flagged timer member
  | setPeriodic timer periodic =>
      obtain rfl := Option.some.inj taken
      exact flagged.change fun member => flagged timer member
  | init timer time periodic =>
      rw [timerCall] at taken
      split at taken
      · cases taken
      · rename_i unused
        obtain rfl := Option.some.inj taken
        exact flagged.change fun used => absurd used unused

/-- Without its flag the timer is taken out of the list before it is started again. -/
theorem Flagged.called (flagged : Flagged s) (p : Punctual most s)
    (own : timer ∈ s.list → (s.timer timer).periodic = true)
    (taken : s.called timer = some s') : Flagged s' := by
  rw [Timers.called] at taken
  split at taken
  · refine start_flagged ?_ taken
    intro t member
    have differ : t ≠ timer := ((p.nodup.mem_erase_iff).mp member).1
    have listed : t ∈ s.list := List.mem_of_mem_erase member
    rw [Timers.unlinked, change_other differ]
    show ((s.change timer fun t => { t with activated := false }).timer t).activated = true
    rw [change_other differ]
    exact flagged t listed
  · rename_i single
    obtain rfl := Option.some.inj taken
    refine flagged.change ?_
    intro member
    exact absurd ⟨own member, flagged timer member⟩ single

theorem Flagged.complete (flagged : Flagged s) {part : TimerPart}
    (apart : ∀ timer, part = .unflag timer → timer ∉ s.list)
    (taken : s.complete part = some s') : Flagged s' := by
  cases part with
  | arm other =>
      obtain ⟨armed, first, rfl⟩ := Option.map_eq_some_iff.mp taken
      have kept : Flagged armed := flagged.arm first
      exact kept
  | insert other =>
      obtain rfl := Option.some.inj taken
      exact flagged.link other
  | unlink other =>
      obtain rfl := Option.some.inj taken
      exact flagged.remove other
  | unflag other =>
      obtain rfl := Option.some.inj taken
      exact flagged.change fun member => absurd member (apart other rfl)

theorem Flagged.step {action : TimerAction} (flagged : Flagged s) (t : Timely most s)
    (alone : NotSelfStarted action s s') (taken : timerStep action s = some s') : Flagged s' := by
  have p := t.punctual
  cases timerStep_stepped taken with
  | call c s' taken => exact flagged.call p taken
  | start timer outside => exact flagged.unlinked p timer
  | stop timer => exact flagged
  | stopped timer inactive => exact flagged
  | finish part s' outside member taken =>
      have erased : Flagged { s with opened := s.opened.erase part } := flagged
      refine erased.complete ?_ taken
      intro timer same
      rw [same] at member
      exact (t.parted.out _ member rfl).1
  | tick outside => exact flagged
  | fire first rest checking listed dueNow =>
      intro x member
      exact flagged x (by rw [listed]; exact List.mem_cons_of_mem first member)
  | done called after calling returned =>
      have own : called ∈ s.list → (s.timer called).periodic = true :=
        fun member => alone rfl called member calling
      have kept : Flagged after := flagged.called p own returned
      exact kept
  | leave first => exact flagged

end

/-- A call with interrupts disabled takes the timer out of the list; one with interrupts
enabled returns at its test of the flag, or behind the clearing of the flag. -/
theorem timers_stoppable (now most : Nat) (positive : 0 < most) (small : most ≤ 0x7ffffffe)
    {actions : List TimerAction} {s : Timers}
    (reached : run timerStep actions (initTimers now) = some s)
    (kept : Each timerStep (Disciplined most) actions (initTimers now))
    (alone : Each timerStep NotSelfStarted actions (initTimers now)) (timer : Nat) :
    timer ∉ (s.rtTimerStop timer).list ∧ ((s.timer timer).activated = false → timer ∉ s.list) ∧
      ∀ s', timerStep (.finish (.unflag timer)) s = some s' → timer ∉ s'.list := by
  obtain ⟨timely, flagged⟩ : Timely most s ∧ Flagged s := by
    refine (kept.and alone).invariant (fun s => Timely most s ∧ Flagged s) ?_
      ⟨timely_init now, fun t member => by cases member⟩ reached
    intro action u v before side taken
    exact ⟨before.1.step small positive side.1 taken, before.2.step before.1 side.2 taken⟩
  have inactive : (s.timer timer).activated = false → timer ∉ s.list := by
    intro cleared member
    rw [flagged timer member] at cleared
    cases cleared
  refine ⟨?_, inactive, ?_⟩
  · rw [rtTimerStop]
    split
    · exact timely.punctual.not_mem_unlinked timer
    · rename_i unset
      exact inactive (Bool.eq_false_iff.mpr unset)
  · intro s' taken
    rw [timerStep] at taken
    split at taken
    · rename_i enabled
      obtain rfl := Option.some.inj taken
      exact (timely.parted.out _ enabled.2 rfl).1
    · cases taken

/-- A stop of a periodic timer, which is called and started again before the stop comes
to its critical section. -/
def interruptedStop : List TimerAction :=
  [.call (.init 1 1 true), .call (.start 1), .stop 1, .tick, .fire, .done, .leave,
    .finish (.unlink 1)]

theorem timers_stoppable_periodic : ∃ s s' : Timers, (s.timer 1).activated = true ∧
    timerStep (.finish (.unflag 1)) s = some s' ∧ 1 ∉ s'.list := by
  have result : ((run timerStep interruptedStop (initTimers 0)).bind fun s =>
      (timerStep (.finish (.unflag 1)) s).map fun _ => (s.timer 1).activated) = some true := by
    decide +kernel
  obtain ⟨s, reached, last⟩ := Option.bind_eq_some_iff.mp result
  obtain ⟨s', taken, active⟩ := Option.map_eq_some_iff.mp last
  have stopped := timers_stoppable 0 1 (by decide) (by decide) reached (by decide +kernel)
    (by decide +kernel) 1
  exact ⟨s, s', active, taken, stopped.2.2 s' taken⟩

/-- The flag is cleared behind the timeout function of a timer that is not periodic, also
when the function has started the timer, and such a timer is not stopped. -/
theorem selfStarted_not_stopped {s s' : Timers} {t : Nat} (calling : s.phase = .calling t)
    (listed : t ∈ s.list) (single : (s.timer t).periodic = false)
    (taken : timerStep .done s = some s') : s'.rtTimerStop t = s' ∧ t ∈ s'.list := by
  rw [timerStep, calling] at taken
  obtain ⟨after, result, rfl⟩ := Option.map_eq_some_iff.mp taken
  rw [called, if_neg (by simp [single])] at result
  obtain rfl := Option.some.inj result
  refine ⟨?_, listed⟩
  rw [rtTimerStop, if_neg]
  rw [change_self]
  exact Bool.false_ne_true

end KyokaMirror.RtThread
