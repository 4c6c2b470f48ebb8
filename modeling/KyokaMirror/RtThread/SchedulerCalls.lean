import KyokaMirror.RtThread.Scheduler

set_option autoImplicit false

namespace KyokaMirror.RtThread

open Library.Transition
open Scheduler

section

variable {s s' : Scheduler} {t x : Nat}

/-- A call stops or goes on without any thread being deleted. -/
theorem Queued.reopen (q : Queued s) {opened : List Part}
    (same : ∀ x, Part.close x ∈ opened ↔ Part.close x ∈ s.opened) :
    Queued { s with opened := opened } := by
  have kept : Scheduler.closing { s with opened := opened } = s.closing := funext fun x =>
    propext (same x)
  refine ⟨?_, ?_, q.running⟩
  · rw [kept]
    exact q.tabled.reopen opened
  · rw [kept]
    exact q.current

theorem Queued.leave (q : Queued s) {part : Part} (other : ∀ x, part ≠ .close x) :
    Queued (s.leave part) := by
  refine q.reopen fun x => ?_
  rw [List.mem_cons, or_iff_right (other x).symm]

/-- The thread, which does not run, is out of the table from now on. -/
theorem queued_leave_close (away : Tabled (apart s.closing t) s) (other : s.current ≠ some t)
    (current : ∀ x, s.current = some x → ¬ s.closing x ∧ (s.thread x).stat ≠ .ready)
    (running : ∀ x, (s.thread x).stat = .running → s.current = some x) :
    Queued (s.leave (.close t)) := by
  have closing : (s.leave (.close t)).closing = apart s.closing t := by
    funext x
    simp [Scheduler.closing, Scheduler.leave, apart]
  refine ⟨?_, ?_, running⟩
  · rw [closing]
    exact away.reopen _
  · intro x isCurrent
    obtain ⟨belongs, busy⟩ := current x isCurrent
    rw [closing]
    refine ⟨not_or.mpr ⟨?_, belongs⟩, busy⟩
    intro same
    exact other (same ▸ isCurrent)

theorem Queued.resume (q : Queued s) (t : Nat) : Queued (s.rtThreadResume t) := by
  rw [rtThreadResume]
  split
  · exact q.leave (by simp)
  · exact q

theorem Queued.suspend (q : Queued s) (t : Nat) : Queued (s.rtThreadSuspend t) := by
  rw [rtThreadSuspend]
  split
  · exact q.leave (by simp)
  · exact q

theorem Queued.startup (q : Queued s) (taken : s.rtThreadStartup t = some s') : Queued s' := by
  rw [rtThreadStartup] at taken
  split at taken
  · rename_i fresh
    have asleep : Queued (s.set t fun thread => { thread with
        currentPriority := thread.initPriority, stat := .suspend, yields := false }) :=
      q.set (by simp [fresh]) (by simp) (by simp)
    obtain rfl := Option.some.inj taken
    exact asleep.resume t
  · cases taken

theorem Queued.changePriority (q : Queued s) (belongs : ¬ s.closing t) (priority : Fin 32) :
    Queued (s.changePriority t priority) := by
  rw [Scheduler.changePriority]
  split
  · rename_i ready
    have other : s.current ≠ some t := fun current => (q.current t current).2 ready
    have moved := (q.tabled.remove t).set fun thread => { thread with currentPriority := priority }
    refine queued_insert moved belongs other ?_ ?_
    · intro x current
      have differ : x ≠ t := by
        intro same
        exact other (same ▸ current)
      rw [set_other differ]
      exact q.current x current
    · intro x differ running
      rw [set_other differ] at running
      exact q.running x running
  · rename_i busy
    exact q.set busy busy fun running => q.running t running

theorem Queued.delete (q : Queued s) (other : s.current ≠ some t) :
    Queued (s.rtThreadDelete t) := by
  rw [rtThreadDelete]
  split
  · exact q
  · rename_i fresh
    have away : Tabled (apart s.closing t) s := (tabled_apart_iff (by simp [fresh])).mpr q.tabled
    exact queued_leave_close away other q.current q.running
  · exact queued_leave_close (q.tabled.remove t) other q.current q.running

theorem Queued.start (q : Queued s) (taken : rtSystemSchedulerStart s = some s') : Queued s' := by
  rw [rtSystemSchedulerStart] at taken
  split at taken
  · rename_i target rest none listed
    split at taken
    · cases taken
    · obtain rfl := Option.some.inj taken
      have nobodyRuns : ∀ x, (s.thread x).stat ≠ .running := by
        intro x running
        have current := q.running x running
        rw [none] at current
        cases current
      have tabled : Tabled s.closing ({ s with current := some target } : Scheduler) :=
        ⟨q.tabled.group, q.tabled.mem, q.tabled.nodup⟩
      refine queued_set (tabled.dequeue (by simp)) (by simp) (fun _ => rfl) ?_ ?_ ?_
      · intro x current
        obtain rfl := Option.some.inj current
        exact (q.head listed).1
      · intro x differ current
        exact absurd (Option.some.inj current).symm differ
      · intro x _ running
        exact absurd running (nobodyRuns x)
  · cases taken

theorem Queued.relock (q : Queued s) (lockNest : Nat) : Queued { s with lockNest := lockNest } :=
  ⟨⟨q.tabled.group, q.tabled.mem, q.tabled.nodup⟩, q.current, q.running⟩

end

/-- The thread that is between the two parts of its resume or its deletion. -/
def Part.claimed : Part → Option Nat
  | .insert t => some t
  | .park _ _ => none
  | .close t => some t

def Scheduler.claims (s : Scheduler) : List Nat := s.opened.filterMap Part.claimed

/-- Each thread is in the middle of at most one such call, and a thread that is about to
be inserted still sleeps. -/
structure Claimed (s : Scheduler) : Prop where
  once : s.claims.Nodup
  asleep : ∀ t, Part.insert t ∈ s.opened → (s.thread t).stat = .suspend

/-- The thread whose place in the table a call is about. -/
def SchedulerAction.concerned (s : Scheduler) : SchedulerAction → Option Nat
  | .startup t => some t
  | .resume t => some t
  | .timeout t => some t
  | .changePriority t _ => some t
  | .delete t => some t
  | .exit => s.current
  | _ => none

def SchedulerAction.deleted : SchedulerAction → Option Nat
  | .delete t => some t
  | _ => none

/-- No other call for a thread, nor its timeout, comes between the two parts of its
startup, resume or deletion, and no thread deletes itself but by `rt_thread_exit`. A
suspend may come at any time. -/
def Alone (action : SchedulerAction) (s _ : Scheduler) : Prop :=
  (∀ t ∈ action.concerned s, t ∉ s.claims) ∧ ∀ t ∈ action.deleted, s.current ≠ some t

instance (action : SchedulerAction) (s s' : Scheduler) : Decidable (Alone action s s') :=
  inferInstanceAs (Decidable (_ ∧ _))

section

variable {s s' : Scheduler} {t x : Nat}

theorem mem_claims_insert (member : Part.insert t ∈ s.opened) : t ∈ s.claims :=
  List.mem_filterMap.mpr ⟨_, member, rfl⟩

theorem mem_claims_close (closing : s.closing t) : t ∈ s.claims :=
  List.mem_filterMap.mpr ⟨_, closing, rfl⟩

theorem Claimed.frame (c : Claimed s) (opened : s'.opened = s.opened)
    (asleep : ∀ x ∈ s.claims, (s.thread x).stat = .suspend → (s'.thread x).stat = .suspend) :
    Claimed s' := by
  refine ⟨?_, ?_⟩
  · rw [claims, opened]
    exact c.once
  · intro x member
    rw [opened] at member
    exact asleep x (mem_claims_insert member) (c.asleep x member)

/-- One thread changes that is not in the middle of a call. -/
theorem Claimed.set (c : Claimed s) (free : t ∉ s.claims) (update : Thread → Thread) :
    Claimed (s.set t update) := by
  refine c.frame rfl ?_
  intro x member asleep
  have differ : x ≠ t := ne_of_mem_of_not_mem member free
  rw [set_other differ]
  exact asleep

theorem Claimed.remove (c : Claimed s) (t : Nat) : Claimed (s.rtScheduleRemoveThread t) :=
  c.frame rfl fun _ _ asleep => asleep

theorem Claimed.insert (c : Claimed s) (free : t ∉ s.claims) :
    Claimed (s.rtScheduleInsertThread t) := by
  refine c.frame insert_fields.2.2 ?_
  intro x member asleep
  have differ : x ≠ t := ne_of_mem_of_not_mem member free
  rw [insert_stat_other differ]
  exact asleep

theorem Claimed.schedule (c : Claimed s) (q : Queued s) : Claimed s.rtSchedule :=
  c.frame q.schedule_keeps.1 fun x _ => q.schedule_keeps.2 x

/-- A call for a thread that is not in the middle of another one stops. -/
theorem Claimed.leave (c : Claimed s) {part : Part}
    (free : ∀ t, part.claimed = some t → t ∉ s.claims)
    (asleep : ∀ t, part = .insert t → (s.thread t).stat = .suspend) : Claimed (s.leave part) := by
  refine ⟨?_, ?_⟩
  · rw [claims, Scheduler.leave, List.filterMap_cons]
    cases claimed : part.claimed with
    | none => exact c.once
    | some t => exact List.nodup_cons.mpr ⟨free t claimed, c.once⟩
  · intro x member
    rcases List.mem_cons.mp member with same | old
    · exact asleep x same.symm
    · exact c.asleep x old

theorem Claimed.leave_insert (c : Claimed s) (free : t ∉ s.claims)
    (asleep : (s.thread t).stat = .suspend) : Claimed (s.leave (.insert t)) := by
  refine c.leave ?_ ?_
  · intro u claimed
    obtain rfl := Option.some.inj claimed
    exact free
  · intro u same
    injection same with same
    rw [← same]
    exact asleep

theorem Claimed.leave_close (c : Claimed s) (free : t ∉ s.claims) :
    Claimed (s.leave (.close t)) := by
  refine c.leave ?_ ?_
  · intro u claimed
    obtain rfl := Option.some.inj claimed
    exact free
  · intro u same
    cases same

theorem Claimed.erase (c : Claimed s) (part : Part) :
    Claimed { s with opened := s.opened.erase part } :=
  ⟨c.once.sublist (List.erase_sublist.filterMap _),
    fun x member => c.asleep x (List.mem_of_mem_erase member)⟩

/-- The call that a thread was in the middle of was the only one. -/
theorem Claimed.erase_free (c : Claimed s) {part : Part} (member : part ∈ s.opened)
    (claimed : part.claimed = some t) :
    t ∉ ({ s with opened := s.opened.erase part } : Scheduler).claims := by
  have once := c.once
  rw [claims, ((List.perm_cons_erase member).filterMap _).nodup_iff,
    List.filterMap_cons_some claimed] at once
  exact (List.nodup_cons.mp once).1

end

/-- What holds between any two critical sections. -/
structure Consistent (s : Scheduler) : Prop where
  queued : Queued s
  claimed : Claimed s

section

variable {s s' : Scheduler} {t : Nat}

theorem Consistent.schedule (c : Consistent s) : Consistent s.rtSchedule :=
  ⟨c.queued.schedule, c.claimed.schedule c.queued⟩

theorem Consistent.resume (c : Consistent s) (free : t ∉ s.claims) :
    Consistent (s.rtThreadResume t) := by
  refine ⟨c.queued.resume t, ?_⟩
  rw [rtThreadResume]
  split
  · rename_i asleep
    exact c.claimed.leave_insert free asleep
  · exact c.claimed

theorem Consistent.startup (c : Consistent s) (free : t ∉ s.claims)
    (taken : s.rtThreadStartup t = some s') : Consistent s' := by
  refine ⟨c.queued.startup taken, ?_⟩
  rw [rtThreadStartup] at taken
  split at taken
  · obtain rfl := Option.some.inj taken
    rw [rtThreadResume, if_pos (by rw [set_self])]
    exact (c.claimed.set free _).leave_insert free (by rw [set_self])
  · cases taken

theorem Consistent.suspend (c : Consistent s) (t : Nat) : Consistent (s.rtThreadSuspend t) := by
  refine ⟨c.queued.suspend t, ?_⟩
  rw [rtThreadSuspend]
  split
  · exact c.claimed.leave (by simp [Part.claimed]) (by simp)
  · exact c.claimed

theorem Consistent.timeout (c : Consistent s) (free : t ∉ s.claims)
    (taken : s.rtThreadTimeout t = some s') : Consistent s' := by
  rw [rtThreadTimeout] at taken
  split at taken
  · rename_i asleep
    obtain rfl := Option.some.inj taken
    have inserted : Consistent (s.rtScheduleInsertThread t) :=
      ⟨c.queued.insert asleep fun closing => free (mem_claims_close closing),
        c.claimed.insert free⟩
    exact inserted.schedule
  · cases taken

theorem Consistent.changePriority (c : Consistent s) (free : t ∉ s.claims) (priority : Fin 32) :
    Consistent (s.changePriority t priority) := by
  refine ⟨c.queued.changePriority (fun closing => free (mem_claims_close closing)) priority, ?_⟩
  rw [Scheduler.changePriority]
  split
  · exact ((c.claimed.remove t).set free _).insert free
  · exact c.claimed.set free _

theorem Consistent.delete (c : Consistent s) (free : t ∉ s.claims) (other : s.current ≠ some t) :
    Consistent (s.rtThreadDelete t) := by
  refine ⟨c.queued.delete other, ?_⟩
  rw [rtThreadDelete]
  split
  · exact c.claimed
  · exact c.claimed.leave_close free
  · exact (c.claimed.remove t).leave_close free

theorem Consistent.exit (c : Consistent s) (free : t ∉ s.claims) :
    Consistent (s.exitThread t) := by
  have closed : Consistent ((s.rtScheduleRemoveThread t).set t fun thread =>
      { thread with stat := .close, yields := false }) :=
    ⟨c.queued.dequeue (by simp) (by simp), (c.claimed.remove t).set free _⟩
  exact closed.schedule

theorem Consistent.finish_insert (c : Consistent s) (member : Part.insert t ∈ s.opened) :
    Consistent (({ s with opened := s.opened.erase (.insert t) } :
      Scheduler).rtScheduleInsertThread t) := by
  have free := c.claimed.erase_free member rfl
  have q : Queued { s with opened := s.opened.erase (.insert t) } :=
    c.queued.reopen fun x => List.mem_erase_of_ne (by simp)
  exact ⟨q.insert (c.claimed.asleep t member) fun closing => free (mem_claims_close closing),
    (c.claimed.erase _).insert free⟩

theorem Consistent.finish_park (c : Consistent s) (stat : Stat) :
    Consistent ((({ s with opened := s.opened.erase (.park t stat) } :
      Scheduler).rtScheduleRemoveThread t).set t
        fun thread => { thread with stat := .suspend }) := by
  have q : Queued { s with opened := s.opened.erase (.park t stat) } :=
    c.queued.reopen fun x => List.mem_erase_of_ne (by simp)
  refine ⟨q.dequeue (by simp) (by simp), ((c.claimed.erase _).remove t).frame rfl ?_⟩
  intro x _ asleep
  by_cases same : x = t
  · rw [same, set_self]
  · rw [set_other same]
    exact asleep

/-- With its new `stat` the thread is not in the table by rights. -/
theorem Consistent.finish_close (c : Consistent s) (member : Part.close t ∈ s.opened) :
    Consistent (({ s with opened := s.opened.erase (.close t) } : Scheduler).set t
      fun thread => { thread with stat := .close, yields := false }) := by
  have free := c.claimed.erase_free member rfl
  have closing : ∀ x, s.closing x ↔
      apart (Scheduler.closing { s with opened := s.opened.erase (.close t) }) t x := by
    intro x
    by_cases same : x = t
    · exact iff_of_true (same ▸ member) (.inl same)
    · refine (List.mem_erase_of_ne ?_).symm.trans (or_iff_right same).symm
      intro equal
      injection equal with equal
      exact same equal
  have away := ((c.queued.tabled.congr fun x _ => closing x).reopen
    (s.opened.erase (.close t))).set fun thread => { thread with stat := .close, yields := false }
  refine ⟨queued_set ((tabled_apart_iff (by simp [set_self])).mp away) (by simp) (by simp) ?_ ?_ ?_,
    (c.claimed.erase _).set free _⟩
  · intro x current listed
    exact (c.queued.current x current).1 ((closing x).mpr (.inr listed))
  · intro x _ current
    exact (c.queued.current x current).2
  · intro x _ running
    exact c.queued.running x running

theorem Consistent.finish (c : Consistent s) {part : Part} (taken : s.finish part = some s') :
    Consistent s' := by
  rw [Scheduler.finish] at taken
  split at taken
  · rename_i member
    cases part with
    | insert t =>
        obtain rfl := Option.some.inj taken
        exact c.finish_insert member
    | park t stat =>
        rw [complete, park] at taken
        split at taken
        · cases taken
        · obtain rfl := Option.some.inj taken
          exact c.finish_park stat
    | close t =>
        obtain rfl := Option.some.inj taken
        exact c.finish_close member
  · cases taken

/-- The current thread changes, and its state does not. -/
theorem Consistent.set_current (c : Consistent s) (current : s.current = some t)
    {update : Thread → Thread} (stat : ∀ thread, (update thread).stat = thread.stat) :
    Consistent (s.set t update) := by
  have busy := (c.queued.current t current).2
  refine ⟨c.queued.set busy (by rw [stat]; exact busy) fun _ => current, c.claimed.frame rfl ?_⟩
  intro x _ asleep
  rw [set_keeps Thread.stat stat]
  exact asleep

theorem Consistent.yield (c : Consistent s) (current : s.current = some t) :
    Consistent (s.yieldThread t) := by
  have changed : Consistent (s.set t fun thread => { thread with
      remainingTick := thread.initTick, yields := true }) := c.set_current current fun _ => rfl
  exact changed.schedule

theorem Consistent.tick (c : Consistent s) (current : s.current = some t) :
    Consistent (s.tickThread t) := by
  rw [tickThread]
  split
  · exact c.yield current
  · exact c.set_current current fun _ => rfl

theorem Consistent.start (c : Consistent s) (taken : rtSystemSchedulerStart s = some s') :
    Consistent s' := by
  refine ⟨c.queued.start taken, ?_⟩
  rw [rtSystemSchedulerStart] at taken
  split at taken
  · rename_i target rest none listed
    split at taken
    · cases taken
    · obtain rfl := Option.some.inj taken
      refine c.claimed.frame rfl ?_
      intro x _ asleep
      have differ : x ≠ target := by
        intro same
        rw [same, (c.queued.head listed).2] at asleep
        cases asleep
      rw [set_other differ]
      exact asleep
  · cases taken

theorem Consistent.relock (c : Consistent s) (lockNest : Nat) :
    Consistent { s with lockNest := lockNest } :=
  ⟨c.queued.relock lockNest, c.claimed.once, c.claimed.asleep⟩

theorem Consistent.step (c : Consistent s) {action : SchedulerAction} (alone : Alone action s s')
    (taken : schedulerStep action s = some s') : Consistent s' := by
  cases action with
  | startup t => exact c.startup (alone.1 t rfl) taken
  | start => exact c.start taken
  | suspend t =>
      obtain rfl := Option.some.inj taken
      exact c.suspend t
  | resume t =>
      obtain rfl := Option.some.inj taken
      exact c.resume (alone.1 t rfl)
  | finish part => exact c.finish taken
  | timeout t => exact c.timeout (alone.1 t rfl) taken
  | changePriority t priority =>
      obtain rfl := Option.some.inj taken
      exact c.changePriority (alone.1 t rfl) priority
  | delete t =>
      obtain rfl := Option.some.inj taken
      exact c.delete (alone.1 t rfl) (alone.2 t rfl)
  | exit =>
      obtain ⟨t, current, rfl⟩ := Option.map_eq_some_iff.mp taken
      exact c.exit (alone.1 t current)
  | yield =>
      obtain ⟨t, current, rfl⟩ := Option.map_eq_some_iff.mp taken
      exact c.yield current
  | tick =>
      obtain ⟨t, current, rfl⟩ := Option.map_eq_some_iff.mp taken
      exact c.tick current
  | schedule =>
      obtain rfl := Option.some.inj taken
      exact c.schedule
  | enterCritical =>
      obtain rfl := Option.some.inj taken
      exact c.relock _
  | exitCritical =>
      obtain rfl := Option.some.inj taken
      exact c.relock _

theorem consistent_init (threads : Nat → Thread) : Consistent (initScheduler threads) := by
  refine ⟨⟨⟨?_, ?_, fun _ => List.nodup_nil⟩, ?_, ?_⟩, List.nodup_nil, ?_⟩
  · intro p inside
    exact iff_of_false (by simp [initScheduler]) (fun filled => filled rfl)
  · intro p x
    refine iff_of_false List.not_mem_nil ?_
    rintro ⟨_, ready, _⟩
    cases ready
  · intro t current
    cases current
  · intro t running
    cases running
  · intro t member
    cases member

theorem Consistent.reached {threads : Nat → Thread} {actions : List SchedulerAction}
    (alone : Each schedulerStep Alone actions (initScheduler threads))
    (reached : run schedulerStep actions (initScheduler threads) = some s) : Consistent s :=
  alone.invariant Consistent (fun _ _ _ c side taken => c.step side taken)
    (consistent_init threads) reached

end

theorem schedule_highest (threads : Nat → Thread) {actions : List SchedulerAction} {s : Scheduler}
    (reached : run schedulerStep actions (initScheduler threads) = some s)
    (alone : Each schedulerStep Alone actions (initScheduler threads)) :
    Queued s ∧ (s.current ≠ none → s.lockNest = 0 →
      (∃ x, ¬ s.closing x ∧ ((s.thread x).stat = .ready ∨ (s.thread x).stat = .running)) →
      Dispatched s.rtSchedule) := by
  have q : Queued s := (Consistent.reached alone reached).queued
  exact ⟨q, q.dispatched⟩

/-- Thread 2 has a higher priority than the others, and all have slices of one tick. -/
def threeThreads : Nat → Thread := fun t => ⟨.init, false, if t = 2 then 5 else 10, 0, 1, 1⟩

/-- Two ticks come in before thread 1 has inserted thread 2, and one while thread 2
deletes thread 3. -/
def interruptedCalls : List SchedulerAction :=
  [.startup 1, .finish (.insert 1), .startup 3, .finish (.insert 3), .start, .startup 2, .tick,
    .tick, .finish (.insert 2), .schedule, .delete 3, .tick]

theorem schedule_highest_preempts : ∃ s : Scheduler,
    (Queued s ∧ (s.current ≠ none → s.lockNest = 0 →
      (∃ x, ¬ s.closing x ∧ ((s.thread x).stat = .ready ∨ (s.thread x).stat = .running)) →
      Dispatched s.rtSchedule)) ∧ s.current = some 2 ∧ s.table 10 = [1] := by
  have result : (run schedulerStep interruptedCalls (initScheduler threeThreads)).map
      (fun s => (s.current, s.table 10)) = some (some 2, [1]) := by decide +kernel
  obtain ⟨s, reached, shown⟩ := Option.map_eq_some_iff.mp result
  obtain ⟨current, table⟩ := Prod.mk.inj shown
  exact ⟨s, schedule_highest threeThreads reached (by decide +kernel), current, table⟩

theorem finish_insert {s : Scheduler} {t : Nat} {rest : List Part}
    (opened : s.opened = .insert t :: rest) : schedulerStep (.finish (.insert t)) s =
      some (({ s with opened := rest } : Scheduler).rtScheduleInsertThread t) := by
  rw [schedulerStep, Scheduler.finish, opened, if_pos List.mem_cons_self, List.erase_cons_head,
    complete]

theorem insert_table {s : Scheduler} {t : Nat} (other : s.current ≠ some t) :
    (s.rtScheduleInsertThread t).table (s.priority t) = s.table (s.priority t) ++ [t] := by
  rw [rtScheduleInsertThread, if_neg other]
  exact Function.update_self _ _ _

/-- Two resumes of one thread, of which each passes its test of `stat` before the other
one inserts the thread, put it into the table twice. -/
theorem overlapping_resumes {s : Scheduler} {t : Nat} (asleep : (s.thread t).stat = .suspend)
    (other : s.current ≠ some t) : ∃ s', run schedulerStep [.resume t, .resume t,
      .finish (.insert t), .finish (.insert t)] s = some s' ∧
      s'.table (s.priority t) = s.table (s.priority t) ++ [t, t] := by
  have first : schedulerStep (.resume t) s = some (s.leave (.insert t)) :=
    congrArg some (if_pos asleep)
  have second : schedulerStep (.resume t) (s.leave (.insert t)) =
      some ((s.leave (.insert t)).leave (.insert t)) := congrArg some (if_pos asleep)
  have third : schedulerStep (.finish (.insert t)) ((s.leave (.insert t)).leave (.insert t)) =
      some ((s.leave (.insert t)).rtScheduleInsertThread t) := finish_insert rfl
  obtain ⟨current, _, opened⟩ := insert_fields (s := s.leave (.insert t)) (t := t)
  have once := insert_table (s := s.leave (.insert t)) other
  have priority : ((s.leave (.insert t)).rtScheduleInsertThread t).priority t = s.priority t :=
    insert_priority
  generalize (s.leave (.insert t)).rtScheduleInsertThread t = u
    at third current opened once priority
  have twice := insert_table (s := { u with opened := s.opened }) (t := t) (by
    rw [current]
    exact other)
  refine ⟨({ u with opened := s.opened } : Scheduler).rtScheduleInsertThread t, ?_, ?_⟩
  · rw [run_cons, first, Option.bind_some, run_cons, second, Option.bind_some, run_cons, third,
      Option.bind_some, run_singleton]
    exact finish_insert opened
  · have same : Scheduler.priority { u with opened := s.opened } t = s.priority t := priority
    rw [same] at twice
    rw [twice]
    show u.table (s.priority t) ++ [t] = _
    rw [show u.table (s.priority t) = s.table (s.priority t) ++ [t] from once, List.append_assoc]
    rfl

end KyokaMirror.RtThread
