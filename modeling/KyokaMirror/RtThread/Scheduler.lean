import KyokaMirror.Library.Transition
import KyokaMirror.RtThread.Ffs

set_option autoImplicit false

namespace KyokaMirror.RtThread

open Library.Transition

/-- The part of `stat` under `RT_THREAD_STAT_MASK`. -/
inductive Stat where
  | init
  | ready
  | suspend
  | running
  | close
  deriving DecidableEq, Repr

/-- `struct rt_thread` as far as the scheduler reads it. `yields` is
`RT_THREAD_STAT_YIELD`. -/
structure Thread where
  stat : Stat
  yields : Bool
  initPriority : Fin 32
  currentPriority : Fin 32
  initTick : Nat
  remainingTick : Nat

/-- What a call has yet to do when interrupts may come in before its end: the insertion
of `rt_thread_resume`, the critical section of `rt_thread_suspend` behind its test of
`stat`, and the new `stat` of `rt_thread_delete` behind the removal from the table. -/
inductive Part where
  | insert (t : Nat)
  | park (t : Nat) (stat : Stat)
  | close (t : Nat)
  deriving DecidableEq, Repr

/-- `rt_thread_ready_priority_group`, `rt_thread_priority_table`,
`rt_current_thread`, `rt_scheduler_lock_nest` and the threads. `opened` are the calls
that have not come to their end. -/
structure Scheduler where
  group : BitVec 32
  table : Nat → List Nat
  current : Option Nat
  lockNest : Nat
  thread : Nat → Thread
  opened : List Part

/-- `number_mask`, which is computed anew with every change of the priority. -/
def numberMask (priority : Nat) : BitVec 32 := BitVec.twoPow 32 priority

namespace Scheduler

def set (s : Scheduler) (t : Nat) (update : Thread → Thread) : Scheduler :=
  { s with thread := Function.update s.thread t (update (s.thread t)) }

def priority (s : Scheduler) (t : Nat) : Nat := (s.thread t).currentPriority

/-- A thread goes behind the others of its priority. -/
def enqueue (s : Scheduler) (t : Nat) : Scheduler :=
  { s with
    table := Function.update s.table (s.priority t) (s.table (s.priority t) ++ [t])
    group := s.group ||| numberMask (s.priority t) }

def rtScheduleInsertThread (s : Scheduler) (t : Nat) : Scheduler :=
  if s.current = some t then s.set t fun thread => { thread with stat := .running }
  else (s.enqueue t).set t fun thread => { thread with stat := .ready }

def rtScheduleRemoveThread (s : Scheduler) (t : Nat) : Scheduler :=
  { s with
    table := Function.update s.table (s.priority t) ((s.table (s.priority t)).erase t)
    group := if (s.table (s.priority t)).erase t = [] then s.group &&& ~~~numberMask (s.priority t)
      else s.group }

def highestReadyPriority (s : Scheduler) : Nat := rtFfs s.group - 1

/-- Whether `rt_schedule` lets the current thread go on. -/
def keepsCurrent (s : Scheduler) (t : Nat) : Prop :=
  (s.thread t).stat = .running ∧ (s.priority t < s.highestReadyPriority ∨
    s.priority t = s.highestReadyPriority ∧ (s.thread t).yields = false)

instance (s : Scheduler) (t : Nat) : Decidable (s.keepsCurrent t) :=
  inferInstanceAs (Decidable (_ ∧ (_ ∨ _ ∧ _)))

/-- `rt_schedule` clears `RT_THREAD_STAT_YIELD` of a running thread. -/
def clearYield (s : Scheduler) (t : Nat) : Scheduler :=
  if (s.thread t).stat = .running then s.set t fun thread => { thread with yields := false } else s

/-- The processor goes to another thread; a running thread stays ready. -/
def handOver (s : Scheduler) (source target : Nat) : Scheduler :=
  let handed := { s.clearYield source with current := some target }
  if (s.thread source).stat = .running then handed.rtScheduleInsertThread source else handed

/-- The other thread leaves the ready table. -/
def switchTo (s : Scheduler) (source target : Nat) : Scheduler :=
  ((s.handOver source target).rtScheduleRemoveThread target).set target fun thread =>
    { thread with stat := .running }

/-- The current thread goes on. -/
def goOn (s : Scheduler) (t : Nat) : Scheduler :=
  ((s.clearYield t).rtScheduleRemoveThread t).set t fun thread => { thread with stat := .running }

/-- `rt_schedule`; before the scheduler is started nobody calls it. -/
def rtSchedule (s : Scheduler) : Scheduler :=
  match s.current, s.table s.highestReadyPriority with
  | some source, target :: _ =>
      if s.lockNest ≠ 0 ∨ s.group = 0 then s
      else if s.keepsCurrent source ∨ target = source then s.goOn source
      else s.switchTo source target
  | _, _ => s

/-- Interrupts may come in. -/
def leave (s : Scheduler) (part : Part) : Scheduler := { s with opened := part :: s.opened }

/-- `rt_thread_suspend` up to its test of `stat`. -/
def rtThreadSuspend (s : Scheduler) (t : Nat) : Scheduler :=
  if (s.thread t).stat = .ready ∨ (s.thread t).stat = .running then
    s.leave (.park t (s.thread t).stat)
  else s

/-- `rt_thread_resume` up to `rt_schedule_insert_thread`; `stat` stays
`RT_THREAD_SUSPEND`. -/
def rtThreadResume (s : Scheduler) (t : Nat) : Scheduler :=
  if (s.thread t).stat = .suspend then s.leave (.insert t) else s

/-- `rt_thread_startup` up to the insertion of `rt_thread_resume`; `none` where its
assertion fails. The `rt_schedule` at its end is a step of its own. -/
def rtThreadStartup (s : Scheduler) (t : Nat) : Option Scheduler :=
  if (s.thread t).stat = .init then
    some ((s.set t fun thread => { thread with
      currentPriority := thread.initPriority, stat := .suspend, yields := false }).rtThreadResume t)
  else none

/-- `rt_thread_delete` and `rt_thread_detach` up to the change of `stat`. -/
def rtThreadDelete (s : Scheduler) (t : Nat) : Scheduler :=
  match (s.thread t).stat with
  | .close => s
  | .init => s.leave (.close t)
  | _ => (s.rtScheduleRemoveThread t).leave (.close t)

/-- The critical section of `rt_thread_suspend`; `none` where the assertion on a running
thread fails. -/
def park (s : Scheduler) (t : Nat) (stat : Stat) : Option Scheduler :=
  if stat = .running ∧ s.current ≠ some t then none
  else some ((s.rtScheduleRemoveThread t).set t fun thread => { thread with stat := .suspend })

/-- The rest of a call. -/
def complete (s : Scheduler) : Part → Option Scheduler
  | .insert t => some (s.rtScheduleInsertThread t)
  | .park t stat => s.park t stat
  | .close t => some (s.set t fun thread => { thread with stat := .close, yields := false })

def finish (s : Scheduler) (part : Part) : Option Scheduler :=
  if part ∈ s.opened then ({ s with opened := s.opened.erase part } : Scheduler).complete part
  else none

/-- `rt_thread_timeout`; `none` where its assertion fails. -/
def rtThreadTimeout (s : Scheduler) (t : Nat) : Option Scheduler :=
  if (s.thread t).stat = .suspend then some (s.rtScheduleInsertThread t).rtSchedule else none

/-- `rt_thread_control` with `RT_THREAD_CTRL_CHANGE_PRIORITY`. -/
def changePriority (s : Scheduler) (t : Nat) (priority : Fin 32) : Scheduler :=
  if (s.thread t).stat = .ready then
    ((s.rtScheduleRemoveThread t).set t fun thread =>
      { thread with currentPriority := priority }).rtScheduleInsertThread t
  else s.set t fun thread => { thread with currentPriority := priority }

/-- `rt_thread_exit` of the current thread. -/
def exitThread (s : Scheduler) (t : Nat) : Scheduler :=
  ((s.rtScheduleRemoveThread t).set t fun thread =>
    { thread with stat := .close, yields := false }).rtSchedule

def yieldThread (s : Scheduler) (t : Nat) : Scheduler :=
  (s.set t fun thread =>
    { thread with remainingTick := thread.initTick, yields := true }).rtSchedule

/-- `rt_tick_increase` without the timers. -/
def tickThread (s : Scheduler) (t : Nat) : Scheduler :=
  let left := ((s.thread t).remainingTick + 2 ^ 32 - 1) % 2 ^ 32
  if left = 0 then s.yieldThread t
  else s.set t fun thread => { thread with remainingTick := left }

end Scheduler

open Scheduler

/-- The critical sections of the kernel calls. A call that is made with interrupts
disabled is finished by the next step. -/
inductive SchedulerAction where
  | startup (t : Nat)
  | start
  | suspend (t : Nat)
  | resume (t : Nat)
  | finish (part : Part)
  | timeout (t : Nat)
  | changePriority (t : Nat) (priority : Fin 32)
  | delete (t : Nat)
  | exit
  | yield
  | tick
  | schedule
  | enterCritical
  | exitCritical

/-- `rt_system_scheduler_start`. -/
def rtSystemSchedulerStart (s : Scheduler) : Option Scheduler :=
  match s.current, s.table s.highestReadyPriority with
  | none, target :: _ =>
      if s.group = 0 then none
      else some ((({ s with current := some target } : Scheduler).rtScheduleRemoveThread target).set
        target fun thread => { thread with stat := .running })
  | _, _ => none

/-- The `rt_schedule` behind `rt_exit_critical` is a step of its own. -/
def schedulerStep : SchedulerAction → Scheduler → Option Scheduler
  | .startup t, s => s.rtThreadStartup t
  | .start, s => rtSystemSchedulerStart s
  | .suspend t, s => some (s.rtThreadSuspend t)
  | .resume t, s => some (s.rtThreadResume t)
  | .finish part, s => s.finish part
  | .timeout t, s => s.rtThreadTimeout t
  | .changePriority t priority, s => some (s.changePriority t priority)
  | .delete t, s => some (s.rtThreadDelete t)
  | .exit, s => s.current.map s.exitThread
  | .yield, s => s.current.map s.yieldThread
  | .tick, s => s.current.map s.tickThread
  | .schedule, s => some s.rtSchedule
  | .enterCritical, s => some { s with lockNest := s.lockNest + 1 }
  | .exitCritical, s => some { s with lockNest := s.lockNest - 1 }

/-- `rt_system_scheduler_init` with threads that have been initialised. -/
def initScheduler (threads : Nat → Thread) : Scheduler :=
  ⟨0, fun _ => [], none, 0, fun t => { threads t with stat := .init, yields := false }, []⟩

section

variable {s : Scheduler} {t x : Nat}

theorem set_self (update : Thread → Thread) : (s.set t update).thread t = update (s.thread t) :=
  Function.update_self _ _ _

theorem set_other (differ : x ≠ t) (update : Thread → Thread) :
    (s.set t update).thread x = s.thread x := Function.update_of_ne differ _ _

/-- What an update of one thread leaves as it is stays so for all threads. -/
theorem set_keeps {β : Type} (field : Thread → β) {update : Thread → Thread}
    (keeps : ∀ thread, field (update thread) = field thread) :
    field ((s.set t update).thread x) = field (s.thread x) := by
  by_cases same : x = t
  · rw [same, set_self, keeps]
  · rw [set_other same]

theorem priority_set_other (differ : x ≠ t) (update : Thread → Thread) :
    (s.set t update).priority x = s.priority x := by
  rw [priority, set_other differ, priority]

theorem priority_set {update : Thread → Thread}
    (keeps : ∀ thread, (update thread).currentPriority = thread.currentPriority) :
    (s.set t update).priority x = s.priority x :=
  congrArg Fin.val (set_keeps Thread.currentPriority keeps)

theorem priority_lt (t : Nat) : s.priority t < 32 := (s.thread t).currentPriority.isLt

theorem numberMask_bit {p : Nat} (inside : p < 32) (i : Nat) :
    (numberMask p).getLsbD i = decide (p = i) := by
  rw [numberMask, BitVec.getLsbD_twoPow, decide_eq_true inside, Bool.true_and]

/-- The table holds exactly the ready threads other than those of `away`, each in the
list of its priority, and the group has the bits of the lists that are not empty. -/
structure Tabled (away : Nat → Prop) (s : Scheduler) : Prop where
  group : ∀ p < 32, s.group.getLsbD p = true ↔ s.table p ≠ []
  mem : ∀ p x, x ∈ s.table p ↔ ¬ away x ∧ (s.thread x).stat = .ready ∧ s.priority x = p
  nodup : ∀ p, (s.table p).Nodup

/-- One more thread is kept away from the table. -/
def apart (away : Nat → Prop) (t : Nat) : Nat → Prop := fun x => x = t ∨ away x

variable {away : Nat → Prop}

theorem Tabled.congr {away' : Nat → Prop} (tabled : Tabled away s)
    (same : ∀ x, (s.thread x).stat = .ready → (away x ↔ away' x)) : Tabled away' s := by
  refine ⟨tabled.group, ?_, tabled.nodup⟩
  intro p x
  rw [tabled.mem p x]
  constructor
  · rintro ⟨here, ready, priority⟩
    exact ⟨fun h => here ((same x ready).mpr h), ready, priority⟩
  · rintro ⟨here, ready, priority⟩
    exact ⟨fun h => here ((same x ready).mp h), ready, priority⟩

/-- A thread that is not ready is not in the table anyhow. -/
theorem tabled_apart_iff (busy : (s.thread t).stat ≠ .ready) :
    Tabled (apart away t) s ↔ Tabled away s := by
  have same : ∀ x, (s.thread x).stat = .ready → (apart away t x ↔ away x) := by
    intro x ready
    apply or_iff_right
    intro equal
    exact busy (equal ▸ ready)
  exact ⟨fun tabled => tabled.congr same, fun tabled => tabled.congr fun x h => (same x h).symm⟩

theorem Tabled.reopen (tabled : Tabled away s) (opened : List Part) :
    Tabled away { s with opened := opened } := ⟨tabled.group, tabled.mem, tabled.nodup⟩

theorem Tabled.set (tabled : Tabled (apart away t) s) (update : Thread → Thread) :
    Tabled (apart away t) (s.set t update) := by
  refine ⟨tabled.group, ?_, tabled.nodup⟩
  intro p x
  rw [show (s.set t update).table p = s.table p from rfl, tabled.mem p x]
  by_cases same : x = t
  · exact iff_of_false (fun h => h.1 (.inl same)) (fun h => h.1 (.inl same))
  · rw [set_other same, priority_set_other same]

theorem Tabled.remove (tabled : Tabled away s) (t : Nat) :
    Tabled (apart away t) (s.rtScheduleRemoveThread t) := by
  have erased : ∀ x, x ∈ (s.table (s.priority t)).erase t ↔ x ≠ t ∧ x ∈ s.table (s.priority t) :=
    fun x => (tabled.nodup _).mem_erase_iff
  refine ⟨?_, ?_, ?_⟩
  · intro p inside
    have before := tabled.group p inside
    dsimp only [rtScheduleRemoveThread]
    by_cases here : p = s.priority t
    · rw [here, Function.update_self]
      split
      · rename_i empty
        rw [BitVec.getLsbD_and, BitVec.getLsbD_not, numberMask_bit (priority_lt t), empty]
        simp
      · rename_i left
        refine iff_of_true ?_ left
        rw [← here, before, here]
        intro none
        rw [none] at left
        exact left rfl
    · rw [Function.update_of_ne here, ← before]
      split
      · rw [BitVec.getLsbD_and, BitVec.getLsbD_not, numberMask_bit (priority_lt t),
          decide_eq_false (Ne.symm here)]
        simp [inside]
      · rfl
  · intro p x
    dsimp only [rtScheduleRemoveThread]
    by_cases here : p = s.priority t
    · rw [here, Function.update_self, erased x, tabled.mem, apart, not_or, and_assoc]
      exact Iff.rfl
    · rw [Function.update_of_ne here, tabled.mem p x]
      constructor
      · rintro ⟨listed, ready, priority⟩
        refine ⟨not_or.mpr ⟨?_, listed⟩, ready, priority⟩
        intro same
        exact here (by rw [← priority, same])
      · rintro ⟨listed, ready, priority⟩
        exact ⟨(not_or.mp listed).2, ready, priority⟩
  · intro p
    dsimp only [rtScheduleRemoveThread]
    by_cases here : p = s.priority t
    · rw [here, Function.update_self]
      exact (tabled.nodup _).erase t
    · rw [Function.update_of_ne here]
      exact tabled.nodup p

theorem Tabled.insert (tabled : Tabled (apart away t) s) (other : s.current ≠ some t)
    (belongs : ¬ away t) : Tabled away (s.rtScheduleInsertThread t) := by
  rw [rtScheduleInsertThread, if_neg other]
  have unlisted : t ∉ s.table (s.priority t) :=
    fun member => ((tabled.mem _ _).mp member).1 (.inl rfl)
  refine ⟨?_, ?_, ?_⟩
  · intro p inside
    have before := tabled.group p inside
    dsimp only [Scheduler.set, enqueue]
    rw [BitVec.getLsbD_or, numberMask_bit (priority_lt t)]
    by_cases here : p = s.priority t
    · rw [here, Function.update_self, decide_eq_true rfl, Bool.or_true]
      exact iff_of_true rfl (List.append_ne_nil_of_right_ne_nil _ (List.cons_ne_nil _ _))
    · rw [Function.update_of_ne here, decide_eq_false (Ne.symm here), Bool.or_false, before]
  · intro p x
    have listed := tabled.mem p x
    have kept : ((s.enqueue t).set t fun thread => { thread with stat := .ready }).priority x =
        s.priority x := priority_set fun _ => rfl
    rw [kept]
    show x ∈ Function.update s.table (s.priority t) (s.table (s.priority t) ++ [t]) p ↔
      ¬ away x ∧ _ ∧ s.priority x = p
    by_cases same : x = t
    · subst same
      rw [set_self]
      by_cases here : p = s.priority x
      · rw [here, Function.update_self]
        exact iff_of_true (List.mem_append_right _ (List.mem_singleton_self x)) ⟨belongs, rfl, rfl⟩
      · rw [Function.update_of_ne here, listed]
        exact iff_of_false (fun h => h.1 (.inl rfl)) (fun h => here h.2.2.symm)
    · rw [set_other same]
      have plain : (¬ away x ∧ (s.thread x).stat = .ready ∧ s.priority x = p) ↔
          x ∈ s.table p := by
        rw [listed, apart, or_iff_right same]
      rw [show (s.enqueue t).thread x = s.thread x from rfl, plain]
      by_cases here : p = s.priority t
      · rw [here, Function.update_self, List.mem_append, List.mem_singleton]
        exact ⟨fun h => h.resolve_right same, Or.inl⟩
      · rw [Function.update_of_ne here]
  · intro p
    dsimp only [Scheduler.set, enqueue]
    by_cases here : p = s.priority t
    · rw [here, Function.update_self]
      refine List.nodup_append.mpr ⟨tabled.nodup _, List.nodup_singleton t, ?_⟩
      intro a member b single same
      rw [same, List.mem_singleton.mp single] at member
      exact unlisted member
    · rw [Function.update_of_ne here]
      exact tabled.nodup p

/-- A thread leaves the table for good, or was not in it. -/
theorem Tabled.dequeue (tabled : Tabled away s) {update : Thread → Thread}
    (leaves : (update (s.thread t)).stat ≠ .ready) :
    Tabled away ((s.rtScheduleRemoveThread t).set t update) := by
  refine (tabled_apart_iff ?_).mp ((tabled.remove t).set update)
  rw [set_self]
  exact leaves

/-- A thread that is not in the table changes. -/
theorem Tabled.change (tabled : Tabled away s) {update : Thread → Thread}
    (busy : (s.thread t).stat ≠ .ready) (stays : (update (s.thread t)).stat ≠ .ready) :
    Tabled away (s.set t update) := by
  refine (tabled_apart_iff ?_).mp (((tabled_apart_iff busy).mpr tabled).set update)
  rw [set_self]
  exact stays

/-- The first thread of the highest priority. -/
theorem Tabled.highest (tabled : Tabled away s) (some : s.group ≠ 0) :
    ∃ first rest, s.table s.highestReadyPriority = first :: rest ∧
      (¬ away first ∧ (s.thread first).stat = .ready) ∧
      s.priority first = s.highestReadyPriority ∧
      ∀ x, ¬ away x → (s.thread x).stat = .ready → s.highestReadyPriority ≤ s.priority x := by
  obtain ⟨small, set, below⟩ := rtFfs_lowest some
  have filled := (tabled.group _ small).mp set
  obtain ⟨first, rest, listed⟩ := List.exists_cons_of_ne_nil filled
  have member : first ∈ s.table s.highestReadyPriority := by
    rw [highestReadyPriority, listed]
    exact List.mem_cons_self
  obtain ⟨belongs, ready, priority⟩ := (tabled.mem _ _).mp member
  refine ⟨first, rest, listed, ⟨belongs, ready⟩, priority, ?_⟩
  intro x known isReady
  by_contra lower
  have here : x ∈ s.table (s.priority x) := (tabled.mem _ _).mpr ⟨known, isReady, rfl⟩
  have bit := (tabled.group _ (priority_lt x)).mpr (List.ne_nil_of_mem here)
  rw [below _ (by rw [highestReadyPriority] at lower; omega)] at bit
  cases bit

theorem Tabled.group_ne_zero (tabled : Tabled away s) (belongs : ¬ away x)
    (ready : (s.thread x).stat = .ready) : s.group ≠ 0 := by
  have here : x ∈ s.table (s.priority x) := (tabled.mem _ _).mpr ⟨belongs, ready, rfl⟩
  have bit := (tabled.group _ (priority_lt x)).mpr (List.ne_nil_of_mem here)
  intro zero
  rw [zero] at bit
  exact absurd bit (by simp)

end

/-- The thread has been taken out of the table to be deleted. -/
def Scheduler.closing (s : Scheduler) (t : Nat) : Prop := Part.close t ∈ s.opened

/-- The ready table is right, the current thread is not in it, and no other thread
is running. -/
structure Queued (s : Scheduler) : Prop where
  tabled : Tabled s.closing s
  current : ∀ t, s.current = some t → ¬ s.closing t ∧ (s.thread t).stat ≠ .ready
  running : ∀ t, (s.thread t).stat = .running → s.current = some t

section

variable {s s' : Scheduler} {t x source target : Nat} {away : Nat → Prop}

theorem clearYield_keeps {β : Type} (field : Thread → β)
    (keeps : ∀ thread : Thread, field { thread with yields := false } = field thread) :
    field ((s.clearYield t).thread x) = field (s.thread x) := by
  rw [clearYield]
  split
  · exact set_keeps field keeps
  · rfl

theorem clearYield_stat : ((s.clearYield t).thread x).stat = (s.thread x).stat :=
  clearYield_keeps Thread.stat fun _ => rfl

theorem clearYield_priority : (s.clearYield t).priority x = s.priority x :=
  congrArg Fin.val (clearYield_keeps Thread.currentPriority fun _ => rfl)

theorem clearYield_fields : (s.clearYield t).table = s.table ∧ (s.clearYield t).group = s.group ∧
    (s.clearYield t).current = s.current ∧ (s.clearYield t).lockNest = s.lockNest ∧
    (s.clearYield t).opened = s.opened := by
  rw [clearYield]
  split
  · exact ⟨rfl, rfl, rfl, rfl, rfl⟩
  · exact ⟨rfl, rfl, rfl, rfl, rfl⟩

theorem Tabled.clearYield (tabled : Tabled away s) (t : Nat) :
    Tabled away (s.clearYield t) := by
  obtain ⟨table, group, _, _, _⟩ := clearYield_fields (s := s) (t := t)
  refine ⟨?_, ?_, ?_⟩
  · rw [table, group]
    exact tabled.group
  · intro p x
    rw [table, clearYield_stat, clearYield_priority]
    exact tabled.mem p x
  · rw [table]
    exact tabled.nodup

/-- What `rt_schedule` leaves behind when it takes the processor from one thread to
another. -/
structure Switched (s : Scheduler) (source target : Nat) (s' : Scheduler) : Prop where
  tabled : Tabled s.closing s'
  current : s'.current = some target
  gets : (s'.thread target).stat = .running
  leaves : (s'.thread source).stat ≠ .running
  stays : (s'.thread source).stat = .ready → (s.thread source).stat = .running
  others : ∀ x, x ≠ source → x ≠ target → (s'.thread x).stat = (s.thread x).stat
  asleep : (s.thread source).stat = .suspend → (s'.thread source).stat = .suspend
  priority : ∀ x, s'.priority x = s.priority x
  lockNest : s'.lockNest = s.lockNest
  opened : s'.opened = s.opened

theorem insert_stat (other : s.current ≠ some t) :
    ((s.rtScheduleInsertThread t).thread t).stat = .ready := by
  rw [rtScheduleInsertThread, if_neg other, set_self]

theorem insert_stat_other (differ : x ≠ t) :
    ((s.rtScheduleInsertThread t).thread x).stat = (s.thread x).stat := by
  rw [rtScheduleInsertThread]
  split
  · rw [set_other differ]
  · rw [set_other differ]
    rfl

theorem insert_priority : (s.rtScheduleInsertThread t).priority x = s.priority x := by
  rw [rtScheduleInsertThread]
  split
  · exact priority_set fun _ => rfl
  · have kept : ((s.enqueue t).set t fun thread => { thread with stat := .ready }).priority x =
        (s.enqueue t).priority x := priority_set fun _ => rfl
    exact kept

theorem insert_fields : (s.rtScheduleInsertThread t).current = s.current ∧
    (s.rtScheduleInsertThread t).lockNest = s.lockNest ∧
    (s.rtScheduleInsertThread t).opened = s.opened := by
  rw [rtScheduleInsertThread]
  split
  · exact ⟨rfl, rfl, rfl⟩
  · exact ⟨rfl, rfl, rfl⟩

/-- The processor is handed over, and the other thread is still in the table. -/
structure HandedOver (s : Scheduler) (source target : Nat) (s' : Scheduler) : Prop where
  tabled : Tabled s.closing s'
  current : s'.current = some target
  leaves : (s'.thread source).stat ≠ .running
  stays : (s'.thread source).stat = .ready → (s.thread source).stat = .running
  others : ∀ x, x ≠ source → (s'.thread x).stat = (s.thread x).stat
  asleep : (s.thread source).stat = .suspend → (s'.thread source).stat = .suspend
  priority : ∀ x, s'.priority x = s.priority x
  lockNest : s'.lockNest = s.lockNest
  opened : s'.opened = s.opened

theorem handOver_handedOver (tabled : Tabled s.closing s) (belongs : ¬ s.closing source)
    (busy : (s.thread source).stat ≠ .ready) (differ : source ≠ target) :
    HandedOver s source target (s.handOver source target) := by
  have cleared := tabled.clearYield source
  have kept : Tabled s.closing ({ s.clearYield source with current := some target } : Scheduler) :=
    ⟨cleared.group, cleared.mem, cleared.nodup⟩
  obtain ⟨_, _, _, lock, opened⟩ := clearYield_fields (s := s) (t := source)
  rw [handOver]
  dsimp only
  split
  · rename_i wasRunning
    have other : some target ≠ some source := by
      intro same
      exact differ (Option.some.inj same).symm
    have away := (tabled_apart_iff (t := source) (by rw [clearYield_stat]; exact busy)).mpr kept
    obtain ⟨current, lockNest, parts⟩ := insert_fields (t := source)
      (s := ({ s.clearYield source with current := some target } : Scheduler))
    refine ⟨away.insert other belongs, current, ?_, fun _ => wasRunning, ?_, ?_, ?_,
      lockNest.trans lock, parts.trans opened⟩
    · rw [insert_stat other]
      simp
    · intro x differs
      rw [insert_stat_other differs]
      exact clearYield_stat
    · intro suspended
      rw [wasRunning] at suspended
      cases suspended
    · intro x
      rw [insert_priority]
      exact clearYield_priority
  · rename_i notRunning
    refine ⟨kept, rfl, ?_, ?_, fun _ _ => clearYield_stat, fun suspended => ?_,
      fun _ => clearYield_priority, lock, opened⟩
    · rw [clearYield_stat]
      exact notRunning
    · rw [clearYield_stat]
      intro ready
      exact absurd ready busy
    · rw [clearYield_stat]
      exact suspended

theorem switchTo_switched (tabled : Tabled s.closing s) (belongs : ¬ s.closing source)
    (busy : (s.thread source).stat ≠ .ready) (differ : source ≠ target) :
    Switched s source target (s.switchTo source target) := by
  have handed := handOver_handedOver tabled belongs busy differ
  rw [switchTo]
  generalize s.handOver source target = h at handed
  refine ⟨handed.tabled.dequeue (by simp), handed.current, ?_, ?_, ?_, ?_, ?_, ?_,
    handed.lockNest, handed.opened⟩
  · rw [set_self]
  · rw [set_other differ]
    exact handed.leaves
  · rw [set_other differ]
    exact handed.stays
  · intro x first second
    rw [set_other second]
    exact handed.others x first
  · rw [set_other differ]
    exact handed.asleep
  · intro x
    have same : ((h.rtScheduleRemoveThread target).set target
        fun thread => { thread with stat := .running }).priority x = h.priority x :=
      priority_set fun _ => rfl
    rw [same, handed.priority]

/-- What `rt_schedule` leaves behind when the current thread goes on. -/
structure WentOn (s : Scheduler) (s' : Scheduler) : Prop where
  tabled : Tabled s.closing s'
  current : s'.current = s.current
  stat : ∀ x, (s'.thread x).stat = (s.thread x).stat
  priority : ∀ x, s'.priority x = s.priority x
  lockNest : s'.lockNest = s.lockNest
  opened : s'.opened = s.opened

theorem goOn_wentOn (tabled : Tabled s.closing s) (running : (s.thread t).stat = .running) :
    WentOn s (s.goOn t) := by
  obtain ⟨_, _, current, lock, opened⟩ := clearYield_fields (s := s) (t := t)
  refine ⟨(tabled.clearYield t).dequeue (by simp), current, ?_, ?_, lock, opened⟩
  · intro x
    rw [goOn]
    by_cases same : x = t
    · rw [same, set_self, running]
    · rw [set_other same]
      exact clearYield_stat
  · intro x
    have same : (s.goOn t).priority x = (s.clearYield t).priority x := priority_set fun _ => rfl
    rw [same, clearYield_priority]

/-- Everything that `rt_schedule` can do. -/
inductive Scheduled (s : Scheduler) : Scheduler → Prop where
  | idle (why : s.current = none ∨ s.lockNest ≠ 0 ∨ s.group = 0) : Scheduled s s
  | goesOn (source : Nat) (current : s.current = some source)
      (keeps : s.keepsCurrent source) : Scheduled s (s.goOn source)
  | switches (source target : Nat) (rest : List Nat) (current : s.current = some source)
      (gives : ¬ s.keepsCurrent source) (some : s.group ≠ 0) (differ : source ≠ target)
      (first : s.table s.highestReadyPriority = target :: rest) :
      Scheduled s (s.switchTo source target)

theorem Queued.scheduled (q : Queued s) : Scheduled s s.rtSchedule := by
  rw [rtSchedule]
  split
  · rename_i source target rest current first
    split
    · rename_i why
      exact .idle (.inr why)
    · rename_i active
      have some : s.group ≠ 0 := fun zero => active (.inr zero)
      have ready : (s.thread target).stat = .ready :=
        ((q.tabled.mem _ _).mp (by rw [first]; exact List.mem_cons_self)).2.1
      have differ : target ≠ source := by
        intro same
        exact (q.current source current).2 (same ▸ ready)
      split
      · rename_i keeps
        exact .goesOn source current (keeps.resolve_right differ)
      · rename_i gives
        exact .switches source target rest current (fun keeps => gives (.inl keeps)) some
          differ.symm first
  · rename_i other
    refine .idle ?_
    by_cases none : s.current = none
    · exact .inl none
    · by_cases zero : s.group = 0
      · exact .inr (.inr zero)
      · obtain ⟨source, current⟩ := Option.ne_none_iff_exists'.mp none
        obtain ⟨first, rest, listed, _⟩ := q.tabled.highest zero
        exact absurd listed (other source first rest current)

theorem closing_eq (same : s'.opened = s.opened) : s'.closing = s.closing := by
  funext t
  rw [closing, closing, same]

theorem WentOn.queued (went : WentOn s s') (q : Queued s) : Queued s' := by
  have same := closing_eq went.opened
  refine ⟨same ▸ went.tabled, ?_, ?_⟩
  · intro t isCurrent
    rw [went.stat, same]
    exact q.current t (went.current ▸ isCurrent)
  · intro t running
    rw [went.stat] at running
    rw [went.current]
    exact q.running t running

theorem Switched.queued (switched : Switched s source target s') (q : Queued s)
    (current : s.current = some source) (listed : ¬ s.closing target) : Queued s' := by
  have same := closing_eq switched.opened
  refine ⟨same ▸ switched.tabled, ?_, ?_⟩
  · intro t isCurrent
    rw [switched.current] at isCurrent
    obtain rfl := Option.some.inj isCurrent
    rw [switched.gets, same]
    exact ⟨listed, by simp⟩
  · intro t running
    rw [switched.current]
    by_cases isTarget : t = target
    · rw [isTarget]
    · by_cases isSource : t = source
      · rw [isSource] at running
        exact absurd running switched.leaves
      · rw [switched.others t isSource isTarget] at running
        have same := q.running t running
        rw [current] at same
        exact absurd (Option.some.inj same).symm isSource

theorem Queued.head (q : Queued s) {rest : List Nat} {p : Nat} (first : s.table p = t :: rest) :
    ¬ s.closing t ∧ (s.thread t).stat = .ready := by
  have member : t ∈ s.table p := by
    rw [first]
    exact List.mem_cons_self
  obtain ⟨belongs, ready, _⟩ := (q.tabled.mem p t).mp member
  exact ⟨belongs, ready⟩

theorem Queued.switched (q : Queued s) (current : s.current = some source)
    (differ : source ≠ target) : Switched s source target (s.switchTo source target) :=
  switchTo_switched q.tabled (q.current source current).1 (q.current source current).2 differ

theorem Queued.schedule (q : Queued s) : Queued s.rtSchedule := by
  have result := q.scheduled
  generalize s.rtSchedule = s' at result
  cases result with
  | idle why => exact q
  | goesOn source current keeps => exact (goOn_wentOn q.tabled keeps.1).queued q
  | switches source target rest current gives some differ first =>
      exact (q.switched current differ).queued q current (q.head first).1

/-- `rt_schedule` finishes no call and leaves suspended threads alone. -/
theorem Queued.schedule_keeps (q : Queued s) : s.rtSchedule.opened = s.opened ∧
    ∀ x, (s.thread x).stat = .suspend → (s.rtSchedule.thread x).stat = .suspend := by
  have result := q.scheduled
  generalize s.rtSchedule = s' at result
  cases result with
  | idle why => exact ⟨rfl, fun _ asleep => asleep⟩
  | goesOn source current keeps =>
      have went := goOn_wentOn q.tabled keeps.1
      exact ⟨went.opened, fun x asleep => (went.stat x).trans asleep⟩
  | switches source target rest current gives some differ first =>
      have switched := q.switched current differ
      refine ⟨switched.opened, ?_⟩
      intro x asleep
      by_cases isSource : x = source
      · rw [isSource] at asleep ⊢
        exact switched.asleep asleep
      · by_cases isTarget : x = target
        · rw [isTarget, (q.head first).2] at asleep
          cases asleep
        · rw [switched.others x isSource isTarget]
          exact asleep

/-- The current thread runs, and no ready thread has a higher priority, but for one
that is being deleted. -/
def Dispatched (s : Scheduler) : Prop :=
  ∃ t, s.current = some t ∧ (s.thread t).stat = .running ∧
    ∀ x, ¬ s.closing x → (s.thread x).stat = .ready → s.priority t ≤ s.priority x

theorem Queued.dispatched (q : Queued s) (started : s.current ≠ none) (unlocked : s.lockNest = 0)
    (someone : ∃ x, ¬ s.closing x ∧ ((s.thread x).stat = .ready ∨ (s.thread x).stat = .running)) :
    Dispatched s.rtSchedule := by
  have result := q.scheduled
  generalize s.rtSchedule = s' at result
  cases result with
  | idle why =>
      have zero : s.group = 0 :=
        (why.resolve_left started).resolve_left fun locked => locked unlocked
      have nobodyReady : ∀ x, ¬ s.closing x → (s.thread x).stat ≠ .ready :=
        fun x belongs ready => q.tabled.group_ne_zero belongs ready zero
      obtain ⟨x, belongs, ready | running⟩ := someone
      · exact absurd ready (nobodyReady x belongs)
      · exact ⟨x, q.running x running, running,
          fun y known ready => absurd ready (nobodyReady y known)⟩
  | goesOn source current keeps =>
      have went := goOn_wentOn q.tabled keeps.1
      refine ⟨source, went.current.trans current, (went.stat source).trans keeps.1, ?_⟩
      intro x belongs ready
      rw [closing_eq went.opened] at belongs
      rw [went.stat] at ready
      rw [went.priority, went.priority]
      obtain ⟨_, _, _, _, _, lowest⟩ := q.tabled.highest (q.tabled.group_ne_zero belongs ready)
      have bound := lowest x belongs ready
      rcases keeps.2 with higher | ⟨equal, _⟩
      · omega
      · omega
  | switches source target rest current gives some differ first =>
      have switched := q.switched current differ
      obtain ⟨head, tail, listed, _, top, lowest⟩ := q.tabled.highest some
      obtain ⟨rfl, rfl⟩ := List.cons.inj (first.symm.trans listed)
      refine ⟨target, switched.current, switched.gets, ?_⟩
      intro x belongs ready
      rw [closing_eq switched.opened] at belongs
      rw [switched.priority, switched.priority, top]
      by_cases isTarget : x = target
      · rw [isTarget, top]
      · by_cases isSource : x = source
        · rw [isSource] at ready ⊢
          have running := switched.stays ready
          by_contra above
          exact gives ⟨running, .inl (by omega)⟩
        · rw [switched.others x isSource isTarget] at ready
          exact lowest x belongs ready

/-- One thread changes, and it does not get ready. -/
theorem queued_set {update : Thread → Thread} (tabled : Tabled s.closing (s.set t update))
    (stays : (update (s.thread t)).stat ≠ .ready)
    (runs : (update (s.thread t)).stat = .running → s.current = some t)
    (known : ∀ x, s.current = some x → ¬ s.closing x)
    (current : ∀ x, x ≠ t → s.current = some x → (s.thread x).stat ≠ .ready)
    (running : ∀ x, x ≠ t → (s.thread x).stat = .running → s.current = some x) :
    Queued (s.set t update) := by
  refine ⟨tabled, ?_, ?_⟩
  · intro x isCurrent
    refine ⟨known x isCurrent, ?_⟩
    by_cases same : x = t
    · rw [same, set_self]
      exact stays
    · rw [set_other same]
      exact current x same isCurrent
  · intro x isRunning
    by_cases same : x = t
    · rw [same, set_self] at isRunning
      rw [same]
      exact runs isRunning
    · rw [set_other same] at isRunning
      exact running x same isRunning

theorem Queued.set (q : Queued s) {update : Thread → Thread} (busy : (s.thread t).stat ≠ .ready)
    (stays : (update (s.thread t)).stat ≠ .ready)
    (runs : (update (s.thread t)).stat = .running → s.current = some t) :
    Queued (s.set t update) :=
  queued_set (q.tabled.change busy stays) stays runs (fun x current => (q.current x current).1)
    (fun x _ current => (q.current x current).2) fun x _ => q.running x

theorem Queued.dequeue (q : Queued s) {update : Thread → Thread}
    (stays : (update (s.thread t)).stat ≠ .ready)
    (runs : (update (s.thread t)).stat ≠ .running) :
    Queued ((s.rtScheduleRemoveThread t).set t update) :=
  queued_set (q.tabled.dequeue stays) stays (fun running => absurd running runs)
    (fun x current => (q.current x current).1) (fun x _ current => (q.current x current).2)
    fun x _ => q.running x

/-- A thread that is away from the table is put into it. -/
theorem queued_insert (away : Tabled (apart s.closing t) s) (belongs : ¬ s.closing t)
    (other : s.current ≠ some t)
    (current : ∀ x, s.current = some x → ¬ s.closing x ∧ (s.thread x).stat ≠ .ready)
    (running : ∀ x, x ≠ t → (s.thread x).stat = .running → s.current = some x) :
    Queued (s.rtScheduleInsertThread t) := by
  obtain ⟨same, _, opened⟩ := insert_fields (s := s) (t := t)
  have kept := closing_eq opened
  refine ⟨kept ▸ away.insert other belongs, ?_, ?_⟩
  · intro x isCurrent
    rw [same] at isCurrent
    have differ : x ≠ t := by
      intro equal
      exact other (equal ▸ isCurrent)
    rw [kept, insert_stat_other differ]
    exact current x isCurrent
  · intro x isRunning
    rw [same]
    by_cases equal : x = t
    · rw [equal, insert_stat other] at isRunning
      cases isRunning
    · rw [insert_stat_other equal] at isRunning
      exact running x equal isRunning

theorem Queued.insert (q : Queued s) (asleep : (s.thread t).stat = .suspend)
    (belongs : ¬ s.closing t) : Queued (s.rtScheduleInsertThread t) := by
  have busy : (s.thread t).stat ≠ .ready := by simp [asleep]
  by_cases current : s.current = some t
  · rw [rtScheduleInsertThread, if_pos current]
    exact q.set busy (by simp) fun _ => current
  · exact queued_insert ((tabled_apart_iff busy).mpr q.tabled) belongs current q.current
      fun x _ => q.running x

end

end KyokaMirror.RtThread
