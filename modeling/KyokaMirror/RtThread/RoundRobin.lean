import KyokaMirror.RtThread.SchedulerCalls
import Mathlib.Algebra.Order.Ring.Nat

set_option autoImplicit false

namespace KyokaMirror.RtThread

open Library.Transition
open Scheduler

section

variable {s s' : Scheduler} {t x p source target : Nat}

theorem goOn_table (unlisted : t ∉ s.table (s.priority t)) : (s.goOn t).table = s.table := by
  obtain ⟨table, _⟩ := clearYield_fields (s := s) (t := t)
  show Function.update (s.clearYield t).table ((s.clearYield t).priority t)
    (((s.clearYield t).table ((s.clearYield t).priority t)).erase t) = s.table
  rw [table, clearYield_priority, List.erase_of_not_mem unlisted, Function.update_eq_self]

theorem clearYield_remaining :
    ((s.clearYield t).thread x).remainingTick = (s.thread x).remainingTick :=
  clearYield_keeps Thread.remainingTick fun _ => rfl

theorem set_stat_remaining (stat : Stat) :
    ((s.set t fun thread => { thread with stat := stat }).thread x).remainingTick =
      (s.thread x).remainingTick := set_keeps Thread.remainingTick fun _ => rfl

theorem goOn_remaining : ((s.goOn t).thread x).remainingTick = (s.thread x).remainingTick := by
  rw [goOn, set_stat_remaining]
  exact clearYield_remaining

theorem switchTo_remaining :
    ((s.switchTo source target).thread x).remainingTick = (s.thread x).remainingTick := by
  rw [switchTo, set_stat_remaining]
  show ((s.handOver source target).thread x).remainingTick = _
  rw [handOver]
  dsimp only
  split
  · rw [rtScheduleInsertThread]
    split
    · rw [set_stat_remaining]
      exact clearYield_remaining
    · rw [set_stat_remaining]
      exact clearYield_remaining
  · exact clearYield_remaining

/-- The thread that has run goes behind the others of its priority. -/
theorem switchTo_table {rest : List Nat} (running : (s.thread source).stat = .running)
    (differ : source ≠ target) (here : s.priority source = p) (there : s.priority target = p)
    (listed : s.table p = target :: rest) :
    (s.switchTo source target).table p = rest ++ [source] := by
  have other : ({ s.clearYield source with current := some target } : Scheduler).current ≠
      some source := by
    intro same
    exact differ (Option.some.inj same).symm
  have handed : (s.handOver source target).table p = target :: rest ++ [source] := by
    rw [handOver, if_pos running, rtScheduleInsertThread, if_neg other]
    show Function.update (s.clearYield source).table ((s.clearYield source).priority source)
      ((s.clearYield source).table ((s.clearYield source).priority source) ++ [source]) p = _
    rw [clearYield_priority, here, Function.update_self, clearYield_fields.1, listed]
  have target : (s.handOver source target).priority target = p := by
    rw [handOver, if_pos running, insert_priority]
    exact clearYield_priority.trans there
  show Function.update (s.handOver source _).table ((s.handOver source _).priority _)
    (((s.handOver source _).table ((s.handOver source _).priority _)).erase _) p = _
  rw [target, Function.update_self, handed, List.cons_append, List.erase_cons_head]

/-- One priority is the highest, its first thread of `order` runs and the others wait
in this order. -/
structure Turns (p : Nat) (order : List Nat) (s : Scheduler) : Prop where
  queued : Queued s
  unlocked : s.lockNest = 0
  top : ∀ x, ¬ s.closing x → (s.thread x).stat = .ready → p ≤ s.priority x
  turn : ∃ t, order = t :: s.table p ∧ s.current = some t ∧ (s.thread t).stat = .running ∧
    s.priority t = p

theorem Turns.cons {rest : List Nat} (turns : Turns p (t :: rest) s) :
    rest = s.table p ∧ s.current = some t ∧ (s.thread t).stat = .running ∧ s.priority t = p := by
  obtain ⟨first, order, current, running, priority⟩ := turns.turn
  obtain ⟨rfl, rest⟩ := List.cons.inj order
  exact ⟨rest, current, running, priority⟩

theorem Turns.nodup {order : List Nat} (turns : Turns p order s) : order.Nodup := by
  obtain ⟨t, rfl, _, running, _⟩ := turns.turn
  refine List.nodup_cons.mpr ⟨?_, turns.queued.tabled.nodup p⟩
  intro member
  have ready := ((turns.queued.tabled.mem p t).mp member).2.1
  rw [running] at ready
  cases ready

/-- The current thread changes, and neither its state nor its priority does. -/
theorem Turns.set {rest : List Nat} (turns : Turns p (t :: rest) s) {update : Thread → Thread}
    (stat : ∀ thread, (update thread).stat = thread.stat)
    (priority : ∀ thread, (update thread).currentPriority = thread.currentPriority) :
    Turns p (t :: rest) (s.set t update) := by
  obtain ⟨others, current, running, here⟩ := turns.cons
  have busy : (s.thread t).stat ≠ .ready := by simp [running]
  have same : ∀ x, ((s.set t update).thread x).stat = (s.thread x).stat :=
    fun _ => set_keeps Thread.stat stat
  refine ⟨turns.queued.set busy (by rw [stat]; exact busy) fun _ => current, turns.unlocked, ?_,
    t, ?_, current, (same t).trans running, (priority_set priority).trans here⟩
  · intro x belongs ready
    rw [same] at ready
    rw [priority_set priority]
    exact turns.top x belongs ready
  · rw [others]
    rfl

/-- A waiting thread makes this priority the highest one of the table. -/
theorem Turns.highest {order : List Nat} (turns : Turns p order s) (member : x ∈ s.table p) :
    s.group ≠ 0 ∧ s.highestReadyPriority = p := by
  have tabled := turns.queued.tabled
  obtain ⟨belongs, ready, priority⟩ := (tabled.mem p x).mp member
  have some := tabled.group_ne_zero belongs ready
  obtain ⟨first, _, _, ⟨listed, firstReady⟩, firstPriority, lowest⟩ := tabled.highest some
  have below := lowest x belongs ready
  have above := turns.top first listed firstReady
  exact ⟨some, by omega⟩

theorem Turns.goOn {rest : List Nat} (turns : Turns p (t :: rest) s) :
    Turns p (t :: rest) (s.goOn t) := by
  obtain ⟨others, current, running, here⟩ := turns.cons
  have went := goOn_wentOn turns.queued.tabled running
  have table : (s.goOn t).table = s.table := by
    apply goOn_table
    rw [here, ← others]
    exact (List.nodup_cons.mp turns.nodup).1
  refine ⟨went.queued turns.queued, went.lockNest.trans turns.unlocked, ?_, t, ?_,
    went.current.trans current, (went.stat t).trans running, (went.priority t).trans here⟩
  · intro x belongs ready
    rw [closing_eq went.opened] at belongs
    rw [went.stat] at ready
    rw [went.priority]
    exact turns.top x belongs ready
  · rw [table, others]

theorem Turns.switchTo {rest : List Nat} (turns : Turns p (t :: x :: rest) s) :
    Turns p (x :: rest ++ [t]) (s.switchTo t x) := by
  obtain ⟨others, current, running, here⟩ := turns.cons
  have q := turns.queued
  have differ : t ≠ x := fun same => (List.nodup_cons.mp turns.nodup).1 (by simp [same])
  have switched := q.switched current differ
  obtain ⟨listed, _, there⟩ := (q.tabled.mem p x).mp (by rw [← others]; exact List.mem_cons_self)
  have table := switchTo_table running differ here there others.symm
  refine ⟨switched.queued q current listed, switched.lockNest.trans turns.unlocked, ?_, x, ?_,
    switched.current, switched.gets, (switched.priority x).trans there⟩
  · intro y belongs ready
    rw [closing_eq switched.opened] at belongs
    rw [switched.priority]
    by_cases isTarget : y = x
    · rw [isTarget, there]
    · by_cases isSource : y = t
      · rw [isSource, here]
      · rw [switched.others y isSource isTarget] at ready
        exact turns.top y belongs ready
  · rw [table]
    rfl

/-- `rt_schedule` behind a yield. -/
theorem Turns.scheduled {rest : List Nat} (turns : Turns p (t :: rest) s)
    (yields : (s.thread t).yields = true) : Turns p (rest ++ [t]) s.rtSchedule ∧
      ∀ x, (s.rtSchedule.thread x).remainingTick = (s.thread x).remainingTick := by
  obtain ⟨others, current, running, here⟩ := turns.cons
  have q := turns.queued
  have result := q.scheduled
  generalize s.rtSchedule = s' at result
  have alone : ¬(s.group ≠ 0 ∧ s.highestReadyPriority = p) → rest = [] := by
    intro lower
    rw [others]
    by_contra filled
    obtain ⟨y, member⟩ := List.exists_mem_of_ne_nil _ filled
    exact lower (turns.highest member)
  cases result with
  | idle why =>
      have zero : s.group = 0 := (why.resolve_left (by simp [current])).resolve_left
        fun locked => locked turns.unlocked
      obtain rfl := alone fun h => h.1 zero
      exact ⟨turns, fun _ => rfl⟩
  | goesOn source isCurrent keeps =>
      obtain rfl : t = source := Option.some.inj (current.symm.trans isCurrent)
      have higher : s.priority t < s.highestReadyPriority := by
        rcases keeps.2 with higher | ⟨_, stays⟩
        · exact higher
        · rw [yields] at stays
          cases stays
      obtain rfl := alone fun h => by omega
      exact ⟨turns.goOn, fun _ => goOn_remaining⟩
  | switches source target more isCurrent gives some differ first =>
      obtain rfl : t = source := Option.some.inj (current.symm.trans isCurrent)
      have member : target ∈ s.table s.highestReadyPriority := by
        rw [first]
        exact List.mem_cons_self
      obtain ⟨belongs, ready, priority⟩ := (q.tabled.mem _ _).mp member
      -- Since the thread runs and is not kept, the highest ready priority is its own.
      have equal : s.highestReadyPriority = p := by
        have above := turns.top target belongs ready
        by_contra differs
        exact gives ⟨running, .inl (by omega)⟩
      obtain rfl : rest = target :: more := by rw [others, ← first, equal]
      exact ⟨turns.switchTo, fun _ => switchTo_remaining⟩

theorem Turns.yield {rest : List Nat} (turns : Turns p (t :: rest) s) :
    Turns p (rest ++ [t]) (s.yieldThread t) ∧
      ∀ x, x ≠ t → ((s.yieldThread t).thread x).remainingTick = (s.thread x).remainingTick := by
  have flagged : Turns p (t :: rest) (s.set t fun thread => { thread with
      remainingTick := thread.initTick, yields := true }) :=
    turns.set (fun _ => rfl) (fun _ => rfl)
  obtain ⟨next, remaining⟩ := flagged.scheduled (by rw [set_self])
  refine ⟨next, ?_⟩
  intro x differ
  rw [yieldThread, remaining x, set_other differ]

theorem Turns.tick {rest : List Nat} {left : Nat} (turns : Turns p (t :: rest) s)
    (ticks : (s.thread t).remainingTick = left + 1) (small : left + 1 < 2 ^ 32) :
    schedulerStep .tick s = some (if left = 0 then s.yieldThread t
      else s.set t fun thread => { thread with remainingTick := left }) := by
  obtain ⟨_, current, _, _⟩ := turns.cons
  have wrapped : (left + 1 + 2 ^ 32 - 1) % 2 ^ 32 = left := by omega
  rw [schedulerStep, current, Option.map_some, tickThread, ticks, wrapped]

/-- A time slice ends after as many ticks as are left of it. -/
theorem Turns.slice {rest : List Nat} {left : Nat} (turns : Turns p (t :: rest) s)
    (ticks : (s.thread t).remainingTick = left + 1) (small : left + 1 < 2 ^ 32) :
    ∃ s', run schedulerStep (List.replicate (left + 1) .tick) s = some s' ∧
      Turns p (rest ++ [t]) s' ∧
      ∀ x, x ≠ t → (s'.thread x).remainingTick = (s.thread x).remainingTick := by
  have step := turns.tick ticks small
  induction left generalizing s with
  | zero =>
      obtain ⟨next, remaining⟩ := turns.yield
      refine ⟨s.yieldThread t, ?_, next, remaining⟩
      rw [List.replicate_one, run_singleton, step, if_pos rfl]
  | succ left ih =>
      have later : Turns p (t :: rest) (s.set t fun thread =>
          { thread with remainingTick := left + 1 }) := turns.set (fun _ => rfl) (fun _ => rfl)
      have fewer : ((s.set t fun thread => { thread with remainingTick := left + 1 }).thread
          t).remainingTick = left + 1 := by rw [set_self]
      have small' : left + 1 < 2 ^ 32 := by omega
      obtain ⟨s', goesOn, next, remaining⟩ := ih later fewer small' (later.tick fewer small')
      refine ⟨s', ?_, next, ?_⟩
      · rw [List.replicate_succ, run_cons, step, Option.bind_some, if_neg (by omega)]
        exact goesOn
      · intro x differ
        rw [remaining x differ, set_other differ]

theorem Turns.slices {front back : List Nat} (turns : Turns p (front ++ x :: back) s)
    (slices : ∀ y ∈ front, 0 < (s.thread y).remainingTick ∧ (s.thread y).remainingTick < 2 ^ 32) :
    ∃ s', run schedulerStep
        (List.replicate (front.map fun y => (s.thread y).remainingTick).sum .tick) s = some s' ∧
      Turns p (x :: back ++ front) s' := by
  induction front generalizing s back with
  | nil =>
      rw [List.append_nil]
      exact ⟨s, rfl, turns⟩
  | cons t front ih =>
      obtain ⟨first, others⟩ := List.forall_mem_cons.mp slices
      rw [List.cons_append] at turns
      have nodup := List.nodup_cons.mp turns.nodup
      obtain ⟨left, ticks⟩ : ∃ left, (s.thread t).remainingTick = left + 1 :=
        ⟨_, (Nat.sub_add_cancel first.1).symm⟩
      obtain ⟨u, begins, next, remaining⟩ := turns.slice ticks (by omega)
      have apart : ∀ y ∈ front, y ≠ t := by
        intro y member same
        exact nodup.1 (by rw [← same]; exact List.mem_append_left _ member)
      have order : front ++ x :: back ++ [t] = front ++ x :: (back ++ [t]) := by simp
      rw [order] at next
      have kept : ∀ y ∈ front, (u.thread y).remainingTick = (s.thread y).remainingTick :=
        fun y member => remaining y (apart y member)
      obtain ⟨s', goesOn, ends⟩ := ih next (fun y member => by
        rw [kept y member]
        exact others y member)
      refine ⟨s', ?_, ?_⟩
      · rw [List.map_cons, List.sum_cons, ticks, List.replicate_add, run_append, begins,
          Option.bind_some, ← List.map_congr_left kept]
        exact goesOn
      · have same : x :: back ++ t :: front = x :: (back ++ [t]) ++ front := by simp
        rw [same]
        exact ends

end

theorem round_robin (threads : Nat → Thread) {actions : List SchedulerAction} {s : Scheduler}
    {t x : Nat} {front back : List Nat}
    (reached : run schedulerStep actions (initScheduler threads) = some s)
    (alone : Each schedulerStep Alone actions (initScheduler threads))
    (unlocked : s.lockNest = 0) (current : s.current = some t)
    (running : (s.thread t).stat = .running)
    (top : ∀ y, ¬ s.closing y → (s.thread y).stat = .ready → s.priority t ≤ s.priority y)
    (order : t :: s.table (s.priority t) = front ++ x :: back)
    (slices : ∀ y ∈ front, 0 < (s.thread y).remainingTick ∧ (s.thread y).remainingTick < 2 ^ 32) :
    ∃ s', run schedulerStep
        (List.replicate (front.map fun y => (s.thread y).remainingTick).sum .tick) s = some s' ∧
      s'.current = some x ∧ (s'.thread x).stat = .running ∧
      s'.table (s.priority t) = back ++ front := by
  have turns : Turns (s.priority t) (front ++ x :: back) s :=
    ⟨(Consistent.reached alone reached).queued, unlocked, top, t, order.symm, current, running, rfl⟩
  obtain ⟨s', goesOn, ends⟩ := turns.slices slices
  obtain ⟨others, isCurrent, runs, _⟩ := ends.cons
  exact ⟨s', goesOn, isCurrent, runs, others.symm⟩

/-- The second of two threads with slices of two ticks. -/
theorem round_robin_second : ∃ s s' : Scheduler,
    run schedulerStep (List.replicate 2 .tick) s = some s' ∧ s'.current = some 2 ∧
      (s'.thread 2).stat = .running ∧ s'.table 0 = [1] :=
  ⟨_, round_robin (fun _ => ⟨.init, false, 0, 0, 2, 2⟩)
    (show run schedulerStep [.startup 1, .finish (.insert 1), .startup 2, .finish (.insert 2),
      .start] _ = some _ from rfl) (by decide +kernel) rfl
    (show _ = some 1 from rfl) rfl (fun _ _ _ => Nat.zero_le _)
    (show 1 :: [2] = [1] ++ 2 :: [] from rfl)
    (List.forall_mem_singleton.mpr ⟨by decide, by decide⟩)⟩

end KyokaMirror.RtThread
