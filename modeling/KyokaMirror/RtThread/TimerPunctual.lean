import KyokaMirror.RtThread.Timer

set_option autoImplicit false

namespace KyokaMirror.RtThread

open Library.Transition
open Timers

/-- The call took place at the tick at which it was due or, where the timer was put into
the list only at that tick or later, at the next tick behind it. -/
def Firing.OnTime (f : Firing) : Prop :=
  f.inserted ≤ f.due ∧ f.time = f.due ∨ f.due ≤ f.inserted ∧ f.time = f.inserted + 1

/-- Between the checks a timer in the list is still ahead, or it has been put there since
the last one; during a check it is due now at the earliest, or was put there before. -/
def Timers.Pending (s : Timers) (t : Nat) : Prop :=
  if s.phase = .outside then s.now < s.due t ∨ s.due t ≤ s.inserted t ∧ s.inserted t = s.now
  else s.now ≤ s.due t ∨ s.due t ≤ s.inserted t ∧ s.inserted t + 1 = s.now

/-- The list is in the order in which its timers are due, and everything was called in
time. By `near` and `late` all timers of the list are due within half the range of the
ticks, which the comparisons of `rt_timer_start` and `rt_timer_check` need. -/
structure Punctual (most : Nat) (s : Timers) : Prop where
  tick : s.tick = BitVec.ofNat 32 s.now
  timeout : ∀ t ∈ s.list, (s.timer t).timeoutTick = BitVec.ofNat 32 (s.due t)
  sorted : s.list.Pairwise (Before s.due s.order)
  orders : ∀ t ∈ s.list, s.order t < s.starts
  near : ∀ t ∈ s.list, s.due t ≤ s.now + most
  late : ∀ t ∈ s.list, most + s.inserted t ≤ s.due t + 0x7ffffffe
  since : ∀ t ∈ s.list, s.inserted t ≤ s.now
  pending : ∀ t ∈ s.list, s.Pending t
  fired : ∀ f ∈ s.fired, f.OnTime

section

variable {s s' : Timers} {most : Nat}

theorem Punctual.nodup (p : Punctual most s) : s.list.Nodup := by
  apply p.sorted.imp
  intro a b before same
  rw [same] at before
  rcases before with less | ⟨_, less⟩
  · exact Nat.lt_irrefl _ less
  · exact Nat.lt_irrefl _ less

/-- How far a timer of the list may lie behind. -/
theorem Punctual.now_le (p : Punctual most s) {t : Nat} (member : t ∈ s.list)
    (small : most ≤ 0x7ffffffe) : s.now + most ≤ s.due t + 0x7fffffff := by
  have pending := p.pending t member
  have late := p.late t member
  rw [Timers.Pending] at pending
  split at pending <;> omega

/-- Timers leave the list, and the others keep what is recorded of them. -/
theorem Punctual.keep (p : Punctual most s) {list : List Nat} {timer : Nat → Timer}
    {opened : List TimerPart} {start due : Nat → Nat} (sublist : list.Sublist s.list)
    (timeout : ∀ t ∈ list, (timer t).timeoutTick = (s.timer t).timeoutTick)
    (same : ∀ t ∈ list, due t = s.due t) :
    Punctual most { s with
      list := list, timer := timer, opened := opened, start := start, due := due } := by
  refine ⟨p.tick, ?_, ?_, ?_, ?_, ?_, ?_, ?_, p.fired⟩
  · intro t member
    dsimp only
    rw [same t member]
    exact (timeout t member).trans (p.timeout t (sublist.subset member))
  · refine (p.sorted.sublist sublist).imp_of_mem ?_
    intro a b first second before
    show Before due s.order a b
    rw [Before, same a first, same b second]
    exact before
  · intro t member
    exact p.orders t (sublist.subset member)
  · intro t member
    dsimp only
    rw [same t member]
    exact p.near t (sublist.subset member)
  · intro t member
    dsimp only
    rw [same t member]
    exact p.late t (sublist.subset member)
  · intro t member
    exact p.since t (sublist.subset member)
  · intro t member
    have before := p.pending t (sublist.subset member)
    rw [Timers.Pending] at before ⊢
    dsimp only
    rw [same t member]
    exact before

theorem Punctual.reopen (p : Punctual most s) (opened : List TimerPart) :
    Punctual most { s with opened := opened } :=
  p.keep (List.Sublist.refl _) (fun _ _ => rfl) fun _ _ => rfl

theorem Punctual.remove (p : Punctual most s) (timer : Nat) : Punctual most (s.remove timer) :=
  p.keep List.erase_sublist (fun _ _ => rfl) fun _ _ => rfl

theorem Punctual.change (p : Punctual most s) {timer : Nat} {update : Timer → Timer}
    (timeout : timer ∈ s.list → ∀ t, (update t).timeoutTick = t.timeoutTick) :
    Punctual most (s.change timer update) := by
  refine p.keep (List.Sublist.refl _) ?_ fun _ _ => rfl
  intro t member
  by_cases same : t = timer
  · rw [same, Function.update_self]
    exact timeout (same ▸ member) _
  · rw [Function.update_of_ne same]

theorem Punctual.unlinked (p : Punctual most s) (timer : Nat) : Punctual most (s.unlinked timer) :=
  (p.remove timer).change fun _ _ => rfl

theorem Punctual.not_mem_unlinked (p : Punctual most s) (timer : Nat) :
    timer ∉ (s.unlinked timer).list := fun left => ((p.nodup.mem_erase_iff).mp left).1 rfl

/-- A timer that is not in the list gets its tick. -/
theorem Punctual.arm (p : Punctual most s) {timer : Nat} (apart : timer ∉ s.list)
    (taken : s.arm timer = some s') : Punctual most s' := by
  obtain ⟨_, rfl⟩ := arm_cases taken
  refine p.keep (List.Sublist.refl _) ?_ ?_
  · intro t member
    exact congrArg Timer.timeoutTick (change_other (ne_of_mem_of_not_mem member apart) _)
  · intro t member
    exact Function.update_of_ne (ne_of_mem_of_not_mem member apart) _ _

/-- What is known of a timer that goes to the list. -/
structure Armed (most : Nat) (s : Timers) (timer : Nat) : Prop where
  apart : timer ∉ s.list
  timeout : (s.timer timer).timeoutTick = BitVec.ofNat 32 (s.due timer)
  near : s.due timer ≤ s.now + most
  late : most + s.now ≤ s.due timer + 0x7ffffffe
  ahead : s.phase = .outside ∨ s.now ≤ s.due timer

/-- The order of the list behind a start. -/
theorem Punctual.link_sorted (p : Punctual most s) {timer : Nat} (small : most ≤ 0x7ffffffe)
    (armed : Armed most s timer) :
    (insertTimer (fun t => (s.timer t).timeoutTick) timer s.list).Pairwise
      (Before s.due (Function.update s.order timer s.starts)) := by
  have other : ∀ t ∈ s.list, t ≠ timer := fun t member => ne_of_mem_of_not_mem member armed.apart
  have near := armed.near
  have late := armed.late
  apply insertTimer_sorted
  · refine p.sorted.imp_of_mem ?_
    intro a b first second before
    rw [Before, Function.update_of_ne (other a first), Function.update_of_ne (other b second)]
    exact before
  · intro t member
    have close := p.near t member
    have ahead := p.now_le member small
    rw [armed.timeout, p.timeout t member]
    exact sub_eq_zero_iff (by omega) (by omega)
  · intro t member
    have close := p.near t member
    have ahead := p.now_le member small
    rw [armed.timeout, p.timeout t member]
    exact sub_lt_halfTicks (by omega) (by omega)
  · intro t member
    rw [Function.update_self, Function.update_of_ne (other t member)]
    exact p.orders t member

theorem Punctual.link (p : Punctual most s) {timer : Nat} (small : most ≤ 0x7ffffffe)
    (armed : Armed most s timer) : Punctual most (s.link timer) := by
  have other : ∀ t ∈ s.list, t ≠ timer := fun t member => ne_of_mem_of_not_mem member armed.apart
  refine ⟨p.tick, ?_, p.link_sorted small armed, ?_, ?_, ?_, ?_, ?_, p.fired⟩
  · intro t member
    refine (spared_flag t timer true).timeout.trans ?_
    rcases mem_insertTimer.mp member with rfl | old
    · exact armed.timeout
    · exact p.timeout t old
  · intro t member
    dsimp only [Timers.link]
    rcases mem_insertTimer.mp member with rfl | old
    · rw [Function.update_self]
      exact Nat.lt_succ_self _
    · rw [Function.update_of_ne (other t old)]
      exact Nat.lt_succ_of_lt (p.orders t old)
  · intro t member
    rcases mem_insertTimer.mp member with rfl | old
    · exact armed.near
    · exact p.near t old
  · intro t member
    dsimp only [Timers.link]
    rcases mem_insertTimer.mp member with rfl | old
    · rw [Function.update_self]
      exact armed.late
    · rw [Function.update_of_ne (other t old)]
      exact p.late t old
  · intro t member
    dsimp only [Timers.link]
    rcases mem_insertTimer.mp member with rfl | old
    · rw [Function.update_self]
    · rw [Function.update_of_ne (other t old)]
      exact p.since t old
  · intro t member
    rw [Timers.Pending]
    rcases mem_insertTimer.mp member with rfl | old
    · rw [show (s.link t).inserted t = s.now from Function.update_self _ _ _]
      split
      · rcases Nat.lt_or_ge s.now (s.due t) with ahead | behind
        · exact .inl ahead
        · exact .inr ⟨behind, rfl⟩
      · rename_i inside
        exact .inl (armed.ahead.resolve_left inside)
    · rw [show (s.link timer).inserted t = s.inserted t from
        Function.update_of_ne (other t old) _ _]
      exact p.pending t old

/-- A start with interrupts disabled. -/
theorem Punctual.armed (p : Punctual most s) {timer : Nat} (small : most ≤ 0x7ffffffe)
    (init : (s.timer timer).initTick.toNat ≤ most) (apart : timer ∉ s.list)
    (taken : s.arm timer = some s') : Armed most s' timer := by
  obtain ⟨_, rfl⟩ := arm_cases taken
  refine ⟨apart, ?_, ?_, ?_, .inr ?_⟩
  all_goals dsimp only
  · rw [change_self, Function.update_self, BitVec.ofNat_add, ← p.tick, BitVec.ofNat_toNat,
      BitVec.setWidth_eq]
  · rw [Function.update_self]
    exact Nat.add_le_add_left init s.now
  · rw [Function.update_self]
    show most + s.now ≤ _
    omega
  · rw [Function.update_self]
    exact Nat.le_add_right _ _

theorem unlinked_init (timer : Nat) :
    ((s.unlinked timer).timer timer).initTick = (s.timer timer).initTick :=
  change_keeps Timer.initTick fun _ => rfl

theorem Punctual.start (p : Punctual most s) {timer : Nat} (small : most ≤ 0x7ffffffe)
    (init : (s.timer timer).initTick.toNat ≤ most) (taken : s.rtTimerStart timer = some s') :
    Punctual most s' := by
  obtain ⟨armed, first, rfl⟩ := start_cases taken
  have removed := p.unlinked timer
  have apart := p.not_mem_unlinked timer
  refine (removed.arm apart first).link small (removed.armed small ?_ apart first)
  rw [unlinked_init]
  exact init

end

/-- The timer of a call that begins. -/
def TimerAction.timer : TimerAction → Option Nat
  | .call c => some c.timer
  | .start timer => some timer
  | .stop timer => some timer
  | _ => none

/-- The timer that gets its tick. -/
def TimerAction.arms (s : Timers) : TimerAction → Option Nat
  | .call (.start timer) => some timer
  | .finish (.arm timer) => some timer
  | .done =>
      match s.phase with
      | .calling timer =>
          if (s.timer timer).periodic ∧ (s.timer timer).activated then some timer else none
      | _ => none
  | _ => none

def TimerAction.inserts : TimerAction → Option Nat
  | .finish (.insert timer) => some timer
  | _ => none

/-- No call for a timer begins while another one for it has not come to its end. -/
def Lone (action : TimerAction) (s : Timers) : Prop :=
  ∀ t ∈ action.timer, t ∉ s.opened.map TimerPart.timer

/-- Timers are set to at most `most` ticks, and an interrupted start comes to the list at
most `RT_TICK_MAX / 2 - 1 - most` ticks behind the tick at which the timer is due. -/
def Prompt (most : Nat) (action : TimerAction) (s : Timers) : Prop :=
  (∀ t ∈ action.arms s, (s.timer t).initTick.toNat ≤ most) ∧
    ∀ t ∈ action.inserts, most + s.now ≤ s.due t + 0x7ffffffe

def Disciplined (most : Nat) (action : TimerAction) (s _ : Timers) : Prop :=
  Lone action s ∧ Prompt most action s

instance (action : TimerAction) (s : Timers) : Decidable (Lone action s) :=
  inferInstanceAs (Decidable (∀ t ∈ action.timer, _))

instance (most : Nat) (action : TimerAction) (s : Timers) : Decidable (Prompt most action s) :=
  inferInstanceAs (Decidable (_ ∧ _))

instance (most : Nat) (action : TimerAction) (s s' : Timers) :
    Decidable (Disciplined most action s s') :=
  inferInstanceAs (Decidable (_ ∧ _))

/-- Whether the timer is out of the list for the rest of the call. -/
def TimerPart.out : TimerPart → Bool
  | .unlink _ => false
  | _ => true

/-- The calls that have not come to their end are about different timers, and a timer
that is about to be inserted has its tick. -/
structure Parted (most : Nat) (s : Timers) : Prop where
  once : (s.opened.map TimerPart.timer).Nodup
  out : ∀ part ∈ s.opened, part.out = true → part.timer ∉ s.list ∧ s.phase ≠ .calling part.timer
  timeout : ∀ t, .insert t ∈ s.opened → (s.timer t).timeoutTick = BitVec.ofNat 32 (s.due t)
  near : ∀ t, .insert t ∈ s.opened → s.due t ≤ s.now + most
  sum : ∀ t, .insert t ∈ s.opened → s.due t = s.start t + (s.timer t).initTick.toNat

section

variable {s s' : Timers} {most timer : Nat}

theorem Parted.spared (p : Parted most s) (opened : s'.opened = s.opened)
    (same : ∀ part ∈ s.opened, part.out = true → Spared part.timer s s') : Parted most s' := by
  have inserted : ∀ t, TimerPart.insert t ∈ s'.opened →
      TimerPart.insert t ∈ s.opened ∧ Spared t s s' := by
    intro t member
    rw [opened] at member
    exact ⟨member, same _ member rfl⟩
  refine ⟨?_, ?_, ?_, ?_, ?_⟩
  · rw [opened]
    exact p.once
  · intro part member away
    rw [opened] at member
    have kept := same part member away
    rw [kept.listed, kept.phase]
    exact p.out part member away
  · intro t member
    obtain ⟨old, kept⟩ := inserted t member
    rw [kept.timeout, kept.due]
    exact p.timeout t old
  · intro t member
    obtain ⟨old, kept⟩ := inserted t member
    rw [kept.due, kept.now]
    exact p.near t old
  · intro t member
    obtain ⟨old, kept⟩ := inserted t member
    rw [kept.due, kept.start, kept.init]
    exact p.sum t old

theorem Parted.erase (p : Parted most s) (part : TimerPart) :
    Parted most { s with opened := s.opened.erase part } :=
  ⟨p.once.sublist (List.erase_sublist.map _),
    fun q member => p.out q (List.mem_of_mem_erase member),
    fun t member => p.timeout t (List.mem_of_mem_erase member),
    fun t member => p.near t (List.mem_of_mem_erase member),
    fun t member => p.sum t (List.mem_of_mem_erase member)⟩

/-- The call was the only one for its timer. -/
theorem Parted.erase_free (p : Parted most s) {part : TimerPart} (member : part ∈ s.opened) :
    part.timer ∉ (s.opened.erase part).map TimerPart.timer := by
  have once := p.once
  rw [((List.perm_cons_erase member).map _).nodup_iff, List.map_cons] at once
  exact (List.nodup_cons.mp once).1

theorem Parted.pause (p : Parted most s) {part : TimerPart}
    (free : part.timer ∉ s.opened.map TimerPart.timer)
    (out : part.out = true → part.timer ∉ s.list ∧ s.phase ≠ .calling part.timer)
    (armed : ∀ t, part = .insert t → (s.timer t).timeoutTick = BitVec.ofNat 32 (s.due t) ∧
      s.due t ≤ s.now + most ∧ s.due t = s.start t + (s.timer t).initTick.toNat) :
    Parted most (s.pause part) := by
  refine ⟨List.nodup_cons.mpr ⟨free, p.once⟩, ?_, ?_, ?_, ?_⟩
  · exact List.forall_mem_cons.mpr ⟨out, p.out⟩
  · intro t member
    rcases List.mem_cons.mp member with same | old
    · exact (armed t same.symm).1
    · exact p.timeout t old
  · intro t member
    rcases List.mem_cons.mp member with same | old
    · exact (armed t same.symm).2.1
    · exact p.near t old
  · intro t member
    rcases List.mem_cons.mp member with same | old
    · exact (armed t same.symm).2.2
    · exact p.sum t old

/-- The clock goes on, or a check goes on or ends. -/
theorem Parted.rephase (p : Parted most s) {tick : BitVec 32} {now : Nat} {phase : CheckPhase}
    (later : s.now ≤ now) (free : ∀ t, phase ≠ .calling t) :
    Parted most { s with tick := tick, now := now, phase := phase } := by
  refine ⟨p.once, ?_, p.timeout, ?_, p.sum⟩
  · intro part member away
    exact ⟨(p.out part member away).1, free part.timer⟩
  · intro t member
    have near := p.near t member
    dsimp only
    omega

theorem Parted.fire (p : Parted most s) {t : Nat} {rest : List Nat} {fired : List Firing}
    (listed : s.list = t :: rest) :
    Parted most { s with list := rest, phase := .calling t, fired := fired } := by
  refine ⟨p.once, ?_, p.timeout, p.near, p.sum⟩
  intro part member away
  have outside := (p.out part member away).1
  rw [listed, List.mem_cons, not_or] at outside
  refine ⟨outside.2, ?_⟩
  intro same
  injection same with same
  exact outside.1 same.symm

/-- The parts that are left are about other timers. -/
theorem timer_ne_of_free {opened : List TimerPart} (free : timer ∉ opened.map TimerPart.timer)
    {part : TimerPart} (member : part ∈ opened) : part.timer ≠ timer := by
  intro same
  exact free (same ▸ List.mem_map_of_mem member)

end

/-- What holds in every state of a run that keeps to the rules. -/
structure Timely (most : Nat) (s : Timers) : Prop where
  punctual : Punctual most s
  parted : Parted most s

section

variable {s s' : Timers} {most timer : Nat}

theorem Punctual.called (p : Punctual most s) (small : most ≤ 0x7ffffffe)
    (init : (s.timer timer).periodic ∧ (s.timer timer).activated →
      (s.timer timer).initTick.toNat ≤ most) (taken : s.called timer = some s') :
    Punctual most s' := by
  have cleared : Punctual most (s.change timer fun t => { t with activated := false }) :=
    p.change fun _ _ => rfl
  rw [Timers.called] at taken
  split at taken
  · rename_i again
    refine cleared.start small ?_ taken
    rw [(spared_flag timer timer false).init]
    exact init again
  · obtain rfl := Option.some.inj taken
    exact cleared

theorem Punctual.call (p : Punctual most s) (small : most ≤ 0x7ffffffe) {c : TimerCall}
    (init : ∀ timer, c = .start timer → (s.timer timer).initTick.toNat ≤ most)
    (taken : timerCall c s = some s') : Punctual most s' := by
  cases c with
  | start other => exact p.start small (init other rfl) taken
  | stop other =>
      obtain rfl := Option.some.inj taken
      rw [rtTimerStop]
      split
      · exact p.unlinked other
      · exact p
  | detach other =>
      obtain rfl := Option.some.inj taken
      exact p.remove other
  | setTime other tick =>
      obtain rfl := Option.some.inj taken
      exact p.change fun _ _ => rfl
  | setPeriodic other periodic =>
      obtain rfl := Option.some.inj taken
      exact p.change fun _ _ => rfl
  | init other time periodic =>
      rw [timerCall] at taken
      split at taken
      · cases taken
      · rename_i unused
        obtain rfl := Option.some.inj taken
        exact p.change fun used => absurd used unused

theorem Punctual.isDue_iff (p : Punctual most s) (small : most ≤ 0x7ffffffe) (positive : 0 < most)
    {t : Nat} (member : t ∈ s.list) : isDue s t ↔ s.due t ≤ s.now := by
  have close := p.near t member
  have ahead := p.now_le member small
  rw [isDue, p.tick, p.timeout t member]
  exact sub_lt_halfTicks (by omega) (by omega)

theorem Punctual.ticked (p : Punctual most s) (outside : s.phase = .outside) :
    Punctual most { s with tick := s.tick + 1, now := s.now + 1, phase := .checking } := by
  refine ⟨?_, p.timeout, p.sorted, p.orders, ?_, p.late, ?_, ?_, p.fired⟩
  · dsimp only
    rw [p.tick, BitVec.ofNat_add]
    rfl
  · intro t member
    have close := p.near t member
    dsimp only
    omega
  · intro t member
    exact Nat.le_succ_of_le (p.since t member)
  · intro t member
    have before := p.pending t member
    rw [Timers.Pending, if_pos outside] at before
    rw [Timers.Pending, if_neg (by simp)]
    dsimp only
    omega

/-- A check goes on. -/
theorem Punctual.rephase (p : Punctual most s) {phase : CheckPhase} (inside : s.phase ≠ .outside)
    (stays : phase ≠ .outside) : Punctual most { s with phase := phase } := by
  refine ⟨p.tick, p.timeout, p.sorted, p.orders, p.near, p.late, p.since, ?_, p.fired⟩
  intro t member
  have before := p.pending t member
  rw [Timers.Pending, if_neg inside] at before
  rw [Timers.Pending, if_neg stays]
  exact before

theorem called_frame (taken : s.called timer = some s') :
    s'.phase = s.phase ∧ s'.fired = s.fired ∧ s'.opened = s.opened := by
  rw [Timers.called] at taken
  split at taken
  · obtain ⟨_, phase, fired, opened⟩ := start_frame taken
    exact ⟨phase, fired, opened⟩
  · obtain rfl := Option.some.inj taken
    exact ⟨rfl, rfl, rfl⟩

theorem Punctual.fire (p : Punctual most s) (small : most ≤ 0x7ffffffe) (positive : 0 < most)
    (checking : s.phase = .checking) {t : Nat} {rest : List Nat} (listed : s.list = t :: rest)
    (dueNow : isDue s t) : Punctual most { s with
      list := rest
      phase := .calling t
      fired := s.fired ++ [⟨t, s.start t, s.due t, s.inserted t, s.now⟩] } := by
  have member : t ∈ s.list := by
    rw [listed]
    exact List.mem_cons_self
  have sublist : rest.Sublist s.list := by
    rw [listed]
    exact List.sublist_cons_self t rest
  have inside : s.phase ≠ .outside := by simp [checking]
  have stays : CheckPhase.calling t ≠ .outside := by simp
  have shorter : Punctual most { s with list := rest } :=
    p.keep sublist (fun _ _ => rfl) fun _ _ => rfl
  have kept := shorter.rephase inside stays
  refine ⟨kept.tick, kept.timeout, kept.sorted, kept.orders, kept.near, kept.late, kept.since,
    kept.pending, ?_⟩
  refine List.forall_mem_append.mpr ⟨p.fired, List.forall_mem_singleton.mpr ?_⟩
  have before := p.pending t member
  have since := p.since t member
  rw [Timers.Pending, if_neg inside] at before
  have reached := (p.isDue_iff small positive member).mp dueNow
  rw [Firing.OnTime]
  dsimp only
  omega

/-- A check ends when the first timer is not due, and then none is. -/
theorem Punctual.leave (p : Punctual most s) (small : most ≤ 0x7ffffffe) (positive : 0 < most)
    (first : ∀ t rest, s.list = t :: rest → ¬ isDue s t) :
    Punctual most { s with phase := .outside } := by
  refine ⟨p.tick, p.timeout, p.sorted, p.orders, p.near, p.late, p.since, ?_, p.fired⟩
  intro x member
  rw [Timers.Pending, if_pos rfl]
  dsimp only at member ⊢
  left
  cases listed : s.list with
  | nil =>
      rw [listed] at member
      cases member
  | cons t rest =>
      have head : t ∈ s.list := by
        rw [listed]
        exact List.mem_cons_self
      have later : s.now < s.due t := Nat.lt_of_not_le fun reached =>
        first t rest listed ((p.isDue_iff small positive head).mpr reached)
      have sorted := p.sorted
      rw [listed] at sorted member
      rcases List.mem_cons.mp member with rfl | behind
      · exact later
      · rcases (List.pairwise_cons.mp sorted).1 x behind with less | ⟨equal, _⟩
        · omega
        · omega

theorem arm_sum (taken : s.arm timer = some s') :
    s'.due timer = s'.start timer + (s'.timer timer).initTick.toNat := by
  obtain ⟨_, rfl⟩ := arm_cases taken
  dsimp only
  rw [Function.update_self, Function.update_self, change_self]

theorem arm_opened (taken : s.arm timer = some s') : s'.opened = s.opened := by
  obtain ⟨_, rfl⟩ := arm_cases taken
  rfl

theorem Timely.start (t : Timely most s) (outside : s.phase = .outside)
    (free : timer ∉ s.opened.map TimerPart.timer) :
    Timely most ((s.unlinked timer).pause (.arm timer)) := by
  have parted : Parted most (s.unlinked timer) :=
    t.parted.spared rfl fun part member _ => spared_unlinked (timer_ne_of_free free member)
  refine ⟨(t.punctual.unlinked timer).reopen _, parted.pause free ?_ ?_⟩
  · intro _
    refine ⟨t.punctual.not_mem_unlinked timer, ?_⟩
    rw [show (s.unlinked timer).phase = s.phase from rfl, outside]
    simp
  · intro _ same
    cases same

theorem Timely.stop (t : Timely most s) (free : timer ∉ s.opened.map TimerPart.timer) :
    Timely most (s.pause (.unlink timer)) := by
  refine ⟨t.punctual.reopen _, t.parted.pause free ?_ ?_⟩
  · intro away
    cases away
  · intro _ same
    cases same

/-- A timer of which no part is left but the insertion gets its tick. -/
theorem Timely.finish_arm (t : Timely most s) (small : most ≤ 0x7ffffffe)
    (member : .arm timer ∈ s.opened) (init : (s.timer timer).initTick.toNat ≤ most)
    (taken : ({ s with opened := s.opened.erase (.arm timer) } : Timers).arm timer = some s') :
    Timely most (s'.pause (.insert timer)) := by
  obtain ⟨apart, elsewhere⟩ := t.parted.out _ member rfl
  have free := t.parted.erase_free member
  have rest := t.punctual.reopen (s.opened.erase (.arm timer))
  have armed := rest.armed small init apart taken
  have opened := arm_opened taken
  have parted : Parted most s' := (t.parted.erase (.arm timer)).spared opened
    fun part left _ => spared_arm (timer_ne_of_free free left) taken
  refine ⟨(rest.arm apart taken).reopen _, parted.pause ?_ ?_ ?_⟩
  · rw [opened]
    exact free
  · intro _
    refine ⟨armed.apart, ?_⟩
    obtain ⟨_, rfl⟩ := arm_cases taken
    exact elsewhere
  · intro u same
    injection same with same
    rw [← same]
    exact ⟨armed.timeout, armed.near, arm_sum taken⟩

theorem Timely.finish_insert (t : Timely most s) (small : most ≤ 0x7ffffffe)
    (outside : s.phase = .outside) (member : .insert timer ∈ s.opened)
    (late : most + s.now ≤ s.due timer + 0x7ffffffe) : Timely most
    (({ s with opened := s.opened.erase (.insert timer) } : Timers).link timer) := by
  have free := t.parted.erase_free member
  have armed : Armed most { s with opened := s.opened.erase (.insert timer) } timer :=
    ⟨(t.parted.out _ member rfl).1, t.parted.timeout timer member, t.parted.near timer member, late,
      .inl outside⟩
  refine ⟨(t.punctual.reopen _).link small armed, (t.parted.erase _).spared rfl ?_⟩
  intro part left _
  exact spared_link (timer_ne_of_free free left)

theorem Timely.finish_unlink (t : Timely most s) (outside : s.phase = .outside)
    (member : .unlink timer ∈ s.opened) :
    Timely most ((({ s with opened := s.opened.erase (.unlink timer) } : Timers).remove
      timer).pause (.unflag timer)) := by
  have free := t.parted.erase_free member
  have parted : Parted most
      (({ s with opened := s.opened.erase (.unlink timer) } : Timers).remove timer) :=
    (t.parted.erase _).spared rfl fun part left _ => spared_remove (timer_ne_of_free free left)
  refine ⟨((t.punctual.reopen _).remove timer).reopen _, parted.pause free ?_ ?_⟩
  · intro _
    refine ⟨fun left => ((t.punctual.nodup.mem_erase_iff).mp left).1 rfl, ?_⟩
    show s.phase ≠ _
    rw [outside]
    simp
  · intro _ same
    cases same

theorem Timely.finish (t : Timely most s) (small : most ≤ 0x7ffffffe) {part : TimerPart}
    (outside : s.phase = .outside) (member : part ∈ s.opened)
    (kept : Disciplined most (.finish part) s s')
    (taken : ({ s with opened := s.opened.erase part } : Timers).complete part = some s') : Timely
    most s' := by
  cases part with
  | arm timer =>
      obtain ⟨armed, first, rfl⟩ := Option.map_eq_some_iff.mp taken
      exact t.finish_arm small member (kept.2.1 timer rfl) first
  | insert timer =>
      obtain rfl := Option.some.inj taken
      exact t.finish_insert small outside member (kept.2.2 timer rfl)
  | unlink timer =>
      obtain rfl := Option.some.inj taken
      exact t.finish_unlink outside member
  | unflag timer =>
      obtain rfl := Option.some.inj taken
      exact ⟨(t.punctual.reopen _).change fun _ _ => rfl,
        (t.parted.erase _).spared rfl fun _ _ _ => spared_flag _ timer false⟩

theorem call_opened {c : TimerCall} (taken : timerCall c s = some s') : s'.opened = s.opened := by
  cases c with
  | start timer => exact (start_frame taken).2.2.2
  | stop timer =>
      obtain rfl := Option.some.inj taken
      rw [rtTimerStop]
      split
      · rfl
      · rfl
  | init timer time periodic =>
      rw [timerCall] at taken
      split at taken
      · cases taken
      · obtain rfl := Option.some.inj taken
        rfl
  | _ =>
      obtain rfl := Option.some.inj taken
      rfl

theorem Timely.call (t : Timely most s) (small : most ≤ 0x7ffffffe) {c : TimerCall}
    (kept : Disciplined most (.call c) s s') (taken : timerCall c s = some s') : Timely most s' :=
    by
  refine ⟨t.punctual.call small ?_ taken, t.parted.spared (call_opened taken) ?_⟩
  · intro timer same
    apply kept.2.1
    rw [same]
    rfl
  · intro part member _
    exact spared_call (timer_ne_of_free (kept.1 c.timer rfl) member) taken

/-- The parts that are left are not about the timer whose function has been called. -/
theorem Timely.done (t : Timely most s) (small : most ≤ 0x7ffffffe) {called : Nat}
    (calling : s.phase = .calling called)
    (init : (s.timer called).periodic ∧ (s.timer called).activated →
      (s.timer called).initTick.toNat ≤ most)
    (returned : s.called called = some s') : Timely most { s' with phase := .checking } := by
  obtain ⟨phase, _, opened⟩ := called_frame returned
  have parted : Parted most s' := t.parted.spared opened fun part member away => by
    refine spared_called ?_ returned
    intro same
    exact (t.parted.out part member away).2 (same ▸ calling)
  refine ⟨(t.punctual.called small init returned).rephase ?_ (by simp),
    parted.rephase (Nat.le_refl _) (by simp)⟩
  rw [phase, calling]
  simp

theorem Timely.step (t : Timely most s) (small : most ≤ 0x7ffffffe) (positive : 0 < most)
    {action : TimerAction} (kept : Disciplined most action s s')
    (taken : timerStep action s = some s') : Timely most s' := by
  cases timerStep_stepped taken with
  | call c s' taken => exact t.call small kept taken
  | start timer outside => exact t.start outside (kept.1 timer rfl)
  | stop timer => exact t.stop (kept.1 timer rfl)
  | stopped timer inactive => exact t
  | finish part s' outside member taken => exact t.finish small outside member kept taken
  | tick outside =>
      exact ⟨t.punctual.ticked outside, t.parted.rephase (Nat.le_succ _) (by simp)⟩
  | fire first rest checking listed dueNow =>
      exact ⟨t.punctual.fire small positive checking listed dueNow, t.parted.fire listed⟩
  | done called after calling returned =>
      refine t.done small calling ?_ returned
      intro again
      apply kept.2.1 called
      rw [TimerAction.arms, calling]
      exact if_pos again
  | leave first =>
      exact ⟨t.punctual.leave small positive first, t.parted.rephase (Nat.le_refl _) (by simp)⟩

theorem timely_init (now : Nat) : Timely most (initTimers now) := by
  refine ⟨⟨rfl, ?_, List.Pairwise.nil, ?_, ?_, ?_, ?_, ?_, ?_⟩, List.nodup_nil, ?_, ?_, ?_, ?_⟩
  all_goals
    intro t member
    cases member

theorem Timely.reached (small : most ≤ 0x7ffffffe) (positive : 0 < most) {now : Nat}
    {actions : List TimerAction} (kept : Each timerStep (Disciplined most) actions (initTimers now))
    (reached : run timerStep actions (initTimers now) = some s) : Timely most s :=
  kept.invariant (Timely most) (fun _ _ _ t side taken => t.step small positive side taken)
    (timely_init now) reached

end

theorem timers_punctual (now most : Nat) (positive : 0 < most) (small : most ≤ 0x7ffffffe)
    {actions : List TimerAction} {s : Timers}
    (reached : run timerStep actions (initTimers now) = some s)
    (kept : Each timerStep (Disciplined most) actions (initTimers now)) : Punctual most s :=
  (Timely.reached small positive kept reached).punctual

/-- Timer 2 has got its tick when the next one comes in, and so it is called one tick
late, behind the wrap and together with timer 1. -/
def interruptedStart : List TimerAction :=
  [.call (.init 1 2 false), .call (.init 2 1 false), .call (.start 1), .start 2, .finish (.arm 2),
    .tick, .leave, .finish (.insert 2), .tick, .fire, .done, .fire, .done, .leave]

theorem timers_punctual_wrapping : ∃ s, Punctual 2 s ∧ s.tick = 0 ∧
    s.fired = [⟨2, 0xfffffffe, 0xffffffff, 0xffffffff, 0x100000000⟩,
      ⟨1, 0xfffffffe, 0x100000000, 0xfffffffe, 0x100000000⟩] := by
  have result : (run timerStep interruptedStart (initTimers 0xfffffffe)).map
      (fun s => (s.tick, s.fired)) = some (0, [⟨2, 0xfffffffe, 0xffffffff, 0xffffffff, 0x100000000⟩,
        ⟨1, 0xfffffffe, 0x100000000, 0xfffffffe, 0x100000000⟩]) := by decide +kernel
  obtain ⟨s, reached, shown⟩ := Option.map_eq_some_iff.mp result
  obtain ⟨tick, fired⟩ := Prod.mk.inj shown
  exact ⟨s, timers_punctual 0xfffffffe 2 (by decide) (by decide) reached (by decide +kernel), tick,
    fired⟩

end KyokaMirror.RtThread
