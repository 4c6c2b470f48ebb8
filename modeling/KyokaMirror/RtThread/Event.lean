import KyokaMirror.Library.Transition
import KyokaMirror.RtThread.Ipc

set_option autoImplicit false

namespace KyokaMirror.RtThread

open Library.Transition

/-- `RT_EVENT_FLAG_AND`, `RT_EVENT_FLAG_OR` and `RT_EVENT_FLAG_CLEAR`. -/
structure EventOption where
  all : Bool
  any : Bool
  clear : Bool
  deriving DecidableEq, Repr

/-- A suspended thread with its `event_set` and `event_info`. -/
structure Waiter where
  thread : Nat
  eventSet : BitVec 32
  eventInfo : EventOption
  deriving DecidableEq, Repr

/-- What a receiver has got. -/
structure Receipt where
  waiter : Waiter
  recved : BitVec 32
  deriving DecidableEq, Repr

inductive Entry where
  | sent (set : BitVec 32)
  | received (r : Receipt)
  deriving DecidableEq, Repr

/-- `struct rt_event` with its threads. `log` records what has happened, the latest
entry first. -/
structure Event where
  flag : IpcFlag
  set : BitVec 32
  waiting : List Waiter
  priority : Nat → Nat
  log : List Entry

/-- The test of a waiting condition: `none` where neither flag is given, and
otherwise the events that fulfil it. -/
def checkEvent (w : Waiter) (set : BitVec 32) : Option (Option (BitVec 32)) :=
  if w.eventInfo.all then
    some (if w.eventSet &&& set = w.eventSet then some w.eventSet else none)
  else if w.eventInfo.any then
    some (if w.eventSet &&& set ≠ 0 then some (w.eventSet &&& set) else none)
  else none

/-- The loop of `rt_event_send` over the suspended threads: the events that are
left, the threads that stay and what the others have got. -/
def resumeLoop : List Waiter → BitVec 32 → List Entry → BitVec 32 × List Waiter × List Entry
  | [], set, log => (set, [], log)
  | w :: rest, set, log =>
      match checkEvent w set with
      | none => (set, w :: rest, log)
      | some none =>
          let later := resumeLoop rest set log
          (later.1, w :: later.2.1, later.2.2)
      | some (some recved) =>
          resumeLoop rest (if w.eventInfo.clear then set &&& ~~~recved else set)
            (.received ⟨w, recved⟩ :: log)

def rtEventSend (e : Event) (set : BitVec 32) : Event :=
  if set = 0 then e
  else
    let result := resumeLoop e.waiting (e.set ||| set) (.sent set :: e.log)
    { e with set := result.1, waiting := result.2.1, log := result.2.2 }

/-- `rt_event_recv`; `timeout` tells whether the thread may wait. `none` where
the assertion on the flags fails. -/
def rtEventRecv (e : Event) (w : Waiter) (timeout : Bool) : Option Event :=
  if w.eventSet = 0 then some e
  else
    match checkEvent w e.set with
    | none => none
    | some (some _) =>
        some { e with
          set := if w.eventInfo.clear then e.set &&& ~~~w.eventSet else e.set
          log := .received ⟨w, e.set &&& w.eventSet⟩ :: e.log }
    | some none =>
        if timeout then
          some { e with
            waiting := rtIpcListSuspend (fun w => e.priority w.thread) e.flag w e.waiting }
        else some e

/-- A send, a receive by a thread that is not suspended, the end of a waiting
time, or a change of priority. -/
inductive EventAction where
  | send (set : BitVec 32)
  | recv (waiter : Waiter) (timeout : Bool)
  | expire (thread : Nat)
  | control (thread priority : Nat)

def eventStep : EventAction → Event → Option Event
  | .send set, e => some (rtEventSend e set)
  | .recv w timeout, e =>
      if w.thread ∈ e.waiting.map Waiter.thread then none else rtEventRecv e w timeout
  | .expire thread, e => some { e with waiting := e.waiting.filter fun w => w.thread ≠ thread }
  | .control thread priority, e =>
      some { e with priority := Function.update e.priority thread priority }

def initEvent (flag : IpcFlag) (priority : Nat → Nat) : Event := ⟨flag, 0, [], priority, []⟩

/-- What was received fulfils the condition. -/
def Receipt.Fulfils (r : Receipt) : Prop :=
  if r.waiter.eventInfo.all then r.recved = r.waiter.eventSet
  else r.recved ≠ 0 ∧ r.recved &&& r.waiter.eventSet = r.recved

/-- The receiver took the event out of the set. -/
def Receipt.clears (r : Receipt) (i : Nat) : Bool :=
  r.waiter.eventInfo.clear && r.recved.getLsbD i

/-- The event was sent and not taken out since. -/
def Outstanding (log : List Entry) (i : Nat) : Prop :=
  ∃ newer set older, log = newer ++ .sent set :: older ∧ set.getLsbD i = true ∧
    ∀ r, .received r ∈ newer → r.clears i = false

theorem outstanding_nil (i : Nat) : ¬ Outstanding [] i := by
  rintro ⟨newer, set, older, split, _⟩
  cases newer with
  | nil => cases split
  | cons entry newer => cases split

theorem outstanding_sent (set : BitVec 32) (log : List Entry) (i : Nat) :
    Outstanding (.sent set :: log) i ↔ set.getLsbD i = true ∨ Outstanding log i := by
  constructor
  · rintro ⟨newer, other, older, split, sent, kept⟩
    cases newer with
    | nil =>
        obtain ⟨same, _⟩ := List.cons.inj split
        obtain rfl := Entry.sent.inj same
        exact .inl sent
    | cons entry newer =>
        obtain ⟨_, rest⟩ := List.cons.inj split
        exact .inr ⟨newer, other, older, rest, sent,
          fun r member => kept r (List.mem_cons_of_mem _ member)⟩
  · rintro (sent | ⟨newer, other, older, rfl, sent, kept⟩)
    · exact ⟨[], set, log, rfl, sent, fun r member => absurd member List.not_mem_nil⟩
    · refine ⟨.sent set :: newer, other, older, rfl, sent, ?_⟩
      intro r member
      exact kept r ((List.mem_cons.mp member).resolve_left (by simp))

theorem outstanding_received (r : Receipt) (log : List Entry) (i : Nat) :
    Outstanding (.received r :: log) i ↔ r.clears i = false ∧ Outstanding log i := by
  constructor
  · rintro ⟨newer, other, older, split, sent, kept⟩
    cases newer with
    | nil => cases split
    | cons entry newer =>
        obtain ⟨rfl, rest⟩ := List.cons.inj split
        exact ⟨kept r List.mem_cons_self, newer, other, older, rest, sent,
          fun r member => kept r (List.mem_cons_of_mem _ member)⟩
  · rintro ⟨stays, newer, other, older, rfl, sent, kept⟩
    refine ⟨.received r :: newer, other, older, rfl, sent, ?_⟩
    intro q member
    rcases List.mem_cons.mp member with same | later
    · obtain rfl := Entry.received.inj same
      exact stays
    · exact kept q later

/-- How often an event has been taken out, and how often sent. -/
def clearings (log : List Entry) (i : Nat) : Nat :=
  log.countP fun
    | .sent _ => false
    | .received r => r.clears i

def sendings (log : List Entry) (i : Nat) : Nat :=
  log.countP fun
    | .sent set => set.getLsbD i
    | .received _ => false

/-- One event is set or not. -/
def bit (set : BitVec 32) (i : Nat) : Nat := if set.getLsbD i then 1 else 0

theorem clearings_sent (set : BitVec 32) (log : List Entry) (i : Nat) :
    clearings (.sent set :: log) i = clearings log i := List.countP_cons_of_neg Bool.false_ne_true

theorem clearings_received (r : Receipt) (log : List Entry) (i : Nat) :
    clearings (.received r :: log) i = clearings log i + if r.clears i then 1 else 0 :=
  List.countP_cons

theorem sendings_sent (set : BitVec 32) (log : List Entry) (i : Nat) :
    sendings (.sent set :: log) i = sendings log i + bit set i := List.countP_cons

theorem sendings_received (r : Receipt) (log : List Entry) (i : Nat) :
    sendings (.received r :: log) i = sendings log i := List.countP_cons_of_neg Bool.false_ne_true

section

variable {w : Waiter} {set recved : BitVec 32}

theorem checkEvent_cases (check : checkEvent w set = some (some recved)) :
    recved = set &&& w.eventSet ∧ Receipt.Fulfils ⟨w, recved⟩ := by
  rw [checkEvent] at check
  rw [Receipt.Fulfils]
  split at check
  · rename_i all
    have inner := Option.some.inj check
    split at inner
    · rename_i whole
      obtain rfl := Option.some.inj inner
      rw [if_pos all]
      exact ⟨by rw [BitVec.and_comm, whole], rfl⟩
    · cases inner
  · rename_i notAll
    split at check
    · have inner := Option.some.inj check
      split at inner
      · rename_i some
        obtain rfl := Option.some.inj inner
        rw [if_neg notAll]
        refine ⟨BitVec.and_comm _ _, some, ?_⟩
        dsimp only
        rw [BitVec.and_assoc, BitVec.and_comm set, ← BitVec.and_assoc, BitVec.and_self]
      · cases inner
    · cases check

/-- A condition that is not fulfilled is not fulfilled by fewer events. -/
theorem checkEvent_mono {fewer : BitVec 32} (check : checkEvent w set = some none)
    (subset : fewer &&& set = fewer) : checkEvent w fewer = some none := by
  rw [checkEvent] at check ⊢
  split at check
  · rename_i all
    rw [if_pos all]
    have inner := Option.some.inj check
    split at inner
    · cases inner
    · rename_i lacking
      rw [if_neg]
      intro whole
      apply lacking
      calc w.eventSet &&& set = w.eventSet &&& fewer &&& set := by rw [whole]
        _ = w.eventSet &&& (fewer &&& set) := BitVec.and_assoc _ _ _
        _ = w.eventSet := by rw [subset, whole]
  · rename_i notAll
    rw [if_neg notAll]
    split at check
    · rename_i any
      rw [if_pos any]
      have inner := Option.some.inj check
      split at inner
      · cases inner
      · rename_i none
        rw [if_neg]
        intro some
        apply some
        have empty : w.eventSet &&& set = 0 := Classical.not_not.mp none
        calc w.eventSet &&& fewer = w.eventSet &&& (fewer &&& set) := by rw [subset]
          _ = w.eventSet &&& set &&& fewer := by rw [BitVec.and_comm fewer, BitVec.and_assoc]
          _ = 0 := by
            rw [empty]
            exact BitVec.zero_and
    · cases check

theorem subset_and (set other : BitVec 32) : set &&& other &&& set = set &&& other := by
  rw [BitVec.and_comm (set &&& other), ← BitVec.and_assoc, BitVec.and_self]

/-- The events of the set are those that were sent and not taken out since; each receiver
has got what it waited for, out of such events, and no event has been taken out more
often than sent. -/
structure Recorded (set : BitVec 32) (log : List Entry) : Prop where
  outstanding : ∀ i, set.getLsbD i = true ↔ Outstanding log i
  fulfilled : ∀ r, .received r ∈ log → r.Fulfils
  founded : ∀ newer r older, log = newer ++ .received r :: older →
    ∀ i, r.recved.getLsbD i = true → Outstanding older i
  counted : ∀ i, clearings log i + bit set i ≤ sendings log i

variable {log : List Entry}

theorem Recorded.send (recorded : Recorded set log) (more : BitVec 32) :
    Recorded (set ||| more) (.sent more :: log) := by
  refine ⟨?_, ?_, ?_, ?_⟩
  · intro i
    rw [outstanding_sent, ← recorded.outstanding, BitVec.getLsbD_or, Bool.or_eq_true, or_comm]
  · intro r member
    exact recorded.fulfilled r ((List.mem_cons.mp member).resolve_left (by simp))
  · intro newer r older split
    cases newer with
    | nil => cases split
    | cons entry newer => exact recorded.founded newer r older (List.cons.inj split).2
  · intro i
    have before := recorded.counted i
    have now : bit (set ||| more) i ≤ bit set i + bit more i := by
      rw [bit, bit, bit, BitVec.getLsbD_or]
      cases set.getLsbD i with
      | true => simp
      | false => simp
    rw [clearings_sent, sendings_sent]
    omega

theorem Recorded.receive (recorded : Recorded set log) {r : Receipt} (fulfils : r.Fulfils)
    (subset : r.recved &&& set = r.recved) :
    Recorded (if r.waiter.eventInfo.clear then set &&& ~~~r.recved else set)
      (.received r :: log) := by
  have inside : ∀ i, r.recved.getLsbD i = true → set.getLsbD i = true := by
    intro i got
    rw [← subset, BitVec.getLsbD_and, Bool.and_eq_true] at got
    exact got.2
  have left : ∀ i, (if r.waiter.eventInfo.clear then set &&& ~~~r.recved else set).getLsbD i =
      (set.getLsbD i && !r.clears i) := by
    intro i
    rw [Receipt.clears]
    cases r.waiter.eventInfo.clear with
    | false => simp
    | true =>
        by_cases small : i < 32
        · simp [small]
        · simp [BitVec.getLsbD_of_ge set i (by omega)]
  refine ⟨?_, ?_, ?_, ?_⟩
  · intro i
    rw [left, outstanding_received, ← recorded.outstanding, Bool.and_eq_true, Bool.not_eq_true',
      and_comm]
  · intro q member
    rcases List.mem_cons.mp member with same | later
    · obtain rfl := Entry.received.inj same
      exact fulfils
    · exact recorded.fulfilled q later
  · intro newer q older split
    cases newer with
    | nil =>
        obtain ⟨same, rfl⟩ := List.cons.inj split
        obtain rfl := Entry.received.inj same
        intro i got
        exact (recorded.outstanding i).mp (inside i got)
    | cons entry newer => exact recorded.founded newer q older (List.cons.inj split).2
  · intro i
    have before := recorded.counted i
    have present : r.clears i = true → set.getLsbD i = true := by
      intro clears
      rw [Receipt.clears, Bool.and_eq_true] at clears
      exact inside i clears.2
    rw [clearings_received, sendings_received, bit, left]
    rw [bit] at before
    by_cases clears : r.clears i = true
    · rw [present clears] at before
      rw [clears, Bool.not_true, Bool.and_false]
      exact before
    · rw [Bool.not_eq_true] at clears
      rw [clears, Bool.not_false, Bool.and_true]
      exact before

/-- What the loop of `rt_event_send` leaves behind. -/
structure Resumed (waiting : List Waiter) (set : BitVec 32)
    (result : BitVec 32 × List Waiter × List Entry) : Prop where
  subset : result.1 &&& set = result.1
  sublist : result.2.1.Sublist waiting
  unmet : ∀ w ∈ result.2.1, checkEvent w result.1 = some none
  recorded : Recorded result.1 result.2.2

theorem resumeLoop_spec (waiting : List Waiter) (recorded : Recorded set log)
    (valid : ∀ w ∈ waiting, checkEvent w 0 ≠ none) :
    Resumed waiting set (resumeLoop waiting set log) := by
  induction waiting generalizing set log with
  | nil =>
      refine ⟨BitVec.and_self, List.Sublist.refl _, ?_, recorded⟩
      intro w member
      cases member
  | cons w rest ih =>
      obtain ⟨here, later⟩ := List.forall_mem_cons.mp valid
      rw [resumeLoop]
      cases check : checkEvent w set with
      | none =>
          have same : checkEvent w 0 = none := by
            rw [checkEvent] at check ⊢
            split at check
            · cases check
            · rename_i notAll
              rw [if_neg notAll]
              split at check
              · cases check
              · rename_i notAny
                exact if_neg notAny
          exact absurd same here
      | some answer =>
          cases answer with
          | none =>
              obtain ⟨subset, sublist, unmet, record⟩ := ih recorded later
              refine ⟨subset, sublist.cons_cons w, ?_, record⟩
              exact List.forall_mem_cons.mpr ⟨checkEvent_mono check subset, unmet⟩
          | some recved =>
              obtain ⟨rfl, fulfils⟩ := checkEvent_cases check
              obtain ⟨subset, sublist, unmet, record⟩ :=
                ih (recorded.receive fulfils (subset_and set w.eventSet)) later
              refine ⟨?_, sublist.cons w, unmet, record⟩
              dsimp only at subset ⊢
              rw [← subset]
              split
              · rw [BitVec.and_assoc, subset_and]
              · rw [BitVec.and_assoc, BitVec.and_self]

end

/-- No thread sleeps although its condition is fulfilled. -/
structure Settled (e : Event) : Prop where
  distinct : (e.waiting.map Waiter.thread).Nodup
  unmet : ∀ w ∈ e.waiting, checkEvent w e.set = some none
  recorded : Recorded e.set e.log

section

variable {e e' : Event}

theorem checkEvent_zero {w : Waiter} {set : BitVec 32} (check : checkEvent w set = some none) :
    checkEvent w 0 ≠ none := by
  have none := checkEvent_mono check (show (0 : BitVec 32) &&& set = 0 from BitVec.zero_and)
  rw [none]
  exact Option.some_ne_none _

theorem Settled.send (settled : Settled e) (set : BitVec 32) : Settled (rtEventSend e set) := by
  rw [rtEventSend]
  split
  · exact settled
  · have valid : ∀ w ∈ e.waiting, checkEvent w 0 ≠ none :=
      fun w member => checkEvent_zero (settled.unmet w member)
    obtain ⟨_, sublist, unmet, recorded⟩ :=
      resumeLoop_spec e.waiting (settled.recorded.send set) valid
    exact ⟨settled.distinct.sublist (sublist.map _), unmet, recorded⟩

theorem Settled.recv (settled : Settled e) {w : Waiter} {timeout : Bool}
    (fresh : w.thread ∉ e.waiting.map Waiter.thread)
    (result : rtEventRecv e w timeout = some e') : Settled e' := by
  rw [rtEventRecv] at result
  split at result
  · obtain rfl := Option.some.inj result
    exact settled
  · split at result
    · cases result
    · -- The condition is fulfilled at once.
      rename_i recved check
      obtain rfl := Option.some.inj result
      obtain ⟨rfl, fulfils⟩ := checkEvent_cases check
      have same : (if w.eventInfo.clear then e.set &&& ~~~w.eventSet else e.set) =
          if w.eventInfo.clear then e.set &&& ~~~(e.set &&& w.eventSet) else e.set := by
        split
        · apply BitVec.eq_of_getLsbD_eq
          intro i small
          simp only [BitVec.getLsbD_and, BitVec.getLsbD_not, small, decide_true, Bool.true_and]
          cases e.set.getLsbD i with
          | true => rw [Bool.true_and, Bool.true_and, Bool.true_and]
          | false => rfl
        · rfl
      have recorded := settled.recorded.receive fulfils (subset_and e.set w.eventSet)
      dsimp only at recorded
      rw [← same] at recorded
      refine ⟨settled.distinct, ?_, recorded⟩
      intro v member
      apply checkEvent_mono (settled.unmet v member)
      dsimp only
      split
      · exact subset_and e.set _
      · exact BitVec.and_self
    · -- The thread waits.
      rename_i check
      split at result
      · obtain rfl := Option.some.inj result
        refine ⟨?_, ?_, settled.recorded⟩
        · have order := (@rtIpcListSuspend_perm _ (fun v : Waiter => e.priority v.thread) e.flag w
            e.waiting).map Waiter.thread
          exact order.nodup_iff.mpr (List.nodup_cons.mpr ⟨fresh, settled.distinct⟩)
        · intro v member
          rcases mem_rtIpcListSuspend.mp member with rfl | old
          · exact check
          · exact settled.unmet v old
      · obtain rfl := Option.some.inj result
        exact settled

theorem Settled.step (settled : Settled e) {action : EventAction}
    (taken : eventStep action e = some e') : Settled e' := by
  cases action with
  | send set =>
      obtain rfl := Option.some.inj taken
      exact settled.send set
  | recv w timeout =>
      rw [eventStep] at taken
      split at taken
      · cases taken
      · rename_i fresh
        exact settled.recv fresh taken
  | expire thread =>
      obtain rfl := Option.some.inj taken
      refine ⟨?_, ?_, settled.recorded⟩
      · exact settled.distinct.sublist (List.filter_sublist.map _)
      · intro w member
        exact settled.unmet w (List.mem_filter.mp member).1
  | control thread priority =>
      obtain rfl := Option.some.inj taken
      exact ⟨settled.distinct, settled.unmet, settled.recorded⟩

end

theorem event_settled (flag : IpcFlag) (priority : Nat → Nat) {actions : List EventAction}
    {e : Event} (reached : run eventStep actions (initEvent flag priority) = some e) :
    Settled e := by
  have initial : Settled (initEvent flag priority) := by
    refine ⟨List.nodup_nil, ?_, ?_, ?_, ?_, ?_⟩
    · intro w member
      cases member
    · intro i
      exact iff_of_false (by simp [initEvent]) (outstanding_nil i)
    · intro r member
      cases member
    · intro newer r older split
      cases newer with
      | nil => cases split
      | cons entry newer => cases split
    · intro i
      simp [clearings, bit, sendings, initEvent]
  have arrives : Reaches eventStep (initEvent flag priority) e := ⟨actions, reached⟩
  exact arrives.invariant Settled initial fun _ _ _ settled taken => settled.step taken

/-- The first thread waits for two events and takes them out, the second for one of two,
and a third one finds an event that was sent before. -/
theorem event_settled_received : ∃ e, Settled e ∧ e.set = 0 ∧ e.waiting = [] ∧
    e.log = [.received ⟨⟨3, 4, ⟨false, true, true⟩⟩, 4⟩,
      .received ⟨⟨2, 6, ⟨false, true, false⟩⟩, 4⟩, .sent 4,
      .received ⟨⟨1, 3, ⟨true, false, true⟩⟩, 3⟩, .sent 2, .sent 1] :=
  ⟨_, event_settled .fifo (fun _ => 10) (show run eventStep
    [.recv ⟨1, 3, ⟨true, false, true⟩⟩ true, .recv ⟨2, 6, ⟨false, true, false⟩⟩ true, .send 1,
      .send 2, .send 4, .recv ⟨3, 4, ⟨false, true, true⟩⟩ false] _ = some _ from rfl),
    by decide, rfl, by decide⟩

end KyokaMirror.RtThread
