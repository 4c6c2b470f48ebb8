import KyokaMirror.Library.Transition
import KyokaMirror.Library.Waiting
import KyokaMirror.RtThread.Ipc
import KyokaMirror.RtThread.Mailbox

set_option autoImplicit false

namespace KyokaMirror.RtThread

open Library (Ring Waiting)
open Library.Transition

/-- A call of `rt_mb_send_wait` or `rt_mb_recv` with what is left of its
`timeout`. -/
structure Blocked (α : Type) where
  thread : Nat
  value : α
  timeout : Int
  deriving DecidableEq, Repr

/-- What is left of a `timeout`, in `rt_int32_t`, after a time asleep. -/
def remaining (timeout : Int) (elapsed : Nat) : Int :=
  if timeout > 0 then max 0 ((timeout - elapsed).bmod (2 ^ 32)) else timeout

def Blocked.later {α : Type} (call : Blocked α) (elapsed : Nat) : Blocked α :=
  { call with timeout := remaining call.timeout elapsed }

/-- What a call has returned. -/
inductive Answer (Mail : Type) where
  | sent (value : Mail)
  | efull
  | received (value : Mail)
  | etimeout
  | error
  | reset
  deriving DecidableEq, Repr

/-- `struct rt_mailbox` with its threads: `parent.suspend_thread` is
`receivers.suspended` and `suspend_sender_thread` is `senders.suspended`.
`answers` records what has been returned. -/
structure SharedMailbox (Mail : Type) (size : Nat) where
  flag : IpcFlag
  ring : Ring Mail size
  receivers : Waiting (Blocked Unit)
  senders : Waiting (Blocked Mail)
  priority : Nat → Nat
  answers : List (Answer Mail)

namespace SharedMailbox

variable {Mail : Type} {size : Nat}

def init (flag : IpcFlag) (msgPool : Nat → Mail) (priority : Nat → Nat) (positive : 0 < size) :
    SharedMailbox Mail size :=
  ⟨flag, Ring.empty msgPool positive, Waiting.empty, Waiting.empty, priority, []⟩

def suspend {α : Type} (s : SharedMailbox Mail size) (call : Blocked α)
    (w : Waiting (Blocked α)) : Waiting (Blocked α) :=
  { w with suspended := rtIpcListSuspend (fun b => s.priority b.thread) s.flag call w.suspended }

/-- `rt_mb_send_wait` from the test of its loop to its return or to the next time
that it sleeps. -/
def sendRound (s : SharedMailbox Mail size) (call : Blocked Mail) : SharedMailbox Mail size :=
  if space : s.ring.entry < size then
    { s with
      ring := s.ring.push call.value space
      receivers := s.receivers.wake
      answers := s.answers ++ [.sent call.value] }
  else if call.timeout = 0 then { s with answers := s.answers ++ [.efull] }
  else { s with senders := s.suspend call s.senders }

/-- The same for `rt_mb_recv`. -/
def recvRound (s : SharedMailbox Mail size) (call : Blocked Unit) : SharedMailbox Mail size :=
  if filled : 0 < s.ring.entry then
    { s with
      ring := s.ring.pop filled
      senders := s.senders.wake
      answers := s.answers ++ [.received s.ring.front] }
  else if call.timeout = 0 then { s with answers := s.answers ++ [.etimeout] }
  else { s with receivers := s.suspend call s.receivers }

/-- `rt_ipc_list_resume_all`. -/
def resumeAll {α : Type} (w : Waiting α) : Waiting α := { w with suspended := [] }

/-- Each thread that `rt_ipc_list_resume_all` resumes returns `-RT_ERROR`. -/
def errors {α : Type} (w : Waiting α) : List (Answer Mail) := w.suspended.map fun _ => .error

/-- `rt_mb_control` with `RT_IPC_CMD_RESET`. -/
def rtMbReset (s : SharedMailbox Mail size) : SharedMailbox Mail size :=
  { s with
    ring := Ring.empty s.ring.cells (Nat.zero_lt_of_lt s.ring.out_lt)
    receivers := resumeAll s.receivers
    senders := resumeAll s.senders
    answers := s.answers ++ errors s.receivers ++ errors s.senders ++ [.reset] }

/-- The threads that have called and have not returned. -/
def busy (s : SharedMailbox Mail size) : List Nat :=
  (s.receivers.suspended ++ s.receivers.woken).map Blocked.thread ++
    (s.senders.suspended ++ s.senders.woken).map Blocked.thread

end SharedMailbox

open SharedMailbox

/-- A call, a woken thread that gets to run, the end of a waiting time, or a change
of priority. -/
inductive MbAction (Mail : Type) where
  | send (call : Blocked Mail)
  | recv (call : Blocked Unit)
  | runSender (thread elapsed : Nat)
  | runReceiver (thread elapsed : Nat)
  | expireSender (thread : Nat)
  | expireReceiver (thread : Nat)
  | reset
  | control (thread priority : Nat)

section

variable {Mail : Type} {size : Nat}

/-- Only a call that does not wait may come from an interrupt, whose
`rt_thread_self` is the thread that it has interrupted. -/
def mbStep : MbAction Mail → SharedMailbox Mail size → Option (SharedMailbox Mail size)
  | .send call, s =>
      if call.timeout ≠ 0 ∧ call.thread ∈ s.busy then none else some (s.sendRound call)
  | .recv call, s =>
      if call.timeout ≠ 0 ∧ call.thread ∈ s.busy then none else some (s.recvRound call)
  | .runSender thread elapsed, s =>
      (s.senders.pick fun b => b.thread = thread).map fun picked =>
        sendRound { s with senders := picked.2 } (picked.1.later elapsed)
  | .runReceiver thread elapsed, s =>
      (s.receivers.pick fun b => b.thread = thread).map fun picked =>
        recvRound { s with receivers := picked.2 } (picked.1.later elapsed)
  | .expireSender thread, s =>
      (s.senders.giveUp fun b => b.thread = thread ∧ 0 < b.timeout).map fun left =>
        { s with senders := left.2, answers := s.answers ++ [.etimeout] }
  | .expireReceiver thread, s =>
      (s.receivers.giveUp fun b => b.thread = thread ∧ 0 < b.timeout).map fun left =>
        { s with receivers := left.2, answers := s.answers ++ [.etimeout] }
  | .reset, s => some s.rtMbReset
  | .control thread priority, s =>
      some { s with priority := Function.update s.priority thread priority }

/-- The answers are those of a queue of at most `size` mails that holds `before`
first and `after` in the end. -/
def Fifo (size : Nat) : List (Answer Mail) → List Mail → List Mail → Prop
  | [], before, after => before = after
  | .sent value :: rest, before, after =>
      before.length < size ∧ Fifo size rest (before ++ [value]) after
  | .efull :: rest, before, after => before.length = size ∧ Fifo size rest before after
  | .received value :: rest, before, after =>
      ∃ later, before = value :: later ∧ Fifo size rest later after
  | .etimeout :: rest, before, after => Fifo size rest before after
  | .error :: rest, before, after => Fifo size rest before after
  | .reset :: rest, _, after => Fifo size rest [] after

theorem Fifo.append {first second : List (Answer Mail)} {before middle after : List Mail}
    (left : Fifo size first before middle) (right : Fifo size second middle after) :
    Fifo size (first ++ second) before after := by
  induction first generalizing before with
  | nil =>
      obtain rfl : before = middle := left
      exact right
  | cons a rest ih =>
      cases a with
      | sent value => exact ⟨left.1, ih left.2⟩
      | efull => exact ⟨left.1, ih left.2⟩
      | received value =>
          obtain ⟨later, same, more⟩ := left
          exact ⟨later, same, ih more⟩
      | etimeout => exact ih left
      | error => exact ih left
      | reset => exact ih left

theorem fifo_errors {α : Type} (w : Waiting α) (mails : List Mail) :
    Fifo size (errors w) mails mails := by
  unfold errors
  induction w.suspended with
  | nil => rfl
  | cons first rest ih => exact ih

/-- The answers are those of a bounded queue, no receiver sleeps on mails that
nobody is about to take, and no sender on space that nobody is about to fill. -/
structure MbSettled (s : SharedMailbox Mail size) : Prop where
  fifo : Fifo size s.answers [] s.ring.contents
  receivers : s.receivers.Served s.ring.entry
  senders : s.senders.Served (size - s.ring.entry)

section

variable {s s' : SharedMailbox Mail size}

/-- A sender may have been woken for the place that its mail takes. -/
theorem MbSettled.sendRound (fifo : Fifo size s.answers [] s.ring.contents)
    (receivers : s.receivers.Served s.ring.entry)
    (senders : s.senders.Served (size - s.ring.entry - 1)) (call : Blocked Mail) :
    MbSettled (s.sendRound call) := by
  rw [SharedMailbox.sendRound]
  split
  · rename_i space
    refine ⟨?_, receivers.wake, ?_⟩
    · have room : s.ring.contents.length < size := by
        rw [s.ring.contents_length]
        exact space
      dsimp only
      rw [s.ring.contents_push call.value space]
      exact fifo.append ⟨room, rfl⟩
    · exact senders.less (Nat.le_of_eq (Nat.sub_sub size s.ring.entry 1).symm)
  · rename_i full
    have entry := s.ring.entry_le
    have none : size - s.ring.entry = 0 := by omega
    split
    · refine ⟨fifo.append ⟨?_, rfl⟩, receivers, ?_⟩
      · rw [s.ring.contents_length]
        omega
      · rw [none]
        exact Waiting.served_zero
    · refine ⟨fifo, receivers, ?_⟩
      rw [none]
      exact Waiting.served_zero

/-- A receiver may have been woken for the mail that it takes. -/
theorem MbSettled.recvRound (fifo : Fifo size s.answers [] s.ring.contents)
    (receivers : s.receivers.Served (s.ring.entry - 1))
    (senders : s.senders.Served (size - s.ring.entry)) (call : Blocked Unit) :
    MbSettled (s.recvRound call) := by
  rw [SharedMailbox.recvRound]
  split
  · rename_i filled
    refine ⟨fifo.append ⟨_, s.ring.contents_pop filled, rfl⟩, receivers, ?_⟩
    have entry := s.ring.entry_le
    have more : size - (s.ring.entry - 1) = size - s.ring.entry + 1 := by omega
    show s.senders.wake.Served (size - (s.ring.entry - 1))
    rw [more]
    exact senders.wake
  · rename_i empty
    have none : s.ring.entry = 0 := by omega
    split
    · refine ⟨fifo.append rfl, ?_, senders⟩
      rw [none]
      exact Waiting.served_zero
    · refine ⟨fifo, ?_, senders⟩
      rw [none]
      exact Waiting.served_zero

theorem MbSettled.reset (settled : MbSettled s) : MbSettled s.rtMbReset := by
  refine ⟨?_, fun asleep => absurd rfl asleep, fun asleep => absurd rfl asleep⟩
  exact ((settled.fifo.append (fifo_errors s.receivers _)).append
    (fifo_errors s.senders _)).append rfl

theorem MbSettled.step (settled : MbSettled s) {action : MbAction Mail}
    (taken : mbStep action s = some s') : MbSettled s' := by
  cases action with
  | send call =>
      rw [mbStep] at taken
      split at taken
      · cases taken
      · obtain rfl := Option.some.inj taken
        exact .sendRound settled.fifo settled.receivers (settled.senders.less (Nat.sub_le _ _)) call
  | recv call =>
      rw [mbStep] at taken
      split at taken
      · cases taken
      · obtain rfl := Option.some.inj taken
        exact .recvRound settled.fifo (settled.receivers.less (Nat.sub_le _ _)) settled.senders call
  | runSender thread elapsed =>
      obtain ⟨⟨call, rest⟩, picked, rfl⟩ := Option.map_eq_some_iff.mp taken
      exact MbSettled.sendRound (s := { s with senders := rest }) settled.fifo settled.receivers
        (settled.senders.pick picked) _
  | runReceiver thread elapsed =>
      obtain ⟨⟨call, rest⟩, picked, rfl⟩ := Option.map_eq_some_iff.mp taken
      exact MbSettled.recvRound (s := { s with receivers := rest }) settled.fifo
        (settled.receivers.pick picked) settled.senders _
  | expireSender thread =>
      obtain ⟨⟨call, rest⟩, left, rfl⟩ := Option.map_eq_some_iff.mp taken
      exact ⟨settled.fifo.append rfl, settled.receivers, settled.senders.giveUp left⟩
  | expireReceiver thread =>
      obtain ⟨⟨call, rest⟩, left, rfl⟩ := Option.map_eq_some_iff.mp taken
      exact ⟨settled.fifo.append rfl, settled.receivers.giveUp left, settled.senders⟩
  | reset =>
      obtain rfl := Option.some.inj taken
      exact settled.reset
  | control thread priority =>
      obtain rfl := Option.some.inj taken
      exact ⟨settled.fifo, settled.receivers, settled.senders⟩

end

theorem MbSettled.reached {flag : IpcFlag} {msgPool : Nat → Mail} {priority : Nat → Nat}
    {positive : 0 < size} {s : SharedMailbox Mail size}
    (reached : Reaches mbStep (SharedMailbox.init flag msgPool priority positive) s) :
    MbSettled s := by
  have initial : MbSettled (SharedMailbox.init flag msgPool priority positive) :=
    ⟨rfl, fun asleep => absurd rfl asleep, fun asleep => absurd rfl asleep⟩
  exact reached.invariant MbSettled initial fun _ _ _ settled taken => settled.step taken

theorem mailbox_settled (flag : IpcFlag) (msgPool : Nat → Mail) (priority : Nat → Nat)
    (positive : 0 < size) {actions : List (MbAction Mail)} {s : SharedMailbox Mail size}
    (reached : run mbStep actions (SharedMailbox.init flag msgPool priority positive) = some s) :
    MbSettled s := .reached ⟨actions, reached⟩

/-- A receiver sleeps, a mail arrives, and another thread takes it first. -/
theorem mailbox_settled_overtaken : ∃ s : SharedMailbox Nat 4, MbSettled s ∧
    s.answers = [.sent 7, .received 7] ∧ s.receivers.suspended = [⟨1, (), -1⟩] :=
  ⟨_, mailbox_settled .fifo (fun _ => 0) (fun _ => 10) (Nat.zero_lt_succ 3)
    (show run mbStep [.recv ⟨1, (), -1⟩, .send ⟨2, 7, 0⟩, .recv ⟨3, (), -1⟩, .runReceiver 1 5] _ =
      some _ from rfl), rfl, rfl⟩

/-- A woken thread runs. -/
def MbAction.isRun : MbAction Mail → Bool
  | .runSender _ _ => true
  | .runReceiver _ _ => true
  | _ => false

namespace SharedMailbox

/-- The calls that have not returned. -/
def pending (s : SharedMailbox Mail size) : Nat := s.receivers.total + s.senders.total

/-- Those of them that are awake. -/
def awake (s : SharedMailbox Mail size) : Nat := s.receivers.woken.length + s.senders.woken.length

variable {s : SharedMailbox Mail size}

theorem awake_le_pending : s.awake ≤ s.pending := by
  rw [awake, pending, Waiting.total, Waiting.total]
  omega

theorem suspend_total {α : Type} (call : Blocked α) (w : Waiting (Blocked α)) :
    (s.suspend call w).total = w.total + 1 ∧ (s.suspend call w).woken = w.woken := by
  have length := (@rtIpcListSuspend_perm _ (fun b : Blocked α => s.priority b.thread) s.flag call
    w.suspended).length_eq
  rw [List.length_cons] at length
  refine ⟨?_, rfl⟩
  rw [Waiting.total, suspend, Waiting.total]
  dsimp only
  omega

/-- A call returns or goes to sleep, whatever it does to the others. -/
theorem sendRound_pending (call : Blocked Mail) :
    (s.sendRound call).pending = s.pending ∨
      ((s.sendRound call).pending = s.pending + 1 ∧ (s.sendRound call).awake = s.awake) := by
  rw [sendRound]
  split
  · left
    rw [pending, pending, Waiting.total_wake]
  · split
    · exact .inl rfl
    · right
      obtain ⟨total, same⟩ := suspend_total (s := s) call s.senders
      rw [pending, pending, awake, awake]
      dsimp only
      rw [same]
      exact ⟨by omega, rfl⟩

theorem recvRound_pending (call : Blocked Unit) :
    (s.recvRound call).pending = s.pending ∨
      ((s.recvRound call).pending = s.pending + 1 ∧ (s.recvRound call).awake = s.awake) := by
  rw [recvRound]
  split
  · left
    rw [pending, pending, Waiting.total_wake]
  · split
    · exact .inl rfl
    · right
      obtain ⟨total, same⟩ := suspend_total (s := s) call s.receivers
      rw [pending, pending, awake, awake]
      dsimp only
      rw [same]
      exact ⟨by omega, rfl⟩

def effort (s : SharedMailbox Mail size) : Nat := Waiting.effort s.pending s.awake

theorem effort_round {before s' : SharedMailbox Mail size}
    (pending : s.pending + 1 = before.pending) (awake : s.awake + 1 = before.awake)
    (round : s'.pending = s.pending ∨ (s'.pending = s.pending + 1 ∧ s'.awake = s.awake)) :
    s'.effort < before.effort := by
  rw [effort, effort]
  rcases round with left | ⟨stays, sleeps⟩
  · exact Waiting.effort_leave (by omega) awake_le_pending
  · rw [stays, pending]
    exact Waiting.effort_sleep (by omega)

/-- Whenever a woken thread runs, fewer rounds are left. -/
theorem effort_step {s' : SharedMailbox Mail size} {action : MbAction Mail}
    (isRun : action.isRun = true) (taken : mbStep action s = some s') : s'.effort < s.effort := by
  cases action with
  | runSender thread elapsed =>
      obtain ⟨⟨call, rest⟩, picked, rfl⟩ := Option.map_eq_some_iff.mp taken
      have total := Waiting.total_pick picked
      have woken := (Waiting.pick_cases picked).2.2.2
      refine effort_round (s := { s with senders := rest }) ?_ ?_ (sendRound_pending _)
      · rw [pending, pending]
        dsimp only
        omega
      · rw [awake, awake]
        dsimp only
        omega
  | runReceiver thread elapsed =>
      obtain ⟨⟨call, rest⟩, picked, rfl⟩ := Option.map_eq_some_iff.mp taken
      have total := Waiting.total_pick picked
      have woken := (Waiting.pick_cases picked).2.2.2
      refine effort_round (s := { s with receivers := rest }) ?_ ?_ (recvRound_pending _)
      · rw [pending, pending]
        dsimp only
        omega
      · rw [awake, awake]
        dsimp only
        omega
  | send call => cases isRun
  | recv call => cases isRun
  | expireSender thread => cases isRun
  | expireReceiver thread => cases isRun
  | reset => cases isRun
  | control thread priority => cases isRun

theorem effort_run {s' : SharedMailbox Mail size} {actions : List (MbAction Mail)}
    (runs : ∀ a ∈ actions, a.isRun = true) (taken : run mbStep actions s = some s') :
    actions.length + s'.effort ≤ s.effort := by
  induction actions generalizing s with
  | nil =>
      obtain rfl := Option.some.inj taken
      rw [List.length_nil]
      omega
  | cons a rest ih =>
      obtain ⟨u, first, later⟩ := Option.bind_eq_some_iff.mp taken
      obtain ⟨here, others⟩ := List.forall_mem_cons.mp runs
      have less := effort_step here first
      have more := ih others later
      rw [List.length_cons]
      omega

/-- As long as somebody is awake, somebody can run. -/
theorem runs_of_awake (somebody : 0 < s.awake) :
    ∃ action : MbAction Mail, action.isRun = true ∧ (mbStep action s).isSome := by
  by_cases receiver : s.receivers.woken = []
  · have sender : s.senders.woken ≠ [] := by
      intro none
      rw [awake, receiver, none] at somebody
      exact absurd somebody (Nat.lt_irrefl 0)
    obtain ⟨call, member⟩ := List.exists_mem_of_ne_nil _ sender
    refine ⟨.runSender call.thread 0, rfl, ?_⟩
    rw [mbStep, Option.isSome_map]
    exact Waiting.pick_of_mem member (decide_eq_true rfl)
  · obtain ⟨call, member⟩ := List.exists_mem_of_ne_nil _ receiver
    refine ⟨.runReceiver call.thread 0, rfl, ?_⟩
    rw [mbStep, Option.isSome_map]
    exact Waiting.pick_of_mem member (decide_eq_true rfl)

end SharedMailbox

/-- Nobody sleeps on a mailbox that could serve him. -/
def Quiet (s : SharedMailbox Mail size) : Prop :=
  (s.receivers.suspended = [] ∨ s.ring.contents = []) ∧
    (s.senders.suspended = [] ∨ s.ring.contents.length = size)

theorem MbSettled.quiet {s : SharedMailbox Mail size} (settled : MbSettled s) (none : s.awake = 0) :
    Quiet s := by
  rw [SharedMailbox.awake] at none
  have length := s.ring.contents_length
  have entry := s.ring.entry_le
  constructor
  · by_cases asleep : s.receivers.suspended = []
    · exact .inl asleep
    · have served := settled.receivers asleep
      exact .inr (List.length_eq_zero_iff.mp (by omega))
  · by_cases asleep : s.senders.suspended = []
    · exact .inl asleep
    · have served := settled.senders asleep
      exact .inr (by omega)

theorem mailbox_drains (flag : IpcFlag) (msgPool : Nat → Mail) (priority : Nat → Nat)
    (positive : 0 < size) {actions runs : List (MbAction Mail)} {s t : SharedMailbox Mail size}
    (reached : run mbStep actions (SharedMailbox.init flag msgPool priority positive) = some s)
    (only : ∀ a ∈ runs, a.isRun = true) (drained : run mbStep runs s = some t) :
    runs.length < (s.pending + 1) ^ 2 ∧
      ((∃ action : MbAction Mail, action.isRun = true ∧ (mbStep action t).isSome) ∨ Quiet t) := by
  constructor
  · have length := SharedMailbox.effort_run only drained
    have bound : s.effort < (s.pending + 1) ^ 2 := Waiting.effort_lt SharedMailbox.awake_le_pending
    omega
  · have settled : MbSettled t :=
      .reached (Reaches.trans ⟨actions, reached⟩ ⟨runs, drained⟩)
    by_cases none : t.awake = 0
    · exact .inr (settled.quiet none)
    · exact .inl (SharedMailbox.runs_of_awake (by omega))

/-- The receiver that has been woken takes the mail, and nobody is left. -/
theorem mailbox_drains_woken : ∃ s t : SharedMailbox Nat 4,
    (1 < (s.pending + 1) ^ 2 ∧
      ((∃ action : MbAction Nat, action.isRun = true ∧ (mbStep action t).isSome) ∨ Quiet t)) ∧
    s.awake = 1 ∧ t.pending = 0 :=
  ⟨_, _, mailbox_drains .fifo (fun _ => 0) (fun _ => 10) (Nat.zero_lt_succ 3)
    (show run mbStep [.recv ⟨1, (), -1⟩, .send ⟨2, 7, 0⟩] _ = some _ from rfl)
    (show ∀ a ∈ [MbAction.runReceiver 1 5], a.isRun = true from List.forall_mem_singleton.mpr rfl)
    (show run mbStep [MbAction.runReceiver 1 5] _ = some _ from rfl), rfl, rfl⟩

end

end KyokaMirror.RtThread
