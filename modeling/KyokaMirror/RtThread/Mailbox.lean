import KyokaMirror.Library.Ring

set_option autoImplicit false

namespace KyokaMirror.RtThread

open Library (Ring)

/-- `rt_err_t` as far as a non-blocking send returns it. -/
inductive Err where
  | eok
  | efull
  deriving DecidableEq, Repr

/-- `struct rt_mailbox`. While the object is attached its type is
`RT_Object_Class_MailBox`; `rt_object_detach` clears it. -/
structure Mailbox (Mail : Type) (size : Nat) where
  ring : Ring Mail size
  attached : Bool

namespace Mailbox

/-- Both mailboxes of the application have pools of 256 bytes, which is 64 mails. -/
theorem size_pos : 0 < 64 := by decide

variable {Mail : Type} {size : Nat}

def rtMbInit (msgPool : Nat → Mail) (positive : 0 < size) : Mailbox Mail size :=
  ⟨Ring.empty msgPool positive, true⟩

/-- The part of `rt_mb_send` behind its type assertion. -/
def enter (mb : Mailbox Mail size) (value : Mail) : Mailbox Mail size × Err :=
  if space : mb.ring.entry < size then ({ mb with ring := mb.ring.push value space }, .eok)
  else (mb, .efull)

/-- `rt_mb_send`, which never waits; `none` where the type assertion fails. -/
def rtMbSend (mb : Mailbox Mail size) (value : Mail) : Option (Mailbox Mail size × Err) :=
  if mb.attached then some (mb.enter value) else none

/-- The part of `rt_mb_recv` behind its type assertion; `none` while the caller
has to wait. -/
def leave (mb : Mailbox Mail size) : Option (Mail × Mailbox Mail size) :=
  if filled : 0 < mb.ring.entry then
    some (mb.ring.front, { mb with ring := mb.ring.pop filled })
  else none

/-- `rt_mb_recv`; `none` where the type assertion fails. -/
def rtMbRecv (mb : Mailbox Mail size) : Option (Option (Mail × Mailbox Mail size)) :=
  if mb.attached then some mb.leave else none

def rtMbDetach (mb : Mailbox Mail size) : Mailbox Mail size := { mb with attached := false }

/-- The mails from the oldest to the newest. -/
def contents (mb : Mailbox Mail size) : List Mail := mb.ring.contents

@[simp] theorem attached_enter (mb : Mailbox Mail size) (value : Mail) :
    (mb.enter value).1.attached = mb.attached := by
  unfold enter
  split <;> rfl

/-- A send appends its mail, or drops it when the mailbox is full. -/
theorem contents_enter (mb : Mailbox Mail size) (value : Mail) :
    (mb.enter value).1.contents =
      if mb.contents.length < size then mb.contents ++ [value] else mb.contents := by
  have count : mb.contents.length = mb.ring.entry := mb.ring.contents_length
  rw [count]
  by_cases space : mb.ring.entry < size
  · rw [enter, dif_pos space, if_pos space]
    exact mb.ring.contents_push value space
  · rw [enter, dif_neg space, if_neg space]

theorem enter_accepted_iff (mb : Mailbox Mail size) (value : Mail) :
    (mb.enter value).2 = .eok ↔ mb.contents.length < size := by
  have count : mb.contents.length = mb.ring.entry := mb.ring.contents_length
  rw [count]
  by_cases space : mb.ring.entry < size
  · rw [enter, dif_pos space]
    exact iff_of_true rfl space
  · rw [enter, dif_neg space]
    exact iff_of_false (fun same => by cases same) space

theorem rtMbSend_of_space {mb : Mailbox Mail size} (attached : mb.attached = true)
    (space : mb.contents.length < size) (value : Mail) :
    mb.rtMbSend value = some ((mb.enter value).1, .eok) := by
  rw [rtMbSend, if_pos attached, ← (enter_accepted_iff mb value).mpr space]

theorem rtMbSend_of_full {mb : Mailbox Mail size} (attached : mb.attached = true)
    (full : ¬ mb.contents.length < size) (value : Mail) :
    mb.rtMbSend value = some ((mb.enter value).1, .efull) := by
  have refused : (mb.enter value).2 = .efull := by
    cases result : (mb.enter value).2 with
    | eok => exact absurd ((enter_accepted_iff mb value).mp result) full
    | efull => rfl
  rw [rtMbSend, if_pos attached, ← refused]

theorem leave_of_nil {mb : Mailbox Mail size} (drained : mb.contents = []) : mb.leave = none := by
  have count : mb.contents.length = mb.ring.entry := mb.ring.contents_length
  rw [drained, List.length_nil] at count
  rw [leave, dif_neg (by omega)]

/-- A receive takes the oldest mail. -/
theorem leave_of_cons {mb : Mailbox Mail size} {value : Mail} {rest : List Mail}
    (held : mb.contents = value :: rest) :
    ∃ left, mb.leave = some (value, left) ∧ left.contents = rest ∧
      left.attached = mb.attached := by
  have count : mb.contents.length = mb.ring.entry := mb.ring.contents_length
  rw [held, List.length_cons] at count
  have filled : 0 < mb.ring.entry := by omega
  have popped := mb.ring.contents_pop filled
  rw [show mb.ring.contents = value :: rest from held] at popped
  obtain ⟨front, tail⟩ := List.cons.inj popped
  refine ⟨{ mb with ring := mb.ring.pop filled }, ?_, tail.symm, rfl⟩
  rw [leave, dif_pos filled, front]

end Mailbox

end KyokaMirror.RtThread
