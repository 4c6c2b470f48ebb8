import KyokaMirror.Library.Transition
import KyokaMirror.RtThread.MessageQueue
import Mathlib.Data.List.Nodup

set_option autoImplicit false

namespace KyokaMirror.Esp32

open Library (Linked)
open Library.Transition
open RtThread

/-- `max_msgs` of `rx_mq`: messages of 8 bytes, each with a link of 4, in the
160 bytes that `rt_mq_init` is told to use. -/
def rxMqMsgs : Nat := 160 / (8 + 4)

/-- The receive loop around `rt_mq_recv`: the thread waits, copies the message
of a slot word by word to `&msg`, puts the slot back, and then reads `msg.size`
and `msg.dev`. -/
inductive Stage where
  | waiting
  | copyDev (slot : Nat)
  | copySize (slot : Nat)
  | releasing (slot : Nat)
  | useSize
  | useDev (size : Nat)
  deriving DecidableEq, Repr

/-- The slot that is in neither list. -/
def Stage.hand : Stage → List Nat
  | .copyDev slot => [slot]
  | .copySize slot => [slot]
  | .releasing slot => [slot]
  | _ => []

/-- The queue with the thread. `accepted` are the pairs whose send succeeded,
`received` the pair in `msg` when `rt_mq_recv` returned last, and `acted` the
pairs that the thread has used. -/
structure Notification where
  q : MessageQueue
  stage : Stage
  accepted : List (Nat × Nat)
  received : Nat × Nat
  acted : List (Nat × Nat)

inductive NotifyLabel where
  | send (dev size : Nat)
  | receive
  | copyDev
  | copySize
  | release
  | useSize
  | useDev
  deriving DecidableEq, Repr

section

variable (msg : Nat)

def pairInMsg (mem : Words) : Nat × Nat := (mem msg, mem (msg + 1))

/-- `uart_input` runs in the interrupt and ignores a refused send; everything
else is the thread. The pool of the queue starts at `&msg`. -/
def notifyStep : NotifyLabel → Notification → Option Notification
  | .send dev size, s =>
      match rtMqSend s.q dev size with
      | none => some s
      | some q => some { s with q := q, accepted := s.accepted ++ [(dev, size)] }
  | .receive, s =>
      match s.stage, rtMqTake s.q with
      | .waiting, some (slot, q) => some { s with q := q, stage := .copyDev slot }
      | _, _ => none
  | .copyDev, s =>
      match s.stage with
      | .copyDev slot => some { s with
          q := { s.q with mem := write s.q.mem msg (s.q.mem (slot + 1)) }, stage := .copySize slot }
      | _ => none
  | .copySize, s =>
      match s.stage with
      | .copySize slot => some { s with
          q := { s.q with mem := write s.q.mem (msg + 1) (s.q.mem (slot + 2)) }
          stage := .releasing slot }
      | _ => none
  | .release, s =>
      match s.stage with
      | .releasing slot => some { s with
          q := rtMqRelease s.q slot
          stage := .useSize
          received := pairInMsg msg (rtMqRelease s.q slot).mem }
      | _ => none
  | .useSize, s =>
      match s.stage with
      | .useSize => some { s with stage := .useDev (s.q.mem (msg + 1)) }
      | _ => none
  | .useDev, s =>
      match s.stage with
      | .useDev size => some { s with stage := .waiting, acted := s.acted ++ [(s.q.mem msg, size)] }
      | _ => none

def notifyStart (mem : Words) : Notification where
  q := rtMqInit mem msg rxMqMsgs
  stage := .waiting
  accepted := []
  received := (0, 0)
  acted := []

/-- Between the receive and its use the pair stays what it was. -/
def Stable (s : Notification) : Prop :=
  match s.stage with
  | .useSize => pairInMsg msg s.q.mem = s.received
  | .useDev size => (s.q.mem msg, size) = s.received
  | _ => True

/-- What the thread may rely on. -/
structure Integrity (s : Notification) : Prop where
  order : s.acted <+: s.accepted
  partition : ∃ msgs frees, (msgs ++ frees ++ s.stage.hand).Perm (slots msg rxMqMsgs) ∧
    Linked s.q.mem s.q.head msgs 0 ∧ Linked s.q.mem s.q.free frees 0
  stable : Stable msg s

/-- The address of a device is not null and lies outside the pool. -/
def Device (dev : Nat) : Prop := dev ≠ 0 ∧ dev ∉ slots msg rxMqMsgs

end

theorem slots_succ (msg n : Nat) : slots msg (n + 1) = slots msg n ++ [msg + n * slotWords] := by
  rw [slots, List.range_succ, List.map_append, List.map_singleton, slots]

theorem mem_slots {msg n a : Nat} : a ∈ slots msg n ↔ ∃ k < n, a = msg + k * 3 := by
  simp only [slots, List.mem_map, List.mem_range, slotWords]
  constructor
  · rintro ⟨k, inside, rfl⟩
    exact ⟨k, inside, rfl⟩
  · rintro ⟨k, inside, rfl⟩
    exact ⟨k, inside, rfl⟩

theorem spaced_slots {msg : Nat} (valid : msg ≠ 0) (n : Nat) : Spaced (slots msg n) where
  nodup := by
    apply List.Nodup.map _ List.nodup_range
    intro a b same
    simp only [slotWords] at same
    omega
  valid := by
    intro a member
    obtain ⟨k, _, rfl⟩ := mem_slots.mp member
    omega
  apart := by
    intro a left b right other
    obtain ⟨j, _, rfl⟩ := mem_slots.mp left
    obtain ⟨k, _, rfl⟩ := mem_slots.mp right
    omega

/-- `rt_mq_init` leaves all slots free, the last one first. -/
theorem linked_initFree (mem : Words) (msg n : Nat) :
    Linked (initFree mem msg n).1 (initFree mem msg n).2 (slots msg n).reverse 0 := by
  induction n with
  | zero => rfl
  | succ n ih =>
      rw [slots_succ, List.reverse_append, List.reverse_singleton, List.singleton_append]
      refine ⟨rfl, ?_⟩
      show Linked (write (initFree mem msg n).1 (msg + n * slotWords) (initFree mem msg n).2)
        (write (initFree mem msg n).1 (msg + n * slotWords) (initFree mem msg n).2
          (msg + n * slotWords)) _ 0
      rw [write_same]
      apply ih.congr
      intro a member
      apply write_other
      obtain ⟨k, inside, rfl⟩ := mem_slots.mp (List.mem_reverse.mp member)
      simp only [slotWords]
      omega

theorem slots_cons (msg n : Nat) : slots msg (n + 1) = msg :: slots (msg + 3) n := by
  rw [slots, List.range_succ_eq_map, List.map_cons, List.map_map, slots]
  congr 1
  apply List.map_congr_left
  intro k _
  simp only [Function.comp_apply, slotWords]
  omega

theorem send_cases {msg dev size : Nat} {s t : Notification}
    (taken : notifyStep msg (.send dev size) s = some t) :
    (rtMqSend s.q dev size = none ∧ t = s) ∨
    ∃ q, rtMqSend s.q dev size = some q ∧
      t = { s with q := q, accepted := s.accepted ++ [(dev, size)] } := by
  rw [notifyStep] at taken
  split at taken
  · rename_i full
    exact .inl ⟨full, (Option.some.inj taken).symm⟩
  · rename_i q sends
    exact .inr ⟨q, sends, (Option.some.inj taken).symm⟩

theorem receive_taken {msg : Nat} {s t : Notification}
    (taken : notifyStep msg .receive s = some t) :
    ∃ slot q, s.stage = .waiting ∧ rtMqTake s.q = some (slot, q) ∧
      t = { s with q := q, stage := .copyDev slot } := by
  rw [notifyStep] at taken
  split at taken
  · rename_i slot q waiting takes
    exact ⟨slot, q, waiting, takes, (Option.some.inj taken).symm⟩
  · cases taken

theorem copyDev_taken {msg : Nat} {s t : Notification}
    (taken : notifyStep msg .copyDev s = some t) :
    ∃ slot, s.stage = .copyDev slot ∧ t = { s with
      q := { s.q with mem := write s.q.mem msg (s.q.mem (slot + 1)) }
      stage := .copySize slot } := by
  rw [notifyStep] at taken
  split at taken
  · rename_i slot stage
    exact ⟨slot, stage, (Option.some.inj taken).symm⟩
  · cases taken

theorem copySize_taken {msg : Nat} {s t : Notification}
    (taken : notifyStep msg .copySize s = some t) :
    ∃ slot, s.stage = .copySize slot ∧ t = { s with
      q := { s.q with mem := write s.q.mem (msg + 1) (s.q.mem (slot + 2)) }
      stage := .releasing slot } := by
  rw [notifyStep] at taken
  split at taken
  · rename_i slot stage
    exact ⟨slot, stage, (Option.some.inj taken).symm⟩
  · cases taken

theorem release_taken {msg : Nat} {s t : Notification}
    (taken : notifyStep msg .release s = some t) :
    ∃ slot, s.stage = .releasing slot ∧ t = { s with
      q := rtMqRelease s.q slot
      stage := .useSize
      received := pairInMsg msg (rtMqRelease s.q slot).mem } := by
  rw [notifyStep] at taken
  split at taken
  · rename_i slot stage
    exact ⟨slot, stage, (Option.some.inj taken).symm⟩
  · cases taken

theorem useSize_taken {msg : Nat} {s t : Notification}
    (taken : notifyStep msg .useSize s = some t) :
    s.stage = .useSize ∧ t = { s with stage := .useDev (s.q.mem (msg + 1)) } := by
  rw [notifyStep] at taken
  split at taken
  · rename_i stage
    exact ⟨stage, (Option.some.inj taken).symm⟩
  · cases taken

theorem useDev_taken {msg : Nat} {s t : Notification}
    (taken : notifyStep msg .useDev s = some t) :
    ∃ size, s.stage = .useDev size ∧
      t = { s with stage := .waiting, acted := s.acted ++ [(s.q.mem msg, size)] } := by
  rw [notifyStep] at taken
  split at taken
  · rename_i size stage
    exact ⟨size, stage, (Option.some.inj taken).symm⟩
  · cases taken

section

variable {pool : List Nat} {stop : Nat} {hand msgs frees : List Nat}

theorem send_full {dev size : Nat} {msg : Nat} {s t : Notification}
    (lists : Lists pool 0 s.q hand msgs []) (taken : notifyStep msg (.send dev size) s = some t) :
    t = s := by
  have free : s.q.free = 0 := lists.unused
  have full : rtMqSend s.q dev size = none := by rw [rtMqSend, if_pos free]
  obtain ⟨_, same⟩ | ⟨q, sends, _⟩ := send_cases taken
  · exact same
  · rw [full] at sends
    cases sends

theorem send_lists {msg dev size a : Nat} {s t : Notification} (spaced : Spaced pool)
    (lists : Lists pool stop s.q hand msgs (a :: frees))
    (taken : notifyStep msg (.send dev size) s = some t) :
    t = { s with q := sent s.q a dev size, accepted := s.accepted ++ [(dev, size)] } ∧
      Lists pool stop (sent s.q a dev size) hand (msgs ++ [a]) frees := by
  obtain ⟨sends, after⟩ := lists.send spaced dev size
  obtain ⟨full, _⟩ | ⟨q, sends', same⟩ := send_cases taken
  · rw [sends] at full
    cases full
  · rw [sends] at sends'
    obtain rfl := Option.some.inj sends'
    exact ⟨same, after⟩

theorem receive_lists {q left : MessageQueue} {slot : Nat} (spaced : Spaced pool)
    (lists : Lists pool stop q [] msgs frees) (takes : rtMqTake q = some (slot, left)) :
    ∃ rest, msgs = slot :: rest ∧ left.mem = q.mem ∧ Lists pool stop left [slot] rest frees := by
  cases msgs with
  | nil =>
      rw [lists.take_none] at takes
      cases takes
  | cons first rest =>
      obtain ⟨after, takes', mem, next⟩ := lists.take spaced
      rw [takes] at takes'
      obtain ⟨rfl, rfl⟩ := Prod.mk.inj (Option.some.inj takes')
      exact ⟨rest, rfl, mem, next⟩

end

/-- No word has been copied yet. The slots have only moved from the front of
the free list to the back of the message list, and from its front into the
hand of the thread. -/
structure Untouched (msg : Nat) (s : Notification) (msgs frees : List Nat) : Prop where
  lists : Lists (slots msg rxMqMsgs) 0 s.q s.stage.hand msgs frees
  order : s.stage.hand ++ msgs ++ frees = (slots msg rxMqMsgs).reverse
  pairs : (s.stage.hand ++ msgs).map (payload s.q.mem) = s.accepted
  acted : s.acted = []
  stage : s.stage = .waiting ∨ ∃ slot, s.stage = .copyDev slot
  devices : ∀ pair ∈ s.accepted, Device msg pair.1

theorem Untouched.integrity {msg : Nat} {s : Notification} {msgs frees : List Nat}
    (inv : Untouched msg s msgs frees) : Integrity msg s := by
  refine ⟨by rw [inv.acted]; exact List.nil_prefix, ?_, ?_⟩
  · exact ⟨msgs, frees, inv.lists.share, inv.lists.messages, inv.lists.unused⟩
  · rcases inv.stage with waiting | ⟨slot, copying⟩
    · rw [Stable, waiting]
      trivial
    · rw [Stable, copying]
      trivial

theorem untouched_start {msg : Nat} (mem : Words) :
    Untouched msg (notifyStart msg mem) [] (slots msg rxMqMsgs).reverse where
  lists := ⟨by
    simp only [notifyStart, Stage.hand, List.nil_append, List.append_nil]
    exact List.reverse_perm _, rfl, linked_initFree mem msg rxMqMsgs, rfl, rfl⟩
  order := rfl
  pairs := rfl
  acted := rfl
  stage := .inl rfl
  devices := fun _ member => (List.not_mem_nil member).elim

theorem Untouched.send {msg dev size : Nat} (valid : msg ≠ 0) {s t : Notification}
    {msgs frees : List Nat} (inv : Untouched msg s msgs frees) (device : Device msg dev)
    (taken : notifyStep msg (.send dev size) s = some t) :
    ∃ msgs frees, Untouched msg t msgs frees := by
  have spaced := spaced_slots valid rxMqMsgs
  cases frees with
  | nil =>
      rw [send_full inv.lists taken]
      exact ⟨msgs, [], inv⟩
  | cons a frees =>
      obtain ⟨rfl, lists⟩ := send_lists spaced inv.lists taken
      refine ⟨msgs ++ [a], frees, lists, ?_, ?_, inv.acted, inv.stage, ?_⟩
      · rw [← inv.order]
        simp only [List.append_assoc, List.singleton_append]
      · show (s.stage.hand ++ (msgs ++ [a])).map _ = s.accepted ++ [(dev, size)]
        rw [← inv.pairs, ← List.append_assoc, List.map_append, List.map_singleton,
          inv.lists.payload_sent spaced]
        congr 1
        apply List.map_congr_left
        intro b member
        apply inv.lists.payload_kept spaced
        rw [List.mem_append] at member ⊢
        exact member.symm
      · intro pair member
        rcases List.mem_append.mp member with old | new
        · exact inv.devices pair old
        · rw [List.mem_singleton.mp new]
          exact device

theorem Untouched.receive {msg : Nat} (valid : msg ≠ 0) {s t : Notification}
    {msgs frees : List Nat} (inv : Untouched msg s msgs frees)
    (taken : notifyStep msg .receive s = some t) : ∃ msgs frees, Untouched msg t msgs frees := by
  obtain ⟨slot, q, waiting, takes, rfl⟩ := receive_taken taken
  obtain ⟨lists, order, pairs, acted, _, devices⟩ := inv
  rw [waiting] at lists order pairs
  obtain ⟨rest, rfl, mem, next⟩ := receive_lists (spaced_slots valid rxMqMsgs) lists takes
  refine ⟨rest, frees, next, order, ?_, acted, .inr ⟨slot, rfl⟩, devices⟩
  show ([slot] ++ rest).map (payload q.mem) = s.accepted
  rw [mem]
  exact pairs

theorem Untouched.next {msg : Nat} (valid : msg ≠ 0) {s t : Notification} {msgs frees : List Nat}
    {label : NotifyLabel} (inv : Untouched msg s msgs frees)
    (devices : ∀ dev size, label = .send dev size → Device msg dev)
    (early : label ≠ .copyDev) (taken : notifyStep msg label s = some t) :
    ∃ msgs frees, Untouched msg t msgs frees := by
  have blocked : ∀ stage, s.stage = stage → stage = .waiting ∨ ∃ slot, stage = .copyDev slot := by
    rintro _ rfl
    exact inv.stage
  cases label with
  | send dev size => exact inv.send valid (devices dev size rfl) taken
  | receive => exact inv.receive valid taken
  | copyDev => exact (early rfl).elim
  | copySize =>
      obtain ⟨slot, stage, _⟩ := copySize_taken taken
      rcases blocked _ stage with other | ⟨_, other⟩ <;> cases other
  | release =>
      obtain ⟨slot, stage, _⟩ := release_taken taken
      rcases blocked _ stage with other | ⟨_, other⟩ <;> cases other
  | useSize =>
      obtain ⟨stage, _⟩ := useSize_taken taken
      rcases blocked _ stage with other | ⟨_, other⟩ <;> cases other
  | useDev =>
      obtain ⟨size, stage, _⟩ := useDev_taken taken
      rcases blocked _ stage with other | ⟨_, other⟩ <;> cases other

/-- The first copy puts the address of a device into the link of slot 0. -/
theorem Untouched.copy_breaks {msg : Nat} {s t : Notification} {msgs frees : List Nat}
    (inv : Untouched msg s msgs frees) (taken : notifyStep msg .copyDev s = some t) :
    ¬ Integrity msg t := by
  intro integrity
  obtain ⟨slot, stage, rfl⟩ := copyDev_taken taken
  have order := inv.order
  have pairs := inv.pairs
  rw [stage] at order pairs
  have last : slot = msg + 36 := by
    have head := congrArg List.head? order
    simpa [Stage.hand, slots, rxMqMsgs, slotWords, List.range_succ] using head
  have device : Device msg (s.q.mem (slot + 1)) := by
    apply inv.devices (payload s.q.mem slot)
    rw [← pairs]
    exact List.mem_map_of_mem (by simp [Stage.hand])
  obtain ⟨msgs', frees', share, messages, unused⟩ := integrity.partition
  have zero : msg ∈ msgs' ++ frees' ++ [slot] := by
    apply share.mem_iff.mpr
    rw [show rxMqMsgs = 12 + 1 from rfl, slots_cons]
    exact List.mem_cons_self
  have link : write s.q.mem msg (s.q.mem (slot + 1)) msg = s.q.mem (slot + 1) := write_same _ _ _
  have leads : s.q.mem (slot + 1) ∈ msgs' ++ frees' ++ [slot] ∨ s.q.mem (slot + 1) = 0 := by
    simp only [List.mem_append, List.mem_singleton] at zero ⊢
    rcases zero with (queued | free) | held
    · have next : write s.q.mem msg (s.q.mem (slot + 1)) msg ∈ msgs' ∨
          write s.q.mem msg (s.q.mem (slot + 1)) msg = 0 := messages.next queued
      rw [link] at next
      tauto
    · have next : write s.q.mem msg (s.q.mem (slot + 1)) msg ∈ frees' ∨
          write s.q.mem msg (s.q.mem (slot + 1)) msg = 0 := unused.next free
      rw [link] at next
      tauto
    · omega
  rcases leads with inside | null
  · exact device.2 (share.mem_iff.mp inside)
  · exact device.1 null

theorem untouched_run {msg : Nat} (valid : msg ≠ 0) {labels : List NotifyLabel}
    {s t : Notification} {msgs frees : List Nat} (inv : Untouched msg s msgs frees)
    (devices : ∀ dev size, .send dev size ∈ labels → Device msg dev)
    (early : .copyDev ∉ labels) (taken : run (notifyStep msg) labels s = some t) :
    ∃ msgs frees, Untouched msg t msgs frees := by
  apply run_invariant (fun u => ∃ msgs frees, Untouched msg u msgs frees)
    (fun label _ => label ∈ labels) _ ⟨msgs, frees, inv⟩ taken
  · intro before label after u split _
    rw [split]
    exact List.mem_append_right _ List.mem_cons_self
  · rintro label u v ⟨msgs, frees, kept⟩ member step
    exact kept.next valid (fun dev size same => devices dev size (same ▸ member))
      (fun same => early (same ▸ member)) step

/- As long as no send takes slot 0, the copies to `&msg` hit only words that no
list uses. -/

/-- The pair on its way from the slot to its use. -/
def pairInHand (msg : Nat) (s : Notification) : List (Nat × Nat) :=
  match s.stage with
  | .waiting => []
  | .copyDev slot => [payload s.q.mem slot]
  | .copySize slot => [(s.q.mem msg, s.q.mem (slot + 2))]
  | .releasing _ => [pairInMsg msg s.q.mem]
  | .useSize => [pairInMsg msg s.q.mem]
  | .useDev size => [(s.q.mem msg, size)]

/-- The queue without slot 0: its free list ends where slot 0 begins. -/
structure Sheltered (msg : Nat) (s : Notification) (msgs frees : List Nat) : Prop where
  lists : Lists (slots (msg + 3) 12) msg s.q s.stage.hand msgs frees
  pairs : s.acted ++ pairInHand msg s ++ msgs.map (payload s.q.mem) = s.accepted
  stable : Stable msg s

theorem sheltered_start (msg : Nat) (mem : Words) :
    Sheltered msg (notifyStart msg mem) [] (slots (msg + 3) 12).reverse where
  lists := by
    have all := linked_initFree mem msg rxMqMsgs
    rw [show slots msg rxMqMsgs = msg :: slots (msg + 3) 12 from slots_cons msg 12,
      List.reverse_cons] at all
    refine ⟨?_, rfl, all.front, rfl, rfl⟩
    simp only [notifyStart, Stage.hand, List.nil_append, List.append_nil]
    exact List.reverse_perm _
  pairs := rfl
  stable := trivial

theorem msg_outside {msg b : Nat} (member : b ∈ slots (msg + 3) 12) (k : Nat) (first : k ≤ 2) :
    msg + k < b ∨ b + 2 < msg + k := by
  obtain ⟨j, _, rfl⟩ := mem_slots.mp member
  omega

/-- A write to `&msg` is no write to the sheltered part. -/
theorem Sheltered.write_kept {msg : Nat} {q : MessageQueue} {hand msgs frees : List Nat}
    (lists : Lists (slots (msg + 3) 12) msg q hand msgs frees) (k value : Nat) (first : k ≤ 2) :
    Lists (slots (msg + 3) 12) msg { q with mem := write q.mem (msg + k) value } hand msgs frees ∧
      ∀ b ∈ msgs ++ hand, payload (write q.mem (msg + k) value) b = payload q.mem b := by
  have away : ∀ b ∈ msgs ++ frees ++ hand, ∀ j ≤ 2, b + j ≠ msg + k := by
    intro b member j inside
    have := msg_outside (lists.mem_pool member) k first
    omega
  refine ⟨⟨lists.share, ?_, ?_, lists.tail, lists.entry⟩, ?_⟩
  · apply lists.messages.congr
    intro b member
    exact write_other (away b (by simp [member]) 0 (by decide))
  · apply lists.unused.congr
    intro b member
    exact write_other (away b (by simp [member]) 0 (by decide))
  · intro b member
    have inside : b ∈ msgs ++ frees ++ hand := by
      rcases List.mem_append.mp member with queued | held
      · simp [queued]
      · simp [held]
    rw [payload, write_other (away b inside 1 (by decide)),
      write_other (away b inside 2 (by decide)), payload]

/-- Only `msg` and the words of the slot in hand matter to the pair in hand. -/
theorem pairInHand_congr {msg : Nat} {s t : Notification} (stage : t.stage = s.stage)
    (received : t.received = s.received) (dev : t.q.mem msg = s.q.mem msg)
    (size : t.q.mem (msg + 1) = s.q.mem (msg + 1))
    (held : ∀ b ∈ s.stage.hand, payload t.q.mem b = payload s.q.mem b) :
    pairInHand msg t = pairInHand msg s ∧ (Stable msg s → Stable msg t) := by
  unfold pairInHand Stable pairInMsg
  rw [stage, received]
  cases own : s.stage with
  | waiting => exact ⟨rfl, id⟩
  | copyDev slot =>
      have kept := held slot (by rw [own]; exact List.mem_singleton_self _)
      exact ⟨by simp only [kept], id⟩
  | copySize slot =>
      have kept := held slot (by rw [own]; exact List.mem_singleton_self _)
      exact ⟨by simp only [dev, (Prod.mk.inj kept).2], id⟩
  | releasing slot => exact ⟨by rw [dev, size], id⟩
  | useSize => exact ⟨by rw [dev, size], fun stable => by rw [dev, size]; exact stable⟩
  | useDev n => exact ⟨by rw [dev], fun stable => by rw [dev]; exact stable⟩

theorem Sheltered.send {msg dev size : Nat} {s t : Notification} {msgs frees : List Nat}
    (inv : Sheltered msg s msgs frees) (few : s.q.entry + s.stage.hand.length < 12)
    (taken : notifyStep msg (.send dev size) s = some t) :
    ∃ msgs frees, Sheltered msg t msgs frees := by
  have spaced := spaced_slots (show msg + 3 ≠ 0 by omega) 12
  cases frees with
  | nil =>
      have total := inv.lists.share.length_eq
      have count := inv.lists.entry
      simp only [List.length_append, List.length_nil, slots, List.length_map,
        List.length_range] at total
      omega
  | cons a frees =>
      obtain ⟨rfl, lists⟩ := send_lists spaced inv.lists taken
      have kept : ∀ b ∈ msgs ++ s.stage.hand,
          payload (sent s.q a dev size).mem b = payload s.q.mem b :=
        fun b member => inv.lists.payload_kept spaced dev size member
      have devKept : (sent s.q a dev size).mem msg = s.q.mem msg :=
        inv.lists.outside_kept spaced dev size fun b member => msg_outside member 0 (by decide)
      obtain ⟨same, still⟩ := pairInHand_congr (s := s)
        (t := { s with q := sent s.q a dev size, accepted := s.accepted ++ [(dev, size)] })
        rfl rfl devKept
        (inv.lists.outside_kept spaced dev size fun b member => msg_outside member 1 (by decide))
        (fun b member => kept b (List.mem_append_right _ member))
      refine ⟨msgs ++ [a], frees, lists, ?_, still inv.stable⟩
      rw [same, List.map_append, List.map_singleton, inv.lists.payload_sent spaced,
        List.map_congr_left fun b member => kept b (List.mem_append_left _ member),
        ← List.append_assoc, inv.pairs]

theorem Sheltered.next {msg : Nat} {s t : Notification} {msgs frees : List Nat}
    {label : NotifyLabel} (inv : Sheltered msg s msgs frees)
    (few : ∀ dev size, label = .send dev size → s.q.entry + s.stage.hand.length < 12)
    (taken : notifyStep msg label s = some t) : ∃ msgs frees, Sheltered msg t msgs frees := by
  have spaced := spaced_slots (show msg + 3 ≠ 0 by omega) 12
  obtain ⟨lists, pairs, stable⟩ := inv
  cases label with
  | send dev size => exact Sheltered.send ⟨lists, pairs, stable⟩ (few dev size rfl) taken
  | receive =>
      obtain ⟨slot, q, stage, takes, rfl⟩ := receive_taken taken
      rw [stage] at lists
      obtain ⟨rest, rfl, mem, next⟩ := receive_lists spaced lists takes
      refine ⟨rest, frees, next, ?_, trivial⟩
      rw [← pairs]
      simp only [pairInHand, stage, mem, List.map_cons, List.append_nil, List.append_assoc,
        List.singleton_append]
  | copyDev =>
      obtain ⟨slot, stage, rfl⟩ := copyDev_taken taken
      rw [stage] at lists
      obtain ⟨next, kept⟩ := Sheltered.write_kept lists 0 (s.q.mem (slot + 1)) (by decide)
      rw [Nat.add_zero] at next kept
      have held := Prod.mk.inj (kept slot (by simp [Stage.hand]))
      refine ⟨msgs, frees, next, ?_, trivial⟩
      rw [← pairs]
      simp only [pairInHand, stage, payload]
      rw [write_same, held.2, List.map_congr_left fun b member =>
        kept b (List.mem_append_left _ member)]
  | copySize =>
      obtain ⟨slot, stage, rfl⟩ := copySize_taken taken
      rw [stage] at lists
      obtain ⟨next, kept⟩ := Sheltered.write_kept lists 1 (s.q.mem (slot + 2)) (by decide)
      refine ⟨msgs, frees, next, ?_, trivial⟩
      rw [← pairs]
      simp only [pairInHand, stage, pairInMsg]
      rw [write_same, write_other (by omega), List.map_congr_left fun b member =>
        kept b (List.mem_append_left _ member)]
  | release =>
      obtain ⟨slot, stage, rfl⟩ := release_taken taken
      rw [stage] at lists
      have away := msg_outside (lists.mem_pool (show slot ∈ _ by simp [Stage.hand]))
      have inMsg : pairInMsg msg (rtMqRelease s.q slot).mem = pairInMsg msg s.q.mem := by
        have dev := away 0 (by decide)
        have size := away 1 (by decide)
        show (write _ _ _ _, write _ _ _ _) = _
        rw [write_other (by omega), write_other (by omega), pairInMsg]
      refine ⟨msgs, slot :: frees, lists.release spaced, ?_, rfl⟩
      rw [← pairs]
      simp only [pairInHand, stage, inMsg]
      rw [List.map_congr_left fun b member => lists.payload_release spaced member]
  | useSize =>
      obtain ⟨stage, rfl⟩ := useSize_taken taken
      simp only [pairInHand, Stable, stage] at lists pairs stable
      exact ⟨msgs, frees, lists, pairs, stable⟩
  | useDev =>
      obtain ⟨size, stage, rfl⟩ := useDev_taken taken
      simp only [pairInHand, stage] at lists pairs
      refine ⟨msgs, frees, lists, ?_, trivial⟩
      simp only [pairInHand, List.append_nil]
      exact pairs

/-- At every send of the run fewer than twelve messages are queued or in hand,
so that the send does not take slot 0. -/
def LeavesSlotZero (msg : Nat) (mem : Words) (labels : List NotifyLabel) : Prop :=
  ∀ before dev size after s, labels = before ++ .send dev size :: after →
    run (notifyStep msg) before (notifyStart msg mem) = some s →
    s.q.entry + s.stage.hand.length < 12

theorem sheltered_run {msg : Nat} {labels : List NotifyLabel} {s t : Notification}
    {msgs frees : List Nat} (inv : Sheltered msg s msgs frees)
    (few : ∀ before dev size after u, labels = before ++ .send dev size :: after →
      run (notifyStep msg) before s = some u → u.q.entry + u.stage.hand.length < 12)
    (taken : run (notifyStep msg) labels s = some t) :
    ∃ msgs frees, Sheltered msg t msgs frees := by
  apply run_invariant (fun u => ∃ msgs frees, Sheltered msg u msgs frees)
    (fun label u => ∀ dev size, label = .send dev size → u.q.entry + u.stage.hand.length < 12)
    _ ⟨msgs, frees, inv⟩ taken
  · intro before label after u split reached dev size same
    exact few before dev size after u (by rw [split, same]) reached
  · rintro label u v ⟨msgs, frees, kept⟩ room step
    exact kept.next room step

theorem Sheltered.order_stable {msg : Nat} {s : Notification} {msgs frees : List Nat}
    (inv : Sheltered msg s msgs frees) : s.acted <+: s.accepted ∧ Stable msg s := by
  refine ⟨⟨pairInHand msg s ++ msgs.map (payload s.q.mem), ?_⟩, inv.stable⟩
  rw [← List.append_assoc]
  exact inv.pairs

/-- The integrity of the queue lasts exactly until the first message is copied
to `&msg`, which is the link of slot 0. What then remains, as long as no send
takes slot 0, is the order of the pairs and their stability. -/
theorem rx_mq_integrity (msg : Nat) (valid : msg ≠ 0) (mem : Words) (labels : List NotifyLabel)
    (t : Notification) (devices : ∀ dev size, .send dev size ∈ labels → Device msg dev)
    (taken : run (notifyStep msg) labels (notifyStart msg mem) = some t) :
    ((∀ before after s, labels = before ++ after →
        run (notifyStep msg) before (notifyStart msg mem) = some s → Integrity msg s) ↔
      .copyDev ∉ labels) ∧
    (LeavesSlotZero msg mem labels → ∀ before after s, labels = before ++ after →
      run (notifyStep msg) before (notifyStart msg mem) = some s →
      s.acted <+: s.accepted ∧ Stable msg s) := by
  refine ⟨⟨?_, ?_⟩, ?_⟩
  · intro kept copied
    obtain ⟨before, after, split, fresh⟩ := List.eq_append_cons_of_mem copied
    rw [split, run_append] at taken
    obtain ⟨s, reached, rest⟩ := Option.bind_eq_some_iff.mp taken
    rw [run_cons] at rest
    obtain ⟨u, copies, _⟩ := Option.bind_eq_some_iff.mp rest
    obtain ⟨msgs, frees, inv⟩ := untouched_run valid (untouched_start mem)
      (fun dev size member => devices dev size (by rw [split]; exact List.mem_append_left _ member))
      fresh reached
    apply inv.copy_breaks copies
    apply kept (before ++ [.copyDev]) after u
    · rw [split, List.append_assoc, List.singleton_append]
    · rw [run_append, reached, Option.bind_some, run_singleton, copies]
  · intro early before after s split reached
    rw [split, List.mem_append, not_or] at early
    obtain ⟨msgs, frees, inv⟩ := untouched_run valid (untouched_start mem)
      (fun dev size member => devices dev size (by rw [split]; exact List.mem_append_left _ member))
      early.1 reached
    exact inv.integrity
  · intro few before after s split reached
    obtain ⟨msgs, frees, inv⟩ := sheltered_run (sheltered_start msg mem) (by
      intro first dev size rest u inner prior
      apply few first dev size (rest ++ after) u _ prior
      rw [split, inner, List.append_assoc, List.cons_append]) reached
    exact inv.order_stable

/-- One message from its receive to its use. -/
def handleMessage : List NotifyLabel :=
  [.receive, .copyDev, .copySize, .release, .useSize, .useDev]

theorem one_message_integrity :
    Device 1 1000 ∧
      ¬ ∀ before after s, .send 1000 4 :: handleMessage = before ++ after →
        run (notifyStep 1) before (notifyStart 1 fun _ => 0) = some s → Integrity 1 s := by
  have device : Device 1 1000 := ⟨by decide, by decide⟩
  have runs : (run (notifyStep 1) (.send 1000 4 :: handleMessage)
      (notifyStart 1 fun _ => 0)).isSome = true := by decide +kernel
  obtain ⟨t, taken⟩ := Option.isSome_iff_exists.mp runs
  refine ⟨device, fun kept => (rx_mq_integrity 1 (by decide) (fun _ => 0)
    (.send 1000 4 :: handleMessage) t ?_ taken).1.mp kept (by decide)⟩
  intro dev size member
  simp only [handleMessage, List.mem_cons, NotifyLabel.send.injEq, reduceCtorEq, List.not_mem_nil,
    or_self, or_false] at member
  rw [member.1]
  exact device

/-- Thirteen messages with the sizes 1 to 13 before the first receive: where
the device of the last one should be, the thread finds the link of slot 0. -/
theorem full_queue_corrupts :
    Device 1 1000 ∧ ∃ t, run (notifyStep 1)
      ((List.range 13).map (fun k => .send 1000 (k + 1)) ++
        (List.replicate 13 handleMessage).flatten) (notifyStart 1 fun _ => 0) = some t ∧
      t.accepted.getLast? = some (1000, 13) ∧ t.acted.getLast? = some (4, 13) ∧
      ¬ Integrity 1 t := by
  refine ⟨⟨by decide, by decide⟩, ?_⟩
  have facts : (run (notifyStep 1) ((List.range 13).map (fun k => .send 1000 (k + 1)) ++
      (List.replicate 13 handleMessage).flatten) (notifyStart 1 fun _ => 0)).map
      (fun t => (t.accepted.getLast?, t.acted.getLast?, decide (t.acted <+: t.accepted))) =
      some (some (1000, 13), some (4, 13), false) := by decide +kernel
  obtain ⟨t, taken, all⟩ := Option.map_eq_some_iff.mp facts
  simp only [Prod.mk.injEq, decide_eq_false_iff_not] at all
  obtain ⟨accepted, acted, unordered⟩ := all
  exact ⟨t, taken, accepted, acted, fun integrity => unordered integrity.order⟩

end KyokaMirror.Esp32
