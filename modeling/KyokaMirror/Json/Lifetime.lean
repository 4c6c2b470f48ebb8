import KyokaMirror.Json.Service

set_option autoImplicit false

namespace KyokaMirror.Json

open Users
open Esp32 (Globals addUser)
open RtThread (Mailbox)
open Library.Transition

theorem bufferAfter_append (b : Memory) (first second : List Output) :
    bufferAfter b (first ++ second) = bufferAfter (bufferAfter b first) second := by
  induction first generalizing b with
  | nil => rfl
  | cons output rest ih =>
      cases output with
      | store c => exact ih c
      | add => exact ih b
      | publish => exact ih b

theorem esp32Step_cases {s t : Service} (taken : esp32Step s = some t) :
    (∃ b rest, s.sender = .idle ∧ s.script = .store b :: rest ∧
      t = { s with script := rest, appBuffer := b }) ∨
    (∃ rest, s.sender = .idle ∧ s.script = .add :: rest ∧
      t = { s with script := rest, glob := addUser s.glob }) ∨
    (∃ rest, s.sender = .idle ∧ s.script = .publish :: rest ∧
      t = { s with script := rest, sender := .sendFrame }) ∨
    (s.sender = .sendFrame ∧ t = { sendMail s (.appBuffer s.published) with sender := .sendOver }) ∨
    (s.sender = .sendOver ∧
      t = { sendMail s (.jsonMbStr s.published) with
        sender := .idle, published := s.published + 1 }) := by
  unfold esp32Step at taken
  split at taken
  · rename_i idle
    split at taken
    · cases taken
    · rename_i b rest script
      exact .inl ⟨b, rest, idle, script, (Option.some.inj taken).symm⟩
    · rename_i rest script
      exact .inr (.inl ⟨rest, idle, script, (Option.some.inj taken).symm⟩)
    · rename_i rest script
      exact .inr (.inr (.inl ⟨rest, idle, script, (Option.some.inj taken).symm⟩))
  · rename_i sending
    exact .inr (.inr (.inr (.inl ⟨sending, (Option.some.inj taken).symm⟩)))
  · rename_i sending
    exact .inr (.inr (.inr (.inr ⟨sending, (Option.some.inj taken).symm⟩)))

theorem sendMail_of_attached {s : Service} (attached : s.mailbox.attached = true) (mail : Mail) :
    sendMail s mail = { s with mailbox := (s.mailbox.enter mail).1 } := by
  rw [sendMail, Mailbox.rtMbSend, if_pos attached]

theorem sendMail_of_detached {s : Service} (detached : s.mailbox.attached = false) (mail : Mail) :
    sendMail s mail = { s with misused := true } := by
  rw [sendMail, Mailbox.rtMbSend, if_neg (by rw [detached]; decide)]

theorem esp32Step_detached (s : Service) (sending : s.sender = .sendFrame)
    (detached : s.mailbox.attached = false) :
    esp32Step s = some { s with sender := .sendOver, misused := true } := by
  simp only [esp32Step, sending, sendMail_of_detached detached]

/-- What a send can change: the mailbox, or the flag. -/
theorem sendMail_frame (s : Service) (mail : Mail) :
    (sendMail s mail).script = s.script ∧ (sendMail s mail).appBuffer = s.appBuffer ∧
      (sendMail s mail).published = s.published ∧ (sendMail s mail).entries = s.entries ∧
      (sendMail s mail).jsonStates = s.jsonStates ∧ (sendMail s mail).handled = s.handled ∧
      (sendMail s mail).mailbox.attached = s.mailbox.attached := by
  cases attached : s.mailbox.attached with
  | true =>
      rw [sendMail_of_attached attached]
      exact ⟨rfl, rfl, rfl, rfl, rfl, rfl, by rw [Mailbox.attached_enter, attached]⟩
  | false =>
      rw [sendMail_of_detached attached]
      exact ⟨rfl, rfl, rfl, rfl, rfl, rfl, attached⟩

/-- Neither mail of the first frame has been received. -/
structure Unreceived (s : Service) : Prop where
  unsent : s.published = 0 → s.sender ≠ .sendOver → s.mailbox.contents = []
  between : s.published = 0 → s.sender = .sendOver → s.mailbox.contents = [.appBuffer 0]
  sent : 1 ≤ s.published → [.appBuffer 0, .jsonMbStr 0] <+: s.mailbox.contents

/-- The first frame has been received, its `over` has not. -/
structure OverPending (s : Service) : Prop where
  started : 1 ≤ s.published ∨ s.sender = .sendOver
  between : s.published = 0 → s.mailbox.contents = []
  sent : 1 ≤ s.published → [.jsonMbStr 0] <+: s.mailbox.contents

theorem enter_prefix {mb : Mailbox Mail 64} {lead : List Mail} (held : lead <+: mb.contents)
    (mail : Mail) : lead <+: (mb.enter mail).1.contents := by
  rw [Mailbox.contents_enter]
  split
  · exact held.trans (List.prefix_append _ _)
  · exact held

theorem contents_enter_short {mb : Mailbox Mail 64} {held : List Mail} (is : mb.contents = held)
    (short : held.length < 64) (mail : Mail) : (mb.enter mail).1.contents = held ++ [mail] := by
  rw [Mailbox.contents_enter, is, if_pos short]

theorem Unreceived.esp32 {s t : Service} (taken : esp32Step s = some t)
    (attached : s.mailbox.attached = true) (mails : Unreceived s) : Unreceived t := by
  obtain ⟨b, rest, idle, _, rfl⟩ | ⟨rest, idle, _, rfl⟩ | ⟨rest, idle, _, rfl⟩ |
    ⟨sending, rfl⟩ | ⟨sending, rfl⟩ := esp32Step_cases taken
  · exact ⟨mails.unsent, mails.between, mails.sent⟩
  · exact ⟨mails.unsent, mails.between, mails.sent⟩
  · refine ⟨fun unposted _ => mails.unsent unposted (by rw [idle]; decide), ?_, mails.sent⟩
    intro _ impossible
    cases impossible
  · rw [sendMail_of_attached attached]
    refine ⟨fun _ other => (other rfl).elim, ?_, ?_⟩
    · intro unposted _
      have empty := mails.unsent unposted (by rw [sending]; decide)
      show (s.mailbox.enter (.appBuffer s.published)).1.contents = [.appBuffer 0]
      rw [contents_enter_short empty (by decide), unposted, List.nil_append]
    · intro posted
      exact enter_prefix (mails.sent posted) _
  · rw [sendMail_of_attached attached]
    refine ⟨fun unposted => (Nat.succ_ne_zero _ unposted).elim,
      fun unposted => (Nat.succ_ne_zero _ unposted).elim, ?_⟩
    intro _
    show _ <+: (s.mailbox.enter (.jsonMbStr s.published)).1.contents
    by_cases unposted : s.published = 0
    · rw [contents_enter_short (mails.between unposted sending) (by decide), unposted]
      exact List.prefix_refl _
    · exact enter_prefix (mails.sent (Nat.pos_of_ne_zero unposted)) _

theorem OverPending.esp32 {s t : Service} (taken : esp32Step s = some t)
    (attached : s.mailbox.attached = true) (mails : OverPending s) : OverPending t := by
  obtain ⟨b, rest, idle, _, rfl⟩ | ⟨rest, idle, _, rfl⟩ | ⟨rest, idle, _, rfl⟩ |
    ⟨sending, rfl⟩ | ⟨sending, rfl⟩ := esp32Step_cases taken
  · exact ⟨mails.started, mails.between, mails.sent⟩
  · exact ⟨mails.started, mails.between, mails.sent⟩
  · have posted : 1 ≤ s.published := mails.started.resolve_right (by rw [idle]; decide)
    exact ⟨.inl posted, mails.between, mails.sent⟩
  · have posted : 1 ≤ s.published := mails.started.resolve_right (by rw [sending]; decide)
    rw [sendMail_of_attached attached]
    refine ⟨.inl posted, ?_, fun _ => enter_prefix (mails.sent posted) _⟩
    intro unposted
    exact absurd posted (by rw [show s.published = 0 from unposted]; decide)
  · rw [sendMail_of_attached attached]
    refine ⟨.inl (Nat.succ_pos _), fun unposted => (Nat.succ_ne_zero _ unposted).elim, ?_⟩
    intro _
    show _ <+: (s.mailbox.enter (.jsonMbStr s.published)).1.contents
    by_cases unposted : s.published = 0
    · rw [contents_enter_short (mails.between unposted) (by decide), unposted]
      exact List.prefix_refl _
    · exact enter_prefix (mails.sent (Nat.pos_of_ne_zero unposted)) _

section

variable (jsmnParse : Memory → Parsed) (script : List Output) (appBuffer : Memory)

/-- The part of the script that has been carried out. A publication under way
is its last output. -/
structure History (s : Service) (done : List Output) : Prop where
  split : script = done ++ s.script
  buffer : s.appBuffer = bufferAfter appBuffer done
  published : 1 ≤ s.published → .publish ∈ done
  sending : s.sender ≠ .idle →
    ∃ front, done = front ++ [.publish] ∧ (1 ≤ s.published → .publish ∈ front)

/-- At some moment between two publications `app_buffer` held a text that the
parser accepts. -/
def Exposed : Prop :=
  ∃ before after, script = before ++ after ∧ .publish ∈ before ∧ .publish ∈ after ∧
    (jsmnParse (bufferAfter appBuffer before)).accepted = true

/-- The parser has accepted `app_buffer` after the first publication began. -/
def Seen (s : Service) : Prop :=
  ∃ before since, script = before ++ (since ++ s.script) ∧ .publish ∈ before ∧
    (jsmnParse (bufferAfter appBuffer before)).accepted = true ∧
    (1 ≤ s.published → s.sender ≠ .idle → .publish ∈ since)

variable {jsmnParse script appBuffer}

theorem History.esp32 {s t : Service} {done : List Output} (taken : esp32Step s = some t)
    (history : History script appBuffer s done) : ∃ more, History script appBuffer t more := by
  obtain ⟨b, rest, idle, left, rfl⟩ | ⟨rest, idle, left, rfl⟩ | ⟨rest, idle, left, rfl⟩ |
    ⟨sending, rfl⟩ | ⟨sending, rfl⟩ := esp32Step_cases taken
  · refine ⟨done ++ [.store b], ?_, ?_, ?_, fun busy => (busy idle).elim⟩
    · rw [history.split, left, List.append_assoc, List.singleton_append]
    · rw [bufferAfter_append]
      rfl
    · exact fun posted => List.mem_append_left _ (history.published posted)
  · refine ⟨done ++ [.add], ?_, ?_, ?_, fun busy => (busy idle).elim⟩
    · rw [history.split, left, List.append_assoc, List.singleton_append]
    · rw [bufferAfter_append]
      exact history.buffer
    · exact fun posted => List.mem_append_left _ (history.published posted)
  · refine ⟨done ++ [.publish], ?_, ?_, ?_, fun _ => ⟨done, rfl, history.published⟩⟩
    · rw [history.split, left, List.append_assoc, List.singleton_append]
    · rw [bufferAfter_append]
      exact history.buffer
    · exact fun posted => List.mem_append_left _ (history.published posted)
  · obtain ⟨same, buffer, published, _⟩ := sendMail_frame s (.appBuffer s.published)
    refine ⟨done, ?_, ?_, ?_, ?_⟩
    · rw [same]
      exact history.split
    · exact buffer.trans history.buffer
    · rw [published]
      exact history.published
    · rw [published]
      exact fun _ => history.sending (by rw [sending]; decide)
  · obtain ⟨same, buffer, _⟩ := sendMail_frame s (.jsonMbStr s.published)
    refine ⟨done, ?_, buffer.trans history.buffer, ?_, fun busy => (busy rfl).elim⟩
    · rw [same]
      exact history.split
    · intro _
      obtain ⟨front, rfl, _⟩ := history.sending (by rw [sending]; decide)
      exact List.mem_append_right _ (List.mem_singleton_self _)

/-- The JSON threads leave the esp32 thread and its buffer alone. -/
theorem History.keep {s t : Service} {done : List Output}
    (history : History script appBuffer s done)
    (same : t.script = s.script ∧ t.appBuffer = s.appBuffer ∧ t.published = s.published ∧
      t.sender = s.sender) : History script appBuffer t done := by
  obtain ⟨left, buffer, count, sender⟩ := same
  refine ⟨?_, buffer.trans history.buffer, ?_, ?_⟩
  · rw [left]
    exact history.split
  · rw [count]
    exact history.published
  · rw [count, sender]
    exact history.sending

theorem History.seen {s : Service} {done : List Output}
    (history : History script appBuffer s done) (started : 1 ≤ s.published ∨ s.sender ≠ .idle)
    (accepted : (jsmnParse s.appBuffer).accepted = true) : Seen jsmnParse script appBuffer s := by
  rw [history.buffer] at accepted
  by_cases idle : s.sender = .idle
  · have posted := started.resolve_right (fun busy => busy idle)
    exact ⟨done, [], history.split, history.published posted, accepted,
      fun _ busy => (busy idle).elim⟩
  · obtain ⟨front, ends, posted⟩ := history.sending idle
    by_cases unposted : s.published = 0
    · refine ⟨done, [], history.split, ?_, accepted, ?_⟩
      · rw [ends]
        exact List.mem_append_right _ (List.mem_singleton_self _)
      · intro posted
        rw [unposted] at posted
        exact absurd posted (by decide)
    · -- The publication under way comes after the moment of the parse.
      refine ⟨front, [.publish], ?_, posted (Nat.pos_of_ne_zero unposted), ?_, ?_⟩
      · rw [history.split, ends, List.append_assoc]
      · rw [ends, bufferAfter_append] at accepted
        exact accepted
      · exact fun _ _ => List.mem_singleton_self _

theorem Seen.esp32 {s t : Service} (taken : esp32Step s = some t)
    (seen : Seen jsmnParse script appBuffer s) : Seen jsmnParse script appBuffer t := by
  obtain ⟨before, since, split, published, accepted, busy⟩ := seen
  obtain ⟨b, rest, idle, left, rfl⟩ | ⟨rest, idle, left, rfl⟩ | ⟨rest, idle, left, rfl⟩ |
    ⟨sending, rfl⟩ | ⟨sending, rfl⟩ := esp32Step_cases taken
  · refine ⟨before, since ++ [.store b], ?_, published, accepted, fun _ other => (other idle).elim⟩
    rw [split, left, List.append_assoc, List.singleton_append]
  · refine ⟨before, since ++ [.add], ?_, published, accepted, fun _ other => (other idle).elim⟩
    rw [split, left, List.append_assoc, List.singleton_append]
  · refine ⟨before, since ++ [.publish], ?_, published, accepted, ?_⟩
    · rw [split, left, List.append_assoc, List.singleton_append]
    · exact fun _ _ => List.mem_append_right _ (List.mem_singleton_self _)
  · obtain ⟨same, _, count, _⟩ := sendMail_frame s (.appBuffer s.published)
    refine ⟨before, since, ?_, published, accepted, ?_⟩
    · rw [same]
      exact split
    · rw [count]
      exact fun posted _ => busy posted (by rw [sending]; decide)
  · obtain ⟨same, _⟩ := sendMail_frame s (.jsonMbStr s.published)
    refine ⟨before, since, ?_, published, accepted, fun _ other => (other rfl).elim⟩
    rw [same]
    exact split

theorem Seen.exposed {s : Service} (seen : Seen jsmnParse script appBuffer s)
    (posted : 1 ≤ s.published) (busy : s.sender ≠ .idle) : Exposed jsmnParse script appBuffer := by
  obtain ⟨before, since, split, published, accepted, again⟩ := seen
  exact ⟨before, since ++ s.script, split, published, List.mem_append_left _ (again posted busy),
    accepted⟩

/-- Between an accepted parse and the `over` of the same frame there is exactly
one JSON thread. -/
inductive Stage : List Entry → Nat → Prop
  | storing (parsed : Parsed) : Stage [.storing parsed] 0
  | creating : Stage [.creating] 0
  | respawning : Stage [] 1
  | waiting : Stage [.waiting] 0

variable (jsmnParse script appBuffer)

/-- How far the service can be: only the mails of the first frame are ever
taken from the mailbox, the frame by the first `json_entry` and its `over` by
the second. -/
inductive Phase (s : Service) : Prop
  | first (threads : s.entries = [.waiting] ∧ s.jsonStates = 0)
      (attached : s.mailbox.attached = true) (mails : Unreceived s)
  | parsing (threads : s.entries = [.parsing 0] ∧ s.jsonStates = 0)
      (attached : s.mailbox.attached = true) (mails : OverPending s)
  | serving (stage : Stage s.entries s.jsonStates) (attached : s.mailbox.attached = true)
      (mails : OverPending s) (seen : Seen jsmnParse script appBuffer s)
  | leaving (threads : s.entries = [.leaving] ∧ s.jsonStates = 0)
      (attached : s.mailbox.attached = true) (posted : 1 ≤ s.published)
      (seen : Seen jsmnParse script appBuffer s)
  | detached (threads : s.entries = [] ∧ s.jsonStates = 0)
      (detached : s.mailbox.attached = false) (posted : 1 ≤ s.published)
      (seen : Seen jsmnParse script appBuffer s)
  | stopped (threads : s.entries = [] ∧ s.jsonStates = 0) (attached : s.mailbox.attached = true)

structure Inv (s : Service) : Prop where
  history : ∃ done, History script appBuffer s done
  phase : Phase jsmnParse script appBuffer s
  misuse : s.misused = true → Exposed jsmnParse script appBuffer

variable {jsmnParse script appBuffer}

theorem esp32Step_frame {s t : Service} (taken : esp32Step s = some t) :
    t.entries = s.entries ∧ t.jsonStates = s.jsonStates ∧ t.handled = s.handled ∧
      t.mailbox.attached = s.mailbox.attached ∧ s.published ≤ t.published := by
  obtain ⟨b, rest, _, _, rfl⟩ | ⟨rest, _, _, rfl⟩ | ⟨rest, _, _, rfl⟩ | ⟨_, rfl⟩ | ⟨_, rfl⟩ :=
    esp32Step_cases taken
  · exact ⟨rfl, rfl, rfl, rfl, Nat.le_refl _⟩
  · exact ⟨rfl, rfl, rfl, rfl, Nat.le_refl _⟩
  · exact ⟨rfl, rfl, rfl, rfl, Nat.le_refl _⟩
  · obtain ⟨_, _, count, entries, states, handled, attached⟩ :=
      sendMail_frame s (.appBuffer s.published)
    exact ⟨entries, states, handled, attached, Nat.le_of_eq count.symm⟩
  · obtain ⟨_, _, _, entries, states, handled, attached⟩ :=
      sendMail_frame s (.jsonMbStr s.published)
    exact ⟨entries, states, handled, attached, Nat.le_succ _⟩

theorem Phase.esp32 {s t : Service} (taken : esp32Step s = some t)
    (phase : Phase jsmnParse script appBuffer s) : Phase jsmnParse script appBuffer t := by
  obtain ⟨entries, states, _, kept, count⟩ := esp32Step_frame taken
  cases phase with
  | first threads attached mails =>
      exact .first (by rwa [entries, states]) (kept.trans attached) (mails.esp32 taken attached)
  | parsing threads attached mails =>
      exact .parsing (by rwa [entries, states]) (kept.trans attached) (mails.esp32 taken attached)
  | serving stage attached mails seen =>
      exact .serving (by rwa [entries, states]) (kept.trans attached) (mails.esp32 taken attached)
        (seen.esp32 taken)
  | leaving threads attached posted seen =>
      exact .leaving (by rwa [entries, states]) (kept.trans attached) (posted.trans count)
        (seen.esp32 taken)
  | detached threads detached posted seen =>
      exact .detached (by rwa [entries, states]) (kept.trans detached) (posted.trans count)
        (seen.esp32 taken)
  | stopped threads attached =>
      exact .stopped (by rwa [entries, states]) (kept.trans attached)

/-- A send meets a detached mailbox only in the phase behind the detach. -/
theorem Phase.misuse_of_send {s : Service} (phase : Phase jsmnParse script appBuffer s)
    (busy : s.sender ≠ .idle) (mail : Mail) (fine : s.misused = false)
    (misused : (sendMail s mail).misused = true) : Exposed jsmnParse script appBuffer := by
  have live : s.mailbox.attached ≠ true := by
    intro attached
    rw [sendMail_of_attached attached] at misused
    rw [show s.misused = true from misused] at fine
    cases fine
  cases phase with
  | first _ attached _ => exact (live attached).elim
  | parsing _ attached _ => exact (live attached).elim
  | serving _ attached _ _ => exact (live attached).elim
  | leaving _ attached _ _ => exact (live attached).elim
  | detached _ _ posted seen => exact seen.exposed posted busy
  | stopped _ attached => exact (live attached).elim

/-- The thread that takes a mail waits no longer. -/
def Mail.taken : Mail → Entry
  | .appBuffer frame => .parsing frame
  | .jsonMbStr _ => .leaving

theorem jsonEntryStep_index {s t : Service} {entry : Entry} {k : Nat} {created : Bool}
    (only : s.entries = [entry]) (taken : jsonEntryStep jsmnParse s k created = some t) :
    k = 0 := by
  cases k with
  | zero => rfl
  | succ k =>
      rw [jsonEntryStep, only] at taken
      cases taken

theorem jsonEntryStep_waiting {s t : Service} {k : Nat} {created : Bool}
    (only : s.entries = [.waiting]) (attached : s.mailbox.attached = true)
    (taken : jsonEntryStep jsmnParse s k created = some t) :
    ∃ mail rest left, s.mailbox.contents = mail :: rest ∧ left.contents = rest ∧
      left.attached = true ∧ t = { s with mailbox := left, entries := [mail.taken] } := by
  obtain rfl := jsonEntryStep_index only taken
  cases held : s.mailbox.contents with
  | nil =>
      simp only [jsonEntryStep, only, List.getElem?_cons_zero, Mailbox.rtMbRecv, attached,
        ↓reduceIte, Mailbox.leave_of_nil held] at taken
      cases taken
  | cons mail rest =>
      obtain ⟨left, leaves, tail, kept⟩ := Mailbox.leave_of_cons held
      refine ⟨mail, rest, left, rfl, tail, kept.trans attached, ?_⟩
      simp only [jsonEntryStep, only, List.getElem?_cons_zero, Mailbox.rtMbRecv, attached,
        ↓reduceIte, leaves, List.set_cons_zero] at taken
      cases mail with
      | appBuffer frame => exact (Option.some.inj taken).symm
      | jsonMbStr frame => exact (Option.some.inj taken).symm

theorem jsonEntryStep_parsing {s t : Service} {k frame : Nat} {created : Bool}
    (only : s.entries = [.parsing frame]) (taken : jsonEntryStep jsmnParse s k created = some t) :
    (jsmnParse s.appBuffer).accepted = true ∧
        t = { s with
          handled := s.handled ++ [frame], entries := [.storing (jsmnParse s.appBuffer)] } ∨
      (jsmnParse s.appBuffer).accepted = false ∧
        t = { s with handled := s.handled ++ [frame], entries := [] } := by
  obtain rfl := jsonEntryStep_index only taken
  simp only [jsonEntryStep, only, List.getElem?_cons_zero, List.set_cons_zero,
    List.eraseIdx_cons_zero] at taken
  split at taken
  · rename_i accepted
    exact .inl ⟨accepted, (Option.some.inj taken).symm⟩
  · rename_i rejected
    exact .inr ⟨Bool.not_eq_true _ ▸ rejected, (Option.some.inj taken).symm⟩

theorem jsonEntryStep_storing {s t : Service} {parsed : Parsed} {k : Nat} {created : Bool}
    (only : s.entries = [.storing parsed]) (taken : jsonEntryStep jsmnParse s k created = some t) :
    t = { s with glob := storeFrame s.appBuffer parsed s.glob, entries := [.creating] } := by
  obtain rfl := jsonEntryStep_index only taken
  simp only [jsonEntryStep, only, List.getElem?_cons_zero, List.set_cons_zero] at taken
  exact (Option.some.inj taken).symm

theorem jsonEntryStep_creating {s t : Service} {k : Nat} {created : Bool}
    (only : s.entries = [.creating]) (taken : jsonEntryStep jsmnParse s k created = some t) :
    t = { s with entries := [], jsonStates := s.jsonStates + if created then 1 else 0 } := by
  obtain rfl := jsonEntryStep_index only taken
  simp only [jsonEntryStep, only, List.getElem?_cons_zero, List.eraseIdx_cons_zero] at taken
  exact (Option.some.inj taken).symm

theorem jsonEntryStep_leaving {s t : Service} {k : Nat} {created : Bool}
    (only : s.entries = [.leaving]) (attached : s.mailbox.attached = true)
    (taken : jsonEntryStep jsmnParse s k created = some t) :
    t = { s with mailbox := s.mailbox.rtMbDetach, entries := [] } := by
  obtain rfl := jsonEntryStep_index only taken
  simp only [jsonEntryStep, only, List.getElem?_cons_zero, List.eraseIdx_cons_zero, attached,
    ↓reduceIte] at taken
  exact (Option.some.inj taken).symm

theorem jsonEntryStep_nil {s : Service} (none : s.entries = []) (k : Nat) (created : Bool) :
    jsonEntryStep jsmnParse s k created = Option.none := by
  rw [jsonEntryStep, none, List.getElem?_nil]

theorem jsonEntryStep_frame {s t : Service} {k : Nat} {created : Bool}
    (taken : jsonEntryStep jsmnParse s k created = some t) :
    t.script = s.script ∧ t.appBuffer = s.appBuffer ∧ t.published = s.published ∧
      t.sender = s.sender := by
  unfold jsonEntryStep at taken
  split at taken
  · cases taken
  · split at taken
    · obtain rfl := Option.some.inj taken
      exact ⟨rfl, rfl, rfl, rfl⟩
    · cases taken
    · obtain rfl := Option.some.inj taken
      exact ⟨rfl, rfl, rfl, rfl⟩
    · obtain rfl := Option.some.inj taken
      exact ⟨rfl, rfl, rfl, rfl⟩
  · dsimp only at taken
    split at taken
    · obtain rfl := Option.some.inj taken
      exact ⟨rfl, rfl, rfl, rfl⟩
    · obtain rfl := Option.some.inj taken
      exact ⟨rfl, rfl, rfl, rfl⟩
  · obtain rfl := Option.some.inj taken
    exact ⟨rfl, rfl, rfl, rfl⟩
  · obtain rfl := Option.some.inj taken
    exact ⟨rfl, rfl, rfl, rfl⟩
  · split at taken
    · obtain rfl := Option.some.inj taken
      exact ⟨rfl, rfl, rfl, rfl⟩
    · obtain rfl := Option.some.inj taken
      exact ⟨rfl, rfl, rfl, rfl⟩

/-- The first receive takes the frame, not its `over`. -/
theorem Unreceived.first {s : Service} {mail : Mail} {rest : List Mail} {left : Mailbox Mail 64}
    (mails : Unreceived s) (held : s.mailbox.contents = mail :: rest) (tail : left.contents = rest)
    (entries : List Entry) :
    mail = .appBuffer 0 ∧ OverPending { s with mailbox := left, entries := entries } := by
  by_cases unposted : s.published = 0
  · by_cases sending : s.sender = .sendOver
    · rw [mails.between unposted sending] at held
      obtain ⟨rfl, rfl⟩ := List.cons.inj held
      refine ⟨rfl, .inr sending, fun _ => tail, ?_⟩
      intro posted
      exact absurd posted (by rw [show s.published = 0 from unposted]; decide)
    · rw [mails.unsent unposted sending] at held
      cases held
  · have posted := Nat.pos_of_ne_zero unposted
    have lead := mails.sent posted
    rw [held, List.cons_prefix_cons] at lead
    refine ⟨lead.1.symm, .inl posted, fun none => (unposted none).elim, ?_⟩
    intro _
    show _ <+: left.contents
    rw [tail]
    exact lead.2

/-- The second receive takes the `over` of the first frame. -/
theorem OverPending.second {s : Service} {mail : Mail} {rest : List Mail}
    (mails : OverPending s) (held : s.mailbox.contents = mail :: rest) :
    mail = .jsonMbStr 0 ∧ 1 ≤ s.published := by
  by_cases unposted : s.published = 0
  · rw [mails.between unposted] at held
    cases held
  · have posted := Nat.pos_of_ne_zero unposted
    have lead := mails.sent posted
    rw [held, List.cons_prefix_cons] at lead
    exact ⟨lead.1.symm, posted⟩

theorem Phase.jsonEntry {s t : Service} {k : Nat} {created : Bool}
    (taken : jsonEntryStep jsmnParse s k created = some t) {done : List Output}
    (history : History script appBuffer s done) (phase : Phase jsmnParse script appBuffer s) :
    Phase jsmnParse script appBuffer t ∧ t.misused = s.misused := by
  cases phase with
  | first threads attached mails =>
      obtain ⟨mail, rest, left, held, tail, kept, rfl⟩ :=
        jsonEntryStep_waiting threads.1 attached taken
      obtain ⟨rfl, pending⟩ := mails.first held tail [.parsing 0]
      exact ⟨.parsing ⟨rfl, threads.2⟩ kept pending, rfl⟩
  | parsing threads attached mails =>
      have started : 1 ≤ s.published ∨ s.sender ≠ .idle := by
        refine mails.started.imp_right ?_
        intro sending
        rw [sending]
        decide
      obtain ⟨accepted, rfl⟩ | ⟨_, rfl⟩ := jsonEntryStep_parsing threads.1 taken
      · refine ⟨.serving ?_ attached ⟨mails.started, mails.between, mails.sent⟩
          (history.seen started accepted), rfl⟩
        rw [threads.2]
        exact .storing _
      · exact ⟨.stopped ⟨rfl, threads.2⟩ attached, rfl⟩
  | serving stage attached mails seen =>
      generalize listed : s.entries = entries at stage
      generalize counted : s.jsonStates = states at stage
      cases stage with
      | storing parsed =>
          obtain rfl := jsonEntryStep_storing listed taken
          refine ⟨.serving ?_ attached ⟨mails.started, mails.between, mails.sent⟩ seen, rfl⟩
          rw [counted]
          exact .creating
      | creating =>
          obtain rfl := jsonEntryStep_creating listed taken
          refine ⟨?_, rfl⟩
          cases created with
          | true =>
              refine .serving ?_ attached ⟨mails.started, mails.between, mails.sent⟩ seen
              rw [counted]
              exact .respawning
          | false => exact .stopped ⟨rfl, counted⟩ attached
      | respawning =>
          rw [jsonEntryStep_nil listed] at taken
          cases taken
      | waiting =>
          obtain ⟨mail, rest, left, held, tail, kept, rfl⟩ :=
            jsonEntryStep_waiting listed attached taken
          obtain ⟨rfl, posted⟩ := mails.second held
          exact ⟨.leaving ⟨rfl, counted⟩ kept posted seen, rfl⟩
  | leaving threads attached posted seen =>
      obtain rfl := jsonEntryStep_leaving threads.1 attached taken
      exact ⟨.detached ⟨rfl, threads.2⟩ rfl posted seen, rfl⟩
  | detached threads _ _ _ =>
      rw [jsonEntryStep_nil threads.1] at taken
      cases taken
  | stopped threads _ =>
      rw [jsonEntryStep_nil threads.1] at taken
      cases taken

theorem jsonStateStep_none {s : Service} (idle : s.jsonStates = 0) (created : Bool) :
    jsonStateStep s created = none := by
  rw [jsonStateStep, if_neg (by omega)]

theorem jsonStateStep_frame {s t : Service} {created : Bool}
    (taken : jsonStateStep s created = some t) :
    (t.script = s.script ∧ t.appBuffer = s.appBuffer ∧ t.published = s.published ∧
      t.sender = s.sender) ∧ t.misused = s.misused := by
  rw [jsonStateStep] at taken
  split at taken
  · obtain rfl := Option.some.inj taken
    exact ⟨⟨rfl, rfl, rfl, rfl⟩, rfl⟩
  · cases taken

theorem Phase.jsonState {s t : Service} {created : Bool}
    (taken : jsonStateStep s created = some t) (phase : Phase jsmnParse script appBuffer s) :
    Phase jsmnParse script appBuffer t := by
  have alive : s.jsonStates ≠ 0 := by
    intro idle
    rw [jsonStateStep_none idle] at taken
    cases taken
  cases phase with
  | first threads _ _ => exact (alive threads.2).elim
  | parsing threads _ _ => exact (alive threads.2).elim
  | serving stage attached mails seen =>
      generalize listed : s.entries = entries at stage
      generalize counted : s.jsonStates = states at stage
      cases stage with
      | storing parsed => exact (alive counted).elim
      | creating => exact (alive counted).elim
      | respawning =>
          rw [jsonStateStep, counted, listed, if_pos Nat.one_pos] at taken
          obtain rfl := Option.some.inj taken
          cases created with
          | true => exact .serving .waiting attached ⟨mails.started, mails.between, mails.sent⟩ seen
          | false => exact .stopped ⟨rfl, rfl⟩ attached
      | waiting => exact (alive counted).elim
  | leaving threads _ _ _ => exact (alive threads.2).elim
  | detached threads _ _ _ => exact (alive threads.2).elim
  | stopped threads _ => exact (alive threads.2).elim

theorem Inv.step {s t : Service} {label : Label} (inv : Inv jsmnParse script appBuffer s)
    (taken : step jsmnParse label s = some t) : Inv jsmnParse script appBuffer t := by
  obtain ⟨⟨done, history⟩, phase, misuse⟩ := inv
  cases label with
  | esp32 =>
      refine ⟨history.esp32 taken, phase.esp32 taken, ?_⟩
      intro misused
      cases fine : s.misused with
      | true => exact misuse fine
      | false =>
          obtain ⟨b, rest, _, _, rfl⟩ | ⟨rest, _, _, rfl⟩ | ⟨rest, _, _, rfl⟩ | ⟨sending, rfl⟩ |
            ⟨sending, rfl⟩ := esp32Step_cases taken
          · exact misuse misused
          · exact misuse misused
          · exact misuse misused
          · exact phase.misuse_of_send (by rw [sending]; decide) _ fine misused
          · exact phase.misuse_of_send (by rw [sending]; decide) _ fine misused
  | jsonEntry k created =>
      obtain ⟨next, same⟩ := phase.jsonEntry taken history
      exact ⟨⟨done, history.keep (jsonEntryStep_frame taken)⟩, next,
        fun misused => misuse (same.symm.trans misused)⟩
  | jsonState created =>
      obtain ⟨kept, same⟩ := jsonStateStep_frame taken
      exact ⟨⟨done, history.keep kept⟩, phase.jsonState taken,
        fun misused => misuse (same.symm.trans misused)⟩

theorem unreceived_start (glob : Globals) (jsonMbPool : Nat → Mail) :
    Unreceived (start script appBuffer glob jsonMbPool) where
  unsent := fun _ _ => rfl
  between := fun _ sending => by cases sending
  sent := fun posted => (Nat.not_succ_le_zero 0 posted).elim

theorem inv_start (glob : Globals) (jsonMbPool : Nat → Mail) :
    Inv jsmnParse script appBuffer (start script appBuffer glob jsonMbPool) where
  history := ⟨[], rfl, rfl, fun posted => (Nat.not_succ_le_zero 0 posted).elim,
    fun busy => (busy rfl).elim⟩
  phase := .first ⟨rfl, rfl⟩ rfl (unreceived_start glob jsonMbPool)
  misuse := fun misused => by cases misused

theorem inv_of_reaches {glob : Globals} {jsonMbPool : Nat → Mail} {s : Service}
    (reached : Reaches (step jsmnParse) (start script appBuffer glob jsonMbPool) s) :
    Inv jsmnParse script appBuffer s :=
  reached.invariant _ (inv_start glob jsonMbPool) fun _ _ _ inv taken => inv.step taken

/-- The esp32 thread on its own. -/
def esp32Alone (_ : Unit) (s : Service) : Option Service := esp32Step s

theorem reaches_of_esp32 {s t : Service} (reached : Reaches esp32Alone s t) :
    Reaches (step jsmnParse) s t :=
  reached.lift fun _ _ _ taken => ⟨.esp32, taken⟩

theorem esp32_frame {s t : Service} (reached : Reaches esp32Alone s t) :
    t.entries = s.entries ∧ t.jsonStates = s.jsonStates ∧
      t.mailbox.attached = s.mailbox.attached ∧ s.published ≤ t.published := by
  apply reached.invariant (fun u => u.entries = s.entries ∧ u.jsonStates = s.jsonStates ∧
    u.mailbox.attached = s.mailbox.attached ∧ s.published ≤ u.published)
    ⟨rfl, rfl, rfl, Nat.le_refl _⟩
  intro _ u v kept taken
  obtain ⟨entries, states, _, attached, count⟩ := esp32Step_frame taken
  exact ⟨entries.trans kept.1, states.trans kept.2.1, attached.trans kept.2.2.1,
    kept.2.2.2.trans count⟩

/-- A publication takes three steps and counts as one. -/
theorem publish_carried_out (s : Service) (rest : List Output) (idle : s.sender = .idle)
    (left : s.script = .publish :: rest) :
    ∃ t, Reaches esp32Alone s t ∧ t.script = rest ∧ t.sender = .idle ∧
      t.appBuffer = s.appBuffer ∧ t.published = s.published + 1 := by
  have begins : esp32Alone () s = some { s with script := rest, sender := .sendFrame } := by
    rw [esp32Alone, esp32Step, idle, left]
  let u : Service := { s with script := rest, sender := .sendFrame }
  have frame : esp32Alone () u =
      some { sendMail u (.appBuffer u.published) with sender := .sendOver } := rfl
  let v : Service := { sendMail u (.appBuffer u.published) with sender := .sendOver }
  have closing : esp32Alone () v =
      some { sendMail v (.jsonMbStr v.published) with
        sender := .idle, published := v.published + 1 } := rfl
  obtain ⟨script₁, buffer₁, count₁, _⟩ := sendMail_frame u (.appBuffer u.published)
  obtain ⟨script₂, buffer₂, count₂, _⟩ := sendMail_frame v (.jsonMbStr v.published)
  refine ⟨_, ((Reaches.single begins).trans (Reaches.single frame)).trans (Reaches.single closing),
    script₂.trans script₁, rfl, buffer₂.trans buffer₁, ?_⟩
  show v.published + 1 = s.published + 1
  rw [show v.published = s.published from count₁]

theorem carried_out (before : List Output) :
    ∀ (s : Service) (after : List Output), s.sender = .idle → s.script = before ++ after →
      ∃ t, Reaches esp32Alone s t ∧ t.script = after ∧ t.sender = .idle ∧
        t.appBuffer = bufferAfter s.appBuffer before ∧
        (.publish ∈ before → 1 ≤ t.published) := by
  induction before with
  | nil =>
      intro s after idle left
      exact ⟨s, Reaches.refl _ s, left, idle, rfl, fun member => (List.not_mem_nil member).elim⟩
  | cons output rest ih =>
      intro s after idle left
      rw [List.cons_append] at left
      cases output with
      | store b =>
          have begins : esp32Alone () s =
              some { s with script := rest ++ after, appBuffer := b } := by
            rw [esp32Alone, esp32Step, idle, left]
          obtain ⟨t, reached, done, quiet, buffer, posted⟩ :=
            ih { s with script := rest ++ after, appBuffer := b } after idle rfl
          refine ⟨t, (Reaches.single begins).trans reached, done, quiet, buffer, ?_⟩
          intro member
          exact posted ((List.mem_cons.mp member).resolve_left (fun same => by cases same))
      | add =>
          have begins : esp32Alone () s =
              some { s with script := rest ++ after, glob := addUser s.glob } := by
            rw [esp32Alone, esp32Step, idle, left]
          obtain ⟨t, reached, done, quiet, buffer, posted⟩ :=
            ih { s with script := rest ++ after, glob := addUser s.glob } after idle rfl
          refine ⟨t, (Reaches.single begins).trans reached, done, quiet, buffer, ?_⟩
          intro member
          exact posted ((List.mem_cons.mp member).resolve_left (fun same => by cases same))
      | publish =>
          obtain ⟨u, first, script, free, kept, count⟩ :=
            publish_carried_out s (rest ++ after) idle left
          obtain ⟨t, reached, done, quiet, buffer, _⟩ := ih u after free script
          refine ⟨t, first.trans reached, done, quiet, ?_, ?_⟩
          · rw [buffer, kept]
            rfl
          · intro _
            have grows := (esp32_frame reached).2.2.2
            omega

theorem unreceived_of_esp32 {s t : Service} (reached : Reaches esp32Alone s t)
    (attached : s.mailbox.attached = true) (mails : Unreceived s) : Unreceived t := by
  apply (reached.invariant (fun u => Unreceived u ∧ u.mailbox.attached = true)
    ⟨mails, attached⟩ ?_).1
  intro _ u v kept taken
  exact ⟨kept.1.esp32 taken kept.2, (esp32Step_frame taken).2.2.2.1.trans kept.2⟩

/-- The JSON threads take both mails of the first frame and detach the mailbox
while the esp32 thread rests. -/
theorem detach_reached {s : Service} (threads : s.entries = [.waiting] ∧ s.jsonStates = 0)
    (attached : s.mailbox.attached = true)
    (mails : [.appBuffer 0, .jsonMbStr 0] <+: s.mailbox.contents)
    (accepted : (jsmnParse s.appBuffer).accepted = true) :
    ∃ t, Reaches (step jsmnParse) s t ∧ t.script = s.script ∧ t.sender = s.sender ∧
      t.mailbox.attached = false := by
  obtain ⟨more, held⟩ := mails
  obtain ⟨first, takes, rest, kept⟩ := Mailbox.leave_of_cons held.symm
  obtain ⟨second, takesOver, _, still⟩ := Mailbox.leave_of_cons rest
  obtain ⟨entries, states⟩ := threads
  have live := kept.trans attached
  have alive := still.trans live
  refine ⟨{ s with
      mailbox := second.rtMbDetach
      entries := []
      glob := storeFrame s.appBuffer (jsmnParse s.appBuffer) s.glob
      handled := s.handled ++ [0] }, ⟨[.jsonEntry 0 true, .jsonEntry 0 true, .jsonEntry 0 true,
      .jsonEntry 0 true, .jsonState true, .jsonEntry 0 true, .jsonEntry 0 true], ?_⟩, rfl, rfl, rfl⟩
  simp [run_cons, step, jsonEntryStep, jsonStateStep, entries, states, Mailbox.rtMbRecv, attached,
    takes, accepted, live, takesOver, alive]

end

/-- A publication behind the one whose text is accepted finds the mailbox
detached when the JSON threads have run in between. -/
theorem misuse_reached (jsmnParse : Memory → Parsed) {script before after : List Output}
    {appBuffer : Memory} (glob : Globals) (jsonMbPool : Nat → Mail)
    (split : script = before ++ after) (posted : .publish ∈ before) (again : .publish ∈ after)
    (accepted : (jsmnParse (bufferAfter appBuffer before)).accepted = true) :
    ∃ t, Reaches (step jsmnParse) (start script appBuffer glob jsonMbPool) t ∧
      t.misused = true := by
  obtain ⟨s, sends, left, idle, buffer, count⟩ :=
    carried_out before (start script appBuffer glob jsonMbPool) after rfl split
  obtain ⟨entries, states, attached, _⟩ := esp32_frame sends
  have mails := unreceived_of_esp32 sends rfl (unreceived_start glob jsonMbPool)
  have parsed : (jsmnParse s.appBuffer).accepted = true := by
    rw [buffer]
    exact accepted
  obtain ⟨t, detaches, script', sender, detached⟩ :=
    detach_reached ⟨entries, states⟩ attached (mails.sent (count posted)) parsed
  obtain ⟨quiet, rest, found⟩ := List.append_of_mem again
  obtain ⟨u, continues, next, free, _⟩ := carried_out quiet t (.publish :: rest)
    (sender.trans idle) (by rw [script', left, found])
  have gone : u.mailbox.attached = false := (esp32_frame continues).2.2.1.trans detached
  have begins : step jsmnParse .esp32 u =
      some { u with script := rest, sender := .sendFrame } := by
    rw [step, esp32Step, free, next]
  have sends' : step jsmnParse .esp32 { u with script := rest, sender := .sendFrame } =
      some { u with script := rest, sender := .sendOver, misused := true } :=
    esp32Step_detached { u with script := rest, sender := .sendFrame } rfl gone
  exact ⟨_, ((((reaches_of_esp32 sends).trans detaches).trans
    (reaches_of_esp32 continues)).trans (Reaches.single begins)).trans (Reaches.single sends'), rfl⟩

/-- No thread ever uses the detached mailbox exactly when `app_buffer` never
holds an acceptable text after one publication and before another: the second
`json_entry` takes the `over` of the first frame as the end of the service. -/
theorem mailbox_never_misused_iff (jsmnParse : Memory → Parsed) (script : List Output)
    (appBuffer : Memory) (glob : Globals) (jsonMbPool : Nat → Mail) :
    (∀ t, Reaches (step jsmnParse) (start script appBuffer glob jsonMbPool) t →
      t.misused = false) ↔
      ∀ before after, script = before ++ after → .publish ∈ before → .publish ∈ after →
        (jsmnParse (bufferAfter appBuffer before)).accepted = false := by
  constructor
  · intro safe before after split posted again
    rw [← Bool.not_eq_true]
    intro accepted
    obtain ⟨t, reached, misused⟩ :=
      misuse_reached jsmnParse glob jsonMbPool split posted again accepted
    rw [safe t reached] at misused
    cases misused
  · intro never t reached
    rw [← Bool.not_eq_true]
    intro misused
    obtain ⟨before, after, split, posted, again, accepted⟩ :=
      (inv_of_reaches reached).misuse misused
    rw [never before after split posted again] at accepted
    cases accepted

def completeText : Memory := literal "\x7b\"id\":\"7\"\x7d"

def brokenText : Memory := literal "\x7b\"id"

/-- `jsmn_parse` on the two texts: three tokens, and `JSMN_ERROR_PART`. -/
def jsmnParseSample (str : Memory) : Parsed :=
  if (List.range 11).map str = (List.range 11).map completeText then
    ⟨3, fun k => match k with
      | 0 => ⟨.object, 0, 10⟩
      | 1 => ⟨.string, 2, 4⟩
      | 2 => ⟨.string, 7, 8⟩
      | _ => ⟨.undefined, 0, 0⟩⟩
  else ⟨-3, fun _ => ⟨.undefined, 0, 0⟩⟩

def sampleGlobals : Globals := ⟨builtinUsers fun _ => 0, 2, 0, 0⟩

def sampleStart (script : List Output) : Service :=
  start script (fun _ => 0) sampleGlobals (fun _ => .jsonMbStr 0)

/-- The second of two complete frames is sent to a detached mailbox. -/
theorem second_frame_misuses :
    ¬ ∀ t, Reaches (step jsmnParseSample)
      (sampleStart [.store completeText, .publish, .store completeText, .publish]) t →
      t.misused = false := by
  intro safe
  have misused : (run (step jsmnParseSample)
      (List.replicate 4 Label.esp32 ++ List.replicate 4 (Label.jsonEntry 0 true) ++
        [.jsonState true, .jsonEntry 0 true, .jsonEntry 0 true] ++ List.replicate 3 Label.esp32)
      (sampleStart [.store completeText, .publish, .store completeText, .publish])).map
      Service.misused = some true := by decide +kernel
  obtain ⟨t, reached, flag⟩ := Option.map_eq_some_iff.mp misused
  rw [safe t ⟨_, reached⟩] at flag
  cases flag

/-- No JSON thread is left and none can come. -/
def Stopped (s : Service) : Prop := s.entries = [] ∧ s.jsonStates = 0

theorem Stopped.next {jsmnParse : Memory → Parsed} {s t : Service} {label : Label}
    (stopped : Stopped s) (taken : step jsmnParse label s = some t) :
    Stopped t ∧ t.handled = s.handled := by
  cases label with
  | esp32 =>
      obtain ⟨entries, states, handled, _⟩ := esp32Step_frame taken
      exact ⟨⟨entries.trans stopped.1, states.trans stopped.2⟩, handled⟩
  | jsonEntry k created =>
      rw [step, jsonEntryStep_nil stopped.1] at taken
      cases taken
  | jsonState created =>
      rw [step, jsonStateStep_none stopped.2] at taken
      cases taken

/-- What a rejected frame is to leave behind: a `json_entry` thread in its
receive and no mail of that frame. -/
def Restored (frame : Nat) (s : Service) : Prop :=
  (∃ entry ∈ s.entries, entry matches .waiting) ∧ ∀ mail ∈ s.mailbox.contents, mail.frame ≠ frame

theorem Phase.parsing_alone {jsmnParse : Memory → Parsed} {script : List Output}
    {appBuffer : Memory} {s : Service} (phase : Phase jsmnParse script appBuffer s) {k frame : Nat}
    (parsing : s.entries[k]? = some (.parsing frame)) :
    s.entries = [.parsing frame] ∧ s.jsonStates = 0 := by
  have member := List.mem_of_getElem? parsing
  cases phase with
  | first threads _ _ =>
      rw [threads.1, List.mem_singleton] at member
      cases member
  | parsing threads _ _ =>
      rw [threads.1, List.mem_singleton] at member
      exact ⟨by rw [threads.1, member], threads.2⟩
  | serving stage _ _ _ =>
      generalize listed : s.entries = entries at stage
      generalize s.jsonStates = states at stage
      rw [listed] at member
      cases stage <;> simp at member
  | leaving threads _ _ _ =>
      rw [threads.1, List.mem_singleton] at member
      cases member
  | detached threads _ _ _ =>
      rw [threads.1] at member
      cases member
  | stopped threads _ =>
      rw [threads.1] at member
      cases member

theorem Stopped.forever {jsmnParse : Memory → Parsed} {s u : Service} (stopped : Stopped s)
    (later : Reaches (step jsmnParse) s u) : Stopped u ∧ u.handled = s.handled := by
  apply later.invariant (fun v => Stopped v ∧ v.handled = s.handled) ⟨stopped, rfl⟩
  intro _ v w kept taken
  obtain ⟨still, same⟩ := kept.1.next taken
  exact ⟨still, same.trans kept.2⟩

theorem Stopped.not_restored {s : Service} (stopped : Stopped s) (frame : Nat) :
    ¬ Restored frame s := by
  rintro ⟨⟨entry, member, _⟩, _⟩
  rw [stopped.1] at member
  cases member

/-- A rejected frame changes no user, but it ends the service: from then on no
`json_entry` thread waits, and no frame is handed to the parser again. -/
theorem rejected_frame_ends_service (jsmnParse : Memory → Parsed) (script : List Output)
    (appBuffer : Memory) (glob : Globals) (jsonMbPool : Nat → Mail) (s t : Service)
    (k frame : Nat) (created : Bool)
    (reached : Reaches (step jsmnParse) (start script appBuffer glob jsonMbPool) s)
    (parsing : s.entries[k]? = some (.parsing frame))
    (rejected : (jsmnParse s.appBuffer).accepted = false)
    (taken : step jsmnParse (.jsonEntry k created) s = some t) :
    t.glob = s.glob ∧
      ∀ u, Reaches (step jsmnParse) t u → ¬ Restored frame u ∧ u.handled = t.handled := by
  obtain ⟨only, states⟩ := (inv_of_reaches reached).phase.parsing_alone parsing
  obtain ⟨accepted, _⟩ | ⟨_, rfl⟩ := jsonEntryStep_parsing only taken
  · rw [rejected] at accepted
    cases accepted
  · refine ⟨rfl, ?_⟩
    intro u later
    have stopped : Stopped { s with handled := s.handled ++ [frame], entries := [] } :=
      ⟨rfl, states⟩
    obtain ⟨still, same⟩ := stopped.forever later
    exact ⟨still.not_restored frame, same⟩

def brokenFirst : List Output := [.store brokenText, .publish, .store completeText, .publish]

/-- The frame that a thread is about to parse. -/
def Entry.inHand : Entry → Option Nat
  | .parsing frame => some frame
  | _ => none

theorem Entry.eq_parsing {entry : Entry} {frame : Nat} (holds : entry.inHand = some frame) :
    entry = .parsing frame := by
  cases entry with
  | parsing other => rw [Option.some.inj holds]
  | waiting => cases holds
  | storing parsed => cases holds
  | creating => cases holds
  | leaving => cases holds

/-- The first `json_entry` thread with the broken frame in hand. -/
theorem broken_in_hand :
    ∃ s, Reaches (step jsmnParseSample) (sampleStart brokenFirst) s ∧
      s.entries[0]? = some (.parsing 0) ∧ (jsmnParseSample s.appBuffer).accepted = false := by
  have facts : (run (step jsmnParseSample)
      (List.replicate 4 Label.esp32 ++ [Label.jsonEntry 0 true])
      (sampleStart brokenFirst)).map (fun s => (s.entries[0]?.bind Entry.inHand,
        (jsmnParseSample s.appBuffer).accepted)) = some (some 0, false) := by
    decide +kernel
  obtain ⟨s, reached, both⟩ := Option.map_eq_some_iff.mp facts
  obtain ⟨parsing, rejected⟩ := Prod.mk.inj both
  obtain ⟨entry, first, holds⟩ := Option.bind_eq_some_iff.mp parsing
  exact ⟨s, ⟨_, reached⟩, first.trans (congrArg some (Entry.eq_parsing holds)), rejected⟩

theorem broken_frame_ends_service :
    ∃ s t, Reaches (step jsmnParseSample) (sampleStart brokenFirst) s ∧
      step jsmnParseSample (.jsonEntry 0 true) s = some t ∧ t.glob = s.glob ∧
      ∀ u, Reaches (step jsmnParseSample) t u → ¬ Restored 0 u ∧ u.handled = t.handled := by
  obtain ⟨s, reached, parsing, rejected⟩ := broken_in_hand
  have taken : step jsmnParseSample (.jsonEntry 0 true) s =
      some { s with handled := s.handled ++ [0], entries := s.entries.eraseIdx 0 } := by
    simp only [step, jsonEntryStep, parsing, rejected, Bool.false_eq_true, ↓reduceIte]
  exact ⟨s, _, reached, taken, rejected_frame_ends_service jsmnParseSample _ _ _ _ s _ 0 0 true
    reached parsing rejected taken⟩

/-- Behind a broken frame the complete frame is never parsed, although both of
its mails were sent; without the broken frame its user is stored. -/
theorem complete_frame_unparsed :
    (∃ s, Reaches (step jsmnParseSample) (sampleStart brokenFirst) s ∧ s.published = 2 ∧
      ∀ u, Reaches (step jsmnParseSample) s u → ¬ Restored 0 u ∧ 1 ∉ u.handled) ∧
    ∃ t, Reaches (step jsmnParseSample) (sampleStart [.store completeText, .publish]) t ∧
      t.handled = [0] ∧ t.glob.userNum = 3 ∧ t.glob.userDate 0 = 55 := by
  constructor
  · have facts : (run (step jsmnParseSample) (List.replicate 4 Label.esp32 ++
        List.replicate 2 (Label.jsonEntry 0 true) ++ List.replicate 4 Label.esp32)
        (sampleStart brokenFirst)).map
          (fun s => (s.entries.length, s.jsonStates, s.handled, s.published)) =
        some (0, 0, [0], 2) := by decide +kernel
    obtain ⟨s, reached, all⟩ := Option.map_eq_some_iff.mp facts
    simp only [Prod.mk.injEq] at all
    obtain ⟨entries, states, handled, published⟩ := all
    refine ⟨s, ⟨_, reached⟩, published, ?_⟩
    intro u later
    have stopped : Stopped s := ⟨List.length_eq_zero_iff.mp entries, states⟩
    obtain ⟨still, same⟩ := stopped.forever later
    exact ⟨still.not_restored 0, by rw [same, handled]; decide⟩
  · have facts : (run (step jsmnParseSample)
        (List.replicate 4 Label.esp32 ++ List.replicate 3 (Label.jsonEntry 0 true))
        (sampleStart [.store completeText, .publish])).map
          (fun s => (s.handled, s.glob.userNum, s.glob.userDate 0)) = some ([0], 3, 55) := by
      decide +kernel
    obtain ⟨t, reached, all⟩ := Option.map_eq_some_iff.mp facts
    simp only [Prod.mk.injEq] at all
    exact ⟨t, ⟨_, reached⟩, all⟩

end KyokaMirror.Json
