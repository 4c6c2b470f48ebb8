import KyokaMirror.Library.Transition
import KyokaMirror.RtThread.Mailbox

set_option autoImplicit false

namespace KyokaMirror.Http

open RtThread (Mailbox Err)
open Library.Transition

/-- A mail is the address of `user_date_t`, `user_date_len`, `buffer` or
`mb_str3`. -/
inductive Mail where
  | userDate
  | userDateLen
  | buffer
  | mbStr3
  deriving DecidableEq, Repr

def Mail.isData : Mail → Bool
  | .mbStr3 => false
  | _ => true

inductive Thread1 where
  | receiving
  | leaving
  | stopped
  deriving DecidableEq, Repr

/-- `thread2_entry` before a read, between the sends that follow a read of
`bytesRead` bytes, and behind its loops. -/
inductive Thread2 where
  | reading
  | sending (mails : List Mail) (bytesRead : Int)
  | finished
  deriving DecidableEq, Repr

/-- The mails that the present read still has to send. -/
def Thread2.pending : Thread2 → List Mail
  | .sending mails _ => mails
  | _ => []

/-- Both threads, the mailbox and the results that `webclient_read` will give;
`sent` and `received` list the mails that went into and out of the mailbox. -/
structure Download where
  contentLength : Int
  contentPos : Int
  results : List Int
  thread1 : Thread1
  thread2 : Thread2
  mailbox : Mailbox Mail 64
  sent : List Mail
  received : List Mail
  misused : Bool

/-- What one successful read sends. Only a response of known length has a
closing mail, and it follows every read. -/
def mailsPerRead (contentLength : Int) : List Mail :=
  if contentLength < 0 then [.buffer] else [.userDate, .userDateLen, .mbStr3]

/-- The loop condition: `while (1)` for a chunked response, and
`while (content_pos < content_length)` otherwise. -/
def loops (contentLength contentPos : Int) : Prop :=
  contentLength < 0 ∨ contentPos < contentLength

instance (contentLength contentPos : Int) : Decidable (loops contentLength contentPos) :=
  inferInstanceAs (Decidable (_ ∨ _))

def thread2Step (s : Download) : Option Download :=
  match s.thread2 with
  | .reading =>
      match s.results with
      | [] => none
      | bytesRead :: rest =>
          if bytesRead ≤ 0 then some { s with results := rest, thread2 := .finished }
          else some { s with
            results := rest, thread2 := .sending (mailsPerRead s.contentLength) bytesRead }
  | .sending (mail :: more) bytesRead =>
      match s.mailbox.rtMbSend mail with
      | none => some { s with misused := true }
      | some (left, .eok) =>
          some { s with
            mailbox := left, thread2 := .sending more bytesRead, sent := s.sent ++ [mail] }
      | some (left, .efull) => some { s with mailbox := left, thread2 := .sending more bytesRead }
  | .sending [] bytesRead =>
      some { s with
        contentPos := s.contentPos + bytesRead
        thread2 :=
          if loops s.contentLength (s.contentPos + bytesRead) then .reading else .finished }
  | .finished => none

def thread1Step (s : Download) : Option Download :=
  match s.thread1 with
  | .receiving =>
      match s.mailbox.rtMbRecv with
      | none => some { s with misused := true }
      | some none => none
      | some (some (mail, left)) =>
          some { s with
            mailbox := left
            received := s.received ++ [mail]
            thread1 := if mail = .mbStr3 then .leaving else .receiving }
  | .leaving =>
      if s.mailbox.attached then
        some { s with mailbox := s.mailbox.rtMbDetach, thread1 := .stopped }
      else some { s with misused := true }
  | .stopped => none

inductive Label where
  | thread1
  | thread2
  deriving DecidableEq, Repr

def step : Label → Download → Option Download
  | .thread1, s => thread1Step s
  | .thread2, s => thread2Step s

def start (contentLength : Int) (results : List Int) (mbPool : Nat → Mail) : Download where
  contentLength := contentLength
  contentPos := 0
  results := results
  thread1 := .receiving
  thread2 := .reading
  mailbox := Mailbox.rtMbInit mbPool Mailbox.size_pos
  sent := []
  received := []
  misused := false

/-- How many reads of a download succeed. -/
def successfulReads (contentLength contentPos : Int) : List Int → Nat
  | [] => 0
  | bytesRead :: rest =>
      if bytesRead ≤ 0 then 0
      else if loops contentLength (contentPos + bytesRead) then
        1 + successfulReads contentLength (contentPos + bytesRead) rest
      else 1

/-- The mailbox was never used behind its detach, and a reader that has stopped
has received every data mail. -/
structure Orderly (s : Download) : Prop where
  fine : s.misused = false
  delivered : s.thread1 = .stopped →
    s.received.filter Mail.isData = s.sent.filter Mail.isData

theorem thread1Step_cases {s t : Download} (taken : thread1Step s = some t) :
    (s.thread1 ≠ .stopped ∧ s.mailbox.attached = false ∧ t = { s with misused := true }) ∨
    (∃ mail rest left, s.thread1 = .receiving ∧ s.mailbox.attached = true ∧
      s.mailbox.contents = mail :: rest ∧ left.contents = rest ∧ left.attached = true ∧
      t = { s with
        mailbox := left
        received := s.received ++ [mail]
        thread1 := if mail = .mbStr3 then .leaving else .receiving }) ∨
    (s.thread1 = .leaving ∧ s.mailbox.attached = true ∧
      t = { s with mailbox := s.mailbox.rtMbDetach, thread1 := .stopped }) := by
  unfold thread1Step at taken
  cases attached : s.mailbox.attached with
  | false =>
      left
      cases reader : s.thread1 with
      | receiving =>
          simp only [reader, Mailbox.rtMbRecv, attached, Bool.false_eq_true, ↓reduceIte] at taken
          exact ⟨by decide, rfl, (Option.some.inj taken).symm⟩
      | leaving =>
          simp only [reader, attached, Bool.false_eq_true, ↓reduceIte] at taken
          exact ⟨by decide, rfl, (Option.some.inj taken).symm⟩
      | stopped =>
          simp only [reader] at taken
          cases taken
  | true =>
      right
      cases reader : s.thread1 with
      | receiving =>
          left
          cases held : s.mailbox.contents with
          | nil =>
              simp only [reader, Mailbox.rtMbRecv, attached, ↓reduceIte,
                Mailbox.leave_of_nil held] at taken
              cases taken
          | cons mail rest =>
              obtain ⟨left, leaves, tail, kept⟩ := Mailbox.leave_of_cons held
              simp only [reader, Mailbox.rtMbRecv, attached, ↓reduceIte, leaves] at taken
              exact ⟨mail, rest, left, rfl, rfl, rfl, tail, kept.trans attached,
                (Option.some.inj taken).symm⟩
      | leaving =>
          right
          simp only [reader, attached, ↓reduceIte] at taken
          exact ⟨rfl, rfl, (Option.some.inj taken).symm⟩
      | stopped =>
          simp only [reader] at taken
          cases taken

theorem thread2Step_cases {s t : Download} (taken : thread2Step s = some t) :
    (∃ bytesRead rest, s.thread2 = .reading ∧ s.results = bytesRead :: rest ∧ bytesRead ≤ 0 ∧
      t = { s with results := rest, thread2 := .finished }) ∨
    (∃ bytesRead rest, s.thread2 = .reading ∧ s.results = bytesRead :: rest ∧ 0 < bytesRead ∧
      t = { s with
        results := rest, thread2 := .sending (mailsPerRead s.contentLength) bytesRead }) ∨
    (∃ mail more bytesRead, s.thread2 = .sending (mail :: more) bytesRead ∧
      s.mailbox.attached = false ∧ t = { s with misused := true }) ∨
    (∃ mail more bytesRead, s.thread2 = .sending (mail :: more) bytesRead ∧
      s.mailbox.attached = true ∧ s.mailbox.contents.length < 64 ∧
      t = { s with
        mailbox := (s.mailbox.enter mail).1
        thread2 := .sending more bytesRead
        sent := s.sent ++ [mail] }) ∨
    (∃ mail more bytesRead, s.thread2 = .sending (mail :: more) bytesRead ∧
      s.mailbox.attached = true ∧ ¬ s.mailbox.contents.length < 64 ∧
      t = { s with mailbox := (s.mailbox.enter mail).1, thread2 := .sending more bytesRead }) ∨
    (∃ bytesRead, s.thread2 = .sending [] bytesRead ∧
      t = { s with
        contentPos := s.contentPos + bytesRead
        thread2 :=
          if loops s.contentLength (s.contentPos + bytesRead) then .reading else .finished }) := by
  unfold thread2Step at taken
  split at taken
  · rename_i reading
    split at taken
    · cases taken
    · rename_i bytesRead rest results
      split at taken
      · rename_i failed
        exact .inl ⟨bytesRead, rest, reading, results, failed, (Option.some.inj taken).symm⟩
      · rename_i read
        exact .inr (.inl ⟨bytesRead, rest, reading, results, by omega,
          (Option.some.inj taken).symm⟩)
  · rename_i mail more bytesRead sending
    right; right
    cases attached : s.mailbox.attached with
    | false =>
        simp only [Mailbox.rtMbSend, attached, Bool.false_eq_true, ↓reduceIte] at taken
        exact .inl ⟨mail, more, bytesRead, sending, rfl, (Option.some.inj taken).symm⟩
    | true =>
        right
        by_cases space : s.mailbox.contents.length < 64
        · rw [Mailbox.rtMbSend_of_space attached space] at taken
          exact .inl ⟨mail, more, bytesRead, sending, rfl, space, (Option.some.inj taken).symm⟩
        · rw [Mailbox.rtMbSend_of_full attached space] at taken
          exact .inr (.inl ⟨mail, more, bytesRead, sending, rfl, space,
            (Option.some.inj taken).symm⟩)
  · rename_i bytesRead sending
    exact .inr (.inr (.inr (.inr (.inr ⟨bytesRead, sending, (Option.some.inj taken).symm⟩))))
  · cases taken

theorem fifo_step {s t : Download} (label : Label)
    (fifo : s.received ++ s.mailbox.contents = s.sent) (taken : step label s = some t) :
    t.received ++ t.mailbox.contents = t.sent := by
  cases label with
  | thread1 =>
      obtain ⟨_, _, rfl⟩ | ⟨mail, rest, left, _, _, held, tail, _, rfl⟩ | ⟨_, _, rfl⟩ :=
        thread1Step_cases taken
      · exact fifo
      · show (s.received ++ [mail]) ++ left.contents = s.sent
        rw [← fifo, held, tail, List.append_assoc, List.singleton_append]
      · exact fifo
  | thread2 =>
      obtain ⟨_, _, _, _, _, rfl⟩ | ⟨_, _, _, _, _, rfl⟩ | ⟨_, _, _, _, _, rfl⟩ |
        ⟨mail, _, _, _, _, space, rfl⟩ | ⟨mail, _, _, _, _, full, rfl⟩ | ⟨_, _, rfl⟩ :=
        thread2Step_cases taken
      · exact fifo
      · exact fifo
      · exact fifo
      · show s.received ++ (s.mailbox.enter mail).1.contents = s.sent ++ [mail]
        rw [Mailbox.contents_enter, if_pos space, ← List.append_assoc, fifo]
      · show s.received ++ (s.mailbox.enter mail).1.contents = s.sent
        rw [Mailbox.contents_enter, if_neg full, fifo]
      · exact fifo

def page : List Mail := [.userDate, .userDateLen, .mbStr3]

theorem eq_page_of_closing {mails : List Mail} (early : mails <+: page)
    (closing : .mbStr3 ∈ mails) :
    mails = page := by
  obtain ⟨rest, split⟩ := early
  cases rest with
  | nil => simpa only [List.append_nil] using split
  | cons mail more =>
      have short : mails.length ≤ 2 := by
        have size := congrArg List.length split
        simp only [page, List.length_append, List.length_cons, List.length_nil] at size
        omega
      have inside : mails <+: page.take 2 := by
        apply List.prefix_of_prefix_length_le ⟨_, split⟩ (List.take_prefix 2 page)
        exact short
      exact absurd (inside.subset closing) (by decide)

/-- The successful reads that are still to come. -/
def remaining (s : Download) : Nat :=
  match s.thread2 with
  | .reading => successfulReads s.contentLength s.contentPos s.results
  | .sending _ bytesRead =>
      if loops s.contentLength (s.contentPos + bytesRead) then
        successfulReads s.contentLength (s.contentPos + bytesRead) s.results
      else 0
  | .finished => 0

/-- The invariant of a download with at most one successful read: the mails
that are sent, or about to be, form one page. -/
structure OnePage (s : Download) : Prop where
  sized : ¬ s.contentLength < 0
  fifo : s.received ++ s.mailbox.contents = s.sent
  budget : (s.sent = [] ∧ s.thread2.pending = [] ∧ remaining s ≤ 1) ∨
    (s.sent ++ s.thread2.pending = page ∧ remaining s = 0)
  receiving : s.thread1 = .receiving → .mbStr3 ∉ s.received
  behind : s.thread1 ≠ .receiving → .mbStr3 ∈ s.received
  attached : s.thread1 ≠ .stopped → s.mailbox.attached = true
  fine : s.misused = false

theorem OnePage.sent_prefix {s : Download} (inv : OnePage s) : s.sent <+: page := by
  obtain ⟨unsent, _⟩ | ⟨sends, _⟩ := inv.budget
  · rw [unsent]
    exact List.nil_prefix
  · exact ⟨_, sends⟩

/-- Once the closing mail has been received, nothing is left to send. -/
theorem OnePage.complete {s : Download} (inv : OnePage s) (closing : .mbStr3 ∈ s.received) :
    s.received = page ∧ s.sent = page ∧ s.thread2.pending = [] := by
  have early : s.received <+: s.sent := ⟨_, inv.fifo⟩
  have received := eq_page_of_closing (early.trans inv.sent_prefix) closing
  have sent : s.sent = page := eq_page_of_closing inv.sent_prefix (early.subset closing)
  refine ⟨received, sent, ?_⟩
  obtain ⟨unsent, _⟩ | ⟨sends, _⟩ := inv.budget
  · rw [unsent] at sent
    cases sent
  · rw [sent] at sends
    exact List.append_right_eq_self.mp sends

theorem OnePage.thread1 {s t : Download} (inv : OnePage s) (taken : thread1Step s = some t) :
    OnePage t := by
  have fifo := fifo_step .thread1 inv.fifo taken
  obtain ⟨live, gone, _⟩ | ⟨mail, rest, left, reader, _, _, _, kept, rfl⟩ | ⟨reader, _, rfl⟩ :=
    thread1Step_cases taken
  · rw [inv.attached live] at gone
    cases gone
  · have none := inv.receiving reader
    refine ⟨inv.sized, fifo, inv.budget, ?_, ?_, fun _ => kept, inv.fine⟩
    · intro still
      by_cases closing : mail = .mbStr3
      · simp only [closing, ↓reduceIte] at still
        cases still
      · simp only [List.mem_append, List.mem_singleton, none, Ne.symm closing, or_self,
          not_false_eq_true]
    · intro leaves
      by_cases closing : mail = .mbStr3
      · rw [closing]
        exact List.mem_append_right _ (List.mem_singleton_self _)
      · simp only [closing, ↓reduceIte, ne_eq, not_true_eq_false] at leaves
  · exact ⟨inv.sized, fifo, inv.budget, fun still => (by cases still),
      fun _ => inv.behind (by rw [reader]; decide), fun live => (live rfl).elim, inv.fine⟩

/-- What is still to be sent is sent to a mailbox that is there: a detached one
would mean that the whole page has been received. -/
theorem OnePage.attached_of_pending {s : Download} (inv : OnePage s)
    (pending : s.thread2.pending ≠ []) : s.mailbox.attached = true := by
  apply inv.attached
  intro stopped
  have closing : .mbStr3 ∈ s.received := inv.behind (by rw [stopped]; decide)
  exact pending (inv.complete closing).2.2

theorem OnePage.space {s : Download} (inv : OnePage s) : s.mailbox.contents.length < 64 := by
  have few := inv.sent_prefix.length_le
  rw [← inv.fifo, List.length_append] at few
  simp only [page, List.length_cons, List.length_nil] at few
  omega

/-- A successful read is one less to come. -/
theorem remaining_read {s : Download} {bytesRead : Int} {rest : List Int} (mails : List Mail)
    (reading : s.thread2 = .reading) (results : s.results = bytesRead :: rest)
    (read : 0 < bytesRead) :
    remaining s =
      remaining { s with results := rest, thread2 := .sending mails bytesRead } + 1 := by
  have positive : ¬ bytesRead ≤ 0 := by omega
  simp only [remaining, reading, results, successfulReads, if_neg positive]
  split
  · exact Nat.add_comm _ _
  · rfl

theorem remaining_last {s : Download} {bytesRead : Int}
    (sending : s.thread2 = .sending [] bytesRead) :
    remaining { s with
      contentPos := s.contentPos + bytesRead
      thread2 := if loops s.contentLength (s.contentPos + bytesRead) then .reading
        else .finished } = remaining s := by
  by_cases again : loops s.contentLength (s.contentPos + bytesRead)
  · simp only [remaining, sending, if_pos again]
  · simp only [remaining, sending, if_neg again]

theorem OnePage.thread2 {s t : Download} (inv : OnePage s) (taken : thread2Step s = some t) :
    OnePage t := by
  have fifo := fifo_step .thread2 inv.fifo taken
  obtain ⟨bytesRead, rest, reading, results, failed, rfl⟩ |
    ⟨bytesRead, rest, reading, results, read, rfl⟩ | ⟨mail, more, bytesRead, sending, gone, rfl⟩ |
    ⟨mail, more, bytesRead, sending, _, _, rfl⟩ | ⟨mail, more, bytesRead, sending, _, full, rfl⟩ |
    ⟨bytesRead, sending, rfl⟩ := thread2Step_cases taken
  · refine ⟨inv.sized, fifo, ?_, inv.receiving, inv.behind, inv.attached, inv.fine⟩
    have idle : s.thread2.pending = [] := by rw [reading]; rfl
    obtain ⟨unsent, _⟩ | ⟨sends, _⟩ := inv.budget
    · exact .inl ⟨unsent, rfl, Nat.zero_le _⟩
    · rw [idle] at sends
      exact .inr ⟨sends, rfl⟩
  · refine ⟨inv.sized, fifo, ?_, inv.receiving, inv.behind, inv.attached, inv.fine⟩
    have count := remaining_read (mailsPerRead s.contentLength) reading results read
    right
    obtain ⟨unsent, _, few⟩ | ⟨_, none⟩ := inv.budget
    · refine ⟨?_, by omega⟩
      show s.sent ++ mailsPerRead s.contentLength = page
      rw [unsent, mailsPerRead, if_neg inv.sized, List.nil_append, page]
    · omega
  · rw [inv.attached_of_pending (by rw [sending]; exact List.cons_ne_nil _ _)] at gone
    cases gone
  · refine ⟨inv.sized, fifo, ?_, inv.receiving, inv.behind, ?_, inv.fine⟩
    · right
      obtain ⟨_, idle, _⟩ | ⟨sends, none⟩ := inv.budget
      · rw [sending] at idle
        cases idle
      · rw [sending] at sends
        refine ⟨?_, ?_⟩
        · show (s.sent ++ [mail]) ++ more = page
          rw [List.append_assoc]
          exact sends
        · simpa only [remaining, sending] using none
    · intro live
      exact (Mailbox.attached_enter _ _).trans (inv.attached live)
  · exact absurd inv.space full
  · refine ⟨inv.sized, fifo, ?_, inv.receiving, inv.behind, inv.attached, inv.fine⟩
    have budget := inv.budget
    rw [← remaining_last sending, sending] at budget
    have idle : Thread2.pending (if loops s.contentLength (s.contentPos + bytesRead) then .reading
        else .finished) = [] := by split <;> rfl
    rw [idle]
    exact budget

theorem OnePage.orderly {s : Download} (inv : OnePage s) : Orderly s := by
  refine ⟨inv.fine, ?_⟩
  intro stopped
  obtain ⟨received, sent, _⟩ := inv.complete (inv.behind (by rw [stopped]; decide))
  rw [received, sent]

theorem onePage_start (contentLength : Int) (results : List Int) (mbPool : Nat → Mail)
    (sized : ¬ contentLength < 0) (few : successfulReads contentLength 0 results ≤ 1) :
    OnePage (start contentLength results mbPool) where
  sized := sized
  fifo := rfl
  budget := .inl ⟨rfl, rfl, few⟩
  receiving := fun _ => List.not_mem_nil
  behind := fun elsewhere => (elsewhere rfl).elim
  attached := fun _ => rfl
  fine := rfl

structure Unclosed (s : Download) : Prop where
  chunked : s.contentLength < 0
  fifo : s.received ++ s.mailbox.contents = s.sent
  open_ : .mbStr3 ∉ s.sent ++ s.thread2.pending
  reader : s.thread1 = .receiving
  attached : s.mailbox.attached = true
  fine : s.misused = false

theorem Unclosed.next {s t : Download} (label : Label) (inv : Unclosed s)
    (taken : step label s = some t) : Unclosed t := by
  have fifo := fifo_step label inv.fifo taken
  cases label with
  | thread1 =>
      obtain ⟨_, gone, _⟩ | ⟨mail, rest, left, _, _, held, _, kept, rfl⟩ | ⟨leaving, _, _⟩ :=
        thread1Step_cases taken
      · rw [inv.attached] at gone
        cases gone
      · refine ⟨inv.chunked, fifo, inv.open_, ?_, kept, inv.fine⟩
        have other : mail ≠ .mbStr3 := by
          rintro rfl
          apply inv.open_
          apply List.mem_append_left
          rw [← inv.fifo, held]
          exact List.mem_append_right _ List.mem_cons_self
        exact if_neg other
      · rw [inv.reader] at leaving
        cases leaving
  | thread2 =>
      have open_ := inv.open_
      rw [List.mem_append, not_or] at open_
      obtain ⟨bytesRead, rest, reading, _, _, rfl⟩ | ⟨bytesRead, rest, reading, _, _, rfl⟩ |
        ⟨mail, more, bytesRead, _, gone, _⟩ | ⟨mail, more, bytesRead, sending, _, _, rfl⟩ |
        ⟨mail, more, bytesRead, sending, _, _, rfl⟩ | ⟨bytesRead, sending, rfl⟩ :=
        thread2Step_cases taken
      · refine ⟨inv.chunked, fifo, ?_, inv.reader, inv.attached, inv.fine⟩
        simpa only [Thread2.pending, List.append_nil] using open_.1
      · refine ⟨inv.chunked, fifo, ?_, inv.reader, inv.attached, inv.fine⟩
        simp only [Thread2.pending, mailsPerRead, if_pos inv.chunked, List.mem_append,
          List.mem_singleton, open_.1, reduceCtorEq, or_self, not_false_eq_true]
      · rw [inv.attached] at gone
        cases gone
      · refine ⟨inv.chunked, fifo, ?_, inv.reader,
          (Mailbox.attached_enter _ _).trans inv.attached, inv.fine⟩
        have all := inv.open_
        rw [sending] at all
        show .mbStr3 ∉ (s.sent ++ [mail]) ++ more
        rw [List.append_assoc]
        exact all
      · refine ⟨inv.chunked, fifo, ?_, inv.reader,
          (Mailbox.attached_enter _ _).trans inv.attached, inv.fine⟩
        rw [sending, Thread2.pending, List.mem_cons, not_or] at open_
        show .mbStr3 ∉ s.sent ++ more
        rw [List.mem_append, not_or]
        exact ⟨open_.1, open_.2.2⟩
      · refine ⟨inv.chunked, fifo, ?_, inv.reader, inv.attached, inv.fine⟩
        show .mbStr3 ∉ s.sent ++ Thread2.pending (if _ then _ else _)
        split <;> simpa only [Thread2.pending, List.append_nil] using open_.1

theorem unclosed_start (contentLength : Int) (results : List Int) (mbPool : Nat → Mail)
    (chunked : contentLength < 0) : Unclosed (start contentLength results mbPool) :=
  ⟨chunked, rfl, List.not_mem_nil, rfl, rfl, rfl⟩

theorem two_reads {contentLength : Int} {results : List Int} (sized : ¬ contentLength < 0)
    (many : ¬ successfulReads contentLength 0 results ≤ 1) :
    ∃ first second rest, results = first :: second :: rest ∧ 0 < first ∧ first < contentLength ∧
      0 < second := by
  match results with
  | [] => exact (many (Nat.zero_le 1)).elim
  | [first] =>
      exfalso
      apply many
      simp only [successfulReads]
      split_ifs <;> omega
  | first :: second :: rest =>
      simp only [successfulReads, loops, sized, false_or, Int.zero_add] at many
      refine ⟨first, second, rest, rfl, ?_⟩
      split_ifs at many <;> omega

/-- `thread2_entry` sends what it has pending while `thread1_entry` rests. -/
theorem pending_sent (mails : List Mail) :
    ∀ (s : Download) (bytesRead : Int), s.thread2 = .sending mails bytesRead →
      s.mailbox.attached = true → s.mailbox.contents.length + mails.length ≤ 64 →
      ∃ mailbox sent, Reaches step s
          { s with thread2 := .sending [] bytesRead, mailbox := mailbox, sent := sent } ∧
        mailbox.contents = s.mailbox.contents ++ mails ∧ mailbox.attached = true := by
  induction mails with
  | nil =>
      intro s bytesRead sending attached _
      refine ⟨s.mailbox, s.sent, ?_, (List.append_nil _).symm, attached⟩
      rw [← sending]
      exact Reaches.refl step s
  | cons mail more ih =>
      intro s bytesRead sending attached room
      rw [List.length_cons] at room
      have space : s.mailbox.contents.length < 64 := by omega
      have sends : step .thread2 s = some { s with
          mailbox := (s.mailbox.enter mail).1
          thread2 := .sending more bytesRead
          sent := s.sent ++ [mail] } := by
        simp only [step, thread2Step, sending, Mailbox.rtMbSend_of_space attached space]
      have held : (s.mailbox.enter mail).1.contents = s.mailbox.contents ++ [mail] := by
        rw [Mailbox.contents_enter, if_pos space]
      obtain ⟨mailbox, sent, reached, contents, live⟩ := ih { s with
          mailbox := (s.mailbox.enter mail).1
          thread2 := .sending more bytesRead
          sent := s.sent ++ [mail] } bytesRead rfl
        ((Mailbox.attached_enter _ _).trans attached)
        (by rw [held, List.length_append, List.length_singleton]; omega)
      refine ⟨mailbox, sent, (Reaches.single sends).trans reached, ?_, live⟩
      rw [contents, held, List.append_assoc, List.singleton_append]

/-- `thread1_entry` receives up to the closing mail and detaches the mailbox
while `thread2_entry` rests. -/
theorem closing_received (data : List Mail) :
    ∀ (s : Download) (rest : List Mail), s.thread1 = .receiving → s.mailbox.attached = true →
      s.mailbox.contents = data ++ .mbStr3 :: rest → .mbStr3 ∉ data →
      ∃ mailbox received, Reaches step s
          { s with thread1 := .stopped, mailbox := mailbox, received := received } ∧
        mailbox.attached = false := by
  induction data with
  | nil =>
      intro s rest receiving attached held _
      obtain ⟨left, leaves, _, kept⟩ := Mailbox.leave_of_cons held
      have receives : step .thread1 s = some { s with
          mailbox := left, received := s.received ++ [.mbStr3], thread1 := .leaving } := by
        simp only [step, thread1Step, receiving, Mailbox.rtMbRecv, attached, leaves, ↓reduceIte]
      have detaches : step .thread1 { s with
          mailbox := left, received := s.received ++ [.mbStr3], thread1 := .leaving } =
          some { s with
            mailbox := left.rtMbDetach
            received := s.received ++ [.mbStr3]
            thread1 := .stopped } := by
        simp only [step, thread1Step, kept, attached, ↓reduceIte]
      exact ⟨_, _, (Reaches.single receives).trans (Reaches.single detaches), rfl⟩
  | cons mail more ih =>
      intro s rest receiving attached held data
      rw [List.mem_cons, not_or] at data
      obtain ⟨left, leaves, tail, kept⟩ := Mailbox.leave_of_cons held
      have receives : step .thread1 s = some { s with
          mailbox := left, received := s.received ++ [mail], thread1 := .receiving } := by
        simp only [step, thread1Step, receiving, Mailbox.rtMbRecv, attached, leaves, ↓reduceIte,
          Ne.symm data.1]
      obtain ⟨mailbox, received, reached, gone⟩ := ih { s with
          mailbox := left, received := s.received ++ [mail], thread1 := .receiving } rest rfl
        (kept.trans attached) tail data.2
      exact ⟨mailbox, received, (Reaches.single receives).trans reached, gone⟩

/-- Reading on behind the first page meets the mailbox that its closing mail
has detached. -/
theorem second_read_misuses (contentLength first second : Int) (rest : List Int)
    (mbPool : Nat → Mail) (sized : ¬ contentLength < 0) (read : 0 < first)
    (unfinished : first < contentLength) (again : 0 < second) :
    ∃ t, Reaches step (start contentLength (first :: second :: rest) mbPool) t ∧
      t.misused = true := by
  let s := start contentLength (first :: second :: rest) mbPool
  have reads : step .thread2 s = some { s with
      results := second :: rest, thread2 := .sending page first } := by
    simp only [step, thread2Step, s, start, mailsPerRead, sized, ↓reduceIte,
      Int.not_le.mpr read, page]
  obtain ⟨mailbox, sent, sends, held, attached⟩ := pending_sent page
    { s with results := second :: rest, thread2 := .sending page first } first rfl rfl
    (Nat.le_of_ble_eq_true rfl)
  let u : Download := { s with
    results := second :: rest, thread2 := .sending [] first, mailbox := mailbox, sent := sent }
  have continues : step .thread2 u = some { u with contentPos := first, thread2 := .reading } := by
    simp only [step, thread2Step, u, s, start, loops, Int.zero_add, unfinished, or_true, ↓reduceIte]
  obtain ⟨detached, received, closes, gone⟩ := closing_received [.userDate, .userDateLen]
    { u with contentPos := first, thread2 := .reading } [] rfl attached held (by decide)
  let v : Download := { u with
    contentPos := first, thread2 := .reading, thread1 := .stopped, mailbox := detached
    received := received }
  have rereads : step .thread2 v = some { v with
      results := rest, thread2 := .sending page second } := by
    simp only [step, thread2Step, v, u, s, start, mailsPerRead, sized, ↓reduceIte,
      Int.not_le.mpr again, page]
  have misuses : step .thread2 { v with results := rest, thread2 := .sending page second } =
      some { v with results := rest, thread2 := .sending page second, misused := true } := by
    simp only [step, thread2Step, page, v, Mailbox.rtMbSend, gone, Bool.false_eq_true, ↓reduceIte]
  exact ⟨_, (((((Reaches.single reads).trans sends).trans (Reaches.single continues)).trans
    closes).trans (Reaches.single rereads)).trans (Reaches.single misuses), rfl⟩

/-- A download uses its mailbox in order, for every interleaving, exactly when
it is chunked or when at most one read succeeds. -/
theorem download_orderly_iff (contentLength : Int) (results : List Int) (mbPool : Nat → Mail) :
    (∀ t, Reaches step (start contentLength results mbPool) t → Orderly t) ↔
      contentLength < 0 ∨ successfulReads contentLength 0 results ≤ 1 := by
  constructor
  · intro orderly
    by_cases chunked : contentLength < 0
    · exact .inl chunked
    · right
      by_contra many
      obtain ⟨first, second, rest, rfl, read, unfinished, again⟩ := two_reads chunked many
      obtain ⟨t, reached, misused⟩ :=
        second_read_misuses contentLength first second rest mbPool chunked read unfinished again
      rw [(orderly t reached).fine] at misused
      cases misused
  · intro short t reached
    by_cases chunked : contentLength < 0
    · have inv := reached.invariant Unclosed (unclosed_start contentLength results mbPool chunked)
        fun label _ _ inv taken => inv.next label taken
      refine ⟨inv.fine, ?_⟩
      intro stopped
      rw [inv.reader] at stopped
      cases stopped
    · apply OnePage.orderly
      apply reached.invariant OnePage
        (onePage_start contentLength results mbPool chunked (short.resolve_left chunked))
      intro label u v inv taken
      cases label with
      | thread1 => exact inv.thread1 taken
      | thread2 => exact inv.thread2 taken

/-- A page of 2048 bytes in two full reads. -/
theorem second_buffer_misuses :
    ¬ ∀ t, Reaches step (start 2048 [1024, 1024] fun _ => .mbStr3) t → Orderly t := by
  intro orderly
  have misused : (run step (List.replicate 5 .thread2 ++ List.replicate 4 .thread1 ++
      List.replicate 2 .thread2) (start 2048 [1024, 1024] fun _ => .mbStr3)).map Download.misused =
      some true := by decide +kernel
  obtain ⟨t, reached, flag⟩ := Option.map_eq_some_iff.mp misused
  rw [(orderly t ⟨_, reached⟩).fine] at flag
  cases flag

end KyokaMirror.Http
