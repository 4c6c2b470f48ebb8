import KyokaMirror.I2c.Accesses

set_option autoImplicit false

namespace KyokaMirror.I2c

/-- Not a poll that gave up, and not a byte that was refused. -/
def Event.fine : Event → Bool
  | .write _ _ => true
  | .read _ _ => true
  | .polled ended => ended
  | .acked ack => ack

def Clean (events : List Event) : Prop := ∀ event ∈ events, event.fine = true

theorem clean_nil : Clean [] := fun _ inside => absurd inside List.not_mem_nil

theorem clean_append (first second : List Event) :
    Clean (first ++ second) ↔ Clean first ∧ Clean second := by
  simp only [Clean, List.mem_append, or_imp, forall_and]

theorem clean_singleton (event : Event) : Clean [event] ↔ event.fine = true := by
  simp only [Clean, List.mem_singleton, forall_eq]

/- A clean trace was clean before the call, and tells how the bus has
answered. -/

section

variable {bus : Bus} {line : Line}

theorem clean_of_advance {p a r : Nat} {events : List Event}
    (clean : Clean (line.advance p a r events).trace) : Clean line.trace :=
  ((clean_append _ _).mp clean).1

theorem read_of_clean (clean : Clean (readData bus line).2.trace) : Clean line.trace := by
  rw [readData_eq] at clean
  exact clean_of_advance clean

theorem stop_of_clean (clean : Clean (i2cSendStop line).trace) : Clean line.trace := by
  rw [i2cSendStop, i2cCmd_eq] at clean
  exact clean_of_advance clean

theorem poll_of_clean {bit : BitVec 8} (clean : Clean (i2cPollStatus bus bit line).2.trace) :
    Clean line.trace ∧ PollEnds bus line.polls bit := by
  rw [i2cPollStatus_eq, Line.advance_trace, clean_append, clean_singleton] at clean
  exact ⟨clean.1, (pollLoop_ends_iff _ _).mp clean.2⟩

theorem ack_of_clean (clean : Clean (i2cReceiveAck bus line).2.trace) :
    Clean line.trace ∧ ls1cI2cStatusNack &&& bus.ack line.acks = 0 := by
  rw [i2cReceiveAck_eq, Line.advance_trace, clean_append, clean_singleton] at clean
  exact ⟨clean.1, of_decide_eq_true clean.2⟩

theorem start_of_clean {addr : BitVec 8} {read : Bool}
    (clean : Clean (i2cSendStartAndAddr bus addr read line).2.trace) :
    Clean line.trace ∧ PollsEnd bus line.polls [ls1cI2cStatusBusy, ls1cI2cStatusTip] := by
  rw [i2cSendStartAndAddr] at clean
  by_cases busy : PollEnds bus line.polls ls1cI2cStatusBusy
  · rw [i2cPollStatus_ends line busy, if_neg (not_not.mpr rfl)] at clean
    simp only [regWrite8_eq, i2cCmd_eq, Line.advance_advance, apply_ite Prod.snd, ite_self]
      at clean
    obtain ⟨before, tip⟩ := poll_of_clean clean
    rw [pollsEnd_cons, pollsEnd_cons]
    exact ⟨clean_of_advance before, busy, tip, pollsEnd_nil _⟩
  · have failed : ¬(i2cPollStatus bus ls1cI2cStatusBusy line).1 = true := fun ended =>
      busy ((pollLoop_ends_iff _ _).mp ended)
    rw [if_pos failed] at clean
    exact absurd (poll_of_clean clean).2 busy

theorem receive_of_clean {len n : Nat} {buf : Nat → BitVec 8}
    (clean : Clean (receiveLoop bus len n buf line).2.2.trace) :
    Clean line.trace ∧ PollsEnd bus line.polls (List.replicate n ls1cI2cStatusTip) := by
  induction n generalizing buf line with
  | zero => exact ⟨clean, pollsEnd_nil _⟩
  | succ n ih =>
      rw [receiveLoop, i2cCmd_eq] at clean
      generalize (if len - (n + 1) ≠ len - 1 then ls1cI2cCmdReadAck else ls1cI2cCmdReadNack) = cmd
        at clean
      split at clean
      next failed =>
        obtain ⟨-, ends⟩ := poll_of_clean clean
        exact absurd ((pollLoop_ends_iff _ _).mpr ends) failed
      next =>
        obtain ⟨read, rest⟩ := ih clean
        obtain ⟨before, ends⟩ := poll_of_clean (read_of_clean read)
        rw [List.replicate_succ, pollsEnd_cons]
        exact ⟨clean_of_advance before, ends, rest⟩

theorem send_of_clean {data : Nat → BitVec 8} {len n : Nat}
    (clean : Clean (sendLoop bus data len n line).2.trace) :
    Clean line.trace ∧ PollsEnd bus line.polls (List.replicate n ls1cI2cStatusTip) ∧
      Acknowledged bus line.acks n := by
  induction n generalizing line with
  | zero => exact ⟨clean, pollsEnd_nil _, acknowledged_zero _⟩
  | succ n ih =>
      rw [sendLoop, regWrite8_eq, i2cCmd_eq, Line.advance_advance] at clean
      split at clean
      next failed =>
        obtain ⟨-, ends⟩ := poll_of_clean clean
        exact absurd ((pollLoop_ends_iff _ _).mpr ends) failed
      next =>
        dsimp only at clean
        split at clean
        next refused =>
          obtain ⟨-, acked⟩ := ack_of_clean clean
          exact absurd (decide_eq_true acked) refused
        next =>
          obtain ⟨sent, rest, ackedRest⟩ := ih clean
          obtain ⟨polled, acked⟩ := ack_of_clean sent
          obtain ⟨before, ends⟩ := poll_of_clean polled
          rw [List.replicate_succ, pollsEnd_cons, acknowledged_succ]
          exact ⟨clean_of_advance before, ⟨ends, rest⟩, acked, ackedRest⟩

theorem message_of_clean {msg : RtI2cMsg} (clean : Clean (xferMessage bus msg line).2.trace) :
    PollsEnd bus line.polls (pollBits msg) ∧ Acknowledged bus line.acks (ackCount msg) := by
  by_cases read : msg.flags = rtI2cRd
  · rw [xferMessage, if_pos read] at clean
    obtain ⟨acked, polls⟩ := receive_of_clean (stop_of_clean clean)
    obtain ⟨started, ack⟩ := ack_of_clean acked
    obtain ⟨-, start⟩ := start_of_clean started
    rw [i2cSendStartAndAddr_ends line _ _ start] at polls ack
    rw [pollBits_known msg (.inl read), pollsEnd_append, ackCount, if_pos read, acknowledged_succ]
    exact ⟨⟨start, polls⟩, ack, acknowledged_zero _⟩
  · by_cases write : msg.flags = rtI2cWr
    · rw [xferMessage, if_neg read, if_pos write] at clean
      obtain ⟨acked, polls, acks⟩ := send_of_clean (stop_of_clean clean)
      obtain ⟨started, ack⟩ := ack_of_clean acked
      obtain ⟨-, start⟩ := start_of_clean started
      rw [i2cSendStartAndAddr_ends line _ _ start] at polls ack acks
      rw [pollBits_known msg (.inr write), pollsEnd_append, ackCount, if_neg read, if_pos write,
        acknowledged_add, acknowledged_succ]
      exact ⟨⟨start, polls⟩, ⟨ack, acknowledged_zero _⟩, acks⟩
    · rw [pollBits_other msg read write, ackCount, if_neg read, if_neg write]
      exact ⟨pollsEnd_nil _, acknowledged_zero _⟩

end

theorem loop_of_clean {bus : Bus} (msgs : List RtI2cMsg) (ret : Nat) (line : Line)
    (clean : ∀ trace ∈ (xferLoop bus msgs ret line).2.2, Clean trace) :
    PollsEnd bus line.polls (msgs.flatMap pollBits) ∧
      Acknowledged bus line.acks (ackTotal msgs) := by
  induction msgs generalizing ret line with
  | nil => exact ⟨pollsEnd_nil _, acknowledged_zero _⟩
  | cons msg rest ih =>
      rw [xferLoop, List.forall_mem_cons] at clean
      obtain ⟨ends, acked⟩ := message_of_clean clean.1
      have others := ih _ _ clean.2
      rw [xferMessage_ends msg { line with trace := [] } ends acked] at others
      rw [List.flatMap_cons, pollsEnd_append, ackTotal, acknowledged_add]
      exact ⟨⟨ends, others.1⟩, acked, others.2⟩

theorem receiveEvents_clean (bus : Bus) (n r : Nat) : Clean (receiveEvents bus n r) := by
  induction n generalizing r with
  | zero => exact clean_nil
  | succ n ih =>
      rw [Clean, receiveEvents, List.forall_mem_cons, List.forall_mem_cons, List.forall_mem_cons]
      exact ⟨rfl, rfl, rfl, ih (r + 1)⟩

theorem sendEvents_clean (bytes : List (BitVec 8)) : Clean (sendEvents bytes) := by
  induction bytes with
  | nil => exact clean_nil
  | cons byte rest ih =>
      rw [Clean, sendEvents, List.forall_mem_cons, List.forall_mem_cons, List.forall_mem_cons,
        List.forall_mem_cons]
      exact ⟨rfl, rfl, rfl, rfl, ih⟩

theorem messageEvents_clean (bus : Bus) (r : Nat) (msg : RtI2cMsg) :
    Clean (messageEvents bus r msg) := by
  have start : ∀ byte, Clean (startEvents byte) := fun _ => by simp [Clean, startEvents, Event.fine]
  have acked : Clean [.acked true] := (clean_singleton _).mpr rfl
  have stop : Clean [.write ls1cI2cCmdOffset ls1cI2cCmdStop] := (clean_singleton _).mpr rfl
  rw [messageEvents]
  split
  next =>
    rw [clean_append, clean_append, clean_append]
    exact ⟨⟨⟨start _, acked⟩, receiveEvents_clean bus _ r⟩, stop⟩
  next =>
    split
    next =>
      rw [clean_append, clean_append, clean_append]
      exact ⟨⟨⟨start _, acked⟩, sendEvents_clean _⟩, stop⟩
    next => exact clean_nil

theorem transferEvents_clean (bus : Bus) (msgs : List RtI2cMsg) (r : Nat) :
    ∀ trace ∈ transferEvents bus r msgs, Clean trace := by
  induction msgs generalizing r with
  | nil => exact fun _ inside => absurd inside List.not_mem_nil
  | cons msg rest ih =>
      rw [transferEvents, List.forall_mem_cons]
      exact ⟨messageEvents_clean bus r msg, ih _⟩

def KnownFlags (msgs : List RtI2cMsg) : Prop :=
  ∀ msg ∈ msgs, msg.flags = rtI2cRd ∨ msg.flags = rtI2cWr

/-- Every message is a read or a write, every byte sent was acknowledged and no
poll gave up. -/
def Flawless (bus : Bus) (msgs : List RtI2cMsg) : Prop :=
  KnownFlags msgs ∧ ∀ trace ∈ (rtI2cMasterXfer bus msgs).traces, Clean trace

def Event.isData : Event → Bool
  | .write offset _ => offset = ls1cI2cDataOffset
  | .read offset _ => offset = ls1cI2cDataOffset
  | .polled _ => false
  | .acked _ => false

/-- The first check for ACK in a message's trace is that of the address; if it
fails, no data follows. -/
def QuietAfterRefusal (trace : List Event) : Prop :=
  ∀ before after, trace = before ++ .acked false :: after →
    (∀ ack, .acked ack ∉ before) → ∀ event ∈ after, event.isData = false

structure ReportsFailures (bus : Bus) (msgs : List RtI2cMsg) : Prop where
  counted : (rtI2cMasterXfer bus msgs).ret = msgs.length → Flawless bus msgs
  fewer : ¬Flawless bus msgs → (rtI2cMasterXfer bus msgs).ret < msgs.length
  quiet : ∀ trace ∈ (rtI2cMasterXfer bus msgs).traces, QuietAfterRefusal trace

/-- Every message is counted, whatever happened. -/
theorem xferLoop_ret (bus : Bus) (msgs : List RtI2cMsg) (ret : Nat) (line : Line) :
    (xferLoop bus msgs ret line).1 = ret + msgs.length := by
  induction msgs generalizing ret line with
  | nil => rfl
  | cons msg rest ih =>
      rw [xferLoop, List.length_cons, ih]
      omega

theorem flawless_iff (bus : Bus) (msgs : List RtI2cMsg) :
    Flawless bus msgs ↔ KnownFlags msgs ∧ PollsEnd bus 0 (msgs.flatMap pollBits) ∧
      Acknowledged bus 0 (ackTotal msgs) := by
  constructor
  · rintro ⟨flags, clean⟩
    exact ⟨flags, loop_of_clean msgs 0 (i2cInit bus 50000 ⟨0, 0, 0, []⟩) clean⟩
  · rintro ⟨flags, ends, acked⟩
    refine ⟨flags, ?_⟩
    rw [rtI2cMasterXfer, xferLoop_ends msgs 0 (i2cInit bus 50000 ⟨0, 0, 0, []⟩) ends acked]
    exact transferEvents_clean bus msgs 0

/-- A transfer reports its failures exactly if it has none. -/
theorem reports_failures_iff (bus : Bus) (msgs : List RtI2cMsg) :
    ReportsFailures bus msgs ↔ KnownFlags msgs ∧ PollsEnd bus 0 (msgs.flatMap pollBits) ∧
      Acknowledged bus 0 (ackTotal msgs) := by
  rw [← flawless_iff]
  constructor
  · intro reports
    exact reports.counted ((xferLoop_ret bus msgs 0 _).trans (Nat.zero_add _))
  · intro flawless
    refine ⟨fun _ => flawless, fun flawed => absurd flawless flawed, ?_⟩
    rintro trace inside before after rfl - event -
    have refused := flawless.2 _ inside (.acked false) (by simp)
    exact absurd refused Bool.false_ne_true

/-- The slave refuses its address, the byte is sent all the same, and the message
is counted. -/
theorem refused_address_counted :
    ¬ReportsFailures { obligingBus with ack := fun _ => 0x80 }
      [⟨0x50, rtI2cWr, 1, fun _ => 0x12⟩] := by
  intro reports
  have flawless := reports.counted (by decide +kernel)
  have acked := flawless.2 _ (List.mem_singleton_self _) (.acked false) (by decide +kernel)
  exact absurd acked Bool.false_ne_true

end KyokaMirror.I2c
