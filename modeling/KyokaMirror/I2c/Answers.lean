import KyokaMirror.I2c.Master

set_option autoImplicit false

namespace KyokaMirror.I2c

/-- Poll number `k` finds the bit clear before it gives up. -/
def PollEnds (bus : Bus) (k : Nat) (bit : BitVec 8) : Prop :=
  ∃ j < 20000, bus.poll k j &&& bit = 0

/-- So do the polls from number `p` on, for these bits one after the other. -/
def PollsEnd (bus : Bus) (p : Nat) (bits : List (BitVec 8)) : Prop :=
  ∀ k bit, bits[k]? = some bit → PollEnds bus (p + k) bit

/-- The `n` checks from number `a` on find an ACK. -/
def Acknowledged (bus : Bus) (a n : Nat) : Prop :=
  ∀ k < n, ls1cI2cStatusNack &&& bus.ack (a + k) = 0

theorem pollLoop_iff (status : Nat → BitVec 8) (bit : BitVec 8) (n j : Nat) :
    pollLoop status bit n j = true ↔ ∃ k < n, status (j + k) &&& bit = 0 := by
  induction n generalizing j with
  | zero => exact ⟨fun loop => absurd loop Bool.false_ne_true, fun ⟨k, bound, _⟩ => by omega⟩
  | succ n ih =>
      rw [pollLoop]
      split
      next clear => exact ⟨fun _ => ⟨0, by omega, clear⟩, fun _ => rfl⟩
      next set =>
        rw [ih]
        constructor
        · rintro ⟨k, bound, clear⟩
          exact ⟨k + 1, by omega, by rwa [Nat.add_right_comm] at clear⟩
        · rintro ⟨k, bound, clear⟩
          cases k with
          | zero => exact absurd clear set
          | succ k => exact ⟨k, by omega, by rwa [Nat.add_right_comm]⟩

section

variable {bus : Bus}

theorem pollsEnd_nil (p : Nat) : PollsEnd bus p [] :=
  fun _ _ found => absurd found (by simp)

theorem pollsEnd_cons (p : Nat) (bit : BitVec 8) (bits : List (BitVec 8)) :
    PollsEnd bus p (bit :: bits) ↔ PollEnds bus p bit ∧ PollsEnd bus (p + 1) bits := by
  constructor
  · intro ends
    refine ⟨ends 0 bit rfl, fun k other found => ?_⟩
    rw [Nat.add_right_comm]
    exact ends (k + 1) other found
  · rintro ⟨first, rest⟩ k other found
    cases k with
    | zero =>
        obtain rfl : bit = other := Option.some.inj found
        exact first
    | succ k =>
        have later := rest k other found
        rwa [Nat.add_right_comm] at later

theorem pollsEnd_append (p : Nat) (front back : List (BitVec 8)) :
    PollsEnd bus p (front ++ back) ↔
      PollsEnd bus p front ∧ PollsEnd bus (p + front.length) back := by
  induction front generalizing p with
  | nil => exact ⟨fun ends => ⟨pollsEnd_nil p, ends⟩, fun ends => ends.2⟩
  | cons bit front ih =>
      rw [List.cons_append, pollsEnd_cons, pollsEnd_cons, ih, List.length_cons, and_assoc,
        Nat.add_assoc, Nat.add_comm 1]

theorem acknowledged_zero (a : Nat) : Acknowledged bus a 0 :=
  fun _ bound => absurd bound (Nat.not_lt_zero _)

theorem acknowledged_succ (a n : Nat) :
    Acknowledged bus a (n + 1) ↔
      ls1cI2cStatusNack &&& bus.ack a = 0 ∧ Acknowledged bus (a + 1) n := by
  constructor
  · intro all
    refine ⟨all 0 (Nat.succ_pos n), fun k bound => ?_⟩
    rw [Nat.add_right_comm]
    exact all (k + 1) (by omega)
  · rintro ⟨first, rest⟩ k bound
    cases k with
    | zero => exact first
    | succ k =>
        have later := rest k (by omega)
        rwa [Nat.add_right_comm] at later

theorem acknowledged_add (a m n : Nat) :
    Acknowledged bus a (m + n) ↔ Acknowledged bus a m ∧ Acknowledged bus (a + m) n := by
  induction m generalizing a with
  | zero =>
      rw [Nat.zero_add]
      exact ⟨fun all => ⟨acknowledged_zero a, all⟩, fun all => all.2⟩
  | succ m ih =>
      rw [Nat.add_right_comm, acknowledged_succ, acknowledged_succ, ih, and_assoc, Nat.add_assoc,
        Nat.add_comm 1]

end

/-- The line after so many polls, checks and reads. -/
def Line.advance (line : Line) (polls acks reads : Nat) (events : List Event) : Line :=
  ⟨line.polls + polls, line.acks + acks, line.reads + reads, line.trace ++ events⟩

theorem Line.advance_advance (line : Line) (p a r p' a' r' : Nat) (first second : List Event) :
    (line.advance p a r first).advance p' a' r' second =
      line.advance (p + p') (a + a') (r + r') (first ++ second) := by
  simp only [Line.advance, Nat.add_assoc, List.append_assoc]

section

variable (line : Line) (p a r : Nat) (events : List Event)

@[simp] theorem Line.advance_reads : (line.advance p a r events).reads = line.reads + r := rfl
@[simp] theorem Line.advance_trace :
    (line.advance p a r events).trace = line.trace ++ events := rfl

end

section

variable (bus : Bus) (line : Line)

theorem i2cCmd_eq (cmd : BitVec 8) :
    i2cCmd cmd line = line.advance 0 0 0 [.write ls1cI2cCmdOffset cmd] := rfl

theorem regWrite8_eq (value : BitVec 8) (offset : Nat) :
    regWrite8 value offset line = line.advance 0 0 0 [.write offset value] := rfl

theorem readData_eq :
    readData bus line = (bus.data line.reads,
      line.advance 0 0 1 [.read ls1cI2cDataOffset (bus.data line.reads)]) := rfl

theorem i2cPollStatus_eq (bit : BitVec 8) :
    i2cPollStatus bus bit line = (pollLoop (bus.poll line.polls) bit 20000 0,
      line.advance 1 0 0 [.polled (pollLoop (bus.poll line.polls) bit 20000 0)]) := rfl

theorem i2cReceiveAck_eq :
    i2cReceiveAck bus line = (decide (ls1cI2cStatusNack &&& bus.ack line.acks = 0),
      line.advance 0 1 0 [.acked (decide (ls1cI2cStatusNack &&& bus.ack line.acks = 0))]) := rfl

variable {bus}

theorem pollLoop_ends_iff (k : Nat) (bit : BitVec 8) :
    pollLoop (bus.poll k) bit 20000 0 = true ↔ PollEnds bus k bit := by
  simp only [pollLoop_iff, Nat.zero_add, PollEnds]

theorem i2cPollStatus_ends {bit : BitVec 8} (ends : PollEnds bus line.polls bit) :
    i2cPollStatus bus bit line = (true, line.advance 1 0 0 [.polled true]) := by
  rw [i2cPollStatus_eq, (pollLoop_ends_iff _ bit).mpr ends]

theorem i2cReceiveAck_acked (acked : ls1cI2cStatusNack &&& bus.ack line.acks = 0) :
    i2cReceiveAck bus line = (true, line.advance 0 1 0 [.acked true]) := by
  rw [i2cReceiveAck_eq, decide_eq_true acked]

end

end KyokaMirror.I2c
