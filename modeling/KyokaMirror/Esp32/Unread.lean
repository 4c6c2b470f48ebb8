import KyokaMirror.Esp32.Notification
import KyokaMirror.RtThread.Serial

set_option autoImplicit false

namespace KyokaMirror.Esp32

open RtThread (RxFifo bufsz)
open Library.Transition

/-- `esp32_thread_entry` in `rt_mq_recv`, or in a read with `length` bytes to
go. -/
inductive Reader where
  | blocked
  | reading (length : Nat)
  deriving DecidableEq, Repr

/-- The serial device, the sizes in `rx_mq` and the thread. -/
structure Link where
  fifo : RxFifo
  rxMq : List Nat
  reader : Reader

/-- `uart_input` ignores that a full queue drops its message. -/
def uartInput (rxMq : List Nat) (size : Nat) : List Nat :=
  if rxMq.length < rxMqMsgs then rxMq ++ [size] else rxMq

/-- `rt_hw_serial_isr` with the bytes that the hardware has at hand. -/
def serialIsr (s : Link) (bytes : List UInt8) : Link :=
  let fifo := bytes.foldl RxFifo.put s.fifo
  { s with
    fifo := fifo
    rxMq := if fifo.rxLength ≠ 0 then uartInput s.rxMq fifo.rxLength else s.rxMq }

/-- The part of a message's promise that one read can keep. -/
def readLength (size : Nat) : Nat := if 127 > size then size else 127

def receive (s : Link) : Option Link :=
  match s.reader, s.rxMq with
  | .blocked, size :: rest => some { s with rxMq := rest, reader := .reading (readLength size) }
  | _, _ => none

/-- One turn of the read loop; the read ends with its length or with the data. -/
def readByte (s : Link) : Option Link :=
  match s.reader with
  | .blocked => none
  | .reading 0 => some { s with reader := .blocked }
  | .reading (length + 1) =>
      match s.fifo.get with
      | none => some { s with reader := .blocked }
      | some (_, left) => some { s with fifo := left, reader := .reading length }

inductive ThreadLabel where
  | receive
  | readByte
  deriving DecidableEq, Repr

def threadStep : ThreadLabel → Link → Option Link
  | .receive, s => receive s
  | .readByte, s => readByte s

inductive LinkLabel where
  | interrupt (bytes : List UInt8)
  | thread (label : ThreadLabel)
  deriving DecidableEq, Repr

/-- An interrupt brings any bytes that fit in the ring. -/
def linkStep : LinkLabel → Link → Option Link
  | .interrupt bytes, s =>
      if s.fifo.rxLength + bytes.length < bufsz then some (serialIsr s bytes) else none
  | .thread label, s => threadStep label s

def linkStart (buffer : Nat → UInt8) : Link where
  fifo := ⟨buffer, 0, 0, false, by decide, by decide⟩
  rxMq := []
  reader := .blocked

/-- Unread bytes that no message announces any more. -/
def Stranded (s : Link) : Prop := s.rxMq = [] ∧ s.reader = .blocked ∧ s.fifo.rxLength ≠ 0

/-- The bytes that the thread will read without a further interrupt. -/
def credit (s : Link) : Nat :=
  (s.rxMq.map readLength).sum +
    match s.reader with
    | .blocked => 0
    | .reading length => length

/-- The announced bytes, those of this interrupt's own message included, cover
the unread ones. -/
def Covered (s : Link) (bytes : List UInt8) : Prop :=
  s.fifo.rxLength + bytes.length ≤
    credit s + if s.rxMq.length < rxMqMsgs then readLength (s.fifo.rxLength + bytes.length) else 0

instance (s : Link) (bytes : List UInt8) : Decidable (Covered s bytes) :=
  inferInstanceAs (Decidable (_ ≤ _))

theorem receive_cases {s t : Link} (taken : receive s = some t) :
    ∃ size rest, s.reader = .blocked ∧ s.rxMq = size :: rest ∧
      t = { s with rxMq := rest, reader := .reading (readLength size) } := by
  unfold receive at taken
  split at taken
  · rename_i size rest blocked queue
    exact ⟨size, rest, blocked, queue, (Option.some.inj taken).symm⟩
  · cases taken

theorem readByte_cases {s t : Link} (live : s.fifo.isFull = false) (taken : readByte s = some t) :
    (∃ length, s.reader = .reading length ∧ (length = 0 ∨ s.fifo.rxLength = 0) ∧
      t = { s with reader := .blocked }) ∨
    (∃ length left, s.reader = .reading (length + 1) ∧ 0 < s.fifo.rxLength ∧
      left.rxLength = s.fifo.rxLength - 1 ∧ left.isFull = false ∧
      t = { s with fifo := left, reader := .reading length }) := by
  unfold readByte at taken
  split at taken
  · cases taken
  · rename_i reading
    exact .inl ⟨0, reading, .inl rfl, (Option.some.inj taken).symm⟩
  · rename_i length reading
    by_cases empty : s.fifo.rxLength = 0
    · rw [RxFifo.get_eq_none live empty] at taken
      exact .inl ⟨length + 1, reading, .inr empty, (Option.some.inj taken).symm⟩
    · have filled := Nat.pos_of_ne_zero empty
      obtain ⟨ch, left, gets, count, still⟩ := RxFifo.get_eq_some filled
      rw [gets] at taken
      exact .inr ⟨length, left, reading, filled, count, still, (Option.some.inj taken).symm⟩

theorem credit_isr (s : Link) (bytes : List UInt8)
    (space : s.fifo.rxLength + bytes.length < bufsz) :
    (serialIsr s bytes).fifo.rxLength = s.fifo.rxLength + bytes.length ∧
      (serialIsr s bytes).fifo.isFull = s.fifo.isFull ∧
      credit (serialIsr s bytes) = credit s +
        if s.rxMq.length < rxMqMsgs then readLength (s.fifo.rxLength + bytes.length) else 0 := by
  obtain ⟨count, full⟩ := RxFifo.put_all_of_space bytes s.fifo space
  refine ⟨count, full, ?_⟩
  simp only [credit, serialIsr, count, uartInput]
  by_cases none : s.fifo.rxLength + bytes.length = 0
  · simp only [none, ne_eq, not_true_eq_false, ↓reduceIte, readLength]
    split_ifs <;> omega
  · rw [if_pos none]
    split_ifs with room
    · rw [List.map_append, List.sum_append, List.map_singleton, List.sum_singleton]
      omega
    · omega

/-- Every unread byte is announced. -/
structure Announced (s : Link) : Prop where
  live : s.fifo.isFull = false
  enough : s.fifo.rxLength ≤ credit s

theorem Announced.not_stranded {s : Link} (inv : Announced s) : ¬ Stranded s := by
  rintro ⟨queue, blocked, unread⟩
  have enough := inv.enough
  simp only [credit, queue, blocked, List.map_nil, List.sum_nil] at enough
  omega

theorem Announced.thread {s t : Link} {label : ThreadLabel} (inv : Announced s)
    (taken : threadStep label s = some t) : Announced t := by
  have enough := inv.enough
  cases label with
  | receive =>
      obtain ⟨size, rest, blocked, queue, rfl⟩ := receive_cases taken
      refine ⟨inv.live, ?_⟩
      simp only [credit, blocked, queue, List.map_cons, List.sum_cons] at enough ⊢
      omega
  | readByte =>
      obtain ⟨length, reading, ends, rfl⟩ | ⟨length, left, reading, _, count, live, rfl⟩ :=
        readByte_cases inv.live taken
      · refine ⟨inv.live, ?_⟩
        simp only [credit, reading] at enough ⊢
        omega
      · refine ⟨live, ?_⟩
        simp only [credit, reading] at enough ⊢
        omega

theorem Announced.interrupt {s t : Link} {bytes : List UInt8} (inv : Announced s)
    (covered : Covered s bytes) (taken : linkStep (.interrupt bytes) s = some t) : Announced t := by
  rw [linkStep] at taken
  split at taken
  · rename_i space
    obtain rfl := Option.some.inj taken
    obtain ⟨count, full, more⟩ := credit_isr s bytes space
    refine ⟨full.trans inv.live, ?_⟩
    rw [count, more]
    exact covered
  · cases taken

theorem Announced.run {labels : List LinkLabel} {s t : Link} (inv : Announced s)
    (covered : ∀ before bytes after u, labels = before ++ .interrupt bytes :: after →
      run linkStep before s = some u → Covered u bytes)
    (taken : run linkStep labels s = some t) : Announced t := by
  apply run_invariant Announced (fun label u => ∀ bytes, label = .interrupt bytes → Covered u bytes)
    _ inv taken
  · intro before label after u split reached bytes same
    exact covered before bytes after u (by rw [split, same]) reached
  · intro label u v kept fits step
    cases label with
    | interrupt bytes => exact kept.interrupt (fits bytes rfl) step
    | thread label => exact kept.thread step

/-- Interrupts whose bytes fit never overwrite an unread byte. -/
theorem linkStep_live {s t : Link} {label : LinkLabel} (live : s.fifo.isFull = false)
    (taken : linkStep label s = some t) : t.fifo.isFull = false := by
  cases label with
  | interrupt bytes =>
      rw [linkStep] at taken
      split at taken
      · rename_i space
        obtain rfl := Option.some.inj taken
        exact (credit_isr s bytes space).2.1.trans live
      · cases taken
  | thread label =>
      cases label with
      | receive =>
          obtain ⟨_, _, _, _, rfl⟩ := receive_cases taken
          exact live
      | readByte =>
          obtain ⟨_, _, _, rfl⟩ | ⟨_, _, _, _, _, still, rfl⟩ := readByte_cases live taken
          · exact live
          · exact still

theorem read_drained (length : Nat) :
    ∀ s : Link, s.fifo.isFull = false → s.reader = .reading length → length < s.fifo.rxLength →
      ∃ t, Reaches threadStep s t ∧ t.reader = .blocked ∧ t.rxMq = s.rxMq ∧
        t.fifo.isFull = false ∧ t.fifo.rxLength = s.fifo.rxLength - length := by
  induction length with
  | zero =>
      intro s live reading _
      have ends : threadStep .readByte s = some { s with reader := .blocked } := by
        simp only [threadStep, readByte, reading]
      exact ⟨_, Reaches.single ends, rfl, rfl, live, rfl⟩
  | succ length ih =>
      intro s live reading more
      obtain ⟨ch, left, gets, count, still⟩ :=
        RxFifo.get_eq_some (show 0 < s.fifo.rxLength by omega)
      have reads : threadStep .readByte s =
          some { s with fifo := left, reader := .reading length } := by
        simp only [threadStep, readByte, reading, gets]
      obtain ⟨t, reached, blocked, queue, live', rest⟩ :=
        ih { s with fifo := left, reader := .reading length } still rfl (by rw [count]; omega)
      refine ⟨t, (Reaches.single reads).trans reached, blocked, queue, live', ?_⟩
      rw [rest, count]
      omega

theorem queue_drained (queue : List Nat) :
    ∀ s : Link, s.fifo.isFull = false → s.reader = .blocked → s.rxMq = queue →
      (queue.map readLength).sum < s.fifo.rxLength → ∃ t, Reaches threadStep s t ∧ Stranded t := by
  induction queue with
  | nil =>
      intro s _ blocked queue more
      exact ⟨s, Reaches.refl _ s, queue, blocked, Nat.ne_of_gt more⟩
  | cons size rest ih =>
      intro s live blocked queue more
      rw [List.map_cons, List.sum_cons] at more
      have receives : threadStep .receive s =
          some { s with rxMq := rest, reader := .reading (readLength size) } := by
        simp only [threadStep, receive, blocked, queue]
      obtain ⟨t, reads, blocked', queue', live', left⟩ := read_drained (readLength size)
        { s with rxMq := rest, reader := .reading (readLength size) } live rfl
        (show readLength size < s.fifo.rxLength by omega)
      obtain ⟨u, drains, stranded⟩ := ih t live' blocked' queue' (by rw [left]; dsimp only; omega)
      exact ⟨u, ((Reaches.single receives).trans reads).trans drains, stranded⟩

theorem drained {s : Link} (live : s.fifo.isFull = false) (more : credit s < s.fifo.rxLength) :
    ∃ t, Reaches threadStep s t ∧ Stranded t := by
  cases reader : s.reader with
  | blocked =>
      simp only [credit, reader, Nat.add_zero] at more
      exact queue_drained s.rxMq s live reader rfl more
  | reading length =>
      simp only [credit, reader] at more
      obtain ⟨t, reads, blocked, queue, live', left⟩ :=
        read_drained length s live reader (by omega)
      obtain ⟨u, drains, stranded⟩ :=
        queue_drained s.rxMq t live' blocked queue (by rw [left]; omega)
      exact ⟨u, reads.trans drains, stranded⟩

/-- Along a run no byte is stranded, not even when the interrupts stop at some
point and the thread goes on alone, exactly when at every interrupt the
messages cover the unread bytes. -/
theorem never_stranded_iff (buffer : Nat → UInt8) (labels : List LinkLabel) (t : Link)
    (taken : run linkStep labels (linkStart buffer) = some t) :
    (∀ before after s u, labels = before ++ after →
      run linkStep before (linkStart buffer) = some s → Reaches threadStep s u → ¬ Stranded u) ↔
      ∀ before bytes after s, labels = before ++ .interrupt bytes :: after →
        run linkStep before (linkStart buffer) = some s → Covered s bytes := by
  constructor
  · intro safe before bytes after s split reached
    by_contra uncovered
    have live : s.fifo.isFull = false := by
      apply (show Reaches linkStep (linkStart buffer) s from ⟨before, reached⟩).invariant
        (fun v => v.fifo.isFull = false) rfl
      intro label u v still step
      exact linkStep_live still step
    have space : s.fifo.rxLength + bytes.length < bufsz := by
      by_contra overflow
      rw [split, run_append, reached, Option.bind_some, run_cons, linkStep,
        if_neg overflow] at taken
      cases taken
    obtain ⟨count, full, more⟩ := credit_isr s bytes space
    obtain ⟨u, drains, stranded⟩ := drained (full.trans live) (by
      rw [count, more]
      exact Nat.lt_of_not_le uncovered)
    apply safe (before ++ [.interrupt bytes]) after (serialIsr s bytes) u _ _ drains stranded
    · rw [split, List.append_assoc, List.singleton_append]
    · rw [run_append, reached, Option.bind_some, run_singleton, linkStep, if_pos space]
  · intro covered before after s u split reached drains
    have start : Announced (linkStart buffer) := ⟨rfl, Nat.zero_le _⟩
    have inv : Announced s := by
      apply start.run _ reached
      intro first bytes rest v inner prior
      apply covered first bytes (rest ++ after) v _ prior
      rw [split, inner, List.append_assoc, List.cons_append]
    exact (drains.invariant Announced inv fun _ _ _ still step => still.thread step).not_stranded

theorem two_bytes_never_stranded :
    (∃ t, run linkStep [.interrupt [111, 107]] (linkStart fun _ => 0) = some t) ∧
      ∀ before after s u, [LinkLabel.interrupt [111, 107]] = before ++ after →
        run linkStep before (linkStart fun _ => 0) = some s → Reaches threadStep s u →
        ¬ Stranded u := by
  have taken : run linkStep [.interrupt [111, 107]] (linkStart fun _ => 0) =
      some (serialIsr (linkStart fun _ => 0) [111, 107]) := rfl
  refine ⟨⟨_, taken⟩, (never_stranded_iff (fun _ => 0) [.interrupt [111, 107]] _ taken).mpr ?_⟩
  intro before bytes after s split reached
  cases before with
  | nil =>
      obtain ⟨same, _⟩ := List.cons.inj split
      cases same
      cases reached
      decide
  | cons label rest =>
      have size := congrArg List.length split
      simp only [List.length_cons, List.length_nil, List.length_append] at size
      omega

/-- One interrupt with 128 bytes: its only message lets 127 of them be read. -/
theorem long_interrupt_strands :
    ¬ ∀ t, Reaches linkStep (linkStart fun _ => 0) t → ¬ Stranded t := by
  intro safe
  have left : (run linkStep (.interrupt (List.replicate 128 97) :: .thread .receive ::
      List.replicate 128 (.thread .readByte)) (linkStart fun _ => 0)).map
      (fun s => (s.rxMq, s.reader, s.fifo.rxLength)) = some ([], .blocked, 1) := by decide +kernel
  obtain ⟨t, reached, all⟩ := Option.map_eq_some_iff.mp left
  simp only [Prod.mk.injEq] at all
  apply safe t ⟨_, reached⟩
  exact ⟨all.1, all.2.1, by rw [all.2.2]; decide⟩

end KyokaMirror.Esp32
