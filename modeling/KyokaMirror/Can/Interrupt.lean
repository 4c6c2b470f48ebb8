import KyokaMirror.Can.Config
import KyokaMirror.Library.Transition

set_option autoImplicit false

namespace KyokaMirror.Can

open Library.Transition

def canIrRI : BitVec 8 := 0x01
def canIrTI : BitVec 8 := 0x02
def canIrDOI : BitVec 8 := 0x08

/-- The events that the handlers pass to `rt_hw_can_isr`. -/
inductive CanEvent where
  | rxInd
  | txDone
  | rxofInd
  deriving DecidableEq, Repr

/-- The one transmission that may be outstanding: until its `TX_DONE` the sender
waits. -/
inductive Transmission where
  | idle
  | sending
  | completed
  deriving DecidableEq, Repr

/-- The controller and its handler, which holds the causes it has read. RI is
pending as long as the receive buffer holds a frame. `unseen` says that no
`RXOF_IND` has followed the last overrun, `owed` that the handler has read a DOI
for which it has sent none. -/
structure Bus where
  frames : Nat
  ti : Bool
  doi : Bool
  handler : Option (BitVec 8)
  tx : Transmission
  completions : Nat
  events : List CanEvent
  unseen : Bool
  owed : Bool
  deriving DecidableEq, Repr

def Bus.ir (s : Bus) : BitVec 8 :=
  (if 0 < s.frames then canIrRI else 0) ||| (if s.ti then canIrTI else 0) |||
    (if s.doi then canIrDOI else 0)

/-- `status = CANx->IR`. The read clears TI and DOI. -/
def readIr (s : Bus) : Bus :=
  { s with handler := some s.ir, ti := false, doi := false, owed := s.owed || s.doi }

/-- The chain of `else if` behind the read. -/
def branch (status : BitVec 8) : Option CanEvent :=
  if status &&& canIrRI = canIrRI then some .rxInd
  else if status &&& canIrTI = canIrTI then some .txDone
  else if status &&& canIrDOI = canIrDOI then some .rxofInd
  else none

/-- The rest of the handler. The receive branch releases the buffer of one
frame, and `TX_DONE` lets the sender go on. -/
def serve (status : BitVec 8) (s : Bus) : Bus :=
  match branch status with
  | some .rxInd =>
      { s with handler := none, frames := s.frames - 1, events := s.events ++ [.rxInd] }
  | some .txDone => { s with handler := none, tx := .idle, events := s.events ++ [.txDone] }
  | some .rxofInd =>
      { s with handler := none, unseen := false, owed := false, events := s.events ++ [.rxofInd] }
  | none => { s with handler := none }

inductive HandlerLabel where
  | read
  | serve
  deriving DecidableEq, Repr

def handlerStep : HandlerLabel → Bus → Option Bus
  | .read, s => if s.handler = none then some (readIr s) else none
  | .serve, s => s.handler.map fun status => Can.serve status s

inductive BusLabel where
  | arrive
  | overrun
  | send
  | complete
  | handler (label : HandlerLabel)
  deriving DecidableEq, Repr

def busStep : BusLabel → Bus → Option Bus
  | .arrive, s => some { s with frames := s.frames + 1 }
  | .overrun, s => some { s with doi := true, unseen := true }
  | .send, s => if s.tx = .idle then some { s with tx := .sending } else none
  | .complete, s =>
      if s.tx = .sending then
        some { s with tx := .completed, ti := true, completions := s.completions + 1 }
      else none
  | .handler label, s => handlerStep label s

def busStart : Bus where
  frames := 0
  ti := false
  doi := false
  handler := none
  tx := .idle
  completions := 0
  events := []
  unseen := false
  owed := false

/-- No cause is pending, and none is being served. -/
structure Quiescent (s : Bus) : Prop where
  frames : s.frames = 0
  ti : s.ti = false
  doi : s.doi = false
  handler : s.handler = none

/-- Every completed transmission has had its one `TX_DONE`, and every overrun an
`RXOF_IND` of its own DOI. -/
structure Answered (s : Bus) : Prop where
  tx : s.events.count .txDone = s.completions
  unseen : s.unseen = false
  owed : s.owed = false

def Lost (s : Bus) : Prop := Quiescent s ∧ ¬ Answered s

/-- The state in which the next read of IR finds the controller. -/
def finish (s : Bus) : Bus :=
  match s.handler with
  | none => s
  | some status => serve status s

/-- RI is not pending together with another cause, nor TI with DOI. -/
def Single (s : Bus) : Prop :=
  ¬ (0 < s.frames ∧ (s.ti = true ∨ s.doi = true)) ∧ ¬ (s.ti = true ∧ s.doi = true)

/-- At most one cause waits for the next read. -/
def Alone (s : Bus) : Prop := Single (finish s)

theorem branch_ir (s : Bus) : branch s.ir =
    if 0 < s.frames then some .rxInd
    else if s.ti then some .txDone
    else if s.doi then some .rxofInd
    else none := by
  unfold Bus.ir
  by_cases waiting : 0 < s.frames
  · rw [if_pos waiting, if_pos waiting]
    cases s.ti <;> cases s.doi <;> decide
  · rw [if_neg waiting, if_neg waiting]
    cases s.ti <;> cases s.doi <;> decide

/-- The completed transmission that has had no `TX_DONE` yet. -/
def outstanding (tx : Transmission) : Nat := if tx = .completed then 1 else 0

structure Counted (s : Bus) : Prop where
  done : s.completions = s.events.count .txDone + outstanding s.tx
  ti : s.ti = true → s.tx = .completed
  serving : ∀ status, s.handler = some status → branch status = some .txDone →
    s.tx = .completed ∧ s.ti = false

theorem counted_start : Counted busStart where
  done := rfl
  ti := fun impossible => by cases impossible
  serving := fun _ impossible => by cases impossible

theorem Counted.readIr {s : Bus} (counted : Counted s) : Counted (readIr s) where
  done := counted.done
  ti := fun impossible => by cases impossible
  serving := by
    intro status read chain
    obtain rfl := Option.some.inj read
    rw [branch_ir] at chain
    refine ⟨?_, rfl⟩
    apply counted.ti
    split_ifs at chain with waiting sent overran
    · cases chain
    · exact sent
    · cases chain

theorem Counted.serve {s : Bus} (counted : Counted s) {status : BitVec 8}
    (reading : s.handler = some status) : Counted (serve status s) := by
  obtain ⟨done, ti, serving⟩ := counted
  unfold Can.serve
  cases chain : branch status with
  | none => exact ⟨done, ti, fun _ impossible => by cases impossible⟩
  | some event =>
      cases event with
      | rxInd =>
          refine ⟨?_, ti, fun _ impossible => by cases impossible⟩
          simpa [List.count_append] using done
      | txDone =>
          obtain ⟨completed, read⟩ := serving status reading chain
          refine ⟨?_, fun set => absurd (read.symm.trans set) (by decide),
            fun _ impossible => by cases impossible⟩
          simpa [List.count_append, outstanding, completed] using done
      | rxofInd =>
          refine ⟨?_, ti, fun _ impossible => by cases impossible⟩
          simpa [List.count_append] using done

theorem Counted.step {label : BusLabel} {s t : Bus} (counted : Counted s)
    (taken : busStep label s = some t) : Counted t := by
  cases label with
  | arrive =>
      obtain rfl := Option.some.inj taken
      exact ⟨counted.done, counted.ti, counted.serving⟩
  | overrun =>
      obtain rfl := Option.some.inj taken
      exact ⟨counted.done, counted.ti, counted.serving⟩
  | send =>
      rw [busStep] at taken
      split at taken
      · rename_i idle
        obtain rfl := Option.some.inj taken
        refine ⟨?_, ?_, ?_⟩
        · simpa [outstanding, idle] using counted.done
        · intro set
          exact absurd (idle.symm.trans (counted.ti set)) (by decide)
        · intro status reading chain
          exact absurd (idle.symm.trans (counted.serving status reading chain).1) (by decide)
      · cases taken
  | complete =>
      rw [busStep] at taken
      split at taken
      · rename_i sending
        obtain rfl := Option.some.inj taken
        refine ⟨?_, fun _ => rfl, ?_⟩
        · simpa [outstanding, sending] using counted.done
        · intro status reading chain
          exact absurd (sending.symm.trans (counted.serving status reading chain).1) (by decide)
      · cases taken
  | handler label =>
      cases label with
      | read =>
          rw [busStep, handlerStep] at taken
          split at taken
          · obtain rfl := Option.some.inj taken
            exact counted.readIr
          · cases taken
      | serve =>
          obtain ⟨status, reading, rfl⟩ := Option.map_eq_some_iff.mp taken
          exact counted.serve reading

/-- A completion or an overrun without its event is still pending, or in the
branch that the handler is about to take. -/
structure Kept (s : Bus) : Prop where
  tx : s.tx = .completed → s.ti = true ∨
    ∃ status, s.handler = some status ∧ branch status = some .txDone
  unseen : s.unseen = true → s.doi = true ∨ s.owed = true
  owed : s.owed = true → ∃ status, s.handler = some status ∧ branch status = some .rxofInd

theorem kept_start : Kept busStart where
  tx := fun impossible => by cases impossible
  unseen := fun impossible => by cases impossible
  owed := fun impossible => by cases impossible

/-- A quiescent state owes nothing. -/
theorem Kept.not_lost {s : Bus} (kept : Kept s) (counted : Counted s) : ¬ Lost s := by
  rintro ⟨⟨-, ti, doi, idle⟩, unanswered⟩
  have owed : s.owed = false := by
    rw [← Bool.not_eq_true]
    intro owes
    obtain ⟨status, reading, -⟩ := kept.owed owes
    exact absurd (idle.symm.trans reading) (by simp)
  have unseen : s.unseen = false := by
    rw [← Bool.not_eq_true]
    intro missed
    rcases kept.unseen missed with pending | owes
    · exact absurd (doi.symm.trans pending) (by decide)
    · exact absurd (owed.symm.trans owes) (by decide)
  apply unanswered
  refine ⟨?_, unseen, owed⟩
  have incomplete : s.tx ≠ .completed := by
    intro completed
    rcases kept.tx completed with pending | ⟨status, reading, -⟩
    · exact absurd (ti.symm.trans pending) (by decide)
    · exact absurd (idle.symm.trans reading) (by simp)
  have done := counted.done
  rw [outstanding, if_neg incomplete, Nat.add_zero] at done
  exact done.symm

theorem Kept.readIr {s : Bus} (kept : Kept s) (idle : s.handler = none) (single : Single s) :
    Kept (readIr s) := by
  have clear : s.owed = false := by
    rw [← Bool.not_eq_true]
    intro owes
    obtain ⟨status, reading, -⟩ := kept.owed owes
    exact absurd (idle.symm.trans reading) (by simp)
  obtain ⟨first, second⟩ := single
  refine ⟨?_, ?_, ?_⟩
  · intro completed
    rcases kept.tx completed with pending | ⟨status, reading, -⟩
    · refine .inr ⟨s.ir, rfl, ?_⟩
      rw [branch_ir, if_neg fun waiting => first ⟨waiting, .inl pending⟩, if_pos pending]
    · exact absurd (idle.symm.trans reading) (by simp)
  · intro missed
    rcases kept.unseen missed with pending | owes
    · exact .inr (by simp [Can.readIr, pending])
    · exact absurd (clear.symm.trans owes) (by decide)
  · intro owes
    have pending : s.doi = true := by simpa [Can.readIr, clear] using owes
    refine ⟨s.ir, rfl, ?_⟩
    rw [branch_ir, if_neg fun waiting => first ⟨waiting, .inr pending⟩,
      if_neg fun sent => second ⟨sent, pending⟩, if_pos pending]

theorem Kept.serve {s : Bus} (kept : Kept s) {status : BitVec 8}
    (reading : s.handler = some status) : Kept (serve status s) := by
  -- The cause in hand is that of `status`.
  have only : ∀ event, (∃ other, s.handler = some other ∧ branch other = some event) →
      branch status = some event := by
    rintro event ⟨other, held, chain⟩
    obtain rfl := Option.some.inj (reading.symm.trans held)
    exact chain
  obtain ⟨tx, unseen, owed⟩ := kept
  unfold Can.serve
  cases chain : branch status with
  | none =>
      refine ⟨fun completed => ?_, unseen, fun owes => ?_⟩
      · exact .inl ((tx completed).resolve_right fun held =>
          absurd (chain.symm.trans (only _ held)) (by simp))
      · exact absurd (chain.symm.trans (only _ (owed owes))) (by simp)
  | some event =>
      cases event with
      | rxInd =>
          refine ⟨fun completed => ?_, unseen, fun owes => ?_⟩
          · exact .inl ((tx completed).resolve_right fun held =>
              absurd (chain.symm.trans (only _ held)) (by simp))
          · exact absurd (chain.symm.trans (only _ (owed owes))) (by simp)
      | txDone =>
          refine ⟨(fun impossible => by cases impossible), unseen, fun owes => ?_⟩
          exact absurd (chain.symm.trans (only _ (owed owes))) (by simp)
      | rxofInd =>
          refine ⟨fun completed => ?_, (fun impossible => by cases impossible),
            (fun impossible => by cases impossible)⟩
          exact .inl ((tx completed).resolve_right fun held =>
            absurd (chain.symm.trans (only _ held)) (by simp))

theorem alone_of_idle {s : Bus} (idle : s.handler = none) : Alone s ↔ Single s := by
  rw [Alone, finish, idle]

theorem serve_idle (status : BitVec 8) (s : Bus) : (serve status s).handler = none ∧
    (serve status s).ti = s.ti ∧ (serve status s).doi = s.doi := by
  unfold serve
  split <;> exact ⟨rfl, rfl, rfl⟩

theorem single_of_clear {s : Bus} (ti : s.ti = false) (doi : s.doi = false) : Single s := by
  simp [Single, ti, doi]

theorem Kept.step {label : BusLabel} {s t : Bus} (kept : Kept s) (alone : Alone s)
    (taken : busStep label s = some t) : Kept t := by
  cases label with
  | arrive =>
      obtain rfl := Option.some.inj taken
      exact ⟨kept.tx, kept.unseen, kept.owed⟩
  | overrun =>
      obtain rfl := Option.some.inj taken
      exact ⟨kept.tx, fun _ => .inl rfl, kept.owed⟩
  | send =>
      rw [busStep] at taken
      split at taken
      · obtain rfl := Option.some.inj taken
        exact ⟨(fun impossible => by cases impossible), kept.unseen, kept.owed⟩
      · cases taken
  | complete =>
      rw [busStep] at taken
      split at taken
      · obtain rfl := Option.some.inj taken
        exact ⟨fun _ => .inl rfl, kept.unseen, kept.owed⟩
      · cases taken
  | handler label =>
      cases label with
      | read =>
          rw [busStep, handlerStep] at taken
          split at taken
          · rename_i idle
            obtain rfl := Option.some.inj taken
            exact kept.readIr idle ((alone_of_idle idle).mp alone)
          · cases taken
      | serve =>
          obtain ⟨status, reading, rfl⟩ := Option.map_eq_some_iff.mp taken
          exact kept.serve reading

/-- The handler alone never makes two causes meet. -/
theorem Alone.handlerStep {label : HandlerLabel} {s t : Bus} (alone : Alone s)
    (taken : handlerStep label s = some t) : Alone t := by
  cases label with
  | read =>
      rw [Can.handlerStep] at taken
      split at taken
      · obtain rfl := Option.some.inj taken
        obtain ⟨-, ti, doi⟩ := serve_idle s.ir (readIr s)
        exact single_of_clear ti doi
      · cases taken
  | serve =>
      obtain ⟨status, reading, rfl⟩ := Option.map_eq_some_iff.mp taken
      rw [alone_of_idle (serve_idle status s).1]
      rw [Alone, finish, reading] at alone
      exact alone

/-- The handler empties the receive buffer and does nothing else. -/
theorem drained (n : Nat) :
    ∀ s : Bus, s.frames = n → s.ti = false → s.doi = false → s.handler = none →
      ∃ u, Reaches handlerStep s u ∧ Quiescent u ∧ u.completions = s.completions ∧
        u.events.count .txDone = s.events.count .txDone ∧ u.owed = s.owed := by
  induction n with
  | zero =>
      intro s empty ti doi idle
      exact ⟨s, Reaches.refl _ s, ⟨empty, ti, doi, idle⟩, rfl, rfl, rfl⟩
  | succ n ih =>
      intro s count ti doi idle
      have read : handlerStep .read s = some (readIr s) := if_pos idle
      have served : handlerStep .serve (readIr s) = some (serve s.ir (readIr s)) := rfl
      have chain : branch s.ir = some .rxInd := by
        rw [branch_ir, if_pos (by omega)]
      have result : serve s.ir (readIr s) =
          { readIr s with
            handler := none, frames := s.frames - 1, events := s.events ++ [.rxInd] } := by
        rw [serve, chain]
        rfl
      obtain ⟨u, rest, quiet, completions, done, owed⟩ := ih (serve s.ir (readIr s))
        (by rw [result]; exact Nat.sub_eq_of_eq_add count) (by rw [result]; rfl)
        (by rw [result]; rfl) (by rw [result])
      refine ⟨u, ((Reaches.single read).trans (Reaches.single served)).trans rest, quiet, ?_, ?_, ?_⟩
      · rw [completions, result]
        rfl
      · rw [done, result]
        simp [List.count_append]
      · rw [owed, result]
        simp [readIr, doi]

theorem lost_of_clear {s : Bus} (ti : s.ti = false) (doi : s.doi = false) (idle : s.handler = none)
    (owes : s.events.count .txDone ≠ s.completions ∨ s.owed = true) :
    ∃ u, Reaches handlerStep s u ∧ Lost u := by
  obtain ⟨u, reaches, quiet, completions, done, owed⟩ := drained s.frames s rfl ti doi idle
  refine ⟨u, reaches, quiet, ?_⟩
  rintro ⟨answered, -, settled⟩
  rcases owes with wrong | left
  · exact wrong (by rw [← done, answered, completions])
  · rw [owed, left] at settled
    cases settled

/-- A read of two causes serves one of them. -/
theorem lost_of_read {s : Bus} (counted : Counted s) (idle : s.handler = none)
    (meets : ¬ Single s) : ∃ u, Reaches handlerStep s u ∧ Lost u := by
  have read : handlerStep .read s = some (readIr s) := if_pos idle
  have served : handlerStep .serve (readIr s) = some (serve s.ir (readIr s)) := rfl
  obtain ⟨free, ti, doi⟩ := serve_idle s.ir (readIr s)
  have owes : (serve s.ir (readIr s)).events.count .txDone ≠ (serve s.ir (readIr s)).completions ∨
      (serve s.ir (readIr s)).owed = true := by
    by_cases waiting : 0 < s.frames
    · have chain : branch s.ir = some .rxInd := by rw [branch_ir, if_pos waiting]
      rw [serve, chain]
      by_cases sent : s.ti = true
      · left
        have done := counted.done
        rw [outstanding, if_pos (counted.ti sent)] at done
        simp only [readIr, List.count_append]
        simp
        omega
      · have overran : s.doi = true := by
          by_contra none
          exact meets (single_of_clear (Bool.eq_false_iff.mpr sent) (Bool.eq_false_iff.mpr none))
        right
        simp [readIr, overran]
    · have both : s.ti = true ∧ s.doi = true := by
        by_contra apart
        exact meets ⟨fun first => waiting first.1, apart⟩
      have chain : branch s.ir = some .txDone := by
        rw [branch_ir, if_neg waiting, if_pos both.1]
      rw [serve, chain]
      right
      simp [readIr, both.2]
  obtain ⟨u, reaches, lost⟩ := lost_of_clear ti doi free owes
  exact ⟨u, ((Reaches.single read).trans (Reaches.single served)).trans reaches, lost⟩

theorem lost_of_meeting {s : Bus} (counted : Counted s) (meets : ¬ Alone s) :
    ∃ u, Reaches handlerStep s u ∧ Lost u := by
  cases reading : s.handler with
  | none =>
      rw [alone_of_idle reading] at meets
      exact lost_of_read counted reading meets
  | some status =>
      have served : handlerStep .serve s = some (serve status s) := by
        rw [handlerStep, reading]
        rfl
      rw [Alone, finish, reading] at meets
      obtain ⟨u, reaches, lost⟩ :=
        lost_of_read (counted.serve reading) (serve_idle status s).1 meets
      exact ⟨u, (Reaches.single served).trans reaches, lost⟩

/-- Along a run no completion and no overrun is lost, not even when the bus falls
silent at some point and the handler goes on alone, exactly when in no state of
the run two causes wait for the same read of IR. -/
theorem never_lost_iff (labels : List BusLabel) :
    (∀ before after s u, labels = before ++ after → run busStep before busStart = some s →
      Reaches handlerStep s u → ¬ Lost u) ↔
      ∀ before after s, labels = before ++ after → run busStep before busStart = some s →
        Alone s := by
  have counted : ∀ before s, run busStep before busStart = some s → Counted s := by
    intro before s reached
    apply (show Reaches busStep busStart s from ⟨before, reached⟩).invariant Counted counted_start
    exact fun label u v counted taken => counted.step taken
  constructor
  · intro safe before after s split reached
    by_contra meets
    obtain ⟨u, reaches, lost⟩ := lost_of_meeting (counted before s reached) meets
    exact safe before after s u split reached reaches lost
  · intro alone before after s u split reached reaches
    have kept : Kept s := by
      apply run_invariant Kept (fun _ v => Alone v) _ kept_start reached
      · intro first label rest v inner prior
        exact alone first (label :: rest ++ after) v (by rw [split, inner, List.append_assoc]) prior
      · intro label v w keep single taken
        exact keep.step single taken
    have steady : Counted u ∧ Kept u ∧ Alone u := by
      apply reaches.invariant (fun v => Counted v ∧ Kept v ∧ Alone v)
      · exact ⟨counted before s reached, kept, alone before after s split reached⟩
      · rintro label v w ⟨count, keep, single⟩ taken
        have taken' : busStep (.handler label) v = some w := taken
        exact ⟨count.step taken', keep.step single taken', single.handlerStep taken⟩
    exact steady.2.1.not_lost steady.1

/-- A frame that arrives with the end of a transmission hides it. -/
theorem arrival_hides_completion :
    ¬ ∀ s, Reaches busStep busStart s → ¬ Lost s := by
  intro safe
  have swallowed : run busStep [.send, .complete, .arrive, .handler .read, .handler .serve]
      busStart = some ⟨0, false, false, none, .completed, 1, [.rxInd], false, false⟩ := by
    decide
  refine safe _ ⟨_, swallowed⟩ ⟨⟨rfl, rfl, rfl, rfl⟩, ?_⟩
  rintro ⟨done, -, -⟩
  cases done

end KyokaMirror.Can
