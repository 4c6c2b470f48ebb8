import KyokaMirror.Esp32.Dispatch
import KyokaMirror.Library.Perform

set_option autoImplicit false

namespace KyokaMirror.Esp32

open Users
open Library.Perform

/-- The three answers to `get`. -/
inductive Variant where
  | number | dot | list
  deriving DecidableEq, Repr

/-- A branch that an iteration of the scan takes. -/
inductive Branch where
  | state
  | get (variant : Variant)
  | add
  | face
  | sign
  | frame
  deriving DecidableEq, Repr

/-- The answer that the byte seven places on selects. -/
def variantOf (c : UInt8) : Variant :=
  if c == charN then .number else if c == charDot then .dot else .list

/-- The branch of a keyword test, with the index it looks at. -/
def taken (b : Memory) (i : Nat) (kw : List UInt8) (branch : Branch) : List (Nat × Branch) :=
  if keyword b i kw then [(i, branch)] else []

/-- The tests behind `get`. -/
def laterBranches (b : Memory) (l : Nat) : List (Nat × Branch) :=
  taken b l kwAdd .add ++ taken b l kwFace .face ++ taken b l kwSign .sign

/-- The branches of one iteration, in the order of the source. -/
def bodyBranches (s : Scan) : List (Nat × Branch) :=
  taken s.buf.uartRxBuffer s.i kwState .state ++
    taken s.buf.uartRxBuffer s.i kwGet (.get (variantOf (s.buf.uartRxBuffer (s.i + 7)))) ++
    laterBranches s.buf.uartRxBuffer s.landing ++
    if s.captures then [(s.landing, .frame)] else []

def loopBranches (rxLength : Nat) : Nat → Scan → List (Nat × Branch)
  | 0, _ => []
  | fuel + 1, s =>
      if s.i < rxLength then bodyBranches s ++ loopBranches rxLength fuel (scanBody rxLength s)
      else []

/-- The branches that the scan of a delivery takes. -/
def scanBranches (r : Receiver) (bytes : List UInt8) : List (Nat × Branch) :=
  loopBranches bytes.length bytes.length (startScan r bytes)

/-- The globals after a branch, and what it does. -/
def Branch.perform (glob : Globals) : Branch → Globals × List Action
  | .state => (glob, [.stateReply])
  | .get .number => (glob, [.getNumber])
  | .get .dot => (glob, [])
  | .get .list => (glob, [.getList (listLoop glob glob.userNum 0).2])
  | .add => (addUser glob, [.add])
  | .face => if glob.faceFlag = 1 then ({ glob with faceFlag := 0 }, [.faceReport]) else (glob, [])
  | .sign =>
      let nums := glob.userQuanFlag + 1
      ({ glob with userQuanFlag := if nums = 3 then 0 else nums }, [.sign nums])
  | .frame => (glob, [])

/-- The branches one after the other. -/
abbrev perform (glob : Globals) (branches : List (Nat × Branch)) : Globals × List Action :=
  performAll (fun glob entry => entry.2.perform glob) glob branches

/-- From `s` to `t` the branches are performed. -/
structure Performs (branches : List (Nat × Branch)) (s t : Scan) : Prop where
  glob : t.glob = (perform s.glob branches).1
  actions : t.actions = s.actions ++ (perform s.glob branches).2

theorem Performs.trans {first second : List (Nat × Branch)} {s t u : Scan}
    (left : Performs first s t) (right : Performs second t u) : Performs (first ++ second) s u where
  glob := by rw [perform, performAll_append, right.glob, left.glob]
  actions := by
    rw [perform, performAll_append, right.actions, left.actions, left.glob, List.append_assoc]

theorem performs_nil {s t : Scan} (glob : t.glob = s.glob) (actions : t.actions = s.actions) :
    Performs [] s t := ⟨glob, by rw [actions]; exact (List.append_nil _).symm⟩

theorem performs_one {s t : Scan} {i : Nat} {branch : Branch}
    (glob : t.glob = (branch.perform s.glob).1)
    (actions : t.actions = s.actions ++ (branch.perform s.glob).2) :
    Performs [(i, branch)] s t :=
  ⟨glob, by rw [actions, perform, performAll_singleton]⟩

/-- The capture of a frame leaves the globals and the actions alone. -/
theorem performs_frame {s t : Scan} {i : Nat} (glob : t.glob = s.glob)
    (actions : t.actions = s.actions) : Performs [(i, .frame)] s t :=
  performs_one glob (actions.trans (List.append_nil _).symm)

theorem listLoop_rows_index (glob : Globals) (k i j : Nat) :
    (listLoop glob k i).2 = (listLoop glob k j).2 := by
  induction k generalizing i j with
  | zero => rfl
  | succ k ih => rw [listLoop, listLoop, ih (i + 1) (j + 1)]

theorem stateTest_performs (s : Scan) :
    Performs (taken s.buf.uartRxBuffer s.i kwState .state) s (stateTest s) := by
  unfold stateTest taken Scan.sees
  split
  next => exact performs_one rfl rfl
  next => exact performs_nil rfl rfl

theorem getTest_performs (s : Scan) :
    Performs (taken s.buf.uartRxBuffer s.i kwGet
      (.get (variantOf (s.buf.uartRxBuffer (s.i + 7))))) s (getTest s) := by
  unfold getTest taken Scan.sees variantOf
  split
  next =>
    split
    next => exact performs_one rfl rfl
    next =>
      split
      next => exact performs_one rfl (List.append_nil _).symm
      next =>
        refine performs_one rfl ?_
        rw [Branch.perform, listLoop_rows_index s.glob s.glob.userNum 0 s.i]
  next => exact performs_nil rfl rfl

theorem addTest_performs (s : Scan) :
    Performs (taken s.buf.uartRxBuffer s.i kwAdd .add) s (addTest s) := by
  unfold addTest taken Scan.sees
  split
  next => exact performs_one rfl rfl
  next => exact performs_nil rfl rfl

theorem faceTest_performs (s : Scan) :
    Performs (taken s.buf.uartRxBuffer s.i kwFace .face) s (faceTest s) := by
  unfold faceTest taken Scan.sees
  split
  next =>
    split
    next pending =>
      refine performs_one ?_ ?_
      · rw [Branch.perform, if_pos pending]
      · rw [Branch.perform, if_pos pending]
        rfl
    next none =>
      refine performs_one ?_ ?_
      · rw [Branch.perform, if_neg none]
        rfl
      · rw [Branch.perform, if_neg none, List.append_nil]
        rfl
  next => exact performs_nil rfl rfl

theorem signTest_performs (s : Scan) :
    Performs (taken s.buf.uartRxBuffer s.i kwSign .sign) s (signTest s) := by
  unfold signTest taken Scan.sees
  split
  next => exact performs_one rfl rfl
  next => exact performs_nil rfl rfl

/-- The tests behind `get` look at the index it leaves. -/
theorem commands_performs (s : Scan) :
    Performs (taken s.buf.uartRxBuffer s.i kwState .state ++
      taken s.buf.uartRxBuffer s.i kwGet (.get (variantOf (s.buf.uartRxBuffer (s.i + 7)))) ++
      laterBranches s.buf.uartRxBuffer s.landing) s (commands s) := by
  have moved : (getTest (stateTest s)).i = s.landing := by
    rw [getTest_i, landing_congr (stateTest_i s) (stateTest_buf s) (stateTest_glob s)]
  have state := stateTest_performs s
  have get := getTest_performs (stateTest s)
  have add := addTest_performs (getTest (stateTest s))
  have face := faceTest_performs (addTest (getTest (stateTest s)))
  have sign := signTest_performs (faceTest (addTest (getTest (stateTest s))))
  simp only [stateTest_i, stateTest_buf, getTest_buf, addTest_i, addTest_buf, faceTest_i,
    faceTest_buf, moved] at get add face sign
  have all := (((state.trans get).trans add).trans face).trans sign
  simpa only [laterBranches, commands, List.append_assoc] using all

theorem scanBody_performs (rxLength : Nat) (s : Scan) :
    Performs (bodyBranches s) s (scanBody rxLength s) := by
  refine (commands_performs s).trans ?_
  have glob := scanBody_glob rxLength s
  have actions := scanBody_actions rxLength s
  split
  next => exact performs_frame glob actions
  next => exact performs_nil glob actions

/-- The globals and the actions of a scan are those of its branches. -/
theorem scanLoop_performs (rxLength fuel : Nat) (s : Scan) :
    Performs (loopBranches rxLength fuel s) s (scanLoop rxLength fuel s) := by
  induction fuel generalizing s with
  | zero => exact performs_nil rfl rfl
  | succ fuel ih =>
      rw [loopBranches, scanLoop]
      split
      next => exact (scanBody_performs rxLength s).trans (ih _)
      next => exact performs_nil rfl rfl

def isAdd (entry : Nat × Branch) : Bool := entry.2 = .add

theorem Branch.perform_userNum (glob : Globals) (branch : Branch) :
    (branch.perform glob).1.userNum = glob.userNum + if branch = .add then 1 else 0 := by
  cases branch with
  | state => rfl
  | get variant => cases variant <;> rfl
  | add => rfl
  | face =>
      rw [Branch.perform]
      split <;> rfl
  | sign => rfl
  | frame => rfl

theorem perform_userNum (glob : Globals) (branches : List (Nat × Branch)) :
    (perform glob branches).1.userNum = glob.userNum + branches.countP isAdd := by
  induction branches generalizing glob with
  | nil => rfl
  | cons entry rest ih =>
      rw [perform, performAll_cons, ih, Branch.perform_userNum, List.countP_cons]
      simp only [isAdd, decide_eq_true_eq]
      omega

theorem mem_taken {b : Memory} {i : Nat} {kw : List UInt8} {branch : Branch}
    {entry : Nat × Branch} :
    entry ∈ taken b i kw branch ↔ entry = (i, branch) ∧ keyword b i kw = true := by
  rw [taken, List.mem_ite_nil_right, List.mem_singleton, and_comm]

/-- `State` and `get` are tested where the iteration begins, the others where
`get` has left the index. -/
def Branch.early : Branch → Bool
  | .state => true
  | .get _ => true
  | _ => false

theorem mem_bodyBranches {s : Scan} {entry : Nat × Branch} (member : entry ∈ bodyBranches s) :
    entry.1 = if entry.2.early then s.i else s.landing := by
  rw [bodyBranches, laterBranches] at member
  simp only [List.mem_append, mem_taken] at member
  rcases member with ((state | get) | (add | face) | sign) | frame
  · rw [state.1]; rfl
  · rw [get.1]; rfl
  · rw [add.1]; rfl
  · rw [face.1]; rfl
  · rw [sign.1]; rfl
  · split at frame
    next => rw [List.mem_singleton.mp frame]; rfl
    next => cases frame

theorem bodyBranches_range {s : Scan} {entry : Nat × Branch} (member : entry ∈ bodyBranches s) :
    s.i ≤ entry.1 ∧ entry.1 ≤ s.landing := by
  have forward := le_landing s
  rw [mem_bodyBranches member]
  split <;> omega

theorem loopBranches_ge {rxLength fuel : Nat} {s : Scan} {entry : Nat × Branch}
    (member : entry ∈ loopBranches rxLength fuel s) : s.i ≤ entry.1 := by
  induction fuel generalizing s with
  | zero => cases member
  | succ fuel ih =>
      rw [loopBranches] at member
      split at member
      next =>
        rcases List.mem_append.mp member with here | later
        · exact (bodyBranches_range here).1
        · have behind := ih later
          rw [scanBody_i] at behind
          have forward := le_landing s
          omega
      next => cases member

theorem get_of_mem {s : Scan} {p : Nat} {variant : Variant}
    (member : (p, .get variant) ∈ bodyBranches s) :
    s.i = p ∧ s.sees kwGet = true ∧ variant = variantOf (s.buf.uartRxBuffer (p + 7)) := by
  rw [bodyBranches, laterBranches] at member
  simp only [List.mem_append, mem_taken, Prod.mk.injEq, reduceCtorEq, and_false, false_and,
    false_or, or_false, Branch.get.injEq] at member
  rcases member with get | frame
  · obtain ⟨⟨rfl, rfl⟩, seen⟩ := get
    exact ⟨rfl, seen, rfl⟩
  · split at frame
    next => simp at frame
    next => cases frame

/-- The iteration that answers a `get`: the branches before it lie before it,
and those after it behind the index it leaves. -/
structure Answers (s : Scan) (branches : List (Nat × Branch)) (p : Nat) (t : Scan)
    (before after : List (Nat × Branch)) : Prop where
  split : branches = before ++ bodyBranches t ++ after
  index : t.i = p
  buffer : t.buf.uartRxBuffer = s.buf.uartRxBuffer
  users : t.glob.userNum = s.glob.userNum + before.countP isAdd
  earlier : ∀ entry ∈ before, entry.1 < p
  later : ∀ entry ∈ after, t.landing < entry.1
  seen : t.sees kwGet = true

theorem get_answered {rxLength fuel : Nat} {s : Scan} {p : Nat} {variant : Variant}
    (member : (p, .get variant) ∈ loopBranches rxLength fuel s) :
    variant = variantOf (s.buf.uartRxBuffer (p + 7)) ∧
      ∃ t before after, Answers s (loopBranches rxLength fuel s) p t before after := by
  induction fuel generalizing s with
  | zero => cases member
  | succ fuel ih =>
      rw [loopBranches] at member ⊢
      split at member
      next inside =>
        rw [if_pos inside]
        rcases List.mem_append.mp member with here | rest
        · obtain ⟨index, seen, selected⟩ := get_of_mem here
          refine ⟨selected, s, [], loopBranches rxLength fuel (scanBody rxLength s), ?_⟩
          exact {
            split := rfl
            index := index
            buffer := rfl
            users := rfl
            earlier := fun _ none => absurd none List.not_mem_nil
            later := fun entry behind => by
              have far := loopBranches_ge behind
              rw [scanBody_i] at far
              omega
            seen := seen }
        · obtain ⟨selected, t, before, after, answers⟩ := ih rest
          rw [scanBody_uartRxBuffer] at selected
          have far := loopBranches_ge rest
          rw [scanBody_i] at far
          refine ⟨selected, t, bodyBranches s ++ before, after, ?_⟩
          exact {
            split := by rw [answers.split]; simp only [List.append_assoc]
            index := answers.index
            buffer := by rw [answers.buffer, scanBody_uartRxBuffer]
            users := by
              rw [answers.users, (scanBody_performs rxLength s).glob, perform_userNum,
                List.countP_append, Nat.add_assoc]
            earlier := fun entry among => by
              rcases List.mem_append.mp among with first | second
              · have bound := (bodyBranches_range first).2
                dsimp only at far
                omega
              · exact answers.earlier entry second
            later := answers.later
            seen := answers.seen }
      next => cases member

end KyokaMirror.Esp32
