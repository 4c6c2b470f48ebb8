import KyokaMirror.Esp32.Frame

set_option autoImplicit false

namespace KyokaMirror.Esp32

open Users

/-- The keywords that make the scan act. -/
def commandWords : List (List UInt8) := [kwState, kwGet, kwAdd, kwFace, kwSign]

/-- A way of cutting the stream into the deliveries of consecutive reads. -/
structure IsCut (cs : List Delivery) (stream : List UInt8) : Prop where
  nonempty : ∀ d ∈ cs, d.bytes ≠ []
  joined : cs.flatMap Delivery.bytes = stream

theorem delivery_infix {d : Delivery} {cs : List Delivery} (member : d ∈ cs) :
    d.bytes <:+: cs.flatMap Delivery.bytes := by
  obtain ⟨before, after, rfl⟩ := List.append_of_mem member
  rw [List.flatMap_append, List.flatMap_cons, ← List.append_assoc]
  exact List.infix_append _ _ _

theorem commands_of_quiet (s : Scan) (quiet : ∀ kw ∈ commandWords, s.sees kw = false) :
    commands s =
      ((((s.look kwState).look kwGet).look kwAdd).look kwFace).look kwSign := by
  have state := quiet kwState (by decide)
  have get := quiet kwGet (by decide)
  have add := quiet kwAdd (by decide)
  have face := quiet kwFace (by decide)
  have sign := quiet kwSign (by decide)
  unfold Scan.sees at state get add face sign
  simp only [commands, stateTest, getTest, addTest, faceTest, signTest, Scan.sees, Scan.look, state,
    get, add, face, sign, Bool.false_eq_true, ↓reduceIte]

theorem jsonTest_actions (rxLength : Nat) (s : Scan) :
    (jsonTest rxLength s).actions = s.actions := by
  unfold jsonTest Scan.lookFrame
  split_ifs <;> rfl

theorem jsonTest_glob (rxLength : Nat) (s : Scan) : (jsonTest rxLength s).glob = s.glob := by
  unfold jsonTest Scan.lookFrame
  split_ifs <;> rfl

theorem scanBody_actions (rxLength : Nat) (s : Scan) :
    (scanBody rxLength s).actions = (commands s).actions := by
  simp only [scanBody, jsonTest_actions]

theorem scanBody_glob (rxLength : Nat) (s : Scan) :
    (scanBody rxLength s).glob = (commands s).glob := by
  simp only [scanBody, jsonTest_glob]

theorem scanBody_of_quiet (rxLength : Nat) (s : Scan)
    (quiet : ∀ kw ∈ commandWords, s.sees kw = false) :
    (scanBody rxLength s).actions = s.actions ∧ (scanBody rxLength s).glob = s.glob ∧
      (scanBody rxLength s).i = s.i + 1 := by
  have still : s.landing = s.i := by
    simp only [Scan.landing, Scan.lists, quiet kwGet (by decide), Bool.false_and,
      Bool.false_eq_true, ↓reduceIte]
  rw [scanBody_actions, scanBody_glob, scanBody_i, still, commands_of_quiet s quiet]
  exact ⟨rfl, rfl, rfl⟩

theorem scanLoop_of_quiet (rxLength fuel : Nat) (s : Scan)
    (quiet : ∀ kw ∈ commandWords, ∀ i < rxLength, keyword s.buf.uartRxBuffer i kw = false) :
    (scanLoop rxLength fuel s).actions = s.actions ∧ (scanLoop rxLength fuel s).glob = s.glob := by
  induction fuel generalizing s with
  | zero => exact ⟨rfl, rfl⟩
  | succ fuel ih =>
      rw [scanLoop]
      split
      · rename_i inside
        obtain ⟨actions, glob, _⟩ := scanBody_of_quiet rxLength s
          (fun kw word => quiet kw word s.i inside)
        have later := ih (scanBody rxLength s) (by rw [scanBody_uartRxBuffer]; exact quiet)
        rwa [actions, glob] at later
      · exact ⟨rfl, rfl⟩

theorem nul_not_mem_commandWords : ∀ kw ∈ commandWords, (0 : UInt8) ∉ kw := by decide

/-- A delivery without keywords causes no action and leaves the globals alone. -/
theorem deliver_of_quiet (r : Receiver) (bytes : List UInt8)
    (quiet : ∀ kw ∈ commandWords, ¬ Contains bytes kw) :
    (deliver r bytes).actions = r.actions ∧ (deliver r bytes).glob = r.glob := by
  apply scanLoop_of_quiet bytes.length bytes.length (startScan r bytes)
  intro kw word i inside
  exact keyword_false_of_not_contains (quiet kw word) (Nat.le_of_lt inside)
    (nul_not_mem_commandWords kw word)

theorem deliver_uartRxBuffer (r : Receiver) (bytes : List UInt8) :
    (deliver r bytes).buf.uartRxBuffer = fill r.buf.uartRxBuffer bytes := by
  have unchanged : ∀ fuel s, (scanLoop bytes.length fuel s).buf.uartRxBuffer =
      s.buf.uartRxBuffer := by
    intro fuel
    induction fuel with
    | zero => intro s; rfl
    | succ fuel ih =>
        intro s
        rw [scanLoop]
        split
        · rw [ih, scanBody_uartRxBuffer]
        · rfl
  exact unchanged bytes.length (startScan r bytes)

theorem run_of_quiet (r : Receiver) (cs : List Delivery)
    (quiet : ∀ d ∈ cs, ∀ kw ∈ commandWords, ¬ Contains d.bytes kw) :
    (run r (cs.map .delivery)).actions = r.actions ∧
      (run r (cs.map .delivery)).glob = r.glob := by
  induction cs generalizing r with
  | nil => exact ⟨rfl, rfl⟩
  | cons d rest ih =>
      obtain ⟨actions, glob⟩ := deliver_of_quiet r d.bytes (quiet d List.mem_cons_self)
      have later := ih (deliver r d.bytes) (fun e member => quiet e (List.mem_cons_of_mem _ member))
      rwa [actions, glob] at later

def single (c : UInt8) : Delivery := ⟨[c], Nat.le_of_ble_eq_true rfl⟩

theorem three_le_commandWords : ∀ kw ∈ commandWords, 3 ≤ kw.length := by decide

theorem single_quiet (c : UInt8) : ∀ kw ∈ commandWords, ¬ Contains (single c).bytes kw := by
  intro kw word inside
  have long := three_le_commandWords kw word
  have short := inside.length_le
  simp only [single, List.length_singleton] at short
  omega

theorem singles_quiet (bytes : List UInt8) :
    ∀ d ∈ bytes.map single, ∀ kw ∈ commandWords, ¬ Contains d.bytes kw := by
  intro d member
  obtain ⟨c, _, rfl⟩ := List.mem_map.mp member
  exact single_quiet c

theorem singles_joined (bytes : List UInt8) :
    (bytes.map single).flatMap Delivery.bytes = bytes := by
  induction bytes with
  | nil => rfl
  | cons c rest ih =>
      rw [List.map_cons, List.flatMap_cons, ih]
      rfl

theorem singles_isCut (bytes : List UInt8) : IsCut (bytes.map single) bytes := by
  refine ⟨?_, singles_joined bytes⟩
  intro d member
  obtain ⟨c, _, rfl⟩ := List.mem_map.mp member
  exact List.cons_ne_nil c []

theorem singles_uartRxBuffer (r : Receiver) (bytes : List UInt8) (a : Nat) (beyond : 1 < a) :
    (run r ((bytes.map single).map .delivery)).buf.uartRxBuffer a = r.buf.uartRxBuffer a := by
  induction bytes generalizing r with
  | nil => rfl
  | cons c rest ih =>
      rw [List.map_cons, List.map_cons, run_delivery, ih, deliver_uartRxBuffer]
      apply fill_beyond
      exact beyond

theorem stateTest_extends_actions (s : Scan) : s.actions <+: (stateTest s).actions := by
  unfold stateTest
  split
  · exact List.prefix_append _ _
  · exact List.prefix_refl _

theorem getTest_extends_actions (s : Scan) : s.actions <+: (getTest s).actions := by
  unfold getTest
  split_ifs
  · exact List.prefix_append _ _
  · exact List.prefix_refl _
  · exact List.prefix_append _ _
  · exact List.prefix_refl _

theorem addTest_extends_actions (s : Scan) : s.actions <+: (addTest s).actions := by
  unfold addTest
  split
  · exact List.prefix_append _ _
  · exact List.prefix_refl _

theorem faceTest_extends_actions (s : Scan) : s.actions <+: (faceTest s).actions := by
  unfold faceTest
  split_ifs
  · exact List.prefix_append _ _
  · exact List.prefix_refl _
  · exact List.prefix_refl _

theorem signTest_extends_actions (s : Scan) : s.actions <+: (signTest s).actions := by
  unfold signTest
  split
  · exact List.prefix_append _ _
  · exact List.prefix_refl _

theorem scanBody_extends_actions (rxLength : Nat) (s : Scan) :
    s.actions <+: (scanBody rxLength s).actions := by
  rw [scanBody_actions]
  exact ((((stateTest_extends_actions s).trans (getTest_extends_actions _)).trans
    (addTest_extends_actions _)).trans (faceTest_extends_actions _)).trans
    (signTest_extends_actions _)

theorem scanLoop_extends_actions (rxLength fuel : Nat) (s : Scan) :
    s.actions <+: (scanLoop rxLength fuel s).actions := by
  induction fuel generalizing s with
  | zero => exact List.prefix_refl _
  | succ fuel ih =>
      rw [scanLoop]
      split
      · exact (scanBody_extends_actions rxLength s).trans (ih _)
      · exact List.prefix_refl _

theorem stateTest_acts (s : Scan) (seen : s.sees kwState = true) :
    (stateTest s).actions.length = s.actions.length + 1 := by
  rw [stateTest, if_pos seen]
  exact List.length_append

theorem getTest_acts (s : Scan) (seen : s.sees kwGet = true)
    (clear : s.buf.uartRxBuffer (s.i + 7) = 0) :
    (getTest s).actions.length = s.actions.length + 1 := by
  rw [getTest, if_pos seen, clear, if_neg (by decide), if_neg (by decide)]
  exact List.length_append

theorem addTest_acts (s : Scan) (seen : s.sees kwAdd = true) :
    (addTest s).actions.length = s.actions.length + 1 := by
  rw [addTest, if_pos seen]
  exact List.length_append

theorem faceTest_acts (s : Scan) (seen : s.sees kwFace = true) (flag : s.glob.faceFlag = 1) :
    (faceTest s).actions.length = s.actions.length + 1 := by
  rw [faceTest, if_pos seen, if_pos flag]
  exact List.length_append

theorem signTest_acts (s : Scan) (seen : s.sees kwSign = true) :
    (signTest s).actions.length = s.actions.length + 1 := by
  rw [signTest, if_pos seen]
  exact List.length_append

theorem addTest_faceFlag (s : Scan) : (addTest s).glob.faceFlag = s.glob.faceFlag := by
  unfold addTest
  split <;> rfl

/-- One iteration on a keyword. Only `get` moves the index, so the other tests
still look at the keyword. -/
theorem commands_acts (s : Scan) (kw : List UInt8) (word : kw ∈ commandWords)
    (seen : s.sees kw = true) (alone : kw ≠ kwGet → s.sees kwGet = false)
    (clear : s.buf.uartRxBuffer (s.i + 7) = 0) (flag : s.glob.faceFlag = 1) :
    s.actions.length < (commands s).actions.length := by
  have state := (stateTest_extends_actions s).length_le
  have get := (getTest_extends_actions (stateTest s)).length_le
  have add := (addTest_extends_actions (getTest (stateTest s))).length_le
  have face := (faceTest_extends_actions (addTest (getTest (stateTest s)))).length_le
  have sign := (signTest_extends_actions (faceTest (addTest (getTest (stateTest s))))).length_le
  have still : kw ≠ kwGet → (getTest (stateTest s)).i = s.i := by
    intro other
    rw [getTest_i, landing_congr (stateTest_i s) (stateTest_buf s) (stateTest_glob s)]
    apply landing_of_not_lists
    simp only [Scan.lists, alone other, Bool.false_and, Bool.false_eq_true, not_false_eq_true]
  simp only [commands]
  simp only [commandWords, List.mem_cons, List.not_mem_nil, or_false] at word
  rcases word with rfl | rfl | rfl | rfl | rfl
  · have acted := stateTest_acts s seen
    omega
  · have acted := getTest_acts (stateTest s)
      (by rw [Scan.sees, stateTest_buf, stateTest_i]; exact seen)
      (by rw [stateTest_buf, stateTest_i]; exact clear)
    omega
  · have acted := addTest_acts (getTest (stateTest s)) (by
      rw [Scan.sees, getTest_buf, stateTest_buf, still (by decide)]
      exact seen)
    omega
  · have acted := faceTest_acts (addTest (getTest (stateTest s))) (by
      rw [Scan.sees, addTest_buf, addTest_i, getTest_buf, stateTest_buf, still (by decide)]
      exact seen)
      (by rw [addTest_faceFlag, getTest_glob, stateTest_glob]; exact flag)
    omega
  · have acted := signTest_acts (faceTest (addTest (getTest (stateTest s)))) (by
      rw [Scan.sees, faceTest_buf, faceTest_i, addTest_buf, addTest_i, getTest_buf, stateTest_buf,
        still (by decide)]
      exact seen)
    omega

theorem kwGet_not_prefix : ∀ kw ∈ commandWords, kw ≠ kwGet → ¬ kwGet <+: kw := by decide

theorem commandWords_length_lt : ∀ kw ∈ commandWords, kw.length < 7 := by decide

theorem deliver_word_acts (r : Receiver) (kw : List UInt8) (word : kw ∈ commandWords)
    (clear : r.buf.uartRxBuffer 7 = 0) (flag : r.glob.faceFlag = 1) :
    r.actions.length < (deliver r kw).actions.length := by
  have long := three_le_commandWords kw word
  have seen : (startScan r kw).sees kw = true :=
    (keyword_fill_iff _ _ _ 0 (Nat.zero_le _) (nul_not_mem_commandWords kw word)).mpr
      (List.prefix_refl kw)
  have alone : kw ≠ kwGet → (startScan r kw).sees kwGet = false := by
    intro other
    rw [← Bool.not_eq_true]
    intro get
    exact kwGet_not_prefix kw word other
      ((keyword_fill_iff _ _ _ 0 (Nat.zero_le _) nul_not_mem_kwGet).mp get)
  have beyond : (startScan r kw).buf.uartRxBuffer ((startScan r kw).i + 7) = 0 := by
    rw [← clear]
    exact fill_beyond _ _ _ (commandWords_length_lt kw word)
  have first := commands_acts (startScan r kw) kw word seen alone beyond flag
  have rest := (scanLoop_extends_actions kw.length (kw.length - 1)
    (scanBody kw.length (startScan r kw))).length_le
  have unrolled : scanDelivery r kw =
      scanLoop kw.length (kw.length - 1) (scanBody kw.length (startScan r kw)) := by
    have fuel : kw.length = kw.length - 1 + 1 := by omega
    rw [scanDelivery]
    nth_rewrite 2 [fuel]
    have inside : (startScan r kw).i < kw.length := by
      show 0 < kw.length
      omega
    rw [scanLoop, if_pos inside]
  rw [scanBody_actions] at rest
  show (startScan r kw).actions.length < (scanDelivery r kw).actions.length
  rw [unrolled]
  omega

theorem run_extends_actions (r : Receiver) (cs : List Delivery) :
    r.actions <+: (run r (cs.map .delivery)).actions := by
  induction cs generalizing r with
  | nil => exact List.prefix_refl _
  | cons d rest ih =>
      rw [List.map_cons, run_delivery]
      apply List.IsPrefix.trans _ (ih _)
      exact scanLoop_extends_actions d.bytes.length d.bytes.length (startScan r d.bytes)

/-- The receiver that acts on any keyword it is shown. -/
def attentive : Receiver :=
  initial (fun _ => 0) (fun _ => 0) { startGlobals with faceFlag := 1 }

theorem run_shown_acts (before after kw : List UInt8) (word : kw ∈ commandWords)
    (shown : Delivery) (bytes : shown.bytes = kw) :
    attentive.actions.length <
      (run attentive
        ((before.map single ++ shown :: after.map single).map .delivery)).actions.length := by
  obtain ⟨actions, glob⟩ := run_of_quiet attentive (before.map single) (singles_quiet before)
  have clear := singles_uartRxBuffer attentive before 7 (by decide)
  have acted := deliver_word_acts (run attentive ((before.map single).map .delivery)) kw word
    (by rw [clear]; rfl) (by rw [glob]; rfl)
  have rest := (run_extends_actions
    (deliver (run attentive ((before.map single).map .delivery)) kw) (after.map single)).length_le
  rw [List.map_append, run_append, List.map_cons, run_delivery, bytes]
  rw [actions] at acted
  omega

/-- Dispatch does not depend on the packet boundaries of a stream exactly when
the stream holds no command at all: one-byte deliveries hide every keyword, and
a delivery of the keyword alone shows it. -/
theorem dispatch_cut_invariant_iff (stream : List UInt8) :
    (∀ r cs ds, IsCut cs stream → IsCut ds stream →
      (run r (cs.map .delivery)).actions = (run r (ds.map .delivery)).actions) ↔
      ∀ kw ∈ commandWords, ¬ Contains stream kw := by
  constructor
  · intro same kw word inside
    obtain ⟨before, after, split⟩ := inside
    have short := commandWords_length_lt kw word
    have long := three_le_commandWords kw word
    have shows : IsCut (before.map single ++ ⟨kw, by omega⟩ :: after.map single) stream := by
      refine ⟨?_, ?_⟩
      · intro d member
        rcases List.mem_append.mp member with first | later
        · exact (singles_isCut before).nonempty d first
        · rcases List.mem_cons.mp later with rfl | last
          · exact List.ne_nil_of_length_pos (by show 0 < kw.length; omega)
          · exact (singles_isCut after).nonempty d last
      · rw [List.flatMap_append, List.flatMap_cons, singles_joined, singles_joined, ← split,
          List.append_assoc]
    have equal := same attentive _ _ shows (singles_isCut stream)
    have acted := run_shown_acts before after kw word ⟨kw, by omega⟩ rfl
    rw [equal, (run_of_quiet attentive _ (singles_quiet stream)).1] at acted
    exact Nat.lt_irrefl _ acted
  · intro quiet r cs ds first second
    have silent : ∀ es, IsCut es stream → (run r (es.map .delivery)).actions = r.actions := by
      intro es cut
      apply (run_of_quiet r es _).1
      intro d member kw word inside
      apply quiet kw word
      rw [← cut.joined]
      apply inside.trans
      exact delivery_infix member
    rw [silent cs first, silent ds second]

/-- `State` arriving as `Sta` and `te` goes unanswered, arriving whole it is
answered. -/
theorem cut_state_unanswered :
    ¬ (∀ stream : List UInt8, ¬ Contains stream kwFrame →
      ∀ r cs ds, IsCut cs stream → IsCut ds stream →
        (run r (cs.map .delivery)).actions = (run r (ds.map .delivery)).actions) := by
  intro law
  have whole : IsCut [⟨ascii "State", by decide⟩] (ascii "State") := ⟨by decide, by decide⟩
  have halves : IsCut [⟨ascii "Sta", by decide⟩, ⟨ascii "te", by decide⟩] (ascii "State") :=
    ⟨by decide, by decide⟩
  have same := law (ascii "State") (by decide +kernel) attentive _ _ whole halves
  revert same
  decide +kernel

end KyokaMirror.Esp32
