import KyokaMirror.Esp32.Branches

set_option autoImplicit false

namespace KyokaMirror.Esp32

open Users

section

variable (bytes : List UInt8) (variant : Nat → Variant)

def occurs (p : Nat) (kw : List UInt8) (branch : Branch) : List (Nat × Branch) :=
  if kw <+: bytes.drop p then [(p, branch)] else []

def laterWords (p : Nat) : List (Nat × Branch) :=
  occurs bytes p kwAdd .add ++ occurs bytes p kwFace .face ++ occurs bytes p kwSign .sign

/-- The words that begin at a position, each `get` with its variant. -/
def wordsAt (p : Nat) : List (Nat × Branch) :=
  occurs bytes p kwState .state ++ occurs bytes p kwGet (.get (variant p)) ++ laterWords bytes p

/-- The words from a position on. -/
def wordsFrom (p : Nat) : List (Nat × Branch) :=
  (List.range' p (bytes.length - p)).flatMap (wordsAt bytes variant)

def wordsBefore (p : Nat) : List (Nat × Branch) :=
  (List.range p).flatMap (wordsAt bytes variant)

/-- All words of the text, by position. -/
def occurrences : List (Nat × Branch) :=
  (List.range bytes.length).flatMap (wordsAt bytes variant)

end

/-- Whatever the buffer held before, the branches of the scan are the words of
the delivered bytes, with variants of `get` that these bytes alone select. -/
def Refines (bytes : List UInt8) (userNum : Nat) : Prop :=
  ∃ variant, ∀ r : Receiver, r.buf.readstate = false → r.glob.userNum = userNum →
    scanBranches r bytes = occurrences bytes variant

/-- The variant that a byte of the delivery, or its NUL, selects. -/
def textVariant (bytes : List UInt8) (p : Nat) : Variant :=
  variantOf ((bytes ++ [0]).getD (p + 7) 0)

/-- The users at a position: those of before, and one for each `add`. -/
def usersAt (bytes : List UInt8) (userNum p : Nat) : Nat :=
  userNum + (List.range p).countP fun q => kwAdd <+: bytes.drop q

/-- The list reply at `p` moves the index over no word, and to a place inside the
delivery where neither `State` nor `get` begins. -/
structure Lands (bytes : List UInt8) (p users : Nat) : Prop where
  inside : p + users ≤ bytes.length
  between : ∀ q, p < q → q < p + users → ∀ kw ∈ commandWords, ¬kw <+: bytes.drop q
  place : 0 < users → ¬kwState <+: bytes.drop (p + users) ∧ ¬kwGet <+: bytes.drop (p + users)

/-- Each `get` has its seventh byte in the delivery, and its list reply lands
well. -/
def GetsFine (bytes : List UInt8) (userNum : Nat) : Prop :=
  ∀ p, kwGet <+: bytes.drop p → p + 7 ≤ bytes.length ∧
    (textVariant bytes p = .list → Lands bytes p (usersAt bytes userNum p))

section

variable {bytes : List UInt8} {variant : Nat → Variant}

theorem mem_occurs {p : Nat} {kw : List UInt8} {branch : Branch} {entry : Nat × Branch} :
    entry ∈ occurs bytes p kw branch ↔ entry = (p, branch) ∧ kw <+: bytes.drop p := by
  rw [occurs, List.mem_ite_nil_right, List.mem_singleton, and_comm]

theorem occurs_nil {p : Nat} {kw : List UInt8} {branch : Branch} (absent : ¬kw <+: bytes.drop p) :
    occurs bytes p kw branch = [] := if_neg absent

theorem wordsAt_nil {p : Nat} (none : ∀ kw ∈ commandWords, ¬kw <+: bytes.drop p) :
    wordsAt bytes variant p = [] := by
  rw [wordsAt, laterWords, occurs_nil (none kwState (by decide)),
    occurs_nil (none kwGet (by decide)), occurs_nil (none kwAdd (by decide)),
    occurs_nil (none kwFace (by decide)), occurs_nil (none kwSign (by decide))]
  rfl

theorem wordsAt_index {p : Nat} {entry : Nat × Branch} (member : entry ∈ wordsAt bytes variant p) :
    entry.1 = p := by
  simp only [wordsAt, laterWords, List.mem_append, mem_occurs] at member
  rcases member with (word | word) | (word | word) | word
  all_goals rw [word.1]

/-- No word begins behind the last byte. -/
theorem wordsAt_end {p : Nat} (behind : bytes.length ≤ p) : wordsAt bytes variant p = [] := by
  apply wordsAt_nil
  rw [List.drop_eq_nil_of_le behind]
  decide

theorem wordsFrom_end {p : Nat} (behind : bytes.length ≤ p) : wordsFrom bytes variant p = [] := by
  rw [wordsFrom, Nat.sub_eq_zero_of_le behind]
  rfl

theorem wordsFrom_step (p : Nat) :
    wordsFrom bytes variant p = wordsAt bytes variant p ++ wordsFrom bytes variant (p + 1) := by
  by_cases inside : p < bytes.length
  · have left : bytes.length - p = bytes.length - (p + 1) + 1 := by omega
    rw [wordsFrom, left, List.range'_succ, List.flatMap_cons]
    rfl
  · rw [wordsFrom_end (by omega), wordsAt_end (by omega), wordsFrom_end (by omega)]
    rfl

theorem wordsFrom_skip {p m : Nat}
    (none : ∀ q, p ≤ q → q < p + m → wordsAt bytes variant q = []) :
    wordsFrom bytes variant p = wordsFrom bytes variant (p + m) := by
  induction m with
  | zero => rfl
  | succ m ih =>
      rw [ih fun q lower upper => none q lower (by omega), wordsFrom_step,
        none (p + m) (by omega) (by omega)]
      rfl

variable (bytes variant) in
theorem occurrences_split (p : Nat) :
    occurrences bytes variant = wordsBefore bytes variant p ++ wordsFrom bytes variant p := by
  induction p with
  | zero =>
      rw [occurrences, wordsFrom, List.range_eq_range', Nat.sub_zero]
      rfl
  | succ p ih =>
      rw [ih, wordsFrom_step, ← List.append_assoc, wordsBefore, wordsBefore, List.range_succ,
        List.flatMap_append, List.flatMap_singleton]

theorem countP_occurs_other {q : Nat} (kw : List UInt8) {branch : Branch} (other : branch ≠ .add) :
    (occurs bytes q kw branch).countP isAdd = 0 := by
  rw [List.countP_eq_zero]
  intro entry member
  rw [(mem_occurs.mp member).1, isAdd, decide_eq_true_eq]
  exact other

theorem countP_wordsAt (q : Nat) :
    (wordsAt bytes variant q).countP isAdd = if kwAdd <+: bytes.drop q then 1 else 0 := by
  have add : (occurs bytes q kwAdd .add).countP isAdd = if kwAdd <+: bytes.drop q then 1 else 0 := by
    rw [occurs]
    split <;> rfl
  rw [wordsAt, laterWords]
  simp only [List.countP_append]
  rw [countP_occurs_other kwState (by decide), countP_occurs_other kwGet (by simp), add,
    countP_occurs_other kwFace (by decide), countP_occurs_other kwSign (by decide)]
  omega

variable (variant) in
/-- The users at a position are counted by the words before it. -/
theorem usersAt_eq (userNum p : Nat) :
    usersAt bytes userNum p = userNum + (wordsBefore bytes variant p).countP isAdd := by
  rw [usersAt]
  congr 1
  induction p with
  | zero => rfl
  | succ p ih =>
      rw [List.range_succ, List.countP_append, ih, wordsBefore, wordsBefore, List.range_succ,
        List.flatMap_append, List.countP_append, List.flatMap_singleton, countP_wordsAt]
      simp only [List.countP_singleton, decide_eq_true_eq]

end

section

variable {b : Memory} {bytes : List UInt8}

theorem taken_fill {i : Nat} (start : i ≤ bytes.length) {kw : List UInt8} (branch : Branch)
    (printable : (0 : UInt8) ∉ kw) :
    taken (fill b bytes) i kw branch = occurs bytes i kw branch := by
  simp only [taken, occurs, keyword_fill_iff b bytes kw i start printable]

theorem laterBranches_fill {i : Nat} (start : i ≤ bytes.length) :
    laterBranches (fill b bytes) i = laterWords bytes i := by
  rw [laterBranches, laterWords, taken_fill start .add nul_not_mem_kwAdd,
    taken_fill start .face nul_not_mem_kwFace, taken_fill start .sign nul_not_mem_kwSign]

theorem get_first : ∀ kw ∈ [kwState, kwAdd, kwFace, kwSign], ¬kw <+: kwGet ∧ ¬kwGet <+: kw := by
  decide

/-- No other word begins where `get` does. -/
theorem not_prefix_of_get {i : Nat} (get : kwGet <+: bytes.drop i) {kw : List UInt8}
    (other : kw ∈ [kwState, kwAdd, kwFace, kwSign]) : ¬kw <+: bytes.drop i := by
  intro here
  obtain ⟨shorter, longer⟩ := get_first kw other
  exact (List.prefix_or_prefix_of_prefix here get).elim shorter longer

theorem lists_iff {s : Scan} :
    s.lists = true ↔
      s.sees kwGet = true ∧ variantOf (s.buf.uartRxBuffer (s.i + 7)) = .list := by
  rw [Scan.lists, variantOf]
  cases s.sees kwGet with
  | false => simp
  | true =>
      by_cases number : s.buf.uartRxBuffer (s.i + 7) == charN
      · simp [number, bne]
      · by_cases dot : s.buf.uartRxBuffer (s.i + 7) == charDot
        · simp [number, dot, bne]
        · simp [number, dot, bne]

/-- The scan stands at an index of a delivery without frame. -/
structure Reads (b : Memory) (bytes : List UInt8) (userNum : Nat) (s : Scan) : Prop where
  buffer : s.buf.uartRxBuffer = fill b bytes
  closed : s.buf.readstate = false
  users : s.glob.userNum = usersAt bytes userNum s.i

variable {userNum : Nat} {s : Scan}

theorem Reads.sees_iff (reads : Reads b bytes userNum s) (inside : s.i ≤ bytes.length)
    {kw : List UInt8} (printable : (0 : UInt8) ∉ kw) :
    s.sees kw = true ↔ kw <+: bytes.drop s.i := by
  rw [Scan.sees, reads.buffer, keyword_fill_iff b bytes kw s.i inside printable]

theorem Reads.captures_eq (reads : Reads b bytes userNum s) (frameless : ¬Contains bytes kwFrame)
    (lands : s.landing ≤ bytes.length) : s.captures = false := by
  rw [Scan.captures, reads.closed, reads.buffer, Bool.false_or]
  exact keyword_false_of_not_contains frameless lands nul_not_mem_kwFrame

/-- Inside the delivery the branches at two indices are the words there. -/
theorem Reads.bodyBranches_eq (reads : Reads b bytes userNum s)
    (frameless : ¬Contains bytes kwFrame) (inside : s.i ≤ bytes.length)
    (lands : s.landing ≤ bytes.length)
    (selects : kwGet <+: bytes.drop s.i → s.i + 7 ≤ bytes.length) :
    bodyBranches s = occurs bytes s.i kwState .state ++
      occurs bytes s.i kwGet (.get (textVariant bytes s.i)) ++ laterWords bytes s.landing := by
  have quiet := reads.captures_eq frameless lands
  have get : taken (fill b bytes) s.i kwGet (.get (variantOf (fill b bytes (s.i + 7)))) =
      occurs bytes s.i kwGet (.get (textVariant bytes s.i)) := by
    rw [taken_fill inside _ nul_not_mem_kwGet]
    by_cases here : kwGet <+: bytes.drop s.i
    · rw [fill_text b bytes (selects here), textVariant]
    · rw [occurs_nil here, occurs_nil here]
  rw [bodyBranches, reads.buffer, quiet, get, taken_fill inside _ nul_not_mem_kwState,
    laterBranches_fill lands]
  exact List.append_nil _

/-- One iteration takes the words up to the index it leaves. -/
theorem Reads.words (reads : Reads b bytes userNum s) (fine : GetsFine bytes userNum)
    (frameless : ¬Contains bytes kwFrame) (inside : s.i < bytes.length) :
    s.landing ≤ bytes.length ∧ wordsFrom bytes (textVariant bytes) s.i =
      bodyBranches s ++ wordsFrom bytes (textVariant bytes) (s.landing + 1) := by
  have start := Nat.le_of_lt inside
  have selects : kwGet <+: bytes.drop s.i → s.i + 7 ≤ bytes.length := fun get => (fine s.i get).1
  by_cases stays : s.landing = s.i
  · have lands : s.landing ≤ bytes.length := by omega
    refine ⟨lands, ?_⟩
    rw [reads.bodyBranches_eq frameless start lands selects, stays, wordsFrom_step, wordsAt]
  · have lists : s.lists = true := by
      by_contra other
      exact stays (if_neg other)
    have moved : s.landing = s.i + usersAt bytes userNum s.i := by
      rw [Scan.landing, if_pos lists, reads.users]
    obtain ⟨seen, list⟩ := lists_iff.mp lists
    have get := (reads.sees_iff start nul_not_mem_kwGet).mp seen
    rw [reads.buffer, fill_text b bytes (selects get)] at list
    have land := (fine s.i get).2 list
    have lands : s.landing ≤ bytes.length := moved ▸ land.inside
    refine ⟨lands, ?_⟩
    have alone : laterWords bytes s.i = [] := by
      rw [laterWords, occurs_nil (not_prefix_of_get get (by decide)),
        occurs_nil (not_prefix_of_get get (by decide)),
        occurs_nil (not_prefix_of_get get (by decide))]
      rfl
    have skipped : wordsFrom bytes (textVariant bytes) (s.i + 1) =
        wordsFrom bytes (textVariant bytes) s.landing := by
      have reach : s.landing = s.i + 1 + (usersAt bytes userNum s.i - 1) := by omega
      rw [reach]
      apply wordsFrom_skip
      intro q lower upper
      exact wordsAt_nil (land.between q (by omega) (by omega))
    have place : wordsAt bytes (textVariant bytes) s.landing = laterWords bytes s.landing := by
      have absent := land.place (by omega)
      rw [← moved] at absent
      rw [wordsAt, occurs_nil absent.1, occurs_nil absent.2]
      rfl
    rw [reads.bodyBranches_eq frameless start lands selects, wordsFrom_step, skipped,
      wordsFrom_step s.landing, place, wordsAt, alone]
    simp only [List.append_nil, List.append_assoc]

/-- The invariant passes to the next iteration. -/
theorem Reads.scanBody (reads : Reads b bytes userNum s) (fine : GetsFine bytes userNum)
    (frameless : ¬Contains bytes kwFrame) (inside : s.i < bytes.length) :
    Reads b bytes userNum (Esp32.scanBody bytes.length s) := by
  obtain ⟨lands, words⟩ := reads.words fine frameless inside
  have before : wordsBefore bytes (textVariant bytes) (s.landing + 1) =
      wordsBefore bytes (textVariant bytes) s.i ++ bodyBranches s := by
    have split := (occurrences_split bytes (textVariant bytes) s.i).symm.trans
      (occurrences_split bytes (textVariant bytes) (s.landing + 1))
    rw [words, ← List.append_assoc] at split
    exact (List.append_cancel_right split).symm
  have quiet := reads.captures_eq frameless lands
  exact {
    buffer := by rw [scanBody_uartRxBuffer, reads.buffer]
    closed := by
      rw [scanBody_buf, capture, if_neg (by rw [← Scan.captures, quiet]; exact Bool.false_ne_true)]
      exact reads.closed
    users := by
      rw [(scanBody_performs bytes.length s).glob, perform_userNum, reads.users, scanBody_i,
        usersAt_eq (textVariant bytes), usersAt_eq (textVariant bytes), before, List.countP_append,
        Nat.add_assoc] }

theorem loop_words (fine : GetsFine bytes userNum) (frameless : ¬Contains bytes kwFrame)
    (fuel : Nat) (s : Scan) (reads : Reads b bytes userNum s)
    (enough : bytes.length ≤ s.i + fuel) :
    loopBranches bytes.length fuel s = wordsFrom bytes (textVariant bytes) s.i := by
  induction fuel generalizing s with
  | zero => rw [wordsFrom_end (by omega), loopBranches]
  | succ fuel ih =>
      rw [loopBranches]
      split
      next inside =>
        have forward := le_landing s
        rw [(reads.words fine frameless inside).2,
          ih _ (reads.scanBody fine frameless inside) (by rw [scanBody_i]; omega), scanBody_i]
      next outside => rw [wordsFrom_end (by omega)]

theorem GetsFine.refines (fine : GetsFine bytes userNum) (frameless : ¬Contains bytes kwFrame) :
    Refines bytes userNum := by
  refine ⟨textVariant bytes, fun r closed users => ?_⟩
  have reads : Reads r.buf.uartRxBuffer bytes userNum (startScan r bytes) := ⟨rfl, closed, users⟩
  rw [scanBranches, loop_words fine frameless bytes.length _ reads (Nat.le_add_left _ _),
    occurrences_split bytes (textVariant bytes) 0]
  rfl

end

end KyokaMirror.Esp32
