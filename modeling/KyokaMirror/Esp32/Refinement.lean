import KyokaMirror.Esp32.Occurrences

set_option autoImplicit false

namespace KyokaMirror.Esp32

open Users

section

variable {bytes : List UInt8} {variant : Nat → Variant}

theorem start_lt {kw : List UInt8} (word : kw ∈ commandWords) {q : Nat}
    (here : kw <+: bytes.drop q) : q < bytes.length := by
  have three := three_le_commandWords kw word
  have length := here.length_le
  rw [List.length_drop] at length
  omega

theorem mem_occurrences {q : Nat} {entry : Nat × Branch} (inside : q < bytes.length)
    (member : entry ∈ wordsAt bytes variant q) : entry ∈ occurrences bytes variant :=
  List.mem_flatMap.mpr ⟨q, List.mem_range.mpr inside, member⟩

theorem occurrences_lt {entry : Nat × Branch} (member : entry ∈ occurrences bytes variant) :
    entry.1 < bytes.length := by
  obtain ⟨q, inside, at_q⟩ := List.mem_flatMap.mp member
  rw [wordsAt_index at_q]
  exact List.mem_range.mp inside

/-- Each word stands among the occurrences, the first two as early branches. -/
theorem word_occurs {kw : List UInt8} (word : kw ∈ commandWords) {q : Nat}
    (here : kw <+: bytes.drop q) : ∃ branch, (q, branch) ∈ occurrences bytes variant ∧
      (kw ∈ [kwState, kwGet] → branch.early = true) := by
  have inside := start_lt word here
  have among : ∀ branch, (q, branch) ∈ wordsAt bytes variant q →
      (q, branch) ∈ occurrences bytes variant := fun _ => mem_occurrences inside
  simp only [wordsAt, laterWords, List.mem_append, mem_occurs] at among
  simp only [commandWords, List.mem_cons, List.not_mem_nil, or_false] at word
  rcases word with rfl | rfl | rfl | rfl | rfl
  · exact ⟨.state, among .state (.inl (.inl ⟨rfl, here⟩)), fun _ => rfl⟩
  · exact ⟨.get (variant q), among _ (.inl (.inr ⟨rfl, here⟩)), fun _ => rfl⟩
  · exact ⟨.add, among .add (.inr (.inl (.inl ⟨rfl, here⟩))),
      fun early => absurd early (by decide)⟩
  · exact ⟨.face, among .face (.inr (.inl (.inr ⟨rfl, here⟩))),
      fun early => absurd early (by decide)⟩
  · exact ⟨.sign, among .sign (.inr (.inr ⟨rfl, here⟩)), fun early => absurd early (by decide)⟩

/-- The branches before an answer are the words before it. -/
theorem before_eq {s t : Scan} {p : Nat} {before after : List (Nat × Branch)}
    (answers : Answers s (occurrences bytes variant) p t before after) :
    before = wordsBefore bytes variant p := by
  have scanned : (occurrences bytes variant).filter (·.1 < p) = before := by
    have here : (bodyBranches t).filter (·.1 < p) = [] := by
      rw [List.filter_eq_nil_iff]
      intro entry member
      have range := bodyBranches_range member
      rw [answers.index] at range
      simpa using range.1
    have behind : after.filter (·.1 < p) = [] := by
      rw [List.filter_eq_nil_iff]
      intro entry member
      have far := answers.later entry member
      have forward := le_landing t
      rw [answers.index] at forward
      simp only [decide_eq_true_eq]
      omega
    have kept : before.filter (·.1 < p) = before :=
      List.filter_eq_self.mpr fun entry member => decide_eq_true (answers.earlier entry member)
    rw [answers.split, List.filter_append, List.filter_append, here, behind, kept,
      List.append_nil, List.append_nil]
  have read : (occurrences bytes variant).filter (·.1 < p) = wordsBefore bytes variant p := by
    have kept : (wordsBefore bytes variant p).filter (·.1 < p) = wordsBefore bytes variant p := by
      rw [List.filter_eq_self]
      intro entry member
      obtain ⟨q, inside, at_q⟩ := List.mem_flatMap.mp member
      rw [wordsAt_index at_q]
      exact decide_eq_true (List.mem_range.mp inside)
    have behind : (wordsFrom bytes variant p).filter (·.1 < p) = [] := by
      rw [List.filter_eq_nil_iff]
      intro entry member
      obtain ⟨q, inside, at_q⟩ := List.mem_flatMap.mp member
      have lower := (List.mem_range'_1.mp inside).1
      rw [wordsAt_index at_q, decide_eq_true_eq]
      omega
    rw [occurrences_split bytes variant p, List.filter_append, kept, behind, List.append_nil]
  rw [← scanned, read]

end

/-- A thread between two messages, with any buffer content and number of
users. -/
def stale (b : Memory) (userNum : Nat) : Receiver where
  buf := ⟨b, fun _ => 0, 0, false⟩
  glob := ⟨fun _ => 0, userNum, 0, 0⟩
  jsonLength := 0
  published := 0
  accesses := []
  actions := []

section

variable {bytes : List UInt8} {variant : Nat → Variant} {userNum : Nat}
  (reads : ∀ r : Receiver, r.buf.readstate = false → r.glob.userNum = userNum →
    scanBranches r bytes = occurrences bytes variant)
  {p : Nat} (get : kwGet <+: bytes.drop p)
include reads get

/-- Whatever the buffer held, the scan answers the `get`, with the users counted
so far. -/
theorem get_answered_stale (b : Memory) :
    variant p = variantOf (fill b bytes (p + 7)) ∧ ∃ s t before after,
      Answers s (occurrences bytes variant) p t before after ∧
        t.buf.uartRxBuffer = fill b bytes ∧ t.glob.userNum = usersAt bytes userNum p := by
  have word : kwGet ∈ commandWords := by decide
  have member : (p, .get (variant p)) ∈ occurrences bytes variant := by
    apply mem_occurrences (start_lt word get)
    exact List.mem_append_left _ (List.mem_append_right _ (mem_occurs.mpr ⟨rfl, get⟩))
  rw [← reads (stale b userNum) rfl rfl, scanBranches] at member
  obtain ⟨selected, t, before, after, answers⟩ := get_answered member
  rw [← scanBranches, reads (stale b userNum) rfl rfl] at answers
  refine ⟨selected, _, t, before, after, answers, answers.buffer, ?_⟩
  rw [answers.users, before_eq answers, usersAt_eq variant]
  rfl

/-- The seventh byte is delivered: else a stale one would choose the variant. -/
theorem seventh_inside : p + 7 ≤ bytes.length := by
  by_contra outside
  have number := (get_answered_stale reads get fun _ => charN).1
  have dot := (get_answered_stale reads get fun _ => charDot).1
  rw [fill_beyond _ _ _ (by omega)] at number dot
  exact absurd (number.symm.trans dot) (by decide)

theorem variant_eq : variant p = textVariant bytes p := by
  have selected := (get_answered_stale reads get fun _ => 0).1
  rw [fill_text _ _ (seventh_inside reads get)] at selected
  exact selected

variable (list : textVariant bytes p = .list)
include list

/-- The iteration of a list reply leaves the index at `p` and the users. -/
theorem list_answered (b : Memory) : ∃ s t before after,
    Answers s (occurrences bytes variant) p t before after ∧ t.buf.uartRxBuffer = fill b bytes ∧
      t.landing = p + usersAt bytes userNum p := by
  obtain ⟨selected, s, t, before, after, answers, buffer, users⟩ :=
    get_answered_stale reads get b
  refine ⟨s, t, before, after, answers, buffer, ?_⟩
  have lists : t.lists = true := by
    rw [lists_iff, buffer, answers.index, ← selected, variant_eq reads get]
    exact ⟨answers.seen, list⟩
  rw [Scan.landing, if_pos lists, answers.index, users]

/-- A landing place behind the NUL would show stale bytes. -/
theorem landing_inside : p + usersAt bytes userNum p ≤ bytes.length := by
  by_contra outside
  obtain ⟨s, t, before, after, answers, buffer, landing⟩ := list_answered reads get list
    fun a => kwAdd.getD (a - (p + usersAt bytes userNum p)) 0
  have seen : keyword t.buf.uartRxBuffer t.landing kwAdd = true := by
    rw [buffer, landing]
    apply keyword_of_prefix (List.prefix_refl kwAdd)
    intro k inside
    rw [fill_beyond _ _ _ (by omega), Nat.add_sub_cancel_left, List.getD_eq_getElem?_getD,
      List.getElem?_eq_getElem inside, Option.getD_some]
  have member : (t.landing, .add) ∈ occurrences bytes variant := by
    have here : (t.landing, .add) ∈ laterBranches t.buf.uartRxBuffer t.landing :=
      List.mem_append_left _ (List.mem_append_left _ (mem_taken.mpr ⟨rfl, seen⟩))
    rw [answers.split]
    exact List.mem_append_left _ (List.mem_append_right _
      (List.mem_append_left _ (List.mem_append_right _ here)))
  have bound := occurrences_lt member
  dsimp only at bound
  omega

theorem list_lands : Lands bytes p (usersAt bytes userNum p) := by
  obtain ⟨s, t, before, after, answers, -, landing⟩ := list_answered reads get list fun _ => 0
  -- A word behind `p` and up to the landing place is taken there, and not early.
  have late : ∀ q branch, (q, branch) ∈ occurrences bytes variant → p < q →
      q ≤ p + usersAt bytes userNum p → q = p + usersAt bytes userNum p ∧ branch.early = false := by
    intro q branch member lower upper
    rw [answers.split, List.mem_append, List.mem_append] at member
    rcases member with (earlier | here) | later
    · have bound := answers.earlier _ earlier
      dsimp only at bound
      omega
    · have index := mem_bodyBranches here
      rw [answers.index, landing] at index
      dsimp only at index
      cases early : branch.early with
      | false =>
          rw [early, if_neg Bool.false_ne_true] at index
          exact ⟨index, rfl⟩
      | true =>
          rw [early, if_pos rfl] at index
          omega
    · have bound := answers.later _ later
      dsimp only at bound
      omega
  refine ⟨landing_inside reads get list, ?_, ?_⟩
  · intro q lower upper kw word here
    obtain ⟨branch, member, -⟩ := word_occurs word here
    have place := (late q branch member lower (by omega)).1
    omega
  · intro some
    have absent : ∀ kw ∈ [kwState, kwGet], ¬kw <+: bytes.drop (p + usersAt bytes userNum p) := by
      intro kw early here
      have word : kw ∈ commandWords := List.IsPrefix.subset ⟨_, rfl⟩ early
      obtain ⟨branch, member, isEarly⟩ := word_occurs word here
      have late := (late _ branch member (by omega) (Nat.le_refl _)).2
      rw [isEarly early] at late
      cases late
    exact ⟨absent kwState (by decide), absent kwGet (by decide)⟩

end

/-- A delivery without frame is scanned as it reads exactly if every `get` in it
is fine. -/
theorem scan_refines_iff (d : Delivery) (userNum : Nat) (frameless : ¬Contains d.bytes kwFrame) :
    Refines d.bytes userNum ↔ GetsFine d.bytes userNum := by
  constructor
  · rintro ⟨variant, reads⟩ p get
    exact ⟨seventh_inside reads get, list_lands reads get⟩
  · exact fun fine => fine.refines frameless

def numberQuery : Delivery := ⟨ascii "getUserNum add", by decide⟩

/-- A `get` that asks for the number, and a word behind it. -/
theorem number_query_refines : Refines numberQuery.bytes 2 := by
  apply (scan_refines_iff numberQuery 2 (by decide +kernel)).mpr
  have fine : ∀ p < 14, kwGet <+: numberQuery.bytes.drop p →
      p + 7 ≤ 14 ∧ textVariant numberQuery.bytes p ≠ .list := by decide +kernel
  intro p get
  obtain ⟨inside, other⟩ := fine p (start_lt (by decide) get) get
  exact ⟨inside, fun list => absurd list other⟩

/-- After the three bytes of `get` a stale byte chooses the answer. -/
theorem short_get_stale : ¬Refines (ascii "get") 2 := by
  rintro ⟨variant, reads⟩
  have get : kwGet <+: (ascii "get").drop 0 := List.prefix_refl kwGet
  have inside := seventh_inside reads get
  exact absurd inside (by decide)

end KyokaMirror.Esp32
