import KyokaMirror.Json.Tokens

set_option autoImplicit false

namespace KyokaMirror.Json

open Users

/-- The loop has read only tokens of the parse and printed through no stale
`json_p`. -/
structure TokenScan.Safe (s : TokenScan) (res : Int) : Prop where
  reads : ∀ index ∈ s.tokenReads, (index : Int) < res
  assigned : ∀ json_p ∈ s.printed, json_p ≠ none

/-- From `i` on, every second token is one of the three keys and has a token
behind it. -/
def Paired (str : Memory) (p : Parsed) (i : Nat) : Prop :=
  ∀ k : Nat, (i + 2 * k : Int) < p.res →
    memberField str (p.t (i + 2 * k)) ≠ none ∧ (i + 2 * k + 1 : Int) < p.res

theorem paired_of_le {str : Memory} {p : Parsed} {i : Nat} (done : p.res ≤ i) : Paired str p i := by
  intro k inside
  omega

theorem paired_iff (str : Memory) (p : Parsed) {i : Nat} (inside : (i : Int) < p.res) :
    Paired str p i ↔
      (memberField str (p.t i) ≠ none ∧ (i + 1 : Int) < p.res) ∧ Paired str p (i + 2) := by
  constructor
  · intro paired
    refine ⟨?_, ?_⟩
    · have first := paired 0 (by omega)
      exact ⟨first.1, by omega⟩
    · intro k later
      have next := paired (k + 1) (by omega)
      rw [show i + 2 * (k + 1) = i + 2 + 2 * k by omega] at next
      exact ⟨next.1, by omega⟩
  · rintro ⟨⟨key, behind⟩, rest⟩ k later
    cases k with
    | zero => exact ⟨key, by omega⟩
    | succ k =>
        have next := rest k (by omega)
        rw [show i + 2 + 2 * k = i + 2 * (k + 1) by omega] at next
        exact ⟨next.1, by omega⟩

theorem storeMember_safe_iff (str : Memory) (t : Nat → Token) (field : Field) (s : TokenScan)
    {res : Int} (inside : (s.i : Int) < res) :
    (storeMember str t field s).Safe res ↔ s.Safe res ∧ (s.i + 1 : Int) < res := by
  constructor
  · rintro ⟨reads, assigned⟩
    simp only [storeMember, List.forall_mem_append, List.forall_mem_cons] at reads assigned
    exact ⟨⟨reads.1, assigned.1⟩, by simpa using reads.2.2.1⟩
  · rintro ⟨⟨reads, assigned⟩, behind⟩
    refine ⟨?_, ?_⟩
    · simp only [storeMember, List.forall_mem_append, List.forall_mem_cons]
      exact ⟨reads, inside, by simpa using behind, by simp⟩
    · simp only [storeMember, List.forall_mem_append, List.forall_mem_cons]
      exact ⟨assigned, by simp, by simp⟩

theorem tokenLoop_safe_iff (str : Memory) (p : Parsed) :
    ∀ (fuel : Nat) (s : TokenScan), p.res ≤ s.i + fuel →
      ((tokenLoop str p fuel s).Safe p.res ↔ s.Safe p.res ∧ Paired str p s.i) := by
  intro fuel
  induction fuel with
  | zero =>
      intro s enough
      rw [tokenLoop, and_iff_left (paired_of_le (by omega))]
  | succ fuel ih =>
      intro s enough
      by_cases inside : (s.i : Int) < p.res
      · rw [tokenLoop, if_pos inside, paired_iff str p inside]
        cases key : memberField str (p.t s.i) with
        | some field =>
            have moved : (storeMember str p.t field s).i = s.i + 2 := rfl
            rw [tokenBody_of_some key, ih _ (by rw [moved]; omega),
              storeMember_safe_iff str p.t field s inside, moved]
            simp only [ne_eq, reduceCtorEq, not_false_eq_true, true_and, and_assoc]
        | none =>
            -- The iteration prints through a `json_p` it has not assigned.
            rw [tokenBody_of_none key, ih _ (by dsimp only; omega)]
            constructor
            · rintro ⟨⟨-, assigned⟩, -⟩
              exact absurd rfl (assigned none (List.mem_append_right _ List.mem_cons_self))
            · rintro ⟨-, ⟨named, -⟩, -⟩
              exact absurd rfl named
      · rw [tokenLoop, if_neg inside, and_iff_left (paired_of_le (by omega))]

/-- The token loop is safe exactly when keys and values alternate and every key
is one of the three. -/
theorem token_loop_safe_iff (str : Memory) (p : Parsed) (userDate : Memory) :
    (scanTokens str p userDate).Safe p.res ↔ Paired str p 1 := by
  have all := tokenLoop_safe_iff str p p.res.toNat ⟨1, userDate, [], []⟩ (by dsimp only; omega)
  have start : TokenScan.Safe ⟨1, userDate, [], []⟩ p.res :=
    ⟨fun _ member => absurd member List.not_mem_nil, fun _ member => absurd member List.not_mem_nil⟩
  rw [scanTokens, all, and_iff_right start]

/-- The parse of `{"a":"id"}`. -/
def valueNamedId : Parsed where
  res := 3
  t := fun
    | 0 => ⟨.object, 0, 10⟩
    | 1 => ⟨.string, 2, 3⟩
    | 2 => ⟨.string, 6, 8⟩
    | _ => ⟨.undefined, 0, 0⟩

/-- The value is taken for a key, and the loop reads `t[3]`. -/
theorem value_read_as_key :
    valueNamedId.accepted = true ∧ ¬ (scanTokens (literal "\x7b\"a\":\"id\"\x7d") valueNamedId
      (fun _ => 0)).Safe valueNamedId.res := by
  refine ⟨rfl, ?_⟩
  rintro ⟨reads, -⟩
  exact absurd (reads 3 (by decide +kernel)) (by decide)

end KyokaMirror.Json
