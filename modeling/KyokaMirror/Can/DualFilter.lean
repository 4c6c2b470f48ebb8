import KyokaMirror.Can.Acceptance

set_option autoImplicit false

namespace KyokaMirror.Can

open Library.Pattern

section

variable (id mask firstdata datamask : BitVec 32) (rtr : BitVec 8)

theorem first_code :
    ((((id &&& 0xFFFF0000) >>> 16) >>> 3).setWidth 8 ++
      ((((id &&& 0xFFFF0000) >>> 16) <<< 5 ||| firstdata >>> 4 |||
        rtr.setWidth 32 <<< 4).setWidth 8).extractLsb' 5 3 : BitVec 11) =
      id.extractLsb' 16 11 ||| (firstdata.extractLsb' 9 3).setWidth 11 |||
        (rtr.extractLsb' 1 3).setWidth 11 := by
  apply BitVec.eq_of_getLsbD_eq
  intro j inside
  simp only [BitVec.getLsbD_append]
  interval_cases j <;> simp

theorem first_rtr :
    ((((id &&& 0xFFFF0000) >>> 16) <<< 5 ||| firstdata >>> 4 |||
      rtr.setWidth 32 <<< 4).setWidth 8 : BitVec 8).extractLsb' 4 1 =
      firstdata.extractLsb' 8 1 ||| rtr.extractLsb' 0 1 := by
  apply BitVec.eq_of_getLsbD_eq
  intro j inside
  interval_cases j
  simp

theorem first_data :
    (((((id &&& 0xFFFF0000) >>> 16) <<< 5 ||| firstdata >>> 4 |||
        rtr.setWidth 32 <<< 4).setWidth 8 : BitVec 8).extractLsb' 0 4 ++
      ((firstdata &&& 0x0F ||| (id &&& 0x0000FFFF) <<< 5 |||
        rtr.setWidth 32 <<< 4).setWidth 8 : BitVec 8).extractLsb' 0 4 : BitVec 8) =
      firstdata.extractLsb' 0 8 := by
  apply BitVec.eq_of_getLsbD_eq
  intro j inside
  simp only [BitVec.getLsbD_append]
  interval_cases j <;> simp

/-- The mask is shifted one place short. -/
theorem first_mask :
    ((((mask &&& 0xFFFF0000) >>> 16) >>> 3).setWidth 8 ++
      ((((mask &&& 0xFFFF0000) >>> 16) <<< 4 ||| datamask >>> 4).setWidth 8).extractLsb' 5 3 :
      BitVec 11) =
      mask.extractLsb' 19 8 ++ (mask.extractLsb' 17 3 ||| datamask.extractLsb' 9 3) := by
  apply BitVec.eq_of_getLsbD_eq
  intro j inside
  simp only [BitVec.getLsbD_append]
  interval_cases j <;> simp

theorem first_rtr_mask :
    ((((mask &&& 0xFFFF0000) >>> 16) <<< 4 ||| datamask >>> 4).setWidth 8 :
      BitVec 8).extractLsb' 4 1 = mask.extractLsb' 16 1 ||| datamask.extractLsb' 8 1 := by
  apply BitVec.eq_of_getLsbD_eq
  intro j inside
  interval_cases j
  simp

theorem first_data_mask :
    (((((mask &&& 0xFFFF0000) >>> 16) <<< 4 ||| datamask >>> 4).setWidth 8 :
        BitVec 8).extractLsb' 0 4 ++
      ((datamask <<< 4).setWidth 8 : BitVec 8).extractLsb' 0 4 : BitVec 8) =
      datamask.extractLsb' 4 4 ++ 0#4 := by
  apply BitVec.eq_of_getLsbD_eq
  intro j inside
  simp only [BitVec.getLsbD_append]
  interval_cases j <;> simp

theorem second_code :
    (((id &&& 0x0000FFFF) >>> 3).setWidth 8 ++
      ((firstdata &&& 0x0F ||| (id &&& 0x0000FFFF) <<< 5 |||
        rtr.setWidth 32 <<< 4).setWidth 8).extractLsb' 5 3 : BitVec 11) =
      id.extractLsb' 0 11 ||| (rtr.extractLsb' 1 3).setWidth 11 := by
  apply BitVec.eq_of_getLsbD_eq
  intro j inside
  simp only [BitVec.getLsbD_append]
  interval_cases j <;> simp

theorem second_rtr :
    ((firstdata &&& 0x0F ||| (id &&& 0x0000FFFF) <<< 5 |||
      rtr.setWidth 32 <<< 4).setWidth 8 : BitVec 8).extractLsb' 4 1 = rtr.extractLsb' 0 1 := by
  apply BitVec.eq_of_getLsbD_eq
  intro j inside
  interval_cases j
  simp

/-- The low three bits and RTR take the mask of the data byte. -/
theorem second_mask :
    (((mask &&& 0x0000FFFF) >>> 3).setWidth 8 ++
      ((datamask <<< 4).setWidth 8).extractLsb' 5 3 : BitVec 11) =
      mask.extractLsb' 3 8 ++ datamask.extractLsb' 1 3 := by
  apply BitVec.eq_of_getLsbD_eq
  intro j inside
  simp only [BitVec.getLsbD_append]
  interval_cases j <;> simp

theorem second_rtr_mask :
    ((datamask <<< 4).setWidth 8 : BitVec 8).extractLsb' 4 1 = datamask.extractLsb' 0 1 := by
  apply BitVec.eq_of_getLsbD_eq
  intro j inside
  interval_cases j
  simp

theorem upper_half :
    ((((id &&& 0xFFFF0000) >>> 16) >>> 8).setWidth 8 ++
      ((id &&& 0xFFFF0000) >>> 16).setWidth 8 : BitVec 16) = id.extractLsb' 16 16 := by
  apply BitVec.eq_of_getLsbD_eq
  intro j inside
  simp only [BitVec.getLsbD_append]
  interval_cases j <;> simp

theorem lower_half :
    (((id &&& 0x0000FFFF) >>> 8).setWidth 8 ++
      (id &&& 0x0000FFFF).setWidth 8 : BitVec 16) = id.extractLsb' 0 16 := by
  apply BitVec.eq_of_getLsbD_eq
  intro j inside
  simp only [BitVec.getLsbD_append]
  interval_cases j <;> simp

end

/-- The filter in the upper half of `ID`, with the data byte of a standard
frame. -/
def UpperFilter (s : FilterInit) : BusFrame → Prop
  | .standard id rtr _ data0 _ =>
      Matches (s.id.extractLsb' 16 11) (s.idMask.extractLsb' 16 11) id ∧
        rtr.setWidth 8 = s.rtr ∧
        Matches (s.firstData.extractLsb' 0 8) (s.dataMask.extractLsb' 0 8) data0
  | .extended id _ _ =>
      Matches (s.id.extractLsb' 16 16) (s.idMask.extractLsb' 16 16) (id.extractLsb' 13 16)

/-- The filter in the lower half. -/
def LowerFilter (s : FilterInit) : BusFrame → Prop
  | .standard id rtr _ _ _ =>
      Matches (s.id.extractLsb' 0 11) (s.idMask.extractLsb' 0 11) id ∧ rtr.setWidth 8 = s.rtr
  | .extended id _ _ =>
      Matches (s.id.extractLsb' 0 16) (s.idMask.extractLsb' 0 16) (id.extractLsb' 13 16)

def DualFilter (s : FilterInit) (frame : BusFrame) : Prop :=
  UpperFilter s frame ∨ LowerFilter s frame

/-- The code of the first filter as it is written, for a small RTR. -/
def writtenCode (s : FilterInit) : BitVec 11 :=
  s.id.extractLsb' 16 11 ||| (s.firstData.extractLsb' 9 3).setWidth 11

def writtenMask (s : FilterInit) : BitVec 11 :=
  s.idMask.extractLsb' 19 8 ++ (s.idMask.extractLsb' 17 3 ||| s.dataMask.extractLsb' 9 3)

/-- The identifiers of the two filters. -/
def UpperId (s : FilterInit) (id : BitVec 11) : Prop :=
  Matches (s.id.extractLsb' 16 11) (s.idMask.extractLsb' 16 11) id

def LowerId (s : FilterInit) (id : BitVec 11) : Prop :=
  Matches (s.id.extractLsb' 0 11) (s.idMask.extractLsb' 0 11) id

/-- The standard setups that the misplaced bits do not change: RTR is masked
nowhere and keeps its code, the lower filter finds its low mask bits in
`Data_Mask`, the first filter as written and the upper one differ on no
identifier outside the lower filter, and the data byte has no mask in its low
nibble unless the lower filter lets every identifier of the upper one pass. -/
structure StandardFine (s : FilterInit) : Prop where
  rtr : s.rtr.toNat ≤ 1
  rtrFirst : s.idMask.extractLsb' 16 1 ||| s.dataMask.extractLsb' 8 1 = 0#1 ∧
    s.firstData.extractLsb' 8 1 ||| s.rtr.extractLsb' 0 1 = s.rtr.extractLsb' 0 1
  rtrSecond : s.dataMask.extractLsb' 0 1 = 0#1
  lowerMask : s.dataMask.extractLsb' 1 3 = s.idMask.extractLsb' 0 3
  upperIds : ∀ id, ¬LowerId s id → (Matches (writtenCode s) (writtenMask s) id ↔ UpperId s id)
  nibble : s.dataMask.extractLsb' 1 3 = 0#3 ∨ ∀ id, UpperId s id → LowerId s id

def WrittenFirst (s : FilterInit) (id : BitVec 11) (rtr : BitVec 1) (data : BitVec 8) : Prop :=
  Matches (writtenCode s ||| (s.rtr.extractLsb' 1 3).setWidth 11) (writtenMask s) id ∧
    Matches (s.firstData.extractLsb' 8 1 ||| s.rtr.extractLsb' 0 1)
      (s.idMask.extractLsb' 16 1 ||| s.dataMask.extractLsb' 8 1) rtr ∧
    Matches (s.firstData.extractLsb' 0 8) (s.dataMask.extractLsb' 4 4 ++ 0#4) data

def WrittenSecond (s : FilterInit) (id : BitVec 11) (rtr : BitVec 1) : Prop :=
  Matches (s.id.extractLsb' 0 11 ||| (s.rtr.extractLsb' 1 3).setWidth 11)
      (s.idMask.extractLsb' 3 8 ++ s.dataMask.extractLsb' 1 3) id ∧
    Matches (s.rtr.extractLsb' 0 1) (s.dataMask.extractLsb' 0 1) rtr

/-- The registers let the standard frames pass that the struct describes. -/
def WritesStandard (s : FilterInit) : Prop :=
  ∀ id rtr unused data0 data1, WrittenFirst s id rtr data0 ∨ WrittenSecond s id rtr ↔
    DualFilter s (.standard id rtr unused data0 data1)

section

variable {s : FilterInit} (stack : FilterBytes) (dual : s.mode = 0)
include dual

theorem passes_standard_iff (format : s.ide = 0) (id : BitVec 11) (rtr : BitVec 1)
    (unused : BitVec 4) (data0 data1 : BitVec 8) :
    (passesFirst (filterBytes stack s) (.standard id rtr unused data0 data1) ∨
        passesSecond (filterBytes stack s) (.standard id rtr unused data0 data1)) ↔
      WrittenFirst s id rtr data0 ∨ WrittenSecond s id rtr := by
  rw [filterBytes, if_pos format, if_pos dual, passesFirst, passesSecond, first_code, first_mask,
    first_rtr, first_rtr_mask, first_data, first_data_mask, second_code, second_mask, second_rtr,
    second_rtr_mask, WrittenFirst, WrittenSecond, writtenCode, writtenMask]

theorem passes_extended_iff (format : s.ide = 1) (id : BitVec 29) (rtr : BitVec 1)
    (unused : BitVec 2) :
    (passesFirst (filterBytes stack s) (.extended id rtr unused) ∨
        passesSecond (filterBytes stack s) (.extended id rtr unused)) ↔
      DualFilter s (.extended id rtr unused) := by
  have extended : ¬s.ide = 0 := by rw [format]; decide
  rw [filterBytes, if_neg extended, if_pos format, if_pos dual, passesFirst, passesSecond,
    upper_half, upper_half, lower_half, lower_half, DualFilter, UpperFilter, LowerFilter]

end

/-- A filter that lets one RTR pass only has no mask there and that code. -/
theorem rtr_only : ∀ code mask bit : BitVec 1,
    (∀ rtr, Matches code mask rtr → rtr = bit) → mask = 0#1 ∧ code = bit := by decide

theorem rtr_of_dualFilter {s : FilterInit} {id : BitVec 11} {rtr : BitVec 1} {unused : BitVec 4}
    {data0 data1 : BitVec 8} (passes : DualFilter s (.standard id rtr unused data0 data1)) :
    rtr.setWidth 8 = s.rtr := by
  rcases passes with upper | lower
  · exact upper.2.1
  · exact lower.2

section

variable {s : FilterInit} (writes : WritesStandard s)
include writes

theorem WritesStandard.rtr_small : s.rtr.toNat ≤ 1 := by
  have own : (s.rtr.extractLsb' 0 1).setWidth 8 = s.rtr :=
    rtr_of_dualFilter ((writes _ _ 0 0 0).mp (.inr ⟨matches_self _ _, matches_self _ _⟩))
  rw [← own, BitVec.toNat_setWidth]
  have bit := (s.rtr.extractLsb' 0 1).isLt
  omega

/-- Whatever RTR the registers let pass is the one asked for. -/
theorem WritesStandard.rtr_eq {id : BitVec 11} {rtr : BitVec 1} (data : BitVec 8)
    (passes : WrittenFirst s id rtr data ∨ WrittenSecond s id rtr) :
    rtr = s.rtr.extractLsb' 0 1 :=
  (rtr_eq_iff rtr writes.rtr_small).mpr (rtr_of_dualFilter ((writes _ _ 0 _ 0).mp passes))

theorem WritesStandard.rtrFirst :
    s.idMask.extractLsb' 16 1 ||| s.dataMask.extractLsb' 8 1 = 0#1 ∧
      s.firstData.extractLsb' 8 1 ||| s.rtr.extractLsb' 0 1 = s.rtr.extractLsb' 0 1 := by
  apply rtr_only
  intro rtr passes
  exact writes.rtr_eq _ (.inl ⟨matches_self _ _, passes, matches_self _ _⟩)

theorem WritesStandard.rtrSecond : s.dataMask.extractLsb' 0 1 = 0#1 := by
  apply (rtr_only (s.rtr.extractLsb' 0 1) _ (s.rtr.extractLsb' 0 1) _).1
  intro rtr passes
  exact writes.rtr_eq 0 (.inr ⟨matches_self _ _, passes⟩)

/-- With the RTR asked for, the identifier and the data byte decide. -/
theorem WritesStandard.written_ids (id : BitVec 11) (data : BitVec 8) :
    (Matches (writtenCode s) (writtenMask s) id ∧
        Matches (s.firstData.extractLsb' 0 8) (s.dataMask.extractLsb' 4 4 ++ 0#4) data ∨
      Matches (s.id.extractLsb' 0 11) (s.idMask.extractLsb' 3 8 ++ s.dataMask.extractLsb' 1 3) id) ↔
      (UpperId s id ∧ Matches (s.firstData.extractLsb' 0 8) (s.dataMask.extractLsb' 0 8) data ∨
        LowerId s id) := by
  have own := (rtr_eq_iff (s.rtr.extractLsb' 0 1) writes.rtr_small).mp rfl
  have asked := writes id (s.rtr.extractLsb' 0 1) 0 data 0
  rw [WrittenFirst, WrittenSecond, rtr_high writes.rtr_small 3, BitVec.setWidth_zero,
    BitVec.or_zero, BitVec.or_zero, writes.rtrFirst.1, writes.rtrFirst.2, writes.rtrSecond,
    matches_zero_iff, DualFilter, UpperFilter, LowerFilter] at asked
  simpa only [own, UpperId, LowerId, true_and, and_true] using asked

end

/-- A data byte that differs from the code in one bit of the low nibble is
refused by the first filter. -/
theorem turned_refused (s : FilterInit) {j : Nat} (low : j < 4) :
    ¬Matches (s.firstData.extractLsb' 0 8) (s.dataMask.extractLsb' 4 4 ++ 0#4)
      (turn (s.firstData.extractLsb' 0 8) j) := by
  rw [matches_turn_iff _ _ (by omega), BitVec.getLsbD_append, if_pos low, BitVec.getLsbD_zero]
  exact Bool.false_ne_true

theorem turned_passes_iff (s : FilterInit) {j : Nat} (inside : j < 8) :
    Matches (s.firstData.extractLsb' 0 8) (s.dataMask.extractLsb' 0 8)
      (turn (s.firstData.extractLsb' 0 8) j) ↔ s.dataMask.getLsbD j = true := by
  rw [matches_turn_iff _ _ inside, BitVec.getLsbD_extractLsb', decide_eq_true inside,
    Bool.true_and, Nat.zero_add]

/-- The mask of the lower filter is whole if its low bits are in `Data_Mask`. -/
theorem lower_mask_iff (s : FilterInit) :
    s.idMask.extractLsb' 3 8 ++ s.dataMask.extractLsb' 1 3 = s.idMask.extractLsb' 0 11 ↔
      s.dataMask.extractLsb' 1 3 = s.idMask.extractLsb' 0 3 := by
  have whole : s.idMask.extractLsb' 0 11 = s.idMask.extractLsb' 3 8 ++ s.idMask.extractLsb' 0 3 :=
    (BitVec.extractLsb'_append_extractLsb'_eq_extractLsb' (show 3 = 0 + 3 from rfl)).symm
  rw [whole]
  exact BitVec.append_right_inj _

section

variable {s : FilterInit} (writes : WritesStandard s)
include writes

/-- A data byte that neither filter lets pass leaves the lower filter alone. -/
theorem WritesStandard.lowerMask : s.dataMask.extractLsb' 1 3 = s.idMask.extractLsb' 0 3 := by
  have refused : ¬Matches (s.firstData.extractLsb' 0 8) (s.dataMask.extractLsb' 0 8)
      (turn (s.firstData.extractLsb' 0 8) 0) := by
    have bit := congrArg (BitVec.getLsbD · 0) writes.rtrSecond
    rw [turned_passes_iff s (by decide)]
    simpa using bit
  rw [← lower_mask_iff]
  apply mask_ext
  intro id
  have ids := writes.written_ids id (turn (s.firstData.extractLsb' 0 8) 0)
  simpa only [turned_refused s (show 0 < 4 by decide), refused, LowerId, and_false, false_or]
    using ids

theorem WritesStandard.ids (id : BitVec 11) (data : BitVec 8) :
    (Matches (writtenCode s) (writtenMask s) id ∧
        Matches (s.firstData.extractLsb' 0 8) (s.dataMask.extractLsb' 4 4 ++ 0#4) data ∨
      LowerId s id) ↔
      (UpperId s id ∧ Matches (s.firstData.extractLsb' 0 8) (s.dataMask.extractLsb' 0 8) data ∨
        LowerId s id) := by
  have ids := writes.written_ids id data
  rwa [(lower_mask_iff s).mpr writes.lowerMask] at ids

theorem WritesStandard.upperIds (id : BitVec 11) (outside : ¬LowerId s id) :
    Matches (writtenCode s) (writtenMask s) id ↔ UpperId s id := by
  have ids := writes.ids id (s.firstData.extractLsb' 0 8)
  simpa only [matches_self, outside, and_true, or_false] using ids

theorem WritesStandard.nibble :
    s.dataMask.extractLsb' 1 3 = 0#3 ∨ ∀ id, UpperId s id → LowerId s id := by
  by_contra neither
  obtain ⟨masked, outside⟩ := not_or.mp neither
  apply masked
  apply BitVec.eq_of_getLsbD_eq
  intro j inside
  rw [BitVec.getLsbD_extractLsb', decide_eq_true inside, Bool.true_and, BitVec.getLsbD_zero]
  by_contra bit
  -- The upper filter lets the turned byte pass, the registers do not.
  apply outside
  intro id upper
  have ids := writes.ids id (turn (s.firstData.extractLsb' 0 8) (1 + j))
  have passes := (turned_passes_iff s (show 1 + j < 8 by omega)).mpr (by simpa using bit)
  rcases ids.mpr (.inl ⟨upper, passes⟩) with first | lower
  · exact absurd first.2 (turned_refused s (by omega))
  · exact lower

theorem WritesStandard.fine : StandardFine s where
  rtr := writes.rtr_small
  rtrFirst := writes.rtrFirst
  rtrSecond := writes.rtrSecond
  lowerMask := writes.lowerMask
  upperIds := writes.upperIds
  nibble := writes.nibble

end

/-- A low nibble without mask is what the registers always have. -/
theorem data_mask_eq {s : FilterInit} (low : s.dataMask.extractLsb' 0 1 = 0#1)
    (nibble : s.dataMask.extractLsb' 1 3 = 0#3) :
    s.dataMask.extractLsb' 4 4 ++ 0#4 = s.dataMask.extractLsb' 0 8 := by
  have four : s.dataMask.extractLsb' 0 4 =
      s.dataMask.extractLsb' 1 3 ++ s.dataMask.extractLsb' 0 1 :=
    (BitVec.extractLsb'_append_extractLsb'_eq_extractLsb' (show 1 = 0 + 1 from rfl)).symm
  have whole : s.dataMask.extractLsb' 0 8 =
      s.dataMask.extractLsb' 4 4 ++ s.dataMask.extractLsb' 0 4 :=
    (BitVec.extractLsb'_append_extractLsb'_eq_extractLsb' (show 4 = 0 + 4 from rfl)).symm
  rw [whole, four, low, nibble]
  rfl

theorem StandardFine.writes {s : FilterInit} (fine : StandardFine s) : WritesStandard s := by
  intro id rtr unused data0 data1
  rw [WrittenFirst, WrittenSecond, rtr_high fine.rtr 3, BitVec.setWidth_zero, BitVec.or_zero,
    BitVec.or_zero, fine.rtrFirst.1, fine.rtrFirst.2, fine.rtrSecond,
    (lower_mask_iff s).mpr fine.lowerMask, matches_zero_iff, rtr_eq_iff rtr fine.rtr]
  by_cases lower : LowerId s id
  · exact ⟨fun passes => .inr ⟨lower, passes.elim (·.2.1) (·.2)⟩,
      fun passes => .inr ⟨lower, rtr_of_dualFilter passes⟩⟩
  have upper := fine.upperIds id lower
  rcases fine.nibble with nibble | inside
  · rw [data_mask_eq fine.rtrSecond nibble, upper]
    rfl
  · have refused : ¬UpperId s id := fun passes => lower (inside id passes)
    constructor
    · rintro (first | second)
      · exact absurd (upper.mp first.1) refused
      · exact absurd second.1 lower
    · rintro (first | second)
      · exact absurd first.1 refused
      · exact absurd second.1 lower

/-- What a setup with two filters has to reach: AFM is clear and the frames of
the format that pass are those of the two filters. -/
def DualSetup (chip : Chip) (stack : FilterBytes) (s : FilterInit) (can : Controller) : Prop :=
  (canFilterInit chip stack s can).reg.afm = false ∧
    ∀ frame, frame.ide = s.ide →
      (Accepts (canFilterInit chip stack s can) frame ↔ DualFilter s frame)

theorem accepts_dual {chip : Chip} {stack : FilterBytes} {s : FilterInit} {can : Controller}
    (clear : (canFilterInit chip stack s can).reg.afm = false) (frame : BusFrame) :
    Accepts (canFilterInit chip stack s can) frame ↔
      passesFirst (filterBytes stack s) frame ∨ passesSecond (filterBytes stack s) frame := by
  rw [Accepts, clear, if_neg Bool.false_ne_true, acceptance_canFilterInit]

/-- A setup with two filters is right exactly if AFM was clear before and, for
standard frames, the misplaced bits do no harm. -/
theorem dual_setup_iff (chip : Chip) (stack : FilterBytes) (s : FilterInit) (can : Controller)
    (dual : s.mode = 0) :
    DualSetup chip stack s can ↔ can.reg.afm = false ∧ (s.ide = 0 → StandardFine s) := by
  have afm : (canFilterInit chip stack s can).reg.afm = can.reg.afm := by
    rw [canFilterInit_afm, dual]
    rfl
  constructor
  · rintro ⟨clear, frames⟩
    refine ⟨afm ▸ clear, fun format => WritesStandard.fine ?_⟩
    intro id rtr unused data0 data1
    rw [← passes_standard_iff stack dual format id rtr unused data0 data1, ← accepts_dual clear]
    exact frames _ format.symm
  · rintro ⟨before, fine⟩
    have clear := afm.trans before
    refine ⟨clear, fun frame format => ?_⟩
    rw [accepts_dual clear]
    cases frame with
    | standard id rtr unused data0 data1 =>
        rw [passes_standard_iff stack dual format.symm]
        exact (fine format.symm).writes id rtr unused data0 data1
    | extended id rtr unused => exact passes_extended_iff stack dual format.symm id rtr unused

/-- Two filters without mask bits, but for the high nibble of the data byte. -/
theorem exact_dual_setup :
    DualSetup obedient ⟨0, 0, 0, 0, 0, 0, 0, 0⟩ ⟨0, 0, 0, 0x55, 0xF0, 0x01230456, 0⟩
      idleController := by
  apply (dual_setup_iff _ _ _ _ (by decide)).mpr
  refine ⟨by decide, fun _ => ?_⟩
  exact {
    rtr := by decide
    rtrFirst := by decide
    rtrSecond := by decide
    lowerMask := by decide
    upperIds := fun _ _ => Iff.rfl
    nibble := .inl (by decide) }

/-- The single filter of an earlier setup stays selected. -/
theorem single_filter_stays :
    ¬DualSetup obedient ⟨0, 0, 0, 0, 0, 0, 0, 0⟩ ⟨0, 0, 0, 0x55, 0xF0, 0x01230456, 0⟩
      (canFilterInit obedient ⟨0, 0, 0, 0, 0, 0, 0, 0⟩ ⟨0, 0, 1, 0, 0, 0x123, 0⟩
        idleController) := by
  intro setup
  have clear := setup.1
  rw [canFilterInit_afm, canFilterInit_afm] at clear
  exact absurd clear (by decide)

end KyokaMirror.Can
