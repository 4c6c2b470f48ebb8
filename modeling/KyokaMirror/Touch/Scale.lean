import KyokaMirror.Library.Truncation
import KyokaMirror.Touch.Sample

set_option autoImplicit false

namespace KyokaMirror.Touch

open Library

/-- What is divided for a reading, and by what. -/
def dividend (width : Nat) (min max : BitVec 16) (value : Nat) : Int :=
  if min < max then ((value : Int) - min.toNat) * width else ((min.toNat : Int) - value) * width

def divisor (min max : BitVec 16) : Int :=
  if min < max then (max.toNat : Int) - min.toNat else (min.toNat : Int) - max.toNat

/-- The reading is less than one unit of the screen beyond the calibrated range. -/
def InBand (width : Nat) (min max : BitVec 16) (value : Nat) : Prop :=
  -divisor min max < dividend width min max value ∧
    dividend width min max value < (width + 1) * divisor min max

instance (width : Nat) (min max : BitVec 16) (value : Nat) :
    Decidable (InBand width min max value) := instDecidableAnd

/-- No twelve-bit reading is outside the band. -/
def Covers (width : Nat) (min max : BitVec 16) : Prop :=
  InBand width min max 0 ∧ InBand width min max 4095

instance (width : Nat) (min max : BitVec 16) : Decidable (Covers width min max) :=
  instDecidableAnd

theorem divisor_pos {min max : BitVec 16} (apart : min ≠ max) : 0 < divisor min max := by
  have different : min.toNat ≠ max.toNat := fun same => apart (BitVec.eq_of_toNat_eq same)
  rw [divisor]
  split
  next order =>
    have lower := BitVec.lt_def.mp order
    omega
  next order =>
    have upper : ¬min.toNat < max.toNat := fun lower => order (BitVec.lt_def.mpr lower)
    omega

/-- The value that is stored, before it is cut to 16 bits. -/
def quotient (width : Nat) (min max : BitVec 16) (value : Nat) : Int :=
  (dividend width min max value).tdiv (divisor min max)

theorem scaleAxis_eq {min max : BitVec 16} (apart : min ≠ max) (width : Nat) {value : Nat}
    (small : value < 4096) :
    ∃ coordinate, scaleAxis width (BitVec.ofNat 16 value) min max = some coordinate ∧
      (coordinate.toNat : Int) = quotient width min max value % 65536 := by
  have kept : (BitVec.ofNat 16 value).toNat = value := Nat.mod_eq_of_lt (by omega)
  have word : ∀ q : Int, ((BitVec.ofInt 16 q).toNat : Int) = q % 65536 := by
    intro q
    rw [BitVec.toNat_ofInt]
    exact Int.toNat_of_nonneg (Int.emod_nonneg _ (by decide))
  by_cases order : min < max
  · rw [scaleAxis, if_pos order, kept, quotient, dividend, divisor, if_pos order, if_pos order]
    exact ⟨_, rfl, word _⟩
  · rw [scaleAxis, if_neg order, if_neg apart.symm, kept, quotient, dividend, divisor,
      if_neg order, if_neg order]
    exact ⟨_, rfl, word _⟩

theorem quotient_mem_iff {min max : BitVec 16} (apart : min ≠ max) (width value : Nat) :
    InBand width min max value ↔
      0 ≤ quotient width min max value ∧ quotient width min max value ≤ width := by
  have positive := divisor_pos apart
  rw [quotient, Truncation.tdiv_nonneg_iff positive, Truncation.tdiv_le_iff positive (by omega)]
  exact Iff.rfl

theorem inBand_of_covers {width : Nat} {min max : BitVec 16} (covers : Covers width min max)
    {value : Nat} (small : value < 4096) : InBand width min max value := by
  obtain ⟨⟨firstLow, firstHigh⟩, lastLow, lastHigh⟩ := covers
  have wide : (0 : Int) ≤ width := Int.natCast_nonneg width
  simp only [InBand, dividend] at firstLow firstHigh lastLow lastHigh ⊢
  split at firstLow
  next order =>
    simp only [if_pos order] at firstHigh lastLow lastHigh ⊢
    have above : (0 - (min.toNat : Int)) * width ≤ (value - min.toNat) * width :=
      Int.mul_le_mul_of_nonneg_right (by omega) wide
    have below : ((value : Int) - min.toNat) * width ≤ (4095 - min.toNat) * width :=
      Int.mul_le_mul_of_nonneg_right (by omega) wide
    exact ⟨firstLow.trans_le above, below.trans_lt lastHigh⟩
  next order =>
    simp only [if_neg order] at firstHigh lastLow lastHigh ⊢
    have above : ((min.toNat : Int) - 4095) * width ≤ (min.toNat - value) * width :=
      Int.mul_le_mul_of_nonneg_right (by omega) wide
    have below : ((min.toNat : Int) - value) * width ≤ (min.toNat - 0) * width :=
      Int.mul_le_mul_of_nonneg_right (by omega) wide
    exact ⟨lastLow.trans_le above, below.trans_lt firstHigh⟩

/-- The steps between the quotients are too small to leave one window of the word. -/
theorem same_window {width : Nat} (narrow : 2 * (width : Int) < 65536) {d b : Int}
    (positive : 0 < d)
    (low : ∀ r : Nat, r ≤ 4095 → (((r : Int) + b) * width).tdiv d % 65536 ≤ width) :
    ((4095 + b) * width).tdiv d / 65536 = (b * width).tdiv d / 65536 := by
  have nonneg : (0 : Int) ≤ width := Int.natCast_nonneg width
  have steps : ∀ r : Nat, r < 4095 → (((r : Int) + b) * width).tdiv d ≤
      ((((r + 1 : Nat) : Int) + b) * width).tdiv d ∧
      ((((r + 1 : Nat) : Int) + b) * width).tdiv d ≤ (((r : Int) + b) * width).tdiv d + width := by
    intro r _
    have next : (((r + 1 : Nat) : Int) + b) * width = ((r : Int) + b) * width + width := by
      rw [show ((r + 1 : Nat) : Int) + b = (r : Int) + b + 1 by omega, Int.add_mul, Int.one_mul]
    rw [next]
    exact ⟨Int.tdiv_le_tdiv positive (by omega), Truncation.add_tdiv_le positive nonneg _⟩
  have window := Truncation.ediv_eq_of_steps (f := fun r => (((r : Int) + b) * width).tdiv d)
    narrow nonneg steps (fun r inside => low r inside.le) 4095 (le_refl _)
  rwa [show ((0 : Nat) : Int) + b = b by omega] at window

/-- If all 4096 quotients are on the screen as words, they are so as numbers: a
window that is not the first one would need a range too short to hold them all. -/
theorem ends_inside {width : Nat} (screen : width = xWidth ∨ width = yWidth) {d b : Int}
    (positive : 0 < d) (least : -65535 ≤ b) (most : b ≤ 65535)
    (low : ∀ r : Nat, r ≤ 4095 → (((r : Int) + b) * width).tdiv d % 65536 ≤ width) :
    -d < b * width ∧ (4095 + b) * width < (width + 1) * d := by
  have nonneg : (0 : Int) ≤ width := Int.natCast_nonneg width
  have narrow : 2 * (width : Int) < 65536 := by
    obtain rfl | rfl := screen
    · decide
    · decide
  have window := same_window narrow positive low
  have first := low 0 (by decide)
  have last := low 4095 (le_refl _)
  rw [show ((0 : Nat) : Int) + b = b by omega] at first
  rw [show ((4095 : Nat) : Int) = 4095 from rfl] at last
  rw [← Truncation.tdiv_nonneg_iff positive, ← Truncation.tdiv_le_iff positive nonneg]
  have nearFirst := Truncation.tdiv_mul_near positive (b * width)
  have nearLast := Truncation.tdiv_mul_near positive ((4095 + b) * width)
  generalize (b * (width : Int)).tdiv d = q at *
  generalize ((4095 + b) * (width : Int)).tdiv d = p at *
  have change : (p - q) * d ≤ width * d := by
    apply Int.mul_le_mul_of_nonneg_right _ positive.le
    omega
  rw [Int.sub_mul] at change
  have above : 0 ≤ q := by
    by_contra negative
    have far : q * d ≤ (width - 65536) * d :=
      Int.mul_le_mul_of_nonneg_right (by omega) positive.le
    obtain rfl | rfl := screen
    · simp only [xWidth] at *
      omega
    · simp only [yWidth] at *
      omega
  have below : q < 65536 := by
    by_contra large
    have far : 65536 * d ≤ q * d := Int.mul_le_mul_of_nonneg_right (by omega) positive.le
    obtain rfl | rfl := screen
    · simp only [xWidth] at *
      omega
    · simp only [yWidth] at *
      omega
  omega

theorem covers_of_low {width : Nat} (screen : width = xWidth ∨ width = yWidth)
    {min max : BitVec 16} (apart : min ≠ max)
    (low : ∀ value < 4096, quotient width min max value % 65536 ≤ width) :
    Covers width min max := by
  have positive := divisor_pos apart
  have nonneg : (0 : Int) ≤ width := Int.natCast_nonneg width
  have word := min.isLt
  have wide : 0 ≤ (width : Int) * divisor min max := Int.mul_nonneg nonneg positive.le
  rw [Covers, InBand, InBand, Int.add_mul, Int.one_mul]
  by_cases order : min < max
  · simp only [quotient, dividend, if_pos order] at low ⊢
    have ends := ends_inside screen positive (b := -min.toNat) (by omega) (by omega) (by
      intro r inside
      rw [← Int.sub_eq_add_neg]
      exact low r (by omega))
    rw [← Int.sub_eq_add_neg, Int.add_mul, Int.one_mul] at ends
    have length : ((0 : Nat) - (min.toNat : Int)) * width ≤
        ((4095 : Nat) - (min.toNat : Int)) * width :=
      Int.mul_le_mul_of_nonneg_right (by omega) nonneg
    have start : ((0 : Nat) - (min.toNat : Int)) * width = -min.toNat * width := by
      rw [Int.natCast_zero, Int.zero_sub]
    have stop : ((4095 : Nat) - (min.toNat : Int)) * width = (4095 - min.toNat) * width := rfl
    omega
  · simp only [quotient, dividend, if_neg order] at low ⊢
    -- The readings in falling order.
    have ends := ends_inside screen positive (b := min.toNat - 4095) (by omega) (by omega) (by
      intro r inside
      have value := low (4095 - r) (by omega)
      rwa [show (min.toNat : Int) - (4095 - r : Nat) = r + (min.toNat - 4095) by omega] at value)
    rw [Int.add_mul (width : Int), Int.one_mul] at ends
    have length : ((min.toNat : Int) - (4095 : Nat)) * width ≤
        ((min.toNat : Int) - (0 : Nat)) * width :=
      Int.mul_le_mul_of_nonneg_right (by omega) nonneg
    have start : ((min.toNat : Int) - (0 : Nat)) * width = (4095 + (min.toNat - 4095)) * width := by
      congr 1
      omega
    have stop : ((min.toNat : Int) - (4095 : Nat)) * width = (min.toNat - 4095) * width := rfl
    omega

/-- From `first` on to `second`, in the direction from `min` to `max`. -/
def Along (min max : BitVec 16) (first second : Nat) : Prop :=
  if min < max then first ≤ second else second ≤ first

instance (min max : BitVec 16) (first second : Nat) : Decidable (Along min max first second) :=
  inferInstanceAs (Decidable (if min < max then first ≤ second else second ≤ first))

theorem quotient_le (width : Nat) {min max : BitVec 16} (apart : min ≠ max) {first second : Nat}
    (along : Along min max first second) :
    quotient width min max first ≤ quotient width min max second := by
  apply Int.tdiv_le_tdiv (divisor_pos apart)
  have nonneg : (0 : Int) ≤ width := Int.natCast_nonneg width
  by_cases order : min < max
  · rw [Along, if_pos order] at along
    rw [dividend, dividend, if_pos order, if_pos order]
    exact Int.mul_le_mul_of_nonneg_right (by omega) nonneg
  · rw [Along, if_neg order] at along
    rw [dividend, dividend, if_neg order, if_neg order]
    exact Int.mul_le_mul_of_nonneg_right (by omega) nonneg

theorem smallest_replicate {value rank : Nat} (inside : rank < sampCnt) :
    smallest (List.replicate sampCnt value) rank = value := by
  have sorted : (List.replicate sampCnt value).Pairwise (· ≤ ·) :=
    List.pairwise_replicate.mpr (Or.inr (le_refl value))
  rw [smallest, sorted.insertionSort_eq, List.getD_eq_getElem?_getD, List.getElem?_replicate,
    if_pos inside, Option.getD_some]

/-- Every twelve-bit reading is that of some steady samples. -/
theorem exists_reading {value : Nat} (small : value < 4096) :
    ∃ received, Steady (samplesX received) ∧ Steady (samplesY received) ∧
      reading (samplesX received) = value ∧ reading (samplesY received) = value := by
  obtain ⟨received, sameX, sameY⟩ := exists_received (fun _ => value) (fun _ => value)
    (fun _ => small) (fun _ => small)
  have constant : (List.range sampCnt).map (fun _ => value) = List.replicate sampCnt value := rfl
  have rank : ∀ k < sampCnt, smallest (List.replicate sampCnt value) k = value := fun k inside =>
    smallest_replicate inside
  have steady : Steady (List.replicate sampCnt value) := by
    rw [Steady, rank 5 (by decide), rank 2 (by decide)]
    omega
  have mean : reading (List.replicate sampCnt value) = value := by
    rw [reading, rank 2 (by decide), rank 3 (by decide), rank 4 (by decide), rank 5 (by decide)]
    omega
  refine ⟨received, ?_, ?_, ?_, ?_⟩
  · rwa [samplesX, sameX, constant]
  · rwa [samplesY, sameY, constant]
  · rwa [samplesX, sameX, constant]
  · rwa [samplesY, sameY, constant]

/-- Steady samples leave the quotients of their readings, cut to 16 bits. -/
theorem rtguiTouchCalculate_scaled {touch : RtguiTouchDevice} (normal : touch.calibrating = false)
    (apartX : touch.minX ≠ touch.maxX) (apartY : touch.minY ≠ touch.maxY) {received : Received}
    (steady : Steady (samplesX received) ∧ Steady (samplesY received)) :
    ∃ after, rtguiTouchCalculate received touch = some after ∧
      (after.x.toNat : Int) =
        quotient xWidth touch.minX touch.maxX (reading (samplesX received)) % 65536 ∧
      (after.y.toNat : Int) =
        quotient yWidth touch.minY touch.maxY (reading (samplesY received)) % 65536 := by
  obtain ⟨x, scaledX, valueX⟩ :=
    scaleAxis_eq apartX xWidth (reading_lt (samplesX_lt received))
  obtain ⟨y, scaledY, valueY⟩ :=
    scaleAxis_eq apartY yWidth (reading_lt (samplesY_lt received))
  refine ⟨{ touch with x := x, y := y }, ?_, valueX, valueY⟩
  rw [rtguiTouchCalculate_eq, if_pos steady, scale]
  simp only [normal, Bool.false_eq_true, if_false, scaledX, scaledY]
  rfl

/-- What is to hold of a device in use: all steady samples give a point of the
screen, and the coordinates follow the readings from `min` to `max`. -/
structure StaysOnScreen (touch : RtguiTouchDevice) : Prop where
  onScreen : ∀ received, Steady (samplesX received) ∧ Steady (samplesY received) →
    ∃ after, rtguiTouchCalculate received touch = some after ∧
      after.x.toNat ≤ xWidth ∧ after.y.toNat ≤ yWidth
  forwardX : ∀ first second before after,
    Steady (samplesX first) ∧ Steady (samplesY first) →
    Steady (samplesX second) ∧ Steady (samplesY second) →
    Along touch.minX touch.maxX (reading (samplesX first)) (reading (samplesX second)) →
    rtguiTouchCalculate first touch = some before →
    rtguiTouchCalculate second touch = some after → before.x.toNat ≤ after.x.toNat
  forwardY : ∀ first second before after,
    Steady (samplesX first) ∧ Steady (samplesY first) →
    Steady (samplesX second) ∧ Steady (samplesY second) →
    Along touch.minY touch.maxY (reading (samplesY first)) (reading (samplesY second)) →
    rtguiTouchCalculate first touch = some before →
    rtguiTouchCalculate second touch = some after → before.y.toNat ≤ after.y.toNat

section

variable {touch : RtguiTouchDevice} (normal : touch.calibrating = false)
  (apartX : touch.minX ≠ touch.maxX) (apartY : touch.minY ≠ touch.maxY)
include normal apartX apartY

/-- Samples with readings in the band give a point of the screen, with the
quotients as they are. -/
theorem inBand_onScreen {received : Received}
    (steady : Steady (samplesX received) ∧ Steady (samplesY received))
    (bandX : InBand xWidth touch.minX touch.maxX (reading (samplesX received)))
    (bandY : InBand yWidth touch.minY touch.maxY (reading (samplesY received))) :
    ∃ after, rtguiTouchCalculate received touch = some after ∧
      after.x.toNat ≤ xWidth ∧ after.y.toNat ≤ yWidth ∧
      (after.x.toNat : Int) = quotient xWidth touch.minX touch.maxX (reading (samplesX received)) ∧
      (after.y.toNat : Int) =
        quotient yWidth touch.minY touch.maxY (reading (samplesY received)) := by
  obtain ⟨after, result, valueX, valueY⟩ :=
    rtguiTouchCalculate_scaled normal apartX apartY steady
  have insideX := (quotient_mem_iff apartX _ _).mp bandX
  have insideY := (quotient_mem_iff apartY _ _).mp bandY
  rw [xWidth] at insideX valueX
  rw [yWidth] at insideY valueY
  refine ⟨after, result, ?_, ?_, ?_, ?_⟩
  · rw [xWidth]
    omega
  · rw [yWidth]
    omega
  · rw [xWidth]
    omega
  · rw [yWidth]
    omega

/-- Every reading is on the screen on both axes, as a word. -/
theorem StaysOnScreen.low (right : StaysOnScreen touch) {value : Nat} (small : value < 4096) :
    quotient xWidth touch.minX touch.maxX value % 65536 ≤ xWidth ∧
      quotient yWidth touch.minY touch.maxY value % 65536 ≤ yWidth := by
  obtain ⟨received, steadyX, steadyY, readX, readY⟩ := exists_reading small
  obtain ⟨after, result, valueX, valueY⟩ :=
    rtguiTouchCalculate_scaled normal apartX apartY ⟨steadyX, steadyY⟩
  obtain ⟨same, again, insideX, insideY⟩ := right.onScreen received ⟨steadyX, steadyY⟩
  cases result.symm.trans again
  rw [readX] at valueX
  rw [readY] at valueY
  omega

theorem StaysOnScreen.covers (right : StaysOnScreen touch) :
    Covers xWidth touch.minX touch.maxX ∧ Covers yWidth touch.minY touch.maxY := by
  constructor
  · apply covers_of_low (Or.inl rfl) apartX
    intro value small
    exact (right.low normal apartX apartY small).1
  · apply covers_of_low (Or.inr rfl) apartY
    intro value small
    exact (right.low normal apartX apartY small).2

theorem staysOnScreen_of_covers (coversX : Covers xWidth touch.minX touch.maxX)
    (coversY : Covers yWidth touch.minY touch.maxY) : StaysOnScreen touch := by
  have scaled := fun received steady => inBand_onScreen normal apartX apartY steady
    (inBand_of_covers coversX (reading_lt (samplesX_lt received)))
    (inBand_of_covers coversY (reading_lt (samplesY_lt received)))
  have values : ∀ received after, Steady (samplesX received) ∧ Steady (samplesY received) →
      rtguiTouchCalculate received touch = some after →
      (after.x.toNat : Int) =
        quotient xWidth touch.minX touch.maxX (reading (samplesX received)) ∧
      (after.y.toNat : Int) =
        quotient yWidth touch.minY touch.maxY (reading (samplesY received)) := by
    intro received after steady result
    obtain ⟨same, again, -, -, exact⟩ := scaled received steady
    cases result.symm.trans again
    exact exact
  refine ⟨?_, ?_, ?_⟩
  · intro received steady
    obtain ⟨after, result, insideX, insideY, -⟩ := scaled received steady
    exact ⟨after, result, insideX, insideY⟩
  · intro first second before after steadyFirst steadySecond along one two
    have order := quotient_le xWidth apartX along
    rw [← (values first before steadyFirst one).1, ← (values second after steadySecond two).1]
      at order
    exact Int.ofNat_le.mp order
  · intro first second before after steadyFirst steadySecond along one two
    have order := quotient_le yWidth apartY along
    rw [← (values first before steadyFirst one).2, ← (values second after steadySecond two).2]
      at order
    exact Int.ofNat_le.mp order

end

/-- A device stays on the screen exactly if the readings 0 and 4095 are in the
band on both axes, and in any case for readings in the band. -/
theorem stays_on_screen_iff (touch : RtguiTouchDevice) (normal : touch.calibrating = false)
    (apartX : touch.minX ≠ touch.maxX) (apartY : touch.minY ≠ touch.maxY) :
    (StaysOnScreen touch ↔
      Covers xWidth touch.minX touch.maxX ∧ Covers yWidth touch.minY touch.maxY) ∧
    ∀ received, Steady (samplesX received) ∧ Steady (samplesY received) →
      InBand xWidth touch.minX touch.maxX (reading (samplesX received)) →
      InBand yWidth touch.minY touch.maxY (reading (samplesY received)) →
      ∃ after, rtguiTouchCalculate received touch = some after ∧
        after.x.toNat ≤ xWidth ∧ after.y.toNat ≤ yWidth := by
  refine ⟨⟨StaysOnScreen.covers normal apartX apartY, ?_⟩, ?_⟩
  · rintro ⟨coversX, coversY⟩
    exact staysOnScreen_of_covers normal apartX apartY coversX coversY
  · intro received steady bandX bandY
    obtain ⟨after, result, insideX, insideY, -⟩ :=
      inBand_onScreen normal apartX apartY steady bandX bandY
    exact ⟨after, result, insideX, insideY⟩

/-- A calibration over all readings, with y reversed. -/
def wideDevice : RtguiTouchDevice :=
  { calibratingDevice with calibrating := false, minX := 0, maxX := 4095, minY := 4095, maxY := 0 }

theorem wide_stays_on_screen : StaysOnScreen wideDevice :=
  (stays_on_screen_iff wideDevice rfl (by decide) (by decide)).1.mpr (by decide)

/-- The device as it is initialised. -/
def defaultDevice : RtguiTouchDevice := { calibratingDevice with calibrating := false }

/-- A reading of 0 on both axes. -/
theorem default_leaves_screen : ¬StaysOnScreen defaultDevice := by
  intro right
  obtain ⟨after, result, inside, -⟩ := right.onScreen (fun _ => (0, 0)) (by decide)
  have x : (rtguiTouchCalculate (fun _ => (0, 0)) defaultDevice).map (fun after => after.x) =
      some 65525 := by decide
  rw [result, Option.map_some] at x
  rw [Option.some.inj x] at inside
  exact absurd inside (by decide)

end KyokaMirror.Touch
