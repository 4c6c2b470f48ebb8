import KyokaMirror.Library.Selection
import KyokaMirror.Library.Word

set_option autoImplicit false

namespace KyokaMirror.Touch

open Library

def xWidth : Nat := 480
def yWidth : Nat := 272

def sampCnt : Nat := 8
def sampCntDiv2 : Nat := 4
def sh : Int := 10

/-- `struct rtgui_touch_device`. Of `calibration_func` only whether it is set
matters here. -/
structure RtguiTouchDevice where
  x : BitVec 16
  y : BitVec 16
  calibrating : Bool
  calibrationFunc : Bool
  minX : BitVec 16
  maxX : BitVec 16
  minY : BitVec 16
  maxY : BitVec 16
  deriving DecidableEq, Repr

/-- What the transfers leave in `recv_buffer`, one after the other. -/
abbrev Received := Nat → BitVec 8 × BitVec 8

def sample (recvBuffer : BitVec 8 × BitVec 8) : Nat :=
  ((recvBuffer.1.setWidth 16 <<< 8 ||| recvBuffer.2.setWidth 16) >>> 4).toNat

/-- `tmpxy[0]` and `tmpxy[1]`; each round asks for x and then for y. -/
def sampleX (received : Received) (i : Nat) : Nat := sample (received (2 * i))
def sampleY (received : Received) (i : Nat) : Nat := sample (received (2 * i + 1))

def unsteady (tmpxy : Nat → Nat) : Bool :=
  (tmpxy (sampCntDiv2 + 1) : Int) - tmpxy (sampCntDiv2 - 2) > sh

def average (tmpxy : Nat → Nat) : BitVec 16 :=
  let total := BitVec.ofNat 32 (tmpxy (sampCntDiv2 - 2) + tmpxy (sampCntDiv2 - 1) +
    tmpxy sampCntDiv2 + tmpxy (sampCntDiv2 + 1))
  (total >>> 2).setWidth 16

/-- The scaling of one coordinate. A division by zero traps. -/
def scaleAxis (width : Nat) (value min max : BitVec 16) : Option (BitVec 16) :=
  if max > min then
    some (BitVec.ofInt 16
      (Int.tdiv (((value.toNat : Int) - min.toNat) * width) ((max.toNat : Int) - min.toNat)))
  else if max = min then none
  else
    some (BitVec.ofInt 16
      (Int.tdiv (((min.toNat : Int) - value.toNat) * width) ((min.toNat : Int) - max.toNat)))

def scale (touch : RtguiTouchDevice) : Option RtguiTouchDevice :=
  if touch.calibrating then some touch
  else do
    let x ← scaleAxis xWidth touch.x touch.minX touch.maxX
    let y ← scaleAxis yWidth touch.y touch.minY touch.maxY
    return { touch with x := x, y := y }

/-- The second axis is sorted only if the first one is steady. -/
def rtguiTouchCalculate (received : Received) (touch : RtguiTouchDevice) :
    Option RtguiTouchDevice :=
  let tmpX := Selection.sort sampCnt (sampleX received)
  if unsteady tmpX then some touch
  else
    let tmpY := Selection.sort sampCnt (sampleY received)
    if unsteady tmpY then some touch
    else scale { touch with x := average tmpX, y := average tmpY }

/-- `RT_TOUCH_CALIBRATION`, `RT_TOUCH_NORMAL` and `RT_TOUCH_CALIBRATION_DATA`. -/
inductive TouchCommand where
  | calibration (func : Bool)
  | normal
  | calibrationData (minX maxX minY maxY : BitVec 16)
  deriving DecidableEq, Repr

def rtguiTouchControl (cmd : TouchCommand) (touch : RtguiTouchDevice) : RtguiTouchDevice :=
  match cmd with
  | .calibration func => { touch with calibrating := true, calibrationFunc := func }
  | .normal => { touch with calibrating := false }
  | .calibrationData minX maxX minY maxY =>
    { touch with minX := minX, maxX := maxX, minY := minY, maxY := maxY }

def samplesX (received : Received) : List Nat := (List.range sampCnt).map (sampleX received)
def samplesY (received : Received) : List Nat := (List.range sampCnt).map (sampleY received)

/-- The smallest sample has rank 0. -/
def smallest (samples : List Nat) (rank : Nat) : Nat :=
  (samples.insertionSort (· ≤ ·)).getD rank 0

def Steady (samples : List Nat) : Prop := smallest samples 5 ≤ smallest samples 2 + 10

instance (samples : List Nat) : Decidable (Steady samples) := Nat.decLe _ _

/-- The mean of the 3rd to the 6th smallest sample. -/
def reading (samples : List Nat) : Nat :=
  (smallest samples 2 + smallest samples 3 + smallest samples 4 + smallest samples 5) / 4

/-- The order in which the samples were taken does not matter. -/
theorem smallest_perm {first second : List Nat} (same : first.Perm second) (rank : Nat) :
    smallest first rank = smallest second rank := by
  have sorted : first.insertionSort (· ≤ ·) = second.insertionSort (· ≤ ·) :=
    List.Perm.eq_of_pairwise' (List.pairwise_insertionSort _ _) (List.pairwise_insertionSort _ _)
      ((List.perm_insertionSort _ _).trans (same.trans (List.perm_insertionSort _ _).symm))
  rw [smallest, smallest, sorted]

theorem steady_perm {first second : List Nat} (same : first.Perm second) :
    Steady first ↔ Steady second := by
  rw [Steady, Steady, smallest_perm same, smallest_perm same]

theorem reading_perm {first second : List Nat} (same : first.Perm second) :
    reading first = reading second := by
  rw [reading, reading, smallest_perm same, smallest_perm same, smallest_perm same,
    smallest_perm same]

/-- A rank that the list does not reach counts as 0. -/
theorem smallest_lt {samples : List Nat} {bound : Nat} (positive : 0 < bound)
    (small : ∀ value ∈ samples, value < bound) (rank : Nat) : smallest samples rank < bound := by
  rw [smallest, List.getD_eq_getElem?_getD]
  cases ranked : (samples.insertionSort (· ≤ ·))[rank]? with
  | none => exact positive
  | some value =>
      have member := List.mem_of_getElem? ranked
      exact small value ((List.mem_insertionSort _).mp member)

theorem sort_eq_smallest (t : Nat → Nat) {rank : Nat} (inside : rank < sampCnt) :
    Selection.sort sampCnt t rank = smallest ((List.range sampCnt).map t) rank := by
  rw [smallest, ← Selection.map_sort (by decide) t, List.getD_eq_getElem?_getD,
    List.getElem?_map, List.getElem?_range inside]
  rfl

theorem sample_eq (recvBuffer : BitVec 8 × BitVec 8) :
    sample recvBuffer = (recvBuffer.1.toNat * 256 + recvBuffer.2.toNat) / 16 := by
  have high := recvBuffer.1.isLt
  have low := recvBuffer.2.isLt
  have placed : (recvBuffer.1.setWidth 16 <<< 8).toNat = recvBuffer.1.toNat * 2 ^ 8 :=
    Word.toNat_placed (v := 16) recvBuffer.1 (k := 8) (by omega)
  have kept : (recvBuffer.2.setWidth 16).toNat = recvBuffer.2.toNat :=
    BitVec.toNat_setWidth_of_le (by decide)
  rw [sample, BitVec.toNat_ushiftRight, BitVec.toNat_or, placed, kept,
    Word.or_eq_add (Nat.dvd_mul_left _ _) low, Nat.shiftRight_eq_div_pow]
  rfl

theorem sample_lt (recvBuffer : BitVec 8 × BitVec 8) : sample recvBuffer < 4096 := by
  have high := recvBuffer.1.isLt
  have low := recvBuffer.2.isLt
  rw [sample_eq]
  omega

/-- Every two arrays of twelve-bit samples can be received. -/
theorem exists_received (xs ys : Nat → Nat) (smallX : ∀ i, xs i < 4096)
    (smallY : ∀ i, ys i < 4096) :
    ∃ received, sampleX received = xs ∧ sampleY received = ys := by
  let bytes (value : Nat) : BitVec 8 × BitVec 8 :=
    (BitVec.ofNat 8 (value / 16), BitVec.ofNat 8 (value % 16 * 16))
  have back : ∀ value < 4096, sample (bytes value) = value := by
    intro value small
    rw [sample_eq, BitVec.toNat_ofNat, BitVec.toNat_ofNat]
    omega
  refine ⟨fun k => bytes (if k % 2 = 0 then xs (k / 2) else ys (k / 2)), ?_, ?_⟩
  · funext i
    have even : 2 * i % 2 = 0 := by omega
    have half : 2 * i / 2 = i := by omega
    rw [sampleX, if_pos even, half, back _ (smallX i)]
  · funext i
    have odd : ¬(2 * i + 1) % 2 = 0 := by omega
    have half : (2 * i + 1) / 2 = i := by omega
    rw [sampleY, if_neg odd, half, back _ (smallY i)]

theorem reading_lt {samples : List Nat} (small : ∀ value ∈ samples, value < 4096) :
    reading samples < 4096 := by
  have ranked := smallest_lt (by decide) small
  have second := ranked 2
  have third := ranked 3
  have fourth := ranked 4
  have fifth := ranked 5
  rw [reading]
  omega

theorem samples_lt (buffers : Nat → BitVec 8 × BitVec 8) :
    ∀ value ∈ (List.range sampCnt).map (fun i => sample (buffers i)), value < 4096 := by
  intro value member
  obtain ⟨i, -, rfl⟩ := List.mem_map.mp member
  exact sample_lt _

theorem samplesX_lt (received : Received) : ∀ value ∈ samplesX received, value < 4096 :=
  samples_lt fun i => received (2 * i)

theorem samplesY_lt (received : Received) : ∀ value ∈ samplesY received, value < 4096 :=
  samples_lt fun i => received (2 * i + 1)

theorem unsteady_sort_iff (t : Nat → Nat) :
    unsteady (Selection.sort sampCnt t) = true ↔ ¬Steady ((List.range sampCnt).map t) := by
  rw [unsteady, decide_eq_true_iff, Steady, sort_eq_smallest t (by decide),
    sort_eq_smallest t (by decide)]
  simp only [sampCntDiv2, sh, Nat.reduceAdd, Nat.reduceSub]
  omega

theorem average_sort {t : Nat → Nat} (small : ∀ value ∈ (List.range sampCnt).map t, value < 4096) :
    average (Selection.sort sampCnt t) =
      BitVec.ofNat 16 (reading ((List.range sampCnt).map t)) := by
  have ranked := smallest_lt (by decide) small
  have second := ranked 2
  have third := ranked 3
  have fourth := ranked 4
  have fifth := ranked 5
  apply BitVec.eq_of_toNat_eq
  rw [average, sort_eq_smallest t (by decide), sort_eq_smallest t (by decide),
    sort_eq_smallest t (by decide), sort_eq_smallest t (by decide)]
  simp only [sampCntDiv2, Nat.reduceAdd, Nat.reduceSub, BitVec.toNat_setWidth,
    BitVec.toNat_ushiftRight, BitVec.toNat_ofNat, Nat.shiftRight_eq_div_pow, reading]
  omega

/-- The device after a calculation, by the ranks of the samples. -/
theorem rtguiTouchCalculate_eq (received : Received) (touch : RtguiTouchDevice) :
    rtguiTouchCalculate received touch =
      if Steady (samplesX received) ∧ Steady (samplesY received) then
        scale { touch with
          x := BitVec.ofNat 16 (reading (samplesX received))
          y := BitVec.ofNat 16 (reading (samplesY received)) }
      else some touch := by
  have averageX := average_sort (samplesX_lt received)
  have averageY := average_sort (samplesY_lt received)
  have steadyX := unsteady_sort_iff (sampleX received)
  have steadyY := unsteady_sort_iff (sampleY received)
  simp only [rtguiTouchCalculate, averageX, averageY]
  by_cases first : Steady (samplesX received)
  · rw [if_neg (fun unsteadyX => steadyX.mp unsteadyX first)]
    by_cases second : Steady (samplesY received)
    · rw [if_neg (fun unsteadyY => steadyY.mp unsteadyY second), if_pos ⟨first, second⟩]
      rfl
    · rw [if_pos (steadyY.mpr second), if_neg (fun both => second both.2)]
  · rw [if_pos (steadyX.mpr first), if_neg (fun both => first both.1)]

theorem rtguiTouchCalculate_perm {received other : Received}
    (sameX : (samplesX other).Perm (samplesX received))
    (sameY : (samplesY other).Perm (samplesY received)) (touch : RtguiTouchDevice) :
    rtguiTouchCalculate other touch = rtguiTouchCalculate received touch := by
  rw [rtguiTouchCalculate_eq, rtguiTouchCalculate_eq, reading_perm sameX, reading_perm sameY]
  simp only [steady_perm sameX, steady_perm sameY]

/-- While it calibrates, the device holds the readings if both axes are steady,
and keeps what it held otherwise. -/
theorem sample_filter (received : Received) (touch : RtguiTouchDevice)
    (calibrating : touch.calibrating = true) :
    ∃ after, rtguiTouchCalculate received touch = some after ∧
      (Steady (samplesX received) ∧ Steady (samplesY received) →
        after.x.toNat = reading (samplesX received) ∧
          after.y.toNat = reading (samplesY received)) ∧
      (¬(Steady (samplesX received) ∧ Steady (samplesY received)) →
        after.x = touch.x ∧ after.y = touch.y) ∧
      ∀ other : Received, (samplesX other).Perm (samplesX received) →
        (samplesY other).Perm (samplesY received) →
        rtguiTouchCalculate other touch = some after := by
  have smallX := reading_lt (samplesX_lt received)
  have smallY := reading_lt (samplesY_lt received)
  have result := rtguiTouchCalculate_eq received touch
  by_cases steady : Steady (samplesX received) ∧ Steady (samplesY received)
  · rw [if_pos steady, scale, if_pos calibrating] at result
    refine ⟨_, result, ?_, fun unsteady => absurd steady unsteady, ?_⟩
    · intro _
      constructor
      · exact Nat.mod_eq_of_lt (by omega)
      · exact Nat.mod_eq_of_lt (by omega)
    · intro other sameX sameY
      rw [rtguiTouchCalculate_perm sameX sameY, result]
  · rw [if_neg steady] at result
    refine ⟨touch, result, fun both => absurd both steady, fun _ => ⟨rfl, rfl⟩, ?_⟩
    intro other sameX sameY
    rw [rtguiTouchCalculate_perm sameX sameY, result]

/-- A device with the values of `rtgui_touch_hw_init`, in calibration. -/
def calibratingDevice : RtguiTouchDevice where
  x := 0
  y := 0
  calibrating := true
  calibrationFunc := true
  minX := 47
  maxX := 2047
  minY := 1939
  maxY := 102

/-- Samples from 263 down to 256 on both axes. -/
def falling : Received := fun k => (0x10, BitVec.ofNat 8 (16 * (7 - k / 2)))

theorem falling_filtered :
    ∃ after, rtguiTouchCalculate falling calibratingDevice = some after ∧
      after.x.toNat = 259 ∧ after.y.toNat = 259 := by
  obtain ⟨after, result, steady, -, -⟩ := sample_filter falling calibratingDevice rfl
  have held := steady (by decide)
  refine ⟨after, result, ?_, ?_⟩
  · rw [held.1]
    decide
  · rw [held.2]
    decide

end KyokaMirror.Touch
