import KyokaMirror.Library.Ring

set_option autoImplicit false

namespace KyokaMirror.RtThread

open Library.Ring (advance)

/-- `RT_SERIAL_RB_BUFSZ`. -/
def bufsz : Nat := 4096

/-- `struct rt_serial_rx_fifo`. -/
structure RxFifo where
  buffer : Nat → UInt8
  putIndex : Nat
  getIndex : Nat
  isFull : Bool
  put_lt : putIndex < bufsz
  get_lt : getIndex < bufsz

namespace RxFifo

theorem advance_lt (index : Nat) : advance bufsz index < bufsz := by
  unfold advance
  split
  · decide
  · omega

/-- One turn of the loop in `rt_hw_serial_isr`: stores the byte, and gives up
the oldest one when the buffer is full. -/
def put (f : RxFifo) (ch : UInt8) : RxFifo :=
  if advance bufsz f.putIndex = f.getIndex then
    { buffer := fun k => if k = f.putIndex then ch else f.buffer k
      putIndex := advance bufsz f.putIndex
      getIndex := advance bufsz f.getIndex
      isFull := true
      put_lt := advance_lt _
      get_lt := advance_lt _ }
  else
    { f with
      buffer := fun k => if k = f.putIndex then ch else f.buffer k
      putIndex := advance bufsz f.putIndex
      put_lt := advance_lt _ }

/-- `rx_length` as the interrupt computes it. -/
def rxLength (f : RxFifo) : Nat :=
  if f.putIndex ≥ f.getIndex then f.putIndex - f.getIndex
  else bufsz - (f.getIndex - f.putIndex)

/-- One turn of the loop in `_serial_int_rx`; `none` where it finds no data. -/
def get (f : RxFifo) : Option (UInt8 × RxFifo) :=
  if f.getIndex = f.putIndex ∧ f.isFull = false then none
  else some (f.buffer f.getIndex,
    { f with getIndex := advance bufsz f.getIndex, isFull := false, get_lt := advance_lt _ })

/-- A byte that fits is counted. -/
theorem put_of_space (f : RxFifo) (ch : UInt8) (space : f.rxLength + 1 < bufsz) :
    (f.put ch).rxLength = f.rxLength + 1 ∧ (f.put ch).isFull = f.isFull := by
  have put := f.put_lt
  have get := f.get_lt
  have room : advance bufsz f.putIndex ≠ f.getIndex := by
    unfold rxLength at space
    unfold advance
    split_ifs at space ⊢ <;> omega
  rw [RxFifo.put, if_neg room]
  refine ⟨?_, rfl⟩
  unfold rxLength at space ⊢
  unfold advance at room ⊢
  dsimp only
  split_ifs at space room ⊢ <;> omega

theorem put_all_of_space (bytes : List UInt8) (f : RxFifo)
    (space : f.rxLength + bytes.length < bufsz) :
    (bytes.foldl put f).rxLength = f.rxLength + bytes.length ∧
      (bytes.foldl put f).isFull = f.isFull := by
  induction bytes generalizing f with
  | nil => exact ⟨rfl, rfl⟩
  | cons ch rest ih =>
      rw [List.length_cons] at space
      obtain ⟨length, full⟩ := f.put_of_space ch (by omega)
      obtain ⟨total, kept⟩ := ih (f.put ch) (by omega)
      rw [List.foldl_cons, List.length_cons]
      exact ⟨by omega, kept.trans full⟩

theorem get_eq_none {f : RxFifo} (live : f.isFull = false) (empty : f.rxLength = 0) :
    f.get = none := by
  have put := f.put_lt
  have get := f.get_lt
  unfold rxLength at empty
  have same : f.getIndex = f.putIndex := by split_ifs at empty <;> omega
  rw [RxFifo.get, if_pos ⟨same, live⟩]

theorem get_eq_some {f : RxFifo} (filled : 0 < f.rxLength) :
    ∃ ch left, f.get = some (ch, left) ∧ left.rxLength = f.rxLength - 1 ∧ left.isFull = false := by
  have put := f.put_lt
  have get := f.get_lt
  have other : f.getIndex ≠ f.putIndex := by
    intro same
    rw [rxLength, if_pos (by omega)] at filled
    omega
  refine ⟨_, _, by rw [RxFifo.get, if_neg (fun both => other both.1)], ?_, rfl⟩
  unfold rxLength at filled ⊢
  unfold advance
  dsimp only
  split_ifs at filled ⊢ <;> omega

end RxFifo

end KyokaMirror.RtThread
