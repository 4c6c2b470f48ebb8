import KyokaMirror.Esp32.Bounds

set_option autoImplicit false

namespace KyokaMirror.Esp32

open Library.Copy (copy copy_slide copy_inside copy_outside)
open Users

theorem fill_inside (b : Memory) (bytes : List UInt8) (a : Nat) (inside : a < bytes.length) :
    fill b bytes a = bytes[a] := by
  have other : a ≠ bytes.length := by omega
  simp only [fill, other, ↓reduceIte, List.getElem?_eq_getElem inside, Option.getD_some]

theorem fill_beyond (b : Memory) (bytes : List UInt8) (a : Nat) (beyond : bytes.length < a) :
    fill b bytes a = b a := by
  have other : a ≠ bytes.length := by omega
  simp only [fill, other, ↓reduceIte, List.getElem?_eq_none (Nat.le_of_lt beyond), Option.getD_none]

/-- Up to the NUL the buffer holds the delivery and nothing else. -/
theorem fill_text (b : Memory) (bytes : List UInt8) {k : Nat} (inside : k ≤ bytes.length) :
    fill b bytes k = (bytes ++ [0]).getD k 0 := by
  rw [List.getD_eq_getElem?_getD]
  rcases Nat.lt_or_eq_of_le inside with before | rfl
  · rw [fill_inside b bytes k before, List.getElem?_append_left before,
      List.getElem?_eq_getElem before, Option.getD_some]
  · rw [fill_nul, List.getElem?_concat_length, Option.getD_some]

/-- At an index of the delivery a keyword test answers for the delivered bytes
alone: the NUL behind them cuts it off before the stale ones. -/
theorem keyword_fill_iff (b : Memory) (bytes kw : List UInt8) (i : Nat)
    (start : i ≤ bytes.length) (printable : (0 : UInt8) ∉ kw) :
    keyword (fill b bytes) i kw = true ↔ kw <+: bytes.drop i := by
  induction kw generalizing i with
  | nil => simp only [keyword, List.nil_prefix]
  | cons c rest ih =>
      have tailPrintable : (0 : UInt8) ∉ rest := fun inRest =>
        printable (List.mem_cons_of_mem _ inRest)
      by_cases inside : i < bytes.length
      · rw [keyword, Bool.and_eq_true, beq_iff_eq, fill_inside b bytes i inside,
          ih (i + 1) inside tailPrintable, List.drop_eq_getElem_cons inside, List.cons_prefix_cons,
          eq_comm]
      · have ended : i = bytes.length := by omega
        have nonzero : (0 : UInt8) ≠ c := fun equal => printable (equal ▸ List.mem_cons_self)
        rw [keyword, ended, fill_nul, List.drop_length]
        simp [nonzero]

/-- The delivered bytes contain the keyword. -/
def Contains (bytes kw : List UInt8) : Prop := kw <:+: bytes

instance (bytes kw : List UInt8) : Decidable (Contains bytes kw) :=
  inferInstanceAs (Decidable (kw <:+: bytes))

theorem contains_drop {bytes kw : List UInt8} {i : Nat} (here : kw <+: bytes.drop i) :
    Contains bytes kw := here.isInfix.trans (List.drop_suffix i bytes).isInfix

theorem keyword_false_of_not_contains {b : Memory} {bytes kw : List UInt8} {i : Nat}
    (absent : ¬ Contains bytes kw) (start : i ≤ bytes.length) (printable : (0 : UInt8) ∉ kw) :
    keyword (fill b bytes) i kw = false := by
  rw [← Bool.not_eq_true]
  intro seen
  exact absent (contains_drop ((keyword_fill_iff b bytes kw i start printable).mp seen))

theorem getFree_of_not_contains (b : Memory) {bytes : List UInt8}
    (absent : ¬ Contains bytes kwGet) : GetFree (fill b bytes) bytes.length := fun _ inside =>
  keyword_false_of_not_contains absent (Nat.le_of_lt inside) nul_not_mem_kwGet

theorem capture_taken {rxLength i : Nat} {b : Buffers}
    (taken : (b.readstate || keyword b.uartRxBuffer i kwFrame) = true) :
    capture rxLength i b =
      ⟨b.uartRxBuffer, copy b.appBuffer b.uartRxBuffer b.length i rxLength,
        b.length + 1, true⟩ := by
  simp only [capture, taken, ↓reduceIte]

/-- Each captured index re-copies a whole window; the windows agree and merge
into one copy from the first captured index on. -/
theorem scanLoop_frame_buf (rxLength fuel : Nat) (s : Scan)
    (free : GetFree s.buf.uartRxBuffer rxLength) (enough : rxLength ≤ s.i + fuel)
    (taken : (s.buf.readstate || keyword s.buf.uartRxBuffer s.i kwFrame) = true)
    (inside : s.i < rxLength) :
    (scanLoop rxLength fuel s).buf =
      ⟨s.buf.uartRxBuffer,
        copy s.buf.appBuffer s.buf.uartRxBuffer s.buf.length s.i
          (rxLength - s.i + rxLength - 1),
        s.buf.length + (rxLength - s.i), true⟩ := by
  induction fuel generalizing s with
  | zero => omega
  | succ fuel ih =>
      have index : (scanBody rxLength s).i = s.i + 1 := by
        rw [scanBody_i, free.landing inside]
      have captured : (scanBody rxLength s).buf =
          ⟨s.buf.uartRxBuffer, copy s.buf.appBuffer s.buf.uartRxBuffer s.buf.length s.i rxLength,
            s.buf.length + 1, true⟩ := by
        rw [scanBody_buf, free.landing inside, capture_taken taken]
      have stays : ((scanBody rxLength s).buf.readstate ||
          keyword (scanBody rxLength s).buf.uartRxBuffer (scanBody rxLength s).i kwFrame) =
          true := by
        simp only [captured, Bool.true_or]
      rw [scanLoop, if_pos inside]
      by_cases more : s.i + 1 < rxLength
      · rw [ih (scanBody rxLength s) free.scanBody (by omega) stays (by omega), captured, index]
        have window : rxLength - s.i + rxLength - 1 =
            1 + (rxLength - (s.i + 1) + rxLength - 1) := by omega
        have total : s.buf.length + (rxLength - s.i) =
            s.buf.length + 1 + (rxLength - (s.i + 1)) := by omega
        rw [window, total, ← copy_slide _ _ _ _ rxLength 1 _ (by omega) (by omega)]
      · have ended : scanLoop rxLength fuel (scanBody rxLength s) = scanBody rxLength s := by
          cases fuel with
          | zero => rfl
          | succ fuel => rw [scanLoop, if_neg (by rw [index]; exact more)]
        have last : rxLength - s.i = 1 := by omega
        rw [ended, captured, last, Nat.add_sub_cancel_left]

theorem scanLoop_opening_buf (rxLength start fuel : Nat) (s : Scan)
    (free : GetFree s.buf.uartRxBuffer rxLength) (closed : s.buf.readstate = false)
    (quiet : ∀ i < start, keyword s.buf.uartRxBuffer i kwFrame = false)
    (opens : keyword s.buf.uartRxBuffer start kwFrame = true)
    (before : s.i ≤ start) (inside : start < rxLength) (enough : rxLength ≤ s.i + fuel) :
    (scanLoop rxLength fuel s).buf =
      ⟨s.buf.uartRxBuffer,
        copy s.buf.appBuffer s.buf.uartRxBuffer s.buf.length start
          (rxLength - start + rxLength - 1),
        s.buf.length + (rxLength - start), true⟩ := by
  induction fuel generalizing s with
  | zero => omega
  | succ fuel ih =>
      by_cases here : s.i = start
      · have framed := scanLoop_frame_buf rxLength (fuel + 1) s free enough
          (by rw [here, opens, Bool.or_true]) (by rw [here]; exact inside)
        rwa [here] at framed
      · have now : s.i < rxLength := by omega
        obtain ⟨index, same⟩ := free.scanBody_quiet now closed (quiet s.i (by omega))
        rw [scanLoop]
        simp only [now, ↓reduceIte]
        rw [ih (scanBody rxLength s) free.scanBody (by rw [same]; exact closed)
          (by rw [same]; exact quiet) (by rw [same]; exact opens) (by rw [index]; omega)
          (by rw [index]; omega), same]

theorem scanLoop_silent_buf (rxLength fuel : Nat) (s : Scan)
    (free : GetFree s.buf.uartRxBuffer rxLength) (closed : s.buf.readstate = false)
    (quiet : ∀ i < rxLength, keyword s.buf.uartRxBuffer i kwFrame = false) :
    (scanLoop rxLength fuel s).buf = s.buf := by
  induction fuel generalizing s with
  | zero => rfl
  | succ fuel ih =>
      rw [scanLoop]
      split
      · rename_i inside
        obtain ⟨index, same⟩ := free.scanBody_quiet inside closed (quiet s.i inside)
        rw [ih (scanBody rxLength s) free.scanBody (by rw [same]; exact closed)
          (by rw [same]; exact quiet), same]
      · rfl

section delivery

variable (r : Receiver) (bytes : List UInt8) (free : ¬ Contains bytes kwGet)

include free

theorem deliver_continuing_buf (opened : r.buf.readstate = true) :
    (deliver r bytes).buf =
      ⟨fill r.buf.uartRxBuffer bytes,
        copy r.buf.appBuffer (fill r.buf.uartRxBuffer bytes) r.buf.length 0
          (bytes.length + bytes.length - 1),
        r.buf.length + bytes.length, true⟩ := by
  by_cases positive : 0 < bytes.length
  · exact scanLoop_frame_buf _ _ (startScan r bytes) (getFree_of_not_contains _ free)
      (Nat.le_add_left _ _) (by simp only [startScan, opened, Bool.true_or]) positive
  · have empty : bytes = [] := List.eq_nil_of_length_eq_zero (by omega)
    subst bytes
    simp only [deliver, scanDelivery, List.length_nil, scanLoop, startScan,
      copy, Nat.add_zero, opened, Nat.zero_sub]

theorem deliver_opening_buf (start : Nat) (closed : r.buf.readstate = false)
    (quiet : ∀ i < start, ¬ kwFrame <+: bytes.drop i) (opens : kwFrame <+: bytes.drop start)
    (inside : start < bytes.length) :
    (deliver r bytes).buf =
      ⟨fill r.buf.uartRxBuffer bytes,
        copy r.buf.appBuffer (fill r.buf.uartRxBuffer bytes) r.buf.length start
          (bytes.length - start + bytes.length - 1),
        r.buf.length + (bytes.length - start), true⟩ :=
  scanLoop_opening_buf _ start _ (startScan r bytes) (getFree_of_not_contains _ free) closed
    (fun i before => by
      rw [← Bool.not_eq_true]
      exact fun seen => quiet i before
        ((keyword_fill_iff _ _ _ _ (by omega) nul_not_mem_kwFrame).mp seen))
    ((keyword_fill_iff _ _ _ _ (Nat.le_of_lt inside) nul_not_mem_kwFrame).mpr opens)
    (Nat.zero_le _) inside (Nat.le_add_left _ _)

theorem deliver_silent_buf (closed : r.buf.readstate = false)
    (quiet : ¬ Contains bytes kwFrame) :
    (deliver r bytes).buf =
      { r.buf with uartRxBuffer := fill r.buf.uartRxBuffer bytes } :=
  scanLoop_silent_buf _ _ (startScan r bytes) (getFree_of_not_contains _ free) closed
    (fun _ inside => keyword_false_of_not_contains quiet (Nat.le_of_lt inside) nul_not_mem_kwFrame)

end delivery

end KyokaMirror.Esp32
