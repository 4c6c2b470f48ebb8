import KyokaMirror.Library.Word
import Mathlib.Order.Bounds.Basic

set_option autoImplicit false

namespace KyokaMirror.Ls1c

open Library.Word

/-- The word that is searched and the position so far. -/
structure BitSearch where
  x : BitVec 32
  r : Nat
  deriving DecidableEq, Repr

/-- One of the five steps of `ls1c_fls`. -/
def flsStep (mask : BitVec 32) (k : Nat) (s : BitSearch) : BitSearch :=
  if s.x &&& mask = 0 then ⟨s.x <<< k, s.r - k⟩ else s

def ls1cFls (x : BitVec 32) : Nat :=
  if x = 0 then 0
  else
    let s := flsStep 0xffff0000 16 ⟨x, 32⟩
    let s := flsStep 0xff000000 8 s
    let s := flsStep 0xf0000000 4 s
    let s := flsStep 0xc0000000 2 s
    let s := flsStep 0x80000000 1 s
    s.r

/-- The word is `x` shifted up, and one of its `w` highest bits is set. -/
structure Narrowed (x : BitVec 32) (w : Nat) (s : BitSearch) : Prop where
  position : s.r ≤ 32
  shifted : s.x.toNat = x.toNat * 2 ^ (32 - s.r)
  high : 2 ^ (32 - w) ≤ s.x.toNat

theorem narrowed_start {x : BitVec 32} (nonzero : x ≠ 0) : Narrowed x 32 ⟨x, 32⟩ := by
  have positive : x.toNat ≠ 0 := fun zero => nonzero (BitVec.eq_of_toNat_eq zero)
  refine ⟨Nat.le_refl 32, ?_, ?_⟩
  · exact (Nat.mul_one _).symm
  · exact Nat.one_le_iff_ne_zero.mpr positive

/-- The position is above as many bits as are clear, since the word is not 0. -/
theorem Narrowed.position_gt {x : BitVec 32} {w k : Nat} {s : BitSearch}
    (narrowed : Narrowed x w s) (small : s.x.toNat < 2 ^ (32 - k)) (inside : k ≤ 32) :
    k < s.r := by
  have positive : 1 ≤ x.toNat := by
    by_contra zero
    have word := narrowed.shifted
    rw [Nat.lt_one_iff.mp (Nat.not_le.mp zero), Nat.zero_mul] at word
    have high := narrowed.high
    rw [word] at high
    exact absurd high (Nat.not_le.mpr (Nat.two_pow_pos _))
  have below : 2 ^ (32 - s.r) < 2 ^ (32 - k) := by
    calc 2 ^ (32 - s.r) ≤ x.toNat * 2 ^ (32 - s.r) := Nat.le_mul_of_pos_left _ positive
      _ = s.x.toNat := narrowed.shifted.symm
      _ < 2 ^ (32 - k) := small
  have exponents := (Nat.pow_lt_pow_iff_right (by decide)).mp below
  omega

/-- A step halves the number of bits among which the highest one is. -/
theorem Narrowed.step {x : BitVec 32} {k : Nat} {s : BitSearch} (before : Narrowed x (k + k) s)
    (half : k + k ≤ 32) {mask : BitVec 32}
    (ones : mask.toNat = 2 ^ (32 - k) * (2 ^ (32 - (32 - k)) - 1)) :
    Narrowed x k (flsStep mask k s) := by
  have clear := and_high_eq_zero_iff s.x (Nat.sub_le 32 k) ones
  rw [flsStep]
  split
  next none =>
    have small := clear.mp none
    have above := before.position_gt small (by omega)
    have position := before.position
    have whole : 2 ^ (32 - k) * 2 ^ k = 2 ^ 32 := by
      rw [← Nat.pow_add, Nat.sub_add_cancel (by omega)]
    have up : (s.x <<< k).toNat = s.x.toNat * 2 ^ k := by
      rw [BitVec.toNat_shiftLeft, Nat.shiftLeft_eq]
      apply Nat.mod_eq_of_lt
      rw [← whole]
      exact Nat.mul_lt_mul_of_pos_right small (Nat.two_pow_pos k)
    refine ⟨?_, ?_, ?_⟩
    · exact (Nat.sub_le _ _).trans position
    · rw [up, before.shifted, Nat.mul_assoc, ← Nat.pow_add]
      congr 2
      dsimp only
      omega
    · rw [up]
      calc 2 ^ (32 - k) = 2 ^ (32 - (k + k)) * 2 ^ k := by
            rw [← Nat.pow_add]
            congr 1
            omega
        _ ≤ s.x.toNat * 2 ^ k := Nat.mul_le_mul_right _ before.high
  next some =>
    exact ⟨before.position, before.shifted, Nat.not_lt.mp (fun small => some (clear.mpr small))⟩

theorem Narrowed.bounds {x : BitVec 32} {s : BitSearch} (found : Narrowed x 1 s) :
    1 ≤ s.r ∧ 2 ^ (s.r - 1) ≤ x.toNat ∧ x.toNat < 2 ^ s.r := by
  have position := found.position
  have high := found.high
  have word := s.x.isLt
  rw [found.shifted] at high word
  have scale : 0 < 2 ^ (32 - s.r) := Nat.two_pow_pos _
  have top : 2 ^ s.r * 2 ^ (32 - s.r) = 2 ^ 32 := by
    rw [← Nat.pow_add, Nat.add_sub_cancel' position]
  have upper : x.toNat < 2 ^ s.r := by
    rw [← top] at word
    exact Nat.lt_of_mul_lt_mul_right word
  have least : 1 ≤ s.r := by
    by_contra zero
    rw [Nat.lt_one_iff.mp (Nat.not_le.mp zero)] at upper high
    rw [Nat.lt_one_iff.mp upper, Nat.zero_mul] at high
    exact absurd high (by decide)
  refine ⟨least, ?_, upper⟩
  have next : 2 ^ (s.r - 1) * 2 ^ (32 - s.r) = 2 ^ 31 := by
    rw [← Nat.pow_add]
    congr 1
    omega
  exact Nat.le_of_mul_le_mul_right (next.trans_le high) scale

/-- The highest bit of a word other than 0 is the one below the result. -/
theorem ls1cFls_bounds {x : BitVec 32} (nonzero : x ≠ 0) :
    1 ≤ ls1cFls x ∧ 2 ^ (ls1cFls x - 1) ≤ x.toNat ∧ x.toNat < 2 ^ ls1cFls x := by
  rw [ls1cFls, if_neg nonzero]
  apply Narrowed.bounds
  apply Narrowed.step _ (by decide) (by decide)
  apply Narrowed.step _ (by decide) (by decide)
  apply Narrowed.step _ (by decide) (by decide)
  apply Narrowed.step _ (by decide) (by decide)
  apply Narrowed.step _ (by decide) (by decide)
  exact narrowed_start nonzero

theorem ls1cFls_isGreatest {x : BitVec 32} (nonzero : x ≠ 0) :
    ∃ i, IsGreatest {j | x.getLsbD j = true} i ∧ ls1cFls x = i + 1 := by
  obtain ⟨least, lower, upper⟩ := ls1cFls_bounds nonzero
  have next : ls1cFls x - 1 + 1 = ls1cFls x := Nat.sub_add_cancel least
  refine ⟨ls1cFls x - 1, ⟨?_, ?_⟩, next.symm⟩
  · apply Nat.testBit_of_two_pow_le_and_two_pow_add_one_gt lower
    rwa [next]
  · intro j set
    by_contra above
    have high : x.toNat < 2 ^ j :=
      Nat.lt_of_lt_of_le upper (Nat.pow_le_pow_right Nat.two_pos (by omega))
    have clear : x.getLsbD j = false := Nat.testBit_lt_two_pow high
    exact Bool.false_ne_true (clear.symm.trans set)

/-- One of the five steps of `ls1c_ffs`. The word is an `int`, so that its sign
comes in from above. -/
def ffsStep (mask : BitVec 32) (k : Nat) (s : BitSearch) : BitSearch :=
  if s.x &&& mask = 0 then ⟨s.x.sshiftRight k, s.r + k⟩ else s

def ls1cFfs (x : BitVec 32) : Nat :=
  if x = 0 then 0
  else
    let s := ffsStep 0xffff 16 ⟨x, 1⟩
    let s := ffsStep 0xff 8 s
    let s := ffsStep 0xf 4 s
    let s := ffsStep 3 2 s
    let s := ffsStep 1 1 s
    s.r

/-- The low `w` bits of the word are those of `x` from the position on, one of
them is set, and `x` is clear below them. -/
structure Lowered (x : BitVec 32) (w : Nat) (s : BitSearch) : Prop where
  least : 1 ≤ s.r
  position : s.r - 1 + w ≤ 32
  below : ∀ j < s.r - 1, x.getLsbD j = false
  shifted : ∀ j < w, s.x.getLsbD j = x.getLsbD (s.r - 1 + j)
  low : ∃ j < w, s.x.getLsbD j = true

theorem lowered_start {x : BitVec 32} (nonzero : x ≠ 0) : Lowered x 32 ⟨x, 1⟩ where
  least := Nat.le_refl 1
  position := Nat.le_refl 32
  below := by
    intro j early
    exact absurd early (Nat.not_lt_zero j)
  shifted := by
    intro j _
    exact congrArg x.getLsbD (Nat.zero_add j).symm
  low := by
    by_contra none
    apply nonzero
    apply BitVec.eq_of_getLsbD_eq
    intro j inside
    have clear : x.getLsbD j = false :=
      Bool.eq_false_iff.mpr (fun set => none ⟨j, inside, set⟩)
    exact clear.trans BitVec.getLsbD_zero.symm

theorem Lowered.stay {x : BitVec 32} {k : Nat} {s : BitSearch} (before : Lowered x (k + k) s)
    (low : ∃ j < k, s.x.getLsbD j = true) : Lowered x k s where
  least := before.least
  position := by
    have position := before.position
    omega
  below := before.below
  shifted := by
    intro j inside
    exact before.shifted j (by omega)
  low := low

/-- What the arithmetic shift brings in lies above the bits that are left. -/
theorem Lowered.down {x : BitVec 32} {k : Nat} {s : BitSearch} (before : Lowered x (k + k) s)
    (zeros : ∀ j < k, s.x.getLsbD j = false) :
    Lowered x k ⟨s.x.sshiftRight k, s.r + k⟩ := by
  have least := before.least
  have position := before.position
  have down : ∀ j < k, (s.x.sshiftRight k).getLsbD j = s.x.getLsbD (k + j) := by
    intro j inside
    exact getLsbD_sshiftRight_inside s.x (by omega)
  refine ⟨?_, ?_, ?_, ?_, ?_⟩
  · exact Nat.le_add_right_of_le least
  · dsimp only
    omega
  · intro j early
    rcases Nat.lt_or_ge j (s.r - 1) with already | later
    · exact before.below j already
    · obtain ⟨m, rfl⟩ := Nat.exists_eq_add_of_le later
      have inside : m < k := by dsimp only at early; omega
      rw [← before.shifted m (by omega)]
      exact zeros m inside
  · intro j inside
    rw [down j inside, before.shifted (k + j) (by omega)]
    congr 1
    dsimp only
    omega
  · obtain ⟨j, inside, set⟩ := before.low
    have above : k ≤ j := by
      by_contra early
      exact Bool.false_ne_true ((zeros j (Nat.not_le.mp early)).symm.trans set)
    have within : j - k < k := by omega
    refine ⟨j - k, within, ?_⟩
    rw [down (j - k) within, Nat.add_sub_cancel' above, set]

/-- A step halves the number of bits among which the lowest one is. -/
theorem Lowered.step {x : BitVec 32} {k : Nat} {s : BitSearch} (before : Lowered x (k + k) s)
    {mask : BitVec 32} (ones : mask.toNat = 2 ^ k - 1) : Lowered x k (ffsStep mask k s) := by
  have clear := and_low_eq_zero_iff s.x ones
  rw [ffsStep]
  split
  next none => exact before.down (clear.mp none)
  next some =>
    apply before.stay
    by_contra none
    apply some
    rw [clear]
    intro j inside
    exact Bool.eq_false_iff.mpr (fun set => none ⟨j, inside, set⟩)

theorem Lowered.isLeast {x : BitVec 32} {s : BitSearch} (found : Lowered x 1 s) :
    ∃ i, IsLeast {j | x.getLsbD j = true} i ∧ s.r = i + 1 := by
  refine ⟨s.r - 1, ⟨?_, ?_⟩, (Nat.sub_add_cancel found.least).symm⟩
  · obtain ⟨j, inside, set⟩ := found.low
    rw [found.shifted j inside, Nat.lt_one_iff.mp inside] at set
    exact set
  · intro j set
    by_contra early
    exact Bool.false_ne_true ((found.below j (Nat.not_le.mp early)).symm.trans set)

theorem ls1cFfs_isLeast {x : BitVec 32} (nonzero : x ≠ 0) :
    ∃ i, IsLeast {j | x.getLsbD j = true} i ∧ ls1cFfs x = i + 1 := by
  rw [ls1cFfs, if_neg nonzero]
  apply Lowered.isLeast
  apply Lowered.step _ (by decide)
  apply Lowered.step _ (by decide)
  apply Lowered.step _ (by decide)
  apply Lowered.step _ (by decide)
  apply Lowered.step _ (by decide)
  exact lowered_start nonzero

/-- Both searches on every word: 0 where no bit is set, and else one more than
the index of the highest and of the lowest set bit. -/
theorem ls1cFls_ls1cFfs (x : BitVec 32) :
    (x = 0 ∧ ls1cFls x = 0 ∨ ∃ i, IsGreatest {j | x.getLsbD j = true} i ∧ ls1cFls x = i + 1) ∧
      (x = 0 ∧ ls1cFfs x = 0 ∨ ∃ i, IsLeast {j | x.getLsbD j = true} i ∧ ls1cFfs x = i + 1) := by
  by_cases zero : x = 0
  · exact ⟨.inl ⟨zero, if_pos zero⟩, .inl ⟨zero, if_pos zero⟩⟩
  · exact ⟨.inr (ls1cFls_isGreatest zero), .inr (ls1cFfs_isLeast zero)⟩

example : ls1cFls 0x80000000 = 32 ∧ ls1cFfs 0x80000000 = 32 := by decide

end KyokaMirror.Ls1c
