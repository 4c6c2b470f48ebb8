import Mathlib.Data.Nat.ModEq

set_option autoImplicit false

namespace Library.Wrap

/- Differences of two counters that have been cut to `w` bits. -/

variable {w a b : Nat}

theorem toNat_sub_of_le (le : b ≤ a) (near : a - b < 2 ^ w) :
    (BitVec.ofNat w a - BitVec.ofNat w b).toNat = a - b := by
  have small : b % 2 ^ w < 2 ^ w := Nat.mod_lt _ (Nat.two_pow_pos w)
  obtain ⟨d, rfl⟩ := Nat.exists_eq_add_of_le le
  rw [Nat.add_sub_cancel_left] at near ⊢
  rw [BitVec.toNat_sub, BitVec.toNat_ofNat, BitVec.toNat_ofNat, Nat.add_mod_mod]
  calc (2 ^ w - b % 2 ^ w + (b + d)) % 2 ^ w
      = (2 ^ w - b % 2 ^ w + (b % 2 ^ w + d)) % 2 ^ w := by
        rw [Nat.add_mod, ← Nat.mod_add_mod b, ← Nat.add_mod]
    _ = (2 ^ w + d) % 2 ^ w := by
        congr 1
        omega
    _ = d := by rw [Nat.add_mod_left, Nat.mod_eq_of_lt near]

theorem toNat_sub_of_lt (lt : a < b) (near : b - a ≤ 2 ^ w) :
    (BitVec.ofNat w a - BitVec.ofNat w b).toNat = 2 ^ w - (b - a) := by
  have turn : BitVec.ofNat w a = BitVec.ofNat w (a + 2 ^ w) := by
    apply BitVec.eq_of_toNat_eq
    rw [BitVec.toNat_ofNat, BitVec.toNat_ofNat, Nat.add_mod_right]
  rw [turn, toNat_sub_of_le (by omega) (by omega)]
  omega

end Library.Wrap
