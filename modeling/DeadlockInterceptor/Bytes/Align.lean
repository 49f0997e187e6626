import Mathlib.Data.UInt

/-!
This module contains the two ways to round a 64-bit number down to a multiple of a power of two: with a bit mask and
with a division.
-/

namespace Align

variable {k : Nat}

theorem toNat_two_pow (hk : k < 64) : (UInt64.ofNat (2 ^ k)).toNat = 2 ^ k := by
  rw [UInt64.toNat_ofNat']
  exact Nat.mod_eq_of_lt (Nat.pow_lt_pow_right (by omega) hk)

theorem toNat_div_mul (x : UInt64) (hk : k < 64) :
    (x / .ofNat (2 ^ k) * .ofNat (2 ^ k)).toNat = x.toNat / 2 ^ k * 2 ^ k := by
  have hle : x.toNat / 2 ^ k * 2 ^ k ≤ x.toNat := Nat.div_mul_le_self _ _
  rw [UInt64.toNat_mul, UInt64.toNat_div, toNat_two_pow hk]
  exact Nat.mod_eq_of_lt (Nat.lt_of_le_of_lt hle x.toNat_lt)

theorem testBit_not_two_pow_sub_one (hk : k < 64) (i : Nat) :
    (~~~(UInt64.ofNat (2 ^ k) - 1)).toNat.testBit i = (decide (i < 64) && decide (k ≤ i)) := by
  have hpos := Nat.two_pow_pos k
  have hlt : 2 ^ k < 2 ^ 64 := Nat.pow_lt_pow_right (by omega) hk
  have hmask : (~~~(UInt64.ofNat (2 ^ k) - 1)).toNat = 2 ^ 64 - ((2 ^ k - 1) + 1) := by
    rw [UInt64.toNat_not, UInt64.size, UInt64.toNat_sub, toNat_two_pow hk, UInt64.toNat_one]
    omega
  rw [hmask, Nat.testBit_two_pow_sub_succ (by omega), Nat.testBit_two_pow_sub_one]
  simp only [← decide_not, not_lt]

theorem toNat_and_not (x : UInt64) (hk : k < 64) :
    (x &&& ~~~(.ofNat (2 ^ k) - 1)).toNat = x.toNat / 2 ^ k * 2 ^ k := by
  apply Nat.eq_of_testBit_eq
  intro i
  rw [UInt64.toNat_and, Nat.testBit_and, testBit_not_two_pow_sub_one hk, Nat.testBit_mul_two_pow,
    Nat.testBit_div_two_pow]
  by_cases hle : k ≤ i
  . by_cases hlt : i < 64
    . simp [hle, hlt]
    . have hhigh : x.toNat.testBit i = false := by
        apply Nat.testBit_lt_two_pow
        exact Nat.lt_of_lt_of_le x.toNat_lt (Nat.pow_le_pow_right (by omega) (by omega))
      simp [hle, hhigh]
  . simp [hle]

theorem and_not_eq_div_mul (x : UInt64) (hk : k < 64) :
    x &&& ~~~(.ofNat (2 ^ k) - 1) = x / .ofNat (2 ^ k) * .ofNat (2 ^ k) := by
  rw [← UInt64.toNat_inj, toNat_and_not x hk, toNat_div_mul x hk]

end Align
