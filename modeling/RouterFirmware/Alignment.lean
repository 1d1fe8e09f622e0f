import Mathlib.Algebra.Order.Group.Nat
import Mathlib.Tactic.Common

/-!
# Rounding to a power of two

Programs round a 32-bit number to a multiple of a power of two with a mask.
-/

namespace Alignment

open Nat

variable {a : UInt32} {k : ℕ}

theorem pow_lt (ha : a.toNat = 2 ^ k) : k < 32 := by
  have h := a.toNat_lt
  rw [ha] at h
  exact (Nat.pow_lt_pow_iff_right (by decide)).mp h

theorem toNat_mask (ha : a.toNat = 2 ^ k) : (~~~(a - 1)).toNat = 2 ^ 32 - (2 ^ k - 1 + 1) := by
  have hone : (1 : UInt32) ≤ a := by
    rw [UInt32.le_iff_toNat_le, ha]
    exact Nat.one_le_two_pow
  rw [UInt32.toNat_not, UInt32.toNat_sub_of_le _ _ hone, ha]
  show 2 ^ 32 - 1 - (2 ^ k - 1) = _
  omega

theorem and_mask {x : ℕ} (hx : x < 2 ^ 32) (hk : 2 ^ k ≤ 2 ^ 32) :
    x &&& (2 ^ 32 - 2 ^ k) = x / 2 ^ k * 2 ^ k := by
  have hpos := Nat.two_pow_pos k
  refine eq_of_testBit_eq fun i => ?_
  rw [← Nat.sub_add_cancel hpos, testBit_and, testBit_two_pow_sub_succ (by omega),
    Nat.sub_add_cancel hpos, testBit_two_pow_sub_one, mul_comm, testBit_two_pow_mul,
    testBit_div_two_pow]
  by_cases hi : k ≤ i
  · rw [Nat.sub_add_cancel hi]
    by_cases h32 : i < 32
    · simp [hi, h32]
    · have hx : x < 2 ^ i := lt_of_lt_of_le hx
        (Nat.pow_le_pow_right (by decide) (Nat.le_of_not_lt h32))
      simp [testBit_lt_two_pow hx]
  · simp [hi]
    omega

theorem toNat_and_mask (x : UInt32) (ha : a.toNat = 2 ^ k) :
    (x &&& ~~~(a - 1)).toNat = x.toNat / 2 ^ k * 2 ^ k := by
  rw [UInt32.toNat_and, toNat_mask ha, Nat.sub_add_cancel Nat.one_le_two_pow]
  exact and_mask x.toNat_lt (ha ▸ a.toNat_lt.le)

theorem toNat_roundUp (x : UInt32) (ha : a.toNat = 2 ^ k) : ((x + (a - 1)) &&& ~~~(a - 1)).toNat
    = (x.toNat + (2 ^ k - 1)) % 2 ^ 32 / 2 ^ k * 2 ^ k := by
  have hone : (1 : UInt32) ≤ a := by
    rw [UInt32.le_iff_toNat_le, ha]
    exact Nat.one_le_two_pow
  rw [toNat_and_mask _ ha, UInt32.toNat_add, UInt32.toNat_sub_of_le _ _ hone, ha]
  rfl

theorem toNat_gap (x : UInt32) (ha : a.toNat = 2 ^ k) :
    (((x + (a - 1)) &&& ~~~(a - 1)) - x).toNat < 2 ^ k
      ∧ 2 ^ k ∣ x.toNat + (((x + (a - 1)) &&& ~~~(a - 1)) - x).toNat := by
  have hx := x.toNat_lt
  have hpos : 0 < 2 ^ k := Nat.two_pow_pos k
  have hpow : 2 ^ k ∣ 2 ^ 32 := Nat.pow_dvd_pow 2 (Nat.le_of_lt (pow_lt ha))
  have hle : 2 ^ k ≤ 2 ^ 32 := le_of_dvd (by decide) hpow
  rw [UInt32.toNat_sub, toNat_roundUp x ha]
  by_cases hwrap : x.toNat + (2 ^ k - 1) < 2 ^ 32
  · rw [mod_eq_of_lt hwrap]
    have hsplit := div_add_mod' (x.toNat + (2 ^ k - 1)) (2 ^ k)
    have hrest := mod_lt (x.toNat + (2 ^ k - 1)) hpos
    have hdvd : 2 ^ k ∣ (x.toNat + (2 ^ k - 1)) / 2 ^ k * 2 ^ k := Nat.dvd_mul_left ..
    have hgap : (2 ^ 32 - x.toNat + (x.toNat + (2 ^ k - 1)) / 2 ^ k * 2 ^ k) % 2 ^ 32
        = (x.toNat + (2 ^ k - 1)) / 2 ^ k * 2 ^ k - x.toNat := by omega
    rw [hgap, Nat.add_sub_cancel' (by omega)]
    exact ⟨by omega, hdvd⟩
  · have hzero : (x.toNat + (2 ^ k - 1)) % 2 ^ 32 / 2 ^ k = 0 := div_eq_of_lt (by omega)
    rw [hzero, Nat.zero_mul, Nat.add_zero]
    have hgap : (2 ^ 32 - x.toNat) % 2 ^ 32 = 2 ^ 32 - x.toNat := by omega
    rw [hgap, Nat.add_sub_cancel' (Nat.le_of_lt hx)]
    exact ⟨by omega, hpow⟩

end Alignment
