import Mathlib.Data.Int.Order.Lemmas
import Mathlib.Tactic.Linarith
import Mathlib.Tactic.Ring

/-!
# Count, sum and sum of squares

Who wants the mean and the variance of samples without keeping them keeps their
number, their sum and the sum of their squares.
-/

namespace SampleSums

/-- **Sums that can be those of some samples.** -/
structure Consistent (n s ss : ℤ) : Prop where
  number : 0 ≤ n
  squares : 0 ≤ ss
  variance : s * s ≤ n * ss

variable {n s ss : ℤ} (h : Consistent n s ss)

theorem consistent_zero : Consistent 0 0 0 := ⟨le_rfl, le_rfl, le_rfl⟩

include h

theorem Consistent.add (v : ℤ) : Consistent (n + 1) (s + v) (ss + v * v) := by
  refine ⟨by linarith [h.number], by linarith [h.squares, mul_self_nonneg v], ?_⟩
  have hcross : 0 ≤ ss + n * (v * v) - 2 * (s * v) := by
    rcases h.number.eq_or_lt with hzero | hpos
    · -- there has been no sample, so the sum is zero
      have hs : s * s ≤ 0 := by
        have hvariance := h.variance
        rwa [← hzero, zero_mul] at hvariance
      have hs' : s = 0 := mul_self_eq_zero.mp (le_antisymm hs (mul_self_nonneg s))
      rw [← hzero, hs']
      linarith [h.squares]
    · have hscaled : 0 ≤ n * (ss + n * (v * v) - 2 * (s * v)) := by
        have hsquare := mul_self_nonneg (s - n * v)
        have hexpand : (s - n * v) * (s - n * v) = s * s + n * (n * (v * v) - 2 * (s * v)) := by
          ring
        have hsplit : n * (ss + n * (v * v) - 2 * (s * v))
            = n * ss + n * (n * (v * v) - 2 * (s * v)) := by ring
        linarith [h.variance]
      exact (mul_nonneg_iff_of_pos_left hpos).mp hscaled
  have hexpand : (n + 1) * (ss + v * v) - (s + v) * (s + v)
      = (n * ss - s * s) + (ss + n * (v * v) - 2 * (s * v)) := by ring
  linarith [h.variance]

theorem Consistent.count : Consistent (n + 1) s ss := by
  refine ⟨by linarith [h.number], h.squares, ?_⟩
  have hexpand : (n + 1) * ss = n * ss + ss := by ring
  linarith [h.variance, h.squares]

omit h in
theorem tdiv_mul_self_le (a : ℤ) (d : ℤ) : (a.tdiv d * d) * (a.tdiv d * d) ≤ a * a := by
  rw [← Int.natAbs_le_iff_mul_self_le, Int.natAbs_mul, Int.natAbs_tdiv]
  exact Nat.div_mul_le_self _ _

theorem Consistent.scaled_variance {m d : ℤ} :
    d * d * ((s * m).tdiv d * (s * m).tdiv d) ≤ (n * m) * (ss * m) := by
  calc d * d * ((s * m).tdiv d * (s * m).tdiv d)
      = ((s * m).tdiv d * d) * ((s * m).tdiv d * d) := by ring
    _ ≤ (s * m) * (s * m) := tdiv_mul_self_le _ _
    _ = m * m * (s * s) := by ring
    _ ≤ m * m * (n * ss) := mul_le_mul_of_nonneg_left h.variance (mul_self_nonneg m)
    _ = (n * m) * (ss * m) := by ring

theorem Consistent.scale {m d : ℤ} (hm : 0 ≤ m) (hd : 0 < d) (hn : d ∣ n * m) (hss : d ∣ ss * m) :
    Consistent (n * m / d) ((s * m).tdiv d) (ss * m / d) := by
  have hscaled := h.scaled_variance (m := m) (d := d)
  obtain ⟨n', hn'⟩ := hn
  obtain ⟨ss', hss'⟩ := hss
  have hnumber : 0 ≤ n' := (mul_nonneg_iff_of_pos_left hd).mp (hn' ▸ mul_nonneg h.number hm)
  have hsquares : 0 ≤ ss' := (mul_nonneg_iff_of_pos_left hd).mp (hss' ▸ mul_nonneg h.squares hm)
  rw [hn', hss', Int.mul_ediv_cancel_left _ hd.ne', Int.mul_ediv_cancel_left _ hd.ne']
  refine ⟨hnumber, hsquares, ?_⟩
  rw [hn', hss', show d * n' * (d * ss') = d * d * (n' * ss') by ring] at hscaled
  exact le_of_mul_le_mul_left hscaled (mul_pos hd hd)

theorem Consistent.scale_to_one {m d : ℤ} (hm : 0 ≤ m) (hd : 0 < d) (hn : n * m = d) :
    Consistent (n * m / d) ((s * m).tdiv d) (ss * m / d) := by
  have hscaled := h.scaled_variance (m := m) (d := d)
  rw [hn, mul_assoc] at hscaled
  have hle := le_of_mul_le_mul_left hscaled hd
  rw [mul_comm] at hle
  rw [hn, Int.ediv_self hd.ne']
  refine ⟨zero_le_one, Int.ediv_nonneg (mul_nonneg h.squares hm) hd.le, ?_⟩
  rw [one_mul]
  exact (Int.le_ediv_iff_mul_le hd).mpr hle

theorem Consistent.scale_of_small {m d : ℤ} (hm : 0 ≤ m) (hd : 0 < d) (hs : |s * m| < d) :
    Consistent (n * m / d) ((s * m).tdiv d) (ss * m / d) := by
  have hzero : (s * m).tdiv d = 0 := by
    have hlt : (s * m).natAbs < d.natAbs := by
      rw [Int.abs_eq_natAbs] at hs
      omega
    rw [← Int.natAbs_eq_zero, Int.natAbs_tdiv]
    exact Nat.div_eq_of_lt hlt
  have hnumber : 0 ≤ n * m / d := Int.ediv_nonneg (mul_nonneg h.number hm) hd.le
  have hsquares : 0 ≤ ss * m / d := Int.ediv_nonneg (mul_nonneg h.squares hm) hd.le
  refine ⟨hnumber, hsquares, ?_⟩
  rw [hzero, zero_mul]
  exact mul_nonneg hnumber hsquares

end SampleSums
