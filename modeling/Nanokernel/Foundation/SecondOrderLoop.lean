import Mathlib.Algebra.Order.Field.Basic
import Mathlib.Tactic.Linarith
import Mathlib.Tactic.GCongr
import Mathlib.Tactic.Ring

/-!
# A loop of second order

A distance `l` grows with a rate `z` that nobody sees. Now and then the distance is measured:
part of it is made up for until the next time, and the rate is corrected by a share of it. Both
are then pulled toward zero together, though neither has to shrink at every turn: a large rate
first builds up the distance that will correct it. What does shrink is the larger of the rate
and half of what the distance is away from twice the rate.
-/

namespace Nanokernel.SecondOrderLoop

variable {K : Type*} [Field K] [LinearOrder K] [IsStrictOrderedRing K]

/-- One turn of the loop: `left` of the distance is still to go, the rate makes `drift` of
itself, and `gain` of the new distance corrects the rate. -/
structure Turn (left drift gain push slip l z l' z' : K) : Prop where
  distance : l' = left * l + drift * z + push
  rate : z' = z - gain * l' + slip
  left_nonneg : 0 ≤ left
  gain_nonneg : 0 ≤ gain
  small : gain * (2 * left + drift) ≤ 1

variable {left drift gain push slip l z l' z' bound : K}

/-- The rate is corrected by what it makes itself. -/
theorem Turn.abs_rate_le (h : Turn left drift gain push slip l z l' z') (hz : |z| ≤ bound)
    (hlead : |l - 2 * z| ≤ 2 * bound) :
    |z'| ≤ (1 - gain * drift) * bound + gain * |push| + |slip| := by
  have hsmall : 0 ≤ 1 - gain * (2 * left + drift) := sub_nonneg.mpr h.small
  have hcoeff : 0 ≤ gain * left := mul_nonneg h.gain_nonneg h.left_nonneg
  have hsplit : z' = (1 - gain * (2 * left + drift)) * z - gain * left * (l - 2 * z)
      - gain * push + slip := by
    rw [h.rate, h.distance]
    ring
  rw [hsplit]
  calc |(1 - gain * (2 * left + drift)) * z - gain * left * (l - 2 * z) - gain * push + slip|
      ≤ |(1 - gain * (2 * left + drift)) * z| + |gain * left * (l - 2 * z)| + |gain * push|
          + |slip| := by
        refine (abs_add_le _ _).trans (add_le_add_left ?_ _)
        refine (abs_sub _ _).trans (add_le_add_left ?_ _)
        exact abs_sub _ _
    _ = (1 - gain * (2 * left + drift)) * |z| + gain * left * |l - 2 * z| + gain * |push|
          + |slip| := by
        rw [abs_mul (1 - gain * (2 * left + drift)), abs_mul (gain * left), abs_mul gain push,
          abs_of_nonneg hsmall, abs_of_nonneg hcoeff, abs_of_nonneg h.gain_nonneg]
    _ ≤ (1 - gain * (2 * left + drift)) * bound + gain * left * (2 * bound) + gain * |push|
          + |slip| := by
        gcongr
    _ = _ := by ring

/-- How far the distance is from twice the rate. -/
theorem Turn.abs_lead_le (h : Turn left drift gain push slip l z l' z') (hz : |z| ≤ bound)
    (hlead : |l - 2 * z| ≤ 2 * bound) {c : K}
    (hover : (1 + 2 * gain) * (4 * left + drift) - 2 ≤ c)
    (hunder : 2 - (1 + 2 * gain) * drift ≤ c) :
    |l' - 2 * z'| ≤ c * bound + (1 + 2 * gain) * |push| + 2 * |slip| := by
  have hgain : 0 ≤ 1 + 2 * gain := by linarith [h.gain_nonneg]
  have hcoeff : 0 ≤ (1 + 2 * gain) * left := mul_nonneg hgain h.left_nonneg
  have hbound : 0 ≤ bound := (abs_nonneg z).trans hz
  have hsplit : l' - 2 * z' = (1 + 2 * gain) * left * (l - 2 * z)
      + ((1 + 2 * gain) * (2 * left + drift) - 2) * z + (1 + 2 * gain) * push - 2 * slip := by
    rw [h.rate, h.distance]
    ring
  have hrate : 2 * ((1 + 2 * gain) * left) + |(1 + 2 * gain) * (2 * left + drift) - 2| ≤ c := by
    rcases abs_cases ((1 + 2 * gain) * (2 * left + drift) - 2) with ⟨heq, -⟩ | ⟨heq, -⟩
    · rw [heq]
      linarith
    · rw [heq]
      linarith
  rw [hsplit]
  calc |(1 + 2 * gain) * left * (l - 2 * z)
        + ((1 + 2 * gain) * (2 * left + drift) - 2) * z + (1 + 2 * gain) * push - 2 * slip|
      ≤ |(1 + 2 * gain) * left * (l - 2 * z)|
          + |((1 + 2 * gain) * (2 * left + drift) - 2) * z| + |(1 + 2 * gain) * push|
          + |2 * slip| := by
        refine (abs_sub _ _).trans (add_le_add_left ?_ _)
        refine (abs_add_le _ _).trans (add_le_add_left ?_ _)
        exact abs_add_le _ _
    _ = (1 + 2 * gain) * left * |l - 2 * z|
          + |(1 + 2 * gain) * (2 * left + drift) - 2| * |z| + (1 + 2 * gain) * |push|
          + 2 * |slip| := by
        rw [abs_mul ((1 + 2 * gain) * left), abs_mul _ z, abs_mul (1 + 2 * gain) push,
          abs_mul 2 slip, abs_of_nonneg hcoeff, abs_of_nonneg hgain, abs_two]
    _ ≤ (1 + 2 * gain) * left * (2 * bound)
          + |(1 + 2 * gain) * (2 * left + drift) - 2| * bound + (1 + 2 * gain) * |push|
          + 2 * |slip| := by
        gcongr
    _ = (2 * ((1 + 2 * gain) * left) + |(1 + 2 * gain) * (2 * left + drift) - 2|) * bound
          + (1 + 2 * gain) * |push| + 2 * |slip| := by
        ring
    _ ≤ _ := by
        gcongr

/-- Less than a share of `x`, and a bit more, is a share of `x` but for that bit. -/
theorem exists_ratio {x y share bit : K} (hx : 0 ≤ x) (hy : 0 ≤ y) (hle : y ≤ share * x + bit)
    (hshare : 0 ≤ share) (hbit : 0 ≤ bit) : ∃ r, 0 ≤ r ∧ r ≤ share ∧ |y - r * x| ≤ bit := by
  rcases le_total y (share * x) with hsmall | hlarge
  · rcases hx.eq_or_lt with rfl | hpos
    · refine ⟨0, le_rfl, hshare, ?_⟩
      rw [mul_zero] at hsmall
      rw [mul_zero, sub_zero, abs_of_nonneg hy]
      exact hsmall.trans hbit
    · refine ⟨y / x, div_nonneg hy hx, (div_le_iff₀ hpos).mpr hsmall, ?_⟩
      rw [div_mul_cancel₀ _ hpos.ne', sub_self, abs_zero]
      exact hbit
  · refine ⟨share, hshare, le_rfl, ?_⟩
    rw [abs_of_nonneg (sub_nonneg.mpr hlarge)]
    linarith

end Nanokernel.SecondOrderLoop
