import Nanokernel.Foundation.Decay
import Mathlib.Analysis.Complex.Exponential
import Mathlib.Tactic.Linarith
import Mathlib.Tactic.FieldSimp

/-!
# How much instalments leave

A debt of which every instalment pays the `d`-th part falls like a power of `1 - 1 / d`, up to
the rounding of the parts (`abs_iterate_rest_between`). After as many instalments as a part
has shares, less or more, the power itself is known without `d`.
-/

namespace Nanokernel.Decay

variable {d x : ℤ}

/-- What is paid is what the debt gets smaller by. -/
theorem abs_sub_rest (hd : 1 ≤ d) (x : ℤ) : |x - rest d x| = |x| - |rest d x| := by
  rcases le_total 0 x with hx | hx
  · obtain ⟨h0, hle⟩ := rest_bounds hd hx
    rw [abs_of_nonneg (sub_nonneg.mpr hle), abs_of_nonneg hx, abs_of_nonneg h0]
  · obtain ⟨h0, hle⟩ := rest_bounds hd (neg_nonneg.mpr hx)
    rw [rest_neg] at h0 hle
    rw [abs_of_nonpos (by omega), abs_of_nonpos hx, abs_of_nonpos (by omega)]
    ring

/-- One instalment leaves the `d`-th part less, and at most one more. -/
theorem abs_rest_between (hd : 1 ≤ d) (x : ℤ) :
    (1 - 1 / d) * ((|x| : ℤ) : ℚ) ≤ (|rest d x| : ℤ) ∧
      ((|rest d x| : ℤ) : ℚ) ≤ (1 - 1 / d) * (|x| : ℤ) + 1 := by
  have hpos : (0 : ℚ) < d := by exact_mod_cast hd
  have hpart : |rest d x| = |x| - |x| / d := by
    rw [abs_rest hd]
    unfold rest
    rw [Int.tdiv_eq_ediv_of_nonneg (abs_nonneg x)]
  have hlow : ((|x| / d : ℤ) : ℚ) ≤ (|x| : ℤ) / d := by
    rw [le_div_iff₀ hpos]
    exact_mod_cast Int.ediv_mul_le |x| (by omega : d ≠ 0)
  have hhigh : ((|x| : ℤ) : ℚ) / d < ((|x| / d : ℤ) : ℚ) + 1 := by
    rw [div_lt_iff₀ hpos]
    exact_mod_cast Int.lt_ediv_add_one_mul_self |x| (by omega : 0 < d)
  rw [hpart, Int.cast_sub, sub_mul, one_mul, one_div_mul_eq_div]
  exact ⟨by linarith, by linarith⟩

/-- The debt falls geometrically, up to rounding. -/
theorem abs_iterate_rest_between (hd : 1 ≤ d) (n : ℕ) (x : ℤ) :
    (1 - 1 / d) ^ n * ((|x| : ℤ) : ℚ) ≤ (|(rest d)^[n] x| : ℤ) ∧
      ((|(rest d)^[n] x| : ℤ) : ℚ) ≤ (1 - 1 / d) ^ n * (|x| : ℤ) + d := by
  have hpos : (1 : ℚ) ≤ d := by exact_mod_cast hd
  have hpart : (1 : ℚ) / d * d = 1 := one_div_mul_cancel (by linarith)
  have hfactor : (0 : ℚ) ≤ 1 - 1 / d := by
    rw [sub_nonneg, div_le_one (by linarith)]
    exact hpos
  induction n with
  | zero =>
    rw [pow_zero, one_mul]
    exact ⟨le_rfl, by simp only [Function.iterate_zero, id_eq]; linarith⟩
  | succ n ih =>
    obtain ⟨hlow, hhigh⟩ := ih
    obtain ⟨hstep, hstep'⟩ := abs_rest_between hd ((rest d)^[n] x)
    have hmul := mul_le_mul_of_nonneg_left hlow hfactor
    have hmul' := mul_le_mul_of_nonneg_left hhigh hfactor
    rw [Function.iterate_succ_apply', pow_succ', mul_assoc]
    constructor
    · exact hmul.trans hstep
    · rw [mul_add, sub_mul 1 _ (d : ℚ), one_mul, hpart] at hmul'
      linarith

/-- After seven eighths of `d` instalments, two fifths of the debt are left. -/
theorem discount_le {n : ℕ} (hd : 1 ≤ d) (hn : 7 * d ≤ 8 * n) :
    (1 - 1 / d : ℚ) ^ n ≤ 21 / 50 := by
  have hpos : (1 : ℝ) ≤ d := by exact_mod_cast hd
  have hn0 : (0 : ℝ) < n := by
    have : (0 : ℤ) < n := by omega
    exact_mod_cast this
  have hshare : (7 / 8 : ℝ) ≤ n / d := by
    rw [le_div_iff₀ (by linarith)]
    have hcast : (7 : ℝ) * d ≤ 8 * n := by exact_mod_cast hn
    linarith
  have hlimit : (n / d : ℝ) ≤ n := div_le_self hn0.le hpos
  have hpow : (1 - 1 / d : ℝ) ^ n ≤ Real.exp (-(n / d)) := by
    have hexp := Real.one_sub_div_pow_le_exp_neg hlimit
    rwa [div_right_comm, div_self hn0.ne'] at hexp
  have hsum := Real.sum_le_exp_of_nonneg (x := 7 / 8) (by norm_num) 5
  have hexp : Real.exp (-(n / d)) ≤ 21 / 50 := by
    rw [Real.exp_neg, inv_le_comm₀ (Real.exp_pos _) (by norm_num)]
    refine le_trans ?_ (Real.exp_le_exp.mpr hshare)
    refine le_trans ?_ hsum
    norm_num [Finset.sum_range_succ, Nat.factorial]
  have hreal : ((1 - 1 / d : ℚ) ^ n : ℝ) ≤ ((21 / 50 : ℚ) : ℝ) := by
    push_cast
    exact hpow.trans hexp
  exact_mod_cast hreal

/-- After five fourths of them, a twenty-first is. -/
theorem le_discount {q n : ℕ} (hd : d = 4 * q) (hq : 1 ≤ q) (hn : n ≤ 5 * q) :
    (1 / 21 : ℚ) ≤ (1 - 1 / d) ^ n := by
  have hq' : (1 : ℚ) ≤ q := by exact_mod_cast hq
  have hcast : (d : ℚ) = 4 * q := by
    rw [hd]
    push_cast
    ring
  have hsmall : (1 / d : ℚ) ≤ 1 / 4 := by
    rw [hcast]
    exact one_div_le_one_div_of_le (by norm_num) (by linarith)
  have hnonneg : (0 : ℚ) ≤ 1 / d := by
    rw [hcast]
    positivity
  -- a quarter of `d` instalments leaves three quarters
  have hquarter : (3 / 4 : ℚ) ≤ (1 - 1 / d) ^ q := by
    have hbernoulli := one_add_mul_le_pow (a := -(1 / d : ℚ)) (by linarith) q
    have hpart : (q : ℚ) * (1 / d) = 1 / 4 := by
      rw [hcast]
      field_simp
    rw [← sub_eq_add_neg] at hbernoulli
    linarith
  calc (1 / 21 : ℚ) ≤ (3 / 4) ^ 5 := by norm_num
    _ ≤ ((1 - 1 / d) ^ q) ^ 5 := pow_le_pow_left₀ (by norm_num) hquarter 5
    _ = (1 - 1 / d) ^ (5 * q) := by rw [← pow_mul, mul_comm]
    _ ≤ (1 - 1 / d) ^ n := pow_le_pow_of_le_one (by linarith) (by linarith) hn

end Nanokernel.Decay
