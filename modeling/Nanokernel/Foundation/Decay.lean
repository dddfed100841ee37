import Mathlib.Algebra.Order.Group.Unbundled.Abs
import Mathlib.Algebra.Order.Group.Unbundled.Int
import Mathlib.Algebra.Order.Ring.Int
import Mathlib.Data.Int.Cast.Lemmas
import Mathlib.Logic.Function.Iterate
import Mathlib.Tactic.Common

/-!
# Paying out a part at a time

A debt `x` is paid in instalments: each is the `d`-th part of what is left,
rounded toward zero. The rest never changes its side, never grows, and stays
what it is once it is smaller than `d`.
-/

namespace Nanokernel.Decay

/-- What is left once the `d`-th part is paid. -/
def rest (d x : ℤ) : ℤ := x - x.tdiv d

variable {d x : ℤ}

theorem tdiv_add_rest (d x : ℤ) : x.tdiv d + rest d x = x :=
  add_sub_cancel _ _

theorem rest_neg (d x : ℤ) : rest d (-x) = -rest d x := by
  unfold rest
  rw [Int.neg_tdiv, neg_sub_neg, neg_sub]

theorem rest_bounds (hd : 1 ≤ d) (hx : 0 ≤ x) : 0 ≤ rest d x ∧ rest d x ≤ x := by
  unfold rest
  rw [Int.tdiv_eq_ediv_of_nonneg hx]
  exact ⟨sub_nonneg.mpr (Int.ediv_le_self d hx),
    sub_le_self x (Int.ediv_nonneg hx (by omega))⟩

theorem rest_nonneg (hd : 1 ≤ d) (hx : 0 ≤ x) : 0 ≤ rest d x :=
  (rest_bounds hd hx).1

theorem rest_nonpos (hd : 1 ≤ d) (hx : x ≤ 0) : rest d x ≤ 0 := by
  have hneg := rest_nonneg hd (neg_nonneg.mpr hx)
  rw [rest_neg] at hneg
  exact neg_nonneg.mp hneg

/-- The side does not matter for the size of the rest. -/
theorem abs_rest (hd : 1 ≤ d) (x : ℤ) : |rest d x| = rest d |x| := by
  rcases le_total 0 x with hx | hx
  · rw [abs_of_nonneg hx, abs_of_nonneg (rest_nonneg hd hx)]
  · rw [abs_of_nonpos hx, abs_of_nonpos (rest_nonpos hd hx), rest_neg]

theorem abs_rest_le (hd : 1 ≤ d) (x : ℤ) : |rest d x| ≤ |x| := by
  rw [abs_rest hd]
  exact (rest_bounds hd (abs_nonneg x)).2

/-- Less than `d` has no `d`-th part. -/
theorem rest_of_abs_lt (hx : |x| < d) : rest d x = x := by
  unfold rest
  rcases le_total 0 x with h | h
  · rw [abs_of_nonneg h] at hx
    rw [Int.tdiv_eq_zero_of_lt h hx, sub_zero]
  · rw [abs_of_nonpos h] at hx
    have hneg := Int.tdiv_eq_zero_of_lt (neg_nonneg.mpr h) hx
    rw [Int.neg_tdiv, neg_eq_zero] at hneg
    rw [hneg, sub_zero]

/-- As long as there is a part to pay, the rest gets smaller. -/
theorem abs_rest_lt (hd : 1 ≤ d) (hx : d ≤ |x|) : |rest d x| < |x| := by
  rw [abs_rest hd]
  unfold rest
  rw [Int.tdiv_eq_ediv_of_nonneg (abs_nonneg x)]
  have hpart : 1 ≤ |x| / d := Int.le_ediv_of_mul_le (by omega) (by omega)
  omega

/-- A power of two divides. -/
theorem one_le_two_pow (n : ℕ) : (1 : ℤ) ≤ 2 ^ n := one_le_pow₀ (by decide)

/-! ## Many instalments -/

theorem abs_iterate_rest_lt (hd : 1 ≤ d) {n : ℕ} (hx : |x| < d + n) :
    |(rest d)^[n] x| < d := by
  induction n generalizing x with
  | zero =>
    rw [Nat.cast_zero, add_zero] at hx
    exact hx
  | succ n ih =>
    rw [Function.iterate_succ_apply]
    apply ih
    push_cast at hx
    rcases lt_or_ge |x| d with hlt | hge
    · have hle := abs_rest_le hd x
      omega
    · have hlt := abs_rest_lt hd hge
      omega

/-- After so many instalments, the rest stays what it is. -/
theorem iterate_rest_eq (hd : 1 ≤ d) {m n : ℕ} (hx : |x| < d + n) (hm : n ≤ m) :
    (rest d)^[m] x = (rest d)^[n] x := by
  obtain ⟨j, rfl⟩ := Nat.exists_eq_add_of_le' hm
  rw [Function.iterate_add_apply]
  exact Function.iterate_fixed (rest_of_abs_lt (abs_iterate_rest_lt hd hx)) j

end Nanokernel.Decay
