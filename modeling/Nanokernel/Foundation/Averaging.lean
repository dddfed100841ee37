import Mathlib.Algebra.Order.Group.Unbundled.Abs
import Mathlib.Algebra.Order.Group.Unbundled.Int
import Mathlib.Algebra.Order.Ring.Int
import Mathlib.Logic.Function.Iterate
import Mathlib.Tactic.Common
import Mathlib.Tactic.Ring

/-!
# A running average in integers

An average `x` moves by the `m`-th part of what it is short of `u`, rounded
down. Rounding leaves it up to `m - 1` short of a target above it, and brings it
all the way down to one below; after finitely many steps it rests at `limit`.
-/

namespace Nanokernel.Averaging

/-- One step toward `u`. -/
def toward (m u x : ℤ) : ℤ := x + (u - x) / m

/-- Where the average that starts at `x` comes to rest. -/
def limit (m u x : ℤ) : ℤ := max (u - (m - 1)) (min x u)

variable {m u x : ℤ}

/-! ## One step -/

/-- What is short by less than `m` has no part to add. -/
theorem toward_of_rest (hlo : u - (m - 1) ≤ x) (hhi : x ≤ u) : toward m u x = x := by
  unfold toward
  rw [Int.ediv_eq_zero_of_lt (by omega) (by omega), add_zero]

/-- From further below, the average grows, at most to where it rests. -/
theorem toward_of_lt (hm : 1 ≤ m) (h : x < u - (m - 1)) :
    x < toward m u x ∧ toward m u x ≤ u - (m - 1) := by
  unfold toward
  have hpart : 1 ≤ (u - x) / m := Int.le_ediv_of_mul_le (by omega) (by omega)
  have hle : (u - x) / m * m ≤ u - x := Int.ediv_mul_le _ (by omega)
  generalize (u - x) / m = q at hpart hle ⊢
  have hprod : 0 ≤ (q - 1) * (m - 1) := Int.mul_nonneg (by omega) (by omega)
  have hexpand : (q - 1) * (m - 1) = q * m - q - m + 1 := by ring
  omega

/-- From above, it falls, at most to the target. -/
theorem toward_of_gt (hm : 1 ≤ m) (h : u < x) : u ≤ toward m u x ∧ toward m u x < x := by
  unfold toward
  have hneg : (u - x) / m < 0 := Int.ediv_neg_of_neg_of_pos (by omega) (by omega)
  have hle : u - x ≤ (u - x) / m :=
    (Int.le_ediv_iff_mul_le (by omega)).mpr (by
      have hmul := mul_le_mul_of_nonpos_left hm (show u - x ≤ 0 by omega)
      rwa [mul_one] at hmul)
  omega

/-- An average lies between what was averaged. -/
theorem toward_between (hm : 1 ≤ m) :
    min x u ≤ toward m u x ∧ toward m u x ≤ max x (u - (m - 1)) := by
  rcases lt_or_ge x (u - (m - 1)) with hlt | hge
  · have hstep := toward_of_lt hm hlt
    omega
  · rcases le_or_gt x u with hle | hgt
    · rw [toward_of_rest hge hle]
      omega
    · have hstep := toward_of_gt hm hgt
      omega

/-! ## Many steps -/

theorem limit_bounds (hm : 1 ≤ m) (u x : ℤ) :
    u - (m - 1) ≤ limit m u x ∧ limit m u x ≤ u := by
  unfold limit
  omega

theorem toward_limit (hm : 1 ≤ m) (u x : ℤ) : toward m u (limit m u x) = limit m u x :=
  toward_of_rest (limit_bounds hm u x).1 (limit_bounds hm u x).2

/-- A step goes to the same place, and is nearer to it unless it is there. -/
theorem limit_toward (hm : 1 ≤ m) (u x : ℤ) :
    limit m u (toward m u x) = limit m u x ∧
      (x = limit m u x ∨ |toward m u x - limit m u x| < |x - limit m u x|) := by
  rcases lt_or_ge x (u - (m - 1)) with hlt | hge
  · obtain ⟨hgrow, htop⟩ := toward_of_lt hm hlt
    have hlimit : limit m u x = u - (m - 1) := by
      unfold limit
      omega
    rw [hlimit, abs_of_nonpos (by omega), abs_of_nonpos (by omega)]
    unfold limit
    omega
  · rcases le_or_gt x u with hle | hgt
    · have hlimit : x = limit m u x := by
        unfold limit
        omega
      rw [toward_of_rest hge hle]
      exact ⟨rfl, Or.inl hlimit⟩
    · obtain ⟨hbottom, hfall⟩ := toward_of_gt hm hgt
      have hlimit : limit m u x = u := by
        unfold limit
        omega
      rw [hlimit, abs_of_nonneg (by omega), abs_of_nonneg (by omega)]
      unfold limit
      omega

/-- After as many steps as the distance is long, the average rests. -/
theorem iterate_toward (hm : 1 ≤ m) {n : ℕ} (h : |x - limit m u x| ≤ n) :
    (toward m u)^[n] x = limit m u x := by
  induction n generalizing x with
  | zero =>
    have hzero : |x - limit m u x| = 0 := le_antisymm h (abs_nonneg _)
    exact sub_eq_zero.mp (abs_eq_zero.mp hzero)
  | succ n ih =>
    obtain ⟨hsame, hnear⟩ := limit_toward hm u x
    rw [Function.iterate_succ_apply, ← hsame]
    apply ih
    rw [hsame]
    rcases hnear with hrest | hlt
    · have hfix : toward m u x = x := by
        rw [hrest]
        exact toward_limit hm u x
      rw [hfix, ← hrest, sub_self, abs_zero]
      exact Int.natCast_nonneg n
    · push_cast at h
      omega

theorem exists_iterate_toward (hm : 1 ≤ m) (u x : ℤ) :
    ∃ N : ℕ, ∀ n ≥ N, (toward m u)^[n] x = limit m u x := by
  refine ⟨(x - limit m u x).natAbs, fun n hn => iterate_toward hm ?_⟩
  rw [Int.abs_eq_natAbs]
  exact Int.ofNat_le.mpr hn

end Nanokernel.Averaging
