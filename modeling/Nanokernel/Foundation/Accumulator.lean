import Mathlib.Algebra.BigOperators.Group.List.Basic
import Mathlib.Data.Int.ModEq
import Mathlib.Tactic.Ring

/-!
# Counting with a residue

A counter that takes increments in units finer than its own: what does not
make a whole count stays in a residue below the modulus. Nothing is lost
(`weight_count`), and two such counters, one with a modulus `k` times the
other's, stay in step: the coarse residue holds what the fine counter is
ahead (`fine_eq_of_weight_eq`).
-/

namespace Nanokernel

/-- A count and the residue towards the next one. -/
structure Accumulator where
  total : ℤ
  residue : ℤ
deriving DecidableEq, Repr

namespace Accumulator

/-- The whole of it in units of the residue. -/
def weight (m : ℤ) (s : Accumulator) : ℤ := m * s.total + s.residue

/-- The residue is short of a count. -/
def Reduced (m : ℤ) (s : Accumulator) : Prop := 0 ≤ s.residue ∧ s.residue < m

/-- Add `a` and carry the whole counts over. -/
def count (m : ℤ) (s : Accumulator) (a : ℤ) : Accumulator :=
  ⟨s.total + (s.residue + a) / m, (s.residue + a) % m⟩

theorem weight_count (m : ℤ) (s : Accumulator) (a : ℤ) :
    (count m s a).weight m = s.weight m + a := by
  have hdiv := Int.mul_ediv_add_emod (s.residue + a) m
  unfold weight count
  dsimp only
  rw [mul_add]
  omega

theorem reduced_count {m : ℤ} (hm : 0 < m) (s : Accumulator) (a : ℤ) :
    (count m s a).Reduced m :=
  ⟨Int.emod_nonneg _ hm.ne', Int.emod_lt_of_pos _ hm⟩

/-- Whatever the increments, the weight grows by their sum. -/
theorem weight_foldl_count (m : ℤ) (s : Accumulator) (as : List ℤ) :
    (as.foldl (count m) s).weight m = s.weight m + as.sum := by
  induction as generalizing s with
  | nil => simp
  | cons a as ih =>
    rw [List.foldl_cons, ih, weight_count, List.sum_cons, add_assoc]

/-- The weight determines a reduced accumulator. -/
theorem total_eq_ediv {m : ℤ} {s : Accumulator} (h : s.Reduced m) :
    s.total = s.weight m / m ∧ s.residue = s.weight m % m := by
  have hm : 0 < m := lt_of_le_of_lt h.1 h.2
  have huniq := (Int.ediv_emod_unique hm).mpr
    ⟨add_comm s.residue (m * s.total), h.1, h.2⟩
  exact ⟨huniq.1.symm, huniq.2.symm⟩

/-- A weight in whole counts and a surplus, which need not be reduced. -/
theorem of_weight_eq {m t x : ℤ} {s : Accumulator} (h : s.Reduced m)
    (hw : s.weight m = m * t + x) : s.total = t + x / m ∧ s.residue = x % m := by
  have hm : 0 < m := lt_of_le_of_lt h.1 h.2
  obtain ⟨htotal, hresidue⟩ := total_eq_ediv h
  rw [hw, add_comm, Int.add_mul_ediv_left _ _ hm.ne', add_comm] at htotal
  rw [hw, add_comm, Int.add_mul_emod_self_left] at hresidue
  exact ⟨htotal, hresidue⟩

/-- Equal weights at moduli `m` and `k * m`: the fine count is `k` times the
coarse one plus the whole counts in the coarse residue. -/
theorem fine_eq_of_weight_eq {m k : ℤ} {fine coarse : Accumulator}
    (hfine : fine.Reduced m) (hcoarse : coarse.Reduced (k * m))
    (hw : fine.weight m = coarse.weight (k * m)) :
    fine.total = k * coarse.total + coarse.residue / m ∧
      fine.residue = coarse.residue % m ∧
      0 ≤ coarse.residue / m ∧ coarse.residue / m < k := by
  have hm : 0 < m := lt_of_le_of_lt hfine.1 hfine.2
  obtain ⟨htotal, hresidue⟩ := total_eq_ediv hfine
  have hsplit : fine.weight m = coarse.residue + m * (k * coarse.total) := by
    rw [hw]
    unfold weight
    ring
  rw [hsplit, Int.add_mul_ediv_left _ _ hm.ne'] at htotal
  rw [hsplit, Int.add_mul_emod_self_left] at hresidue
  refine ⟨by omega, hresidue, Int.ediv_nonneg hcoarse.1 hm.le, ?_⟩
  exact Int.ediv_lt_of_lt_mul hm hcoarse.2

end Accumulator

end Nanokernel
