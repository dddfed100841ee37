import Mathlib.Algebra.Order.Group.Defs
import Mathlib.Algebra.Order.Sub.Defs
import Mathlib.Order.Lattice
import Mathlib.Tactic.Common

/-!
# The median of three

The middle one of three values, and how far the outer two are apart. Any two of
the three enclose the median, so one of them may be anything.
-/

namespace Nanokernel.Median

section Order

variable {α : Type*} [LinearOrder α]

/-- The middle one of three. -/
def median (a b c : α) : α := max (min a b) (min (max a b) c)

/-- In order, the one in the middle. -/
theorem median_of_le {a b c : α} (hab : a ≤ b) (hbc : b ≤ c) : median a b c = b := by
  unfold median
  rw [min_eq_left hab, max_eq_right hab, min_eq_left hbc, max_eq_right hab]

theorem median_comm (a b c : α) : median a b c = median b a c := by
  unfold median
  rw [min_comm a b, max_comm a b]

theorem min_le_median (a b c : α) : min a b ≤ median a b c :=
  le_max_left _ _

theorem median_le_max (a b c : α) : median a b c ≤ max a b :=
  max_le min_le_max (min_le_left _ _)

/-- The median does not depend on the order of the three. -/
theorem median_rotate (a b c : α) : median a b c = median b c a := by
  rcases le_total a b with hab | hba
  · rcases le_total b c with hbc | hcb
    · rw [median_of_le hab hbc]
      unfold median
      rw [min_eq_left hbc, max_eq_right hbc, min_eq_right (hab.trans hbc), max_eq_left hab]
    · unfold median
      rw [min_eq_left hab, max_eq_right hab, min_eq_right hcb, max_eq_left hcb,
        min_eq_right hab, max_comm]
  · rcases le_total b c with hbc | hcb
    · unfold median
      rw [min_eq_right hba, max_eq_left hba, min_eq_left hbc, max_eq_right hbc, min_comm]
    · unfold median
      rw [min_eq_right hba, max_eq_left hba, min_eq_right hcb, max_eq_left hcb,
        min_eq_right (hcb.trans hba), max_eq_left hcb, min_eq_left hba, max_eq_right hcb]

/-- Two of the three enclose the median, one way or the other. -/
theorem median_enclosed (a b c : α) : a ≤ median a b c ∧ median a b c ≤ b ∨
    b ≤ median a b c ∧ median a b c ≤ a := by
  have hlo := min_le_median a b c
  have hhi := median_le_max a b c
  rcases le_total a b with hab | hba
  · rw [min_eq_left hab] at hlo
    rw [max_eq_right hab] at hhi
    exact Or.inl ⟨hlo, hhi⟩
  · rw [min_eq_right hba] at hlo
    rw [max_eq_left hba] at hhi
    exact Or.inr ⟨hlo, hhi⟩

end Order

section Spread

variable {α : Type*} [LinearOrder α] [AddCommGroup α]

/-- How far the outer two are apart. -/
def spread (a b c : α) : α := max (max a b) c - min (min a b) c

variable [IsOrderedAddMonoid α]

theorem spread_nonneg (a b c : α) : 0 ≤ spread a b c :=
  sub_nonneg.mpr ((min_le_right _ _).trans (le_max_right _ _))

/-- Three values in an interval are no further apart than its ends. -/
theorem spread_le {a b c lo hi : α} (ha : lo ≤ a ∧ a ≤ hi) (hb : lo ≤ b ∧ b ≤ hi)
    (hc : lo ≤ c ∧ c ≤ hi) : spread a b c ≤ hi - lo :=
  sub_le_sub (max_le (max_le ha.2 hb.2) hc.2) (le_min (le_min ha.1 hb.1) hc.1)

end Spread

end Nanokernel.Median
