import Mathlib.Algebra.Order.Group.Abs
import Mathlib.Algebra.Order.Group.Unbundled.Int
import Mathlib.Algebra.Order.Ring.Int
import Mathlib.Order.Monotone.Basic
import Mathlib.Tactic.Common

/-!
# Increasing sequences

Where an integer falls among the points of an increasing sequence: which point is nearest to
it, by the midpoints with the neighbours, and for the starts of the years, which year it is in.
-/

/-! ## The nearest point -/

namespace Nanokernel.Nearest

/-- No point of the sequence is nearer to `x`. -/
def IsNearest (f : ℕ → ℤ) (x : ℤ) (k : ℕ) : Prop := ∀ j, |f k - x| ≤ |f j - x|

/-- Of two points, the lower one is as near up to their midpoint. -/
theorem abs_sub_le_iff {a b : ℤ} (h : a < b) (x : ℤ) : |a - x| ≤ |b - x| ↔ 2 * x ≤ a + b := by
  rcases abs_cases (a - x) with ⟨ha, _⟩ | ⟨ha, _⟩ <;>
    rcases abs_cases (b - x) with ⟨hb, _⟩ | ⟨hb, _⟩ <;> rw [ha, hb] <;> omega

theorem abs_sub_le_iff' {a b : ℤ} (h : a < b) (x : ℤ) :
    |b - x| ≤ |a - x| ↔ a + b ≤ 2 * x := by
  rcases abs_cases (a - x) with ⟨ha, _⟩ | ⟨ha, _⟩ <;>
    rcases abs_cases (b - x) with ⟨hb, _⟩ | ⟨hb, _⟩ <;> rw [ha, hb] <;> omega

variable {f : ℕ → ℤ}

theorem nearest_zero_iff (hstep : ∀ k, f k < f (k + 1)) (x : ℤ) :
    IsNearest f x 0 ↔ 2 * x ≤ f 0 + f 1 := by
  have hf := strictMono_nat_of_lt_succ hstep
  rw [← abs_sub_le_iff (hf Nat.one_pos) x]
  constructor
  · intro h
    exact h 1
  · intro h j
    rcases Nat.eq_zero_or_pos j with rfl | hj
    · exact le_refl _
    · have hle : f 1 ≤ f j := hf.monotone hj
      rw [abs_sub_le_iff (hf Nat.one_pos)] at h
      rw [abs_sub_le_iff (hf hj)]
      omega

theorem nearest_succ_iff (hstep : ∀ k, f k < f (k + 1)) (x : ℤ) (k : ℕ) :
    IsNearest f x (k + 1) ↔
      f k + f (k + 1) ≤ 2 * x ∧ 2 * x ≤ f (k + 1) + f (k + 2) := by
  have hf := strictMono_nat_of_lt_succ hstep
  have hlow := hstep k
  have hhigh := hstep (k + 1)
  constructor
  · intro h
    exact ⟨(abs_sub_le_iff' hlow x).mp (h k), (abs_sub_le_iff hhigh x).mp (h (k + 2))⟩
  · rintro ⟨hmid, hmid'⟩ j
    rcases Nat.lt_trichotomy j (k + 1) with hj | rfl | hj
    · have hle : f j ≤ f k := hf.monotone (Nat.le_of_lt_succ hj)
      rw [abs_sub_le_iff' (hf hj)]
      omega
    · exact le_refl _
    · have hle : f (k + 2) ≤ f j := hf.monotone hj
      rw [abs_sub_le_iff (hf hj)]
      omega

end Nanokernel.Nearest

/-! ## Years of a four-year cycle

Years are numbered from one that is two before a leap year, and seconds from its start. Every
fourth year is leap, so a cycle of 1461 days repeats, and each second from the start on belongs
to one year.
-/

namespace Nanokernel.LeapCycle

/-- The first second of year `n`, after `365 n` days and the leap days before. -/
def yearStart (n : ℕ) : ℤ := 86400 * (365 * n + (n + 1) / 4)

def daysIn (n : ℕ) : ℕ := if n % 4 = 2 then 366 else 365

def InYear (n : ℕ) (s : ℤ) : Prop := yearStart n ≤ s ∧ s < yearStart (n + 1)

instance (n : ℕ) (s : ℤ) : Decidable (InYear n s) := inferInstanceAs (Decidable (_ ∧ _))

variable {m n : ℕ} {s : ℤ}

theorem yearStart_succ (n : ℕ) : yearStart (n + 1) = yearStart n + 86400 * daysIn n := by
  unfold yearStart daysIn
  by_cases hleap : n % 4 = 2
  · rw [if_pos hleap]
    omega
  · rw [if_neg hleap]
    omega

theorem yearStart_lt_iff : yearStart m < yearStart n ↔ m < n := by
  unfold yearStart
  omega

theorem yearStart_le_iff : yearStart m ≤ yearStart n ↔ m ≤ n := by
  rw [← not_lt, yearStart_lt_iff, not_lt]

theorem yearStart_inj : yearStart m = yearStart n ↔ m = n := by
  rw [le_antisymm_iff, yearStart_le_iff, yearStart_le_iff, ← le_antisymm_iff]

theorem yearStart_nonneg (n : ℕ) : 0 ≤ yearStart n := by
  unfold yearStart
  omega

/-- Years do not overlap. -/
theorem InYear.unique (hm : InYear m s) (hn : InYear n s) : m = n := by
  have hle : m < n + 1 := yearStart_lt_iff.mp (lt_of_le_of_lt hm.1 hn.2)
  have hge : n < m + 1 := yearStart_lt_iff.mp (lt_of_le_of_lt hn.1 hm.2)
  omega

/-- The years of a cycle, one after the other. -/
theorem inYear_cycle (q : ℕ) {r : ℤ} (hr : 0 ≤ r ∧ r < 126230400) :
    InYear (4 * q + if r < 31536000 then 0 else if r < 63072000 then 1
      else if r < 94694400 then 2 else 3) (126230400 * q + r) := by
  unfold InYear yearStart
  split_ifs <;> push_cast <;> omega

end Nanokernel.LeapCycle
