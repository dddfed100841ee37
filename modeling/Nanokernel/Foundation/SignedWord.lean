import Mathlib.Data.BitVec
import Mathlib.Algebra.Order.Group.Unbundled.Abs
import Mathlib.Tactic.Positivity

/-!
# Signed machine words as integers

A signed word of `w` bits holds the integers in `[-2^(w-1), 2^(w-1))`. An
operation on words is exact when its integer result is in that range
(`bmod_of_fits`), and is the balanced residue otherwise.
The truncating shift at the end is the division by a power of two that rounds
toward zero on both signs.
-/

namespace Nanokernel.SignedWord

/-- The integers a signed word of `w` bits represents. -/
def Fits (w : ℕ) (x : ℤ) : Prop := -2 ^ (w - 1) ≤ x ∧ x < 2 ^ (w - 1)

instance (w : ℕ) (x : ℤ) : Decidable (Fits w x) :=
  inferInstanceAs (Decidable (_ ∧ _))

theorem fits_toInt {w : ℕ} (x : BitVec w) : Fits w x.toInt :=
  ⟨BitVec.le_toInt x, BitVec.toInt_lt⟩

theorem Fits.between {w : ℕ} {x y z : ℤ} (hx : Fits w x) (hz : Fits w z) (hxy : x ≤ y)
    (hyz : y ≤ z) : Fits w y :=
  ⟨hx.1.trans hxy, hyz.trans_lt hz.2⟩

theorem fits_64 {x : ℤ} : Fits 64 x ↔ -2 ^ 63 ≤ x ∧ x < 2 ^ 63 := Iff.rfl

/-- The balanced residue of a representable integer is the integer. -/
theorem bmod_of_fits {w : ℕ} (hw : 0 < w) {x : ℤ} (h : Fits w x) :
    x.bmod (2 ^ w) = x := by
  have hpow : (2 : ℤ) ^ w = 2 * 2 ^ (w - 1) := by
    rw [← pow_succ', Nat.sub_add_cancel hw]
  apply Int.bmod_eq_of_le_mul_two
  · push_cast
    have := h.1
    omega
  · push_cast
    have := h.2
    omega

/-- A sum one turn too high comes back one turn lower. -/
theorem bmod_of_fits_sub {w : ℕ} (hw : 0 < w) {x : ℤ} (h : Fits w (x - 2 ^ w)) :
    x.bmod (2 ^ w) = x - 2 ^ w := by
  have hcast : ((2 ^ w : ℕ) : ℤ) = 2 ^ w := by norm_cast
  rw [← bmod_of_fits hw h, ← hcast, Int.sub_bmod_right]

/-- A sum one turn too low comes back one turn higher. -/
theorem bmod_of_fits_add {w : ℕ} (hw : 0 < w) {x : ℤ} (h : Fits w (x + 2 ^ w)) :
    x.bmod (2 ^ w) = x + 2 ^ w := by
  have hcast : ((2 ^ w : ℕ) : ℤ) = 2 ^ w := by norm_cast
  rw [← bmod_of_fits hw h, ← hcast, Int.add_bmod_right]

theorem fits_bmod (w : ℕ) (x : ℤ) : Fits w (x.bmod (2 ^ w)) := by
  rw [← BitVec.toInt_ofInt]
  exact fits_toInt _

/-- Wrapping does not make an integer larger. -/
theorem abs_bmod_le {w : ℕ} (hw : 0 < w) (x : ℤ) : |x.bmod (2 ^ w)| ≤ |x| := by
  by_cases h : Fits w x
  · rw [bmod_of_fits hw h]
  · obtain ⟨hlo, hhi⟩ := fits_bmod w x
    have habs : |x.bmod (2 ^ w)| ≤ 2 ^ (w - 1) := abs_le.mpr ⟨hlo, hhi.le⟩
    refine habs.trans ?_
    rcases not_and_or.mp h with hlow | hhigh
    · exact le_abs.mpr (Or.inr (by omega))
    · exact le_abs.mpr (Or.inl (not_lt.mp hhigh))

/-- An integer that does not fit comes back a turn or more away. -/
theorem le_abs_sub_bmod {w : ℕ} {x : ℤ} (h : ¬ Fits w x) :
    2 ^ w ≤ |x - x.bmod (2 ^ w)| := by
  have hne : x - x.bmod (2 ^ w) ≠ 0 := by
    intro heq
    apply h
    rw [sub_eq_zero.mp heq]
    exact fits_bmod w x
  have hdvd : ((2 ^ w : ℕ) : ℤ) ∣ x - x.bmod (2 ^ w) := Int.dvd_self_sub_bmod
  have hle := Int.le_of_dvd (abs_pos.mpr hne) ((dvd_abs _ _).mpr hdvd)
  push_cast at hle
  exact hle

/-- A sum that a word does not hold comes back below its first summand. -/
theorem le_bmod_add_iff {w : ℕ} (hw : 0 < w) {x n : ℤ} (hx : Fits w x) (h0 : 0 ≤ n)
    (hn : n < 2 ^ w) : x ≤ (x + n).bmod (2 ^ w) ↔ Fits w (x + n) := by
  have hpow : (2 : ℤ) ^ w = 2 * 2 ^ (w - 1) := by
    rw [← pow_succ', Nat.sub_add_cancel hw]
  obtain ⟨hlo, hhi⟩ := hx
  constructor
  · intro hle
    by_contra hout
    have hover : 2 ^ (w - 1) ≤ x + n := by
      by_contra hlt
      exact hout ⟨by omega, by omega⟩
    rw [bmod_of_fits_sub hw ⟨by omega, by omega⟩] at hle
    omega
  · intro hfits
    rw [bmod_of_fits hw hfits]
    omega

/-- Dividends that are two divisors apart have different quotients. -/
theorem tdiv_ne_of_two_mul_le {x y d : ℤ} (hd : 0 < d) (h : 2 * d ≤ |x - y|) :
    x.tdiv d ≠ y.tdiv d := by
  intro heq
  have hx := Int.mul_tdiv_add_tmod x d
  have hy := Int.mul_tdiv_add_tmod y d
  have hxhi := Int.tmod_lt_of_pos x hd
  have hxlo := Int.lt_tmod_of_pos x hd
  have hyhi := Int.tmod_lt_of_pos y hd
  have hylo := Int.lt_tmod_of_pos y hd
  rw [heq] at hx
  -- only the remainders differ
  have hlt : |x - y| < 2 * d := abs_lt.mpr ⟨by omega, by omega⟩
  omega

/-! ## The truncating shift -/

variable {w : ℕ}

/-- Shift the magnitude and put the sign back. -/
def truncShift (v : BitVec w) (n : ℕ) : BitVec w :=
  if v.slt 0 then -((-v).sshiftRight n) else v.sshiftRight n

theorem slt_zero_iff {v : BitVec w} : v.slt 0 = true ↔ v.toInt < 0 := by
  rw [BitVec.slt_iff_toInt_lt, BitVec.ofNat_eq_ofNat, BitVec.toInt_zero]

theorem tdiv_of_neg {x : ℤ} (h : x < 0) (n : ℕ) :
    x.tdiv (2 ^ n) = -((-x) / 2 ^ n) := by
  rw [← Int.tdiv_eq_ediv_of_nonneg (by omega), Int.neg_tdiv, neg_neg]

/-- The truncated quotient is the floor, and one more below zero with a remainder. -/
theorem tdiv_eq_ediv_add (x : ℤ) (n : ℕ) :
    x.tdiv (2 ^ n) = x / 2 ^ n + if 0 ≤ x ∨ 2 ^ n ∣ x then 0 else 1 := by
  rw [Int.tdiv_eq_ediv, Int.sign_eq_one_of_pos (by positivity)]

/-- A quotient by at least `c`, from a dividend that is not negative. -/
theorem tdiv_mul_le {x c d : ℤ} (hx : 0 ≤ x) (hc : 0 < c) (hd : c ≤ d) :
    0 ≤ x.tdiv d ∧ x.tdiv d * c ≤ x := by
  have hq : 0 ≤ x / d := Int.ediv_nonneg hx (by omega)
  rw [Int.tdiv_eq_ediv_of_nonneg hx]
  refine ⟨hq, ?_⟩
  calc x / d * c ≤ x / d * d := mul_le_mul_of_nonneg_left hd hq
    _ ≤ x := Int.ediv_mul_le _ (by omega)

/-- The same from a dividend that is not positive. -/
theorem le_tdiv_mul {x c d : ℤ} (hx : x ≤ 0) (hc : 0 < c) (hd : c ≤ d) :
    x.tdiv d ≤ 0 ∧ x ≤ x.tdiv d * c := by
  obtain ⟨hq, hle⟩ := tdiv_mul_le (x := -x) (by omega) hc hd
  rw [Int.neg_tdiv] at hq hle
  rw [neg_mul] at hle
  omega

/-- A shift by at least `m` leaves at most the `2^m`-th part. -/
theorem abs_tdiv_mul_le (x : ℤ) {m n : ℕ} (h : m ≤ n) :
    |x.tdiv (2 ^ n)| * 2 ^ m ≤ |x| := by
  have hm : (0 : ℤ) < 2 ^ m := by positivity
  have hpow : (2 : ℤ) ^ m ≤ 2 ^ n := pow_le_pow_right₀ (by decide) h
  rcases le_total 0 x with hx | hx
  · obtain ⟨hq, hle⟩ := tdiv_mul_le hx hm hpow
    rw [abs_of_nonneg hq, abs_of_nonneg hx]
    exact hle
  · obtain ⟨hq, hle⟩ := le_tdiv_mul hx hm hpow
    rw [abs_of_nonpos hq, abs_of_nonpos hx, neg_mul]
    omega

/-- The shift by `n` divides by `2^n` and rounds toward zero. Only the least
word has no magnitude to shift. -/
theorem toInt_truncShift (hw : 0 < w) {v : BitVec w}
    (hv : -2 ^ (w - 1) < v.toInt) (n : ℕ) :
    (truncShift v n).toInt = v.toInt.tdiv (2 ^ n) := by
  have hfit := fits_toInt v
  unfold truncShift
  by_cases h : v.slt 0 = true
  · rw [if_pos h]
    have hneg := slt_zero_iff.mp h
    have hmag : (-v).toInt = -v.toInt := by
      rw [BitVec.toInt_neg, bmod_of_fits hw ⟨by have := hfit.2; omega, by omega⟩]
    have hshift : ((-v).sshiftRight n).toInt = (-v.toInt) / 2 ^ n := by
      rw [BitVec.toInt_sshiftRight, hmag, Int.shiftRight_eq_div_pow]
      norm_cast
    have hle : (-v.toInt) / 2 ^ n ≤ -v.toInt :=
      Int.ediv_le_self _ (by omega)
    have h0 : 0 ≤ (-v.toInt) / 2 ^ n := Int.ediv_nonneg (by omega) (by positivity)
    rw [BitVec.toInt_neg, hshift, bmod_of_fits hw ⟨by omega, by omega⟩,
      tdiv_of_neg hneg]
  · rw [if_neg h]
    have hnn : 0 ≤ v.toInt := by
      have := mt slt_zero_iff.mpr h
      omega
    rw [BitVec.toInt_sshiftRight, Int.shiftRight_eq_div_pow,
      Int.tdiv_eq_ediv_of_nonneg hnn]
    norm_cast

/-- The least word keeps its magnitude and loses its sign. -/
theorem toInt_truncShift_min {v : BitVec w} (hv : v.toInt = -2 ^ (w - 1)) {n : ℕ} (hn : 1 ≤ n)
    (hnw : n < w) : (truncShift v n).toInt = (2 ^ (w - 1) : ℤ).tdiv (2 ^ n) := by
  have hmin : v = BitVec.intMin w :=
    BitVec.eq_of_toInt_eq (hv.trans (BitVec.toInt_intMin_of_pos (by omega)).symm)
  have hpos : (0 : ℤ) < 2 ^ n := by positivity
  have hpow : (2 : ℤ) ^ (w - 1) = 2 ^ (w - 1 - n) * 2 ^ n := by
    rw [← pow_add, Nat.sub_add_cancel (by omega)]
  have hshift : (v.sshiftRight n).toInt = -2 ^ (w - 1 - n) := by
    rw [BitVec.toInt_sshiftRight, Int.shiftRight_eq_div_pow, hv, hpow, ← neg_mul]
    push_cast
    exact Int.mul_ediv_cancel _ hpos.ne'
  have hlt : (2 : ℤ) ^ (w - 1 - n) < 2 ^ (w - 1) := pow_lt_pow_right₀ (by decide) (by omega)
  have hnonneg : (0 : ℤ) < 2 ^ (w - 1 - n) := by positivity
  unfold truncShift
  rw [if_pos (slt_zero_iff.mpr (by omega)), hmin, BitVec.neg_intMin, ← hmin, BitVec.toInt_neg,
    hshift, neg_neg, bmod_of_fits (by omega) ⟨by omega, hlt⟩, hpow, Int.mul_tdiv_cancel _ hpos.ne']

/-- The shift divides an integer that was stored in a word exactly when the integer, or
its negative, fits. -/
theorem toInt_truncShift_ofInt_iff {n : ℕ} (hn : 1 ≤ n) (hnw : n < w) (x : ℤ) :
    (truncShift (BitVec.ofInt w x) n).toInt = x.tdiv (2 ^ n) ↔
      -2 ^ (w - 1) < x ∧ x ≤ 2 ^ (w - 1) := by
  have hhalf : (2 : ℤ) ^ w = 2 * 2 ^ (w - 1) := by rw [← pow_succ', Nat.sub_add_cancel (by omega)]
  have hle : (2 : ℤ) * 2 ^ n ≤ 2 ^ w := by
    rw [← pow_succ']
    exact pow_le_pow_right₀ (by decide) hnw
  -- what the word stands for, the least one for its magnitude
  obtain ⟨y, hy, hdvd, hylo, hyhi⟩ : ∃ y : ℤ,
      (truncShift (BitVec.ofInt w x) n).toInt = y.tdiv (2 ^ n) ∧ (2 : ℤ) ^ w ∣ x - y ∧
        -2 ^ (w - 1) < y ∧ y ≤ 2 ^ (w - 1) := by
    have hself : ((2 ^ w : ℕ) : ℤ) ∣ x - x.bmod (2 ^ w) := Int.dvd_self_sub_bmod
    push_cast at hself
    obtain ⟨hlo, hhi⟩ := fits_bmod w x
    have hword := BitVec.toInt_ofInt (n := w) x
    by_cases hmin : x.bmod (2 ^ w) = -2 ^ (w - 1)
    · refine ⟨2 ^ (w - 1), toInt_truncShift_min (hword.trans hmin) hn hnw, ?_, by omega, le_refl _⟩
      rw [hmin] at hself
      have hturn := dvd_sub_self_right.mpr hself
      rwa [show x - -2 ^ (w - 1) - 2 ^ w = x - 2 ^ (w - 1) by omega] at hturn
    · have hgt : -2 ^ (w - 1) < x.bmod (2 ^ w) := lt_of_le_of_ne hlo (Ne.symm hmin)
      refine ⟨x.bmod (2 ^ w), ?_, hself, hgt, hhi.le⟩
      rw [toInt_truncShift (by omega) (by rw [hword]; exact hgt), hword]
  rw [hy]
  constructor
  · intro heq
    by_contra hout
    have hne : x - y ≠ 0 := by
      intro h
      exact hout (by omega)
    have hfar := Int.le_of_dvd (abs_pos.mpr hne) ((dvd_abs _ _).mpr hdvd)
    exact tdiv_ne_of_two_mul_le (by positivity) (hle.trans hfar) heq.symm
  · rintro ⟨hlo, hhi⟩
    have hsame : x - y = 0 := Int.eq_zero_of_abs_lt_dvd hdvd (abs_lt.mpr ⟨by omega, by omega⟩)
    rw [sub_eq_zero.mp hsame]

end Nanokernel.SignedWord
