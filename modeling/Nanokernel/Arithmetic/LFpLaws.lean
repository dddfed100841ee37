import Nanokernel.Arithmetic.LFp
import Nanokernel.Foundation.SignedWord

/-!
# What the fixed-point macros compute

`LawfulLFp` reads a fixed-point variable as an integer count of `2^-32` units
and says what each macro does to it. Every macro is the wrapped integer
operation, and the shift rounds toward zero. The integral part is exact for a
value that is not negative; below zero the two macro sets round it to
different sides, and the laws only keep what both promise.
-/

namespace Nanokernel

open SignedWord

class LawfulLFp (F : Type) [LFp F] where
  /-- The value in units of `2^-32`. -/
  val : F → ℤ
  val_fits : ∀ v, Fits 64 (val v)
  val_lAdd : ∀ v u, val (lAdd v u) = (val v + val u).bmod (2 ^ 64)
  val_lSub : ∀ v u, val (lSub v u) = (val v - val u).bmod (2 ^ 64)
  val_lAddhi : ∀ v a, val (lAddhi v a) = (val v + a * 2 ^ 32).bmod (2 ^ 64)
  val_lLint : ∀ a, val (lLint a : F) = (a * 2 ^ 32).bmod (2 ^ 64)
  val_lClr : val (lClr : F) = 0
  val_lRshift : ∀ v n, -2 ^ 63 < val v → 1 ≤ n → n < 64 →
    val (lRshift v n) = (val v).tdiv (2 ^ n)
  lGint_nonneg : ∀ v, 0 ≤ val v → lGint v = val v / 2 ^ 32
  /-- The integral part is less than one unit off, on either side. -/
  lGint_near : ∀ v, -2 ^ 63 < val v →
    (lGint v - 1) * 2 ^ 32 < val v ∧ val v < (lGint v + 1) * 2 ^ 32
  /-- A whole value is its own integral part. -/
  lGint_whole : ∀ v, -2 ^ 63 < val v → val v % 2 ^ 32 = 0 →
    lGint v = val v / 2 ^ 32
  /-- The least value has an integral part out of every clamp's range. -/
  lGint_min : ∀ v, val v = -2 ^ 63 → lGint v = 2 ^ 31 ∨ lGint v = -2 ^ 31

export LawfulLFp (val val_fits val_lAdd val_lSub val_lAddhi val_lLint val_lClr
  val_lRshift lGint_nonneg lGint_near lGint_whole lGint_min)

attribute [simp] LawfulLFp.val_lClr

/-! ## Exact operations -/

section Exact

variable {F : Type} [LFp F] [LawfulLFp F]

theorem val_lAdd_of_fits {v u : F} (h : Fits 64 (val v + val u)) :
    val (lAdd v u) = val v + val u := by
  rw [val_lAdd, bmod_of_fits (by decide) h]

theorem val_lSub_of_fits {v u : F} (h : Fits 64 (val v - val u)) :
    val (lSub v u) = val v - val u := by
  rw [val_lSub, bmod_of_fits (by decide) h]

theorem val_lAddhi_of_fits {v : F} {a : ℤ} (h : Fits 64 (val v + a * 2 ^ 32)) :
    val (lAddhi v a) = val v + a * 2 ^ 32 := by
  rw [val_lAddhi, bmod_of_fits (by decide) h]

theorem val_lLint_of_fits {a : ℤ} (h : Fits 32 a) :
    val (lLint a : F) = a * 2 ^ 32 := by
  obtain ⟨hlo, hhi⟩ := h
  rw [val_lLint, bmod_of_fits (by decide) ⟨by omega, by omega⟩]

/-- Loading an integral part and reading it back. -/
theorem lGint_lLint {a : ℤ} (h : Fits 32 a) (hmin : a ≠ -2 ^ 31) :
    lGint (lLint a : F) = a := by
  have hval : val (lLint a : F) = a * 2 ^ 32 := val_lLint_of_fits h
  have h1 := h.1
  rw [lGint_whole _ (by omega) (by omega), hval]
  omega

/-- A bound on the integral part bounds the value by one unit more. -/
theorem val_lt_of_lGint_le {v : F} {m : ℤ} (hm : m < 2 ^ 31)
    (h : lGint v ≤ m) (h' : -m ≤ lGint v) :
    -((m + 1) * 2 ^ 32) < val v ∧ val v < (m + 1) * 2 ^ 32 := by
  have hfit := val_fits v
  by_cases hmin : val v = -2 ^ 63
  · rcases lGint_min v hmin with hg | hg <;> omega
  · have hnear := lGint_near v (lt_of_le_of_ne hfit.1 (Ne.symm hmin))
    omega

/-- A bound on the value by a whole number bounds the integral part. -/
theorem lGint_le_of_val_le {v : F} {m : ℤ} (hm : m < 2 ^ 31)
    (h : val v ≤ m * 2 ^ 32) (h' : -(m * 2 ^ 32) ≤ val v) :
    -m ≤ lGint v ∧ lGint v ≤ m := by
  have hnear := lGint_near v (by omega)
  omega

end Exact

/-! ## The 64-bit macros -/

namespace LFp64

theorem lRshift_eq (v : LFp64) (n : ℕ) :
    (Nanokernel.lRshift v n : LFp64) = truncShift v n := rfl

theorem toInt_shiftLeft_half (a : ℤ) :
    (BitVec.ofInt 64 a <<< 32 : BitVec 64).toInt = (a * 2 ^ 32).bmod (2 ^ 64) := by
  rw [← BitVec.toInt_ofInt, ← BitVec.mul_twoPow_eq_shiftLeft,
    BitVec.ofInt_mul]
  rfl

theorem lGint_eq (v : LFp64) : Nanokernel.lGint v = (truncShift v 32).toInt := by
  show LFp64.lGint v = _
  unfold LFp64.lGint truncShift
  split <;> rfl

theorem lGint_eq_tdiv {v : LFp64} (h : -2 ^ 63 < v.toInt) :
    Nanokernel.lGint v = v.toInt.tdiv (2 ^ 32) := by
  rw [lGint_eq, toInt_truncShift (by decide) h]

/-- The magnitude of the least value wraps, and its integral part with it. -/
theorem lGint_intMin {v : LFp64} (h : v.toInt = -2 ^ 63) :
    Nanokernel.lGint v = 2 ^ 31 := by
  have hv : v = BitVec.intMin 64 := BitVec.eq_of_toInt_eq (h.trans rfl)
  subst hv
  decide

theorem val_lMpy (v : LFp64) (m : ℤ) :
    (lMpy v m : LFp64).toInt = (v.toInt * m).bmod (2 ^ 64) := by
  show (v * BitVec.ofInt 64 m).toInt = _
  rw [BitVec.toInt_mul, BitVec.toInt_ofInt, Int.mul_bmod_bmod]

end LFp64

instance : LawfulLFp LFp64 where
  val := BitVec.toInt
  val_fits := fits_toInt
  val_lAdd v u := BitVec.toInt_add v u
  val_lSub v u := BitVec.toInt_sub
  val_lAddhi v a := by
    show (v + BitVec.ofInt 64 a <<< 32).toInt = _
    rw [BitVec.toInt_add, LFp64.toInt_shiftLeft_half, Int.add_bmod_bmod]
  val_lLint := LFp64.toInt_shiftLeft_half
  val_lClr := rfl
  val_lRshift v n hv _ _ := toInt_truncShift (by decide) hv n
  lGint_nonneg v h := by
    rw [LFp64.lGint_eq_tdiv (by omega), Int.tdiv_eq_ediv_of_nonneg h]
  lGint_near v h := by
    rw [LFp64.lGint_eq_tdiv h, tdiv_eq_ediv_add]
    omega
  lGint_whole v h hw := by
    rw [LFp64.lGint_eq_tdiv h, tdiv_eq_ediv_add]
    omega
  lGint_min v h := Or.inl (LFp64.lGint_intMin h)

end Nanokernel
