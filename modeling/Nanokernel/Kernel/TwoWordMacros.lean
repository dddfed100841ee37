import Nanokernel.Kernel.PllIntegrator

/-!
# The macros of the two builds

`l_fp.h` promises that the macros hide the word size. The product is where they may not:
`M_MPY` adds up 16-bit columns in words of 32 bits, and the multiplier of `hardupdate` is an
interval in seconds. Where that has more than 16 bits, the two lower columns may lose a carry.
-/

namespace Nanokernel

open SignedWord

/-! ## The macros -/

namespace LFp32

@[simp] theorem toLFp64_lAdd (v u : LFp32) :
    (lAdd v u).toLFp64 = lAdd v.toLFp64 u.toLFp64 := toLFp64_mAdd v u

@[simp] theorem toLFp64_lSub (v u : LFp32) :
    (lSub v u).toLFp64 = lSub v.toLFp64 u.toLFp64 := toLFp64_mSub v u

@[simp] theorem toLFp64_lLint (a : ℤ) : (lLint a : LFp32).toLFp64 = lLint a :=
  toLFp64_word a

@[simp] theorem toLFp64_lAddhi (v : LFp32) (a : ℤ) :
    (lAddhi v a).toLFp64 = lAddhi v.toLFp64 a := by
  show (mAdd v ⟨BitVec.ofInt 32 a, 0⟩).toLFp64 = v.toLFp64 + BitVec.ofInt 64 a <<< 32
  rw [toLFp64_mAdd, toLFp64_word]

theorem toLFp64_lRshift {v : LFp32} {n : ℕ} (hv : -2 ^ 63 < val v) (h0 : 1 ≤ n) :
    (lRshift v n).toLFp64 = lRshift v.toLFp64 n := by
  rw [LFp64.lRshift_eq]
  exact toLFp64_mRshift hv h0

theorem toLFp64_lMpy_iff {v : LFp32} {m : ℤ} (h0 : 0 ≤ m) (hm : m < 2 ^ 31) :
    (lMpy v m).toLFp64 = lMpy v.toLFp64 m ↔ ColumnsFit v.toLFp64.toInt.natAbs m :=
  toLFp64_mMpy_iff h0 (by omega)

theorem lGint_toLFp64_of_nonneg {v : LFp32} (h : 0 ≤ val v) :
    lGint v.toLFp64 = lGint v := by
  have hmin : -2 ^ 63 < val v := by omega
  exact ((lGint_agree_iff hmin).mpr (Or.inl h)).symm

end LFp32

/-! ## The product -/

open LFp32

/-- The two words hold the product of the values, as one word does. -/
def MpyExact (v : LFp32) (m : ℤ) : Prop :=
  (mMpy v m).value = v.value * m ∧ (lMpy v.toLFp64 m).toInt = v.value * m

instance (v : LFp32) (m : ℤ) : Decidable (MpyExact v m) := inferInstanceAs (Decidable (_ ∧ _))

/-- For every value, and every multiplier that is not negative and whose product has 64
bits: the product is exact if and only if the lower columns lose no carry. -/
theorem mpyExact_iff (v : LFp32) (m : ℤ) (h0 : 0 ≤ m) (hm : m < 2 ^ 31)
    (hfits : Fits 64 (v.value * m)) : MpyExact v m ↔ ColumnsFit v.value.natAbs m := by
  have hvalue : ∀ u : LFp32, u.value = u.toLFp64.toInt := fun u => (toInt_toLFp64 u).symm
  have hword : (lMpy v.toLFp64 m).toInt = v.value * m := by
    rw [LFp64.val_lMpy, ← hvalue, bmod_of_fits (by decide) hfits]
  have hsame : (mMpy v m).value = v.value * m ↔
      (mMpy v m).toLFp64 = v.toLFp64 * BitVec.ofInt 64 m := by
    rw [hvalue, ← hword]
    exact BitVec.toInt_inj
  unfold MpyExact
  rw [and_iff_left hword, hsame, toLFp64_mMpy_iff h0 (by omega), hvalue]

/-- A day and a half, and a value with no bits in the low half. -/
theorem mpyExact_iff_days :
    MpyExact ⟨-1, 0xffe00000⟩ 131072 ↔ ColumnsFit (⟨-1, 0xffe00000⟩ : LFp32).value.natAbs 131072 :=
  mpyExact_iff ⟨-1, 0xffe00000⟩ 131072 (by decide) (by decide) ⟨by decide, by decide⟩

/-- The same interval, and a value of 16 bits. -/
theorem not_mpyExact : ¬ ∀ (v : LFp32) (m : ℤ), |v.value| ≤ maxphase * 2 ^ 20 → 0 ≤ m →
    m < 2 ^ 31 → Fits 64 (v.value * m) → MpyExact v m := by
  intro h
  have hexact := h ⟨0, 65535⟩ 131072 (by decide) (by decide) (by decide)
    ⟨by decide, by decide⟩
  exact absurd hexact.1 (by decide)

end Nanokernel
