import Nanokernel.Arithmetic.LFpLaws
import Nanokernel.Foundation.DoubleWord

/-!
# The two-word macros compute the 64-bit ones

`toLFp64` puts the two words of an `LFp32` together. Every macro but `L_GINT`
commutes with it; `L_GINT` takes the floor in two words and rounds toward zero
in one, so it agrees exactly on values that are not negative or have no
fraction (`lGint_agree_iff`).
-/

namespace Nanokernel.LFp32

open DoubleWord SignedWord

/-- The 64-bit quantity the two words stand for. -/
def toLFp64 (v : LFp32) : LFp64 := v.li ++ v.luf

/-! ## The macros one by one -/

theorem toLFp64_mAdd (r a : LFp32) :
    (mAdd r a).toLFp64 = r.toLFp64 + a.toLFp64 := by
  obtain ⟨hlo, hcarry⟩ := addHalves_words (x := r.luf) (y := a.luf)
    (toNat_and_half a.luf) (toNat_ushiftRight_and_half a.luf)
  exact append_add_append hlo hcarry rfl

theorem toLFp64_mNeg (v : LFp32) : (mNeg v).toLFp64 = -v.toLFp64 := by
  unfold toLFp64 mNeg
  rw [neg_append]
  split
  · rename_i h
    show -v.li ++ v.luf = -v.li ++ (0 : BitVec 32)
    rw [h]
  · rfl

theorem toLFp64_mSub (r a : LFp32) :
    (mSub r a).toLFp64 = r.toLFp64 - a.toLFp64 := by
  rw [BitVec.sub_eq_add_neg, ← toLFp64_mNeg]
  unfold mSub mNeg
  by_cases h : a.luf = 0
  · rw [if_pos h, if_pos h]
    have hlt := r.luf.isLt
    refine @append_add_append _ _ _ _ _ _ false ?_ ?_ ?_
    · rw [h]
      exact (Nat.mod_eq_of_lt hlt).symm
    · rw [h]
      exact (decide_eq_false (Nat.not_le.mpr hlt)).symm
    · rw [if_neg Bool.false_ne_true, BitVec.sub_eq_add_neg]
  · rw [if_neg h, if_neg h]
    obtain ⟨hlo, hcarry⟩ := addHalves_words (x := r.luf) (y := -a.luf)
      (toNat_and_half (-a.luf)) (toNat_sshiftRight_half (-a.luf))
    exact append_add_append hlo hcarry rfl

theorem toLFp64_mRshiftMagnitude {v : LFp32} {n : ℕ} (h0 : 1 ≤ n)
    (h : n < 32 ∨ v.li.msb = false) :
    (mRshiftMagnitude v n).toLFp64 = v.toLFp64.sshiftRight n := by
  unfold mRshiftMagnitude toLFp64
  by_cases hn : n < 32
  · rw [if_pos hn, append_sshiftRight_lt v.li v.luf h0 hn]
  · rw [if_neg hn, append_sshiftRight_ge v.luf (by omega) (h.resolve_left hn)]

theorem slt_zero (v : LFp32) : v.li.slt 0 = v.toLFp64.slt 0 :=
  (slt_zero_append v.li v.luf).symm

theorem msb_li (v : LFp32) : v.li.msb = v.toLFp64.msb := by
  unfold toLFp64
  rw [BitVec.msb_append]
  rfl

/-- Only the least value, which has no magnitude, shifts differently. -/
theorem toLFp64_mRshift {v : LFp32} {n : ℕ} (hv : -2 ^ 63 < v.toLFp64.toInt)
    (h0 : 1 ≤ n) : (mRshift v n).toLFp64 = truncShift v.toLFp64 n := by
  unfold mRshift truncShift
  rw [slt_zero]
  by_cases h : v.toLFp64.slt 0 = true
  · have hneg := slt_zero_iff.mp h
    have hmag : (mNeg v).li.msb = false := by
      rw [msb_li, toLFp64_mNeg, BitVec.msb_eq_toInt, BitVec.toInt_neg,
        bmod_of_fits (by decide) ⟨by omega, by omega⟩]
      exact decide_eq_false (by omega)
    rw [if_pos h, if_pos h, toLFp64_mNeg,
      toLFp64_mRshiftMagnitude h0 (Or.inr hmag), toLFp64_mNeg]
  · have hnn := mt slt_zero_iff.mpr h
    have hmag : v.li.msb = false := by
      rw [msb_li, BitVec.msb_eq_toInt]
      exact decide_eq_false hnn
    rw [if_neg h, if_neg h, toLFp64_mRshiftMagnitude h0 (Or.inr hmag)]

/-- The columns are the product but for what their carries lose. -/
theorem toNat_mMpyMagnitude (v : LFp32) {k : ℕ} (hk : k < 2 ^ 32) :
    ((mMpyMagnitude v k).toLFp64.toNat + lostCarries v.luf.toNat k) % 2 ^ 64
      = v.toLFp64.toNat * k % 2 ^ 64 := by
  have hi := v.li.isLt
  have hm : (BitVec.ofInt 32 (k : ℤ)).toNat = k := by
    rw [BitVec.ofInt_natCast, BitVec.toNat_ofNat, Nat.mod_eq_of_lt hk]
  unfold mMpyMagnitude toLFp64
  dsimp only
  rw [toNat_append, toNat_append]
  -- four columns of half words, each with the carry of the one below it
  set d := (v.luf &&& 0xffff#32) * BitVec.ofInt 32 (k : ℤ) with hd
  set c := v.luf >>> 16 * BitVec.ofInt 32 (k : ℤ) + d >>> 16 with hc
  set b := (v.li &&& 0xffff#32) * BitVec.ofInt 32 (k : ℤ) + c >>> 16 with hb
  set a := v.li.sshiftRight 16 * BitVec.ofInt 32 (k : ℤ) + b >>> 16 with ha
  have hdn : d.toNat = v.luf.toNat % 2 ^ 16 * k % 2 ^ 32 := by
    rw [hd, BitVec.toNat_mul, toNat_and_half, hm]
  have hcn : c.toNat = (v.luf.toNat / 2 ^ 16 * k + d.toNat / 2 ^ 16) % 2 ^ 32 := by
    rw [hc, BitVec.toNat_add, BitVec.toNat_mul, toNat_ushiftRight_half,
      toNat_ushiftRight_half, hm, Nat.mod_add_mod]
  have hbn : b.toNat = (v.li.toNat % 2 ^ 16 * k + c.toNat / 2 ^ 16) % 2 ^ 32 := by
    rw [hb, BitVec.toNat_add, BitVec.toNat_mul, toNat_and_half,
      toNat_ushiftRight_half, hm, Nat.mod_add_mod]
  have han : a.toNat % 2 ^ 16
      = (v.li.toNat / 2 ^ 16 * k + b.toNat / 2 ^ 16) % 2 ^ 16 := by
    have hs := toNat_sshiftRight_half v.li
    rw [toNat_and_half] at hs
    rw [ha, BitVec.toNat_add, BitVec.toNat_mul, toNat_ushiftRight_half, hm]
    have hhigh : (v.li.sshiftRight 16).toNat ≡ v.li.toNat / 2 ^ 16 [MOD 2 ^ 16] := by
      unfold Nat.ModEq
      omega
    have hmul := hhigh.mul_right k
    unfold Nat.ModEq at hmul
    omega
  have hsum : ∀ x y : BitVec 32,
      (x <<< 16 + (y &&& 0xffff#32)).toNat
        = x.toNat % 2 ^ 16 * 2 ^ 16 + y.toNat % 2 ^ 16 := by
    intro x y
    rw [BitVec.toNat_add, BitVec.toNat_shiftLeft, toNat_and_half,
      Nat.shiftLeft_eq]
    omega
  exact mul_columns hdn hcn hbn han (hsum a b) (hsum c d)

/-- The carries of the two lower columns of a product have room in 32 bits. -/
def ColumnsFit (f : ℕ) (m : ℤ) : Prop :=
  (f % 2 ^ 16 : ℕ) * m < 2 ^ 32 ∧ (f % 2 ^ 32 : ℕ) * m < 2 ^ 48

instance (f : ℕ) (m : ℤ) : Decidable (ColumnsFit f m) := inferInstanceAs (Decidable (_ ∧ _))

theorem toLFp64_mMpyMagnitude_iff {v : LFp32} {m : ℤ} (h0 : 0 ≤ m) (hm : m < 2 ^ 32) :
    (mMpyMagnitude v m).toLFp64 = v.toLFp64 * BitVec.ofInt 64 m ↔
      ColumnsFit v.luf.toNat m := by
  obtain ⟨k, rfl⟩ := Int.eq_ofNat_of_zero_le h0
  have hk : k < 2 ^ 32 := by omega
  have hlost := lostCarries_lt v.luf.isLt hk
  have hsum := toNat_mMpyMagnitude v hk
  have hlt := (mMpyMagnitude v k).toLFp64.isLt
  have hword : (BitVec.ofInt 64 (k : ℤ)).toNat = k := by
    rw [BitVec.ofInt_natCast, BitVec.toNat_ofNat]
    omega
  have hfit : ColumnsFit v.luf.toNat k ↔ lostCarries v.luf.toNat k = 0 := by
    unfold ColumnsFit
    rw [lostCarries_eq_zero_iff, Nat.mod_eq_of_lt v.luf.isLt, ← Int.natCast_mul,
      ← Int.natCast_mul]
    omega
  rw [hfit, ← BitVec.toNat_inj, BitVec.toNat_mul, hword]
  omega

theorem columnsFit_congr {f f' : ℕ} (h : f % 2 ^ 32 = f' % 2 ^ 32) (m : ℤ) :
    ColumnsFit f m ↔ ColumnsFit f' m := by
  have hlow : f % 2 ^ 16 = f' % 2 ^ 16 := by omega
  unfold ColumnsFit
  rw [h, hlow]

theorem toNat_luf (v : LFp32) : v.luf.toNat = v.toLFp64.toNat % 2 ^ 32 := by
  have hlt := v.luf.isLt
  unfold toLFp64
  rw [toNat_append]
  omega

/-- A negative value is multiplied by way of its magnitude. -/
theorem toLFp64_mMpy_iff {v : LFp32} {m : ℤ} (h0 : 0 ≤ m) (hm : m < 2 ^ 32) :
    (mMpy v m).toLFp64 = v.toLFp64 * BitVec.ofInt 64 m ↔
      ColumnsFit v.toLFp64.toInt.natAbs m := by
  have hint := v.toLFp64.toInt_eq_toNat_cond
  have hlt := v.toLFp64.isLt
  unfold mMpy
  rw [slt_zero]
  by_cases h : v.toLFp64.slt 0 = true
  · have hneg := slt_zero_iff.mp h
    have habs : (mNeg v).luf.toNat % 2 ^ 32 = v.toLFp64.toInt.natAbs % 2 ^ 32 := by
      rw [toNat_luf, toLFp64_mNeg, BitVec.toNat_neg]
      split_ifs at hint <;> omega
    rw [if_pos h, toLFp64_mNeg, neg_eq_iff_eq_neg, ← BitVec.neg_mul, ← toLFp64_mNeg,
      toLFp64_mMpyMagnitude_iff h0 hm, columnsFit_congr habs]
  · have hnn := mt slt_zero_iff.mpr h
    have habs : v.luf.toNat % 2 ^ 32 = v.toLFp64.toInt.natAbs % 2 ^ 32 := by
      rw [toNat_luf]
      split_ifs at hint <;> omega
    rw [if_neg h, toLFp64_mMpyMagnitude_iff h0 hm, columnsFit_congr habs]

/-- A multiplier of half a word leaves room in every column. -/
theorem columnsFit_of_lt (f : ℕ) {m : ℤ} (hm : m ≤ 2 ^ 16) : ColumnsFit f m := by
  have hlow : f % 2 ^ 16 < 2 ^ 16 := Nat.mod_lt _ (by decide)
  have hword : f % 2 ^ 32 < 2 ^ 32 := Nat.mod_lt _ (by decide)
  constructor
  · have hle : ((f % 2 ^ 16 : ℕ) : ℤ) * m ≤ (f % 2 ^ 16 : ℕ) * 2 ^ 16 :=
      mul_le_mul_of_nonneg_left hm (Int.natCast_nonneg _)
    omega
  · have hle : ((f % 2 ^ 32 : ℕ) : ℤ) * m ≤ (f % 2 ^ 32 : ℕ) * 2 ^ 16 :=
      mul_le_mul_of_nonneg_left hm (Int.natCast_nonneg _)
    omega

theorem toLFp64_word (a : ℤ) :
    toLFp64 ⟨BitVec.ofInt 32 a, 0⟩ = BitVec.ofInt 64 a <<< 32 := by
  apply BitVec.eq_of_toNat_eq
  unfold toLFp64
  rw [toNat_append, BitVec.toNat_shiftLeft, BitVec.toNat_ofInt,
    BitVec.toNat_ofInt, Nat.shiftLeft_eq]
  simp only [BitVec.ofNat_eq_ofNat, BitVec.toNat_ofNat]
  omega

/-! ## The integral part -/

/-- `i * 2^32 + f`. -/
def value (v : LFp32) : ℤ := v.li.toInt * 2 ^ 32 + v.luf.toNat

theorem toInt_toLFp64 (v : LFp32) :
    v.toLFp64.toInt = v.li.toInt * 2 ^ 32 + v.luf.toNat := by
  unfold toLFp64
  rw [BitVec.toInt_append, if_neg (by decide)]
  omega

/-- The macros add, subtract and negate values modulo `2^64`, and a shift of any value that
has a magnitude rounds toward zero, as it does in one word. -/
theorem macros_agree (r a : LFp32) :
    (mAdd r a).value = (r.value + a.value).bmod (2 ^ 64) ∧
    (mSub r a).value = (r.value - a.value).bmod (2 ^ 64) ∧
    (mNeg r).value = (-r.value).bmod (2 ^ 64) ∧
    ∀ n : ℕ, r.value ≠ -2 ^ 63 → 1 ≤ n → n ≤ 63 →
      (mRshift r n).value = r.value.tdiv (2 ^ n) ∧
        (lRshift r.toLFp64 n).toInt = r.value.tdiv (2 ^ n) := by
  have hvalue : ∀ v : LFp32, v.value = v.toLFp64.toInt := fun v => (toInt_toLFp64 v).symm
  simp only [hvalue]
  refine ⟨?_, ?_, ?_, fun n hmin h0 _ => ?_⟩
  · rw [toLFp64_mAdd, BitVec.toInt_add]
  · rw [toLFp64_mSub, BitVec.toInt_sub]
  · rw [toLFp64_mNeg, BitVec.toInt_neg]
  · have hv : -2 ^ 63 < r.toLFp64.toInt :=
      lt_of_le_of_ne (fits_toInt r.toLFp64).1 (Ne.symm hmin)
    rw [toLFp64_mRshift hv h0, LFp64.lRshift_eq, toInt_truncShift (by decide) hv]
    exact ⟨rfl, rfl⟩

/-- A negative value, a carry, and a shift across the words. -/
theorem macros_agree_negative :
    (mAdd ⟨-3, 0xffffffff⟩ ⟨1, 1⟩).value = ((-8589934593) + 4294967297 : ℤ).bmod (2 ^ 64) ∧
    (mRshift ⟨-3, 0xffffffff⟩ 33).value = (-8589934593 : ℤ).tdiv (2 ^ 33) :=
  ⟨(macros_agree ⟨-3, 0xffffffff⟩ ⟨1, 1⟩).1,
    ((macros_agree ⟨-3, 0xffffffff⟩ ⟨1, 1⟩).2.2.2 33 (by decide) (by decide) (by decide)).1⟩

theorem lGint_eq_ediv (v : LFp32) :
    Nanokernel.lGint v = v.toLFp64.toInt / 2 ^ 32 := by
  have := v.luf.isLt
  rw [toInt_toLFp64]
  show v.li.toInt = _
  omega

/-- The two integral parts agree exactly on values that are not negative or
have no fraction. -/
theorem lGint_agree_iff {v : LFp32} (hv : -2 ^ 63 < v.toLFp64.toInt) :
    Nanokernel.lGint v = Nanokernel.lGint v.toLFp64 ↔
      0 ≤ v.toLFp64.toInt ∨ v.toLFp64.toInt % 2 ^ 32 = 0 := by
  rw [lGint_eq_ediv, LFp64.lGint_eq_tdiv hv, tdiv_eq_ediv_add]
  omega

end Nanokernel.LFp32

namespace Nanokernel

open LFp32 in
instance : LawfulLFp LFp32 where
  val v := v.toLFp64.toInt
  val_fits v := SignedWord.fits_toInt v.toLFp64
  val_lAdd v u := by
    show (mAdd v u).toLFp64.toInt = _
    rw [toLFp64_mAdd, BitVec.toInt_add]
  val_lSub v u := by
    show (mSub v u).toLFp64.toInt = _
    rw [toLFp64_mSub, BitVec.toInt_sub]
  val_lAddhi v a := by
    show (mAdd v _).toLFp64.toInt = _
    rw [toLFp64_mAdd, toLFp64_word]
    exact val_lAddhi v.toLFp64 a
  val_lLint a := by
    show (toLFp64 ⟨BitVec.ofInt 32 a, 0⟩).toInt = _
    rw [toLFp64_word]
    exact val_lLint (F := LFp64) a
  val_lClr := rfl
  val_lRshift v n hv h0 _ := by
    show (mRshift v n).toLFp64.toInt = _
    rw [toLFp64_mRshift hv h0, SignedWord.toInt_truncShift (by decide) hv]
  lGint_nonneg v _ := lGint_eq_ediv v
  lGint_near v _ := by
    rw [lGint_eq_ediv]
    omega
  lGint_whole v _ _ := lGint_eq_ediv v
  lGint_min v h := by
    rw [lGint_eq_ediv, h]
    exact Or.inr (by decide)

end Nanokernel
