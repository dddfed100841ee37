import Mathlib.Data.BitVec
import Mathlib.Tactic.Ring

/-!
# A 64-bit word as two 32-bit words

Multiple-precision arithmetic keeps a double word as a high and a low word and
carries between 16-bit halves of the low one. Each lemma here reads one such
manipulation as arithmetic on the double word `hi ++ lo`.
-/

namespace Nanokernel.DoubleWord

/-! ## Halves of a word -/

theorem toNat_append (hi lo : BitVec 32) :
    (hi ++ lo : BitVec 64).toNat = hi.toNat * 2 ^ 32 + lo.toNat := by
  rw [BitVec.toNat_append, ← Nat.shiftLeft_add_eq_or_of_lt lo.isLt,
    Nat.shiftLeft_eq]

theorem toNat_and_half (x : BitVec 32) :
    (x &&& 0xffff#32).toNat = x.toNat % 2 ^ 16 := by
  rw [BitVec.toNat_and]
  exact Nat.and_two_pow_sub_one_eq_mod x.toNat 16

theorem toNat_ushiftRight_half (x : BitVec 32) :
    (x >>> 16).toNat = x.toNat / 2 ^ 16 := by
  rw [BitVec.toNat_ushiftRight, Nat.shiftRight_eq_div_pow]

theorem toNat_ushiftRight_and_half (x : BitVec 32) :
    (x >>> 16 &&& 0xffff#32).toNat = x.toNat / 2 ^ 16 := by
  have hx := x.isLt
  rw [toNat_and_half, toNat_ushiftRight_half]
  omega

/-- The arithmetic shift differs from the logical one above the low half. -/
theorem toNat_sshiftRight_half (x : BitVec 32) :
    (x.sshiftRight 16 &&& 0xffff#32).toNat = x.toNat / 2 ^ 16 := by
  have hx := x.isLt
  rw [toNat_and_half, BitVec.toNat_sshiftRight]
  split <;> rw [Nat.shiftRight_eq_div_pow] <;> omega

theorem toNat_halves {a b : BitVec 32} (hb : b.toNat < 2 ^ 16) :
    (a <<< 16 ||| b).toNat = a.toNat % 2 ^ 16 * 2 ^ 16 + b.toNat := by
  have hshift : a.toNat <<< 16 % 2 ^ 32 = (a.toNat % 2 ^ 16) <<< 16 := by
    rw [Nat.shiftLeft_eq, Nat.shiftLeft_eq]
    omega
  rw [BitVec.toNat_or, BitVec.toNat_shiftLeft, hshift,
    ← Nat.shiftLeft_add_eq_or_of_lt hb, Nat.shiftLeft_eq]

/-- Bit 16 of a sum of two halves is its carry. -/
theorem and_carry_ne_zero {x : BitVec 32} (h : x.toNat < 2 ^ 17) :
    (x &&& 0x10000#32 != 0) = decide (2 ^ 16 ≤ x.toNat) := by
  have hbit : x.getLsbD 16 = decide (2 ^ 16 ≤ x.toNat) := by
    rw [← BitVec.testBit_toNat, Nat.testBit_eq_decide_div_mod_eq]
    apply decide_eq_decide.mpr
    omega
  have hand : x &&& 0x10000#32
      = if x.getLsbD 16 then BitVec.twoPow 32 16 else 0 :=
    BitVec.and_twoPow x 16
  rw [hand, hbit]
  by_cases hc : 2 ^ 16 ≤ x.toNat <;> simp only [hc] <;> decide

/-! ## Addition with the carry between halves -/

/-- The two half sums `lo` and `hi` put together: the low word of the sum and
its carry. -/
def addHalves (lo hi : BitVec 32) : BitVec 32 × Bool :=
  let hi := if lo &&& 0x10000#32 != 0 then hi + 1 else hi
  ((hi &&& 0xffff#32) <<< 16 ||| (lo &&& 0xffff#32), hi &&& 0x10000#32 != 0)

theorem addHalves_spec {lo hi : BitVec 32} {s : ℕ}
    (hlo : lo.toNat < 2 ^ 17) (hhi : hi.toNat < 2 ^ 17 - 1)
    (hs : s = hi.toNat * 2 ^ 16 + lo.toNat) :
    (addHalves lo hi).1.toNat = s % 2 ^ 32 ∧
      (addHalves lo hi).2 = decide (2 ^ 32 ≤ s) := by
  have hhi' : (if lo &&& 0x10000#32 != 0 then hi + 1 else hi).toNat
      = hi.toNat + lo.toNat / 2 ^ 16 := by
    rw [and_carry_ne_zero hlo]
    split <;> simp at * <;> omega
  have hlow := toNat_and_half lo
  unfold addHalves
  dsimp only
  constructor
  · rw [toNat_halves (by omega), toNat_and_half, hhi', hlow]
    omega
  · rw [and_carry_ne_zero (by omega), hhi']
    apply decide_eq_decide.mpr
    omega

/-- The half sums of two words meet the bounds of `addHalves_spec`. -/
theorem addHalves_words {x y ylo yhi : BitVec 32}
    (hylo : ylo.toNat = y.toNat % 2 ^ 16) (hyhi : yhi.toNat = y.toNat / 2 ^ 16) :
    let sum := addHalves ((x &&& 0xffff#32) + ylo) ((x >>> 16 &&& 0xffff#32) + yhi)
    sum.1.toNat = (x.toNat + y.toNat) % 2 ^ 32 ∧
      sum.2 = decide (2 ^ 32 ≤ x.toNat + y.toNat) := by
  have hx := x.isLt
  have hy := y.isLt
  have hlo : ((x &&& 0xffff#32) + ylo).toNat
      = x.toNat % 2 ^ 16 + y.toNat % 2 ^ 16 := by
    rw [BitVec.toNat_add, toNat_and_half, hylo]
    omega
  have hhi : ((x >>> 16 &&& 0xffff#32) + yhi).toNat
      = x.toNat / 2 ^ 16 + y.toNat / 2 ^ 16 := by
    rw [BitVec.toNat_add, toNat_ushiftRight_and_half, hyhi]
    omega
  exact addHalves_spec (by omega) (by omega) (by omega)

theorem append_add_append {a b c d e f : BitVec 32} {carry : Bool}
    (hlo : f.toNat = (b.toNat + d.toNat) % 2 ^ 32)
    (hcarry : carry = decide (2 ^ 32 ≤ b.toNat + d.toNat))
    (hhi : e = if carry then a + c + 1 else a + c) :
    (e ++ f : BitVec 64) = (a ++ b) + (c ++ d) := by
  have hone : (1 : BitVec 32).toNat = 1 := rfl
  have he : e.toNat = (a.toNat + c.toNat
      + (if 2 ^ 32 ≤ b.toNat + d.toNat then 1 else 0)) % 2 ^ 32 := by
    by_cases h : 2 ^ 32 ≤ b.toNat + d.toNat
    · rw [hhi, hcarry, decide_eq_true h, if_pos rfl, if_pos h,
        BitVec.toNat_add, BitVec.toNat_add, hone]
      omega
    · rw [hhi, hcarry, decide_eq_false h, if_neg Bool.false_ne_true, if_neg h,
        BitVec.toNat_add, Nat.add_zero]
  apply BitVec.eq_of_toNat_eq
  rw [BitVec.toNat_add, toNat_append, toNat_append, toNat_append, he, hlo]
  have := a.isLt
  have := b.isLt
  have := c.isLt
  have := d.isLt
  split <;> omega

/-! ## Negation and shifts -/

theorem neg_append (a b : BitVec 32) :
    -(a ++ b : BitVec 64)
      = if b = 0 then (-a) ++ (0 : BitVec 32) else (~~~a) ++ (-b) := by
  have ha := a.isLt
  have hb := b.isLt
  apply BitVec.eq_of_toNat_eq
  by_cases h : b = 0
  · simp only [h, if_true]
    rw [BitVec.toNat_neg, toNat_append, toNat_append, BitVec.toNat_neg]
    simp only [BitVec.ofNat_eq_ofNat, BitVec.toNat_ofNat]
    omega
  · have hb0 : b.toNat ≠ 0 := fun h0 => h (BitVec.eq_of_toNat_eq h0)
    rw [if_neg h, BitVec.toNat_neg, toNat_append, toNat_append,
      BitVec.toNat_neg, BitVec.toNat_not]
    omega

theorem append_sshiftRight_lt (hi lo : BitVec 32) {n : ℕ} (h0 : 1 ≤ n)
    (hn : n < 32) :
    (hi ++ lo : BitVec 64).sshiftRight n
      = hi.sshiftRight n ++ (lo >>> n ||| hi <<< (32 - n)) := by
  apply BitVec.eq_of_getLsbD_eq
  intro i hi64
  simp only [BitVec.getLsbD_sshiftRight, BitVec.getLsbD_append,
    BitVec.getLsbD_or, BitVec.getLsbD_ushiftRight, BitVec.getLsbD_shiftLeft,
    BitVec.msb_append]
  grind

theorem append_sshiftRight_ge {hi : BitVec 32} (lo : BitVec 32) {n : ℕ}
    (hn : 32 ≤ n) (hpos : hi.msb = false) :
    (hi ++ lo : BitVec 64).sshiftRight n
      = (0 : BitVec 32) ++ hi.sshiftRight (n - 32) := by
  apply BitVec.eq_of_getLsbD_eq
  intro i hi64
  simp only [BitVec.getLsbD_sshiftRight, BitVec.getLsbD_append,
    BitVec.msb_append]
  grind

theorem slt_zero_append (hi lo : BitVec 32) :
    (hi ++ lo : BitVec 64).slt 0 = hi.slt 0 := by
  rw [BitVec.ofNat_eq_ofNat, BitVec.ofNat_eq_ofNat, BitVec.slt_zero_eq_msb,
    BitVec.slt_zero_eq_msb, BitVec.msb_append]
  rfl

/-! ## The product by 16-bit columns -/

/-- What the carries of the two lower columns lose in words of 32 bits. -/
def lostCarries (f m : ℕ) : ℕ :=
  f % 2 ^ 16 * m / 2 ^ 32 * 2 ^ 32
    + (f / 2 ^ 16 * m + f % 2 ^ 16 * m % 2 ^ 32 / 2 ^ 16) / 2 ^ 32 * 2 ^ 48

/-- Four columns of partial products in words, each with the carry of the one below it,
are the product modulo `2^64` but for the lost carries; what the third column loses is
beyond the 64 bits, and the top one is only read modulo `2^16`. -/
theorem mul_columns {i f m d c b a li luf : ℕ}
    (hd : d = f % 2 ^ 16 * m % 2 ^ 32) (hc : c = (f / 2 ^ 16 * m + d / 2 ^ 16) % 2 ^ 32)
    (hb : b = (i % 2 ^ 16 * m + c / 2 ^ 16) % 2 ^ 32)
    (ha : a % 2 ^ 16 = (i / 2 ^ 16 * m + b / 2 ^ 16) % 2 ^ 16)
    (hli : li = a % 2 ^ 16 * 2 ^ 16 + b % 2 ^ 16)
    (hluf : luf = c % 2 ^ 16 * 2 ^ 16 + d % 2 ^ 16) :
    (li * 2 ^ 32 + luf + lostCarries f m) % 2 ^ 64 = (i * 2 ^ 32 + f) * m % 2 ^ 64 := by
  have hsplit : (i * 2 ^ 32 + f) * m
      = i / 2 ^ 16 * m * 2 ^ 48 + i % 2 ^ 16 * m * 2 ^ 32
        + f / 2 ^ 16 * m * 2 ^ 16 + f % 2 ^ 16 * m := by
    have hi' := Nat.div_add_mod i (2 ^ 16)
    have hf' := Nat.div_add_mod f (2 ^ 16)
    calc (i * 2 ^ 32 + f) * m
        = ((2 ^ 16 * (i / 2 ^ 16) + i % 2 ^ 16) * 2 ^ 32
            + (2 ^ 16 * (f / 2 ^ 16) + f % 2 ^ 16)) * m := by rw [hi', hf']
      _ = _ := by ring
  unfold lostCarries
  rw [hsplit]
  generalize i / 2 ^ 16 * m = p₃ at *
  generalize i % 2 ^ 16 * m = p₂ at *
  generalize f / 2 ^ 16 * m = p₁ at *
  generalize f % 2 ^ 16 * m = p₀ at *
  omega

/-- The lost carries are less than a turn of the double word. -/
theorem lostCarries_lt {f m : ℕ} (hf : f < 2 ^ 32) (hm : m < 2 ^ 32) :
    lostCarries f m < 2 ^ 64 := by
  have hlow : f % 2 ^ 16 * m ≤ (2 ^ 16 - 1) * (2 ^ 32 - 1) :=
    Nat.mul_le_mul (by omega) (by omega)
  have hhigh : f / 2 ^ 16 * m ≤ (2 ^ 16 - 1) * (2 ^ 32 - 1) :=
    Nat.mul_le_mul (by omega) (by omega)
  unfold lostCarries
  omega

/-- Nothing is lost as long as the two products have 32 and 48 bits. -/
theorem lostCarries_eq_zero_iff {f m : ℕ} :
    lostCarries f m = 0 ↔ f % 2 ^ 16 * m < 2 ^ 32 ∧ f * m < 2 ^ 48 := by
  have hsplit : f * m = f / 2 ^ 16 * m * 2 ^ 16 + f % 2 ^ 16 * m := by
    have hf' := Nat.div_add_mod f (2 ^ 16)
    calc f * m = (2 ^ 16 * (f / 2 ^ 16) + f % 2 ^ 16) * m := by rw [hf']
      _ = _ := by ring
  unfold lostCarries
  rw [hsplit]
  generalize f / 2 ^ 16 * m = p₁ at *
  generalize f % 2 ^ 16 * m = p₀ at *
  omega

end Nanokernel.DoubleWord
