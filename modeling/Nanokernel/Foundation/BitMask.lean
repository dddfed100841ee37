import Mathlib.Data.BitVec

/-!
# Masked updates of a word of flags

What is read through a mask after flags were set, cleared or merged in from
another word. `Apart m n` compares masks by the flags they share.
-/

namespace Nanokernel.BitMask

variable {w : ℕ}

/-- The masks have no flag in common. -/
def Apart (m n : BitVec w) : Prop := m &&& n = 0

instance (m n : BitVec w) : Decidable (Apart m n) :=
  inferInstanceAs (Decidable (_ = _))

theorem Apart.getLsbD {m n : BitVec w} (h : Apart m n) (i : ℕ) :
    m.getLsbD i = true → n.getLsbD i = false := by
  intro hm
  have hi := congrArg (fun z => z.getLsbD i) h
  simpa [hm] using hi

/-- A part of the other mask is apart too. -/
theorem Apart.of_sub {m n r : BitVec w} (h : Apart m n) (hr : r &&& n = r) :
    Apart m r := by
  unfold Apart at *
  rw [← hr, BitVec.and_comm r, ← BitVec.and_assoc, h]
  exact BitVec.zero_and

theorem Apart.of_or {m n r : BitVec w} (h : Apart m (n ||| r)) :
    Apart m n ∧ Apart m r := by
  unfold Apart at *
  rw [BitVec.and_or_distrib_left] at h
  exact BitVec.or_eq_zero_iff.mp h

/-- What is left of two masks. -/
theorem apart_not_and_not (m n : BitVec w) :
    Apart (~~~m &&& ~~~n) m ∧ Apart (~~~m &&& ~~~n) n := by
  unfold Apart
  constructor
  · rw [BitVec.and_comm (~~~m), BitVec.and_assoc, BitVec.and_comm (~~~m),
      BitVec.and_not_self]
    exact BitVec.and_zero
  · rw [BitVec.and_assoc, BitVec.and_comm (~~~n), BitVec.and_not_self]
    exact BitVec.and_zero

/-- Two words agree under a mask when they agree on each of its flags. -/
theorem and_congr {x y m : BitVec w}
    (h : ∀ i, m.getLsbD i = true → x.getLsbD i = y.getLsbD i) :
    x &&& m = y &&& m := by
  apply BitVec.eq_of_getLsbD_eq
  intro i _
  rw [BitVec.getLsbD_and, BitVec.getLsbD_and]
  cases hm : m.getLsbD i with
  | false => simp
  | true => rw [h i hm]

/-- Words that agree under a mask agree under a part of it. -/
theorem and_eq_of_sub {x y m n : BitVec w} (h : x &&& n = y &&& n) (hm : n &&& m = m) :
    x &&& m = y &&& m := by
  rw [← hm, ← BitVec.and_assoc, h, BitVec.and_assoc]

/-- Clearing flags outside the mask. -/
theorem clear_and {m n : BitVec w} (h : Apart m n) (x : BitVec w) :
    (x &&& ~~~n) &&& m = x &&& m := by
  refine and_congr fun i hm => ?_
  have hn := h.getLsbD i hm
  have hi : i < w := BitVec.lt_of_getLsbD hm
  simp only [BitVec.getLsbD_and, BitVec.getLsbD_not, hn, hi]
  simp

/-- Setting flags outside the mask. -/
theorem set_and {m n : BitVec w} (h : Apart m n) (x : BitVec w) :
    (x ||| n) &&& m = x &&& m := by
  refine and_congr fun i hm => ?_
  have hn := h.getLsbD i hm
  simp [hn]

/-- The same if they were set, or cleared, on a condition. -/
theorem set_if_and {b : Bool} {m n : BitVec w} (h : b = true → Apart m n) (x : BitVec w) :
    (if b then x ||| n else x) &&& m = x &&& m := by
  split_ifs with hb
  · exact set_and (h hb) x
  · rfl

theorem clear_if_and {b : Bool} {m n : BitVec w} (h : b = true → Apart m n) (x : BitVec w) :
    (if b then x &&& ~~~n else x) &&& m = x &&& m := by
  split_ifs with hb
  · exact clear_and (h hb) x
  · rfl

/-- Setting some flags and clearing others, in either order. -/
theorem clear_or_comm {m n : BitVec w} (h : Apart n m) (x : BitVec w) :
    (x ||| n) &&& ~~~m = x &&& ~~~m ||| n := by
  apply BitVec.eq_of_getLsbD_eq
  intro i hi
  simp only [BitVec.getLsbD_and, BitVec.getLsbD_or, BitVec.getLsbD_not, hi, decide_true,
    Bool.true_and]
  cases hn : n.getLsbD i with
  | false => simp
  | true =>
    rw [h.getLsbD i hn]
    simp

/-- Flags that are set in the end may have been cleared before. -/
theorem and_not_or_self (x n : BitVec w) : x &&& ~~~n ||| n = x ||| n := by
  apply BitVec.eq_of_getLsbD_eq
  intro i hi
  simp only [BitVec.getLsbD_and, BitVec.getLsbD_or, BitVec.getLsbD_not, hi, decide_true,
    Bool.true_and]
  cases n.getLsbD i <;> simp

theorem or_or_self (x n : BitVec w) : x ||| n ||| n = x ||| n := by
  rw [BitVec.or_assoc, BitVec.or_self]

theorem or_right_comm (x m n : BitVec w) : x ||| m ||| n = x ||| n ||| m := by
  rw [BitVec.or_assoc, BitVec.or_comm m, ← BitVec.or_assoc]

/-- The flags that were set are all there. -/
theorem or_and_self (x m : BitVec w) : (x ||| m) &&& m = m := by
  apply BitVec.eq_of_getLsbD_eq
  intro i _
  rw [BitVec.getLsbD_and, BitVec.getLsbD_or]
  cases m.getLsbD i <;> simp

/-- The flags that were cleared are all gone. -/
theorem and_not_and_self (x m : BitVec w) : (x &&& ~~~m) &&& m = 0 := by
  rw [BitVec.and_assoc, BitVec.and_comm (~~~m), BitVec.and_not_self]
  exact BitVec.and_zero

/-- Two words differ in none of the flags. -/
theorem xor_and_eq_zero_iff (x y m : BitVec w) :
    (x ^^^ y) &&& m = 0 ↔ x &&& m = y &&& m := by
  have hsplit : (x ^^^ y) &&& m = (x &&& m) ^^^ (y &&& m) := by
    apply BitVec.eq_of_getLsbD_eq
    intro i _
    simp only [BitVec.getLsbD_and, BitVec.getLsbD_xor, Bool.and_xor_distrib_right]
  rw [hsplit]
  exact BitVec.xor_eq_zero_iff

/-- A merge takes the flags outside the kept mask from the second word. -/
theorem merge_and {m r : BitVec w} (h : Apart m r) (x y : BitVec w) :
    (x &&& r ||| y &&& ~~~r) &&& m = y &&& m := by
  refine and_congr fun i hm => ?_
  have hr := h.getLsbD i hm
  have hi : i < w := BitVec.lt_of_getLsbD hm
  simp only [BitVec.getLsbD_and, BitVec.getLsbD_or, BitVec.getLsbD_not, hr, hi]
  simp

/-- And the flags inside it from the first. -/
theorem merge_and_of_sub {m r : BitVec w} (h : m &&& r = m) (x y : BitVec w) :
    (x &&& r ||| y &&& ~~~r) &&& m = x &&& m := by
  refine and_congr fun i hm => ?_
  have hr : r.getLsbD i = true := by
    rw [← h, BitVec.getLsbD_and, Bool.and_eq_true] at hm
    exact hm.2
  have hi : i < w := BitVec.lt_of_getLsbD hm
  simp only [BitVec.getLsbD_and, BitVec.getLsbD_or, BitVec.getLsbD_not, hr, hi]
  simp

end Nanokernel.BitMask
