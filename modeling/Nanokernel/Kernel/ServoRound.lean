import Nanokernel.Foundation.Discount
import Nanokernel.Kernel.Servo

/-!
# From one update to the next

How far the servo falls behind a reference that gains `period` at every tick. The seconds
between two updates need not have the same number of ticks, as the clock speeds up and slows
down on the way; but they differ by a twentieth at most (`ticks_of_second`), and that bounds
what the clock makes up for in a round (`First`, `Later`).
-/

namespace Nanokernel

open Decay

namespace Servo

/-- A tick, or the frequency of a second, of a clock that is right. -/
def nominal : ℤ := nanosecond * 2 ^ 32

/-- A second that is less than a 39th part too long or too short. -/
def Narrow (adj : ℤ) : Prop := 39 * |adj - nominal| ≤ nominal

instance (adj : ℤ) : Decidable (Narrow adj) := inferInstanceAs (Decidable (_ ≤ _))

theorem Narrow.bounds {adj : ℤ} (h : Narrow adj) :
    38 * nominal ≤ 39 * adj ∧ 39 * adj ≤ 40 * nominal := by
  unfold Narrow at h
  have hle := neg_abs_le (adj - nominal)
  have hge := le_abs_self (adj - nominal)
  unfold nominal nanosecond at *
  omega

/-- How far the clock is behind. -/
def lag (hz now : ℤ) (s : Servo) : ℤ := now - (s.sec * second hz + s.position)

/-- A tick of the reference and one of the clock. -/
theorem lag_tick (hz tc now period : ℤ) (s : Servo) :
    (s.tick hz tc).lag hz (now + period) = s.lag hz now + (period - s.adj) := by
  unfold tick lag
  split_ifs
  · dsimp only
    ring
  · dsimp only
    ring

/-- What an update leaves behind: the lag it found, what it stored, and the second that was
running. -/
structure Update where
  lag : ℤ
  offset : ℤ
  freq : ℤ
  adj : ℤ
deriving DecidableEq, Repr

namespace Update

variable (u : Update) (tc : ℤ)

/-- What is left of the offset after `i` seconds. -/
def left (i : ℕ) : ℤ := (rest (poll tc))^[i] u.offset

/-- What the second after them pays. -/
def share (i : ℕ) : ℤ := u.left tc i - u.left tc (i + 1)

/-- How long it is. -/
def length (i : ℕ) : ℤ := nominal + u.freq + u.share tc i

/-- No second of the round is too long or too short. -/
structure Mild : Prop where
  first : Narrow u.adj
  later : ∀ i, Narrow (u.length tc i)

variable {u tc}

theorem left_succ (i : ℕ) : u.left tc (i + 1) = rest (poll tc) (u.left tc i) :=
  Function.iterate_succ_apply' _ _ _

theorem share_eq (i : ℕ) : u.share tc i = (u.left tc i).tdiv (poll tc) := by
  unfold share
  rw [left_succ]
  exact sub_sub_cancel _ _

theorem abs_share (i : ℕ) : |u.share tc i| = |u.left tc i| - |u.left tc (i + 1)| := by
  unfold share
  rw [left_succ]
  exact abs_sub_rest (one_le_two_pow _) _

theorem abs_left_le (u : Update) (tc : ℤ) (i : ℕ) : |u.left tc i| ≤ |u.offset| := by
  induction i with
  | zero => exact le_rfl
  | succ i ih =>
    rw [left_succ]
    exact (abs_rest_le (one_le_two_pow _) _).trans ih

theorem poll_mul_abs_share_le (u : Update) (tc : ℤ) (i : ℕ) :
    poll tc * |u.share tc i| ≤ |u.left tc i| := by
  rw [share_eq, mul_comm]
  exact SignedWord.abs_tdiv_mul_le _ le_rfl

end Update

variable {hz tc period : ℤ} {u : Update} {s : Servo} {lag : ℤ}

/-! ### Ticks in a second -/

theorem second_eq (hz : ℤ) : second hz = hz * nominal := by
  unfold second nominal
  ring

/-- The ticks of a second, as far as it has come. -/
theorem ticks_le (hhz : 50 ≤ hz) {part adj position : ℤ} (hadj : Narrow adj) (h0 : 0 ≤ part)
    (hpart : part * adj ≤ position) (hbefore : position < second hz) :
    20 * (part + 1) ≤ 21 * hz := by
  have hmul := mul_le_mul_of_nonneg_left hadj.bounds.1 h0
  rw [second_eq] at hbefore
  unfold nominal nanosecond at hmul hbefore
  have hshort : 38 * part < 39 * hz := by linarith
  omega

/-- A second that ends has `hz` ticks, up to a twentieth. -/
theorem ticks_of_second (hhz : 50 ≤ hz) {part adj position : ℤ} (hadj : Narrow adj)
    (h0 : 0 ≤ part) (hpart : part * adj ≤ position)
    (hover : 39 * (position - part * adj) < 40 * nominal) (hbefore : position < second hz)
    (hends : second hz ≤ position + adj) : 20 * |part + 1 - hz| ≤ hz := by
  have hhigh := ticks_le hhz hadj h0 hpart hbefore
  have hmul := mul_le_mul_of_nonneg_left hadj.bounds.2 (by omega : 0 ≤ part + 1)
  rw [second_eq] at hends
  unfold nominal nanosecond at hmul hover hends
  have hlong : 39 * hz < 40 * (part + 2) := by linarith
  rcases abs_cases (part + 1 - hz) with ⟨heq, -⟩ | ⟨heq, -⟩ <;> omega

/-! ### The round -/

/-- The rest of the second the update came in: `early` ticks of it are over. -/
structure First (hz period : ℤ) (u : Update) (s : Servo) (lag early : ℤ) : Prop where
  sec : s.sec = s.reftime
  offset : s.offset = u.offset
  freq : s.freq = u.freq
  adj : s.adj = u.adj
  early_nonneg : 0 ≤ early
  position : early * u.adj ≤ s.position
  before : s.position < second hz
  lag_eq : lag = u.lag + early * (period - u.adj)

/-- After `i` more seconds of `full` ticks in all, and `part` ticks into the next. What these
seconds paid is `hz` times the loss of the offset, up to `slack`. -/
structure Later (hz tc period : ℤ) (u : Update) (s : Servo) (lag : ℤ) (i : ℕ)
    (early full part slack : ℤ) : Prop where
  sec : s.sec = s.reftime + (i + 1)
  offset : s.offset = u.left tc (i + 1)
  freq : s.freq = u.freq
  adj : s.adj = u.length tc i
  early_nonneg : 0 ≤ early
  early_le : 20 * early ≤ 21 * hz
  full_near : 20 * |full - hz * i| ≤ hz * i
  part_nonneg : 0 ≤ part
  position : part * s.adj ≤ s.position
  overshoot : 39 * (s.position - part * s.adj) < 40 * nominal
  before : s.position < second hz
  slack_le : 20 * |slack| ≤ hz * (|u.offset| - |u.left tc i|)
  lag_eq : lag = u.lag + early * (period - u.adj) + (full + part) * (period - nominal - u.freq)
    - (hz * (u.offset - u.left tc i) + slack + part * u.share tc i)

theorem position_tick (tc : ℤ) (hhz : 50 ≤ hz) (hadj : Narrow s.adj)
    (hbefore : s.position < second hz) (hends : second hz ≤ s.position + s.adj) :
    0 ≤ (s.tick hz tc).position ∧ 39 * (s.tick hz tc).position < 40 * nominal ∧
      (s.tick hz tc).position < second hz := by
  have hbounds := hadj.bounds
  have hsecond := second_eq hz
  unfold tick
  rw [if_neg (not_lt.mpr hends)]
  unfold nominal nanosecond at *
  dsimp only
  omega

theorem First.tick (hhz : 50 ≤ hz) (hu : u.Mild tc) {early : ℤ}
    (h : First hz period u s lag early) :
    First hz period u (s.tick hz tc) (lag + (period - s.adj)) (early + 1) ∨
      Later hz tc period u (s.tick hz tc) (lag + (period - s.adj)) 0 (early + 1) 0 0 0 := by
  have hadj : Narrow s.adj := by
    rw [h.adj]
    exact hu.first
  rcases lt_or_ge (s.position + s.adj) (second hz) with hlt | hends
  · refine Or.inl ?_
    unfold Servo.tick
    rw [if_pos hlt]
    refine ⟨h.sec, h.offset, h.freq, h.adj, by linarith [h.early_nonneg], ?_, hlt, ?_⟩
    · have hposition := h.position
      rw [← h.adj] at hposition ⊢
      dsimp only
      linarith
    · rw [h.lag_eq, h.adj]
      ring
  · refine Or.inr ?_
    obtain ⟨h0, hover, hbefore⟩ := position_tick tc hhz hadj h.before hends
    have hearly : 20 * (early + 1) ≤ 21 * hz := by
      have hposition := h.position
      rw [← h.adj] at hposition
      exact ticks_le hhz hadj h.early_nonneg hposition h.before
    unfold Servo.tick at *
    rw [if_neg (not_lt.mpr hends)] at *
    refine ⟨?_, ?_, h.freq, ?_, by linarith [h.early_nonneg], hearly, ?_, le_rfl, ?_, ?_,
      hbefore, ?_, ?_⟩
    · rw [h.sec]
      simp
    · rw [h.offset]
      rfl
    · rw [h.offset, h.freq]
      unfold Update.length
      rw [Update.share_eq]
      show u.offset.tdiv (poll tc) + u.freq + nominal = _ + (u.offset.tdiv (poll tc))
      ring
    · simp
    · rw [zero_mul]
      exact h0
    · rw [zero_mul, sub_zero]
      exact hover
    · simp [Update.left]
    · rw [h.lag_eq, h.adj]
      simp only [Update.left, Function.iterate_zero, id_eq]
      ring

theorem Later.tick (hhz : 50 ≤ hz) (hu : u.Mild tc) {i : ℕ} {early full part slack : ℤ}
    (h : Later hz tc period u s lag i early full part slack) :
    Later hz tc period u (s.tick hz tc) (lag + (period - s.adj)) i early full (part + 1) slack ∨
      Later hz tc period u (s.tick hz tc) (lag + (period - s.adj)) (i + 1) early
        (full + (part + 1)) 0 (slack + (part + 1 - hz) * u.share tc i) := by
  have hadj : Narrow s.adj := by
    rw [h.adj]
    exact hu.later i
  rcases lt_or_ge (s.position + s.adj) (second hz) with hlt | hends
  · refine Or.inl ?_
    unfold Servo.tick
    rw [if_pos hlt]
    refine ⟨h.sec, h.offset, h.freq, h.adj, h.early_nonneg, h.early_le, h.full_near,
      by linarith [h.part_nonneg], ?_, ?_, hlt, h.slack_le, ?_⟩
    · dsimp only
      linarith [h.position]
    · dsimp only
      linarith [h.overshoot]
    · rw [h.lag_eq, h.adj]
      unfold Update.length
      ring
  · refine Or.inr ?_
    obtain ⟨h0, hover, hbefore⟩ := position_tick tc hhz hadj h.before hends
    have hticks := ticks_of_second hhz hadj h.part_nonneg h.position h.overshoot h.before hends
    unfold Servo.tick at *
    rw [if_neg (not_lt.mpr hends)] at *
    refine ⟨?_, ?_, h.freq, ?_, h.early_nonneg, h.early_le, ?_, le_rfl, ?_, ?_, hbefore, ?_, ?_⟩
    · dsimp only
      rw [h.sec]
      push_cast
      ring
    · show rest (poll tc) s.offset = _
      rw [h.offset, ← Update.left_succ]
    · show s.offset.tdiv (poll tc) + s.freq + nanosecond * 2 ^ 32 = _
      rw [h.offset, h.freq]
      unfold Update.length nominal
      rw [Update.share_eq]
      ring
    · -- a second more, and as many ticks
      have hsplit : full + (part + 1) - hz * ((i + 1 : ℕ) : ℤ)
          = (full - hz * i) + (part + 1 - hz) := by
        push_cast
        ring
      have hfull := h.full_near
      have hsum := abs_add_le (full - hz * i) (part + 1 - hz)
      rw [hsplit]
      push_cast
      linarith
    · rw [zero_mul]
      exact h0
    · rw [zero_mul, sub_zero]
      exact hover
    · have hsum := abs_add_le slack ((part + 1 - hz) * u.share tc i)
      have hslack := h.slack_le
      have hmul := mul_le_mul_of_nonneg_right hticks (abs_nonneg (u.share tc i))
      rw [abs_mul] at hsum
      rw [Update.abs_share] at hmul hsum
      linarith
    · rw [h.lag_eq, h.adj]
      unfold Update.length Update.share
      ring

/-! ### What is not paid yet -/

/-- The offset never changes its side. -/
theorem Update.exists_side (u : Update) (tc : ℤ) :
    ∃ σ : ℤ, (σ = 1 ∨ σ = -1) ∧ ∀ i, σ * u.left tc i = |u.left tc i| := by
  rcases le_total 0 u.offset with h0 | h0
  · refine ⟨1, Or.inl rfl, fun i => ?_⟩
    have hside : 0 ≤ u.left tc i := by
      induction i with
      | zero => exact h0
      | succ i ih =>
        rw [left_succ]
        exact rest_nonneg (one_le_two_pow _) ih
    rw [one_mul, abs_of_nonneg hside]
  · refine ⟨-1, Or.inr rfl, fun i => ?_⟩
    have hside : u.left tc i ≤ 0 := by
      induction i with
      | zero => exact h0
      | succ i ih =>
        rw [left_succ]
        exact rest_nonpos (one_le_two_pow _) ih
    rw [neg_one_mul, abs_of_nonpos hside]

/-- What the seconds so far have left of the offset, counted in ticks. -/
def Update.unpaid (u : Update) (hz tc : ℤ) (i : ℕ) (part slack : ℤ) : ℤ :=
  hz * u.left tc i - slack - part * u.share tc i

theorem Later.part_le (hhz : 50 ≤ hz) (hu : u.Mild tc) {i : ℕ} {early full part slack : ℤ}
    (h : Later hz tc period u s lag i early full part slack) : 20 * part ≤ 21 * hz := by
  have hadj : Narrow s.adj := by
    rw [h.adj]
    exact hu.later i
  have hticks := ticks_le hhz hadj h.part_nonneg h.position h.before
  omega

theorem Later.position_nonneg (hu : u.Mild tc) {i : ℕ} {early full part slack : ℤ}
    (h : Later hz tc period u s lag i early full part slack) : 0 ≤ s.position := by
  have hadj := (hu.later i).bounds.1
  rw [← h.adj] at hadj
  unfold nominal nanosecond at hadj
  exact (mul_nonneg h.part_nonneg (by omega)).trans h.position

/-- On the side of the offset, it is between what the next second leaves and what the last
one left, give or take a twentieth of what was paid. -/
theorem Later.unpaid_bounds (hhz : 50 ≤ hz) (hu : u.Mild tc) {i : ℕ}
    {early full part slack : ℤ} (h : Later hz tc period u s lag i early full part slack) :
    ∃ σ : ℤ, (σ = 1 ∨ σ = -1) ∧ σ * u.offset = |u.offset| ∧
      hz * (21 * |u.left tc (i + 1)| - |u.offset|) ≤ 20 * (σ * u.unpaid hz tc i part slack) ∧
      20 * (σ * u.unpaid hz tc i part slack) ≤ hz * (|u.offset| + 19 * |u.left tc i|) := by
  obtain ⟨σ, hσ, hside⟩ := u.exists_side tc
  have hshare : σ * u.share tc i = |u.left tc i| - |u.left tc (i + 1)| := by
    unfold Update.share
    rw [mul_sub, hside, hside]
  have hloss : |u.left tc (i + 1)| ≤ |u.left tc i| := by
    rw [Update.left_succ]
    exact abs_rest_le (one_le_two_pow _) _
  have hslack : |σ * slack| = |slack| := by
    rcases hσ with rfl | rfl
    · rw [one_mul]
    · rw [neg_one_mul, abs_neg]
  have hslack' := abs_le.mp (le_of_eq hslack)
  have hle := h.slack_le
  have hpaid : σ * u.unpaid hz tc i part slack
      = hz * |u.left tc i| - σ * slack - part * (|u.left tc i| - |u.left tc (i + 1)|) := by
    unfold Update.unpaid
    rw [← hshare, ← hside i]
    ring
  have hpart := mul_le_mul_of_nonneg_right (h.part_le hhz hu) (sub_nonneg.mpr hloss)
  have hpart' := mul_nonneg h.part_nonneg (sub_nonneg.mpr hloss)
  refine ⟨σ, hσ, hside 0, ?_, ?_⟩
  · rw [hpaid]
    linarith [hslack'.2]
  · rw [hpaid]
    linarith [hslack'.1]

end Servo

end Nanokernel
