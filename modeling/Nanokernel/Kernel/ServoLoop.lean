import Nanokernel.Foundation.SecondOrderLoop
import Nanokernel.Kernel.ServoRound
import Mathlib.Algebra.Order.Ring.Rat
import Mathlib.Tactic.NormNum

/-!
# The loop error

A round, from one update to the next, is a turn of a loop of second order
(`Later.exists_turn`): what the seconds did not pay yet of the distance, and what the wrong
frequency adds. Every turn takes the loop error back by a thirtieth (`Later.within`), up to
what the noise of the measurements puts in again.
-/

namespace Nanokernel

open Decay SecondOrderLoop

namespace Servo

/-- What the reference gains on the clock in a poll, at the frequency the clock believes in. -/
def Update.rate (tc period : ℤ) (u : Update) : ℤ := poll tc * (period - nominal - u.freq)

/-- The offset is known up to `noise`, and the loop is off by `bound`: that is how far the rate
is from zero, half of how far the lag is from twice the rate, and a third of what the running
second would gain in a poll. -/
structure Update.Within (hz tc period : ℤ) (noise bound : ℚ) (u : Update) : Prop where
  fresh : |(u.offset : ℚ) - u.lag / hz| ≤ noise
  rate : |(u.rate tc period : ℚ)| ≤ bound
  lead : |(u.lag / hz : ℚ) - 2 * u.rate tc period| ≤ 2 * bound
  pace : |((poll tc * (period - u.adj) : ℤ) : ℚ)| ≤ 3 * bound

/-- What an update leaves behind that came at a lag of `lag`. -/
def update (s : Servo) (lag : ℤ) : Update := ⟨lag, s.offset, s.freq, s.adj⟩

variable {hz tc period : ℤ} {u : Update} {s : Servo} {lag : ℤ} {noise bound : ℚ}

/-! ### One turn of the loop -/

theorem poll_bounds (htc : 0 ≤ tc ∧ tc ≤ 6) :
    16 ≤ poll tc ∧ poll tc ≤ 1024 ∧ ∃ q : ℕ, poll tc = 4 * q ∧ 1 ≤ q := by
  obtain ⟨n, rfl⟩ := Int.eq_ofNat_of_zero_le htc.1
  have hpow : poll n = 2 ^ (4 + n) := by
    unfold poll shiftPll
    congr 1
  have hn : n ≤ 6 := by omega
  have hlow : (2 : ℤ) ^ 4 ≤ 2 ^ (4 + n) := pow_le_pow_right₀ (by decide) (by omega)
  have hhigh : (2 : ℤ) ^ (4 + n) ≤ 2 ^ 10 := pow_le_pow_right₀ (by decide) (by omega)
  rw [hpow]
  refine ⟨hlow, hhigh, 2 ^ (2 + n), ?_, Nat.one_le_two_pow⟩
  push_cast
  ring

theorem exists_poll_eq (htc : 0 ≤ tc) : ∃ q : ℤ, 1 ≤ q ∧ poll tc = 16 * q := by
  obtain ⟨n, rfl⟩ := Int.eq_ofNat_of_zero_le htc
  refine ⟨2 ^ n, one_le_two_pow _, ?_⟩
  have hexp : (shiftPll + (n : ℤ)).toNat = 4 + n := by
    unfold shiftPll
    omega
  unfold poll
  rw [hexp, pow_add]
  rfl

/-- The gain of an update, and what its rounding leaves. -/
theorem exists_pllGain (htc : 0 ≤ tc) (offset : ℤ) :
    ∃ rem : ℤ, offset * 2 ^ 32 = 16 * poll tc ^ 2 * pllGain offset tc + rem ∧
      |rem| ≤ 16 * poll tc ^ 2 := by
  obtain ⟨n, rfl⟩ := Int.eq_ofNat_of_zero_le htc
  have hpow : (2 : ℤ) ^ (2 * (shiftPll + 2 + n)).toNat = 16 * poll n ^ 2 := by
    have hexp : (2 * (shiftPll + 2 + n)).toNat = 4 + 2 * (shiftPll + n).toNat := by
      unfold shiftPll
      omega
    unfold poll
    rw [hexp, pow_add, mul_comm 2, pow_mul]
    norm_num
  have hpos : 0 < 16 * poll n ^ 2 := by
    rw [← hpow]
    positivity
  refine ⟨(offset * 2 ^ 32).tmod (16 * poll n ^ 2), ?_, ?_⟩
  · unfold pllGain
    rw [hpow]
    exact (Int.mul_tdiv_add_tmod _ _).symm
  · have hlt := Int.tmod_lt_of_pos (offset * 2 ^ 32) hpos
    have hlt' := Int.tmod_lt_of_pos (-(offset * 2 ^ 32)) hpos
    rw [Int.neg_tmod] at hlt'
    exact abs_le.mpr ⟨by omega, hlt.le⟩

theorem Update.Within.abs_offset_le (h : u.Within hz tc period noise bound) :
    |(u.offset : ℚ)| ≤ 4 * bound + noise := by
  obtain ⟨hfresh, hrate, hlead, -⟩ := h
  rw [abs_le] at *
  constructor <;> linarith

/-- At the end of a round, a share of the offset is not paid yet. -/
theorem Later.exists_left (hhz : 50 ≤ hz) (htc : 0 ≤ tc ∧ tc ≤ 6) (hu : u.Mild tc) {i : ℕ}
    {early full part slack : ℤ} (h : Later hz tc period u s lag i early full part slack)
    (hlo : 7 * poll tc ≤ 8 * i) (hhi : 4 * ((i : ℤ) + 1) ≤ 5 * poll tc) :
    ∃ r : ℚ, 0 ≤ r ∧ r ≤ 9 / 20 ∧
      |(u.unpaid hz tc i part slack : ℚ) / hz - r * u.offset| ≤ poll tc := by
  obtain ⟨hpoll, -, q, hq, hq1⟩ := poll_bounds htc
  obtain ⟨σ, hσ, hside, hlow, hhigh⟩ := h.unpaid_bounds hhz hu
  have hhz' : (0 : ℚ) < hz := by exact_mod_cast (by omega : (0 : ℤ) < hz)
  have hd : 1 ≤ poll tc := by omega
  have hdiscount := discount_le hd hlo
  have hdiscount' := le_discount (n := i + 1) hq hq1 (by omega)
  have hleft := (abs_iterate_rest_between hd i u.offset).2
  have hleft' := (abs_iterate_rest_between hd (i + 1) u.offset).1
  have hnonneg : (0 : ℚ) ≤ (|u.offset| : ℤ) := by exact_mod_cast abs_nonneg u.offset
  have hmul := mul_le_mul_of_nonneg_right hdiscount hnonneg
  have hmul' := mul_le_mul_of_nonneg_right hdiscount' hnonneg
  have hlowQ : (hz : ℚ) * (21 * (|u.left tc (i + 1)| : ℤ) - (|u.offset| : ℤ))
      ≤ 20 * (σ * u.unpaid hz tc i part slack) := by exact_mod_cast hlow
  have hhighQ : 20 * ((σ : ℚ) * u.unpaid hz tc i part slack)
      ≤ hz * ((|u.offset| : ℤ) + 19 * (|u.left tc i| : ℤ)) := by exact_mod_cast hhigh
  have hpos : (0 : ℚ) ≤ σ * u.unpaid hz tc i part slack / hz := by
    refine div_nonneg ?_ hhz'.le
    have hnn : (0 : ℚ) ≤ hz * (21 * (|u.left tc (i + 1)| : ℤ) - (|u.offset| : ℤ)) := by
      refine mul_nonneg hhz'.le ?_
      unfold Update.left
      linarith
    linarith
  have hle : (σ : ℚ) * u.unpaid hz tc i part slack / hz
      ≤ 9 / 20 * (|u.offset| : ℤ) + poll tc := by
    rw [div_le_iff₀ hhz']
    have hT : (0 : ℚ) ≤ poll tc := by exact_mod_cast (by omega : (0 : ℤ) ≤ poll tc)
    have hsum : ((|u.offset| : ℤ) + 19 * (|u.left tc i| : ℤ) : ℚ)
        ≤ 20 * (9 / 20 * (|u.offset| : ℤ) + poll tc) := by
      unfold Update.left
      linarith
    have hscaled := mul_le_mul_of_nonneg_left hsum hhz'.le
    linarith
  obtain ⟨r, hr0, hr, hnear⟩ := exists_ratio hnonneg hpos hle (by norm_num)
    (by exact_mod_cast (by omega : (0 : ℤ) ≤ poll tc))
  refine ⟨r, hr0, hr, ?_⟩
  have hflip : (σ : ℚ) * u.unpaid hz tc i part slack / hz - r * (|u.offset| : ℤ)
      = σ * (u.unpaid hz tc i part slack / hz - r * u.offset) := by
    rw [← hside]
    push_cast
    ring
  rw [hflip, abs_mul] at hnear
  rcases hσ with rfl | rfl
  · simpa using hnear
  · simpa using hnear

/-- The ticks of a round are at most as many as those of five quarters of a poll, ... -/
theorem Later.drift_le (hhz : 50 ≤ hz) (htc : 0 ≤ tc ∧ tc ≤ 6) (hu : u.Mild tc) {i : ℕ}
    {early full part slack : ℤ} (h : Later hz tc period u s lag i early full part slack)
    (hhi : 4 * ((i : ℤ) + 1) ≤ 5 * poll tc) :
    0 ≤ (full + part : ℚ) / (hz * poll tc) ∧ (full + part : ℚ) / (hz * poll tc) ≤ 21 / 16 := by
  obtain ⟨hpoll, -, -⟩ := poll_bounds htc
  have hpart := h.part_le hhz hu
  have hpart0 := h.part_nonneg
  have hpos : (0 : ℚ) < hz * poll tc := by
    exact_mod_cast mul_pos (by omega : 0 < hz) (by omega : 0 < poll tc)
  have hlong := mul_le_mul_of_nonneg_left hhi (by omega : 0 ≤ hz)
  have hseconds : 0 ≤ hz * i := mul_nonneg (by omega) (by omega)
  have hfull := h.full_near
  have hfull' := neg_abs_le (full - hz * i)
  have hfull'' := le_abs_self (full - hz * i)
  have hlow : 0 ≤ full + part := by linarith
  have hhigh : 16 * (full + part) ≤ 21 * (hz * poll tc) := by linarith
  constructor
  · exact div_nonneg (by exact_mod_cast hlow) hpos.le
  · rw [div_le_iff₀ hpos]
    have hcast : 16 * (full + part : ℚ) ≤ 21 * (hz * poll tc) := by exact_mod_cast hhigh
    linarith

/-- ... and not many less than those of one, if it is nearly that long. -/
theorem Later.le_drift (hhz : 50 ≤ hz) (htc : 0 ≤ tc ∧ tc ≤ 6) {i : ℕ}
    {early full part slack : ℤ} (h : Later hz tc period u s lag i early full part slack)
    (hlo : 15 * poll tc ≤ 16 * (i + 1)) : 83 / 100 ≤ (full + part : ℚ) / (hz * poll tc) := by
  obtain ⟨hpoll, -, -⟩ := poll_bounds htc
  have hpart0 := h.part_nonneg
  have hpos : (0 : ℚ) < hz * poll tc := by
    exact_mod_cast mul_pos (by omega : 0 < hz) (by omega : 0 < poll tc)
  have hlong := mul_le_mul_of_nonneg_left hlo (by omega : 0 ≤ hz)
  have hsixteen := mul_le_mul_of_nonneg_left hpoll (by omega : 0 ≤ hz)
  have hfull := h.full_near
  have hfull' := neg_abs_le (full - hz * i)
  have hlow : 83 * (hz * poll tc) ≤ 100 * (full + part) := by linarith
  rw [le_div_iff₀ hpos]
  have hcast : 83 * ((hz : ℚ) * poll tc) ≤ 100 * (full + part) := by exact_mod_cast hlow
  linarith

/-- What the second that the last update came in still did. -/
theorem Update.Within.running_le (hin : u.Within hz tc period noise bound) (hhz : 50 ≤ hz)
    (htc : 0 ≤ tc ∧ tc ≤ 6) {early : ℤ} (h0 : 0 ≤ early)
    (hle : 20 * early ≤ 21 * hz) :
    |(early / hz * (period - u.adj) : ℚ)| ≤ 1 / 5 * bound := by
  have hT : (16 : ℚ) ≤ poll tc := by exact_mod_cast (poll_bounds htc).1
  have hpos : (0 : ℚ) < hz := by exact_mod_cast (by omega : 0 < hz)
  have hshare : (early / hz : ℚ) ≤ 21 / 20 := by
    rw [div_le_iff₀ hpos]
    have hcast : 20 * (early : ℚ) ≤ 21 * hz := by exact_mod_cast hle
    linarith
  have hshare0 : (0 : ℚ) ≤ early / hz := div_nonneg (by exact_mod_cast h0) hpos.le
  have hpace := hin.pace
  push_cast at hpace
  rw [abs_mul, abs_of_nonneg (by linarith : (0 : ℚ) ≤ poll tc)] at hpace
  have hsecond := mul_le_mul_of_nonneg_right hT (abs_nonneg (period - u.adj : ℚ))
  have hmul := mul_le_mul_of_nonneg_right hshare (abs_nonneg (period - u.adj : ℚ))
  rw [abs_mul, abs_of_nonneg hshare0]
  linarith [abs_nonneg (period - u.adj : ℚ)]

/-- The lag of a round, in nanoseconds of `2^-32`: what the last update got wrong, what is not
paid yet, what the rest of its second did, and what the rate did since. -/
theorem Later.lag_split (hhz : 50 ≤ hz) (htc : 0 ≤ tc ∧ tc ≤ 6) {i : ℕ}
    {early full part slack : ℤ} (h : Later hz tc period u s lag i early full part slack) :
    (lag : ℚ) / hz = u.lag / hz - u.offset + u.unpaid hz tc i part slack / hz
      + early / hz * (period - u.adj) + (full + part) / (hz * poll tc) * u.rate tc period := by
  have hH : (50 : ℚ) ≤ hz := by exact_mod_cast hhz
  have hT : (16 : ℚ) ≤ poll tc := by exact_mod_cast (poll_bounds htc).1
  have hlag : (lag : ℚ) = u.lag + early * (period - u.adj)
      + (full + part) * (period - nominal - u.freq) - hz * u.offset
      + u.unpaid hz tc i part slack := by
    rw [h.lag_eq]
    unfold Update.unpaid
    push_cast
    ring
  unfold Update.rate
  rw [hlag]
  push_cast
  field_simp
  ring

/-- A round and the update that ends it are a turn of the loop. -/
theorem Later.exists_turn (hhz : 50 ≤ hz) (htc : 0 ≤ tc ∧ tc ≤ 6) (hu : u.Mild tc)
    (hnoise : 2 ^ 32 ≤ noise) (hin : u.Within hz tc period noise bound) {i : ℕ}
    {early full part slack : ℤ} (h : Later hz tc period u s lag i early full part slack)
    (hlo : 15 * poll tc ≤ 16 * (i + 1)) (hhi : 4 * ((i : ℤ) + 1) ≤ 5 * poll tc) {offset : ℤ}
    (hfresh : |((offset * 2 ^ 32 : ℤ) : ℚ) - lag / hz| ≤ noise) :
    ∃ left drift gain push slip : ℚ,
      Turn left drift gain push slip (u.lag / hz) (u.rate tc period) (lag / hz)
        (((s.correct tc (s.sec - s.reftime) offset).update lag).rate tc period) ∧
      left ≤ 9 / 20 ∧ 83 / 100 ≤ drift ∧ drift ≤ 21 / 16 ∧ 15 / 256 ≤ gain ∧ gain ≤ 5 / 64 ∧
      |push| ≤ 1 / 5 * bound + 1001 / 1000 * noise ∧ |slip| ≤ 2 / 25 * noise := by
  obtain ⟨hpoll, hpoll', -⟩ := poll_bounds htc
  obtain ⟨r, hr0, hr, hnear⟩ := h.exists_left hhz htc hu (by omega) hhi
  obtain ⟨rem, hrem, hrem'⟩ := exists_pllGain htc.1 offset
  obtain ⟨hdrift0, hdrift'⟩ := h.drift_le hhz htc hu hhi
  have hdrift := h.le_drift hhz htc hlo
  have hH : (50 : ℚ) ≤ hz := by exact_mod_cast hhz
  have hT : (16 : ℚ) ≤ poll tc := by exact_mod_cast hpoll
  have hT' : (poll tc : ℚ) ≤ 1024 := by exact_mod_cast hpoll'
  have hgain : 15 / 256 ≤ (i + 1 : ℚ) / (16 * poll tc) := by
    have hi : 15 * (poll tc : ℚ) ≤ 16 * (i + 1) := by exact_mod_cast hlo
    rw [le_div_iff₀ (by linarith)]
    linarith
  have hgain' : (i + 1 : ℚ) / (16 * poll tc) ≤ 5 / 64 := by
    have hi : 4 * ((i : ℚ) + 1) ≤ 5 * poll tc := by exact_mod_cast hhi
    rw [div_le_iff₀ (by linarith)]
    linarith
  have hrate : (((s.correct tc (s.sec - s.reftime) offset).update lag).rate tc period : ℚ)
      = u.rate tc period - (i + 1) * poll tc * pllGain offset tc := by
    unfold Update.rate update correct
    dsimp only
    rw [h.freq, h.sec]
    push_cast
    ring
  have hoffset : ((offset * 2 ^ 32 : ℤ) : ℚ) = 16 * poll tc ^ 2 * pllGain offset tc + rem := by
    exact_mod_cast hrem
  refine ⟨r, (full + part) / (hz * poll tc), (i + 1) / (16 * poll tc),
    (u.lag / hz - u.offset) * (1 - r) + (u.unpaid hz tc i part slack / hz - r * u.offset)
      + early / hz * (period - u.adj),
    (i + 1) / (16 * poll tc) * (lag / hz - (offset * 2 ^ 32 : ℤ) + rem), ⟨?_, ?_, hr0, ?_, ?_⟩,
    hr, hdrift, hdrift', hgain, hgain', ?_, ?_⟩
  · rw [h.lag_split hhz htc]
    ring
  · rw [hrate, hoffset]
    field_simp
    ring
  · positivity
  · calc (i + 1 : ℚ) / (16 * poll tc) * (2 * r + (full + part) / (hz * poll tc))
        ≤ 5 / 64 * (2 * (9 / 20) + 21 / 16) :=
          mul_le_mul hgain' (by linarith) (by linarith) (by norm_num)
      _ ≤ 1 := by norm_num
  · have hknown : |(u.lag / hz - u.offset : ℚ) * (1 - r)| ≤ noise := by
      rw [abs_mul, abs_sub_comm]
      calc |(u.offset - u.lag / hz : ℚ)| * |1 - r| ≤ noise * 1 :=
            mul_le_mul hin.fresh (abs_le.mpr ⟨by linarith, by linarith⟩) (abs_nonneg _)
              (by linarith)
        _ = noise := mul_one noise
    have hearly := hin.running_le hhz htc h.early_nonneg h.early_le
    refine (abs_add_le _ _).trans ?_
    refine (add_le_add (abs_add_le _ _) le_rfl).trans ?_
    linarith
  · have hround : |(rem : ℚ)| ≤ 16 * 1024 ^ 2 := by
      have hcast : |(rem : ℚ)| ≤ 16 * poll tc ^ 2 := by exact_mod_cast hrem'
      have hsquare : (poll tc : ℚ) ^ 2 ≤ 1024 ^ 2 := pow_le_pow_left₀ (by linarith) hT' 2
      linarith
    have hsum : |(lag / hz - (offset * 2 ^ 32 : ℤ) + rem : ℚ)| ≤ noise + 16 * 1024 ^ 2 := by
      refine (abs_add_le _ _).trans (add_le_add ?_ hround)
      rw [abs_sub_comm]
      exact hfresh
    rw [abs_mul, abs_of_nonneg (by positivity)]
    calc (i + 1 : ℚ) / (16 * poll tc) * |(lag / hz - (offset * 2 ^ 32 : ℤ) + rem : ℚ)|
        ≤ 5 / 64 * (noise + 16 * 1024 ^ 2) :=
          mul_le_mul hgain' hsum (abs_nonneg _) (by norm_num)
      _ ≤ 2 / 25 * noise := by linarith

/-- What is left of the loop error after an update. -/
def next (noise bound : ℚ) : ℚ := 97 / 100 * bound + 3 / 10 * noise

/-- A turn of the loop takes the rate and the lead back by a thirtieth, up to the noise. -/
theorem turn_contracts {left drift gain push slip l z l' z' noise bound : ℚ}
    (h : Turn left drift gain push slip l z l' z') (hleft : left ≤ 9 / 20)
    (hdrift : 83 / 100 ≤ drift) (hdrift' : drift ≤ 21 / 16) (hgain : 15 / 256 ≤ gain)
    (hgain' : gain ≤ 5 / 64) (hnoise : 0 ≤ noise) (hbound : 10 * noise ≤ bound)
    (hpush : |push| ≤ 1 / 5 * bound + 1001 / 1000 * noise) (hslip : |slip| ≤ 2 / 25 * noise)
    (hz : |z| ≤ bound) (hlead : |l - 2 * z| ≤ 2 * bound) :
    |z'| ≤ next noise bound ∧ |l' - 2 * z'| ≤ 2 * next noise bound := by
  unfold next
  have hbound0 : 0 ≤ bound := (abs_nonneg z).trans hz
  have hleft0 := h.left_nonneg
  constructor
  · have hrate := h.abs_rate_le hz hlead
    -- what the rate makes up for itself outweighs the disturbance
    have hwin : 63 / 100 * bound - 1001 / 1000 * noise ≤ drift * bound - |push| := by
      have hmul := mul_le_mul_of_nonneg_right hdrift hbound0
      linarith
    have hmul : 15 / 256 * (63 / 100 * bound - 1001 / 1000 * noise)
        ≤ gain * (drift * bound - |push|) :=
      mul_le_mul hgain hwin (by linarith) (by linarith)
    linarith
  · have hover : (1 + 2 * gain) * (4 * left + drift) - 2 ≤ 8 / 5 := by
      have hmul : (1 + 2 * gain) * (4 * left + drift) ≤ (37 / 32) * (4 * (9 / 20) + 21 / 16) :=
        mul_le_mul (by linarith) (by linarith) (by linarith) (by norm_num)
      norm_num at hmul ⊢
      linarith
    have hunder : 2 - (1 + 2 * gain) * drift ≤ 8 / 5 := by
      have hmul : 1 * (83 / 100) ≤ (1 + 2 * gain) * drift :=
        mul_le_mul (by linarith) hdrift (by norm_num) (by linarith)
      linarith
    have hdistance := h.abs_lead_le hz hlead hover hunder
    have hmul : (1 + 2 * gain) * |push|
        ≤ 37 / 32 * (1 / 5 * bound + 1001 / 1000 * noise) :=
      mul_le_mul (by linarith) hpush (abs_nonneg push) (by norm_num)
    linarith

/-- The running second pays little of what was left. -/
theorem Later.pace_le (htc : 0 ≤ tc ∧ tc ≤ 6) (hnoise : 2 ^ 32 ≤ noise)
    (hbound : 10 * noise ≤ bound) (hin : u.Within hz tc period noise bound) {i : ℕ}
    {early full part slack : ℤ} (h : Later hz tc period u s lag i early full part slack)
    (hlo : 15 * poll tc ≤ 16 * (i + 1)) :
    |((poll tc * (period - s.adj) : ℤ) : ℚ)| ≤ 3 * next noise bound := by
  obtain ⟨hpoll, hpoll', -⟩ := poll_bounds htc
  have hd : 1 ≤ poll tc := by omega
  have hT' : (poll tc : ℚ) ≤ 1024 := by exact_mod_cast hpoll'
  have hleft : ((|u.left tc i| : ℤ) : ℚ) ≤ 21 / 50 * (4 * bound + noise) + poll tc := by
    have hdebt := (abs_iterate_rest_between hd i u.offset).2
    have hoffset := hin.abs_offset_le
    have hmul : (1 - 1 / poll tc : ℚ) ^ i * ((|u.offset| : ℤ) : ℚ)
        ≤ 21 / 50 * (4 * bound + noise) := by
      rw [Int.cast_abs]
      exact mul_le_mul (discount_le hd (by omega)) hoffset (abs_nonneg _) (by norm_num)
    exact hdebt.trans (add_le_add hmul le_rfl)
  have hshare : poll tc * |(u.share tc i : ℚ)| ≤ (|u.left tc i| : ℤ) := by
    rw [← Int.cast_abs]
    exact_mod_cast u.poll_mul_abs_share_le tc i
  have hsplit : ((poll tc * (period - s.adj) : ℤ) : ℚ)
      = u.rate tc period - poll tc * u.share tc i := by
    rw [h.adj]
    unfold Update.rate Update.length
    push_cast
    ring
  rw [hsplit]
  calc |(u.rate tc period - poll tc * u.share tc i : ℚ)|
      ≤ |(u.rate tc period : ℚ)| + |(poll tc * u.share tc i : ℚ)| := abs_sub _ _
    _ = |(u.rate tc period : ℚ)| + poll tc * |(u.share tc i : ℚ)| := by
        rw [abs_mul, abs_of_nonneg (by positivity : (0 : ℚ) ≤ poll tc)]
    _ ≤ bound + (21 / 50 * (4 * bound + noise) + poll tc) :=
        add_le_add hin.rate (hshare.trans hleft)
    _ ≤ 3 * next noise bound := by
        unfold next
        linarith

/-- The next update finds less of the error. -/
theorem Later.within (hhz : 50 ≤ hz) (htc : 0 ≤ tc ∧ tc ≤ 6) (hu : u.Mild tc)
    (hnoise : 2 ^ 32 ≤ noise) (hbound : 10 * noise ≤ bound)
    (hin : u.Within hz tc period noise bound) {i : ℕ} {early full part slack : ℤ}
    (h : Later hz tc period u s lag i early full part slack)
    (hlo : 15 * poll tc ≤ 16 * (i + 1))
    (hhi : 4 * ((i : ℤ) + 1) ≤ 5 * poll tc) {offset : ℤ}
    (hfresh : |((offset * 2 ^ 32 : ℤ) : ℚ) - lag / hz| ≤ noise) :
    ((s.correct tc (s.sec - s.reftime) offset).update lag).Within hz tc period noise
      (next noise bound) := by
  obtain ⟨left, drift, gain, push, slip, hturn, hleft, hdrift, hdrift', hgain, hgain', hpush,
    hslip⟩ := h.exists_turn hhz htc hu hnoise hin hlo hhi hfresh
  obtain ⟨hrate, hlead⟩ := turn_contracts hturn hleft hdrift hdrift' hgain hgain' (by linarith)
    hbound hpush hslip hin.rate hin.lead
  have hpace := h.pace_le htc hnoise hbound hin hlo
  exact ⟨hfresh, hrate, hlead, hpace⟩

/-! ### Room for the loop -/

/-- The loop error stays clear of the limits of the code: the offsets of `MAXPHASE`, and the
frequency of `MAXFREQ` on the way to the one of the reference. -/
structure Room (tc period : ℤ) (bound : ℚ) : Prop where
  phase : bound ≤ 80000000 * 2 ^ 32
  freq : poll tc * |(period - nominal : ℚ)| + bound ≤ poll tc * (maxfreq * 2 ^ 32)

theorem Room.mono {bound' : ℚ} (h : Room tc period bound) (hle : bound' ≤ bound) :
    Room tc period bound' :=
  ⟨hle.trans h.phase, (add_le_add le_rfl hle).trans h.freq⟩

theorem Room.abs_freq_le (h : Room tc period bound) (htc : 0 ≤ tc ∧ tc ≤ 6)
    (hin : u.Within hz tc period noise bound) : |u.freq| ≤ maxfreq * 2 ^ 32 := by
  have hT : (0 : ℚ) < poll tc := by
    exact_mod_cast (by have := (poll_bounds htc).1; omega : (0 : ℤ) < poll tc)
  have hrate := hin.rate
  have hsplit : (poll tc * u.freq : ℚ) = poll tc * (period - nominal) - u.rate tc period := by
    unfold Update.rate
    push_cast
    ring
  have hscaled : (poll tc * |(u.freq : ℚ)| : ℚ) ≤ poll tc * (maxfreq * 2 ^ 32) := by
    calc (poll tc * |(u.freq : ℚ)| : ℚ) = |(poll tc * u.freq : ℚ)| := by
          rw [abs_mul, abs_of_pos hT]
      _ ≤ |(poll tc * (period - nominal) : ℚ)| + |(u.rate tc period : ℚ)| := by
          rw [hsplit]
          exact abs_sub _ _
      _ = poll tc * |(period - nominal : ℚ)| + |(u.rate tc period : ℚ)| := by
          rw [abs_mul, abs_of_pos hT]
      _ ≤ poll tc * (maxfreq * 2 ^ 32) := (add_le_add le_rfl hrate).trans h.freq
  exact_mod_cast le_of_mul_le_mul_left hscaled hT

/-- The reference is no faster or slower than the code can follow. -/
theorem Room.period_bounds (h : Room tc period bound) (htc : 0 ≤ tc ∧ tc ≤ 6)
    (hbound : 0 ≤ bound) :
    1999 * (maxfreq * 2 ^ 32) ≤ period ∧ period ≤ 2001 * (maxfreq * 2 ^ 32) := by
  have hT : (0 : ℚ) < poll tc := by
    exact_mod_cast (by linarith [(poll_bounds htc).1] : 0 < poll tc)
  have hreference : |(period - nominal : ℚ)| ≤ maxfreq * 2 ^ 32 := by
    have hscaled : poll tc * |(period - nominal : ℚ)| ≤ poll tc * (maxfreq * 2 ^ 32) := by
      linarith [h.freq]
    exact le_of_mul_le_mul_left hscaled hT
  have hcast : |period - nominal| ≤ maxfreq * 2 ^ 32 := by exact_mod_cast hreference
  obtain ⟨hlo, hhi⟩ := abs_le.mp hcast
  unfold nominal nanosecond at hlo hhi
  unfold maxfreq at *
  omega

/-- No second of a round is too long or too short. -/
theorem Room.mild (h : Room tc period bound) (htc : 0 ≤ tc ∧ tc ≤ 6) (hnoise : 0 ≤ noise)
    (hbound : 10 * noise ≤ bound) (hin : u.Within hz tc period noise bound) : u.Mild tc := by
  obtain ⟨hpoll, -, -⟩ := poll_bounds htc
  have hT : (16 : ℚ) ≤ poll tc := by exact_mod_cast hpoll
  have hphase := h.phase
  constructor
  · have hpace := hin.pace
    have hroom := h.freq
    push_cast at hpace
    rw [abs_mul, abs_of_nonneg (by linarith : (0 : ℚ) ≤ poll tc)] at hpace
    have hrunning : |(period - u.adj : ℚ)| ≤ 15000000 * 2 ^ 32 := by
      have hmul := mul_le_mul_of_nonneg_right hT (abs_nonneg (period - u.adj : ℚ))
      linarith
    have hreference : |(period - nominal : ℚ)| ≤ maxfreq * 2 ^ 32 := by
      have hscaled : poll tc * |(period - nominal : ℚ)| ≤ poll tc * (maxfreq * 2 ^ 32) := by
        linarith
      exact le_of_mul_le_mul_left hscaled (by linarith)
    have hsum : |(u.adj - nominal : ℚ)| ≤ 15500000 * 2 ^ 32 := by
      have hsplit : (u.adj - nominal : ℚ) = (period - nominal) - (period - u.adj) := by ring
      rw [hsplit]
      refine (abs_sub _ _).trans ?_
      unfold maxfreq at hreference
      push_cast at hreference
      linarith
    have hsumZ : |u.adj - nominal| ≤ 15500000 * 2 ^ 32 := by exact_mod_cast hsum
    unfold Narrow
    unfold nominal nanosecond at *
    omega
  · intro i
    have hfreq := h.abs_freq_le htc hin
    have hoffset : |u.offset| ≤ 328000000 * 2 ^ 32 := by
      have hle := hin.abs_offset_le
      have hcast : |(u.offset : ℚ)| ≤ 328000000 * 2 ^ 32 := by linarith
      exact_mod_cast hcast
    have hshare : 16 * |u.share tc i| ≤ |u.offset| :=
      (mul_le_mul_of_nonneg_right hpoll (abs_nonneg _)).trans
        ((u.poll_mul_abs_share_le tc i).trans (u.abs_left_le tc i))
    have hsum := abs_add_le u.freq (u.share tc i)
    have hlength : u.length tc i - nominal = u.freq + u.share tc i := by
      unfold Update.length
      ring
    unfold Narrow
    rw [hlength]
    unfold maxfreq at hfreq
    unfold nominal nanosecond
    omega

/-! ### Between the updates -/

theorem First.abs_lag_le (hhz : 50 ≤ hz) (htc : 0 ≤ tc ∧ tc ≤ 6) (hu : u.Mild tc)
    (hin : u.Within hz tc period noise bound) {early : ℤ}
    (h : First hz period u s lag early) : |(lag : ℚ) / hz| ≤ 6 * bound := by
  have hticks := ticks_le hhz hu.first h.early_nonneg h.position h.before
  have hrunning := hin.running_le hhz htc h.early_nonneg (by omega)
  have hH : (50 : ℚ) ≤ hz := by exact_mod_cast hhz
  have hsplit : (lag : ℚ) / hz = u.lag / hz + early / hz * (period - u.adj) := by
    rw [h.lag_eq]
    push_cast
    field_simp
  obtain ⟨-, hrate, hlead, -⟩ := hin
  rw [hsplit]
  rw [abs_le] at *
  constructor <;> linarith

theorem Later.abs_lag_le (hhz : 50 ≤ hz) (htc : 0 ≤ tc ∧ tc ≤ 6) (hu : u.Mild tc)
    (hnoise : 0 ≤ noise) (hbound : 10 * noise ≤ bound)
    (hin : u.Within hz tc period noise bound) {i : ℕ} {early full part slack : ℤ}
    (h : Later hz tc period u s lag i early full part slack)
    (hhi : 4 * ((i : ℤ) + 1) ≤ 5 * poll tc) : |(lag : ℚ) / hz| ≤ 6 * bound := by
  obtain ⟨hdrift0, hdrift⟩ := h.drift_le hhz htc hu hhi
  have hrunning := hin.running_le hhz htc h.early_nonneg h.early_le
  have hoffset := hin.abs_offset_le
  have hH : (50 : ℚ) ≤ hz := by exact_mod_cast hhz
  have hunpaid : |(u.unpaid hz tc i part slack / hz : ℚ)| ≤ |(u.offset : ℚ)| := by
    obtain ⟨σ, hσ, -, hlow, hhigh⟩ := h.unpaid_bounds hhz hu
    have hloss := mul_le_mul_of_nonneg_left (u.abs_left_le tc i) (by omega : 0 ≤ hz)
    have hleft := mul_nonneg (by omega : 0 ≤ hz) (abs_nonneg (u.left tc (i + 1)))
    have hsize : |u.unpaid hz tc i part slack| ≤ hz * |u.offset| := by
      rw [abs_le]
      rcases hσ with rfl | rfl
      · constructor <;> linarith
      · constructor <;> linarith
    rw [abs_div, abs_of_pos (by linarith : (0 : ℚ) < hz), div_le_iff₀ (by linarith), mul_comm]
    exact_mod_cast hsize
  have hdrifted : |((full + part) / (hz * poll tc) * u.rate tc period : ℚ)| ≤ 21 / 16 * bound := by
    rw [abs_mul, abs_of_nonneg hdrift0]
    exact mul_le_mul hdrift hin.rate (abs_nonneg _) (by norm_num)
  have hfresh := hin.fresh
  rw [abs_sub_comm] at hfresh
  rw [h.lag_split hhz htc]
  refine (abs_add_le _ _).trans ?_
  refine (add_le_add (abs_add_le _ _) le_rfl).trans ?_
  refine (add_le_add (add_le_add (abs_add_le _ _) le_rfl) le_rfl).trans ?_
  linarith

/-- After the `k`-th update. -/
def boundAfter (noise start : ℚ) (k : ℕ) : ℚ := 10 * noise + (97 / 100) ^ k * start

theorem next_boundAfter (noise start : ℚ) (k : ℕ) :
    next noise (boundAfter noise start k) = boundAfter noise start (k + 1) := by
  unfold next boundAfter
  ring

theorem boundAfter_bounds (noise : ℚ) {start : ℚ} (h0 : 0 ≤ start) (k : ℕ) :
    10 * noise ≤ boundAfter noise start k ∧
      boundAfter noise start k ≤ boundAfter noise start 0 := by
  have hpow : (97 / 100 : ℚ) ^ k ≤ 1 := pow_le_one₀ (by norm_num) (by norm_num)
  have hmul := mul_le_mul_of_nonneg_right hpow h0
  have hmul' : 0 ≤ (97 / 100 : ℚ) ^ k * start := by positivity
  unfold boundAfter
  constructor
  · linarith
  · rw [pow_zero]
    linarith

/-! ### Seconds and ticks -/

/-- The update came in the second `reftime` of the clock, `since` ticks ago. -/
def Aligned (hz period now since : ℤ) (u : Update) (s : Servo) : Prop :=
  s.reftime * second hz ≤ now - since * period - u.lag ∧
    now - since * period - u.lag < (s.reftime + 1) * second hz

theorem Aligned.tick {now since : ℤ} (h : Aligned hz period now since u s) :
    Aligned hz period (now + period) (since + 1) u (s.tick hz tc) := by
  have href : (s.tick hz tc).reftime = s.reftime := by
    unfold Servo.tick
    split_ifs <;> rfl
  have hback : now + period - (since + 1) * period = now - since * period := by ring
  unfold Aligned
  rw [href, hback]
  exact h

/-- The seconds since the update, in ticks of the reference. -/
theorem Later.abs_seconds_sub_lt (hhz : 50 ≤ hz) (htc : 0 ≤ tc ∧ tc ≤ 6) (hu : u.Mild tc)
    (hroom : Room tc period bound) (hnoise : 0 ≤ noise) (hbound : 10 * noise ≤ bound)
    (hin : u.Within hz tc period noise bound) {now since : ℤ} {i : ℕ}
    {early full part slack : ℤ} (h : Later hz tc period u s (s.lag hz now) i early full part slack)
    (hhi : 4 * ((i : ℤ) + 1) ≤ 5 * poll tc) (ha : Aligned hz period now since u s) :
    |((i : ℤ) + 1) * second hz - since * period| <
      second hz + 10 * (hz * poll tc * (maxfreq * 2 ^ 32)) := by
  have hH : (0 : ℚ) < hz := by exact_mod_cast (by omega : (0 : ℤ) < hz)
  have hT : (0 : ℚ) ≤ poll tc := by
    exact_mod_cast (by linarith [(poll_bounds htc).1] : 0 ≤ poll tc)
  have hlimit : bound ≤ poll tc * (maxfreq * 2 ^ 32) := by
    have hfreq := hroom.freq
    have hpos := mul_nonneg hT (abs_nonneg (period - nominal : ℚ))
    linarith
  -- how far the clock has come on the reference
  have hlag : |s.lag hz now| ≤ 6 * (hz * poll tc * (maxfreq * 2 ^ 32)) := by
    have hle := h.abs_lag_le hhz htc hu hnoise hbound hin hhi
    rw [abs_div, abs_of_pos hH, div_le_iff₀ hH] at hle
    have hscaled := mul_le_mul_of_nonneg_right hlimit hH.le
    have hcast : |(s.lag hz now : ℚ)| ≤ 6 * (hz * poll tc * (maxfreq * 2 ^ 32)) := by linarith
    exact_mod_cast hcast
  have hfirst : |u.lag| ≤ 4 * (hz * poll tc * (maxfreq * 2 ^ 32)) := by
    have hle : |(u.lag / hz : ℚ)| ≤ 4 * bound := by
      obtain ⟨-, hrate, hlead, -⟩ := hin
      rw [abs_le] at *
      constructor <;> linarith
    rw [abs_div, abs_of_pos hH, div_le_iff₀ hH] at hle
    have hscaled := mul_le_mul_of_nonneg_right hlimit hH.le
    have hcast : |(u.lag : ℚ)| ≤ 4 * (hz * poll tc * (maxfreq * 2 ^ 32)) := by linarith
    exact_mod_cast hcast
  have hposition := h.position_nonneg hu
  obtain ⟨ha, ha'⟩ := ha
  have hbefore := h.before
  have hnow : s.lag hz now = now - ((s.reftime + (i + 1)) * second hz + s.position) := by
    unfold lag
    rw [h.sec]
  obtain ⟨hlag, hlag'⟩ := abs_le.mp hlag
  obtain ⟨hfirst, hfirst'⟩ := abs_le.mp hfirst
  rw [abs_lt]
  constructor <;> linarith

/-- A poll of ticks is nearly a poll of seconds, ... -/
theorem long_of_ticks (hhz : 50 ≤ hz) (htc : 0 ≤ tc ∧ tc ≤ 6) (hroom : Room tc period bound)
    (hbound : 0 ≤ bound) {since seconds : ℤ}
    (hnear : |seconds * second hz - since * period| <
      second hz + 10 * (hz * poll tc * (maxfreq * 2 ^ 32)))
    (hlong : hz * poll tc ≤ since) : 15 * poll tc ≤ 16 * seconds := by
  obtain ⟨q, hq1, hq⟩ := exists_poll_eq htc.1
  obtain ⟨hperiod, -⟩ := hroom.period_bounds htc hbound
  have hticks := mul_le_mul_of_nonneg_right hlong (by unfold maxfreq at hperiod; omega : 0 ≤ period)
  have hslow := mul_le_mul_of_nonneg_left hperiod
    (mul_nonneg (by omega) (by omega) : 0 ≤ hz * poll tc)
  have hlow := (abs_lt.mp hnear).1
  have hscaled : hz * (1989 * poll tc - 2000) < hz * (2000 * seconds) := by
    rw [second_eq] at hlow
    unfold nominal nanosecond at hlow
    unfold maxfreq at hlow hslow
    linarith
  have hless := lt_of_mul_lt_mul_left hscaled (by omega : 0 ≤ hz)
  omega

/-- ... and nine eighths of it are less than five quarters. -/
theorem due_of_ticks (hhz : 50 ≤ hz) (htc : 0 ≤ tc ∧ tc ≤ 6) (hroom : Room tc period bound)
    (hbound : 0 ≤ bound) {since seconds : ℤ} (h0 : 0 ≤ since)
    (hnear : |seconds * second hz - since * period| <
      second hz + 10 * (hz * poll tc * (maxfreq * 2 ^ 32)))
    (hdue : 8 * (since + 1) ≤ 9 * (hz * poll tc)) : 4 * seconds < 5 * poll tc := by
  obtain ⟨q, hq1, hq⟩ := exists_poll_eq htc.1
  obtain ⟨-, hperiod⟩ := hroom.period_bounds htc hbound
  have hfast := mul_le_mul_of_nonneg_left hperiod h0
  have hhigh := (abs_lt.mp hnear).2
  have hscaled : hz * (8 * (2000 * seconds)) < hz * (18089 * poll tc + 16000) := by
    rw [second_eq] at hhigh
    unfold nominal nanosecond at hhigh
    unfold maxfreq at hhigh hfast
    linarith
  have hless := lt_of_mul_lt_mul_left hscaled (by omega : 0 ≤ hz)
  omega

/-- Where the servo may be `since` ticks after an update. -/
def Underway (hz tc period : ℤ) (u : Update) (s : Servo) (lag since : ℤ) : Prop :=
  First hz period u s lag since ∨
    ∃ i early full part slack, Later hz tc period u s lag i early full part slack ∧
      early + full + part = since ∧ 4 * ((i : ℤ) + 1) ≤ 5 * poll tc

/-- The position lies in the running second. -/
theorem Underway.position_range (hu : u.Mild tc) {since : ℤ}
    (h : Underway hz tc period u s lag since) : 0 ≤ s.position ∧ s.position < second hz := by
  rcases h with hfirst | ⟨i, early, full, part, slack, hlater, -⟩
  · have hadj := hu.first.bounds.1
    unfold nominal nanosecond at hadj
    exact ⟨(mul_nonneg hfirst.early_nonneg (by omega)).trans hfirst.position, hfirst.before⟩
  · exact ⟨hlater.position_nonneg hu, hlater.before⟩

theorem Underway.tick (hhz : 50 ≤ hz) (hu : u.Mild tc) {since : ℤ}
    (h : Underway hz tc period u s lag since) (hdue : 4 * (s.sec - s.reftime) < 5 * poll tc)
    (hpoll : 4 ∣ poll tc) :
    Underway hz tc period u (s.tick hz tc) (lag + (period - s.adj)) (since + 1) := by
  obtain ⟨q, hq⟩ := hpoll
  rcases h with h | ⟨i, early, full, part, slack, h, hsince, hhi⟩
  · rcases h.tick hhz hu with hfirst | hlater
    · exact Or.inl hfirst
    · have hsec := h.sec
      refine Or.inr ⟨0, since + 1, 0, 0, 0, hlater, by ring, ?_⟩
      omega
  · have hsec := h.sec
    rcases h.tick hhz hu with hsame | hnext
    · exact Or.inr ⟨i, early, full, part + 1, slack, hsame, by rw [← hsince]; ring, hhi⟩
    · refine Or.inr ⟨i + 1, early, _, 0, _, hnext, by rw [← hsince]; ring, ?_⟩
      push_cast
      omega

/-- Before a tick that is not too late, the second is not either. -/
theorem Underway.due (hhz : 50 ≤ hz) (htc : 0 ≤ tc ∧ tc ≤ 6) (hu : u.Mild tc)
    (hroom : Room tc period bound) (hnoise : 0 ≤ noise) (hbound : 10 * noise ≤ bound)
    (hin : u.Within hz tc period noise bound) {now since : ℤ} (h0 : 0 ≤ since)
    (ha : Aligned hz period now since u s)
    (h : Underway hz tc period u s (s.lag hz now) since)
    (hdue : 8 * (since + 1) ≤ 9 * (hz * poll tc)) : 4 * (s.sec - s.reftime) < 5 * poll tc := by
  rcases h with hfirst | ⟨i, early, full, part, slack, hlater, -, hhi⟩
  · have hsec := hfirst.sec
    have hpoll := (poll_bounds htc).1
    omega
  · have hsec := hlater.sec
    have hnear := hlater.abs_seconds_sub_lt hhz htc hu hroom hnoise hbound hin hhi ha
    have hless := due_of_ticks hhz htc hroom (by linarith) h0 hnear hdue
    omega

/-- A poll of ticks after an update, its second is over. -/
theorem Underway.later (hhz : 50 ≤ hz) (htc : 0 ≤ tc ∧ tc ≤ 6) (hu : u.Mild tc)
    (hroom : Room tc period bound) (hnoise : 0 ≤ noise) (hbound : 10 * noise ≤ bound)
    (hin : u.Within hz tc period noise bound) {now since : ℤ}
    (ha : Aligned hz period now since u s)
    (h : Underway hz tc period u s (s.lag hz now) since) (hlong : hz * poll tc ≤ since) :
    ∃ i early full part slack,
      Later hz tc period u s (s.lag hz now) i early full part slack ∧
      15 * poll tc ≤ 16 * ((i : ℤ) + 1) ∧ 4 * ((i : ℤ) + 1) ≤ 5 * poll tc := by
  rcases h with hfirst | ⟨i, early, full, part, slack, hlater, -, hhi⟩
  · have hticks := ticks_le hhz hu.first hfirst.early_nonneg hfirst.position hfirst.before
    have hmany := mul_le_mul_of_nonneg_left (poll_bounds htc).1 (by omega : 0 ≤ hz)
    omega
  · have hnear := hlater.abs_seconds_sub_lt hhz htc hu hroom hnoise hbound hin hhi ha
    exact ⟨i, early, full, part, slack, hlater,
      long_of_ticks hhz htc hroom (by linarith) hnear hlong, hhi⟩

/-- A round starts with the update. -/
theorem starts_round (tc period now : ℤ) (hsec : s.sec = s.reftime) (h0 : 0 ≤ s.position)
    (hbefore : s.position < second hz) :
    Aligned hz period now 0 (s.update (s.lag hz now)) s ∧
      Underway hz tc period (s.update (s.lag hz now)) s (s.lag hz now) 0 := by
  constructor
  · show s.reftime * _ ≤ now - 0 * period - s.lag hz now ∧
      now - 0 * period - s.lag hz now < (s.reftime + 1) * _
    unfold lag
    rw [hsec]
    constructor <;> linarith
  · refine Or.inl ⟨hsec, rfl, rfl, rfl, le_rfl, ?_, hbefore, ?_⟩
    · rw [zero_mul]
      exact h0
    · rw [zero_mul, add_zero]
      rfl

/-- A distance in units of `1 / hz` ns, in nanoseconds. -/
theorem abs_sub_div_le (hhz : 0 < hz) {x noise : ℤ}
    (h : |x * hz - lag| ≤ noise * (hz * 2 ^ 32)) : |(x : ℚ) - lag / hz| ≤ noise * 2 ^ 32 := by
  have hH : (0 : ℚ) < hz := by exact_mod_cast hhz
  have hscale : ((x * hz - lag : ℤ) : ℚ) = (x - lag / hz) * hz := by
    push_cast
    field_simp
  have hle : |x * hz - lag| ≤ noise * 2 ^ 32 * hz := by linarith
  have hcast : |((x * hz - lag : ℤ) : ℚ)| ≤ noise * 2 ^ 32 * hz := by exact_mod_cast hle
  rw [hscale, abs_mul, abs_of_pos hH] at hcast
  exact le_of_mul_le_mul_right hcast hH

end Servo

end Nanokernel
