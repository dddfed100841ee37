import Nanokernel.Kernel.Envelope
import Nanokernel.Kernel.LeapSecond

/-!
# The PLL frequency integrator

`hardupdate` in the build with `NTP_L64`: the frequency terms as exact
integers, and when the code computes them. The limit clamp comes after the
multiplication by the update interval, so a long interval overflows the
product before the clamp sees it.
-/

namespace Nanokernel

open BitMask SignedWord Run

/-! ## The terms as integers -/

section Terms

variable {F : Type}

/-- The offset that drives the frequency: the last one from the PPS signal, or
the argument, clamped. -/
def loopOffset (k : Kernel F) (offset : ℤ) : ℤ :=
  if ppsTime k then k.timeMonitor else clamp maxphase offset

/-- `mtemp`, the seconds since the last update. -/
def updateInterval (k : Kernel F) (tvSec : ℤ) : ℤ :=
  if has k.timeStatus staFreqhold || k.timeReftime == 0 then 0
  else tvSec - k.timeReftime

/-- The frequency change for each second of the interval. -/
def pllGain (monitor timeConstant : ℤ) : ℤ :=
  (monitor * 2 ^ 32).tdiv (2 ^ (2 * (shiftPll + 2 + timeConstant)).toNat)

/-- The PLL term, as an integer. -/
def pllStep (k : Kernel F) (tvSec offset : ℤ) : ℤ :=
  updateInterval k tvSec * pllGain (loopOffset k offset) k.timeConstant

/-- The FLL term, zero when it is not selected. The offset is scaled in a
`long`. -/
def fllStep (cfg : Config) (k : Kernel F) (tvSec offset : ℤ) : ℤ :=
  if fllSelected k (updateInterval k tvSec) then
    ((cfg.long (loopOffset k offset <<< (4 : ℕ))).tdiv (updateInterval k tvSec)
      * 2 ^ 32).tdiv (2 ^ 6)
  else 0

theorem updatePhase_timeMonitor [LFp F] (k : Kernel F) (offset : ℤ) :
    (updatePhase k offset).timeMonitor = loopOffset k offset := by
  unfold updatePhase loopOffset
  split_ifs <;> rfl

theorem sub_updateReftime (k : Kernel F) (tvSec : ℤ) :
    tvSec - (updateReftime k tvSec).timeReftime = updateInterval k tvSec := by
  unfold updateReftime updateInterval
  split_ifs
  · exact sub_self tvSec
  · rfl

/-- The state the terms are computed on. -/
theorem updateReftime_updatePhase [LFp F] (k : Kernel F) (tvSec offset : ℤ) :
    (updateReftime (updatePhase k offset) tvSec).timeMonitor = loopOffset k offset ∧
    (updateReftime (updatePhase k offset) tvSec).timeConstant = k.timeConstant := by
  rw [updateReftime_frame]
  exact ⟨updatePhase_timeMonitor k offset, by rw [updatePhase_frame]⟩

theorem le_of_fllSelected {k : Kernel F} {mtemp : ℤ}
    (h : fllSelected k mtemp = true) : minsec ≤ mtemp := by
  unfold fllSelected at h
  simp only [Bool.and_eq_true, decide_eq_true_eq] at h
  exact h.1

/-- The flags that select the FLL are not the one the PLL clears. -/
theorem fllSelected_congr {k k' : Kernel F} {mtemp : ℤ}
    (h : k'.timeStatus &&& staFll = k.timeStatus &&& staFll) :
    fllSelected k' mtemp = fllSelected k mtemp := by
  unfold fllSelected
  rw [has_eq_of_and_eq h]

/-- The frequency before the clamp, as the code has it. -/
def unclampedFreq [LFp F] (cfg : Config) (k : Kernel F) (tvSec offset : ℤ) : F :=
  let k' := updateReftime (updatePhase k offset) tvSec
  let mtemp := cfg.long (updateInterval k tvSec)
  let freq := lAdd k.timeFreq (pllTerm k' mtemp)
  if fllSelected k mtemp then lAdd freq (fllTerm cfg k' mtemp) else freq

theorem hardupdate_timeFreq [LFp F] {cfg : Config} {k : Kernel F} {tvSec offset : ℤ}
    (hpll : has k.timeStatus staPll = true) (hpps : ppsFrequency k = false) :
    (hardupdate cfg k tvSec offset).timeFreq
      = clampFreq (unclampedFreq cfg k tvSec offset) := by
  have hpps' : ppsFrequency (updatePhase k offset) = false := by
    rw [updatePhase_frame]
    exact hpps
  have hmtemp : tvSec - (updateReftime (updatePhase k offset) tvSec).timeReftime
      = updateInterval k tvSec := by
    rw [sub_updateReftime, updatePhase_frame]
    rfl
  -- the phase and the interval leave the frequency and the flags alone
  have hstatus : (updateReftime (updatePhase k offset) tvSec).timeStatus
      = k.timeStatus := by
    rw [updateReftime_frame, updatePhase_frame]
  have hfreq : (updateReftime (updatePhase k offset) tvSec).timeFreq
      = k.timeFreq := by
    rw [updateReftime_frame, updatePhase_frame]
  unfold hardupdate
  simp only [hpll, hpps', Bool.not_true, Bool.false_eq_true, if_false]
  unfold updateFrequency unclampedFreq
  dsimp only
  rw [hmtemp, hstatus, hfreq, fllSelected_congr (k := k) (clear_and (by decide) _)]
  split_ifs <;> rfl

end Terms

/-- The gain has the sign of the offset. -/
theorem pllGain_sign (monitor tc : ℤ) :
    (0 ≤ monitor → 0 ≤ pllGain monitor tc) ∧
      (monitor ≤ 0 → pllGain monitor tc ≤ 0) := by
  have hpow : (1 : ℤ) ≤ 2 ^ (2 * (shiftPll + 2 + tc)).toNat :=
    one_le_pow₀ (by decide)
  constructor
  · intro h
    exact (tdiv_mul_le (by omega) one_pos hpow).1
  · intro h
    exact (le_tdiv_mul (by omega) one_pos hpow).1

/-! ## The terms of the code -/

section LFp64

theorem pllShift_eq {tc : ℤ} (h : 0 ≤ tc) :
    (shiftPll + 2 + tc).toNat <<< 1 = (2 * (shiftPll + 2 + tc)).toNat := by
  unfold shiftPll
  rw [Nat.shiftLeft_eq]
  omega

/-- The gain shift of the code is the truncated division. -/
theorem val_pllTerm {k : Kernel LFp64} (hm : |k.timeMonitor| ≤ maxphase)
    (htc : 0 ≤ k.timeConstant ∧ k.timeConstant ≤ maxtc) (mtemp : ℤ) :
    val (pllTerm k mtemp)
      = (mtemp * pllGain k.timeMonitor k.timeConstant).bmod (2 ^ 64) := by
  have hle := abs_le.mp hm
  unfold maxphase at hle
  unfold maxtc at htc
  have hval : val (lLint k.timeMonitor : LFp64) = k.timeMonitor * 2 ^ 32 :=
    val_lLint_of_fits ⟨by omega, by omega⟩
  unfold pllTerm
  rw [pllShift_eq htc.1, mul_comm mtemp]
  refine (LFp64.val_lMpy _ _).trans ?_
  show (val (lRshift (lLint k.timeMonitor : LFp64) _) * mtemp).bmod _ = _
  rw [val_lRshift _ _ (by omega) (by unfold shiftPll; omega)
    (by unfold shiftPll; omega), hval]
  rfl

/-- The offset the FLL divides, scaled in a `long`, by at least `minsec`. -/
theorem fllQuotient_bounds (cfg : Config) {monitor mtemp : ℤ}
    (hm : |monitor| ≤ maxphase) (hmtemp : minsec ≤ mtemp) :
    -31250000 ≤ (cfg.long (monitor <<< (4 : ℕ))).tdiv mtemp ∧
      (cfg.long (monitor <<< (4 : ℕ))).tdiv mtemp ≤ 31250000 := by
  have hscaled : |cfg.long (monitor <<< (4 : ℕ))| ≤ |monitor| * 16 := by
    have hshift : |monitor <<< (4 : ℕ)| = |monitor| * 16 := by
      rw [Int.shiftLeft_eq, abs_mul]
      rfl
    rw [← hshift]
    exact abs_bmod_le (by cases cfg.longWidth <;> decide) _
  have hle := abs_le.mp (hscaled.trans (mul_le_mul_of_nonneg_right hm (by decide)))
  unfold maxphase at hle
  unfold minsec at hmtemp
  rcases le_total 0 (cfg.long (monitor <<< (4 : ℕ))) with hpos | hneg
  · obtain ⟨hq, hmul⟩ := tdiv_mul_le hpos (by decide) hmtemp
    omega
  · obtain ⟨hq, hmul⟩ := le_tdiv_mul hneg (by decide) hmtemp
    omega

/-- The FLL term, from the offset as the `long` has it. -/
theorem val_fllTerm_long {F : Type} [LFp F] [LawfulLFp F] (cfg : Config) {k : Kernel F}
    {mtemp : ℤ} (hm : |k.timeMonitor| ≤ maxphase) (hmtemp : minsec ≤ mtemp) :
    val (fllTerm cfg k mtemp)
      = ((cfg.long (k.timeMonitor <<< (4 : ℕ))).tdiv mtemp * 2 ^ 32).tdiv (2 ^ 6) := by
  have hquot := fllQuotient_bounds cfg hm hmtemp
  have hload := val_lLint_of_fits (F := F)
    (a := (cfg.long (k.timeMonitor <<< (4 : ℕ))).tdiv mtemp) ⟨by omega, by omega⟩
  unfold fllTerm
  rw [val_lRshift _ _ (by omega) (by decide) (by decide), hload]
  rfl

theorem long_prescaled {cfg : Config} {monitor : ℤ} (h : cfg.Fits (monitor * 16)) :
    cfg.long (monitor <<< (4 : ℕ)) = monitor * 16 := by
  rw [show monitor <<< (4 : ℕ) = monitor * 16 from Int.shiftLeft_eq _ _]
  refine bmod_of_fits ?_ h
  cases cfg.longWidth <;> decide

/-- The FLL term stays below the frequency limit. -/
theorem abs_fllStep_le (cfg : Config) {k : Kernel LFp64} {offset : ℤ}
    (hm : |loopOffset k offset| ≤ maxphase) (tvSec : ℤ) :
    |fllStep cfg k tvSec offset| ≤ 488282 * 2 ^ 32 := by
  unfold fllStep
  split_ifs with hsel
  · obtain ⟨hlo, hhi⟩ := fllQuotient_bounds cfg hm (le_of_fllSelected hsel)
    set quot := (cfg.long (loopOffset k offset <<< (4 : ℕ))).tdiv
      (updateInterval k tvSec)
    have hshift := abs_tdiv_mul_le (quot * 2 ^ 32) (le_refl 6)
    have hquot : |quot * 2 ^ 32| ≤ 31250000 * 2 ^ 32 :=
      abs_le.mpr ⟨by omega, by omega⟩
    omega
  · decide

/-- While the prescaled offset fits its `long`, the FLL term has the sign of
the offset. -/
theorem fllStep_sign {cfg : Config} {k : Kernel LFp64} {tvSec offset : ℤ}
    (hlong : fllSelected k (updateInterval k tvSec) = true →
      cfg.Fits (loopOffset k offset * 16)) :
    (0 ≤ loopOffset k offset → 0 ≤ fllStep cfg k tvSec offset) ∧
      (loopOffset k offset ≤ 0 → fllStep cfg k tvSec offset ≤ 0) := by
  unfold fllStep
  split_ifs with hsel
  · have hmin := le_of_fllSelected hsel
    rw [long_prescaled (hlong hsel)]
    constructor
    · intro h
      have hquot := (tdiv_mul_le (x := loopOffset k offset * 16) (by omega) (by decide)
        hmin).1
      exact (tdiv_mul_le (by omega) one_pos (by decide : (1 : ℤ) ≤ 2 ^ 6)).1
    · intro h
      have hquot := (le_tdiv_mul (x := loopOffset k offset * 16) (by omega) (by decide)
        hmin).1
      exact (le_tdiv_mul (by omega) one_pos (by decide : (1 : ℤ) ≤ 2 ^ 6)).1
  · exact ⟨fun _ => le_refl 0, fun _ => le_refl 0⟩

/-- The final clamp, by what it does. -/
theorem val_clampFreq (v : LFp64) :
    (val (clampFreq v) = maxfreq * 2 ^ 32 ∧
      ((maxfreq + 1) * 2 ^ 32 ≤ val v ∨ val v = -2 ^ 63)) ∨
    (val (clampFreq v) = -maxfreq * 2 ^ 32 ∧ val v ≤ -((maxfreq + 1) * 2 ^ 32) ∧
      val v ≠ -2 ^ 63) ∨
    (val (clampFreq v) = val v ∧ |val v| < (maxfreq + 1) * 2 ^ 32) := by
  have hmax : val (lLint maxfreq : LFp64) = maxfreq * 2 ^ 32 :=
    val_lLint_of_fits (by decide)
  have hmin : val (lLint (-maxfreq) : LFp64) = -maxfreq * 2 ^ 32 :=
    val_lLint_of_fits (by decide)
  by_cases hleast : val v = -2 ^ 63
  · have hg : lGint v = 2 ^ 31 := LFp64.lGint_intMin hleast
    left
    unfold clampFreq
    rw [hg, if_pos (by decide)]
    exact ⟨hmax, Or.inr hleast⟩
  · have hfit := (val_fits v).1
    have hg : lGint v = (val v).tdiv (2 ^ 32) :=
      LFp64.lGint_eq_tdiv (lt_of_le_of_ne hfit (Ne.symm hleast))
    have hbound : lGint v > maxfreq ∧ (maxfreq + 1) * 2 ^ 32 ≤ val v ∨
        lGint v < -maxfreq ∧ val v ≤ -((maxfreq + 1) * 2 ^ 32) ∨
        |lGint v| ≤ maxfreq ∧ |val v| < (maxfreq + 1) * 2 ^ 32 := by
      unfold maxfreq
      rw [hg, abs_le, abs_lt, tdiv_eq_ediv_add]
      omega
    unfold clampFreq
    rcases hbound with ⟨hgt, hv⟩ | ⟨hlt, hv⟩ | ⟨hin, hv⟩
    · rw [if_pos hgt]
      exact Or.inl ⟨hmax, Or.inl hv⟩
    · rw [if_neg (by unfold maxfreq at hlt ⊢; omega), if_pos hlt]
      exact Or.inr (Or.inl ⟨hmin, hv, hleast⟩)
    · have hle := abs_le.mp hin
      rw [if_neg (by omega), if_neg (by omega)]
      exact Or.inr (Or.inr ⟨rfl, hv⟩)

/-! ## Exactness -/

/-- `freq'` is not a unit or more away from `freq` against the offset. -/
def NotOpposed (monitor freq freq' : ℤ) : Prop :=
  (0 < monitor → freq - 2 ^ 32 < freq') ∧ (monitor < 0 → freq' < freq + 2 ^ 32)

/-- The PLL term is the exact product, added without overflow, and the stored
frequency does not act against the offset. -/
structure PllExact (cfg : Config) (k : Kernel LFp64) (tvSec offset : ℤ) : Prop where
  term : val (pllTerm (updateReftime (updatePhase k offset) tvSec)
      (cfg.long (updateInterval k tvSec)))
    = updateInterval k tvSec * pllGain (loopOffset k offset) k.timeConstant
  product : Fits 64
    (updateInterval k tvSec * pllGain (loopOffset k offset) k.timeConstant)
  sum : Fits 64 (val k.timeFreq
    + updateInterval k tvSec * pllGain (loopOffset k offset) k.timeConstant)
  notOpposed : NotOpposed (loopOffset k offset) (val k.timeFreq)
    (val (hardupdate cfg k tvSec offset).timeFreq)

/-- The final clamp on the exact sum. -/
def clampSum (sum : ℤ) : ℤ :=
  if (maxfreq + 1) * 2 ^ 32 ≤ sum then maxfreq * 2 ^ 32
  else if sum ≤ -((maxfreq + 1) * 2 ^ 32) then -maxfreq * 2 ^ 32
  else sum

/-- Both frequency terms keep the sum within 64 bits, and the FLL term does not
outweigh the PLL term against the offset. -/
structure FreqSumFits (cfg : Config) (k : Kernel LFp64) (tvSec offset : ℤ) : Prop where
  product : Fits 64 (pllStep k tvSec offset)
  first : Fits 64 (val k.timeFreq + pllStep k tvSec offset)
  total :
    -2 ^ 63 < val k.timeFreq + pllStep k tvSec offset + fllStep cfg k tvSec offset ∧
      val k.timeFreq + pllStep k tvSec offset + fllStep cfg k tvSec offset ≤ 2 ^ 63
  fll : NotOpposed (loopOffset k offset) (val k.timeFreq) (clampSum
    (val k.timeFreq + pllStep k tvSec offset + fllStep cfg k tvSec offset))

theorem val_clampFreq_of_bmod {v : LFp64} {sum : ℤ} (hv : val v = sum.bmod (2 ^ 64))
    (hsum : -2 ^ 63 < sum ∧ sum ≤ 2 ^ 63) : val (clampFreq v) = clampSum sum := by
  have hclamp := val_clampFreq v
  unfold maxfreq at hclamp
  rw [abs_lt] at hclamp
  unfold clampSum maxfreq
  -- the sum `2 ^ 63` comes out as the least value, and is clamped all the same
  rcases lt_or_eq_of_le hsum.2 with hlt | heq
  · rw [bmod_of_fits (by decide) ⟨hsum.1.le, hlt⟩] at hv
    split_ifs <;> omega
  · rw [bmod_of_fits_sub (by decide) ⟨by omega, by omega⟩] at hv
    rw [if_pos (by omega)]
    omega

/-- The clamp of a sum that left its range ends on the side against the
offset. -/
theorem notOpposed_clampFreq_iff {v : LFp64} {monitor freq pll fll : ℤ}
    (hfreq : |freq| < (maxfreq + 1) * 2 ^ 32)
    (hpos : 0 ≤ monitor → 0 ≤ pll) (hneg : monitor ≤ 0 → pll ≤ 0)
    (hfll : |fll| ≤ 488282 * 2 ^ 32)
    (hpll : Fits 64 pll) (hsum : Fits 64 (freq + pll))
    (hv : val v = (freq + pll + fll).bmod (2 ^ 64)) :
    NotOpposed monitor freq (val (clampFreq v)) ↔
      (-2 ^ 63 < freq + pll + fll ∧ freq + pll + fll ≤ 2 ^ 63) ∧
        NotOpposed monitor freq (clampSum (freq + pll + fll)) := by
  have hfreq' := abs_lt.mp hfreq
  have hfll' := abs_le.mp hfll
  have hsum' := fits_64.mp hsum
  have hpll' := fits_64.mp hpll
  constructor
  · intro h
    have hrange : -2 ^ 63 < freq + pll + fll ∧ freq + pll + fll ≤ 2 ^ 63 := by
      have hclamp := val_clampFreq v
      unfold maxfreq at hfreq' hclamp
      rw [abs_lt] at hclamp
      unfold NotOpposed at h
      -- the wrapped sum has the other sign, and so has its clamp
      by_contra hout
      rcases not_and_or.mp hout with hlow | hhigh
      · by_cases hleast : freq + pll + fll = -2 ^ 63
        · rw [hleast] at hv
          have hv' : val v = -2 ^ 63 := hv
          omega
        · rw [bmod_of_fits_add (by decide) ⟨by omega, by omega⟩] at hv
          omega
      · rw [bmod_of_fits_sub (by decide) ⟨by omega, by omega⟩] at hv
        omega
    rw [val_clampFreq_of_bmod hv hrange] at h
    exact ⟨hrange, h⟩
  · rintro ⟨hrange, h⟩
    rw [val_clampFreq_of_bmod hv hrange]
    exact h

/-- Terms with the sign of the offset do not act against it, nor does their
clamp. -/
theorem notOpposed_clampSum {monitor freq step : ℤ}
    (hfreq : |freq| < (maxfreq + 1) * 2 ^ 32) (hpos : 0 ≤ monitor → 0 ≤ step)
    (hneg : monitor ≤ 0 → step ≤ 0) :
    NotOpposed monitor freq (clampSum (freq + step)) := by
  have hfreq' := abs_lt.mp hfreq
  unfold maxfreq at hfreq'
  unfold NotOpposed clampSum maxfreq
  split_ifs <;> omega

theorem abs_loopOffset_le {k : Kernel LFp64} (hk : Envelope k) (offset : ℤ) :
    |loopOffset k offset| ≤ maxphase := by
  unfold loopOffset
  split_ifs
  · exact hk.monitor
  · exact abs_clamp_le (by decide) offset

/-- The PLL term, from the offset and the time constant the update starts
with. -/
theorem val_pllTerm_update {k : Kernel LFp64} (hk : Envelope k)
    (tvSec mtemp offset : ℤ) :
    val (pllTerm (updateReftime (updatePhase k offset) tvSec) mtemp)
      = (mtemp * pllGain (loopOffset k offset) k.timeConstant).bmod (2 ^ 64) := by
  obtain ⟨hmon, htc⟩ := updateReftime_updatePhase k tvSec offset
  rw [← hmon, ← htc]
  refine val_pllTerm ?_ ?_ mtemp
  · rw [hmon]
    exact abs_loopOffset_le hk offset
  · rw [htc]
    exact hk.constant

/-- The sum of the frequency and both terms, once the PLL term fits. -/
theorem val_unclampedFreq_bmod {cfg : Config} {k : Kernel LFp64} {tvSec offset : ℤ}
    (hk : Envelope k)
    (hmtemp : cfg.long (updateInterval k tvSec) = updateInterval k tvSec)
    (hfit : Fits 64 (pllStep k tvSec offset))
    (hfirst : Fits 64 (val k.timeFreq + pllStep k tvSec offset)) :
    val (unclampedFreq cfg k tvSec offset)
      = (val k.timeFreq + pllStep k tvSec offset + fllStep cfg k tvSec offset).bmod
        (2 ^ 64) := by
  have hmon := (updateReftime_updatePhase k tvSec offset).1
  have hmonitor : |(updateReftime (updatePhase k offset) tvSec).timeMonitor|
      ≤ maxphase := by
    rw [hmon]
    exact abs_loopOffset_le hk offset
  have hterm := val_pllTerm_update hk tvSec (updateInterval k tvSec) offset
  rw [← pllStep, bmod_of_fits (by decide) hfit] at hterm
  have hadd := val_lAdd_of_fits (v := k.timeFreq) (u := pllTerm
    (updateReftime (updatePhase k offset) tvSec) (updateInterval k tvSec))
    (by rw [hterm]; exact hfirst)
  rw [hterm] at hadd
  unfold unclampedFreq fllStep
  dsimp only
  rw [hmtemp]
  split_ifs with hsel
  · rw [val_lAdd, hadd, val_fllTerm_long cfg hmonitor (le_of_fllSelected hsel), hmon]
  · rw [hadd, add_zero, bmod_of_fits (by decide) hfirst]

theorem pllStep_sign {k : Kernel LFp64} {tvSec : ℤ} (h0 : 0 ≤ updateInterval k tvSec)
    (offset : ℤ) :
    (0 ≤ loopOffset k offset → 0 ≤ pllStep k tvSec offset) ∧
      (loopOffset k offset ≤ 0 → pllStep k tvSec offset ≤ 0) := by
  obtain ⟨hpos, hneg⟩ := pllGain_sign (loopOffset k offset) k.timeConstant
  exact ⟨fun h => mul_nonneg h0 (hpos h),
    fun h => mul_nonpos_of_nonneg_of_nonpos h0 (hneg h)⟩

/-- Under the envelope the integrator is exact exactly when the sum fits. -/
theorem pllExact_iff_of_envelope {cfg : Config} {k : Kernel LFp64}
    {tvSec offset : ℤ} (hk : Envelope k) (hpll : has k.timeStatus staPll = true)
    (hpps : ppsFrequency k = false) (h0 : 0 ≤ updateInterval k tvSec)
    (h1 : updateInterval k tvSec < 2 ^ 31) :
    PllExact cfg k tvSec offset ↔ FreqSumFits cfg k tvSec offset := by
  have hmtemp : cfg.long (updateInterval k tvSec) = updateInterval k tvSec :=
    cfg.long_of_fits ⟨by omega, by omega⟩
  obtain ⟨hpos, hneg⟩ := pllStep_sign h0 offset
  have hfll := abs_fllStep_le cfg (abs_loopOffset_le hk offset) tvSec
  -- what is stored, once the product and the first sum fit
  have hsum := fun hfit hfirst =>
    notOpposed_clampFreq_iff (abs_val_freq_lt hk.freq) hpos hneg hfll hfit hfirst
      (val_unclampedFreq_bmod hk hmtemp hfit hfirst)
  have hterm := val_pllTerm_update hk tvSec (updateInterval k tvSec) offset
  constructor
  · rintro ⟨-, hfit, hfirst, hopp⟩
    rw [hardupdate_timeFreq hpll hpps] at hopp
    obtain ⟨htotal, hfll⟩ := (hsum hfit hfirst).mp hopp
    exact ⟨hfit, hfirst, htotal, hfll⟩
  · rintro ⟨hfit, hfirst, htotal, hfll⟩
    refine ⟨?_, hfit, hfirst, ?_⟩
    · rw [hmtemp, hterm]
      exact bmod_of_fits (by decide) hfit
    · rw [hardupdate_timeFreq hpll hpps]
      exact (hsum hfit hfirst).mpr ⟨htotal, hfll⟩

/-- In every reachable state with the PLL in control, the integrator is exact
and does not act against the offset exactly when the frequency sum fits. -/
theorem pllExact_iff (cfg : Config) (c : Clock LFp64) (offset : ℤ)
    (hc : Clock.Reachable cfg c) (hpll : has c.k.timeStatus staPll = true)
    (hpps : ppsFrequency c.k = false) (h0 : 0 ≤ updateInterval c.k c.tv.tvSec)
    (h1 : updateInterval c.k c.tv.tvSec < 2 ^ 31) :
    PllExact cfg c.k c.tv.tvSec offset ↔ FreqSumFits cfg c.k c.tv.tvSec offset :=
  pllExact_iff_of_envelope (Clock.disciplined_of_reachable hc).1 hpll hpps h0 h1

/-- The gain at time constant 0 is the `2^12`-th part of the offset, and a
quarter of that for each step of it. -/
theorem abs_pllGain_mul_le {monitor tc : ℤ} (hm : |monitor| ≤ maxphase) (htc : 0 ≤ tc) :
    |pllGain monitor tc| * (4096 * 4 ^ tc.toNat) ≤ maxphase * 2 ^ 32 := by
  have hle := abs_le.mp hm
  have hshift : (2 * (shiftPll + 2 + tc)).toNat = 12 + 2 * tc.toNat := by
    unfold shiftPll
    omega
  have hpow : (2 : ℤ) ^ (12 + 2 * tc.toNat) = 4096 * 4 ^ tc.toNat := by
    rw [pow_add, pow_mul]
    norm_num
  have hmul := abs_tdiv_mul_le (monitor * 2 ^ 32)
    (le_refl (2 * (shiftPll + 2 + tc)).toNat)
  have habs : |monitor * 2 ^ 32| ≤ maxphase * 2 ^ 32 :=
    abs_le.mpr ⟨by omega, by omega⟩
  unfold pllGain
  rw [hshift, hpow] at hmul ⊢
  exact hmul.trans habs

/-- Intervals up to 17584 s (under five hours) at time constant 0, and four
times as long for each step of it, are safe at any offset and frequency, as
long as the FLL has a `long` wide enough for the offset. -/
theorem freqSumFits_of_interval_le {cfg : Config} {k : Kernel LFp64} {tvSec offset : ℤ}
    (hk : Envelope k) (h0 : 0 ≤ updateInterval k tvSec)
    (hle : updateInterval k tvSec ≤ 17584 * 4 ^ k.timeConstant.toNat)
    (hlong : fllSelected k (updateInterval k tvSec) = true →
      cfg.Fits (loopOffset k offset * 16)) :
    FreqSumFits cfg k tvSec offset := by
  have hloop := abs_loopOffset_le hk offset
  have hfreq := abs_val_freq_lt hk.freq
  obtain ⟨hpos, hneg⟩ := pllStep_sign h0 offset
  obtain ⟨hfpos, hfneg⟩ := fllStep_sign hlong
  have hgain := abs_pllGain_mul_le hloop hk.constant.1
  unfold maxphase at hgain
  have hpll : |pllStep k tvSec offset| ≤ 17584 * (500000000 * 2 ^ 20) := by
    unfold pllStep
    rw [abs_mul, abs_of_nonneg h0]
    calc updateInterval k tvSec * |pllGain (loopOffset k offset) k.timeConstant|
        ≤ 17584 * 4 ^ k.timeConstant.toNat
            * |pllGain (loopOffset k offset) k.timeConstant| :=
          mul_le_mul_of_nonneg_right hle (abs_nonneg _)
      _ = 17584 * (|pllGain (loopOffset k offset) k.timeConstant|
            * 4 ^ k.timeConstant.toNat) := by ring
      _ ≤ 17584 * (500000000 * 2 ^ 20) := by
          refine mul_le_mul_of_nonneg_left ?_ (by decide)
          rw [mul_left_comm] at hgain
          omega
  have hpll' := abs_le.mp hpll
  have hfll' := abs_le.mp (abs_fllStep_le cfg hloop tvSec)
  have hfreq' := abs_lt.mp hfreq
  unfold maxfreq at hfreq'
  refine ⟨⟨by omega, by omega⟩, ⟨by omega, by omega⟩, ⟨by omega, by omega⟩, ?_⟩
  rw [add_assoc]
  exact notOpposed_clampSum hfreq (fun h => add_nonneg (hpos h) (hfpos h))
    (fun h => add_nonpos (hneg h) (hfneg h))

/-! ## A long server outage -/

/-- The loop is locked at offset zero since second 1000000, and nobody calls:
only the seconds and the maximum error move. -/
def idle (maxerror tvSec : ℤ) : Clock LFp64 :=
  ⟨{ (Kernel.boot oneHertz : Kernel LFp64) with
    timeStatus := staPll
    timeReftime := 1000000
    timeMaxerror := maxerror }, ⟨tvSec, 0⟩⟩

theorem locked_idle (m s : ℤ) : Clock.Locked oneHertz (idle m s).k := by
  have hlocked : Clock.Locked oneHertz (idle 0 0).k :=
    ⟨rfl, by decide +kernel, by decide +kernel⟩
  exact hlocked.withError m

theorem run_tick_idle (n : ℕ) (m s : ℤ) :
    ∃ m', run (Clock.step oneHertz) (idle m s) (List.replicate n .tick)
      = idle m' (s + n) := by
  refine ⟨_, Clock.run_tick_of_locked (locked_idle m s) rfl n fun i _ => ?_⟩
  exact leapSecond_of_ok rfl (by decide : has staPll _ = false) _

/-- The clock gets there: `STA_PLL` is set, one update, and `n` seconds of
silence. -/
theorem reachable_idle (n : ℕ) :
    ∃ m, Clock.Reachable oneHertz (idle m (1000000 + n)) := by
  have hstart : run (Clock.step oneHertz)
      (⟨Kernel.boot oneHertz, ⟨1000000, 0⟩⟩ : Clock LFp64)
      [.adjtime { modes := modStatus, status := staPll }, .hardupdate 0]
        = idle 500000 1000000 := by
    decide +kernel
  obtain ⟨m, hm⟩ := run_tick_idle n 500000 1000000
  refine ⟨m, ⟨Kernel.boot oneHertz, ⟨1000000, 0⟩⟩,
    [.adjtime { modes := modStatus, status := staPll }, .hardupdate 0]
      ++ List.replicate n .tick, rfl, ?_, ?_⟩
  · apply along_of_forall
    intro e he s
    cases e with
    | hardpps tsp nsec => simp [List.mem_replicate] at he
    | _ => trivial
  · rw [run_append, hstart, hm]

theorem updateInterval_idle (m s : ℤ) :
    updateInterval (idle m s).k s = s - 1000000 := by
  unfold updateInterval
  exact if_neg (by decide : ¬ (has staPll staFreqhold || (1000000 : ℤ) == 0) = true)

theorem loopOffset_idle (m s : ℤ) : loopOffset (idle m s).k 500000000 = 500000000 := by
  have hpps : ppsTime (idle m s).k = false :=
    (by decide : (has staPll staPpstime && has staPll staPpssignal) = false)
  rw [loopOffset, hpps, if_neg Bool.false_ne_true]
  decide

/-- Five hours without a server, then a full offset: the product overflows. -/
theorem not_pllExact : ¬ ∀ (cfg : Config) (c : Clock LFp64) (offset : ℤ),
    Clock.Reachable cfg c → has c.k.timeStatus staPll = true →
    ppsTime c.k = false → ppsFrequency c.k = false →
    0 ≤ updateInterval c.k c.tv.tvSec →
    updateInterval c.k c.tv.tvSec < 2 ^ 31 → PllExact cfg c.k c.tv.tvSec offset := by
  intro h
  obtain ⟨m, hreach⟩ := reachable_idle 17593
  rw [show (1000000 : ℤ) + (17593 : ℕ) = 1017593 from by norm_num] at hreach
  have hinterval : updateInterval (idle m 1017593).k (idle m 1017593).tv.tvSec
      = 17593 := updateInterval_idle m 1017593
  have hfits := (h oneHertz _ 500000000 hreach (by decide : has staPll staPll = true)
    (by decide : (has staPll staPpstime && has staPll staPpssignal) = false)
    (by decide : (has staPll staPpsfreq && has staPll staPpssignal) = false)
    (by rw [hinterval]; decide) (by rw [hinterval]; decide)).product
  rw [hinterval, loopOffset_idle] at hfits
  exact absurd hfits (by decide +kernel : ¬ Fits 64 (17593 * pllGain 500000000 0))

theorem reachable_idle_two : Clock.Reachable oneHertz (idle 501000 1000002) :=
  ⟨⟨Kernel.boot oneHertz, ⟨1000000, 0⟩⟩,
    [.adjtime { modes := modStatus, status := staPll }, .hardupdate 0, .tick, .tick],
    rfl, by decide, by decide +kernel⟩

/-- A full offset two seconds after the last update. -/
theorem pllExact_iff_idle :
    PllExact oneHertz (idle 501000 1000002).k 1000002 500000000 ↔
      FreqSumFits oneHertz (idle 501000 1000002).k 1000002 500000000 :=
  pllExact_iff oneHertz (idle 501000 1000002) 500000000 reachable_idle_two
    (by decide) (by decide) (by decide) (by decide)

end LFp64

end Nanokernel
