import Nanokernel.Kernel.PllIntegrator

/-!
# The FLL frequency estimator

`hardupdate` scales the offset by 16 before it divides by the interval. The
product is a `long`, and the clamp of the offset at `maxphase` does not keep it
in 32 bits: the estimate is exact for offsets up to `2 ^ 27` ns
(`fllExact_iff`).
-/

namespace Nanokernel

open BitMask SignedWord

variable {F : Type} [LFp F]

/-- The FLL term that `hardupdate` adds, when it is selected. -/
def fllAdded (cfg : Config) (k : Kernel F) (tvSec offset : ℤ) : F :=
  fllTerm cfg (updateReftime (updatePhase k offset) tvSec)
    (cfg.long (updateInterval k tvSec))

/-- The estimate in exact integers. -/
def fllGain (monitor mtemp : ℤ) : ℤ :=
  ((16 * monitor).tdiv mtemp * 2 ^ 32).tdiv (2 ^ (shiftFll + 4).toNat)

variable [LawfulLFp F]

/-- The term added to the frequency is the exact estimate. It has the sign of
the offset, and at most a quarter of its size for each second. -/
structure FllExact (cfg : Config) (k : Kernel F) (tvSec offset : ℤ) : Prop where
  added : (hardupdate cfg k tvSec offset).timeFreq = clampFreq
    (lAdd (lAdd k.timeFreq (pllTerm (updateReftime (updatePhase k offset) tvSec)
      (cfg.long (updateInterval k tvSec)))) (fllAdded cfg k tvSec offset))
  term : val (fllAdded cfg k tvSec offset)
    = fllGain (loopOffset k offset) (cfg.long (updateInterval k tvSec))
  nonneg : 0 ≤ loopOffset k offset → 0 ≤ val (fllAdded cfg k tvSec offset)
  nonpos : loopOffset k offset ≤ 0 → val (fllAdded cfg k tvSec offset) ≤ 0
  bound : |val (fllAdded cfg k tvSec offset)| * (4 * cfg.long (updateInterval k tvSec))
    ≤ |loopOffset k offset| * 2 ^ 32

/-! ## The exact estimate -/

/-- The quotient is shifted to the left, for the shift by 6 is less than the
fraction of the `l_fp`. -/
theorem shift_quotient (q : ℤ) : (q * 2 ^ 32).tdiv (2 ^ (shiftFll + 4).toNat) = q * 2 ^ 26 := by
  have hpow : (2 : ℤ) ^ 32 = 2 ^ 26 * 2 ^ (shiftFll + 4).toNat := by decide
  rw [hpow, ← mul_assoc]
  exact Int.mul_tdiv_cancel _ (by decide)

theorem fllGain_eq (monitor mtemp : ℤ) :
    fllGain monitor mtemp = (16 * monitor).tdiv mtemp * 2 ^ 26 :=
  shift_quotient _

theorem fllGain_nonneg {monitor mtemp : ℤ} (hmtemp : minsec ≤ mtemp) (h : 0 ≤ monitor) :
    0 ≤ fllGain monitor mtemp ∧ fllGain monitor mtemp * (4 * mtemp) ≤ monitor * 2 ^ 32 := by
  have hpos : 0 < mtemp := lt_of_lt_of_le (by decide) hmtemp
  obtain ⟨hq, hle⟩ := tdiv_mul_le (x := 16 * monitor) (by omega) hpos le_rfl
  rw [fllGain_eq]
  refine ⟨by omega, ?_⟩
  calc (16 * monitor).tdiv mtemp * 2 ^ 26 * (4 * mtemp)
      = (16 * monitor).tdiv mtemp * mtemp * 2 ^ 28 := by ring
    _ ≤ 16 * monitor * 2 ^ 28 := mul_le_mul_of_nonneg_right hle (by decide)
    _ = monitor * 2 ^ 32 := by ring

theorem fllGain_neg (monitor mtemp : ℤ) : fllGain (-monitor) mtemp = -fllGain monitor mtemp := by
  rw [fllGain_eq, fllGain_eq, mul_neg, Int.neg_tdiv, neg_mul]

theorem fllGain_nonpos {monitor mtemp : ℤ} (hmtemp : minsec ≤ mtemp) (h : monitor ≤ 0) :
    fllGain monitor mtemp ≤ 0 := by
  have hneg := (fllGain_nonneg hmtemp (neg_nonneg.mpr h)).1
  rw [fllGain_neg] at hneg
  exact neg_nonneg.mp hneg

theorem abs_fllGain_mul_le {monitor mtemp : ℤ} (hmtemp : minsec ≤ mtemp) :
    |fllGain monitor mtemp| * (4 * mtemp) ≤ |monitor| * 2 ^ 32 := by
  rcases le_total 0 monitor with h | h
  · obtain ⟨hnn, hle⟩ := fllGain_nonneg hmtemp h
    rw [abs_of_nonneg hnn, abs_of_nonneg h]
    exact hle
  · have hle := (fllGain_nonneg hmtemp (neg_nonneg.mpr h)).2
    rw [fllGain_neg] at hle
    rw [abs_of_nonpos (fllGain_nonpos hmtemp h), abs_of_nonpos h]
    exact hle

/-! ## The estimate of the code -/

/-- The term of the code, from the offset as the `long` has it. -/
theorem val_fllAdded (cfg : Config) {k : Kernel F} {tvSec offset : ℤ}
    (hm : |loopOffset k offset| ≤ maxphase)
    (hsel : fllSelected k (cfg.long (updateInterval k tvSec)) = true) :
    val (fllAdded cfg k tvSec offset)
      = (cfg.long (loopOffset k offset <<< (4 : ℕ))).tdiv
          (cfg.long (updateInterval k tvSec)) * 2 ^ 26 := by
  have hmon := (updateReftime_updatePhase k tvSec offset).1
  have hle : |(updateReftime (updatePhase k offset) tvSec).timeMonitor| ≤ maxphase := by
    rw [hmon]
    exact hm
  unfold fllAdded
  rw [val_fllTerm_long cfg hle (le_of_fllSelected hsel), hmon]
  exact shift_quotient _

/-- On a machine with a 32-bit `long`, the prescaled offset is a turn off or
more once it does not fit, and so is the quotient by any interval. -/
theorem quotient_eq_iff {cfg : Config} (hlong : cfg.longWidth = .ilp32) {monitor mtemp : ℤ}
    (hpos : 0 < mtemp) (hlt : mtemp < 2 ^ 31) :
    (cfg.long (monitor <<< (4 : ℕ))).tdiv mtemp = (16 * monitor).tdiv mtemp ↔
      -2 ^ 27 ≤ monitor ∧ monitor < 2 ^ 27 := by
  have hfits : cfg.Fits (monitor * 16) ↔ -2 ^ 27 ≤ monitor ∧ monitor < 2 ^ 27 := by
    unfold Config.Fits Fits
    rw [hlong]
    simp only [LongWidth.bits]
    omega
  rw [← hfits]
  constructor
  · intro heq
    by_contra hno
    have hturn : 2 ^ 32 ≤ |monitor * 16 - cfg.long (monitor * 16)| := by
      have hturn := le_abs_sub_bmod hno
      rw [hlong] at hturn
      rw [Config.long, hlong]
      exact hturn
    have hshift : monitor <<< (4 : ℕ) = monitor * 16 := Int.shiftLeft_eq _ _
    rw [hshift, mul_comm 16] at heq
    have hfar : 2 * mtemp ≤ |monitor * 16 - cfg.long (monitor * 16)| := by omega
    exact tdiv_ne_of_two_mul_le hpos hfar heq.symm
  · intro h
    rw [long_prescaled h, mul_comm]

/-- With a 32-bit `long` the estimator is exact exactly on the offsets that
stay a `long` when they are scaled. -/
theorem fllExact_iff (cfg : Config) (hlong : cfg.longWidth = .ilp32) (k : Kernel F)
    (tvSec offset : ℤ) (hm : |loopOffset k offset| ≤ maxphase)
    (hpll : has k.timeStatus staPll = true) (hpps : ppsFrequency k = false)
    (hsel : fllSelected k (cfg.long (updateInterval k tvSec)) = true) :
    FllExact cfg k tvSec offset ↔
      -2 ^ 27 ≤ loopOffset k offset ∧ loopOffset k offset < 2 ^ 27 := by
  have hmin := le_of_fllSelected hsel
  have hpos : 0 < cfg.long (updateInterval k tvSec) := lt_of_lt_of_le (by decide) hmin
  have hlt : cfg.long (updateInterval k tvSec) < 2 ^ 31 := by
    have hfit := (fits_bmod cfg.longWidth.bits (updateInterval k tvSec)).2
    rw [hlong] at hfit
    rw [Config.long, hlong]
    exact hfit
  have hval := val_fllAdded cfg hm hsel
  rw [← quotient_eq_iff hlong hpos hlt]
  constructor
  · intro h
    have hterm := h.term
    rw [hval, fllGain_eq] at hterm
    exact mul_right_cancel₀ (by decide) hterm
  · intro heq
    have hterm : val (fllAdded cfg k tvSec offset)
        = fllGain (loopOffset k offset) (cfg.long (updateInterval k tvSec)) := by
      rw [hval, heq, fllGain_eq]
    refine ⟨?_, hterm, ?_, ?_, ?_⟩
    · rw [hardupdate_timeFreq hpll hpps]
      unfold unclampedFreq fllAdded
      rw [if_pos hsel]
    · intro h
      rw [hterm]
      exact (fllGain_nonneg hmin h).1
    · intro h
      rw [hterm]
      exact fllGain_nonpos hmin h
    · rw [hterm]
      exact abs_fllGain_mul_le hmin

/-- In frequency lock since second 1000000, on a 32-bit machine. -/
def frequencyLock : Kernel LFp32 :=
  { (Kernel.boot oneHertz32 : Kernel LFp32) with
    timeStatus := staPll ||| staFll
    timeReftime := 1000000 }

/-- An offset of 100 ms after 256 s. -/
theorem fllExact_iff_frequencyLock :
    FllExact oneHertz32 frequencyLock 1000256 100000000 ↔
      -2 ^ 27 ≤ loopOffset frequencyLock 100000000 ∧
        loopOffset frequencyLock 100000000 < 2 ^ 27 :=
  fllExact_iff oneHertz32 rfl frequencyLock 1000256 100000000 (by decide) (by decide)
    (by decide) (by decide)

/-- An offset of 200 ms after 256 s is taken for one of about -68 ms. -/
theorem not_fllExact : ¬ ∀ (cfg : Config) (k : Kernel LFp32) (tvSec offset : ℤ),
    cfg.longWidth = .ilp32 → |loopOffset k offset| ≤ maxphase →
    has k.timeStatus staPll = true → ppsFrequency k = false →
    fllSelected k (cfg.long (updateInterval k tvSec)) = true →
    FllExact cfg k tvSec offset := by
  intro h
  have hexact := h oneHertz32 frequencyLock 1000256 200000000 rfl (by decide) (by decide)
    (by decide) (by decide)
  exact absurd hexact.term (by decide +kernel)

end Nanokernel
