import Mathlib.Tactic.IntervalCases
import Nanokernel.Kernel.CalibrationInterval

/-!
# The frequency at the end of an interval

What `hardpps` has counted in `2^pps_shift` seconds is compared with a limit and, if it
is within, divided by the length of the interval. The limit passes through a `long`, the
count through the integral part of a 32.32 fixed-point word.
-/

namespace Nanokernel

open SignedWord Run

section Measurement

variable {F : Type} (cfg : Config) (pps : Pps F)

/-- `MAXFREQ << pps_shift`. -/
def Pps.sanityLimit : ℤ := cfg.long (maxfreq <<< pps.shift.toNat)

/-- The count is within the limit. -/
def Pps.Sane : Prop :=
  cfg.long (-pps.fcount) ≤ pps.sanityLimit cfg ∧
    cfg.long (-pps.sanityLimit cfg) ≤ cfg.long (-pps.fcount)

instance : Decidable (pps.Sane cfg) := inferInstanceAs (Decidable (_ ∧ _))

/-- The frequency before `pps_freq` is subtracted. -/
def Pps.rawFrequency [LFp F] : F := lRshift (lLint (cfg.long (-pps.fcount))) pps.shift.toNat

/-- These are the limit and the frequency that decide on the interval. -/
theorem Pps.calibration_eq [LFp F] : pps.calibration cfg =
    let uSec := cfg.long (pps.tf0.tvSec - pps.lastsec)
    let wander := lGint (lSub (pps.rawFrequency cfg) pps.freq)
    if uSec < 1 <<< pps.shift.toNat then .running
    else if ¬ pps.Sane cfg ∨ uSec ≠ 1 <<< pps.shift.toNat then .discarded
    else if wander > ppsMaxwander ∨ wander < -ppsMaxwander then .noisy
    else .quiet := by
  have hdiscard : ((decide (cfg.long (-pps.fcount) > cfg.long (maxfreq <<< pps.shift.toNat)) ||
      decide (cfg.long (-pps.fcount) < cfg.long (-cfg.long (maxfreq <<< pps.shift.toNat))) ||
      cfg.long (pps.tf0.tvSec - pps.lastsec) != 1 <<< pps.shift.toNat) = true) ↔
      (¬ pps.Sane cfg ∨ cfg.long (pps.tf0.tvSec - pps.lastsec) ≠ 1 <<< pps.shift.toNat) := by
    unfold Pps.Sane Pps.sanityLimit
    rw [Bool.or_eq_true, Bool.or_eq_true, decide_eq_true_iff, decide_eq_true_iff, bne_iff_ne,
      not_and_or, not_le, not_le]
  unfold Pps.calibration
  dsimp only
  simp only [hdiscard]
  rfl

/-- The limit and the frequency are what they would be without words. -/
structure FrequencyExact (pps : Pps LFp64) : Prop where
  limit : pps.sanityLimit cfg = maxfreq * 2 ^ pps.shift.toNat
  frequency : pps.Sane cfg →
    (pps.rawFrequency cfg).toInt = (-pps.fcount * 2 ^ 32).tdiv (2 ^ pps.shift.toNat)

/-- The limit fits, and what is within it has 32 bits. -/
def FrequencyFits (pps : Pps LFp64) : Prop :=
  cfg.Fits (maxfreq * 2 ^ pps.shift.toNat) ∧
    (Fits 32 pps.fcount ∨ maxfreq * 2 ^ pps.shift.toNat < |pps.fcount|)

end Measurement

/-- A `long` of 32 bits holds the limit up to intervals of 4096 s. -/
theorem fits_limit_iff (cfg : Config) {n : ℕ} (hn : n ≤ ppsFavgmax.toNat) :
    cfg.Fits (maxfreq * 2 ^ n) ↔ cfg.longWidth = .lp64 ∨ n ≤ 12 := by
  have hn15 : n ≤ 15 := hn
  unfold Config.Fits
  cases cfg.longWidth <;> interval_cases n <;> decide

/-- The division of a count by the length of the interval. -/
theorem toInt_lRshift_lLint_iff {n : ℕ} (hn : 1 ≤ n) (hn32 : n ≤ 32) (x : ℤ) :
    (lRshift (lLint x : LFp64) n).toInt = (x * 2 ^ 32).tdiv (2 ^ n) ↔ Fits 32 (-x) := by
  have hlint : (lLint x : LFp64) = BitVec.ofInt 64 (x * 2 ^ 32) := by
    apply BitVec.eq_of_toInt_eq
    rw [BitVec.toInt_ofInt]
    exact LFp64.toInt_shiftLeft_half x
  rw [LFp64.lRshift_eq, hlint, toInt_truncShift_ofInt_iff hn (by omega)]
  constructor
  · rintro ⟨hlo, hhi⟩
    exact ⟨by omega, by omega⟩
  · rintro ⟨hlo, hhi⟩
    exact ⟨by omega, by omega⟩

/-- Within a limit that fits, `long` arithmetic loses nothing. -/
theorem sane_iff (cfg : Config) {pps : Pps LFp64} (hfcount : cfg.Fits pps.fcount)
    (hlimit : cfg.Fits (maxfreq * 2 ^ pps.shift.toNat)) :
    pps.Sane cfg ↔ |pps.fcount| ≤ maxfreq * 2 ^ pps.shift.toNat := by
  have hsanity : pps.sanityLimit cfg = maxfreq * 2 ^ pps.shift.toNat := by
    unfold Pps.sanityLimit
    rw [Int.shiftLeft_eq, cfg.long_eq_iff.mpr hlimit]
  have hpos : 0 < maxfreq * 2 ^ pps.shift.toNat := mul_pos (by decide) (by positivity)
  have hneg : cfg.long (-(maxfreq * 2 ^ pps.shift.toNat)) = -(maxfreq * 2 ^ pps.shift.toNat) :=
    cfg.long_eq_iff.mpr ⟨by have := hlimit.2; omega, by have := hlimit.2; omega⟩
  unfold Pps.Sane
  rw [hsanity, hneg, abs_le]
  by_cases hmin : pps.fcount = -2 ^ (cfg.longWidth.bits - 1)
  · have hturn : (2 : ℤ) ^ cfg.longWidth.bits = 2 * 2 ^ (cfg.longWidth.bits - 1) := by
      cases cfg.longWidth <;> decide
    have hhalf : (0 : ℤ) < 2 ^ (cfg.longWidth.bits - 1) := by positivity
    have hlong : cfg.long (-pps.fcount) = -pps.fcount - 2 ^ cfg.longWidth.bits :=
      bmod_of_fits_sub (by cases cfg.longWidth <;> decide) ⟨by omega, by omega⟩
    have hhi := hlimit.2
    rw [hlong]
    omega
  · have hlong : cfg.long (-pps.fcount) = -pps.fcount :=
      cfg.long_eq_iff.mpr ⟨by have := hfcount.2; omega, by have := hfcount.1; omega⟩
    rw [hlong]
    omega

/-- In every state whose interval is within the limits of the API, and for every count that
a `long` holds: the limit and the frequency are exact if and only if the limit fits and a
count within it has 32 bits. -/
theorem frequencyExact_iff (cfg : Config) (pps : Pps LFp64) (hlo : ppsFavg ≤ pps.shift)
    (hhi : pps.shift ≤ ppsFavgmax) (hfcount : cfg.Fits pps.fcount) :
    FrequencyExact cfg pps ↔ FrequencyFits cfg pps := by
  unfold ppsFavg at hlo
  unfold ppsFavgmax at hhi
  have hlimit : pps.sanityLimit cfg = maxfreq * 2 ^ pps.shift.toNat ↔
      cfg.Fits (maxfreq * 2 ^ pps.shift.toNat) := by
    unfold Pps.sanityLimit
    rw [Int.shiftLeft_eq, cfg.long_eq_iff]
  have hfrequency (hfits : cfg.Fits (maxfreq * 2 ^ pps.shift.toNat))
      (hsane : |pps.fcount| ≤ maxfreq * 2 ^ pps.shift.toNat) :
      (pps.rawFrequency cfg).toInt = (-pps.fcount * 2 ^ 32).tdiv (2 ^ pps.shift.toNat) ↔
        Fits 32 pps.fcount := by
    have hle := abs_le.mp hsane
    have hlong : cfg.long (-pps.fcount) = -pps.fcount :=
      cfg.long_eq_iff.mpr ⟨by have := hfits.2; omega, by have := hfits.2; omega⟩
    unfold Pps.rawFrequency
    rw [hlong, toInt_lRshift_lLint_iff (by omega) (by omega), neg_neg]
  constructor
  · intro h
    have hfits := hlimit.mp h.limit
    refine ⟨hfits, ?_⟩
    by_cases hsane : |pps.fcount| ≤ maxfreq * 2 ^ pps.shift.toNat
    · exact Or.inl ((hfrequency hfits hsane).mp
        (h.frequency ((sane_iff cfg hfcount hfits).mpr hsane)))
    · exact Or.inr (not_le.mp hsane)
  · rintro ⟨hfits, hcount⟩
    refine ⟨hlimit.mpr hfits, fun h => ?_⟩
    have hsane := (sane_iff cfg hfcount hfits).mp h
    exact (hfrequency hfits hsane).mpr (hcount.resolve_right (not_lt.mpr hsane))

namespace Clock

/-- An interval of 256 s, at the end of which the counter is 2 ms ahead. -/
def calibrated : Pps LFp64 :=
  { (Kernel.boot ppsConfig : Kernel LFp64).pps with shift := 8, fcount := 2000000 }

theorem frequencyExact_iff_calibrated :
    FrequencyExact ppsConfig calibrated ↔ FrequencyFits ppsConfig calibrated :=
  frequencyExact_iff ppsConfig calibrated (by decide) (by decide) (by decide)

/-- Four quiet intervals of each length from 4 s to 4096 s, a pulse at the end of each. -/
def quietHours : List Event :=
  .adjtime { modes := modPpsmax, shift := 15 } ::
    (List.range 44).map fun i => .hardpps ⟨(2 ^ (i / 4) * (4 * (i % 4) + 20) - 16 : ℕ), 0⟩ 0

/-- They end in intervals of 8192 s, for which 32 bits do not hold the limit. -/
theorem not_frequencyExact : ¬ ∀ c : Clock LFp64, c.Reachable ppsConfig →
    ppsFavg ≤ c.k.pps.shift → c.k.pps.shift ≤ ppsFavgmax → FrequencyExact ppsConfig c.k.pps := by
  intro h
  have hexact := h (run (step ppsConfig) ⟨Kernel.boot ppsConfig, ⟨0, 0⟩⟩ quietHours)
    ⟨⟨Kernel.boot ppsConfig, ⟨0, 0⟩⟩, quietHours, rfl, by decide +kernel, rfl⟩
    (by decide +kernel) (by decide +kernel)
  exact absurd hexact.limit (by decide +kernel)

end Clock

end Nanokernel
