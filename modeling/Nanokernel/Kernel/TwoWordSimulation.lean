import Nanokernel.Kernel.TwoWordMacros

/-!
# The two-word build and the 64-bit build

`l_fp.h` promises that the macros hide the word size. `Kernel.toLFp64` reads
the variables of the two-word build as those of the build with `NTP_L64`;
every routine commutes with it but for the integral part of a negative
frequency with a fraction, which one build rounds down and the other towards
zero. The clamp of `hardupdate` and the frequency `ntp_adjtime` reports are
the two places where that shows.
-/

namespace Nanokernel

open SignedWord Run

/-! ## The kernel variables -/

def Pps.toLFp64 (pps : Pps LFp32) : Pps LFp64 where
  tf0 := pps.tf0
  tf1 := pps.tf1
  tf2 := pps.tf2
  freq := pps.freq.toLFp64
  fcount := pps.fcount
  jitter := pps.jitter
  stabil := pps.stabil
  lastcount := pps.lastcount
  lastsec := pps.lastsec
  valid := pps.valid
  shift := pps.shift
  shiftmax := pps.shiftmax
  intcnt := pps.intcnt
  calcnt := pps.calcnt
  jitcnt := pps.jitcnt
  stbcnt := pps.stbcnt
  errcnt := pps.errcnt

/-- The variables of the two-word build, as the other build keeps them. -/
def Kernel.toLFp64 (k : Kernel LFp32) : Kernel LFp64 where
  timeState := k.timeState
  timeStatus := k.timeStatus
  timeTai := k.timeTai
  timeMonitor := k.timeMonitor
  timeConstant := k.timeConstant
  timePrecision := k.timePrecision
  timeMaxerror := k.timeMaxerror
  timeEsterror := k.timeEsterror
  timeReftime := k.timeReftime
  timeTick := k.timeTick
  timeOffset := k.timeOffset.toLFp64
  timeFreq := k.timeFreq.toLFp64
  timeAdj := k.timeAdj.toLFp64
  timePhase := k.timePhase.toLFp64
  pps := k.pps.toLFp64

def Clock.toLFp64 (c : Clock LFp32) : Clock LFp64 := ⟨c.k.toLFp64, c.tv⟩

theorem boot_toLFp64 (cfg : Config) :
    (Kernel.boot cfg : Kernel LFp32).toLFp64 = Kernel.boot cfg := by
  have hclr : (lClr : LFp32).toLFp64 = lClr := by decide
  unfold Kernel.boot ntpInit Kernel.static
  cases cfg.ppsSync <;>
    simp only [Kernel.toLFp64, Pps.toLFp64, LFp32.toLFp64_lLint, hclr,
      Bool.false_eq_true, if_false, if_true]

/-! ## Routines without arithmetic -/

section Flags

variable (cfg : Config) (ntv : Timex) (k : Kernel LFp32) (tvSec : ℤ)

theorem adjError_toLFp64 :
    adjError ntv k.toLFp64 = (adjError ntv k).toLFp64 := by
  unfold adjError
  dsimp only
  split_ifs <;> rfl

theorem adjStatus_toLFp64 :
    adjStatus cfg ntv k.toLFp64 = (adjStatus cfg ntv k).toLFp64 := by
  have hstatus : k.toLFp64.timeStatus = k.timeStatus := rfl
  unfold adjStatus
  dsimp only
  rw [hstatus]
  split_ifs <;> rfl

theorem adjConstant_toLFp64 :
    adjConstant cfg ntv k.toLFp64 = (adjConstant cfg ntv k).toLFp64 := by
  unfold adjConstant
  dsimp only
  split_ifs <;> rfl

theorem leapSecond_toLFp64 :
    leapSecond k.toLFp64 tvSec
      = ((leapSecond k tvSec).1.toLFp64, (leapSecond k tvSec).2) := by
  have hstate : k.toLFp64.timeState = k.timeState := rfl
  have hstatus : k.toLFp64.timeStatus = k.timeStatus := rfl
  unfold leapSecond
  rw [hstate, hstatus]
  cases k.timeState with
  | oop => rfl
  | _ =>
    dsimp only
    split_ifs <;> rfl

theorem ppsWatchdog_toLFp64 :
    ppsWatchdog cfg k.toLFp64 = (ppsWatchdog cfg k).toLFp64 := by
  have hvalid : k.toLFp64.pps.valid = k.pps.valid := rfl
  unfold ppsWatchdog
  rw [hvalid]
  split_ifs <;> rfl

end Flags

/-! ## A tick -/

section Tick

variable {cfg : Config} {k : Kernel LFp32}

theorem nextAdj_toLFp64 (hk : Disciplined k.toLFp64) :
    nextAdj cfg k.toLFp64 = (nextAdj cfg k).toLFp64 := by
  have hshift := amortShift_bounds hk cfg
  have hamort : amortShift cfg k.toLFp64 = amortShift cfg k := rfl
  have hoff := abs_le.mp hk.1.offset
  unfold maxphase at hoff
  have hfits : -2 ^ 63 < val k.timeOffset :=
    lt_of_lt_of_le (by decide) hoff.1
  have hftemp : lRshift k.toLFp64.timeOffset (amortShift cfg k)
      = (lRshift k.timeOffset (amortShift cfg k)).toLFp64 :=
    (LFp32.toLFp64_lRshift hfits (by omega)).symm
  unfold nextAdj
  dsimp only
  rw [hamort, hftemp]
  simp only [Kernel.toLFp64, LFp32.toLFp64_lAdd, LFp32.toLFp64_lAddhi,
    LFp32.toLFp64_lSub]

theorem rollover_toLFp64 (hk : Disciplined k.toLFp64) (tvSec : ℤ) :
    rollover cfg k.toLFp64 tvSec
      = ((rollover cfg k tvSec).1.toLFp64, (rollover cfg k tvSec).2) := by
  have hwiden : widenError cfg k.toLFp64 = (widenError cfg k).toLFp64 := rfl
  have hleap : Disciplined (leapSecond (widenError cfg k) (tvSec + 1)).1.toLFp64 := by
    rw [leapSecond_frame]
    exact ⟨⟨hk.1.monitor, hk.1.offset, hk.1.freq, hk.1.constant, hk.1.adj⟩, hk.2⟩
  rw [rollover_eq, rollover_eq, hwiden, leapSecond_toLFp64]
  dsimp only
  rw [nextAdj_toLFp64 hleap, ppsWatchdog_toLFp64]

/-- A phase that is not negative rounds alike in both builds. -/
theorem tickPhase_toLFp64 (cfg : Config) (hphase : 0 ≤ val k.timePhase)
    (hadj : 0 ≤ val k.timeAdj) (hsum : Fits 64 (val k.timePhase + val k.timeAdj))
    (unit : ℤ) :
    tickPhase cfg k.toLFp64 unit
      = ((tickPhase cfg k unit).1.toLFp64, (tickPhase cfg k unit).2) := by
  have hval : val (lAdd k.timePhase k.timeAdj) = val k.timePhase + val k.timeAdj :=
    val_lAdd_of_fits hsum
  have hadd : lAdd k.toLFp64.timePhase k.toLFp64.timeAdj
      = (lAdd k.timePhase k.timeAdj).toLFp64 := (LFp32.toLFp64_lAdd _ _).symm
  have hint := LFp32.lGint_toLFp64_of_nonneg (v := lAdd k.timePhase k.timeAdj)
    (by omega)
  unfold tickPhase
  dsimp only
  rw [hadd, hint, LFp32.toLFp64_lAddhi]

/-- Whole clock units are taken out of the phase, never more than it holds. -/
theorem tickPhase_nonneg {F : Type} [LFp F] [LawfulLFp F] (cfg : Config)
    {k : Kernel F} {unit : ℤ} (hunit : 1 ≤ unit) (hphase : 0 ≤ val k.timePhase)
    (hadj : 0 ≤ val k.timeAdj) (hsum : Fits 64 (val k.timePhase + val k.timeAdj)) :
    0 ≤ val (tickPhase cfg k unit).1 := by
  have hval : val (lAdd k.timePhase k.timeAdj) = val k.timePhase + val k.timeAdj :=
    val_lAdd_of_fits hsum
  have hint := lGint_nonneg (lAdd k.timePhase k.timeAdj) (by omega)
  have hfit := fits_64.mp hsum
  unfold tickPhase
  dsimp only
  set whole := lGint (lAdd k.timePhase k.timeAdj) with hwhole
  have hwnn : 0 ≤ whole := by omega
  obtain ⟨hnn, hle⟩ := tdiv_mul_le hwnn (by omega : 0 < unit) (le_refl unit)
  have hself : whole.tdiv unit ≤ whole.tdiv unit * unit :=
    le_mul_of_one_le_right hnn hunit
  have hlong : cfg.long (whole.tdiv unit) = whole.tdiv unit :=
    cfg.long_of_fits ⟨by omega, by omega⟩
  have hneg : -whole.tdiv unit * unit = -(whole.tdiv unit * unit) := Int.neg_mul _ _
  have hlong' : cfg.long (-whole.tdiv unit * unit) = -(whole.tdiv unit * unit) := by
    rw [hneg]
    exact cfg.long_of_fits ⟨by omega, by omega⟩
  rw [hlong, hlong', val_lAddhi_of_fits ⟨by omega, by omega⟩]
  omega

end Tick

/-! ## `hardupdate()` -/

/-- `hardupdate` goes on to the frequency. -/
def steersFrequency {F : Type} (k : Kernel F) : Bool :=
  has k.timeStatus staPll && !ppsFrequency k

/-- The exact frequency `hardupdate` brings to its clamp. -/
def freqSum {F : Type} [LFp F] [LawfulLFp F] (cfg : Config) (k : Kernel F)
    (tvSec offset : ℤ) : ℤ :=
  if steersFrequency k then
    val k.timeFreq + pllStep k tvSec offset + fllStep cfg k tvSec offset
  else val k.timeFreq

/-- The update interval fits a half word and no sum overflows 64 bits. -/
def UpdateInRange {F : Type} [LFp F] [LawfulLFp F] (cfg : Config) (k : Kernel F)
    (tvSec offset : ℤ) : Prop :=
  steersFrequency k = true →
    (0 ≤ updateInterval k tvSec ∧ updateInterval k tvSec ≤ 65535) ∧
    Fits 64 (pllStep k tvSec offset) ∧
    Fits 64 (val k.timeFreq + pllStep k tvSec offset) ∧
    -2 ^ 63 < freqSum cfg k tvSec offset ∧ freqSum cfg k tvSec offset < 2 ^ 63

/-- Between `-MAXFREQ - 1` and `-MAXFREQ` only one build clamps. -/
def ClampGap (x : ℤ) : Prop :=
  -((maxfreq + 1) * 2 ^ 32) < x ∧ x < -(maxfreq * 2 ^ 32)

instance (x : ℤ) : Decidable (ClampGap x) := inferInstanceAs (Decidable (_ ∧ _))

theorem toLFp64_clampFreq {v : LFp32} (hmin : -2 ^ 63 < val v)
    (h : ¬ ClampGap (val v)) :
    (clampFreq v).toLFp64 = clampFreq v.toLFp64 := by
  have hfloor : lGint v = val v / 2 ^ 32 := LFp32.lGint_eq_ediv v
  have hround : lGint v.toLFp64 = (val v).tdiv (2 ^ 32) := LFp64.lGint_eq_tdiv hmin
  have hclamp : (lGint v > maxfreq ↔ lGint v.toLFp64 > maxfreq) ∧
      (lGint v < -maxfreq ↔ lGint v.toLFp64 < -maxfreq) := by
    rw [hfloor, hround, tdiv_eq_ediv_add]
    unfold ClampGap maxfreq at *
    omega
  unfold clampFreq
  simp only [hclamp.1, hclamp.2]
  split_ifs
  · exact LFp32.toLFp64_lLint maxfreq
  · exact LFp32.toLFp64_lLint (-maxfreq)
  · rfl

/-- In the gap the two-word build clamps, the other one does not. -/
theorem toLFp64_clampFreq_ne {v : LFp32} (hmin : -2 ^ 63 < val v)
    (h : ClampGap (val v)) : (clampFreq v).toLFp64 ≠ clampFreq v.toLFp64 := by
  have hfloor : lGint v = val v / 2 ^ 32 := LFp32.lGint_eq_ediv v
  have hround : lGint v.toLFp64 = (val v).tdiv (2 ^ 32) := LFp64.lGint_eq_tdiv hmin
  obtain ⟨hlow, hhigh⟩ := h
  unfold maxfreq at hlow hhigh
  rw [tdiv_of_neg (by omega)] at hround
  have hclamped : clampFreq v = lLint (-maxfreq) := by
    unfold clampFreq maxfreq
    rw [if_neg (by omega), if_pos (by omega)]
  have hkept : clampFreq v.toLFp64 = v.toLFp64 := by
    unfold clampFreq maxfreq
    rw [if_neg (by omega), if_neg (by omega)]
  intro heq
  have hval := congrArg (val (F := LFp64)) heq
  rw [hclamped, hkept, LFp32.toLFp64_lLint, val_lLint_of_fits (by decide)] at hval
  have hself : val v.toLFp64 = val v := rfl
  unfold maxfreq at hval
  omega

section Hardupdate

variable {cfg : Config} {tvSec offset : ℤ}

theorem hardupdate_timeFreq_eq {F : Type} [LFp F] (cfg : Config) (k : Kernel F)
    (tvSec offset : ℤ) : (hardupdate cfg k tvSec offset).timeFreq =
      if steersFrequency k then clampFreq (unclampedFreq cfg k tvSec offset)
      else k.timeFreq := by
  unfold steersFrequency
  cases hpll : has k.timeStatus staPll with
  | false =>
    unfold hardupdate
    simp [hpll]
  | true =>
    cases hpps : ppsFrequency k with
    | false => exact hardupdate_timeFreq hpll hpps
    | true =>
      have hpps' : ppsFrequency (updatePhase k offset) = true := by
        rw [updatePhase_frame]
        exact hpps
      unfold hardupdate
      simp only [hpll, hpps', Bool.not_true, Bool.false_eq_true, if_false, if_true,
        Bool.and_false]
      rw [updatePhase_frame]

theorem updatePhase_toLFp64 (k : Kernel LFp32) (offset : ℤ) :
    updatePhase k.toLFp64 offset = (updatePhase k offset).toLFp64 := by
  have hpps : ppsTime k.toLFp64 = ppsTime k := rfl
  unfold updatePhase
  rw [hpps]
  split_ifs
  · rfl
  · simp only [Kernel.toLFp64, LFp32.toLFp64_lLint]

theorem updateReftime_toLFp64 (k : Kernel LFp32) (tvSec : ℤ) :
    updateReftime k.toLFp64 tvSec = (updateReftime k tvSec).toLFp64 := by
  have hstatus : k.toLFp64.timeStatus = k.timeStatus := rfl
  have hreftime : k.toLFp64.timeReftime = k.timeReftime := rfl
  unfold updateReftime
  rw [hstatus, hreftime]
  split_ifs <;> rfl

theorem updateFrequency_toLFp64_frame (k : Kernel LFp32) :
    updateFrequency cfg k.toLFp64 tvSec =
      { (updateFrequency cfg k tvSec).toLFp64 with
        timeFreq := (updateFrequency cfg k.toLFp64 tvSec).timeFreq } := by
  unfold updateFrequency
  rw [updateReftime_toLFp64]
  generalize updateReftime k tvSec = k'
  have hmtemp : k'.toLFp64.timeReftime = k'.timeReftime := rfl
  have hstatus : k'.toLFp64.timeStatus = k'.timeStatus := rfl
  unfold fllSelected
  dsimp only
  rw [hmtemp, hstatus]
  split_ifs <;> rfl

/-- All but the frequency, whatever the builds make of that. -/
theorem hardupdate_toLFp64_frame (cfg : Config) (k : Kernel LFp32) (tvSec offset : ℤ) :
    hardupdate cfg k.toLFp64 tvSec offset =
      { (hardupdate cfg k tvSec offset).toLFp64 with
        timeFreq := (hardupdate cfg k.toLFp64 tvSec offset).timeFreq } := by
  have hstatus : k.toLFp64.timeStatus = k.timeStatus := rfl
  have hpps : ppsFrequency (updatePhase k offset).toLFp64
      = ppsFrequency (updatePhase k offset) := rfl
  unfold hardupdate
  dsimp only
  rw [hstatus, updatePhase_toLFp64, hpps]
  split_ifs
  · rfl
  · rfl
  · exact updateFrequency_toLFp64_frame _

/-- The gain shift is the same in both builds, and the product is if its columns fit. -/
theorem toLFp64_pllTerm_iff {k : Kernel LFp32} (hm : |k.timeMonitor| ≤ maxphase)
    (htc : 0 ≤ k.timeConstant) {mtemp : ℤ} (h0 : 0 ≤ mtemp) (h1 : mtemp < 2 ^ 31) :
    (pllTerm k mtemp).toLFp64 = pllTerm k.toLFp64 mtemp ↔
      LFp32.ColumnsFit (pllGain k.timeMonitor k.timeConstant).natAbs mtemp := by
  have hle := abs_le.mp hm
  unfold maxphase at hle
  have hload : (lLint k.timeMonitor : LFp32).toLFp64.toInt = k.timeMonitor * 2 ^ 32 :=
    val_lLint_of_fits (F := LFp32) ⟨by omega, by omega⟩
  have hmin : -2 ^ 63 < (lLint k.timeMonitor : LFp32).toLFp64.toInt := by omega
  have hshift : 1 ≤ (shiftPll + 2 + k.timeConstant).toNat <<< 1 := by
    rw [pllShift_eq htc]
    unfold shiftPll
    omega
  have hgain : (lRshift (lLint k.timeMonitor : LFp32)
      ((shiftPll + 2 + k.timeConstant).toNat <<< 1)).toLFp64.toInt
        = pllGain k.timeMonitor k.timeConstant := by
    rw [LFp32.toLFp64_lRshift hmin hshift, LFp64.lRshift_eq,
      toInt_truncShift (by decide) hmin, hload, pllShift_eq htc]
    rfl
  rw [← hgain, ← LFp32.toLFp64_lMpy_iff h0 h1, LFp32.toLFp64_lRshift hmin hshift,
    LFp32.toLFp64_lLint]
  rfl

theorem toLFp64_pllTerm {k : Kernel LFp32} (hm : |k.timeMonitor| ≤ maxphase)
    (htc : 0 ≤ k.timeConstant) {mtemp : ℤ} (h0 : 0 ≤ mtemp) (h1 : mtemp ≤ 65535) :
    (pllTerm k mtemp).toLFp64 = pllTerm k.toLFp64 mtemp :=
  (toLFp64_pllTerm_iff hm htc h0 (by omega)).mpr (LFp32.columnsFit_of_lt _ (by omega))

theorem toLFp64_fllTerm {k : Kernel LFp32} (hm : |k.timeMonitor| ≤ maxphase)
    {mtemp : ℤ} (hmtemp : minsec ≤ mtemp) :
    (fllTerm cfg k mtemp).toLFp64 = fllTerm cfg k.toLFp64 mtemp := by
  have hquot := fllQuotient_bounds cfg hm hmtemp
  have hload := val_lLint_of_fits (F := LFp32)
    (a := (cfg.long (k.timeMonitor <<< (4 : ℕ))).tdiv mtemp) ⟨by omega, by omega⟩
  unfold fllTerm
  rw [LFp32.toLFp64_lRshift (by omega) (by decide), LFp32.toLFp64_lLint]
  rfl

theorem long_updateInterval {F : Type} {k : Kernel F}
    (h : 0 ≤ updateInterval k tvSec ∧ updateInterval k tvSec ≤ 65535) :
    cfg.long (updateInterval k tvSec) = updateInterval k tvSec :=
  cfg.long_of_fits ⟨by omega, by omega⟩

/-- A half word for the multiplier, and the two builds form one sum. -/
theorem toLFp64_unclampedFreq (cfg : Config) (offset : ℤ) {k : Kernel LFp32}
    (hk : Envelope k.toLFp64)
    (hinterval : 0 ≤ updateInterval k tvSec ∧ updateInterval k tvSec ≤ 65535) :
    (unclampedFreq cfg k tvSec offset).toLFp64
      = unclampedFreq cfg k.toLFp64 tvSec offset := by
  obtain ⟨hmon, htc⟩ := updateReftime_updatePhase k tvSec offset
  have hmonitor : |(updateReftime (updatePhase k offset) tvSec).timeMonitor|
      ≤ maxphase := by
    rw [hmon]
    exact abs_loopOffset_le hk offset
  have hconstant : 0 ≤ (updateReftime (updatePhase k offset) tvSec).timeConstant := by
    rw [htc]
    exact hk.constant.1
  have hfreq : k.toLFp64.timeFreq = k.timeFreq.toLFp64 := rfl
  have hmtemp : updateInterval k.toLFp64 tvSec = updateInterval k tvSec := rfl
  have hselected : ∀ mtemp, fllSelected k.toLFp64 mtemp = fllSelected k mtemp :=
    fun _ => rfl
  unfold unclampedFreq
  dsimp only
  rw [hfreq, hmtemp, hselected, updatePhase_toLFp64, updateReftime_toLFp64,
    long_updateInterval hinterval,
    ← toLFp64_pllTerm hmonitor hconstant hinterval.1 hinterval.2]
  split_ifs with hsel
  · rw [LFp32.toLFp64_lAdd, LFp32.toLFp64_lAdd,
      toLFp64_fllTerm hmonitor (le_of_fllSelected hsel)]
  · exact LFp32.toLFp64_lAdd _ _

/-- Without overflow the sum is the exact one. -/
theorem val_unclampedFreq {k : Kernel LFp64} (hk : Envelope k)
    (hsteer : steersFrequency k = true) (h : UpdateInRange cfg k tvSec offset) :
    val (unclampedFreq cfg k tvSec offset) = freqSum cfg k tvSec offset := by
  obtain ⟨hinterval, hpll, hfirst, hlo, hhi⟩ := h hsteer
  unfold freqSum at hlo hhi ⊢
  rw [if_pos hsteer] at hlo hhi ⊢
  rw [val_unclampedFreq_bmod hk (long_updateInterval hinterval) hpll hfirst,
    bmod_of_fits (by decide) ⟨hlo.le, hhi⟩]

/-- Off the gap of the clamp, `hardupdate` is one routine. -/
theorem hardupdate_toLFp64 {k : Kernel LFp32} (hk : Envelope k.toLFp64)
    (hrange : UpdateInRange cfg k.toLFp64 tvSec offset)
    (hgap : steersFrequency k = true →
      ¬ ClampGap (freqSum cfg k.toLFp64 tvSec offset)) :
    hardupdate cfg k.toLFp64 tvSec offset
      = (hardupdate cfg k tvSec offset).toLFp64 := by
  have hfreq : (hardupdate cfg k.toLFp64 tvSec offset).timeFreq
      = (hardupdate cfg k tvSec offset).timeFreq.toLFp64 := by
    have hsteer : steersFrequency k.toLFp64 = steersFrequency k := rfl
    rw [hardupdate_timeFreq_eq, hardupdate_timeFreq_eq, hsteer]
    cases h : steersFrequency k with
    | false => rfl
    | true =>
      -- both builds bring the exact sum to the clamp
      obtain ⟨hinterval, -, -, hlo, -⟩ := hrange h
      have hsum := val_unclampedFreq hk h hrange
      have hword := toLFp64_unclampedFreq cfg offset hk hinterval
      have hval : val (unclampedFreq cfg k tvSec offset)
          = freqSum cfg k.toLFp64 tvSec offset := by
        rw [← hsum, ← hword]
        rfl
      rw [if_pos rfl, if_pos rfl, ← hword]
      exact (toLFp64_clampFreq (by rw [hval]; exact hlo)
        (by rw [hval]; exact hgap h)).symm
  rw [hardupdate_toLFp64_frame, hfreq]
  rfl

/-- In the gap of the clamp it is not. -/
theorem not_clampGap_of_toLFp64 {k : Kernel LFp32} (hk : Envelope k.toLFp64)
    (hrange : UpdateInRange cfg k.toLFp64 tvSec offset)
    (hsteer : steersFrequency k.toLFp64 = true)
    (heq : (hardupdate cfg k tvSec offset).toLFp64
      = hardupdate cfg k.toLFp64 tvSec offset) :
    ¬ ClampGap (freqSum cfg k.toLFp64 tvSec offset) := by
  obtain ⟨hinterval, -, -, hlo, -⟩ := hrange hsteer
  have hsum := val_unclampedFreq hk hsteer hrange
  have hword := toLFp64_unclampedFreq cfg offset hk hinterval
  have hsteer' : steersFrequency k = true := hsteer
  have hfreq : (hardupdate cfg k tvSec offset).timeFreq.toLFp64
      = (hardupdate cfg k.toLFp64 tvSec offset).timeFreq :=
    congrArg Kernel.timeFreq heq
  rw [hardupdate_timeFreq_eq, hardupdate_timeFreq_eq, if_pos hsteer', if_pos hsteer,
    ← hword] at hfreq
  rw [← hsum, ← hword] at hlo ⊢
  exact fun hgap => toLFp64_clampFreq_ne hlo hgap hfreq

end Hardupdate

/-! ## `ntp_adjtime()` -/

/-- The exact frequency the call leaves behind, before the clamp, when it does
not set one. -/
def adjFreqSum {F : Type} [LFp F] [LawfulLFp F] (cfg : Config) (k : Kernel F)
    (tvSec : ℤ) (ntv : Timex) : ℤ :=
  let k' := adjBeforeOffset cfg ntv k
  if has ntv.modes modOffset then freqSum cfg k' tvSec (adjNsec cfg ntv k')
  else val k.timeFreq

/-- Both builds round and clamp this frequency alike. -/
def ReportsAlike (x : ℤ) : Prop :=
  0 ≤ x ∨ x % 2 ^ 32 = 0 ∨ x ≤ -((maxfreq + 1) * 2 ^ 32)

instance (x : ℤ) : Decidable (ReportsAlike x) := inferInstanceAs (Decidable (_ ∨ _))

theorem ReportsAlike.not_clampGap {x : ℤ} (h : ReportsAlike x) : ¬ ClampGap x := by
  unfold ReportsAlike ClampGap maxfreq at *
  omega

section Adjtime

variable {cfg : Config} {ntv : Timex} {k : Kernel LFp32} {tvSec : ℤ}

theorem adjBeforeOffset_toLFp64 (cfg : Config) (ntv : Timex) (k : Kernel LFp32) :
    adjBeforeOffset cfg ntv k.toLFp64 = (adjBeforeOffset cfg ntv k).toLFp64 := by
  have hclock : ∀ k : Kernel LFp32,
      adjClock ntv k.toLFp64 = (adjClock ntv k).toLFp64 := fun _ => rfl
  unfold adjBeforeOffset
  rw [adjError_toLFp64, adjStatus_toLFp64, adjConstant_toLFp64, hclock]

theorem adjOffset_toLFp64_frame (cfg : Config) (ntv : Timex) (k : Kernel LFp32)
    (tvSec : ℤ) : adjOffset cfg tvSec ntv k.toLFp64 =
      { (adjOffset cfg tvSec ntv k).toLFp64 with
        timeFreq := (adjOffset cfg tvSec ntv k.toLFp64).timeFreq } := by
  cases h : has ntv.modes modOffset with
  | false =>
    rw [adjOffset_of_not cfg ntv _ tvSec h, adjOffset_of_not cfg ntv k tvSec h]
  | true =>
    rw [adjOffset_of_modOffset cfg ntv _ tvSec h,
    adjOffset_of_modOffset cfg ntv k tvSec h]
    exact hardupdate_toLFp64_frame cfg k tvSec (adjNsec cfg ntv k)

/-- `MOD_FREQUENCY` overwrites whatever the update left. -/
theorem adjFrequency_toLFp64 (h : has ntv.modes modFrequency = true) (k : Kernel LFp32)
    (freq : LFp64) : adjFrequency cfg ntv { k.toLFp64 with timeFreq := freq }
      = (adjFrequency cfg ntv k).toLFp64 := by
  unfold adjFrequency
  simp only [h, Bool.not_true, Bool.false_eq_true, if_false]
  split_ifs <;> simp only [Kernel.toLFp64, Pps.toLFp64, LFp32.toLFp64_lLint]

theorem adjKernel_toLFp64 (hk : Disciplined k.toLFp64)
    (hrange : has ntv.modes modOffset = true →
      UpdateInRange cfg (adjBeforeOffset cfg ntv k.toLFp64) tvSec
        (adjNsec cfg ntv (adjBeforeOffset cfg ntv k.toLFp64)))
    (halike : has ntv.modes modFrequency = true ∨
      ReportsAlike (adjFreqSum cfg k.toLFp64 tvSec ntv)) :
    adjKernel cfg k.toLFp64 tvSec ntv = (adjKernel cfg k tvSec ntv).toLFp64 := by
  have hbefore := adjBeforeOffset_disciplined hk cfg ntv
  unfold adjFreqSum at halike
  rw [adjKernel_eq_beforeOffset, adjKernel_eq_beforeOffset]
  rw [adjBeforeOffset_toLFp64] at hrange halike hbefore ⊢
  cases hfreq : has ntv.modes modFrequency with
  | true =>
    rw [adjOffset_toLFp64_frame]
    exact adjFrequency_toLFp64 hfreq _ _
  | false =>
    rw [adjFrequency_of_not cfg ntv _ hfreq, adjFrequency_of_not cfg ntv _ hfreq]
    cases hoff : has ntv.modes modOffset with
    | false =>
      rw [adjOffset_of_not cfg ntv _ tvSec hoff, adjOffset_of_not cfg ntv _ tvSec hoff]
    | true =>
      have hsum := halike.resolve_left (by rw [hfreq]; decide)
      rw [if_pos hoff] at hsum
      rw [adjOffset_of_modOffset cfg ntv _ tvSec hoff,
        adjOffset_of_modOffset cfg ntv _ tvSec hoff]
      exact hardupdate_toLFp64 hbefore.1 (hrange hoff) (fun _ => hsum.not_clampGap)

end Adjtime

section Report

variable {cfg : Config} {ntv : Timex} {k : Kernel LFp64} {tvSec : ℤ}

/-- What `ReportsAlike` says of the exact frequency, the clamped one has. -/
theorem reportsAlike_iff_clampFreq {v : LFp64} (hmin : -2 ^ 63 < val v) :
    ReportsAlike (val v) ↔
      0 ≤ val (clampFreq v) ∨ val (clampFreq v) % 2 ^ 32 = 0 := by
  have hclamp := val_clampFreq v
  unfold ReportsAlike maxfreq at *
  rw [abs_lt] at hclamp
  constructor <;> omega

theorem reportsAlike_iff_of_envelope (hk : Envelope k) :
    ReportsAlike (val k.timeFreq) ↔
      0 ≤ val k.timeFreq ∨ val k.timeFreq % 2 ^ 32 = 0 := by
  have hfreq := abs_lt.mp (abs_val_freq_lt hk.freq)
  unfold ReportsAlike
  constructor <;> omega

theorem hardupdate_timeFreq_alike {offset : ℤ} (hk : Envelope k)
    (hrange : UpdateInRange cfg k tvSec offset) :
    ReportsAlike (freqSum cfg k tvSec offset) ↔
      0 ≤ val (hardupdate cfg k tvSec offset).timeFreq ∨
        val (hardupdate cfg k tvSec offset).timeFreq % 2 ^ 32 = 0 := by
  rw [hardupdate_timeFreq_eq]
  split_ifs with hsteer
  · obtain ⟨-, -, -, hlo, -⟩ := hrange hsteer
    have hsum := val_unclampedFreq hk hsteer hrange
    rw [← hsum] at hlo ⊢
    exact reportsAlike_iff_clampFreq hlo
  · unfold freqSum
    rw [if_neg hsteer]
    exact reportsAlike_iff_of_envelope hk

theorem adjBeforeOffset_timeFreq {F : Type} [LFp F] (cfg : Config) (ntv : Timex)
    (k : Kernel F) : (adjBeforeOffset cfg ntv k).timeFreq = k.timeFreq := by
  rw [adjBeforeOffset_frame]

/-- The frequency set by `MOD_FREQUENCY` has no fraction. -/
theorem val_lLint_clamp_emod {F : Type} [LFp F] [LawfulLFp F] (x : ℤ) :
    val (lLint (clamp maxfreq x) : F) % 2 ^ 32 = 0 := by
  have hle := abs_le.mp (abs_clamp_le (by decide : 0 ≤ maxfreq) x)
  unfold maxfreq at hle ⊢
  rw [val_lLint_of_fits ⟨by omega, by omega⟩]
  exact Int.mul_emod_left _ _

/-- A call that does not set the frequency leaves one that is not negative or
has no fraction exactly when the exact one reports alike. -/
theorem adjKernel_timeFreq_iff (hk : Disciplined k)
    (hrange : has ntv.modes modOffset = true →
      UpdateInRange cfg (adjBeforeOffset cfg ntv k) tvSec
        (adjNsec cfg ntv (adjBeforeOffset cfg ntv k)))
    (hfreq : has ntv.modes modFrequency = false) :
    ReportsAlike (adjFreqSum cfg k tvSec ntv) ↔
      0 ≤ val (adjKernel cfg k tvSec ntv).timeFreq ∨
        val (adjKernel cfg k tvSec ntv).timeFreq % 2 ^ 32 = 0 := by
  have hbefore := adjBeforeOffset_disciplined hk cfg ntv
  have hkept := adjBeforeOffset_timeFreq cfg ntv k
  unfold adjFreqSum
  rw [adjKernel_eq_beforeOffset, adjFrequency_of_not cfg ntv _ hfreq]
  cases hoff : has ntv.modes modOffset with
  | false =>
    -- the frequency is the one before the call
    rw [if_neg Bool.false_ne_true, adjOffset_of_not cfg ntv _ tvSec hoff, hkept]
    exact reportsAlike_iff_of_envelope hk.1
  | true =>
    rw [if_pos rfl, adjOffset_of_modOffset cfg ntv _ tvSec hoff]
    exact hardupdate_timeFreq_alike hbefore.1 (hrange hoff)

/-- The frequency `ntp_adjtime` leaves is not negative or has no fraction. -/
theorem adjKernel_timeFreq_alike (hk : Disciplined k)
    (hrange : has ntv.modes modOffset = true →
      UpdateInRange cfg (adjBeforeOffset cfg ntv k) tvSec
        (adjNsec cfg ntv (adjBeforeOffset cfg ntv k)))
    (halike : has ntv.modes modFrequency = true ∨
      ReportsAlike (adjFreqSum cfg k tvSec ntv)) :
    0 ≤ val (adjKernel cfg k tvSec ntv).timeFreq ∨
      val (adjKernel cfg k tvSec ntv).timeFreq % 2 ^ 32 = 0 := by
  cases hfreq : has ntv.modes modFrequency with
  | true =>
    right
    have hset : ∀ k : Kernel LFp64, (adjFrequency cfg ntv k).timeFreq
        = lLint (clamp maxfreq (ntv.freq.tdiv scalePpm)) := by
      intro k
      unfold adjFrequency
      simp only [hfreq, Bool.not_true, Bool.false_eq_true, if_false]
      split_ifs <;> rfl
    rw [adjKernel_eq_beforeOffset, hset]
    exact val_lLint_clamp_emod _
  | false =>
    have hsum := halike.resolve_left (by rw [hfreq]; decide)
    exact (adjKernel_timeFreq_iff hk hrange hfreq).mp hsum

/-- A PPS frequency is one `MOD_FREQUENCY` set. -/
theorem adjKernel_ppsFreq (h : val k.pps.freq % 2 ^ 32 = 0) (cfg : Config) (tvSec : ℤ)
    (ntv : Timex) : val (adjKernel cfg k tvSec ntv).pps.freq % 2 ^ 32 = 0 := by
  have hoff : (adjOffset cfg tvSec ntv (adjBeforeOffset cfg ntv k)).pps.freq
      = k.pps.freq := by
    rw [adjOffset_frame, adjBeforeOffset_frame]
  rw [adjKernel_eq_beforeOffset]
  unfold adjFrequency
  dsimp only
  split_ifs
  · rw [hoff]
    exact h
  · exact val_lLint_clamp_emod _
  · dsimp only
    rw [hoff]
    exact h

end Report

theorem returnCode_toLFp64 (k : Kernel LFp32) : returnCode k.toLFp64 = returnCode k :=
  rfl

/-- The structure copied out shows two integral parts. -/
theorem adjReport_toLFp64 {k : Kernel LFp32} (cfg : Config) (ntv : Timex)
    (hfreq : lGint k.toLFp64.timeFreq = lGint k.timeFreq)
    (hpps : lGint k.toLFp64.pps.freq = lGint k.pps.freq) :
    adjReport cfg k.toLFp64 ntv = adjReport cfg k ntv := by
  unfold adjReport
  rw [hfreq, hpps]
  rfl

theorem adjReport_freq {F : Type} [LFp F] (cfg : Config) (k : Kernel F) (ntv : Timex) :
    (adjReport cfg k ntv).freq = cfg.long (lGint k.timeFreq * scalePpm) := by
  unfold adjReport
  dsimp only
  split_ifs <;> rfl

/-! ## The simulation -/

/-- The clock of the two-word build and that of the other one, and what both
keep. -/
structure SameClock (c : Clock LFp32) (d : Clock LFp64) : Prop where
  eq : d = c.toLFp64
  disciplined : Disciplined d.k
  phase : 0 ≤ val d.k.timePhase
  ppsFreq : val d.k.pps.freq % 2 ^ 32 = 0

/-- The interval of every update fits a half word and no sum overflows. -/
def InRange (cfg : Config) (d : Clock LFp64) : Event → Prop
  | .tick => Fits 64 (val d.k.timePhase + val d.k.timeAdj)
  | .adjtime tp => has tp.modes modOffset = true →
    UpdateInRange cfg (adjBeforeOffset cfg tp d.k) d.tv.tvSec
      (adjNsec cfg tp (adjBeforeOffset cfg tp d.k))
  | .hardupdate offset => UpdateInRange cfg d.k d.tv.tvSec offset
  | .hardpps _ _ => False

/-- No update brings the frequency between `-MAXFREQ - 1` and `-MAXFREQ`, and
no call reports a negative frequency with a fraction. -/
def RoundsAlike (cfg : Config) (d : Clock LFp64) : Event → Prop
  | .adjtime tp => has tp.modes modFrequency = true ∨
    ReportsAlike (adjFreqSum cfg d.k d.tv.tvSec tp)
  | .hardupdate offset => steersFrequency d.k = true →
    ¬ ClampGap (freqSum cfg d.k d.tv.tvSec offset)
  | _ => True

section SameClock

variable {cfg : Config} {c : Clock LFp32} {d : Clock LFp64} {e : Event}

theorem adjust_toLFp64 (hphase : 0 ≤ val c.k.timePhase) (hadj : 0 ≤ val c.k.timeAdj)
    (hsum : Fits 64 (val c.k.timePhase + val c.k.timeAdj)) :
    c.toLFp64.adjust cfg = (c.adjust cfg).toLFp64 := by
  have htick := tickPhase_toLFp64 cfg (k := c.k) hphase hadj hsum cfg.hz
  unfold Clock.adjust ntpTickAdjust
  show Clock.mk { c.k.toLFp64 with timePhase := (tickPhase cfg c.k.toLFp64 cfg.hz).1 }
    ⟨c.tv.tvSec,
      cfg.long (c.tv.tvNsec + cfg.long (0 + (tickPhase cfg c.k.toLFp64 cfg.hz).2))⟩ = _
  rw [htick]
  rfl

theorem overflow_toLFp64 (hk : Disciplined c.k.toLFp64) :
    c.toLFp64.overflow cfg = (c.overflow cfg).toLFp64 := by
  rcases lt_or_ge c.tv.tvNsec nanosecond with hroll | hroll
  · rw [Clock.overflow_of_lt hroll]
    exact Clock.overflow_of_lt (c := c.toLFp64) hroll
  · rw [Clock.overflow_of_le hroll, Clock.overflow_of_le (c := c.toLFp64) hroll]
    show Clock.mk (rollover cfg c.k.toLFp64 c.tv.tvSec).1
      ⟨(rollover cfg c.k.toLFp64 c.tv.tvSec).2, _⟩ = _
    rw [rollover_toLFp64 hk]
    rfl

theorem SameClock.adj_nonneg (h : SameClock c d) : 0 ≤ val d.k.timeAdj := by
  have hadj := h.disciplined.1.adj
  unfold AdjRange nanosecond at hadj
  omega

theorem rollover_ppsFreq {F : Type} [LFp F] (cfg : Config) (k : Kernel F) (tvSec : ℤ) :
    (rollover cfg k tvSec).1.pps.freq = k.pps.freq := by
  rw [rollover_frame]

theorem SameClock.tick (hhz : 1 ≤ cfg.hz) (h : SameClock c d)
    (hrange : InRange cfg d .tick) : SameClock (c.tick cfg) (d.tick cfg) := by
  have hadj := h.adj_nonneg
  obtain ⟨rfl, hdisc, hphase, hpps⟩ := h
  have hadjusted : Disciplined (c.adjust cfg).k.toLFp64 :=
    ⟨⟨hdisc.1.monitor, hdisc.1.offset, hdisc.1.freq, hdisc.1.constant, hdisc.1.adj⟩,
      hdisc.2⟩
  have hphase' : 0 ≤ val (c.toLFp64.adjust cfg).k.timePhase :=
    tickPhase_nonneg cfg hhz hphase hadj hrange
  have hsame : (c.toLFp64.adjust cfg).overflow cfg = (c.tick cfg).toLFp64 := by
    rw [adjust_toLFp64 hphase hadj hrange, overflow_toLFp64 hadjusted]
    rfl
  have hover : ((c.toLFp64.adjust cfg).overflow cfg).k.timePhase
      = (c.toLFp64.adjust cfg).k.timePhase ∧
      ((c.toLFp64.adjust cfg).overflow cfg).k.pps.freq
        = (c.toLFp64.adjust cfg).k.pps.freq := by
    rcases lt_or_ge (c.toLFp64.adjust cfg).tv.tvNsec nanosecond with hroll | hroll
    · rw [Clock.overflow_of_lt hroll]
      exact ⟨rfl, rfl⟩
    · rw [Clock.overflow_of_le hroll]
      exact ⟨rollover_timePhase cfg _ _, rollover_ppsFreq cfg _ _⟩
  exact
    { eq := hsame
      disciplined := Clock.tick_disciplined hdisc
      phase := by
        rw [Clock.tick_eq, hover.1]
        exact hphase'
      ppsFreq := by
        rw [Clock.tick_eq, hover.2]
        exact hpps }

/-- A step that rounds alike is one step. -/
theorem SameClock.step (hhz : 1 ≤ cfg.hz) (h : SameClock c d) (e : Event)
    (hrange : InRange cfg d e) (halike : RoundsAlike cfg d e) :
    SameClock (Clock.step cfg c e) (Clock.step cfg d e) := by
  cases e with
  | tick => exact h.tick hhz hrange
  | adjtime tp =>
    obtain ⟨rfl, hdisc, hphase, hpps⟩ := h
    have hsame := adjKernel_toLFp64 hdisc hrange halike
    exact
      { eq := congrArg (Clock.mk · c.tv) hsame
        disciplined := adjKernel_disciplined hdisc cfg c.tv.tvSec tp
        phase := by
          show 0 ≤ val (adjKernel cfg c.k.toLFp64 c.tv.tvSec tp).timePhase
          rw [adjKernel_timePhase]
          exact hphase
        ppsFreq := adjKernel_ppsFreq hpps cfg c.tv.tvSec tp }
  | hardupdate offset =>
    obtain ⟨rfl, hdisc, hphase, hpps⟩ := h
    have hsame := hardupdate_toLFp64 hdisc.1 hrange halike
    exact
      { eq := congrArg (Clock.mk · c.tv) hsame
        disciplined := hardupdate_disciplined hdisc cfg c.tv.tvSec offset
        phase := by
          show 0 ≤ val (hardupdate cfg c.k.toLFp64 c.tv.tvSec offset).timePhase
          rw [hardupdate_timePhase]
          exact hphase
        ppsFreq := by
          show val (hardupdate cfg c.k.toLFp64 c.tv.tvSec offset).pps.freq % _ = 0
          rw [hardupdate_pps]
          exact hpps }
  | hardpps tsp nsec => exact hrange.elim

/-- A frequency in range without a negative fraction. -/
theorem lGint_toLFp64_of_whole {v : LFp32} (hv : |lGint v.toLFp64| ≤ maxfreq)
    (h : 0 ≤ val v.toLFp64 ∨ val v.toLFp64 % 2 ^ 32 = 0) :
    lGint v.toLFp64 = lGint v := by
  have hlow := (abs_lt.mp (abs_val_freq_lt hv)).1
  have hmin : -2 ^ 63 < val v.toLFp64 := lt_trans (by decide) hlow
  exact ((LFp32.lGint_agree_iff hmin).mpr h).symm

/-- And it returns one structure. -/
theorem SameClock.returned (h : SameClock c d) (e : Event)
    (hrange : InRange cfg d e) (halike : RoundsAlike cfg d e) :
    Clock.returned cfg c e = Clock.returned cfg d e := by
  cases e with
  | adjtime tp =>
    obtain ⟨rfl, hdisc, -, hpps⟩ := h
    have hsame : adjKernel cfg c.k.toLFp64 c.tv.tvSec tp
        = (adjKernel cfg c.k c.tv.tvSec tp).toLFp64 :=
      adjKernel_toLFp64 hdisc hrange halike
    have hfreq := adjKernel_timeFreq_alike hdisc hrange halike
    have hdisc' := adjKernel_disciplined hdisc cfg c.tv.tvSec tp
    have hpps' := adjKernel_ppsFreq hpps cfg c.tv.tvSec tp
    show some (adjReport cfg (adjKernel cfg c.k c.tv.tvSec tp) tp,
        returnCode (adjKernel cfg c.k c.tv.tvSec tp))
      = some (adjReport cfg (adjKernel cfg c.k.toLFp64 c.tv.tvSec tp) tp,
        returnCode (adjKernel cfg c.k.toLFp64 c.tv.tvSec tp))
    rw [show c.toLFp64.k = c.k.toLFp64 from rfl] at hfreq hdisc' hpps'
    rw [show c.toLFp64.tv = c.tv from rfl] at hfreq
    rw [hsame] at hfreq hdisc' hpps' ⊢
    rw [adjReport_toLFp64 cfg tp (lGint_toLFp64_of_whole hdisc'.1.freq hfreq)
      (lGint_toLFp64_of_whole hdisc'.2.freq (Or.inr hpps')), returnCode_toLFp64]
  | _ => rfl

/-- Equal structures show equal integral parts of the frequency. -/
theorem lGint_of_report {k : Kernel LFp32} {tp : Timex}
    (hfreq : |lGint k.toLFp64.timeFreq| ≤ maxfreq)
    (h : adjReport cfg k tp = adjReport cfg k.toLFp64 tp) :
    lGint k.timeFreq = lGint k.toLFp64.timeFreq := by
  have hword := congrArg Timex.freq h
  have hbound := abs_lt.mp (abs_val_freq_lt hfreq)
  have hround := abs_le.mp hfreq
  have hfloor : lGint k.timeFreq = val k.toLFp64.timeFreq / 2 ^ 32 :=
    LFp32.lGint_eq_ediv k.timeFreq
  unfold maxfreq at hbound hround
  rw [adjReport_freq, adjReport_freq] at hword
  unfold scalePpm at hword
  rw [cfg.long_of_fits ⟨by omega, by omega⟩,
    cfg.long_of_fits ⟨by omega, by omega⟩] at hword
  omega

/-- A step that is one step in both builds rounds alike. -/
theorem SameClock.roundsAlike (h : SameClock c d) (e : Event) (hrange : InRange cfg d e)
    (hsame : (Clock.step cfg c e).toLFp64 = Clock.step cfg d e)
    (hreturned : Clock.returned cfg c e = Clock.returned cfg d e) :
    RoundsAlike cfg d e := by
  obtain ⟨rfl, hdisc, -, -⟩ := h
  cases e with
  | hardupdate offset =>
    intro hsteer
    exact not_clampGap_of_toLFp64 hdisc.1 hrange hsteer (congrArg Clock.k hsame)
  | adjtime tp =>
    cases hfreq : has tp.modes modFrequency with
    | true => exact Or.inl hfreq
    | false =>
      right
      have hk : (adjKernel cfg c.k c.tv.tvSec tp).toLFp64
          = adjKernel cfg c.k.toLFp64 c.tv.tvSec tp := congrArg Clock.k hsame
      have hafter : |lGint (adjKernel cfg c.k.toLFp64 c.tv.tvSec tp).timeFreq|
          ≤ maxfreq := (adjKernel_disciplined hdisc cfg c.tv.tvSec tp).1.freq
      have hreport : adjReport cfg (adjKernel cfg c.k c.tv.tvSec tp) tp
          = adjReport cfg (adjKernel cfg c.k.toLFp64 c.tv.tvSec tp) tp :=
        congrArg Prod.fst (Option.some.inj hreturned)
      have hiff := adjKernel_timeFreq_iff hdisc hrange hfreq
      refine hiff.mpr ?_
      show 0 ≤ val (adjKernel cfg c.k.toLFp64 c.tv.tvSec tp).timeFreq ∨
        val (adjKernel cfg c.k.toLFp64 c.tv.tvSec tp).timeFreq % 2 ^ 32 = 0
      rw [← hk] at hafter hreport ⊢
      have hbound := (abs_lt.mp (abs_val_freq_lt hafter)).1
      exact (LFp32.lGint_agree_iff (lt_trans (by decide) hbound)).mp
        (lGint_of_report hafter hreport)
  | tick => trivial
  | hardpps tsp nsec => trivial

end SameClock

/-! ## Runs from `ntp_init()` -/

instance {F : Type} [LFp F] [LawfulLFp F] (cfg : Config) (k : Kernel F)
    (tvSec offset : ℤ) : Decidable (UpdateInRange cfg k tvSec offset) :=
  inferInstanceAs (Decidable (_ → _))

instance (cfg : Config) (d : Clock LFp64) : (e : Event) → Decidable (InRange cfg d e)
  | .tick => inferInstanceAs (Decidable (Fits 64 _))
  | .adjtime _ => inferInstanceAs (Decidable (_ → _))
  | .hardupdate _ => inferInstanceAs (Decidable (UpdateInRange cfg _ _ _))
  | .hardpps _ _ => inferInstanceAs (Decidable False)

instance (cfg : Config) (d : Clock LFp64) :
    (e : Event) → Decidable (RoundsAlike cfg d e)
  | .adjtime _ => inferInstanceAs (Decidable (_ ∨ _))
  | .hardupdate _ => inferInstanceAs (Decidable (_ → _))
  | .tick | .hardpps _ _ => inferInstanceAs (Decidable True)

namespace Clock

/-- `ntp_init()` was called and the clock set to `tv`. -/
def boot (F : Type) [LFp F] (cfg : Config) (tv : Timespec) : Clock F :=
  ⟨Kernel.boot cfg, tv⟩

theorem sameClock_boot (cfg : Config) (tv : Timespec) :
    SameClock (boot LFp32 cfg tv) (boot LFp64 cfg tv) where
  eq := by
    unfold boot
    rw [← boot_toLFp64]
    rfl
  disciplined := boot_disciplined cfg
  phase := by
    show 0 ≤ val (Kernel.boot cfg : Kernel LFp64).timePhase
    rw [boot_timePhase, val_lClr]
  ppsFreq := by
    have hclr : (Kernel.boot cfg : Kernel LFp64).pps.freq = lClr := by
      unfold Kernel.boot ntpInit Kernel.static
      dsimp only
      split_ifs <;> rfl
    show val (Kernel.boot cfg : Kernel LFp64).pps.freq % 2 ^ 32 = 0
    rw [hclr, val_lClr]
    rfl

/-- The two builds end a run in the same state, and the calls have returned the
same. -/
structure SameRun (cfg : Config) (tv : Timespec) (es : List Event) : Prop where
  clock : (run (step cfg) (boot LFp32 cfg tv) es).tv
    = (run (step cfg) (boot LFp64 cfg tv) es).tv
  kernel : (run (step cfg) (boot LFp32 cfg tv) es).k.toLFp64
    = (run (step cfg) (boot LFp64 cfg tv) es).k
  returned : outputs (step cfg) (returned cfg) (boot LFp32 cfg tv) es
    = outputs (step cfg) (returned cfg) (boot LFp64 cfg tv) es

/-- While no update lands in the gap of the clamp and no call reports a
negative frequency with a fraction, the two builds are one program. -/
theorem sameRun_of_roundsAlike (cfg : Config) (hhz : 1 ≤ cfg.hz) (tv : Timespec)
    (es : List Event) (hes : Along (step cfg)
      (fun d e => InRange cfg d e ∧ RoundsAlike cfg d e) (boot LFp64 cfg tv) es) :
    SameRun cfg tv es := by
  have hstep : ∀ (d : Clock LFp64) (c : Clock LFp32) e, SameClock c d →
      InRange cfg d e ∧ RoundsAlike cfg d e → SameClock (step cfg c e) (step cfg d e) :=
    fun _ _ e h he => h.step hhz e he.1 he.2
  have hout : ∀ (d : Clock LFp64) (c : Clock LFp32) e, SameClock c d →
      InRange cfg d e ∧ RoundsAlike cfg d e →
      Clock.returned cfg d e = Clock.returned cfg c e :=
    fun _ _ e h he => (h.returned e he.1 he.2).symm
  have hboot := sameClock_boot cfg tv
  have hsame := run_simulation hstep hboot hes
  exact
    { clock := by rw [hsame.eq]; rfl
      kernel := by rw [hsame.eq]; rfl
      returned := (outputs_simulation hstep hout hboot hes).symm }

/-- The two builds are one program, in the state after every step and in what
the calls return, exactly as long as no update lands in the gap of the clamp
and no call reports a negative frequency with a fraction. -/
theorem sameRun_iff_roundsAlike (cfg : Config) (hhz : 1 ≤ cfg.hz) (tv : Timespec)
    (es : List Event) (hes : Along (step cfg) (InRange cfg) (boot LFp64 cfg tv) es) :
    (∀ pre, pre <+: es → SameRun cfg tv pre) ↔
      Along (step cfg) (RoundsAlike cfg) (boot LFp64 cfg tv) es := by
  constructor
  · intro hsame
    have hstep : ∀ (d : Clock LFp64) (c : Clock LFp32) e, SameClock c d →
        InRange cfg d e → RoundsAlike cfg d e → SameClock (step cfg c e) (step cfg d e) :=
      fun _ _ e h => h.step hhz e
    have hshow : ∀ (d : Clock LFp64) (c : Clock LFp32) e, SameClock c d →
        InRange cfg d e → (step cfg c e).toLFp64 = step cfg d e →
        Clock.returned cfg d e = Clock.returned cfg c e → RoundsAlike cfg d e :=
      fun _ _ e h hrange halike hout => h.roundsAlike e hrange halike hout.symm
    refine along_of_alike (fun d c => c.toLFp64 = d) hstep hshow
      (sameClock_boot cfg tv) hes ?_
    intro pre hpre
    obtain ⟨hclock, hkernel, hreturned⟩ := hsame pre hpre
    refine ⟨?_, hreturned.symm⟩
    unfold toLFp64
    rw [hkernel, hclock]
  · rintro halike pre ⟨post, rfl⟩
    have hboth := along_and hes halike
    rw [along_append] at hboth
    exact sameRun_of_roundsAlike cfg hhz tv pre hboth.1

/-- The loop is engaged, and one second later the daemon reports an offset. -/
def offsetRun (offset : ℤ) : List Event :=
  [.adjtime { modes := modStatus ||| modNano, status := staPll },
    .hardupdate 0, .tick,
    .adjtime { modes := modOffset, offset := offset }, .tick]

/-- A millisecond slow: the frequency is positive. -/
theorem sameRun_iff_roundsAlike_offsetRun :
    (∀ pre, pre <+: offsetRun 1000000 → SameRun oneHertz ⟨1000000, 0⟩ pre) ↔
      Along (step oneHertz) (RoundsAlike oneHertz)
        (boot LFp64 oneHertz ⟨1000000, 0⟩) (offsetRun 1000000) :=
  sameRun_iff_roundsAlike oneHertz (by decide) ⟨1000000, 0⟩ (offsetRun 1000000)
    (by decide +kernel)

/-- A millisecond fast: the frequency is -244.14 ns/s, reported as -245 by one
build and as -244 by the other. -/
theorem not_sameRun : ¬ ∀ (cfg : Config) (tv : Timespec) (es : List Event),
    1 ≤ cfg.hz → Along (step cfg) (InRange cfg) (boot LFp64 cfg tv) es →
    ∀ pre, pre <+: es → SameRun cfg tv pre := by
  intro h
  have hsame := (h oneHertz ⟨1000000, 0⟩ (offsetRun (-1000000)) (by decide)
    (by decide +kernel) _ (List.prefix_refl _)).returned
  exact absurd hsame (by decide +kernel)

end Clock

end Nanokernel
