import Nanokernel.Kernel.PhaseFilter

/-!
# The calibration interval

The PPS frequency is averaged over intervals of `2^pps_shift` seconds. An interval
that is completed moves the wander counter `pps_intcnt`, up if the wander was small,
and at four the length is adapted, up to the limit `pps_shiftmax` the caller of
`ntp_adjtime` has set. `Interval` is this part of the state as a machine of its own,
which `hardpps` and `ntp_adjtime` drive.
-/

namespace Nanokernel

open BitMask Run

/-! ## The interval as a machine -/

/-- The length of the interval and its limit, as shifts, and the wander counter. -/
structure Interval where
  shift : ℤ
  shiftmax : ℤ
  intcnt : ℤ
deriving DecidableEq, Repr

/-- How a pulse leaves the interval it belongs to. -/
inductive CalibrationFate where
  | running
  /-- out of range or of the wrong length -/
  | discarded
  /-- completed, with the wander above the threshold -/
  | noisy
  /-- completed, with the wander within it -/
  | quiet
deriving DecidableEq, Repr

namespace Interval

/-- Four in one direction adapt the length, if it is not at its end. -/
def settle (i : Interval) : Interval :=
  if 4 ≤ i.intcnt then
    if i.shift < i.shiftmax then { i with shift := i.shift + 1, intcnt := 0 }
    else { i with intcnt := 4 }
  else if i.intcnt ≤ -4 then
    if ppsFavg < i.shift then { i with shift := i.shift - 1, intcnt := 0 }
    else { i with intcnt := -4 }
  else i

/-- An interval is completed. -/
def complete (i : Interval) (quiet : Bool) : Interval :=
  settle { i with intcnt := if quiet then i.intcnt + 1 else i.intcnt - 1 }

def after (i : Interval) : CalibrationFate → Interval
  | .running | .discarded => i
  | .noisy => i.complete false
  | .quiet => i.complete true

/-- The limits of the length and of the counter. -/
structure Bounded (i : Interval) : Prop where
  favg : ppsFavg ≤ i.shift
  limit : i.shift ≤ i.shiftmax
  favgmax : i.shiftmax ≤ ppsFavgmax
  intcnt : -4 ≤ i.intcnt ∧ i.intcnt ≤ 4

instance (i : Interval) : Decidable i.Bounded :=
  decidable_of_iff (ppsFavg ≤ i.shift ∧ i.shift ≤ i.shiftmax ∧ i.shiftmax ≤ ppsFavgmax ∧
      -4 ≤ i.intcnt ∧ i.intcnt ≤ 4)
    ⟨fun h => ⟨h.1, h.2.1, h.2.2.1, h.2.2.2⟩, fun h => ⟨h.favg, h.limit, h.favgmax, h.intcnt⟩⟩

@[simp] theorem settle_shiftmax (i : Interval) : i.settle.shiftmax = i.shiftmax := by
  unfold settle
  split_ifs <;> rfl

@[simp] theorem complete_shiftmax (i : Interval) (quiet : Bool) :
    (i.complete quiet).shiftmax = i.shiftmax :=
  settle_shiftmax _

/-- What a quiet interval does: it counts, it lengthens the next one, or the length
is at its limit. -/
theorem complete_quiet {i : Interval} (h : -4 ≤ i.intcnt) :
    (i.intcnt < 3 ∧ (i.complete true).intcnt = i.intcnt + 1 ∧
        (i.complete true).shift = i.shift) ∨
      (3 ≤ i.intcnt ∧ i.shift < i.shiftmax ∧ (i.complete true).intcnt = 0 ∧
        (i.complete true).shift = i.shift + 1) ∨
      (3 ≤ i.intcnt ∧ i.shiftmax ≤ i.shift ∧ (i.complete true).intcnt = 4 ∧
        (i.complete true).shift = i.shift) := by
  unfold complete settle
  dsimp only
  rw [if_pos rfl]
  split_ifs <;> dsimp only <;> omega

/-- What a noisy one does. -/
theorem complete_noisy {i : Interval} (h : i.intcnt ≤ 4) :
    (-3 < i.intcnt ∧ (i.complete false).intcnt = i.intcnt - 1 ∧
        (i.complete false).shift = i.shift) ∨
      (i.intcnt ≤ -3 ∧ ppsFavg < i.shift ∧ (i.complete false).intcnt = 0 ∧
        (i.complete false).shift = i.shift - 1) ∨
      (i.intcnt ≤ -3 ∧ i.shift ≤ ppsFavg ∧ (i.complete false).intcnt = -4 ∧
        (i.complete false).shift = i.shift) := by
  unfold complete settle
  dsimp only
  rw [if_neg Bool.false_ne_true]
  split_ifs <;> dsimp only <;> omega

theorem Bounded.complete {i : Interval} (h : i.Bounded) (quiet : Bool) :
    (i.complete quiet).Bounded := by
  obtain ⟨hfavg, hlimit, hfavgmax, hlo, hhi⟩ := h
  have hshiftmax := complete_shiftmax i quiet
  cases quiet with
  | true => rcases complete_quiet hlo with h | h | h <;> constructor <;> omega
  | false => rcases complete_noisy hhi with h | h | h <;> constructor <;> omega

theorem Bounded.after {i : Interval} (h : i.Bounded) (fate : CalibrationFate) :
    (i.after fate).Bounded := by
  cases fate with
  | running | discarded => exact h
  | noisy => exact h.complete false
  | quiet => exact h.complete true

end Interval

/-! ## What `hardpps` does to the interval -/

section Calibration

variable {F : Type}

def Pps.interval (pps : Pps F) : Interval := ⟨pps.shift, pps.shiftmax, pps.intcnt⟩

/-- The code adapts the length as the machine does. -/
theorem interval_ppsInterval (pps : Pps F) : (ppsInterval pps).interval = pps.interval.settle := by
  unfold ppsInterval Interval.settle Pps.interval
  dsimp only
  split_ifs <;> rfl

variable [LFp F]

/-- The tests at the end of an interval, on the variables once the pulse is stored. -/
def Pps.calibration (cfg : Config) (pps : Pps F) : CalibrationFate :=
  let uSec := cfg.long (pps.tf0.tvSec - pps.lastsec)
  let vNsec := cfg.long (-pps.fcount)
  let uNsec := cfg.long (maxfreq <<< pps.shift.toNat)
  let wander := lGint (lSub (lRshift (lLint vNsec) pps.shift.toNat) pps.freq)
  if uSec < 1 <<< pps.shift.toNat then .running
  else if vNsec > uNsec || vNsec < cfg.long (-uNsec) || uSec != 1 <<< pps.shift.toNat then
    .discarded
  else if wander > ppsMaxwander ∨ wander < -ppsMaxwander then .noisy
  else .quiet

/-- How a call of `hardpps` leaves the interval. -/
def calibrationFate (cfg : Config) (k : Kernel F) (tsp : Timespec) (nsec : ℤ) :
    CalibrationFate :=
  if (pulseFate cfg k tsp).Filtered then (storePulse cfg k tsp nsec).pps.calibration cfg
  else .running

variable (cfg : Config) (k : Kernel F)

theorem ppsWander_interval (ftemp : F) : (ppsWander cfg k ftemp).1.pps.interval =
    { k.pps.interval with
      intcnt :=
        if lGint ftemp > ppsMaxwander ∨ lGint ftemp < -ppsMaxwander then k.pps.intcnt - 1
        else k.pps.intcnt + 1 } := by
  unfold ppsWander Pps.interval
  by_cases hover : lGint ftemp > ppsMaxwander
  · rw [if_pos hover, if_pos (Or.inl hover)]
  · rw [if_neg hover]
    by_cases hunder : lGint ftemp < -ppsMaxwander
    · rw [if_pos hunder, if_pos (Or.inr hunder)]
    · rw [if_neg hunder, if_neg (not_or.mpr ⟨hover, hunder⟩)]

/-- A completed interval counts as its wander says. -/
theorem ppsFrequencyUpdate_interval (vNsec : ℤ) :
    (ppsFrequencyUpdate cfg k vNsec).pps.interval =
      let wander := lGint (lSub (lRshift (lLint vNsec : F) k.pps.shift.toNat) k.pps.freq)
      k.pps.interval.after
        (if wander > ppsMaxwander ∨ wander < -ppsMaxwander then .noisy else .quiet) := by
  have hupdate : (ppsFrequencyUpdate cfg k vNsec).pps.interval
      = (ppsInterval (ppsWander cfg k
          (lSub (lRshift (lLint vNsec) k.pps.shift.toNat) k.pps.freq)).1.pps).interval := by
    unfold ppsFrequencyUpdate Pps.interval
    dsimp only
    split_ifs <;> rfl
  rw [hupdate, interval_ppsInterval, ppsWander_interval]
  dsimp only
  split_ifs <;> rfl

theorem ppsCalibrate_interval : (ppsCalibrate cfg k).pps.interval
    = k.pps.interval.after (k.pps.calibration cfg) := by
  unfold ppsCalibrate Pps.calibration
  dsimp only
  by_cases hrunning : cfg.long (k.pps.tf0.tvSec - k.pps.lastsec) < 1 <<< k.pps.shift.toNat
  · rw [if_pos hrunning, if_pos hrunning]
    rfl
  · rw [if_neg hrunning, if_neg hrunning]
    split_ifs with hdiscard
    · rfl
    · rw [ppsFrequencyUpdate_interval]
      dsimp only
      rw [if_pos ‹_›]
      rfl
    · rw [ppsFrequencyUpdate_interval]
      dsimp only
      rw [if_neg ‹_›]
      rfl

/-- The phase loop does not matter to the calibration. -/
theorem ppsPhase_calibration :
    (ppsPhase cfg k).pps.interval = k.pps.interval ∧
      (ppsPhase cfg k).pps.calibration cfg = k.pps.calibration cfg := by
  rw [ppsPhase_pps]
  exact ⟨rfl, rfl⟩

/-- Every call of `hardpps` drives the machine by the fate of the interval. -/
theorem hardpps_interval (tsp : Timespec) (nsec : ℤ) :
    (hardpps cfg k tsp nsec).pps.interval
      = k.pps.interval.after (calibrationFate cfg k tsp nsec) := by
  unfold calibrationFate
  by_cases hfiltered : (pulseFate cfg k tsp).Filtered
  · obtain ⟨hinterval, hcalibration⟩ := ppsPhase_calibration cfg (storePulse cfg k tsp nsec)
    rw [if_pos hfiltered, hardpps_of_filtered nsec hfiltered, ppsCalibrate_interval, hinterval,
      hcalibration]
    rfl
  · rw [if_neg hfiltered]
    by_cases hsame : pulseFate cfg k tsp = .sameSecond
    · rw [hardpps_of_sameSecond nsec hsame]
      rfl
    · have hgated : pulseFate cfg k tsp = .gated := by
        by_contra hgated
        exact hfiltered ⟨hsame, hgated⟩
      rw [hardpps_of_gated nsec hgated]
      rfl

end Calibration

/-! ## What `ntp_adjtime` does to it -/

section Adjtime

variable {F : Type} (cfg : Config) (ntv : Timex) (k : Kernel F)

/-- `MOD_PPSMAX`, as the code clamps it. -/
def requestedMax (ntv : Timex) : ℤ :=
  if ntv.shift < ppsFavg then ppsFavg
  else if ntv.shift > ppsFavgmax then ppsFavgmax else ntv.shift

/-- Dropping `STA_PLL` resets the length, `MOD_PPSMAX` sets the limit. -/
def Interval.adjtime (i : Interval) : Interval :=
  if cfg.ppsSync then
    { i with
      shift := if DropsPll k ntv then ppsFavg else i.shift
      shiftmax := if has ntv.modes modPpsmax then requestedMax ntv else i.shiftmax }
  else i

theorem adjStatus_shift_eq : (adjStatus cfg ntv k).pps.shift =
    if cfg.ppsSync ∧ DropsPll k ntv then ppsFavg else k.pps.shift := by
  by_cases hdrops : DropsPll k ntv
  · obtain ⟨hmodes, hpll, hdrop⟩ := hdrops
    cases hsync : cfg.ppsSync <;> simp [adjStatus, DropsPll, hmodes, hpll, hdrop, hsync]
  · rw [if_neg fun h => hdrops h.2]
    exact adjStatus_shift cfg ntv k hdrops

theorem adjKernel_interval [LFp F] (tvSec : ℤ) :
    (adjKernel cfg k tvSec ntv).pps.interval = k.pps.interval.adjtime cfg ntv k := by
  have hoffset : (adjKernel cfg k tvSec ntv).pps.interval
      = (adjConstant cfg ntv (adjStatus cfg ntv (adjError ntv k))).pps.interval := by
    rw [adjKernel_eq_beforeOffset, adjFrequency_frame, adjOffset_frame]
    rfl
  have hshift : (adjConstant cfg ntv (adjStatus cfg ntv (adjError ntv k))).pps.shift =
      if cfg.ppsSync ∧ DropsPll k ntv then ppsFavg else k.pps.shift := by
    rw [adjConstant_frame, adjError_frame]
    exact adjStatus_shift_eq cfg ntv _
  have hshiftmax : (adjConstant cfg ntv (adjStatus cfg ntv (adjError ntv k))).pps.shiftmax =
      if cfg.ppsSync && has ntv.modes modPpsmax then requestedMax ntv else k.pps.shiftmax := by
    rw [adjConstant_shiftmax, adjStatus_frame, adjError_frame]
    rfl
  have hintcnt : (adjConstant cfg ntv (adjStatus cfg ntv (adjError ntv k))).pps.intcnt =
      k.pps.intcnt := by
    rw [adjConstant_frame, adjStatus_frame, adjError_frame]
  rw [hoffset]
  unfold Pps.interval Interval.adjtime
  rw [hshift, hshiftmax, hintcnt]
  cases cfg.ppsSync with
  | true => simp only [true_and, Bool.true_and, if_true]
  | false => simp only [Bool.false_and, Bool.false_eq_true, false_and, if_false]

end Adjtime

/-! ## Runs -/

namespace Clock

variable {F : Type} [LFp F] {cfg : Config}

/-- What each call does to the interval. -/
theorem step_interval (cfg : Config) (c : Clock F) (e : Event) :
    (c.step cfg e).k.pps.interval =
      match e with
      | .hardpps tsp nsec => c.k.pps.interval.after (calibrationFate cfg c.k tsp nsec)
      | .adjtime tp => c.k.pps.interval.adjtime cfg tp c.k
      | .tick | .hardupdate _ => c.k.pps.interval := by
  cases e with
  | tick =>
    show (c.tick cfg).k.pps.interval = c.k.pps.interval
    rw [tick_pps]
    rfl
  | adjtime tp => exact adjKernel_interval cfg tp c.k c.tv.tvSec
  | hardupdate offset =>
    show (Nanokernel.hardupdate cfg c.k c.tv.tvSec offset).pps.interval = c.k.pps.interval
    rw [hardupdate_pps]
  | hardpps tsp nsec => exact hardpps_interval cfg c.k tsp nsec

/-- A limit that is set is not below the length, unless the length is reset. -/
def KeepsMax (cfg : Config) (c : Clock F) : Event → Prop
  | .adjtime tp => cfg.ppsSync = true → has tp.modes modPpsmax = true →
      c.k.pps.shift ≤ requestedMax tp ∨ DropsPll c.k tp
  | _ => True

omit [LFp F] in
theorem requestedMax_bounds (tp : Timex) :
    ppsFavg ≤ requestedMax tp ∧ requestedMax tp ≤ ppsFavgmax := by
  unfold requestedMax ppsFavg ppsFavgmax
  split_ifs <;> omega

theorem step_bounded_iff {c : Clock F} (h : c.k.pps.interval.Bounded) (e : Event) :
    (c.step cfg e).k.pps.interval.Bounded ↔ KeepsMax cfg c e := by
  rw [step_interval]
  cases e with
  | tick | hardupdate => exact iff_of_true h trivial
  | hardpps tsp nsec => exact iff_of_true (h.after _) trivial
  | adjtime tp =>
    obtain ⟨hlo, hhi⟩ := requestedMax_bounds tp
    obtain ⟨hfavg, hlimit, hfavgmax, hintcnt⟩ := h
    unfold KeepsMax Interval.adjtime
    dsimp only
    cases hsync : cfg.ppsSync with
    | false => exact iff_of_true ⟨hfavg, hlimit, hfavgmax, hintcnt⟩ nofun
    | true =>
      rw [if_pos rfl]
      by_cases hdrops : DropsPll c.k tp
      · rw [if_pos hdrops]
        refine iff_of_true ⟨le_refl _, ?_, ?_, hintcnt⟩ fun _ _ => Or.inr hdrops
        · split_ifs
          · exact hlo
          · exact hfavg.trans hlimit
        · split_ifs
          · exact hhi
          · exact hfavgmax
      · rw [if_neg hdrops]
        by_cases hmax : has tp.modes modPpsmax = true
        · rw [if_pos hmax]
          constructor
          · exact fun h _ _ => Or.inl h.limit
          · intro h
            exact ⟨hfavg, (h rfl hmax).resolve_right hdrops, hhi, hintcnt⟩
        · rw [if_neg hmax]
          exact iff_of_true ⟨hfavg, hlimit, hfavgmax, hintcnt⟩ fun _ h => absurd h hmax

theorem interval_of_boots {c : Clock F} (h : Boots cfg c) :
    c.k.pps.interval = ⟨ppsFavg, ppsFavgdef, 0⟩ := by
  unfold Boots at h
  rw [h]
  unfold Kernel.boot ntpInit
  dsimp only
  split_ifs <;> rfl

theorem bounded_of_boots {c : Clock F} (h : Boots cfg c) : c.k.pps.interval.Bounded := by
  rw [interval_of_boots h]
  decide

/-- In every run from start-up, of any calls in any order: the length and the wander
counter stay within their limits in every state exactly when no call sets the limit
below the length in use. -/
theorem interval_bounded_iff (cfg : Config) (c₀ : Clock F) (hboot : Boots cfg c₀)
    (es : List Event) :
    (∀ pre, pre <+: es → (run (step cfg) c₀ pre).k.pps.interval.Bounded) ↔
      Along (step cfg) (KeepsMax cfg) c₀ es := by
  have hstart := bounded_of_boots hboot
  refine (forall_prefix_iff (I := fun c : Clock F => c.k.pps.interval.Bounded)).trans ?_
  rw [and_iff_right hstart]
  refine along_congr (I := fun c : Clock F => c.k.pps.interval.Bounded)
    (A := fun _ _ => True) ?_ ?_ hstart (along_true _ _)
  · exact fun c e h _ hkeeps => (step_bounded_iff h e).mpr hkeeps
  · exact fun c e h _ => step_bounded_iff h e

/-- Four quiet intervals of 4 s, and a new limit when 8 s are in use. -/
def setsMax (shift : ℤ) : List Event :=
  [.hardpps ⟨4, 0⟩ 0, .hardpps ⟨8, 0⟩ 0, .hardpps ⟨12, 0⟩ 0, .hardpps ⟨16, 0⟩ 0,
    .adjtime { modes := modPpsmax, shift := shift }]

/-- A limit of 64 s. -/
theorem interval_bounded_iff_setsMax :
    (∀ pre, pre <+: setsMax 6 →
        (run (step ppsConfig) ⟨(Kernel.boot ppsConfig : Kernel LFp64), ⟨0, 0⟩⟩
          pre).k.pps.interval.Bounded) ↔
      Along (step ppsConfig) (KeepsMax ppsConfig)
        ⟨(Kernel.boot ppsConfig : Kernel LFp64), ⟨0, 0⟩⟩ (setsMax 6) :=
  interval_bounded_iff ppsConfig ⟨Kernel.boot ppsConfig, ⟨0, 0⟩⟩ rfl (setsMax 6)

/-- A limit of 4 s does not lower the length that is in use. -/
theorem not_interval_bounded : ¬ ∀ (c₀ : Clock LFp64) (es : List Event), Boots ppsConfig c₀ →
    Along (step ppsConfig) (Admissible ppsConfig) c₀ es →
    ∀ pre, pre <+: es → (run (step ppsConfig) c₀ pre).k.pps.interval.Bounded := by
  intro h
  have hbounded := h ⟨Kernel.boot ppsConfig, ⟨0, 0⟩⟩ (setsMax 2) rfl (by decide) _
    (List.prefix_refl _)
  exact absurd hbounded (by decide)

end Clock

end Nanokernel
