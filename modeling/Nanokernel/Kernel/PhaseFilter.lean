import Mathlib.Tactic.Linarith
import Nanokernel.Foundation.Averaging
import Nanokernel.Foundation.Median
import Nanokernel.Kernel.AdjtimeFrame

/-!
# The phase filter of `hardpps`

A pulse that passes the gates goes through a three-stage median filter and the
popcorn suppressor, and becomes the time offset if so enabled. What is installed
is the median of the stored samples, so a lone outlier among three is not
(`hardpps_filtered`).
-/

namespace Nanokernel

open BitMask SignedWord Run Averaging Median

/-! ## The fate of a pulse -/

/-- Where `hardpps()` leaves a pulse. -/
inductive PulseFate where
  /-- a later hit in the same second -/
  | sameSecond
  /-- stored, but outside the range gate -/
  | gated
  /-- a popcorn spike -/
  | popcorn
  /-- the new time offset -/
  | installed
  /-- not enabled -/
  | unused
deriving DecidableEq, Repr

section Fate

variable {F : Type}

/-- The tests of `hardpps()`, in the order of the source. -/
def pulseFate (cfg : Config) (k : Kernel F) (tsp : Timespec) : PulseFate :=
  let pulse := pulseOffset tsp
  let vNsec := cfg.long (pulse.tvNsec - k.pps.tf0.tvNsec)
  let uNsec := (medianFilter pulse.tvNsec k.pps.tf0.tvNsec k.pps.tf1.tvNsec).2
  if pulse.tvSec = k.pps.tf0.tvSec ∧ vNsec < nanosecond - maxfreq then .sameSecond
  else if vNsec > maxfreq ∨ vNsec < -maxfreq then .gated
  else if uNsec > cfg.long (k.pps.jitter <<< ppsPopcorn.toNat) then .popcorn
  else if has k.timeStatus staPpstime then .installed
  else .unused

/-- The pulse went through the median filter. -/
def PulseFate.Filtered (fate : PulseFate) : Prop := fate ≠ .sameSecond ∧ fate ≠ .gated

instance (fate : PulseFate) : Decidable fate.Filtered := inferInstanceAs (Decidable (_ ∧ _))

/-- The median of the stored samples. -/
def Pps.median (pps : Pps F) : ℤ :=
  Median.median pps.tf0.tvNsec pps.tf1.tvNsec pps.tf2.tvNsec

/-- The jitter sample: how far the stored samples are apart. -/
def Pps.spread (pps : Pps F) : ℤ :=
  Median.spread pps.tf0.tvNsec pps.tf1.tvNsec pps.tf2.tvNsec

/-- The comparisons of the source find the median and the other two. -/
theorem medianFilter_eq (t0 t1 t2 : ℤ) :
    medianFilter t0 t1 t2 = (Median.median t0 t1 t2, Median.spread t0 t1 t2) := by
  unfold medianFilter Median.median Median.spread
  split_ifs
  all_goals
    apply Prod.ext
    · dsimp only
      omega
    · dsimp only
      omega

end Fate

/-! ## The branches -/

section Branches

variable {F : Type} [LFp F] (cfg : Config) (k : Kernel F) (tsp : Timespec) (nsec : ℤ)

/-- The kernel variables once the pulse is stored. -/
def storePulse : Kernel F := ppsSample cfg (ppsSignal cfg k) (pulseOffset tsp) nsec

variable {cfg k tsp}

theorem hardpps_of_sameSecond (h : pulseFate cfg k tsp = .sameSecond) :
    hardpps cfg k tsp nsec = ppsSignal cfg k := by
  unfold pulseFate at h
  dsimp only at h
  split_ifs at h with hsame
  exact if_pos hsame

theorem hardpps_of_gated (h : pulseFate cfg k tsp = .gated) :
    hardpps cfg k tsp nsec = storePulse cfg k tsp nsec := by
  unfold pulseFate at h
  dsimp only at h
  split_ifs at h with hsame hgate
  exact (if_neg hsame).trans (if_pos hgate)

omit [LFp F] in
/-- Both gates let the pulse through. -/
theorem PulseFate.Filtered.gates (h : (pulseFate cfg k tsp).Filtered) :
    ¬ ((pulseOffset tsp).tvSec = k.pps.tf0.tvSec ∧
        cfg.long ((pulseOffset tsp).tvNsec - k.pps.tf0.tvNsec) < nanosecond - maxfreq) ∧
      ¬ (cfg.long ((pulseOffset tsp).tvNsec - k.pps.tf0.tvNsec) > maxfreq ∨
        cfg.long ((pulseOffset tsp).tvNsec - k.pps.tf0.tvNsec) < -maxfreq) := by
  obtain ⟨hsecond, hgated⟩ := h
  have hsame : ¬ ((pulseOffset tsp).tvSec = k.pps.tf0.tvSec ∧
      cfg.long ((pulseOffset tsp).tvNsec - k.pps.tf0.tvNsec) < nanosecond - maxfreq) := by
    intro hsame
    exact hsecond (if_pos hsame)
  refine ⟨hsame, ?_⟩
  intro hgate
  exact hgated ((if_neg hsame).trans (if_pos hgate))

theorem hardpps_of_filtered (h : (pulseFate cfg k tsp).Filtered) :
    hardpps cfg k tsp nsec = ppsCalibrate cfg (ppsPhase cfg (storePulse cfg k tsp nsec)) :=
  (if_neg h.gates.1).trans (if_neg h.gates.2)

variable (cfg k)

theorem ppsWander_frame (ftemp : F) : (ppsWander cfg k ftemp).1 = { k with
    timeStatus := (ppsWander cfg k ftemp).1.timeStatus
    pps := { k.pps with
      intcnt := (ppsWander cfg k ftemp).1.pps.intcnt
      stbcnt := (ppsWander cfg k ftemp).1.pps.stbcnt } } := by
  unfold ppsWander
  dsimp only
  split_ifs <;> rfl

omit [LFp F] in
theorem ppsInterval_frame (pps : Pps F) : ppsInterval pps = { pps with
    shift := (ppsInterval pps).shift
    intcnt := (ppsInterval pps).intcnt } := by
  unfold ppsInterval
  split_ifs <;> rfl

theorem ppsFrequencyUpdate_pps (vNsec : ℤ) :
    (ppsFrequencyUpdate cfg k vNsec).pps = { (ppsFrequencyUpdate cfg k vNsec).pps with
      tf0 := k.pps.tf0
      tf1 := k.pps.tf1
      tf2 := k.pps.tf2
      fcount := k.pps.fcount
      jitter := k.pps.jitter
      lastcount := k.pps.lastcount } := by
  unfold ppsFrequencyUpdate
  dsimp only
  rw [ppsInterval_frame, ppsWander_frame]
  split_ifs <;> rfl

/-- The frequency loop leaves the samples, the jitter and the last reading alone. -/
theorem ppsCalibrate_pps : (ppsCalibrate cfg k).pps = { (ppsCalibrate cfg k).pps with
    tf0 := k.pps.tf0
    tf1 := k.pps.tf1
    tf2 := k.pps.tf2
    jitter := k.pps.jitter
    lastcount := k.pps.lastcount } := by
  unfold ppsCalibrate
  dsimp only
  split_ifs
  · rfl
  · rfl
  · rw [ppsFrequencyUpdate_pps]

/-- The phase loop averages the jitter. -/
theorem ppsPhase_pps : (ppsPhase cfg k).pps = { k.pps with
    jitcnt := (ppsPhase cfg k).pps.jitcnt
    jitter := cfg.long (k.pps.jitter
      + cfg.long (k.pps.spread - k.pps.jitter) >>> ppsFavg.toNat) } := by
  unfold ppsPhase
  dsimp only
  rw [medianFilter_eq]
  split_ifs <;> rfl

/-- What the phase loop installs. -/
theorem ppsPhase_offset : ((ppsPhase cfg k).timeMonitor, (ppsPhase cfg k).timeOffset) =
    if k.pps.spread > cfg.long (k.pps.jitter <<< ppsPopcorn.toNat) then
      (k.timeMonitor, k.timeOffset)
    else if has k.timeStatus staPpstime then (-k.pps.median, lLint (-k.pps.median))
    else (k.timeMonitor, k.timeOffset) := by
  have hstatus : has (k.timeStatus &&& ~~~staPpsjitter) staPpstime
      = has k.timeStatus staPpstime := has_eq_of_and_eq (clear_and (by decide) _)
  unfold ppsPhase
  dsimp only
  rw [medianFilter_eq, hstatus]
  unfold Pps.spread
  split_ifs <;> rfl

variable (tsp)

omit [LFp F] in
theorem has_storePulse_ppstime :
    has (storePulse cfg k tsp nsec).timeStatus staPpstime = has k.timeStatus staPpstime := by
  have hsignal : (storePulse cfg k tsp nsec).timeStatus &&& staPpstime
      = k.timeStatus &&& staPpstime :=
    (clear_and (by decide) _).trans (set_and (by decide) _)
  exact has_eq_of_and_eq hsignal

/-- What a pulse installs that passed the gates. -/
theorem ppsPhase_storePulse (h : (pulseFate cfg k tsp).Filtered) :
    ((ppsPhase cfg (storePulse cfg k tsp nsec)).timeMonitor,
        (ppsPhase cfg (storePulse cfg k tsp nsec)).timeOffset) =
      if pulseFate cfg k tsp = .installed then
        (-(storePulse cfg k tsp nsec).pps.median,
          lLint (-(storePulse cfg k tsp nsec).pps.median))
      else (k.timeMonitor, k.timeOffset) := by
  have hspread : (medianFilter (pulseOffset tsp).tvNsec k.pps.tf0.tvNsec k.pps.tf1.tvNsec).2
      = (storePulse cfg k tsp nsec).pps.spread := by
    rw [medianFilter_eq]
    rfl
  have hjitter : (storePulse cfg k tsp nsec).pps.jitter = k.pps.jitter := rfl
  have hoffset : ((storePulse cfg k tsp nsec).timeMonitor,
      (storePulse cfg k tsp nsec).timeOffset) = (k.timeMonitor, k.timeOffset) := rfl
  rw [ppsPhase_offset, has_storePulse_ppstime, hjitter, hoffset]
  unfold pulseFate
  dsimp only
  rw [if_neg h.gates.1, if_neg h.gates.2, hspread]
  by_cases hspike : (storePulse cfg k tsp nsec).pps.spread
      > cfg.long (k.pps.jitter <<< ppsPopcorn.toNat)
  · rw [if_pos hspike, if_pos hspike]
    rfl
  · rw [if_neg hspike, if_neg hspike]
    cases has k.timeStatus staPpstime with
    | true => rfl
    | false => rfl

end Branches

/-! ## One call -/

section Call

variable {F : Type}

/-- The samples are within half a second, and the jitter within one. -/
structure FilterRange (pps : Pps F) : Prop where
  tf0 : PulseRange pps.tf0
  tf1 : PulseRange pps.tf1
  tf2 : PulseRange pps.tf2
  jitter : 0 ≤ pps.jitter ∧ pps.jitter ≤ nanosecond

theorem FilterRange.spread_bounds {pps : Pps F} (h : FilterRange pps) :
    0 ≤ pps.spread ∧ pps.spread ≤ nanosecond := by
  refine ⟨spread_nonneg _ _ _, ?_⟩
  exact spread_le (abs_le.mp h.tf0) (abs_le.mp h.tf1) (abs_le.mp h.tf2)

/-- A median of samples is within half a second too. -/
theorem FilterRange.abs_median_le {pps : Pps F} (h : FilterRange pps) :
    |(-pps.median)| ≤ nanosecond / 2 := by
  obtain ⟨h0lo, h0hi⟩ := abs_le.mp h.tf0
  obtain ⟨h1lo, h1hi⟩ := abs_le.mp h.tf1
  rw [abs_neg, abs_le]
  constructor
  · exact (le_min h0lo h1lo).trans (min_le_median _ _ _)
  · exact (median_le_max _ _ _).trans (max_le h0hi h1hi)

/-- The average stays between the jitter and the spread, and the words do not wrap. -/
theorem FilterRange.long_jitter {pps : Pps F} (h : FilterRange pps) (cfg : Config) :
    cfg.long (pps.jitter + cfg.long (pps.spread - pps.jitter) >>> ppsFavg.toNat)
        = toward 4 pps.spread pps.jitter ∧
      0 ≤ toward 4 pps.spread pps.jitter ∧ toward 4 pps.spread pps.jitter ≤ nanosecond := by
  obtain ⟨hslo, hshi⟩ := h.spread_bounds
  obtain ⟨hjlo, hjhi⟩ := h.jitter
  obtain ⟨hlo, hhi⟩ := toward_between (m := 4) (u := pps.spread) (x := pps.jitter) (by decide)
  have hrange : 0 ≤ toward 4 pps.spread pps.jitter ∧
      toward 4 pps.spread pps.jitter ≤ nanosecond := by
    constructor
    · exact (le_min hjlo hslo).trans hlo
    · refine hhi.trans (max_le hjhi ?_)
      linarith
  have hdiff : cfg.long (pps.spread - pps.jitter) = pps.spread - pps.jitter := by
    unfold nanosecond at hshi hjhi
    exact cfg.long_of_fits ⟨by omega, by omega⟩
  have hshift : (pps.spread - pps.jitter) >>> ppsFavg.toNat
      = (pps.spread - pps.jitter) / 4 := Int.shiftRight_eq_div_pow _ _
  refine ⟨?_, hrange⟩
  rw [hdiff, hshift]
  refine cfg.long_of_fits ⟨le_trans (by decide) hrange.1, ?_⟩
  exact lt_of_le_of_lt hrange.2 (by decide)

variable [LFp F]

/-- What a pulse does to the phase variables. -/
structure PhaseFiltered (cfg : Config) (k : Kernel F) (tsp : Timespec) (k' : Kernel F) :
    Prop where
  stored : pulseFate cfg k tsp ≠ .sameSecond →
    k'.pps.tf0 = pulseOffset tsp ∧ k'.pps.tf1 = k.pps.tf0 ∧ k'.pps.tf2 = k.pps.tf1
  ignored : pulseFate cfg k tsp = .sameSecond →
    k'.pps.tf0 = k.pps.tf0 ∧ k'.pps.tf1 = k.pps.tf1 ∧ k'.pps.tf2 = k.pps.tf2
  /-- the average of the spreads -/
  averaged : (pulseFate cfg k tsp).Filtered →
    k'.pps.jitter = toward 4 k'.pps.spread k.pps.jitter
  unaveraged : ¬ (pulseFate cfg k tsp).Filtered → k'.pps.jitter = k.pps.jitter
  installed : pulseFate cfg k tsp = .installed →
    k'.timeMonitor = -k'.pps.median ∧ lGint k'.timeOffset = -k'.pps.median
  kept : pulseFate cfg k tsp ≠ .installed →
    k'.timeMonitor = k.timeMonitor ∧ k'.timeOffset = k.timeOffset

section Pulse

variable {cfg : Config} {k : Kernel F} {tsp : Timespec}

omit [LFp F] in
theorem storePulse_range (cfg : Config) (h : FilterRange k.pps)
    (htsp : PulseRange (pulseOffset tsp))
    (nsec : ℤ) : FilterRange (storePulse cfg k tsp nsec).pps :=
  ⟨htsp, h.tf0, h.tf1, h.jitter⟩

/-- The filter after a pulse that passed the gates. -/
theorem hardpps_pps_of_filtered (h : FilterRange k.pps) (htsp : PulseRange (pulseOffset tsp))
    (nsec : ℤ) (hfate : (pulseFate cfg k tsp).Filtered) :
    (hardpps cfg k tsp nsec).pps = { (hardpps cfg k tsp nsec).pps with
      tf0 := pulseOffset tsp
      tf1 := k.pps.tf0
      tf2 := k.pps.tf1
      jitter := toward 4 (storePulse cfg k tsp nsec).pps.spread k.pps.jitter } := by
  have hjitter := ((storePulse_range cfg h htsp nsec).long_jitter cfg).1
  rw [hardpps_of_filtered nsec hfate, ppsCalibrate_pps, ppsPhase_pps, hjitter]
  rfl

theorem hardpps_phase_of_filtered (nsec : ℤ) (hfate : (pulseFate cfg k tsp).Filtered) :
    ((hardpps cfg k tsp nsec).timeMonitor, (hardpps cfg k tsp nsec).timeOffset) =
      if pulseFate cfg k tsp = .installed then
        (-(storePulse cfg k tsp nsec).pps.median,
          lLint (-(storePulse cfg k tsp nsec).pps.median))
      else (k.timeMonitor, k.timeOffset) := by
  rw [← ppsPhase_storePulse cfg k tsp nsec hfate, hardpps_of_filtered nsec hfate,
    ppsCalibrate_frame]

variable [LawfulLFp F]

theorem phaseFiltered_of_filtered (h : FilterRange k.pps)
    (htsp : PulseRange (pulseOffset tsp)) (nsec : ℤ) (hfate : (pulseFate cfg k tsp).Filtered) :
    PhaseFiltered cfg k tsp (hardpps cfg k tsp nsec) ∧
      FilterRange (hardpps cfg k tsp nsec).pps := by
  have hrange := storePulse_range cfg h htsp nsec
  have hpps := hardpps_pps_of_filtered h htsp nsec hfate
  have hphase := hardpps_phase_of_filtered nsec hfate
  have hspread : (hardpps cfg k tsp nsec).pps.spread = (storePulse cfg k tsp nsec).pps.spread := by
    rw [hpps]
    rfl
  have hmedian : (hardpps cfg k tsp nsec).pps.median = (storePulse cfg k tsp nsec).pps.median := by
    rw [hpps]
    rfl
  refine ⟨⟨?_, ?_, ?_, ?_, ?_, ?_⟩, ?_⟩
  · intro _
    rw [hpps]
    exact ⟨rfl, rfl, rfl⟩
  · exact fun hsame => absurd hsame hfate.1
  · intro _
    rw [hspread, hpps]
  · exact fun hnot => absurd hfate hnot
  · intro hinstalled
    rw [if_pos hinstalled] at hphase
    obtain ⟨hmonitor, hoffset⟩ := Prod.mk.inj hphase
    rw [hmonitor, hoffset, hmedian]
    exact ⟨rfl, lGint_lLint_of_abs hrange.abs_median_le (by decide)⟩
  · intro hne
    rw [if_neg hne] at hphase
    exact Prod.mk.inj hphase
  · have hjitter := (hrange.long_jitter cfg).2
    rw [hpps]
    exact ⟨htsp, h.tf0, h.tf1, hjitter⟩

/-- Every call of `hardpps()` with a normalised timestamp. -/
theorem hardpps_phaseFiltered (cfg : Config) (h : FilterRange k.pps)
    (htsp : PulseRange (pulseOffset tsp))
    (nsec : ℤ) :
    PhaseFiltered cfg k tsp (hardpps cfg k tsp nsec) ∧
      FilterRange (hardpps cfg k tsp nsec).pps := by
  by_cases hsame : pulseFate cfg k tsp = .sameSecond
  · rw [hardpps_of_sameSecond nsec hsame]
    refine ⟨⟨?_, ?_, ?_, ?_, ?_, ?_⟩, ⟨h.tf0, h.tf1, h.tf2, h.jitter⟩⟩
    · exact fun hne => absurd hsame hne
    · exact fun _ => ⟨rfl, rfl, rfl⟩
    · exact fun hf => absurd hsame hf.1
    · exact fun _ => rfl
    · intro hinstalled
      exact absurd (hsame.symm.trans hinstalled) nofun
    · exact fun _ => ⟨rfl, rfl⟩
  · by_cases hgated : pulseFate cfg k tsp = .gated
    · rw [hardpps_of_gated nsec hgated]
      refine ⟨⟨?_, ?_, ?_, ?_, ?_, ?_⟩, ⟨htsp, h.tf0, h.tf1, h.jitter⟩⟩
      · exact fun _ => ⟨rfl, rfl, rfl⟩
      · exact fun hs => absurd hs hsame
      · exact fun hf => absurd hgated hf.2
      · exact fun _ => rfl
      · intro hinstalled
        exact absurd (hgated.symm.trans hinstalled) nofun
      · exact fun _ => ⟨rfl, rfl⟩
    · exact phaseFiltered_of_filtered h htsp nsec ⟨hsame, hgated⟩

end Pulse

end Call

/-! ## Runs -/

namespace Clock

variable {F : Type} [LFp F] {cfg : Config}

/-- What a pulse stores. -/
def storedSample (cfg : Config) (c : Clock F) : Event → Option ℤ
  | .hardpps tsp _ =>
    if pulseFate cfg c.k tsp = .sameSecond then none else some (pulseOffset tsp).tvNsec
  | _ => none

/-- The samples stored in a run, after the three zeros of `ntp_init()`. -/
def storedSamples (cfg : Config) (c : Clock F) (es : List Event) : List ℤ :=
  [0, 0, 0] ++ outputs (step cfg) (storedSample cfg) c es

/-- The stages of the filter, the oldest one first. -/
def stages (c : Clock F) : List ℤ :=
  [c.k.pps.tf2.tvNsec, c.k.pps.tf1.tvNsec, c.k.pps.tf0.tvNsec]

/-- Of any three consecutive ones among `n` samples, two are genuine. -/
def LoneOutliers (genuine : ℕ → Prop) (n : ℕ) : Prop :=
  ∀ i, i + 3 ≤ n → genuine i ∧ genuine (i + 1) ∨ genuine (i + 1) ∧ genuine (i + 2) ∨
    genuine (i + 2) ∧ genuine i

/-- Of the PPS variables a tick writes the watchdog alone. -/
theorem tick_pps (cfg : Config) (c : Clock F) :
    (c.tick cfg).k.pps = { c.k.pps with valid := (c.tick cfg).k.pps.valid } := by
  rcases tick_kernel cfg c with htick | hroll
  · rw [htick]
    rfl
  · rw [hroll, rollover_frame]
    rfl

/-- Of the PPS variables the other calls write the frequency, the watchdog, the length of
the interval and its limit. -/
theorem step_pps (cfg : Config) (c : Clock F) {e : Event}
    (he : ∀ tsp nsec, e ≠ .hardpps tsp nsec) :
    (c.step cfg e).k.pps = { c.k.pps with
      freq := (c.step cfg e).k.pps.freq
      valid := (c.step cfg e).k.pps.valid
      shift := (c.step cfg e).k.pps.shift
      shiftmax := (c.step cfg e).k.pps.shiftmax } := by
  cases e with
  | tick =>
    show (c.tick cfg).k.pps = { c.k.pps with
      freq := (c.tick cfg).k.pps.freq
      valid := (c.tick cfg).k.pps.valid
      shift := (c.tick cfg).k.pps.shift
      shiftmax := (c.tick cfg).k.pps.shiftmax }
    rw [tick_pps]
  | adjtime tp =>
    show (adjKernel cfg c.k c.tv.tvSec tp).pps = { c.k.pps with
      freq := (adjKernel cfg c.k c.tv.tvSec tp).pps.freq
      valid := (adjKernel cfg c.k c.tv.tvSec tp).pps.valid
      shift := (adjKernel cfg c.k c.tv.tvSec tp).pps.shift
      shiftmax := (adjKernel cfg c.k c.tv.tvSec tp).pps.shiftmax }
    rw [adjKernel_frame]
  | hardupdate offset =>
    show (Nanokernel.hardupdate cfg c.k c.tv.tvSec offset).pps = { c.k.pps with
      freq := (Nanokernel.hardupdate cfg c.k c.tv.tvSec offset).pps.freq
      valid := (Nanokernel.hardupdate cfg c.k c.tv.tvSec offset).pps.valid
      shift := (Nanokernel.hardupdate cfg c.k c.tv.tvSec offset).pps.shift
      shiftmax := (Nanokernel.hardupdate cfg c.k c.tv.tvSec offset).pps.shiftmax }
    rw [hardupdate_pps]
  | hardpps tsp nsec => exact absurd rfl (he tsp nsec)

omit [LFp F] in
theorem storedSample_of_not (c : Clock F) {e : Event}
    (he : ∀ tsp nsec, e ≠ .hardpps tsp nsec) : storedSample cfg c e = none := by
  cases e with
  | hardpps tsp nsec => exact absurd rfl (he tsp nsec)
  | _ => rfl

variable [LawfulLFp F]

/-- The stages move up by the sample that is stored. -/
theorem step_stages {c : Clock F} (h : FilterRange c.k.pps) {e : Event}
    (he : c.Admissible cfg e) :
    FilterRange (c.step cfg e).k.pps ∧
      ∃ pre, c.stages ++ (storedSample cfg c e).toList = pre ++ (c.step cfg e).stages := by
  by_cases hpulse : ∃ tsp nsec, e = .hardpps tsp nsec
  · obtain ⟨tsp, nsec, rfl⟩ := hpulse
    have htsp : PulseRange (pulseOffset tsp) := pulseRange_pulseOffset he.2.1 he.2.2
    obtain ⟨hfilter, hrange⟩ := hardpps_phaseFiltered cfg h htsp nsec
    refine ⟨hrange, ?_⟩
    have hstages : (c.step cfg (.hardpps tsp nsec)).stages =
        [(hardpps cfg c.k tsp nsec).pps.tf2.tvNsec, (hardpps cfg c.k tsp nsec).pps.tf1.tvNsec,
          (hardpps cfg c.k tsp nsec).pps.tf0.tvNsec] := rfl
    rw [hstages]
    by_cases hsame : pulseFate cfg c.k tsp = .sameSecond
    · obtain ⟨h0, h1, h2⟩ := hfilter.ignored hsame
      have hstored : storedSample cfg c (.hardpps tsp nsec) = none := if_pos hsame
      rw [h0, h1, h2, hstored]
      exact ⟨[], rfl⟩
    · obtain ⟨h0, h1, h2⟩ := hfilter.stored hsame
      have hstored : storedSample cfg c (.hardpps tsp nsec) = some (pulseOffset tsp).tvNsec :=
        if_neg hsame
      rw [h0, h1, h2, hstored]
      exact ⟨[c.k.pps.tf2.tvNsec], rfl⟩
  · have hnot : ∀ tsp nsec, e ≠ .hardpps tsp nsec := fun tsp nsec heq => hpulse ⟨tsp, nsec, heq⟩
    have hpps := step_pps cfg c hnot
    have hrange : FilterRange (c.step cfg e).k.pps := by
      rw [hpps]
      exact ⟨h.tf0, h.tf1, h.tf2, h.jitter⟩
    refine ⟨hrange, [], ?_⟩
    unfold stages
    rw [storedSample_of_not c hnot, hpps]
    rfl

/-- After every run the stages are the last three samples stored. -/
theorem run_stages {c : Clock F} {es : List Event} (h : FilterRange c.k.pps)
    (hes : Along (step cfg) (Admissible cfg) c es) :
    FilterRange (run (step cfg) c es).k.pps ∧
      ∃ pre, c.stages ++ outputs (step cfg) (storedSample cfg) c es
        = pre ++ (run (step cfg) c es).stages := by
  induction es generalizing c with
  | nil => exact ⟨h, [], List.append_nil _⟩
  | cons e es ih =>
    obtain ⟨hrange, pre, hpre⟩ := step_stages h hes.1
    obtain ⟨hend, pre', hpre'⟩ := ih hrange hes.2
    refine ⟨hend, pre ++ pre', ?_⟩
    rw [outputs, run_cons, ← List.append_assoc, hpre, List.append_assoc, hpre',
      List.append_assoc]

omit [LawfulLFp F] in
/-- At boot the filter holds three zeros. -/
theorem filter_of_boots {c : Clock F} (h : Boots cfg c) :
    FilterRange c.k.pps ∧ c.stages = [0, 0, 0] := by
  have hzero : PulseRange ⟨0, 0⟩ := by
    unfold PulseRange
    decide
  have hjitter : (0 : ℤ) ≤ 0 ∧ (0 : ℤ) ≤ nanosecond := by decide
  unfold Boots at h
  unfold stages
  rw [h]
  unfold Kernel.boot ntpInit
  dsimp only
  split_ifs
  · exact ⟨⟨hzero, hzero, hzero, hjitter⟩, rfl⟩
  · exact ⟨⟨hzero, hzero, hzero, hjitter⟩, rfl⟩

theorem filterRange_of_reachable {c : Clock F} (h : c.Reachable cfg) : FilterRange c.k.pps :=
  h.invariant (fun _ hboot => (filter_of_boots hboot).1)
    (fun _ _ hrange he => (step_stages hrange he).1)

/-- An offset between the negated values of genuine samples. -/
def Enclosed (genuine : ℕ → Prop) (samples : List ℤ) (offset : ℤ) : Prop :=
  ∃ i j a b, genuine i ∧ samples[i]? = some a ∧ genuine j ∧ samples[j]? = some b ∧
    -b ≤ offset ∧ offset ≤ -a

/-- Two genuine samples enclose the median of a window. -/
theorem enclosed_median {genuine : ℕ → Prop} {pre : List ℤ} {t0 t1 t2 : ℤ}
    (h : LoneOutliers genuine (pre ++ [t2, t1, t0]).length) :
    Enclosed genuine (pre ++ [t2, t1, t0]) (-median t0 t1 t2) := by
  have hget : ∀ n, (pre ++ [t2, t1, t0])[pre.length + n]? = [t2, t1, t0][n]? := by
    intro n
    rw [List.getElem?_append_right (Nat.le_add_right _ _), Nat.add_sub_cancel_left]
  have hpair : ∀ i j a b, genuine i → (pre ++ [t2, t1, t0])[i]? = some a → genuine j →
      (pre ++ [t2, t1, t0])[j]? = some b →
      (a ≤ median t0 t1 t2 ∧ median t0 t1 t2 ≤ b ∨ b ≤ median t0 t1 t2 ∧ median t0 t1 t2 ≤ a) →
      Enclosed genuine (pre ++ [t2, t1, t0]) (-median t0 t1 t2) := by
    rintro i j a b hi ha hj hb (⟨hlo, hhi⟩ | ⟨hlo, hhi⟩)
    · exact ⟨i, j, a, b, hi, ha, hj, hb, neg_le_neg hhi, neg_le_neg hlo⟩
    · exact ⟨j, i, b, a, hj, hb, hi, ha, neg_le_neg hhi, neg_le_neg hlo⟩
  have hwindow : pre.length + 3 ≤ (pre ++ [t2, t1, t0]).length := by
    rw [List.length_append]
    exact le_refl _
  rcases h pre.length hwindow with ⟨h2, h1⟩ | ⟨h1, h0⟩ | ⟨h0, h2⟩
  · refine hpair _ _ t2 t1 h2 (hget 0) h1 (hget 1) ?_
    rw [median_rotate, median_comm]
    exact median_enclosed t2 t1 t0
  · refine hpair _ _ t1 t0 h1 (hget 1) h0 (hget 2) ?_
    rw [median_comm]
    exact median_enclosed t1 t0 t2
  · refine hpair _ _ t0 t2 h0 (hget 2) h2 (hget 0) ?_
    rw [median_rotate, median_rotate, median_comm]
    exact median_enclosed t0 t2 t1

/-- In every run from boot, and for every pulse after it: the stages are the last samples
stored; a pulse that is installed sets the offset to the negated median of the three, any
other leaves it; the jitter is an average of spreads and not negative. Where two of any
three consecutive samples are genuine, genuine samples enclose what is installed. -/
theorem hardpps_filtered (cfg : Config) (c₀ : Clock F) (hboot : Boots cfg c₀)
    (es : List Event) (hes : Along (step cfg) (Admissible cfg) c₀ es) (c : Clock F)
    (hc : run (step cfg) c₀ es = c) (tsp : Timespec) (nsec : ℤ)
    (hpulse : c.Admissible cfg (.hardpps tsp nsec)) :
    PhaseFiltered cfg c.k tsp (c.step cfg (.hardpps tsp nsec)).k ∧
      0 ≤ c.k.pps.jitter ∧ 0 ≤ (c.step cfg (.hardpps tsp nsec)).k.pps.jitter ∧
      ∀ genuine, LoneOutliers genuine (storedSamples cfg c₀ (es ++ [.hardpps tsp nsec])).length →
        pulseFate cfg c.k tsp = .installed →
        Enclosed genuine (storedSamples cfg c₀ (es ++ [.hardpps tsp nsec]))
          (lGint (c.step cfg (.hardpps tsp nsec)).k.timeOffset) := by
  obtain ⟨hzero, hstages⟩ := filter_of_boots hboot
  have hrange : FilterRange c.k.pps := by
    rw [← hc]
    exact (run_stages hzero hes).1
  have htsp : PulseRange (pulseOffset tsp) := pulseRange_pulseOffset hpulse.2.1 hpulse.2.2
  obtain ⟨hfilter, hnext⟩ := hardpps_phaseFiltered cfg hrange htsp nsec
  refine ⟨hfilter, hrange.jitter.1, hnext.jitter.1, ?_⟩
  intro genuine hlone hinstalled
  have hall : Along (step cfg) (Admissible cfg) c₀ (es ++ [.hardpps tsp nsec]) := by
    rw [along_append, hc]
    exact ⟨hes, hpulse, trivial⟩
  -- the stages of the filter are the last window
  obtain ⟨pre, hpre⟩ := (run_stages hzero hall).2
  rw [hstages, run_append, hc] at hpre
  have hsamples : storedSamples cfg c₀ (es ++ [.hardpps tsp nsec])
      = pre ++ (c.step cfg (.hardpps tsp nsec)).stages := hpre
  have hoffset : lGint (c.step cfg (.hardpps tsp nsec)).k.timeOffset
      = -(c.step cfg (.hardpps tsp nsec)).k.pps.median := (hfilter.installed hinstalled).2
  rw [hsamples] at hlone ⊢
  rw [hoffset]
  exact enclosed_median hlone

/-- The PPS time is enabled, and a pulse arrives 40 ns late. -/
def onePulse : List Event :=
  [.adjtime { modes := modStatus, status := staPpstime }, .hardpps ⟨1, 40⟩ 0]

def pulsedClock : Clock LFp32 := run (step ppsConfig) ⟨Kernel.boot ppsConfig, ⟨0, 0⟩⟩ onePulse

/-- The next one is installed. -/
theorem hardpps_filtered_pulsedClock :
    PhaseFiltered ppsConfig pulsedClock.k ⟨2, 40⟩
        (pulsedClock.step ppsConfig (.hardpps ⟨2, 40⟩ 0)).k ∧
      0 ≤ pulsedClock.k.pps.jitter ∧
      0 ≤ (pulsedClock.step ppsConfig (.hardpps ⟨2, 40⟩ 0)).k.pps.jitter ∧
      ∀ genuine, LoneOutliers genuine
          (storedSamples ppsConfig ⟨(Kernel.boot ppsConfig : Kernel LFp32), ⟨0, 0⟩⟩
            (onePulse ++ [.hardpps ⟨2, 40⟩ 0])).length →
        pulseFate ppsConfig pulsedClock.k ⟨2, 40⟩ = .installed →
        Enclosed genuine
          (storedSamples ppsConfig ⟨(Kernel.boot ppsConfig : Kernel LFp32), ⟨0, 0⟩⟩
            (onePulse ++ [.hardpps ⟨2, 40⟩ 0]))
          (lGint (pulsedClock.step ppsConfig (.hardpps ⟨2, 40⟩ 0)).k.timeOffset) :=
  hardpps_filtered ppsConfig ⟨Kernel.boot ppsConfig, ⟨0, 0⟩⟩ rfl onePulse
    ⟨trivial, ⟨rfl, by decide, by decide⟩, trivial⟩ pulsedClock rfl ⟨2, 40⟩ 0
    ⟨rfl, by decide, by decide⟩

example : pulseFate ppsConfig pulsedClock.k ⟨2, 40⟩ = .installed := by decide

end Clock

end Nanokernel
