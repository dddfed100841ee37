import Nanokernel.Foundation.Decay
import Nanokernel.Kernel.Frames
import Nanokernel.Kernel.TickInterpolation

/-!
# The performance envelope

The loop variables stay within the limits of `timex.h` in every reachable
state. `Envelope` is the invariant of the clock discipline and `PpsEnvelope`
what the PPS discipline adds to it; each routine is shown to keep both. The
arithmetic is the two's complement one of either macro set, so a wrapped sum
counts too: the final clamps catch it.
-/

namespace Nanokernel

open SignedWord Run Decay

variable {F : Type} [LFp F] [LawfulLFp F]

/-! ## The invariant -/

structure Envelope (k : Kernel F) : Prop where
  monitor : |k.timeMonitor| ≤ maxphase
  offset : |val k.timeOffset| ≤ maxphase * 2 ^ 32
  freq : |lGint k.timeFreq| ≤ maxfreq
  constant : 0 ≤ k.timeConstant ∧ k.timeConstant ≤ maxtc
  adj : AdjRange (val k.timeAdj)

/-- A pulse in the median filter lies within half a second. -/
def PulseRange (tf : Timespec) : Prop := |tf.tvNsec| ≤ nanosecond / 2

structure PpsEnvelope (pps : Pps F) : Prop where
  freq : |lGint pps.freq| ≤ maxfreq
  shift : ppsFavg ≤ pps.shift ∧ pps.shift ≤ ppsFavgmax
  shiftmax : ppsFavg ≤ pps.shiftmax ∧ pps.shiftmax ≤ ppsFavgmax
  tf0 : PulseRange pps.tf0
  tf1 : PulseRange pps.tf1
  tf2 : PulseRange pps.tf2

/-- What every routine keeps. -/
def Disciplined (k : Kernel F) : Prop := Envelope k ∧ PpsEnvelope k.pps

/-! ## Clamped values -/

theorem abs_clamp_le {limit : ℤ} (h : 0 ≤ limit) (x : ℤ) :
    |clamp limit x| ≤ limit := by
  rw [abs_le]
  unfold clamp
  split_ifs <;> constructor <;> omega

theorem lGint_lLint_of_abs {a limit : ℤ} (h : |a| ≤ limit) (hl : limit < 2 ^ 31) :
    lGint (lLint a : F) = a := by
  have hle := abs_le.mp h
  exact lGint_lLint ⟨by omega, by omega⟩ (by omega)

theorem abs_lGint_clampFreq_le (v : F) : |lGint (clampFreq v)| ≤ maxfreq := by
  have hmax : |maxfreq| ≤ maxfreq := by decide
  have hmin : |(-maxfreq)| ≤ maxfreq := by decide
  unfold clampFreq
  split_ifs with h1 h2
  · rw [lGint_lLint_of_abs hmax (by decide)]
    exact hmax
  · rw [lGint_lLint_of_abs hmin (by decide)]
    exact hmin
  · rw [abs_le]
    omega

/-- A phase loaded from a clamped integer. -/
theorem abs_val_lLint_phase {a : ℤ} (h : |a| ≤ maxphase) :
    |val (lLint a : F)| ≤ maxphase * 2 ^ 32 := by
  have hle := abs_le.mp h
  unfold maxphase at hle
  rw [val_lLint_of_fits ⟨by omega, by omega⟩, abs_le]
  unfold maxphase
  omega

/-- The frequency in units of `2^-32`, from its integral part. -/
theorem abs_val_freq_lt {v : F} (h : |lGint v| ≤ maxfreq) :
    |val v| < (maxfreq + 1) * 2 ^ 32 := by
  have hle := abs_le.mp h
  exact abs_lt.mpr (val_lt_of_lGint_le (by decide) hle.2 hle.1)

/-! ## `hardupdate()` -/

theorem updatePhase_envelope {k : Kernel F} (h : Envelope k) (offset : ℤ) :
    Envelope (updatePhase k offset) := by
  have hclamp := abs_clamp_le (by decide : 0 ≤ maxphase) offset
  unfold updatePhase
  split_ifs
  · exact h
  · exact ⟨hclamp, abs_val_lLint_phase hclamp, h.freq, h.constant, h.adj⟩

theorem updateFrequency_envelope {k : Kernel F} (h : Envelope k) (cfg : Config)
    (tvSec : ℤ) : Envelope (updateFrequency cfg k tvSec) := by
  unfold updateFrequency updateReftime
  dsimp only
  split_ifs <;>
    exact ⟨h.monitor, h.offset, abs_lGint_clampFreq_le _, h.constant, h.adj⟩

theorem hardupdate_envelope {k : Kernel F} (h : Envelope k) (cfg : Config)
    (tvSec offset : ℤ) : Envelope (hardupdate cfg k tvSec offset) := by
  have hphase := updatePhase_envelope h offset
  unfold hardupdate
  dsimp only
  split_ifs
  · exact h
  · exact ⟨hphase.monitor, hphase.offset, hphase.freq, hphase.constant, hphase.adj⟩
  · exact updateFrequency_envelope hphase cfg tvSec

theorem hardupdate_disciplined {k : Kernel F} (h : Disciplined k) (cfg : Config)
    (tvSec offset : ℤ) : Disciplined (hardupdate cfg k tvSec offset) := by
  refine ⟨hardupdate_envelope h.1 cfg tvSec offset, ?_⟩
  rw [hardupdate_pps]
  exact h.2

/-! ## `ntp_adjtime()` -/

theorem adjStatus_disciplined {k : Kernel F} (h : Disciplined k) (cfg : Config)
    (ntv : Timex) : Disciplined (adjStatus cfg ntv k) := by
  obtain ⟨hk, hpps⟩ := h
  have hfavg : ppsFavg ≤ ppsFavg ∧ ppsFavg ≤ ppsFavgmax := by decide
  unfold adjStatus
  dsimp only
  split_ifs
  · exact ⟨hk, hpps⟩
  · exact ⟨⟨hk.monitor, hk.offset, hk.freq, hk.constant, hk.adj⟩,
      ⟨hpps.freq, hfavg, hpps.shiftmax, hpps.tf0, hpps.tf1, hpps.tf2⟩⟩
  · exact ⟨⟨hk.monitor, hk.offset, hk.freq, hk.constant, hk.adj⟩, hpps⟩
  · exact ⟨⟨hk.monitor, hk.offset, hk.freq, hk.constant, hk.adj⟩, hpps⟩

theorem adjConstant_disciplined {k : Kernel F} (h : Disciplined k) (cfg : Config)
    (ntv : Timex) : Disciplined (adjConstant cfg ntv k) := by
  obtain ⟨hk, hpps⟩ := h
  have hconst : 0 ≤ (adjConstant cfg ntv k).timeConstant ∧
      (adjConstant cfg ntv k).timeConstant ≤ maxtc := by
    have htc := hk.constant
    unfold maxtc at htc ⊢
    rw [adjConstant_timeConstant]
    unfold maxtc
    split_ifs <;> omega
  have hmax : ppsFavg ≤ (adjConstant cfg ntv k).pps.shiftmax ∧
      (adjConstant cfg ntv k).pps.shiftmax ≤ ppsFavgmax := by
    have hsm := hpps.shiftmax
    unfold ppsFavg ppsFavgmax at hsm ⊢
    rw [adjConstant_shiftmax]
    unfold ppsFavg ppsFavgmax
    split_ifs <;> omega
  rw [adjConstant_frame]
  exact ⟨⟨hk.monitor, hk.offset, hk.freq, hconst, hk.adj⟩,
    ⟨hpps.freq, hpps.shift, hmax, hpps.tf0, hpps.tf1, hpps.tf2⟩⟩

theorem adjFrequency_disciplined {k : Kernel F} (h : Disciplined k) (cfg : Config)
    (ntv : Timex) : Disciplined (adjFrequency cfg ntv k) := by
  obtain ⟨hk, hpps⟩ := h
  have hclamp := abs_clamp_le (by decide : 0 ≤ maxfreq) (ntv.freq.tdiv scalePpm)
  have hfreq : |lGint (lLint (clamp maxfreq (ntv.freq.tdiv scalePpm)) : F)|
      ≤ maxfreq := by
    rw [lGint_lLint_of_abs hclamp (by decide)]
    exact hclamp
  unfold adjFrequency
  dsimp only
  split_ifs
  · exact ⟨hk, hpps⟩
  · exact ⟨⟨hk.monitor, hk.offset, hfreq, hk.constant, hk.adj⟩,
      ⟨hfreq, hpps.shift, hpps.shiftmax, hpps.tf0, hpps.tf1, hpps.tf2⟩⟩
  · exact ⟨⟨hk.monitor, hk.offset, hfreq, hk.constant, hk.adj⟩, hpps⟩

theorem adjBeforeOffset_disciplined {k : Kernel F} (h : Disciplined k) (cfg : Config)
    (ntv : Timex) : Disciplined (adjBeforeOffset cfg ntv k) := by
  have hconst : Disciplined
      (adjConstant cfg ntv (adjStatus cfg ntv (adjError ntv k))) := by
    apply adjConstant_disciplined
    apply adjStatus_disciplined
    rw [adjError_frame]
    exact ⟨⟨h.1.monitor, h.1.offset, h.1.freq, h.1.constant, h.1.adj⟩, h.2⟩
  exact ⟨⟨hconst.1.monitor, hconst.1.offset, hconst.1.freq, hconst.1.constant,
    hconst.1.adj⟩, hconst.2⟩

theorem adjKernel_disciplined {k : Kernel F} (h : Disciplined k) (cfg : Config)
    (tvSec : ℤ) (ntv : Timex) : Disciplined (adjKernel cfg k tvSec ntv) := by
  have hbefore := adjBeforeOffset_disciplined h cfg ntv
  rw [adjKernel_eq_beforeOffset]
  apply adjFrequency_disciplined
  rcases adjOffset_eq cfg ntv (adjBeforeOffset cfg ntv k) tvSec
    with hoff | ⟨offset, hoff⟩
  · rw [hoff]
    exact hbefore
  · rw [hoff]
    exact hardupdate_disciplined hbefore cfg tvSec offset

/-! ## `second_overflow()` -/

/-- The shift that amortises the offset takes at most a quarter of it. -/
theorem amortShift_bounds {k : Kernel F} (h : Disciplined k) (cfg : Config) :
    2 ≤ amortShift cfg k ∧ amortShift cfg k < 64 := by
  have htc := h.1.constant
  have hshift := h.2.shift
  unfold maxtc at htc
  unfold ppsFavg ppsFavgmax at hshift
  unfold amortShift shiftPll
  split_ifs <;> omega

/-- The second takes its share of the offset, and leaves the rest. -/
theorem val_nextAdj (cfg : Config) {k : Kernel F} (hmin : -2 ^ 63 < val k.timeOffset)
    (hshift : 1 ≤ amortShift cfg k ∧ amortShift cfg k < 64) :
    val (nextAdj cfg k).timeOffset = rest (2 ^ amortShift cfg k) (val k.timeOffset) ∧
    val (nextAdj cfg k).timeAdj
      = ((val k.timeOffset).tdiv (2 ^ amortShift cfg k) + val k.timeFreq
        + nanosecond * 2 ^ 32).bmod (2 ^ 64) := by
  have hval : val (lRshift k.timeOffset (amortShift cfg k))
      = (val k.timeOffset).tdiv (2 ^ amortShift cfg k) :=
    val_lRshift _ _ hmin hshift.1 hshift.2
  have hfit := (val_fits k.timeOffset).2
  have habs : |val k.timeOffset| < 2 ^ 63 := abs_lt.mpr ⟨hmin, hfit⟩
  have hrest := abs_lt.mp ((abs_rest_le (one_le_two_pow (amortShift cfg k)) _).trans_lt habs)
  constructor
  · have hsub : val (nextAdj cfg k).timeOffset
        = val k.timeOffset - val (lRshift k.timeOffset (amortShift cfg k)) := by
      refine val_lSub_of_fits ?_
      rw [hval]
      exact ⟨hrest.1.le, hrest.2⟩
    rw [hsub, hval]
    rfl
  · refine (val_lAddhi _ _).trans ?_
    rw [val_lAdd, hval]
    exact Int.bmod_add_bmod

theorem nextAdj_disciplined {k : Kernel F} (h : Disciplined k) (cfg : Config) :
    Disciplined (nextAdj cfg k) := by
  obtain ⟨hlo, hhi⟩ := amortShift_bounds h cfg
  obtain ⟨hk, hpps⟩ := h
  have hoff := hk.offset
  have hfreq := abs_lt.mp (abs_val_freq_lt hk.freq)
  have hmin : -2 ^ 63 < val k.timeOffset := by
    have hle := (abs_le.mp hoff).1
    unfold maxphase at hle
    omega
  obtain ⟨hoffset, hadj⟩ := val_nextAdj cfg hmin ⟨by omega, hhi⟩
  refine ⟨⟨hk.monitor, ?_, hk.freq, hk.constant, ?_⟩, hpps⟩
  · rw [hoffset]
    exact (abs_rest_le (one_le_two_pow _) _).trans hoff
  · -- the share of this second is at most a quarter of the offset
    have hshare := abs_tdiv_mul_le (val k.timeOffset) hlo
    have hquarter : |(val k.timeOffset).tdiv (2 ^ amortShift cfg k)| ≤ maxphase * 2 ^ 30 := by
      unfold maxphase at hoff ⊢
      omega
    have hquarter' := abs_le.mp hquarter
    unfold maxfreq at hfreq
    unfold maxphase at hquarter'
    rw [hadj, bmod_of_fits (by decide) ⟨by unfold nanosecond; omega, by unfold nanosecond; omega⟩]
    unfold AdjRange nanosecond
    omega

theorem rollover_disciplined {k : Kernel F} (h : Disciplined k) (cfg : Config)
    (tvSec : ℤ) : Disciplined (rollover cfg k tvSec).1 := by
  have hleap : Disciplined (leapSecond (widenError cfg k) (tvSec + 1)).1 := by
    rw [leapSecond_frame]
    exact ⟨⟨h.1.monitor, h.1.offset, h.1.freq, h.1.constant, h.1.adj⟩, h.2⟩
  obtain ⟨hk, hpps⟩ := nextAdj_disciplined hleap cfg
  rw [rollover_eq, ppsWatchdog_frame]
  exact ⟨⟨hk.monitor, hk.offset, hk.freq, hk.constant, hk.adj⟩,
    ⟨hpps.freq, hpps.shift, hpps.shiftmax, hpps.tf0, hpps.tf1, hpps.tf2⟩⟩

/-! ## `hardpps()` -/

theorem pulseRange_pulseOffset {tsp : Timespec} (h : 0 ≤ tsp.tvNsec)
    (h' : tsp.tvNsec < nanosecond) : PulseRange (pulseOffset tsp) := by
  unfold nanosecond at h'
  unfold PulseRange pulseOffset nanosecond
  split_ifs with hhalf
  · rw [abs_le]
    dsimp only
    omega
  · rw [abs_le]
    omega

/-- The median is one of the samples. -/
theorem medianFilter_fst (t0 t1 t2 : ℤ) :
    (medianFilter t0 t1 t2).1 = t0 ∨ (medianFilter t0 t1 t2).1 = t1 ∨
      (medianFilter t0 t1 t2).1 = t2 := by
  unfold medianFilter
  split_ifs <;> simp

theorem ppsPhase_disciplined {k : Kernel F} (h : Disciplined k) (cfg : Config) :
    Disciplined (ppsPhase cfg k) := by
  obtain ⟨hk, hpps⟩ := h
  have hmedian : |(-(medianFilter k.pps.tf0.tvNsec k.pps.tf1.tvNsec
      k.pps.tf2.tvNsec).1)| ≤ maxphase := by
    rw [abs_neg]
    rcases medianFilter_fst k.pps.tf0.tvNsec k.pps.tf1.tvNsec k.pps.tf2.tvNsec
      with h | h | h <;> rw [h]
    · exact hpps.tf0
    · exact hpps.tf1
    · exact hpps.tf2
  unfold ppsPhase
  dsimp only
  split_ifs
  · exact ⟨⟨hk.monitor, hk.offset, hk.freq, hk.constant, hk.adj⟩,
      ⟨hpps.freq, hpps.shift, hpps.shiftmax, hpps.tf0, hpps.tf1, hpps.tf2⟩⟩
  · exact ⟨⟨hmedian, abs_val_lLint_phase hmedian, hk.freq, hk.constant, hk.adj⟩,
      ⟨hpps.freq, hpps.shift, hpps.shiftmax, hpps.tf0, hpps.tf1, hpps.tf2⟩⟩
  · exact ⟨⟨hk.monitor, hk.offset, hk.freq, hk.constant, hk.adj⟩,
      ⟨hpps.freq, hpps.shift, hpps.shiftmax, hpps.tf0, hpps.tf1, hpps.tf2⟩⟩

omit [LawfulLFp F] in
theorem ppsInterval_envelope {pps : Pps F} (h : PpsEnvelope pps) :
    PpsEnvelope (ppsInterval pps) := by
  have hshift := h.shift
  have hmax := h.shiftmax
  unfold ppsInterval
  split_ifs
  · exact ⟨h.freq, ⟨by dsimp only; omega, by dsimp only; omega⟩, hmax, h.tf0,
      h.tf1, h.tf2⟩
  · exact ⟨h.freq, hshift, hmax, h.tf0, h.tf1, h.tf2⟩
  · exact ⟨h.freq, ⟨by dsimp only; omega, by dsimp only; omega⟩, hmax, h.tf0,
      h.tf1, h.tf2⟩
  · exact ⟨h.freq, hshift, hmax, h.tf0, h.tf1, h.tf2⟩
  · exact h

theorem ppsWander_disciplined {k : Kernel F} (h : Disciplined k) (cfg : Config)
    (ftemp : F) : Disciplined (ppsWander cfg k ftemp).1 := by
  obtain ⟨hk, hpps⟩ := h
  unfold ppsWander
  dsimp only
  split_ifs <;>
    exact ⟨⟨hk.monitor, hk.offset, hk.freq, hk.constant, hk.adj⟩,
      ⟨hpps.freq, hpps.shift, hpps.shiftmax, hpps.tf0, hpps.tf1, hpps.tf2⟩⟩

theorem ppsFrequencyUpdate_disciplined {k : Kernel F} (h : Disciplined k)
    (cfg : Config) (vNsec : ℤ) : Disciplined (ppsFrequencyUpdate cfg k vNsec) := by
  obtain ⟨hk, hpps⟩ := ppsWander_disciplined h cfg
    (lSub (lRshift (lLint vNsec) k.pps.shift.toNat) k.pps.freq)
  have hint := ppsInterval_envelope hpps
  unfold ppsFrequencyUpdate
  dsimp only
  split_ifs
  · exact ⟨⟨hk.monitor, hk.offset, abs_lGint_clampFreq_le _, hk.constant, hk.adj⟩,
      ⟨abs_lGint_clampFreq_le _, hint.shift, hint.shiftmax, hint.tf0, hint.tf1,
        hint.tf2⟩⟩
  · exact ⟨⟨hk.monitor, hk.offset, hk.freq, hk.constant, hk.adj⟩,
      ⟨abs_lGint_clampFreq_le _, hint.shift, hint.shiftmax, hint.tf0, hint.tf1,
        hint.tf2⟩⟩

theorem ppsCalibrate_disciplined {k : Kernel F} (h : Disciplined k) (cfg : Config) :
    Disciplined (ppsCalibrate cfg k) := by
  obtain ⟨hk, hpps⟩ := h
  unfold ppsCalibrate
  dsimp only
  split_ifs
  · exact ⟨hk, hpps⟩
  · exact ⟨⟨hk.monitor, hk.offset, hk.freq, hk.constant, hk.adj⟩,
      ⟨hpps.freq, hpps.shift, hpps.shiftmax, hpps.tf0, hpps.tf1, hpps.tf2⟩⟩
  · apply ppsFrequencyUpdate_disciplined
    exact ⟨⟨hk.monitor, hk.offset, hk.freq, hk.constant, hk.adj⟩,
      ⟨hpps.freq, hpps.shift, hpps.shiftmax, hpps.tf0, hpps.tf1, hpps.tf2⟩⟩

theorem hardpps_disciplined {k : Kernel F} (h : Disciplined k) (cfg : Config)
    {tsp : Timespec} (h0 : 0 ≤ tsp.tvNsec) (h1 : tsp.tvNsec < nanosecond)
    (nsec : ℤ) : Disciplined (hardpps cfg k tsp nsec) := by
  obtain ⟨hk, hpps⟩ := h
  have hpulse := pulseRange_pulseOffset h0 h1
  have hsample : Disciplined
      (ppsSample cfg (ppsSignal cfg k) (pulseOffset tsp) nsec) :=
    ⟨⟨hk.monitor, hk.offset, hk.freq, hk.constant, hk.adj⟩,
      ⟨hpps.freq, hpps.shift, hpps.shiftmax, hpulse, hpps.tf0, hpps.tf1⟩⟩
  unfold hardpps
  dsimp only
  split_ifs
  · exact ⟨⟨hk.monitor, hk.offset, hk.freq, hk.constant, hk.adj⟩,
      ⟨hpps.freq, hpps.shift, hpps.shiftmax, hpps.tf0, hpps.tf1, hpps.tf2⟩⟩
  · exact hsample
  · exact ppsCalibrate_disciplined (ppsPhase_disciplined hsample cfg) cfg

/-! ## Reachable states -/

omit [LawfulLFp F] in
theorem boot_timePhase (cfg : Config) :
    (Kernel.boot cfg : Kernel F).timePhase = lClr := by
  unfold Kernel.boot ntpInit
  dsimp only
  split_ifs <;> rfl

theorem boot_disciplined (cfg : Config) : Disciplined (Kernel.boot cfg : Kernel F) := by
  have hclr : lGint (lClr : F) = 0 := by
    rw [lGint_nonneg _ (by rw [val_lClr]), val_lClr]
    rfl
  have hfreq : |lGint (lClr : F)| ≤ maxfreq := by
    rw [hclr]
    decide
  have hoff : |val (lClr : F)| ≤ maxphase * 2 ^ 32 := by
    rw [val_lClr]
    decide
  have hadj : AdjRange (val (lLint nanosecond : F)) := by
    rw [val_lLint_of_fits (by decide)]
    decide
  have hmonitor : |(0 : ℤ)| ≤ maxphase := by decide
  have hconstant : (0 : ℤ) ≤ 0 ∧ 0 ≤ maxtc := by decide
  have hshift : ppsFavg ≤ ppsFavg ∧ ppsFavg ≤ ppsFavgmax := by decide
  have hshiftmax : ppsFavg ≤ ppsFavgdef ∧ ppsFavgdef ≤ ppsFavgmax := by decide
  have hzero : PulseRange ⟨0, 0⟩ := by
    unfold PulseRange
    decide
  unfold Kernel.boot ntpInit
  dsimp only
  split_ifs <;> exact ⟨⟨hmonitor, hoff, hfreq, hconstant, hadj⟩,
    ⟨hfreq, hshift, hshiftmax, hzero, hzero, hzero⟩⟩

namespace Clock

/-- What every call keeps: the loop variables and the phase are in range. -/
def Sound (cfg : Config) (c : Clock F) : Prop :=
  Disciplined c.k ∧ PhaseRange cfg.hz (val c.k.timePhase)

theorem sound_of_boots {cfg : Config} (hhz : 1 ≤ cfg.hz) {c : Clock F}
    (h : Boots cfg c) : Sound cfg c := by
  unfold Boots at h
  unfold Sound
  rw [h, boot_timePhase, val_lClr]
  exact ⟨boot_disciplined cfg, le_refl 0, by omega⟩

theorem tick_disciplined {cfg : Config} {c : Clock F} (h : Disciplined c.k) :
    Disciplined (c.tick cfg).k := by
  have hk : Disciplined (ntpTickAdjust cfg c.k c.tv 0).1 :=
    ⟨⟨h.1.monitor, h.1.offset, h.1.freq, h.1.constant, h.1.adj⟩, h.2⟩
  rcases tick_kernel cfg c with htick | hroll
  · rw [htick]
    exact hk
  · rw [hroll]
    exact rollover_disciplined hk cfg c.tv.tvSec

/-- Whatever the tick rate, every call keeps the loop variables in range. -/
theorem step_disciplined {cfg : Config} {c : Clock F} {e : Event}
    (h : Disciplined c.k) (he : Admissible cfg c e) :
    Disciplined (step cfg c e).k := by
  cases e with
  | tick => exact tick_disciplined h
  | adjtime tp => exact adjKernel_disciplined h cfg c.tv.tvSec tp
  | hardupdate offset => exact hardupdate_disciplined h cfg c.tv.tvSec offset
  | hardpps tsp nsec => exact hardpps_disciplined h cfg he.2.1 he.2.2 nsec

theorem disciplined_of_reachable {cfg : Config} {c : Clock F} (h : Reachable cfg c) :
    Disciplined c.k := by
  refine h.invariant (I := fun c => Disciplined c.k) ?_ (fun _ _ => step_disciplined)
  intro c hc
  rw [show c.k = Kernel.boot cfg from hc]
  exact boot_disciplined cfg

omit [LawfulLFp F] in
/-- Only a tick moves the phase. -/
theorem step_timePhase {cfg : Config} {c : Clock F} {e : Event} (he : e ≠ .tick) :
    (step cfg c e).k.timePhase = c.k.timePhase := by
  cases e with
  | tick => exact absurd rfl he
  | adjtime tp => exact adjKernel_timePhase cfg tp c.k c.tv.tvSec
  | hardupdate offset => exact hardupdate_timePhase cfg c.k c.tv.tvSec offset
  | hardpps tsp nsec =>
    show (Nanokernel.hardpps cfg c.k tsp nsec).timePhase = _
    rw [hardpps_frame]

omit [LawfulLFp F] in
/-- A pulse stores the `time_tick` of `ntp_init()` again. -/
theorem hardpps_timeTick (cfg : Config) (k : Kernel F) (tsp : Timespec) (nsec : ℤ) :
    (Nanokernel.hardpps cfg k tsp nsec).timeTick = nanosecond.tdiv cfg.hz := by
  unfold Nanokernel.hardpps
  dsimp only
  split_ifs
  · rfl
  · rfl
  · rw [ppsCalibrate_frame, ppsPhase_frame]
    rfl

omit [LawfulLFp F] in
/-- `time_tick` stays what `ntp_init()` made it. -/
theorem step_timeTick {cfg : Config} {c : Clock F}
    (h : c.k.timeTick = nanosecond.tdiv cfg.hz) (e : Event) :
    (step cfg c e).k.timeTick = nanosecond.tdiv cfg.hz := by
  cases e with
  | tick =>
    show (c.tick cfg).k.timeTick = _
    rcases tick_kernel cfg c with htick | htick
    · rw [htick]
      exact h
    · rw [htick, rollover_frame]
      exact h
  | adjtime tp =>
    show (adjKernel cfg c.k c.tv.tvSec tp).timeTick = _
    rw [adjKernel_frame]
    exact h
  | hardupdate offset =>
    show (hardupdate cfg c.k c.tv.tvSec offset).timeTick = _
    rw [hardupdate_frame, h]
  | hardpps tsp nsec => exact hardpps_timeTick cfg c.k tsp nsec

theorem tick_phaseRange {cfg : Config} (hhz : 1 ≤ cfg.hz ∧ cfg.hz ≤ 100000)
    {c : Clock F} (h : Sound cfg c) :
    PhaseRange cfg.hz (val (c.tick cfg).k.timePhase) := by
  have hphase : PhaseRange cfg.hz (val (ntpTickAdjust cfg c.k c.tv 0).1.timePhase) :=
    phaseRange_tickPhase cfg ⟨hhz.1, by omega⟩ h.2 h.1.1.adj
  rcases tick_kernel cfg c with htick | hroll
  · rw [htick]
    exact hphase
  · rw [hroll, rollover_timePhase]
    exact hphase

theorem step_sound {cfg : Config} (hhz : 1 ≤ cfg.hz ∧ cfg.hz ≤ 100000) {c : Clock F}
    {e : Event} (h : Sound cfg c) (he : Admissible cfg c e) :
    Sound cfg (step cfg c e) := by
  refine ⟨step_disciplined h.1 he, ?_⟩
  by_cases htick : e = .tick
  · subst htick
    exact tick_phaseRange hhz h
  · rw [step_timePhase htick]
    exact h.2

theorem sound_of_reachable {cfg : Config} (hhz : 1 ≤ cfg.hz ∧ cfg.hz ≤ 100000)
    {c : Clock F} (h : Reachable cfg c) : Sound cfg c :=
  h.invariant (fun _ => sound_of_boots hhz.1) (fun _ _ => step_sound hhz)

omit [LawfulLFp F] in
/-- The nanoseconds are a `long`. -/
theorem step_fits {cfg : Config} {c : Clock F} (h : cfg.Fits c.tv.tvNsec) (e : Event) :
    cfg.Fits (step cfg c e).tv.tvNsec := by
  cases e with
  | tick =>
    have hfits : cfg.Fits (ntpTickAdjust cfg c.k c.tv 0).2.tvNsec := cfg.fits_long _
    show cfg.Fits (c.tick cfg).tv.tvNsec
    rcases lt_or_ge (ntpTickAdjust cfg c.k c.tv 0).2.tvNsec nanosecond with hlt | hge
    · rw [tick_of_lt hlt]
      exact hfits
    · rw [tick_of_rollover hge]
      have hzero : cfg.Fits 0 := cfg.fits_of_fits (by decide)
      unfold nanosecond at hge ⊢
      exact hzero.between hfits (by dsimp only; omega) (by dsimp only; omega)
  | adjtime tp => exact h
  | hardupdate offset => exact h
  | hardpps tsp nsec => exact h

/-- What a tick adds is less than a turn of the `long`, so the clock goes back exactly
when the sum does not fit. -/
theorem le_ntpTickAdjust_iff {cfg : Config} (hhz : 1 ≤ cfg.hz ∧ cfg.hz ≤ 100000)
    {c : Clock F} (h : Sound cfg c) (hlong : cfg.Fits c.tv.tvNsec) :
    c.tv.tvNsec ≤ (ntpTickAdjust cfg c.k c.tv 0).2.tvNsec ↔ TickFits cfg c := by
  obtain ⟨hk, hphase⟩ := h
  have hadj := hk.1.adj
  obtain ⟨hcount, hcount'⟩ := tickQuotient_bounds (by omega : 1 ≤ cfg.hz ∧ cfg.hz ≤ 100000000)
    hphase hadj
  have hturn : (2 : ℤ) ^ 32 ≤ 2 ^ cfg.longWidth.bits := by
    cases cfg.longWidth <;> decide
  rw [ntpTickAdjust_tvNsec cfg hhz hphase hadj]
  exact le_bmod_add_iff cfg.longWidth.bits_pos hlong hcount (by omega)

/-- The performance envelope holds in every reachable state, and from there
`ntp_tick_adjust` does not move `TIMEVAR` backward exactly when the nanoseconds stay
in their `long`. -/
theorem reachable_envelope (cfg : Config) (hhz : 1 ≤ cfg.hz ∧ cfg.hz ≤ 100000)
    (c : Clock F) (h : Reachable cfg c) (hlong : cfg.Fits c.tv.tvNsec) :
    |c.k.timeMonitor| ≤ maxphase ∧
    |lGint c.k.timeOffset| ≤ maxphase ∧
    |lGint c.k.timeFreq| ≤ maxfreq ∧
    (0 ≤ c.k.timeConstant ∧ c.k.timeConstant ≤ maxtc) ∧
    (3 * nanosecond * 2 ^ 32 < 4 * val c.k.timeAdj ∧
      4 * val c.k.timeAdj < 5 * nanosecond * 2 ^ 32) ∧
    (ntpTickAdjust cfg c.k c.tv 0).2.tvSec = c.tv.tvSec ∧
    (c.tv.tvNsec ≤ (ntpTickAdjust cfg c.k c.tv 0).2.tvNsec ↔ TickFits cfg c) := by
  have henv := (sound_of_reachable hhz h).1.1
  have hoff : |lGint c.k.timeOffset| ≤ maxphase := by
    have hle := abs_le.mp henv.offset
    exact abs_le.mpr (lGint_le_of_val_le (by decide) hle.2 hle.1)
  exact ⟨henv.monitor, hoff, henv.freq, henv.constant, henv.adj, rfl,
    le_ntpTickAdjust_iff hhz (sound_of_reachable hhz h) hlong⟩

/-- A 32-bit machine with PPS. -/
def ppsConfig : Config := ⟨.ilp32, true, 100⟩

/-- Every limit is asked for more than it allows. -/
def wildRun : List Event :=
  [.adjtime
      { modes := 0xffff
        offset := 10 ^ 12
        freq := -10 ^ 15
        status := 0xffff
        constant := 77
        shift := 99 },
    .tick, .hardpps ⟨1000, 499999999⟩ (-10 ^ 12), .hardupdate (-10 ^ 12), .tick]

def wildState : Clock LFp32 :=
  run (step ppsConfig) ⟨Kernel.boot ppsConfig, ⟨1000, 995000000⟩⟩ wildRun

theorem reachable_envelope_wildState :
    |wildState.k.timeMonitor| ≤ maxphase ∧
    |lGint wildState.k.timeOffset| ≤ maxphase ∧
    |lGint wildState.k.timeFreq| ≤ maxfreq ∧
    (0 ≤ wildState.k.timeConstant ∧ wildState.k.timeConstant ≤ maxtc) ∧
    (3 * nanosecond * 2 ^ 32 < 4 * val wildState.k.timeAdj ∧
      4 * val wildState.k.timeAdj < 5 * nanosecond * 2 ^ 32) ∧
    (ntpTickAdjust ppsConfig wildState.k wildState.tv 0).2.tvSec
      = wildState.tv.tvSec ∧
    (wildState.tv.tvNsec
        ≤ (ntpTickAdjust ppsConfig wildState.k wildState.tv 0).2.tvNsec ↔
      TickFits ppsConfig wildState) :=
  reachable_envelope ppsConfig (by decide) wildState
    ⟨⟨Kernel.boot ppsConfig, ⟨1000, 995000000⟩⟩, wildRun, rfl, by decide, rfl⟩
    (by decide +kernel)

/-- The whole offset is handed to the loop. -/
def fullOffset : Event :=
  .adjtime
    { modes := modStatus ||| modNano ||| modOffset
      status := staPll
      offset := maxphase }

/-- Six ticks of a second and a share of the offset each, from the last microsecond of a
second: each of them carries one second only. -/
def crowdedRun : List Event := fullOffset :: List.replicate 6 .tick

def crowded : Clock LFp64 :=
  run (step oneHertz32) ⟨Kernel.boot oneHertz32, ⟨1000000, 999999000⟩⟩ crowdedRun

/-- The seventh tick makes 2160531921 ns, which a 32-bit `long` does not hold. -/
theorem not_reachable_envelope : ¬ ∀ (cfg : Config) (c : Clock LFp64),
    1 ≤ cfg.hz ∧ cfg.hz ≤ 100000 → Reachable cfg c → cfg.Fits c.tv.tvNsec →
    |c.k.timeMonitor| ≤ maxphase ∧
    |lGint c.k.timeOffset| ≤ maxphase ∧
    |lGint c.k.timeFreq| ≤ maxfreq ∧
    (0 ≤ c.k.timeConstant ∧ c.k.timeConstant ≤ maxtc) ∧
    (3 * nanosecond * 2 ^ 32 < 4 * val c.k.timeAdj ∧
      4 * val c.k.timeAdj < 5 * nanosecond * 2 ^ 32) ∧
    (ntpTickAdjust cfg c.k c.tv 0).2.tvSec = c.tv.tvSec ∧
    c.tv.tvNsec ≤ (ntpTickAdjust cfg c.k c.tv 0).2.tvNsec := by
  intro h
  have hcrowded := h oneHertz32 crowded (by decide)
    ⟨⟨Kernel.boot oneHertz32, ⟨1000000, 999999000⟩⟩, crowdedRun, rfl, by decide, rfl⟩
    (by decide +kernel)
  exact absurd hcrowded.2.2.2.2.2.2 (by decide +kernel)

end Clock

end Nanokernel
