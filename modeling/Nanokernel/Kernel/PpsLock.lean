import Nanokernel.Kernel.Envelope
import Nanokernel.Kernel.PpsCounter

/-!
# The PPS frequency lock

Over pulses a second apart, the counter that `hardpps` reads gains the same amount every
second. At the end of each calibration interval `pps_freq` comes closer to what makes up for
that, by `PPS_MAXWANDER` at least, until it is there; and there it stays.
-/

namespace Nanokernel

open SignedWord Run

/-! ## One correction -/

section Correction

variable {F : Type} [LFp F] [LawfulLFp F]

/-- The wander, in units of `2^-32`, that a single interval makes up for. -/
def wanderLimit : ℤ := ppsMaxwander * 2 ^ 32

/-- What is left of a distance after one correction. -/
def closer (x : ℤ) : ℤ := max (x - wanderLimit) 0

theorem closer_mono {x y : ℤ} (h : x ≤ y) : closer x ≤ closer y :=
  max_le_max (by omega) le_rfl

/-- The clamp does not move away from a frequency within the limits. -/
theorem abs_clampFreq_sub_le {v : F} {t : ℤ} (hv : -2 ^ 63 < val v)
    (ht : |t| ≤ maxfreq * 2 ^ 32) : |val (clampFreq v) - t| ≤ |val v - t| := by
  have hnear := lGint_near v hv
  have htop : val (lLint maxfreq : F) = maxfreq * 2 ^ 32 := val_lLint_of_fits (by decide)
  have hbot : val (lLint (-maxfreq) : F) = -maxfreq * 2 ^ 32 := val_lLint_of_fits (by decide)
  have ht' := abs_le.mp ht
  unfold clampFreq
  unfold maxfreq at *
  split_ifs with hgt hlt
  · rw [htop, abs_of_nonneg (by omega), abs_of_nonneg (by omega)]
    omega
  · rw [hbot, abs_of_nonpos (by omega), abs_of_nonpos (by omega)]
    omega
  · exact le_rfl

/-- What the clamp of `hardpps` takes from the wander is made up for later. -/
theorem abs_ppsWander_sub_le (cfg : Config) (k : Kernel F) {w : F} (hw : -2 ^ 63 < val w) :
    |val (ppsWander cfg k w).2 - val w| ≤ closer |val w| ∧
      |val (ppsWander cfg k w).2| ≤ |val w| := by
  have hnear := lGint_near w hw
  have htop : val (lLint ppsMaxwander : F) = ppsMaxwander * 2 ^ 32 :=
    val_lLint_of_fits (by decide)
  have hbot : val (lLint (-ppsMaxwander) : F) = -ppsMaxwander * 2 ^ 32 :=
    val_lLint_of_fits (by decide)
  unfold ppsWander closer wanderLimit
  unfold ppsMaxwander at *
  dsimp only
  split_ifs with hgt hlt
  · rw [htop, abs_of_nonneg (by omega : 0 ≤ val w), abs_of_nonpos (by omega),
      abs_of_nonneg (by omega)]
    omega
  · rw [hbot, abs_of_nonpos (by omega : val w ≤ 0), abs_of_nonneg (by omega),
      abs_of_nonpos (by omega)]
    omega
  · rw [sub_self, abs_zero]
    exact ⟨le_max_right _ _, le_rfl⟩

omit [LawfulLFp F] in
theorem ppsFrequencyUpdate_freq (cfg : Config) (k : Kernel F) (vNsec : ℤ) :
    (ppsFrequencyUpdate cfg k vNsec).pps.freq = clampFreq (lAdd k.pps.freq
      (ppsWander cfg k (lSub (lRshift (lLint vNsec) k.pps.shift.toNat) k.pps.freq)).2) := by
  unfold ppsFrequencyUpdate
  dsimp only
  rw [ppsInterval_frame, ppsWander_frame]
  split_ifs <;> rfl

/-- A count of `2 ^ pps_shift` equal drifts brings `pps_freq` closer to what makes up for
the drift. -/
theorem abs_ppsFrequencyUpdate_add_le (cfg : Config) {k : Kernel F} {d : ℤ} {n : ℕ}
    (hd : |d| ≤ maxfreq) (hn : k.pps.shift = n) (hpos : 1 ≤ n) (hn63 : n < 63)
    (hfits : |d * 2 ^ n| < 2 ^ 31) (hfreq : |lGint k.pps.freq| ≤ maxfreq) :
    |val (ppsFrequencyUpdate cfg k (-(d * 2 ^ n))).pps.freq + d * 2 ^ 32|
      ≤ closer |val k.pps.freq + d * 2 ^ 32| := by
  have hfreq' := abs_lt.mp (abs_val_freq_lt hfreq)
  have hd' := abs_le.mp hd
  have hfits' := abs_lt.mp hfits
  unfold maxfreq at hfreq' hd'
  -- the count over the length of the interval
  have hload : val (lLint (-(d * 2 ^ n)) : F) = -(d * 2 ^ n) * 2 ^ 32 :=
    val_lLint_of_fits ⟨by omega, by omega⟩
  have hraw : val (lRshift (lLint (-(d * 2 ^ n)) : F) k.pps.shift.toNat) = -d * 2 ^ 32 := by
    rw [hn, Int.toNat_natCast, val_lRshift _ _ (by omega) hpos (by omega), hload,
      show -(d * 2 ^ n) * 2 ^ 32 = -d * 2 ^ 32 * 2 ^ n by ring,
      Int.mul_tdiv_cancel _ (by positivity)]
  have hw : val (lSub (lRshift (lLint (-(d * 2 ^ n)) : F) k.pps.shift.toNat) k.pps.freq)
      = -d * 2 ^ 32 - val k.pps.freq := by
    rw [val_lSub_of_fits, hraw]
    rw [hraw]
    exact ⟨by omega, by omega⟩
  obtain ⟨hclose, hsmall⟩ := abs_ppsWander_sub_le cfg k (by rw [hw]; omega :
    -2 ^ 63 < val (lSub (lRshift (lLint (-(d * 2 ^ n)) : F) k.pps.shift.toNat) k.pps.freq))
  rw [hw] at hclose hsmall
  have hrange := abs_le.mp (hsmall.trans (abs_le.mpr ⟨by omega, by omega⟩ :
    |-d * 2 ^ 32 - val k.pps.freq| ≤ 1000001 * 2 ^ 32))
  have hsum := val_lAdd_of_fits (v := k.pps.freq) (u := (ppsWander cfg k
    (lSub (lRshift (lLint (-(d * 2 ^ n)) : F) k.pps.shift.toNat) k.pps.freq)).2)
    ⟨by omega, by omega⟩
  have htarget : |-d * 2 ^ 32| ≤ maxfreq * 2 ^ 32 := by
    rw [abs_mul, abs_neg, abs_of_pos (by decide : (0 : ℤ) < 2 ^ 32)]
    exact mul_le_mul_of_nonneg_right hd (by decide)
  have hclamp := abs_clampFreq_sub_le (v := lAdd k.pps.freq (ppsWander cfg k
    (lSub (lRshift (lLint (-(d * 2 ^ n)) : F) k.pps.shift.toNat) k.pps.freq)).2)
    (by rw [hsum]; omega) htarget
  calc |val (ppsFrequencyUpdate cfg k (-(d * 2 ^ n))).pps.freq + d * 2 ^ 32|
      ≤ |val (lAdd k.pps.freq (ppsWander cfg k (lSub (lRshift (lLint (-(d * 2 ^ n)) : F)
          k.pps.shift.toNat) k.pps.freq)).2) - -d * 2 ^ 32| := by
        rw [ppsFrequencyUpdate_freq]
        simpa only [neg_mul, sub_neg_eq_add] using hclamp
    _ = |val (ppsWander cfg k (lSub (lRshift (lLint (-(d * 2 ^ n)) : F) k.pps.shift.toNat)
          k.pps.freq)).2 - (-d * 2 ^ 32 - val k.pps.freq)| := by
        rw [hsum]
        ring_nf
    _ ≤ closer |-d * 2 ^ 32 - val k.pps.freq| := hclose
    _ = closer |val k.pps.freq + d * 2 ^ 32| := by
        rw [← abs_neg]
        ring_nf

end Correction

/-! ## One interval -/

/-- The seconds of the interval so far. -/
def Pps.elapsed {F : Type} (pps : Pps F) : ℤ := pps.tf0.tvSec - pps.lastsec

section Interval

variable {F : Type} [LFp F] (cfg : Config) {k : Kernel F}

/-- Up to 4096 s the limit of the count fits a `long` of 32 bits. -/
theorem drift_bounds {d : ℤ} {n : ℕ} (hd : |d| ≤ maxfreq) (hn : n ≤ 12) :
    |d * 2 ^ n| ≤ maxfreq * 2 ^ n ∧ maxfreq * 2 ^ n ≤ 2048000000 := by
  have hpow : (2 : ℤ) ^ n ≤ 2 ^ 12 := pow_le_pow_right₀ (by decide) hn
  rw [abs_mul, abs_of_pos (by positivity : (0 : ℤ) < 2 ^ n)]
  refine ⟨mul_le_mul_of_nonneg_right hd (by positivity), ?_⟩
  unfold maxfreq
  omega

theorem ppsCalibrate_of_running {n : ℕ} (hn : k.pps.shift = n) (hn12 : n ≤ 12)
    (hlo : 0 ≤ k.pps.elapsed) (hlt : k.pps.elapsed < 2 ^ n) :
    ppsCalibrate cfg k = k := by
  have hpow : (2 : ℤ) ^ n ≤ 2 ^ 12 := pow_le_pow_right₀ (by decide) hn12
  have hlong : cfg.long (k.pps.tf0.tvSec - k.pps.lastsec) = k.pps.elapsed :=
    cfg.long_of_fits (x := k.pps.elapsed) ⟨by omega, by omega⟩
  refine if_pos ?_
  rw [hlong, hn, Int.toNat_natCast, Nat.one_shiftLeft, Nat.cast_pow, Nat.cast_ofNat]
  exact hlt

/-- An interval of the right length whose count is that of a drift within the limits ends
with an update of the frequency. -/
theorem ppsCalibrate_of_full {d : ℤ} {n : ℕ} (hn : k.pps.shift = n) (hn12 : n ≤ 12)
    (hd : |d| ≤ maxfreq) (hfull : k.pps.elapsed = 2 ^ n)
    (hcount : k.pps.fcount = d * 2 ^ n) : ppsCalibrate cfg k =
      ppsFrequencyUpdate cfg { k with pps := { k.pps with
        calcnt := cfg.long (k.pps.calcnt + 1)
        lastsec := k.pps.tf0.tvSec
        fcount := 0 } } (-(d * 2 ^ n)) := by
  have hpow : (2 : ℤ) ^ n ≤ 2 ^ 12 := pow_le_pow_right₀ (by decide) hn12
  have hpos : (0 : ℤ) < 2 ^ n := by positivity
  obtain ⟨hdrift, hlimit⟩ := drift_bounds hd hn12
  have hdrift' := abs_le.mp hdrift
  have hsec : cfg.long (k.pps.tf0.tvSec - k.pps.lastsec) = 2 ^ n := by
    rw [← Pps.elapsed, hfull, cfg.long_of_fits ⟨by omega, by omega⟩]
  have hcount' : cfg.long (-k.pps.fcount) = -(d * 2 ^ n) := by
    rw [hcount, cfg.long_of_fits ⟨by omega, by omega⟩]
  have hlimit' : cfg.long (maxfreq <<< k.pps.shift.toNat) = maxfreq * 2 ^ n := by
    rw [hn, Int.toNat_natCast, Int.shiftLeft_eq]
    exact cfg.long_of_fits ⟨by unfold maxfreq; omega, by omega⟩
  have hneg : cfg.long (-(maxfreq * 2 ^ n)) = -(maxfreq * 2 ^ n) :=
    cfg.long_of_fits ⟨by omega, by unfold maxfreq; omega⟩
  have hone : ((1 <<< k.pps.shift.toNat : ℕ) : ℤ) = 2 ^ n := by
    rw [hn, Int.toNat_natCast, Nat.one_shiftLeft, Nat.cast_pow, Nat.cast_ofNat]
  unfold ppsCalibrate
  dsimp only
  rw [hsec, hcount', hlimit', hneg, hone, if_neg (lt_irrefl _), if_neg]
  simp only [Bool.or_eq_true, decide_eq_true_eq, bne_self_eq_false, Bool.false_eq_true, or_false]
  omega

theorem ppsFrequencyUpdate_lastsec (vNsec : ℤ) :
    (ppsFrequencyUpdate cfg k vNsec).pps.lastsec = k.pps.lastsec := by
  unfold ppsFrequencyUpdate
  dsimp only
  rw [ppsInterval_frame, ppsWander_frame]
  split_ifs <;> rfl

end Interval

theorem Interval.after_shiftmax (i : Interval) (fate : CalibrationFate) :
    (i.after fate).shiftmax = i.shiftmax := by
  cases fate with
  | running | discarded => rfl
  | noisy => exact Interval.complete_shiftmax i false
  | quiet => exact Interval.complete_shiftmax i true

/-! ## Runs -/

namespace Clock

/-- How many pulses there were. -/
def countPulses {F : Type} (n : ℕ) (_ : Clock F) : Event → ℕ
  | .hardpps _ _ => n + 1
  | _ => n

/-- A pulse a second after the one before, within the range gate, with the next reading of
the counter. No other call interferes with the PPS frequency or the interval. -/
def SteadySecond {F : Type} (cfg : Config) (p : PpsCounter) (w : Clock F × ℕ) : Event → Prop
  | .hardpps tsp nsec => (pulseFate cfg w.1.k tsp).Filtered ∧
      (pulseOffset tsp).tvSec = w.1.k.pps.tf0.tvSec + 1 ∧
      nsec = p.reading (nanosecond.tdiv cfg.hz) (w.2 + 1)
  | .adjtime tp => ¬ DropsPll w.1.k tp ∧ has tp.modes modPpsmax = false ∧
      has tp.modes modFrequency = false
  | .tick | .hardupdate _ => True

instance {F : Type} (cfg : Config) (p : PpsCounter) (w : Clock F × ℕ) :
    (e : Event) → Decidable (SteadySecond cfg p w e)
  | .hardpps _ _ => inferInstanceAs (Decidable (_ ∧ _))
  | .adjtime _ => inferInstanceAs (Decidable (_ ∧ _))
  | .tick | .hardupdate _ => inferInstanceAs (Decidable True)

section Lock

variable {F : Type} [LFp F] [LawfulLFp F] {cfg : Config} {p : PpsCounter} {d far : ℤ}
  {top : ℕ}

/-- What holds of the PPS variables once so many pulses are stored: the count is that of the
seconds elapsed, and every interval that was completed, `2 ^ top` pulses long at most, has
made up for `PPS_MAXWANDER`. -/
structure Gathered (cfg : Config) (p : PpsCounter) (d far : ℤ) (top : ℕ) (pps : Pps F)
    (pulses : ℕ) : Prop where
  reading : pps.lastcount = p.reading (nanosecond.tdiv cfg.hz) pulses
  elapsed : 0 ≤ pps.elapsed ∧ pps.elapsed ≤ 2 ^ pps.shift.toNat
  fcount : pps.fcount = d * pps.elapsed
  bounded : pps.interval.Bounded
  shiftmax : pps.shiftmax = top
  freq : |lGint pps.freq| ≤ maxfreq
  near : ∃ intervals : ℕ, pulses ≤ intervals * 2 ^ top + pps.elapsed ∧
    |val pps.freq + d * 2 ^ 32| ≤ max (far - intervals * wanderLimit) 0

/-- What holds after the pulse: a full interval has been completed. -/
structure Locking (cfg : Config) (p : PpsCounter) (d far : ℤ) (top : ℕ) (pps : Pps F)
    (pulses : ℕ) : Prop extends Gathered cfg p d far top pps pulses where
  unfinished : pps.elapsed < 2 ^ pps.shift.toNat

/-- The watchdog has no part in it. -/
theorem Locking.congr {pps pps' : Pps F} {pulses : ℕ} (h : Locking cfg p d far top pps pulses)
    (hpps : pps' = { pps with valid := pps'.valid }) : Locking cfg p d far top pps' pulses := by
  rw [hpps]
  exact { h with }

omit [LawfulLFp F] in
/-- A call that is not a pulse leaves them alone. -/
theorem step_pps_of_not_pulse {w : Clock F × ℕ} {e : Event} (he : SteadySecond cfg p w e)
    (hpulse : ∀ tsp nsec, e ≠ .hardpps tsp nsec) :
    (w.1.step cfg e).k.pps = { w.1.k.pps with valid := (w.1.step cfg e).k.pps.valid } := by
  have hframe := step_pps cfg w.1 hpulse
  cases e with
  | tick => exact tick_pps cfg w.1
  | hardupdate offset =>
    show (Nanokernel.hardupdate cfg w.1.k w.1.tv.tvSec offset).pps = { w.1.k.pps with
      valid := (Nanokernel.hardupdate cfg w.1.k w.1.tv.tvSec offset).pps.valid }
    rw [hardupdate_pps]
  | adjtime tp =>
    obtain ⟨hpll, hmax, hfreq⟩ := he
    have hsame : w.1.k.pps.interval.adjtime cfg tp w.1.k = w.1.k.pps.interval := by
      unfold Interval.adjtime
      rw [if_neg hpll, hmax]
      split_ifs <;> first | rfl | contradiction
    have hinterval := (step_interval cfg w.1 (.adjtime tp)).trans hsame
    have hshift : (w.1.step cfg (.adjtime tp)).k.pps.shift = w.1.k.pps.shift :=
      congrArg Interval.shift hinterval
    have hshiftmax : (w.1.step cfg (.adjtime tp)).k.pps.shiftmax = w.1.k.pps.shiftmax :=
      congrArg Interval.shiftmax hinterval
    have hkept : (w.1.step cfg (.adjtime tp)).k.pps.freq = w.1.k.pps.freq := by
      show (adjKernel cfg w.1.k w.1.tv.tvSec tp).pps.freq = _
      rw [adjKernel_eq_beforeOffset, adjFrequency, hfreq, Bool.not_false, if_pos rfl,
        adjOffset_frame, adjBeforeOffset_frame]
    rw [hframe, hkept, hshift, hshiftmax]
  | hardpps tsp nsec => exact absurd rfl (hpulse tsp nsec)

omit [LawfulLFp F] [LFp F] in
theorem bounded_shift {pps : Pps F} (h : pps.interval.Bounded) (hmax : pps.shiftmax = top) :
    ∃ n : ℕ, pps.shift = n ∧ 1 ≤ n ∧ n ≤ top := by
  have hlo : ppsFavg ≤ pps.shift := h.favg
  have hhi : pps.shift ≤ pps.shiftmax := h.limit
  unfold ppsFavg at hlo
  obtain ⟨n, hn⟩ := Int.eq_ofNat_of_zero_le (show 0 ≤ pps.shift by omega)
  exact ⟨n, hn, by omega, by omega⟩

section Pulse

variable {w : Clock F × ℕ} {tsp : Timespec} {nsec : ℤ}
  (htick : 4 * nanosecond.tdiv cfg.hz ≤ nanosecond) (hp : p.Steady (nanosecond.tdiv cfg.hz))
  (hdrift : ∀ i, 1 ≤ i → p.drift i = d) (hd : |d| ≤ maxfreq) (htop : top ≤ 12)
include htick hp hdrift hd htop

/-- A steady pulse adds one drift to the count. -/
theorem Locking.stored (h : Locking cfg p d far top w.1.k.pps w.2)
    (he : SteadySecond cfg p w (.hardpps tsp nsec)) :
    (storePulse cfg w.1.k tsp nsec).pps.fcount = d * (w.1.k.pps.elapsed + 1) := by
  obtain ⟨-, -, hnsec⟩ := he
  obtain ⟨n, hn, -, hntop⟩ := bounded_shift h.bounded h.shiftmax
  have hdiff := PpsCounter.counterDiff_reading cfg htick hp (i := w.2 + 1) (Nat.le_add_left 1 _)
  rw [Nat.add_sub_cancel, ← h.reading, ← hnsec, hdrift _ (Nat.le_add_left 1 _)] at hdiff
  rw [storePulse_fcount, hdiff, h.fcount, ← mul_add_one]
  have hlo := h.elapsed.1
  have hlt := h.unfinished
  rw [hn, Int.toNat_natCast] at hlt
  obtain ⟨-, hlimit⟩ := drift_bounds hd (hntop.trans htop)
  have hprod : |d * (w.1.k.pps.elapsed + 1)| ≤ maxfreq * 2 ^ n := by
    rw [abs_mul, abs_of_pos (by omega : 0 < w.1.k.pps.elapsed + 1)]
    exact mul_le_mul hd (by omega) (by omega) (by decide)
  have hprod' := abs_le.mp hprod
  exact cfg.long_of_fits ⟨by omega, by omega⟩

/-- A steady pulse, stored and filtered. -/
theorem Locking.gathered (h : Locking cfg p d far top w.1.k.pps w.2)
    (he : SteadySecond cfg p w (.hardpps tsp nsec)) :
    Gathered cfg p d far top (ppsPhase cfg (storePulse cfg w.1.k tsp nsec)).pps (w.2 + 1) := by
  have hstored := h.stored htick hp hdrift hd htop he
  obtain ⟨-, hsec, hnsec⟩ := he
  set k := ppsPhase cfg (storePulse cfg w.1.k tsp nsec) with hk
  have hpps : k.pps = { (storePulse cfg w.1.k tsp nsec).pps with
      jitcnt := k.pps.jitcnt
      jitter := k.pps.jitter } := by
    rw [hk, ppsPhase_pps]
  have hfreq : k.pps.freq = w.1.k.pps.freq := by rw [hpps]; rfl
  have hinterval : k.pps.interval = w.1.k.pps.interval := by rw [hpps]; rfl
  have hshift : k.pps.shift = w.1.k.pps.shift := congrArg Interval.shift hinterval
  have helapsed : k.pps.elapsed = w.1.k.pps.elapsed + 1 := by
    have htf0 : k.pps.tf0.tvSec = w.1.k.pps.tf0.tvSec + 1 := by rw [hpps]; exact hsec
    have hlastsec : k.pps.lastsec = w.1.k.pps.lastsec := by rw [hpps]; rfl
    rw [Pps.elapsed, htf0, hlastsec, Pps.elapsed]
    ring
  obtain ⟨intervals, hpulses, hcloser⟩ := h.near
  have hlo := h.elapsed.1
  have hlt := h.unfinished
  refine ⟨?_, ?_, ?_, ?_, ?_, ?_, intervals, ?_, ?_⟩
  · rw [hpps]
    exact hnsec
  · rw [helapsed, hshift]
    omega
  · rw [helapsed, hpps]
    exact hstored
  · rw [hinterval]
    exact h.bounded
  · exact (congrArg Interval.shiftmax hinterval).trans h.shiftmax
  · rw [hfreq]
    exact h.freq
  · rw [helapsed]
    push_cast
    omega
  · rw [hfreq]
    exact hcloser

end Pulse

section Calibrate

variable {k : Kernel F} {pulses : ℕ}

/-- An interval that is full is completed, with `PPS_MAXWANDER` made up for. -/
theorem Gathered.completed (h : Gathered cfg p d far top k.pps pulses) (hd : |d| ≤ maxfreq)
    (htop : top ≤ 12) (hfull : k.pps.elapsed = 2 ^ k.pps.shift.toNat) :
    Locking cfg p d far top (ppsCalibrate cfg k).pps pulses := by
  obtain ⟨n, hn, hn1, hntop⟩ := bounded_shift h.bounded h.shiftmax
  rw [hn, Int.toNat_natCast] at hfull
  have hfcount := h.fcount
  rw [hfull] at hfcount
  have hlong : (2 : ℤ) ^ n ≤ 2 ^ top := pow_le_pow_right₀ (by decide) hntop
  have hinterval := ppsCalibrate_interval cfg k
  rw [ppsCalibrate_of_full cfg hn (hntop.trans htop) hd hfull hfcount] at hinterval ⊢
  -- the variables of the new interval
  set k' : Kernel F := { k with pps := { k.pps with
    calcnt := cfg.long (k.pps.calcnt + 1)
    lastsec := k.pps.tf0.tvSec
    fcount := 0 } } with hk'
  have hframe := ppsFrequencyUpdate_pps cfg k' (-(d * 2 ^ n))
  have hnew : (ppsFrequencyUpdate cfg k' (-(d * 2 ^ n))).pps.elapsed = 0 := by
    rw [Pps.elapsed, ppsFrequencyUpdate_lastsec, hframe]
    exact sub_self _
  have hmax := congrArg Interval.shiftmax hinterval
  rw [Interval.after_shiftmax] at hmax
  have hcloser := abs_ppsFrequencyUpdate_add_le cfg (k := k') hd hn hn1 (by omega)
    (by have hbound := drift_bounds hd (hntop.trans htop); omega) h.freq
  obtain ⟨intervals, hpulses, hnear⟩ := h.near
  refine ⟨⟨?_, ?_, ?_, ?_, ?_, ?_, intervals + 1, ?_, ?_⟩, ?_⟩
  · rw [hframe]
    exact h.reading
  · rw [hnew]
    exact ⟨le_rfl, by positivity⟩
  · rw [hnew, mul_zero, hframe]
  · rw [hinterval]
    exact h.bounded.after _
  · exact hmax.trans h.shiftmax
  · rw [ppsFrequencyUpdate_freq]
    exact abs_lGint_clampFreq_le _
  · rw [hnew]
    push_cast
    rw [add_mul]
    omega
  · refine hcloser.trans ((closer_mono hnear).trans (le_of_eq ?_))
    unfold closer wanderLimit ppsMaxwander
    push_cast
    omega
  · rw [hnew]
    positivity

/-- The interval goes on, or is completed. -/
theorem Gathered.calibrate (h : Gathered cfg p d far top k.pps pulses) (hd : |d| ≤ maxfreq)
    (htop : top ≤ 12) : Locking cfg p d far top (ppsCalibrate cfg k).pps pulses := by
  rcases h.elapsed.2.lt_or_eq with hlt | hfull
  · obtain ⟨n, hn, -, hntop⟩ := bounded_shift h.bounded h.shiftmax
    have hrunning : k.pps.elapsed < 2 ^ n := by simpa [hn] using hlt
    rw [ppsCalibrate_of_running cfg hn (hntop.trans htop) h.elapsed.1 hrunning]
    exact ⟨h, hlt⟩
  · exact h.completed hd htop hfull

end Calibrate

/-- Where the lock starts: at the end of an interval. -/
structure Fresh (cfg : Config) (p : PpsCounter) (pps : Pps F) : Prop where
  reading : pps.lastcount = p.reading (nanosecond.tdiv cfg.hz) 0
  elapsed : pps.elapsed = 0
  fcount : pps.fcount = 0
  bounded : pps.interval.Bounded
  shiftmax : pps.shiftmax ≤ 12
  freq : |lGint pps.freq| ≤ maxfreq

instance (cfg : Config) (p : PpsCounter) (pps : Pps F) : Decidable (Fresh cfg p pps) :=
  decidable_of_iff (pps.lastcount = p.reading (nanosecond.tdiv cfg.hz) 0 ∧ pps.elapsed = 0 ∧
      pps.fcount = 0 ∧ pps.interval.Bounded ∧ pps.shiftmax ≤ 12 ∧ |lGint pps.freq| ≤ maxfreq)
    ⟨fun h => ⟨h.1, h.2.1, h.2.2.1, h.2.2.2.1, h.2.2.2.2.1, h.2.2.2.2.2⟩,
      fun h => ⟨h.reading, h.elapsed, h.fcount, h.bounded, h.shiftmax, h.freq⟩⟩

/-- Over pulses a second apart and a counter that gains `d` ns every second, with any other
calls in between that leave the PPS discipline alone: `pps_freq` comes closer to `-d` by
`PPS_MAXWANDER` in every `2 ^ pps_shiftmax` pulses, and stays at `-d` once it is there. -/
theorem pps_locks (cfg : Config) (hhz : 4 ≤ cfg.hz) (p : PpsCounter) (d : ℤ)
    (hdrift : ∀ i, 1 ≤ i → p.drift i = d) (hd : |d| ≤ maxfreq)
    (hsteady : 2 * |d| < nanosecond.tdiv cfg.hz) (c₀ : Clock F) (hfresh : Fresh cfg p c₀.k.pps)
    (es : List Event)
    (hes : Along (watch (step cfg) countPulses) (SteadySecond cfg p) (c₀, 0) es) :
    |val (run (step cfg) c₀ es).k.pps.freq + d * 2 ^ 32| ≤
      max (|val c₀.k.pps.freq + d * 2 ^ 32| -
        (observed (step cfg) countPulses c₀ 0 es / 2 ^ c₀.k.pps.shiftmax.toNat : ℕ)
          * (ppsMaxwander * 2 ^ 32)) 0 := by
  have htick : 4 * nanosecond.tdiv cfg.hz ≤ nanosecond := by
    rw [mul_comm]
    exact (SignedWord.tdiv_mul_le (by decide) (by decide) hhz).2
  have hp : p.Steady (nanosecond.tdiv cfg.hz) := by
    intro i hi
    rw [hdrift i hi]
    exact hsteady
  obtain ⟨top, htop⟩ := Int.eq_ofNat_of_zero_le (show 0 ≤ c₀.k.pps.shiftmax by
    have hlimit : c₀.k.pps.shift ≤ c₀.k.pps.shiftmax := hfresh.bounded.limit
    have hfavg : ppsFavg ≤ c₀.k.pps.shift := hfresh.bounded.favg
    unfold ppsFavg at hfavg
    omega)
  have hmax := hfresh.shiftmax
  have hstart : Locking cfg p d |val c₀.k.pps.freq + d * 2 ^ 32| top c₀.k.pps 0 := by
    refine ⟨⟨hfresh.reading, ?_, ?_, hfresh.bounded, htop, hfresh.freq, 0, ?_, ?_⟩, ?_⟩
    · rw [hfresh.elapsed]
      exact ⟨le_rfl, by positivity⟩
    · rw [hfresh.elapsed, hfresh.fcount, mul_zero]
    · rw [hfresh.elapsed]
      simp
    · simp
    · rw [hfresh.elapsed]
      positivity
  have hrun := run_invariant
    (I := fun w => Locking cfg p d |val c₀.k.pps.freq + d * 2 ^ 32| top w.1.k.pps w.2)
    (P := SteadySecond cfg p) (fun w e h he => ?_) hstart hes
  · rw [run_watch] at hrun
    obtain ⟨intervals, hpulses, hnear⟩ := hrun.near
    obtain ⟨n, hn, -, hntop⟩ := bounded_shift hrun.bounded hrun.shiftmax
    have hlt := hrun.unfinished
    rw [hn, Int.toNat_natCast] at hlt
    have hlong : (2 : ℤ) ^ n ≤ 2 ^ top := pow_le_pow_right₀ (by decide) hntop
    -- the interval that is running has less than `2 ^ top` pulses
    have hcount : observed (step cfg) countPulses c₀ 0 es / 2 ^ top ≤ intervals := by
      refine Nat.lt_succ_iff.mp (Nat.div_lt_of_lt_mul ?_)
      zify
      linarith
    have hmade : ((observed (step cfg) countPulses c₀ 0 es / 2 ^ top : ℕ) : ℤ) ≤ intervals := by
      exact_mod_cast hcount
    refine hnear.trans (max_le_max ?_ le_rfl)
    rw [htop, Int.toNat_natCast]
    unfold wanderLimit ppsMaxwander
    omega
  · by_cases hpulse : ∃ tsp nsec, e = .hardpps tsp nsec
    · obtain ⟨tsp, nsec, rfl⟩ := hpulse
      have hgathered := h.gathered htick hp hdrift hd (by omega) he
      show Locking cfg p d _ top (hardpps cfg w.1.k tsp nsec).pps (w.2 + 1)
      rw [hardpps_of_filtered nsec he.1]
      exact hgathered.calibrate hd (by omega)
    · have hnot : ∀ tsp nsec, e ≠ .hardpps tsp nsec := fun tsp nsec heq => hpulse ⟨tsp, nsec, heq⟩
      have hcount : countPulses w.2 w.1 e = w.2 := by
        cases e with
        | hardpps tsp nsec => exact absurd rfl (hnot tsp nsec)
        | _ => rfl
      unfold watch
      rw [hcount]
      exact h.congr (step_pps_of_not_pulse he hnot)

end Lock

/-- A counter that gains 150 ns every second. -/
def fast : PpsCounter where
  ideal i := i * (nanosecond + 150)
  crossed i := i % 2 == 0

/-- Intervals of four seconds only. -/
def shortIntervals : Clock LFp64 :=
  ⟨{ (Kernel.boot fourHertz : Kernel LFp64) with
    pps := { (Kernel.boot fourHertz : Kernel LFp64).pps with
      shiftmax := 2
      lastcount := fast.reading (nanosecond.tdiv fourHertz.hz) 0 } }, ⟨0, 0⟩⟩

def eightSeconds : List Event :=
  (List.range 8).flatMap fun i : ℕ =>
    [.hardpps ⟨(i : ℤ) + 1, 0⟩ (fast.reading (nanosecond.tdiv fourHertz.hz) (i + 1)), .tick]

theorem drift_fast (i : ℕ) (hi : 1 ≤ i) : fast.drift i = 150 := by
  unfold PpsCounter.drift fast nanosecond
  dsimp only
  omega

/-- Two intervals make up for 150 ns. -/
theorem pps_locks_fast :
    val (run (step fourHertz) shortIntervals eightSeconds).k.pps.freq = -150 * 2 ^ 32 := by
  have hlock := pps_locks fourHertz (by decide) fast 150 drift_fast (by decide) (by decide)
    shortIntervals (by decide +kernel) eightSeconds (by decide +kernel)
  have hzero : max (|val shortIntervals.k.pps.freq + 150 * 2 ^ 32| -
      (observed (step fourHertz) countPulses shortIntervals 0 eightSeconds
        / 2 ^ shortIntervals.k.pps.shiftmax.toNat : ℕ) * (ppsMaxwander * 2 ^ 32)) 0 = 0 := by
    decide +kernel
  rw [hzero, abs_nonpos_iff] at hlock
  omega

end Clock

end Nanokernel
