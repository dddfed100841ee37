import Nanokernel.Foundation.Run
import Nanokernel.Kernel.OffsetUnits
import Nanokernel.Kernel.PhaseFilter

/-!
# The PPS watchdog

A pulse sets `STA_PPSSIGNAL` and winds up `pps_valid`, which every rollover counts
down. `silence` counts the rollovers since the last pulse from outside. The flag is
there for `PPS_VALID` rollovers and the next one clears it; then the clock follows the
time constant and the daemon's offset again.
-/

namespace Nanokernel

open BitMask Run

/-! ## What a rollover does -/

section Rollover

variable {F : Type} [LFp F] (cfg : Config) (k : Kernel F) (tvSec : ℤ)

/-- The watchdog counts down, and clears the flag when the count is out. -/
theorem rollover_watchdog :
    (rollover cfg k tvSec).1.pps.valid
        = (if cfg.ppsSync ∧ 0 < k.pps.valid then k.pps.valid - 1 else k.pps.valid) ∧
      (rollover cfg k tvSec).1.timeStatus =
        if cfg.ppsSync ∧ k.pps.valid ≤ 0 then k.timeStatus &&& ~~~staPpssignal
        else k.timeStatus := by
  have hbefore : (nextAdj cfg (leapSecond (widenError cfg k) (tvSec + 1)).1).pps.valid
        = k.pps.valid ∧
      (nextAdj cfg (leapSecond (widenError cfg k) (tvSec + 1)).1).timeStatus = k.timeStatus := by
    unfold nextAdj
    rw [leapSecond_frame]
    exact ⟨rfl, rfl⟩
  obtain ⟨hvalid, hstatus⟩ := hbefore
  rw [rollover_eq]
  unfold ppsWatchdog
  cases hsync : cfg.ppsSync with
  | false =>
    simp only [Bool.not_false, if_true, Bool.false_eq_true, false_and, if_false]
    exact ⟨hvalid, hstatus⟩
  | true =>
    simp only [Bool.not_true, Bool.false_eq_true, if_false, true_and, hvalid, gt_iff_lt]
    by_cases hwound : 0 < k.pps.valid
    · rw [if_pos hwound, if_pos hwound, if_neg (not_le.mpr hwound)]
      exact ⟨rfl, hstatus⟩
    · rw [if_neg hwound, if_neg hwound, if_pos (not_lt.mp hwound)]
      exact ⟨hvalid, congrArg (· &&& ~~~staPpssignal) hstatus⟩

/-- A rollover takes its part of the offset. -/
theorem rollover_timeOffset : (rollover cfg k tvSec).1.timeOffset
    = lSub k.timeOffset (lRshift k.timeOffset (amortShift cfg k)) := by
  rw [rollover_eq, ppsWatchdog_frame]
  unfold nextAdj
  rw [leapSecond_frame]
  rfl

end Rollover

/-! ## What a pulse does -/

section Pulse

variable {F : Type} [LFp F] (cfg : Config) (k : Kernel F)

theorem ppsFrequencyUpdate_watchdog (vNsec : ℤ) :
    (ppsFrequencyUpdate cfg k vNsec).pps.valid = k.pps.valid ∧
      (ppsFrequencyUpdate cfg k vNsec).timeStatus &&& staPpssignal
        = k.timeStatus &&& staPpssignal := by
  have hwander : Apart staPpssignal staPpswander := by decide
  constructor
  · unfold ppsFrequencyUpdate
    dsimp only
    rw [ppsInterval_frame, ppsWander_frame]
    split_ifs <;> rfl
  · unfold ppsFrequencyUpdate ppsWander
    dsimp only
    split_ifs <;> simp only [set_and hwander]

/-- The calibration sets flags of its own only, and leaves the watchdog alone. -/
theorem ppsCalibrate_watchdog : (ppsCalibrate cfg k).pps.valid = k.pps.valid ∧
    (ppsCalibrate cfg k).timeStatus &&& staPpssignal = k.timeStatus &&& staPpssignal := by
  have herror : Apart staPpssignal staPpserror := by decide
  unfold ppsCalibrate
  dsimp only
  split_ifs
  · exact ⟨rfl, rfl⟩
  · exact ⟨rfl, set_and herror _⟩
  · exact ppsFrequencyUpdate_watchdog cfg _ _

theorem ppsPhase_watchdog : (ppsPhase cfg k).pps.valid = k.pps.valid ∧
    (ppsPhase cfg k).timeStatus &&& staPpssignal = k.timeStatus &&& staPpssignal := by
  have hjitter : Apart staPpssignal staPpsjitter := by decide
  refine ⟨by rw [ppsPhase_pps], ?_⟩
  unfold ppsPhase
  dsimp only
  split_ifs <;> simp only [clear_and hjitter, set_and hjitter]

/-- Every pulse, whatever becomes of it, winds up the watchdog. -/
theorem hardpps_watchdog (tsp : Timespec) (nsec : ℤ) :
    (hardpps cfg k tsp nsec).pps.valid = ppsValid ∧
      has (hardpps cfg k tsp nsec).timeStatus staPpssignal = true := by
  have hsignal : (hardpps cfg k tsp nsec).pps.valid = ppsValid ∧
      (hardpps cfg k tsp nsec).timeStatus &&& staPpssignal
        = (ppsSignal cfg k).timeStatus &&& staPpssignal := by
    by_cases hsame : pulseFate cfg k tsp = .sameSecond
    · rw [hardpps_of_sameSecond nsec hsame]
      exact ⟨rfl, rfl⟩
    · by_cases hgated : pulseFate cfg k tsp = .gated
      · rw [hardpps_of_gated nsec hgated]
        exact ⟨rfl, rfl⟩
      · obtain ⟨hvalid, hstatus⟩ := ppsCalibrate_watchdog cfg
          (ppsPhase cfg (storePulse cfg k tsp nsec))
        obtain ⟨hvalid', hstatus'⟩ := ppsPhase_watchdog cfg (storePulse cfg k tsp nsec)
        rw [hardpps_of_filtered nsec ⟨hsame, hgated⟩]
        exact ⟨hvalid.trans hvalid', hstatus.trans hstatus'⟩
  refine ⟨hsignal.1, ?_⟩
  have hclear : Apart staPpssignal (staPpswander ||| staPpserror) := by decide
  have hset : (ppsSignal cfg k).timeStatus &&& staPpssignal
      = (k.timeStatus ||| (staPpssignal ||| staPpsjitter)) &&& staPpssignal :=
    clear_and hclear _
  have hjitter : k.timeStatus ||| (staPpssignal ||| staPpsjitter)
      = k.timeStatus ||| staPpsjitter ||| staPpssignal := by
    rw [BitVec.or_comm staPpssignal, BitVec.or_assoc]
  rw [has_eq_of_and_eq (hsignal.2.trans hset), hjitter]
  unfold has
  rw [or_and_self]
  rfl

end Pulse

/-! ## What `ntp_adjtime` does -/

section Adjtime

variable {F : Type} (cfg : Config) (ntv : Timex) (k : Kernel F)

/-- The reset clears the flag. -/
theorem adjStatus_signal (h : DropsPll k ntv) :
    (adjStatus cfg ntv k).timeStatus &&& staPpssignal = 0 := by
  obtain ⟨hmodes, hpll, hdrop⟩ := h
  have hmerge : (staUnsync &&& staRonly ||| ntv.status &&& ~~~staRonly) &&& staPpssignal
      = staUnsync &&& staPpssignal := merge_and_of_sub (by decide) _ _
  have hstatus : (adjStatus cfg ntv k).timeStatus
      = staUnsync &&& staRonly ||| ntv.status &&& ~~~staRonly := by
    cases hsync : cfg.ppsSync <;> simp [adjStatus, hmodes, hpll, hdrop, hsync]
  rw [hstatus, hmerge]
  rfl

/-- No call of `ntp_adjtime` sets the flag; dropping `STA_PLL` clears it. -/
theorem adjKernel_signal [LFp F] (tvSec : ℤ) :
    has (adjKernel cfg k tvSec ntv).timeStatus staPpssignal =
      if DropsPll k ntv then false else has k.timeStatus staPpssignal := by
  by_cases hdrops : DropsPll k ntv
  · have hkept : (adjKernel cfg k tvSec ntv).timeStatus &&& staPpssignal
        = (adjStatus cfg ntv (adjError ntv k)).timeStatus &&& staPpssignal := by
      rw [adjKernel_eq_beforeOffset, adjFrequency_frame]
      dsimp only
      rw [adjOffset_status_of_apart cfg ntv _ tvSec (by decide)]
      unfold adjBeforeOffset
      rw [adjClock_status_of_apart ntv _ (fun _ => by decide) (fun _ => by decide),
        adjConstant_frame]
    have hdrops' : DropsPll (adjError ntv k) ntv := by
      rw [adjError_frame]
      exact hdrops
    rw [if_pos hdrops]
    unfold has
    rw [hkept, adjStatus_signal cfg ntv _ hdrops']
    rfl
  · rw [if_neg hdrops]
    exact has_eq_of_and_eq ((changesSelected_adjKernel cfg ntv k tvSec).readOnly staPpssignal
      (by decide) hdrops (fun _ => by decide) (fun _ => by decide) fun _ => by decide)

end Adjtime

/-! ## The daemon's offset -/

section Hardupdate

variable {F : Type} [LFp F] (cfg : Config) {k : Kernel F} (tvSec offset : ℤ)

/-- Without the PPS signal `hardupdate` is the PLL. -/
theorem hardupdate_of_not_pps (hpll : has k.timeStatus staPll = true)
    (hpps : ppsFrequency k = false) :
    hardupdate cfg k tvSec offset = updateFrequency cfg (updatePhase k offset) tvSec := by
  have hkept : ppsFrequency (updatePhase k offset) = false := by
    rw [updatePhase_frame]
    exact hpps
  unfold hardupdate
  rw [hpll, Bool.not_true, if_neg Bool.false_ne_true]
  dsimp only
  rw [hkept, if_neg Bool.false_ne_true]

/-- Without the PPS signal `hardupdate` installs the offset it is given. -/
theorem hardupdate_timeOffset (hpll : has k.timeStatus staPll = true)
    (hpps : ppsTime k = false) :
    (hardupdate cfg k tvSec offset).timeOffset = lLint (clamp maxphase offset) := by
  have hphase : (updatePhase k offset).timeOffset = lLint (clamp maxphase offset) := by
    unfold updatePhase
    rw [hpps, if_neg Bool.false_ne_true]
  have hfrequency : ∀ k : Kernel F, (updateFrequency cfg k tvSec).timeOffset = k.timeOffset := by
    intro k
    unfold updateFrequency updateReftime
    dsimp only
    split_ifs <;> rfl
  unfold hardupdate
  rw [hpll]
  simp only [Bool.not_true, Bool.false_eq_true, if_false]
  split_ifs
  · exact hphase
  · rw [hfrequency, hphase]

end Hardupdate

/-! ## Runs -/

namespace Clock

variable {F : Type} [LFp F] {cfg : Config}

/-- The flag of the signal. -/
def signal (c : Clock F) : Bool := has c.k.timeStatus staPpssignal

/-- Count the rollovers since the last pulse; there is nothing to count before the
first one. -/
def countSilence (cfg : Config) (silence : Option ℕ) (c : Clock F) : Event → Option ℕ
  | .tick => if Rollover cfg c .tick then silence.map (· + 1) else silence
  | .hardpps _ _ => some 0
  | .adjtime _ | .hardupdate _ => silence

/-- The rollovers since the last pulse of a run. -/
def silence (cfg : Config) (c₀ : Clock F) (es : List Event) : Option ℕ :=
  observed (step cfg) (countSilence cfg) c₀ none es

/-- The flag is there for `PPS_VALID` rollovers, and `pps_valid` is what is left of
them. -/
def Watched (cfg : Config) (c : Clock F) : Option ℕ → Prop
  | none => c.signal = false
  | some n => cfg.ppsSync = true ∧ c.k.pps.valid = max (ppsValid - n) 0 ∧
      (c.signal = true → n ≤ ppsValid)

omit [LFp F] in
theorem signal_congr {c c' : Clock F}
    (h : c'.k.timeStatus &&& staPpssignal = c.k.timeStatus &&& staPpssignal) :
    c'.signal = c.signal :=
  has_eq_of_and_eq h

omit [LFp F] in
/-- A call that leaves `pps_valid` alone and does not set the flag. -/
theorem Watched.of_le {c c' : Clock F} {n : Option ℕ} (h : Watched cfg c n)
    (hvalid : c'.k.pps.valid = c.k.pps.valid) (hsignal : c'.signal = true → c.signal = true) :
    Watched cfg c' n := by
  cases n with
  | none =>
    have hoff : c.signal = false := h
    show c'.signal = false
    rw [← Bool.not_eq_true] at hoff ⊢
    exact fun hset => hoff (hsignal hset)
  | some n => exact ⟨h.1, hvalid.trans h.2.1, fun hset => h.2.2 (hsignal hset)⟩

/-- At a rollover the flag is cleared if the count is out, and is as it was otherwise. -/
theorem rollover_signal {c : Clock F} (h : Rollover cfg c .tick) :
    (c.step cfg .tick).k.pps.valid
        = (if cfg.ppsSync ∧ 0 < c.k.pps.valid then c.k.pps.valid - 1 else c.k.pps.valid) ∧
      (c.step cfg .tick).signal =
        if cfg.ppsSync ∧ c.k.pps.valid ≤ 0 then false else c.signal := by
  have htick : (c.step cfg .tick).k
      = (rollover cfg (ntpTickAdjust cfg c.k c.tv 0).1 c.tv.tvSec).1 :=
    congrArg Clock.k (tick_of_rollover h.2)
  obtain ⟨hvalid, hstatus⟩ :=
    rollover_watchdog cfg (ntpTickAdjust cfg c.k c.tv 0).1 c.tv.tvSec
  refine ⟨(congrArg (fun k : Kernel F => k.pps.valid) htick).trans hvalid, ?_⟩
  unfold signal
  rw [htick, hstatus]
  by_cases hout : cfg.ppsSync = true ∧ c.k.pps.valid ≤ 0
  · rw [if_pos hout]
    refine (if_pos hout).symm ▸ ?_
    unfold has
    rw [and_not_and_self]
    rfl
  · rw [if_neg hout]
    refine (if_neg hout).symm ▸ ?_
    rfl

/-- A tick that is not a rollover leaves the watchdog alone. -/
theorem tick_watchdog_of_not {c : Clock F} (h : ¬ Rollover cfg c .tick) :
    (c.step cfg .tick).k.pps.valid = c.k.pps.valid ∧
      (c.step cfg .tick).signal = c.signal := by
  have hlt : (ntpTickAdjust cfg c.k c.tv 0).2.tvNsec < nanosecond :=
    not_le.mp fun hge => h ⟨rfl, hge⟩
  have htick : c.step cfg .tick = _ := tick_of_lt hlt
  rw [htick]
  exact ⟨rfl, rfl⟩

theorem watched_tick {c : Clock F} {n : Option ℕ} (h : Watched cfg c n) :
    Watched cfg (c.step cfg .tick) (countSilence cfg n c .tick) := by
  dsimp only [countSilence]
  by_cases hroll : Rollover cfg c .tick
  · obtain ⟨hvalid, hsignal⟩ := rollover_signal hroll
    rw [if_pos hroll]
    cases n with
    | none =>
      show (c.step cfg .tick).signal = false
      rw [hsignal]
      split_ifs
      · rfl
      · exact h
    | some n =>
      obtain ⟨hsync, hcount, hpresent⟩ := h
      refine ⟨hsync, ?_, ?_⟩
      · rw [hvalid]
        push_cast
        split_ifs with hwound
        · omega
        · have hout : ¬ 0 < c.k.pps.valid := fun hpos => hwound ⟨hsync, hpos⟩
          omega
      · rw [hsignal]
        push_cast
        split_ifs with hout
        · exact nofun
        · have hwound : ¬ c.k.pps.valid ≤ 0 := fun hle => hout ⟨hsync, hle⟩
          intro _
          omega
  · obtain ⟨hvalid, hsignal⟩ := tick_watchdog_of_not hroll
    rw [if_neg hroll]
    exact h.of_le hvalid fun hset => hsignal.symm.trans hset

theorem signal_of_step {c : Clock F} {e : Event} (hpulse : ∀ tsp nsec, e ≠ .hardpps tsp nsec)
    (h : (c.step cfg e).signal = true) : c.signal = true := by
  cases e with
  | hardpps tsp nsec => exact absurd rfl (hpulse tsp nsec)
  | tick =>
    by_cases hroll : Rollover cfg c .tick
    · rw [(rollover_signal hroll).2] at h
      split_ifs at h
      exact h
    · rwa [(tick_watchdog_of_not hroll).2] at h
  | adjtime tp =>
    have hset : (if DropsPll c.k tp then false else c.signal) = true :=
      (adjKernel_signal cfg tp c.k c.tv.tvSec).symm.trans h
    split_ifs at hset
    exact hset
  | hardupdate offset =>
    have hkept : (c.step cfg (.hardupdate offset)).signal = c.signal :=
      signal_congr (hardupdate_status cfg c.k c.tv.tvSec offset (by decide))
    rwa [hkept] at h

theorem step_watched {c : Clock F} {n : Option ℕ} {e : Event} (h : Watched cfg c n)
    (he : c.Admissible cfg e) : Watched cfg (c.step cfg e) (countSilence cfg n c e) := by
  cases e with
  | tick => exact watched_tick h
  | adjtime tp =>
    refine h.of_le ?_ (signal_of_step nofun)
    show (adjKernel cfg c.k c.tv.tvSec tp).pps.valid = _
    rw [adjKernel_frame]
  | hardupdate offset =>
    refine h.of_le ?_ (signal_of_step nofun)
    show (Nanokernel.hardupdate cfg c.k c.tv.tvSec offset).pps.valid = _
    rw [hardupdate_pps]
  | hardpps tsp nsec =>
    obtain ⟨hvalid, -⟩ := hardpps_watchdog cfg c.k tsp nsec
    exact ⟨he.1, hvalid, fun _ => by decide⟩

/-- In every run from start-up the watchdog is wound for what is left of `PPS_VALID`. -/
theorem watched_silence {c₀ : Clock F} (hboot : Boots cfg c₀) {es : List Event}
    (hes : Along (step cfg) (Admissible cfg) c₀ es) :
    Watched cfg (run (step cfg) c₀ es) (silence cfg c₀ es) := by
  have hstart : Watched cfg c₀ none := by
    show c₀.signal = false
    unfold signal
    rw [show c₀.k = Kernel.boot cfg from hboot]
    unfold Kernel.boot ntpInit
    have hword : has staUnsync staPpssignal = false := by decide
    dsimp only
    split_ifs <;> exact hword
  exact observed_invariant (fun _ _ _ => step_watched) hstart hes

/-- What the watchdog promises of a state, by the rollovers since the last pulse. -/
structure WatchdogExact (cfg : Config) (c : Clock F) (silence : Option ℕ) : Prop where
  /-- the flag means that the signal was there lately -/
  lately : c.signal = true → ∃ n, silence = some n ∧ n ≤ ppsValid
  /-- a pulse sets it -/
  set : ∀ tsp nsec, (c.step cfg (.hardpps tsp nsec)).signal = true
  /-- nothing else does, `ntp_adjtime` in particular -/
  notSet : ∀ e, (∀ tsp nsec, e ≠ .hardpps tsp nsec) → (c.step cfg e).signal = true →
    c.signal = true
  /-- the first `PPS_VALID` rollovers leave it alone -/
  kept : ∀ n, silence = some n → n + 1 ≤ ppsValid → Rollover cfg c .tick →
    (c.step cfg .tick).signal = c.signal
  /-- the next one clears it -/
  cleared : (∀ n, silence = some n → ppsValid + 1 ≤ n + 1) → Rollover cfg c .tick →
    (c.step cfg .tick).signal = false
  /-- after that a rollover goes by the time constant -/
  timeConstant : (∀ n, silence = some n → ppsValid + 1 ≤ n) → Rollover cfg c .tick →
    (c.step cfg .tick).k.timeOffset
      = lSub c.k.timeOffset (lRshift c.k.timeOffset (shiftPll + c.k.timeConstant).toNat)
  /-- and `hardupdate` by the offset of the daemon, in phase and in frequency -/
  offset : (∀ n, silence = some n → ppsValid + 1 ≤ n) → has c.k.timeStatus staPll = true →
    ∀ offset, (c.step cfg (.hardupdate offset)).k
        = updateFrequency cfg (updatePhase c.k offset) c.tv.tvSec ∧
      (c.step cfg (.hardupdate offset)).k.timeMonitor = clamp maxphase offset ∧
      (c.step cfg (.hardupdate offset)).k.timeOffset = lLint (clamp maxphase offset)

omit [LFp F] in
theorem Watched.signal_eq_false {c : Clock F} {n : Option ℕ} (h : Watched cfg c n)
    (hlong : ∀ m, n = some m → ppsValid + 1 ≤ m) : c.signal = false := by
  cases n with
  | none => exact h
  | some m =>
    have hlong := hlong m rfl
    rw [← Bool.not_eq_true]
    intro hset
    have hlately := h.2.2 hset
    omega

omit [LFp F] in
/-- Without the flag PPS controls neither the phase nor the frequency. -/
theorem pps_of_signal {c : Clock F} (h : c.signal = false) :
    ppsTime c.k = false ∧ ppsFrequency c.k = false := by
  unfold signal at h
  unfold ppsTime ppsFrequency
  rw [h, Bool.and_false, Bool.and_false]
  exact ⟨rfl, rfl⟩

theorem Watched.exact {c : Clock F} {n : Option ℕ} (h : Watched cfg c n) :
    WatchdogExact cfg c n where
  lately hset := by
    cases n with
    | none => exact absurd (hset.symm.trans h) Bool.false_ne_true.symm
    | some n => exact ⟨n, rfl, h.2.2 hset⟩
  set tsp nsec := (hardpps_watchdog cfg c.k tsp nsec).2
  notSet _ := signal_of_step
  kept m hm hcount hroll := by
    subst hm
    rw [(rollover_signal hroll).2]
    refine if_neg fun hout => ?_
    have hvalid := h.2.1
    omega
  cleared hlong hroll := by
    rw [(rollover_signal hroll).2]
    split_ifs with hout
    · rfl
    · cases n with
      | none => exact h
      | some n =>
        have hvalid := h.2.1
        have hlong := hlong n rfl
        exact absurd ⟨h.1, by omega⟩ hout
  timeConstant hlong hroll := by
    have hpps := (pps_of_signal (h.signal_eq_false hlong)).1
    have htick : (c.step cfg .tick).k
        = (rollover cfg (ntpTickAdjust cfg c.k c.tv 0).1 c.tv.tvSec).1 :=
      congrArg Clock.k (tick_of_rollover hroll.2)
    have hshift : amortShift cfg (ntpTickAdjust cfg c.k c.tv 0).1
        = (shiftPll + c.k.timeConstant).toNat := by
      show (if cfg.ppsSync && ppsTime c.k then _ else _) = _
      rw [hpps, Bool.and_false]
      rfl
    rw [htick, rollover_timeOffset, hshift]
    rfl
  offset hlong hpll offset := by
    obtain ⟨htime, hfrequency⟩ := pps_of_signal (h.signal_eq_false hlong)
    exact ⟨hardupdate_of_not_pps cfg c.tv.tvSec offset hpll hfrequency,
      hardupdate_timeMonitor cfg c.tv.tvSec offset hpll htime,
      hardupdate_timeOffset cfg c.tv.tvSec offset hpll htime⟩

/-- In every state that a run from start-up reaches, by any calls in any order. -/
theorem watchdog_exact (cfg : Config) (c₀ : Clock F) (hboot : Boots cfg c₀) (es : List Event)
    (hes : Along (step cfg) (Admissible cfg) c₀ es) :
    WatchdogExact cfg (run (step cfg) c₀ es) (silence cfg c₀ es) :=
  (watched_silence hboot hes).exact

/-- One pulse and one rollover. -/
theorem watchdog_exact_pulse : WatchdogExact ppsConfig
    (run (step ppsConfig) ⟨(Kernel.boot ppsConfig : Kernel LFp32), ⟨0, 995000000⟩⟩
      [.hardpps ⟨1, 0⟩ 0, .tick])
    (silence ppsConfig ⟨(Kernel.boot ppsConfig : Kernel LFp32), ⟨0, 995000000⟩⟩
      [.hardpps ⟨1, 0⟩ 0, .tick]) :=
  watchdog_exact ppsConfig ⟨Kernel.boot ppsConfig, ⟨0, 995000000⟩⟩ rfl _
    ⟨⟨rfl, by decide, by decide⟩, trivial, trivial⟩

example : silence ppsConfig ⟨(Kernel.boot ppsConfig : Kernel LFp32), ⟨0, 995000000⟩⟩
    [.hardpps ⟨1, 0⟩ 0, .tick] = some 1 := by decide

end Clock

end Nanokernel
