import Nanokernel.Kernel.TickLength
import Nanokernel.Rtems.NanoClock

/-!
# The interpolation scale

`ticker_body` recovers the length of the tick from the clock before and after
it, as an `unsigned long`. That is what `ntp_tick_adjust` added unless the
seconds were stepped in between: at a leap second the scale is a second off
(`pccNumerator_eq_iff`). Between leap seconds every reading that the guard
lets through stays within a tick of its base.
-/

namespace Nanokernel

open SignedWord Run

variable {F : Type}

/-! ## The ticker -/

namespace NanoClock

open Clock

variable {cfg : Config} {s : NanoClock F}

/-- The interpolation is based on the clock, and the loop is in range. -/
structure Ready [LFp F] [LawfulLFp F] (cfg : Config) (s : NanoClock F) : Prop where
  sound : Sound cfg s.clock
  based : s.nanobase = s.clock.tv
  timeTick : s.clock.k.timeTick = nanosecond.tdiv cfg.hz

/-- The scale is the length of a tick, and the counter has 32 bits. -/
structure Scaled (s : NanoClock F) : Prop where
  numerator : 0 ≤ s.pccNumerator ∧ s.pccNumerator ≤ 2 * nanosecond
  denominator : 0 ≤ s.pccDenominator ∧ s.pccDenominator < 2 ^ 32

theorem pccNumerator_tickerBody [LFp F] (h : s.nanobase = s.clock.tv) (setPccBase : ℤ) :
    (s.tickerBody cfg setPccBase).pccNumerator
      = cfg.ulong (elapsed s.clock.tv (s.clock.tick cfg).tv) := by
  rw [← h]
  rfl

section Ready

variable [LFp F] [LawfulLFp F]

theorem advance_range (hhz : 1 ≤ cfg.hz ∧ cfg.hz ≤ 100000) (h : Ready cfg s) :
    0 ≤ advance cfg s.clock ∧ advance cfg s.clock ≤ 2 * nanosecond := by
  obtain ⟨hlo, hhi⟩ := advance_bounds hhz h.sound
  have hnn : 0 ≤ nanosecond.tdiv cfg.hz :=
    Int.tdiv_nonneg (by decide) (by omega)
  have hle : nanosecond.tdiv cfg.hz ≤ nanosecond := by
    rw [Int.tdiv_eq_ediv_of_nonneg (by decide)]
    exact Int.ediv_le_self _ (by decide)
  omega

omit [LawfulLFp F] in
/-- A turn that the nanoseconds have lost is lost in the difference too. -/
theorem ulong_nsecGain_add (cfg : Config) (c : Clock F) (x : ℤ) :
    cfg.ulong (nsecGain cfg c + x) = cfg.ulong (advance cfg c + x) := by
  apply cfg.ulong_congr
  rw [add_sub_add_right_eq_sub]
  exact dvd_nsecGain_sub_advance cfg c

/-- The scale is the true length of the tick exactly when no leap second is
due in it. -/
theorem pccNumerator_eq_iff (hhz : 1 ≤ cfg.hz ∧ cfg.hz ≤ 100000) (h : Ready cfg s)
    (setPccBase : ℤ) :
    (s.tickerBody cfg setPccBase).pccNumerator = advance cfg s.clock ↔
      ¬ LeapDue cfg s.clock := by
  obtain ⟨hnn, hle⟩ := advance_range hhz h
  rw [pccNumerator_tickerBody h.based]
  rcases elapsed_tick cfg s.clock with ⟨hdue, hstep⟩ | ⟨hdue, hstep⟩
  · refine ⟨fun heq => absurd heq ?_, fun hno => absurd hdue hno⟩
    intro heq
    unfold nanosecond at hstep
    -- the second that is stepped stays in the lower 32 bits
    rcases hstep with hstep | hstep
    · rw [hstep, sub_eq_add_neg, ulong_nsecGain_add] at heq
      have hmod := cfg.ulong_emod (advance cfg s.clock + -1000000000)
      omega
    · rw [hstep, ulong_nsecGain_add] at heq
      have hmod := cfg.ulong_emod (advance cfg s.clock + 1000000000)
      omega
  · rw [hstep, ← add_zero (nsecGain cfg s.clock), ulong_nsecGain_add, add_zero]
    unfold nanosecond at hle
    exact ⟨fun _ => hdue, fun _ => cfg.ulong_of_lt hnn (by omega)⟩

end Ready

/-! ## Runs of the ticker -/

/-- A value of `getPcc()` or `setPccBase()`. The counter has `PCC_WIDTH = 32`
significant bits where an `unsigned long` has more. -/
def PccRange (cfg : Config) (pcc : ℤ) : Prop :=
  0 ≤ pcc ∧ (cfg.longWidth = .lp64 → pcc < 2 ^ 32)

/-- The base lies between 1970 and 2106. -/
def InEra (t : Timespec) : Prop :=
  (0 ≤ t.tvSec ∧ t.tvSec < 2 ^ 32) ∧ 0 ≤ t.tvNsec ∧ t.tvNsec < 2 ^ 32

/-- Only `ticker_body` ticks the clock. -/
def Admissible [LFp F] (cfg : Config) (s : NanoClock F) : Op → Prop
  | .tickerBody setPccBase => PccRange cfg setPccBase
  | .nanoTime getPcc => PccRange cfg getPcc ∧ InEra s.nanobase
  | .call e => e ≠ .tick ∧ Clock.Admissible cfg s.clock e

/-- No leap second is due in the tick. -/
def NoLeapStep [LFp F] (cfg : Config) (s : NanoClock F) : Op → Prop
  | .tickerBody _ => ¬ LeapDue cfg s.clock
  | _ => True

/-- The tick stores its true length, near `time_tick`; a reading from within
the tick that the guard does not raise lies within the tick. -/
def TrueScale [LFp F] (cfg : Config) (s : NanoClock F) : Op → Prop
  | .tickerBody setPccBase =>
    (s.tickerBody cfg setPccBase).pccNumerator = advance cfg s.clock ∧
    s.clock.k.timeTick ≤ 2 * (s.tickerBody cfg setPccBase).pccNumerator ∧
    (s.tickerBody cfg setPccBase).pccNumerator ≤ 2 * s.clock.k.timeTick
  | .nanoTime getPcc =>
    getPcc ≤ s.pccDenominator →
    (s.pccDenominator ≠ 0 → s.lasttime < s.interpolated cfg getPcc) →
    s.nanobase.nsec ≤ (s.nanoTime cfg getPcc).2.1.nsec ∧
      (s.nanoTime cfg getPcc).2.1.nsec ≤ s.nanobase.nsec + s.pccNumerator
  | .call _ => True

/-- The counter adds at most one tick. -/
theorem scaledPcc_bounds (hscaled : Scaled s) {getPcc : ℤ} (h0 : 0 ≤ getPcc)
    (hle : getPcc ≤ s.pccDenominator) (hpos : 0 < s.pccDenominator) :
    0 ≤ s.scaledPcc getPcc ∧ s.scaledPcc getPcc ≤ s.pccNumerator := by
  obtain ⟨⟨hnum, hnum'⟩, hden, hden'⟩ := hscaled
  have hprod : 0 ≤ getPcc * s.pccNumerator := mul_nonneg h0 hnum
  have hmul : getPcc * s.pccNumerator ≤ s.pccDenominator * s.pccNumerator :=
    mul_le_mul_of_nonneg_right hle hnum
  have hbig : s.pccDenominator * s.pccNumerator ≤ 2 ^ 32 * (2 * nanosecond) :=
    mul_le_mul hden'.le hnum' hnum (by decide)
  have hpcc : ull getPcc = getPcc := Int.emod_eq_of_lt h0 (by omega)
  have hull : ull (getPcc * s.pccNumerator) = getPcc * s.pccNumerator :=
    Int.emod_eq_of_lt hprod (by unfold nanosecond at hbig; omega)
  unfold scaledPcc
  rw [hpcc, hull]
  refine ⟨Int.ediv_nonneg hprod hden, Int.ediv_le_of_le_mul hpos ?_⟩
  rw [mul_comm s.pccNumerator]
  exact hmul

/-- Between leap seconds a reading stays within the tick. -/
theorem trueScale_nanoTime [LFp F] (hscaled : Scaled s) {getPcc : ℤ}
    (hpcc : PccRange cfg getPcc) (hera : InEra s.nanobase) :
    TrueScale cfg s (.nanoTime getPcc) := by
  intro hle hraised
  by_cases hzero : s.pccDenominator = 0
  · have hnum := hscaled.numerator.1
    rw [nanoTime_of_zero hzero getPcc]
    exact ⟨le_refl _, by omega⟩
  · have hden := hscaled.denominator.1
    obtain ⟨hnn, hmax⟩ := scaledPcc_bounds hscaled hpcc.1 hle (by omega)
    have hnum := hscaled.numerator.2
    obtain ⟨⟨hsec, hsec'⟩, hns, hns'⟩ := hera
    have hthis : s.interpolated cfg getPcc = s.nanobase.nsec + s.scaledPcc getPcc := by
      unfold interpolated Timespec.nsec
      rw [cfg.ulong_of_lt hsec hsec']
      unfold nanosecond at *
      exact Int.emod_eq_of_lt (by omega) (by omega)
    rw [nanoTime_of_not_raised hzero (hraised hzero), Timespec.nsec_ofNsec, hthis]
    omega

/-! ## What the calls keep -/

theorem nanoTime_frame (cfg : Config) (s : NanoClock F) (getPcc : ℤ) :
    (s.nanoTime cfg getPcc).1
      = { s with lasttime := (s.nanoTime cfg getPcc).1.lasttime } := by
  unfold nanoTime
  split_ifs <;> rfl

section Kept

variable [LFp F] [LawfulLFp F]

/-- The loop is in range, and `time_tick` is that of `ntp_init()`. -/
def Running (cfg : Config) (s : NanoClock F) : Prop :=
  Sound cfg s.clock ∧ s.clock.k.timeTick = nanosecond.tdiv cfg.hz

theorem running_start (hhz : 1 ≤ cfg.hz) (initime : Timespec) :
    Running cfg (start cfg initime : NanoClock F) := by
  refine ⟨sound_of_boots hhz rfl, ?_⟩
  show (Kernel.boot cfg : Kernel F).timeTick = _
  unfold Kernel.boot ntpInit
  dsimp only
  split_ifs <;> rfl

theorem running_step (hhz : 1 ≤ cfg.hz ∧ cfg.hz ≤ 100000) (h : Running cfg s) {op : Op}
    (hop : Admissible cfg s op) : Running cfg (step cfg s op) := by
  obtain ⟨hsound, htick⟩ := h
  cases op with
  | tickerBody setPccBase =>
    exact ⟨step_sound (e := .tick) hhz hsound trivial, step_timeTick htick .tick⟩
  | nanoTime getPcc =>
    show Running cfg (s.nanoTime cfg getPcc).1
    rw [nanoTime_frame]
    exact ⟨hsound, htick⟩
  | call e =>
    exact ⟨step_sound hhz hsound hop.2, step_timeTick htick e⟩

theorem ready_tickerBody (hhz : 1 ≤ cfg.hz ∧ cfg.hz ≤ 100000) (h : Running cfg s)
    {setPccBase : ℤ} (hop : Admissible cfg s (.tickerBody setPccBase)) :
    Ready cfg (s.tickerBody cfg setPccBase) := by
  obtain ⟨hsound, htick⟩ := running_step hhz h hop
  exact ⟨hsound, rfl, htick⟩

/-- From the first `ticker_body` on the base follows the clock. -/
theorem ready_step (hhz : 1 ≤ cfg.hz ∧ cfg.hz ≤ 100000) (h : Ready cfg s) {op : Op}
    (hop : Admissible cfg s op) : Ready cfg (step cfg s op) := by
  have hrunning : Running cfg s := ⟨h.sound, h.timeTick⟩
  cases op with
  | tickerBody setPccBase => exact ready_tickerBody hhz hrunning hop
  | nanoTime getPcc =>
    show Ready cfg (s.nanoTime cfg getPcc).1
    rw [nanoTime_frame]
    exact ⟨h.sound, h.based, h.timeTick⟩
  | call e =>
    obtain ⟨hsound, htick⟩ := running_step hhz hrunning hop
    refine ⟨hsound, ?_, htick⟩
    show s.nanobase = (Clock.step cfg s.clock e).tv
    rw [step_tv hop.1]
    exact h.based

theorem ready_of_ticked (hhz : 1 ≤ cfg.hz ∧ cfg.hz ≤ 100000) (hs : Running cfg s)
    {pre : List Op} (hpre : Along (step cfg) (Admissible cfg) s pre)
    (hticked : ∃ setPccBase, Op.tickerBody setPccBase ∈ pre) :
    Ready cfg (run (step cfg) s pre) := by
  obtain ⟨setPccBase, hmem⟩ := hticked
  obtain ⟨xs, ys, rfl⟩ := List.append_of_mem hmem
  obtain ⟨hxs, hop, hys⟩ := (along_append _ _ _ _).mp hpre
  have hrun : ∀ (s : NanoClock F) op, Running cfg s → Admissible cfg s op →
      Running cfg (step cfg s op) := fun _ _ h hop => running_step hhz h hop
  have hready : ∀ (s : NanoClock F) op, Ready cfg s → Admissible cfg s op →
      Ready cfg (step cfg s op) := fun _ _ h hop => ready_step hhz h hop
  rw [run_append, run_cons]
  exact run_invariant hready (ready_tickerBody hhz (run_invariant hrun hs hxs) hop) hys

theorem trueScale_tickerBody (hhz : 1 ≤ cfg.hz ∧ cfg.hz ≤ 100000) (h : Ready cfg s)
    {setPccBase : ℤ} (hleap : NoLeapStep cfg s (.tickerBody setPccBase)) :
    TrueScale cfg s (.tickerBody setPccBase) := by
  have hnum := (pccNumerator_eq_iff hhz h setPccBase).mpr hleap
  obtain ⟨hlo, hhi⟩ := advance_bounds hhz h.sound
  refine ⟨hnum, ?_⟩
  rw [hnum, h.timeTick]
  exact ⟨hlo, hhi⟩

theorem scaled_tickerBody (hhz : 1 ≤ cfg.hz ∧ cfg.hz ≤ 100000) (h : Ready cfg s)
    {setPccBase : ℤ} (hpcc : PccRange cfg setPccBase)
    (hleap : NoLeapStep cfg s (.tickerBody setPccBase)) :
    Scaled (s.tickerBody cfg setPccBase) := by
  have hnum := (pccNumerator_eq_iff hhz h setPccBase).mpr hleap
  refine ⟨?_, ?_⟩
  · rw [hnum]
    exact advance_range hhz h
  · show 0 ≤ cfg.ulong setPccBase ∧ cfg.ulong setPccBase < 2 ^ 32
    obtain ⟨h0, hwidth⟩ := hpcc
    unfold Config.ulong
    cases hw : cfg.longWidth with
    | ilp32 =>
      simp only [LongWidth.bits]
      omega
    | lp64 =>
      have hlt := hwidth hw
      simp only [LongWidth.bits]
      omega

theorem scaled_step (hhz : 1 ≤ cfg.hz ∧ cfg.hz ≤ 100000) (h : Ready cfg s)
    (hscaled : Scaled s) {op : Op} (hop : Admissible cfg s op)
    (hleap : NoLeapStep cfg s op) : Scaled (step cfg s op) := by
  cases op with
  | tickerBody setPccBase => exact scaled_tickerBody hhz h hop hleap
  | nanoTime getPcc =>
    show Scaled (s.nanoTime cfg getPcc).1
    rw [nanoTime_frame]
    exact ⟨hscaled.numerator, hscaled.denominator⟩
  | call e => exact ⟨hscaled.numerator, hscaled.denominator⟩

theorem trueScale_step (hhz : 1 ≤ cfg.hz ∧ cfg.hz ≤ 100000) (h : Ready cfg s)
    (hscaled : Scaled s) {op : Op} (hop : Admissible cfg s op)
    (hleap : NoLeapStep cfg s op) : TrueScale cfg s op := by
  cases op with
  | tickerBody setPccBase => exact trueScale_tickerBody hhz h hleap
  | nanoTime getPcc => exact trueScale_nanoTime hscaled hop.1 hop.2
  | call e => trivial

theorem noLeapStep_of_trueScale (hhz : 1 ≤ cfg.hz ∧ cfg.hz ≤ 100000) (h : Ready cfg s)
    {op : Op} (hscale : TrueScale cfg s op) : NoLeapStep cfg s op := by
  cases op with
  | tickerBody setPccBase => exact (pccNumerator_eq_iff hhz h setPccBase).mp hscale.1
  | _ => trivial

/-- After the first `ticker_body`, in every run that begins with the next one,
every tick stores its true length and every reading stays within its tick
exactly when no tick of the run has a leap second due. -/
theorem trueScale_iff (cfg : Config) (hhz : 1 ≤ cfg.hz ∧ cfg.hz ≤ 100000)
    (initime : Timespec) (pre ops : List Op) (setPccBase : ℤ)
    (hticked : ∃ setPccBase, Op.tickerBody setPccBase ∈ pre)
    (hadm : Along (step cfg) (Admissible cfg) (start cfg initime : NanoClock F)
      (pre ++ .tickerBody setPccBase :: ops)) :
    Along (step cfg) (TrueScale cfg)
        (run (step cfg) (start cfg initime : NanoClock F) pre)
        (.tickerBody setPccBase :: ops) ↔
      Along (step cfg) (NoLeapStep cfg)
        (run (step cfg) (start cfg initime : NanoClock F) pre)
        (.tickerBody setPccBase :: ops) := by
  obtain ⟨hpre, hrun⟩ := (along_append _ _ _ _).mp hadm
  have hready : Ready cfg (run (step cfg) (start cfg initime : NanoClock F) pre) :=
    ready_of_ticked hhz (running_start hhz.1 initime) hpre hticked
  generalize run (step cfg) (start cfg initime : NanoClock F) pre = s at *
  constructor
  · intro hscale
    refine along_of_invariant (I := Ready cfg) ?_ ?_ hready (along_and hrun hscale)
    · exact fun _ _ h hop => ready_step hhz h hop.1
    · exact fun _ _ h hop => noLeapStep_of_trueScale hhz h hop.2
  · rintro ⟨hleap, hleaps⟩
    obtain ⟨hop, hops⟩ := hrun
    refine ⟨trueScale_tickerBody hhz hready hleap, ?_⟩
    -- the first tick stores the scale of the readings that follow
    refine along_of_invariant (I := fun s => Ready cfg s ∧ Scaled s) ?_ ?_
      ⟨ready_step hhz hready hop, scaled_tickerBody hhz hready hop hleap⟩
      (along_and hops hleaps)
    · exact fun _ _ h hop =>
        ⟨ready_step hhz h.1 hop.1, scaled_step hhz h.1 h.2 hop.1 hop.2⟩
    · exact fun _ _ h hop => trueScale_step hhz h.1 h.2 hop.1 hop.2

end Kept

/-! ## A leap second -/

instance (cfg : Config) (pcc : ℤ) : Decidable (PccRange cfg pcc) :=
  inferInstanceAs (Decidable (_ ∧ _))

instance (t : Timespec) : Decidable (InEra t) := inferInstanceAs (Decidable (_ ∧ _))

instance [LFp F] (cfg : Config) (s : NanoClock F) :
    (op : Op) → Decidable (Admissible cfg s op)
  | .tickerBody _ => inferInstanceAs (Decidable (PccRange cfg _))
  | .nanoTime _ | .call _ => inferInstanceAs (Decidable (_ ∧ _))

/-- A leap second is announced, and the ticker runs up to half a second before
midnight. -/
def beforeLeap : List Op :=
  [.call (.adjtime { modes := modStatus, status := staPll ||| staIns }),
    .tickerBody 1000, .tickerBody 1000, .tickerBody 1000, .tickerBody 1000]

/-- The same ticks around noon, with a reading at half a tick. -/
theorem trueScale_iff_noon :
    Along (step twoHertz) (TrueScale twoHertz)
        (run (step twoHertz)
          (start twoHertz ⟨43197, 500000000⟩ : NanoClock LFp32) beforeLeap)
        [.tickerBody 1000, .nanoTime 500] ↔
      Along (step twoHertz) (NoLeapStep twoHertz)
        (run (step twoHertz)
          (start twoHertz ⟨43197, 500000000⟩ : NanoClock LFp32) beforeLeap)
        [.tickerBody 1000, .nanoTime 500] :=
  trueScale_iff twoHertz (by decide) ⟨43197, 500000000⟩ beforeLeap [.nanoTime 500] 1000
    ⟨1000, by decide⟩ (by decide +kernel)

/-- In the tick of 500000000 ns that inserts the second the scale is
3794967296. -/
theorem not_trueScale : ¬ ∀ (cfg : Config) (initime : Timespec) (pre ops : List Op)
    (setPccBase : ℤ), 1 ≤ cfg.hz ∧ cfg.hz ≤ 100000 →
    (∃ setPccBase, Op.tickerBody setPccBase ∈ pre) →
    Along (step cfg) (Admissible cfg) (start cfg initime : NanoClock LFp32)
      (pre ++ .tickerBody setPccBase :: ops) →
    Along (step cfg) (TrueScale cfg)
      (run (step cfg) (start cfg initime : NanoClock LFp32) pre)
      (.tickerBody setPccBase :: ops) := by
  intro h
  have hrun := h twoHertz ⟨86397, 500000000⟩ beforeLeap [] 1000 (by decide)
    ⟨1000, by decide⟩ (by decide +kernel)
  exact absurd hrun.1.1 (by decide +kernel)

end NanoClock

end Nanokernel
