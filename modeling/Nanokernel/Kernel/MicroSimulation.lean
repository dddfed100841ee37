import Nanokernel.Kernel.Envelope

/-!
# The microsecond kernel

The build without `NTP_NANO` keeps a `struct timeval` and the nanoseconds past
it in `time_nano`. It divides the same phase by `1000 * hz` where the
nanosecond kernel divides by `hz`: two accumulators of one weight, so by
`Accumulator.fine_eq_of_weight_eq` the fields of the two clocks fit together
and the seconds roll over in the same tick. `InStep` is the simulation
relation; nothing but the phase differs in the kernel variables.
-/

namespace Nanokernel

open SignedWord Run

variable {F : Type} [LFp F]

/-! ## The machine -/

/-- The kernel variables, the microsecond `TIMEVAR` and `time_nano`. -/
structure MicroClock (F : Type) where
  k : Kernel F
  tv : Timeval
  nano : ℤ
deriving DecidableEq, Repr

namespace MicroClock

def tick (cfg : Config) (m : MicroClock F) : MicroClock F :=
  let (k, tv, nano) := ntpTickAdjustMicro cfg m.k m.tv 0
  let (k, tv) := secondOverflowMicro cfg k tv
  ⟨k, tv, nano⟩

def step (cfg : Config) (m : MicroClock F) : Event → MicroClock F
  | .tick => m.tick cfg
  | .adjtime tp => { m with k := (ntpAdjtime cfg m.k m.tv.tvSec tp).1 }
  | .hardupdate offset =>
    { m with k := Nanokernel.hardupdate cfg m.k m.tv.tvSec offset }
  | .hardpps tsp nsec => { m with k := Nanokernel.hardpps cfg m.k tsp nsec }

end MicroClock

/-! ## The phase is the tick's alone -/

section WithPhase

variable {F : Type} (cfg : Config) (k : Kernel F) (phase : F)

/-- The kernel variables with another phase. -/
def Kernel.withPhase (k : Kernel F) (phase : F) : Kernel F :=
  { k with timePhase := phase }

theorem adjStatus_withPhase (ntv : Timex) :
    adjStatus cfg ntv (k.withPhase phase) = (adjStatus cfg ntv k).withPhase phase := by
  unfold Kernel.withPhase adjStatus
  dsimp only
  split_ifs <;> rfl

theorem adjError_withPhase (ntv : Timex) :
    adjError ntv (k.withPhase phase) = (adjError ntv k).withPhase phase := by
  unfold Kernel.withPhase adjError
  dsimp only
  split_ifs <;> rfl

theorem adjConstant_withPhase (ntv : Timex) :
    adjConstant cfg ntv (k.withPhase phase)
      = (adjConstant cfg ntv k).withPhase phase := by
  unfold Kernel.withPhase adjConstant
  dsimp only
  split_ifs <;> rfl

theorem leapSecond_withPhase (tvSec : ℤ) :
    leapSecond (k.withPhase phase) tvSec
      = ((leapSecond k tvSec).1.withPhase phase, (leapSecond k tvSec).2) := by
  have hstate : (k.withPhase phase).timeState = k.timeState := rfl
  have hstatus : (k.withPhase phase).timeStatus = k.timeStatus := rfl
  unfold leapSecond
  rw [hstate, hstatus]
  cases k.timeState with
  | oop => rfl
  | _ =>
    dsimp only
    split_ifs <;> rfl

theorem ppsWatchdog_withPhase :
    ppsWatchdog cfg (k.withPhase phase) = (ppsWatchdog cfg k).withPhase phase := by
  unfold Kernel.withPhase ppsWatchdog
  dsimp only
  split_ifs <;> rfl

variable [LFp F]

theorem hardupdate_withPhase (tvSec offset : ℤ) :
    hardupdate cfg (k.withPhase phase) tvSec offset
      = (hardupdate cfg k tvSec offset).withPhase phase := by
  unfold Kernel.withPhase hardupdate updateFrequency updateReftime updatePhase
    ppsTime ppsFrequency fllSelected
  dsimp only
  split_ifs <;> rfl

theorem adjOffset_withPhase (tvSec : ℤ) (ntv : Timex) :
    adjOffset cfg tvSec ntv (k.withPhase phase)
      = (adjOffset cfg tvSec ntv k).withPhase phase := by
  have hstatus : (k.withPhase phase).timeStatus = k.timeStatus := rfl
  unfold adjOffset
  rw [hstatus]
  split_ifs
  · rfl
  · exact hardupdate_withPhase cfg k phase tvSec ntv.offset
  · exact hardupdate_withPhase cfg k phase tvSec _

theorem adjFrequency_withPhase (ntv : Timex) :
    adjFrequency cfg ntv (k.withPhase phase)
      = (adjFrequency cfg ntv k).withPhase phase := by
  unfold Kernel.withPhase adjFrequency
  dsimp only
  split_ifs <;> rfl

theorem adjKernel_withPhase (tvSec : ℤ) (ntv : Timex) :
    adjKernel cfg (k.withPhase phase) tvSec ntv
      = (adjKernel cfg k tvSec ntv).withPhase phase := by
  have hclock : ∀ k : Kernel F,
      adjClock ntv (k.withPhase phase) = (adjClock ntv k).withPhase phase :=
    fun _ => rfl
  rw [adjKernel_eq, adjKernel_eq, adjError_withPhase, adjStatus_withPhase,
    adjConstant_withPhase, hclock, adjOffset_withPhase, adjFrequency_withPhase]

theorem rollover_withPhase (tvSec : ℤ) :
    rollover cfg (k.withPhase phase) tvSec
      = ((rollover cfg k tvSec).1.withPhase phase, (rollover cfg k tvSec).2) := by
  have hwiden : widenError cfg (k.withPhase phase)
      = (widenError cfg k).withPhase phase := rfl
  have hnext : ∀ k : Kernel F,
      nextAdj cfg (k.withPhase phase) = (nextAdj cfg k).withPhase phase :=
    fun _ => rfl
  rw [rollover_eq, rollover_eq, hwiden, leapSecond_withPhase, hnext,
    ppsWatchdog_withPhase]

end WithPhase

/-! ## The two halves of a tick -/

namespace MicroClock

def adjust (cfg : Config) (m : MicroClock F) : MicroClock F :=
  ⟨(ntpTickAdjustMicro cfg m.k m.tv 0).1, (ntpTickAdjustMicro cfg m.k m.tv 0).2.1,
    (ntpTickAdjustMicro cfg m.k m.tv 0).2.2⟩

def overflow (cfg : Config) (m : MicroClock F) : MicroClock F :=
  ⟨(secondOverflowMicro cfg m.k m.tv).1, (secondOverflowMicro cfg m.k m.tv).2, m.nano⟩

theorem tick_eq (cfg : Config) (m : MicroClock F) :
    m.tick cfg = (m.adjust cfg).overflow cfg := rfl

variable {cfg : Config} {m : MicroClock F}

theorem overflow_of_le (h : 1000000 ≤ m.tv.tvUsec) :
    m.overflow cfg = ⟨(rollover cfg m.k m.tv.tvSec).1,
      ⟨(rollover cfg m.k m.tv.tvSec).2, m.tv.tvUsec - 1000000⟩, m.nano⟩ := by
  simp only [overflow, secondOverflowMicro, ge_iff_le]
  rw [if_pos h]

theorem overflow_of_lt (h : m.tv.tvUsec < 1000000) : m.overflow cfg = m := by
  simp only [overflow, secondOverflowMicro, ge_iff_le]
  rw [if_neg (not_le.mpr h)]

end MicroClock

/-! ## The simulation relation -/

section InStep

variable [LawfulLFp F]

/-- The microsecond field and its phase as an accumulator. -/
def MicroClock.accumulator (m : MicroClock F) : Accumulator :=
  ⟨m.tv.tvUsec, val m.k.timePhase⟩

/-- The two builds agree on everything but how they split the phase. -/
structure InStep (cfg : Config) (c : Clock F) (m : MicroClock F) : Prop where
  disciplined : Disciplined c.k
  kernel : m.k = c.k.withPhase m.k.timePhase
  sec : m.tv.tvSec = c.tv.tvSec
  phase : PhaseRange cfg.hz (val c.k.timePhase)
  microPhase : PhaseRange (1000 * cfg.hz) (val m.k.timePhase)
  weight : c.accumulator.weight (cfg.hz * 2 ^ 32)
    = m.accumulator.weight (1000 * cfg.hz * 2 ^ 32)
  nano : m.nano = val m.k.timePhase / (cfg.hz * 2 ^ 32)

variable {cfg : Config} {c : Clock F} {m : MicroClock F}

/-- The nanosecond field, from the microsecond field and `time_nano`. -/
theorem InStep.tvNsec_eq (h : InStep cfg c m) :
    c.tv.tvNsec = 1000 * m.tv.tvUsec + m.nano ∧ 0 ≤ m.nano ∧ m.nano < 1000 := by
  have hcoarse : m.accumulator.Reduced (1000 * (cfg.hz * 2 ^ 32)) := by
    rw [← mul_assoc]
    exact h.microPhase
  have hfine : c.accumulator.Reduced (cfg.hz * 2 ^ 32) := h.phase
  have hweight := h.weight
  rw [mul_assoc 1000] at hweight
  obtain ⟨htotal, -, hnn, hlt⟩ := Accumulator.fine_eq_of_weight_eq hfine hcoarse hweight
  rw [h.nano]
  exact ⟨htotal, hnn, hlt⟩

/-- Microseconds take a thousandth of the word that the nanoseconds take. -/
theorem InStep.usecFits (hhz : 1 ≤ cfg.hz ∧ cfg.hz ≤ 100000) (h : InStep cfg c m)
    (hadj : AdjRange (val m.k.timeAdj)) (hlong : cfg.Fits c.tv.tvNsec) :
    cfg.Fits (m.tv.tvUsec
      + (val m.k.timePhase + val m.k.timeAdj) / (1000 * cfg.hz * 2 ^ 32)) := by
  obtain ⟨hcount, hcount'⟩ := tickQuotient_bounds
    (by omega : 1 ≤ 1000 * cfg.hz ∧ 1000 * cfg.hz ≤ 100000000) h.microPhase hadj
  obtain ⟨hnsec, hnn, hlt⟩ := h.tvNsec_eq
  have hword : (2 : ℤ) ^ 31 ≤ 2 ^ (cfg.longWidth.bits - 1) := by
    cases cfg.longWidth <;> decide
  obtain ⟨hlo, hhi⟩ := hlong
  exact ⟨by omega, by omega⟩

theorem MicroClock.adjust_accumulator (hhz : 1 ≤ cfg.hz ∧ cfg.hz ≤ 100000)
    (hphase : PhaseRange (1000 * cfg.hz) (val m.k.timePhase))
    (hadj : AdjRange (val m.k.timeAdj))
    (hfits : cfg.Fits (m.tv.tvUsec
      + (val m.k.timePhase + val m.k.timeAdj) / (1000 * cfg.hz * 2 ^ 32))) :
    (m.adjust cfg).accumulator
      = m.accumulator.count (1000 * cfg.hz * 2 ^ 32) (val m.k.timeAdj) := by
  have hunit : 1 ≤ 1000 * cfg.hz ∧ 1000 * cfg.hz ≤ 100000000 := by omega
  have hgain := long_tickPhase_snd cfg hunit hphase hadj
  have hrest := (tickPhase_eq cfg hunit hphase hadj).1
  unfold accumulator Accumulator.count
  rw [Accumulator.mk.injEq]
  refine ⟨?_, hrest⟩
  show cfg.long (m.tv.tvUsec + cfg.long (0 + (tickPhase cfg m.k (1000 * cfg.hz)).2)) = _
  rw [hgain]
  exact cfg.long_eq_iff.mpr hfits

/-- `time_nano` counts the whole nanoseconds of the phase. -/
theorem MicroClock.adjust_nano (hhz : 1 ≤ cfg.hz ∧ cfg.hz ≤ 100000)
    (hphase : PhaseRange (1000 * cfg.hz) (val m.k.timePhase))
    (hadj : AdjRange (val m.k.timeAdj)) :
    (m.adjust cfg).nano = val (m.adjust cfg).k.timePhase / (cfg.hz * 2 ^ 32) := by
  have hunit : 1 ≤ 1000 * cfg.hz ∧ 1000 * cfg.hz ≤ 100000000 := by omega
  obtain ⟨hnn, hlt⟩ : PhaseRange (1000 * cfg.hz) (val (m.adjust cfg).k.timePhase) :=
    phaseRange_tickPhase cfg hunit hphase hadj
  have hint : 0 ≤ val (m.adjust cfg).k.timePhase / 2 ^ 32 :=
    Int.ediv_nonneg hnn (by decide)
  have hquot : (lGint (m.adjust cfg).k.timePhase).tdiv cfg.hz
      = val (m.adjust cfg).k.timePhase / (cfg.hz * 2 ^ 32) := by
    rw [lGint_nonneg _ hnn, Int.tdiv_eq_ediv_of_nonneg hint,
      Int.ediv_ediv_of_nonneg (by decide), mul_comm]
  have hbound : val (m.adjust cfg).k.timePhase / (cfg.hz * 2 ^ 32) < 1000 :=
    Int.ediv_lt_of_lt_mul (by omega) (by rw [← mul_assoc]; exact hlt)
  have hpos : 0 ≤ val (m.adjust cfg).k.timePhase / (cfg.hz * 2 ^ 32) :=
    Int.ediv_nonneg hnn (by omega)
  show cfg.long ((lGint (m.adjust cfg).k.timePhase).tdiv cfg.hz) = _
  rw [hquot]
  exact cfg.long_of_fits ⟨by omega, by omega⟩

theorem InStep.timeAdj (h : InStep cfg c m) : m.k.timeAdj = c.k.timeAdj := by
  rw [h.kernel]
  rfl

/-- Whether or not the nanoseconds fit, the microsecond clock counts on. -/
theorem InStep.micro_accumulator (hhz : 1 ≤ cfg.hz ∧ cfg.hz ≤ 100000) (h : InStep cfg c m)
    (hlong : cfg.Fits c.tv.tvNsec) :
    (m.adjust cfg).accumulator
      = m.accumulator.count (1000 * cfg.hz * 2 ^ 32) (val c.k.timeAdj) := by
  have hadj := h.disciplined.1.adj
  rw [← h.timeAdj] at hadj ⊢
  exact MicroClock.adjust_accumulator hhz h.microPhase hadj (h.usecFits hhz hadj hlong)

/-- Both accumulators take the same `time_adj`. -/
theorem InStep.adjust (hhz : 1 ≤ cfg.hz ∧ cfg.hz ≤ 100000) (h : InStep cfg c m)
    (hlong : cfg.Fits c.tv.tvNsec) (hfits : Clock.TickFits cfg c) :
    InStep cfg (c.adjust cfg) (m.adjust cfg) := by
  have hunit : 1 ≤ cfg.hz ∧ cfg.hz ≤ 100000000 := by omega
  have hunit' : 1 ≤ 1000 * cfg.hz ∧ 1000 * cfg.hz ≤ 100000000 := by omega
  have hrange : AdjRange (val c.k.timeAdj) := h.disciplined.1.adj
  have hrange' : AdjRange (val m.k.timeAdj) := by
    rw [h.timeAdj]
    exact hrange
  have hfine := Clock.adjust_accumulator hhz h.phase hrange hfits
  have hcoarse := h.micro_accumulator hhz hlong
  obtain ⟨hk, hpps⟩ := h.disciplined
  exact
    { disciplined := ⟨⟨hk.monitor, hk.offset, hk.freq, hk.constant, hk.adj⟩, hpps⟩
      kernel := by
        show Kernel.withPhase m.k (m.adjust cfg).k.timePhase = _
        rw [h.kernel]
        rfl
      sec := h.sec
      phase := phaseRange_tickPhase cfg hunit h.phase hrange
      microPhase := phaseRange_tickPhase cfg hunit' h.microPhase hrange'
      weight := by
        rw [hfine, hcoarse, Accumulator.weight_count, Accumulator.weight_count,
          h.weight]
      nano := MicroClock.adjust_nano hhz h.microPhase hrange' }

/-- The second rolls over in both, or in neither. -/
theorem InStep.overflow (h : InStep cfg c m) :
    InStep cfg (c.overflow cfg) (m.overflow cfg) := by
  obtain ⟨hnsec, hnn, hlt⟩ := h.tvNsec_eq
  rcases lt_or_ge m.tv.tvUsec 1000000 with hroll | hroll
  · have hfine : c.tv.tvNsec < nanosecond := by
      unfold nanosecond
      omega
    rw [Clock.overflow_of_lt hfine, MicroClock.overflow_of_lt hroll]
    exact h
  · have hfine : nanosecond ≤ c.tv.tvNsec := by
      unfold nanosecond
      omega
    have hkernel : rollover cfg m.k m.tv.tvSec
        = ((rollover cfg c.k c.tv.tvSec).1.withPhase m.k.timePhase,
          (rollover cfg c.k c.tv.tvSec).2) := by
      rw [h.sec, h.kernel, rollover_withPhase]
      rfl
    have hphase : (rollover cfg c.k c.tv.tvSec).1.timePhase = c.k.timePhase :=
      rollover_timePhase cfg c.k c.tv.tvSec
    have hweight := h.weight
    unfold Accumulator.weight Clock.accumulator MicroClock.accumulator at hweight
    rw [Clock.overflow_of_le hfine, MicroClock.overflow_of_le hroll, hkernel]
    exact
      { disciplined := rollover_disciplined h.disciplined cfg c.tv.tvSec
        kernel := rfl
        sec := rfl
        phase := by
          dsimp only
          rw [hphase]
          exact h.phase
        microPhase := h.microPhase
        weight := by
          unfold Accumulator.weight Clock.accumulator MicroClock.accumulator
          dsimp only [Kernel.withPhase] at hweight ⊢
          -- a second weighs the same in both units
          rw [hphase, mul_sub, mul_sub]
          unfold nanosecond
          omega
        nano := h.nano }

theorem InStep.tick (hhz : 1 ≤ cfg.hz ∧ cfg.hz ≤ 100000) (h : InStep cfg c m)
    (hlong : cfg.Fits c.tv.tvNsec) (hfits : Clock.TickFits cfg c) :
    InStep cfg (c.tick cfg) (m.tick cfg) := by
  rw [Clock.tick_eq, MicroClock.tick_eq]
  exact (h.adjust hhz hlong hfits).overflow

/-- A call that leaves the phase alone and does not look at it. -/
theorem InStep.call (h : InStep cfg c m) {f : Kernel F → Kernel F}
    (hdisciplined : Disciplined (f c.k)) (hphase : (f c.k).timePhase = c.k.timePhase)
    (hcommutes : ∀ k phase, f (Kernel.withPhase k phase) = (f k).withPhase phase) :
    InStep cfg { c with k := f c.k } { m with k := f m.k } := by
  have hkernel : f m.k = (f c.k).withPhase m.k.timePhase := by
    rw [h.kernel, hcommutes]
    rfl
  have hmicro : (f m.k).timePhase = m.k.timePhase := by
    rw [hkernel]
    rfl
  have hweight := h.weight
  unfold Accumulator.weight Clock.accumulator MicroClock.accumulator at hweight
  exact
    { disciplined := hdisciplined
      kernel := by
        rw [hmicro]
        exact hkernel
      sec := h.sec
      phase := by
        dsimp only
        rw [hphase]
        exact h.phase
      microPhase := by
        dsimp only
        rw [hmicro]
        exact h.microPhase
      weight := by
        unfold Accumulator.weight Clock.accumulator MicroClock.accumulator
        dsimp only
        rw [hphase, hmicro]
        exact hweight
      nano := by
        dsimp only
        rw [hmicro]
        exact h.nano }

/-- Either clock takes the same call. -/
theorem InStep.step (hhz : 1 ≤ cfg.hz ∧ cfg.hz ≤ 100000) (hpps : cfg.ppsSync = false)
    (h : InStep cfg c m) (hlong : cfg.Fits c.tv.tvNsec) (e : Event)
    (he : Clock.Admissible cfg c e) (hkeeps : Clock.KeepsLong cfg c e) :
    InStep cfg (Clock.step cfg c e) (MicroClock.step cfg m e) := by
  cases e with
  | tick => exact h.tick hhz hlong hkeeps
  | adjtime tp =>
    have hmicro : MicroClock.step cfg m (.adjtime tp)
        = { m with k := adjKernel cfg m.k c.tv.tvSec tp } := by
      rw [← h.sec]
      rfl
    rw [hmicro]
    exact h.call (f := fun k => adjKernel cfg k c.tv.tvSec tp)
      (adjKernel_disciplined h.disciplined cfg c.tv.tvSec tp)
      (adjKernel_timePhase cfg tp c.k c.tv.tvSec)
      (fun k phase => adjKernel_withPhase cfg k phase c.tv.tvSec tp)
  | hardupdate offset =>
    have hmicro : MicroClock.step cfg m (.hardupdate offset)
        = { m with k := hardupdate cfg m.k c.tv.tvSec offset } := by
      rw [← h.sec]
      rfl
    rw [hmicro]
    exact h.call (f := fun k => hardupdate cfg k c.tv.tvSec offset)
      (hardupdate_disciplined h.disciplined cfg c.tv.tvSec offset)
      (hardupdate_timePhase cfg c.k c.tv.tvSec offset)
      (fun k phase => hardupdate_withPhase cfg k phase c.tv.tvSec offset)
  | hardpps tsp nsec =>
    have hsync : cfg.ppsSync = true := he.1
    rw [hpps] at hsync
    exact absurd hsync (by decide)

/-- A whole number of microseconds, and no phase yet. -/
theorem InStep.start (hhz : 1 ≤ cfg.hz) {k : Kernel F} (hk : Disciplined k)
    (hphase : val k.timePhase = 0) (sec usec : ℤ) :
    InStep cfg ⟨k, sec, 1000 * usec⟩ ⟨k, ⟨sec, usec⟩, 0⟩ := by
  have hzero : ∀ hz : ℤ, 1 ≤ hz → PhaseRange hz (val k.timePhase) := by
    intro hz hpos
    rw [hphase]
    exact ⟨le_refl 0, by omega⟩
  exact
    { disciplined := hk
      kernel := rfl
      sec := rfl
      phase := hzero cfg.hz hhz
      microPhase := hzero (1000 * cfg.hz) (by omega)
      weight := by
        unfold Accumulator.weight Clock.accumulator MicroClock.accumulator
        ring
      nano := by rw [hphase, Int.zero_ediv] }

/-! ## The two builds keep the same time -/

/-- The clocks read the same, and so do the variables of the loop. -/
structure SameTime (c : Clock F) (m : MicroClock F) : Prop where
  sec : m.tv.tvSec = c.tv.tvSec
  nsec : c.tv.tvNsec = 1000 * m.tv.tvUsec + m.nano
  nano : 0 ≤ m.nano ∧ m.nano < 1000
  timeState : m.k.timeState = c.k.timeState
  timeStatus : m.k.timeStatus = c.k.timeStatus
  timeOffset : m.k.timeOffset = c.k.timeOffset
  timeFreq : m.k.timeFreq = c.k.timeFreq
  timeAdj : m.k.timeAdj = c.k.timeAdj

theorem InStep.sameTime (h : InStep cfg c m) : SameTime c m := by
  obtain ⟨hnsec, hnn, hlt⟩ := h.tvNsec_eq
  refine ⟨h.sec, hnsec, ⟨hnn, hlt⟩, ?_, ?_, ?_, ?_, ?_⟩ <;>
    rw [h.kernel] <;> rfl

/-- What the microsecond clock shows after `ntp_tick_adjust`, in nanoseconds. -/
theorem InStep.micro_nsec (hhz : 1 ≤ cfg.hz ∧ cfg.hz ≤ 100000) (h : InStep cfg c m)
    (hlong : cfg.Fits c.tv.tvNsec) :
    1000 * (m.adjust cfg).tv.tvUsec + (m.adjust cfg).nano
      = c.tv.tvNsec + (val c.k.timePhase + val c.k.timeAdj) / (cfg.hz * 2 ^ 32) := by
  have hrange : AdjRange (val m.k.timeAdj) := by
    rw [h.timeAdj]
    exact h.disciplined.1.adj
  have hcoarse := h.micro_accumulator hhz hlong
  have hreduced : (m.adjust cfg).accumulator.Reduced (1000 * (cfg.hz * 2 ^ 32)) := by
    rw [← mul_assoc]
    exact phaseRange_tickPhase cfg
      (by omega : 1 ≤ 1000 * cfg.hz ∧ 1000 * cfg.hz ≤ 100000000) h.microPhase hrange
  have hweight : (c.accumulator.count (cfg.hz * 2 ^ 32) (val c.k.timeAdj)).weight
        (cfg.hz * 2 ^ 32)
      = (m.adjust cfg).accumulator.weight (1000 * (cfg.hz * 2 ^ 32)) := by
    rw [← mul_assoc, hcoarse, Accumulator.weight_count, Accumulator.weight_count, h.weight]
  have hfine := Accumulator.reduced_count (by omega : 0 < cfg.hz * 2 ^ 32) c.accumulator
    (val c.k.timeAdj)
  rw [MicroClock.adjust_nano hhz h.microPhase hrange]
  exact (Accumulator.fine_eq_of_weight_eq hfine hreduced hweight).1.symm

omit [LawfulLFp F] in
theorem MicroClock.tick_nsec (cfg : Config) (m : MicroClock F) :
    1000 * (m.tick cfg).tv.tvUsec + (m.tick cfg).nano
        = 1000 * (m.adjust cfg).tv.tvUsec + (m.adjust cfg).nano ∨
      1000 * (m.tick cfg).tv.tvUsec + (m.tick cfg).nano
        = 1000 * (m.adjust cfg).tv.tvUsec + (m.adjust cfg).nano - nanosecond := by
  rw [MicroClock.tick_eq]
  rcases lt_or_ge (m.adjust cfg).tv.tvUsec 1000000 with hlt | hge
  · rw [MicroClock.overflow_of_lt hlt]
    exact Or.inl rfl
  · rw [MicroClock.overflow_of_le hge]
    refine Or.inr ?_
    unfold nanosecond
    ring

/-- Nanoseconds that do not fit come back a turn lower, and the microseconds do not. -/
theorem InStep.tickFits_of_sameTime (hhz : 1 ≤ cfg.hz ∧ cfg.hz ≤ 100000)
    (h : InStep cfg c m) (hlong : cfg.Fits c.tv.tvNsec)
    (hsame : SameTime (c.tick cfg) (m.tick cfg)) : Clock.TickFits cfg c := by
  have hadj := h.disciplined.1.adj
  obtain ⟨hcount, hcount'⟩ := tickQuotient_bounds
    (by omega : 1 ≤ cfg.hz ∧ cfg.hz ≤ 100000000) h.phase hadj
  have hhalf : (2 : ℤ) ^ cfg.longWidth.bits = 2 * 2 ^ (cfg.longWidth.bits - 1) := by
    rw [← pow_succ', Nat.sub_add_cancel cfg.longWidth.bits_pos]
  have hword : (2 : ℤ) ^ 31 ≤ 2 ^ (cfg.longWidth.bits - 1) := by
    cases cfg.longWidth <;> decide
  by_contra hout
  have hbig : 2 ^ (cfg.longWidth.bits - 1)
      ≤ c.tv.tvNsec + (val c.k.timePhase + val c.k.timeAdj) / (cfg.hz * 2 ^ 32) := by
    by_contra hlt
    exact hout ⟨by have := hlong.1; omega, not_le.mp hlt⟩
  have hwrap : (ntpTickAdjust cfg c.k c.tv 0).2.tvNsec
      = c.tv.tvNsec + (val c.k.timePhase + val c.k.timeAdj) / (cfg.hz * 2 ^ 32)
        - 2 ^ cfg.longWidth.bits := by
    have hhi := hlong.2
    rw [ntpTickAdjust_tvNsec cfg hhz h.phase hadj]
    exact bmod_of_fits_sub cfg.longWidth.bits_pos ⟨by omega, by omega⟩
  have hlt : (ntpTickAdjust cfg c.k c.tv 0).2.tvNsec < nanosecond := by
    have hhi := hlong.2
    unfold nanosecond
    omega
  have hnsec := hsame.nsec
  rw [Clock.tick_of_lt hlt, hwrap] at hnsec
  have hmicro := h.micro_nsec hhz hlong
  have htick := MicroClock.tick_nsec cfg m
  unfold nanosecond at htick
  -- a turn is more than the second that a rollover takes off
  rcases htick with htick | htick <;> omega

end InStep

namespace MicroClock

variable [LawfulLFp F]

/-- From a whole number of microseconds and any state of the loop within its
envelope (`Clock.disciplined_of_reachable`), the two builds keep the same time
and the same loop after every step of a run exactly when every tick leaves the
nanoseconds in their `long`. The second clock never sees the phase of the first. -/
theorem micro_simulates_nano (cfg : Config) (hhz : 1 ≤ cfg.hz ∧ cfg.hz ≤ 100000)
    (hpps : cfg.ppsSync = false) (k : Kernel F) (hk : Disciplined k)
    (hphase : val k.timePhase = 0) (sec usec : ℤ) (hlong : cfg.Fits (1000 * usec))
    (es : List Event)
    (hes : Along (Clock.step cfg) (Clock.Admissible cfg) ⟨k, sec, 1000 * usec⟩ es) :
    (∀ pre, pre <+: es → SameTime (run (Clock.step cfg) ⟨k, sec, 1000 * usec⟩ pre)
        (run (step cfg) ⟨k, ⟨sec, usec⟩, 0⟩ pre)) ↔
      Along (Clock.step cfg) (Clock.KeepsLong cfg) ⟨k, sec, 1000 * usec⟩ es := by
  have hstart : InStep cfg ⟨k, sec, 1000 * usec⟩ ⟨k, ⟨sec, usec⟩, 0⟩ ∧
      cfg.Fits (⟨k, sec, 1000 * usec⟩ : Clock F).tv.tvNsec :=
    ⟨InStep.start hhz.1 hk hphase sec usec, hlong⟩
  have hstep : ∀ (c : Clock F) (m : MicroClock F) e, InStep cfg c m ∧ cfg.Fits c.tv.tvNsec →
      Clock.Admissible cfg c e → Clock.KeepsLong cfg c e →
      InStep cfg (Clock.step cfg c e) (step cfg m e) ∧
        cfg.Fits (Clock.step cfg c e).tv.tvNsec :=
    fun _ _ e h he hkeeps => ⟨h.1.step hhz hpps h.2 e he hkeeps, Clock.step_fits h.2 e⟩
  constructor
  · intro hsame
    have hsilent : ∀ pre, pre <+: es →
        SameTime (run (Clock.step cfg) ⟨k, sec, 1000 * usec⟩ pre)
            (run (step cfg) ⟨k, ⟨sec, usec⟩, 0⟩ pre) ∧
          outputs (Clock.step cfg) (fun _ _ => (none : Option Unit)) ⟨k, sec, 1000 * usec⟩ pre
            = outputs (step cfg) (fun _ _ => none) ⟨k, ⟨sec, usec⟩, 0⟩ pre :=
      fun pre hpre => ⟨hsame pre hpre, by rw [outputs_none, outputs_none]⟩
    refine along_of_alike SameTime hstep ?_ hstart hes hsilent
    rintro c m e h - hnext -
    cases e with
    | tick => exact h.1.tickFits_of_sameTime hhz h.2 hnext
    | _ => trivial
  · rintro hkeeps pre ⟨post, rfl⟩
    have hpre := ((along_append _ _ _ _).mp (along_and hes hkeeps)).1
    exact (run_simulation (fun c m e h he => hstep c m e h he.1 he.2) hstart hpre).1.sameTime

/-- A clock that no tick divides evenly, without PPS. -/
def unevenConfig : Config := ⟨.ilp32, false, 1024⟩

/-- The loop is engaged and slews half a millisecond across a rollover. -/
def slewRun : List Event :=
  [.adjtime
      { modes := modOffset ||| modStatus ||| modNano
        offset := 500000
        status := staPll },
    .tick, .tick, .hardupdate (-70000), .tick]

theorem micro_simulates_nano_slewRun :
    SameTime
      (run (Clock.step unevenConfig)
        ⟨(Kernel.boot unevenConfig : Kernel LFp32), 77, 1000 * 998500⟩ slewRun)
      (run (step unevenConfig)
        ⟨(Kernel.boot unevenConfig : Kernel LFp32), ⟨77, 998500⟩, 0⟩ slewRun) :=
  (micro_simulates_nano unevenConfig (by decide) rfl (Kernel.boot unevenConfig)
    (boot_disciplined unevenConfig) (by decide) 77 998500 (by decide) slewRun
    (by decide)).mpr (by decide +kernel) slewRun (List.prefix_refl slewRun)

/-- With one tick a second and a 32-bit `long` the nanoseconds wrap at the seventh
tick of `crowdedRun`, and the microseconds go on. -/
theorem not_micro_simulates_nano : ¬ ∀ (cfg : Config) (sec usec : ℤ) (es : List Event),
    1 ≤ cfg.hz ∧ cfg.hz ≤ 100000 → cfg.ppsSync = false → cfg.Fits (1000 * usec) →
    Along (Clock.step cfg) (Clock.Admissible cfg)
      ⟨(Kernel.boot cfg : Kernel LFp64), sec, 1000 * usec⟩ es →
    ∀ pre, pre <+: es →
      SameTime (run (Clock.step cfg) ⟨(Kernel.boot cfg : Kernel LFp64), sec, 1000 * usec⟩ pre)
        (run (step cfg) ⟨(Kernel.boot cfg : Kernel LFp64), ⟨sec, usec⟩, 0⟩ pre) := by
  intro h
  have hlast := h oneHertz32 1000000 999999 (Clock.crowdedRun ++ [.tick]) (by decide) rfl
    (by decide) (by decide) _ (List.prefix_refl _)
  exact absurd hlast.nsec (by decide +kernel)

end MicroClock

end Nanokernel
