import Nanokernel.Kernel.MicroSimulation
import Nanokernel.Kernel.PccClock

/-!
# The readings of the microsecond kernel

Without `NTP_NANO`, `nano_time_rpcc` of `micro.c` puts a time together from the microsecond
clock and `time_nano`. Every processor interpolates from that, a driver stamps its pulses with
what comes out, and the pulses discipline the clock: around this loop the two builds stay
together, reading by reading (`micro_readings_eq`).
-/

namespace Nanokernel

open Run

/-- What happens on a machine with a driver for the pulses: an interrupt of the signal reads
the clock on its processor and hands the time and the value to `hardpps()`. -/
inductive PulseOp (ι : Type) where
  | op (o : PccOp ι)
  | pulse (i : ι) (rpcc : ℤ)

/-! ## The nanosecond build -/

namespace PccClock

variable {ι F : Type} [LFp F]

def pulse (cfg : Config) (s : PccClock ι F) (i : ι) (rpcc : ℤ) : PccClock ι F :=
  let (s, t, nsec) := s.nanoTime cfg i rpcc
  { s with clock := s.clock.step cfg (.hardpps t nsec) }

def pulseStep [DecidableEq ι] (cfg : Config) (s : PccClock ι F) : PulseOp ι → PccClock ι F
  | .op o => s.step cfg o
  | .pulse i rpcc => s.pulse cfg i rpcc

/-- The time that is stored and the value that is returned. -/
def stamp (cfg : Config) (s : PccClock ι F) : PulseOp ι → Option (Timespec × ℤ)
  | .op (.nanoTime i rpcc) | .pulse i rpcc => some (s.nanoTime cfg i rpcc).2
  | .op _ => none

/-- A pulse is there with `PPS_SYNC` only. -/
def PulseAdmissible (cfg : Config) (s : PccClock ι F) : PulseOp ι → Prop
  | .op o => s.Admissible cfg o
  | .pulse _ _ => cfg.ppsSync = true

def PulseCarries [LawfulLFp F] (cfg : Config) (s : PccClock ι F) : PulseOp ι → Prop
  | .op o => s.Carries cfg o
  | .pulse _ _ => True

end PccClock

/-! ## The microsecond build -/

/-- The variables of `micro.c` over the microsecond clock. -/
structure MicroPccClock (ι F : Type) where
  clock : MicroClock F
  pcc : ι → Pcc
  masterPcc : ℤ
  lasttime : Timespec

namespace MicroPccClock

variable {ι F : Type}

def start [LFp F] (cfg : Config) (initime : Timeval) : MicroPccClock ι F :=
  { clock := ⟨Kernel.boot cfg, initime, 0⟩
    pcc := fun _ => ⟨⟨0, 0⟩, 0, 0, 0, 0, 0⟩
    masterPcc := 0
    lasttime := ⟨0, 0⟩ }

/-- The time `nano_time_rpcc()` stores. -/
def timeRead (cfg : Config) (m : MicroClock F) : Timespec :=
  ⟨m.tv.tvSec, cfg.long (m.tv.tvUsec * 1000 + m.nano)⟩

def interpolated (cfg : Config) (m : MicroPccClock ι F) (i : ι) (rpcc : ℤ) : Timespec × ℤ :=
  interpolate cfg m.clock.k.timeTick (m.pcc i) (timeRead cfg m.clock) (maskPcc rpcc)

def nanoTime (cfg : Config) (m : MicroPccClock ι F) (i : ι) (rpcc : ℤ) :
    MicroPccClock ι F × Timespec × ℤ :=
  let (t, psec) := m.interpolated cfg i rpcc
  let t := guarded m.lasttime t
  ({ m with lasttime := t }, t, cfg.long (int64 (psec + (m.pcc i).pccMaster)))

def microset [DecidableEq ι] (cfg : Config) (m : MicroPccClock ι F) (i : ι) (rpcc : ℤ) :
    MicroPccClock ι F :=
  let p := microsetFromSaved cfg (m.pcc i) m.masterPcc (maskPcc rpcc) (timeRead cfg m.clock)
  { m with pcc := Function.update m.pcc i p }

variable [LFp F]

def pulse (cfg : Config) (m : MicroPccClock ι F) (i : ι) (rpcc : ℤ) : MicroPccClock ι F :=
  let (m, t, nsec) := m.nanoTime cfg i rpcc
  { m with clock := m.clock.step cfg (.hardpps t nsec) }

def pulseStep [DecidableEq ι] (cfg : Config) (m : MicroPccClock ι F) :
    PulseOp ι → MicroPccClock ι F
  | .op (.clock e) => { m with clock := m.clock.step cfg e }
  | .op (.masterPcc nsec) => { m with masterPcc := nsec }
  | .op (.microset i rpcc) => m.microset cfg i rpcc
  | .op (.nanoTime i rpcc) => (m.nanoTime cfg i rpcc).1
  | .pulse i rpcc => m.pulse cfg i rpcc

def stamp (cfg : Config) (m : MicroPccClock ι F) : PulseOp ι → Option (Timespec × ℤ)
  | .op (.nanoTime i rpcc) | .pulse i rpcc => some (m.nanoTime cfg i rpcc).2
  | .op _ => none

end MicroPccClock

/-! ## The pulse and the phase -/

section WithPhase

variable {F : Type} [LFp F] (cfg : Config) (k : Kernel F) (phase : F)

theorem ppsPhase_withPhase :
    ppsPhase cfg (k.withPhase phase) = (ppsPhase cfg k).withPhase phase := by
  unfold Kernel.withPhase ppsPhase
  dsimp only
  split_ifs <;> rfl

theorem ppsFrequencyUpdate_withPhase (vNsec : ℤ) :
    ppsFrequencyUpdate cfg (k.withPhase phase) vNsec
      = (ppsFrequencyUpdate cfg k vNsec).withPhase phase := by
  unfold Kernel.withPhase ppsFrequencyUpdate ppsWander
  dsimp only
  split_ifs <;> rfl

theorem ppsCalibrate_withPhase :
    ppsCalibrate cfg (k.withPhase phase) = (ppsCalibrate cfg k).withPhase phase := by
  have hpps : (k.withPhase phase).pps = k.pps := rfl
  have hset : ∀ pps, ({ k.withPhase phase with pps := pps } : Kernel F)
      = ({ k with pps := pps } : Kernel F).withPhase phase := fun _ => rfl
  unfold ppsCalibrate
  dsimp only
  rw [hpps]
  split_ifs
  · rfl
  · rfl
  · rw [hset, ppsFrequencyUpdate_withPhase]

/-- `hardpps()` neither reads nor writes the phase. -/
theorem hardpps_withPhase (tsp : Timespec) (nsec : ℤ) :
    hardpps cfg (k.withPhase phase) tsp nsec = (hardpps cfg k tsp nsec).withPhase phase := by
  have hsignal : ppsSignal cfg (k.withPhase phase) = (ppsSignal cfg k).withPhase phase := rfl
  have hsample : ∀ (k : Kernel F) pulse,
      ppsSample cfg (k.withPhase phase) pulse nsec = (ppsSample cfg k pulse nsec).withPhase phase :=
    fun _ _ => rfl
  have hpps : ∀ k : Kernel F, (k.withPhase phase).pps = k.pps := fun _ => rfl
  unfold hardpps
  dsimp only
  rw [hsignal, hpps, hsample, ppsPhase_withPhase, ppsCalibrate_withPhase]
  split_ifs <;> rfl

end WithPhase

/-! ## The simulation -/

section Twin

variable {ι F : Type} [LFp F] [LawfulLFp F] {cfg : Config}

/-- Either clock takes the same pulse. -/
theorem InStep.pulse {c : Clock F} {m : MicroClock F} (h : InStep cfg c m) {tsp : Timespec}
    (htsp : tsp.Normalised) (nsec : ℤ) :
    InStep cfg (c.step cfg (.hardpps tsp nsec)) (m.step cfg (.hardpps tsp nsec)) := by
  have hphase : (hardpps cfg c.k tsp nsec).timePhase = c.k.timePhase := by
    rw [hardpps_frame]
  exact h.call (f := fun k => hardpps cfg k tsp nsec)
    (hardpps_disciplined h.disciplined cfg htsp.1 htsp.2 nsec) hphase
    (fun k phase => hardpps_withPhase cfg k phase tsp nsec)

/-- Every event of the kernel clock, with `PPS_SYNC` or without. -/
theorem InStep.event (hhz : 1 ≤ cfg.hz ∧ cfg.hz ≤ 100000) {c : Clock F} {m : MicroClock F}
    (h : InStep cfg c m) (hlong : cfg.Fits c.tv.tvNsec) {e : Event} (he : c.Admissible cfg e)
    (hkeeps : c.KeepsLong cfg e) : InStep cfg (c.step cfg e) (m.step cfg e) := by
  cases e with
  | tick => exact h.tick hhz hlong hkeeps
  | adjtime tp =>
    show InStep cfg { c with k := adjKernel cfg c.k c.tv.tvSec tp }
      { m with k := adjKernel cfg m.k m.tv.tvSec tp }
    rw [h.sec]
    exact h.call (f := fun k => adjKernel cfg k c.tv.tvSec tp)
      (adjKernel_disciplined h.disciplined cfg c.tv.tvSec tp)
      (adjKernel_timePhase cfg tp c.k c.tv.tvSec)
      (fun k phase => adjKernel_withPhase cfg k phase c.tv.tvSec tp)
  | hardupdate offset =>
    show InStep cfg { c with k := hardupdate cfg c.k c.tv.tvSec offset }
      { m with k := hardupdate cfg m.k m.tv.tvSec offset }
    rw [h.sec]
    exact h.call (f := fun k => hardupdate cfg k c.tv.tvSec offset)
      (hardupdate_disciplined h.disciplined cfg c.tv.tvSec offset)
      (hardupdate_timePhase cfg c.k c.tv.tvSec offset)
      (fun k phase => hardupdate_withPhase cfg k phase c.tv.tvSec offset)
  | hardpps tsp nsec => exact h.pulse ⟨he.2.1, he.2.2⟩ nsec

/-- The two builds are in step, and the arrays and the last reading are the same. -/
structure Twin (cfg : Config) (s : PccClock ι F) (m : MicroPccClock ι F) : Prop where
  settled : s.Settled cfg
  clock : InStep cfg s.clock m.clock
  pcc : m.pcc = s.pcc
  masterPcc : m.masterPcc = s.masterPcc
  lasttime : m.lasttime = s.lasttime

variable {s : PccClock ι F} {m : MicroPccClock ι F}

theorem PccClock.Settled.fits (h : s.Settled cfg) : cfg.Fits s.clock.tv.tvNsec := by
  obtain ⟨h0, hlt⟩ := h.tv
  unfold nanosecond at hlt
  exact cfg.fits_of_fits ⟨by omega, by omega⟩

/-- The time that is put together is the nanosecond clock. -/
theorem Twin.timeRead (h : Twin cfg s m) :
    MicroPccClock.timeRead cfg m.clock = s.clock.tv := by
  have hnsec : m.clock.tv.tvUsec * 1000 + m.clock.nano = s.clock.tv.tvNsec := by
    rw [h.clock.tvNsec_eq.1, mul_comm]
  have hfits : cfg.long s.clock.tv.tvNsec = s.clock.tv.tvNsec :=
    cfg.long_eq_iff.mpr h.settled.fits
  unfold MicroPccClock.timeRead
  rw [hnsec, hfits, h.clock.sec]

theorem Twin.timeTick (h : Twin cfg s m) : m.clock.k.timeTick = s.clock.k.timeTick := by
  rw [h.clock.kernel]
  rfl

theorem Twin.interpolated (h : Twin cfg s m) (i : ι) (rpcc : ℤ) :
    m.interpolated cfg i rpcc = s.interpolated cfg i rpcc := by
  unfold MicroPccClock.interpolated PccClock.interpolated
  rw [h.timeRead, h.timeTick, h.pcc]

/-- One reading is the other. -/
theorem Twin.reading (h : Twin cfg s m) (i : ι) (rpcc : ℤ) :
    (m.nanoTime cfg i rpcc).2 = (s.nanoTime cfg i rpcc).2 := by
  unfold MicroPccClock.nanoTime PccClock.nanoTime
  rw [h.interpolated, h.pcc, h.lasttime]

theorem Twin.nanoTime (hhz : 1 ≤ cfg.hz) (h : Twin cfg s m) (i : ι) (rpcc : ℤ) :
    Twin cfg (s.nanoTime cfg i rpcc).1 (m.nanoTime cfg i rpcc).1 := by
  have hlast := (guarded_cases h.settled.lasttime
    (PccClock.interpolated_bounds hhz h.settled i rpcc).1).1
  refine ⟨⟨h.settled.sound, h.settled.tv, h.settled.timeTick, hlast⟩, h.clock, h.pcc,
    h.masterPcc, ?_⟩
  show guarded m.lasttime (m.interpolated cfg i rpcc).1
    = guarded s.lasttime (s.interpolated cfg i rpcc).1
  rw [h.interpolated, h.lasttime]

theorem Twin.pulse (hhz : 1 ≤ cfg.hz ∧ cfg.hz ≤ 100000) (h : Twin cfg s m)
    (hpps : cfg.ppsSync = true) (i : ι) (rpcc : ℤ) :
    Twin cfg (s.pulse cfg i rpcc) (m.pulse cfg i rpcc) := by
  have hread := h.nanoTime hhz.1 i rpcc
  have hstamp := h.reading i rpcc
  have hnorm : (s.nanoTime cfg i rpcc).2.1.Normalised := hread.settled.lasttime
  have hclock : InStep cfg
      (s.clock.step cfg (.hardpps (s.nanoTime cfg i rpcc).2.1 (s.nanoTime cfg i rpcc).2.2))
      (m.clock.step cfg (.hardpps (m.nanoTime cfg i rpcc).2.1 (m.nanoTime cfg i rpcc).2.2)) := by
    rw [hstamp]
    exact h.clock.pulse hnorm _
  have hadmissible : s.clock.Admissible cfg
      (.hardpps (s.nanoTime cfg i rpcc).2.1 (s.nanoTime cfg i rpcc).2.2) :=
    ⟨hpps, hnorm.1, hnorm.2⟩
  exact
    { settled := ⟨Clock.step_sound hhz h.settled.sound hadmissible, h.settled.tv,
        Clock.step_timeTick h.settled.timeTick _, hnorm⟩
      clock := hclock
      pcc := h.pcc
      masterPcc := h.masterPcc
      lasttime := hread.lasttime }

theorem Twin.step [DecidableEq ι] (hhz : 1 ≤ cfg.hz ∧ cfg.hz ≤ 100000) (h : Twin cfg s m)
    {e : PulseOp ι} (he : s.PulseAdmissible cfg e) (hcarries : s.PulseCarries cfg e) :
    Twin cfg (s.pulseStep cfg e) (m.pulseStep cfg e) := by
  cases e with
  | op o =>
    have hsettled := PccClock.step_settled hhz h.settled he hcarries
    cases o with
    | clock e =>
      have hkeeps := Clock.keepsLong_of_carriesOnce hhz h.settled.sound h.settled.tv hcarries
      exact ⟨hsettled, h.clock.event hhz h.settled.fits he hkeeps, h.pcc, h.masterPcc,
        h.lasttime⟩
    | masterPcc nsec => exact ⟨hsettled, h.clock, h.pcc, rfl, h.lasttime⟩
    | microset i rpcc =>
      refine ⟨hsettled, h.clock, ?_, h.masterPcc, h.lasttime⟩
      show (m.microset cfg i rpcc).pcc = (s.microset cfg i rpcc).pcc
      unfold MicroPccClock.microset PccClock.microset
      dsimp only
      rw [h.timeRead, h.pcc, h.masterPcc]
    | nanoTime i rpcc => exact h.nanoTime hhz.1 i rpcc
  | pulse i rpcc => exact h.pulse hhz he i rpcc

theorem Twin.stamp (h : Twin cfg s m) (e : PulseOp ι) : s.stamp cfg e = m.stamp cfg e := by
  cases e with
  | op o =>
    cases o with
    | nanoTime i rpcc => exact congrArg some (h.reading i rpcc).symm
    | _ => rfl
  | pulse i rpcc => exact congrArg some (h.reading i rpcc).symm

theorem twin_start (hhz : 1 ≤ cfg.hz) (sec : ℤ) {usec : ℤ}
    (husec : 0 ≤ usec ∧ usec < 1000000) :
    Twin cfg (PccClock.start cfg ⟨sec, 1000 * usec⟩ : PccClock ι F)
      (MicroPccClock.start cfg ⟨sec, usec⟩) := by
  have htime : Timespec.Normalised ⟨sec, 1000 * usec⟩ := by
    unfold Timespec.Normalised nanosecond
    dsimp only
    omega
  exact
    { settled := PccClock.settled_start hhz htime
      clock := InStep.start hhz (boot_disciplined cfg) (by rw [boot_timePhase, val_lClr]) sec usec
      pcc := rfl
      masterPcc := rfl
      lasttime := rfl }

/-- From a whole number of microseconds, through every run of ticks and calls, `microset()`,
readings and pulses on any processor and with any counter values: the times stored and the
values returned are the same in both builds, one by one, and so is the loop that they drive. -/
theorem micro_readings_eq [DecidableEq ι] (cfg : Config) (hhz : 1 ≤ cfg.hz ∧ cfg.hz ≤ 100000)
    (sec usec : ℤ) (husec : 0 ≤ usec ∧ usec < 1000000) (es : List (PulseOp ι))
    (hes : Along (PccClock.pulseStep cfg) (PccClock.PulseAdmissible cfg)
      (PccClock.start cfg ⟨sec, 1000 * usec⟩ : PccClock ι F) es)
    (hcarries : Along (PccClock.pulseStep cfg) (PccClock.PulseCarries cfg)
      (PccClock.start cfg ⟨sec, 1000 * usec⟩ : PccClock ι F) es) :
    let s₀ : PccClock ι F := PccClock.start cfg ⟨sec, 1000 * usec⟩
    let m₀ : MicroPccClock ι F := MicroPccClock.start cfg ⟨sec, usec⟩
    outputs (PccClock.pulseStep cfg) (PccClock.stamp cfg) s₀ es
        = outputs (MicroPccClock.pulseStep cfg) (MicroPccClock.stamp cfg) m₀ es ∧
      let s := run (PccClock.pulseStep cfg) s₀ es
      let m := run (MicroPccClock.pulseStep cfg) m₀ es
      m.pcc = s.pcc ∧ m.lasttime = s.lasttime ∧
        MicroPccClock.timeRead cfg m.clock = s.clock.tv ∧
        m.clock.k = s.clock.k.withPhase m.clock.k.timePhase := by
  intro s₀ m₀
  have hstart : Twin cfg s₀ m₀ := twin_start hhz.1 sec husec
  have hgood := along_and hes hcarries
  have hstep : ∀ (s : PccClock ι F) (m : MicroPccClock ι F) (e : PulseOp ι), Twin cfg s m →
      s.PulseAdmissible cfg e ∧ s.PulseCarries cfg e →
      Twin cfg (s.pulseStep cfg e) (m.pulseStep cfg e) :=
    fun _ _ _ h he => h.step hhz he.1 he.2
  have hend := run_simulation hstep hstart hgood
  exact ⟨outputs_simulation hstep (fun _ _ e h _ => h.stamp e) hstart hgood,
    hend.pcc, hend.lasttime, hend.timeRead, hend.clock.kernel⟩

end Twin

/-- A clock that no tick divides evenly, with PPS. -/
def unevenPps : Config := ⟨.ilp32, true, 1024⟩

/-- Two processors: one stamps a pulse, the other one is read, and the loop slews. -/
def twoProcessors : List (PulseOp Bool) :=
  [.op (.clock (.adjtime
      { modes := modOffset ||| modStatus ||| modNano
        offset := 500000
        status := staPll ||| staPpstime })),
    .op (.clock .tick), .op (.microset true 1000), .op (.microset false 77),
    .pulse true 200000, .op (.clock .tick), .op (.nanoTime false 423000)]

theorem micro_readings_eq_twoProcessors :
    outputs (PccClock.pulseStep unevenPps) (PccClock.stamp unevenPps)
        (PccClock.start unevenPps ⟨77, 1000 * 999000⟩ : PccClock Bool LFp32) twoProcessors
      = outputs (MicroPccClock.pulseStep unevenPps) (MicroPccClock.stamp unevenPps)
          (MicroPccClock.start unevenPps ⟨77, 999000⟩ : MicroPccClock Bool LFp32)
          twoProcessors :=
  (micro_readings_eq unevenPps (by decide) 77 999000 (by decide) twoProcessors
    ⟨trivial, trivial, trivial, trivial, rfl, trivial, trivial, trivial⟩
    ⟨trivial, Or.inl (by decide), trivial, trivial, trivial, Or.inl (by decide), trivial,
      trivial⟩).1

end Nanokernel
