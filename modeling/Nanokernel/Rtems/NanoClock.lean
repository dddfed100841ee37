import Nanokernel.Kernel.Envelope

/-!
# The RTEMS nanosecond clock

`ticker_body` and `nano_time` of `rtemsdep.c`. The ticker advances the kernel
clock and rebases the interpolation on it; a reading adds the cycle counter,
scaled by the length of the last tick, to the base. The values of `getPcc()`
and `setPccBase()` are parameters of the calls: no clock method of `pcc.h` is
singled out. A reading that goes through the `lasttime` guard lies after all
the readings before it, whatever the ticks do; without a clock method there is
no guard.
-/

namespace Nanokernel

open Run

variable {F : Type}

/-- The value an `unsigned long` holds after it is assigned `x`. -/
def Config.ulong (cfg : Config) (x : ℤ) : ℤ := x % 2 ^ cfg.longWidth.bits

theorem Config.ulong_of_lt (cfg : Config) {x : ℤ} (h0 : 0 ≤ x) (h : x < 2 ^ 32) :
    cfg.ulong x = x := by
  unfold Config.ulong
  cases cfg.longWidth <;>
    exact Int.emod_eq_of_lt h0 (by simp only [LongWidth.bits]; omega)

/-- It does not tell integers a turn apart. -/
theorem Config.ulong_congr (cfg : Config) {x y : ℤ}
    (h : (2 : ℤ) ^ cfg.longWidth.bits ∣ x - y) : cfg.ulong x = cfg.ulong y :=
  Int.emod_eq_emod_iff_emod_sub_eq_zero.mpr (Int.emod_eq_zero_of_dvd h)

/-- Either `unsigned long` keeps the lower 32 bits. -/
theorem Config.ulong_emod (cfg : Config) (x : ℤ) :
    cfg.ulong x % 2 ^ 32 = x % 2 ^ 32 := by
  unfold Config.ulong
  cases cfg.longWidth <;> simp only [LongWidth.bits] <;> omega

/-- The value an `unsigned long long` holds after it is assigned `x`. -/
def ull (x : ℤ) : ℤ := x % 2 ^ 64

/-! ## The variables and the routines -/

/-- The kernel clock, the base of the interpolation and the `lasttime` guard. -/
structure NanoClock (F : Type) where
  clock : Clock F
  nanobase : Timespec
  pccNumerator : ℤ
  pccDenominator : ℤ
  lasttime : ℤ
deriving DecidableEq, Repr

namespace NanoClock

/-- After `ntp_init()` and the first packet from a server. -/
def start [LFp F] (cfg : Config) (initime : Timespec) : NanoClock F :=
  ⟨⟨Kernel.boot cfg, initime⟩, ⟨0, 0⟩, 0, 0, 0⟩

/-- `ticker_body()`; `setPccBase` is what `setPccBase()` returns. -/
def tickerBody [LFp F] (cfg : Config) (s : NanoClock F) (setPccBase : ℤ) :
    NanoClock F :=
  let clock := s.clock.tick cfg
  { s with
    clock := clock
    pccDenominator := cfg.ulong setPccBase
    pccNumerator := cfg.ulong (clock.tv.tvNsec - s.nanobase.tvNsec
      + (clock.tv.tvSec - s.nanobase.tvSec) * nanosecond)
    nanobase := clock.tv }

/-- The counter converted to nanoseconds. -/
def scaledPcc (s : NanoClock F) (getPcc : ℤ) : ℤ :=
  ull (ull getPcc * s.pccNumerator) / s.pccDenominator

/-- The time before the guard. -/
def interpolated (cfg : Config) (s : NanoClock F) (getPcc : ℤ) : ℤ :=
  ull (cfg.ulong s.nanobase.tvSec * nanosecond + s.nanobase.tvNsec
    + s.scaledPcc getPcc)

/-- `nano_time()`: the new `lasttime`, the time stored and the value returned. -/
def nanoTime (cfg : Config) (s : NanoClock F) (getPcc : ℤ) :
    NanoClock F × Timespec × ℤ :=
  if s.pccDenominator ≠ 0 then
    let thistime := s.interpolated cfg getPcc
    -- prevent the clock from running backwards
    let thistime := if thistime ≤ s.lasttime then ull (s.lasttime + 1) else thistime
    ({ s with lasttime := thistime },
      ⟨thistime / nanosecond, thistime % nanosecond⟩, cfg.long (s.scaledPcc getPcc))
  else (s, s.nanobase, cfg.long (ull getPcc))

/-- What reaches the clock under `splclock()`: the ticker, a reader, and any
call of the kernel other than a tick. -/
inductive Op where
  | tickerBody (setPccBase : ℤ)
  | nanoTime (getPcc : ℤ)
  | call (e : Event)
deriving DecidableEq, Repr

def step [LFp F] (cfg : Config) (s : NanoClock F) : Op → NanoClock F
  | .tickerBody setPccBase => s.tickerBody cfg setPccBase
  | .nanoTime getPcc => (s.nanoTime cfg getPcc).1
  | .call e => { s with clock := s.clock.step cfg e }

/-- The time a reader gets. -/
def reading (cfg : Config) (s : NanoClock F) : Op → Option Timespec
  | .nanoTime getPcc => some (s.nanoTime cfg getPcc).2.1
  | _ => none

/-! ## The guard -/

/-- `lasttime` holds an `unsigned long long`. -/
def LasttimeFits (s : NanoClock F) : Prop := 0 ≤ s.lasttime ∧ s.lasttime < 2 ^ 64

/-- The reading goes through the guard, and the guard has room above it. -/
def Guarded (s : NanoClock F) : Op → Prop
  | .nanoTime _ => s.pccDenominator ≠ 0 ∧ s.lasttime ≠ 2 ^ 64 - 1
  | _ => True

instance (s : NanoClock F) : (op : Op) → Decidable (Guarded s op)
  | .nanoTime _ => inferInstanceAs (Decidable (_ ∧ _))
  | .tickerBody _ | .call _ => inferInstanceAs (Decidable True)

variable {cfg : Config} {s : NanoClock F}

theorem ull_bounds (x : ℤ) : 0 ≤ ull x ∧ ull x < 2 ^ 64 :=
  ⟨Int.emod_nonneg _ (by decide), Int.emod_lt_of_pos _ (by decide)⟩

/-- A guarded reading is a count of nanoseconds past `lasttime`. -/
theorem nanoTime_of_guarded (cfg : Config) (hs : LasttimeFits s) {getPcc : ℤ}
    (h : Guarded s (.nanoTime getPcc)) :
    ∃ nsec, s.lasttime < nsec ∧ nsec < 2 ^ 64 ∧
      (s.nanoTime cfg getPcc).1 = { s with lasttime := nsec } ∧
      (s.nanoTime cfg getPcc).2.1 = Timespec.ofNsec nsec := by
  obtain ⟨hdenom, hroom⟩ := h
  obtain ⟨hnn, hlt⟩ := hs
  unfold nanoTime
  rw [if_pos hdenom]
  dsimp only
  by_cases hback : s.interpolated cfg getPcc ≤ s.lasttime
  · have hnext : ull (s.lasttime + 1) = s.lasttime + 1 :=
      Int.emod_eq_of_lt (by omega) (by omega)
    rw [if_pos hback, hnext]
    exact ⟨s.lasttime + 1, by omega, by omega, rfl, rfl⟩
  · rw [if_neg hback]
    exact ⟨s.interpolated cfg getPcc, not_le.mp hback, (ull_bounds _).2, rfl, rfl⟩

/-- Without a counter a reading is the base. -/
theorem nanoTime_of_zero (h : s.pccDenominator = 0) (getPcc : ℤ) :
    (s.nanoTime cfg getPcc).2.1 = s.nanobase := by
  unfold nanoTime
  rw [if_neg (not_not.mpr h)]

theorem nanoTime_of_not_raised {getPcc : ℤ} (h : s.pccDenominator ≠ 0)
    (hlt : s.lasttime < s.interpolated cfg getPcc) :
    (s.nanoTime cfg getPcc).2.1 = Timespec.ofNsec (s.interpolated cfg getPcc) := by
  unfold nanoTime
  rw [if_pos h]
  dsimp only
  rw [if_neg (not_le.mpr hlt)]
  rfl

section Runs

variable [LFp F]

theorem step_lasttime (hs : LasttimeFits s) {op : Op} (h : Guarded s op) :
    LasttimeFits (step cfg s op) ∧ s.lasttime ≤ (step cfg s op).lasttime := by
  cases op with
  | tickerBody setPccBase => exact ⟨hs, le_refl _⟩
  | call e => exact ⟨hs, le_refl _⟩
  | nanoTime getPcc =>
    obtain ⟨nsec, hlt, hmax, hstate, -⟩ := nanoTime_of_guarded cfg hs h
    have hlast : (step cfg s (.nanoTime getPcc)).lasttime = nsec :=
      congrArg lasttime hstate
    unfold LasttimeFits
    rw [hlast]
    exact ⟨⟨by have := hs.1; omega, hmax⟩, hlt.le⟩

/-- The reading lies after everything the guard has recorded. -/
def Beyond (s : NanoClock F) (t : Timespec) : Prop :=
  ∃ nsec, s.lasttime < nsec ∧ t = Timespec.ofNsec nsec

theorem reading_beyond (hs : LasttimeFits s) {op : Op} (h : Guarded s op)
    {t : Timespec} (ht : reading cfg s op = some t) :
    Beyond s t ∧ t = Timespec.ofNsec (step cfg s op).lasttime := by
  cases op with
  | tickerBody setPccBase => exact absurd ht (by simp [reading])
  | call e => exact absurd ht (by simp [reading])
  | nanoTime getPcc =>
    obtain ⟨nsec, hlt, -, hstate, htime⟩ := nanoTime_of_guarded cfg hs h
    have hlast : (step cfg s (.nanoTime getPcc)).lasttime = nsec :=
      congrArg lasttime hstate
    have hread : t = Timespec.ofNsec nsec :=
      (Option.some.inj ht).symm.trans htime
    rw [hlast]
    exact ⟨⟨nsec, hlt, hread⟩, hread⟩

/-- Readings through the guard are normalised and strictly ordered over every
run of ticks, readings and calls, whatever the cycle counter returns. -/
theorem readings_monotonic (cfg : Config) (initime : Timespec) (ops : List Op)
    (hops : Along (step cfg) Guarded (start cfg initime : NanoClock F) ops) :
    (outputs (step cfg) (reading cfg) (start cfg initime : NanoClock F) ops).Pairwise
        Timespec.Before ∧
      ∀ t ∈ outputs (step cfg) (reading cfg) (start cfg initime : NanoClock F) ops,
        t.Normalised := by
  have hstart : LasttimeFits (start cfg initime : NanoClock F) :=
    ⟨le_refl 0, (by decide : (0 : ℤ) < 2 ^ 64)⟩
  have hfits : ∀ (s : NanoClock F) op, LasttimeFits s → Guarded s op →
      LasttimeFits (step cfg s op) := fun _ _ hs h => (step_lasttime hs h).1
  have hout : ∀ (s : NanoClock F) op t, LasttimeFits s → Guarded s op →
      reading cfg s op = some t → Beyond s t :=
    fun _ _ _ hs h ht => (reading_beyond hs h ht).1
  -- the guard has recorded the reading, so the next one is later
  have hlater : ∀ (s : NanoClock F) op t t', LasttimeFits s → Guarded s op →
      reading cfg s op = some t → Beyond (step cfg s op) t' → t.Before t' := by
    rintro s op t t' hs h ht ⟨nsec, hlt, rfl⟩
    rw [(reading_beyond hs h ht).2]
    exact Timespec.before_ofNsec hlt
  have hgrow : ∀ (s : NanoClock F) op t, LasttimeFits s → Guarded s op →
      Beyond (step cfg s op) t → Beyond s t := by
    rintro s op t hs h ⟨nsec, hlt, rfl⟩
    exact ⟨nsec, lt_of_le_of_lt (step_lasttime hs h).2 hlt, rfl⟩
  obtain ⟨hpair, hbeyond⟩ := pairwise_outputs hfits hlater hout hgrow hstart hops
  refine ⟨hpair, fun t ht => ?_⟩
  obtain ⟨nsec, -, rfl⟩ := hbeyond t ht
  exact Timespec.normalised_ofNsec nsec

end Runs

/-! ## With and without a cycle counter -/

/-- A leap second is announced two seconds before midnight; the clock is read
half a second before midnight and half a second into the inserted second.
Every tick takes `pcc` counts. -/
def leapRun (pcc : ℤ) : List Op :=
  [.call (.adjtime { modes := modStatus, status := staPll ||| staIns }),
    .tickerBody pcc, .tickerBody pcc, .tickerBody pcc, .tickerBody pcc,
    .nanoTime 0, .tickerBody pcc, .nanoTime 0]

/-- With a counter the guard holds the clock. -/
theorem readings_monotonic_leapRun :
    (outputs (step twoHertz) (reading twoHertz)
        (start twoHertz ⟨86397, 500000000⟩ : NanoClock LFp32) (leapRun 1000)).Pairwise
        Timespec.Before ∧
      ∀ t ∈ outputs (step twoHertz) (reading twoHertz)
          (start twoHertz ⟨86397, 500000000⟩ : NanoClock LFp32) (leapRun 1000),
        t.Normalised :=
  readings_monotonic twoHertz ⟨86397, 500000000⟩ (leapRun 1000) (by decide +kernel)

/-- Without one, where `setPccBase()` returns 0, the clock is read as
86399.5 s and then as 86399.0 s. -/
theorem not_readings_monotonic : ¬ ∀ (cfg : Config) (initime : Timespec)
    (ops : List Op), 1 ≤ cfg.hz ∧ cfg.hz ≤ 100000 → initime.Normalised →
    (outputs (step cfg) (reading cfg) (start cfg initime : NanoClock LFp32) ops).Pairwise
        Timespec.Before ∧
      ∀ t ∈ outputs (step cfg) (reading cfg) (start cfg initime : NanoClock LFp32) ops,
        t.Normalised := by
  intro h
  have hpair := (h twoHertz ⟨86397, 500000000⟩ (leapRun 0) (by decide) (by decide)).1
  have hreadings : outputs (step twoHertz) (reading twoHertz)
      (start twoHertz ⟨86397, 500000000⟩ : NanoClock LFp32) (leapRun 0)
        = [⟨86399, 500000000⟩, ⟨86399, 0⟩] := by
    decide +kernel
  rw [hreadings] at hpair
  exact absurd hpair (by decide)

end NanoClock

end Nanokernel
