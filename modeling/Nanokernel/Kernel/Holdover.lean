import Nanokernel.Foundation.Run
import Nanokernel.Kernel.AdjtimeFrame
import Nanokernel.Kernel.Normalised
import Nanokernel.Kernel.TickLength

/-!
# A clock on its own

Once the offset is paid out and no update comes, the clock runs at the frequency it has
estimated. Seconds, nanoseconds and phase are then one accumulator that counts the same value
at every tick, so the time after any number of ticks has a closed form, to the last fraction
(`holdover`), as long as the nanoseconds fit their `long`. A clock that ticks once a second and
is fast outgrows it, and no other (`Coasting.carriesOnce`).
-/

namespace Nanokernel

open BitMask Decay Run SignedWord

variable {F : Type} [LFp F] [LawfulLFp F]

namespace Clock

/-- The seconds, the nanoseconds and the phase as an accumulator. -/
def reckoning (c : Clock F) : Accumulator := ⟨c.tv.nsec, val c.k.timePhase⟩

/-- What is left of the offset has no part that an amortisation would take, the frequency
makes a second `rate` long, and `time_adj` is that. -/
structure Coasting (cfg : Config) (rate : ℤ) (k : Kernel F) : Prop where
  offset : |val k.timeOffset| < 2 ^ (shiftPll + k.timeConstant).toNat
  ppsOffset : cfg.ppsSync = true → |val k.timeOffset| < 2 ^ k.pps.shift.toNat
  freq : nanosecond * 2 ^ 32 + val k.timeFreq = rate
  adj : val k.timeAdj = rate

/-- A tick, or a call of `ntp_adjtime()` that writes neither the offset nor the frequency. -/
def NoUpdate : Event → Prop
  | .tick => True
  | .adjtime tp => has tp.modes modOffset = false ∧ has tp.modes modFrequency = false
  | .hardupdate _ | .hardpps _ _ => False

/-- The call leaves the time constant alone. -/
def KeepsConstant : Event → Prop
  | .adjtime tp => has tp.modes modTimeconst = false
  | _ => True

/-- A tick without a leap second, or a call of `ntp_adjtime()` that moves neither the offset
nor the frequency nor the time constant and does not drop `STA_PLL`. -/
def Idle (cfg : Config) (c : Clock F) : Event → Prop
  | .tick => ¬ LeapDue cfg c
  | .adjtime tp => has tp.modes modOffset = false ∧ has tp.modes modFrequency = false ∧
      has tp.modes modTimeconst = false ∧ ¬ DropsPll c.k tp
  | .hardupdate _ | .hardpps _ _ => False

omit [LFp F] [LawfulLFp F] in
theorem NoUpdate.admissible {cfg : Config} {c : Clock F} {e : Event} (h : NoUpdate e) :
    Admissible cfg c e := by
  cases e with
  | hardpps tsp nsec => exact h.elim
  | _ => trivial

omit [LawfulLFp F] in
theorem Idle.noUpdate {cfg : Config} {c : Clock F} {e : Event} (h : Idle cfg c e) :
    NoUpdate e ∧ KeepsConstant e := by
  cases e with
  | tick => exact ⟨trivial, trivial⟩
  | adjtime tp => exact ⟨⟨h.1, h.2.1⟩, h.2.2.1⟩
  | hardupdate offset => exact h.elim
  | hardpps tsp nsec => exact h.elim

instance : DecidablePred NoUpdate
  | .tick => inferInstanceAs (Decidable True)
  | .adjtime _ => inferInstanceAs (Decidable (_ ∧ _))
  | .hardupdate _ | .hardpps _ _ => inferInstanceAs (Decidable False)

instance : DecidablePred KeepsConstant
  | .adjtime _ => inferInstanceAs (Decidable (_ = false))
  | .tick | .hardupdate _ | .hardpps _ _ => inferInstanceAs (Decidable True)

instance (cfg : Config) (c : Clock F) : (e : Event) → Decidable (Idle cfg c e)
  | .tick => inferInstanceAs (Decidable (¬ _))
  | .adjtime _ => inferInstanceAs (Decidable (_ ∧ _))
  | .hardupdate _ | .hardpps _ _ => inferInstanceAs (Decidable False)

/-- An observer that counts the ticks. -/
def countTicks (n : ℕ) (_ : Clock F) : Event → ℕ
  | .tick => n + 1
  | _ => n

/-! ### One tick -/

section Tick

variable {cfg : Config} {rate : ℤ} {k : Kernel F} {c : Clock F}

/-- Nothing of the offset is handed out, and the next second is as long as this one. -/
theorem Coasting.nextAdj (h : Coasting cfg rate k) (hk : Disciplined k) :
    Coasting cfg rate (nextAdj cfg k) ∧
      val (Nanokernel.nextAdj cfg k).timeOffset = val k.timeOffset := by
  obtain ⟨⟨-, -, hfreq, htc, hadj⟩, -, hshift, -⟩ := hk
  have hsmall : |val k.timeOffset| < 2 ^ amortShift cfg k := by
    unfold amortShift
    split_ifs with hpps
    · rw [Bool.and_eq_true] at hpps
      exact h.ppsOffset hpps.1
    · exact h.offset
  have hrange : 1 ≤ amortShift cfg k ∧ amortShift cfg k < 64 := by
    unfold amortShift
    unfold maxtc at htc
    unfold ppsFavg ppsFavgmax at hshift
    unfold shiftPll
    split_ifs <;> omega
  have hpow : (2 : ℤ) ^ amortShift cfg k ≤ 2 ^ 63 :=
    pow_le_pow_right₀ (by decide) (by omega)
  have hmin : -2 ^ 63 < val k.timeOffset := by
    have hlo := (abs_lt.mp hsmall).1
    omega
  obtain ⟨hoffset, hnext⟩ := val_nextAdj cfg hmin hrange
  rw [rest_of_abs_lt hsmall] at hoffset
  have hzero : (val k.timeOffset).tdiv (2 ^ amortShift cfg k) = 0 := by
    have hsplit := tdiv_add_rest (2 ^ amortShift cfg k) (val k.timeOffset)
    rw [rest_of_abs_lt hsmall] at hsplit
    omega
  have hrate : (0 + val k.timeFreq + nanosecond * 2 ^ 32).bmod (2 ^ 64) = rate := by
    have hsum : 0 + val k.timeFreq + nanosecond * 2 ^ 32 = rate := by
      rw [← h.freq]
      ring
    rw [hsum, ← h.adj]
    exact bmod_of_fits (by decide) (val_fits k.timeAdj)
  rw [hzero, hrate] at hnext
  refine ⟨⟨?_, ?_, h.freq, hnext⟩, hoffset⟩
  · rw [hoffset]
    exact h.offset
  · rw [hoffset]
    exact h.ppsOffset

theorem Coasting.rollover (h : Coasting cfg rate k) (hk : Disciplined k) (tvSec : ℤ) :
    Coasting cfg rate (rollover cfg k tvSec).1 ∧
      val (Nanokernel.rollover cfg k tvSec).1.timeOffset = val k.timeOffset := by
  have hleap : Coasting cfg rate (leapSecond (widenError cfg k) (tvSec + 1)).1 := by
    rw [leapSecond_frame]
    exact ⟨h.offset, h.ppsOffset, h.freq, h.adj⟩
  have hdisciplined : Disciplined (leapSecond (widenError cfg k) (tvSec + 1)).1 := by
    rw [leapSecond_frame]
    obtain ⟨he, hp⟩ := hk
    exact ⟨⟨he.monitor, he.offset, he.freq, he.constant, he.adj⟩, hp⟩
  have hkept : val (leapSecond (widenError cfg k) (tvSec + 1)).1.timeOffset
      = val k.timeOffset := by
    rw [leapSecond_frame]
    rfl
  obtain ⟨hnext, hoffset⟩ := hleap.nextAdj hdisciplined
  rw [rollover_eq, ppsWatchdog_frame]
  exact ⟨⟨hnext.offset, hnext.ppsOffset, hnext.freq, hnext.adj⟩, hoffset.trans hkept⟩

theorem Coasting.tick (h : Coasting cfg rate c.k) (hk : Disciplined c.k) :
    Coasting cfg rate (c.tick cfg).k ∧ val (c.tick cfg).k.timeOffset = val c.k.timeOffset := by
  have hadjust : Coasting cfg rate (ntpTickAdjust cfg c.k c.tv 0).1 :=
    ⟨h.offset, h.ppsOffset, h.freq, h.adj⟩
  obtain ⟨he, hp⟩ := hk
  have hdisciplined : Disciplined (ntpTickAdjust cfg c.k c.tv 0).1 :=
    ⟨⟨he.monitor, he.offset, he.freq, he.constant, he.adj⟩, hp⟩
  rcases tick_kernel cfg c with heq | heq
  · rw [heq]
    exact ⟨hadjust, rfl⟩
  · rw [heq]
    exact hadjust.rollover hdisciplined c.tv.tvSec

/-- Apart from a leap second the accumulator takes `time_adj`. -/
theorem tick_reckoning (hhz : 1 ≤ cfg.hz ∧ cfg.hz ≤ 100000) (h : Sound cfg c)
    (hfits : TickFits cfg c) (hno : ¬ LeapDue cfg c) :
    (c.tick cfg).reckoning = c.reckoning.count (cfg.hz * 2 ^ 32) (val c.k.timeAdj) := by
  have hadvance : (c.tick cfg).tv.nsec - c.tv.nsec = advance cfg c := by
    rw [← elapsed_of_tickFits hhz h hfits hno]
    unfold elapsed Timespec.nsec
    ring
  have hnsec := advance_eq hhz h
  have hrest : (c.tick cfg).k.timePhase = (tickPhase cfg c.k cfg.hz).1 := by
    rcases tick_kernel cfg c with heq | heq
    · rw [heq]
      rfl
    · rw [heq, rollover_timePhase]
      rfl
  unfold reckoning Accumulator.count
  rw [Accumulator.mk.injEq]
  refine ⟨?_, ?_⟩
  · dsimp only
    omega
  · rw [hrest]
    exact (tickPhase_eq cfg ⟨hhz.1, by omega⟩ h.2 h.1.1.adj).1

/-- With two ticks a second, or at a rate that is not fast, one carry a tick is enough. -/
theorem Coasting.carriesOnce (hhz : 1 ≤ cfg.hz) (h : Coasting cfg rate c.k)
    (hphase : PhaseRange cfg.hz (val c.k.timePhase)) (htv : c.tv.Normalised)
    (hslow : 2 ≤ cfg.hz ∨ rate ≤ nanosecond * 2 ^ 32) : CarriesOnce cfg c .tick := by
  rcases hslow with htwo | hrate
  · exact Or.inl htwo
  · rcases lt_or_ge cfg.hz 2 with hone | htwo
    · refine Or.inr ?_
      have hlt := hphase.2
      have hnsec := htv.2
      rw [h.adj]
      unfold nanosecond at *
      omega
    · exact Or.inl htwo

theorem Coasting.idle (h : Coasting cfg rate c.k) (hk : Disciplined c.k) {e : Event}
    (he : Idle cfg c e) : Coasting cfg rate (c.step cfg e).k := by
  cases e with
  | tick => exact (h.tick hk).1
  | adjtime tp =>
    obtain ⟨hoffset, hfreq, hconst, hdrops⟩ := he
    have hsel : ChangesSelected tp c.k (adjKernel cfg c.k c.tv.tvSec tp) :=
      changesSelected_adjKernel cfg tp c.k c.tv.tvSec
    have hstays : ¬ MovesLoop (adjKernel cfg c.k c.tv.tvSec tp) tp := by
      rintro ⟨hmoves, -⟩
      exact absurd (hoffset.symm.trans hmoves) Bool.false_ne_true
    show Coasting cfg rate (adjKernel cfg c.k c.tv.tvSec tp)
    refine ⟨?_, ?_, ?_, ?_⟩
    · rw [hsel.timeOffset hstays, hsel.timeConstant hconst]
      exact h.offset
    · rw [hsel.timeOffset hstays, hsel.shift hdrops]
      exact h.ppsOffset
    · rw [hsel.timeFreq hfreq hoffset]
      exact h.freq
    · rw [hsel.timeAdj]
      exact h.adj
  | hardupdate offset => exact he.elim
  | hardpps tsp nsec => exact he.elim

omit [LawfulLFp F] in
/-- Without an update the end of the last one stays where it was. -/
theorem NoUpdate.kept {e : Event} (he : NoUpdate e) (hconst : KeepsConstant e) :
    (c.step cfg e).k.timeReftime = c.k.timeReftime ∧
      (c.step cfg e).k.timeConstant = c.k.timeConstant := by
  cases e with
  | tick =>
    show (c.tick cfg).k.timeReftime = _ ∧ (c.tick cfg).k.timeConstant = _
    rcases tick_kernel cfg c with heq | heq
    · rw [heq]
      exact ⟨rfl, rfl⟩
    · rw [heq, rollover_frame]
      exact ⟨rfl, rfl⟩
  | adjtime tp =>
    have hsel : ChangesSelected tp c.k (c.step cfg (.adjtime tp)).k :=
      changesSelected_adjKernel cfg tp c.k c.tv.tvSec
    refine ⟨hsel.timeReftime ?_, hsel.timeConstant hconst⟩
    rintro ⟨hmoves, -⟩
    exact absurd (he.1.symm.trans hmoves) Bool.false_ne_true
  | hardupdate offset => exact he.elim
  | hardpps tsp nsec => exact he.elim

omit [LawfulLFp F] in
theorem Idle.kept {e : Event} (he : Idle cfg c e) :
    (c.step cfg e).k.timeReftime = c.k.timeReftime ∧
      (c.step cfg e).k.timeConstant = c.k.timeConstant :=
  he.noUpdate.1.kept he.noUpdate.2

/-- The accumulator gains a rate at every tick. -/
theorem tick_weight (hhz : 1 ≤ cfg.hz ∧ cfg.hz ≤ 100000) (h : Sound cfg c)
    (hcoast : Coasting cfg rate c.k) (hfits : TickFits cfg c) (hno : ¬ LeapDue cfg c) (n : ℕ) :
    (c.step cfg .tick).reckoning.weight (cfg.hz * 2 ^ 32)
      = c.reckoning.weight (cfg.hz * 2 ^ 32) + (countTicks n c .tick - n : ℤ) * rate := by
  show (c.tick cfg).reckoning.weight _ = _
  rw [tick_reckoning hhz h hfits hno, Accumulator.weight_count, hcoast.adj]
  unfold countTicks
  push_cast
  ring

theorem weight_of_not_tick {e : Event} (he : e ≠ .tick) (n : ℕ) :
    (c.step cfg e).reckoning.weight (cfg.hz * 2 ^ 32)
      = c.reckoning.weight (cfg.hz * 2 ^ 32) + (countTicks n c e - n : ℤ) * rate := by
  have hsame : (c.step cfg e).reckoning = c.reckoning := by
    unfold reckoning
    rw [step_timePhase he, step_tv he]
  have hcount : countTicks n c e = n := by
    cases e with
    | tick => exact absurd rfl he
    | _ => rfl
  rw [hsame, hcount]
  ring

theorem idle_weight (hhz : 1 ≤ cfg.hz ∧ cfg.hz ≤ 100000) (h : Sound cfg c)
    (hcoast : Coasting cfg rate c.k) {e : Event} (he : Idle cfg c e) (hkeeps : KeepsLong cfg c e)
    (n : ℕ) : (c.step cfg e).reckoning.weight (cfg.hz * 2 ^ 32)
      = c.reckoning.weight (cfg.hz * 2 ^ 32) + (countTicks n c e - n : ℤ) * rate := by
  cases e with
  | tick => exact tick_weight hhz h hcoast hkeeps he n
  | adjtime tp => exact weight_of_not_tick (by simp) n
  | hardupdate offset => exact he.elim
  | hardpps tsp nsec => exact he.elim

end Tick

section Runs

variable {cfg : Config} {c : Clock F} {es : List Event}

/-- What a run without an update keeps. -/
theorem coast_run (hhz : 1 ≤ cfg.hz ∧ cfg.hz ≤ 100000) {rate : ℤ}
    (hsound : Sound cfg c) (hcoast : Coasting cfg rate c.k)
    (hes : Along (step cfg) (Idle cfg) c es) :
    Sound cfg (run (step cfg) c es) ∧ Coasting cfg rate (run (step cfg) c es).k := by
  refine run_invariant (I := fun s : Clock F => Sound cfg s ∧ Coasting cfg rate s.k) ?_
    ⟨hsound, hcoast⟩ hes
  rintro s e ⟨hs, hcoast⟩ he
  exact ⟨step_sound hhz hs he.noUpdate.1.admissible, hcoast.idle hs.1 he⟩

/-- What its ticks add up to. -/
theorem coast_weight (hhz : 1 ≤ cfg.hz ∧ cfg.hz ≤ 100000) {rate : ℤ}
    (hsound : Sound cfg c) (hcoast : Coasting cfg rate c.k)
    (hes : Along (step cfg) (Idle cfg) c es) (hkeeps : Along (step cfg) (KeepsLong cfg) c es) :
    (run (step cfg) c es).reckoning.weight (cfg.hz * 2 ^ 32)
      = c.reckoning.weight (cfg.hz * 2 ^ 32)
        + (observed (step cfg) countTicks c 0 es : ℕ) * rate := by
  have hstep : ∀ (s : Clock F) (n : ℕ) e,
      Sound cfg s ∧ Coasting cfg rate s.k ∧ s.reckoning.weight (cfg.hz * 2 ^ 32)
        = c.reckoning.weight (cfg.hz * 2 ^ 32) + n * rate →
      Idle cfg s e ∧ KeepsLong cfg s e →
      Sound cfg (s.step cfg e) ∧ Coasting cfg rate (s.step cfg e).k ∧
        (s.step cfg e).reckoning.weight (cfg.hz * 2 ^ 32)
          = c.reckoning.weight (cfg.hz * 2 ^ 32) + (countTicks n s e : ℕ) * rate := by
    rintro s n e ⟨hs, hcoast, hweight⟩ ⟨he, hkeeps⟩
    refine ⟨step_sound hhz hs he.noUpdate.1.admissible, hcoast.idle hs.1 he, ?_⟩
    rw [idle_weight hhz hs hcoast he hkeeps n, hweight]
    ring
  exact (observed_invariant hstep ⟨hsound, hcoast, by rw [Nat.cast_zero]; ring⟩
    (along_and hes hkeeps)).2.2

/-- From a normalised clock such a run has room for every tick, unless the clock ticks once
a second and is fast. -/
theorem along_keepsLong_of_coasting (hhz : 1 ≤ cfg.hz ∧ cfg.hz ≤ 100000) {rate : ℤ}
    (hsound : Sound cfg c) (hcoast : Coasting cfg rate c.k) (htv : c.tv.Normalised)
    (hslow : 2 ≤ cfg.hz ∨ rate ≤ nanosecond * 2 ^ 32)
    (hes : Along (step cfg) (Idle cfg) c es) : Along (step cfg) (KeepsLong cfg) c es := by
  have hcarries : ∀ (s : Clock F) e,
      Sound cfg s ∧ Coasting cfg rate s.k ∧ s.tv.Normalised → CarriesOnce cfg s e := by
    rintro s e ⟨hs, hcoast, htv⟩
    cases e with
    | tick => exact hcoast.carriesOnce hhz.1 hs.2 htv hslow
    | _ => trivial
  refine along_of_invariant
    (I := fun s : Clock F => Sound cfg s ∧ Coasting cfg rate s.k ∧ s.tv.Normalised) ?_ ?_
    ⟨hsound, hcoast, htv⟩ hes
  · rintro s e ⟨hs, hcoast, htv⟩ he
    have hnorm := (staysNormalised_iff_carriesOnce hhz hs htv e).mpr
      (hcarries s e ⟨hs, hcoast, htv⟩)
    have hsound := step_sound hhz hs he.noUpdate.1.admissible
    exact ⟨hsound, hcoast.idle hs.1 he, step_normalised htv hnorm⟩
  · intro s e hs _
    exact keepsLong_of_carriesOnce hhz hs.1 hs.2.2 (hcarries s e hs)

end Runs

/-- Without an update, a clock whose offset is paid out keeps its rate through every run of
ticks and of calls that only read or write status and error, and the time after any number of
ticks is known to the last fraction: nothing is lost however long that goes on. The nanoseconds
have to fit their `long` on the way, as those of a normalised clock do unless it ticks once a
second and is fast. -/
theorem holdover (cfg : Config) (hhz : 1 ≤ cfg.hz ∧ cfg.hz ≤ 100000) (rate : ℤ) (c : Clock F)
    (hsound : Sound cfg c) (hcoast : Coasting cfg rate c.k) (es : List Event)
    (hes : Along (step cfg) (Idle cfg) c es)
    (hroom : c.tv.Normalised ∧ (2 ≤ cfg.hz ∨ rate ≤ nanosecond * 2 ^ 32) ∨
      Along (step cfg) (KeepsLong cfg) c es) :
    let c' := run (step cfg) c es
    let ticks : ℤ := (observed (step cfg) countTicks c 0 es : ℕ)
    c'.tv.nsec = c.tv.nsec + (val c.k.timePhase + ticks * rate) / (cfg.hz * 2 ^ 32) ∧
      val c'.k.timePhase = (val c.k.timePhase + ticks * rate) % (cfg.hz * 2 ^ 32) ∧
      Coasting cfg rate c'.k := by
  intro c' ticks
  have hkeeps : Along (step cfg) (KeepsLong cfg) c es := by
    rcases hroom with ⟨htv, hslow⟩ | hkeeps
    · exact along_keepsLong_of_coasting hhz hsound hcoast htv hslow hes
    · exact hkeeps
  obtain ⟨hend, hcoast'⟩ := coast_run hhz hsound hcoast hes
  have hsplit : c'.reckoning.weight (cfg.hz * 2 ^ 32)
      = cfg.hz * 2 ^ 32 * c.tv.nsec + (val c.k.timePhase + ticks * rate) := by
    rw [coast_weight hhz hsound hcoast hes hkeeps]
    unfold Accumulator.weight reckoning
    ring
  obtain ⟨htotal, hrest⟩ := Accumulator.of_weight_eq (s := c'.reckoning) hend.2 hsplit
  exact ⟨htotal, hrest, hcoast'⟩

/-- A clock 100 ppm fast, a second after it was told so. -/
def fastClock : Clock LFp32 :=
  run (step oneHertz32) ⟨Kernel.boot oneHertz32, ⟨1000000, 0⟩⟩
    [.adjtime { modes := modFrequency, freq := 100000 * scalePpm }, .tick]

theorem fastClock_sound : Sound oneHertz32 fastClock :=
  run_invariant (P := Admissible oneHertz32) (fun _ _ h he => step_sound (by decide) h he)
    (sound_of_boots (by decide) rfl) ⟨trivial, trivial, trivial⟩

theorem fastClock_coasting : Coasting oneHertz32 (1000100000 * 2 ^ 32) fastClock.k := by
  constructor <;> decide +kernel

/-- Three seconds, in which the daemon gives up its server. -/
def lostServer : List Event :=
  [.tick, .adjtime { modes := modStatus, status := staUnsync }, .tick, .tick]

theorem holdover_lostServer :
    (run (step oneHertz32) fastClock lostServer).tv.nsec = fastClock.tv.nsec + 3000300000 := by
  have hend := (holdover oneHertz32 (by decide) (1000100000 * 2 ^ 32) fastClock fastClock_sound
    fastClock_coasting lostServer (by decide +kernel) (Or.inr (by decide +kernel))).1
  rw [hend]
  decide +kernel

end Clock

end Nanokernel
