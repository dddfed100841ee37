import Nanokernel.Kernel.FllEstimator
import Nanokernel.Kernel.Holdover
import Nanokernel.Kernel.PpsWatchdog
import Nanokernel.Rtems.StatusUpdates

/-!
# Starting again

`rtemsNtpInitialize` may be called again after a shutdown, and finds the variables of `ktime.c`
as the last run left them. It clears the loop, so the clock counts exactly from the time that
the server gave, whatever ran before (`restart_exact`). What it does not clear is
`time_reftime`: the first update after a restart takes all the time since the last clock
stopped for the interval in which its offset came up (`restart_update`).
-/

namespace Nanokernel

open BitMask Decay Run SignedWord

/-- What `rtemsNtpInitialize` passes to `ntp_adjtime`. -/
def initialTimex : Timex where
  modes := modStatus ||| modNano ||| modTimeconst ||| modOffset ||| modFrequency
  offset := 0
  freq := 0
  status := staPll ||| staUnsync
  constant := secs2tcld daemonSyncIntervalSecs

variable {F : Type} [LFp F]

namespace Clock

/-- `rtemsNtpInitialize()`, as far as the clock goes. Without an answer from the server it
gives up before the tasks are started, and `TIMEVAR` stays. -/
def rtemsNtpInitialize (cfg : Config) (c : Clock F) (answer : Option Timespec) : Clock F × ℤ :=
  let k := ntpInit cfg c.k
  let k := (ntpAdjtime cfg k c.tv.tvSec initialTimex).1
  match answer with
  | none => (⟨k, c.tv⟩, -1)
  | some initime => (⟨k, initime⟩, 0)

/-- The clock, and whether `ntp_init` has been called. -/
structure Program (F : Type) where
  clock : Clock F
  up : Bool
deriving DecidableEq, Repr

/-- A call of the kernel, or a start. -/
inductive LifeEvent where
  | call (e : Event)
  | start (answer : Option Timespec)
deriving DecidableEq, Repr

/-- The memory as the loader sets it up. -/
def loaded : Program F := ⟨⟨Kernel.static, ⟨0, 0⟩⟩, false⟩

def lifeStep (cfg : Config) (p : Program F) : LifeEvent → Program F
  | .call e => { p with clock := p.clock.step cfg e }
  | .start answer => ⟨(p.clock.rtemsNtpInitialize cfg answer).1, true⟩

/-- Nobody calls the kernel before it is initialised. -/
def LifeAdmissible (cfg : Config) (p : Program F) : LifeEvent → Prop
  | .call e => p.up = true ∧ Admissible cfg p.clock e
  | .start _ => True

instance (cfg : Config) (p : Program F) : (e : LifeEvent) → Decidable (LifeAdmissible cfg p e)
  | .call _ => inferInstanceAs (Decidable (_ ∧ Admissible cfg p.clock _))
  | .start _ => inferInstanceAs (Decidable True)

theorem rtemsNtpInitialize_k (cfg : Config) (c : Clock F) (answer : Option Timespec) :
    (c.rtemsNtpInitialize cfg answer).1.k
      = adjKernel cfg (ntpInit cfg c.k) c.tv.tvSec initialTimex := by
  cases answer <;> rfl

/-! ### The loop after a start -/

section Start

variable (cfg : Config) (k : Kernel F) (tvSec : ℤ)

theorem ntpInit_frame : ntpInit cfg k = { k with
    timeTick := nanosecond.tdiv cfg.hz
    timeOffset := lClr
    timeFreq := lClr
    timeAdj := lLint nanosecond
    timePhase := lClr
    pps := (ntpInit cfg k).pps } := by
  unfold ntpInit
  split_ifs <;> rfl

omit [LFp F] in
/-- The flags as the caller sets them; those of the PPS discipline are clear. -/
theorem adjBeforeOffset_initial {m : BitVec 32} (hm : Writable m) :
    (adjBeforeOffset cfg initialTimex k).timeStatus &&& m
      = (staPll ||| staUnsync) &&& m := by
  unfold adjBeforeOffset
  rw [adjClock_status _ _ hm, adjConstant_frame]
  exact adjStatus_status cfg initialTimex _ hm

omit [LFp F] in
theorem has_initial {m : BitVec 32} (hm : Writable m) :
    has (adjBeforeOffset cfg initialTimex k).timeStatus m = has (staPll ||| staUnsync) m :=
  has_eq_of_and_eq (adjBeforeOffset_initial cfg k hm)

/-- The loop is loaded with zero, in the unit of either kind of offset. -/
theorem adjKernel_initial : adjKernel cfg k tvSec initialTimex
    = adjFrequency cfg initialTimex
        (hardupdate cfg (adjBeforeOffset cfg initialTimex k) tvSec 0) := by
  have hzero : adjNsec cfg initialTimex (adjBeforeOffset cfg initialTimex k) = 0 := by
    unfold adjNsec
    split_ifs
    · rfl
    · exact cfg.long_of_fits (by decide)
  rw [adjKernel_eq_beforeOffset, adjOffset_of_modOffset cfg _ _ _ (by decide), hzero]

variable [LawfulLFp F]

/-- What `rtemsNtpInitialize` makes of the loop, whatever it finds. -/
structure Started (tvSec : ℤ) (k : Kernel F) : Prop where
  offset : val k.timeOffset = 0
  freq : val k.timeFreq = 0
  adj : val k.timeAdj = nanosecond * 2 ^ 32
  phase : val k.timePhase = 0
  constant : k.timeConstant = 2
  /-- The seconds it finds on the clock. -/
  reftime : k.timeReftime = tvSec

theorem started_adjKernel : Started tvSec
    (adjKernel cfg (ntpInit cfg k) tvSec initialTimex) := by
  have hsel := changesSelected_adjKernel cfg initialTimex (ntpInit cfg k) tvSec
  have hpll : has (adjBeforeOffset cfg initialTimex (ntpInit cfg k)).timeStatus staPll
      = true := has_initial cfg _ (by decide)
  have hpps : ppsTime (adjBeforeOffset cfg initialTimex (ntpInit cfg k)) = false := by
    unfold ppsTime
    rw [has_initial cfg _ (by decide)]
    rfl
  have hzero : val (lLint 0 : F) = 0 := val_lLint_of_fits (by decide)
  refine ⟨?_, ?_, ?_, ?_, ?_, ?_⟩
  · rw [adjKernel_initial, adjFrequency_frame]
    exact (congrArg val (hardupdate_timeOffset cfg tvSec 0 hpll hpps)).trans hzero
  · rw [adjKernel_initial]
    unfold adjFrequency
    rw [if_neg (by decide)]
    dsimp only
    split_ifs <;> exact hzero
  · rw [hsel.timeAdj, ntpInit_frame]
    exact val_lLint_of_fits (by decide)
  · rw [hsel.timePhase, ntpInit_frame]
    exact val_lClr
  · rw [adjKernel_initial, adjFrequency_frame]
    show (hardupdate _ _ _ _).timeConstant = 2
    rw [hardupdate_frame]
    show (adjBeforeOffset cfg initialTimex (ntpInit cfg k)).timeConstant = 2
    unfold adjBeforeOffset
    rw [adjClock_frame]
    show (adjConstant _ _ _).timeConstant = 2
    rw [adjConstant_timeConstant, if_pos (by decide)]
    decide
  · rw [adjKernel_initial, adjFrequency_frame]
    exact hardupdate_timeReftime cfg _ tvSec hpll

end Start

/-! ### The life of the program -/

section Life

variable [LawfulLFp F] {cfg : Config}

/-- `ntp_init` brings the loop back into its range. -/
theorem ntpInit_disciplined {k : Kernel F} (h : Disciplined k) :
    Disciplined (ntpInit cfg k) := by
  obtain ⟨hboot, hpps⟩ : Disciplined (Kernel.boot cfg : Kernel F) := boot_disciplined cfg
  obtain ⟨hk, hkpps⟩ := h
  have hfreq : |lGint (lClr : F)| ≤ maxfreq := by
    have hclear : (Kernel.boot cfg : Kernel F).timeFreq = lClr := by
      unfold Kernel.boot
      rw [ntpInit_frame]
    rw [← hclear]
    exact hboot.freq
  have hzero : PulseRange ⟨0, 0⟩ := by
    unfold PulseRange
    decide
  refine ⟨?_, ?_⟩
  · unfold Kernel.boot at hboot
    rw [ntpInit_frame] at hboot ⊢
    exact ⟨hk.monitor, hboot.offset, hboot.freq, hk.constant, hboot.adj⟩
  · unfold ntpInit
    dsimp only
    split_ifs
    · exact ⟨hfreq, hkpps.shift, hkpps.shiftmax, hzero, hzero, hzero⟩
    · exact hkpps

theorem started (c : Clock F) (answer : Option Timespec) :
    Started c.tv.tvSec (c.rtemsNtpInitialize cfg answer).1.k := by
  rw [rtemsNtpInitialize_k]
  exact started_adjKernel cfg c.k c.tv.tvSec

theorem start_sound (hhz : 1 ≤ cfg.hz) {c : Clock F}
    (h : Disciplined (ntpInit cfg c.k)) (answer : Option Timespec) :
    Sound cfg (c.rtemsNtpInitialize cfg answer).1 := by
  refine ⟨?_, ?_⟩
  · rw [rtemsNtpInitialize_k]
    exact adjKernel_disciplined h cfg c.tv.tvSec initialTimex
  · rw [(started c answer).phase]
    exact ⟨le_refl 0, by omega⟩

/-- Between the starts the clock is in range; before the first one the memory is untouched. -/
def Alive (cfg : Config) (p : Program F) : Prop :=
  if p.up then Sound cfg p.clock else p = loaded

theorem Alive.ntpInit {p : Program F} (h : Alive cfg p) :
    Disciplined (Nanokernel.ntpInit cfg p.clock.k) := by
  unfold Alive at h
  split_ifs at h with hup
  · exact ntpInit_disciplined h.1
  · rw [h]
    exact boot_disciplined cfg

/-- However often the program is started, its clock stays in range. -/
theorem life_alive (hhz : 1 ≤ cfg.hz ∧ cfg.hz ≤ 100000) {life : List LifeEvent}
    (hlife : Along (lifeStep cfg) (LifeAdmissible cfg) (loaded : Program F) life) :
    Alive cfg (run (lifeStep cfg) (loaded : Program F) life) := by
  have hstep : ∀ (p : Program F) e, Alive cfg p → LifeAdmissible cfg p e →
      Alive cfg (lifeStep cfg p e) := by
    intro p e hp he
    cases e with
    | call e =>
      obtain ⟨hup, he⟩ := he
      have hsound : Sound cfg p.clock := (if_pos hup).mp hp
      exact (if_pos hup).mpr (step_sound hhz hsound he)
    | start answer => exact (if_pos rfl).mpr (start_sound hhz.1 hp.ntpInit answer)
  exact run_invariant hstep (if_neg Bool.false_ne_true |>.mpr rfl) hlife

/-! ### Until the first update -/

/-- A call of `ntp_adjtime()` that asks for a leap second. -/
def Announces : Event → Prop
  | .adjtime tp => has tp.modes modStatus = true ∧ has tp.status (staIns ||| staDel) = true
  | _ => False

instance : DecidablePred Announces
  | .adjtime _ => inferInstanceAs (Decidable (_ ∧ _))
  | .tick | .hardupdate _ | .hardpps _ _ => inferInstanceAs (Decidable False)

/-- No second is inserted or deleted. -/
def NoLeap (cfg : Config) (c : Clock F) (e : Event) : Prop := e = .tick → ¬ LeapDue cfg c

instance (cfg : Config) (c : Clock F) (e : Event) : Decidable (NoLeap cfg c e) :=
  inferInstanceAs (Decidable (_ → _))

/-- The loop has nothing to do, so seconds are nominal whatever time constant and flags it is
given. -/
structure Rested (cfg : Config) (c : Clock F) : Prop where
  sound : Sound cfg c
  normalised : c.tv.Normalised
  offset : val c.k.timeOffset = 0
  freq : val c.k.timeFreq = 0
  adj : val c.k.timeAdj = nanosecond * 2 ^ 32

section Rested

variable {c : Clock F} {e : Event}

omit [LawfulLFp F] in
/-- The flags of a leap second come from a caller. -/
theorem armed_step (h : c.armed = false) (he : ¬ Announces e) :
    (c.step cfg e).armed = false := by
  have hwritable : Writable (staIns ||| staDel) := by decide
  by_cases hwrites : ∃ tp, e = .adjtime tp ∧ has tp.modes modStatus = true
  · obtain ⟨tp, rfl, hstatus⟩ := hwrites
    have hmerge := adjKernel_status cfg tp c.k c.tv.tvSec hwritable
    rw [if_pos hstatus] at hmerge
    have hquiet : has tp.status (staIns ||| staDel) = false :=
      Bool.eq_false_iff.mpr fun hset => he ⟨hstatus, hset⟩
    exact (has_eq_of_and_eq hmerge).trans hquiet
  · have hkept : (c.step cfg e).k.timeStatus &&& (staIns ||| staDel)
        = c.k.timeStatus &&& (staIns ||| staDel) := by
      apply step_status hwritable
      intro tp htp
      exact Bool.eq_false_iff.mpr fun hset => hwrites ⟨tp, htp, hset⟩
    exact (has_eq_of_and_eq hkept).trans h

omit [LawfulLFp F] in
theorem not_leapDue_of_unarmed (h : c.armed = false) : ¬ LeapDue cfg c := by
  have hboth : has c.k.timeStatus staIns = false ∧ has c.k.timeStatus staDel = false := by
    rw [← Bool.or_eq_false_iff, ← has_or]
    exact h
  rintro ⟨-, ⟨-, hins, -⟩ | ⟨-, hdel, -⟩⟩
  · exact absurd (hboth.1.symm.trans hins) Bool.false_ne_true
  · exact absurd (hboth.2.symm.trans hdel) Bool.false_ne_true

omit [LawfulLFp F] in
theorem along_noLeap {es : List Event} (h : c.armed = false) (hes : ∀ e ∈ es, ¬ Announces e) :
    Along (step cfg) (NoLeap cfg) c es := by
  have hquiet : Along (step cfg) (fun _ e => ¬ Announces e) c es :=
    along_of_forall fun e he _ => hes e he
  refine along_of_invariant (I := fun c : Clock F => c.armed = false) ?_ ?_ h hquiet
  · exact fun _ _ => armed_step
  · exact fun _ _ hc _ _ => not_leapDue_of_unarmed hc

theorem Rested.coasting (h : Rested cfg c) : Coasting cfg (nanosecond * 2 ^ 32) c.k where
  offset := by
    rw [h.offset]
    exact pow_pos (by decide) _
  ppsOffset := fun _ => by
    rw [h.offset]
    exact pow_pos (by decide) _
  freq := by
    rw [h.freq]
    exact add_zero _
  adj := h.adj

/-- Seconds are not fast, so a tick never makes two. -/
theorem Rested.carriesOnce (hhz : 1 ≤ cfg.hz ∧ cfg.hz ≤ 100000) (h : Rested cfg c) (e : Event) :
    CarriesOnce cfg c e := by
  cases e with
  | tick => exact h.coasting.carriesOnce hhz.1 h.sound.2 h.normalised (Or.inr (le_refl _))
  | _ => trivial

theorem Rested.step (hhz : 1 ≤ cfg.hz ∧ cfg.hz ≤ 100000) (h : Rested cfg c)
    (he : NoUpdate e) : Rested cfg (c.step cfg e) := by
  have hsound : Sound cfg (c.step cfg e) := step_sound hhz h.sound he.admissible
  have htv : (c.step cfg e).tv.Normalised := step_normalised h.normalised
    ((staysNormalised_iff_carriesOnce hhz h.sound h.normalised e).mpr (h.carriesOnce hhz e))
  cases e with
  | tick =>
    obtain ⟨hcoast, hoffset⟩ := h.coasting.tick h.sound.1
    exact ⟨hsound, htv, hoffset.trans h.offset, add_eq_left.mp hcoast.freq, hcoast.adj⟩
  | adjtime tp =>
    obtain ⟨hoffset, hfreq⟩ := he
    have hsel : ChangesSelected tp c.k (c.step cfg (.adjtime tp)).k :=
      changesSelected_adjKernel cfg tp c.k c.tv.tvSec
    have hstays : ¬ MovesLoop (c.step cfg (.adjtime tp)).k tp := by
      rintro ⟨hmoves, -⟩
      exact absurd (hoffset.symm.trans hmoves) Bool.false_ne_true
    refine ⟨hsound, htv, ?_, ?_, ?_⟩
    · rw [hsel.timeOffset hstays]
      exact h.offset
    · rw [hsel.timeFreq hfreq hoffset]
      exact h.freq
    · rw [hsel.timeAdj]
      exact h.adj
  | hardupdate offset => exact he.elim
  | hardpps tsp nsec => exact he.elim

/-- A tick is a nominal one. -/
theorem Rested.weight (hhz : 1 ≤ cfg.hz ∧ cfg.hz ≤ 100000) (h : Rested cfg c)
    (he : NoUpdate e) (hno : NoLeap cfg c e) (n : ℕ) :
    (c.step cfg e).reckoning.weight (cfg.hz * 2 ^ 32)
      = c.reckoning.weight (cfg.hz * 2 ^ 32)
        + (countTicks n c e - n : ℤ) * (nanosecond * 2 ^ 32) := by
  cases e with
  | tick =>
    have hfits : TickFits cfg c :=
      keepsLong_of_carriesOnce hhz h.sound h.normalised (h.carriesOnce hhz .tick)
    exact tick_weight hhz h.sound h.coasting hfits (hno rfl) n
  | adjtime tp => exact weight_of_not_tick (by simp) n
  | hardupdate offset => exact he.elim
  | hardpps tsp nsec => exact he.elim

theorem Rested.run (hhz : 1 ≤ cfg.hz ∧ cfg.hz ≤ 100000) (h : Rested cfg c) {es : List Event}
    (hes : ∀ e ∈ es, NoUpdate e) (hno : Along (Clock.step cfg) (NoLeap cfg) c es) :
    Rested cfg (Run.run (Clock.step cfg) c es) ∧
      (Run.run (Clock.step cfg) c es).reckoning.weight (cfg.hz * 2 ^ 32)
        = c.reckoning.weight (cfg.hz * 2 ^ 32)
          + (observed (Clock.step cfg) countTicks c 0 es : ℕ) * (nanosecond * 2 ^ 32) := by
  have hstep : ∀ (s : Clock F) (n : ℕ) e,
      Rested cfg s ∧ s.reckoning.weight (cfg.hz * 2 ^ 32)
        = c.reckoning.weight (cfg.hz * 2 ^ 32) + n * (nanosecond * 2 ^ 32) →
      NoUpdate e ∧ NoLeap cfg s e →
      Rested cfg (s.step cfg e) ∧ (s.step cfg e).reckoning.weight (cfg.hz * 2 ^ 32)
        = c.reckoning.weight (cfg.hz * 2 ^ 32)
          + (countTicks n s e : ℕ) * (nanosecond * 2 ^ 32) := by
    rintro s n e ⟨hs, hweight⟩ ⟨he, hno⟩
    refine ⟨hs.step hhz he, ?_⟩
    rw [hs.weight hhz he hno n, hweight]
    ring
  have hcalls : Along (Clock.step cfg) (fun _ e => NoUpdate e) c es :=
    along_of_forall fun e he _ => hes e he
  exact observed_invariant hstep ⟨h, by rw [Nat.cast_zero]; ring⟩ (along_and hcalls hno)

end Rested

section Start

variable {c : Clock F}

omit [LawfulLFp F] in
/-- What was announced before a start is forgotten. -/
theorem start_unarmed (answer : Option Timespec) :
    (c.rtemsNtpInitialize cfg answer).1.armed = false := by
  have hmerge := adjKernel_status cfg initialTimex (ntpInit cfg c.k) c.tv.tvSec
    (show Writable (staIns ||| staDel) by decide)
  rw [if_pos (by decide)] at hmerge
  unfold armed
  rw [rtemsNtpInitialize_k]
  exact has_eq_of_and_eq hmerge

theorem start_rested (hhz : 1 ≤ cfg.hz) (h : Disciplined (ntpInit cfg c.k)) {initime : Timespec}
    (hinit : initime.Normalised) : Rested cfg (c.rtemsNtpInitialize cfg (some initime)).1 :=
  have hstarted : Started c.tv.tvSec (c.rtemsNtpInitialize cfg (some initime)).1.k :=
    started c (some initime)
  ⟨start_sound hhz h (some initime), hinit, hstarted.offset, hstarted.freq, hstarted.adj⟩

end Start

/-- From a start on, the clock inserts or deletes a second only if that has been announced
since. Apart from this, and until the first update, it is the time of the server and the ticks
since, whatever the program did before. -/
theorem restart_exact (cfg : Config) (hhz : 1 ≤ cfg.hz ∧ cfg.hz ≤ 100000)
    (life : List LifeEvent)
    (hlife : Along (lifeStep cfg) (LifeAdmissible cfg) (loaded : Program F) life)
    (initime : Timespec) (hinit : initime.Normalised) :
    let c := ((run (lifeStep cfg) (loaded : Program F) life).clock.rtemsNtpInitialize cfg
      (some initime)).1
    ∀ es, ((∀ e ∈ es, ¬ Announces e) → Along (step cfg) (NoLeap cfg) c es) ∧
      ((∀ e ∈ es, NoUpdate e) → Along (step cfg) (NoLeap cfg) c es →
        (run (step cfg) c es).tv.nsec = initime.nsec
          + (observed (step cfg) countTicks c 0 es : ℕ) * nanosecond / cfg.hz) := by
  intro c es
  refine ⟨along_noLeap (start_unarmed (some initime)), ?_⟩
  intro hes hno
  have hstarted : Started _ c.k := started _ (some initime)
  have hrested : Rested cfg c := start_rested hhz.1 (life_alive hhz hlife).ntpInit hinit
  obtain ⟨hend, hweight⟩ := hrested.run hhz hes hno
  have hsplit : (run (step cfg) c es).reckoning.weight (cfg.hz * 2 ^ 32)
      = cfg.hz * 2 ^ 32 * initime.nsec
        + (observed (step cfg) countTicks c 0 es : ℕ) * nanosecond * 2 ^ 32 := by
    rw [hweight]
    unfold Accumulator.weight reckoning
    rw [hstarted.phase]
    show _ * initime.nsec + 0 + _ = _
    ring
  obtain ⟨htotal, -⟩ :=
    Accumulator.of_weight_eq (s := (run (step cfg) c es).reckoning) hend.sound.2 hsplit
  rw [Int.mul_ediv_mul_of_pos_left _ _ (by decide)] at htotal
  exact htotal

/-- The board is told of a leap second, is off for a minute before midnight and starts again. -/
def powerCut : List LifeEvent :=
  [.start (some ⟨86330, 0⟩), .call (.adjtime { modes := modStatus, status := staPll ||| staIns }),
    .call .tick, .call .tick]

def restarted (cfg : Config) : Clock F :=
  ((run (lifeStep cfg) (loaded : Program F) powerCut).clock.rtemsNtpInitialize cfg
    (some ⟨86398, 250000000⟩)).1

/-- The second that was announced is not inserted. -/
theorem restart_exact_powerCut :
    (run (step twoHertz) (restarted twoHertz : Clock LFp32) [.tick, .tick, .tick, .tick]).tv.nsec
      = Timespec.nsec ⟨86398, 250000000⟩ + 4 * nanosecond / 2 := by
  obtain ⟨hquiet, hexact⟩ := restart_exact (F := LFp32) twoHertz (by decide) powerCut
    (by decide +kernel) ⟨86398, 250000000⟩ (by decide) [.tick, .tick, .tick, .tick]
  exact hexact (by decide) (hquiet (by decide))

end Life

/-! ### The first update -/

/-- The loop takes an update from the daemon. -/
structure Accepts (k : Kernel LFp64) : Prop where
  pll : has k.timeStatus staPll = true
  free : has k.timeStatus staFreqhold = false
  noPpsTime : ppsTime k = false
  noPpsFreq : ppsFrequency k = false

/-- `mtemp` of the first update after a start that found `found` seconds on the clock. -/
def firstInterval (found tvSec : ℤ) : ℤ := if found = 0 then 0 else tvSec - found

/-- What the first update makes of the frequency: `x` is the offset, within its limit. -/
def firstFreq (k : Kernel LFp64) (mtemp x : ℤ) : ℤ :=
  clampSum (mtemp * x * 2 ^ 16 + if fllSelected k mtemp then fllGain x mtemp else 0)

/-- Both terms have the sign of the offset, so together they reach the limit as soon as one
of them does. -/
theorem abs_firstFreq {k : Kernel LFp64} {mtemp x : ℤ}
    (hbig : (maxfreq + 1) * 2 ^ 16 ≤ mtemp * |x|) : |firstFreq k mtemp x| = maxfreq * 2 ^ 32 := by
  unfold maxfreq at hbig
  unfold firstFreq clampSum maxfreq
  rcases le_total 0 x with hx | hx
  · rw [abs_of_nonneg hx] at hbig
    have hfll : 0 ≤ if fllSelected k mtemp then fllGain x mtemp else 0 := by
      split_ifs with hsel
      · exact (fllGain_nonneg (le_of_fllSelected hsel) hx).1
      · exact le_refl 0
    rw [if_pos (by omega)]
    decide
  · rw [abs_of_nonpos hx, mul_neg] at hbig
    have hfll : (if fllSelected k mtemp then fllGain x mtemp else 0) ≤ 0 := by
      split_ifs with hsel
      · exact fllGain_nonpos (le_of_fllSelected hsel) hx
      · exact le_refl 0
    rw [if_neg (by omega), if_pos (by omega)]
    decide

section FirstUpdate

variable {cfg : Config} {k : Kernel LFp64} {found tvSec offset : ℤ}

theorem Accepts.loopOffset (h : Accepts k) (offset : ℤ) :
    loopOffset k offset = clamp maxphase offset := by
  unfold Nanokernel.loopOffset
  rw [h.noPpsTime]
  exact if_neg Bool.false_ne_true

theorem Accepts.interval (h : Accepts k) (href : k.timeReftime = found) :
    updateInterval k tvSec = firstInterval found tvSec := by
  unfold updateInterval firstInterval
  rw [h.free, href, Bool.false_or]
  simp only [beq_iff_eq]

/-- The terms of an update at the time constant of a start. -/
theorem Accepts.terms (h : Accepts k) (href : k.timeReftime = found)
    (hconst : k.timeConstant = 2)
    (hroom : fllSelected k (firstInterval found tvSec) = true →
      cfg.Fits (clamp maxphase offset * 16)) :
    let mtemp := firstInterval found tvSec
    pllStep k tvSec offset = mtemp * clamp maxphase offset * 2 ^ 16 ∧
      fllStep cfg k tvSec offset
        = if fllSelected k mtemp then fllGain (clamp maxphase offset) mtemp else 0 := by
  intro mtemp
  have hgain : pllGain (clamp maxphase offset) 2 = clamp maxphase offset * 2 ^ 16 := by
    have hpow : clamp maxphase offset * 2 ^ 32 = clamp maxphase offset * 2 ^ 16 * 2 ^ 16 := by
      ring
    unfold pllGain
    rw [hpow]
    exact Int.mul_tdiv_cancel _ (by decide)
  refine ⟨?_, ?_⟩
  · unfold pllStep
    rw [h.loopOffset, h.interval href, hconst, hgain, mul_assoc]
  · unfold fllStep fllGain
    rw [h.loopOffset, h.interval href]
    split_ifs with hsel
    · rw [long_prescaled (hroom hsel), mul_comm 16]
      rfl
    · rfl

theorem Accepts.freq (h : Accepts k) (hk : Envelope k) (href : k.timeReftime = found)
    (hconst : k.timeConstant = 2) (hfreq : val k.timeFreq = 0)
    (h0 : 0 ≤ firstInterval found tvSec) (hle : firstInterval found tvSec ≤ 281344)
    (hroom : fllSelected k (firstInterval found tvSec) = true →
      cfg.Fits (clamp maxphase offset * 16)) :
    val (hardupdate cfg k tvSec offset).timeFreq
      = firstFreq k (firstInterval found tvSec) (clamp maxphase offset) := by
  obtain ⟨hpllStep, hfllStep⟩ := h.terms href hconst hroom
  have hinterval : updateInterval k tvSec = firstInterval found tvSec := h.interval href
  have hfits : FreqSumFits cfg k tvSec offset := by
    refine freqSumFits_of_interval_le hk (by omega) ?_ fun hsel => ?_
    · rw [hinterval, hconst]
      exact hle
    · rw [h.loopOffset]
      exact hroom (hinterval ▸ hsel)
  have hlong : cfg.long (updateInterval k tvSec) = updateInterval k tvSec :=
    cfg.long_of_fits ⟨by omega, by omega⟩
  have hsum := val_unclampedFreq_bmod hk hlong hfits.product hfits.first
  rw [hardupdate_timeFreq h.pll h.noPpsFreq, val_clampFreq_of_bmod hsum hfits.total, hfreq,
    hpllStep, hfllStep, zero_add]
  rfl

end FirstUpdate

/-- The first update after a start measures the frequency from the moment the last clock
stopped, and a single offset that did not come up in that time may drive it to its limit. On
the first start of all there is no such moment, and the frequency stays zero. -/
theorem restart_update (cfg : Config) (hhz : 1 ≤ cfg.hz ∧ cfg.hz ≤ 100000)
    (life : List LifeEvent)
    (hlife : Along (lifeStep cfg) (LifeAdmissible cfg) (loaded : Program LFp64) life)
    (initime : Timespec) (hinit : initime.Normalised) :
    let old := (run (lifeStep cfg) (loaded : Program LFp64) life).clock
    let c := (old.rtemsNtpInitialize cfg (some initime)).1
    ∀ es, (∀ e ∈ es, NoUpdate e ∧ KeepsConstant e) →
      let c' := run (step cfg) c es
      let mtemp := firstInterval old.tv.tvSec c'.tv.tvSec
      ∀ offset, Accepts c'.k → 0 ≤ mtemp → mtemp ≤ 281344 →
        (fllSelected c'.k mtemp = true → cfg.Fits (clamp maxphase offset * 16)) →
        let freq := val (c'.step cfg (.hardupdate offset)).k.timeFreq
        freq = firstFreq c'.k mtemp (clamp maxphase offset) ∧
          ((maxfreq + 1) * 2 ^ 16 ≤ mtemp * |clamp maxphase offset| →
            |freq| = maxfreq * 2 ^ 32) := by
  intro old c es hes c' mtemp offset haccepts h0 hle hroom freq
  have hstarted : Started old.tv.tvSec c.k := started old (some initime)
  have hrested : Rested cfg c := start_rested hhz.1 (life_alive hhz hlife).ntpInit hinit
  have hcalls : Along (step cfg) (fun _ e => NoUpdate e ∧ KeepsConstant e) c es :=
    along_of_forall fun e he _ => hes e he
  obtain ⟨hend, href, hconst⟩ := run_invariant (I := fun s : Clock LFp64 => Rested cfg s ∧
      s.k.timeReftime = old.tv.tvSec ∧ s.k.timeConstant = 2)
    (fun s e ⟨hs, href, hconst⟩ ⟨he, hkeeps⟩ => ⟨hs.step hhz he,
      (he.kept hkeeps).1.trans href, (he.kept hkeeps).2.trans hconst⟩)
    ⟨hrested, hstarted.reftime, hstarted.constant⟩ hcalls
  have hfreq : freq = firstFreq c'.k mtemp (clamp maxphase offset) :=
    haccepts.freq hend.sound.1.1 href hconst hend.freq h0 hle hroom
  refine ⟨hfreq, fun hbig => ?_⟩
  rw [hfreq]
  exact abs_firstFreq hbig

/-- The board is off for nine hours. -/
def nightOff : List LifeEvent := [.start (some ⟨1000000, 0⟩), .call .tick]

theorem restart_update_nightOff :
    |val ((run (step oneHertz) (((run (lifeStep oneHertz) (loaded : Program LFp64)
        nightOff).clock.rtemsNtpInitialize oneHertz (some ⟨1032400, 250000000⟩)).1)
        [.tick]).step oneHertz (.hardupdate 1050000)).k.timeFreq| = maxfreq * 2 ^ 32 :=
  (restart_update oneHertz (by decide) nightOff (by decide +kernel) ⟨1032400, 250000000⟩
    (by decide) [.tick] (by decide) 1050000 (by constructor <;> decide +kernel)
    (by decide +kernel) (by decide +kernel) (fun _ => by decide +kernel)).2 (by decide +kernel)

end Clock

end Nanokernel
