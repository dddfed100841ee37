import Mathlib.Logic.Function.Basic
import Nanokernel.Kernel.Normalised
import Nanokernel.Kernel.TickLength

/-!
# The interpolated clock of `micro.c`

`nano_time` adds the cycle counter of its processor to the kernel clock, at
most a tick, and never reports a time twice: a reading that is not later than
the last one is moved past it. The guard lets go at a whole second, and a leap
second takes the clock back by one while the last reading may lie a tick ahead
(`readings_later_iff`).
-/

namespace Nanokernel

open Run

/-! ## The variables -/

def pccWidth : ℕ := 32

def cpuClock : ℤ := 433000000

/-- The value an `int64_t` holds after it is assigned `x`. -/
def int64 (x : ℤ) : ℤ := x.bmod (2 ^ 64)

/-- The entries of one processor in the arrays. -/
structure Pcc where
  pccTime : Timespec
  pccPcc : ℤ
  pccNumer : ℤ
  pccDenom : ℤ
  pccMaster : ℤ
  microsetFlag : ℤ
deriving DecidableEq, Repr

/-- The kernel clock, the arrays by processor, and the `lasttime` guard. -/
structure PccClock (ι F : Type) where
  clock : Clock F
  pcc : ι → Pcc
  masterPcc : ℤ
  lasttime : Timespec

/-! ## The routines -/

/-- The significant bits of the counter. -/
def maskPcc (pcc : ℤ) : ℤ := pcc % 2 ^ pccWidth

/-- `microset_from_saved()` on the entries of its processor. -/
def microsetFromSaved (cfg : Config) (p : Pcc) (masterPcc savedPcc : ℤ) (pt : Timespec) :
    Pcc :=
  let pcc := maskPcc savedPcc
  if p.microsetFlag = 0 then
    { p with
      microsetFlag := p.microsetFlag + 1
      pccPcc := pcc
      pccMaster := masterPcc
      pccTime := pt
      pccNumer := nanosecond
      pccDenom := cpuClock }
  else
    let u := p.pccTime
    let numer := cfg.long ((pt.tvSec - u.tvSec) * nanosecond + pt.tvNsec - u.tvNsec)
    let denom := pcc - p.pccPcc
    let p := { p with pccTime := pt, pccPcc := pcc, pccMaster := masterPcc }
    let denom := if denom < 0 then denom + 2 ^ pccWidth else denom
    -- the counter wrapped or the clock lunged backwards
    if denom ≤ 0 ∨ numer ≤ 0 then p
    else { p with pccNumer := numer, pccDenom := denom }

/-- At most one second out of `tv_nsec`. -/
def carry (t : Timespec) : Timespec :=
  if t.tvNsec ≥ nanosecond then ⟨t.tvSec + 1, t.tvNsec - nanosecond⟩ else t

/-- The time between the last tick interrupt and one tick later, and `psec`. -/
def interpolate (cfg : Config) (timeTick : ℤ) (p : Pcc) (t : Timespec) (pcc : ℤ) :
    Timespec × ℤ :=
  if p.microsetFlag ≠ 0 then
    let psec := pcc - p.pccPcc
    let psec := if psec < 0 then psec + 2 ^ pccWidth else psec
    let u := p.pccTime
    let psec := int64 ((int64 (psec * p.pccNumer)).tdiv p.pccDenom
      - cfg.long ((t.tvSec - u.tvSec) * nanosecond))
    let nsec := int64 (u.tvNsec + psec)
    let nsec :=
      if nsec < t.tvNsec then t.tvNsec
      else if nsec > cfg.long (t.tvNsec + timeTick) then cfg.long (t.tvNsec + timeTick)
      else nsec
    (carry ⟨t.tvSec, nsec⟩, psec)
  else (t, 0)

/-- Later than `lasttime`, as long as that is within one second. -/
def guarded (lasttime t : Timespec) : Timespec :=
  let sec := lasttime.tvSec - t.tvSec
  let nsec := lasttime.tvNsec - t.tvNsec
  let (sec, nsec) := if nsec < 0 then (sec - 1, nsec + nanosecond) else (sec, nsec)
  if sec = 0 then carry ⟨t.tvSec, t.tvNsec + (nsec + 1)⟩ else t

/-- What happens on the machine: an event of the kernel clock, an interrupt that
stores `master_pcc`, and `microset()` and `nano_time()` on a processor whose
counter `rpcc()` reads. -/
inductive PccOp (ι : Type) where
  | clock (e : Event)
  | masterPcc (nsec : ℤ)
  | microset (i : ι) (rpcc : ℤ)
  | nanoTime (i : ι) (rpcc : ℤ)

namespace PccClock

variable {ι F : Type}

/-- After `ntp_init()`, with the clock set. -/
def start [LFp F] (cfg : Config) (initime : Timespec) : PccClock ι F :=
  { clock := ⟨Kernel.boot cfg, initime⟩
    pcc := fun _ => ⟨⟨0, 0⟩, 0, 0, 0, 0, 0⟩
    masterPcc := 0
    lasttime := ⟨0, 0⟩ }

/-- The time a processor reads before the guard. -/
def interpolated (cfg : Config) (s : PccClock ι F) (i : ι) (rpcc : ℤ) : Timespec × ℤ :=
  interpolate cfg s.clock.k.timeTick (s.pcc i) s.clock.tv (maskPcc rpcc)

/-- `nano_time()`: the new `lasttime`, the time stored and the value returned. -/
def nanoTime (cfg : Config) (s : PccClock ι F) (i : ι) (rpcc : ℤ) :
    PccClock ι F × Timespec × ℤ :=
  let (t, psec) := s.interpolated cfg i rpcc
  let t := guarded s.lasttime t
  ({ s with lasttime := t }, t, cfg.long (int64 (psec + (s.pcc i).pccMaster)))

/-- `microset()`. -/
def microset [DecidableEq ι] (cfg : Config) (s : PccClock ι F) (i : ι) (rpcc : ℤ) :
    PccClock ι F :=
  let p := microsetFromSaved cfg (s.pcc i) s.masterPcc (maskPcc rpcc) s.clock.tv
  { s with pcc := Function.update s.pcc i p }

def step [LFp F] [DecidableEq ι] (cfg : Config) (s : PccClock ι F) :
    PccOp ι → PccClock ι F
  | .clock e => { s with clock := s.clock.step cfg e }
  | .masterPcc nsec => { s with masterPcc := nsec }
  | .microset i rpcc => s.microset cfg i rpcc
  | .nanoTime i rpcc => (s.nanoTime cfg i rpcc).1

/-- The time a reader gets. -/
def reading (cfg : Config) (s : PccClock ι F) : PccOp ι → Option Timespec
  | .nanoTime i rpcc => some (s.nanoTime cfg i rpcc).2.1
  | _ => none

/-- The events of the kernel clock are admissible there. -/
def Admissible (cfg : Config) (s : PccClock ι F) : PccOp ι → Prop
  | .clock e => s.clock.Admissible cfg e
  | _ => True

end PccClock

/-! ## The guard -/

theorem normalised_carry {t : Timespec} (h0 : 0 ≤ t.tvNsec) (h : t.tvNsec < 2 * nanosecond) :
    (carry t).Normalised := by
  unfold carry Timespec.Normalised
  split_ifs with hge
  · exact ⟨sub_nonneg.mpr hge, by dsimp only; omega⟩
  · exact ⟨h0, not_le.mp hge⟩

theorem nsec_carry (t : Timespec) : (carry t).nsec = t.nsec := by
  unfold carry Timespec.nsec
  split_ifs
  · dsimp only
    ring
  · rfl

/-- The difference of two times, with a second borrowed where the nanoseconds
need it. -/
theorem borrow_spec {lasttime t : Timespec} (hlast : lasttime.Normalised)
    (ht : t.Normalised) : ∃ sec nsec,
      (if lasttime.tvNsec - t.tvNsec < 0 then
          (lasttime.tvSec - t.tvSec - 1, lasttime.tvNsec - t.tvNsec + nanosecond)
        else (lasttime.tvSec - t.tvSec, lasttime.tvNsec - t.tvNsec)) = (sec, nsec) ∧
      0 ≤ nsec ∧ nsec < nanosecond ∧
      sec * nanosecond + nsec = lasttime.nsec - t.nsec := by
  obtain ⟨hl0, hl1⟩ := hlast
  obtain ⟨ht0, ht1⟩ := ht
  by_cases hborrow : lasttime.tvNsec - t.tvNsec < 0
  · rw [if_pos hborrow]
    refine ⟨_, _, rfl, by omega, by omega, ?_⟩
    unfold Timespec.nsec
    ring
  · rw [if_neg hborrow]
    refine ⟨_, _, rfl, by omega, by omega, ?_⟩
    unfold Timespec.nsec
    ring

/-- The guard moves a reading past `lasttime` if that is ahead by less than a
second, and lets it pass otherwise. -/
theorem guarded_cases {lasttime t : Timespec} (hlast : lasttime.Normalised)
    (ht : t.Normalised) :
    (guarded lasttime t).Normalised ∧
      ((t.nsec ≤ lasttime.nsec ∧ lasttime.nsec < t.nsec + nanosecond ∧
          (guarded lasttime t).nsec = lasttime.nsec + 1) ∨
        ((lasttime.nsec < t.nsec ∨ t.nsec + nanosecond ≤ lasttime.nsec) ∧
          guarded lasttime t = t)) := by
  obtain ⟨sec, nsec, hpair, h0, h1, hdiff⟩ := borrow_spec hlast ht
  obtain ⟨ht0, ht1⟩ := id ht
  unfold guarded
  dsimp only
  rw [hpair]
  dsimp only
  by_cases hsec : sec = 0
  · rw [if_pos hsec, nsec_carry]
    refine ⟨normalised_carry (by dsimp only; omega) (by dsimp only; omega), Or.inl ?_⟩
    rw [hsec, zero_mul, zero_add] at hdiff
    unfold Timespec.nsec at *
    dsimp only
    omega
  · rw [if_neg hsec]
    refine ⟨ht, Or.inr ⟨?_, rfl⟩⟩
    unfold nanosecond at *
    omega

/-- A reading is later than the last one exactly when that is less than a second
ahead of the clock. -/
theorem before_guarded_iff {lasttime t : Timespec} (hlast : lasttime.Normalised)
    (ht : t.Normalised) :
    lasttime.Before (guarded lasttime t) ↔ lasttime.nsec < t.nsec + nanosecond := by
  obtain ⟨hnorm, hcases⟩ := guarded_cases hlast ht
  rw [Timespec.before_iff hlast hnorm]
  rcases hcases with ⟨-, hlt, hnext⟩ | ⟨hfar, hpass⟩
  · rw [hnext]
    exact iff_of_true (Int.lt_succ _) hlt
  · rw [hpass]
    unfold nanosecond at *
    omega

/-- The interpolated time lies between the clock and one tick later, whatever the
counter reads. -/
theorem interpolate_bounds (cfg : Config) {timeTick : ℤ} {t : Timespec} (p : Pcc) (pcc : ℤ)
    (htick : 0 ≤ timeTick ∧ timeTick ≤ nanosecond) (ht : t.Normalised) :
    (interpolate cfg timeTick p t pcc).1.Normalised ∧
      t.nsec ≤ (interpolate cfg timeTick p t pcc).1.nsec ∧
      (interpolate cfg timeTick p t pcc).1.nsec ≤ t.nsec + timeTick := by
  obtain ⟨h0, h1⟩ := id ht
  unfold interpolate
  by_cases hflag : p.microsetFlag ≠ 0
  · have hlong : cfg.long (t.tvNsec + timeTick) = t.tvNsec + timeTick :=
      cfg.long_of_fits ⟨by omega, by unfold nanosecond at *; omega⟩
    rw [if_pos hflag, hlong]
    dsimp only
    generalize int64 (p.pccTime.tvNsec + _) = nsec
    -- the clamp, by what it leaves
    have hclamp : ∃ nsec', (if nsec < t.tvNsec then t.tvNsec
        else if nsec > t.tvNsec + timeTick then t.tvNsec + timeTick else nsec) = nsec' ∧
        t.tvNsec ≤ nsec' ∧ nsec' ≤ t.tvNsec + timeTick := by
      refine ⟨_, rfl, ?_⟩
      split_ifs <;> omega
    obtain ⟨nsec', hnsec, hlo, hhi⟩ := hclamp
    rw [hnsec, nsec_carry]
    refine ⟨normalised_carry (by dsimp only; omega) (by dsimp only; omega), ?_⟩
    unfold Timespec.nsec
    dsimp only
    omega
  · rw [if_neg hflag]
    exact ⟨ht, le_refl _, le_add_of_nonneg_right htick.1⟩

namespace PccClock

/-- The last reading is less than one second ahead of the time that this one
interpolates. -/
def WithinGuard {ι F : Type} (cfg : Config) (s : PccClock ι F) : PccOp ι → Prop
  | .nanoTime i rpcc => s.lasttime.nsec < (s.interpolated cfg i rpcc).1.nsec + nanosecond
  | _ => True

variable {ι F : Type} [LFp F] [LawfulLFp F]

/-- Every tick leaves the clock normalised. -/
def Carries (cfg : Config) (s : PccClock ι F) : PccOp ι → Prop
  | .clock e => s.clock.CarriesOnce cfg e
  | _ => True

/-! ## Runs -/

/-- The clock and the last reading are normalised, and the tick is at most a
second. -/
structure Settled (cfg : Config) (s : PccClock ι F) : Prop where
  sound : s.clock.Sound cfg
  tv : s.clock.tv.Normalised
  timeTick : s.clock.k.timeTick = nanosecond.tdiv cfg.hz
  lasttime : s.lasttime.Normalised

variable {cfg : Config} {s : PccClock ι F}

theorem settled_start (hhz : 1 ≤ cfg.hz) {initime : Timespec} (h : initime.Normalised) :
    Settled cfg (start cfg initime : PccClock ι F) := by
  refine ⟨Clock.sound_of_boots hhz rfl, h, ?_, (by decide : Timespec.Normalised ⟨0, 0⟩)⟩
  unfold start Kernel.boot ntpInit
  split_ifs <;> rfl

/-- What a processor reads before the guard. -/
theorem interpolated_bounds (hhz : 1 ≤ cfg.hz) (h : Settled cfg s) (i : ι) (rpcc : ℤ) :
    (s.interpolated cfg i rpcc).1.Normalised ∧
      s.clock.tv.nsec ≤ (s.interpolated cfg i rpcc).1.nsec ∧
      (s.interpolated cfg i rpcc).1.nsec ≤ s.clock.tv.nsec + s.clock.k.timeTick := by
  refine interpolate_bounds cfg _ _ ?_ h.tv
  rw [h.timeTick, Int.tdiv_eq_ediv_of_nonneg (by decide)]
  exact ⟨Int.ediv_nonneg (by decide) (by omega), Int.ediv_le_self _ (by decide)⟩

theorem step_settled [DecidableEq ι] (hhz : 1 ≤ cfg.hz ∧ cfg.hz ≤ 100000)
    (h : Settled cfg s) {op : PccOp ι} (hop : Admissible cfg s op)
    (hcarries : Carries cfg s op) : Settled cfg (step cfg s op) := by
  cases op with
  | clock e =>
    have hnorm : Clock.StaysNormalised cfg s.clock e :=
      (Clock.staysNormalised_iff_carriesOnce hhz h.sound h.tv e).mpr hcarries
    exact ⟨Clock.step_sound hhz h.sound hop, Clock.step_normalised h.tv hnorm,
      Clock.step_timeTick h.timeTick e, h.lasttime⟩
  | masterPcc nsec => exact ⟨h.sound, h.tv, h.timeTick, h.lasttime⟩
  | microset i rpcc => exact ⟨h.sound, h.tv, h.timeTick, h.lasttime⟩
  | nanoTime i rpcc =>
    have hlast := (guarded_cases h.lasttime (interpolated_bounds hhz.1 h i rpcc).1).1
    exact ⟨h.sound, h.tv, h.timeTick, hlast⟩

omit [LawfulLFp F] in
/-- `lasttime` is the last reading. -/
theorem step_lasttime [DecidableEq ι] (s : PccClock ι F) (op : PccOp ι) :
    (step cfg s op).lasttime = (reading cfg s op).getD s.lasttime := by
  cases op with
  | nanoTime i rpcc => rfl
  | _ => rfl

theorem later_iff_withinGuard (hhz : 1 ≤ cfg.hz) (h : Settled cfg s) (op : PccOp ι) :
    (∀ t, reading cfg s op = some t → s.lasttime.Before t) ↔ WithinGuard cfg s op := by
  cases op with
  | nanoTime i rpcc =>
    have hiff := before_guarded_iff h.lasttime (interpolated_bounds hhz h i rpcc).1
    constructor
    · exact fun hlater => hiff.mp (hlater _ rfl)
    · rintro hwithin t ⟨⟩
      exact hiff.mpr hwithin
  | _ => exact iff_of_true nofun trivial

theorem reading_normalised (hhz : 1 ≤ cfg.hz) (h : Settled cfg s) {op : PccOp ι}
    {t : Timespec} (ht : reading cfg s op = some t) : t.Normalised := by
  cases op with
  | nanoTime i rpcc =>
    cases ht
    exact (guarded_cases h.lasttime (interpolated_bounds hhz h i rpcc).1).1
  | _ => exact absurd ht nofun

/-- Over every run of ticks and calls, `microset()` and readings on any
processor, with any counter values: every reading is later than the one before
it exactly when each finds the one before it less than a second ahead. -/
theorem readings_later_iff [DecidableEq ι] (cfg : Config)
    (hhz : 1 ≤ cfg.hz ∧ cfg.hz ≤ 100000) (initime : Timespec) (htime : initime.Normalised)
    (ops : List (PccOp ι))
    (hops : Along (step cfg) (Admissible cfg) (start cfg initime : PccClock ι F) ops)
    (hcarries : Along (step cfg) (Carries cfg) (start cfg initime : PccClock ι F) ops) :
    Along (step cfg) (WithinGuard cfg) (start cfg initime : PccClock ι F) ops ↔
      (⟨0, 0⟩ :: outputs (step cfg) (reading cfg)
          (start cfg initime : PccClock ι F) ops).Pairwise Timespec.Before ∧
        ∀ t ∈ outputs (step cfg) (reading cfg) (start cfg initime : PccClock ι F) ops,
          t.Normalised := by
  have hstart : Settled cfg (start cfg initime : PccClock ι F) := settled_start hhz.1 htime
  have hgood := along_and hops hcarries
  have hstep : ∀ (s : PccClock ι F) op, Settled cfg s →
      Admissible cfg s op ∧ Carries cfg s op → Settled cfg (step cfg s op) :=
    fun s op hs hop => step_settled hhz hs hop.1 hop.2
  have hnorm : ∀ t ∈ outputs (step cfg) (reading cfg) (start cfg initime : PccClock ι F) ops,
      t.Normalised :=
    forall_mem_outputs (along_of_invariant hstep
      (fun s op hs _ t ht => reading_normalised hhz.1 hs ht) hstart hgood)
  have hlater : Along (step cfg)
        (fun s op => ∀ t, reading cfg s op = some t → s.lasttime.Before t)
        (start cfg initime : PccClock ι F) ops ↔
      Along (step cfg) (WithinGuard cfg) (start cfg initime : PccClock ι F) ops :=
    along_congr (fun s op hs hop _ => hstep s op hs hop)
      (fun s op hs _ => later_iff_withinGuard hhz.1 hs op) hstart hgood
  have hrecord : ∀ (s : PccClock ι F) op,
      (step cfg s op).lasttime = (reading cfg s op).getD s.lasttime := step_lasttime
  rw [and_iff_left hnorm, ← hlater]
  exact (pairwise_cons_outputs_iff hrecord).symm

/-! ## Between leap seconds -/

/-- At most `m` readings from one tick to the next, `n` of them made already. -/
def Sparse (m : ℕ) : ℕ → List (PccOp ι) → Prop
  | _, [] => True
  | n, .nanoTime _ _ :: ops => n < m ∧ Sparse m (n + 1) ops
  | _, .clock .tick :: ops => Sparse m 0 ops
  | n, _ :: ops => Sparse m n ops

/-- No tick meets a leap second. -/
def NoLeap (cfg : Config) (s : PccClock ι F) : PccOp ι → Prop
  | .clock .tick => ¬ s.clock.LeapDue cfg
  | _ => True

/-- The last reading is at most `n` nanoseconds beyond the next tick. -/
def InReach (cfg : Config) (n : ℕ) (s : PccClock ι F) : Prop :=
  s.lasttime.nsec ≤ s.clock.tv.nsec + nanosecond.tdiv cfg.hz + n

/-- A reading moves the last one by a nanosecond, if not to where the clock is. -/
theorem nanoTime_inReach (hhz : 1 ≤ cfg.hz) (h : Settled cfg s) {n : ℕ}
    (hn : InReach cfg n s) (i : ι) (rpcc : ℤ) :
    InReach cfg (n + 1) (s.nanoTime cfg i rpcc).1 := by
  obtain ⟨hnorm, -, hhi⟩ := interpolated_bounds hhz h i rpcc
  rw [h.timeTick] at hhi
  have hcases := (guarded_cases h.lasttime hnorm).2
  show (guarded s.lasttime (s.interpolated cfg i rpcc).1).nsec
    ≤ s.clock.tv.nsec + nanosecond.tdiv cfg.hz + (n + 1 : ℕ)
  unfold InReach at hn
  push_cast
  rcases hcases with ⟨-, -, hnext⟩ | ⟨-, hpass⟩
  · rw [hnext]
    omega
  · rw [hpass]
    omega

/-- A tick is long enough for the readings before it. -/
theorem tick_inReach (hhz : 2 ≤ cfg.hz ∧ cfg.hz ≤ 100000) (h : Settled cfg s) {n : ℕ}
    (hn : InReach cfg n s) (hsparse : 2 * (n : ℤ) ≤ nanosecond.tdiv cfg.hz)
    (hno : ¬ s.clock.LeapDue cfg) :
    InReach cfg 0 { s with clock := s.clock.tick cfg } := by
  have hhz' : 1 ≤ cfg.hz ∧ cfg.hz ≤ 100000 := ⟨by omega, hhz.2⟩
  have hfits : s.clock.TickFits cfg :=
    Clock.tickFits_of_normalised hhz h.sound.2 h.sound.1.1.adj h.tv
  have helapsed := Clock.elapsed_of_tickFits hhz' h.sound hfits hno
  have hlong := (Clock.advance_bounds hhz' h.sound).1
  rw [← helapsed] at hlong
  show s.lasttime.nsec ≤ (s.clock.tick cfg).tv.nsec + nanosecond.tdiv cfg.hz + (0 : ℕ)
  unfold InReach at hn
  unfold Clock.elapsed Timespec.nsec nanosecond at *
  omega

/-- Between leap seconds, with two ticks a second or more and no more readings
in a tick than half its nanoseconds, the guard is enough. -/
theorem along_withinGuard_of_sparse [DecidableEq ι] (hhz : 2 ≤ cfg.hz ∧ cfg.hz ≤ 100000)
    {m : ℕ} (hm : 2 * (m : ℤ) ≤ nanosecond.tdiv cfg.hz) {ops : List (PccOp ι)} {n : ℕ}
    (h : Settled cfg s) (hn : InReach cfg n s) (hle : n ≤ m)
    (hops : Along (step cfg) (Admissible cfg) s ops)
    (hno : Along (step cfg) (NoLeap cfg) s ops) (hsparse : Sparse m n ops) :
    Along (step cfg) (WithinGuard cfg) s ops := by
  have hhz' : 1 ≤ cfg.hz ∧ cfg.hz ≤ 100000 := ⟨by omega, hhz.2⟩
  have hhalf : nanosecond.tdiv cfg.hz ≤ 500000000 := by
    rw [Int.tdiv_eq_ediv_of_nonneg (by decide)]
    exact Int.ediv_le_of_le_mul (by omega) (by unfold nanosecond; omega)
  induction ops generalizing s n with
  | nil => trivial
  | cons op ops ih =>
    have hcarries : Carries cfg s op := by
      cases op with
      | clock e =>
        cases e with
        | tick => exact Or.inl hhz.1
        | _ => trivial
      | _ => trivial
    have hnext := step_settled hhz' h hops.1 hcarries
    cases op with
    | nanoTime i rpcc =>
      refine ⟨?_, ih hnext (nanoTime_inReach hhz'.1 h hn i rpcc) hsparse.1 hops.2 hno.2
        hsparse.2⟩
      have hlo := (interpolated_bounds hhz'.1 h i rpcc).2.1
      unfold InReach at hn
      unfold WithinGuard nanosecond at *
      omega
    | clock e =>
      cases e with
      | tick =>
        have htick := tick_inReach hhz h hn (by omega) hno.1
        exact ⟨trivial, ih hnext htick (Nat.zero_le m) hops.2 hno.2 hsparse⟩
      | _ => exact ⟨trivial, ih hnext hn hle hops.2 hno.2 hsparse⟩
    | _ => exact ⟨trivial, ih hnext hn hle hops.2 hno.2 hsparse⟩

/-! ## A leap second -/

/-- One processor. A leap second is announced before the last second of the day,
and in its second half the clock is read with `late` counts to the tick. -/
def leapRun (late : ℤ) : List (PccOp Unit) :=
  [.clock (.adjtime { modes := modStatus, status := staPll ||| staIns }),
    .clock .tick, .clock .tick, .microset () 0, .nanoTime () (216500000 - late),
    .clock .tick, .microset () 216500000, .nanoTime () 216500000]

/-- Read a microsecond before the tick, the clock stays in order. -/
theorem readings_later_iff_leapRun :
    Along (step twoHertz) (WithinGuard twoHertz)
        (start twoHertz ⟨86398, 500000000⟩ : PccClock Unit LFp32) (leapRun 433) ↔
      (⟨0, 0⟩ :: outputs (step twoHertz) (reading twoHertz)
          (start twoHertz ⟨86398, 500000000⟩ : PccClock Unit LFp32)
          (leapRun 433)).Pairwise Timespec.Before ∧
        ∀ t ∈ outputs (step twoHertz) (reading twoHertz)
            (start twoHertz ⟨86398, 500000000⟩ : PccClock Unit LFp32) (leapRun 433),
          t.Normalised := by
  exact readings_later_iff twoHertz (by decide) ⟨86398, 500000000⟩ (by decide) (leapRun 433)
    ⟨trivial, trivial, trivial, trivial, trivial, trivial, trivial, trivial, trivial⟩
    ⟨trivial, Or.inl (le_refl 2), Or.inl (le_refl 2), trivial, trivial, Or.inl (le_refl 2),
      trivial, trivial, trivial⟩

/-- Read at the tick, it shows 86400 s and then 86399 s. -/
theorem not_readings_later : ¬ ∀ (cfg : Config) (initime : Timespec)
    (ops : List (PccOp Unit)), 1 ≤ cfg.hz ∧ cfg.hz ≤ 100000 → initime.Normalised →
    Along (step cfg) (Admissible cfg) (start cfg initime : PccClock Unit LFp32) ops →
    (outputs (step cfg) (reading cfg) (start cfg initime : PccClock Unit LFp32) ops).Pairwise
        Timespec.Before ∧
      ∀ t ∈ outputs (step cfg) (reading cfg) (start cfg initime : PccClock Unit LFp32) ops,
        t.Normalised := by
  intro h
  have hpair := (h twoHertz ⟨86398, 500000000⟩ (leapRun 0) (by decide) (by decide)
    ⟨trivial, trivial, trivial, trivial, trivial, trivial, trivial, trivial, trivial⟩).1
  have hreadings : outputs (step twoHertz) (reading twoHertz)
      (start twoHertz ⟨86398, 500000000⟩ : PccClock Unit LFp32) (leapRun 0)
        = [⟨86400, 0⟩, ⟨86399, 0⟩] := by
    decide +kernel
  rw [hreadings] at hpair
  exact absurd hpair (by decide)

end PccClock

end Nanokernel
