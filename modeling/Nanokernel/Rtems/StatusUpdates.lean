import Nanokernel.Kernel.ApiCalls

/-!
# The tasks that write the status word

`ntpDaemon` and `rtemsNtpSetPollInterval` of `rtemsdep.c` both read the status
word with one call of `ntp_adjtime` and write it back, a flag or two changed,
with a later one. Each call is atomic; between the two halves any other task
may run. Written back as a whole, the word undoes what was changed meanwhile:
an update is lost exactly when the copy that is written back is stale
(`noLostUpdate_iff`).
-/

namespace Nanokernel

open BitMask Run

/-! ## Helpers of the daemon -/

/-- The part of `struct tm` the daemon looks at. -/
structure Tm where
  tmMon : ℤ
  tmMday : ℤ
deriving DecidableEq, Repr

/-- `gmtime_r()`: month and day of the proleptic Gregorian calendar, counted
in years that begin on the first of March. -/
def gmtimeR (t : ℤ) : Tm :=
  let days := t / 86400 + 719468
  let dayOfEra := days % 146097
  let yearOfEra :=
    (dayOfEra - dayOfEra / 1460 + dayOfEra / 36524 - dayOfEra / 146096) / 365
  let dayOfYear := dayOfEra - (365 * yearOfEra + yearOfEra / 4 - yearOfEra / 100)
  let month := (5 * dayOfYear + 2) / 153
  { tmMon := (month + 2) % 12
    tmMday := dayOfYear - (153 * month + 2) / 5 + 1 }

/-- 30 June 1972 and the day after. -/
example : gmtimeR 78796799 = ⟨5, 30⟩ ∧ gmtimeR 78796800 = ⟨6, 1⟩ := by decide

/-- The loop of `secs2tcld()`. An `int` is below `2^27` after the shift, so
`probe` gets there within 32 rounds. -/
def probeLoop (secs : ℤ) : ℕ → ℤ → ℤ → ℤ × ℤ
  | 0, rval, probe => (rval, probe)
  | fuel + 1, rval, probe =>
    if probe < secs then probeLoop secs fuel (rval + 1) (probe * 2) else (rval, probe)

/-- `secs2tcld()`: poll seconds to the PLL time constant. -/
def secs2tcld (secs : ℤ) : ℤ :=
  let secs := secs / 16
  let (rval, probe) := probeLoop secs 32 0 1
  if rval = 0 then 0
  else if probe - secs < secs - probe / 2 then rval else rval - 1

def maxFailedSyncs : ℤ := 10

/-- `DAEMON_SYNC_INTERVAL_SECS`, the default poll interval. -/
def daemonSyncIntervalSecs : ℤ := 64

def leapMsk : BitVec 8 := 0xc0#8
def leapIns : BitVec 8 := 0x40#8
def leapDel : BitVec 8 := 0x80#8
def leapNo : BitVec 8 := 0x00#8

/-- From the NTP base, 1900, to the UNIX base, 1970. -/
def unixBaseToNtpBase : ℤ := (70 * 365 + 17) * (24 * 60 * 60)

/-- What the daemon keeps of the best answer of a server. -/
structure Answer where
  liVnMode : BitVec 8
  srvRcvts : ℤ
  maxerr : ℤ
  jitter : ℤ
deriving DecidableEq, Repr

/-- The machine and `rtems_bsdnet_timeoffset`. -/
structure Rtems extends Config where
  timeoffset : ℤ
deriving DecidableEq, Repr

/-- The answer was received on the last day of June or December. -/
def lastDay (cfg : Rtems) (answer : Answer) : Bool :=
  let tm := gmtimeR (cfg.long (answer.srvRcvts - (cfg.timeoffset + unixBaseToNtpBase)))
  (tm.tmMon + 1 = 6 && tm.tmMday = 30) || (tm.tmMon + 1 = 12 && tm.tmMday = 31)

/-- Check for leap seconds; the indicator 3 is ignored. -/
def leapStatus (cfg : Rtems) (answer : Answer) (status : BitVec 32) : BitVec 32 :=
  let leap := answer.liVnMode &&& leapMsk
  -- the server may call off a leap second on any day, and announce it on two
  if leap = leapNo then status &&& ~~~(staIns ||| staDel)
  else if leap = leapIns ∨ leap = leapDel then
    if lastDay cfg answer then
      if leap = leapIns then status ||| staIns else status ||| staDel
    else status
  else status

/-- The flags a leap indicator is about. -/
def leapFlags (cfg : Rtems) (answer : Answer) : BitVec 32 :=
  let leap := answer.liVnMode &&& leapMsk
  if leap = leapNo then staIns ||| staDel
  else if leap = leapIns ∨ leap = leapDel then
    if lastDay cfg answer then if leap = leapIns then staIns else staDel else 0
  else 0

/-- The clock is unsynchronised after too many failed polls. -/
def syncStatus (failedsyncs : ℤ) (status : BitVec 32) : BitVec 32 :=
  if failedsyncs > maxFailedSyncs then status ||| staUnsync
  else status &&& ~~~staUnsync

/-! ## The tasks -/

/-- Where the daemon is between two of its calls. -/
inductive DaemonPhase where
  | start
  | lookedUp
  | polling
  | stopped
deriving DecidableEq, Repr

/-- Where a call of `rtemsNtpSetPollInterval` is: between its two calls of
`ntp_adjtime` it holds the structure the first returned. -/
inductive PollTask where
  | idle
  | holds (ntv : Timex) (pollSeconds : ℤ)
  | returned (code : ℤ)
deriving DecidableEq, Repr

/-- The clock, the daemon with its local `ntv`, and the tasks that set the poll
interval. -/
structure Tasks (F : Type) where
  clock : Clock F
  phase : DaemonPhase
  ntv : Timex
  failedsyncs : ℤ
  pollTask : ℕ → PollTask

inductive TaskOp where
  | daemonRead
  | daemonStart
  | daemonUpdate (nsecs : ℤ)
  | daemonRound (answer : Option Answer)
  | daemonKill
  | pollRead (task : ℕ) (pollSeconds : ℤ)
  | pollWrite (task : ℕ)
  /-- A tick, or a call by any other task. -/
  | kernel (e : Event)
deriving DecidableEq, Repr

section Machine

variable {F : Type} [LFp F]

/-- A call of `ntp_adjtime` under `splclock()`. -/
def Clock.call (cfg : Config) (c : Clock F) (ntv : Timex) : Clock F × Timex × ℤ :=
  let (k, ntv, code) := ntpAdjtime cfg c.k c.tv.tvSec ntv
  ({ c with k := k }, ntv, code)

namespace Tasks

/-- The daemon passes its `ntv` to the kernel and gets it back. -/
def daemonCall (cfg : Config) (s : Tasks F) (ntv : Timex) : Tasks F :=
  let (clock, ntv, _) := s.clock.call cfg ntv
  { s with clock := clock, ntv := ntv }

/-- One round of the poll loop, from the answer on; `none` if the retries ran
out. -/
def daemonRound (cfg : Rtems) (s : Tasks F) (answer : Option Answer) : Tasks F :=
  let failedsyncs := if answer.isNone then s.failedsyncs + 1 else 0
  let status := match answer with
    | none => s.ntv.status
    | some answer => leapStatus cfg answer s.ntv.status
  let status := syncStatus failedsyncs status
  -- prevent from overflowing
  let failedsyncs :=
    if failedsyncs > maxFailedSyncs then maxFailedSyncs + 1 else failedsyncs
  let ntv : Timex := match answer with
    | none =>
      { s.ntv with
        status := status
        modes := s.ntv.modes &&& ~~~(modMaxerror ||| modEsterror) }
    | some answer =>
      { s.ntv with
        status := status
        maxerror := answer.maxerr
        esterror := answer.jitter
        modes := s.ntv.modes ||| (modMaxerror ||| modEsterror) }
  daemonCall cfg.toConfig { s with failedsyncs := failedsyncs } ntv

/-- The atomic steps of the tasks; one that is not enabled changes nothing. -/
def step (cfg : Rtems) (s : Tasks F) : TaskOp → Tasks F
  | .daemonRead =>
    if s.phase = .start then
      daemonCall cfg.toConfig { s with phase := .lookedUp } { s.ntv with modes := 0 }
    else s
  | .daemonStart =>
    if s.phase = .lookedUp then
      let s := daemonCall cfg.toConfig { s with phase := .polling } { s.ntv with
        status := s.ntv.status &&& ~~~staUnsync
        modes := modStatus }
      { s with
        ntv := { s.ntv with modes := s.ntv.modes ||| (modMaxerror ||| modEsterror) }
        failedsyncs := 0 }
    else s
  | .daemonUpdate nsecs =>
    if s.phase = .polling then
      { s with clock := s.clock.step cfg.toConfig (.hardupdate nsecs) }
    else s
  | .daemonRound answer =>
    if s.phase = .polling then daemonRound cfg s answer else s
  | .daemonKill =>
    if s.phase = .polling then
      daemonCall cfg.toConfig { s with phase := .stopped } { s.ntv with
        modes := s.ntv.modes &&& ~~~(modMaxerror ||| modEsterror)
        status := s.ntv.status ||| staUnsync }
    else s
  | .pollRead task pollSeconds =>
    match s.pollTask task with
    | .holds _ _ => s
    | _ =>
      let (clock, ntv, code) := s.clock.call cfg.toConfig { modes := 0 }
      { s with
        clock := clock
        pollTask := Function.update s.pollTask task
          (if code = 0 then .holds ntv (if pollSeconds < 16 then 16 else pollSeconds)
          else .returned (-1)) }
  | .pollWrite task =>
    match s.pollTask task with
    | .holds ntv pollSeconds =>
      let (clock, _, code) := s.clock.call cfg.toConfig { ntv with
        status := ntv.status ||| staPll
        constant := secs2tcld pollSeconds
        modes := modTimeconst ||| modStatus }
      { s with
        clock := clock
        pollTask := Function.update s.pollTask task (.returned code) }
    | _ => s
  | .kernel e => { s with clock := s.clock.step cfg.toConfig e }

/-- The daemon is about to start. -/
def start (clock : Clock F) (ntv : Timex) : Tasks F :=
  ⟨clock, .start, ntv, 0, fun _ => .idle⟩

/-! ## Lost updates -/

/-- The flags a step is meant to change: `STA_UNSYNC` and the announced leap
second by the daemon, `STA_PLL` by the poll interval task, and every flag by a
task that calls with `MOD_STATUS` itself. -/
def deliberate (cfg : Rtems) : TaskOp → BitVec 32
  | .daemonStart | .daemonKill | .daemonRound none => staUnsync
  | .daemonRound (some answer) => staUnsync ||| leapFlags cfg answer
  | .pollWrite _ => staPll
  | .kernel (.adjtime tp) => if has tp.modes modStatus then BitVec.allOnes 32 else 0
  | _ => 0

/-- The writable flags that the step has no business with. -/
def others (cfg : Rtems) (op : TaskOp) : BitVec 32 :=
  ~~~staRonly &&& ~~~deliberate cfg op

/-- The step leaves the other flags alone. -/
def NoLostUpdate (cfg : Rtems) (s : Tasks F) (op : TaskOp) : Prop :=
  (step cfg s op).clock.k.timeStatus &&& others cfg op
    = s.clock.k.timeStatus &&& others cfg op

/-- The local copy of the status word that the step writes back. -/
def writesBack (s : Tasks F) : TaskOp → Option (BitVec 32)
  | .daemonStart => if s.phase = .lookedUp then some s.ntv.status else none
  | .daemonRound _ | .daemonKill =>
    if s.phase = .polling then some s.ntv.status else none
  | .pollWrite task =>
    match s.pollTask task with
    | .holds ntv _ => some ntv.status
    | _ => none
  | _ => none

/-- The copy that is written back shows the other flags as they are. -/
def Fresh (cfg : Rtems) (s : Tasks F) (op : TaskOp) : Prop :=
  ∀ status ∈ writesBack s op,
    status &&& others cfg op = s.clock.k.timeStatus &&& others cfg op

theorem others_writable (cfg : Rtems) (op : TaskOp) : Writable (others cfg op) :=
  (apart_not_and_not staRonly (deliberate cfg op)).1

theorem others_apart (cfg : Rtems) (op : TaskOp) :
    Apart (others cfg op) (deliberate cfg op) :=
  (apart_not_and_not staRonly (deliberate cfg op)).2

/-! ### The calls -/

variable {m : BitVec 32}

/-- A call writes the caller's flags with `MOD_STATUS`, and none without. -/
theorem call_status (hm : Writable m) (cfg : Config) (c : Clock F) (ntv : Timex) :
    (c.call cfg ntv).1.k.timeStatus &&& m
      = (if has ntv.modes modStatus then ntv.status else c.k.timeStatus) &&& m :=
  adjKernel_status cfg ntv c.k c.tv.tvSec hm

theorem call_status_of_modStatus (hm : Writable m) {cfg : Config} {c : Clock F}
    {ntv : Timex} (h : has ntv.modes modStatus = true) :
    (c.call cfg ntv).1.k.timeStatus &&& m = ntv.status &&& m := by
  rw [call_status hm, if_pos h]

/-- The mode word comes back as it was passed. -/
theorem call_modes (cfg : Config) (c : Clock F) (ntv : Timex) :
    (c.call cfg ntv).2.1.modes = ntv.modes := by
  show (adjReport cfg (adjKernel cfg c.k c.tv.tvSec ntv) ntv).modes = ntv.modes
  unfold adjReport
  split_ifs <;> rfl

theorem leapStatus_and {cfg : Rtems} {answer : Answer}
    (h : Apart m (leapFlags cfg answer)) (status : BitVec 32) :
    leapStatus cfg answer status &&& m = status &&& m := by
  unfold leapFlags at h
  unfold leapStatus
  dsimp only at h ⊢
  split_ifs at h ⊢
  · exact clear_and h status
  · exact set_and h status
  · exact set_and h status
  · rfl
  · rfl

theorem syncStatus_and (h : Apart m staUnsync) (failedsyncs : ℤ) (status : BitVec 32) :
    syncStatus failedsyncs status &&& m = status &&& m := by
  unfold syncStatus
  split_ifs
  · exact set_and h status
  · exact clear_and h status

/-! ### One step -/

/-- The steps the tasks are ready for. -/
def Enabled (s : Tasks F) : TaskOp → Prop
  | .daemonRead => s.phase = .start
  | .daemonStart => s.phase = .lookedUp
  | .daemonUpdate _ | .daemonRound _ | .daemonKill => s.phase = .polling
  | .pollRead task _ => ∀ ntv pollSeconds, s.pollTask task ≠ .holds ntv pollSeconds
  | .pollWrite task => ∃ ntv pollSeconds, s.pollTask task = .holds ntv pollSeconds
  | .kernel _ => True

theorem step_of_not_enabled {cfg : Rtems} {s : Tasks F} {op : TaskOp}
    (h : ¬ Enabled s op) : step cfg s op = s := by
  cases op with
  | kernel e => exact absurd trivial h
  | pollRead task pollSeconds =>
    obtain ⟨ntv, pollSeconds', htask⟩ := by simpa [Enabled] using h
    simp only [step, htask]
  | pollWrite task =>
    cases htask : s.pollTask task with
    | holds ntv pollSeconds => exact absurd ⟨ntv, pollSeconds, htask⟩ h
    | _ => simp only [step, htask]
  | _ => exact if_neg h

/-- While it polls, the daemon writes the status word in every round. -/
def Polling (s : Tasks F) : Prop :=
  s.phase = .polling → has s.ntv.modes modStatus = true

/-- Clearing or setting the error modes keeps `MOD_STATUS`. -/
theorem has_modStatus_of_apart {modes modes' : BitVec 32}
    (h : modes' &&& modStatus = modes &&& modStatus)
    (hmodes : has modes modStatus = true) : has modes' modStatus = true := by
  rw [has_eq_of_and_eq h]
  exact hmodes

theorem daemonRound_status {cfg : Rtems} {s : Tasks F} (hm : Writable m)
    (hmodes : has s.ntv.modes modStatus = true) {answer : Option Answer}
    (h : Apart m (deliberate cfg (.daemonRound answer))) :
    (s.daemonRound cfg answer).clock.k.timeStatus &&& m = s.ntv.status &&& m := by
  cases answer with
  | none =>
    refine (call_status_of_modStatus hm ?_).trans (syncStatus_and h _ _)
    exact has_modStatus_of_apart (clear_and (by decide) _) hmodes
  | some answer =>
    obtain ⟨hunsync, hleap⟩ := h.of_or
    refine (call_status_of_modStatus hm ?_).trans
      ((syncStatus_and hunsync _ _).trans (leapStatus_and hleap _))
    exact has_modStatus_of_apart (set_and (by decide) _) hmodes

/-- A step that writes the word back writes the copy, but for its own flags. -/
theorem step_status_of_writesBack {cfg : Rtems} {s : Tasks F} (hs : Polling s)
    {op : TaskOp} {status : BitVec 32} (h : writesBack s op = some status) :
    (step cfg s op).clock.k.timeStatus &&& others cfg op
      = status &&& others cfg op := by
  have hm := others_writable cfg op
  have hapart := others_apart cfg op
  cases op with
  | daemonStart =>
    have hmodes : has modStatus modStatus = true := by decide
    obtain ⟨hphase, rfl⟩ : s.phase = .lookedUp ∧ s.ntv.status = status := by
      simpa [writesBack] using h
    simp only [step, if_pos hphase]
    exact (call_status_of_modStatus hm hmodes).trans (clear_and hapart _)
  | daemonRound answer =>
    obtain ⟨hphase, rfl⟩ : s.phase = .polling ∧ s.ntv.status = status := by
      simpa [writesBack] using h
    simp only [step, if_pos hphase]
    exact daemonRound_status hm (hs hphase) hapart
  | daemonKill =>
    obtain ⟨hphase, rfl⟩ : s.phase = .polling ∧ s.ntv.status = status := by
      simpa [writesBack] using h
    simp only [step, if_pos hphase]
    refine (call_status_of_modStatus hm ?_).trans (set_and hapart _)
    exact has_modStatus_of_apart (clear_and (by decide) _) (hs hphase)
  | pollWrite task =>
    have hmodes : has (modTimeconst ||| modStatus) modStatus = true := by decide
    unfold writesBack at h
    cases htask : s.pollTask task with
    | holds ntv pollSeconds =>
      simp only [htask, Option.some.injEq] at h
      simp only [step, htask]
      rw [← h]
      exact (call_status_of_modStatus hm hmodes).trans (set_and hapart _)
    | idle => simp [htask] at h
    | returned code => simp [htask] at h
  | daemonRead => exact absurd h (by simp [writesBack])
  | daemonUpdate nsecs => exact absurd h (by simp [writesBack])
  | pollRead task pollSeconds => exact absurd h (by simp [writesBack])
  | kernel e => exact absurd h (by simp [writesBack])

/-- Any other step leaves the other flags alone. -/
theorem noLostUpdate_of_not_writesBack {cfg : Rtems} {s : Tasks F} {op : TaskOp}
    (h : writesBack s op = none) : NoLostUpdate cfg s op := by
  have hm := others_writable cfg op
  have hread : has (0 : BitVec 32) modStatus = false := by decide
  unfold NoLostUpdate
  by_cases henabled : Enabled s op
  · cases op with
    | daemonRead =>
      have hphase : s.phase = .start := henabled
      simp only [step, if_pos hphase]
      refine (call_status hm _ _ _).trans ?_
      rw [hread]
      rfl
    | daemonUpdate nsecs =>
      have hphase : s.phase = .polling := henabled
      simp only [step, if_pos hphase]
      exact Clock.step_status hm _ _ (by simp)
    | pollRead task pollSeconds =>
      cases htask : s.pollTask task with
      | holds ntv pollSeconds' => exact absurd htask (henabled ntv pollSeconds')
      | _ =>
        simp only [step, htask]
        refine (call_status hm _ _ _).trans ?_
        rw [hread]
        rfl
    | kernel e =>
      cases e with
      | adjtime tp =>
        refine (call_status hm cfg.toConfig s.clock tp).trans ?_
        cases hmod : has tp.modes modStatus with
        | false => rfl
        | true =>
          -- every flag is the caller's, so none is left
          have hnone : others cfg (.kernel (.adjtime tp)) = 0 := by
            simp only [others, deliberate, hmod, if_true]
            rw [BitVec.not_allOnes]
            exact BitVec.and_zero
          rw [hnone]
          exact BitVec.and_zero.trans BitVec.and_zero.symm
      | _ => exact Clock.step_status hm _ _ (by simp)
    | daemonStart =>
      have hphase : s.phase = .lookedUp := henabled
      simp [writesBack, hphase] at h
    | daemonRound answer =>
      have hphase : s.phase = .polling := henabled
      simp [writesBack, hphase] at h
    | daemonKill =>
      have hphase : s.phase = .polling := henabled
      simp [writesBack, hphase] at h
    | pollWrite task =>
      obtain ⟨ntv, pollSeconds, htask⟩ := henabled
      simp [writesBack, htask] at h
  · rw [step_of_not_enabled henabled]

theorem noLostUpdate_iff_fresh {cfg : Rtems} {s : Tasks F} (hs : Polling s)
    (op : TaskOp) : NoLostUpdate cfg s op ↔ Fresh cfg s op := by
  unfold Fresh
  cases h : writesBack s op with
  | none =>
    exact ⟨fun _ status hstatus => absurd hstatus (by simp),
      fun _ => noLostUpdate_of_not_writesBack h⟩
  | some status =>
    unfold NoLostUpdate
    rw [step_status_of_writesBack hs h]
    simp

theorem polling_step {cfg : Rtems} {s : Tasks F} (hs : Polling s) (op : TaskOp) :
    Polling (step cfg s op) := by
  by_cases henabled : Enabled s op
  · cases op with
    | daemonRead =>
      have hphase : s.phase = .start := henabled
      simp only [step, if_pos hphase]
      intro h
      cases h
    | daemonStart =>
      have hphase : s.phase = .lookedUp := henabled
      simp only [step, if_pos hphase]
      intro _
      refine has_modStatus_of_apart (set_and (by decide) _) ?_
      show has (Clock.call _ _ _).2.1.modes modStatus = true
      rw [call_modes]
      exact (by decide : has modStatus modStatus = true)
    | daemonRound answer =>
      have hphase : s.phase = .polling := henabled
      simp only [step, if_pos hphase]
      intro _
      show has (Clock.call _ _ _).2.1.modes modStatus = true
      rw [call_modes]
      cases answer with
      | none => exact has_modStatus_of_apart (clear_and (by decide) _) (hs hphase)
      | some answer => exact has_modStatus_of_apart (set_and (by decide) _) (hs hphase)
    | daemonKill =>
      have hphase : s.phase = .polling := henabled
      simp only [step, if_pos hphase]
      intro h
      cases h
    | daemonUpdate nsecs =>
      have hphase : s.phase = .polling := henabled
      simp only [step, if_pos hphase]
      exact hs
    | pollRead task pollSeconds | pollWrite task =>
      -- the daemon's own `ntv` is not touched
      cases htask : s.pollTask task with
      | _ =>
        simp only [step, htask]
        exact hs
    | kernel e => exact hs
  · rw [step_of_not_enabled henabled]
    exact hs

/-! ## Runs -/

/-- Over every interleaving of the daemon, the poll interval tasks and any
other calls, no status update is lost exactly when every copy that is written
back is fresh. -/
theorem noLostUpdate_iff (cfg : Rtems) (clock : Clock F) (ntv : Timex)
    (ops : List TaskOp) :
    Along (step cfg) (NoLostUpdate cfg) (start clock ntv) ops ↔
      Along (step cfg) (Fresh cfg) (start clock ntv) ops := by
  have hstart : Polling (start clock ntv) := fun h => nomatch h
  refine along_congr (I := Polling) ?_ ?_ hstart (along_true _ ops)
  · exact fun _ op hs _ _ => polling_step hs op
  · exact fun _ op hs _ => noLostUpdate_iff_fresh hs op

/-! ## Two lost updates -/

/-- The start of `rtemsNtpInitialize`, then of the daemon. -/
def daemonUp : List TaskOp :=
  [.kernel (.adjtime
      { modes := modStatus ||| modNano ||| modTimeconst ||| modOffset ||| modFrequency
        status := staPll ||| staUnsync
        constant := secs2tcld daemonSyncIntervalSecs }),
    .daemonRead, .daemonStart]

/-- A task selects the FLL; the next answer of the server announces nothing. -/
def fllRun : List TaskOp :=
  daemonUp ++
    [.kernel (.adjtime { modes := modStatus, status := staPll ||| staFll }),
      .daemonRound (some ⟨leapNo, 0, 500, 10⟩)]

/-- The daemon announces the leap second of June 1972 between the two halves of
`rtemsNtpSetPollInterval(64)`. -/
def pollRun : List TaskOp :=
  daemonUp ++
    [.pollRead 0 64,
      .daemonRound (some ⟨leapIns, unixBaseToNtpBase + 78796799, 500, 10⟩),
      .pollWrite 0]

/-- A machine that ticks once a second and keeps UTC. -/
def utcBoard : Rtems :=
  { longWidth := .ilp32, ppsSync := false, hz := 1, timeoffset := 0 }

def utcClock : Clock LFp32 := ⟨Kernel.boot utcBoard.toConfig, ⟨1000000, 0⟩⟩

instance (cfg : Rtems) (s : Tasks F) (op : TaskOp) :
    Decidable (NoLostUpdate cfg s op) :=
  inferInstanceAs (Decidable (_ = _))

/-- The daemon reverts `STA_FLL`. -/
theorem not_noLostUpdate : ¬ ∀ (cfg : Rtems) (clock : Clock LFp32) (ntv : Timex)
    (ops : List TaskOp), Along (step cfg) (NoLostUpdate cfg) (start clock ntv) ops := by
  intro h
  exact absurd (h utcBoard utcClock { modes := 0 } fllRun) (by decide +kernel)

/-- `rtemsNtpSetPollInterval` reverts the announcement. -/
example : ¬ Along (step utcBoard) (NoLostUpdate utcBoard)
    (start utcClock { modes := 0 }) pollRun := by
  decide +kernel

end Tasks

end Machine

end Nanokernel
