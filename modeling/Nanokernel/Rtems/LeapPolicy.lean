import Nanokernel.Kernel.LeapSecond
import Nanokernel.Rtems.LeapRequest

/-!
# The leap second policy, end to end

The daemon looks at the date when an answer arrives; the kernel inserts or
deletes the second at the midnight that follows the rollover which armed it.
Between the two lie the rest of the second and one rollover. As long as the
machine is armed on the last day of June or December, it fires at the end of
that day (`leaps_on_last_days`); a request that is handled in the last moments
of the day arms it on the day after.
-/

namespace Nanokernel

open BitMask Run

/-! ## The calendar -/

/-- The second lies on 30 June or 31 December, UTC. -/
def onLastDay (tvSec : ℤ) : Bool :=
  let tm := gmtimeR tvSec
  (tm.tmMon + 1 = 6 && tm.tmMday = 30) || (tm.tmMon + 1 = 12 && tm.tmMday = 31)

/-- A date is a matter of the day. -/
theorem onLastDay_congr {t t' : ℤ} (h : t / 86400 = t' / 86400) :
    onLastDay t = onLastDay t' := by
  unfold onLastDay gmtimeR
  rw [h]

/-- Unless a day begins with it, the next second is on the same day. -/
theorem onLastDay_succ {t : ℤ} (h : (t + 1) % 86400 ≠ 0) :
    onLastDay (t + 1) = onLastDay t :=
  onLastDay_congr (by omega)

namespace Clock

variable {F : Type} [LFp F]

/-! ## The kernel -/

/-- A second is inserted or deleted only at the midnight that ends 30 June or
31 December: the clock is one second before it, or two. -/
def LeapsOnLastDay (cfg : Config) (c : Clock F) (e : Event) : Prop :=
  LeapStep cfg c e → ∃ midnight, midnight % 86400 = 0 ∧ onLastDay (midnight - 1) = true ∧
    c.tv.tvSec + (if Leap.Inserts c.leap (step cfg c e).leap then 1 else 2) = midnight

/-- The rollover that arms the machine begins a second of a last day, and to
delete one not the last second of it. -/
def ArmsOnLastDay (cfg : Config) (c : Clock F) (e : Event) : Prop :=
  Rollover cfg c e → c.k.timeState = .ok →
    if has c.k.timeStatus staIns then onLastDay (c.tv.tvSec + 1) = true
    else if has c.k.timeStatus staDel then
      onLastDay (c.tv.tvSec + 1) = true ∧ onLastDay (c.tv.tvSec + 2) = true
    else True

/-- An armed machine fires at the end of a last day. -/
def OnTime (c : Clock F) : Prop :=
  (c.k.timeState = .ins → onLastDay c.tv.tvSec = true) ∧
    (c.k.timeState = .del →
      onLastDay c.tv.tvSec = true ∧ onLastDay (c.tv.tvSec + 1) = true)

variable {cfg : Config} {c : Clock F}

omit [LFp F] in
theorem onTime_of_ne {c : Clock F} (hins : c.k.timeState ≠ .ins)
    (hdel : c.k.timeState ≠ .del) : OnTime c :=
  ⟨fun h => absurd h hins, fun h => absurd h hdel⟩

omit [LFp F] in
/-- The switch, one second further on. -/
theorem leapSecond_onTime {k : Kernel F} {sec : ℤ}
    (hins : k.timeState = .ins → onLastDay sec = true)
    (hdel : k.timeState = .del → onLastDay (sec + 1) = true)
    (harms : k.timeState = .ok →
      if has k.timeStatus staIns then onLastDay (sec + 1) = true
      else if has k.timeStatus staDel then
        onLastDay (sec + 1) = true ∧ onLastDay (sec + 2) = true
      else True) :
    OnTime (⟨(leapSecond k (sec + 1)).1, (leapSecond k (sec + 1)).2, 0⟩ : Clock F) := by
  have hnext : ∀ t : ℤ, ¬ (t + 1).tmod 86400 = 0 → (t + 1) % 86400 ≠ 0 :=
    fun t h h' => h (Int.tmod_eq_zero_of_dvd (Int.dvd_of_emod_eq_zero h'))
  unfold leapSecond
  cases hstate : k.timeState with
  | ok =>
    have harms := harms hstate
    dsimp only
    split_ifs at harms ⊢ with hi hd
    · exact ⟨fun _ => harms, fun h => absurd h (by simp)⟩
    · refine ⟨fun h => absurd h (by simp), fun _ => ⟨harms.1, ?_⟩⟩
      dsimp only
      rw [add_assoc]
      exact harms.2
    · exact onTime_of_ne (by simp [hstate]) (by simp [hstate])
  | ins =>
    dsimp only
    split_ifs with hi hday
    · exact onTime_of_ne (by simp) (by simp)
    · exact onTime_of_ne (by simp) (by simp)
    · -- the day goes on
      refine ⟨fun _ => ?_, fun h => absurd (hstate.symm.trans h) (by simp)⟩
      dsimp only
      rw [onLastDay_succ (hnext sec hday)]
      exact hins hstate
  | del =>
    dsimp only
    split_ifs with hd hday
    · exact onTime_of_ne (by simp) (by simp)
    · exact onTime_of_ne (by simp) (by simp)
    · refine ⟨fun h => absurd (hstate.symm.trans h) (by simp), fun _ => ?_⟩
      dsimp only
      rw [onLastDay_succ (hnext (sec + 1) hday)]
      exact ⟨hdel hstate, hdel hstate⟩
  | oop => exact onTime_of_ne (by simp) (by simp)
  | wait =>
    dsimp only
    split_ifs
    · exact onTime_of_ne (by simp) (by simp)
    · exact onTime_of_ne (by simp [hstate]) (by simp [hstate])

theorem tick_onTime (h : OnTime c) (harms : ArmsOnLastDay cfg c .tick) :
    OnTime (c.tick cfg) := by
  by_cases hroll : Rollover cfg c .tick
  · have hleap : OnTime (⟨(leapSecond
        (widenError cfg (ntpTickAdjust cfg c.k c.tv 0).1) (c.tv.tvSec + 1)).1,
        (leapSecond (widenError cfg (ntpTickAdjust cfg c.k c.tv 0).1)
          (c.tv.tvSec + 1)).2, 0⟩ : Clock F) :=
      leapSecond_onTime (fun hs => h.1 hs) (fun hs => (h.2 hs).2) (harms hroll)
    rw [tick_of_rollover hroll.2, rollover_eq, ppsWatchdog_frame]
    exact hleap
  · have hlt : (ntpTickAdjust cfg c.k c.tv 0).2.tvNsec < nanosecond :=
      not_le.mp fun hle => hroll ⟨rfl, hle⟩
    rw [tick_of_lt hlt]
    exact h

/-- Between ticks the machine is at most reset, and the clock rests. -/
theorem step_timeState_of_ne (cfg : Config) (c : Clock F) {e : Event} (he : e ≠ .tick) :
    ((step cfg c e).k.timeState = c.k.timeState ∨ (step cfg c e).k.timeState = .ok) ∧
      (step cfg c e).tv = c.tv := by
  cases e with
  | tick => exact absurd rfl he
  | adjtime tp =>
    refine ⟨?_, rfl⟩
    have hstate := adjKernel_timeState cfg tp c.k c.tv.tvSec
    split_ifs at hstate
    · exact Or.inr hstate
    · exact Or.inl hstate
  | hardupdate offset => exact ⟨Or.inl (hardupdate_timeState cfg c.k c.tv.tvSec offset), rfl⟩
  | hardpps tsp nsec =>
    refine ⟨Or.inl ?_, rfl⟩
    show (Nanokernel.hardpps cfg c.k tsp nsec).timeState = _
    rw [hardpps_frame]

theorem step_onTime (h : OnTime c) {e : Event} (harms : ArmsOnLastDay cfg c e) :
    OnTime (step cfg c e) := by
  by_cases he : e = .tick
  · subst he
    exact tick_onTime h harms
  · obtain ⟨hstate, htv⟩ := step_timeState_of_ne cfg c he
    unfold OnTime
    rw [htv]
    rcases hstate with hstate | hstate
    · rw [hstate]
      exact h
    · rw [hstate]
      exact ⟨fun hins => absurd hins (by simp), fun hdel => absurd hdel (by simp)⟩

theorem leapsOnLastDay_of_onTime (h : OnTime c) (e : Event) : LeapsOnLastDay cfg c e := by
  rintro ⟨⟨rfl, hroll⟩, hleap⟩
  have hmidnight := (tick_leap ⟨rfl, hroll⟩).midnightOnly
  unfold Leap.MidnightOnly at hmidnight
  by_cases hins : Leap.Inserts c.leap (c.tick cfg).leap
  · rw [if_pos hins] at hmidnight
    obtain ⟨hsec, hday⟩ := hmidnight
    rw [hsec] at hday
    refine ⟨c.tv.tvSec + 1, ?_, ?_, ?_⟩
    · have hlast : c.tv.tvSec % 86400 = 86399 := hday
      omega
    · rw [add_sub_cancel_right]
      exact h.1 hins.1
    · show _ + (if Leap.Inserts c.leap (c.tick cfg).leap then (1 : ℤ) else 2) = _
      rw [if_pos hins]
  · have hdel : Leap.Deletes c.leap (c.tick cfg).leap := hleap.resolve_left hins
    rw [if_neg hins, if_pos hdel] at hmidnight
    obtain ⟨hsec, hday⟩ := hmidnight
    rw [hsec] at hday
    refine ⟨c.tv.tvSec + 2, hday, ?_, ?_⟩
    · have hlast : c.tv.tvSec + 2 - 1 = c.tv.tvSec + 1 := by omega
      rw [hlast]
      exact (h.2 hdel.1).2
    · show _ + (if Leap.Inserts c.leap (c.tick cfg).leap then (1 : ℤ) else 2) = _
      rw [if_neg hins]

end Clock

namespace Tasks

variable {F : Type} [LFp F]

/-! ## The daemon -/

/-- The call of the kernel in a step of the tasks. -/
def LeapsOnLastDay (cfg : Rtems) (s : Tasks F) : TaskOp → Prop
  | .kernel e => s.clock.LeapsOnLastDay cfg.toConfig e
  | _ => True

/-- Whenever `second_overflow` arms the leap second machine, the second that
begins is on the last day of June or December. -/
def ArmsOnLastDay (cfg : Rtems) (s : Tasks F) : TaskOp → Prop
  | .kernel e => s.clock.ArmsOnLastDay cfg.toConfig e
  | _ => True

variable {cfg : Rtems} {s : Tasks F}

/-- Every step of a task makes at most one call of the kernel, and only the
ticker ticks. -/
theorem step_clock (cfg : Rtems) (s : Tasks F) (op : TaskOp) :
    (step cfg s op).clock = s.clock ∨
      ∃ e, (step cfg s op).clock = s.clock.step cfg.toConfig e ∧
        (op = .kernel e ∨ e ≠ .tick) := by
  by_cases henabled : Enabled s op
  · right
    cases op with
    | daemonRead =>
      have hphase : s.phase = .start := henabled
      simp only [step, if_pos hphase]
      exact ⟨.adjtime _, rfl, Or.inr (by simp)⟩
    | daemonStart =>
      have hphase : s.phase = .lookedUp := henabled
      simp only [step, if_pos hphase]
      exact ⟨.adjtime _, rfl, Or.inr (by simp)⟩
    | daemonUpdate nsecs =>
      have hphase : s.phase = .polling := henabled
      simp only [step, if_pos hphase]
      exact ⟨.hardupdate nsecs, rfl, Or.inr (by simp)⟩
    | daemonRound answer =>
      have hphase : s.phase = .polling := henabled
      simp only [step, if_pos hphase]
      exact ⟨.adjtime _, rfl, Or.inr (by simp)⟩
    | daemonKill =>
      have hphase : s.phase = .polling := henabled
      simp only [step, if_pos hphase]
      exact ⟨.adjtime _, rfl, Or.inr (by simp)⟩
    | pollRead task pollSeconds =>
      cases htask : s.pollTask task with
      | holds ntv pollSeconds' => exact absurd htask (henabled ntv pollSeconds')
      | _ =>
        simp only [step, htask]
        exact ⟨.adjtime { modes := 0 }, rfl, Or.inr (by simp)⟩
    | pollWrite task =>
      obtain ⟨ntv, pollSeconds, htask⟩ := henabled
      simp only [step, htask]
      exact ⟨.adjtime _, rfl, Or.inr (by simp)⟩
    | kernel e => exact ⟨e, rfl, Or.inl rfl⟩
  · rw [step_of_not_enabled henabled]
    exact Or.inl rfl

theorem step_onTime (h : s.clock.OnTime) {op : TaskOp} (harms : ArmsOnLastDay cfg s op) :
    (step cfg s op).clock.OnTime := by
  rcases step_clock cfg s op with hclock | ⟨e, hclock, hop⟩
  · rw [hclock]
    exact h
  · rw [hclock]
    apply Clock.step_onTime h
    rcases hop with rfl | hne
    · exact harms
    · rintro ⟨rfl, -⟩
      exact absurd rfl hne

theorem leapsOnLastDay_of_onTime (h : s.clock.OnTime) (op : TaskOp) :
    LeapsOnLastDay cfg s op := by
  cases op with
  | kernel e => exact Clock.leapsOnLastDay_of_onTime h e
  | _ => trivial

/-- Over every run of the daemon, the ticker and any other tasks, as long as the
leap second machine is armed on the last day of June or December only, a second
is inserted or deleted only at the end of such a day. -/
theorem leaps_on_last_days (cfg : Rtems) (clock : Clock F) (ntv : Timex)
    (ops : List TaskOp) (hok : clock.k.timeState = .ok)
    (harms : Along (step cfg) (ArmsOnLastDay cfg) (start clock ntv) ops) :
    Along (step cfg) (LeapsOnLastDay cfg) (start clock ntv) ops :=
  along_of_invariant (I := fun s : Tasks F => s.clock.OnTime)
    (fun _ _ hs hop => step_onTime hs hop)
    (fun _ op hs _ => leapsOnLastDay_of_onTime hs op)
    (Clock.onTime_of_ne (by simp [start, hok]) (by simp [start, hok])) harms

/-- Three seconds before the end of 30 June 1972 the server announces an inserted
second. -/
def inTimeRun : List TaskOp :=
  daemonUp ++ .daemonRound (some ⟨leapIns, unixBaseToNtpBase + 78796797, 500, 10⟩) ::
    List.replicate 4 (.kernel .tick)

instance (cfg : Config) (c : Clock F) (e : Event) : Decidable (c.ArmsOnLastDay cfg e) :=
  inferInstanceAs (Decidable (_ → _ = _ → @ite _ _ _ (_ = _) (@ite _ _ _ (_ ∧ _) True)))

instance (cfg : Rtems) (s : Tasks F) : (op : TaskOp) → Decidable (ArmsOnLastDay cfg s op)
  | .kernel _ => inferInstanceAs (Decidable (Clock.ArmsOnLastDay _ _ _))
  | .daemonRead | .daemonStart | .daemonUpdate _ | .daemonRound _ | .daemonKill
  | .pollRead _ _ | .pollWrite _ => inferInstanceAs (Decidable True)

theorem leaps_on_last_days_inTimeRun :
    Along (step utcBoard) (LeapsOnLastDay utcBoard)
      (start (⟨Kernel.boot utcBoard.toConfig, 78796797, 0⟩ : Clock LFp32) { modes := 0 })
      inTimeRun :=
  leaps_on_last_days utcBoard _ _ inTimeRun (by decide) (by decide +kernel)

/-! ## A request in the last second -/

/-- A poll of the daemon, or a tick. An answer comes from a server whose clock is
within `MAXPHASE` of the kernel's. -/
def Polls (s : Tasks F) : TaskOp → Prop
  | .daemonRound (some answer) => ∃ nsec, 0 ≤ nsec ∧ nsec < nanosecond ∧
      |(answer.srvRcvts - unixBaseToNtpBase) * nanosecond + nsec
        - (s.clock.tv.tvSec * nanosecond + s.clock.tv.tvNsec)| ≤ maxphase
  | .daemonRead | .daemonStart | .daemonUpdate _ | .daemonRound none | .daemonKill => True
  | .kernel .tick => True
  | _ => False

/-- One second before the end of 30 June 1972, the clock initialised. -/
def lateClock : Clock LFp32 :=
  (⟨Kernel.boot utcBoard.toConfig, 78796799, 0⟩ : Clock LFp32).step utcBoard.toConfig
    (.adjtime
      { modes := modStatus ||| modNano ||| modTimeconst ||| modOffset ||| modFrequency
        status := staPll ||| staUnsync
        constant := secs2tcld daemonSyncIntervalSecs })

/-- The answer of that second announces the leap second. -/
def lateRequest : List TaskOp :=
  [.daemonRead, .daemonStart,
    .daemonRound (some ⟨leapIns, unixBaseToNtpBase + 78796799, 500, 10⟩), .kernel .tick]

/-- Armed, and waiting for the end of the day; nobody calls. -/
def waiting (maxerror tvSec : ℤ) : Clock LFp32 :=
  ⟨{ lateClock.k with
    timeState := .ins
    timeStatus := staPll ||| staNano ||| staIns
    timeMaxerror := maxerror
    timeEsterror := 10 }, tvSec, 0⟩

theorem locked_waiting (m s : ℤ) :
    Clock.Locked utcBoard.toConfig (waiting m s).k := by
  have hlocked : Clock.Locked utcBoard.toConfig (waiting 0 0).k :=
    ⟨rfl, by decide +kernel, by decide +kernel⟩
  exact hlocked.withError m

/-- The day goes on. -/
theorem run_tick_waiting (n : ℕ) (m s : ℤ)
    (hday : ∀ i : ℕ, i < n → (s + i + 1).tmod 86400 ≠ 0) :
    ∃ m', run (Clock.step utcBoard.toConfig) (waiting m s) (List.replicate n .tick)
      = waiting m' (s + n) := by
  have hins : has (staPll ||| staNano ||| staIns) staIns = true := by decide
  refine ⟨_, Clock.run_tick_of_locked (locked_waiting m s) rfl n fun i hi => ?_⟩
  exact leapSecond_of_ins rfl hins (hday i hi)

theorem run_kernel_clock (cfg : Rtems) (s : Tasks F) (es : List Event) :
    (run (step cfg) s (es.map .kernel)).clock
      = run (Clock.step cfg.toConfig) s.clock es := by
  induction es generalizing s with
  | nil => rfl
  | cons e es ih => exact ih _

/-- A day passes. -/
def lateRun (n : ℕ) : List TaskOp :=
  lateRequest ++ ((List.replicate n .tick).map .kernel ++ [.kernel .tick])

theorem polls_lateRun (n : ℕ) :
    Along (step utcBoard) Polls (start lateClock { modes := 0 }) (lateRun n) := by
  refine (along_append _ _ _ _).mpr ⟨?_, along_of_forall ?_⟩
  · refine ⟨trivial, trivial, ⟨0, by decide, by decide, ?_⟩, trivial, trivial⟩
    decide +kernel
  · intro op hop s
    obtain rfl : op = .kernel .tick := by
      rcases List.mem_append.mp hop with hop | hop
      · obtain ⟨e, he, rfl⟩ := List.mem_map.mp hop
        rw [List.eq_of_mem_replicate he]
      · exact List.mem_singleton.mp hop
    trivial

theorem not_leapsOnLastDay_waiting (m : ℤ) :
    ¬ (waiting m 78883199).LeapsOnLastDay utcBoard.toConfig .tick := by
  intro h
  have hins : has (staPll ||| staNano ||| staIns) staIns = true := by decide
  have hday : ((waiting m 78883199).tv.tvSec + 1).tmod 86400 = 0 :=
    (by decide : (78883200 : ℤ).tmod 86400 = 0)
  have hleap : Clock.LeapStep utcBoard.toConfig (waiting m 78883199) .tick :=
    Clock.leapStep_of_locked (locked_waiting m 78883199) rfl rfl hins hday
  have hinserts : Leap.Inserts (waiting m 78883199).leap
      ((waiting m 78883199).tick utcBoard.toConfig).leap :=
    hleap.2.resolve_right fun hdeletes => nomatch hdeletes.1
  obtain ⟨midnight, -, hday, hsec⟩ := h hleap
  have hsec : (78883199 : ℤ) + (if Leap.Inserts (waiting m 78883199).leap
      ((waiting m 78883199).tick utcBoard.toConfig).leap then 1 else 2) = midnight := hsec
  rw [if_pos hinserts] at hsec
  rw [← hsec] at hday
  exact absurd hday (by decide)

/-- The rollover after the answer begins 1 July; the machine is armed by it and
fires at the end of that day. -/
theorem not_leapsOnLastDay : ¬ ∀ (cfg : Rtems) (clock : Clock LFp32) (ntv : Timex)
    (ops : List TaskOp), cfg.timeoffset = 0 → clock.k.timeState = .ok →
    Along (step cfg) Polls (start clock ntv) ops →
    Along (step cfg) (LeapsOnLastDay cfg) (start clock ntv) ops := by
  intro h
  obtain ⟨n, hn⟩ : ∃ n : ℕ, n = 86399 := ⟨_, rfl⟩
  have hrun := h utcBoard lateClock { modes := 0 } (lateRun n) rfl (by decide +kernel)
    (polls_lateRun n)
  unfold lateRun at hrun
  rw [along_append, along_append] at hrun
  -- one day later, at the midnight that ends 1 July
  have hlast : Clock.LeapsOnLastDay utcBoard.toConfig (Tasks.clock (run _ _ _)) .tick :=
    hrun.2.2.1
  have harmed : (run (step utcBoard) (start lateClock { modes := 0 }) lateRequest).clock
      = waiting 1000 78796800 := by
    decide +kernel
  obtain ⟨m, hm⟩ := run_tick_waiting n 1000 78796800 (by
    intro i hi
    rw [Int.tmod_eq_emod_of_nonneg (by omega)]
    omega)
  have hend : (78796800 : ℤ) + n = 78883199 := by omega
  rw [run_kernel_clock, harmed, hm, hend] at hlast
  exact not_leapsOnLastDay_waiting m hlast

/-! ## Requests in good time -/

/-- A step of the daemon or the ticker; a request is handled before the last
three seconds of the day, by the kernel clock. -/
def AsksInTime (cfg : Rtems) (s : Tasks F) : TaskOp → Prop
  | .daemonRound (some answer) =>
    lastDay cfg answer = true →
      leapIndicator answer = leapIns ∨ leapIndicator answer = leapDel →
      onLastDay (s.clock.tv.tvSec + 1) = true ∧ onLastDay (s.clock.tv.tvSec + 3) = true
  | .daemonRead | .daemonStart | .daemonUpdate _ | .daemonRound none | .daemonKill => True
  | .kernel .tick => True
  | _ => False

/-- The flags that matter to the leap second machine. -/
def leapMask : BitVec 32 := staPll ||| (staIns ||| staDel)

end Tasks

namespace Clock

variable {F : Type} [LFp F] {cfg : Config} {c c' : Clock F}

/-- Flags that are yet to arm the machine will do so on a last day. A machine
armed for the other leap second is disarmed first, a second later. -/
def Scheduled (c : Clock F) : Prop :=
  match c.k.timeState with
  | .ok => c.armed = true →
      onLastDay (c.tv.tvSec + 1) = true ∧ onLastDay (c.tv.tvSec + 2) = true
  | .ins => has c.k.timeStatus staIns = false → c.armed = true →
      onLastDay (c.tv.tvSec + 2) = true ∧ onLastDay (c.tv.tvSec + 3) = true
  | .del => has c.k.timeStatus staDel = false → c.armed = true →
      onLastDay (c.tv.tvSec + 2) = true ∧ onLastDay (c.tv.tvSec + 3) = true
  | _ => True

omit [LFp F] in
theorem scheduled_congr (hstate : c'.k.timeState = c.k.timeState)
    (hstatus : c'.k.timeStatus &&& (staIns ||| staDel)
      = c.k.timeStatus &&& (staIns ||| staDel)) (htv : c'.tv.tvSec = c.tv.tvSec) :
    Scheduled c' ↔ Scheduled c := by
  have hins := has_eq_of_and_eq (and_eq_of_sub hstatus (m := staIns) (by decide))
  have hdel := has_eq_of_and_eq (and_eq_of_sub hstatus (m := staDel) (by decide))
  have harmed : c'.armed = c.armed := has_eq_of_and_eq hstatus
  unfold Scheduled
  rw [hstate, harmed, hins, hdel, htv]

omit [LFp F] in
theorem scheduled_of_not_armed (h : c.armed = false) : Scheduled c := by
  unfold Scheduled
  rw [h]
  cases c.k.timeState <;> simp

omit [LFp F] in
/-- With three seconds of the day to come, any request is in time. -/
theorem scheduled_of_days (h1 : onLastDay (c.tv.tvSec + 1) = true)
    (h3 : onLastDay (c.tv.tvSec + 3) = true) : Scheduled c := by
  have h2 : onLastDay (c.tv.tvSec + 2) = true := by
    by_cases hday : (c.tv.tvSec + 2) % 86400 = 0
    · rw [← h3]
      exact onLastDay_congr (by omega)
    · rw [← h1]
      exact onLastDay_congr (by omega)
  unfold Scheduled
  cases c.k.timeState with
  | ok => exact fun _ => ⟨h1, h2⟩
  | ins => exact fun _ _ => ⟨h2, h3⟩
  | del => exact fun _ _ => ⟨h2, h3⟩
  | oop => trivial
  | wait => trivial

theorem armsOnLastDay_of_scheduled (h : Scheduled c) (e : Event) :
    ArmsOnLastDay cfg c e := by
  rintro - hok
  have harmed : c.armed = (has c.k.timeStatus staIns || has c.k.timeStatus staDel) :=
    has_or _ _ _
  unfold Scheduled at h
  rw [hok] at h
  dsimp only at h
  rw [harmed] at h
  split_ifs with hins hdel
  · exact (h (by simp [hins])).1
  · exact h (by simp [hdel])

omit [LFp F] in
/-- The switch keeps the schedule. -/
theorem leapSecond_scheduled {k : Kernel F} {sec : ℤ}
    (h : Scheduled (⟨k, ⟨sec, 0⟩⟩ : Clock F)) :
    Scheduled (⟨(leapSecond k (sec + 1)).1, ⟨(leapSecond k (sec + 1)).2, 0⟩⟩ : Clock F) := by
  unfold leapSecond
  cases hstate : k.timeState with
  | ok =>
    dsimp only
    split_ifs with hins hdel
    · exact fun hno => absurd (hno.symm.trans hins) Bool.false_ne_true
    · exact fun hno => absurd (hno.symm.trans hdel) Bool.false_ne_true
    · refine scheduled_of_not_armed ?_
      unfold armed
      rw [has_or]
      simp [hins, hdel]
  | ins =>
    unfold Scheduled at h
    rw [hstate] at h
    dsimp only at h ⊢
    split_ifs with hins hday
    · -- disarmed: the next rollover arms it again
      intro harmed
      show onLastDay (sec + 1 + 1) = true ∧ onLastDay (sec + 1 + 2) = true
      rw [add_assoc, add_assoc]
      exact h (by simpa using hins) harmed
    · trivial
    · unfold Scheduled
      rw [hstate]
      exact fun hno => absurd (by simpa using hno) hins
  | del =>
    unfold Scheduled at h
    rw [hstate] at h
    dsimp only at h ⊢
    split_ifs with hdel hday
    · intro harmed
      show onLastDay (sec + 1 + 1) = true ∧ onLastDay (sec + 1 + 2) = true
      rw [add_assoc, add_assoc]
      exact h (by simpa using hdel) harmed
    · trivial
    · unfold Scheduled
      rw [hstate]
      exact fun hno => absurd (by simpa using hno) hdel
  | oop => trivial
  | wait =>
    dsimp only
    split_ifs with harmed
    · exact scheduled_of_not_armed (by simpa [armed] using harmed)
    · unfold Scheduled
      rw [hstate]
      trivial

theorem tick_scheduled (h : Scheduled c) : Scheduled (c.tick cfg) := by
  by_cases hroll : nanosecond ≤ (ntpTickAdjust cfg c.k c.tv 0).2.tvNsec
  · have hbefore : Scheduled
        (⟨widenError cfg (ntpTickAdjust cfg c.k c.tv 0).1, c.tv.tvSec, 0⟩ : Clock F) := h
    have hleap := leapSecond_scheduled hbefore
    have hstatus := rollover_status cfg (ntpTickAdjust cfg c.k c.tv 0).1 c.tv.tvSec
      (by decide : Writable (staIns ||| staDel))
    rw [tick_of_rollover hroll]
    refine (scheduled_congr ?_ ?_ ?_).mpr hleap
    · rw [rollover_eq, ppsWatchdog_frame]
      rfl
    · rw [hstatus, leapSecond_frame]
      rfl
    · rw [rollover_eq]
  · rw [tick_of_lt (not_le.mp hroll)]
    exact h

end Clock

namespace Tasks

variable {F : Type} [LFp F] {cfg : Rtems} {s : Tasks F}

/-- The flags are scheduled, and the daemon's copy of them is up to date. -/
structure InTime (s : Tasks F) : Prop where
  scheduled : s.clock.Scheduled
  polling : Polling s
  copy : s.phase = .lookedUp ∨ s.phase = .polling →
    s.ntv.status &&& leapMask = s.clock.k.timeStatus &&& leapMask

/-- The structure that is copied out holds the status word. -/
theorem call_report_status (cfg : Config) (c : Clock F) (ntv : Timex) :
    (c.call cfg ntv).2.1.status = (c.call cfg ntv).1.k.timeStatus := by
  show (adjReport cfg (adjKernel cfg c.k c.tv.tvSec ntv) ntv).status = _
  unfold adjReport
  split_ifs <;> rfl

/-- A call that writes the flags back as they are. -/
theorem call_scheduled {c : Clock F} {ntv : Timex} (h : c.Scheduled)
    (hcopy : has ntv.modes modStatus = true →
      ntv.status &&& leapMask = c.k.timeStatus &&& leapMask) :
    (c.call cfg.toConfig ntv).1.Scheduled := by
  have hm : Writable leapMask := by decide
  have hstatus : (c.call cfg.toConfig ntv).1.k.timeStatus &&& leapMask
      = c.k.timeStatus &&& leapMask := by
    rw [call_status hm]
    split_ifs with hmod
    · exact hcopy hmod
    · rfl
  have hstate : (c.call cfg.toConfig ntv).1.k.timeState = c.k.timeState := by
    have hdrop : ¬ DropsPll c.k ntv := by
      rintro ⟨hmod, hk, hntv⟩
      have hpll := has_eq_of_and_eq (and_eq_of_sub (hcopy hmod) (m := staPll) (by decide))
      exact Bool.false_ne_true ((hntv.symm.trans hpll).trans hk)
    exact (adjKernel_timeState _ _ _ _).trans (if_neg hdrop)
  exact (Clock.scheduled_congr hstate (and_eq_of_sub hstatus (by decide)) rfl).mpr h

/-- The answer asks for nothing new, or in good time. -/
theorem daemonRound_scheduled (h : InTime s) (hphase : s.phase = .polling)
    {result : Option Answer} (hasks : AsksInTime cfg s (.daemonRound result)) :
    (s.daemonRound cfg result).clock.Scheduled := by
  have hcopy := h.copy (Or.inr hphase)
  have hunsync : Apart leapMask staUnsync := by decide
  cases result with
  | none =>
    exact call_scheduled h.scheduled fun _ => (syncStatus_and hunsync _ _).trans hcopy
  | some answer =>
    by_cases hno : leapIndicator answer = leapNo
    · -- nothing is announced, and both flags are cleared
      apply Clock.scheduled_of_not_armed
      have harmed : has (step cfg s (.daemonRound (some answer))).clock.k.timeStatus
            (staIns ||| staDel) = has (leapStatus cfg answer s.ntv.status) _ :=
        daemonRound_has (by decide) (by decide) h.polling hphase
      simp only [step, if_pos hphase] at harmed
      unfold Clock.armed
      rw [harmed, leapStatus_of_no hno]
      unfold has
      rw [and_not_and_self]
      rfl
    · by_cases hask : lastDay cfg answer = true ∧
          (leapIndicator answer = leapIns ∨ leapIndicator answer = leapDel)
      · obtain ⟨h1, h3⟩ := hasks hask.1 hask.2
        exact Clock.scheduled_of_days h1 h3
      · have hleave : leapStatus cfg answer s.ntv.status = s.ntv.status :=
          leapStatus_of_else hno (fun hi => hask ⟨hi.1, Or.inl hi.2⟩)
            (fun hd => hask ⟨hd.1, Or.inr hd.2⟩)
        exact call_scheduled h.scheduled fun _ =>
          (syncStatus_and hunsync _ _).trans ((congrArg (· &&& leapMask) hleave).trans hcopy)

theorem step_inTime (h : InTime s) {op : TaskOp} (hasks : AsksInTime cfg s op) :
    InTime (step cfg s op) := by
  have hpolling : Polling (step cfg s op) := polling_step h.polling op
  by_cases henabled : Enabled s op
  · cases op with
    | daemonRead =>
      have hphase : s.phase = .start := henabled
      simp only [step, if_pos hphase] at hpolling ⊢
      refine ⟨call_scheduled h.scheduled fun hread => ?_, hpolling, fun _ => ?_⟩
      · -- the look-up writes nothing
        have hread : has (0 : BitVec 32) modStatus = true := hread
        exact absurd hread (by decide)
      · exact congrArg (· &&& leapMask) (call_report_status _ _ _)
    | daemonStart =>
      have hphase : s.phase = .lookedUp := henabled
      simp only [step, if_pos hphase] at hpolling ⊢
      refine ⟨call_scheduled h.scheduled fun _ => ?_, hpolling, fun _ => ?_⟩
      · exact (clear_and (by decide) _).trans (h.copy (Or.inl hphase))
      · exact congrArg (· &&& leapMask) (call_report_status _ _ _)
    | daemonUpdate nsecs =>
      have hphase : s.phase = .polling := henabled
      have hstatus : (hardupdate cfg.toConfig s.clock.k s.clock.tv.tvSec nsecs).timeStatus
            &&& leapMask = s.clock.k.timeStatus &&& leapMask :=
        hardupdate_status cfg.toConfig s.clock.k s.clock.tv.tvSec nsecs (by decide)
      have hsched : (s.clock.step cfg.toConfig (.hardupdate nsecs)).Scheduled ↔ _ :=
        Clock.scheduled_congr (hardupdate_timeState cfg.toConfig s.clock.k _ nsecs)
          (and_eq_of_sub hstatus (by decide)) rfl
      simp only [step, if_pos hphase] at hpolling ⊢
      refine ⟨hsched.mpr h.scheduled, hpolling, fun _ => ?_⟩
      exact (h.copy (Or.inr hphase)).trans hstatus.symm
    | daemonRound result =>
      have hphase : s.phase = .polling := henabled
      have hround := daemonRound_scheduled h hphase hasks
      simp only [step, if_pos hphase] at hpolling ⊢
      refine ⟨hround, hpolling, fun _ => ?_⟩
      exact congrArg (· &&& leapMask) (call_report_status _ _ _)
    | daemonKill =>
      have hphase : s.phase = .polling := henabled
      simp only [step, if_pos hphase] at hpolling ⊢
      refine ⟨call_scheduled h.scheduled fun _ => ?_, hpolling, fun _ => ?_⟩
      · exact (set_and (by decide) _).trans (h.copy (Or.inr hphase))
      · exact congrArg (· &&& leapMask) (call_report_status _ _ _)
    | kernel e =>
      cases e with
      | tick =>
        refine ⟨Clock.tick_scheduled h.scheduled, hpolling, fun hphase => ?_⟩
        exact (h.copy hphase).trans (Clock.step_status (by decide) _ _ (by simp)).symm
      | _ => exact hasks.elim
    | pollRead task pollSeconds => exact hasks.elim
    | pollWrite task => exact hasks.elim
  · rw [step_of_not_enabled henabled] at hpolling ⊢
    exact h

theorem armsOnLastDay_of_inTime (h : InTime s) {op : TaskOp} (hasks : AsksInTime cfg s op) :
    ArmsOnLastDay cfg s op := by
  cases op with
  | kernel e => exact Clock.armsOnLastDay_of_scheduled h.scheduled e
  | _ => trivial

/-- Requests that are handled early enough in the last day arm the machine on
that day. -/
theorem along_armsOnLastDay_of_asks (cfg : Rtems) (clock : Clock F) (ntv : Timex)
    (ops : List TaskOp) (harmed : clock.armed = false)
    (hasks : Along (step cfg) (AsksInTime cfg) (start clock ntv) ops) :
    Along (step cfg) (ArmsOnLastDay cfg) (start clock ntv) ops := by
  refine along_of_invariant (I := InTime) ?_ ?_ ?_ hasks
  · exact fun _ _ hs hop => step_inTime hs hop
  · exact fun _ _ hs hop => armsOnLastDay_of_inTime hs hop
  · have hpolling : Polling (start clock ntv) := fun h => nomatch h
    refine ⟨Clock.scheduled_of_not_armed harmed, hpolling, fun hphase => ?_⟩
    -- there is no copy yet
    rcases hphase with hphase | hphase
    · cases hphase
    · cases hphase

end Tasks

end Nanokernel
