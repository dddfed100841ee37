import Nanokernel.Rtems.DiffTime

/-!
# The poll loop of the daemon

One round of `ntpDaemon` of `rtemsdep.c`: up to three batches of three shots
at the server, the filter on the roundtrip time, the clock update and the
report to the kernel. One counter, `retry`, is spent by failed shots and by
filtered batches alike and is read again as the verdict on the round. The
round is cut at every shot, since other tasks run while the daemon waits for
the network.
-/

namespace Nanokernel

open BitMask Run

/-! ## The round -/

/-- The local variables of a round; `tryIdx` is the variable `try`. -/
structure Round where
  retry : ℤ
  shots : ℤ
  best : Fin 2
  tryIdx : Fin 2
  data : Fin 2 → DiffTimeCbData

namespace Round

/-- The start of a few shots. -/
def batch (r : Round) (retry : ℤ) : Round :=
  { r with retry := retry, shots := 0, best := 0, tryIdx := 0 }

/-- A shot was answered: remember the best one. The comparison is `<=`, so that
we switch after the first try. -/
def record (r : Round) (answer : DiffTimeCbData) : Round :=
  let data := Function.update r.data r.tryIdx answer
  if (data r.tryIdx).tripns ≤ (data r.best).tripns then
    { r with
      data := data
      best := r.tryIdx
      tryIdx := r.tryIdx + 1
      shots := r.shots + 1 }
  else { r with data := data, shots := r.shots + 1 }

/-- `data[best]`. -/
def bestData (r : Round) : DiffTimeCbData := r.data r.best

end Round

/-- `acceptFiltered()`: the verdict on a delay and the new `avgDelay`. -/
def acceptFiltered (cfg : Config) (avgDelay delay : ℤ) : Bool × ℤ :=
  if avgDelay = 0 then (true, delay)
  else (delay < avgDelay, cfg.ulong (cfg.ulong (3 * avgDelay) / 2 ^ 2 + delay / 2))

/-- The offset for `hardupdate()`, limited to `MAXPHASE`. -/
def updateNsecs (cfg : Config) (diff : BitVec 64) : ℤ :=
  if (nsec2frac cfg maxphase).slt diff then maxphase
  else if diff.slt (-nsec2frac cfg maxphase) then -maxphase
  else frac2nsec cfg diff

/-- Where the daemon is in a round: at its shots, or past the loops and before
the report. `updated` records whether `locked_hardupdate()` was called. -/
inductive RoundStage where
  | shooting
  | closing (updated : Bool)
deriving DecidableEq, Repr

/-- The tasks, with the round the daemon is in and the `avgDelay` of the
filter. -/
structure Poller (F : Type) where
  tasks : Tasks F
  avgDelay : ℤ
  round : Round
  stage : RoundStage

/-- The result of a shot, the end of a round with what the statistics came to,
and a step of another task. -/
inductive PollOp where
  | shot (result : Option DiffTimeCbData)
  | close (maxerr jitter : ℤ)
  | call (op : TaskOp)
deriving DecidableEq, Repr

/-- The steps of the daemon itself. -/
def TaskOp.byDaemon : TaskOp → Bool
  | .daemonRead | .daemonStart | .daemonUpdate _ | .daemonRound _ | .daemonKill => true
  | .pollRead _ _ | .pollWrite _ | .kernel _ => false

namespace Poller

variable {F : Type} [LFp F]

/-- What follows the shots: give up without an answer, drop an answer with
excessive roundtrip time, and update the clock with any other. -/
def afterShots (cfg : Rtems) (s : Poller F) : Poller F :=
  if s.round.shots = 0 then { s with stage := .closing false }
  else
    let best := s.round.bestData
    let (accepted, avgDelay) := acceptFiltered cfg.toConfig s.avgDelay best.tripns
    let s := { s with avgDelay := avgDelay }
    if !accepted then
      let retry : ℤ := s.round.retry - 1
      if retry > 0 then { s with round := s.round.batch retry }
      else { s with round := { s.round with retry := retry }, stage := .closing false }
    else
      let update := Event.hardupdate (updateNsecs cfg.toConfig best.diff)
      { s with
        tasks := { s.tasks with clock := s.tasks.clock.step cfg.toConfig update }
        stage := .closing true }

/-- One turn of the inner loop. -/
def shot (cfg : Rtems) (s : Poller F) : Option DiffTimeCbData → Poller F
  | none =>
    let s := { s with round := { s.round with retry := s.round.retry - 1 } }
    if s.round.retry > 0 then s else afterShots cfg s
  | some answer =>
    let s := { s with round := s.round.record answer }
    if s.round.shots ≥ 3 then afterShots cfg s else s

/-- The end of a round: success is what `retry` says. The next round starts with
three retries. -/
def close (cfg : Rtems) (s : Poller F) (maxerr jitter : ℤ) : Poller F :=
  let best := s.round.bestData
  let answer := if s.round.retry ≤ 0 then none
    else some ⟨best.liVnMode, best.srvRcvts.toNat, maxerr, jitter⟩
  { s with
    tasks := s.tasks.daemonRound cfg answer
    round := s.round.batch 3
    stage := .shooting }

def step (cfg : Rtems) (s : Poller F) : PollOp → Poller F
  | .shot result =>
    match s.stage with
    | .shooting => s.shot cfg result
    | .closing _ => s
  | .close maxerr jitter =>
    match s.stage with
    | .shooting => s
    | .closing _ => s.close cfg maxerr jitter
  | .call op => if op.byDaemon then s else { s with tasks := s.tasks.step cfg op }

/-- The daemon enters its poll loop. The filter remembers the delays of an
earlier daemon, and `data` is not initialised. -/
def start (cfg : Rtems) (tasks : Tasks F) (avgDelay : ℤ)
    (data : Fin 2 → DiffTimeCbData) : Poller F :=
  ⟨tasks.step cfg .daemonStart, avgDelay, ⟨3, 0, 0, 0, data⟩, .shooting⟩

/-- At the end of a round: whether the clock was updated in it. -/
def closed (s : Poller F) : PollOp → Option Bool
  | .close _ _ =>
    match s.stage with
    | .shooting => none
    | .closing updated => some updated
  | _ => none

/-! ## The count of failed rounds -/

/-- The cap that keeps `failedsyncs` from overflowing. -/
def capSyncs (failedsyncs : ℤ) : ℤ :=
  if failedsyncs > maxFailedSyncs then maxFailedSyncs + 1 else failedsyncs

/-- The rounds at the end of a history that made no clock update. -/
def dryRounds (history : List Bool) : ℕ :=
  (history.reverse.takeWhile (fun updated => !updated)).length

/-- At the end of a round the counter is reset if the clock was updated in it
and goes up otherwise, and the status word that is written says whether too
many rounds went by without an update. -/
def Accounted (cfg : Rtems) (history : List Bool) (s : Poller F) (op : PollOp) : Prop :=
  ∀ updated, s.closed op = some updated →
    (step cfg s op).tasks.failedsyncs
      = capSyncs (if updated then 0 else s.tasks.failedsyncs + 1) ∧
    (has (step cfg s op).tasks.clock.k.timeStatus staUnsync = true ↔
      maxFailedSyncs < dryRounds (history ++ [updated]))

/-- The filter would let the best answer so far through. -/
def accepts (cfg : Rtems) (s : Poller F) : Bool :=
  (acceptFiltered cfg.toConfig s.avgDelay s.round.bestData.tripns).1

/-- The last retry is not spent on a failed shot with an answer in hand that the
filter lets through. -/
def Spared (cfg : Rtems) (s : Poller F) : PollOp → Prop
  | .shot none => s.stage = .shooting → s.round.retry = 1 → s.round.shots ≠ 0 →
      s.accepts cfg = false
  | _ => True

instance (cfg : Rtems) (s : Poller F) : (op : PollOp) → Decidable (Spared cfg s op)
  | .shot none => inferInstanceAs (Decidable (_ → _ → _ → _))
  | .shot (some _) | .close _ _ | .call _ => inferInstanceAs (Decidable True)

/-! ### One step -/

/-- Inside the loops there is a retry left, and not all the shots are made. -/
def Looping (s : Poller F) : Prop :=
  s.stage = .shooting → 0 < s.round.retry ∧ 0 ≤ s.round.shots ∧ s.round.shots < 3

/-- Past the loops `retry` tells whether the clock was updated. -/
def Verdict (s : Poller F) : Prop :=
  ∀ updated, s.stage = .closing updated → (0 < s.round.retry ↔ updated = true)

variable {cfg : Rtems} {s : Poller F}

/-- The ways out of a batch of shots: no answer, an answer dropped with a retry
left or without, and an update. -/
theorem afterShots_cases (cfg : Rtems) (s : Poller F) :
    (s.round.shots = 0 ∧ afterShots cfg s = { s with stage := .closing false }) ∨
    (∃ avgDelay, s.accepts cfg = false ∧ 0 < s.round.retry - 1 ∧ afterShots cfg s =
      { s with avgDelay := avgDelay, round := s.round.batch (s.round.retry - 1) }) ∨
    (∃ avgDelay, s.accepts cfg = false ∧ s.round.retry - 1 ≤ 0 ∧ afterShots cfg s =
      { s with
        avgDelay := avgDelay
        round := { s.round with retry := s.round.retry - 1 }
        stage := .closing false }) ∨
    ∃ avgDelay clock, s.round.shots ≠ 0 ∧ s.accepts cfg = true ∧ afterShots cfg s =
      { s with
        avgDelay := avgDelay
        tasks := { s.tasks with clock := clock }
        stage := .closing true } := by
  unfold afterShots accepts
  dsimp only
  split_ifs with hshots haccept hretry
  · exact Or.inl ⟨hshots, rfl⟩
  · exact Or.inr (Or.inl ⟨_, by simpa using haccept, hretry, rfl⟩)
  · exact Or.inr (Or.inr (Or.inl ⟨_, by simpa using haccept, not_lt.mp hretry, rfl⟩))
  · exact Or.inr (Or.inr (Or.inr ⟨_, _, hshots, by simpa using haccept, rfl⟩))

theorem afterShots_looping (cfg : Rtems) (s : Poller F) : Looping (afterShots cfg s) := by
  rcases afterShots_cases cfg s with ⟨-, hs⟩ | ⟨_, -, hretry, hs⟩ | ⟨_, -, -, hs⟩ |
    ⟨_, _, -, -, hs⟩ <;> rw [hs]
  · intro hstage
    cases hstage
  · intro _
    exact ⟨hretry, le_refl 0, (by decide : (0 : ℤ) < 3)⟩
  · intro hstage
    cases hstage
  · intro hstage
    cases hstage

/-- Whichever way the batch ends, `retry` tells it, if it is not spent. -/
theorem afterShots_verdict (h : s.stage = .shooting)
    (hempty : s.round.shots = 0 → s.round.retry ≤ 0)
    (hspared : s.round.shots ≠ 0 → s.accepts cfg = true → 0 < s.round.retry) :
    Verdict (afterShots cfg s) := by
  rcases afterShots_cases cfg s with ⟨hshots, hs⟩ | ⟨_, -, -, hs⟩ | ⟨_, -, hretry, hs⟩ |
    ⟨_, _, hshots, haccept, hs⟩ <;> rw [hs]
  · rintro updated ⟨⟩
    have hle := hempty hshots
    exact ⟨fun hlt => absurd hlt (not_lt.mpr hle), fun hu => nomatch hu⟩
  · intro updated hstage
    exact absurd (h.symm.trans hstage) (by simp)
  · rintro updated ⟨⟩
    exact ⟨fun hlt => absurd hlt (not_lt.mpr hretry), fun hu => nomatch hu⟩
  · rintro updated ⟨⟩
    exact ⟨fun _ => rfl, fun _ => hspared hshots haccept⟩

theorem record_counters (r : Round) (answer : DiffTimeCbData) :
    (r.record answer).retry = r.retry ∧ (r.record answer).shots = r.shots + 1 := by
  unfold Round.record
  dsimp only
  split_ifs <;> exact ⟨rfl, rfl⟩

theorem shot_looping (h : s.stage = .shooting) (hloop : Looping s)
    (result : Option DiffTimeCbData) : Looping (s.shot cfg result) := by
  obtain ⟨hretry, hshots, hmax⟩ := hloop h
  cases result with
  | none =>
    unfold shot
    dsimp only
    split_ifs with hleft
    · exact fun _ => ⟨hleft, hshots, hmax⟩
    · exact afterShots_looping cfg _
  | some answer =>
    obtain ⟨hr, hs⟩ := record_counters s.round answer
    unfold shot
    dsimp only
    split_ifs with hthree
    · exact afterShots_looping cfg _
    · intro _
      dsimp only
      omega

theorem shot_verdict (h : s.stage = .shooting) (hloop : Looping s)
    {result : Option DiffTimeCbData} (hspared : Spared cfg s (.shot result)) :
    Verdict (s.shot cfg result) := by
  obtain ⟨hretry, hshots, hmax⟩ := hloop h
  have hopen : ∀ {s' : Poller F}, s'.stage = s.stage → Verdict s' := by
    intro s' hstage updated hclosing
    exact absurd (h.symm.trans (hstage.symm.trans hclosing)) (by simp)
  cases result with
  | none =>
    unfold shot
    dsimp only
    split_ifs with hleft
    · exact hopen rfl
    · refine afterShots_verdict h (fun _ => not_lt.mp hleft) ?_
      intro hne haccept
      -- the failed shot took the last retry
      have hlast : s.round.retry = 1 := by omega
      have hreject : s.accepts cfg = false := hspared h hlast hne
      exact absurd (hreject.symm.trans haccept) Bool.false_ne_true
  | some answer =>
    obtain ⟨hr, hs⟩ := record_counters s.round answer
    unfold shot
    dsimp only
    split_ifs with hthree
    · refine afterShots_verdict h ?_ ?_
      · dsimp only
        omega
      · dsimp only
        omega
    · exact hopen rfl

/-- Other tasks keep out of the daemon's variables. -/
theorem step_byOthers {tasks : Tasks F} {op : TaskOp} (h : op.byDaemon = false) :
    ∃ clock pollTask,
      tasks.step cfg op = { tasks with clock := clock, pollTask := pollTask } := by
  cases op with
  | kernel e => exact ⟨_, tasks.pollTask, rfl⟩
  | pollRead task pollSeconds | pollWrite task =>
    cases htask : tasks.pollTask task with
    | _ =>
      simp only [Tasks.step, htask]
      exact ⟨_, _, rfl⟩
  | _ => cases h

theorem step_call (op : TaskOp) : step cfg s (.call op) =
    if op.byDaemon then s else { s with tasks := s.tasks.step cfg op } := rfl

theorem step_looping (hloop : Looping s) (op : PollOp) : Looping (step cfg s op) := by
  cases op with
  | shot result =>
    cases hstage : s.stage with
    | shooting =>
      simp only [step, hstage]
      exact shot_looping hstage hloop result
    | closing updated =>
      simp only [step, hstage]
      exact hloop
  | close maxerr jitter =>
    cases hstage : s.stage with
    | shooting =>
      simp only [step, hstage]
      exact hloop
    | closing updated =>
      simp only [step, hstage]
      exact fun _ => ⟨(by decide : (0 : ℤ) < 3), le_refl 0, (by decide : (0 : ℤ) < 3)⟩
  | call op =>
    rw [step_call]
    split_ifs <;> exact hloop

theorem step_verdict (hloop : Looping s) (hverdict : Verdict s) {op : PollOp}
    (hspared : Spared cfg s op) : Verdict (step cfg s op) := by
  cases op with
  | shot result =>
    cases hstage : s.stage with
    | shooting =>
      simp only [step, hstage]
      exact shot_verdict hstage hloop hspared
    | closing updated =>
      simp only [step, hstage]
      exact hverdict
  | close maxerr jitter =>
    cases hstage : s.stage with
    | shooting =>
      simp only [step, hstage]
      exact hverdict
    | closing updated =>
      simp only [step, hstage]
      exact fun _ hclosing => nomatch hclosing
  | call op =>
    rw [step_call]
    split_ifs <;> exact hverdict

/-! ### The end of a round -/

theorem has_syncStatus (failedsyncs : ℤ) (status : BitVec 32) :
    has (syncStatus failedsyncs status) staUnsync
      = decide (failedsyncs > maxFailedSyncs) := by
  unfold syncStatus has
  split_ifs with h
  · rw [or_and_self, decide_eq_true h]
    decide
  · rw [and_not_and_self, decide_eq_false h]
    decide

/-- The daemon is in its loop, and its mode word makes it write the status
word. -/
def Daemon (s : Poller F) : Prop :=
  s.tasks.phase = .polling ∧ has s.tasks.ntv.modes modStatus = true

/-- The report at the end of a round. -/
theorem daemonRound_accounts (cfg : Rtems) {tasks : Tasks F}
    (h : has tasks.ntv.modes modStatus = true) (answer : Option Answer) :
    (tasks.daemonRound cfg answer).failedsyncs
        = capSyncs (if answer.isNone then tasks.failedsyncs + 1 else 0) ∧
      has (tasks.daemonRound cfg answer).clock.k.timeStatus staUnsync
        = decide ((if answer.isNone then tasks.failedsyncs + 1 else 0)
            > maxFailedSyncs) := by
  have hm : Writable staUnsync := by decide
  refine ⟨by cases answer <;> rfl, ?_⟩
  cases answer with
  | none =>
    rw [← has_syncStatus _ tasks.ntv.status]
    apply has_eq_of_and_eq
    exact Tasks.call_status_of_modStatus hm
      (Tasks.has_modStatus_of_apart (clear_and (by decide) _) h)
  | some answer =>
    rw [← has_syncStatus _ (leapStatus cfg answer tasks.ntv.status)]
    apply has_eq_of_and_eq
    exact Tasks.call_status_of_modStatus hm
      (Tasks.has_modStatus_of_apart (set_and (by decide) _) h)

theorem shot_tasks (cfg : Rtems) (s : Poller F) (result : Option DiffTimeCbData) :
    ∃ clock, (s.shot cfg result).tasks = { s.tasks with clock := clock } := by
  have hafter : ∀ s' : Poller F, s'.tasks = s.tasks →
      ∃ clock, (afterShots cfg s').tasks = { s.tasks with clock := clock } := by
    intro s' htasks
    rw [← htasks]
    rcases afterShots_cases cfg s' with ⟨-, hs⟩ | ⟨_, -, -, hs⟩ | ⟨_, -, -, hs⟩ |
      ⟨_, clock, -, -, hs⟩ <;> rw [hs]
    · exact ⟨s'.tasks.clock, rfl⟩
    · exact ⟨s'.tasks.clock, rfl⟩
    · exact ⟨s'.tasks.clock, rfl⟩
    · exact ⟨clock, rfl⟩
  unfold shot
  cases result with
  | none =>
    dsimp only
    split_ifs
    · exact ⟨s.tasks.clock, rfl⟩
    · exact hafter _ rfl
  | some answer =>
    dsimp only
    split_ifs
    · exact hafter _ rfl
    · exact ⟨s.tasks.clock, rfl⟩

/-- Inside a round the daemon's variables rest. -/
theorem step_tasks (cfg : Rtems) {op : PollOp} (h : s.closed op = none) :
    ∃ clock pollTask, (step cfg s op).tasks
      = { s.tasks with clock := clock, pollTask := pollTask } := by
  cases op with
  | shot result =>
    cases hstage : s.stage with
    | shooting =>
      simp only [step, hstage]
      obtain ⟨clock, htasks⟩ := shot_tasks cfg s result
      exact ⟨clock, s.tasks.pollTask, htasks⟩
    | closing updated =>
      simp only [step, hstage]
      exact ⟨s.tasks.clock, s.tasks.pollTask, rfl⟩
  | close maxerr jitter =>
    cases hstage : s.stage with
    | shooting =>
      simp only [step, hstage]
      exact ⟨s.tasks.clock, s.tasks.pollTask, rfl⟩
    | closing updated => simp [closed, hstage] at h
  | call op =>
    rw [step_call]
    split_ifs with hby
    · exact ⟨s.tasks.clock, s.tasks.pollTask, rfl⟩
    · exact step_byOthers (by simpa using hby)

/-- Only at the end of a round is there something to report. -/
theorem step_of_closed (cfg : Rtems) {op : PollOp} {updated : Bool}
    (h : s.closed op = some updated) :
    s.stage = .closing updated ∧
      ∃ maxerr jitter, step cfg s op = s.close cfg maxerr jitter := by
  cases op with
  | close maxerr jitter =>
    cases hstage : s.stage with
    | shooting => simp [closed, hstage] at h
    | closing updated' =>
      simp only [closed, hstage, Option.some.injEq] at h
      rw [h]
      exact ⟨rfl, maxerr, jitter, by simp only [step, hstage]⟩
  | shot result => cases h
  | call op => cases h

theorem close_daemon (hs : Daemon s) (maxerr jitter : ℤ) :
    Daemon (s.close cfg maxerr jitter) := by
  have hround : ∀ answer, (s.tasks.step cfg (.daemonRound answer)).Polling :=
    fun answer => Tasks.polling_step (fun _ => hs.2) (.daemonRound answer)
  simp only [Tasks.step, if_pos hs.1] at hround
  exact ⟨hs.1, hround _ hs.1⟩

theorem step_daemon (hs : Daemon s) (op : PollOp) : Daemon (step cfg s op) := by
  cases h : s.closed op with
  | none =>
    obtain ⟨clock, pollTask, htasks⟩ := step_tasks cfg h
    unfold Daemon
    rw [htasks]
    exact hs
  | some updated =>
    obtain ⟨-, maxerr, jitter, hstep⟩ := step_of_closed cfg h
    rw [hstep]
    exact close_daemon hs maxerr jitter

/-- What the report says, from the verdict that `retry` gives. -/
theorem step_accounts (cfg : Rtems) (hs : Daemon s) {op : PollOp} {updated : Bool}
    (h : s.closed op = some updated) :
    (step cfg s op).tasks.failedsyncs
        = capSyncs (if 0 < s.round.retry then 0 else s.tasks.failedsyncs + 1) ∧
      has (step cfg s op).tasks.clock.k.timeStatus staUnsync
        = decide ((if 0 < s.round.retry then 0 else s.tasks.failedsyncs + 1)
            > maxFailedSyncs) := by
  obtain ⟨-, maxerr, jitter, hstep⟩ := step_of_closed cfg h
  rw [hstep]
  by_cases hretry : s.round.retry ≤ 0
  · have hreport := daemonRound_accounts cfg hs.2 none
    simp only [close, if_pos hretry, if_neg (not_lt.mpr hretry)]
    exact hreport
  · have hreport := daemonRound_accounts cfg hs.2
      (some ⟨s.round.bestData.liVnMode, s.round.bestData.srvRcvts.toNat, maxerr, jitter⟩)
    simp only [close, if_neg hretry, if_pos (not_le.mp hretry)]
    exact hreport

/-! ### Runs -/

theorem dryRounds_append (history : List Bool) (updated : Bool) :
    dryRounds (history ++ [updated]) = if updated then 0 else dryRounds history + 1 := by
  unfold dryRounds
  rw [List.reverse_append, List.reverse_singleton, List.singleton_append,
    List.takeWhile_cons]
  cases updated <;> rfl

/-- Capping the counter loses nothing that matters. -/
theorem capSyncs_add_one (n : ℤ) :
    capSyncs (capSyncs n + 1) = capSyncs (n + 1) ∧
      (capSyncs n + 1 > maxFailedSyncs ↔ n + 1 > maxFailedSyncs) := by
  unfold capSyncs
  split_ifs <;> constructor <;> omega

/-- The counter is the number of rounds without an update, capped. -/
def Counted (history : List Bool) (s : Poller F) : Prop :=
  s.tasks.failedsyncs = capSyncs (dryRounds history)

theorem accounted_of_counted {history : List Bool} (hs : Daemon s) (hverdict : Verdict s)
    (hcount : Counted history s) (op : PollOp) : Accounted cfg history s op := by
  intro updated h
  obtain ⟨hstage, -⟩ := step_of_closed cfg h
  obtain ⟨hfailed, hunsync⟩ := step_accounts cfg hs h
  rw [hfailed, hunsync, dryRounds_append]
  simp only [hverdict updated hstage, decide_eq_true_eq]
  refine ⟨trivial, ?_⟩
  cases updated with
  | true => simp
  | false =>
    rw [hcount, if_neg Bool.false_ne_true, if_neg Bool.false_ne_true]
    exact (capSyncs_add_one _).2

theorem step_counted {history : List Bool} (hs : Daemon s) (hverdict : Verdict s)
    (hcount : Counted history s) (op : PollOp) :
    Counted (history ++ (s.closed op).toList) (step cfg s op) := by
  unfold Counted
  cases h : s.closed op with
  | none =>
    obtain ⟨clock, pollTask, htasks⟩ := step_tasks cfg h
    rw [htasks, Option.toList_none, List.append_nil]
    exact hcount
  | some updated =>
    rw [(accounted_of_counted hs hverdict hcount op updated h).1, Option.toList_some,
      dryRounds_append, hcount]
    cases updated with
    | true => rfl
    | false =>
      rw [if_neg Bool.false_ne_true, if_neg Bool.false_ne_true]
      exact (capSyncs_add_one _).1

theorem start_invariants (cfg : Rtems) {tasks : Tasks F} (h : tasks.phase = .lookedUp)
    (avgDelay : ℤ) (data : Fin 2 → DiffTimeCbData) :
    Daemon (start cfg tasks avgDelay data) ∧ Looping (start cfg tasks avgDelay data) ∧
      (start cfg tasks avgDelay data).tasks.failedsyncs = 0 := by
  have hpolling : (tasks.step cfg .daemonStart).Polling :=
    Tasks.polling_step (fun hphase => absurd (h.symm.trans hphase) (by simp)) .daemonStart
  have hphase : (tasks.step cfg .daemonStart).phase = .polling ∧
      (tasks.step cfg .daemonStart).failedsyncs = 0 := by
    simp only [Tasks.step, if_pos h]
    exact ⟨rfl, trivial⟩
  exact ⟨⟨hphase.1, hpolling hphase.1⟩,
    fun _ => ⟨(by decide : (0 : ℤ) < 3), le_refl 0, (by decide : (0 : ℤ) < 3)⟩, hphase.2⟩

/-- The history of a run. -/
def history (cfg : Rtems) (s : Poller F) (ops : List PollOp) : List Bool :=
  outputs (step cfg) closed s ops

theorem counted_of_spared {tasks : Tasks F} (h : tasks.phase = .lookedUp) {avgDelay : ℤ}
    {data : Fin 2 → DiffTimeCbData} {ops : List PollOp}
    (hspared : Along (step cfg) (Spared cfg) (start cfg tasks avgDelay data) ops) :
    let s := run (step cfg) (start cfg tasks avgDelay data) ops
    Daemon s ∧ Looping s ∧ Verdict s ∧
      Counted (history cfg (start cfg tasks avgDelay data) ops) s := by
  induction ops using List.reverseRecOn with
  | nil =>
    obtain ⟨hdaemon, hloop, hzero⟩ := start_invariants cfg h avgDelay data
    have hverdict : Verdict (start cfg tasks avgDelay data) := by
      intro updated hstage
      cases hstage
    exact ⟨hdaemon, hloop, hverdict, hzero⟩
  | append_singleton ops op ih =>
    obtain ⟨hbefore, hop⟩ := (along_append _ _ _ _).mp hspared
    obtain ⟨hdaemon, hloop, hverdict, hcount⟩ := ih hbefore
    dsimp only
    rw [run_append]
    refine ⟨step_daemon hdaemon op, step_looping hloop op,
      step_verdict hloop hverdict hop.1, ?_⟩
    rw [history, outputs_append_singleton]
    exact step_counted hdaemon hverdict hcount op

/-- Between the loops and the report nothing changes the verdict. -/
theorem step_of_closing (cfg : Rtems) {op : PollOp} {updated : Bool}
    (hstage : s.stage = .closing updated) (h : s.closed op = none) :
    (step cfg s op).stage = s.stage ∧ (step cfg s op).round = s.round := by
  cases op with
  | shot result =>
    have hstep : step cfg s (.shot result) = s := by simp only [step, hstage]
    rw [hstep]
    exact ⟨rfl, rfl⟩
  | close maxerr jitter => simp [closed, hstage] at h
  | call op =>
    rw [step_call]
    split_ifs <;> exact ⟨rfl, rfl⟩

/-- A round that is over with its loops is closed at some later step. -/
theorem exists_close {updated : Bool} (hstage : s.stage = .closing updated)
    {ops : List PollOp} (h : (run (step cfg) s ops).stage = .shooting) :
    ∃ mid op post, ops = mid ++ op :: post ∧
      (run (step cfg) s mid).closed op = some updated ∧
      (run (step cfg) s mid).round = s.round := by
  have hleft : ¬ ((run (step cfg) s ops).stage = .closing updated ∧
      (run (step cfg) s ops).round = s.round) := by
    rw [h]
    simp
  obtain ⟨mid, op, post, hsplit, ⟨hmid, hround⟩, hout⟩ :=
    exists_exit (A := fun s' : Poller F =>
      s'.stage = .closing updated ∧ s'.round = s.round) ⟨hstage, rfl⟩ hleft
  refine ⟨mid, op, post, hsplit, ?_, hround⟩
  cases hend : (run (step cfg) s mid).closed op with
  | none =>
    obtain ⟨hstay, hkept⟩ := step_of_closing cfg hmid hend
    exact absurd ⟨hstay.trans hmid, hkept.trans hround⟩ hout
  | some updated' =>
    have hupdated := (step_of_closed cfg hend).1
    rw [hmid] at hupdated
    cases hupdated
    rfl

/-- A last retry that is not spared: the clock is updated, and `retry` is 0. -/
theorem shot_of_unspared (hretry : s.round.retry = 1) (hshots : s.round.shots ≠ 0)
    (haccept : s.accepts cfg = true) :
    (s.shot cfg none).stage = .closing true ∧ (s.shot cfg none).round.retry ≤ 0 := by
  unfold shot
  dsimp only
  rw [if_neg (by omega)]
  rcases afterShots_cases cfg
      { s with round := { s.round with retry := s.round.retry - 1 } }
    with ⟨hempty, -⟩ | ⟨_, hreject, -⟩ | ⟨_, hreject, -⟩ | ⟨_, _, -, -, hs⟩
  · exact absurd hempty hshots
  · exact absurd (hreject.symm.trans haccept) Bool.false_ne_true
  · exact absurd (hreject.symm.trans haccept) Bool.false_ne_true
  · rw [hs]
    refine ⟨rfl, ?_⟩
    dsimp only
    omega

theorem step_failedsyncs (hs : Daemon s) (h : 0 ≤ s.tasks.failedsyncs) (op : PollOp) :
    0 ≤ (step cfg s op).tasks.failedsyncs := by
  cases hclosed : s.closed op with
  | none =>
    obtain ⟨clock, pollTask, htasks⟩ := step_tasks cfg hclosed
    rw [htasks]
    exact h
  | some updated =>
    rw [(step_accounts cfg hs hclosed).1]
    unfold capSyncs maxFailedSyncs
    split_ifs <;> omega

/-- A round in which the clock was updated with no retry left is counted as
failed. -/
theorem not_accounted {past : List Bool} (hs : Daemon s) (h : 0 ≤ s.tasks.failedsyncs)
    {op : PollOp} (hclosed : s.closed op = some true) (hretry : s.round.retry ≤ 0) :
    ¬ Accounted cfg past s op := by
  intro haccounted
  have hreset := (haccounted true hclosed).1
  have hcount := (step_accounts cfg hs hclosed).1
  rw [if_neg (not_lt.mpr hretry)] at hcount
  rw [hreset] at hcount
  unfold capSyncs maxFailedSyncs at hcount
  simp only [if_true] at hcount
  split_ifs at hcount <;> omega

/-- Over every run of poll rounds, whatever the network does, the rounds are
accounted for as long as no last retry is spent on a failed shot with an
acceptable answer in hand. A run that has spent one so and has closed the round
has miscounted it. -/
theorem accounted_iff (cfg : Rtems) (tasks : Tasks F) (avgDelay : ℤ)
    (data : Fin 2 → DiffTimeCbData) (ops : List PollOp) (h : tasks.phase = .lookedUp) :
    let s := start cfg tasks avgDelay data
    (Along (step cfg) (Spared cfg) s ops → ∀ pre op post, ops = pre ++ op :: post →
      Accounted cfg (history cfg s pre) (run (step cfg) s pre) op) ∧
    ((run (step cfg) s ops).stage = .shooting →
      (∀ pre op post, ops = pre ++ op :: post →
        Accounted cfg (history cfg s pre) (run (step cfg) s pre) op) →
      Along (step cfg) (Spared cfg) s ops) := by
  intro s
  constructor
  · rintro hspared pre op post rfl
    obtain ⟨hdaemon, -, hverdict, hcount⟩ :=
      counted_of_spared h ((along_append _ _ _ _).mp hspared).1
    exact accounted_of_counted hdaemon hverdict hcount op
  · intro hclosed haccounted
    have hinv : ∀ pre, Daemon (run (step cfg) s pre) ∧
        0 ≤ (run (step cfg) s pre).tasks.failedsyncs := by
      intro pre
      obtain ⟨hdaemon, -, hzero⟩ := start_invariants cfg h avgDelay data
      exact run_invariant (P := fun _ _ => True)
        (I := fun s : Poller F => Daemon s ∧ 0 ≤ s.tasks.failedsyncs)
        (fun s op hs _ => ⟨step_daemon hs.1 op, step_failedsyncs hs.1 hs.2 op⟩)
        ⟨hdaemon, hzero.ge⟩ (along_of_forall (fun _ _ _ => trivial))
    rw [along_iff_forall_split]
    rintro pre op post rfl
    cases op with
    | shot result =>
      cases result with
      | some answer => trivial
      | none =>
        intro hstage hretry hshots
        by_contra haccept
        have hstep : step cfg (run (step cfg) s pre) (.shot none)
            = (run (step cfg) s pre).shot cfg none := by
          simp only [step, hstage]
        obtain ⟨hopen, hspent⟩ := shot_of_unspared hretry hshots
          (by simpa using haccept)
        rw [run_append, run_cons, hstep] at hclosed
        -- the round was closed later on, and there it is miscounted
        obtain ⟨mid, close, post, rfl, hend, hround⟩ :=
          exists_close hopen hclosed
        rw [← hround] at hspent
        rw [← hstep, ← run_cons, ← run_append] at hend hspent
        obtain ⟨hdaemon, hnn⟩ := hinv (pre ++ .shot none :: mid)
        exact not_accounted hdaemon hnn hend hspent
          (haccounted (pre ++ .shot none :: mid) close post (by simp))
    | _ => trivial

/-! ### A round that is miscounted -/

/-- The daemon has looked up the status word. -/
def lookedUp : Tasks LFp32 :=
  Tasks.step Tasks.utcBoard (Tasks.start Tasks.utcClock { modes := 0 }) .daemonRead

/-- An answer a quarter of a second ahead. -/
def quarterAhead : DiffTimeCbData := ⟨0x40000000#64, 1000000, 0x1c#8, 3913056000#32, 0, 0⟩

def pollStart : Poller LFp32 := start Tasks.utcBoard lookedUp 0 fun _ => quarterAhead

/-- Three shots, all answered. -/
def answeredRound : List PollOp :=
  [.shot (some quarterAhead), .shot (some quarterAhead), .shot (some quarterAhead)]

theorem accounted_iff_answeredRound :
    Accounted Tasks.utcBoard (history Tasks.utcBoard pollStart answeredRound)
      (run (step Tasks.utcBoard) pollStart answeredRound) (.close 500 10) :=
  (accounted_iff Tasks.utcBoard lookedUp 0 (fun _ => quarterAhead)
    (answeredRound ++ [.close 500 10]) rfl).1 (by decide +kernel) answeredRound
    (.close 500 10) [] rfl

/-- One shot is answered and three fail: the clock is updated, and the round
counted as failed. -/
def starvedRound : List PollOp :=
  .shot (some quarterAhead) :: List.replicate 3 (.shot none)

theorem not_forall_accounted : ¬ ∀ (cfg : Rtems) (tasks : Tasks LFp32) (avgDelay : ℤ)
    (data : Fin 2 → DiffTimeCbData) (ops : List PollOp), tasks.phase = .lookedUp →
    ∀ pre op post, ops = pre ++ op :: post →
      Accounted cfg (history cfg (start cfg tasks avgDelay data) pre)
        (run (step cfg) (start cfg tasks avgDelay data) pre) op := by
  intro h
  have hreport := h Tasks.utcBoard lookedUp 0 (fun _ => quarterAhead)
    (starvedRound ++ [.close 500 10]) rfl starvedRound (.close 500 10) [] rfl true
    (by decide +kernel)
  have hcount : (step Tasks.utcBoard (run (step Tasks.utcBoard) pollStart starvedRound)
      (.close 500 10)).tasks.failedsyncs = 1 := by
    decide +kernel
  exact absurd (hcount.symm.trans hreport.1) (by decide)

end Poller

end Nanokernel
