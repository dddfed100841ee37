import Mathlib.Data.Prod.Lex
import Nanokernel.Foundation.FifoLock
import Nanokernel.Foundation.Fairness

/-!
# Shutting down

`rtemsNtpCleanup` stops two tasks that run meanwhile: it tells each to leave its loop, waits
for its release of `kill_sem` and deletes it, and deletes the mutex last. The three are
interleaved slot by slot; a task that waits lets its slots pass. No other task uses the clock
any more.

Whatever the interleaving, nothing is used that is gone (`shutdown_safe`): the daemon keeps
its request as a pending event, and neither task is deleted before it has made its last call.
-/

namespace Nanokernel.Shutdown

open Run Fairness

/-! ## The tasks -/

/-- `tickerDaemon` runs off a rate monotonic period, or off the interrupts of a timer
(`USE_PICTIMER`). -/
inductive Build where
  | rateMonotonic
  | pictimer
deriving DecidableEq, Repr

inductive Task where
  | daemon
  | ticker
deriving DecidableEq, Repr

instance : Fintype Task := ⟨{.daemon, .ticker}, fun t => by cases t <;> decide⟩

/-- Where `ntpDaemon` is. -/
inductive Daemon where
  /-- The first `ntp_adjtime`, which reads the status. -/
  | readStatus
  /-- The second one, which takes `STA_UNSYNC` out of it. -/
  | claimSync
  /-- The `ntp_adjtime` of `get_poll_interval`. -/
  | interval
  /-- `rtems_event_receive`. -/
  | receive
  /-- A poll round with so many calls under the mutex before its `ntp_adjtime`, and whether
  that one says synchronised. -/
  | round (calls : ℕ) (synced : Bool)
  /-- The `ntp_adjtime` after the loop. -/
  | farewell
  /-- `rtems_semaphore_release( kill_sem )`. -/
  | release
  /-- `rtems_task_suspend( RTEMS_SELF )`. -/
  | suspend
  | suspended
  | deleted
deriving DecidableEq, Repr

/-- Where `tickerDaemon` is. -/
inductive Ticker where
  /-- `rtems_rate_monotonic_create`. -/
  | create
  /-- `tickerRunning = 1`. -/
  | raise
  /-- `while ( tickerRunning )`. -/
  | test
  /-- `rtems_rate_monotonic_period`. -/
  | period
  /-- `rtems_event_receive`, with `USE_PICTIMER`. -/
  | receive
  /-- `ticker_body()`. -/
  | body
  /-- `rtems_rate_monotonic_delete`. -/
  | deletePeriod
  | release
  | suspend
  | suspended
  | deleted
deriving DecidableEq, Repr

/-- Where `rtemsNtpCleanup` is. -/
inductive Cleanup where
  /-- `pictimerCleanup( TIMER_NO )`, with `USE_PICTIMER`. -/
  | removeTimer
  | createKill
  | killDaemon
  | awaitDaemon
  | deleteDaemon
  /-- `rtems_event_send` to the ticker, or `tickerRunning = 0`. -/
  | stopTicker
  | awaitTicker
  | deleteTicker
  | releaseKill
  | deleteKill
  | deleteMutex
  | done
deriving DecidableEq, Repr

/-- A call that fails, or does what must not happen. -/
inductive Fault where
  /-- `splclock()` on a mutex that is gone: the kernel's state is unprotected. -/
  | mutexGone
  /-- The mutex is deleted while a task claims it. -/
  | mutexBusy
  /-- A task is deleted that claims the mutex: nobody will release it. -/
  | mutexOrphaned
  /-- `kill_sem` does not exist. -/
  | killSemGone
  /-- `kill_sem` is released twice. -/
  | killSemFull
  /-- The task is deleted. -/
  | taskGone
deriving DecidableEq, Repr

/-- The objects and flags the three share, and where each of them is. `mutex` and `killSem`
are `none` where there is none; `killSem` says whether it can be obtained. -/
structure System where
  daemon : Daemon
  ticker : Ticker
  cleanup : Cleanup
  mutex : Option (FifoLock Task)
  killSem : Option Bool
  /-- `KILL_DAEMON` pending at the daemon. -/
  daemonKill : Bool
  /-- `KILL_DAEMON` pending at the ticker. -/
  tickerKill : Bool
  /-- `PICTIMER_SYNC_EVENT` pending at the ticker. -/
  tickerSync : Bool
  tickerRunning : Bool
  /-- The timer's interrupts are connected. -/
  timer : Bool
  /-- `rtems_ntp_pictimer_irqs_missed`. -/
  irqsMissed : ℕ
  /-- `STA_UNSYNC` of the kernel's status. -/
  unsync : Bool
  fault : Option Fault

/-- What `rtemsNtpInitialize` leaves: both tasks started, neither has run yet. -/
def start (build : Build) : System where
  daemon := .readStatus
  ticker := match build with
    | .rateMonotonic => .create
    | .pictimer => .receive
  cleanup := match build with
    | .rateMonotonic => .createKill
    | .pictimer => .removeTimer
  mutex := some .free
  killSem := none
  daemonKill := false
  tickerKill := false
  tickerSync := false
  tickerRunning := false
  timer := build = .pictimer
  irqsMissed := 0
  unsync := true
  fault := none

def System.fail (s : System) (fault : Fault) : System := { s with fault := some fault }

/-- A call between `splclock()` and `splx()`: a first slot claims the mutex, and once it has
been handed over a slot makes the call and releases it. -/
def lockedCall (t : Task) (call : System → System) (s : System) : System :=
  match s.mutex with
  | none => s.fail .mutexGone
  | some lock =>
    if lock.owner = some t then call { s with mutex := some lock.release }
    else { s with mutex := some (lock.obtain t) }

/-- `rtems_semaphore_release( kill_sem )`. -/
def releaseKill (s : System) : System :=
  match s.killSem with
  | none => s.fail .killSemGone
  | some true => s.fail .killSemFull
  | some false => { s with killSem := some true }

/-- `rtems_semaphore_obtain( kill_sem, RTEMS_WAIT, RTEMS_NO_TIMEOUT )`. -/
def obtainKill (next : Cleanup) (s : System) : System :=
  match s.killSem with
  | none => s.fail .killSemGone
  | some true => { s with killSem := some false, cleanup := next }
  | some false => s

/-! ## What a slot does -/

/-- The call the daemon makes under the mutex where it is: where it goes on, and what the
call makes of `STA_UNSYNC`. -/
def Daemon.call : Daemon → Option (Daemon × Option Bool)
  | .readStatus => some (.claimSync, none)
  | .claimSync => some (.interval, some false)
  | .interval => some (.receive, none)
  | .round (calls + 1) synced => some (.round calls synced, none)
  | .round 0 synced => some (.interval, some !synced)
  | .farewell => some (.release, some true)
  | _ => none

/-- A slot of `ntpDaemon`. If it waits for an event, `elapsed` is the round that the end of
the poll interval starts, if it has come. -/
def daemonStep (elapsed : Option (ℕ × Bool)) (s : System) : System :=
  match s.daemon.call with
  | some (next, unsync) =>
    lockedCall .daemon
      (fun s => { s with daemon := next, unsync := unsync.getD s.unsync }) s
  | none =>
    match s.daemon with
    | .receive =>
      if s.daemonKill then { s with daemonKill := false, daemon := .farewell }
      else
        match elapsed with
        | none => s
        | some (calls, synced) => { s with daemon := .round calls synced }
    | .release => releaseKill { s with daemon := .suspend }
    | .suspend => { s with daemon := .suspended }
    | _ => s

/-- A slot of `tickerDaemon`; one in `rtems_rate_monotonic_period` is the end of the period. -/
def tickerStep (build : Build) (s : System) : System :=
  match s.ticker with
  | .create => { s with ticker := .raise }
  | .raise => { s with ticker := .test, tickerRunning := true }
  | .test => { s with ticker := if s.tickerRunning then .period else .deletePeriod }
  | .period => { s with ticker := .body }
  | .receive =>
    if s.tickerKill then { s with ticker := .release, tickerKill := false, tickerSync := false }
    else if s.tickerSync then { s with ticker := .body, tickerSync := false }
    else s
  | .body =>
    lockedCall .ticker
      (fun s => { s with ticker := if build = .pictimer then .receive else .test }) s
  | .deletePeriod => { s with ticker := .release }
  | .release => releaseKill { s with ticker := .suspend }
  | .suspend => { s with ticker := .suspended }
  | .suspended => s
  | .deleted => s

/-- `rtems_task_delete`. -/
def deleteTask (t : Task) (gone : Bool) (delete : System → System) (s : System) : System :=
  if gone then s.fail .taskGone
  else if ∃ lock ∈ s.mutex, t ∈ lock.claims then s.fail .mutexOrphaned
  else delete s

/-- A slot of `rtemsNtpCleanup`. -/
def cleanupStep (build : Build) (s : System) : System :=
  match s.cleanup with
  | .removeTimer => { s with timer := false, cleanup := .createKill }
  | .createKill => { s with killSem := some false, cleanup := .killDaemon }
  | .killDaemon =>
    if s.daemon = .deleted then s.fail .taskGone
    else { s with daemonKill := true, cleanup := .awaitDaemon }
  | .awaitDaemon => obtainKill .deleteDaemon s
  | .deleteDaemon =>
    deleteTask .daemon (s.daemon = .deleted)
      (fun s => { s with daemon := .deleted, cleanup := .stopTicker }) s
  | .stopTicker =>
    match build with
    | .pictimer =>
      if s.ticker = .deleted then s.fail .taskGone
      else { s with tickerKill := true, cleanup := .awaitTicker }
    | .rateMonotonic => { s with tickerRunning := false, cleanup := .awaitTicker }
  | .awaitTicker => obtainKill .deleteTicker s
  | .deleteTicker =>
    deleteTask .ticker (s.ticker = .deleted)
      (fun s => { s with ticker := .deleted, cleanup := .releaseKill }) s
  | .releaseKill => { releaseKill s with cleanup := .deleteKill }
  | .deleteKill =>
    if s.killSem = none then s.fail .killSemGone
    else { s with killSem := none, cleanup := .deleteMutex }
  | .deleteMutex =>
    match s.mutex with
    | none => s.fail .mutexGone
    | some lock =>
      if lock.claims = [] then { s with mutex := none, cleanup := .done }
      else s.fail .mutexBusy
  | .done => s

/-- `clock_isr`, if the timer is connected. -/
def interrupt (s : System) : System :=
  if !s.timer then s
  else if s.ticker = .deleted then { s with irqsMissed := s.irqsMissed + 1 }
  else { s with tickerSync := true }

/-- Who runs next. -/
inductive Slot where
  | cleanup
  | daemon (elapsed : Option (ℕ × Bool))
  | ticker
  | interrupt
deriving DecidableEq, Repr

def step (build : Build) (s : System) : Slot → System
  | .cleanup => cleanupStep build s
  | .daemon elapsed => daemonStep elapsed s
  | .ticker => tickerStep build s
  | .interrupt => interrupt s

/-! ## What holds in every interleaving -/

/-- How far a task has come with its end. -/
inductive Stage where
  | serving
  | leaving
  | left
  | deleted
deriving DecidableEq, Repr

def Daemon.stage : Daemon → Stage
  | .farewell => .leaving
  | .release => .leaving
  | .suspend => .left
  | .suspended => .left
  | .deleted => .deleted
  | _ => .serving

def Ticker.stage : Ticker → Stage
  | .deletePeriod => .leaving
  | .release => .leaving
  | .suspend => .left
  | .suspended => .left
  | .deleted => .deleted
  | _ => .serving

theorem Daemon.eq_deleted {d : Daemon} (h : d.stage = .deleted) : d = .deleted := by
  cases d <;> first | rfl | exact Stage.noConfusion h

theorem Ticker.eq_deleted {t : Ticker} (h : t.stage = .deleted) : t = .deleted := by
  cases t <;> first | rfl | exact Stage.noConfusion h

/-- What the tear-down is about to do with a task. -/
inductive Toward where
  | ask
  | await
  | delete
  | nothing
deriving DecidableEq, Repr

def Cleanup.toward : Cleanup → Task → Toward
  | .removeTimer, _ => .ask
  | .createKill, _ => .ask
  | .killDaemon, _ => .ask
  | .awaitDaemon, .daemon => .await
  | .awaitDaemon, .ticker => .ask
  | .deleteDaemon, .daemon => .delete
  | .deleteDaemon, .ticker => .ask
  | .stopTicker, .daemon => .nothing
  | .stopTicker, .ticker => .ask
  | .awaitTicker, .daemon => .nothing
  | .awaitTicker, .ticker => .await
  | .deleteTicker, .daemon => .nothing
  | .deleteTicker, .ticker => .delete
  | .releaseKill, _ => .nothing
  | .deleteKill, _ => .nothing
  | .deleteMutex, _ => .nothing
  | .done, _ => .nothing

/-- A task serves until it is asked, and has released `kill_sem` before it is deleted. -/
def Handshake (stage : Stage) (killSem : Option Bool) : Toward → Prop
  | .ask => stage = .serving
  | .await =>
    (stage = .serving ∨ stage = .leaving) ∧ killSem = some false ∨
      stage = .left ∧ killSem = some true
  | .delete => stage = .left
  | .nothing => stage = .deleted

/-- `kill_sem` where no task has it to release. -/
def Cleanup.killSem : Cleanup → Option (Option Bool)
  | .removeTimer => some none
  | .createKill => some none
  | .awaitDaemon => none
  | .awaitTicker => none
  | .deleteKill => some (some true)
  | .deleteMutex => some none
  | .done => some none
  | _ => some (some false)

/-- The ticker's first slots, in which it has not raised `tickerRunning` yet. -/
def Ticker.raised (ticker : Ticker) : Prop := ticker ≠ .create ∧ ticker ≠ .raise

instance (ticker : Ticker) : Decidable ticker.raised := inferInstanceAs (Decidable (_ ∧ _))

/-- The parts of `tickerDaemon` that a build has. -/
def Ticker.of (ticker : Ticker) : Build → Prop
  | .rateMonotonic => ticker ≠ .receive
  | .pictimer => ticker.raised ∧ ticker ≠ .test ∧ ticker ≠ .period ∧ ticker ≠ .deletePeriod

/-- Nothing went wrong, and the three agree on how far they are. -/
structure Inv (build : Build) (s : System) : Prop where
  fault : s.fault = none
  irqsMissed : s.irqsMissed = 0
  timer : s.timer = true → s.cleanup = .removeTimer
  removeTimer : s.cleanup = .removeTimer → build = .pictimer
  killSem : ∀ k ∈ s.cleanup.killSem, s.killSem = k
  daemon : Handshake s.daemon.stage s.killSem (s.cleanup.toward .daemon)
  ticker : Handshake s.ticker.stage s.killSem (s.cleanup.toward .ticker)
  daemonKill : s.daemonKill = true ↔
    s.cleanup.toward .daemon = .await ∧ s.daemon.stage = .serving
  tickerKill : s.tickerKill = true ↔
    build = .pictimer ∧ s.cleanup.toward .ticker = .await ∧ s.ticker.stage = .serving
  running : build = .rateMonotonic → s.cleanup.toward .ticker = .ask → s.ticker.raised →
    s.tickerRunning = true
  build : s.ticker.of build
  mutex : s.mutex = none ↔ s.cleanup = .done
  daemonClaim : ∀ lock ∈ s.mutex, Task.daemon ∈ lock.claims → s.daemon.call.isSome
  tickerClaim : ∀ lock ∈ s.mutex, Task.ticker ∈ lock.claims → s.ticker = .body
  unsync : s.daemon = .release ∨ s.daemon.stage = .left ∨ s.daemon.stage = .deleted →
    s.unsync = true

theorem inv_start (build : Build) : Inv build (start build) := by
  constructor <;> cases build <;> simp [start, Cleanup.killSem, Cleanup.toward, Handshake,
    Daemon.stage, Ticker.stage, Ticker.raised, Ticker.of, FifoLock.free]

section Step

variable {build : Build} {s : System}

/-- A task that is not deleted finds the mutex. -/
theorem Inv.exists_mutex (h : Inv build s) (hdone : s.cleanup ≠ .done) :
    ∃ lock, s.mutex = some lock :=
  Option.ne_none_iff_exists'.mp fun hnone => hdone (h.mutex.mp hnone)

theorem Inv.cleanup_ne_done_of_daemon (h : Inv build s) (hstage : s.daemon.stage ≠ .deleted) :
    s.cleanup ≠ .done := by
  intro hdone
  have hdaemon := h.daemon
  rw [hdone] at hdaemon
  exact hstage hdaemon

theorem Inv.cleanup_ne_done_of_ticker (h : Inv build s) (hstage : s.ticker.stage ≠ .deleted) :
    s.cleanup ≠ .done := by
  intro hdone
  have hticker := h.ticker
  rw [hdone] at hticker
  exact hstage hticker

/-- A call under the mutex claims it, or makes the call as its owner. -/
theorem lockedCall_cases {t : Task} {lock : FifoLock Task} (hlock : s.mutex = some lock)
    (call : System → System) :
    lock.owner ≠ some t ∧ lockedCall t call s = { s with mutex := some (lock.obtain t) } ∨
      lock.owner = some t ∧ lockedCall t call s = call { s with mutex := some lock.release } := by
  unfold lockedCall
  rw [hlock]
  by_cases howner : lock.owner = some t
  · exact Or.inr ⟨howner, if_pos howner⟩
  · exact Or.inl ⟨howner, if_neg howner⟩

theorem Daemon.call_stage {d next : Daemon} {u : Option Bool} (h : d.call = some (next, u)) :
    next.stage = d.stage ∧ d.stage ≠ .left ∧ d.stage ≠ .deleted ∧
      (next = .release → u = some true) := by
  unfold Daemon.call at h
  split at h <;> simp_all [Daemon.stage]
  all_goals obtain ⟨rfl, rfl⟩ := h
  all_goals simp

/-- `daemonStep`, all it can do. -/
theorem daemonStep_cases (h : Inv build s) (elapsed : Option (ℕ × Bool)) :
    ((s.daemon = .receive ∧ s.daemonKill = false ∨ s.daemon.stage = .left ∨
      s.daemon.stage = .deleted) ∧ daemonStep elapsed s = s) ∨
    (∃ lock, s.mutex = some lock ∧ lock.owner ≠ some .daemon ∧ s.daemon.call.isSome ∧
      daemonStep elapsed s = { s with mutex := some (lock.obtain .daemon) }) ∨
    (∃ lock next u, s.mutex = some lock ∧ lock.owner = some .daemon ∧
      s.daemon.call = some (next, u) ∧
      daemonStep elapsed s =
        { s with mutex := some lock.release, daemon := next, unsync := u.getD s.unsync }) ∨
    (s.daemon = .receive ∧ s.daemonKill = true ∧
      daemonStep elapsed s = { s with daemonKill := false, daemon := .farewell }) ∨
    (∃ calls synced, s.daemon = .receive ∧ s.daemonKill = false ∧
      daemonStep elapsed s = { s with daemon := .round calls synced }) ∨
    (s.daemon = .release ∧ s.killSem = some false ∧
      daemonStep elapsed s = { s with daemon := .suspend, killSem := some true }) ∨
    s.daemon = .suspend ∧ daemonStep elapsed s = { s with daemon := .suspended } := by
  cases hcall : s.daemon.call with
  | some c =>
    obtain ⟨next, u⟩ := c
    have hstage := Daemon.call_stage hcall
    obtain ⟨lock, hlock⟩ := h.exists_mutex (h.cleanup_ne_done_of_daemon hstage.2.2.1)
    simp only [daemonStep, hcall]
    rcases lockedCall_cases hlock
      (fun s => { s with daemon := next, unsync := u.getD s.unsync }) with
      ⟨howner, hstep⟩ | ⟨howner, hstep⟩
    · exact Or.inr (Or.inl ⟨lock, hlock, howner, rfl, hstep⟩)
    · exact Or.inr (Or.inr (Or.inl ⟨lock, next, u, hlock, howner, rfl, hstep⟩))
  | none =>
    simp only [daemonStep, hcall]
    cases hd : s.daemon with
    | receive =>
      cases hkill : s.daemonKill with
      | true => simp
      | false =>
        cases elapsed with
        | none => simp
        | some r => simp
    | release =>
      have hsem : s.killSem = some false := by
        have hdaemon := h.daemon
        rw [hd] at hdaemon
        cases hc : s.cleanup.toward .daemon <;> simp_all [Handshake, Daemon.stage]
      simp [releaseKill, hsem]
    | suspend => simp
    | suspended => simp [Daemon.stage]
    | deleted => simp [Daemon.stage]
    | readStatus => simp [hd, Daemon.call] at hcall
    | claimSync => simp [hd, Daemon.call] at hcall
    | interval => simp [hd, Daemon.call] at hcall
    | farewell => simp [hd, Daemon.call] at hcall
    | round calls synced => cases calls <;> simp [hd, Daemon.call] at hcall

theorem Daemon.stage_of_call {d : Daemon} (h : d.call.isSome) :
    d.stage = .serving ∨ d.stage = .leaving := by
  cases d with
  | readStatus => exact Or.inl rfl
  | claimSync => exact Or.inl rfl
  | interval => exact Or.inl rfl
  | receive => exact Or.inl rfl
  | round => exact Or.inl rfl
  | farewell => exact Or.inr rfl
  | release => exact Or.inr rfl
  | suspend => exact absurd h Bool.false_ne_true
  | suspended => exact absurd h Bool.false_ne_true
  | deleted => exact absurd h Bool.false_ne_true

/-- A task without a call under the mutex has no claim on it. -/
theorem Inv.daemon_not_mem (h : Inv build s) (hcall : s.daemon.call = none)
    {lock : FifoLock Task} (hlock : s.mutex = some lock) : Task.daemon ∉ lock.claims := by
  intro hmem
  have hsome := h.daemonClaim lock hlock hmem
  rw [hcall] at hsome
  exact Bool.false_ne_true hsome

/-- The daemon makes its call as the owner of the mutex. -/
theorem Inv.daemon_call (h : Inv build s) {lock : FifoLock Task} {next : Daemon}
    {u : Option Bool} (hlock : s.mutex = some lock) (howner : lock.owner = some .daemon)
    (hcall : s.daemon.call = some (next, u)) :
    Inv build { s with mutex := some lock.release, daemon := next,
                       unsync := u.getD s.unsync } := by
  obtain ⟨hstage, hleft, hdel, hrelease⟩ := Daemon.call_stage hcall
  refine { h with daemon := ?_, daemonKill := ?_, mutex := ?_, daemonClaim := ?_,
                  tickerClaim := ?_, unsync := ?_ }
  · exact hstage ▸ h.daemon
  · simpa [hstage] using h.daemonKill
  · simpa [hlock] using h.mutex
  · rintro _ ⟨⟩ hmem
    exact absurd rfl ((FifoLock.mem_release howner _).mp hmem).2
  · rintro _ ⟨⟩ hmem
    exact h.tickerClaim lock hlock ((FifoLock.mem_release howner _).mp hmem).1
  · rintro (hnext | hnext | hnext)
    · simp [hrelease hnext]
    · exact absurd (hstage.symm.trans hnext) hleft
    · exact absurd (hstage.symm.trans hnext) hdel

theorem Inv.daemon_release (h : Inv build s) (hd : s.daemon = .release) :
    Inv build { s with daemon := .suspend, killSem := some true } := by
  have hawait : s.cleanup.toward .daemon = .await := by
    have hdaemon := h.daemon
    rw [hd] at hdaemon
    cases hc : s.cleanup.toward .daemon <;> simp_all [Handshake, Daemon.stage]
  have hc : s.cleanup = .awaitDaemon := by
    cases hc : s.cleanup <;> simp_all [Cleanup.toward]
  refine { h with killSem := ?_, daemon := ?_, ticker := ?_, daemonKill := ?_,
                  daemonClaim := ?_, unsync := ?_ }
  · simp [hc, Cleanup.killSem]
  · simp [hawait, Handshake, Daemon.stage]
  · simpa [hc, Cleanup.toward, Handshake] using h.ticker
  · have hkill := h.daemonKill
    simp only [hd, Daemon.stage] at hkill
    simpa [Daemon.stage] using hkill
  · exact fun lock hlock hmem => absurd hmem (h.daemon_not_mem (by rw [hd]; rfl) hlock)
  · exact fun _ => h.unsync (Or.inl hd)

theorem Inv.daemon_slot (h : Inv build s) (elapsed : Option (ℕ × Bool)) :
    Inv build (daemonStep elapsed s) := by
  rcases daemonStep_cases h elapsed with ⟨-, hstep⟩ | ⟨lock, hlock, -, hcall, hstep⟩ |
    ⟨lock, next, u, hlock, howner, hcall, hstep⟩ | ⟨hd, hkill, hstep⟩ |
    ⟨calls, synced, hd, hkill, hstep⟩ | ⟨hd, hsem, hstep⟩ | ⟨hd, hstep⟩
  all_goals rw [hstep]
  · exact h
  · -- the mutex is claimed
    refine { h with mutex := ?_, daemonClaim := ?_, tickerClaim := ?_ }
    · simpa [hlock] using h.mutex
    · rintro _ ⟨⟩ -
      exact hcall
    · rintro _ ⟨⟩ hmem
      rcases (FifoLock.mem_obtain lock .daemon .ticker).mp hmem with hmem | hne
      · exact h.tickerClaim lock hlock hmem
      · exact absurd hne Task.noConfusion
  · exact h.daemon_call hlock howner hcall
  · -- the request is taken
    have hawait := (h.daemonKill.mp hkill).1
    have hdaemon := h.daemon
    simp only [hd, hawait, Handshake, Daemon.stage] at hdaemon
    refine { h with daemon := ?_, daemonKill := ?_, daemonClaim := ?_, unsync := ?_ }
    · simp only [hawait, Handshake, Daemon.stage]
      simpa using hdaemon
    · simp [Daemon.stage]
    · exact fun _ _ _ => rfl
    · simp [Daemon.stage]
  · -- a round begins
    refine { h with daemon := ?_, daemonKill := ?_, daemonClaim := ?_, unsync := ?_ }
    · simpa [hd, Daemon.stage] using h.daemon
    · simpa [hd, Daemon.stage] using h.daemonKill
    · rintro _ - -
      cases calls <;> rfl
    · simp [Daemon.stage]
  · exact h.daemon_release hd
  · -- the daemon suspends itself
    refine { h with daemon := ?_, daemonKill := ?_, daemonClaim := ?_, unsync := ?_ }
    · simpa [hd, Daemon.stage] using h.daemon
    · simpa [hd, Daemon.stage] using h.daemonKill
    · exact fun lock hlock hmem => absurd hmem (h.daemon_not_mem (by rw [hd]; rfl) hlock)
    · exact fun _ => h.unsync (Or.inr (Or.inl (by rw [hd]; rfl)))

theorem Inv.ticker_not_mem (h : Inv build s) (hbody : s.ticker ≠ .body)
    {lock : FifoLock Task} (hlock : s.mutex = some lock) : Task.ticker ∉ lock.claims :=
  fun hmem => hbody (h.tickerClaim lock hlock hmem)

/-- A ticker that is about to leave is awaited. -/
theorem Inv.awaitTicker (h : Inv build s) (hstage : s.ticker.stage = .leaving) :
    s.cleanup = .awaitTicker ∧ s.killSem = some false := by
  have hticker := h.ticker
  rw [hstage] at hticker
  cases hc : s.cleanup <;> simp_all [Handshake, Cleanup.toward]

/-- A slot that moves the ticker and what it reads, outside the mutex. -/
theorem Inv.moveTicker (h : Inv build s) {t : Ticker} {kill sync running : Bool}
    (hbody : s.ticker ≠ .body) (hbuild : t.of build)
    (hticker : Handshake t.stage s.killSem (s.cleanup.toward .ticker))
    (hkill : kill = true ↔
      build = .pictimer ∧ s.cleanup.toward .ticker = .await ∧ t.stage = .serving)
    (hrunning : build = .rateMonotonic → s.cleanup.toward .ticker = .ask → t.raised →
      running = true) :
    Inv build { s with ticker := t, tickerKill := kill, tickerSync := sync,
                       tickerRunning := running } where
  __ := h
  ticker := hticker
  tickerKill := hkill
  running := hrunning
  build := hbuild
  tickerClaim := fun _ hlock hmem => absurd hmem (h.ticker_not_mem hbody hlock)

/-- One that leaves the ticker at its stage. -/
theorem Inv.stepTicker (h : Inv build s) {t : Ticker} {sync running : Bool}
    (hbody : s.ticker ≠ .body) (hbuild : t.of build) (hstage : t.stage = s.ticker.stage)
    (hrunning : t.raised → s.ticker.raised ∧ running = s.tickerRunning ∨ running = true) :
    Inv build { s with ticker := t, tickerSync := sync, tickerRunning := running } := by
  refine h.moveTicker hbody hbuild (hstage ▸ h.ticker) (hstage ▸ h.tickerKill) ?_
  intro hb hask ht
  rcases hrunning ht with ⟨hraised, hrunning⟩ | hrunning
  · exact hrunning.trans (h.running hb hask hraised)
  · exact hrunning

/-- One that starts its body, where it may claim the mutex. -/
theorem Inv.enterBody (h : Inv build s) {sync : Bool} (hstage : s.ticker.stage = Ticker.body.stage)
    (hraised : s.ticker.raised) : Inv build { s with ticker := .body, tickerSync := sync } where
  __ := h
  ticker := hstage ▸ h.ticker
  tickerKill := hstage ▸ h.tickerKill
  running := fun hb hask _ => h.running hb hask hraised
  build := by cases build <;> simp [Ticker.of, Ticker.raised]
  tickerClaim := fun _ _ _ => rfl

/-- The ticker finds `tickerRunning` down only if it has been asked. -/
theorem Inv.ticker_asked (h : Inv build s) (ht : s.ticker = .test)
    (hb : build = .rateMonotonic) (hrunning : s.tickerRunning = false) :
    s.cleanup = .awaitTicker ∧ s.killSem = some false := by
  have hticker := h.ticker
  have hflag := h.running hb
  simp only [ht, Ticker.raised, Ticker.stage, hrunning] at hticker hflag
  cases hc : s.cleanup <;> simp_all [Handshake, Cleanup.toward]

theorem Inv.ticker_test (h : Inv build s) (ht : s.ticker = .test) :
    Inv build (tickerStep build s) := by
  have hb : build = .rateMonotonic := by
    have hbuild := h.build
    cases build with
    | rateMonotonic => rfl
    | pictimer => exact absurd ht hbuild.2.1
  simp only [tickerStep, ht]
  cases hrunning : s.tickerRunning with
  | true =>
    refine h.stepTicker ?_ ?_ (by rw [ht]; rfl) (fun _ => Or.inr rfl)
    · simp [ht]
    · simp [hb, Ticker.of]
  | false =>
    obtain ⟨hc, hsem⟩ := h.ticker_asked ht hb hrunning
    refine h.moveTicker ?_ ?_ ?_ ?_ ?_
    · simp [ht]
    · simp [hb, Ticker.of]
    · simp [hc, hsem, Handshake, Cleanup.toward, Ticker.stage]
    · simpa [hb, Ticker.stage] using h.tickerKill
    · simp [hc, Cleanup.toward]

/-- The ticker receives the request, or the timer's event, or waits on. -/
theorem Inv.ticker_receive (h : Inv build s) (ht : s.ticker = .receive) :
    Inv build (tickerStep build s) := by
  have hb : build = .pictimer := by
    have hbuild := h.build
    cases build with
    | rateMonotonic => exact absurd ht hbuild
    | pictimer => rfl
  simp only [tickerStep, ht]
  split
  · next hkill =>
    obtain ⟨-, hawait, -⟩ := h.tickerKill.mp hkill
    have hticker := h.ticker
    simp only [ht, hawait, Handshake, Ticker.stage] at hticker
    refine h.moveTicker ?_ ?_ ?_ ?_ ?_
    · simp [ht]
    · simp [hb, Ticker.of, Ticker.raised]
    · simpa [hawait, Handshake, Ticker.stage] using hticker
    · simp [Ticker.stage]
    · simp [hb]
  · split
    · exact h.enterBody (by rw [ht]; rfl) (by simp [ht, Ticker.raised])
    · exact h

/-- `ticker_body()` claims the mutex, or runs as its owner. -/
theorem Inv.ticker_body (h : Inv build s) (ht : s.ticker = .body) :
    Inv build (tickerStep build s) := by
  simp only [tickerStep, ht]
  obtain ⟨lock, hlock⟩ := h.exists_mutex
    (h.cleanup_ne_done_of_ticker (by simp [ht, Ticker.stage]))
  rcases lockedCall_cases hlock (t := .ticker)
    (fun s => { s with ticker := if build = .pictimer then .receive else .test }) with
    ⟨howner, hstep⟩ | ⟨howner, hstep⟩
  all_goals rw [hstep]
  · refine { h with mutex := ?_, daemonClaim := ?_, tickerClaim := ?_ }
    · simpa [hlock] using h.mutex
    · rintro _ ⟨⟩ hmem
      rcases (FifoLock.mem_obtain lock .ticker .daemon).mp hmem with hmem | hne
      · exact h.daemonClaim lock hlock hmem
      · exact absurd hne Task.noConfusion
    · exact fun _ _ _ => ht
  · refine { h with ticker := ?_, tickerKill := ?_, running := ?_, build := ?_, mutex := ?_,
                    daemonClaim := ?_, tickerClaim := ?_ }
    · cases build <;> simpa [ht, Ticker.stage] using h.ticker
    · cases build <;> simpa [ht, Ticker.stage] using h.tickerKill
    · exact fun hb hask _ => h.running hb hask (by simp [ht, Ticker.raised])
    · cases build <;> simp [Ticker.of, Ticker.raised]
    · simpa [hlock] using h.mutex
    · rintro _ ⟨⟩ hmem
      exact h.daemonClaim lock hlock ((FifoLock.mem_release howner _).mp hmem).1
    · rintro _ ⟨⟩ hmem
      exact absurd rfl ((FifoLock.mem_release howner _).mp hmem).2

theorem Inv.ticker_release (h : Inv build s) (ht : s.ticker = .release) :
    Inv build (tickerStep build s) := by
  obtain ⟨hc, hsem⟩ := h.awaitTicker (by simp [ht, Ticker.stage])
  simp only [tickerStep, ht, releaseKill, hsem]
  refine { h with killSem := ?_, daemon := ?_, ticker := ?_, tickerKill := ?_, running := ?_,
                  build := ?_, tickerClaim := ?_ }
  · simp [hc, Cleanup.killSem]
  · simpa [hc, Cleanup.toward, Handshake] using h.daemon
  · simp [hc, Cleanup.toward, Handshake, Ticker.stage]
  · simpa [ht, Ticker.stage] using h.tickerKill
  · simp [hc, Cleanup.toward]
  · cases build <;> simp [Ticker.of, Ticker.raised]
  · exact fun _ hlock hmem => absurd hmem (h.ticker_not_mem (by simp [ht]) hlock)

theorem Inv.ticker_slot (h : Inv build s) : Inv build (tickerStep build s) := by
  have hbuild := h.build
  cases ht : s.ticker with
  | create =>
    simp only [tickerStep, ht]
    refine h.stepTicker (by simp [ht]) ?_ (by rw [ht]; rfl) (fun h => absurd rfl h.2)
    cases build <;> simp_all [Ticker.of, Ticker.raised]
  | raise =>
    simp only [tickerStep, ht]
    refine h.stepTicker (by simp [ht]) ?_ (by rw [ht]; rfl) (fun _ => Or.inr rfl)
    cases build <;> simp_all [Ticker.of, Ticker.raised]
  | test => exact h.ticker_test ht
  | period =>
    simp only [tickerStep, ht]
    exact h.enterBody (by rw [ht]; rfl) (by simp [ht, Ticker.raised])
  | receive => exact h.ticker_receive ht
  | body => exact h.ticker_body ht
  | deletePeriod =>
    simp only [tickerStep, ht]
    refine h.stepTicker (by simp [ht]) ?_ (by rw [ht]; rfl) (fun _ => Or.inl ⟨?_, rfl⟩)
    · cases build <;> simp_all [Ticker.of, Ticker.raised]
    · simp [ht, Ticker.raised]
  | release => exact h.ticker_release ht
  | suspend =>
    simp only [tickerStep, ht]
    refine h.stepTicker (by simp [ht]) ?_ (by rw [ht]; rfl) (fun _ => Or.inl ⟨?_, rfl⟩)
    · cases build <;> simp [Ticker.of, Ticker.raised]
    · simp [ht, Ticker.raised]
  | suspended => simpa only [tickerStep, ht] using h
  | deleted => simpa only [tickerStep, ht] using h

theorem Inv.interrupt_slot (h : Inv build s) : Inv build (interrupt s) := by
  unfold interrupt
  split
  · exact h
  · next htimer =>
    have hc : s.cleanup = .removeTimer := h.timer (by simpa using htimer)
    have hticker := h.ticker
    simp only [hc, Cleanup.toward, Handshake] at hticker
    split
    · next ht => simp [ht, Ticker.stage] at hticker
    · exact { h with }

/-- What the tear-down knows of a task it waits for. -/
theorem Handshake.await_cases {stage : Stage} {killSem : Option Bool}
    (h : Handshake stage killSem .await) :
    killSem = some false ∨ stage = .left ∧ killSem = some true := by
  rcases h with ⟨-, h⟩ | h
  · exact Or.inl h
  · exact Or.inr h

theorem Daemon.call_of_stage {d : Daemon} (h : d.stage = .left ∨ d.stage = .deleted) :
    d.call = none := by
  cases hc : d.call with
  | none => rfl
  | some c =>
    rcases Daemon.stage_of_call (Option.isSome_of_eq_some hc) with hs | hs <;> simp_all

/-- A daemon that has left does not claim the mutex. -/
theorem Inv.daemon_free (h : Inv build s)
    (hstage : s.daemon.stage = .left ∨ s.daemon.stage = .deleted) :
    ¬∃ lock ∈ s.mutex, Task.daemon ∈ lock.claims := by
  rintro ⟨lock, hlock, hmem⟩
  exact h.daemon_not_mem (Daemon.call_of_stage hstage) hlock hmem

/-- Neither does a ticker. -/
theorem Inv.ticker_free (h : Inv build s)
    (hstage : s.ticker.stage = .left ∨ s.ticker.stage = .deleted) :
    ¬∃ lock ∈ s.mutex, Task.ticker ∈ lock.claims := by
  rintro ⟨lock, hlock, hmem⟩
  rw [h.tickerClaim lock hlock hmem] at hstage
  rcases hstage with hstage | hstage
  · exact Stage.noConfusion hstage
  · exact Stage.noConfusion hstage

/-- The slots before the tear-down asks the daemon. -/
theorem Inv.cleanup_prepare (h : Inv build s)
    (hc : s.cleanup = .removeTimer ∨ s.cleanup = .createKill) :
    Inv build (cleanupStep build s) := by
  cases h
  rcases hc with hc | hc
  all_goals simp only [cleanupStep, hc]
  · constructor <;> first | assumption | simp_all [Cleanup.killSem, Cleanup.toward, Handshake]
  · constructor <;> first | assumption | simp_all [Cleanup.killSem, Cleanup.toward, Handshake]

/-- The tear-down asks a task that still serves. -/
theorem Inv.cleanup_ask (h : Inv build s)
    (hc : s.cleanup = .killDaemon ∨ s.cleanup = .stopTicker) :
    Inv build (cleanupStep build s) := by
  have hdaemon := h.daemon
  have hticker := h.ticker
  cases h
  rcases hc with hc | hc
  all_goals simp only [cleanupStep, hc]
  · have hne : s.daemon ≠ .deleted := by
      intro hdel
      simp [hc, hdel, Cleanup.toward, Handshake, Daemon.stage] at hdaemon
    rw [if_neg hne]
    constructor <;> first | assumption | simp_all [Cleanup.killSem, Cleanup.toward, Handshake]
  · have hne : s.ticker ≠ .deleted := by
      intro hdel
      simp [hc, hdel, Cleanup.toward, Handshake, Ticker.stage] at hticker
    cases build with
    | rateMonotonic =>
      constructor <;> first | assumption | simp_all [Cleanup.killSem, Cleanup.toward, Handshake]
    | pictimer =>
      simp only [if_neg hne]
      constructor <;> first | assumption | simp_all [Cleanup.killSem, Cleanup.toward, Handshake]

/-- The tear-down waits for a task until it has released `kill_sem`. -/
theorem Inv.cleanup_await (h : Inv build s)
    (hc : s.cleanup = .awaitDaemon ∨ s.cleanup = .awaitTicker) :
    Inv build (cleanupStep build s) := by
  have hself := h
  have hdaemon := h.daemon
  have hticker := h.ticker
  cases h
  rcases hc with hc | hc
  all_goals simp only [cleanupStep, hc, Cleanup.toward] at hdaemon hticker ⊢
  · rcases hdaemon.await_cases with hk | ⟨hleft, hk⟩
    all_goals simp only [hk, obtainKill]
    · exact hself
    · constructor <;> first | assumption | simp_all [Cleanup.killSem, Cleanup.toward, Handshake]
  · rcases hticker.await_cases with hk | ⟨hleft, hk⟩
    all_goals simp only [hk, obtainKill]
    · exact hself
    · constructor <;> first | assumption | simp_all [Cleanup.killSem, Cleanup.toward, Handshake]

/-- The tear-down deletes a task that has left. -/
theorem Inv.cleanup_delete (h : Inv build s)
    (hc : s.cleanup = .deleteDaemon ∨ s.cleanup = .deleteTicker) :
    Inv build (cleanupStep build s) := by
  have hdaemon := h.daemon
  have hticker := h.ticker
  rcases hc with hc | hc
  all_goals
    simp only [cleanupStep, hc, deleteTask, Cleanup.toward, Handshake] at hdaemon hticker ⊢
  · have hfree := h.daemon_free (Or.inl hdaemon)
    have hne : s.daemon ≠ .deleted := by
      intro hdel
      simp [hdel, Daemon.stage] at hdaemon
    simp only [decide_eq_true_eq, if_neg hne, if_neg hfree]
    cases h
    constructor <;> first
      | assumption
      | simp_all [Cleanup.killSem, Cleanup.toward, Handshake, Daemon.stage]
  · have hfree := h.ticker_free (Or.inl hticker)
    have hne : s.ticker ≠ .deleted := by
      intro hdel
      simp [hdel, Ticker.stage] at hticker
    simp only [decide_eq_true_eq, if_neg hne, if_neg hfree]
    cases h
    constructor <;> first
      | assumption
      | simp_all [Cleanup.killSem, Cleanup.toward, Handshake, Ticker.stage]
    cases build <;> simp [Ticker.of, Ticker.raised]

/-- The slots after both tasks are deleted. -/
theorem Inv.cleanup_dispose (h : Inv build s) (hc : s.cleanup = .releaseKill ∨
    s.cleanup = .deleteKill ∨ s.cleanup = .deleteMutex) : Inv build (cleanupStep build s) := by
  have hdaemon := h.daemon
  have hticker := h.ticker
  have hsem := h.killSem
  rcases hc with hc | hc | hc
  all_goals
    simp only [hc, Cleanup.killSem, Cleanup.toward, Handshake, Option.mem_def, Option.some.injEq,
      forall_eq'] at hdaemon hticker hsem
  · simp only [cleanupStep, hc, releaseKill, hsem]
    cases h
    constructor <;> first | assumption | simp_all [Cleanup.killSem, Cleanup.toward, Handshake]
  · simp only [cleanupStep, hc, hsem, reduceCtorEq, if_false]
    cases h
    constructor <;> first | assumption | simp_all [Cleanup.killSem, Cleanup.toward, Handshake]
  · obtain ⟨lock, hlock⟩ := h.exists_mutex (by simp [hc])
    have hempty : lock.claims = [] := by
      rw [List.eq_nil_iff_forall_not_mem]
      rintro (_ | _) hmem
      · exact h.daemon_free (Or.inr hdaemon) ⟨lock, hlock, hmem⟩
      · exact h.ticker_free (Or.inr hticker) ⟨lock, hlock, hmem⟩
    simp only [cleanupStep, hc, hlock, if_pos hempty]
    cases h
    constructor <;> first | assumption | simp_all [Cleanup.killSem, Cleanup.toward, Handshake]

theorem Inv.cleanup_slot (h : Inv build s) : Inv build (cleanupStep build s) := by
  cases hc : s.cleanup with
  | removeTimer => exact h.cleanup_prepare (Or.inl hc)
  | createKill => exact h.cleanup_prepare (Or.inr hc)
  | killDaemon => exact h.cleanup_ask (Or.inl hc)
  | awaitDaemon => exact h.cleanup_await (Or.inl hc)
  | deleteDaemon => exact h.cleanup_delete (Or.inl hc)
  | stopTicker => exact h.cleanup_ask (Or.inr hc)
  | awaitTicker => exact h.cleanup_await (Or.inr hc)
  | deleteTicker => exact h.cleanup_delete (Or.inr hc)
  | releaseKill => exact h.cleanup_dispose (Or.inl hc)
  | deleteKill => exact h.cleanup_dispose (Or.inr (Or.inl hc))
  | deleteMutex => exact h.cleanup_dispose (Or.inr (Or.inr hc))
  | done => simpa only [cleanupStep, hc] using h

theorem Inv.slot (h : Inv build s) (slot : Slot) : Inv build (step build s slot) := by
  cases slot with
  | cleanup => exact h.cleanup_slot
  | daemon elapsed => exact h.daemon_slot elapsed
  | ticker => exact h.ticker_slot
  | interrupt => exact h.interrupt_slot

end Step

/-- Whatever the interleaving, every call of the shutdown succeeds: nobody enters the kernel
without the mutex, none is deleted with a claim on it, `kill_sem` is there for every release
and released once for every wait. The daemon leaves the clock unsynchronised, and when the
shutdown is done nothing is left. -/
theorem shutdown_safe (build : Build) (slots : List Slot) :
    (run (step build) (start build) slots).fault = none ∧
    (run (step build) (start build) slots).irqsMissed = 0 ∧
    ((run (step build) (start build) slots).daemon = .deleted →
      (run (step build) (start build) slots).unsync = true) ∧
    ((run (step build) (start build) slots).mutex = none →
      (run (step build) (start build) slots).daemon = .deleted ∧
      (run (step build) (start build) slots).ticker = .deleted ∧
      (run (step build) (start build) slots).killSem = none) := by
  have h : Inv build (run (step build) (start build) slots) :=
    run_invariant (P := fun _ _ => True) (fun _ slot h _ => h.slot slot) (inv_start build)
      (along_true _ _)
  refine ⟨h.fault, h.irqsMissed, fun hd => ?_, fun hmutex => ?_⟩
  · exact h.unsync (Or.inr (Or.inr (by rw [hd]; rfl)))
  · have hdone := h.mutex.mp hmutex
    have hdaemon := h.daemon
    have hticker := h.ticker
    rw [hdone] at hdaemon hticker
    refine ⟨?_, ?_, h.killSem none (by rw [hdone]; rfl)⟩
    · exact Daemon.eq_deleted hdaemon
    · exact Ticker.eq_deleted hticker

end Nanokernel.Shutdown
