import Nanokernel.Rtems.Shutdown

/-!
# Whether a shutdown returns

Under a fair schedule the shutdown returns, except after one race: if the ticker has not yet
executed `tickerRunning = 1` when `rtemsNtpCleanup` clears the flag, it raises it afterwards
and stays in its loop (`completes_iff`). The timer's ticker is asked by an event, which waits
for it.
-/

namespace Nanokernel.Shutdown

open Run Fairness

/-- Who has slots of its own. -/
inductive Party where
  | cleanup
  | task (t : Task)
deriving DecidableEq, Repr

def Slot.party : Slot → Option Party
  | .cleanup => some .cleanup
  | .daemon _ => some (.task .daemon)
  | .ticker => some (.task .ticker)
  | .interrupt => none

/-- The ticker was asked before it raised the flag: it has the flag still to raise, or has
raised it again. -/
def Stuck (build : Build) (s : System) : Prop :=
  build = .rateMonotonic ∧ s.cleanup = .awaitTicker ∧ s.ticker.stage = .serving ∧
    (s.ticker.raised → s.tickerRunning = true)

/-! ## The measure -/

/-- The calls the shutdown has still to make. -/
def Cleanup.left : Cleanup → ℕ
  | .removeTimer => 11
  | .createKill => 10
  | .killDaemon => 9
  | .awaitDaemon => 8
  | .deleteDaemon => 7
  | .stopTicker => 6
  | .awaitTicker => 5
  | .deleteTicker => 4
  | .releaseKill => 3
  | .deleteKill => 2
  | .deleteMutex => 1
  | .done => 0

/-- The calls of the daemon until it releases `kill_sem`, once it has been asked. -/
def Daemon.left : Daemon → ℕ
  | .readStatus => 6
  | .claimSync => 5
  | .interval => 4
  | .receive => 3
  | .round calls _ => calls + 5
  | .farewell => 2
  | .release => 1
  | _ => 0

def Ticker.left : Ticker → ℕ
  | .period => 5
  | .body => 4
  | .test => 3
  | .receive => 3
  | .deletePeriod => 2
  | .release => 1
  | _ => 0

def System.left (s : System) : Task → ℕ
  | .daemon => s.daemon.left
  | .ticker => s.ticker.left

def System.lock (s : System) : FifoLock Task := s.mutex.getD .free

/-- The task whose release of `kill_sem` the shutdown waits for. -/
def System.awaited (s : System) : Option Task :=
  if s.killSem = some false then
    match s.cleanup with
    | .awaitDaemon => some .daemon
    | .awaitTicker => some .ticker
    | _ => none
  else none

/-- How long the awaited task takes: for each of its calls it may have to wait for the
mutex. -/
def System.work (s : System) : ℕ :=
  match s.awaited with
  | none => 0
  | some t => (Fintype.card Task + 1) * s.left t + s.lock.ahead t

def System.rank (s : System) : ℕ ×ₗ ℕ := toLex (s.cleanup.left, s.work)

/-- Whose slot brings the shutdown forward. -/
def System.helpful (s : System) : Party :=
  match s.awaited with
  | none => .cleanup
  | some t => .task (s.lock.helper t)

section Rank

variable {s s' : System}

theorem rank_lt_of_left (h : s'.cleanup.left < s.cleanup.left) : s'.rank < s.rank :=
  Prod.Lex.toLex_lt_toLex.mpr (Or.inl h)

theorem rank_lt_of_work (hc : s'.cleanup = s.cleanup) (h : s'.work < s.work) :
    s'.rank < s.rank :=
  Prod.Lex.toLex_lt_toLex.mpr (Or.inr ⟨congrArg Cleanup.left hc, h⟩)

/-- A call of the awaited task counts more than any wait for the mutex. -/
theorem work_lt_of_left {t : Task} (ht : s.awaited = some t) (ht' : s'.awaited = some t)
    (h : s'.left t < s.left t) : s'.work < s.work := by
  have hahead := s'.lock.ahead_le_card t
  simp only [System.work, ht, ht']
  calc (Fintype.card Task + 1) * s'.left t + s'.lock.ahead t
      < (Fintype.card Task + 1) * s'.left t + (Fintype.card Task + 1) := by omega
    _ = (Fintype.card Task + 1) * (s'.left t + 1) := by rw [Nat.mul_add_one]
    _ ≤ (Fintype.card Task + 1) * s.left t := Nat.mul_le_mul_left _ h
    _ ≤ (Fintype.card Task + 1) * s.left t + s.lock.ahead t := Nat.le_add_right _ _

theorem work_lt_of_ahead {t : Task} (ht : s.awaited = some t) (ht' : s'.awaited = some t)
    (hleft : s'.left t = s.left t) (h : s'.lock.ahead t < s.lock.ahead t) :
    s'.work < s.work := by
  simp only [System.work, ht, ht', hleft]
  exact Nat.add_lt_add_left h _

/-- The end of the wait. -/
theorem work_lt_of_released {t : Task} (ht : s.awaited = some t) (ht' : s'.awaited = none)
    (h : 0 < s.left t) : s'.work < s.work := by
  simp only [System.work, ht, ht']
  exact Nat.add_pos_left (Nat.mul_pos (Nat.succ_pos _) h) _

end Rank

/-! ## What each slot brings -/

section Slots

variable {build : Build} {s : System}

/-- The step brings the shutdown closer, or it was not up to its party. -/
abbrev Brings (build : Build) (s : System) (e : Slot) : Prop :=
  Advances (step build) Slot.party (fun s => s.cleanup = .done ∨ Stuck build s) System.rank
    System.helpful s e

theorem brings_of_rank {e : Slot} (h : (step build s e).rank < s.rank) : Brings build s e :=
  Or.inr (Or.inl h)

theorem brings_of_eq {e : Slot} (hstep : step build s e = s)
    (hparty : e.party ≠ some s.helpful) : Brings build s e :=
  Or.inr (Or.inr ⟨by rw [hstep], by rw [hstep], hparty⟩)

/-- A step after which the same task is awaited with as much left. -/
theorem brings_of_same {e : Slot} (hc : (step build s e).cleanup = s.cleanup)
    (hawaited : (step build s e).awaited = s.awaited)
    (hsame : ∀ t, s.awaited = some t → (step build s e).left t = s.left t ∧
      (step build s e).lock.ahead t = s.lock.ahead t ∧
      (step build s e).lock.helper t = s.lock.helper t)
    (hparty : e.party ≠ some s.helpful) : Brings build s e := by
  refine Or.inr (Or.inr ⟨?_, ?_, hparty⟩)
  · simp only [System.rank, System.work, hc, hawaited]
    cases ht : s.awaited with
    | none => rfl
    | some t => simp only [(hsame t ht).1, (hsame t ht).2.1]
  · simp only [System.helpful, hawaited]
    cases ht : s.awaited with
    | none => rfl
    | some t => simp only [(hsame t ht).2.2]

theorem awaited_daemon_iff : s.awaited = some .daemon ↔
    s.cleanup = .awaitDaemon ∧ s.killSem = some false := by
  unfold System.awaited
  cases hc : s.cleanup <;> simp [and_comm]

theorem awaited_ticker_iff : s.awaited = some .ticker ↔
    s.cleanup = .awaitTicker ∧ s.killSem = some false := by
  unfold System.awaited
  cases hc : s.cleanup <;> simp [and_comm]

/-- The shutdown waits for nobody else. -/
theorem Inv.cleanup_slot_left (h : Inv build s) (hdone : s.cleanup ≠ .done)
    (hawaited : s.awaited = none) :
    (cleanupStep build s).cleanup.left < s.cleanup.left := by
  have hfault := h.cleanup_slot.fault
  have hdaemon := h.daemon
  have hticker := h.ticker
  revert hfault
  cases hc : s.cleanup with
  | removeTimer => simp [cleanupStep, hc, Cleanup.left]
  | createKill => simp [cleanupStep, hc, Cleanup.left]
  | killDaemon =>
    simp only [cleanupStep, hc]
    split <;> simp [System.fail, Cleanup.left]
  | awaitDaemon =>
    rw [hc] at hdaemon
    rcases hdaemon.await_cases with hk | ⟨-, hk⟩
    · simp [System.awaited, hc, hk] at hawaited
    · simp [cleanupStep, hc, obtainKill, hk, Cleanup.left]
  | deleteDaemon =>
    simp only [cleanupStep, hc, deleteTask]
    split_ifs <;> simp [System.fail, Cleanup.left]
  | stopTicker =>
    simp only [cleanupStep, hc]
    cases build with
    | rateMonotonic => simp [Cleanup.left]
    | pictimer => split_ifs <;> simp [System.fail, Cleanup.left]
  | awaitTicker =>
    rw [hc] at hticker
    rcases hticker.await_cases with hk | ⟨-, hk⟩
    · simp [System.awaited, hc, hk] at hawaited
    · simp [cleanupStep, hc, obtainKill, hk, Cleanup.left]
  | deleteTicker =>
    simp only [cleanupStep, hc, deleteTask]
    split_ifs <;> simp [System.fail, Cleanup.left]
  | releaseKill => simp [cleanupStep, hc, Cleanup.left]
  | deleteKill =>
    simp only [cleanupStep, hc]
    split_ifs <;> simp [System.fail, Cleanup.left]
  | deleteMutex =>
    simp only [cleanupStep, hc]
    cases s.mutex with
    | none => simp [System.fail]
    | some lock =>
      simp only
      split_ifs <;> simp [System.fail, Cleanup.left]
  | done => exact absurd hc hdone

/-- While a task is awaited the shutdown lets its slots pass. -/
theorem cleanupStep_of_awaited {t : Task} (ht : s.awaited = some t) :
    cleanupStep build s = s := by
  cases t with
  | daemon =>
    obtain ⟨hc, hk⟩ := awaited_daemon_iff.mp ht
    simp [cleanupStep, hc, obtainKill, hk]
  | ticker =>
    obtain ⟨hc, hk⟩ := awaited_ticker_iff.mp ht
    simp [cleanupStep, hc, obtainKill, hk]

theorem Inv.brings_cleanup (h : Inv build s) (hdone : s.cleanup ≠ .done) :
    Brings build s .cleanup := by
  cases ht : s.awaited with
  | none => exact brings_of_rank (rank_lt_of_left (h.cleanup_slot_left hdone ht))
  | some t =>
    refine brings_of_eq (cleanupStep_of_awaited ht) ?_
    simp [System.helpful, ht, Slot.party]

theorem brings_interrupt (build : Build) (s : System) : Brings build s .interrupt := by
  have hparty : Slot.interrupt.party ≠ some s.helpful := (Option.some_ne_none _).symm
  simp only [Brings, Advances, step, interrupt]
  split_ifs
  all_goals exact Or.inr (Or.inr ⟨rfl, rfl, hparty⟩)

theorem Daemon.left_of_call {d next : Daemon} {u : Option Bool} (h : d.call = some (next, u)) :
    next.left < d.left := by
  unfold Daemon.call at h
  split at h <;> simp_all
  all_goals obtain ⟨rfl, rfl⟩ := h
  all_goals simp [Daemon.left]

/-- A slot that claims the mutex for an awaited task. -/
theorem brings_of_claim {e : Slot} {t : Task} {lock : FifoLock Task}
    (hlock : s.mutex = some lock) (howner : lock.owner ≠ some t)
    (hstep : step build s e = { s with mutex := some (lock.obtain t) })
    (ht : s.awaited = some t) (hparty : e.party = some (.task t)) : Brings build s e := by
  have hs : s.lock = lock := by rw [System.lock, hlock]; rfl
  by_cases hmem : t ∈ lock.claims
  · refine brings_of_eq ?_ ?_
    · rw [hstep, FifoLock.obtain_of_mem hmem, ← hlock]
    · have hhelper := FifoLock.helper_of_mem hmem
      rw [hparty, System.helpful, ht, hs]
      intro hhelp
      have hself : t = lock.helper t := by simpa using hhelp
      exact howner (hhelper.trans (congrArg some hself.symm))
  · refine brings_of_rank (rank_lt_of_work (by rw [hstep]) ?_)
    refine work_lt_of_ahead ht (by rw [hstep]; exact ht) (by rw [hstep]; cases t <;> rfl) ?_
    rw [hstep, hs]
    exact FifoLock.ahead_obtain_self hmem

/-- Any slot of another task that claims the mutex. -/
theorem brings_of_claim_other {e : Slot} {t : Task} {lock : FifoLock Task}
    (hlock : s.mutex = some lock) (howner : lock.owner ≠ some t)
    (hstep : step build s e = { s with mutex := some (lock.obtain t) })
    (ht : s.awaited ≠ some t) (hparty : e.party = some (.task t)) : Brings build s e := by
  have hs : s.lock = lock := by rw [System.lock, hlock]; rfl
  refine brings_of_same (by rw [hstep]) (by rw [hstep]; rfl) ?_ ?_
  · intro t' ht'
    have hne : t' ≠ t := fun h => ht (h ▸ ht')
    rw [hstep, hs]
    exact ⟨by cases t' <;> rfl, FifoLock.ahead_obtain_other hne, FifoLock.helper_obtain_other hne⟩
  · rw [hparty, System.helpful]
    cases ht' : s.awaited with
    | none => simp
    | some t' =>
      have hne : t' ≠ t := fun h => ht (h ▸ ht')
      simp only [hs]
      intro hhelp
      have hhelp : t = lock.helper t' := by simpa using hhelp
      by_cases hmem : t' ∈ lock.claims
      · exact howner (hhelp ▸ FifoLock.helper_of_mem hmem)
      · exact hne (hhelp.trans (FifoLock.helper_of_not_mem hmem)).symm

/-- A slot of another task that releases the mutex: whoever is awaited and waits for it comes
closer. -/
theorem brings_of_release_other {e : Slot} {t : Task} {lock : FifoLock Task}
    (hlock : s.mutex = some lock) (howner : lock.owner = some t)
    (hmutex : (step build s e).mutex = some lock.release)
    (hc : (step build s e).cleanup = s.cleanup) (hk : (step build s e).killSem = s.killSem)
    (hleft : ∀ t', t' ≠ t → (step build s e).left t' = s.left t')
    (ht : s.awaited ≠ some t) (hparty : e.party = some (.task t)) : Brings build s e := by
  have hs : s.lock = lock := by rw [System.lock, hlock]; rfl
  have hs' : (step build s e).lock = lock.release := by rw [System.lock, hmutex]; rfl
  have hawaited : (step build s e).awaited = s.awaited := by
    rw [System.awaited, System.awaited, hc, hk]
  cases ht' : s.awaited with
  | none =>
    refine brings_of_same hc hawaited (fun t'' h'' => ?_) ?_
    · rw [ht'] at h''
      exact absurd h'' (Option.some_ne_none _).symm
    · rw [hparty, System.helpful, ht']
      simp
  | some t' =>
    have hne : t' ≠ t := fun h => ht (h ▸ ht')
    by_cases hmem : t' ∈ lock.claims
    · refine brings_of_rank (rank_lt_of_work hc ?_)
      refine work_lt_of_ahead ht' (hawaited.trans ht') (hleft t' hne) ?_
      rw [hs, hs']
      exact Nat.lt_of_succ_le (FifoLock.ahead_release howner hmem hne).le
    · have hmem' : t' ∉ lock.release.claims :=
        fun h => hmem ((FifoLock.mem_release howner t').mp h).1
      refine brings_of_same hc hawaited (fun t'' h'' => ?_) ?_
      · obtain rfl : t' = t'' := by simpa [ht'] using h''
        rw [hs, hs', FifoLock.ahead_of_not_mem hmem, FifoLock.ahead_of_not_mem hmem',
          FifoLock.helper_of_not_mem hmem, FifoLock.helper_of_not_mem hmem']
        exact ⟨hleft t' hne, rfl, rfl⟩
      · rw [hparty, System.helpful, ht']
        simp only [hs, FifoLock.helper_of_not_mem hmem]
        simpa using hne.symm

/-- A slot of a task that is not awaited, without the mutex. -/
theorem brings_of_other {e : Slot} {t : Task} {lock : FifoLock Task}
    (hlock : s.mutex = some lock) (hmem : t ∉ lock.claims)
    (hmutex : (step build s e).mutex = s.mutex)
    (hc : (step build s e).cleanup = s.cleanup) (hk : (step build s e).killSem = s.killSem)
    (hleft : ∀ t', t' ≠ t → (step build s e).left t' = s.left t')
    (ht : s.awaited ≠ some t) (hparty : e.party = some (.task t)) : Brings build s e := by
  have hawaited : (step build s e).awaited = s.awaited := by
    rw [System.awaited, System.awaited, hc, hk]
  have hsame : (step build s e).lock = s.lock := by rw [System.lock, hmutex]; rfl
  have hs : s.lock = lock := by rw [System.lock, hlock]; rfl
  refine brings_of_same hc hawaited (fun t' ht' => ?_) ?_
  · rw [hsame]
    exact ⟨hleft t' fun h => ht (h ▸ ht'), rfl, rfl⟩
  · rw [hparty, System.helpful]
    cases ht' : s.awaited with
    | none => simp
    | some t' =>
      have hne : t' ≠ t := fun h => ht (h ▸ ht')
      simp only [hs]
      intro hhelp
      have hhelp : t = lock.helper t' := by simpa using hhelp
      by_cases hmem' : t' ∈ lock.claims
      · exact hmem (hhelp ▸ FifoLock.mem_of_owner (FifoLock.helper_of_mem hmem'))
      · exact hne (hhelp.trans (FifoLock.helper_of_not_mem hmem')).symm

/-- A call of the awaited task. -/
theorem brings_of_call {e : Slot} {t : Task} (hc : (step build s e).cleanup = s.cleanup)
    (hk : (step build s e).killSem = s.killSem) (hleft : (step build s e).left t < s.left t)
    (ht : s.awaited = some t) : Brings build s e := by
  refine brings_of_rank (rank_lt_of_work hc (work_lt_of_left ht ?_ hleft))
  rw [System.awaited, hc, hk]
  exact ht

/-- An awaited daemon has not left, and knows of the request while it serves. -/
theorem Inv.awaited_daemon (h : Inv build s) (ht : s.awaited = some .daemon) :
    (s.daemon.stage = .serving ∧ s.daemonKill = true) ∨ s.daemon.stage = .leaving := by
  obtain ⟨hc, hk⟩ := awaited_daemon_iff.mp ht
  have hdaemon := h.daemon
  have hkill := h.daemonKill
  simp only [hc, Cleanup.toward, Handshake, hk] at hdaemon hkill
  rcases hdaemon with ⟨hs | hs, -⟩ | ⟨-, hfull⟩
  · exact Or.inl ⟨hs, hkill.mpr ⟨trivial, hs⟩⟩
  · exact Or.inr hs
  · simp at hfull

theorem Inv.brings_daemon (h : Inv build s) (hdone : s.cleanup ≠ .done)
    (elapsed : Option (ℕ × Bool)) : Brings build s (.daemon elapsed) := by
  obtain ⟨lock, hlock⟩ := h.exists_mutex hdone
  have hother : ∀ {s'}, s.daemon.call = none → daemonStep elapsed s = s' →
      s.awaited ≠ some .daemon → s'.mutex = s.mutex → s'.cleanup = s.cleanup →
      s'.killSem = s.killSem → s'.ticker = s.ticker → Brings build s (.daemon elapsed) := by
    rintro s' hcall rfl ht hmutex hc hk hticker
    refine brings_of_other hlock (h.daemon_not_mem hcall hlock) hmutex hc hk ?_ ht rfl
    rintro (_ | _) hne
    · exact absurd rfl hne
    · exact congrArg Ticker.left hticker
  rcases daemonStep_cases h elapsed with ⟨hidle, hstep⟩ | ⟨lock', hlock', howner, -, hstep⟩ |
    ⟨lock', next, u, hlock', howner, hcall, hstep⟩ | ⟨hd, hkill, hstep⟩ |
    ⟨calls, synced, hd, hkill, hstep⟩ | ⟨hd, hsem, hstep⟩ | ⟨hd, hstep⟩
  · have hcall : s.daemon.call = none := by
      rcases hidle with ⟨hd, -⟩ | hstage
      · rw [hd]; rfl
      · exact Daemon.call_of_stage hstage
    refine hother hcall hstep (fun ht => ?_) rfl rfl rfl rfl
    rcases h.awaited_daemon ht, hidle with ⟨⟨hs, hkill⟩ | hs, ⟨hd, hk⟩ | hl | hl⟩ <;>
      simp_all [Daemon.stage]
  · by_cases ht : s.awaited = some .daemon
    · exact brings_of_claim hlock' howner hstep ht rfl
    · exact brings_of_claim_other hlock' howner hstep ht rfl
  · by_cases ht : s.awaited = some .daemon
    · refine brings_of_call (t := .daemon) ?_ ?_ ?_ ht
      all_goals simp only [step, hstep]
      exact Daemon.left_of_call hcall
    · refine brings_of_release_other hlock' howner ?_ ?_ ?_ ?_ ht rfl
      all_goals simp only [step, hstep]
      rintro (_ | _) hne
      · exact absurd rfl hne
      · rfl
  · have hc : s.cleanup = .awaitDaemon := by
      have hawait := (h.daemonKill.mp hkill).1
      cases hc : s.cleanup <;> simp_all [Cleanup.toward]
    have hk : s.killSem = some false := by
      have hdaemon := h.daemon
      simpa [hc, hd, Cleanup.toward, Handshake, Daemon.stage] using hdaemon
    refine brings_of_call (t := .daemon) ?_ ?_ ?_ (awaited_daemon_iff.mpr ⟨hc, hk⟩)
    all_goals simp only [step, hstep]
    simp [System.left, hd, Daemon.left]
  · refine hother (by rw [hd]; rfl) hstep (fun ht => ?_) rfl rfl rfl rfl
    rcases h.awaited_daemon ht with ⟨-, hkill'⟩ | hs
    · rw [hkill] at hkill'
      exact Bool.false_ne_true hkill'
    · simp [hd, Daemon.stage] at hs
  · have hc : s.cleanup = .awaitDaemon := by
      have hdaemon := h.daemon
      cases hc : s.cleanup <;> simp_all [Handshake, Cleanup.toward, Daemon.stage]
    have ht := awaited_daemon_iff.mpr ⟨hc, hsem⟩
    refine brings_of_rank (rank_lt_of_work ?_ (work_lt_of_released ht ?_ ?_))
    · simp only [step, hstep]
    · simp [step, hstep, System.awaited]
    · simp [System.left, hd, Daemon.left]
  · refine hother (by rw [hd]; rfl) hstep (fun ht => ?_) rfl rfl rfl rfl
    rcases h.awaited_daemon ht with ⟨hs, -⟩ | hs <;> simp [hd, Daemon.stage] at hs

/-- An awaited ticker that is not stuck is leaving or knows of the request. -/
theorem Inv.awaited_ticker (h : Inv build s) (hstuck : ¬ Stuck build s)
    (ht : s.awaited = some .ticker) :
    s.ticker.stage = .leaving ∨ s.ticker.stage = .serving ∧
      (build = .pictimer ∧ s.tickerKill = true ∨
        build = .rateMonotonic ∧ s.ticker.raised ∧ s.tickerRunning = false) := by
  obtain ⟨hc, hk⟩ := awaited_ticker_iff.mp ht
  have hticker := h.ticker
  have hkill := h.tickerKill
  simp only [hc, Cleanup.toward, Handshake, hk] at hticker hkill
  rcases hticker with ⟨hs | hs, -⟩ | ⟨-, hfull⟩
  · refine Or.inr ⟨hs, ?_⟩
    cases build with
    | pictimer => exact Or.inl ⟨rfl, hkill.mpr ⟨rfl, trivial, hs⟩⟩
    | rateMonotonic =>
      refine Or.inr ⟨rfl, ?_⟩
      simp only [Stuck, hc, hs, true_and] at hstuck
      push Not at hstuck
      simpa using hstuck
  · exact Or.inl hs
  · simp at hfull

/-- A slot of the ticker touches what is shared in `ticker_body` and at its end only. -/
theorem tickerStep_frame (hbody : s.ticker ≠ .body) (hrelease : s.ticker ≠ .release) :
    (tickerStep build s).mutex = s.mutex ∧ (tickerStep build s).cleanup = s.cleanup ∧
      (tickerStep build s).killSem = s.killSem ∧ (tickerStep build s).daemon = s.daemon := by
  unfold tickerStep
  split <;> try split_ifs
  all_goals first
    | exact ⟨rfl, rfl, rfl, rfl⟩
    | contradiction

/-- Outside `ticker_body` and its end an awaited ticker comes closer to its end. -/
theorem Inv.ticker_left_lt (h : Inv build s) (hstuck : ¬ Stuck build s)
    (hw : s.awaited = some .ticker) (hbody : s.ticker ≠ .body) (hrelease : s.ticker ≠ .release) :
    (tickerStep build s).ticker.left < s.ticker.left := by
  have hasked := h.awaited_ticker hstuck hw
  have hof := h.build
  cases ht : s.ticker with
  | create =>
    rcases hasked with hs | ⟨-, ⟨rfl, -⟩ | ⟨-, hraised, -⟩⟩ <;>
      simp_all [Ticker.stage, Ticker.raised, Ticker.of]
  | raise =>
    rcases hasked with hs | ⟨-, ⟨rfl, -⟩ | ⟨-, hraised, -⟩⟩ <;>
      simp_all [Ticker.stage, Ticker.raised, Ticker.of]
  | test =>
    have hdown : s.tickerRunning = false := by
      rcases hasked with hs | ⟨-, ⟨rfl, -⟩ | ⟨-, -, hdown⟩⟩
      · simp [ht, Ticker.stage] at hs
      · simp [ht, Ticker.of] at hof
      · exact hdown
    simp [tickerStep, hdown, ht, Ticker.left]
  | period => simp [tickerStep, ht, Ticker.left]
  | receive =>
    have hkill : s.tickerKill = true := by
      rcases hasked with hs | ⟨-, ⟨-, hkill⟩ | ⟨rfl, -, -⟩⟩
      · simp [ht, Ticker.stage] at hs
      · exact hkill
      · simp [ht, Ticker.of] at hof
    simp [tickerStep, hkill, ht, Ticker.left]
  | body => exact absurd ht hbody
  | deletePeriod => simp [tickerStep, ht, Ticker.left]
  | release => exact absurd ht hrelease
  | suspend => rcases hasked with hs | ⟨hs, -⟩ <;> simp [ht, Ticker.stage] at hs
  | suspended => rcases hasked with hs | ⟨hs, -⟩ <;> simp [ht, Ticker.stage] at hs
  | deleted => rcases hasked with hs | ⟨hs, -⟩ <;> simp [ht, Ticker.stage] at hs

theorem brings_ticker_body {lock : FifoLock Task} (hlock : s.mutex = some lock)
    (ht : s.ticker = .body) : Brings build s .ticker := by
  have hslot : step build s .ticker = lockedCall .ticker
      (fun s => { s with ticker := if build = .pictimer then .receive else .test }) s := by
    simp only [step, tickerStep, ht]
  rcases lockedCall_cases hlock
    (fun s => { s with ticker := if build = .pictimer then .receive else .test }) with
    ⟨howner, hstep⟩ | ⟨howner, hstep⟩
  · by_cases hw : s.awaited = some .ticker
    · exact brings_of_claim hlock howner (hslot.trans hstep) hw rfl
    · exact brings_of_claim_other hlock howner (hslot.trans hstep) hw rfl
  · by_cases hw : s.awaited = some .ticker
    · refine brings_of_call (t := .ticker) ?_ ?_ ?_ hw
      all_goals rw [hslot, hstep]
      cases build <;> simp [System.left, ht, Ticker.left]
    · refine brings_of_release_other hlock howner ?_ ?_ ?_ ?_ hw rfl
      all_goals rw [hslot, hstep]
      rintro (_ | _) hne
      · rfl
      · exact absurd rfl hne

/-- The ticker's release of `kill_sem` is what the shutdown waits for. -/
theorem Inv.brings_ticker_release (h : Inv build s) (ht : s.ticker = .release) :
    Brings build s .ticker := by
  obtain ⟨hc, hk⟩ := h.awaitTicker (by simp [ht, Ticker.stage])
  have hw := awaited_ticker_iff.mpr ⟨hc, hk⟩
  refine brings_of_rank (rank_lt_of_work ?_ (work_lt_of_released hw ?_ ?_))
  · simp [step, tickerStep, ht, releaseKill, hk]
  · simp [step, tickerStep, ht, releaseKill, hk, System.awaited]
  · simp [System.left, ht, Ticker.left]

theorem Inv.brings_ticker (h : Inv build s) (hdone : s.cleanup ≠ .done)
    (hstuck : ¬ Stuck build s) : Brings build s .ticker := by
  obtain ⟨lock, hlock⟩ := h.exists_mutex hdone
  by_cases hbody : s.ticker = .body
  · exact brings_ticker_body hlock hbody
  by_cases hrelease : s.ticker = .release
  · exact h.brings_ticker_release hrelease
  obtain ⟨hmutex, hc, hk, hdaemon⟩ : (tickerStep build s).mutex = s.mutex ∧ _ :=
    tickerStep_frame hbody hrelease
  by_cases hw : s.awaited = some .ticker
  · exact brings_of_call (t := .ticker) hc hk (h.ticker_left_lt hstuck hw hbody hrelease) hw
  · refine brings_of_other hlock (h.ticker_not_mem hbody hlock) hmutex hc hk ?_ hw rfl
    rintro (_ | _) hne
    · exact congrArg Daemon.left hdaemon
    · exact absurd rfl hne

theorem Inv.brings (h : Inv build s) (hgoal : ¬ (s.cleanup = .done ∨ Stuck build s))
    (slot : Slot) : Brings build s slot := by
  rw [not_or] at hgoal
  cases slot with
  | cleanup => exact h.brings_cleanup hgoal.1
  | daemon elapsed => exact h.brings_daemon hgoal.1 elapsed
  | ticker => exact h.brings_ticker hgoal.1 hgoal.2
  | interrupt => exact brings_interrupt build s

/-! ## The race -/

/-- Whoever is stuck stays so. -/
theorem Inv.stuck_slot (h : Inv build s) (hstuck : Stuck build s) (slot : Slot) :
    Stuck build (step build s slot) := by
  obtain ⟨rfl, hc, hstage, hflag⟩ := hstuck
  have hdaemon := h.daemon
  have hof := h.build
  rw [hc] at hdaemon
  have hgone : s.daemon = .deleted := Daemon.eq_deleted hdaemon
  have hk : s.killSem = some false := by
    have hticker := h.ticker
    simpa [hc, Cleanup.toward, Handshake, hstage] using hticker
  cases slot with
  | cleanup =>
    rw [step, cleanupStep_of_awaited (awaited_ticker_iff.mpr ⟨hc, hk⟩)]
    exact ⟨rfl, hc, hstage, hflag⟩
  | daemon elapsed =>
    have hsame : daemonStep elapsed s = s := by simp [daemonStep, hgone, Daemon.call]
    rw [step, hsame]
    exact ⟨rfl, hc, hstage, hflag⟩
  | interrupt =>
    simp only [step, interrupt]
    split_ifs
    · exact ⟨rfl, hc, hstage, hflag⟩
    · exact ⟨rfl, hc, hstage, hflag⟩
    · exact ⟨rfl, hc, hstage, hflag⟩
  | ticker =>
    obtain ⟨lock, hlock⟩ := h.exists_mutex (by simp [hc])
    cases ht : s.ticker with
    | create => simp [Stuck, step, tickerStep, ht, hc, Ticker.stage, Ticker.raised]
    | raise => simp [Stuck, step, tickerStep, ht, hc, Ticker.stage]
    | test =>
      have hup : s.tickerRunning = true := hflag (by simp [ht, Ticker.raised])
      simp [Stuck, step, tickerStep, ht, hc, hup, Ticker.stage]
    | period =>
      have hup : s.tickerRunning = true := hflag (by simp [ht, Ticker.raised])
      simp [Stuck, step, tickerStep, ht, hc, hup, Ticker.stage]
    | body =>
      have hup : s.tickerRunning = true := hflag (by simp [ht, Ticker.raised])
      rcases lockedCall_cases hlock (t := .ticker) (fun s => { s with ticker :=
          if Build.rateMonotonic = .pictimer then .receive else .test }) with
        ⟨-, hstep⟩ | ⟨-, hstep⟩
      all_goals
        simp only [step, tickerStep, ht, hstep]
        simp [Stuck, hc, hup, Ticker.stage]
    | receive => simp [ht, Ticker.of] at hof
    | deletePeriod => simp [ht, Ticker.stage] at hstage
    | release => simp [ht, Ticker.stage] at hstage
    | suspend => simp [ht, Ticker.stage] at hstage
    | suspended => simp [ht, Ticker.stage] at hstage
    | deleted => simp [ht, Ticker.stage] at hstage

/-- A shutdown that has returned stays so. -/
theorem Inv.done_slot (h : Inv build s) (hdone : s.cleanup = .done) (slot : Slot) :
    (step build s slot).cleanup = .done := by
  have hdaemon := h.daemon
  have hticker := h.ticker
  rw [hdone] at hdaemon hticker
  have hd : s.daemon = .deleted := Daemon.eq_deleted hdaemon
  have ht : s.ticker = .deleted := Ticker.eq_deleted hticker
  cases slot with
  | cleanup => simp only [step, cleanupStep, hdone]
  | daemon elapsed => simpa [step, daemonStep, hd, Daemon.call] using hdone
  | ticker => simpa [step, tickerStep, ht] using hdone
  | interrupt =>
    simp only [step, interrupt]
    split_ifs <;> exact hdone

/-- The race: the flag is cleared before the ticker has raised it. -/
def TooEarly (build : Build) (s : System) (slot : Slot) : Prop :=
  build = .rateMonotonic ∧ s.cleanup = .stopTicker ∧ slot = .cleanup ∧ ¬ s.ticker.raised

theorem Inv.stuck_of_tooEarly (h : Inv build s) {slot : Slot} (hearly : TooEarly build s slot) :
    Stuck build (step build s slot) := by
  obtain ⟨rfl, hc, rfl, hraised⟩ := hearly
  have hticker := h.ticker
  simp only [hc, Cleanup.toward, Handshake] at hticker
  simp only [step, cleanupStep, hc]
  exact ⟨rfl, rfl, hticker, fun hr => absurd hr hraised⟩

theorem Inv.daemonStep_frame (h : Inv build s) (elapsed : Option (ℕ × Bool)) :
    (daemonStep elapsed s).ticker = s.ticker ∧ (daemonStep elapsed s).cleanup = s.cleanup ∧
      (daemonStep elapsed s).tickerRunning = s.tickerRunning := by
  rcases daemonStep_cases h elapsed with ⟨-, hstep⟩ | ⟨lock, -, -, -, hstep⟩ |
    ⟨lock, next, u, -, -, -, hstep⟩ | ⟨-, -, hstep⟩ | ⟨calls, synced, -, -, hstep⟩ |
    ⟨-, -, hstep⟩ | ⟨-, hstep⟩
  all_goals
    rw [hstep]
    exact ⟨rfl, rfl, rfl⟩

/-- The shutdown waits for the ticker once it has told it to stop. -/
theorem stopTicker_of_awaitTicker (hc : (cleanupStep build s).cleanup = .awaitTicker) :
    s.cleanup = .stopTicker ∨ s.cleanup = .awaitTicker := by
  cases hs : s.cleanup with
  | stopTicker => exact Or.inl rfl
  | awaitTicker => exact Or.inr rfl
  | removeTimer => simp [cleanupStep, hs] at hc
  | createKill => simp [cleanupStep, hs] at hc
  | killDaemon =>
    simp only [cleanupStep, hs] at hc
    split_ifs at hc
    simp [System.fail, hs] at hc
  | awaitDaemon =>
    simp only [cleanupStep, hs, obtainKill] at hc
    split at hc <;> simp [System.fail, hs] at hc
  | deleteDaemon =>
    simp only [cleanupStep, hs, deleteTask] at hc
    split_ifs at hc <;> simp [System.fail, hs] at hc
  | deleteTicker =>
    simp only [cleanupStep, hs, deleteTask] at hc
    split_ifs at hc <;> simp [System.fail, hs] at hc
  | releaseKill => simp [cleanupStep, hs] at hc
  | deleteKill =>
    simp only [cleanupStep, hs] at hc
    split_ifs at hc
    simp [System.fail, hs] at hc
  | deleteMutex =>
    simp only [cleanupStep, hs] at hc
    split at hc
    · simp [System.fail, hs] at hc
    · split_ifs at hc
      simp [System.fail, hs] at hc
  | done => simp [cleanupStep, hs] at hc

theorem Inv.tooEarly_of_cleanup (h : Inv build s) (hnot : ¬ Stuck build s)
    (hstuck : Stuck build (step build s .cleanup)) : TooEarly build s .cleanup := by
  obtain ⟨rfl, hc, hstage, hflag⟩ := hstuck
  simp only [step] at hc hstage hflag
  rcases stopTicker_of_awaitTicker hc with hs | hs
  · refine ⟨rfl, hs, rfl, fun hraised => ?_⟩
    simp only [cleanupStep, hs] at hflag
    exact Bool.false_ne_true (hflag hraised)
  · cases ht : s.awaited with
    | some t =>
      rw [cleanupStep_of_awaited ht] at hc hstage hflag
      exact absurd ⟨rfl, hc, hstage, hflag⟩ hnot
    | none =>
      have hleft := h.cleanup_slot_left (by simp [hs]) ht
      simp [hc, hs] at hleft

/-- What is stuck after a slot of the ticker was so before it. -/
theorem Inv.stuck_of_ticker (h : Inv build s) (hstuck : Stuck build (step build s .ticker)) :
    Stuck build s := by
  obtain ⟨rfl, hc, hstage, hflag⟩ := hstuck
  obtain ⟨lock, hlock⟩ : ∃ lock, s.mutex = some lock := by
    refine h.exists_mutex fun hdone => ?_
    have hticker := h.ticker
    rw [hdone] at hticker
    simp [step, tickerStep, Ticker.eq_deleted hticker, hdone] at hc
  have hof := h.build
  simp only [step, tickerStep] at hc hstage hflag
  cases ht : s.ticker with
  | create =>
    simp only [ht] at hc
    exact ⟨rfl, hc, by rw [ht]; rfl, fun hr => absurd ht hr.1⟩
  | raise =>
    simp only [ht] at hc
    exact ⟨rfl, hc, by rw [ht]; rfl, fun hr => absurd ht hr.2⟩
  | test =>
    simp only [ht] at hc hstage hflag
    refine ⟨rfl, hc, by rw [ht]; rfl, fun _ => ?_⟩
    by_contra hdown
    simp [hdown, Ticker.stage] at hstage
  | period =>
    simp only [ht] at hc hstage hflag
    exact ⟨rfl, hc, by rw [ht]; rfl, fun _ => hflag (by simp [Ticker.raised])⟩
  | body =>
    rcases lockedCall_cases hlock (t := .ticker) (fun s => { s with ticker :=
        if Build.rateMonotonic = .pictimer then .receive else .test }) with
      ⟨-, hstep⟩ | ⟨-, hstep⟩
    all_goals
      simp only [ht, hstep] at hc hstage hflag
      exact ⟨rfl, hc, by rw [ht]; rfl, fun _ => hflag (by simp [Ticker.raised])⟩
  | receive => simp [ht, Ticker.of] at hof
  | deletePeriod => simp [ht, Ticker.stage] at hstage
  | release =>
    simp only [ht, releaseKill] at hstage
    split at hstage <;> simp [System.fail, Ticker.stage] at hstage
  | suspend => simp [ht, Ticker.stage] at hstage
  | suspended => simp [ht, Ticker.stage] at hstage
  | deleted => simp [ht, Ticker.stage] at hstage

/-- There is no other way to get stuck. -/
theorem Inv.tooEarly_of_stuck (h : Inv build s) (hnot : ¬ Stuck build s) {slot : Slot}
    (hstuck : Stuck build (step build s slot)) : TooEarly build s slot := by
  cases slot with
  | cleanup => exact h.tooEarly_of_cleanup hnot hstuck
  | ticker => exact absurd (h.stuck_of_ticker hstuck) hnot
  | daemon elapsed =>
    obtain ⟨rfl, hc, hstage, hflag⟩ := hstuck
    obtain ⟨ht, hc', hr⟩ := h.daemonStep_frame elapsed
    simp only [step, ht, hc', hr] at hc hstage hflag
    exact absurd ⟨rfl, hc, hstage, hflag⟩ hnot
  | interrupt =>
    obtain ⟨rfl, hc, hstage, hflag⟩ := hstuck
    simp only [step, interrupt] at hc hstage hflag
    split_ifs at hc hstage hflag
    all_goals exact absurd ⟨rfl, hc, hstage, hflag⟩ hnot

end Slots

/-! ## Fair schedules -/

section Schedule

variable {build : Build} {slots : ℕ → Slot}

theorem inv_trace (build : Build) (slots : ℕ → Slot) (n : ℕ) :
    Inv build (trace (step build) (start build) slots n) :=
  trace_keeps (fun _ slot h => h.slot slot) (inv_start build) slots n

/-- Once the flag was cleared too early, the shutdown never returns. -/
theorem not_done_of_tooEarly {n : ℕ}
    (hearly : TooEarly build (trace (step build) (start build) slots n) (slots n)) (m : ℕ) :
    (trace (step build) (start build) slots m).cleanup ≠ .done := by
  have hstuck : ∀ k, n < k → Stuck build (trace (step build) (start build) slots k) := by
    intro k hk
    induction k, hk using Nat.le_induction with
    | base => exact (inv_trace build slots n).stuck_of_tooEarly hearly
    | succ k hk ih => exact (inv_trace build slots k).stuck_slot ih (slots k)
  intro hdone
  -- the shutdown does not leave its end
  have hstays : ∀ k, m ≤ k → (trace (step build) (start build) slots k).cleanup = .done := by
    intro k hk
    induction k, hk using Nat.le_induction with
    | base => exact hdone
    | succ k hk ih => exact (inv_trace build slots k).done_slot ih (slots k)
  obtain ⟨-, hc, -⟩ := hstuck (max m (n + 1)) (by omega)
  rw [hstays (max m (n + 1)) (by omega)] at hc
  exact Cleanup.noConfusion hc

/-- Under a fair schedule the shutdown returns if and only if it does not clear
`tickerRunning` before the ticker has raised it; with the timer it always returns. -/
theorem completes_iff (hfair : Fair Slot.party slots) :
    (∃ n, (trace (step build) (start build) slots n).cleanup = .done) ↔
      ∀ n, ¬ TooEarly build (trace (step build) (start build) slots n) (slots n) := by
  constructor
  · rintro ⟨m, hdone⟩ n hearly
    exact not_done_of_tooEarly hearly m hdone
  · intro hnever
    have hnot : ∀ n, ¬ Stuck build (trace (step build) (start build) slots n) := by
      intro n
      induction n with
      | zero => cases build <;> simp [Stuck, start, trace]
      | succ n ih =>
        exact fun hstuck => hnever n ((inv_trace build slots n).tooEarly_of_stuck ih hstuck)
    obtain ⟨n, -, hdone | hstuck⟩ := eventually_of_advances (I := Inv build)
      (G := fun s => s.cleanup = .done ∨ Stuck build s) (fun _ slot h => h.slot slot)
      (fun _ slot h hgoal => h.brings hgoal slot) hfair (inv_start build) 0
    · exact ⟨n, hdone⟩
    · exact absurd hstuck (hnot n)

/-- The three in turn. -/
def inTurn (n : ℕ) : Slot :=
  if n % 3 = 0 then .ticker else if n % 3 = 1 then .daemon none else .cleanup

theorem fair_inTurn : Fair Slot.party inTurn := by
  rintro (_ | _ | _) n
  · refine ⟨3 * n + 2, by omega, ?_⟩
    simp [inTurn, Nat.add_mod, Slot.party]
  · refine ⟨3 * n + 1, by omega, ?_⟩
    simp [inTurn, Nat.add_mod, Slot.party]
  · refine ⟨3 * n, by omega, ?_⟩
    simp [inTurn, Slot.party]

theorem never_early_inTurn :
    (∃ n, (trace (step .rateMonotonic) (start .rateMonotonic) inTurn n).cleanup = .done) ∧
      ∀ n, ¬ TooEarly .rateMonotonic
        (trace (step .rateMonotonic) (start .rateMonotonic) inTurn n) (inTurn n) := by
  have hdone : ∃ n, (trace (step .rateMonotonic) (start .rateMonotonic) inTurn n).cleanup
      = .done := ⟨63, by decide +kernel⟩
  exact ⟨hdone, (completes_iff fair_inTurn).mp hdone⟩

/-- The ticker first runs when the other two have had thirty slots. -/
def late (n : ℕ) : Slot :=
  if n < 30 then if n % 2 = 0 then .daemon none else .cleanup else inTurn n

theorem fair_late : Fair Slot.party late := by
  intro p n
  obtain ⟨m, hm, hp⟩ := fair_inTurn p (max n 30)
  refine ⟨m, by omega, ?_⟩
  rw [late, if_neg (by omega)]
  exact hp

/-- The race is real: there is a fair schedule under which the shutdown never returns. -/
theorem exists_fair_not_done : ∃ slots, Fair Slot.party slots ∧ ∀ n,
    (trace (step .rateMonotonic) (start .rateMonotonic) slots n).cleanup ≠ .done := by
  refine ⟨late, fair_late, not_done_of_tooEarly (n := 23) ?_⟩
  refine ⟨rfl, ?_, rfl, ?_⟩
  · decide +kernel
  · decide +kernel

end Schedule

end Nanokernel.Shutdown
