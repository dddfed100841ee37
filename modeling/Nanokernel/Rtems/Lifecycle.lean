import Mathlib.Data.List.Range
import Nanokernel.Foundation.ObjectTable
import Nanokernel.Foundation.Run

/-!
# Start-up and tear-down

`rtemsNtpInitialize` and `rtemsNtpCleanup`, on the tables of objects that exist.
Which of the calls inside them fail is data. The ids are globals that outlive
the objects: a second ticker, a leaked mutex or a deleted id come of the order
in which the two are called and fail, and of nothing else (`balanced_iff`).
-/

namespace Nanokernel

open Run

namespace Lifecycle

/-! ## Objects -/

/-- The two task bodies. -/
inductive Entry where
  | tickerDaemon
  | ntpDaemon
deriving DecidableEq, Repr

/-- A task is created dormant and started at an entry; told to stop, it
suspends itself. -/
inductive TaskState where
  | dormant
  | running (entry : Entry)
  | suspended
deriving DecidableEq, Repr

/-- What a call that does not succeed comes to: a status code other than
`RTEMS_SUCCESSFUL`, or no return at all. -/
inductive Fault where
  /-- The object does not exist. -/
  | invalidId
  /-- Any other status code. -/
  | failed
  /-- The semaphore is never released. -/
  | blocked
deriving DecidableEq, Repr

/-- The objects and the globals of `rtemsdep.c` that name them. A semaphore is
kept as whether it can be obtained. After a failed assertion, or blocked
forever, the caller is `halted`. -/
structure System where
  tasks : ObjectTable TaskState
  semaphores : ObjectTable Bool
  sockets : ObjectTable Unit
  rtemsNtpTickerId : ℕ
  rtemsNtpDaemonId : ℕ
  killSem : ℕ
  mutexId : ℕ
  tickerRunning : Bool
  rtemsNtpDaemonSd : ℤ
  ourSd : Bool
  halted : Option Fault

/-- The globals as the compiler initialises them; the application may have
opened a socket. -/
def start (rtemsNtpDaemonSd : ℤ) : System where
  tasks := .empty
  semaphores := .empty
  sockets := .empty
  rtemsNtpTickerId := 0
  rtemsNtpDaemonId := 0
  killSem := 0
  mutexId := 0
  tickerRunning := false
  rtemsNtpDaemonSd := rtemsNtpDaemonSd
  ourSd := false
  halted := none

/-! ## `rtemsNtpInitialize()` -/

/-- Which calls of a start-up succeed. -/
structure InitCalls where
  socket : Bool
  bind : Bool
  getNtp : Bool
  mutexCreate : Bool
  tickerCreate : Bool
  tickerStart : Bool
  daemonCreate : Bool
  daemonStart : Bool
deriving DecidableEq, Repr

/-- `closeSd()`. -/
def closeSd (s : System) : System :=
  if s.ourSd then
    { s with
      sockets := s.sockets.delete s.rtemsNtpDaemonSd.toNat
      rtemsNtpDaemonSd := 0
      ourSd := false }
  else s

/-- The socket of the daemon; whether there is one. -/
def openSd (calls : InitCalls) (s : System) : System × Bool :=
  if s.rtemsNtpDaemonSd ≠ 0 then
    -- negative: let NTP code create and delete the socket
    (if s.rtemsNtpDaemonSd < 0 then { s with rtemsNtpDaemonSd := -1 } else s, true)
  else if calls.socket then
    let (sockets, sd) := s.sockets.create ()
    ({ s with sockets := sockets, rtemsNtpDaemonSd := sd, ourSd := true }, calls.bind)
  else ({ s with rtemsNtpDaemonSd := -1 }, false)

def createMutex (s : System) : System :=
  let (semaphores, id) := s.semaphores.create true
  { s with semaphores := semaphores, mutexId := id }

def createTicker (s : System) : System :=
  let (tasks, id) := s.tasks.create .dormant
  { s with tasks := tasks, rtemsNtpTickerId := id }

/-- The ticker sets `tickerRunning` and enters its loop. -/
def startTicker (s : System) : System :=
  { s with
    tasks := s.tasks.set s.rtemsNtpTickerId (.running .tickerDaemon)
    tickerRunning := true }

def createDaemon (s : System) : System :=
  let (tasks, id) := s.tasks.create .dormant
  { s with tasks := tasks, rtemsNtpDaemonId := id }

def startDaemon (s : System) : System :=
  { s with tasks := s.tasks.set s.rtemsNtpDaemonId (.running .ntpDaemon) }

/-- The tasks of a start-up, once there is a mutex. -/
def startTasks (calls : InitCalls) (s : System) : System × ℤ :=
  if !calls.tickerCreate then (closeSd s, -1)
  else if !calls.tickerStart then (closeSd (createTicker s), -1)
  else
    let s := startTicker (createTicker s)
    if !calls.daemonCreate then (closeSd s, -1)
    else if !calls.daemonStart then (closeSd (createDaemon s), -1)
    else (startDaemon (createDaemon s), 0)

/-- `rtemsNtpInitialize()`. -/
def rtemsNtpInitialize (calls : InitCalls) (s : System) : System × ℤ :=
  let (s, opened) := openSd calls s
  if !opened then (closeSd s, -1)
  else if !calls.getNtp then (closeSd s, -1)
  else if !calls.mutexCreate then (closeSd s, -1)
  else startTasks calls (createMutex s)

/-! ## `rtemsNtpCleanup()` -/

/-- Which calls of a tear-down succeed, on objects that exist. -/
structure CleanupCalls where
  killCreate : Bool
  eventSend : Bool
  obtainDaemon : Bool
  deleteDaemon : Bool
  obtainTicker : Bool
  deleteTicker : Bool
  releaseKill : Bool
  deleteKill : Bool
  deleteMutex : Bool
deriving DecidableEq, Repr

/-- A call of RTEMS: the new state, or what keeps it from succeeding. -/
abbrev Service := System → Except Fault System

/-- `PARANOIA()`: the program goes on only if the call succeeded. -/
def paranoia (service : Service) (s : System) : System :=
  match s.halted with
  | some _ => s
  | none =>
    match service s with
    | .ok s => s
    | .error fault => { s with halted := some fault }

/-- `rtems_semaphore_release( kill_sem )`, by whichever task. -/
def releaseKill (s : System) : System :=
  { s with semaphores := s.semaphores.set s.killSem true }

/-- A call with the id of an object, if it exists. -/
def onObject {α : Type} (entry : Option α) (ok : Bool) (call : α → Except Fault System) :
    Except Fault System :=
  match entry with
  | none => .error .invalidId
  | some a => if ok then call a else .error .failed

/-- `rtems_event_send( id, KILL_DAEMON )`: the daemon leaves its loop, releases
`kill_sem` and suspends itself. -/
def eventSend (ok : Bool) (id : ℕ) : Service := fun s =>
  onObject (s.tasks.entry id) ok fun task =>
    if task = .running .ntpDaemon then
      .ok (releaseKill { s with tasks := s.tasks.set id .suspended })
    else .ok s

/-- `rtems_semaphore_obtain( kill_sem, RTEMS_WAIT, RTEMS_NO_TIMEOUT )`. -/
def obtainKill (ok : Bool) : Service := fun s =>
  onObject (s.semaphores.entry s.killSem) ok fun free =>
    if free then .ok { s with semaphores := s.semaphores.set s.killSem false }
    else .error .blocked

def semaphoreRelease (ok : Bool) (id : ℕ) : Service := fun s =>
  onObject (s.semaphores.entry id) ok fun _ =>
    .ok { s with semaphores := s.semaphores.set id true }

def semaphoreDelete (ok : Bool) (id : ℕ) : Service := fun s =>
  onObject (s.semaphores.entry id) ok fun _ =>
    .ok { s with semaphores := s.semaphores.delete id }

def taskDelete (ok : Bool) (id : ℕ) : Service := fun s =>
  onObject (s.tasks.entry id) ok fun _ => .ok { s with tasks := s.tasks.delete id }

/-- The task is in the loop of `tickerDaemon`. -/
def Ticks (s : System) (id : ℕ) : Prop :=
  s.tasks.entry id = some (.running .tickerDaemon)

instance (s : System) (id : ℕ) : Decidable (Ticks s id) :=
  inferInstanceAs (Decidable (_ = _))

/-- `tickerRunning = 0`: every ticker leaves its loop, releases `kill_sem` and
suspends itself. -/
def stopTickers : Service := fun s =>
  let ticking := (List.range s.tasks.next).any fun id => decide (Ticks s id)
  let s := { s with
    tickerRunning := false
    tasks := s.tasks.map fun task =>
      if task = .running .tickerDaemon then .suspended else task }
  .ok (if ticking then releaseKill s else s)

def killDaemon (calls : CleanupCalls) (s : System) : System :=
  if s.rtemsNtpDaemonId = 0 then s
  else
    let s := paranoia (fun s => eventSend calls.eventSend s.rtemsNtpDaemonId s) s
    let s := paranoia (obtainKill calls.obtainDaemon) s
    paranoia (fun s => taskDelete calls.deleteDaemon s.rtemsNtpDaemonId s) s

def killTicker (calls : CleanupCalls) (s : System) : System :=
  if s.rtemsNtpTickerId = 0 then s
  else
    let s := paranoia stopTickers s
    let s := paranoia (obtainKill calls.obtainTicker) s
    paranoia (fun s => taskDelete calls.deleteTicker s.rtemsNtpTickerId s) s

def deleteKill (calls : CleanupCalls) (s : System) : System :=
  let s := paranoia (fun s => semaphoreRelease calls.releaseKill s.killSem s) s
  paranoia (fun s => semaphoreDelete calls.deleteKill s.killSem s) s

def deleteMutex (calls : CleanupCalls) (s : System) : System :=
  if s.mutexId = 0 then s
  else paranoia (fun s => semaphoreDelete calls.deleteMutex s.mutexId s) s

def createKill (s : System) : System :=
  let (semaphores, id) := s.semaphores.create false
  { s with semaphores := semaphores, killSem := id }

/-- `rtemsNtpCleanup()`; a halted call returns nothing. -/
def rtemsNtpCleanup (calls : CleanupCalls) (s : System) : System × Option ℤ :=
  if !calls.killCreate then (s, some (-1))
  else
    let s := killDaemon calls (createKill s)
    let s := killTicker calls s
    let s := deleteKill calls s
    let s := deleteMutex calls s
    if s.halted = none then (closeSd s, some 0) else (s, none)

/-! ## Sequences of calls -/

inductive Op where
  | init (calls : InitCalls)
  | cleanup (calls : CleanupCalls)
deriving DecidableEq, Repr

/-- One call; a halted program makes no more. -/
def step (s : System) (op : Op) : System :=
  match s.halted with
  | some _ => s
  | none =>
    match op with
    | .init calls => (rtemsNtpInitialize calls s).1
    | .cleanup calls => (rtemsNtpCleanup calls s).1

/-- At most one ticker runs. -/
def OneTicker (s : System) : Prop := ∀ id id', Ticks s id → Ticks s id' → id = id'

/-- Every object of `s'` was there in `s`. -/
def LeavesNothing (s s' : System) : Prop :=
  (∀ id, (s'.tasks.entry id).isSome → (s.tasks.entry id).isSome) ∧
    (∀ id, (s'.semaphores.entry id).isSome → (s.semaphores.entry id).isSome) ∧
    ∀ id, (s'.sockets.entry id).isSome → (s.sockets.entry id).isSome

/-- At most one ticker runs after the call, a start-up that fails leaves nothing
behind, and a tear-down is not told that an object does not exist. -/
def Balanced (s : System) (op : Op) : Prop :=
  s.halted = none → OneTicker (step s op) ∧
    match op with
    | .init calls => (rtemsNtpInitialize calls s).2 = -1 →
        LeavesNothing s (rtemsNtpInitialize calls s).1
    | .cleanup calls => (rtemsNtpCleanup calls s).1.halted ≠ some .invalidId

/-- The start-up gets as far as its mutex. -/
def getsMutex (calls : InitCalls) (s : System) : Bool :=
  (s.rtemsNtpDaemonSd ≠ 0 || calls.socket && calls.bind) && calls.getNtp && calls.mutexCreate

/-- Every call after the mutex succeeds. -/
def startsAll (calls : InitCalls) : Bool :=
  calls.tickerCreate && calls.tickerStart && calls.daemonCreate && calls.daemonStart

/-- No task or mutex was ever created. -/
def Unnamed (s : System) : Prop :=
  s.rtemsNtpDaemonId = 0 ∧ s.rtemsNtpTickerId = 0 ∧ s.mutexId = 0

def Idle (s : System) : Prop := ∀ id, ¬ Ticks s id

/-- A start-up that gets its mutex goes all the way, and there is no ticker yet;
a tear-down finds a ticker, or nothing to tear down. -/
def Guarded (s : System) : Op → Prop
  | .init calls => s.halted = none → getsMutex calls s = true →
      startsAll calls = true ∧ Idle s
  | .cleanup calls => s.halted = none → calls.killCreate = true → Unnamed s ∨ ¬ Idle s

/-! ## The states between calls -/

/-- Both tasks run and the mutex exists. -/
structure Up (s : System) : Prop where
  daemon : s.tasks.entry s.rtemsNtpDaemonId = some (.running .ntpDaemon)
  ticker : Ticks s s.rtemsNtpTickerId
  only : ∀ id, Ticks s id → id = s.rtemsNtpTickerId
  mutex : (s.semaphores.entry s.mutexId).isSome

/-- The daemon was deleted and its id kept. -/
structure TornDown (s : System) : Prop where
  daemon : s.tasks.Deleted s.rtemsNtpDaemonId
  idle : Idle s

/-- What a balanced program looks like between two calls. -/
def Orderly (s : System) : Prop :=
  s.halted = none → Unnamed s ∧ Idle s ∨ Up s ∨ TornDown s

variable {s : System}

theorem Idle.oneTicker (h : Idle s) : OneTicker s := fun id _ hid => absurd hid (h id)

theorem Up.oneTicker (h : Up s) : OneTicker s :=
  fun id id' hid hid' => (h.only id hid).trans (h.only id' hid').symm

theorem Orderly.oneTicker (h : Orderly s) (hrun : s.halted = none) : OneTicker s := by
  rcases h hrun with h | h | h
  · exact h.2.oneTicker
  · exact h.oneTicker
  · exact h.idle.oneTicker

/-! ## Start-up -/

theorem closeSd_frame (s : System) : closeSd s = { s with
    sockets := (closeSd s).sockets
    rtemsNtpDaemonSd := (closeSd s).rtemsNtpDaemonSd
    ourSd := (closeSd s).ourSd } := by
  unfold closeSd
  split_ifs <;> rfl

theorem openSd_frame (calls : InitCalls) (s : System) : (openSd calls s).1 = { s with
    sockets := (openSd calls s).1.sockets
    rtemsNtpDaemonSd := (openSd calls s).1.rtemsNtpDaemonSd
    ourSd := (openSd calls s).1.ourSd } := by
  unfold openSd
  split_ifs <;> rfl

/-- The sockets are no part of the state between calls. -/
theorem orderly_congr {s' : System} (htasks : s'.tasks = s.tasks)
    (hsemaphores : s'.semaphores = s.semaphores)
    (hticker : s'.rtemsNtpTickerId = s.rtemsNtpTickerId)
    (hdaemon : s'.rtemsNtpDaemonId = s.rtemsNtpDaemonId) (hmutex : s'.mutexId = s.mutexId)
    (hhalted : s'.halted = s.halted) (h : Orderly s) : Orderly s' := by
  unfold Orderly Unnamed Idle Ticks at *
  rw [hhalted, htasks, hticker, hdaemon, hmutex]
  intro hrun
  refine (h hrun).imp_right (Or.imp ?_ ?_)
  · rintro ⟨hd, ht, ho, hm⟩
    refine ⟨?_, ?_, ?_, ?_⟩
    · rwa [htasks, hdaemon]
    · unfold Ticks
      rwa [htasks, hticker]
    · unfold Ticks
      rwa [htasks, hticker]
    · rwa [hsemaphores, hmutex]
  · rintro ⟨hd, hi⟩
    refine ⟨?_, ?_⟩
    · rwa [htasks, hdaemon]
    · unfold Idle Ticks
      rwa [htasks]

theorem closeSd_sockets (s : System) (id : ℕ) (h : ((closeSd s).sockets.entry id).isSome) :
    (s.sockets.entry id).isSome := by
  unfold closeSd at h
  split_ifs at h with hour
  · rw [ObjectTable.entry_delete] at h
    split_ifs at h with hid
    · cases h
    · exact h
  · exact h

/-- A start-up that gets no mutex closes the socket it opened. -/
theorem leavesNothing_of_bail (calls : InitCalls) (s : System) :
    LeavesNothing s (closeSd (openSd calls s).1) := by
  refine ⟨fun id h => ?_, fun id h => ?_, fun id h => ?_⟩
  · rw [closeSd_frame, openSd_frame] at h
    exact h
  · rw [closeSd_frame, openSd_frame] at h
    exact h
  · unfold openSd at h
    split_ifs at h with hsd hneg hsocket
    · exact closeSd_sockets { s with rtemsNtpDaemonSd := -1 } id h
    · exact closeSd_sockets s id h
    · -- our own: the new entry is deleted again
      unfold closeSd at h
      dsimp only at h
      rw [if_pos rfl, ObjectTable.create_snd, Int.toNat_natCast, ObjectTable.entry_delete,
        ObjectTable.entry_create] at h
      split_ifs at h with hid
      · cases h
      · exact h
    · exact closeSd_sockets { s with rtemsNtpDaemonSd := -1 } id h

theorem openSd_snd (calls : InitCalls) (s : System) :
    (openSd calls s).2 = (s.rtemsNtpDaemonSd ≠ 0 || calls.socket && calls.bind) := by
  unfold openSd
  split_ifs with hsd hneg hsocket
  · simp [hsd]
  · simp [hsd]
  · simp [hsd, hsocket]
  · simp [hsd, hsocket]

/-- The two ways a start-up can go. -/
theorem rtemsNtpInitialize_eq (calls : InitCalls) (s : System) :
    rtemsNtpInitialize calls s =
      if getsMutex calls s then startTasks calls (createMutex (openSd calls s).1)
      else (closeSd (openSd calls s).1, -1) := by
  have hopened := openSd_snd calls s
  unfold rtemsNtpInitialize getsMutex
  dsimp only
  rw [← hopened]
  cases (openSd calls s).2 <;> cases calls.getNtp <;> cases calls.mutexCreate <;> rfl

theorem mutex_createMutex (s : System) :
    ((createMutex s).semaphores.entry (createMutex s).mutexId).isSome := by
  show ((s.semaphores.create true).1.entry s.semaphores.next).isSome
  rw [ObjectTable.entry_create, if_pos rfl]
  rfl

/-- The tasks of a successful start-up. -/
def started (s : System) : System :=
  startDaemon (createDaemon (startTicker (createTicker s)))

theorem startTasks_of_all {calls : InitCalls} (h : startsAll calls = true) (s : System) :
    startTasks calls s = (started s, 0) := by
  simp only [startsAll, Bool.and_eq_true] at h
  obtain ⟨⟨⟨hcreate, hstart⟩, hcreate'⟩, hstart'⟩ := h
  unfold startTasks
  rw [hcreate, hstart, hcreate', hstart']
  rfl

/-- A start-up that fails after its mutex still has it. -/
theorem startTasks_of_not_all {calls : InitCalls} (h : startsAll calls = false)
    (s : System) : (startTasks calls s).2 = -1 ∧
      (startTasks calls s).1.semaphores = s.semaphores := by
  unfold startTasks
  dsimp only
  split_ifs with hcreate hstart hcreate' hstart'
  · exact ⟨rfl, by rw [closeSd_frame]⟩
  · exact ⟨rfl, by rw [closeSd_frame]; rfl⟩
  · exact ⟨rfl, by rw [closeSd_frame]; rfl⟩
  · exact ⟨rfl, by rw [closeSd_frame]; rfl⟩
  · unfold startsAll at h
    simp_all

theorem entry_started (s : System) (id : ℕ) : (started s).tasks.entry id =
    if id = s.tasks.next + 1 then some (.running .ntpDaemon)
    else if id = s.tasks.next then some (.running .tickerDaemon)
    else s.tasks.entry id := by
  have hnext : (startTicker (createTicker s)).tasks.next = s.tasks.next + 1 := rfl
  have hne : s.tasks.next + 1 ≠ s.tasks.next := Nat.succ_ne_self _
  show ((((s.tasks.create .dormant).1.set s.tasks.next (.running .tickerDaemon)).create
    .dormant).1.set (s.tasks.next + 1) (.running .ntpDaemon)).entry id = _
  simp only [ObjectTable.entry_set, ObjectTable.entry_create]
  by_cases hid : id = s.tasks.next + 1
  · simp [hid, ObjectTable.set, ObjectTable.update, ObjectTable.create]
  · by_cases hid' : id = s.tasks.next
    · simp [hid', ObjectTable.set, ObjectTable.update, ObjectTable.create]
    · simp [hid, hid', ObjectTable.set, ObjectTable.update, ObjectTable.create]

/-- A start-up adds its ticker to those there are. -/
theorem ticks_started (s : System) (id : ℕ) :
    Ticks (started s) id ↔ id = s.tasks.next ∨ Ticks s id := by
  unfold Ticks
  rw [entry_started]
  split_ifs with hdaemon hticker
  · subst hdaemon
    have hnone : s.tasks.entry (s.tasks.next + 1) = none :=
      s.tasks.entry_of_le _ (Nat.le_succ _)
    simp [hnone]
  · simp [hticker]
  · simp [hticker]

theorem oneTicker_started (s : System) : OneTicker (started s) ↔ Idle s := by
  constructor
  · intro h id hid
    have heq := h id s.tasks.next ((ticks_started s id).mpr (Or.inr hid))
      ((ticks_started s _).mpr (Or.inl rfl))
    exact ObjectTable.ne_next_of_entry hid heq
  · intro h id id' hid hid'
    have hnew : ∀ i, Ticks (started s) i → i = s.tasks.next := fun i hi =>
      ((ticks_started s i).mp hi).resolve_right (h i)
    exact (hnew id hid).trans (hnew id' hid').symm

theorem up_started {s : System} (hidle : Idle s)
    (hmutex : (s.semaphores.entry s.mutexId).isSome) : Up (started s) where
  daemon := by
    rw [entry_started]
    exact if_pos rfl
  ticker := (ticks_started s _).mpr (Or.inl rfl)
  only id hid := ((ticks_started s id).mp hid).resolve_right (hidle id)
  mutex := hmutex

/-- A start-up is balanced exactly when it is guarded. -/
theorem init_balanced_iff (h : Orderly s) (calls : InitCalls) :
    Balanced s (.init calls) ↔ Guarded s (.init calls) := by
  refine forall_congr' fun hrun => ?_
  have hstep : step s (.init calls) = (rtemsNtpInitialize calls s).1 := by
    unfold step
    rw [hrun]
  dsimp only
  rw [hstep, rtemsNtpInitialize_eq]
  by_cases hgets : getsMutex calls s = true
  · rw [if_pos hgets]
    have htasks : (createMutex (openSd calls s).1).tasks = s.tasks := by
      rw [openSd_frame]
      rfl
    cases hall : startsAll calls with
    | true =>
      have hidle : Idle (createMutex (openSd calls s).1) ↔ Idle s := by
        unfold Idle Ticks
        rw [htasks]
      rw [startTasks_of_all hall, oneTicker_started, hidle]
      constructor
      · exact fun hb _ => ⟨rfl, hb.1⟩
      · exact fun hg => ⟨(hg hgets).2, fun hret => absurd hret (by simp)⟩
    | false =>
      obtain ⟨hret, hsemaphores⟩ := startTasks_of_not_all hall (createMutex (openSd calls s).1)
      constructor
      · -- the mutex is new
        intro hb
        have hleft := (hb.2 hret).2.1 s.semaphores.next
        rw [hsemaphores, s.semaphores.entry_of_le _ le_rfl] at hleft
        have hmutex := mutex_createMutex (openSd calls s).1
        rw [openSd_frame] at hleft hmutex
        exact absurd (hleft hmutex) (by simp)
      · intro hg
        exact absurd (hg hgets).1 Bool.false_ne_true
  · rw [if_neg hgets]
    have htasks : (closeSd (openSd calls s).1).tasks = s.tasks := by
      rw [closeSd_frame, openSd_frame]
    refine ⟨fun _ hg => absurd hg hgets, fun _ => ⟨?_, fun _ => leavesNothing_of_bail calls s⟩⟩
    have hone := h.oneTicker hrun
    unfold OneTicker Ticks at *
    rw [htasks]
    exact hone

theorem init_orderly (h : Orderly s) {calls : InitCalls}
    (hguard : Guarded s (.init calls)) : Orderly (step s (.init calls)) := by
  by_cases hrun : s.halted = none
  · have hstep : step s (.init calls) = (rtemsNtpInitialize calls s).1 := by
      unfold step
      rw [hrun]
    rw [hstep, rtemsNtpInitialize_eq]
    by_cases hgets : getsMutex calls s = true
    · obtain ⟨hall, hidle⟩ := hguard hrun hgets
      rw [if_pos hgets, startTasks_of_all hall]
      refine fun _ => Or.inr (Or.inl (up_started ?_ ?_))
      · rw [openSd_frame]
        exact hidle
      · exact mutex_createMutex _
    · rw [if_neg hgets]
      refine orderly_congr ?_ ?_ ?_ ?_ ?_ ?_ h <;> rw [closeSd_frame, openSd_frame]
  · obtain ⟨fault, hfault⟩ := Option.ne_none_iff_exists'.mp hrun
    have hstep : step s (.init calls) = s := by
      unfold step
      rw [hfault]
    rw [hstep]
    exact h

/-! ## Tear-down -/

/-- Still `P`, unless an assertion failed or a call blocked; not for a deleted
id, and with no second ticker, in any case. -/
def Sound (P : System → Prop) (s : System) : Prop :=
  OneTicker s ∧ s.halted ≠ some .invalidId ∧ (s.halted = none → P s)

/-- A call of RTEMS that returned so kept its promise. -/
def Ends (Q : System → Prop) : Except Fault System → Prop
  | .ok s => Sound Q s
  | .error fault => fault ≠ .invalidId

theorem sound_paranoia {P Q : System → Prop} {service : Service}
    (hservice : ∀ s, P s → Ends Q (service s)) (h : Sound P s) :
    Sound Q (paranoia service s) := by
  obtain ⟨hone, hid, hP⟩ := h
  unfold paranoia
  cases hrun : s.halted with
  | some fault =>
    refine ⟨hone, hid, fun hnone => ?_⟩
    rw [hrun] at hnone
    cases hnone
  | none =>
    have hends := hservice s (hP hrun)
    dsimp only
    cases hcall : service s with
    | ok s' =>
      rw [hcall] at hends
      exact hends
    | error fault =>
      rw [hcall] at hends
      exact ⟨hone, fun heq => hends (Option.some.inj heq), fun hnone => nomatch hnone⟩

theorem sound_of_running {P : System → Prop} (hone : OneTicker s) (hrun : s.halted = none)
    (hs : P s) : Sound P s := by
  refine ⟨hone, ?_, fun _ => hs⟩
  rw [hrun]
  exact nofun

theorem sound_mono {P Q : System → Prop} (himp : ∀ s, P s → Q s) (h : Sound P s) :
    Sound Q s :=
  ⟨h.1, h.2.1, fun hrun => himp s (h.2.2 hrun)⟩

/-- On an object that exists, what is left is what the call does. -/
theorem ends_onObject {α : Type} {Q : System → Prop} {entry : Option α} {a : α} {ok : Bool}
    {call : α → Except Fault System} (hentry : entry = some a) (hcall : Ends Q (call a)) :
    Ends Q (onObject entry ok call) := by
  rw [hentry]
  cases ok with
  | false => exact Fault.noConfusion
  | true => exact hcall

/-- A tear-down in progress: what is left of `kill_sem`, the daemon and the
ticker. -/
structure Stage (kill : Option Bool) (daemon ticker : Option TaskState) (s : System) :
    Prop where
  halted : s.halted = none
  kill : s.semaphores.entry s.killSem = kill
  daemon : s.tasks.entry s.rtemsNtpDaemonId = daemon
  ticker : s.tasks.entry s.rtemsNtpTickerId = ticker
  only : ∀ id, id ≠ s.rtemsNtpTickerId → ¬ Ticks s id
  mutex : (s.semaphores.entry s.mutexId).isSome
  apart : s.mutexId ≠ s.killSem
  two : s.rtemsNtpDaemonId ≠ s.rtemsNtpTickerId
  daemonId : s.rtemsNtpDaemonId ≠ 0 ∧ s.rtemsNtpDaemonId < s.tasks.next
  tickerId : s.rtemsNtpTickerId ≠ 0

variable {kill : Option Bool} {daemon ticker : Option TaskState}

theorem Stage.sound (h : Stage kill daemon ticker s) : Sound (Stage kill daemon ticker) s := by
  refine sound_of_running (fun id id' hid hid' => ?_) h.halted h
  have hticker : ∀ i, Ticks s i → i = s.rtemsNtpTickerId := fun i hi =>
    by_contra fun hne => h.only i hne hi
  rw [hticker id hid, hticker id' hid']

theorem Stage.setKill {b : Bool} (h : Stage (some b) daemon ticker s) (free : Bool) :
    Stage (some free) daemon ticker
      { s with semaphores := s.semaphores.set s.killSem free } :=
  { h with
    kill := by
      rw [ObjectTable.entry_set, if_pos rfl, h.kill]
      rfl
    mutex := by
      rw [ObjectTable.entry_set, if_neg h.apart]
      exact h.mutex }

theorem Stage.deleteKill (h : Stage kill daemon ticker s) :
    Stage none daemon ticker
      { s with semaphores := s.semaphores.delete s.killSem } :=
  { h with
    kill := by rw [ObjectTable.entry_delete, if_pos rfl]
    mutex := by
      rw [ObjectTable.entry_delete, if_neg h.apart]
      exact h.mutex }

theorem Stage.suspendDaemon {task : TaskState} (h : Stage kill (some task) ticker s) :
    Stage kill (some .suspended) ticker
      { s with tasks := s.tasks.set s.rtemsNtpDaemonId .suspended } :=
  { h with
    daemon := by
      rw [ObjectTable.entry_set, if_pos rfl, h.daemon]
      rfl
    ticker := by
      rw [ObjectTable.entry_set, if_neg h.two.symm]
      exact h.ticker
    only := by
      intro id hid htick
      unfold Ticks at htick
      rw [ObjectTable.entry_set] at htick
      split_ifs at htick with hdaemon
      · subst hdaemon
        rw [h.daemon] at htick
        cases htick
      · exact h.only id hid htick }

theorem ticks_of_delete {id i : ℕ} (h : Ticks { s with tasks := s.tasks.delete id } i) :
    Ticks s i := by
  unfold Ticks at h
  rw [ObjectTable.entry_delete] at h
  split_ifs at h with hid
  exact h

theorem Stage.deleteDaemon (h : Stage kill daemon ticker s) :
    Stage kill none ticker { s with tasks := s.tasks.delete s.rtemsNtpDaemonId } :=
  { h with
    daemon := by rw [ObjectTable.entry_delete, if_pos rfl]
    ticker := by
      rw [ObjectTable.entry_delete, if_neg h.two.symm]
      exact h.ticker
    only := fun id hid htick => h.only id hid (ticks_of_delete htick) }

theorem Stage.deleteTicker (h : Stage kill daemon ticker s) :
    Stage kill daemon none { s with tasks := s.tasks.delete s.rtemsNtpTickerId } :=
  { h with
    daemon := by
      rw [ObjectTable.entry_delete, if_neg h.two]
      exact h.daemon
    ticker := by rw [ObjectTable.entry_delete, if_pos rfl]
    only := fun id hid htick => h.only id hid (ticks_of_delete htick) }

theorem ends_eventSend (h : Stage (some false) (some (.running .ntpDaemon)) ticker s)
    (ok : Bool) : Ends (Stage (some true) (some .suspended) ticker)
      (eventSend ok s.rtemsNtpDaemonId s) := by
  refine ends_onObject h.daemon ?_
  rw [if_pos rfl]
  exact (h.suspendDaemon.setKill true).sound

theorem ends_obtainKill (h : Stage (some true) daemon ticker s) (ok : Bool) :
    Ends (Stage (some false) daemon ticker) (obtainKill ok s) := by
  refine ends_onObject h.kill ?_
  rw [if_pos rfl]
  exact (h.setKill false).sound

theorem ends_deleteDaemon (h : Stage kill (some .suspended) ticker s) (ok : Bool) :
    Ends (Stage kill none ticker) (taskDelete ok s.rtemsNtpDaemonId s) :=
  ends_onObject h.daemon h.deleteDaemon.sound

/-- Every ticker stops; one that did releases `kill_sem`. -/
theorem ends_stopTickers (h : Stage (some false) none (some (.running .tickerDaemon)) s) :
    Ends (Stage (some true) none (some .suspended)) (stopTickers s) := by
  have hticking : ((List.range s.tasks.next).any fun id => decide (Ticks s id)) = true := by
    refine List.any_eq_true.mpr ⟨s.rtemsNtpTickerId, ?_, decide_eq_true h.ticker⟩
    exact List.mem_range.mpr (ObjectTable.lt_of_entry h.ticker)
  have hstage : Stage (some false) none (some .suspended) { s with
      tickerRunning := false
      tasks := s.tasks.map fun task =>
        if task = .running .tickerDaemon then .suspended else task } :=
    { h with
      daemon := by
        rw [ObjectTable.entry_map, h.daemon]
        rfl
      ticker := by
        rw [ObjectTable.entry_map, h.ticker]
        rfl
      only := by
        intro id _ htick
        unfold Ticks at htick
        rw [ObjectTable.entry_map] at htick
        obtain ⟨task, -, htask⟩ := Option.map_eq_some_iff.mp htick
        split_ifs at htask with hticker
        exact hticker htask }
  unfold stopTickers
  dsimp only
  rw [hticking, if_pos rfl]
  exact (hstage.setKill true).sound

theorem ends_deleteTicker (h : Stage kill daemon (some .suspended) s) (ok : Bool) :
    Ends (Stage kill daemon none) (taskDelete ok s.rtemsNtpTickerId s) :=
  ends_onObject h.ticker h.deleteTicker.sound

theorem ends_releaseKill {b : Bool} (h : Stage (some b) daemon ticker s) (ok : Bool) :
    Ends (Stage (some true) daemon ticker) (semaphoreRelease ok s.killSem s) :=
  ends_onObject h.kill (h.setKill true).sound

theorem ends_deleteKill {b : Bool} (h : Stage (some b) daemon ticker s) (ok : Bool) :
    Ends (Stage none daemon ticker) (semaphoreDelete ok s.killSem s) :=
  ends_onObject h.kill h.deleteKill.sound

/-! ### From each state between calls -/

theorem Up.createKill (h : Up s) (hrun : s.halted = none) :
    Stage (some false) (some (.running .ntpDaemon)) (some (.running .tickerDaemon))
      (createKill s) where
  halted := hrun
  kill := by
    show (s.semaphores.create false).1.entry s.semaphores.next = _
    rw [ObjectTable.entry_create, if_pos rfl]
  daemon := h.daemon
  ticker := h.ticker
  only id hid htick := hid (h.only id htick)
  mutex := by
    obtain ⟨b, hb⟩ := Option.isSome_iff_exists.mp h.mutex
    show ((s.semaphores.create false).1.entry s.mutexId).isSome
    rw [ObjectTable.entry_create, if_neg (ObjectTable.ne_next_of_entry hb)]
    exact h.mutex
  apart := by
    obtain ⟨b, hb⟩ := Option.isSome_iff_exists.mp h.mutex
    exact ObjectTable.ne_next_of_entry hb
  two heq := by
    have hids : s.rtemsNtpDaemonId = s.rtemsNtpTickerId := heq
    have hdaemon := h.daemon
    rw [hids, h.ticker] at hdaemon
    cases hdaemon
  daemonId := ⟨ObjectTable.ne_zero_of_entry h.daemon, ObjectTable.lt_of_entry h.daemon⟩
  tickerId := ObjectTable.ne_zero_of_entry h.ticker

theorem sound_killDaemon {calls : CleanupCalls}
    (h : Sound (Stage (some false) (some (.running .ntpDaemon)) ticker) s) :
    Sound (Stage (some false) none ticker) (killDaemon calls s) := by
  unfold killDaemon
  split_ifs with hid
  · exact ⟨h.1, h.2.1, fun hrun => absurd hid (h.2.2 hrun).daemonId.1⟩
  · refine sound_paranoia (fun s h => ends_deleteDaemon h _) ?_
    refine sound_paranoia (fun s h => ends_obtainKill h _) ?_
    exact sound_paranoia (fun s h => ends_eventSend h _) h

theorem sound_killTicker {calls : CleanupCalls}
    (h : Sound (Stage (some false) none (some (.running .tickerDaemon))) s) :
    Sound (Stage (some false) none none) (killTicker calls s) := by
  unfold killTicker
  split_ifs with hid
  · exact ⟨h.1, h.2.1, fun hrun => absurd hid (h.2.2 hrun).tickerId⟩
  · refine sound_paranoia (fun s h => ends_deleteTicker h _) ?_
    refine sound_paranoia (fun s h => ends_obtainKill h _) ?_
    exact sound_paranoia (fun s h => ends_stopTickers h) h

theorem sound_deleteKill {calls : CleanupCalls} {b : Bool}
    (h : Sound (Stage (some b) daemon ticker) s) :
    Sound (Stage none daemon ticker) (deleteKill calls s) := by
  unfold deleteKill
  dsimp only
  have hrelease : Sound (Stage (some true) daemon ticker)
      (paranoia (fun s => semaphoreRelease calls.releaseKill s.killSem s) s) :=
    sound_paranoia (fun s h => ends_releaseKill h _) h
  exact sound_paranoia (fun s h => ends_deleteKill h _) hrelease

theorem sound_deleteMutex {calls : CleanupCalls} (h : Sound (Stage none none none) s) :
    Sound TornDown (deleteMutex calls s) := by
  have htorn : ∀ {s : System}, Stage none none none s → TornDown s := by
    intro s h
    refine ⟨⟨h.daemonId.1, h.daemonId.2, h.daemon⟩, fun id htick => ?_⟩
    by_cases hid : id = s.rtemsNtpTickerId
    · subst hid
      rw [Ticks, h.ticker] at htick
      cases htick
    · exact h.only id hid htick
  unfold deleteMutex
  split_ifs with hid
  · exact sound_mono (fun s h => htorn h) h
  · refine sound_paranoia (fun s h => ?_) h
    obtain ⟨b, hb⟩ := Option.isSome_iff_exists.mp h.mutex
    have htorn := htorn h
    exact ends_onObject hb
      (sound_of_running htorn.idle.oneTicker h.halted ⟨htorn.daemon, htorn.idle⟩)

/-- From a clock that runs, every call finds its object. -/
theorem sound_cleanup_of_up (h : Up s) (hrun : s.halted = none) (calls : CleanupCalls) :
    Sound (fun s => Up s ∨ TornDown s) (rtemsNtpCleanup calls s).1 := by
  unfold rtemsNtpCleanup
  split_ifs with hkill
  · exact sound_of_running h.oneTicker hrun (Or.inl h)
  · have hdone : Sound TornDown (deleteMutex calls (deleteKill calls
        (killTicker calls (killDaemon calls (createKill s))))) :=
      sound_deleteMutex (sound_deleteKill (sound_killTicker (sound_killDaemon
        (h.createKill hrun).sound)))
    dsimp only
    split_ifs with hend
    · have htorn := hdone.2.2 hend
      rw [closeSd_frame]
      exact ⟨htorn.idle.oneTicker, hdone.2.1, fun _ => Or.inr ⟨htorn.daemon, htorn.idle⟩⟩
    · exact sound_mono (fun s => Or.inr) hdone

/-- `kill_sem` exists, and nothing to tear down. -/
structure Bare (s : System) : Prop where
  halted : s.halted = none
  unnamed : Unnamed s
  idle : Idle s
  kill : (s.semaphores.entry s.killSem).isSome

theorem sound_deleteKill_of_bare {calls : CleanupCalls} (h : Bare s) :
    Sound (fun s => Unnamed s ∧ Idle s) (deleteKill calls s) := by
  unfold deleteKill
  dsimp only
  have hrelease : Sound Bare
      (paranoia (fun s => semaphoreRelease calls.releaseKill s.killSem s) s) := by
    refine sound_paranoia (fun s hs => ?_) (sound_of_running h.idle.oneTicker h.halted h)
    obtain ⟨b, hb⟩ := Option.isSome_iff_exists.mp hs.kill
    refine ends_onObject hb (sound_of_running hs.idle.oneTicker hs.halted
      { hs with kill := ?_ })
    rw [ObjectTable.entry_set, if_pos rfl, hb]
    rfl
  refine sound_paranoia (fun s hs => ?_) hrelease
  obtain ⟨b, hb⟩ := Option.isSome_iff_exists.mp hs.kill
  refine ends_onObject hb ?_
  have hsound : Sound (fun s => Unnamed s ∧ Idle s)
      { s with semaphores := s.semaphores.delete s.killSem } :=
    sound_of_running hs.idle.oneTicker hs.halted ⟨hs.unnamed, hs.idle⟩
  exact hsound

/-- A halted program makes no more calls. -/
theorem paranoia_of_halted {fault : Fault} (h : s.halted = some fault) (service : Service) :
    paranoia service s = s := by
  unfold paranoia
  rw [h]

theorem paranoia_of_error {fault : Fault} {service : Service} (hrun : s.halted = none)
    (h : service s = .error fault) : paranoia service s = { s with halted := some fault } := by
  unfold paranoia
  rw [hrun]
  dsimp only
  rw [h]

theorem sound_deleteMutex_of_unnamed {calls : CleanupCalls}
    (h : Sound (fun s => Unnamed s ∧ Idle s) s) :
    Sound (fun s => Unnamed s ∧ Idle s) (deleteMutex calls s) := by
  unfold deleteMutex
  split_ifs with hid
  · exact h
  · cases hrun : s.halted with
    | none => exact absurd (h.2.2 hrun).1.2.2 hid
    | some fault =>
      rw [paranoia_of_halted hrun]
      exact h

/-- With nothing to tear down there is only `kill_sem`. -/
theorem sound_cleanup_of_unnamed (h : Unnamed s ∧ Idle s) (hrun : s.halted = none)
    (calls : CleanupCalls) :
    Sound (fun s => Unnamed s ∧ Idle s) (rtemsNtpCleanup calls s).1 := by
  unfold rtemsNtpCleanup
  split_ifs with hkill
  · exact sound_of_running h.2.oneTicker hrun h
  · have hbare : Bare (createKill s) := by
      refine ⟨hrun, h.1, h.2, ?_⟩
      show ((s.semaphores.create false).1.entry s.semaphores.next).isSome
      rw [ObjectTable.entry_create, if_pos rfl]
      rfl
    have hkillDaemon : killDaemon calls (createKill s) = createKill s := if_pos h.1.1
    have hkillTicker : killTicker calls (createKill s) = createKill s := if_pos h.1.2.1
    have hdone : Sound (fun s => Unnamed s ∧ Idle s)
        (deleteMutex calls (deleteKill calls (createKill s))) :=
      sound_deleteMutex_of_unnamed (sound_deleteKill_of_bare hbare)
    dsimp only
    rw [hkillDaemon, hkillTicker]
    split_ifs with hend
    · have hs := hdone.2.2 hend
      rw [closeSd_frame]
      exact ⟨hs.2.oneTicker, hdone.2.1, fun _ => hs⟩
    · exact hdone

/-- The daemon's id is the first that is used, and it names nothing. -/
theorem cleanup_of_tornDown (h : TornDown s) (hrun : s.halted = none) {calls : CleanupCalls}
    (hkill : calls.killCreate = true) :
    (rtemsNtpCleanup calls s).1.halted = some .invalidId := by
  have hid : (createKill s).rtemsNtpDaemonId ≠ 0 := h.daemon.1
  have hsend : paranoia (fun s => eventSend calls.eventSend s.rtemsNtpDaemonId s)
      (createKill s) = { createKill s with halted := some .invalidId } := by
    refine paranoia_of_error hrun ?_
    show onObject (s.tasks.entry s.rtemsNtpDaemonId) _ _ = _
    rw [h.daemon.2.2]
    rfl
  obtain ⟨s', hs', hhalted⟩ : ∃ s', killDaemon calls (createKill s) = s' ∧
      s'.halted = some .invalidId := by
    refine ⟨{ createKill s with halted := some .invalidId }, ?_, rfl⟩
    unfold killDaemon
    rw [if_neg hid]
    dsimp only
    rw [hsend, paranoia_of_halted rfl, paranoia_of_halted rfl]
  have hdone : deleteMutex calls (deleteKill calls (killTicker calls s')) = s' := by
    unfold deleteMutex deleteKill killTicker
    simp only [paranoia_of_halted hhalted, ite_self]
  have hne : s'.halted ≠ none := by simp [hhalted]
  unfold rtemsNtpCleanup
  rw [hkill, if_neg (by simp)]
  dsimp only
  rw [hs', hdone, if_neg hne]
  exact hhalted

/-- A tear-down is balanced exactly when it is guarded. -/
theorem cleanup_balanced_iff (h : Orderly s) (calls : CleanupCalls) :
    Balanced s (.cleanup calls) ↔ Guarded s (.cleanup calls) := by
  refine forall_congr' fun hrun => ?_
  have hstep : step s (.cleanup calls) = (rtemsNtpCleanup calls s).1 := by
    unfold step
    rw [hrun]
  dsimp only
  rw [hstep]
  rcases h hrun with hs | hs | hs
  · have hsound := sound_cleanup_of_unnamed hs hrun calls
    exact ⟨fun _ _ => Or.inl hs.1, fun _ => ⟨hsound.1, hsound.2.1⟩⟩
  · have hsound := sound_cleanup_of_up hs hrun calls
    exact ⟨fun _ _ => Or.inr fun hidle => hidle _ hs.ticker,
      fun _ => ⟨hsound.1, hsound.2.1⟩⟩
  · constructor
    · exact fun hb hkill => absurd (cleanup_of_tornDown hs hrun hkill) hb.2
    · intro hg
      have hkill : ¬ calls.killCreate = true := by
        intro hkill
        rcases hg hkill with hnone | htick
        · exact hs.daemon.1 hnone.1
        · exact htick hs.idle
      unfold rtemsNtpCleanup
      rw [if_pos (by simpa using hkill)]
      exact ⟨hs.idle.oneTicker, by rw [hrun]; exact nofun⟩

theorem cleanup_orderly (h : Orderly s) {calls : CleanupCalls}
    (hguard : Guarded s (.cleanup calls)) : Orderly (step s (.cleanup calls)) := by
  unfold step
  cases hrun : s.halted with
  | some fault => exact h
  | none =>
    dsimp only
    rcases h hrun with hs | hs | hs
    · exact fun hend => Or.inl ((sound_cleanup_of_unnamed hs hrun calls).2.2 hend)
    · exact fun hend => Or.inr ((sound_cleanup_of_up hs hrun calls).2.2 hend)
    · by_cases hkill : calls.killCreate = true
      · rcases hguard hrun hkill with hnone | htick
        · exact absurd hnone.1 hs.daemon.1
        · exact absurd hs.idle htick
      · unfold rtemsNtpCleanup
        rw [if_pos (by simpa using hkill)]
        exact h

/-! ## Runs -/

/-- Over every sequence of start-ups and tear-downs, whatever fails in them,
start-up and tear-down are balanced exactly when every call is guarded. -/
theorem balanced_iff (rtemsNtpDaemonSd : ℤ) (ops : List Op) :
    Along step Balanced (start rtemsNtpDaemonSd) ops ↔
      Along step Guarded (start rtemsNtpDaemonSd) ops := by
  have hstart : Orderly (start rtemsNtpDaemonSd) := by
    refine fun _ => Or.inl ⟨⟨rfl, rfl, rfl⟩, fun id htick => ?_⟩
    cases htick
  refine along_congr (I := Orderly) ?_ ?_ hstart (along_true _ ops)
  · intro s op hs _ hguard
    cases op with
    | init calls => exact init_orderly hs hguard
    | cleanup calls => exact cleanup_orderly hs hguard
  · intro s op hs _
    cases op with
    | init calls => exact init_balanced_iff hs calls
    | cleanup calls => exact cleanup_balanced_iff hs calls

def initSucceeds : InitCalls := ⟨true, true, true, true, true, true, true, true⟩

/-- There is no room for the daemon task. -/
def daemonFails : InitCalls := { initSucceeds with daemonCreate := false }

def cleanupSucceeds : CleanupCalls := ⟨true, true, true, true, true, true, true, true, true⟩

/-- A start-up without its daemon fails and is tried again: two tickers run. -/
theorem not_balanced : ¬ ∀ (rtemsNtpDaemonSd : ℤ) (ops : List Op),
    Along step Balanced (start rtemsNtpDaemonSd) ops := by
  intro h
  have hagain := (h 0 [.init daemonFails, .init initSucceeds]).2.1 (by decide +kernel)
  exact absurd (hagain.1 1 2 (by decide +kernel) (by decide +kernel)) (by decide)

/-- The failed start-up has left its ticker and its mutex behind. -/
example : Ticks (run step (start 0) [.init daemonFails]) 1 ∧
    (run step (start 0) [.init daemonFails]).semaphores.entry 1 = some true := by
  decide +kernel

/-- Torn down twice. -/
example : (run step (start 0)
    [.init initSucceeds, .cleanup cleanupSucceeds, .cleanup cleanupSucceeds]).halted
      = some .invalidId := by
  decide +kernel

end Lifecycle

end Nanokernel
