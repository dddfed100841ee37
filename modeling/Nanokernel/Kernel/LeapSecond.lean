import Nanokernel.Kernel.Frames
import Nanokernel.Kernel.Runs

/-!
# Leap seconds

`Leap` keeps the three variables a leap second moves: the state of the state
machine, the TAI offset and the seconds of the clock. `Leap.Rollover` says
what one second rollover may do to them, and `tick_leap` that the code does
nothing else. The TAI sum and the midnight property are then read off the
constructors.
-/

namespace Nanokernel

open Run

/-! ## The state machine -/

structure Leap where
  state : TimeState
  tai : ℤ
  sec : ℤ
deriving DecidableEq, Repr

namespace Leap

/-- One second rollover; `armed` is whether `STA_INS` or `STA_DEL` is set. -/
inductive Rollover (armed : Bool) : Leap → Leap → Prop
  /-- Second 23:59:59 is repeated. -/
  | insert {tai sec : ℤ} (midnight : (sec + 1) % 86400 = 0) :
      Rollover armed ⟨.ins, tai, sec⟩ ⟨.oop, tai, sec⟩
  /-- Second 23:59:59 is left out. -/
  | delete {tai sec : ℤ} (midnight : (sec + 2) % 86400 = 0) :
      Rollover armed ⟨.del, tai, sec⟩ ⟨.wait, tai - 1, sec + 2⟩
  /-- The inserted second is over. -/
  | resume {tai sec : ℤ} :
      Rollover armed ⟨.oop, tai, sec⟩ ⟨.wait, tai + 1, sec + 1⟩
  /-- No leap second is due: the state may change, but only unarmed out of
  `TIME_WAIT`. -/
  | count {st st' : TimeState} {tai sec : ℤ} (before : st ≠ .oop)
      (after : st' ≠ .oop) (deleted : st = .del → st' ≠ .wait)
      (waited : st = .wait → st' = .wait ∨ armed = false) :
      Rollover armed ⟨st, tai, sec⟩ ⟨st', tai, sec + 1⟩

/-- UTC seconds and TAI offset, with the inserted second counted while it is
in progress. -/
def sum (l : Leap) : ℤ := l.sec + l.tai + if l.state = .oop then 1 else 0

/-- The step at which a second is inserted. -/
def Inserts (l l' : Leap) : Prop := l.state = .ins ∧ l'.state = .oop

/-- The step at which a second is deleted. -/
def Deletes (l l' : Leap) : Prop := l.state = .del ∧ l'.state = .wait

instance (l l' : Leap) : Decidable (Inserts l l') :=
  inferInstanceAs (Decidable (_ ∧ _))

instance (l l' : Leap) : Decidable (Deletes l l') :=
  inferInstanceAs (Decidable (_ ∧ _))

/-- What a rollover may do to the seconds. -/
def MidnightOnly (l l' : Leap) : Prop :=
  if Inserts l l' then l'.sec = l.sec ∧ l'.sec % 86400 = 86399
  else if Deletes l l' then l'.sec = l.sec + 2 ∧ l'.sec % 86400 = 0
  else l'.sec = l.sec + 1

/-- After a leap second the machine is here until it is disarmed. -/
def Done (l : Leap) : Prop := l.state = .oop ∨ l.state = .wait

instance (l : Leap) : Decidable (Done l) := inferInstanceAs (Decidable (_ ∨ _))

variable {armed : Bool} {l l' : Leap}

theorem Rollover.sum_eq (h : Rollover armed l l') : l'.sum = l.sum + 1 := by
  cases h with
  | insert =>
    simp only [sum, reduceCtorEq, if_true, if_false]
    omega
  | delete =>
    simp only [sum, reduceCtorEq, if_false]
    omega
  | resume =>
    simp only [sum, reduceCtorEq, if_true, if_false]
    omega
  | count before after =>
    simp only [sum, if_neg before, if_neg after]
    omega

theorem Rollover.midnightOnly (h : Rollover armed l l') : MidnightOnly l l' := by
  cases h with
  | insert midnight =>
    rw [MidnightOnly, if_pos ⟨rfl, rfl⟩]
    refine ⟨rfl, ?_⟩
    dsimp only
    omega
  | delete midnight =>
    rw [MidnightOnly, if_neg (by simp [Inserts]), if_pos ⟨rfl, rfl⟩]
    exact ⟨rfl, midnight⟩
  | resume =>
    rw [MidnightOnly, if_neg (by simp [Inserts]), if_neg (by simp [Deletes])]
  | count before after deleted =>
    rw [MidnightOnly, if_neg (fun h => after h.2),
      if_neg (fun h => deleted h.1 h.2)]

/-- Only an unarmed rollover leaves `Done`. -/
theorem Rollover.done (h : Rollover armed l l') (hl : Done l) :
    Done l' ∨ armed = false := by
  cases h with
  | insert => simp [Done] at hl
  | delete => simp [Done] at hl
  | resume => exact Or.inl (Or.inr rfl)
  | count before after deleted waited =>
    rcases hl with hst | hst
    · exact absurd hst before
    · exact (waited hst).imp Or.inr id

/-- A leap step ends in `Done` and does not start there. -/
theorem done_of_leap (h : Inserts l l' ∨ Deletes l l') : ¬ Done l ∧ Done l' := by
  rcases h with ⟨hl, hl'⟩ | ⟨hl, hl'⟩ <;> simp [Done, hl, hl']

end Leap

/-! ## The code follows it -/

section Kernel

variable {F : Type}

/-- The leap second switch, as a rollover of the three variables. -/
theorem leapSecond_leap (k : Kernel F) (sec : ℤ) :
    Leap.Rollover (has k.timeStatus (staIns ||| staDel))
      ⟨k.timeState, k.timeTai, sec⟩
      ⟨(leapSecond k (sec + 1)).1.timeState, (leapSecond k (sec + 1)).1.timeTai,
        (leapSecond k (sec + 1)).2⟩ := by
  unfold leapSecond
  cases h : k.timeState with
  | ok =>
    dsimp only
    split_ifs
    · exact .count (by simp) (by simp) (by simp) (by simp)
    · exact .count (by simp) (by simp) (by simp) (by simp)
    · exact .count (by simp) (by simp [h]) (by simp) (by simp)
  | ins =>
    dsimp only
    split_ifs with _ hday
    · exact .count (by simp) (by simp) (by simp) (by simp)
    · -- the day is over: its last second is counted again
      rw [add_sub_cancel_right]
      exact .insert (Int.emod_eq_zero_of_dvd (Int.dvd_of_tmod_eq_zero hday))
    · exact .count (by simp) (by simp [h]) (by simp) (by simp)
  | del =>
    dsimp only
    split_ifs with _ hday
    · exact .count (by simp) (by simp) (by simp) (by simp)
    · -- the next second is the last of the day and is skipped
      rw [add_assoc] at hday ⊢
      exact .delete (Int.emod_eq_zero_of_dvd (Int.dvd_of_tmod_eq_zero hday))
    · exact .count (by simp) (by simp [h]) (by simp [h]) (by simp)
  | oop => exact .resume
  | wait =>
    dsimp only
    split_ifs with harmed
    · exact .count (by simp) (by simp) (by simp) (by simpa using harmed)
    · exact .count (by simp) (by simp [h]) (by simp) (by simp [h])

/-- Without a warning nothing happens. -/
theorem leapSecond_of_ok {k : Kernel F} (h : k.timeState = .ok)
    (h' : has k.timeStatus (staIns ||| staDel) = false) (tvSec : ℤ) :
    leapSecond k tvSec = (k, tvSec) := by
  rw [has_or, Bool.or_eq_false_iff] at h'
  unfold leapSecond
  rw [h]
  dsimp only
  rw [if_neg (by simp [h'.1]), if_neg (by simp [h'.2])]

/-- A warned machine waits for the end of the day. -/
theorem leapSecond_of_ins {k : Kernel F} (h : k.timeState = .ins)
    (h' : has k.timeStatus staIns = true) {tvSec : ℤ} (hday : tvSec.tmod 86400 ≠ 0) :
    leapSecond k tvSec = (k, tvSec) := by
  unfold leapSecond
  rw [h]
  dsimp only
  rw [if_neg (by simp [h']), if_neg hday]

/-- At the end of the day it inserts the second. -/
theorem leapSecond_of_midnight {k : Kernel F} (h : k.timeState = .ins)
    (h' : has k.timeStatus staIns = true) {tvSec : ℤ} (hday : tvSec.tmod 86400 = 0) :
    leapSecond k tvSec = ({ k with timeState := .oop }, tvSec - 1) := by
  unfold leapSecond
  rw [h]
  dsimp only
  rw [if_neg (by simp [h']), if_pos hday]

variable [LFp F]

namespace Clock

/-- The three variables a leap second moves. -/
def leap (c : Clock F) : Leap := ⟨c.k.timeState, c.k.timeTai, c.tv.tvSec⟩

/-- `STA_INS` or `STA_DEL` is set. -/
def armed (c : Clock F) : Bool := has c.k.timeStatus (staIns ||| staDel)

variable {cfg : Config} {c : Clock F}

theorem tick_leap (h : Rollover cfg c .tick) :
    Leap.Rollover c.armed c.leap (c.tick cfg).leap := by
  have hroll := leapSecond_leap
    (widenError cfg (ntpTickAdjust cfg c.k c.tv 0).1) c.tv.tvSec
  rw [tick_of_rollover h.2, rollover_eq, ppsWatchdog_frame]
  exact hroll

theorem tick_leap_of_not_rollover (h : ¬ Rollover cfg c .tick) :
    (c.tick cfg).leap = c.leap := by
  rw [tick_of_lt (not_le.mp fun hle => h ⟨rfl, hle⟩)]
  rfl

theorem adjtime_leap (tp : Timex) :
    (step cfg c (.adjtime tp)).leap =
      ⟨if DropsPll c.k tp then .ok else c.k.timeState,
        if has tp.modes modTai && tp.constant > 0 then tp.constant
        else c.k.timeTai, c.tv.tvSec⟩ := by
  simp only [leap, step, ntpAdjtime, adjKernel_timeState, adjKernel_timeTai]

/-! ## A clock that is left alone -/

/-- At one tick a second nothing is left to correct. -/
structure Locked (cfg : Config) (k : Kernel F) : Prop where
  pps : cfg.ppsSync = false
  phase : tickPhase cfg k cfg.hz = (k.timePhase, nanosecond)
  adj : nextAdj cfg k = k

/-- The maximum error a second later. -/
def growError (cfg : Config) (m : ℤ) : ℤ := cfg.long (m + maxfreq / 1000)

theorem Locked.withError {k : Kernel F} (h : Locked cfg k) (m : ℤ) :
    Locked cfg { k with timeMaxerror := m } where
  pps := h.pps
  phase := h.phase
  adj := congrArg (fun k : Kernel F => { k with timeMaxerror := m }) h.adj

omit [LFp F] in
/-- The switch does not look at the maximum error. -/
theorem leapSecond_withError {k : Kernel F} {sec : ℤ} (h : leapSecond k sec = (k, sec))
    (m : ℤ) : leapSecond { k with timeMaxerror := m } sec
      = ({ k with timeMaxerror := m }, sec) := by
  have hswitch : leapSecond { k with timeMaxerror := m } sec
      = ({ (leapSecond k sec).1 with timeMaxerror := m }, (leapSecond k sec).2) := by
    unfold leapSecond
    dsimp only
    cases hstate : k.timeState with
    | oop => rfl
    | _ =>
      dsimp only
      split_ifs <;> simp only [hstate]
  rw [hswitch, h]

theorem adjust_of_locked (h : Locked cfg c.k) (hnsec : c.tv.tvNsec = 0) :
    ntpTickAdjust cfg c.k c.tv 0 = (c.k, ⟨c.tv.tvSec, nanosecond⟩) := by
  have hlong : cfg.long nanosecond = nanosecond := cfg.long_of_fits (by decide)
  unfold ntpTickAdjust
  rw [h.phase]
  dsimp only
  rw [zero_add, hlong, hnsec, zero_add, hlong]

/-- The clock counts seconds. -/
theorem tick_of_locked (h : Locked cfg c.k) (hnsec : c.tv.tvNsec = 0) :
    c.tick cfg =
      ⟨(leapSecond (widenError cfg c.k) (c.tv.tvSec + 1)).1,
        (leapSecond (widenError cfg c.k) (c.tv.tvSec + 1)).2, 0⟩ := by
  have hadjust := adjust_of_locked h hnsec
  have hnext : nextAdj cfg (leapSecond (widenError cfg c.k) (c.tv.tvSec + 1)).1
      = (leapSecond (widenError cfg c.k) (c.tv.tvSec + 1)).1 := by
    rw [leapSecond_frame]
    exact congrArg (fun k : Kernel F => { k with
      timeMaxerror := (widenError cfg c.k).timeMaxerror
      timeState := (leapSecond (widenError cfg c.k) (c.tv.tvSec + 1)).1.timeState
      timeTai := (leapSecond (widenError cfg c.k) (c.tv.tvSec + 1)).1.timeTai }) h.adj
  rw [tick_of_rollover (by rw [hadjust]), hadjust, rollover_eq]
  dsimp only
  rw [hnext]
  unfold ppsWatchdog
  rw [h.pps, sub_self]
  rfl

/-- While no leap second is due, only the seconds and the maximum error move. -/
theorem run_tick_of_locked (h : Locked cfg c.k) (hnsec : c.tv.tvNsec = 0) (n : ℕ)
    (hday : ∀ i : ℕ, i < n →
      leapSecond c.k (c.tv.tvSec + i + 1) = (c.k, c.tv.tvSec + i + 1)) :
    run (step cfg) c (List.replicate n .tick) =
      ⟨{ c.k with timeMaxerror := (growError cfg)^[n] c.k.timeMaxerror },
        c.tv.tvSec + n, 0⟩ := by
  induction n with
  | zero =>
    simp only [List.replicate_zero, run_nil, Function.iterate_zero, id_eq, Nat.cast_zero,
      add_zero]
    rw [← hnsec]
  | succ n ih =>
    rw [List.replicate_succ', run_append, ih fun i hi => hday i (Nat.lt_succ_of_lt hi)]
    have hlocked : Locked cfg (⟨{ c.k with
        timeMaxerror := (growError cfg)^[n] c.k.timeMaxerror },
        c.tv.tvSec + n, 0⟩ : Clock F).k := h.withError _
    have hlast := leapSecond_withError (hday n (Nat.lt_succ_self n))
      (growError cfg ((growError cfg)^[n] c.k.timeMaxerror))
    rw [run_cons, run_nil]
    refine (tick_of_locked hlocked rfl).trans ?_
    unfold widenError
    dsimp only
    rw [← growError, hlast, Function.iterate_succ_apply']
    push_cast
    rw [add_assoc]

/-! ## TAI bookkeeping -/

/-- Ticks, and `ntp_adjtime` calls that leave the TAI offset alone. -/
def KeepsTai (_ : Clock F) : Event → Prop
  | .tick => True
  | .adjtime tp => has tp.modes modTai = false
  | _ => False

/-- `STA_PLL` is dropped while the inserted second is in progress. -/
def ResetsOop (c : Clock F) : Event → Prop
  | .adjtime tp => c.k.timeState = .oop ∧ DropsPll c.k tp
  | _ => False

instance (c : Clock F) : (e : Event) → Decidable (KeepsTai c e)
  | .tick => inferInstanceAs (Decidable True)
  | .adjtime _ => inferInstanceAs (Decidable (_ = _))
  | .hardupdate _ | .hardpps _ _ => inferInstanceAs (Decidable False)

instance (c : Clock F) : (e : Event) → Decidable (ResetsOop c e)
  | .adjtime _ => inferInstanceAs (Decidable (_ ∧ _))
  | .tick | .hardupdate _ | .hardpps _ _ => inferInstanceAs (Decidable False)

/-- The sum moves at second rollovers, by one, and nowhere else. -/
def TaiContinuous (cfg : Config) (c : Clock F) (e : Event) : Prop :=
  (step cfg c e).leap.sum = c.leap.sum + if Rollover cfg c e then 1 else 0

/-- The same, save that a reset during the inserted second loses it. -/
def TaiContinuousButReset (cfg : Config) (c : Clock F) (e : Event) : Prop :=
  (step cfg c e).leap.sum = c.leap.sum + (if Rollover cfg c e then 1 else 0)
    - if ResetsOop c e then 1 else 0

instance (cfg : Config) (c : Clock F) (e : Event) :
    Decidable (TaiContinuous cfg c e) :=
  inferInstanceAs (Decidable (_ = _))

theorem taiContinuous_step {e : Event} (he : KeepsTai c e) :
    TaiContinuousButReset cfg c e := by
  unfold TaiContinuousButReset
  cases e with
  | tick =>
    rw [if_neg (id : ¬ ResetsOop c .tick)]
    by_cases h : Rollover cfg c .tick
    · rw [if_pos h, sub_zero]
      exact (tick_leap h).sum_eq
    · rw [if_neg h]
      show (c.tick cfg).leap.sum = _
      rw [tick_leap_of_not_rollover h]
      omega
  | adjtime tp =>
    have hnt : ¬ Rollover cfg c (.adjtime tp) := fun h => nomatch h.1
    have htai : has tp.modes modTai = false := he
    rw [if_neg hnt, adjtime_leap]
    by_cases hd : DropsPll c.k tp
    · -- the reset to `TIME_OK` takes the second in progress out of the sum
      by_cases hoop : c.k.timeState = .oop
      · have hr : ResetsOop c (.adjtime tp) := ⟨hoop, hd⟩
        simp only [Leap.sum, leap, htai, hd, hoop, hr, Bool.false_and,
          Bool.false_eq_true, if_true, if_false, reduceCtorEq]
        omega
      · have hr : ¬ ResetsOop c (.adjtime tp) := fun h => hoop h.1
        simp only [Leap.sum, leap, htai, hd, hoop, hr, Bool.false_and,
          Bool.false_eq_true, if_true, if_false, reduceCtorEq]
        omega
    · have hr : ¬ ResetsOop c (.adjtime tp) := fun h => hd h.2
      simp only [Leap.sum, leap, htai, hd, hr, Bool.false_and,
        Bool.false_eq_true, if_false]
      rw [add_zero, sub_zero]
      rfl
  | hardupdate offset => exact he.elim
  | hardpps tsp nsec => exact he.elim

/-- UTC plus TAI offset is continuous over every run: one up at each second
rollover, and down by one only at a reset during the inserted second. -/
theorem tai_continuous (cfg : Config) (c : Clock F) (es : List Event)
    (hes : Along (step cfg) KeepsTai c es) :
    Along (step cfg) (TaiContinuousButReset cfg) c es :=
  along_of_invariant (I := fun _ => True) (fun _ _ _ _ => trivial)
    (fun _ _ _ he => taiContinuous_step he) trivial hes

/-- A second is inserted, and `STA_PLL` dropped before it is over. -/
def resetRun : List Event :=
  [.adjtime { modes := modStatus, status := staPll ||| staIns }, .tick, .tick,
    .adjtime { modes := modStatus, status := 0 }, .tick]

/-- Two seconds before midnight. -/
def beforeMidnight : Clock LFp64 := ⟨Kernel.boot oneHertz, ⟨86398, 0⟩⟩

/-- The reset is a step at which the sum is not continuous. -/
theorem not_taiContinuous : ¬ ∀ (cfg : Config) (c : Clock LFp64) (es : List Event),
    Along (step cfg) KeepsTai c es → Along (step cfg) (TaiContinuous cfg) c es := by
  intro h
  have hrun := h oneHertz beforeMidnight resetRun (by decide +kernel)
  exact absurd hrun (by decide +kernel)

theorem tai_continuous_resetRun :
    Along (step oneHertz) (TaiContinuousButReset oneHertz) beforeMidnight resetRun :=
  tai_continuous oneHertz beforeMidnight resetRun (by decide +kernel)

/-! ## Midnight, once per arming -/

/-- Ticks, and `ntp_adjtime` calls that write no status word without
`STA_PLL`. -/
def KeepsPll (_ : Clock F) : Event → Prop
  | .tick => True
  | .adjtime tp => has tp.modes modStatus = true → has tp.status staPll = true
  | _ => False

/-- A rollover that inserts or deletes a second. -/
def LeapStep (cfg : Config) (c : Clock F) (e : Event) : Prop :=
  Rollover cfg c e ∧ (Leap.Inserts c.leap (step cfg c e).leap ∨
    Leap.Deletes c.leap (step cfg c e).leap)

/-- A clock that is left alone inserts the second it was told of at midnight. -/
theorem leapStep_of_locked (h : Locked cfg c.k) (hnsec : c.tv.tvNsec = 0)
    (hins : c.k.timeState = .ins) (hstatus : has c.k.timeStatus staIns = true)
    (hday : (c.tv.tvSec + 1).tmod 86400 = 0) : LeapStep cfg c .tick := by
  have hwiden : (widenError cfg c.k).timeState = .ins := hins
  refine ⟨⟨rfl, ?_⟩, Or.inl ⟨hins, ?_⟩⟩
  · rw [adjust_of_locked h hnsec]
  · show (c.tick cfg).k.timeState = .oop
    rw [tick_of_locked h hnsec, leapSecond_of_midnight hwiden hstatus hday]

/-- A rollover that finds `STA_INS` and `STA_DEL` both clear. -/
def DisarmedRollover (cfg : Config) (c : Clock F) (e : Event) : Prop :=
  Rollover cfg c e ∧ has c.k.timeStatus staIns = false ∧
    has c.k.timeStatus staDel = false

/-- Only a disarmed rollover makes the machine ready again. -/
theorem disarmed_of_exit {e : Event} (he : KeepsPll c e) (hin : c.leap.Done)
    (hout : ¬ (step cfg c e).leap.Done) : DisarmedRollover cfg c e := by
  cases e with
  | tick =>
    by_cases h : Rollover cfg c .tick
    · have harmed : c.armed = false := ((tick_leap h).done hin).resolve_left hout
      unfold armed at harmed
      rw [has_or, Bool.or_eq_false_iff] at harmed
      exact ⟨h, harmed⟩
    · refine absurd ?_ hout
      show (c.tick cfg).leap.Done
      rw [tick_leap_of_not_rollover h]
      exact hin
  | adjtime tp =>
    have hd : ¬ DropsPll c.k tp := by
      rintro ⟨hm, -, hs⟩
      exact Bool.false_ne_true (hs.symm.trans (he hm))
    refine absurd ?_ hout
    rw [adjtime_leap, if_neg hd]
    exact hin
  | hardupdate offset => exact he.elim
  | hardpps tsp nsec => exact he.elim

/-- Every rollover counts one second, except a leap second at midnight, and
two leap seconds are separated by a disarmed rollover. -/
theorem leap_at_midnight_once (cfg : Config) (c : Clock F) (es : List Event)
    (hes : Along (step cfg) KeepsPll c es) :
    Along (step cfg) (fun c e => Rollover cfg c e →
        Leap.MidnightOnly c.leap (step cfg c e).leap) c es ∧
      ∀ pre e mid e' post, es = pre ++ e :: (mid ++ e' :: post) →
        LeapStep cfg (run (step cfg) c pre) e →
        LeapStep cfg (run (step cfg) c (pre ++ e :: mid)) e' →
        ∃ mid₁ d mid₂, mid = mid₁ ++ d :: mid₂ ∧
          DisarmedRollover cfg (run (step cfg) c (pre ++ e :: mid₁)) d := by
  constructor
  · refine along_of_invariant (I := fun _ => True) (fun _ _ _ _ => trivial)
      ?_ trivial hes
    rintro c e - - ⟨rfl, h⟩
    exact (tick_leap ⟨rfl, h⟩).midnightOnly
  · rintro pre e mid e' post rfl he he'
    rw [run_append, run_cons] at he'
    -- done after the first leap step, ready before the second
    have hdone := (Leap.done_of_leap he.2).2
    have hready := (Leap.done_of_leap he'.2).1
    obtain ⟨mid₁, d, mid₂, rfl, hin, hout⟩ :=
      exists_exit (A := fun c : Clock F => c.leap.Done) hdone hready
    refine ⟨mid₁, d, mid₂, rfl, ?_⟩
    rw [run_append, run_cons]
    have hd := along_iff_forall_split.mp hes (pre ++ e :: mid₁) d
      (mid₂ ++ e' :: post) (by simp)
    rw [run_append, run_cons] at hd
    exact disarmed_of_exit hd hin hout

instance (c : Clock F) : (e : Event) → Decidable (KeepsPll c e)
  | .tick => inferInstanceAs (Decidable True)
  | .adjtime _ => inferInstanceAs (Decidable (_ → _))
  | .hardupdate _ | .hardpps _ _ => inferInstanceAs (Decidable False)

/-- The machine is armed on the eve of midnight. -/
def firstArming : List Event :=
  [.adjtime { modes := modStatus, status := staPll ||| staIns }, .tick]

/-- A second was inserted: the machine is disarmed, and armed again. -/
def secondArming : List Event :=
  [.tick, .adjtime { modes := modStatus, status := staPll }, .tick,
    .adjtime { modes := modStatus, status := staPll ||| staIns }, .tick]

/-- And the day goes on. -/
def dayAfter (n : ℕ) : List Event := secondArming ++ List.replicate n .tick

/-- The clock after the second arming, two seconds into the day. -/
def rearmed : Clock LFp64 :=
  run (step oneHertz) beforeMidnight (firstArming ++ .tick :: secondArming)

theorem rearmed_locked : Locked oneHertz rearmed.k := by
  constructor <;> decide +kernel

theorem keepsPll_dayAfter (n : ℕ) : Along (step oneHertz) KeepsPll beforeMidnight
    (firstArming ++ .tick :: (dayAfter n ++ [.tick])) := by
  have harming : ∀ c : Clock LFp64, Along (step oneHertz) KeepsPll c secondArming :=
    fun _ => ⟨trivial, fun _ => by decide, trivial, fun _ => by decide, trivial, trivial⟩
  unfold dayAfter
  rw [along_append, along_cons, along_append, along_append]
  refine ⟨⟨fun _ => by decide, trivial, trivial⟩, trivial, ⟨harming _, along_of_forall ?_⟩,
    trivial, trivial⟩
  intro e he c
  rw [List.eq_of_mem_replicate he]
  trivial

/-- Nothing is due before the next midnight. -/
theorem run_dayAfter {n : ℕ} (hn : n ≤ 86397) :
    run (step oneHertz) beforeMidnight (firstArming ++ .tick :: dayAfter n) =
      ⟨{ rearmed.k with timeMaxerror := (growError oneHertz)^[n] rearmed.k.timeMaxerror },
        86402 + n, 0⟩ := by
  have htv : rearmed.tv = ⟨86402, 0⟩ := by decide +kernel
  have hquiet : ∀ i : ℕ, i < n →
      leapSecond rearmed.k (rearmed.tv.tvSec + i + 1) = (rearmed.k, rearmed.tv.tvSec + i + 1) := by
    intro i hi
    refine leapSecond_of_ins (by decide +kernel) (by decide +kernel) ?_
    rw [htv, Int.tmod_eq_emod_of_nonneg (by positivity)]
    dsimp only
    omega
  have hday := run_tick_of_locked rearmed_locked (congrArg Timespec.tvNsec htv) n hquiet
  have hsplit : firstArming ++ Event.tick :: dayAfter n
      = (firstArming ++ .tick :: secondArming) ++ List.replicate n .tick := by
    unfold dayAfter
    rw [List.append_assoc, List.cons_append]
  rw [hsplit, run_append]
  refine hday.trans ?_
  rw [htv]

/-- Two midnights, a second inserted at each. -/
theorem leap_at_midnight_once_twoDays : ∃ n : ℕ,
    LeapStep oneHertz (run (step oneHertz) beforeMidnight firstArming) .tick ∧
    LeapStep oneHertz (run (step oneHertz) beforeMidnight (firstArming ++ .tick :: dayAfter n))
      .tick ∧
    Along (step oneHertz) (fun c e => Rollover oneHertz c e →
        Leap.MidnightOnly c.leap (step oneHertz c e).leap) beforeMidnight
        (firstArming ++ .tick :: (dayAfter n ++ [.tick])) ∧
      ∃ mid₁ d mid₂, dayAfter n = mid₁ ++ d :: mid₂ ∧
        DisarmedRollover oneHertz
          (run (step oneHertz) beforeMidnight (firstArming ++ .tick :: mid₁)) d := by
  obtain ⟨n, hn⟩ : ∃ n : ℕ, n = 86397 := ⟨_, rfl⟩
  have hfirst : LeapStep oneHertz (run (step oneHertz) beforeMidnight firstArming) .tick :=
    leapStep_of_locked (by constructor <;> decide +kernel) (by decide +kernel)
      (by decide +kernel) (by decide +kernel) (by decide +kernel)
  have hsecond : LeapStep oneHertz
      (run (step oneHertz) beforeMidnight (firstArming ++ .tick :: dayAfter n)) .tick := by
    have hins : rearmed.k.timeState = .ins := by decide +kernel
    have hstatus : has rearmed.k.timeStatus staIns = true := by decide +kernel
    have hlocked : Locked oneHertz rearmed.k := rearmed_locked
    rw [run_dayAfter hn.le]
    generalize rearmed.k = k at hins hstatus hlocked ⊢
    have hmidnight : ((86402 : ℤ) + n + 1).tmod 86400 = 0 := by
      rw [hn]
      decide
    exact leapStep_of_locked (hlocked.withError _) rfl hins hstatus hmidnight
  obtain ⟨hmidnight, honce⟩ :=
    leap_at_midnight_once oneHertz beforeMidnight _ (keepsPll_dayAfter n)
  exact ⟨n, hfirst, hsecond, hmidnight,
    honce firstArming .tick (dayAfter n) .tick [] rfl hfirst hsecond⟩

end Clock

end Kernel

end Nanokernel
