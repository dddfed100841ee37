import Nanokernel.Foundation.Run
import Nanokernel.Kernel.MicroTime
import Nanokernel.Kernel.State
import Mathlib.Tactic.Ring

/-!
# The Highball board

`uniqtime` and `clock_set` of `hightime.c`. The board counts seconds and microseconds
from its own start, and `clock_offset` converts them to system time. A reading that is
not later than the last one is moved on.
-/

namespace Nanokernel

open Run

namespace Timeval

/-- The time as a count of microseconds. -/
def micros (t : Timeval) : ℤ := t.tvSec * 1000000 + t.tvUsec

/-- A difference, with a borrow from the seconds. -/
def minus (t t' : Timeval) : Timeval :=
  if t.tvUsec - t'.tvUsec < 0 then
    ⟨t.tvSec - t'.tvSec - 1, t.tvUsec - t'.tvUsec + 1000000⟩
  else ⟨t.tvSec - t'.tvSec, t.tvUsec - t'.tvUsec⟩

variable {t t' : Timeval}

theorem micros_minus (t t' : Timeval) : (t.minus t').micros = t.micros - t'.micros := by
  unfold minus micros
  split_ifs
  · show (t.tvSec - t'.tvSec - 1) * 1000000 + (t.tvUsec - t'.tvUsec + 1000000) = _
    ring
  · show (t.tvSec - t'.tvSec) * 1000000 + (t.tvUsec - t'.tvUsec) = _
    ring

/-- The time that is taken off may have a full second of microseconds. -/
theorem minus_normalised (h : t.Normalised) (hlo : 0 ≤ t'.tvUsec) (hhi : t'.tvUsec ≤ 1000000) :
    (t.minus t').Normalised := by
  obtain ⟨hpos, hlt⟩ := h
  unfold minus
  split_ifs with hneg
  · constructor
    · show 0 ≤ t.tvUsec - t'.tvUsec + 1000000
      omega
    · show t.tvUsec - t'.tvUsec + 1000000 < 1000000
      omega
  · constructor
    · exact not_lt.mp hneg
    · show t.tvUsec - t'.tvUsec < 1000000
      omega

theorem Normalised.tvSec_eq_zero_iff (h : t.Normalised) :
    t.tvSec = 0 ↔ 0 ≤ t.micros ∧ t.micros < 1000000 := by
  obtain ⟨hpos, hlt⟩ := h
  unfold micros
  omega

end Timeval

/-! ## `hightime.c` -/

/-- The variables of the driver; the registers are mapped at the first call. -/
structure Highball where
  mapped : Bool
  lasttime : Timeval
  clockOffset : Timeval
  highBadtime : ℤ
deriving DecidableEq, Repr

namespace Highball

def maxdiff : ℤ := 1000

def ebadtime : ℤ := -1

def start : Highball := ⟨false, ⟨0, 0⟩, ⟨0, 0⟩, 0⟩

/-- `clock_set()` when the board shows `ntime`. -/
def clockSet (s : Highball) (tv ntime : Timeval) : Highball :=
  { s with clockOffset := tv.minus ntime }

/-- The first call maps the registers and sets the offset. -/
def mapRegs (s : Highball) (time ntime : Timeval) : Highball :=
  if s.mapped then s else { s with mapped := true }.clockSet time ntime

/-- The board's time as system time; the carry is for more than a second. -/
def convert (clockOffset board : Timeval) : Timeval :=
  if board.tvUsec + clockOffset.tvUsec > 1000000 then
    ⟨board.tvSec + clockOffset.tvSec + 1, board.tvUsec + clockOffset.tvUsec - 1000000⟩
  else ⟨board.tvSec + clockOffset.tvSec, board.tvUsec + clockOffset.tvUsec⟩

/-- The microseconds that a reading is moved on. -/
def catchUp (tick : ℤ) (dtime : Timeval) : ℤ :=
  (if dtime.tvUsec > tick - 2 then tick - 2 else dtime.tvUsec) + 1

/-- The reading after a last one that was `dtime` ahead of it. -/
def advance (tick : ℤ) (dtime htime : Timeval) : Timeval :=
  if dtime.tvSec = 0 then
    if htime.tvUsec + catchUp tick dtime ≥ 1000000 then
      ⟨htime.tvSec + 1, htime.tvUsec + catchUp tick dtime - 1000000⟩
    else ⟨htime.tvSec, htime.tvUsec + catchUp tick dtime⟩
  else htime

/-- `uniqtime()` at the system time `time`, when the board shows `board`, and `ntime`
before that to `clock_set()`: the time stored and the value returned. -/
def uniqtime (w : LongWidth) (tick : ℤ) (s : Highball) (time ntime board : Timeval) :
    Highball × Timeval × ℤ :=
  let s := s.mapRegs time ntime
  let htime := convert s.clockOffset board
  let htime := advance tick (s.lasttime.minus htime) htime
  let s := { s with lasttime := htime }
  let ltemp := w.long (htime.tvSec - time.tvSec)
  if ltemp > maxdiff ∨ ltemp < -maxdiff then
    ({ s with highBadtime := w.long (s.highBadtime + 1) }, time, ebadtime)
  else (s, htime, 0)

/-! ## One call -/

section Convert

variable {clockOffset board : Timeval}

theorem micros_convert (clockOffset board : Timeval) :
    (convert clockOffset board).micros = board.micros + clockOffset.micros := by
  unfold convert Timeval.micros
  split_ifs
  · show (board.tvSec + clockOffset.tvSec + 1) * 1000000
      + (board.tvUsec + clockOffset.tvUsec - 1000000) = _
    ring
  · show (board.tvSec + clockOffset.tvSec) * 1000000
      + (board.tvUsec + clockOffset.tvUsec) = _
    ring

/-- A sum of exactly a second keeps all its microseconds. -/
theorem convert_tvUsec (hoffset : clockOffset.Normalised) (hboard : board.Normalised) :
    0 ≤ (convert clockOffset board).tvUsec ∧ (convert clockOffset board).tvUsec ≤ 1000000 ∧
      ((convert clockOffset board).tvUsec = 1000000 ↔
        board.tvUsec + clockOffset.tvUsec = 1000000) := by
  obtain ⟨hpos, hlt⟩ := hoffset
  obtain ⟨hpos', hlt'⟩ := hboard
  unfold convert
  split_ifs with hcarry
  · refine ⟨by dsimp only; omega, by dsimp only; omega, ?_⟩
    dsimp only
    omega
  · exact ⟨add_nonneg hpos' hpos, not_lt.mp hcarry, Iff.rfl⟩

end Convert

section Advance

variable {tick : ℤ} {dtime htime : Timeval}

theorem micros_advance (tick : ℤ) (dtime htime : Timeval) : (advance tick dtime htime).micros =
    htime.micros + (if dtime.tvSec = 0 then catchUp tick dtime else 0) := by
  unfold advance Timeval.micros
  split_ifs
  · show (htime.tvSec + 1) * 1000000 + (htime.tvUsec + catchUp tick dtime - 1000000) = _
    ring
  · show htime.tvSec * 1000000 + (htime.tvUsec + catchUp tick dtime) = _
    ring
  · exact (add_zero _).symm

theorem catchUp_eq (tick : ℤ) (dtime : Timeval) :
    catchUp tick dtime = min dtime.tvUsec (tick - 2) + 1 := by
  unfold catchUp
  split_ifs with htick
  · rw [min_eq_right htick.le]
  · rw [min_eq_left (not_lt.mp htick)]

/-- A catch-up carries the full second that the conversion leaves. -/
theorem advance_normalised_iff (htick : 2 ≤ tick) (hdtime : dtime.Normalised)
    (hlo : 0 ≤ htime.tvUsec) (hhi : htime.tvUsec ≤ 1000000) :
    (advance tick dtime htime).Normalised ↔
      (htime.tvUsec = 1000000 → dtime.tvSec = 0 ∧ catchUp tick dtime < 1000000) := by
  obtain ⟨hpos, hlt⟩ := hdtime
  have hcatch := catchUp_eq tick dtime
  unfold advance Timeval.Normalised
  split_ifs with hsec hcarry
  · dsimp only
    omega
  · dsimp only
    omega
  · omega

end Advance

/-! ## Runs -/

/-- A call of the driver, with what the board shows to it. -/
inductive Call where
  | uniqtime (time ntime board : Timeval)
  | clockSet (tv ntime : Timeval)
deriving DecidableEq, Repr

def step (w : LongWidth) (tick : ℤ) (s : Highball) : Call → Highball
  | .uniqtime time ntime board => (s.uniqtime w tick time ntime board).1
  | .clockSet tv ntime => s.clockSet tv ntime

/-- The times are normalised. -/
def Admissible (_ : Highball) : Call → Prop
  | .uniqtime time ntime board => time.Normalised ∧ ntime.Normalised ∧ board.Normalised
  | .clockSet tv ntime => tv.Normalised ∧ ntime.Normalised

/-- The offset by which a call of `uniqtime()` converts. -/
def offset (s : Highball) (time ntime : Timeval) : Timeval := (s.mapRegs time ntime).clockOffset

/-- The microseconds by which the board with its offset is behind the last time. -/
def lag (s : Highball) (time ntime board : Timeval) : ℤ :=
  s.lasttime.micros - (board.micros + (s.offset time ntime).micros)

/-- The time stored is normalised, and later than the last one unless the board is a
second behind. -/
def Proper (w : LongWidth) (tick : ℤ) (s : Highball) : Call → Prop
  | .uniqtime time ntime board =>
    let lasttime := (s.uniqtime w tick time ntime board).1.lasttime
    lasttime.Normalised ∧
      (s.lag time ntime board < 1000000 → s.lasttime.micros + 1 ≤ lasttime.micros)
  | .clockSet _ _ => True

/-- The microseconds add up to a full second only when the catch-up carries it, and the
lag is not more than the catch-up. -/
def WithinTick (tick : ℤ) (s : Highball) : Call → Prop
  | .uniqtime time ntime board =>
    (board.tvUsec + (s.offset time ntime).tvUsec = 1000000 →
      0 ≤ s.lag time ntime board ∧ s.lag time ntime board < 999999) ∧
    (0 ≤ s.lag time ntime board → s.lag time ntime board < 1000000 →
      s.lag time ntime board ≤ tick - 2)
  | .clockSet _ _ => True

instance (s : Highball) (c : Call) : Decidable (Admissible s c) := by
  cases c <;> unfold Admissible <;> infer_instance

instance (w : LongWidth) (tick : ℤ) (s : Highball) (c : Call) : Decidable (Proper w tick s c) := by
  cases c <;> unfold Proper <;> infer_instance

/-- The last time and the offset are normalised. -/
structure Kept (s : Highball) : Prop where
  lasttime : s.lasttime.Normalised
  clockOffset : s.clockOffset.Normalised

section Step

variable {w : LongWidth} {tick : ℤ} {s : Highball} {time ntime board : Timeval} {c : Call}

theorem mapRegs_lasttime (s : Highball) (time ntime : Timeval) :
    (s.mapRegs time ntime).lasttime = s.lasttime := by
  unfold mapRegs
  split_ifs <;> rfl

theorem uniqtime_clockOffset (w : LongWidth) (tick : ℤ) (s : Highball)
    (time ntime board : Timeval) :
    (s.uniqtime w tick time ntime board).1.clockOffset = s.offset time ntime := by
  unfold uniqtime
  dsimp only
  split_ifs <;> rfl

theorem uniqtime_lasttime (w : LongWidth) (tick : ℤ) (s : Highball)
    (time ntime board : Timeval) : (s.uniqtime w tick time ntime board).1.lasttime =
      advance tick (s.lasttime.minus (convert (s.offset time ntime) board))
        (convert (s.offset time ntime) board) := by
  rw [← mapRegs_lasttime s time ntime]
  unfold uniqtime
  dsimp only
  split_ifs <;> rfl

theorem Kept.offset (h : Kept s) (htime : time.Normalised) (hntime : ntime.Normalised) :
    (s.offset time ntime).Normalised := by
  unfold Highball.offset mapRegs
  split_ifs
  · exact h.clockOffset
  · exact Timeval.minus_normalised htime hntime.1 hntime.2.le

/-- The lag in the form that the driver computes. -/
theorem Kept.dtime (h : Kept s) (htime : time.Normalised) (hntime : ntime.Normalised)
    (hboard : board.Normalised) :
    let dtime := s.lasttime.minus (convert (s.offset time ntime) board)
    dtime.Normalised ∧ dtime.micros = s.lag time ntime board := by
  obtain ⟨hlo, hhi, -⟩ := convert_tvUsec (h.offset htime hntime) hboard
  refine ⟨Timeval.minus_normalised h.lasttime hlo hhi, ?_⟩
  rw [Timeval.micros_minus, micros_convert]
  rfl

theorem Kept.proper_iff (htick : 2 ≤ tick) (h : Kept s) (hc : Admissible s c) :
    Proper w tick s c ↔ WithinTick tick s c := by
  cases c with
  | clockSet tv ntime => exact Iff.rfl
  | uniqtime time ntime board =>
    obtain ⟨htime, hntime, hboard⟩ := hc
    obtain ⟨hdtime, hlag⟩ := h.dtime htime hntime hboard
    obtain ⟨hlo, hhi, hfull⟩ := convert_tvUsec (h.offset htime hntime) hboard
    have hzero := hdtime.tvSec_eq_zero_iff
    have hmicros := micros_convert (s.offset time ntime) board
    rw [hlag] at hzero
    unfold Proper WithinTick
    dsimp only
    rw [uniqtime_lasttime, advance_normalised_iff htick hdtime hlo hhi, hfull, micros_advance,
      catchUp_eq, hmicros]
    by_cases hsec : (s.lasttime.minus (convert (s.offset time ntime) board)).tvSec = 0
    · have husec : (s.lasttime.minus (convert (s.offset time ntime) board)).tvUsec =
          s.lag time ntime board := by
        rw [← hlag]
        unfold Timeval.micros
        omega
      rw [husec, if_pos hsec]
      unfold lag at *
      omega
    · rw [if_neg hsec]
      unfold lag at *
      omega

theorem Kept.step (htick : 2 ≤ tick) (h : Kept s) (hc : Admissible s c)
    (hwithin : WithinTick tick s c) : Kept (Highball.step w tick s c) := by
  have hproper : Proper w tick s c := (h.proper_iff htick hc).mpr hwithin
  cases c with
  | uniqtime time ntime board =>
    refine ⟨hproper.1, ?_⟩
    show (s.uniqtime w tick time ntime board).1.clockOffset.Normalised
    rw [uniqtime_clockOffset]
    exact h.offset hc.1 hc.2.1
  | clockSet tv ntime =>
    exact ⟨h.lasttime, Timeval.minus_normalised hc.1 hc.2.1 hc.2.2.le⟩

end Step

/-- In every run: the times stored are normalised and advance, exactly when no reading
adds up to a full second without a catch-up, nor lags by more than the catch-up. -/
theorem proper_iff_withinTick (w : LongWidth) {tick : ℤ} (htick : 2 ≤ tick) (cs : List Call)
    (hcs : Along (step w tick) Admissible start cs) :
    Along (step w tick) (Proper w tick) start cs ↔
      Along (step w tick) (WithinTick tick) start cs :=
  along_congr (I := Kept) (fun _ _ h hc hwithin => h.step htick hc hwithin)
    (fun _ _ h hc => h.proper_iff htick hc) ⟨by decide, by decide⟩ hcs

/-- Readings at one count of the board, before and after the time is set back by less
than a tick. -/
theorem proper_iff_withinTick_set :
    let cs : List Call :=
      [.uniqtime ⟨100, 500000⟩ ⟨7, 600000⟩ ⟨7, 600000⟩,
        .uniqtime ⟨100, 500000⟩ ⟨7, 600000⟩ ⟨7, 600000⟩, .clockSet ⟨100, 495000⟩ ⟨7, 600000⟩,
        .uniqtime ⟨100, 500000⟩ ⟨7, 600000⟩ ⟨7, 600000⟩]
    Along (step .ilp32 10000) (Proper .ilp32 10000) start cs ↔
      Along (step .ilp32 10000) (WithinTick 10000) start cs :=
  proper_iff_withinTick .ilp32 (by decide) _ (by decide)

/-- The board starts at half past a second of system time; half a second later the
microseconds add up to a full second. -/
theorem not_proper : ¬ ∀ (w : LongWidth) (tick : ℤ) (cs : List Call), 2 ≤ tick →
    Along (step w tick) Admissible start cs → Along (step w tick) (Proper w tick) start cs := by
  intro h
  obtain ⟨-, ⟨hnormalised, -⟩, -⟩ := h .ilp32 10000
    [.uniqtime ⟨100, 500000⟩ ⟨0, 0⟩ ⟨0, 0⟩, .uniqtime ⟨101, 0⟩ ⟨0, 0⟩ ⟨0, 500000⟩]
    (by decide) (by decide)
  exact absurd hnormalised (by decide)

/-- A clock that is set back by half a second is moved on by a tick only, and goes back. -/
example : ¬ Along (step .ilp32 10000) (Proper .ilp32 10000) start
    [.uniqtime ⟨100, 700000⟩ ⟨0, 0⟩ ⟨0, 0⟩, .clockSet ⟨100, 200000⟩ ⟨0, 0⟩,
      .uniqtime ⟨100, 700000⟩ ⟨0, 0⟩ ⟨0, 0⟩] := by decide

end Highball

end Nanokernel
