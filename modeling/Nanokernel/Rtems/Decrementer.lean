import Mathlib.Data.BitVec
import Mathlib.Tactic.Ring
import Nanokernel.Foundation.Run

/-!
# The decrementer as a cycle counter

`getPcc()` and `setPccBase()` of `pcc.h` where the clock interrupt comes from a
decrementer that is readable. The counter runs down through zero, and the interrupt adds
a period to it and counts the tick some time later. `Hrc` is what the routines see, in
words of 32 bits; `PeriodClock` is what happened.
-/

namespace Nanokernel

open Run

/-! ## The routines -/

structure Hrc where
  decrementer : BitVec 32
  clockDriverTicks : BitVec 32
  tickBase : BitVec 32
deriving DecidableEq, Repr

namespace Hrc

/-- What may happen next. -/
inductive Op where
  | click
  | interrupt
  | setPccBase
  | getPcc
deriving DecidableEq, Repr

variable (hrcPeriod : BitVec 32)

/-- The decrementer is loaded with a period at a period edge. -/
def start : Hrc := ⟨hrcPeriod, 0, 0⟩

/-- `getPcc()`; the two reads are made with interrupts disabled. -/
def getPcc (h : Hrc) : BitVec 32 :=
  let pcc := h.decrementer
  let rtemsTicks := h.clockDriverTicks
  -- also if the decrementer has underflown
  let pcc := hrcPeriod - pcc
  let rtemsTicks := rtemsTicks - h.tickBase
  pcc + hrcPeriod * rtemsTicks

/-- `setPccBase()` and the value it returns. -/
def setPccBase (h : Hrc) : Hrc × BitVec 32 :=
  let oldbase := h.tickBase
  let h := { h with tickBase := h.clockDriverTicks }
  (h, hrcPeriod * (h.tickBase - oldbase))

def step (h : Hrc) : Op → Hrc
  | .click => { h with decrementer := h.decrementer - 1 }
  | .interrupt =>
    { h with
      decrementer := h.decrementer + hrcPeriod
      clockDriverTicks := h.clockDriverTicks + 1 }
  | .setPccBase => (h.setPccBase hrcPeriod).1
  | .getPcc => h

/-- Rebasing takes from the counter what it returns. -/
theorem getPcc_eq_setPccBase_add (h : Hrc) : h.getPcc hrcPeriod =
    (h.setPccBase hrcPeriod).2 + (h.setPccBase hrcPeriod).1.getPcc hrcPeriod := by
  unfold getPcc setPccBase
  dsimp only
  ring

end Hrc

/-! ## What happened -/

/-- The clicks since the first period edge, the interrupts that were served, and how many
of them when the base was set. -/
structure PeriodClock where
  clicks : ℕ
  served : ℕ
  base : ℕ
deriving DecidableEq, Repr

namespace PeriodClock

def start : PeriodClock := ⟨0, 0, 0⟩

def step (t : PeriodClock) : Hrc.Op → PeriodClock
  | .click => { t with clicks := t.clicks + 1 }
  | .interrupt => { t with served := t.served + 1 }
  | .setPccBase => { t with base := t.served }
  | .getPcc => t

/-- An interrupt is served some time after the end of its period. -/
def Admissible (period : ℕ) (t : PeriodClock) : Hrc.Op → Prop
  | .interrupt => (t.served + 1) * period ≤ t.clicks
  | _ => True

instance (period : ℕ) (t : PeriodClock) : (op : Hrc.Op) → Decidable (Admissible period t op)
  | .interrupt => inferInstanceAs (Decidable (_ ≤ _))
  | .click | .setPccBase | .getPcc => inferInstanceAs (Decidable True)

/-- The clicks since the period edge of the tick that is the base. -/
def sinceBase (period : ℕ) (t : PeriodClock) : ℕ := t.clicks - period * t.base

/-- The base was served, and its period was over. -/
structure Ordered (period : ℕ) (t : PeriodClock) : Prop where
  base : t.base ≤ t.served
  served : t.served * period ≤ t.clicks

variable {period : ℕ} {t : PeriodClock}

theorem Ordered.step (h : Ordered period t) {op : Hrc.Op} (hop : Admissible period t op) :
    Ordered period (t.step op) := by
  cases op with
  | click => exact ⟨h.base, h.served.trans (Nat.le_succ _)⟩
  | interrupt => exact ⟨h.base.trans (Nat.le_succ _), hop⟩
  | setPccBase => exact ⟨le_refl _, h.served⟩
  | getPcc => exact h

theorem Ordered.edge_le (h : Ordered period t) : period * t.base ≤ t.clicks := by
  rw [mul_comm]
  exact (Nat.mul_le_mul_right period h.base).trans h.served

theorem ordered_start : Ordered period start := ⟨le_refl 0, by rw [start, Nat.zero_mul]⟩

/-- Without `setPccBase` the base stays, and the clicks only grow. -/
theorem run_sinceBase_le (period : ℕ) {ops : List Hrc.Op} (hops : .setPccBase ∉ ops)
    (t : PeriodClock) :
    sinceBase period t ≤ sinceBase period (run step t ops) := by
  have hgrow : t.base = (run step t ops).base ∧ t.clicks ≤ (run step t ops).clicks := by
    induction ops generalizing t with
    | nil => exact ⟨rfl, le_refl _⟩
    | cons op ops ih =>
      obtain ⟨hne, hrest⟩ := List.ne_and_not_mem_of_not_mem_cons hops
      obtain ⟨hbase, hclicks⟩ := ih hrest (t.step op)
      rw [run_cons, ← hbase]
      cases op with
      | click => exact ⟨rfl, (Nat.le_succ _).trans hclicks⟩
      | interrupt | getPcc => exact ⟨rfl, hclicks⟩
      | setPccBase => exact absurd rfl hne
  unfold sinceBase
  rw [hgrow.1]
  exact Nat.sub_le_sub_right hgrow.2 _

end PeriodClock

/-! ## The routines see what happened -/

namespace Hrc

variable {hrcPeriod : BitVec 32} {h : Hrc} {t : PeriodClock}

/-- The words hold the clicks that are left of the period being served, and the ticks. -/
structure Tracks (hrcPeriod : BitVec 32) (t : PeriodClock) (h : Hrc) : Prop where
  decrementer : h.decrementer = hrcPeriod * (t.served + 1) - t.clicks
  ticks : h.clockDriverTicks = t.served
  base : h.tickBase = t.base

theorem Tracks.step (htracks : Tracks hrcPeriod t h) (op : Op) :
    Tracks hrcPeriod (t.step op) (h.step hrcPeriod op) := by
  obtain ⟨hdecrementer, hticks, hbase⟩ := htracks
  cases op with
  | click =>
    refine ⟨?_, hticks, hbase⟩
    simp only [Hrc.step, PeriodClock.step, hdecrementer, Nat.cast_succ]
    ring
  | interrupt =>
    refine ⟨?_, ?_, hbase⟩
    · simp only [Hrc.step, PeriodClock.step, hdecrementer, Nat.cast_succ]
      ring
    · simp only [Hrc.step, PeriodClock.step, hticks, Nat.cast_succ]
  | setPccBase => exact ⟨hdecrementer, hticks, hticks⟩
  | getPcc => exact ⟨hdecrementer, hticks, hbase⟩

theorem tracks_start (hrcPeriod : BitVec 32) :
    Tracks hrcPeriod PeriodClock.start (start hrcPeriod) := by
  refine ⟨?_, rfl, rfl⟩
  simp [start, PeriodClock.start]

/-- The counter is the clicks since the base, modulo `2^32`. -/
theorem Tracks.getPcc (htracks : Tracks hrcPeriod t h)
    (hordered : t.Ordered hrcPeriod.toNat) :
    (h.getPcc hrcPeriod).toNat = t.sinceBase hrcPeriod.toNat % 2 ^ 32 := by
  have hword : h.getPcc hrcPeriod = (t.sinceBase hrcPeriod.toNat : ℕ) := by
    have hperiod : (hrcPeriod.toNat : BitVec 32) = hrcPeriod := by
      rw [BitVec.natCast_eq_ofNat, BitVec.ofNat_toNat, BitVec.setWidth_eq]
    unfold Hrc.getPcc PeriodClock.sinceBase
    rw [htracks.decrementer, htracks.ticks, htracks.base, Nat.cast_sub hordered.edge_le,
      Nat.cast_mul, hperiod]
    ring
  rw [hword]
  exact BitVec.toNat_ofNat _ _

/-- What the counter promises after a run. The clicks that may not reach `2^32` are those since
the edge of the base, not since the call that set it (`not_monotone_between_bases`). -/
structure Continuous (hrcPeriod : BitVec 32) (t : PeriodClock) (h : Hrc) : Prop where
  /-- `tick_base` is the tick of the base, whose period was over -/
  base : h.tickBase = t.base ∧ hrcPeriod.toNat * t.base ≤ t.clicks
  /-- the clicks since that edge -/
  getPcc : (h.getPcc hrcPeriod).toNat = t.sinceBase hrcPeriod.toNat % 2 ^ 32
  /-- no later reading is less, up to the next base or the first wrap -/
  monotone : ∀ ops, Along PeriodClock.step (PeriodClock.Admissible hrcPeriod.toNat) t ops →
    .setPccBase ∉ ops → (run PeriodClock.step t ops).sinceBase hrcPeriod.toNat < 2 ^ 32 →
    h.getPcc hrcPeriod ≤ (run (step hrcPeriod) h ops).getPcc hrcPeriod
  /-- a base that is set returns what it takes -/
  setPccBase : h.getPcc hrcPeriod =
    (h.setPccBase hrcPeriod).2 + (h.setPccBase hrcPeriod).1.getPcc hrcPeriod

theorem run_tracks (htracks : Tracks hrcPeriod t h) (hordered : t.Ordered hrcPeriod.toNat)
    {ops : List Op}
    (hops : Along PeriodClock.step (PeriodClock.Admissible hrcPeriod.toNat) t ops) :
    Tracks hrcPeriod (run PeriodClock.step t ops) (run (step hrcPeriod) h ops) ∧
      (run PeriodClock.step t ops).Ordered hrcPeriod.toNat :=
  ⟨run_simulation (fun _ _ op htracks _ => htracks.step op) htracks hops,
    run_invariant (fun _ _ hordered hop => hordered.step hop) hordered hops⟩

theorem Tracks.continuous (htracks : Tracks hrcPeriod t h)
    (hordered : t.Ordered hrcPeriod.toNat) : Continuous hrcPeriod t h where
  base := ⟨htracks.base, hordered.edge_le⟩
  getPcc := htracks.getPcc hordered
  monotone ops hops hbase hlt := by
    obtain ⟨htracks', hordered'⟩ := run_tracks htracks hordered hops
    have hle := PeriodClock.run_sinceBase_le hrcPeriod.toNat hbase t
    rw [BitVec.le_def, htracks.getPcc hordered, htracks'.getPcc hordered', Nat.mod_eq_of_lt hlt,
      Nat.mod_eq_of_lt (lt_of_le_of_lt hle hlt)]
    exact hle
  setPccBase := getPcc_eq_setPccBase_add hrcPeriod h

/-- In every run of clicks, interrupts that may be late, rebasing and readings. -/
theorem getPcc_continuous (hrcPeriod : BitVec 32) (ops : List Op)
    (hops : Along PeriodClock.step (PeriodClock.Admissible hrcPeriod.toNat) PeriodClock.start ops) :
    Continuous hrcPeriod (run PeriodClock.step PeriodClock.start ops)
      (run (step hrcPeriod) (start hrcPeriod) ops) := by
  obtain ⟨htracks, hordered⟩ := run_tracks (tracks_start hrcPeriod) PeriodClock.ordered_start hops
  exact htracks.continuous hordered

/-- Five clicks of a period of three, the interrupt two clicks late, and a base. -/
def lateTick : List Op :=
  [.click, .click, .click, .click, .click, .interrupt, .setPccBase, .getPcc]

theorem getPcc_continuous_lateTick :
    Continuous 3 (run PeriodClock.step PeriodClock.start lateTick)
      (run (step 3) (start 3) lateTick) :=
  getPcc_continuous 3 lateTick (by decide)

/-! ### Between two bases -/

/-- A reading counts every click. -/
theorem getPcc_run_clicks (hrcPeriod : BitVec 32) (n : ℕ) (h : Hrc) :
    (run (step hrcPeriod) h (List.replicate n .click)).getPcc hrcPeriod
      = h.getPcc hrcPeriod + n := by
  induction n generalizing h with
  | zero => exact (add_zero _).symm
  | succ n ih =>
    rw [List.replicate_succ, run_cons, ih, Nat.cast_succ]
    unfold getPcc step
    dsimp only
    ring

/-- A base that is set two clicks late leaves room for two clicks less than a word counts. -/
theorem not_monotone_between_bases : ¬ ∀ (hrcPeriod : BitVec 32) (ops later : List Op),
    Along PeriodClock.step (PeriodClock.Admissible hrcPeriod.toNat) PeriodClock.start
      (ops ++ later) →
    .setPccBase ∉ later → later.count .click < 2 ^ 32 →
    (run (step hrcPeriod) (start hrcPeriod) ops).getPcc hrcPeriod
      ≤ (run (step hrcPeriod) (start hrcPeriod) (ops ++ later)).getPcc hrcPeriod := by
  intro h
  have hclick : ∀ op ∈ List.replicate (2 ^ 32 - 2) Op.click, op = .click :=
    fun op hop => List.eq_of_mem_replicate hop
  have hread : (run (step 3) (start 3) lateTick).getPcc 3 = 2 := by decide
  have hle := h 3 lateTick (List.replicate (2 ^ 32 - 2) .click) ?_ ?_ ?_
  · rw [run_append, getPcc_run_clicks, hread] at hle
    exact absurd hle (by decide)
  · rw [along_append]
    refine ⟨by decide, along_of_forall ?_⟩
    intro op hop t
    rw [hclick op hop]
    trivial
  · intro hmem
    exact absurd (hclick _ hmem) (by decide)
  · rw [List.count_replicate_self]
    decide

end Hrc

end Nanokernel
