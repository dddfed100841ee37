import Mathlib.Data.BitVec
import Mathlib.Tactic.Ring
import Nanokernel.Foundation.BitMask
import Nanokernel.Foundation.Run
import Nanokernel.Rtems.Decrementer

/-!
# The other cycle counters

`pcc.h` has three more pairs of `getPcc()` and `setPccBase()`: the time base register that the
clock interrupt saves, the time stamp counter, and, in `pictimer.c`, a timer of the OpenPIC
that runs down and toggles a bit. With the first two, as with the decrementer, what the bases
return and the counter still shows are all the cycles there were (`pcc_total`). The timer
returns one period for every base, and that is right if and only if the ticker runs once in
every period (`pictimer_total_iff`).
-/

namespace Nanokernel

open Run

/-! ## The time base -/

/-- `USE_METHOD_B_FOR_DEMO`: the register, what `rtems_ntp_isr_snippet` saved of it, and the
base. -/
structure Timebase where
  mftb : BitVec 32
  lastIrqTime : BitVec 32
  pccBase : BitVec 32
deriving DecidableEq, Repr

namespace Timebase

/-- `getPcc()`. -/
def getPcc (t : Timebase) : BitVec 32 := t.mftb - t.pccBase

/-- `setPccBase()` and the value it returns. -/
def setPccBase (t : Timebase) : Timebase × BitVec 32 :=
  let oldbase := t.pccBase
  let t := { t with pccBase := t.lastIrqTime }
  (t, t.pccBase - oldbase)

def step (t : Timebase) : Hrc.Op → Timebase
  | .click => { t with mftb := t.mftb + 1 }
  | .interrupt => { t with lastIrqTime := t.mftb }
  | .setPccBase => t.setPccBase.1
  | .getPcc => t

def returned (t : Timebase) : Hrc.Op → Option (BitVec 32)
  | .setPccBase => some t.setPccBase.2
  | _ => none

end Timebase

/-! ## The time stamp counter -/

/-- `USE_RDTSC`: a counter of 64 bits, and no help from the interrupt. -/
structure Rdtsc where
  rdtsc : BitVec 64
  lastTick : BitVec 64
deriving DecidableEq, Repr

namespace Rdtsc

/-- `getPcc()`. -/
def getPcc (t : Rdtsc) : BitVec 64 := t.rdtsc - t.lastTick

/-- `setPccBase()` and the value it returns, zero for the first one. -/
def setPccBase (t : Rdtsc) : Rdtsc × BitVec 64 :=
  let old := t.lastTick
  let t := { t with lastTick := t.rdtsc }
  (t, if old ≠ 0 then t.lastTick - old else 0)

def step (t : Rdtsc) : Hrc.Op → Rdtsc
  | .click => { t with rdtsc := t.rdtsc + 1 }
  | .setPccBase => t.setPccBase.1
  | .interrupt | .getPcc => t

def returned (t : Rdtsc) : Hrc.Op → Option (BitVec 64)
  | .setPccBase => some t.setPccBase.2
  | _ => none

/-- The counter is not read as zero, which it is once in `2^64` cycles. -/
def Nonzero (t : Rdtsc) (op : Hrc.Op) : Prop := op = .setPccBase → t.rdtsc ≠ 0

instance (t : Rdtsc) (op : Hrc.Op) : Decidable (Nonzero t op) :=
  inferInstanceAs (Decidable (_ → _))

end Rdtsc

/-- What `setPccBase()` of the decrementer returns. -/
def Hrc.returned (hrcPeriod : BitVec 32) (h : Hrc) : Hrc.Op → Option (BitVec 32)
  | .setPccBase => some (h.setPccBase hrcPeriod).2
  | _ => none

/-! ## Nothing is lost -/

section Total

/-- The cycles that pass in an operation. -/
def gain {w : ℕ} : Hrc.Op → BitVec w
  | .click => 1
  | _ => 0

theorem gain_sum {w : ℕ} (ops : List Hrc.Op) :
    (ops.map gain).sum = ((ops.count .click : ℕ) : BitVec w) := by
  induction ops with
  | nil => rfl
  | cons op ops ih =>
    rw [List.map_cons, List.sum_cons, ih, List.count_cons]
    cases op <;> simp [gain, add_comm]

variable {σ : Type} {w : ℕ} {step : σ → Hrc.Op → σ} {read : σ → BitVec w}
  {returned : σ → Hrc.Op → Option (BitVec w)} {P : σ → Hrc.Op → Prop} {I : σ → Prop}

/-- A counter whose bases take from it what they return counts all cycles. -/
theorem total_of_step (hstep : ∀ s op, I s → P s op → I (step s op))
    (hread : ∀ s op, I s → P s op →
      (returned s op).getD 0 + read (step s op) = read s + gain op)
    {s : σ} (hs : I s) {ops : List Hrc.Op} (hops : Along step P s ops) :
    (outputs step returned s ops).sum + read (run step s ops)
      = read s + ((ops.count .click : ℕ) : BitVec w) := by
  rw [sum_outputs_gain hstep hread hs hops, gain_sum]

end Total

theorem hrc_total (hrcPeriod : BitVec 32) (h : Hrc) (ops : List Hrc.Op) :
    (outputs (Hrc.step hrcPeriod) (Hrc.returned hrcPeriod) h ops).sum
        + (run (Hrc.step hrcPeriod) h ops).getPcc hrcPeriod
      = h.getPcc hrcPeriod + (ops.count .click : ℕ) := by
  refine total_of_step (I := fun _ => True) (P := fun _ _ => True) (fun _ _ _ _ => trivial) ?_
    trivial (along_true _ _)
  intro h op _ _
  cases op with
  | click =>
    show 0 + _ = _
    unfold Hrc.getPcc Hrc.step gain
    ring
  | interrupt =>
    show 0 + _ = _
    unfold Hrc.getPcc Hrc.step gain
    ring
  | setPccBase =>
    show (h.setPccBase hrcPeriod).2 + _ = _ + 0
    rw [add_zero]
    exact (h.getPcc_eq_setPccBase_add hrcPeriod).symm
  | getPcc => exact add_comm _ _

theorem timebase_total (t : Timebase) (ops : List Hrc.Op) :
    (outputs Timebase.step Timebase.returned t ops).sum + (run Timebase.step t ops).getPcc
      = t.getPcc + (ops.count .click : ℕ) := by
  refine total_of_step (I := fun _ => True) (P := fun _ _ => True) (fun _ _ _ _ => trivial) ?_
    trivial (along_true _ _)
  intro t op _ _
  cases op with
  | click =>
    show 0 + (t.mftb + 1 - t.pccBase) = t.mftb - t.pccBase + 1
    ring
  | setPccBase =>
    show t.lastIrqTime - t.pccBase + (t.mftb - t.lastIrqTime) = t.mftb - t.pccBase + 0
    ring
  | interrupt | getPcc => exact add_comm _ _

/-- From the first base on. -/
theorem rdtsc_total {t : Rdtsc} (ht : t.lastTick ≠ 0) {ops : List Hrc.Op}
    (hops : Along Rdtsc.step Rdtsc.Nonzero t ops) :
    (outputs Rdtsc.step Rdtsc.returned t ops).sum + (run Rdtsc.step t ops).getPcc
      = t.getPcc + (ops.count .click : ℕ) := by
  refine total_of_step (I := fun t => t.lastTick ≠ 0) ?_ ?_ ht hops
  · intro t op ht hop
    cases op with
    | setPccBase => exact hop rfl
    | click | interrupt | getPcc => exact ht
  · intro t op ht hop
    cases op with
    | click =>
      show 0 + (t.rdtsc + 1 - t.lastTick) = t.rdtsc - t.lastTick + 1
      ring
    | setPccBase =>
      show (if t.lastTick ≠ 0 then t.rdtsc - t.lastTick else 0) + (t.rdtsc - t.rdtsc) = _ + 0
      rw [if_pos ht]
      unfold Rdtsc.getPcc
      ring
    | interrupt | getPcc => exact add_comm _ _

/-- In every run, what the bases returned and what the counter shows is the cycles that
passed, in words: no base loses a cycle or counts one twice, however late it comes and however
late the interrupts are. The time stamp counter starts with a first base. -/
theorem pcc_total (ops : List Hrc.Op) :
    (∀ hrcPeriod : BitVec 32,
      (outputs (Hrc.step hrcPeriod) (Hrc.returned hrcPeriod) (Hrc.start hrcPeriod) ops).sum
          + (run (Hrc.step hrcPeriod) (Hrc.start hrcPeriod) ops).getPcc hrcPeriod
        = (ops.count .click : ℕ)) ∧
    (∀ t : Timebase,
      (outputs Timebase.step Timebase.returned t ops).sum + (run Timebase.step t ops).getPcc
        = t.getPcc + (ops.count .click : ℕ)) ∧
    (∀ t : Rdtsc, t.lastTick ≠ 0 → Along Rdtsc.step Rdtsc.Nonzero t ops →
      (outputs Rdtsc.step Rdtsc.returned t ops).sum + (run Rdtsc.step t ops).getPcc
        = t.getPcc + (ops.count .click : ℕ)) := by
  refine ⟨fun hrcPeriod => ?_, fun t => timebase_total t ops, fun t ht => rdtsc_total ht⟩
  have hstart : (Hrc.start hrcPeriod).getPcc hrcPeriod = 0 := by
    show hrcPeriod - hrcPeriod + hrcPeriod * (0 - 0) = 0
    ring
  rw [hrc_total, hstart, zero_add]

/-- A base, twice the next one, and a late interrupt. -/
def lateBases : List Hrc.Op :=
  [.click, .setPccBase, .click, .click, .interrupt, .setPccBase, .click, .setPccBase, .click]

theorem pcc_total_lateBases :
    (outputs Rdtsc.step Rdtsc.returned ⟨7, 4⟩ lateBases).sum
        + (run Rdtsc.step ⟨7, 4⟩ lateBases).getPcc = 8 := by
  rw [(pcc_total lateBases).2.2 ⟨7, 4⟩ (by decide) (by decide)]
  decide

/-! ## The timer of the OpenPIC -/

/-- `OPENPIC_TIMER_TOGGLE`. -/
def openpicTimerToggle : BitVec 32 := 0x80000000#32

/-- `Current_Count` over the cycles since an edge: the count goes down from the base count, and
each time it is through the toggle bit changes. -/
structure CountsDown (baseCount : BitVec 32) (currentCount : ℕ → BitVec 32) : Prop where
  pos : 0 < baseCount.toNat
  lt : baseCount.toNat < 2 ^ 31
  count : ∀ t, currentCount t &&& ~~~openpicTimerToggle
    = baseCount - ((t % baseCount.toNat : ℕ) : BitVec 32)
  toggle : ∀ t t', currentCount t &&& openpicTimerToggle = currentCount t' &&& openpicTimerToggle ↔
    t / baseCount.toNat % 2 = t' / baseCount.toNat % 2

/-- The cycles since the timer was started, and `nano_ticks`. -/
structure Pictimer where
  cycles : ℕ
  nanoTicks : BitVec 32
deriving DecidableEq, Repr

namespace Pictimer

variable (baseCount : BitVec 32) (currentCount : ℕ → BitVec 32)

/-- The base is set at the edge the timer starts with. -/
def start : Pictimer := ⟨0, currentCount 0⟩

/-- `getPcc()`. -/
def getPcc (t : Pictimer) : BitVec 32 :=
  let cnt := currentCount t.cycles
  let tgl := cnt ^^^ t.nanoTicks
  let cnt := cnt &&& ~~~openpicTimerToggle
  -- rolled over, and the ticker has not come to it yet
  let cnt := if tgl &&& openpicTimerToggle ≠ 0 then cnt - baseCount else cnt
  baseCount - cnt

/-- `setPccBase()` and the value it returns. -/
def setPccBase (t : Pictimer) : Pictimer × BitVec 32 :=
  ({ t with nanoTicks := currentCount t.cycles }, baseCount)

def step (t : Pictimer) : Hrc.Op → Pictimer
  | .click => { t with cycles := t.cycles + 1 }
  | .setPccBase => (t.setPccBase baseCount currentCount).1
  -- `clock_isr` sends an event, and the ticker comes when it can
  | .interrupt | .getPcc => t

/-- What the bases have returned, and the cycle of the last one. -/
structure Account where
  returned : ℕ
  base : ℕ
deriving DecidableEq, Repr

def account (a : Account) (t : Pictimer) : Hrc.Op → Account
  | .setPccBase => ⟨a.returned + (t.setPccBase baseCount currentCount).2.toNat, t.cycles⟩
  | _ => a

/-- What was returned and what the counter shows is what passed. -/
def Exact (w : Pictimer × Account) : Prop :=
  w.2.returned + (w.1.getPcc baseCount currentCount).toNat = w.1.cycles

instance (w : Pictimer × Account) : Decidable (Exact baseCount currentCount w) :=
  inferInstanceAs (Decidable (_ = _))

/-- The total is right after the operation. -/
def ExactAfter (w : Pictimer × Account) (op : Hrc.Op) : Prop :=
  Exact baseCount currentCount (watch (step baseCount currentCount)
    (account baseCount currentCount) w op)

/-- A base comes in the period after that of the last one. -/
def Timely (w : Pictimer × Account) : Hrc.Op → Prop
  | .click => (w.1.cycles + 1) / baseCount.toNat ≤ w.2.base / baseCount.toNat + 1
  | .setPccBase => w.1.cycles / baseCount.toNat = w.2.base / baseCount.toNat + 1
  | .interrupt | .getPcc => True

instance (w : Pictimer × Account) : (op : Hrc.Op) → Decidable (Timely baseCount w op)
  | .click => inferInstanceAs (Decidable (_ ≤ _))
  | .setPccBase => inferInstanceAs (Decidable (_ = _))
  | .interrupt | .getPcc => inferInstanceAs (Decidable True)

section Exact

variable {baseCount currentCount} {t : Pictimer} {base : ℕ}

/-- The bit tells an odd number of edges from an even one. -/
theorem toggled_iff (h : CountsDown baseCount currentCount)
    (hbase : t.nanoTicks = currentCount base) :
    (currentCount t.cycles ^^^ t.nanoTicks) &&& openpicTimerToggle = 0 ↔
      t.cycles / baseCount.toNat % 2 = base / baseCount.toNat % 2 := by
  rw [← h.toggle, hbase]
  exact BitMask.xor_and_eq_zero_iff _ _ _

/-- The counter, with one period for an odd number of edges since the base. -/
theorem getPcc_toNat (h : CountsDown baseCount currentCount)
    (hbase : t.nanoTicks = currentCount base) :
    (t.getPcc baseCount currentCount).toNat = t.cycles % baseCount.toNat
      + if t.cycles / baseCount.toNat % 2 = base / baseCount.toNat % 2 then 0
        else baseCount.toNat := by
  have hrest : t.cycles % baseCount.toNat < baseCount.toNat := Nat.mod_lt _ h.pos
  have hlt := h.lt
  unfold getPcc
  dsimp only
  rw [h.count]
  by_cases hsame : t.cycles / baseCount.toNat % 2 = base / baseCount.toNat % 2
  · rw [if_neg (not_not.mpr ((toggled_iff h hbase).mpr hsame)), if_pos hsame, sub_sub_cancel,
      add_zero, BitVec.natCast_eq_ofNat, BitVec.toNat_ofNat]
    exact Nat.mod_eq_of_lt (by omega)
  · have hshown : ∀ r : BitVec 32, baseCount - (baseCount - r - baseCount) = r + baseCount := by
      intro r
      ring
    rw [if_pos (mt (toggled_iff h hbase).mp hsame), if_neg hsame, hshown, BitVec.toNat_add,
      BitVec.natCast_eq_ofNat, BitVec.toNat_ofNat]
    omega

/-- With one period returned for each of the periods before the base, the total is right as
long as at most one more is over. -/
theorem exact_iff (h : CountsDown baseCount currentCount) {w : Pictimer × Account}
    (hbase : w.1.nanoTicks = currentCount w.2.base)
    (hreturned : w.2.returned = baseCount.toNat * (w.2.base / baseCount.toNat))
    (hlo : w.2.base / baseCount.toNat ≤ w.1.cycles / baseCount.toNat)
    (hhi : w.1.cycles / baseCount.toNat ≤ w.2.base / baseCount.toNat + 2) :
    Exact baseCount currentCount w ↔
      w.1.cycles / baseCount.toNat ≤ w.2.base / baseCount.toNat + 1 := by
  have hsplit := Nat.div_add_mod w.1.cycles baseCount.toNat
  have hpos := h.pos
  unfold Exact
  rw [getPcc_toNat h hbase, hreturned]
  generalize w.1.cycles / baseCount.toNat = q at *
  generalize w.2.base / baseCount.toNat = k at *
  obtain rfl | rfl | rfl : q = k ∨ q = k + 1 ∨ q = k + 2 := by omega
  · rw [if_pos rfl]
    exact iff_of_true (by omega) (by omega)
  · rw [if_neg (by omega)]
    rw [mul_add] at hsplit
    exact iff_of_true (by omega) (by omega)
  · rw [if_pos (by omega)]
    rw [mul_add] at hsplit
    exact iff_of_false (by omega) (by omega)

/-- What holds while the bases are timely. -/
structure InTime (baseCount : BitVec 32) (currentCount : ℕ → BitVec 32)
    (w : Pictimer × Account) : Prop where
  nanoTicks : w.1.nanoTicks = currentCount w.2.base
  returned : w.2.returned = baseCount.toNat * (w.2.base / baseCount.toNat)
  past : w.2.base ≤ w.1.cycles
  recent : w.1.cycles / baseCount.toNat ≤ w.2.base / baseCount.toNat + 1

theorem InTime.exactAfter_iff (h : CountsDown baseCount currentCount) {w : Pictimer × Account}
    (hw : InTime baseCount currentCount w) (op : Hrc.Op) :
    ExactAfter baseCount currentCount w op ↔ Timely baseCount w op := by
  obtain ⟨hnano, hreturned, hpast, hrecent⟩ := hw
  cases op with
  | click =>
    have hnext : (w.1.cycles + 1) / baseCount.toNat ≤ w.1.cycles / baseCount.toNat + 1 := by
      rw [← Nat.add_div_right _ h.pos]
      exact Nat.div_le_div_right (Nat.add_le_add_left h.pos _)
    exact exact_iff h (w := (⟨w.1.cycles + 1, w.1.nanoTicks⟩, w.2)) hnano hreturned
      (Nat.div_le_div_right (hpast.trans (Nat.le_succ _)))
      (hnext.trans (Nat.add_le_add_right hrecent 1))
  | setPccBase =>
    have hread := getPcc_toNat (t := ⟨w.1.cycles, currentCount w.1.cycles⟩) h rfl
    have hsplit := Nat.div_add_mod w.1.cycles baseCount.toNat
    rw [if_pos rfl, add_zero] at hread
    show w.2.returned + baseCount.toNat
        + (getPcc baseCount currentCount ⟨w.1.cycles, currentCount w.1.cycles⟩).toNat
          = w.1.cycles ↔
      w.1.cycles / baseCount.toNat = w.2.base / baseCount.toNat + 1
    rw [hread, hreturned, ← mul_add_one]
    constructor
    · intro heq
      have hsame := Nat.add_right_cancel (hsplit.trans heq.symm)
      exact Nat.eq_of_mul_eq_mul_left h.pos hsame
    · intro heq
      rw [heq] at hsplit
      exact hsplit
  | interrupt | getPcc =>
    have hdiv : w.2.base / baseCount.toNat ≤ w.1.cycles / baseCount.toNat :=
      Nat.div_le_div_right hpast
    exact iff_of_true ((exact_iff h hnano hreturned hdiv (by omega)).mpr hrecent) trivial

theorem InTime.step {w : Pictimer × Account} (hw : InTime baseCount currentCount w) {op : Hrc.Op}
    (hop : Timely baseCount w op) : InTime baseCount currentCount
      (watch (Pictimer.step baseCount currentCount) (account baseCount currentCount) w op) := by
  obtain ⟨hnano, hreturned, hpast, hrecent⟩ := hw
  cases op with
  | click => exact ⟨hnano, hreturned, hpast.trans (Nat.le_succ _), hop⟩
  | setPccBase =>
    refine ⟨rfl, ?_, le_refl _, Nat.le_succ _⟩
    have hnext : w.1.cycles / baseCount.toNat = w.2.base / baseCount.toNat + 1 := hop
    show w.2.returned + baseCount.toNat = baseCount.toNat * (w.1.cycles / baseCount.toNat)
    rw [hreturned, hnext, mul_add_one]
  | interrupt | getPcc => exact ⟨hnano, hreturned, hpast, hrecent⟩

end Exact

/-- In every run from an edge of the timer: the total is right all along if and only if every
base comes in the period after that of the base before it. A second base in one period gains
a period, and two edges without a base lose two. -/
theorem pictimer_total_iff (baseCount : BitVec 32) (currentCount : ℕ → BitVec 32)
    (h : CountsDown baseCount currentCount) (ops : List Hrc.Op) :
    let watched := watch (step baseCount currentCount) (account baseCount currentCount)
    Along watched (ExactAfter baseCount currentCount) (start currentCount, ⟨0, 0⟩) ops ↔
      Along watched (Timely baseCount) (start currentCount, ⟨0, 0⟩) ops := by
  intro watched
  have hstart : InTime baseCount currentCount (start currentCount, ⟨0, 0⟩) := by
    refine ⟨rfl, ?_, le_refl 0, Nat.le_succ _⟩
    show 0 = baseCount.toNat * (0 / baseCount.toNat)
    rw [Nat.zero_div, mul_zero]
  exact along_congr (I := InTime baseCount currentCount) (A := fun _ _ => True)
    (fun w op hw _ hop => hw.step hop) (fun w op hw _ => hw.exactAfter_iff h op) hstart
    (along_true _ _)

/-- A timer that counts down as it should. -/
def countDown (baseCount : BitVec 32) (t : ℕ) : BitVec 32 :=
  (if t / baseCount.toNat % 2 = 1 then openpicTimerToggle else 0)
    ||| (baseCount - ((t % baseCount.toNat : ℕ) : BitVec 32))

theorem and_toggle_eq_zero {x : BitVec 32} (h : x.toNat < 2 ^ 31) :
    x &&& openpicTimerToggle = 0 := by
  have hbit : x.getLsbD 31 = false := by
    rw [BitVec.getLsbD, Nat.testBit_lt_two_pow h]
  have htwo := BitVec.and_twoPow x 31
  rw [hbit, if_neg Bool.false_ne_true] at htwo
  exact htwo

theorem countDown_toggle {baseCount : BitVec 32} (hpos : 0 < baseCount.toNat)
    (hlt : baseCount.toNat < 2 ^ 31) (t : ℕ) :
    let left := baseCount - ((t % baseCount.toNat : ℕ) : BitVec 32)
    left &&& openpicTimerToggle = 0 ∧ left &&& ~~~openpicTimerToggle = left := by
  intro left
  have hrest := Nat.mod_lt t hpos
  have hzero : left &&& openpicTimerToggle = 0 := by
    refine and_toggle_eq_zero ?_
    rw [BitVec.toNat_sub, BitVec.natCast_eq_ofNat, BitVec.toNat_ofNat]
    omega
  have hall : ~~~openpicTimerToggle ||| openpicTimerToggle = BitVec.allOnes 32 := by decide
  refine ⟨hzero, ?_⟩
  calc left &&& ~~~openpicTimerToggle
      = left &&& ~~~openpicTimerToggle ||| left &&& openpicTimerToggle := by
        rw [hzero]
        exact BitVec.or_zero.symm
    _ = left := by rw [← BitVec.and_or_distrib_left, hall, BitVec.and_allOnes]

theorem countsDown_countDown {baseCount : BitVec 32} (hpos : 0 < baseCount.toNat)
    (hlt : baseCount.toNat < 2 ^ 31) : CountsDown baseCount (countDown baseCount) := by
  have htop : ∀ t, countDown baseCount t &&& openpicTimerToggle
      = if t / baseCount.toNat % 2 = 1 then openpicTimerToggle else 0 := by
    intro t
    unfold countDown
    rw [BitVec.and_comm, BitVec.and_or_distrib_left, BitVec.and_comm openpicTimerToggle (_ - _),
      (countDown_toggle hpos hlt t).1]
    split_ifs <;> decide
  refine ⟨hpos, hlt, ?_, ?_⟩
  · intro t
    unfold countDown
    rw [BitVec.and_comm, BitVec.and_or_distrib_left, BitVec.and_comm _ (_ - _),
      (countDown_toggle hpos hlt t).2]
    split_ifs
    · exact BitVec.zero_or
    · exact BitVec.zero_or
  · intro t t'
    rw [htop, htop]
    split_ifs with h h' h'
    · exact iff_of_true rfl (h.trans h'.symm)
    · exact iff_of_false (by decide) (by omega)
    · exact iff_of_false (by decide) (by omega)
    · exact iff_of_true rfl (by omega)

/-- The ticker comes at the edge of a period of three, then a cycle after it. -/
def jitter : List Hrc.Op :=
  [.click, .click, .click, .setPccBase, .click, .click, .click, .click, .setPccBase, .click,
    .click]

theorem pictimer_total_iff_jitter :
    Along (watch (step 3 (countDown 3)) (account 3 (countDown 3))) (ExactAfter 3 (countDown 3))
      (start (countDown 3), ⟨0, 0⟩) jitter :=
  (pictimer_total_iff 3 (countDown 3) (countsDown_countDown (by decide) (by decide))
    jitter).mpr (by decide)

end Pictimer

end Nanokernel
