import Nanokernel.Foundation.Run
import Nanokernel.Kernel.Hardpps

/-!
# Runs of the kernel clock

The kernel variables together with `TIMEVAR`, and the calls that reach them: a
tick (`ntp_tick_adjust` followed by `second_overflow`), `ntp_adjtime`,
`hardupdate` and, with `PPS_SYNC`, `hardpps`. A run is any list of them.
-/

namespace Nanokernel

open Run

variable {F : Type} [LFp F]

/-- The kernel variables and `TIMEVAR`. -/
structure Clock (F : Type) where
  k : Kernel F
  tv : Timespec
deriving DecidableEq, Repr

inductive Event where
  | tick
  | adjtime (tp : Timex)
  | hardupdate (offset : ℤ)
  | hardpps (tsp : Timespec) (nsec : ℤ)
deriving DecidableEq, Repr

/-- A 64-bit machine without PPS that ticks once a second. -/
def oneHertz : Config := ⟨.lp64, false, 1⟩

/-- The same with a 32-bit `long`. -/
def oneHertz32 : Config := ⟨.ilp32, false, 1⟩

/-- A 32-bit machine that ticks twice a second. -/
def twoHertz : Config := ⟨.ilp32, false, 2⟩

namespace Clock

/-- `hardclock()`: one tick of the clock. -/
def tick (cfg : Config) (c : Clock F) : Clock F :=
  let (k, tv) := ntpTickAdjust cfg c.k c.tv 0
  let (k, tv) := secondOverflow cfg k tv
  ⟨k, tv⟩

def step (cfg : Config) (c : Clock F) : Event → Clock F
  | .tick => c.tick cfg
  | .adjtime tp => { c with k := (ntpAdjtime cfg c.k c.tv.tvSec tp).1 }
  | .hardupdate offset =>
    { c with k := Nanokernel.hardupdate cfg c.k c.tv.tvSec offset }
  | .hardpps tsp nsec => { c with k := Nanokernel.hardpps cfg c.k tsp nsec }

/-- What `ntp_adjtime` returns to its caller. -/
def returned (cfg : Config) (c : Clock F) : Event → Option (Timex × ℤ)
  | .adjtime tp => some (ntpAdjtime cfg c.k c.tv.tvSec tp).2
  | _ => none

/-- `hardpps` is there with `PPS_SYNC` only, and its caller passes a
normalised timestamp. -/
def Admissible (cfg : Config) (_ : Clock F) : Event → Prop
  | .hardpps tsp _ => cfg.ppsSync = true ∧ 0 ≤ tsp.tvNsec ∧ tsp.tvNsec < nanosecond
  | _ => True

instance (cfg : Config) (c : Clock F) : (e : Event) → Decidable (Admissible cfg c e)
  | .hardpps _ _ => inferInstanceAs (Decidable (_ ∧ _))
  | .tick | .adjtime _ | .hardupdate _ => inferInstanceAs (Decidable True)

/-- The tick at which the second rolls over. -/
def Rollover (cfg : Config) (c : Clock F) (e : Event) : Prop :=
  e = .tick ∧ nanosecond ≤ (ntpTickAdjust cfg c.k c.tv 0).2.tvNsec

instance (cfg : Config) (c : Clock F) (e : Event) : Decidable (Rollover cfg c e) :=
  inferInstanceAs (Decidable (_ ∧ _))

/-- `ntp_init()` was called and the clock was set. -/
def Boots (cfg : Config) (c : Clock F) : Prop := c.k = Kernel.boot cfg

/-- The states a run from `ntp_init()` reaches. -/
def Reachable (cfg : Config) (c : Clock F) : Prop :=
  ∃ c₀ es, Boots cfg c₀ ∧ Along (step cfg) (Admissible cfg) c₀ es ∧
    run (step cfg) c₀ es = c

/-- What holds at the start and is kept by every call holds in every reachable
state. -/
theorem Reachable.invariant {cfg : Config} {I : Clock F → Prop}
    (hboot : ∀ c, Boots cfg c → I c)
    (hstep : ∀ c e, I c → Admissible cfg c e → I (step cfg c e))
    {c : Clock F} (hc : Reachable cfg c) : I c := by
  obtain ⟨c₀, es, hc₀, hes, rfl⟩ := hc
  exact run_invariant hstep (hboot c₀ hc₀) hes

/-! ## The two halves of a tick -/

/-- `ntp_tick_adjust` alone. -/
def adjust (cfg : Config) (c : Clock F) : Clock F :=
  ⟨(ntpTickAdjust cfg c.k c.tv 0).1, (ntpTickAdjust cfg c.k c.tv 0).2⟩

/-- `second_overflow` alone. -/
def overflow (cfg : Config) (c : Clock F) : Clock F :=
  ⟨(secondOverflow cfg c.k c.tv).1, (secondOverflow cfg c.k c.tv).2⟩

theorem tick_eq (cfg : Config) (c : Clock F) :
    c.tick cfg = (c.adjust cfg).overflow cfg := rfl

section Tick

variable {cfg : Config} {c : Clock F}

theorem overflow_of_le (h : nanosecond ≤ c.tv.tvNsec) :
    c.overflow cfg = ⟨(rollover cfg c.k c.tv.tvSec).1,
      (rollover cfg c.k c.tv.tvSec).2, c.tv.tvNsec - nanosecond⟩ := by
  simp only [overflow, secondOverflow, ge_iff_le]
  rw [if_pos h]

theorem overflow_of_lt (h : c.tv.tvNsec < nanosecond) : c.overflow cfg = c := by
  simp only [overflow, secondOverflow, ge_iff_le]
  rw [if_neg (not_le.mpr h)]

/-! ## What a tick does -/

theorem tick_of_rollover
    (h : nanosecond ≤ (ntpTickAdjust cfg c.k c.tv 0).2.tvNsec) :
    c.tick cfg =
      ⟨(rollover cfg (ntpTickAdjust cfg c.k c.tv 0).1 c.tv.tvSec).1,
        (rollover cfg (ntpTickAdjust cfg c.k c.tv 0).1 c.tv.tvSec).2,
        (ntpTickAdjust cfg c.k c.tv 0).2.tvNsec - nanosecond⟩ := by
  rw [tick_eq]
  exact overflow_of_le (c := c.adjust cfg) h

theorem tick_of_lt
    (h : (ntpTickAdjust cfg c.k c.tv 0).2.tvNsec < nanosecond) :
    c.tick cfg =
      ⟨(ntpTickAdjust cfg c.k c.tv 0).1, (ntpTickAdjust cfg c.k c.tv 0).2⟩ := by
  rw [tick_eq]
  exact overflow_of_lt (c := c.adjust cfg) h

/-- The kernel variables are those of the first half, or a rollover away from them. -/
theorem tick_kernel (cfg : Config) (c : Clock F) :
    (c.tick cfg).k = (ntpTickAdjust cfg c.k c.tv 0).1 ∨
      (c.tick cfg).k = (rollover cfg (ntpTickAdjust cfg c.k c.tv 0).1 c.tv.tvSec).1 := by
  rcases lt_or_ge (ntpTickAdjust cfg c.k c.tv 0).2.tvNsec nanosecond with hlt | hge
  · rw [tick_of_lt hlt]
    exact Or.inl rfl
  · rw [tick_of_rollover hge]
    exact Or.inr rfl

end Tick

end Clock

end Nanokernel
