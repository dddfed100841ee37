import Nanokernel.Foundation.Run
import Nanokernel.Kernel.CalibrationInterval

/-!
# The adaptation of the calibration interval

The interval is to be doubled after four consecutive quiet intervals and halved after
four consecutive noisy ones. The code keeps one counter that goes up and down. It counts
the consecutive intervals as long as it has been brought back to zero whenever the
direction changes (`Counts`), and that is all the rule needs.
-/

namespace Nanokernel

open Run

/-! ## The counter and the last intervals -/

/-- The last four completed intervals are of one kind. -/
def FourInARow (quiet : Bool) (outcomes : List Bool) : Prop :=
  List.replicate 4 quiet <:+ outcomes

/-- The counter is at most the number of consecutive intervals, in either direction
in which it may adapt the length. -/
structure Interval.Counts (i : Interval) (outcomes : List Bool) : Prop where
  quiet : i.shift < i.shiftmax → List.replicate i.intcnt.toNat true <:+ outcomes
  noisy : ppsFavg < i.shift → List.replicate (-i.intcnt).toNat false <:+ outcomes

theorem replicate_suffix_concat {n : ℕ} {b : Bool} {l : List Bool}
    (h : List.replicate n b <:+ l) : List.replicate (n + 1) b <:+ l ++ [b] := by
  obtain ⟨pre, rfl⟩ := h
  rw [List.replicate_succ', List.append_assoc]
  exact List.suffix_append pre _

theorem replicate_suffix_of_le {m n : ℕ} {b : Bool} {l : List Bool} (hmn : m ≤ n)
    (h : List.replicate n b <:+ l) : List.replicate m b <:+ l := by
  obtain ⟨d, rfl⟩ := Nat.exists_eq_add_of_le' hmn
  rw [List.replicate_add] at h
  exact (List.suffix_append _ _).trans h

theorem replicate_suffix_of_nonpos {n : ℤ} (h : n ≤ 0) (b : Bool) (l : List Bool) :
    List.replicate n.toNat b <:+ l := by
  rw [Int.toNat_of_nonpos h]
  exact List.nil_suffix

namespace Interval

variable {i : Interval} {outcomes : List Bool}

/-- A change of direction finds the counter back at zero, or one short of it, unless
the length is at the end the counter stands for. -/
def Turns (i : Interval) : Bool → Prop
  | true => -1 ≤ i.intcnt ∨ i.shift ≤ ppsFavg
  | false => i.intcnt ≤ 1 ∨ i.shiftmax ≤ i.shift

instance (i : Interval) (quiet : Bool) : Decidable (i.Turns quiet) := by
  cases quiet
  · exact inferInstanceAs (Decidable (_ ∨ _))
  · exact inferInstanceAs (Decidable (_ ∨ _))

/-- A turn that is not too early keeps the counter at most the number of consecutive
intervals. -/
theorem Counts.complete (h : i.Counts outcomes) (hcnt : -4 ≤ i.intcnt ∧ i.intcnt ≤ 4)
    {quiet : Bool} (hturns : i.Turns quiet) :
    (i.complete quiet).Counts (outcomes ++ [quiet]) := by
  have hmax := complete_shiftmax i quiet
  cases quiet with
  | true =>
    rcases complete_quiet hcnt.1 with
      ⟨-, hcount, hshift⟩ | ⟨-, -, hcount, -⟩ | ⟨-, hend, hcount, hshift⟩
    · refine ⟨fun hlt => ?_, fun hlt => ?_⟩
      · rw [hcount]
        have hbefore := h.quiet (by omega)
        exact replicate_suffix_of_le (by omega) (replicate_suffix_concat hbefore)
      · rw [hshift] at hlt
        have hnear := hturns.resolve_right (not_le.mpr hlt)
        exact replicate_suffix_of_nonpos (by omega) _ _
    · constructor <;> intro <;> exact replicate_suffix_of_nonpos (by omega) _ _
    · refine ⟨fun hlt => ?_, fun _ => ?_⟩
      · omega
      · exact replicate_suffix_of_nonpos (by omega) _ _
  | false =>
    rcases complete_noisy hcnt.2 with
      ⟨-, hcount, hshift⟩ | ⟨-, -, hcount, -⟩ | ⟨-, hend, hcount, hshift⟩
    · refine ⟨fun hlt => ?_, fun hlt => ?_⟩
      · rw [hshift, hmax] at hlt
        have hnear := hturns.resolve_right (not_le.mpr hlt)
        exact replicate_suffix_of_nonpos (by omega) _ _
      · rw [hcount]
        have hbefore := h.noisy (by omega)
        exact replicate_suffix_of_le (by omega) (replicate_suffix_concat hbefore)
    · constructor <;> intro <;> exact replicate_suffix_of_nonpos (by omega) _ _
    · refine ⟨fun _ => ?_, fun hlt => ?_⟩
      · exact replicate_suffix_of_nonpos (by omega) _ _
      · omega

/-- The last interval is not of the other kind. -/
theorem nonpos_of_suffix_concat {n : ℤ} {b b' : Bool} (hne : b ≠ b')
    (h : List.replicate n.toNat b <:+ outcomes ++ [b']) : n ≤ 0 := by
  by_contra hpos
  obtain ⟨pre, hpre⟩ := replicate_suffix_of_le (show 1 ≤ n.toNat by omega) h
  have hlast := List.append_inj_right' hpre rfl
  exact hne (List.head_eq_of_cons_eq hlast)

/-- One that is too early leaves it above the number. -/
theorem Turns.of_counts (hcnt : -4 ≤ i.intcnt ∧ i.intcnt ≤ 4) {quiet : Bool}
    (h : (i.complete quiet).Counts (outcomes ++ [quiet])) : i.Turns quiet := by
  have hmax := complete_shiftmax i quiet
  cases quiet with
  | true =>
    refine or_iff_not_imp_right.mpr fun hshift => ?_
    rcases complete_quiet hcnt.1 with ⟨-, hcount, hsame⟩ | ⟨hthree, -⟩ | ⟨hthree, -⟩
    · have hnone := nonpos_of_suffix_concat (by decide) (h.noisy (by omega))
      omega
    · omega
    · omega
  | false =>
    refine or_iff_not_imp_right.mpr fun hshift => ?_
    rcases complete_noisy hcnt.2 with ⟨-, hcount, hsame⟩ | ⟨hthree, -⟩ | ⟨hthree, -⟩
    · have hnone := nonpos_of_suffix_concat (by decide) (h.quiet (by omega))
      omega
    · omega
    · omega

/-- What adapts the length has four in a row behind it. -/
theorem Counts.fourInARow (h : i.Counts outcomes) (hcnt : -4 ≤ i.intcnt ∧ i.intcnt ≤ 4)
    (quiet : Bool) :
    (i.shift < (i.complete quiet).shift → quiet = true ∧ FourInARow true (outcomes ++ [quiet])) ∧
      ((i.complete quiet).shift < i.shift →
        quiet = false ∧ FourInARow false (outcomes ++ [quiet])) := by
  cases quiet with
  | true =>
    rcases complete_quiet hcnt.1 with ⟨-, -, hshift⟩ | ⟨hthree, hlt, -, hshift⟩ | ⟨-, -, -, hshift⟩
    · exact ⟨fun hup => by omega, fun hdown => by omega⟩
    · refine ⟨fun _ => ⟨rfl, ?_⟩, fun hdown => by omega⟩
      exact replicate_suffix_of_le (by omega) (replicate_suffix_concat (h.quiet hlt))
    · exact ⟨fun hup => by omega, fun hdown => by omega⟩
  | false =>
    rcases complete_noisy hcnt.2 with ⟨-, -, hshift⟩ | ⟨hthree, hlt, -, hshift⟩ | ⟨-, -, -, hshift⟩
    · exact ⟨fun hup => by omega, fun hdown => by omega⟩
    · refine ⟨fun hup => by omega, fun _ => ⟨rfl, ?_⟩⟩
      exact replicate_suffix_of_le (by omega) (replicate_suffix_concat (h.noisy hlt))
    · exact ⟨fun hup => by omega, fun hdown => by omega⟩

end Interval

/-! ## Runs -/

namespace Clock

variable {F : Type} [LFp F] {cfg : Config}

/-- Whether the interval that a pulse completes, if it does, was quiet. -/
def completed (cfg : Config) (c : Clock F) : Event → Option Bool
  | .hardpps tsp nsec =>
    match calibrationFate cfg c.k tsp nsec with
    | .running | .discarded => none
    | .noisy => some false
    | .quiet => some true
  | _ => none

/-- The intervals that were completed in a run, in order. -/
def completedIntervals (cfg : Config) (c : Clock F) (es : List Event) : List Bool :=
  outputs (step cfg) (completed cfg) c es

/-- No call of `ntp_adjtime` moves the limit or resets the length. -/
def Undisturbed (cfg : Config) (c : Clock F) : Event → Prop
  | .adjtime tp => c.k.pps.interval.adjtime cfg tp c.k = c.k.pps.interval
  | _ => True

instance (cfg : Config) (c : Clock F) : (e : Event) → Decidable (Undisturbed cfg c e)
  | .adjtime _ => inferInstanceAs (Decidable (_ = _))
  | .tick | .hardupdate _ | .hardpps _ _ => inferInstanceAs (Decidable True)

/-- An interval that is completed does not turn too early. -/
def TurnsInTime (cfg : Config) (c : Clock F) (e : Event) : Prop :=
  ∀ quiet, completed cfg c e = some quiet → c.k.pps.interval.Turns quiet

instance (cfg : Config) (c : Clock F) (e : Event) : Decidable (TurnsInTime cfg c e) :=
  inferInstanceAs (Decidable (∀ _ : Bool, _ → _))

/-- The length is adapted by four in a row, the one just completed included. -/
structure FollowsRule (cfg : Config) (c : Clock F) (e : Event) (outcomes : List Bool) :
    Prop where
  longer : c.k.pps.shift < (c.step cfg e).k.pps.shift →
    completed cfg c e = some true ∧ FourInARow true outcomes
  shorter : (c.step cfg e).k.pps.shift < c.k.pps.shift →
    completed cfg c e = some false ∧ FourInARow false outcomes

/-- A call either completes an interval or leaves the machine alone. -/
theorem step_interval_cases {c : Clock F} {e : Event} (h : Undisturbed cfg c e) :
    (completed cfg c e = none ∧ (c.step cfg e).k.pps.interval = c.k.pps.interval) ∨
      ∃ quiet, completed cfg c e = some quiet ∧
        (c.step cfg e).k.pps.interval = c.k.pps.interval.complete quiet := by
  have hstep := step_interval cfg c e
  cases e with
  | tick | hardupdate => exact Or.inl ⟨rfl, hstep⟩
  | adjtime tp => exact Or.inl ⟨rfl, hstep.trans h⟩
  | hardpps tsp nsec =>
    dsimp only [completed] at hstep ⊢
    cases hfate : calibrationFate cfg c.k tsp nsec with
    | running | discarded =>
      rw [hfate] at hstep
      exact Or.inl ⟨rfl, hstep⟩
    | noisy =>
      rw [hfate] at hstep
      exact Or.inr ⟨false, rfl, hstep⟩
    | quiet =>
      rw [hfate] at hstep
      exact Or.inr ⟨true, rfl, hstep⟩

theorem step_bounded {c : Clock F} {e : Event} (h : c.k.pps.interval.Bounded)
    (he : Undisturbed cfg c e) : (c.step cfg e).k.pps.interval.Bounded := by
  rcases step_interval_cases he with ⟨-, hsame⟩ | ⟨quiet, -, hcomplete⟩
  · rw [hsame]
    exact h
  · rw [hcomplete]
    exact h.complete quiet

/-- The counter keeps counting through a step that turns in time, and only through one. -/
theorem step_counts_iff {c : Clock F} {outcomes : List Bool} {e : Event}
    (h : c.k.pps.interval.Bounded) (hcounts : c.k.pps.interval.Counts outcomes)
    (he : Undisturbed cfg c e) :
    (c.step cfg e).k.pps.interval.Counts (outcomes ++ (completed cfg c e).toList) ↔
      TurnsInTime cfg c e := by
  unfold TurnsInTime
  rcases step_interval_cases he with ⟨hnone, hsame⟩ | ⟨quiet, hsome, hcomplete⟩
  · rw [hnone, hsame, Option.toList_none, List.append_nil]
    exact iff_of_true hcounts nofun
  · rw [hsome, hcomplete]
    constructor
    · rintro hnext quiet' ⟨⟩
      exact Interval.Turns.of_counts h.intcnt hnext
    · intro hturns
      exact hcounts.complete h.intcnt (hturns quiet rfl)

theorem counts_of_boots {c : Clock F} (h : Boots cfg c) : c.k.pps.interval.Counts [] := by
  rw [interval_of_boots h]
  exact ⟨fun _ => List.nil_suffix, fun _ => List.nil_suffix⟩

theorem run_counts {c₀ : Clock F} (hboot : Boots cfg c₀) {es : List Event}
    (hes : Along (step cfg) (Undisturbed cfg) c₀ es)
    (hturns : Along (step cfg) (TurnsInTime cfg) c₀ es) :
    (run (step cfg) c₀ es).k.pps.interval.Bounded ∧
      (run (step cfg) c₀ es).k.pps.interval.Counts (completedIntervals cfg c₀ es) := by
  refine outputs_invariant (I := fun (c : Clock F) outcomes =>
    c.k.pps.interval.Bounded ∧ c.k.pps.interval.Counts outcomes) ?_
    ⟨bounded_of_boots hboot, counts_of_boots hboot⟩ (along_and hes hturns)
  rintro c outcomes e ⟨hbounded, hcounts⟩ ⟨he, hturn⟩
  exact ⟨step_bounded hbounded he, (step_counts_iff hbounded hcounts he).mpr hturn⟩

/-- The counter counts consecutive intervals in every state of a run exactly when none
turns too early. -/
theorem counts_iff_turnsInTime {c₀ : Clock F} (hboot : Boots cfg c₀) {es : List Event}
    (hes : Along (step cfg) (Undisturbed cfg) c₀ es) :
    (∀ pre, pre <+: es →
        (run (step cfg) c₀ pre).k.pps.interval.Counts (completedIntervals cfg c₀ pre)) ↔
      Along (step cfg) (TurnsInTime cfg) c₀ es := by
  constructor
  · intro h
    rw [along_iff_forall_split]
    rintro pre e post rfl
    obtain ⟨hpre, he, -⟩ := (along_append _ _ _ _).mp hes
    have hbounded : (run (step cfg) c₀ pre).k.pps.interval.Bounded :=
      run_invariant (I := fun c : Clock F => c.k.pps.interval.Bounded)
        (fun _ _ => step_bounded) (bounded_of_boots hboot) hpre
    have hcounts := h pre (List.prefix_append _ _)
    have hnext := h (pre ++ [e]) ⟨post, by rw [List.append_assoc]; rfl⟩
    unfold completedIntervals at hcounts hnext
    rw [outputs_append_singleton, run_append] at hnext
    exact (step_counts_iff hbounded hcounts he).mp hnext
  · rintro hturns pre ⟨post, rfl⟩
    exact (run_counts hboot ((along_append _ _ _ _).mp hes).1
      ((along_append _ _ _ _).mp hturns).1).2

/-- In every run from start-up whose intervals do not turn too early, every call that
adapts the length has four completed intervals in a row behind it. -/
theorem adapts_by_rule (cfg : Config) (c₀ : Clock F) (hboot : Boots cfg c₀) (es : List Event)
    (hes : Along (step cfg) (Undisturbed cfg) c₀ es)
    (hturns : Along (step cfg) (TurnsInTime cfg) c₀ es) (pre : List Event) (e : Event)
    (post : List Event) (hsplit : es = pre ++ e :: post) :
    FollowsRule cfg (run (step cfg) c₀ pre) e (completedIntervals cfg c₀ (pre ++ [e])) := by
  subst hsplit
  obtain ⟨hpre, he, -⟩ := (along_append _ _ _ _).mp hes
  obtain ⟨hbounded, hcounts⟩ := run_counts hboot hpre ((along_append _ _ _ _).mp hturns).1
  have hshift : ∀ c : Clock F, c.k.pps.shift = c.k.pps.interval.shift := fun _ => rfl
  unfold completedIntervals at hcounts ⊢
  rw [outputs_append_singleton]
  rcases step_interval_cases he with ⟨-, hsame⟩ | ⟨quiet, hsome, hcomplete⟩
  · constructor <;> rw [hshift, hshift, hsame] <;> exact fun hlt => absurd hlt (lt_irrefl _)
  · obtain ⟨hlonger, hshorter⟩ := hcounts.fourInARow hbounded.intcnt quiet
    constructor <;> rw [hshift, hshift, hcomplete, hsome]
    · intro hlt
      obtain ⟨rfl, hfour⟩ := hlonger hlt
      exact ⟨rfl, hfour⟩
    · intro hlt
      obtain ⟨rfl, hfour⟩ := hshorter hlt
      exact ⟨rfl, hfour⟩

/-- Pulses 4 s apart. -/
def calm : List Event :=
  [.hardpps ⟨4, 0⟩ 0, .hardpps ⟨8, 0⟩ 0, .hardpps ⟨12, 0⟩ 0, .hardpps ⟨16, 0⟩ 0]

theorem adapts_by_rule_calm : FollowsRule ppsConfig
    (run (step ppsConfig) ⟨(Kernel.boot ppsConfig : Kernel LFp64), ⟨0, 0⟩⟩ (calm.take 3))
    (.hardpps ⟨16, 0⟩ 0)
    (completedIntervals ppsConfig ⟨(Kernel.boot ppsConfig : Kernel LFp64), ⟨0, 0⟩⟩
      (calm.take 3 ++ [.hardpps ⟨16, 0⟩ 0])) :=
  adapts_by_rule ppsConfig ⟨Kernel.boot ppsConfig, ⟨0, 0⟩⟩ rfl calm (by decide) (by decide)
    (calm.take 3) (.hardpps ⟨16, 0⟩ 0) [] rfl

/-- Pulses 4 s apart, the fourth with the counter half a millisecond off. -/
def wanders : List Event :=
  [.hardpps ⟨4, 0⟩ 0, .hardpps ⟨8, 0⟩ 0, .hardpps ⟨12, 0⟩ 0, .hardpps ⟨16, 0⟩ 500000,
    .hardpps ⟨20, 0⟩ 500000, .hardpps ⟨24, 0⟩ 500000]

/-- The sixth interval doubles the length, two after a noisy one. -/
theorem not_adapts_by_rule : ¬ ∀ (c₀ : Clock LFp64) (es : List Event), Boots ppsConfig c₀ →
    Along (step ppsConfig) (Admissible ppsConfig) c₀ es →
    (∀ e ∈ es, ∃ tsp nsec, e = .hardpps tsp nsec) → ∀ pre e post, es = pre ++ e :: post →
      FollowsRule ppsConfig (run (step ppsConfig) c₀ pre) e
        (completedIntervals ppsConfig c₀ (pre ++ [e])) := by
  intro h
  have hpulses : ∀ e ∈ wanders, ∃ tsp nsec, e = .hardpps tsp nsec := by
    unfold wanders
    simp
  have hrule := h ⟨Kernel.boot ppsConfig, ⟨0, 0⟩⟩ wanders rfl (by decide) hpulses (wanders.take 5)
    (.hardpps ⟨24, 0⟩ 500000) [] rfl
  have hfour := (hrule.longer (by decide)).2
  unfold FourInARow at hfour
  exact absurd hfour (by decide)

end Clock

end Nanokernel
