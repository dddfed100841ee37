import Nanokernel.Foundation.Averaging
import Nanokernel.Rtems.PollRound

/-!
# The round-trip filter

`acceptFiltered` lets an answer through if its delay is less than twice a
running average, which it keeps doubled in `avgDelay`. In a steady network the
average settles and the filter opens, unless the delay is a few nanoseconds, so
that rounding holds the average down, or so long that `3*avgDelay` wraps.
-/

namespace Nanokernel

open Run Averaging

/-- The integers an `unsigned long` of 32 bits holds. -/
def Ulong32 (x : ℤ) : Prop := 0 ≤ x ∧ x < 2 ^ 32

instance (x : ℤ) : Decidable (Ulong32 x) := inferInstanceAs (Decidable (_ ∧ _))

/-- `avgDelay` after a call. -/
def filterStep (cfg : Config) (avgDelay delay : ℤ) : ℤ := (acceptFiltered cfg avgDelay delay).2

/-- `avgDelay` after so many calls with one delay. -/
def steadyDelay (cfg : Config) (delay : ℤ) (n : ℕ) (avgDelay : ℤ) : ℤ :=
  (fun avgDelay => filterStep cfg avgDelay delay)^[n] avgDelay

/-- From some call on, every answer is let through. -/
def Opens (cfg : Config) (avgDelay delay : ℤ) : Prop :=
  ∃ N, ∀ n ≥ N, (acceptFiltered cfg (steadyDelay cfg delay n avgDelay) delay).1 = true

/-- The average at which the filter comes to rest from below. -/
def restingDelay (delay : ℤ) : ℤ := 4 * (delay / 2) - 3

/-- Delays for which the filter opens: from 6 ns up to where three resting averages
wrap; below, 0 and 4, and the others if the average is above them. -/
def OpensFor (avgDelay delay : ℤ) : Prop :=
  delay = 0 ∨ delay = 4 ∨ (6 ≤ delay ∧ 3 * restingDelay delay < 2 ^ 32) ∨
    ((delay = 2 ∨ delay = 3 ∨ delay = 5) ∧
      4 * (delay - delay / 2) + 4 ≤ 3 * avgDelay % 2 ^ 32)

instance (avgDelay delay : ℤ) : Decidable (OpensFor avgDelay delay) :=
  inferInstanceAs (Decidable (_ ∨ _))

/-! ## One call -/

section Calls

variable {cfg : Config} {avgDelay delay : ℤ}

theorem accepted_iff : (acceptFiltered cfg avgDelay delay).1 = true ↔
    avgDelay = 0 ∨ delay < avgDelay := by
  unfold acceptFiltered
  split_ifs with hzero
  · exact iff_of_true rfl (Or.inl hzero)
  · rw [or_iff_right hzero, decide_eq_true_iff]

theorem filterStep_zero : filterStep cfg 0 delay = delay := rfl

/-- The new average, which does not wrap; the product may. -/
theorem filterStep_of_ne (h32 : cfg.longWidth = .ilp32) (hdelay : Ulong32 delay)
    (hne : avgDelay ≠ 0) :
    filterStep cfg avgDelay delay = 3 * avgDelay % 2 ^ 32 / 4 + delay / 2 := by
  unfold Ulong32 at hdelay
  unfold filterStep acceptFiltered Config.ulong
  rw [if_neg hne, h32]
  simp only [LongWidth.bits]
  omega

/-- The product does not wrap. -/
def Unwrapped (avgDelay : ℤ) : Prop := 0 < avgDelay ∧ 3 * avgDelay < 2 ^ 32

theorem filterStep_of_unwrapped (h32 : cfg.longWidth = .ilp32) (hdelay : Ulong32 delay)
    (havg : Unwrapped avgDelay) :
    filterStep cfg avgDelay delay = 3 * avgDelay / 4 + delay / 2 := by
  obtain ⟨hpos, hlt⟩ := havg
  rw [filterStep_of_ne h32 hdelay hpos.ne', Int.emod_eq_of_lt (by omega) hlt]

/-- The call is then a step toward twice the delay. -/
theorem filterStep_eq_toward (h32 : cfg.longWidth = .ilp32) (hdelay : Ulong32 delay)
    (havg : Unwrapped avgDelay) :
    filterStep cfg avgDelay delay = toward 4 (4 * (delay / 2)) avgDelay := by
  rw [filterStep_of_unwrapped h32 hdelay havg]
  unfold toward
  omega

/-- A product that wraps leaves an average not far above half the delay. -/
theorem filterStep_of_wrapped (h32 : cfg.longWidth = .ilp32) (hdelay : Ulong32 delay)
    (hwrap : 2 ^ 32 ≤ 3 * avgDelay) :
    filterStep cfg avgDelay delay ≤ (3 * avgDelay - 2 ^ 32) / 4 + delay / 2 := by
  have hturn : 1 ≤ 3 * avgDelay / 2 ^ 32 := Int.le_ediv_of_mul_le (by decide) (by omega)
  have hmod := Int.mul_ediv_add_emod (3 * avgDelay) (2 ^ 32)
  have hle : 3 * avgDelay % 2 ^ 32 ≤ 3 * avgDelay - 2 ^ 32 := by omega
  rw [filterStep_of_ne h32 hdelay (by omega)]
  exact Int.add_le_add_right (Int.ediv_le_ediv (by decide) hle) _

theorem filterStep_ulong (h32 : cfg.longWidth = .ilp32) (hdelay : Ulong32 delay) :
    Ulong32 (filterStep cfg avgDelay delay) := by
  by_cases hne : avgDelay = 0
  · rw [hne, filterStep_zero]
    exact hdelay
  · rw [filterStep_of_ne h32 hdelay hne]
    unfold Ulong32 at hdelay ⊢
    omega

theorem steadyDelay_succ (n : ℕ) : steadyDelay cfg delay (n + 1) avgDelay =
    steadyDelay cfg delay n (filterStep cfg avgDelay delay) :=
  Function.iterate_succ_apply _ n avgDelay

theorem steadyDelay_add (m n : ℕ) : steadyDelay cfg delay (m + n) avgDelay =
    steadyDelay cfg delay m (steadyDelay cfg delay n avgDelay) :=
  Function.iterate_add_apply _ m n avgDelay

theorem steadyDelay_ulong (h32 : cfg.longWidth = .ilp32) (havg : Ulong32 avgDelay)
    (hdelay : Ulong32 delay) (n : ℕ) : Ulong32 (steadyDelay cfg delay n avgDelay) := by
  induction n generalizing avgDelay with
  | zero => exact havg
  | succ n ih =>
    rw [steadyDelay_succ]
    exact ih (filterStep_ulong h32 hdelay)

/-- A filter that refuses an answer from wherever it is does not open. -/
theorem not_opens_of_refuses (h32 : cfg.longWidth = .ilp32) (havg : Ulong32 avgDelay)
    (hdelay : Ulong32 delay)
    (hrefuses : ∀ avgDelay, Ulong32 avgDelay → ∃ n,
      ¬ (acceptFiltered cfg (steadyDelay cfg delay n avgDelay) delay).1 = true) :
    ¬ Opens cfg avgDelay delay := by
  rintro ⟨N, hopen⟩
  obtain ⟨n, hn⟩ := hrefuses _ (steadyDelay_ulong h32 havg hdelay N)
  rw [← steadyDelay_add] at hn
  exact hn (hopen (n + N) (Nat.le_add_left N n))

/-- What it does after one call, it does. -/
theorem opens_iff_filterStep :
    Opens cfg avgDelay delay ↔ Opens cfg (filterStep cfg avgDelay delay) delay := by
  constructor
  · rintro ⟨N, hopen⟩
    refine ⟨N, fun n hn => ?_⟩
    rw [← steadyDelay_succ]
    exact hopen (n + 1) (by omega)
  · rintro ⟨N, hopen⟩
    refine ⟨N + 1, fun n hn => ?_⟩
    obtain ⟨n, rfl⟩ := Nat.exists_eq_add_of_le' hn
    rw [show n + (N + 1) = (n + N) + 1 from rfl, steadyDelay_succ]
    exact hopen (n + N) (Nat.le_add_left N n)

/-! ## Delays that settle -/

/-- If the product does not wrap for the resting average either, it never does. -/
theorem steadyDelay_eq_iterate (h32 : cfg.longWidth = .ilp32) (hdelay : Ulong32 delay)
    (htwo : 2 ≤ delay) (hrest : 3 * restingDelay delay < 2 ^ 32) (havg : Unwrapped avgDelay)
    (n : ℕ) :
    steadyDelay cfg delay n avgDelay = (toward 4 (4 * (delay / 2)))^[n] avgDelay := by
  induction n generalizing avgDelay with
  | zero => rfl
  | succ n ih =>
    rw [steadyDelay_succ, Function.iterate_succ_apply, filterStep_eq_toward h32 hdelay havg]
    have hstep := toward_between (x := avgDelay) (u := 4 * (delay / 2)) (m := 4) (by omega)
    unfold restingDelay at hrest
    unfold Unwrapped at havg
    exact ih ⟨by omega, by omega⟩

/-- The first call brings the average there, from wherever it is. -/
theorem unwrapped_filterStep (h32 : cfg.longWidth = .ilp32) (hdelay : Ulong32 delay)
    (htwo : 2 ≤ delay) (hrest : 3 * restingDelay delay < 2 ^ 32) :
    Unwrapped (filterStep cfg avgDelay delay) := by
  unfold restingDelay at hrest
  unfold Unwrapped
  by_cases hne : avgDelay = 0
  · rw [hne, filterStep_zero]
    omega
  · rw [filterStep_of_ne h32 hdelay hne]
    omega

theorem opens_iff_limit (h32 : cfg.longWidth = .ilp32) (hdelay : Ulong32 delay)
    (htwo : 2 ≤ delay) (hrest : 3 * restingDelay delay < 2 ^ 32) (havg : Unwrapped avgDelay) :
    Opens cfg avgDelay delay ↔ delay < limit 4 (4 * (delay / 2)) avgDelay := by
  obtain ⟨N, hN⟩ := exists_iterate_toward (m := 4) (by omega) (4 * (delay / 2)) avgDelay
  have hbounds := limit_bounds (m := 4) (by omega) (4 * (delay / 2)) avgDelay
  have hverdict : ∀ n ≥ N, (acceptFiltered cfg (steadyDelay cfg delay n avgDelay) delay).1 = true ↔
      delay < limit 4 (4 * (delay / 2)) avgDelay := by
    intro n hn
    rw [steadyDelay_eq_iterate h32 hdelay htwo hrest havg, hN n hn, accepted_iff]
    exact or_iff_right (by omega)
  constructor
  · rintro ⟨M, hopen⟩
    exact (hverdict _ (le_max_left N M)).mp (hopen _ (le_max_right N M))
  · intro hlt
    exact ⟨N, fun n hn => (hverdict n hn).mpr hlt⟩

/-- Where the resting average is above the delay, and where it is not. -/
theorem opens_iff_of_settles (h32 : cfg.longWidth = .ilp32) (hdelay : Ulong32 delay)
    (htwo : 2 ≤ delay) (hrest : 3 * restingDelay delay < 2 ^ 32) :
    Opens cfg avgDelay delay ↔ OpensFor avgDelay delay := by
  rw [opens_iff_filterStep, opens_iff_limit h32 hdelay htwo hrest
    (unwrapped_filterStep h32 hdelay htwo hrest)]
  unfold limit OpensFor
  by_cases hne : avgDelay = 0
  · rw [hne, filterStep_zero]
    omega
  · rw [filterStep_of_ne h32 hdelay hne]
    omega

/-! ## Delays that do not -/

/-- The filter refuses an answer sooner or later. -/
def Refuses (cfg : Config) (avgDelay delay : ℤ) : Prop :=
  ∃ n, ¬ (acceptFiltered cfg (steadyDelay cfg delay n avgDelay) delay).1 = true

theorem refuses_of_le (hne : avgDelay ≠ 0) (hle : avgDelay ≤ delay) :
    Refuses cfg avgDelay delay := by
  refine ⟨0, fun haccept => ?_⟩
  rcases accepted_iff.mp haccept with hzero | hlt
  · exact hne hzero
  · exact absurd hle (not_le.mpr hlt)

theorem Refuses.of_filterStep (h : Refuses cfg (filterStep cfg avgDelay delay) delay) :
    Refuses cfg avgDelay delay := by
  obtain ⟨n, hn⟩ := h
  rw [← steadyDelay_succ] at hn
  exact ⟨n + 1, hn⟩

/-- An average that nothing is added to falls to 1, and is refused there. -/
theorem refuses_one (h32 : cfg.longWidth = .ilp32) (k : ℕ) (havg : Unwrapped avgDelay)
    (hk : avgDelay ≤ k) : Refuses cfg avgDelay 1 := by
  induction k generalizing avgDelay with
  | zero => exact absurd havg.1 (not_lt.mpr hk)
  | succ k ih =>
    have hrange := id havg
    unfold Unwrapped at hrange
    by_cases hone : avgDelay ≤ 1
    · exact refuses_of_le (by omega) hone
    · apply Refuses.of_filterStep
      rw [filterStep_of_unwrapped h32 (by decide) havg]
      push_cast at hk
      exact ih ⟨by omega, by omega⟩ (by omega)

/-- An average whose resting place is beyond the wrap grows until it wraps, and falls
below the delay. -/
theorem refuses_of_wraps (h32 : cfg.longWidth = .ilp32) (hdelay : Ulong32 delay)
    (hrest : 2 ^ 32 ≤ 3 * restingDelay delay) (k : ℕ) (hpos : 0 < avgDelay)
    (htop : avgDelay < 2 ^ 30 + delay / 2) (hk : 2 ^ 32 - avgDelay ≤ k) :
    Refuses cfg avgDelay delay := by
  unfold restingDelay at hrest
  have hrange := id hdelay
  unfold Ulong32 at hrange
  induction k generalizing avgDelay with
  | zero => omega
  | succ k ih =>
    by_cases hle : avgDelay ≤ delay
    · exact refuses_of_le (by omega) hle
    · apply Refuses.of_filterStep
      push_cast at hk
      by_cases hwrap : 3 * avgDelay < 2 ^ 32
      · have hstep := filterStep_of_unwrapped h32 hdelay ⟨hpos, hwrap⟩
        exact ih (by omega) (by omega) (by omega)
      · have hstep := filterStep_of_wrapped h32 hdelay (not_lt.mp hwrap)
        have hne := filterStep_of_ne h32 hdelay hpos.ne'
        exact refuses_of_le (by omega) (by omega)

/-- Any answer that took 1 ns is refused now and then. -/
theorem exists_refuses_one (h32 : cfg.longWidth = .ilp32) : Refuses cfg avgDelay 1 := by
  have hone : Refuses cfg 1 1 := refuses_of_le (by decide) (le_refl 1)
  by_cases hzero : avgDelay = 0
  · apply Refuses.of_filterStep
    rw [hzero, filterStep_zero]
    exact hone
  · apply Refuses.of_filterStep
    have hstep : filterStep cfg avgDelay 1 = 3 * avgDelay % 2 ^ 32 / 4 + 1 / 2 :=
      filterStep_of_ne h32 (by decide) hzero
    generalize filterStep cfg avgDelay 1 = next at hstep
    by_cases hnext : next = 0
    · apply Refuses.of_filterStep
      rw [hnext, filterStep_zero]
      exact hone
    · exact refuses_one h32 (2 ^ 30) ⟨by omega, by omega⟩ (by push_cast; omega)

/-- So is one whose resting average wraps. -/
theorem exists_refuses_of_wraps (h32 : cfg.longWidth = .ilp32) (hdelay : Ulong32 delay)
    (hrest : 2 ^ 32 ≤ 3 * restingDelay delay) : Refuses cfg avgDelay delay := by
  have hrange := id hdelay
  unfold Ulong32 at hrange
  unfold restingDelay at hrest
  apply Refuses.of_filterStep
  by_cases hzero : avgDelay = 0
  · rw [hzero, filterStep_zero]
    exact refuses_of_le (by omega) (le_refl delay)
  · have hstep := filterStep_of_ne h32 hdelay hzero
    refine refuses_of_wraps h32 hdelay hrest (2 ^ 32) (by omega) (by omega) ?_
    push_cast
    omega

/-- The filter opens exactly for those delays. -/
theorem opens_iff_opensFor (h32 : cfg.longWidth = .ilp32) (havg : Ulong32 avgDelay)
    (hdelay : Ulong32 delay) : Opens cfg avgDelay delay ↔ OpensFor avgDelay delay := by
  have hrange := id hdelay
  unfold Ulong32 at hrange
  by_cases htwo : 2 ≤ delay
  · by_cases hrest : 3 * restingDelay delay < 2 ^ 32
    · exact opens_iff_of_settles h32 hdelay htwo hrest
    · refine iff_of_false (not_opens_of_refuses h32 havg hdelay fun _ _ =>
        exists_refuses_of_wraps h32 hdelay (not_lt.mp hrest)) ?_
      unfold OpensFor
      unfold restingDelay at hrest ⊢
      omega
  · by_cases hzero : delay = 0
    · refine iff_of_true ⟨0, fun n _ => accepted_iff.mpr ?_⟩ (Or.inl hzero)
      have hsteady := steadyDelay_ulong h32 havg hdelay n
      unfold Ulong32 at hsteady
      omega
    · obtain rfl : delay = 1 := by omega
      refine iff_of_false (not_opens_of_refuses h32 havg hdelay fun _ _ =>
        exists_refuses_one h32) ?_
      unfold OpensFor
      omega

end Calls

theorem ulong_run_filterStep {cfg : Config} (h32 : cfg.longWidth = .ilp32) {delays : List ℤ}
    (hdelays : ∀ delay ∈ delays, Ulong32 delay) :
    Ulong32 (run (filterStep cfg) 0 delays) :=
  run_invariant (fun _ _ _ => filterStep_ulong h32) (by decide)
    (along_of_forall fun delay hdelay _ => hdelays delay hdelay)

/-- After every sequence of calls, and for every delay that all later answers take:
the filter opens exactly if that is one of those it opens for. -/
theorem run_opens_iff (cfg : Config) (h32 : cfg.longWidth = .ilp32) (delays : List ℤ)
    (hdelays : ∀ delay ∈ delays, Ulong32 delay) (delay : ℤ) (hdelay : Ulong32 delay) :
    Opens cfg (run (filterStep cfg) 0 delays) delay ↔
      OpensFor (run (filterStep cfg) 0 delays) delay := by
  exact opens_iff_opensFor h32 (ulong_run_filterStep h32 hdelays) hdelay

/-- A server that is 4 ms away, and then 5 ms. -/
theorem run_opens_iff_milliseconds :
    Opens oneHertz32 (run (filterStep oneHertz32) 0 [4000000]) 5000000 ↔
      OpensFor (run (filterStep oneHertz32) 0 [4000000]) 5000000 :=
  run_opens_iff oneHertz32 rfl [4000000] (by decide) 5000000 (by decide)

/-- A server that is 0.8 s away is refused every few rounds, for good. -/
theorem not_run_opens : ¬ ∀ (delays : List ℤ) (delay : ℤ), (∀ delay ∈ delays, Ulong32 delay) →
    Ulong32 delay → Opens oneHertz32 (run (filterStep oneHertz32) 0 delays) delay := by
  intro h
  have hfar : Ulong32 800000000 := by decide
  refine not_opens_of_refuses rfl (by decide) hfar ?_ (h [] 800000000 nofun hfar)
  intro avgDelay _
  exact exists_refuses_of_wraps rfl hfar (by decide)

end Nanokernel
