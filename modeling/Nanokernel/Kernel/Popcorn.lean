import Nanokernel.Foundation.Fairness
import Nanokernel.Kernel.PhaseFilter

/-!
# The popcorn suppressor of `hardpps`

The threshold is four times an average of the spreads, the rejected ones
included, so under a steady signal it follows the spread. The average rounds
down and stops up to 3 ns below: from 4 ns on that is enough to let the pulses
through, but an average of zero does not rise at all under a spread of 1 to 3 ns
(`reopens_iff`).
-/

namespace Nanokernel.Clock

open SignedWord Run Averaging Median

variable {F : Type}

/-! ## A steady signal -/

def IsPulse : Event → Prop
  | .hardpps _ _ => True
  | _ => False

instance : DecidablePred IsPulse
  | .hardpps _ _ => inferInstanceAs (Decidable True)
  | .tick | .adjtime _ | .hardupdate _ => inferInstanceAs (Decidable False)

/-- A pulse passes both gates, and with it the samples are `u` apart. -/
def SteadyPulse (cfg : Config) (u : ℤ) (c : Clock F) : Event → Prop
  | .hardpps tsp _ => (pulseFate cfg c.k tsp).Filtered ∧
      Median.spread (pulseOffset tsp).tvNsec c.k.pps.tf0.tvNsec c.k.pps.tf1.tvNsec = u
  | _ => True

/-- The pulse is suppressed. -/
def Spike (cfg : Config) (c : Clock F) : Event → Prop
  | .hardpps tsp _ => pulseFate cfg c.k tsp = .popcorn
  | _ => False

variable [LFp F] [LawfulLFp F] {cfg : Config} {u : ℤ} {c : Clock F} {tsp : Timespec}

omit [LFp F] [LawfulLFp F] in
/-- The test of the source. -/
theorem spike_iff {nsec : ℤ} (h : SteadyPulse cfg u c (.hardpps tsp nsec)) :
    Spike cfg c (.hardpps tsp nsec) ↔ cfg.long (c.k.pps.jitter <<< ppsPopcorn.toNat) < u := by
  obtain ⟨hfate, hspread⟩ := h
  have htest : (medianFilter (pulseOffset tsp).tvNsec c.k.pps.tf0.tvNsec c.k.pps.tf1.tvNsec).2
      = u := by
    rw [medianFilter_eq, hspread]
  show pulseFate cfg c.k tsp = .popcorn ↔ _
  unfold pulseFate
  dsimp only
  rw [if_neg hfate.gates.1, if_neg hfate.gates.2, htest]
  by_cases hspike : u > cfg.long (c.k.pps.jitter <<< ppsPopcorn.toNat)
  · rw [if_pos hspike]
    exact iff_of_true rfl hspike
  · rw [if_neg hspike]
    refine iff_of_false ?_ hspike
    split_ifs
    · exact nofun
    · exact nofun

/-- A steady pulse moves the average toward the spread. -/
theorem step_jitter {nsec : ℤ} (hrange : FilterRange c.k.pps)
    (hadm : c.Admissible cfg (.hardpps tsp nsec))
    (h : SteadyPulse cfg u c (.hardpps tsp nsec)) :
    (c.step cfg (.hardpps tsp nsec)).k.pps.jitter = toward 4 u c.k.pps.jitter := by
  obtain ⟨hfate, hspread⟩ := h
  have htsp : PulseRange (pulseOffset tsp) := pulseRange_pulseOffset hadm.2.1 hadm.2.2
  obtain ⟨hfilter, -⟩ := hardpps_phaseFiltered cfg hrange htsp nsec
  obtain ⟨h0, h1, h2⟩ := hfilter.stored hfate.1
  have hnext : (hardpps cfg c.k tsp nsec).pps.spread = u := by
    unfold Pps.spread
    rw [h0, h1, h2, hspread]
  show (hardpps cfg c.k tsp nsec).pps.jitter = _
  rw [hfilter.averaged hfate, hnext]

/-! ## The gates bound the spread -/

/-- The last two samples are within the range gate of each other. -/
def GatedPair (c : Clock F) : Prop := |c.k.pps.tf0.tvNsec - c.k.pps.tf1.tvNsec| ≤ maxfreq

omit [LFp F] [LawfulLFp F] in
/-- The difference that the range gate tests is exact. -/
theorem abs_pulse_sub_le (hrange : FilterRange c.k.pps) (htsp : PulseRange (pulseOffset tsp))
    (hfate : (pulseFate cfg c.k tsp).Filtered) :
    |(pulseOffset tsp).tvNsec - c.k.pps.tf0.tvNsec| ≤ maxfreq := by
  obtain ⟨hplo, hphi⟩ := abs_le.mp htsp
  obtain ⟨htlo, hthi⟩ := abs_le.mp hrange.tf0
  have hgate := hfate.gates.2
  unfold nanosecond at hplo hphi htlo hthi
  rw [cfg.long_of_fits ⟨by omega, by omega⟩] at hgate
  obtain ⟨hle, hge⟩ := not_or.mp hgate
  exact abs_le.mpr ⟨not_lt.mp hge, not_lt.mp hle⟩

omit [LFp F] [LawfulLFp F] in
/-- After one pulse through the gate, another one bounds the spread. -/
theorem spread_le_of_gatedPair {nsec : ℤ} (hrange : FilterRange c.k.pps) (hpair : GatedPair c)
    (htsp : PulseRange (pulseOffset tsp)) (h : SteadyPulse cfg u c (.hardpps tsp nsec)) :
    u ≤ 2 * maxfreq := by
  obtain ⟨hfate, hspread⟩ := h
  obtain ⟨hplo, hphi⟩ := abs_le.mp (abs_pulse_sub_le hrange htsp hfate)
  obtain ⟨htlo, hthi⟩ := abs_le.mp hpair
  have hmax : (0 : ℤ) ≤ maxfreq := by decide
  have hle : Median.spread (pulseOffset tsp).tvNsec c.k.pps.tf0.tvNsec c.k.pps.tf1.tvNsec
      ≤ (c.k.pps.tf0.tvNsec + maxfreq) - (c.k.pps.tf0.tvNsec - maxfreq) :=
    spread_le ⟨by linarith, by linarith⟩ ⟨by linarith, by linarith⟩ ⟨by linarith, by linarith⟩
  linarith

omit [LawfulLFp F] in
theorem isPulse_iff {e : Event} : IsPulse e ↔ ∃ tsp nsec, e = .hardpps tsp nsec := by
  cases e with
  | hardpps tsp nsec => exact iff_of_true trivial ⟨tsp, nsec, rfl⟩
  | _ => exact iff_of_false id fun ⟨_, _, h⟩ => Event.noConfusion h

theorem ne_of_not_isPulse {e : Event} (h : ¬ IsPulse e) (tsp : Timespec) (nsec : ℤ) :
    e ≠ .hardpps tsp nsec :=
  fun heq => h (isPulse_iff.mpr ⟨tsp, nsec, heq⟩)

omit [LFp F] [LawfulLFp F] in
theorem isPulse_of_spike {e : Event} (h : Spike cfg c e) : IsPulse e := by
  cases e with
  | hardpps tsp nsec => trivial
  | _ => exact h

/-- A steady pulse leaves a gated pair, and the other calls keep it. -/
theorem step_gatedPair {e : Event} (hrange : FilterRange c.k.pps)
    (hadm : c.Admissible cfg e) (h : SteadyPulse cfg u c e) (hpair : ¬ IsPulse e → GatedPair c) :
    GatedPair (c.step cfg e) := by
  by_cases hpulse : IsPulse e
  · obtain ⟨tsp, nsec, rfl⟩ := isPulse_iff.mp hpulse
    have htsp : PulseRange (pulseOffset tsp) := pulseRange_pulseOffset hadm.2.1 hadm.2.2
    obtain ⟨h0, h1, -⟩ := (hardpps_phaseFiltered cfg hrange htsp nsec).1.stored h.1.1
    show |(hardpps cfg c.k tsp nsec).pps.tf0.tvNsec - (hardpps cfg c.k tsp nsec).pps.tf1.tvNsec|
      ≤ maxfreq
    rw [h0, h1]
    exact abs_pulse_sub_le hrange htsp h.1
  · unfold GatedPair
    rw [step_pps cfg c (ne_of_not_isPulse hpulse)]
    exact hpair hpulse

/-! ## Infinite runs -/

section Trace

variable {c₀ : Clock F} {es : ℕ → Event}

theorem trace_filterRange (hstart : FilterRange c₀.k.pps)
    (hadm : ∀ n, (trace (step cfg) c₀ es n).Admissible cfg (es n)) (n : ℕ) :
    FilterRange (trace (step cfg) c₀ es n).k.pps :=
  trace_invariant (I := fun c : Clock F => FilterRange c.k.pps)
    (fun _ _ hrange hadm => (step_stages hrange hadm).1) hstart hadm n

/-- The jitter has been averaged once for each pulse. -/
theorem trace_jitter (hstart : FilterRange c₀.k.pps)
    (hadm : ∀ n, (trace (step cfg) c₀ es n).Admissible cfg (es n))
    (hsteady : ∀ n, SteadyPulse cfg u (trace (step cfg) c₀ es n) (es n)) (n : ℕ) :
    (trace (step cfg) c₀ es n).k.pps.jitter
      = (toward 4 u)^[Nat.count (fun i => IsPulse (es i)) n] c₀.k.pps.jitter := by
  have hrange := trace_filterRange hstart hadm
  refine trace_iterate (V := fun c : Clock F => c.k.pps.jitter) ?_ ?_ n
  · intro n hpulse
    obtain ⟨tsp, nsec, heq⟩ := isPulse_iff.mp hpulse
    have hjitter := step_jitter (hrange n) (heq ▸ hadm n) (heq ▸ hsteady n)
    rw [← heq] at hjitter
    exact hjitter
  · intro n hpulse
    show ((trace (step cfg) c₀ es n).step cfg (es n)).k.pps.jitter = _
    rw [step_pps cfg _ (ne_of_not_isPulse hpulse)]

/-- The gates bound the spread of a signal that keeps arriving. -/
theorem spread_bounds (hstart : FilterRange c₀.k.pps)
    (hadm : ∀ n, (trace (step cfg) c₀ es n).Admissible cfg (es n))
    (hsteady : ∀ n, SteadyPulse cfg u (trace (step cfg) c₀ es n) (es n))
    (hpulses : ∀ N, ∃ n ≥ N, IsPulse (es n)) : 0 ≤ u ∧ u ≤ 2 * maxfreq := by
  have hrange := trace_filterRange hstart hadm
  obtain ⟨n, -, hn⟩ := hpulses 0
  obtain ⟨m, hm, hpulse⟩ := hpulses (n + 1)
  -- one pulse pairs its sample with the last, and the pair lasts until the next one
  have hfirst : GatedPair (trace (step cfg) c₀ es (n + 1)) :=
    step_gatedPair (hrange n) (hadm n) (hsteady n) fun hnot => absurd hn hnot
  have hstep : ∀ (c : Clock F) e, FilterRange c.k.pps ∧ GatedPair c →
      c.Admissible cfg e ∧ SteadyPulse cfg u c e →
      FilterRange (c.step cfg e).k.pps ∧ GatedPair (c.step cfg e) := by
    rintro c e ⟨hrange, hpair⟩ ⟨hadm, hsteady⟩
    exact ⟨(step_stages hrange hadm).1, step_gatedPair hrange hadm hsteady fun _ => hpair⟩
  obtain ⟨-, hpair⟩ := trace_invariant_from hstep ⟨hrange (n + 1), hfirst⟩
    (fun m => ⟨hadm m, hsteady m⟩) hm
  obtain ⟨tsp, nsec, heq⟩ := isPulse_iff.mp hpulse
  have hpulse' := heq ▸ hsteady m
  have htime := heq ▸ hadm m
  constructor
  · rw [← hpulse'.2]
    exact spread_nonneg _ _ _
  · exact spread_le_of_gatedPair (hrange m) hpair (pulseRange_pulseOffset htime.2.1 htime.2.2)
      hpulse'

end Trace

/-! ## Alternating pulses -/

/-- A pulse a second, on time and `a` nanoseconds late by turns. -/
def alternating (a : ℤ) (n : ℕ) : Event := .hardpps ⟨n + 1, a * ((n + 1) % 2)⟩ 0

/-- After `n` alternating pulses. -/
structure Alternated (a : ℤ) (n : ℕ) (c : Clock LFp32) : Prop where
  range : FilterRange c.k.pps
  tf0 : c.k.pps.tf0 = ⟨n, a * (n % 2)⟩
  tf1 : c.k.pps.tf1.tvNsec = 0 ∨ c.k.pps.tf1.tvNsec = a

section Alternating

variable {a : ℤ} {n : ℕ} {c : Clock LFp32}

theorem mul_mod_two (a : ℤ) (n : ℕ) :
    a * (n % 2) = 0 ∧ a * ((n + 1) % 2) = a ∨ a * (n % 2) = a ∧ a * ((n + 1) % 2) = 0 := by
  rcases Int.emod_two_eq_zero_or_one n with heven | hodd
  · have hnext : ((n : ℤ) + 1) % 2 = 1 := by omega
    rw [heven, hnext, mul_zero, mul_one]
    exact Or.inl ⟨rfl, rfl⟩
  · have hnext : ((n : ℤ) + 1) % 2 = 0 := by omega
    rw [hodd, hnext, mul_zero, mul_one]
    exact Or.inr ⟨rfl, rfl⟩

theorem admissible_alternating (ha : 0 ≤ a ∧ a ≤ maxfreq) :
    c.Admissible ppsConfig (alternating a n) := by
  have hlt : a < nanosecond := lt_of_le_of_lt ha.2 (by decide)
  refine ⟨rfl, ?_⟩
  rcases mul_mod_two a n with ⟨-, hnext⟩ | ⟨-, hnext⟩
  · rw [hnext]
    exact ⟨ha.1, hlt⟩
  · rw [hnext]
    exact ⟨le_refl 0, (by decide : (0 : ℤ) < nanosecond)⟩

/-- A pulse that is not half a second late. -/
theorem pulseOffset_alternating (ha : 0 ≤ a ∧ a ≤ maxfreq) :
    pulseOffset ⟨n + 1, a * ((n + 1) % 2)⟩ = ⟨n + 1, a * ((n + 1) % 2)⟩ := by
  refine if_neg ?_
  have hlt : a < nanosecond / 2 := lt_of_le_of_lt ha.2 (by decide)
  rcases mul_mod_two a n with ⟨-, hnext⟩ | ⟨-, hnext⟩
  · rw [hnext]
    exact not_le.mpr hlt
  · rw [hnext]
    exact not_le.mpr (by decide : (0 : ℤ) < nanosecond / 2)

theorem Alternated.filtered (ha : 0 ≤ a ∧ a ≤ maxfreq) (h : Alternated a n c) :
    (pulseFate ppsConfig c.k ⟨n + 1, a * ((n + 1) % 2)⟩).Filtered := by
  have hgap : -maxfreq ≤ a * ((n + 1) % 2) - a * (n % 2) ∧
      a * ((n + 1) % 2) - a * (n % 2) ≤ maxfreq := by
    rcases mul_mod_two a n with ⟨hlast, hnext⟩ | ⟨hlast, hnext⟩
    · rw [hlast, hnext]
      omega
    · rw [hlast, hnext]
      omega
  have hlong : ppsConfig.long (a * ((n + 1) % 2) - a * (n % 2))
      = a * ((n + 1) % 2) - a * (n % 2) := by
    unfold maxfreq at hgap
    exact ppsConfig.long_of_fits ⟨by omega, by omega⟩
  have hnext : ¬ ((n : ℤ) + 1 = n ∧
      a * ((n + 1) % 2) - a * (n % 2) < nanosecond - maxfreq) := by
    rintro ⟨hsec, -⟩
    omega
  have hgate : ¬ (a * ((n + 1) % 2) - a * (n % 2) > maxfreq ∨
      a * ((n + 1) % 2) - a * (n % 2) < -maxfreq) := by
    rintro (hgt | hlt)
    · exact not_lt.mpr hgap.2 hgt
    · exact not_lt.mpr hgap.1 hlt
  unfold pulseFate
  rw [pulseOffset_alternating ha, h.tf0]
  dsimp only
  rw [hlong, if_neg hnext, if_neg hgate]
  split_ifs
  · exact ⟨nofun, nofun⟩
  · exact ⟨nofun, nofun⟩
  · exact ⟨nofun, nofun⟩

/-- Two samples out of three differ by `a`. -/
theorem Alternated.steady (ha : 0 ≤ a ∧ a ≤ maxfreq) (h : Alternated a n c) :
    SteadyPulse ppsConfig a c (alternating a n) := by
  refine ⟨h.filtered ha, ?_⟩
  rw [pulseOffset_alternating ha, h.tf0]
  dsimp only
  unfold Median.spread
  rcases mul_mod_two a n with ⟨hlast, hnext⟩ | ⟨hlast, hnext⟩
  · rw [hlast, hnext]
    rcases h.tf1 with h1 | h1
    · rw [h1]
      omega
    · rw [h1]
      omega
  · rw [hlast, hnext]
    rcases h.tf1 with h1 | h1
    · rw [h1]
      omega
    · rw [h1]
      omega

theorem Alternated.step (ha : 0 ≤ a ∧ a ≤ maxfreq) (h : Alternated a n c) :
    Alternated a (n + 1) (c.step ppsConfig (alternating a n)) := by
  have hadm : c.Admissible ppsConfig (alternating a n) := admissible_alternating ha
  have htsp : PulseRange (pulseOffset ⟨n + 1, a * ((n + 1) % 2)⟩) :=
    pulseRange_pulseOffset hadm.2.1 hadm.2.2
  obtain ⟨hfilter, hrange⟩ := hardpps_phaseFiltered ppsConfig h.range htsp 0
  obtain ⟨h0, h1, -⟩ := hfilter.stored (h.filtered ha).1
  refine ⟨hrange, ?_, ?_⟩
  · rw [pulseOffset_alternating ha] at h0
    push_cast
    exact h0
  · show (hardpps ppsConfig c.k ⟨n + 1, a * ((n + 1) % 2)⟩ 0).pps.tf1.tvNsec = 0 ∨
      (hardpps ppsConfig c.k ⟨n + 1, a * ((n + 1) % 2)⟩ 0).pps.tf1.tvNsec = a
    rw [h1, h.tf0]
    rcases mul_mod_two a n with ⟨hlast, -⟩ | ⟨hlast, -⟩
    · exact Or.inl hlast
    · exact Or.inr hlast

/-- The signal from boot on. -/
theorem alternated_trace (ha : 0 ≤ a ∧ a ≤ maxfreq) (n : ℕ) :
    Alternated a n
      (trace (Clock.step ppsConfig) ⟨Kernel.boot ppsConfig, ⟨0, 0⟩⟩ (alternating a) n) := by
  induction n with
  | zero =>
    have hboot : Boots ppsConfig (⟨Kernel.boot ppsConfig, ⟨0, 0⟩⟩ : Clock LFp32) := rfl
    refine ⟨(filter_of_boots hboot).1, ?_, Or.inl rfl⟩
    rw [Nat.cast_zero, Int.zero_emod, mul_zero]
    rfl
  | succ n ih => exact ih.step ha

end Alternating

/-! ## Reopening -/

/-- The average comes to rest where four times it is below the spread only if it started
at zero under a spread of 1 to 3 ns. -/
theorem four_limit_lt_iff {j : ℤ} (hj : 0 ≤ j) (hu : 0 ≤ u) :
    4 * limit 4 u j < u ↔ j = 0 ∧ 1 ≤ u ∧ u ≤ 3 := by
  unfold limit
  constructor
  · intro hlt
    omega
  · rintro ⟨rfl, hlo, hhi⟩
    omega

/-- From every reachable state, and for every steady signal that keeps arriving, among
other events in any order: from some event on no pulse is suppressed any more, unless the
jitter is zero to begin with and the spread 1 to 3 ns. -/
theorem reopens_iff (cfg : Config) (c₀ : Clock F) (hreach : c₀.Reachable cfg)
    (es : ℕ → Event) (u : ℤ) (hadm : ∀ n, (trace (step cfg) c₀ es n).Admissible cfg (es n))
    (hsteady : ∀ n, SteadyPulse cfg u (trace (step cfg) c₀ es n) (es n))
    (hpulses : ∀ N, ∃ n ≥ N, IsPulse (es n)) :
    (∃ N, ∀ n ≥ N, ¬ Spike cfg (trace (step cfg) c₀ es n) (es n)) ↔
      ¬ (c₀.k.pps.jitter = 0 ∧ 1 ≤ u ∧ u ≤ 3) := by
  have hstart : FilterRange c₀.k.pps := filterRange_of_reachable hreach
  have hjitter := trace_jitter hstart hadm hsteady
  obtain ⟨hlo, hhi⟩ := spread_bounds hstart hadm hsteady hpulses
  obtain ⟨hlimlo, hlimhi⟩ := limit_bounds (m := 4) (by decide) u c₀.k.pps.jitter
  have hrest := four_limit_lt_iff hstart.jitter.1 hlo
  obtain ⟨M, hM⟩ := exists_iterate_toward (m := 4) (by decide) u c₀.k.pps.jitter
  -- at rest the shifted jitter is exact
  have hlong : cfg.long (limit 4 u c₀.k.pps.jitter <<< ppsPopcorn.toNat)
      = 4 * limit 4 u c₀.k.pps.jitter := by
    have hshift : limit 4 u c₀.k.pps.jitter <<< ppsPopcorn.toNat
        = limit 4 u c₀.k.pps.jitter * 4 := Int.shiftLeft_eq _ _
    unfold maxfreq at hhi
    rw [hshift, mul_comm]
    exact cfg.long_of_fits ⟨by omega, by omega⟩
  -- from the M-th pulse on, the average is at rest
  obtain ⟨N, hN⟩ := exists_le_count hpulses M
  have htest : ∀ n ≥ N, IsPulse (es n) →
      (Spike cfg (trace (step cfg) c₀ es n) (es n) ↔ 4 * limit 4 u c₀.k.pps.jitter < u) := by
    intro n hn hpulse
    obtain ⟨tsp, nsec, heq⟩ := isPulse_iff.mp hpulse
    have hspike := spike_iff (heq ▸ hsteady n)
    rw [hjitter n, hM _ (hN.trans (Nat.count_monotone _ hn)), hlong] at hspike
    rw [heq]
    exact hspike
  rw [← hrest, not_lt]
  constructor
  · rintro ⟨N', hopen⟩
    obtain ⟨n, hn, hpulse⟩ := hpulses (max N N')
    have hnot := hopen n (le_of_max_le_right hn)
    rw [htest n (le_of_max_le_left hn) hpulse] at hnot
    exact not_lt.mp hnot
  · intro hle
    refine ⟨N, fun n hn => ?_⟩
    by_cases hpulse : IsPulse (es n)
    · rw [htest n hn hpulse]
      exact not_lt.mpr hle
    · exact fun hspike => hpulse (isPulse_of_spike hspike)

/-- A signal that alternates by 4 ns is let through. -/
theorem reopens_iff_alternating :
    (∃ N, ∀ n ≥ N, ¬ Spike ppsConfig
        (trace (step ppsConfig) (⟨Kernel.boot ppsConfig, ⟨0, 0⟩⟩ : Clock LFp32)
          (alternating 4) n) (alternating 4 n)) ↔
      ¬ ((⟨Kernel.boot ppsConfig, ⟨0, 0⟩⟩ : Clock LFp32).k.pps.jitter = 0 ∧
        1 ≤ (4 : ℤ) ∧ (4 : ℤ) ≤ 3) :=
  reopens_iff ppsConfig ⟨Kernel.boot ppsConfig, ⟨0, 0⟩⟩
    ⟨⟨Kernel.boot ppsConfig, ⟨0, 0⟩⟩, [], rfl, trivial, rfl⟩ (alternating 4) 4
    (fun _ => admissible_alternating (by decide))
    (fun n => (alternated_trace (by decide) n).steady (by decide))
    (fun N => ⟨N, le_refl N, trivial⟩)

/-- One that alternates by 1 ns is suppressed from boot on: the average stays zero. -/
theorem not_reopens : ¬ ∀ (cfg : Config) (c₀ : Clock LFp32), c₀.Reachable cfg →
    ∀ (es : ℕ → Event) (u : ℤ), (∀ n, (trace (step cfg) c₀ es n).Admissible cfg (es n)) →
    (∀ n, SteadyPulse cfg u (trace (step cfg) c₀ es n) (es n)) →
    (∀ N, ∃ n ≥ N, IsPulse (es n)) →
    ∃ N, ∀ n ≥ N, ¬ Spike cfg (trace (step cfg) c₀ es n) (es n) := by
  intro h
  let c₀ : Clock LFp32 := ⟨Kernel.boot ppsConfig, ⟨0, 0⟩⟩
  have hboot : Boots ppsConfig c₀ := rfl
  have hreach : c₀.Reachable ppsConfig := ⟨c₀, [], rfl, trivial, rfl⟩
  have hadm : ∀ n, (trace (step ppsConfig) c₀ (alternating 1) n).Admissible ppsConfig
      (alternating 1 n) := fun _ => admissible_alternating (by decide)
  have hsteady : ∀ n, SteadyPulse ppsConfig 1 (trace (step ppsConfig) c₀ (alternating 1) n)
      (alternating 1 n) := fun n => (alternated_trace (by decide) n).steady (by decide)
  obtain ⟨N, hopen⟩ := h ppsConfig c₀ hreach (alternating 1) 1 hadm hsteady
    fun N => ⟨N, le_refl N, trivial⟩
  have hstuck : toward 4 1 c₀.k.pps.jitter = c₀.k.pps.jitter := by decide
  have hjitter := trace_jitter (filter_of_boots hboot).1 hadm hsteady N
  rw [Function.iterate_fixed hstuck] at hjitter
  refine hopen N (le_refl N) ((spike_iff (hsteady N)).mpr ?_)
  rw [hjitter]
  decide

end Nanokernel.Clock
