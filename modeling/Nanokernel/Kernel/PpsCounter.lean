import Nanokernel.Foundation.Run
import Nanokernel.Kernel.CalibrationInterval

/-!
# The counter at the pulses

`hardpps` is passed the reading of a counter that runs freely modulo one second and is
advanced in ticks, so that a reading may be a tick off. From two readings the code
resolves what the counter gained on the second, and adds it to `pps_fcount`. `PpsCounter`
is the counter behind the readings.
-/

namespace Nanokernel

open Run

/-! ## The resolver -/

/-- One correction of `hardpps`: a difference that is beyond half of `m` is `m` off. -/
def recentre (m y : ℤ) : ℤ :=
  if y > m / 2 then y - m else if y < -(m / 2) then y + m else y

theorem counterDiff_eq (cfg : Config) (timeTick lastcount nsec : ℤ) :
    counterDiff cfg timeTick lastcount nsec
      = recentre timeTick (recentre nanosecond (cfg.long (nsec - lastcount))) := rfl

/-- What is less than half of `m` is found again from one turn away. -/
theorem recentre_eq {m u y k : ℤ} (hu : 2 * |u| < m) (hk : |k| ≤ 1) (hy : y = u + k * m) :
    recentre m y = u := by
  have hlo := neg_abs_le u
  have hhi := le_abs_self u
  have hturn : k = -1 ∨ k = 0 ∨ k = 1 := by
    have hk' := abs_le.mp hk
    omega
  unfold recentre
  rcases hturn with rfl | rfl | rfl <;> split_ifs <;> omega

/-- A counter that is read at the pulses: its ideal values, and the readings that were
taken after the tick was processed. -/
structure PpsCounter where
  ideal : ℕ → ℤ
  crossed : ℕ → Bool

namespace PpsCounter

variable (p : PpsCounter) (timeTick : ℤ)

def tickError (i : ℕ) : ℤ := if p.crossed i then timeTick else 0

/-- The reading at pulse `i`. -/
def reading (i : ℕ) : ℤ := (p.ideal i + p.tickError timeTick i) % nanosecond

/-- What the counter gains on a second from the pulse before to pulse `i`. -/
def drift (i : ℕ) : ℤ := p.ideal i - p.ideal (i - 1) - nanosecond

/-- It gains or loses less than half a tick. -/
def Steady : Prop := ∀ i, 1 ≤ i → 2 * |p.drift i| < timeTick

theorem reading_bounds (i : ℕ) :
    0 ≤ p.reading timeTick i ∧ p.reading timeTick i < nanosecond :=
  ⟨Int.emod_nonneg _ (by decide), Int.emod_lt_of_pos _ (by decide)⟩

theorem tickError_cases (i : ℕ) :
    p.tickError timeTick i = 0 ∨ p.tickError timeTick i = timeTick := by
  unfold tickError
  split_ifs
  · exact Or.inr rfl
  · exact Or.inl rfl

variable {p timeTick}

/-- The resolver finds the drift, whatever wrapped and whichever ticks were crossed. -/
theorem counterDiff_reading (cfg : Config) (htick : 4 * timeTick ≤ nanosecond)
    (hp : p.Steady timeTick) {i : ℕ} (hi : 1 ≤ i) :
    counterDiff cfg timeTick (p.reading timeTick (i - 1)) (p.reading timeTick i) = p.drift i := by
  have hdrift := hp i hi
  obtain ⟨hlo, hhi⟩ := p.reading_bounds timeTick i
  obtain ⟨hlo', hhi'⟩ := p.reading_bounds timeTick (i - 1)
  have hlong : cfg.long (p.reading timeTick i - p.reading timeTick (i - 1))
      = p.reading timeTick i - p.reading timeTick (i - 1) := by
    unfold nanosecond at hhi hhi'
    exact cfg.long_of_fits ⟨by omega, by omega⟩
  -- the two errors are at most a tick apart
  obtain ⟨j, hj, herror⟩ : ∃ j : ℤ, |j| ≤ 1 ∧
      p.tickError timeTick i - p.tickError timeTick (i - 1) = j * timeTick := by
    rcases p.tickError_cases timeTick i with h | h <;>
      rcases p.tickError_cases timeTick (i - 1) with h' | h' <;> rw [h, h']
    · exact ⟨0, by decide, by ring⟩
    · exact ⟨-1, by decide, by ring⟩
    · exact ⟨1, by decide, by ring⟩
    · exact ⟨0, by decide, by ring⟩
  -- the difference of the readings is whole seconds away from the drift and the errors
  obtain ⟨k, hk⟩ : ∃ k : ℤ, p.reading timeTick i - p.reading timeTick (i - 1)
      = p.drift i + j * timeTick + k * nanosecond := by
    refine ⟨1 + (p.ideal (i - 1) + p.tickError timeTick (i - 1)) / nanosecond
      - (p.ideal i + p.tickError timeTick i) / nanosecond, ?_⟩
    unfold reading drift
    rw [← herror, Int.emod_def, Int.emod_def]
    ring
  have htick0 : 0 < timeTick := lt_of_le_of_lt (mul_nonneg (by decide) (abs_nonneg _)) hdrift
  have hnear : 2 * |p.drift i + j * timeTick| < nanosecond := by
    have hadd := abs_add_le (p.drift i) (j * timeTick)
    have hcross : |j * timeTick| ≤ timeTick := by
      rw [abs_mul, abs_of_pos htick0]
      exact mul_le_of_le_one_left htick0.le hj
    omega
  have hturn : |k| ≤ 1 := by
    obtain ⟨hnlo, hnhi⟩ := abs_le.mp (le_refl |p.drift i + j * timeTick|)
    unfold nanosecond at *
    exact abs_le.mpr ⟨by omega, by omega⟩
  rw [counterDiff_eq, hlong, recentre_eq hnear hturn hk, recentre_eq hdrift hj rfl]

end PpsCounter

/-! ## What a pulse adds -/

section Pulse

variable {F : Type} [LFp F] (cfg : Config) (k : Kernel F)

/-- The interval is running until its length is up. -/
theorem calibration_eq_running_iff {pps : Pps F} : pps.calibration cfg = .running ↔
    cfg.long (pps.tf0.tvSec - pps.lastsec) < 1 <<< pps.shift.toNat := by
  unfold Pps.calibration
  dsimp only
  by_cases h : cfg.long (pps.tf0.tvSec - pps.lastsec) < 1 <<< pps.shift.toNat
  · rw [if_pos h]
    exact iff_of_true rfl h
  · rw [if_neg h]
    exact iff_of_false (by split_ifs <;> nofun) h

/-- The end of an interval clears the count. -/
theorem ppsCalibrate_fcount : (ppsCalibrate cfg k).pps.fcount =
    if k.pps.calibration cfg = .running then k.pps.fcount else 0 := by
  simp only [calibration_eq_running_iff]
  unfold ppsCalibrate
  dsimp only
  split_ifs
  · rfl
  · rfl
  · rw [ppsFrequencyUpdate_pps]

/-- The count and the last reading after a call. -/
theorem hardpps_counter (tsp : Timespec) (nsec : ℤ) :
    ((hardpps cfg k tsp nsec).pps.fcount, (hardpps cfg k tsp nsec).pps.lastcount) =
      if pulseFate cfg k tsp = .sameSecond then (k.pps.fcount, k.pps.lastcount)
      else if calibrationFate cfg k tsp nsec = .running then
        ((storePulse cfg k tsp nsec).pps.fcount, nsec)
      else (0, nsec) := by
  by_cases hsame : pulseFate cfg k tsp = .sameSecond
  · rw [if_pos hsame, hardpps_of_sameSecond nsec hsame]
    rfl
  · rw [if_neg hsame]
    by_cases hgated : pulseFate cfg k tsp = .gated
    · have hrunning : calibrationFate cfg k tsp nsec = .running := if_neg fun h => h.2 hgated
      rw [hardpps_of_gated nsec hgated, if_pos hrunning]
      rfl
    · have hfiltered : (pulseFate cfg k tsp).Filtered := ⟨hsame, hgated⟩
      have hfate : calibrationFate cfg k tsp nsec
          = (ppsPhase cfg (storePulse cfg k tsp nsec)).pps.calibration cfg :=
        (if_pos hfiltered).trans (ppsPhase_calibration cfg _).2.symm
      have hlast : (hardpps cfg k tsp nsec).pps.lastcount = nsec := by
        rw [hardpps_of_filtered nsec hfiltered, ppsCalibrate_pps, ppsPhase_pps]
        rfl
      have hfcount : (ppsPhase cfg (storePulse cfg k tsp nsec)).pps.fcount
          = (storePulse cfg k tsp nsec).pps.fcount := by
        rw [ppsPhase_pps]
      rw [hlast, hfate, hardpps_of_filtered nsec hfiltered, ppsCalibrate_fcount, hfcount]
      split_ifs <;> rfl

omit [LFp F] in
/-- A pulse that is stored adds what the resolver finds, as far as `long` holds the sum. -/
theorem storePulse_fcount (tsp : Timespec) (nsec : ℤ) :
    (storePulse cfg k tsp nsec).pps.fcount = cfg.long
      (k.pps.fcount + counterDiff cfg (nanosecond.tdiv cfg.hz) k.pps.lastcount nsec) := rfl

end Pulse

/-! ## Runs -/

namespace Clock

variable {F : Type} [LFp F] {cfg : Config} {p : PpsCounter}

/-- How many pulses were stored, and the sum of the drifts since the count was read off. -/
structure Tally where
  pulses : ℕ
  sum : Option ℤ
deriving DecidableEq, Repr

def Tally.start : Tally := ⟨0, none⟩

def tally (cfg : Config) (p : PpsCounter) (t : Tally) (c : Clock F) : Event → Tally
  | .hardpps tsp nsec =>
    if pulseFate cfg c.k tsp = .sameSecond then t
    else
      { pulses := t.pulses + 1
        sum :=
          if calibrationFate cfg c.k tsp nsec = .running then t.sum.map (· + p.drift t.pulses)
          else some 0 }
  | _ => t

/-- The readings of the pulses that are stored are those of the counter. -/
def ReadsCounter (cfg : Config) (p : PpsCounter) (w : Clock F × Tally) : Event → Prop
  | .hardpps tsp nsec => w.1.Admissible cfg (.hardpps tsp nsec) ∧
      (pulseFate cfg w.1.k tsp ≠ .sameSecond →
        nsec = p.reading (nanosecond.tdiv cfg.hz) w.2.pulses)
  | _ => True

instance (cfg : Config) (p : PpsCounter) (w : Clock F × Tally) :
    (e : Event) → Decidable (ReadsCounter cfg p w e)
  | .hardpps _ _ => inferInstanceAs (Decidable (_ ∧ (_ → _)))
  | .tick | .adjtime _ | .hardupdate _ => inferInstanceAs (Decidable True)

/-- A pulse that is stored, after another one, adds the drift since that one; the count is
the sum of the drifts since it was read off. -/
def CountsDrift (cfg : Config) (p : PpsCounter) (w : Clock F × Tally) : Event → Prop
  | .hardpps tsp nsec => pulseFate cfg w.1.k tsp ≠ .sameSecond → 1 ≤ w.2.pulses →
      (storePulse cfg w.1.k tsp nsec).pps.fcount = w.1.k.pps.fcount + p.drift w.2.pulses ∧
        ∀ s ∈ w.2.sum, (storePulse cfg w.1.k tsp nsec).pps.fcount = s + p.drift w.2.pulses
  | _ => True

/-- A `long` holds the count once the drift is added. -/
def CountFits (cfg : Config) (p : PpsCounter) (w : Clock F × Tally) : Event → Prop
  | .hardpps tsp _ => pulseFate cfg w.1.k tsp ≠ .sameSecond → 1 ≤ w.2.pulses →
      cfg.Fits (w.1.k.pps.fcount + p.drift w.2.pulses)
  | _ => True

instance (cfg : Config) (p : PpsCounter) (w : Clock F × Tally) :
    (e : Event) → Decidable (CountFits cfg p w e)
  | .hardpps _ _ => inferInstanceAs (Decidable (_ → _ → _))
  | .tick | .adjtime _ | .hardupdate _ => inferInstanceAs (Decidable True)

/-- What the tally says about the state. -/
structure Tallied (cfg : Config) (p : PpsCounter) (w : Clock F × Tally) : Prop where
  reading : 1 ≤ w.2.pulses →
    w.1.k.pps.lastcount = p.reading (nanosecond.tdiv cfg.hz) (w.2.pulses - 1)
  sum : ∀ s ∈ w.2.sum, 1 ≤ w.2.pulses ∧ w.1.k.pps.fcount = s

section Step

variable {w : Clock F × Tally} {e : Event} (htick : 4 * nanosecond.tdiv cfg.hz ≤ nanosecond)
  (hp : p.Steady (nanosecond.tdiv cfg.hz))
include htick hp

omit [LFp F] in
/-- What a pulse with another one before it leaves in the count. -/
theorem Tallied.fcount (h : Tallied cfg p w) {tsp : Timespec} {nsec : ℤ}
    (he : ReadsCounter cfg p w (.hardpps tsp nsec))
    (hstored : pulseFate cfg w.1.k tsp ≠ .sameSecond)
    (hpulses : 1 ≤ w.2.pulses) : (storePulse cfg w.1.k tsp nsec).pps.fcount
      = cfg.long (w.1.k.pps.fcount + p.drift w.2.pulses) := by
  rw [storePulse_fcount, h.reading hpulses, he.2 hstored,
    PpsCounter.counterDiff_reading cfg htick hp hpulses]

omit [LFp F] in
/-- The count is exact as long as it fits. -/
theorem Tallied.countsDrift_iff (h : Tallied cfg p w) (he : ReadsCounter cfg p w e) :
    CountsDrift cfg p w e ↔ CountFits cfg p w e := by
  cases e with
  | tick | adjtime | hardupdate => exact Iff.rfl
  | hardpps tsp nsec =>
    refine forall_congr' fun hstored => forall_congr' fun hpulses => ?_
    rw [h.fcount htick hp he hstored hpulses, cfg.long_eq_iff]
    refine and_iff_left_of_imp fun hfits s hs => ?_
    rw [cfg.long_eq_iff.mpr hfits, (h.sum s hs).2]

omit [LFp F] htick hp in
/-- What leaves the count and the last reading alone leaves the tally right. -/
theorem Tallied.congr (h : Tallied cfg p w) {c : Clock F}
    (hlast : c.k.pps.lastcount = w.1.k.pps.lastcount)
    (hfcount : c.k.pps.fcount = w.1.k.pps.fcount) : Tallied cfg p (c, w.2) :=
  ⟨fun hpulses => hlast.trans (h.reading hpulses),
    fun s hs => ⟨(h.sum s hs).1, hfcount.trans (h.sum s hs).2⟩⟩

/-- A pulse that is stored adds its drift, and the end of an interval starts over. -/
theorem Tallied.stored (h : Tallied cfg p w) {tsp : Timespec} {nsec : ℤ}
    (he : ReadsCounter cfg p w (.hardpps tsp nsec)) (hfits : CountFits cfg p w (.hardpps tsp nsec))
    (hstored : pulseFate cfg w.1.k tsp ≠ .sameSecond) :
    Tallied cfg p (w.1.step cfg (.hardpps tsp nsec),
      ⟨w.2.pulses + 1, if calibrationFate cfg w.1.k tsp nsec = .running then
        w.2.sum.map (· + p.drift w.2.pulses) else some 0⟩) := by
  have hcounter := hardpps_counter cfg w.1.k tsp nsec
  rw [if_neg hstored] at hcounter
  constructor
  · intro _
    have hlast := congrArg Prod.snd hcounter
    rw [apply_ite Prod.snd, ite_self] at hlast
    exact hlast.trans (he.2 hstored)
  · dsimp only
    intro s hs
    refine ⟨Nat.le_add_left 1 _, ?_⟩
    by_cases hrunning : calibrationFate cfg w.1.k tsp nsec = .running
    · rw [if_pos hrunning] at hcounter hs
      obtain ⟨s₀, hs₀, rfl⟩ := Option.mem_map.mp hs
      obtain ⟨hpulses, hfcount⟩ := h.sum s₀ hs₀
      refine (congrArg Prod.fst hcounter).trans ?_
      rw [h.fcount htick hp he hstored hpulses, cfg.long_eq_iff.mpr (hfits hstored hpulses),
        hfcount]
    · rw [if_neg hrunning] at hcounter hs
      cases hs
      exact congrArg Prod.fst hcounter

theorem Tallied.step (h : Tallied cfg p w) (he : ReadsCounter cfg p w e)
    (hfits : CountFits cfg p w e) :
    Tallied cfg p (watch (step cfg) (tally cfg p) w e) := by
  by_cases hpulse : ∃ tsp nsec, e = .hardpps tsp nsec
  · obtain ⟨tsp, nsec, rfl⟩ := hpulse
    by_cases hsame : pulseFate cfg w.1.k tsp = .sameSecond
    · have htally : tally cfg p w.2 w.1 (.hardpps tsp nsec) = w.2 := if_pos hsame
      have hcounter := hardpps_counter cfg w.1.k tsp nsec
      rw [if_pos hsame] at hcounter
      unfold watch
      rw [htally]
      exact h.congr (congrArg Prod.snd hcounter) (congrArg Prod.fst hcounter)
    · have htally : tally cfg p w.2 w.1 (.hardpps tsp nsec) =
          ⟨w.2.pulses + 1, if calibrationFate cfg w.1.k tsp nsec = .running then
            w.2.sum.map (· + p.drift w.2.pulses) else some 0⟩ := if_neg hsame
      unfold watch
      rw [htally]
      exact h.stored htick hp he hfits hsame
  · have hpps := step_pps cfg w.1 fun tsp nsec heq => hpulse ⟨tsp, nsec, heq⟩
    have htally : tally cfg p w.2 w.1 e = w.2 := by
      cases e with
      | hardpps tsp nsec => exact absurd ⟨tsp, nsec, rfl⟩ hpulse
      | _ => rfl
    unfold watch
    rw [htally]
    refine h.congr ?_ ?_
    · rw [hpps]
    · rw [hpps]

end Step

/-- In every run, from any state and of any calls in any order: each pulse that is stored
adds the drift since the one before, and the count is the sum of the drifts since it was
read off, exactly as long as a `long` holds the count. -/
theorem counts_drift_iff (cfg : Config) (hhz : 4 ≤ cfg.hz) (p : PpsCounter)
    (hp : p.Steady (nanosecond.tdiv cfg.hz)) (c₀ : Clock F) (es : List Event)
    (hes : Along (watch (step cfg) (tally cfg p)) (ReadsCounter cfg p) (c₀, Tally.start) es) :
    Along (watch (step cfg) (tally cfg p)) (CountsDrift cfg p) (c₀, Tally.start) es ↔
      Along (watch (step cfg) (tally cfg p)) (CountFits cfg p) (c₀, Tally.start) es := by
  have htick : 4 * nanosecond.tdiv cfg.hz ≤ nanosecond := by
    rw [mul_comm]
    exact (SignedWord.tdiv_mul_le (by decide) (by decide) hhz).2
  have hstart : Tallied cfg p (c₀, Tally.start) := ⟨nofun, nofun⟩
  exact along_congr (I := Tallied cfg p) (fun w e h he hfits => h.step htick hp he hfits)
    (fun w e h he => h.countsDrift_iff htick hp he) hstart hes

/-- A 32-bit machine that ticks four times a second. -/
def fourHertz : Config := ⟨.ilp32, true, 4⟩

/-- A counter that loses 70 us on every second; every third reading is taken a tick late. -/
def crossing : PpsCounter where
  ideal i := i * nanosecond - 70000 * i
  crossed i := i % 3 = 1

/-- Pulses at these seconds, with the counter read. -/
def pulsesAt (p : PpsCounter) (secs : List ℤ) : List Event :=
  secs.zipIdx.map fun (sec, i) =>
    .hardpps ⟨sec, 0⟩ (p.reading (nanosecond.tdiv fourHertz.hz) i)

theorem crossing_steady : crossing.Steady (nanosecond.tdiv fourHertz.hz) := by
  intro i hi
  have htick : nanosecond.tdiv fourHertz.hz = 250000000 := by decide
  have hdrift : crossing.drift i = -70000 := by
    unfold PpsCounter.drift crossing nanosecond
    dsimp only
    omega
  rw [htick, hdrift]
  decide

/-- Eight pulses, three of which are read a tick late. -/
theorem counts_drift_iff_crossing :
    Along (watch (step fourHertz) (tally fourHertz crossing)) (CountsDrift fourHertz crossing)
      (⟨(Kernel.boot fourHertz : Kernel LFp64), ⟨0, 0⟩⟩, Tally.start)
      (pulsesAt crossing [4, 5, 6, 7, 8, 9, 10, 11]) :=
  (counts_drift_iff fourHertz (by decide) crossing crossing_steady
    ⟨Kernel.boot fourHertz, ⟨0, 0⟩⟩ _ (by decide +kernel)).mpr (by decide +kernel)

/-- A counter that is exact up to pulse 11 and then gains 120 ms on every second. -/
def gaining : PpsCounter where
  ideal i := i * nanosecond + 120000000 * ((i - 11 : ℕ) : ℤ)
  crossed _ := false

/-- Twelve quiet intervals, after which the interval is 32 s. -/
def lengthening : List ℤ := [4, 8, 12, 16, 24, 32, 40, 48, 64, 80, 96, 112]

theorem gaining_steady : gaining.Steady (nanosecond.tdiv fourHertz.hz) := by
  intro i hi
  have htick : nanosecond.tdiv fourHertz.hz = 250000000 := by decide
  have hdrift : gaining.drift i = 0 ∨ gaining.drift i = 120000000 := by
    unfold PpsCounter.drift gaining nanosecond
    dsimp only
    omega
  rw [htick]
  rcases hdrift with h | h <;> rw [h] <;> decide

/-- Eighteen pulses later in the same interval the count is beyond a 32-bit `long`. -/
theorem not_counts_drift : ¬ ∀ (p : PpsCounter) (c₀ : Clock LFp64) (es : List Event),
    Boots fourHertz c₀ → p.Steady (nanosecond.tdiv fourHertz.hz) →
    Along (watch (step fourHertz) (tally fourHertz p)) (ReadsCounter fourHertz p)
      (c₀, Tally.start) es →
    Along (watch (step fourHertz) (tally fourHertz p)) (CountsDrift fourHertz p)
      (c₀, Tally.start) es := by
  intro h
  have hcounts := h gaining ⟨Kernel.boot fourHertz, ⟨0, 0⟩⟩
    (pulsesAt gaining (lengthening ++ (List.range 18).map fun n => 113 + (n : ℤ))) rfl
    gaining_steady (by decide +kernel)
  rw [along_iff_forall_split] at hcounts
  have hlast := hcounts _ _ [] (List.dropLast_append_getLast (by decide)).symm
  exact absurd (hlast (by decide +kernel) (by decide +kernel)).1 (by decide +kernel)

end Clock

end Nanokernel
