import Nanokernel.Foundation.Decay
import Nanokernel.Kernel.Envelope

/-!
# The amortisation of the offset

Each rollover moves a part of `time_offset` into `time_adj`. The phase gains
what the offset loses, the offset stays on its side of zero, and it stops below
one unit of its shift (`amortises`).
-/

namespace Nanokernel

open BitMask SignedWord Run Decay

variable {F : Type} [LFp F]

/-- The kernel variables after a call of `second_overflow()`. -/
def overflow (cfg : Config) (k : Kernel F) (tvp : Timespec) : Kernel F :=
  (secondOverflow cfg k tvp).1

/-- The call finds a whole second. -/
def RollsOver (_ : Kernel F) (tvp : Timespec) : Prop := nanosecond ≤ tvp.tvNsec

variable [LawfulLFp F]

/-- What the next second gains on a nominal one at this frequency. -/
def amortised (k : Kernel F) : ℤ :=
  val k.timeAdj - nanosecond * 2 ^ 32 - val k.timeFreq

/-- The offset keeps its sign or becomes zero, and does not grow. -/
def NoOvershoot (cfg : Config) (k : Kernel F) (tvp : Timespec) : Prop :=
  (0 ≤ val k.timeOffset → 0 ≤ val (overflow cfg k tvp).timeOffset) ∧
  (val k.timeOffset ≤ 0 → val (overflow cfg k tvp).timeOffset ≤ 0) ∧
  |val (overflow cfg k tvp).timeOffset| ≤ |val k.timeOffset|

/-- Over every run of rollovers the phase gains what the offset loses, without
overshoot, and the offset settles. The gain is exact in the arithmetic of the
`l_fp` at any frequency, and in the integers at any the clamp admits. -/
structure Amortises (cfg : Config) (k : Kernel F) : Prop where
  wrapped : ∀ tvps, Along (overflow cfg) RollsOver k tvps →
    (outputs (overflow cfg)
        (fun k tvp => some ((amortised (overflow cfg k tvp)).bmod (2 ^ 64))) k tvps).sum
      + val (run (overflow cfg) k tvps).timeOffset = val k.timeOffset
  conserved : |lGint k.timeFreq| ≤ maxfreq → ∀ tvps, Along (overflow cfg) RollsOver k tvps →
    (outputs (overflow cfg) (fun k tvp => some (amortised (overflow cfg k tvp))) k tvps).sum
      + val (run (overflow cfg) k tvps).timeOffset = val k.timeOffset
  noOvershoot : ∀ tvps, Along (overflow cfg) RollsOver k tvps →
    Along (overflow cfg) (NoOvershoot cfg) k tvps
  settles : ∃ (n : ℕ) (left : ℤ), |left| < 2 ^ (shiftPll + k.timeConstant).toNat ∧
    ∀ tvps, Along (overflow cfg) RollsOver k tvps → n ≤ tvps.length →
      val (run (overflow cfg) k tvps).timeOffset = left

/-! ## One rollover -/

/-- The time constant `tc` and the frequency stay, the offset is within the
clamp, and PPS does not discipline the time. -/
structure Amortising (cfg : Config) (tc : ℤ) (freq : F) (k : Kernel F) : Prop where
  noPps : (cfg.ppsSync && ppsTime k) = false
  constant : k.timeConstant = tc
  freq : k.timeFreq = freq
  offset : |val k.timeOffset| < (maxphase + 1) * 2 ^ 32

variable {cfg : Config} {tc : ℤ} {freq : F} {k : Kernel F} {tvp : Timespec}

omit [LFp F] [LawfulLFp F] in
/-- The watchdog can only switch the PPS signal off. -/
theorem ppsTime_of_ppsWatchdog (h : ppsTime (ppsWatchdog cfg k) = true) :
    ppsTime k = true := by
  unfold ppsWatchdog at h
  split_ifs at h with hsync hvalid
  · exact h
  · exact h
  · have hclear : has (k.timeStatus &&& ~~~staPpssignal) staPpssignal = false := by
      unfold has
      rw [and_not_and_self]
      rfl
    unfold ppsTime at h
    rw [hclear, Bool.and_false] at h
    exact absurd h Bool.false_ne_true

omit [LawfulLFp F] in
theorem overflow_of_rollsOver (hroll : RollsOver k tvp) :
    overflow cfg k tvp = (rollover cfg k tvp.tvSec).1 := by
  have hge : tvp.tvNsec ≥ nanosecond := hroll
  unfold overflow secondOverflow
  rw [if_pos hge]

/-- Without PPS the shift is that of the time constant. -/
theorem amortShift_eq (hk : Amortising cfg tc freq k) :
    amortShift cfg k = (shiftPll + tc).toNat := by
  unfold amortShift
  rw [hk.noPps, hk.constant]
  rfl

/-- What a rollover does to the offset and to the adjustment. -/
theorem overflow_spec (htc : 0 ≤ tc ∧ tc ≤ maxtc) (hk : Amortising cfg tc freq k)
    (hroll : RollsOver k tvp) :
    val (overflow cfg k tvp).timeOffset = rest (2 ^ (shiftPll + tc).toNat) (val k.timeOffset) ∧
    val (overflow cfg k tvp).timeAdj
      = ((val k.timeOffset).tdiv (2 ^ (shiftPll + tc).toNat) + val freq
        + nanosecond * 2 ^ 32).bmod (2 ^ 64) := by
  have hmin : -2 ^ 63 < val k.timeOffset := by
    have hlt := (abs_lt.mp hk.offset).1
    unfold maxphase at hlt
    omega
  have hshift : 1 ≤ amortShift cfg k ∧ amortShift cfg k < 64 := by
    rw [amortShift_eq hk]
    unfold shiftPll maxtc at *
    omega
  have hspec := val_nextAdj cfg hmin hshift
  rw [amortShift_eq hk, hk.freq] at hspec
  -- the leap second and the watchdog leave both alone
  have hnext : (overflow cfg k tvp).timeOffset = (nextAdj cfg k).timeOffset ∧
      (overflow cfg k tvp).timeAdj = (nextAdj cfg k).timeAdj := by
    rw [overflow_of_rollsOver hroll, rollover_eq, ppsWatchdog_frame]
    unfold nextAdj
    rw [leapSecond_frame]
    exact ⟨rfl, rfl⟩
  rw [hnext.1, hnext.2]
  exact hspec

theorem overflow_amortising (htc : 0 ≤ tc ∧ tc ≤ maxtc) (hk : Amortising cfg tc freq k)
    (hroll : RollsOver k tvp) : Amortising cfg tc freq (overflow cfg k tvp) := by
  have hoffset := (overflow_spec htc hk hroll).1
  have hframe : overflow cfg k tvp = (rollover cfg k tvp.tvSec).1 := overflow_of_rollsOver hroll
  refine ⟨?_, ?_, ?_, ?_⟩
  · rw [hframe, rollover_eq]
    have hbefore : ppsTime (nextAdj cfg (leapSecond (widenError cfg k) (tvp.tvSec + 1)).1)
        = ppsTime k := by
      unfold nextAdj ppsTime
      rw [leapSecond_frame]
      rfl
    cases hsync : cfg.ppsSync with
    | false => rfl
    | true =>
      have hoff : ppsTime k = false := by
        have hno := hk.noPps
        rw [hsync] at hno
        exact hno
      rw [Bool.true_and, Bool.eq_false_iff]
      intro hon
      have hon' := ppsTime_of_ppsWatchdog hon
      rw [hbefore, hoff] at hon'
      exact Bool.false_ne_true hon'
  · rw [hframe, rollover_frame]
    exact hk.constant
  · rw [hframe, rollover_frame]
    exact hk.freq
  · rw [hoffset]
    exact (abs_rest_le (one_le_two_pow _) _).trans_lt hk.offset

/-- The phase gains the share. -/
theorem amortised_overflow (htc : 0 ≤ tc ∧ tc ≤ maxtc) (hk : Amortising cfg tc freq k)
    (hroll : RollsOver k tvp) :
    (amortised (overflow cfg k tvp)).bmod (2 ^ 64)
        = (val k.timeOffset).tdiv (2 ^ (shiftPll + tc).toNat) ∧
    (|lGint freq| ≤ maxfreq → amortised (overflow cfg k tvp)
        = (val k.timeOffset).tdiv (2 ^ (shiftPll + tc).toNat)) := by
  have hadj := (overflow_spec htc hk hroll).2
  have hfreq := (overflow_amortising htc hk hroll).freq
  have hshift : 4 ≤ (shiftPll + tc).toNat := by
    unfold shiftPll
    omega
  -- a sixteenth of the offset at most
  have hshare := abs_tdiv_mul_le (val k.timeOffset) hshift
  have hoffset := hk.offset
  unfold maxphase at hoffset
  have hsmall : |(val k.timeOffset).tdiv (2 ^ (shiftPll + tc).toNat)| < 31250001 * 2 ^ 32 := by
    omega
  have hsmall' := abs_lt.mp hsmall
  unfold amortised
  rw [hadj, hfreq]
  constructor
  · rw [Int.sub_eq_add_neg, Int.sub_eq_add_neg, Int.add_assoc, Int.bmod_add_bmod]
    have hsum : ∀ share : ℤ, share + val freq + nanosecond * 2 ^ 32
        + (-(nanosecond * 2 ^ 32) + -val freq) = share := by
      intro share
      omega
    rw [hsum]
    exact bmod_of_fits (by decide) ⟨by omega, by omega⟩
  · intro hle
    have hfreq := abs_lt.mp (abs_val_freq_lt hle)
    unfold maxfreq at hfreq
    unfold nanosecond
    rw [bmod_of_fits (by decide) ⟨by omega, by omega⟩]
    omega

theorem noOvershoot_of_amortising (htc : 0 ≤ tc ∧ tc ≤ maxtc) (hk : Amortising cfg tc freq k)
    (hroll : RollsOver k tvp) : NoOvershoot cfg k tvp := by
  unfold NoOvershoot
  rw [(overflow_spec htc hk hroll).1]
  exact ⟨rest_nonneg (one_le_two_pow _), rest_nonpos (one_le_two_pow _),
    abs_rest_le (one_le_two_pow _) _⟩

/-! ## Runs of rollovers -/

/-- What is left of the offset depends on the number of rollovers only. -/
theorem run_overflow_timeOffset (htc : 0 ≤ tc ∧ tc ≤ maxtc) {tvps : List Timespec}
    (hk : Amortising cfg tc freq k) (hroll : Along (overflow cfg) RollsOver k tvps) :
    val (run (overflow cfg) k tvps).timeOffset
      = (rest (2 ^ (shiftPll + tc).toNat))^[tvps.length] (val k.timeOffset) := by
  induction tvps generalizing k with
  | nil => rfl
  | cons tvp tvps ih =>
    rw [run_cons, ih (overflow_amortising htc hk hroll.1) hroll.2,
      (overflow_spec htc hk hroll.1).1]
    rfl

/-- Counted by any `gain` that is the share, the phase gains what the offset
loses. -/
theorem sum_gain_add (htc : 0 ≤ tc ∧ tc ≤ maxtc) (gain : Kernel F → ℤ)
    (hgain : ∀ (k : Kernel F) tvp, Amortising cfg tc freq k → RollsOver k tvp →
      gain (overflow cfg k tvp) = (val k.timeOffset).tdiv (2 ^ (shiftPll + tc).toNat))
    (hk : Amortising cfg tc freq k) {tvps : List Timespec}
    (hroll : Along (overflow cfg) RollsOver k tvps) :
    (outputs (overflow cfg) (fun k tvp => some (gain (overflow cfg k tvp))) k tvps).sum
      + val (run (overflow cfg) k tvps).timeOffset = val k.timeOffset := by
  refine sum_outputs_add (V := fun k : Kernel F => val k.timeOffset)
    (fun _ _ => overflow_amortising htc) ?_ hk hroll
  intro k' tvp hk' hroll'
  dsimp only [Option.getD_some]
  rw [hgain k' tvp hk' hroll', (overflow_spec htc hk' hroll').1]
  exact tdiv_add_rest _ _

/-- The amortisation conserves the offset, never overshoots, and settles. -/
theorem amortises (cfg : Config) (k : Kernel F) (hoff : |lGint k.timeOffset| ≤ maxphase)
    (htc : 0 ≤ k.timeConstant ∧ k.timeConstant ≤ maxtc)
    (hpps : (cfg.ppsSync && ppsTime k) = false) : Amortises cfg k := by
  have hle := abs_le.mp hoff
  have hk : Amortising cfg k.timeConstant k.timeFreq k :=
    ⟨hpps, rfl, rfl, abs_lt.mpr (val_lt_of_lGint_le (by decide) hle.2 hle.1)⟩
  refine ⟨?_, ?_, ?_, ?_⟩
  · intro tvps hroll
    exact sum_gain_add htc (fun k => (amortised k).bmod (2 ^ 64))
      (fun _ _ hk hroll => (amortised_overflow htc hk hroll).1) hk hroll
  · intro hfreq tvps hroll
    exact sum_gain_add htc amortised
      (fun _ _ hk hroll => (amortised_overflow htc hk hroll).2 hfreq) hk hroll
  · intro tvps hroll
    refine along_of_invariant (I := Amortising cfg k.timeConstant k.timeFreq) ?_ ?_ hk hroll
    · exact fun _ _ => overflow_amortising htc
    · exact fun _ _ => noOvershoot_of_amortising htc
  · -- every rollover takes a unit at least, while there is a share to take
    have hbound : |val k.timeOffset|
        < 2 ^ (shiftPll + k.timeConstant).toNat + (|val k.timeOffset|.toNat : ℤ) := by
      have hone := one_le_two_pow (shiftPll + k.timeConstant).toNat
      omega
    refine ⟨|val k.timeOffset|.toNat, _, abs_iterate_rest_lt (one_le_two_pow _) hbound, ?_⟩
    intro tvps hroll hn
    rw [run_overflow_timeOffset htc hk hroll]
    exact iterate_rest_eq (one_le_two_pow _) hbound hn

/-- A full negative offset at time constant 6. -/
theorem amortises_fullOffset : Amortises oneHertz
    { (Kernel.boot oneHertz : Kernel LFp64) with
      timeOffset := lLint (-maxphase)
      timeConstant := 6 } :=
  amortises oneHertz _ (by decide) (by decide) (by decide)

end Nanokernel
