import Nanokernel.Kernel.ApiCalls
import Nanokernel.Kernel.PllIntegrator

/-!
# Microseconds and nanoseconds

`ntp_adjtime` takes the offset in microseconds when `STA_NANO` is clear and
scales it before `hardupdate` clamps it. Apart from the flag, both units lead to
the same state as long as the scaled offset is the exact one or ends up beyond
the same clamp; a `long` of 32 bits wraps at 2.1 s, four times the clamp.
-/

namespace Nanokernel

open BitMask SignedWord Run

variable {F : Type}

/-! ## The flag -/

/-- The same state in nanosecond mode. -/
def Kernel.withNano (k : Kernel F) : Kernel F :=
  { k with timeStatus := k.timeStatus ||| staNano }

theorem has_withNano (k : Kernel F) {m : BitVec 32} (hm : Apart m staNano) :
    has k.withNano.timeStatus m = has k.timeStatus m :=
  has_eq_of_and_eq (set_and hm k.timeStatus)

theorem ppsTime_withNano (k : Kernel F) : ppsTime k.withNano = ppsTime k := by
  unfold ppsTime
  rw [has_withNano k (by decide), has_withNano k (by decide)]

theorem ppsFrequency_withNano (k : Kernel F) : ppsFrequency k.withNano = ppsFrequency k := by
  unfold ppsFrequency
  rw [has_withNano k (by decide), has_withNano k (by decide)]

variable [LFp F]

theorem updatePhase_withNano (k : Kernel F) (offset : ℤ) :
    updatePhase k.withNano offset = (updatePhase k offset).withNano := by
  unfold updatePhase
  rw [ppsTime_withNano]
  split_ifs <;> rfl

omit [LFp F] in
theorem updateReftime_withNano (k : Kernel F) (tvSec : ℤ) :
    updateReftime k.withNano tvSec = (updateReftime k tvSec).withNano := by
  have hreftime : k.withNano.timeReftime = k.timeReftime := rfl
  unfold updateReftime
  rw [has_withNano k (by decide), hreftime]
  split_ifs <;> rfl

theorem updateFrequency_withNano (cfg : Config) (k : Kernel F) (tvSec : ℤ) :
    updateFrequency cfg k.withNano tvSec = (updateFrequency cfg k tvSec).withNano := by
  unfold updateFrequency
  rw [updateReftime_withNano]
  generalize updateReftime k tvSec = k
  have hmode : k.withNano.timeStatus &&& ~~~staMode = k.timeStatus &&& ~~~staMode ||| staNano :=
    clear_or_comm (by decide) k.timeStatus
  have hreftime : k.withNano.timeReftime = k.timeReftime := rfl
  dsimp only
  rw [hmode, hreftime]
  -- the flag that selects the FLL is another one
  have hclear : (k.timeStatus &&& ~~~staMode) &&& staFll = k.timeStatus &&& staFll :=
    clear_and (by decide) _
  have hboth : (k.timeStatus &&& ~~~staMode ||| staNano) &&& staFll
      = k.timeStatus &&& staFll := (set_and (by decide) _).trans hclear
  unfold fllSelected
  dsimp only
  rw [has_eq_of_and_eq hboth, has_eq_of_and_eq hclear]
  split_ifs
  · rw [or_right_comm _ staNano]
    rfl
  · rfl

theorem hardupdate_withNano (cfg : Config) (k : Kernel F) (tvSec offset : ℤ) :
    hardupdate cfg k.withNano tvSec offset = (hardupdate cfg k tvSec offset).withNano := by
  unfold hardupdate
  rw [has_withNano k (by decide), updatePhase_withNano]
  dsimp only
  rw [ppsFrequency_withNano, updateFrequency_withNano]
  split_ifs <;> rfl

/-! ## The call in nanosecond mode -/

/-- The same call with the offset in nanoseconds, clamped. -/
def nanoCall (ntv : Timex) : Timex :=
  { ntv with
    modes := (ntv.modes ||| modNano) &&& ~~~modMicro
    offset := clamp maxphase (1000 * ntv.offset) }

/-- The other modes are the same. -/
theorem has_nanoCall (ntv : Timex) {m : BitVec 32} (hnano : Apart m modNano)
    (hmicro : Apart m modMicro) : has (nanoCall ntv).modes m = has ntv.modes m :=
  has_eq_of_and_eq ((clear_and hmicro _).trans (set_and hnano _))

omit [LFp F] in
/-- Whatever the modes did to the flag. -/
theorem adjClock_nanoCall (ntv : Timex) (k : Kernel F) :
    adjClock (nanoCall ntv) k = (adjClock ntv k).withNano := by
  have hnano : has (nanoCall ntv).modes modNano = true := by
    have hand : (nanoCall ntv).modes &&& modNano = modNano :=
      (clear_and (by decide) _).trans (or_and_self _ _)
    unfold has
    rw [hand]
    rfl
  have hmicro : has (nanoCall ntv).modes modMicro = false := by
    unfold has
    rw [show (nanoCall ntv).modes &&& modMicro = 0 from and_not_and_self _ _]
    rfl
  -- the clock bits pass the flag by
  have hclkb : ∀ st : BitVec 32,
      (if has ntv.modes modClkb then st ||| staNano ||| staClk else st ||| staNano)
        = (if has ntv.modes modClkb then st ||| staClk else st) ||| staNano := by
    intro st
    split_ifs
    · exact or_right_comm st staNano staClk
    · rfl
  have hclka : ∀ st : BitVec 32,
      (if has ntv.modes modClka then (st ||| staNano) &&& ~~~staClk else st ||| staNano)
        = (if has ntv.modes modClka then st &&& ~~~staClk else st) ||| staNano := by
    intro st
    split_ifs
    · exact clear_or_comm (by decide) st
    · rfl
  have hunit : ∀ st : BitVec 32,
      (if has ntv.modes modMicro then
          (if has ntv.modes modNano then st ||| staNano else st) &&& ~~~staNano
        else if has ntv.modes modNano then st ||| staNano else st) ||| staNano
        = st ||| staNano := by
    intro st
    split_ifs
    · rw [and_not_or_self, or_or_self]
    · rw [and_not_or_self]
    · rw [or_or_self]
    · rfl
  unfold adjClock Kernel.withNano
  rw [hnano, hmicro, has_nanoCall ntv (by decide) (by decide),
    has_nanoCall ntv (by decide) (by decide)]
  simp only [if_true, Bool.false_eq_true, if_false]
  rw [← hclka, ← hclkb, hunit]

omit [LFp F] in
/-- Up to the offset the calls differ in the flag alone. -/
theorem adjBeforeOffset_nanoCall (cfg : Config) (ntv : Timex) (k : Kernel F) :
    adjBeforeOffset cfg (nanoCall ntv) k = (adjBeforeOffset cfg ntv k).withNano := by
  have herror : adjError (nanoCall ntv) k = adjError ntv k := by
    unfold adjError
    rw [has_nanoCall ntv (by decide) (by decide), has_nanoCall ntv (by decide) (by decide)]
    rfl
  have hstatus : ∀ k : Kernel F, adjStatus cfg (nanoCall ntv) k = adjStatus cfg ntv k := by
    intro k
    unfold adjStatus
    rw [has_nanoCall ntv (by decide) (by decide)]
    rfl
  have hconstant : ∀ k : Kernel F, adjConstant cfg (nanoCall ntv) k = adjConstant cfg ntv k := by
    intro k
    unfold adjConstant
    rw [has_nanoCall ntv (by decide) (by decide), has_nanoCall ntv (by decide) (by decide),
      has_nanoCall ntv (by decide) (by decide)]
    rfl
  unfold adjBeforeOffset
  rw [adjClock_nanoCall, herror, hstatus, hconstant]

/-! ## The offset -/

/-- The offset reaches `hardupdate` through the clamp alone. -/
theorem hardupdate_congr (cfg : Config) {k : Kernel F} (tvSec : ℤ) (hpps : ppsTime k = false)
    {offset offset' : ℤ} (h : clamp maxphase offset = clamp maxphase offset') :
    hardupdate cfg k tvSec offset = hardupdate cfg k tvSec offset' := by
  have hphase : updatePhase k offset = updatePhase k offset' := by
    unfold updatePhase
    rw [hpps, h]
  unfold hardupdate
  rw [hphase]

theorem clamp_clamp (x : ℤ) : clamp maxphase (clamp maxphase x) = clamp maxphase x := by
  unfold clamp maxphase
  split_ifs <;> omega

/-- The scaled offset is in a 32-bit `long`, or wraps to a value beyond the clamp that the
exact one meets. -/
def ScalesInLong (offset : ℤ) : Prop :=
  Fits 32 (1000 * offset) ∨
    0 < offset ∧ maxphase ≤ 1000 * offset % 2 ^ 32 ∧ 1000 * offset % 2 ^ 32 < 2 ^ 31 ∨
    offset < 0 ∧ 2 ^ 31 ≤ 1000 * offset % 2 ^ 32 ∧ 1000 * offset % 2 ^ 32 ≤ 2 ^ 32 - maxphase

theorem clamp_of_le {x : ℤ} (h : maxphase ≤ x) : clamp maxphase x = maxphase := by
  unfold clamp maxphase at *
  split_ifs <;> omega

theorem clamp_of_le_neg {x : ℤ} (h : x ≤ -maxphase) : clamp maxphase x = -maxphase := by
  unfold clamp maxphase at *
  split_ifs <;> omega

theorem clamp_eq_top_iff {x : ℤ} : clamp maxphase x = maxphase ↔ maxphase ≤ x := by
  refine ⟨fun h => ?_, clamp_of_le⟩
  unfold clamp maxphase at *
  split_ifs at h <;> omega

theorem clamp_eq_bot_iff {x : ℤ} : clamp maxphase x = -maxphase ↔ x ≤ -maxphase := by
  refine ⟨fun h => ?_, clamp_of_le_neg⟩
  unfold clamp maxphase at *
  split_ifs at h <;> omega

/-- A wrapped product has lost its magnitude: what is left is the clamp it ends up at. -/
theorem clamp_long_iff (cfg : Config) (h32 : cfg.longWidth = .ilp32) (offset : ℤ) :
    clamp maxphase (cfg.long (offset * 1000)) = clamp maxphase (1000 * offset) ↔
      ScalesInLong offset := by
  have hlong : cfg.long (offset * 1000) = (1000 * offset).bmod (2 ^ 32) := by
    unfold Config.long LongWidth.long
    rw [h32, mul_comm]
    rfl
  rw [hlong]
  by_cases hfits : Fits 32 (1000 * offset)
  · rw [bmod_of_fits (by decide) hfits]
    exact ⟨fun _ => Or.inl hfits, fun _ => rfl⟩
  · have hwrap := Int.bmod_def (1000 * offset) (2 ^ 32)
    unfold ScalesInLong
    unfold Fits at *
    rcases le_or_gt (1000 * offset) 0 with hneg | hpos
    · have hlow : 1000 * offset ≤ -maxphase := by
        unfold maxphase
        omega
      rw [clamp_of_le_neg hlow, clamp_eq_bot_iff]
      unfold maxphase at *
      split_ifs at hwrap <;> omega
    · have hhigh : maxphase ≤ 1000 * offset := by
        unfold maxphase
        omega
      rw [clamp_of_le hhigh, clamp_eq_top_iff]
      unfold maxphase at *
      split_ifs at hwrap <;> omega

theorem updateFrequency_timeMonitor (cfg : Config) (k : Kernel F) (tvSec : ℤ) :
    (updateFrequency cfg k tvSec).timeMonitor = k.timeMonitor := by
  unfold updateFrequency updateReftime
  dsimp only
  split_ifs <;> rfl

/-- The phase that `hardupdate` installs. -/
theorem hardupdate_timeMonitor (cfg : Config) {k : Kernel F} (tvSec offset : ℤ)
    (hpll : has k.timeStatus staPll = true) (hpps : ppsTime k = false) :
    (hardupdate cfg k tvSec offset).timeMonitor = clamp maxphase offset := by
  have hphase : (updatePhase k offset).timeMonitor = clamp maxphase offset := by
    rw [updatePhase_timeMonitor]
    unfold loopOffset
    rw [hpps, if_neg Bool.false_ne_true]
  unfold hardupdate
  rw [hpll]
  simp only [Bool.not_true, Bool.false_eq_true, if_false]
  split_ifs
  · exact hphase
  · rw [updateFrequency_timeMonitor, hphase]

/-! ## The two calls -/

section Calls

variable (cfg : Config) (ntv : Timex) (k : Kernel F) (tvSec : ℤ)

/-- The call in microseconds, up to the frequency. -/
theorem adjOffset_micro (hoffset : has ntv.modes modOffset = true)
    (hmicro : has k.timeStatus staNano = false) :
    adjOffset cfg tvSec ntv k = hardupdate cfg k tvSec (cfg.long (ntv.offset * 1000)) := by
  rw [adjOffset_of_modOffset cfg ntv k tvSec hoffset]
  unfold adjNsec
  rw [hmicro]
  rfl

/-- The call in nanoseconds, up to the frequency. -/
theorem adjOffset_nanoCall (hoffset : has ntv.modes modOffset = true) :
    adjOffset cfg tvSec (nanoCall ntv) k.withNano
      = (hardupdate cfg k tvSec (clamp maxphase (1000 * ntv.offset))).withNano := by
  have hnano : has k.withNano.timeStatus staNano = true := by
    unfold has Kernel.withNano
    rw [or_and_self]
    rfl
  have hcall : has (nanoCall ntv).modes modOffset = true := by
    rw [has_nanoCall ntv (by decide) (by decide)]
    exact hoffset
  rw [adjOffset_of_modOffset cfg (nanoCall ntv) k.withNano tvSec hcall,
    ← hardupdate_withNano]
  unfold adjNsec
  rw [hnano]
  rfl

theorem adjFrequency_nanoCall :
    adjFrequency cfg (nanoCall ntv) k.withNano = (adjFrequency cfg ntv k).withNano := by
  unfold adjFrequency
  rw [has_nanoCall ntv (by decide) (by decide)]
  split_ifs <;> rfl

end Calls

/-- Where `long` has 32 bits, an offset in microseconds installs its thousandfold, clamped,
and leaves the state that the offset in nanoseconds leaves, exactly when it scales in a
`long`. The conditions are on the status word the offset is processed with, after the
other modes of the call. -/
theorem ntpAdjtime_micro_iff (cfg : Config) (h32 : cfg.longWidth = .ilp32) (c : Clock F)
    (ntv : Timex) (hoffset : has ntv.modes modOffset = true)
    (hpll : has (adjBeforeOffset cfg ntv c.k).timeStatus staPll = true)
    (hpps : ppsTime (adjBeforeOffset cfg ntv c.k) = false)
    (hmicro : has (adjBeforeOffset cfg ntv c.k).timeStatus staNano = false) :
    ((c.step cfg (.adjtime ntv)).k.timeMonitor = clamp maxphase (1000 * ntv.offset) ∧
        (c.step cfg (.adjtime ntv)).k.withNano = (c.step cfg (.adjtime (nanoCall ntv))).k) ↔
      ScalesInLong ntv.offset := by
  have hstep : ∀ ntv, (c.step cfg (.adjtime ntv)).k
      = adjFrequency cfg ntv (adjOffset cfg c.tv.tvSec ntv (adjBeforeOffset cfg ntv c.k)) := by
    intro ntv
    exact adjKernel_eq_beforeOffset cfg ntv c.k c.tv.tvSec
  have hcall := adjOffset_micro cfg ntv _ c.tv.tvSec hoffset hmicro
  have hmonitor : (c.step cfg (.adjtime ntv)).k.timeMonitor
      = clamp maxphase (cfg.long (ntv.offset * 1000)) := by
    rw [hstep, adjFrequency_frame]
    dsimp only
    rw [hcall, hardupdate_timeMonitor cfg _ _ hpll hpps]
  rw [← clamp_long_iff cfg h32, hmonitor]
  refine ⟨And.left, fun hclamp => ⟨hclamp, ?_⟩⟩
  -- with equal clamps the two calls of `hardupdate` are one
  have hupdate : hardupdate cfg (adjBeforeOffset cfg ntv c.k) c.tv.tvSec
        (cfg.long (ntv.offset * 1000))
      = hardupdate cfg (adjBeforeOffset cfg ntv c.k) c.tv.tvSec
          (clamp maxphase (1000 * ntv.offset)) := by
    apply hardupdate_congr cfg _ hpps
    rw [hclamp, clamp_clamp]
  rw [hstep, hstep, adjBeforeOffset_nanoCall, adjOffset_nanoCall cfg ntv _ _ hoffset,
    adjFrequency_nanoCall, hcall, hupdate]

/-- Two seconds are in range. -/
theorem ntpAdjtime_micro_iff_lockedClock :
    ((lockedClock.step oneHertz32
            (.adjtime { modes := modOffset, offset := 2000000 })).k.timeMonitor
          = clamp maxphase (1000 * 2000000) ∧
        (lockedClock.step oneHertz32
            (.adjtime { modes := modOffset, offset := 2000000 })).k.withNano
          = (lockedClock.step oneHertz32
              (.adjtime (nanoCall { modes := modOffset, offset := 2000000 }))).k) ↔
      ScalesInLong 2000000 :=
  ntpAdjtime_micro_iff oneHertz32 rfl lockedClock { modes := modOffset, offset := 2000000 }
    (by decide) (by decide) (by decide) (by decide)

/-- Three seconds ahead, the clock is steered to half a second behind. -/
theorem not_ntpAdjtime_micro : ¬ ∀ (cfg : Config), cfg.longWidth = .ilp32 →
    ∀ c : Clock LFp32, c.Reachable cfg → ∀ ntv : Timex, has ntv.modes modOffset = true →
    has (adjBeforeOffset cfg ntv c.k).timeStatus staPll = true →
    ppsTime (adjBeforeOffset cfg ntv c.k) = false →
    has (adjBeforeOffset cfg ntv c.k).timeStatus staNano = false →
    (c.step cfg (.adjtime ntv)).k.timeMonitor = clamp maxphase (1000 * ntv.offset) ∧
      (c.step cfg (.adjtime ntv)).k.withNano = (c.step cfg (.adjtime (nanoCall ntv))).k := by
  intro h
  have hboth := h oneHertz32 rfl lockedClock
    ⟨⟨Kernel.boot oneHertz32, ⟨0, 0⟩⟩, [.adjtime { modes := modStatus, status := staPll }], rfl,
      ⟨trivial, trivial⟩, rfl⟩ { modes := modOffset, offset := 3000000 }
    (by decide) (by decide) (by decide) (by decide)
  exact absurd hboth.1 (by decide)

end Nanokernel
