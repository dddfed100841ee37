import Nanokernel.Kernel.Envelope

/-!
# What the mode bits select

`ntp_adjtime` writes the variables its mode bits select and no others, whatever
the status word and whichever way `hardupdate` goes. The status word is followed
flag by flag: the writable flags belong to `MOD_STATUS`, each read-only one to
the bits that may move it, and all of them to the reset that comes with dropping
`STA_PLL`. What the call copies out is read from the variables it leaves.
-/

namespace Nanokernel

open BitMask

variable {F : Type}

/-! ## The report -/

/-- A time in the unit that `STA_NANO` selects. -/
def apiUnit (k : Kernel F) (nsec : ℤ) : ℤ :=
  if has k.timeStatus staNano then nsec else nsec.tdiv 1000

variable [LFp F]

/-- The structure copied out shows the variables, in the units of the interface. -/
structure Reports (cfg : Config) (k : Kernel F) (ntv : Timex) : Prop where
  offset : ntv.offset = apiUnit k k.timeMonitor
  freq : ntv.freq = cfg.long (lGint k.timeFreq * scalePpm)
  maxerror : ntv.maxerror = k.timeMaxerror
  esterror : ntv.esterror = k.timeEsterror
  status : ntv.status = k.timeStatus
  constant : ntv.constant = k.timeConstant
  precision : ntv.precision = apiUnit k k.timePrecision
  tolerance : ntv.tolerance = maxfreq * scalePpm
  pps : cfg.ppsSync = true →
    ntv.shift = k.pps.shift ∧ ntv.ppsfreq = cfg.long (lGint k.pps.freq * scalePpm) ∧
      ntv.jitter = apiUnit k k.pps.jitter ∧ ntv.stabil = k.pps.stabil ∧
      ntv.calcnt = k.pps.calcnt ∧ ntv.errcnt = k.pps.errcnt ∧
      ntv.jitcnt = k.pps.jitcnt ∧ ntv.stbcnt = k.pps.stbcnt

theorem reports_adjReport (cfg : Config) (k : Kernel F) (ntv : Timex) :
    Reports cfg k (adjReport cfg k ntv) := by
  unfold adjReport
  cases hp : cfg.ppsSync with
  | false => exact ⟨rfl, rfl, rfl, rfl, rfl, rfl, rfl, rfl, fun h => nomatch hp.symm.trans h⟩
  | true =>
    exact ⟨rfl, rfl, rfl, rfl, rfl, rfl, rfl, rfl,
      fun _ => ⟨rfl, rfl, rfl, rfl, rfl, rfl, rfl, rfl⟩⟩

/-! ## The variables -/

omit [LFp F] in
/-- `MOD_OFFSET` reaches the loop: `STA_PLL` is set once the status is written. -/
def MovesLoop (k' : Kernel F) (ntv : Timex) : Prop :=
  has ntv.modes modOffset = true ∧ has k'.timeStatus staPll = true

/-- The variables that mode bits do not select are as they were. -/
structure ChangesSelected (ntv : Timex) (k k' : Kernel F) : Prop where
  timeAdj : k'.timeAdj = k.timeAdj
  timePhase : k'.timePhase = k.timePhase
  timeTick : k'.timeTick = k.timeTick
  timePrecision : k'.timePrecision = k.timePrecision
  timeMaxerror : has ntv.modes modMaxerror = false → k'.timeMaxerror = k.timeMaxerror
  timeEsterror : has ntv.modes modEsterror = false → k'.timeEsterror = k.timeEsterror
  timeConstant : has ntv.modes modTimeconst = false → k'.timeConstant = k.timeConstant
  timeTai : has ntv.modes modTai = false → k'.timeTai = k.timeTai
  timeFreq : has ntv.modes modFrequency = false → has ntv.modes modOffset = false →
    k'.timeFreq = k.timeFreq
  timeOffset : ¬ MovesLoop k' ntv → k'.timeOffset = k.timeOffset
  timeMonitor : ¬ MovesLoop k' ntv → k'.timeMonitor = k.timeMonitor
  timeReftime : ¬ MovesLoop k' ntv → k'.timeReftime = k.timeReftime
  timeState : ¬ DropsPll k ntv → k'.timeState = k.timeState
  writable : ∀ m, Writable m → has ntv.modes modStatus = false →
    k'.timeStatus &&& m = k.timeStatus &&& m
  readOnly : ∀ m, m &&& staRonly = m → ¬ DropsPll k ntv →
    (has ntv.modes (modNano ||| modMicro) = true → Apart m staNano) →
    (has ntv.modes (modClkb ||| modClka) = true → Apart m staClk) →
    (MovesLoop k' ntv → Apart m staMode) →
    k'.timeStatus &&& m = k.timeStatus &&& m
  shift : ¬ DropsPll k ntv → k'.pps.shift = k.pps.shift
  shiftmax : has ntv.modes modPpsmax = false → k'.pps.shiftmax = k.pps.shiftmax
  ppsFreq : has ntv.modes modFrequency = false → k'.pps.freq = k.pps.freq
  pps : k'.pps = { k.pps with
    shift := k'.pps.shift, shiftmax := k'.pps.shiftmax, freq := k'.pps.freq }

/-! ## Clause by clause -/

section Clauses

variable (cfg : Config) (ntv : Timex) (k : Kernel F) (tvSec : ℤ)

omit [LFp F] in
theorem adjError_timeEsterror : (adjError ntv k).timeEsterror =
    if has ntv.modes modEsterror then ntv.esterror else k.timeEsterror := by
  unfold adjError
  split_ifs <;> rfl

omit [LFp F] in
theorem adjStatus_of_not_drops (hd : ¬ DropsPll k ntv) : adjStatus cfg ntv k =
    if has ntv.modes modStatus then
      { k with timeStatus := k.timeStatus &&& staRonly ||| ntv.status &&& ~~~staRonly }
    else k := by
  unfold adjStatus
  cases hmodes : has ntv.modes modStatus with
  | false => rfl
  | true =>
    have hkeep : (has k.timeStatus staPll && !has ntv.status staPll) = false := by
      unfold DropsPll at hd
      simpa [hmodes] using hd
    rw [hkeep]
    rfl

omit [LFp F] in
theorem adjStatus_readOnly {m : BitVec 32} (hm : m &&& staRonly = m) (hd : ¬ DropsPll k ntv) :
    (adjStatus cfg ntv k).timeStatus &&& m = k.timeStatus &&& m := by
  rw [adjStatus_of_not_drops cfg ntv k hd]
  split_ifs
  · exact merge_and_of_sub hm _ _
  · rfl

omit [LFp F] in
/-- Each pair of modes moves its own flag. -/
theorem adjClock_status_of_apart {m : BitVec 32}
    (hnano : has ntv.modes (modNano ||| modMicro) = true → Apart m staNano)
    (hclk : has ntv.modes (modClkb ||| modClka) = true → Apart m staClk) :
    (adjClock ntv k).timeStatus &&& m = k.timeStatus &&& m := by
  rw [has_or, Bool.or_eq_true] at hnano hclk
  unfold adjClock
  dsimp only
  rw [clear_if_and fun h => hclk (Or.inr h), set_if_and fun h => hclk (Or.inl h),
    clear_if_and fun h => hnano (Or.inr h), set_if_and fun h => hnano (Or.inl h)]

omit [LFp F] in
theorem adjStatus_shift (hd : ¬ DropsPll k ntv) :
    (adjStatus cfg ntv k).pps.shift = k.pps.shift := by
  rw [adjStatus_of_not_drops cfg ntv k hd]
  split_ifs <;> rfl

omit [LFp F] in
/-- Before the offset is taken, the read-only flags move by their own modes and the
reset. -/
theorem adjBeforeOffset_readOnly {m : BitVec 32} (hm : m &&& staRonly = m)
    (hd : ¬ DropsPll k ntv)
    (hnano : has ntv.modes (modNano ||| modMicro) = true → Apart m staNano)
    (hclk : has ntv.modes (modClkb ||| modClka) = true → Apart m staClk) :
    (adjBeforeOffset cfg ntv k).timeStatus &&& m = k.timeStatus &&& m := by
  have hdrop : ¬ DropsPll (adjError ntv k) ntv := by
    rw [adjError_frame]
    exact hd
  unfold adjBeforeOffset
  rw [adjClock_status_of_apart ntv _ hnano hclk, adjConstant_frame]
  dsimp only
  rw [adjStatus_readOnly cfg ntv _ hm hdrop, adjError_frame]

/-- The loop does not move without `MOD_OFFSET` and `STA_PLL`. -/
theorem adjOffset_of_not_moves (h : ¬ MovesLoop (adjKernel cfg k tvSec ntv) ntv) :
    adjOffset cfg tvSec ntv (adjBeforeOffset cfg ntv k) = adjBeforeOffset cfg ntv k := by
  cases hmodes : has ntv.modes modOffset with
  | false => exact adjOffset_of_not cfg ntv _ tvSec hmodes
  | true =>
    rw [adjOffset_of_modOffset cfg ntv _ tvSec hmodes]
    apply hardupdate_of_not_pll
    -- the status word has `STA_PLL` after the update if it had it before
    have hkept : (adjKernel cfg k tvSec ntv).timeStatus &&& staPll =
        (adjBeforeOffset cfg ntv k).timeStatus &&& staPll := by
      rw [adjKernel_eq_beforeOffset, adjFrequency_frame]
      exact adjOffset_status cfg ntv _ tvSec (by decide)
    rw [← has_eq_of_and_eq hkept, ← Bool.not_eq_true]
    exact fun hpll => h ⟨hmodes, hpll⟩

theorem changesSelected_adjKernel : ChangesSelected ntv k (adjKernel cfg k tvSec ntv) where
  timeAdj := by rw [adjKernel_frame]
  timePhase := by rw [adjKernel_frame]
  timeTick := by rw [adjKernel_frame]
  timePrecision := by rw [adjKernel_frame]
  timeMaxerror h := by
    rw [adjKernel_timeMaxerror, h]
    rfl
  timeEsterror h := by
    rw [adjKernel_eq, adjFrequency_frame, adjOffset_frame, adjClock_frame, adjConstant_frame,
      adjStatus_frame]
    dsimp only
    rw [adjError_timeEsterror, h]
    rfl
  timeConstant h := by
    rw [adjKernel_timeConstant, h]
    rfl
  timeTai h := by
    rw [adjKernel_timeTai, h]
    rfl
  timeFreq hfreq hoffset := by
    rw [adjKernel_eq_beforeOffset, adjFrequency_of_not cfg ntv _ hfreq,
      adjOffset_of_not cfg ntv _ tvSec hoffset, adjBeforeOffset_frame]
  timeOffset h := by
    rw [adjKernel_eq_beforeOffset, adjFrequency_frame, adjOffset_of_not_moves cfg ntv k tvSec h,
      adjBeforeOffset_frame]
  timeMonitor h := by
    rw [adjKernel_eq_beforeOffset, adjFrequency_frame, adjOffset_of_not_moves cfg ntv k tvSec h,
      adjBeforeOffset_frame]
  timeReftime h := by
    rw [adjKernel_eq_beforeOffset, adjFrequency_frame, adjOffset_of_not_moves cfg ntv k tvSec h,
      adjBeforeOffset_frame]
  timeState hd := by
    rw [adjKernel_timeState, if_neg hd]
  writable m hm hmodes := by
    rw [adjKernel_status cfg ntv k tvSec hm, hmodes]
    rfl
  readOnly m hm hd hnano hclk hmode := by
    rw [← adjBeforeOffset_readOnly cfg ntv k hm hd hnano hclk, adjKernel_eq_beforeOffset,
      adjFrequency_frame]
    dsimp only
    by_cases hmoves : MovesLoop (adjKernel cfg k tvSec ntv) ntv
    · exact adjOffset_status_of_apart cfg ntv _ tvSec (hmode hmoves)
    · rw [adjOffset_of_not_moves cfg ntv k tvSec hmoves]
  shift hd := by
    have hdrop : ¬ DropsPll (adjError ntv k) ntv := by
      rw [adjError_frame]
      exact hd
    rw [adjKernel_eq, adjFrequency_frame, adjOffset_frame, adjClock_frame, adjConstant_frame]
    dsimp only
    rw [adjStatus_shift cfg ntv _ hdrop, adjError_frame]
  shiftmax h := by
    rw [adjKernel_eq, adjFrequency_frame, adjOffset_frame, adjClock_frame]
    dsimp only
    rw [adjConstant_shiftmax, h, Bool.and_false, if_neg Bool.false_ne_true, adjStatus_frame,
      adjError_frame]
  ppsFreq h := by
    rw [adjKernel_eq_beforeOffset, adjFrequency_of_not cfg ntv _ h, adjOffset_frame,
      adjBeforeOffset_frame]
  pps := by
    conv_lhs => rw [adjKernel_frame]

end Clauses

/-- For every state and every structure passed in: the clock is left alone, the kernel
variables change as the mode bits select, not at all without mode bits, and the structure
copied out shows them. -/
theorem ntpAdjtime_changesSelected (cfg : Config) (c : Clock F) (tp : Timex) :
    (c.step cfg (.adjtime tp)).tv = c.tv ∧
      ChangesSelected tp c.k (c.step cfg (.adjtime tp)).k ∧
      (tp.modes = 0 → (c.step cfg (.adjtime tp)).k = c.k) ∧
      Reports cfg (c.step cfg (.adjtime tp)).k (ntpAdjtime cfg c.k c.tv.tvSec tp).2.1 := by
  exact ⟨rfl, changesSelected_adjKernel cfg tp c.k c.tv.tvSec,
    adjKernel_of_modes_zero cfg tp c.k c.tv.tvSec, reports_adjReport cfg _ tp⟩

end Nanokernel
