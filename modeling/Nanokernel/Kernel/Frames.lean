import Nanokernel.Foundation.BitMask
import Nanokernel.Kernel.Hardpps

/-!
# What the routines leave alone

Field by field, the frame of `hardupdate`, `hardpps` and of the pieces of
`second_overflow` and `ntp_adjtime`; for the status word, flag by flag under a
mask. Only the clauses of `ntp_adjtime` that write a field are left in its
equations.
-/

namespace Nanokernel

open BitMask

variable {F : Type}

/-! ## Masks -/

theorem has_eq_of_and_eq {x y m : BitVec 32} (h : x &&& m = y &&& m) :
    has x m = has y m := by
  unfold has
  rw [h]

theorem has_or (x m n : BitVec 32) : has x (m ||| n) = (has x m || has x n) := by
  unfold has
  rw [BitVec.and_or_distrib_left, Bool.eq_iff_iff]
  simp only [bne_iff_ne, Bool.or_eq_true, ne_eq]
  rw [← not_and_or]
  exact not_congr BitVec.or_eq_zero_iff

theorem has_zero (m : BitVec 32) : has 0 m = false := by
  unfold has
  rw [BitVec.ofNat_eq_ofNat, BitVec.zero_and]
  rfl

/-- A mask of flags that `MOD_STATUS` may write. -/
abbrev Writable (m : BitVec 32) : Prop := Apart m staRonly

/-! ## `hardupdate()` -/

theorem updateReftime_frame (k : Kernel F) (tvSec : ℤ) :
    updateReftime k tvSec =
      { k with timeReftime := (updateReftime k tvSec).timeReftime } := by
  unfold updateReftime
  split_ifs <;> rfl

section Hardupdate

variable [LFp F] (cfg : Config) (k : Kernel F) (tvSec offset : ℤ)

theorem updatePhase_frame :
    updatePhase k offset = { k with
      timeMonitor := (updatePhase k offset).timeMonitor
      timeOffset := (updatePhase k offset).timeOffset } := by
  unfold updatePhase
  split_ifs <;> rfl

/-- The five variables `hardupdate` writes. -/
theorem hardupdate_frame : hardupdate cfg k tvSec offset = { k with
    timeMonitor := (hardupdate cfg k tvSec offset).timeMonitor
    timeOffset := (hardupdate cfg k tvSec offset).timeOffset
    timeReftime := (hardupdate cfg k tvSec offset).timeReftime
    timeFreq := (hardupdate cfg k tvSec offset).timeFreq
    timeStatus := (hardupdate cfg k tvSec offset).timeStatus } := by
  unfold hardupdate updateFrequency updateReftime updatePhase
  dsimp only
  split_ifs <;> rfl

/-- The last assignment of either way through the routine. -/
theorem hardupdate_timeReftime {offset : ℤ} (hpll : has k.timeStatus staPll = true) :
    (hardupdate cfg k tvSec offset).timeReftime = tvSec := by
  unfold hardupdate updateFrequency
  rw [hpll, Bool.not_true, if_neg Bool.false_ne_true]
  dsimp only
  split_ifs <;> rfl

/-- Without `STA_PLL` the call does nothing. -/
theorem hardupdate_of_not_pll (h : has k.timeStatus staPll = false) :
    hardupdate cfg k tvSec offset = k := by
  unfold hardupdate
  rw [h]
  rfl

@[simp] theorem hardupdate_timeState :
    (hardupdate cfg k tvSec offset).timeState = k.timeState := by
  rw [hardupdate_frame]

@[simp] theorem hardupdate_timeTai :
    (hardupdate cfg k tvSec offset).timeTai = k.timeTai := by
  rw [hardupdate_frame]

@[simp] theorem hardupdate_timePhase :
    (hardupdate cfg k tvSec offset).timePhase = k.timePhase := by
  rw [hardupdate_frame]

@[simp] theorem hardupdate_pps :
    (hardupdate cfg k tvSec offset).pps = k.pps := by
  rw [hardupdate_frame]

/-- Of the status word `hardupdate` writes `STA_MODE` alone. -/
theorem hardupdate_status {m : BitVec 32} (hm : Apart m staMode) :
    (hardupdate cfg k tvSec offset).timeStatus &&& m = k.timeStatus &&& m := by
  have hclear := clear_and hm
  have hset := set_and hm
  unfold hardupdate updateFrequency updateReftime updatePhase
  dsimp only
  split_ifs <;> simp only [hclear, hset]

end Hardupdate

/-! ## `second_overflow()` -/

section SecondOverflow

variable (cfg : Config) (k : Kernel F) (tvSec : ℤ)

/-- The leap second processing writes the state and the TAI offset. -/
theorem leapSecond_frame : (leapSecond k tvSec).1 = { k with
    timeState := (leapSecond k tvSec).1.timeState
    timeTai := (leapSecond k tvSec).1.timeTai } := by
  unfold leapSecond
  cases k.timeState with
  | oop => rfl
  | _ =>
    dsimp only
    split_ifs <;> rfl

theorem ppsWatchdog_frame : ppsWatchdog cfg k = { k with
    timeStatus := (ppsWatchdog cfg k).timeStatus
    pps := { k.pps with valid := (ppsWatchdog cfg k).pps.valid } } := by
  unfold ppsWatchdog
  split_ifs <;> rfl

theorem ppsWatchdog_status {m : BitVec 32} (hm : Apart m staPpssignal) :
    (ppsWatchdog cfg k).timeStatus &&& m = k.timeStatus &&& m := by
  have hclear := clear_and hm
  unfold ppsWatchdog
  split_ifs <;> simp only [hclear]

variable [LFp F]

/-- The kernel variables once the maximum error has grown. -/
def widenError (cfg : Config) (k : Kernel F) : Kernel F :=
  { k with timeMaxerror := cfg.long (k.timeMaxerror + maxfreq / 1000) }

theorem rollover_eq : rollover cfg k tvSec =
    (ppsWatchdog cfg (nextAdj cfg (leapSecond (widenError cfg k) (tvSec + 1)).1),
      (leapSecond (widenError cfg k) (tvSec + 1)).2) := rfl

/-- The variables a rollover writes. -/
theorem rollover_frame : (rollover cfg k tvSec).1 = { k with
    timeState := (rollover cfg k tvSec).1.timeState
    timeStatus := (rollover cfg k tvSec).1.timeStatus
    timeTai := (rollover cfg k tvSec).1.timeTai
    timeMaxerror := (rollover cfg k tvSec).1.timeMaxerror
    timeOffset := (rollover cfg k tvSec).1.timeOffset
    timeAdj := (rollover cfg k tvSec).1.timeAdj
    pps := { k.pps with valid := (rollover cfg k tvSec).1.pps.valid } } := by
  rw [rollover_eq, ppsWatchdog_frame]
  unfold nextAdj
  dsimp only
  rw [leapSecond_frame]
  rfl

@[simp] theorem rollover_timePhase :
    (rollover cfg k tvSec).1.timePhase = k.timePhase := by
  rw [rollover_frame]

theorem rollover_timeMaxerror : (rollover cfg k tvSec).1.timeMaxerror
    = cfg.long (k.timeMaxerror + maxfreq / 1000) := by
  rw [rollover_eq, ppsWatchdog_frame]
  unfold nextAdj
  rw [leapSecond_frame]
  rfl

/-- Of the status word a rollover writes `STA_PPSSIGNAL` alone. -/
theorem rollover_status {m : BitVec 32} (hm : Writable m) :
    (rollover cfg k tvSec).1.timeStatus &&& m = k.timeStatus &&& m := by
  have hleap : (leapSecond (widenError cfg k) (tvSec + 1)).1.timeStatus
      = k.timeStatus := by
    rw [leapSecond_frame]
    rfl
  rw [rollover_eq, ppsWatchdog_status cfg _ (Apart.of_sub hm (by decide))]
  exact congrArg (· &&& m) hleap

end SecondOverflow

/-! ## `hardpps()` -/

section Hardpps

variable [LFp F] (cfg : Config) (k : Kernel F)

/-- The frequency loop writes the frequency and the status word. -/
theorem ppsFrequencyUpdate_frame (vNsec : ℤ) :
    ppsFrequencyUpdate cfg k vNsec = { k with
      timeFreq := (ppsFrequencyUpdate cfg k vNsec).timeFreq
      timeStatus := (ppsFrequencyUpdate cfg k vNsec).timeStatus
      pps := (ppsFrequencyUpdate cfg k vNsec).pps } := by
  unfold ppsFrequencyUpdate ppsWander
  dsimp only
  split_ifs <;> rfl

theorem ppsCalibrate_frame : ppsCalibrate cfg k = { k with
    timeFreq := (ppsCalibrate cfg k).timeFreq
    timeStatus := (ppsCalibrate cfg k).timeStatus
    pps := (ppsCalibrate cfg k).pps } := by
  unfold ppsCalibrate
  dsimp only
  split_ifs
  · rfl
  · rfl
  · rw [ppsFrequencyUpdate_frame]

theorem ppsPhase_frame : ppsPhase cfg k = { k with
    timeMonitor := (ppsPhase cfg k).timeMonitor
    timeOffset := (ppsPhase cfg k).timeOffset
    timeStatus := (ppsPhase cfg k).timeStatus
    pps := (ppsPhase cfg k).pps } := by
  unfold ppsPhase
  dsimp only
  split_ifs <;> rfl

/-- The variables a pulse may write. -/
theorem hardpps_frame (tsp : Timespec) (nsec : ℤ) :
    hardpps cfg k tsp nsec = { k with
      timeMonitor := (hardpps cfg k tsp nsec).timeMonitor
      timeTick := (hardpps cfg k tsp nsec).timeTick
      timeOffset := (hardpps cfg k tsp nsec).timeOffset
      timeFreq := (hardpps cfg k tsp nsec).timeFreq
      timeStatus := (hardpps cfg k tsp nsec).timeStatus
      pps := (hardpps cfg k tsp nsec).pps } := by
  unfold hardpps
  dsimp only
  split_ifs
  · rfl
  · rfl
  · rw [ppsCalibrate_frame, ppsPhase_frame]
    rfl

theorem ppsPhase_status {m : BitVec 32} (hm : Writable m) :
    (ppsPhase cfg k).timeStatus &&& m = k.timeStatus &&& m := by
  have hjitter : Apart m staPpsjitter := Apart.of_sub hm (by decide)
  unfold ppsPhase
  dsimp only
  split_ifs <;> simp only [clear_and hjitter, set_and hjitter]

theorem ppsFrequencyUpdate_status {m : BitVec 32} (hm : Writable m) (vNsec : ℤ) :
    (ppsFrequencyUpdate cfg k vNsec).timeStatus &&& m = k.timeStatus &&& m := by
  have hwander : Apart m staPpswander := Apart.of_sub hm (by decide)
  unfold ppsFrequencyUpdate ppsWander
  dsimp only
  split_ifs <;> simp only [set_and hwander]

theorem ppsCalibrate_status {m : BitVec 32} (hm : Writable m) :
    (ppsCalibrate cfg k).timeStatus &&& m = k.timeStatus &&& m := by
  have herror : Apart m staPpserror := Apart.of_sub hm (by decide)
  unfold ppsCalibrate
  dsimp only
  split_ifs
  · rfl
  · exact set_and herror _
  · exact ppsFrequencyUpdate_status cfg _ hm _

/-- The flags a pulse writes are read-only ones. -/
theorem hardpps_status {m : BitVec 32} (hm : Writable m) (tsp : Timespec) (nsec : ℤ) :
    (hardpps cfg k tsp nsec).timeStatus &&& m = k.timeStatus &&& m := by
  have hset : Apart m (staPpssignal ||| staPpsjitter) := Apart.of_sub hm (by decide)
  have hclear : Apart m (staPpswander ||| staPpserror) := Apart.of_sub hm (by decide)
  have hsignal : (ppsSignal cfg k).timeStatus &&& m = k.timeStatus &&& m := by
    unfold ppsSignal
    dsimp only
    rw [clear_and hclear, set_and hset]
  unfold hardpps
  dsimp only
  split_ifs
  · exact hsignal
  · exact hsignal
  · rw [ppsCalibrate_status cfg _ hm, ppsPhase_status cfg _ hm]
    exact hsignal

end Hardpps

/-! ## `ntp_adjtime()` -/

section Status

variable (cfg : Config) (ntv : Timex) (k : Kernel F)

/-- `MOD_STATUS` takes the clock out of `STA_PLL`: state and status are reset. -/
def DropsPll (k : Kernel F) (ntv : Timex) : Prop :=
  has ntv.modes modStatus = true ∧ has k.timeStatus staPll = true ∧
    has ntv.status staPll = false

instance : Decidable (DropsPll k ntv) := inferInstanceAs (Decidable (_ ∧ _))

theorem adjStatus_timeState :
    (adjStatus cfg ntv k).timeState =
      if DropsPll k ntv then .ok else k.timeState := by
  by_cases hd : DropsPll k ntv
  · obtain ⟨hm, hk, hs⟩ := hd
    cases hp : cfg.ppsSync <;> simp [adjStatus, DropsPll, hm, hk, hs, hp]
  · rw [if_neg hd]
    cases hm : has ntv.modes modStatus with
    | false => simp [adjStatus, hm]
    | true =>
      have hp : (has k.timeStatus staPll && !has ntv.status staPll) = false := by
        unfold DropsPll at hd
        simpa [hm] using hd
      simp [adjStatus, hm, hp]

/-- A writable flag is the caller's after `MOD_STATUS`. -/
theorem adjStatus_status {m : BitVec 32} (hm : Writable m) :
    (adjStatus cfg ntv k).timeStatus &&& m =
      (if has ntv.modes modStatus then ntv.status else k.timeStatus) &&& m := by
  unfold adjStatus
  by_cases h : has ntv.modes modStatus = true
  · simp only [h, Bool.not_true, Bool.false_eq_true, if_false, if_true]
    exact merge_and hm _ _
  · simp only [h, Bool.not_false, if_true, Bool.false_eq_true, if_false]

theorem adjClock_status {m : BitVec 32} (hm : Writable m) :
    (adjClock ntv k).timeStatus &&& m = k.timeStatus &&& m := by
  have hnano : Apart m staNano := Apart.of_sub hm (by decide)
  have hclk : Apart m staClk := Apart.of_sub hm (by decide)
  unfold adjClock
  split_ifs <;> simp only [clear_and hnano, clear_and hclk, set_and hnano,
    set_and hclk]

theorem adjStatus_frame : adjStatus cfg ntv k = { k with
    timeState := (adjStatus cfg ntv k).timeState
    timeStatus := (adjStatus cfg ntv k).timeStatus
    pps := { k.pps with shift := (adjStatus cfg ntv k).pps.shift } } := by
  unfold adjStatus
  split_ifs <;> rfl

theorem adjError_frame : adjError ntv k = { k with
    timeMaxerror := (adjError ntv k).timeMaxerror
    timeEsterror := (adjError ntv k).timeEsterror } := by
  unfold adjError
  split_ifs <;> rfl

theorem adjConstant_frame : adjConstant cfg ntv k = { k with
    timeConstant := (adjConstant cfg ntv k).timeConstant
    timeTai := (adjConstant cfg ntv k).timeTai
    pps := { k.pps with shiftmax := (adjConstant cfg ntv k).pps.shiftmax } } := by
  unfold adjConstant
  split_ifs <;> rfl

theorem adjConstant_timeConstant : (adjConstant cfg ntv k).timeConstant =
    if has ntv.modes modTimeconst then
      if ntv.constant < 0 then 0
      else if ntv.constant > maxtc then maxtc else ntv.constant
    else k.timeConstant := by
  unfold adjConstant
  split_ifs <;> rfl

theorem adjConstant_shiftmax : (adjConstant cfg ntv k).pps.shiftmax =
    if cfg.ppsSync && has ntv.modes modPpsmax then
      if ntv.shift < ppsFavg then ppsFavg
      else if ntv.shift > ppsFavgmax then ppsFavgmax else ntv.shift
    else k.pps.shiftmax := by
  unfold adjConstant
  split_ifs <;> rfl

theorem adjClock_frame : adjClock ntv k =
    { k with timeStatus := (adjClock ntv k).timeStatus } := rfl

/-- The variables as `MOD_OFFSET` finds them. -/
def adjBeforeOffset (cfg : Config) (ntv : Timex) (k : Kernel F) : Kernel F :=
  adjClock ntv (adjConstant cfg ntv (adjStatus cfg ntv (adjError ntv k)))

theorem adjBeforeOffset_frame : adjBeforeOffset cfg ntv k = { k with
    timeState := (adjBeforeOffset cfg ntv k).timeState
    timeStatus := (adjBeforeOffset cfg ntv k).timeStatus
    timeTai := (adjBeforeOffset cfg ntv k).timeTai
    timeConstant := (adjBeforeOffset cfg ntv k).timeConstant
    timeMaxerror := (adjBeforeOffset cfg ntv k).timeMaxerror
    timeEsterror := (adjBeforeOffset cfg ntv k).timeEsterror
    pps := { k.pps with
      shift := (adjBeforeOffset cfg ntv k).pps.shift
      shiftmax := (adjBeforeOffset cfg ntv k).pps.shiftmax } } := by
  unfold adjBeforeOffset
  rw [adjClock_frame, adjConstant_frame, adjStatus_frame, adjError_frame]

end Status

section Adjtime

variable [LFp F] (cfg : Config) (ntv : Timex) (k : Kernel F) (tvSec : ℤ)

theorem adjFrequency_frame : adjFrequency cfg ntv k = { k with
    timeFreq := (adjFrequency cfg ntv k).timeFreq
    pps := { k.pps with freq := (adjFrequency cfg ntv k).pps.freq } } := by
  unfold adjFrequency
  split_ifs <;> rfl

/-- `MOD_OFFSET` is a call of `hardupdate`. -/
theorem adjOffset_eq : adjOffset cfg tvSec ntv k = k ∨
    ∃ offset, adjOffset cfg tvSec ntv k = hardupdate cfg k tvSec offset := by
  unfold adjOffset
  split_ifs
  · exact Or.inl rfl
  · exact Or.inr ⟨_, rfl⟩
  · exact Or.inr ⟨_, rfl⟩

@[simp] theorem adjOffset_timeState :
    (adjOffset cfg tvSec ntv k).timeState = k.timeState := by
  rcases adjOffset_eq cfg ntv k tvSec with h | ⟨offset, h⟩ <;> simp [h]

@[simp] theorem adjOffset_timeTai :
    (adjOffset cfg tvSec ntv k).timeTai = k.timeTai := by
  rcases adjOffset_eq cfg ntv k tvSec with h | ⟨offset, h⟩ <;> simp [h]

theorem adjOffset_status {m : BitVec 32} (hm : Writable m) :
    (adjOffset cfg tvSec ntv k).timeStatus &&& m = k.timeStatus &&& m := by
  rcases adjOffset_eq cfg ntv k tvSec with h | ⟨offset, h⟩
  · rw [h]
  · rw [h]
    exact hardupdate_status cfg k tvSec offset (Apart.of_sub hm (by decide))

/-- Of the status word `MOD_OFFSET` writes `STA_MODE` alone. -/
theorem adjOffset_status_of_apart {m : BitVec 32} (hm : Apart m staMode) :
    (adjOffset cfg tvSec ntv k).timeStatus &&& m = k.timeStatus &&& m := by
  rcases adjOffset_eq cfg ntv k tvSec with h | ⟨offset, h⟩
  · rw [h]
  · rw [h]
    exact hardupdate_status cfg k tvSec offset hm

/-- The argument of `hardupdate`, in nanoseconds. -/
def adjNsec (cfg : Config) (ntv : Timex) (k : Kernel F) : ℤ :=
  if has k.timeStatus staNano then ntv.offset else cfg.long (ntv.offset * 1000)

theorem adjKernel_eq_beforeOffset : adjKernel cfg k tvSec ntv =
    adjFrequency cfg ntv (adjOffset cfg tvSec ntv (adjBeforeOffset cfg ntv k)) := rfl

theorem adjOffset_of_modOffset (h : has ntv.modes modOffset = true) :
    adjOffset cfg tvSec ntv k = hardupdate cfg k tvSec (adjNsec cfg ntv k) := by
  unfold adjOffset adjNsec
  simp only [h, Bool.not_true, Bool.false_eq_true, if_false]
  split_ifs <;> rfl

theorem adjOffset_of_not (h : has ntv.modes modOffset = false) :
    adjOffset cfg tvSec ntv k = k := by
  unfold adjOffset
  rw [h]
  rfl

theorem adjFrequency_of_not (h : has ntv.modes modFrequency = false) :
    adjFrequency cfg ntv k = k := by
  unfold adjFrequency
  rw [h]
  rfl

theorem adjKernel_eq : adjKernel cfg k tvSec ntv =
    adjFrequency cfg ntv (adjOffset cfg tvSec ntv (adjClock ntv
      (adjConstant cfg ntv (adjStatus cfg ntv (adjError ntv k))))) := rfl

/-- Without mode bits the call only reads. -/
theorem adjKernel_of_modes_zero (h : ntv.modes = 0) : adjKernel cfg k tvSec ntv = k := by
  unfold adjKernel adjFrequency adjOffset adjClock adjConstant adjStatus adjError
  simp only [h, has_zero, Bool.not_false, Bool.false_and, Bool.and_false, if_true,
    Bool.false_eq_true, if_false]

/-- The state after `ntp_adjtime`: reset if `STA_PLL` was dropped. -/
theorem adjKernel_timeState :
    (adjKernel cfg k tvSec ntv).timeState =
      if DropsPll k ntv then .ok else k.timeState := by
  have hdrop : DropsPll (adjError ntv k) ntv ↔ DropsPll k ntv := by
    rw [adjError_frame]
    rfl
  unfold adjKernel
  rw [adjFrequency_frame]
  simp only [adjOffset_timeState]
  rw [adjClock_frame, adjConstant_frame]
  simp only [adjStatus_timeState, hdrop]
  rw [adjError_frame]

/-- The TAI offset after `ntp_adjtime`. -/
theorem adjKernel_timeTai :
    (adjKernel cfg k tvSec ntv).timeTai =
      if has ntv.modes modTai && ntv.constant > 0 then ntv.constant
      else k.timeTai := by
  have hconst : ∀ k : Kernel F, (adjConstant cfg ntv k).timeTai =
      if has ntv.modes modTai && ntv.constant > 0 then ntv.constant
      else k.timeTai := by
    intro k
    unfold adjConstant
    split_ifs <;> rfl
  unfold adjKernel
  rw [adjFrequency_frame]
  simp only [adjOffset_timeTai]
  rw [adjClock_frame]
  simp only [hconst]
  rw [adjStatus_frame, adjError_frame]

/-- `MOD_OFFSET` writes the variables `hardupdate` writes. -/
theorem adjOffset_frame : adjOffset cfg tvSec ntv k = { k with
    timeMonitor := (adjOffset cfg tvSec ntv k).timeMonitor
    timeOffset := (adjOffset cfg tvSec ntv k).timeOffset
    timeReftime := (adjOffset cfg tvSec ntv k).timeReftime
    timeFreq := (adjOffset cfg tvSec ntv k).timeFreq
    timeStatus := (adjOffset cfg tvSec ntv k).timeStatus } := by
  rcases adjOffset_eq cfg ntv k tvSec with h | ⟨offset, h⟩
  · rw [h]
  · rw [h, hardupdate_frame]

/-- The variables a call may write. -/
theorem adjKernel_frame : adjKernel cfg k tvSec ntv = { k with
    timeState := (adjKernel cfg k tvSec ntv).timeState
    timeStatus := (adjKernel cfg k tvSec ntv).timeStatus
    timeTai := (adjKernel cfg k tvSec ntv).timeTai
    timeMonitor := (adjKernel cfg k tvSec ntv).timeMonitor
    timeConstant := (adjKernel cfg k tvSec ntv).timeConstant
    timeMaxerror := (adjKernel cfg k tvSec ntv).timeMaxerror
    timeEsterror := (adjKernel cfg k tvSec ntv).timeEsterror
    timeReftime := (adjKernel cfg k tvSec ntv).timeReftime
    timeOffset := (adjKernel cfg k tvSec ntv).timeOffset
    timeFreq := (adjKernel cfg k tvSec ntv).timeFreq
    pps := { k.pps with
      shift := (adjKernel cfg k tvSec ntv).pps.shift
      shiftmax := (adjKernel cfg k tvSec ntv).pps.shiftmax
      freq := (adjKernel cfg k tvSec ntv).pps.freq } } := by
  rw [adjKernel_eq_beforeOffset, adjFrequency_frame, adjOffset_frame, adjBeforeOffset_frame]

@[simp] theorem adjKernel_timePhase :
    (adjKernel cfg k tvSec ntv).timePhase = k.timePhase := by
  rw [adjKernel_frame]

/-- The time constant after `ntp_adjtime` is the caller's with `MOD_TIMECONST`. -/
theorem adjKernel_timeConstant : (adjKernel cfg k tvSec ntv).timeConstant =
    if has ntv.modes modTimeconst then
      if ntv.constant < 0 then 0
      else if ntv.constant > maxtc then maxtc else ntv.constant
    else k.timeConstant := by
  rw [adjKernel_eq, adjFrequency_frame, adjOffset_frame, adjClock_frame]
  dsimp only
  rw [adjConstant_timeConstant, adjStatus_frame, adjError_frame]

/-- The maximum error after `ntp_adjtime` is the caller's with `MOD_MAXERROR`. -/
theorem adjKernel_timeMaxerror : (adjKernel cfg k tvSec ntv).timeMaxerror =
    if has ntv.modes modMaxerror then ntv.maxerror else k.timeMaxerror := by
  have herror : (adjError ntv k).timeMaxerror =
      if has ntv.modes modMaxerror then ntv.maxerror else k.timeMaxerror := by
    unfold adjError
    split_ifs <;> rfl
  have hoffset : ∀ k : Kernel F, (adjOffset cfg tvSec ntv k).timeMaxerror
      = k.timeMaxerror := by
    intro k
    rcases adjOffset_eq cfg ntv k tvSec with h | ⟨offset, h⟩
    · rw [h]
    · rw [h, hardupdate_frame]
  rw [adjKernel_eq, adjFrequency_frame]
  dsimp only
  rw [hoffset, adjClock_frame, adjConstant_frame, adjStatus_frame]
  exact herror

/-- The writable flags after `ntp_adjtime` are the caller's with `MOD_STATUS`
and unchanged without. -/
theorem adjKernel_status {m : BitVec 32} (hm : Writable m) :
    (adjKernel cfg k tvSec ntv).timeStatus &&& m =
      (if has ntv.modes modStatus then ntv.status else k.timeStatus) &&& m := by
  unfold adjKernel
  rw [adjFrequency_frame]
  simp only [adjOffset_status cfg ntv _ tvSec hm, adjClock_status ntv _ hm]
  rw [adjConstant_frame]
  simp only [adjStatus_status cfg ntv _ hm]
  rw [adjError_frame]

end Adjtime

end Nanokernel
