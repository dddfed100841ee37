import Nanokernel.Kernel.State

/-!
# The clock discipline of `ktime.c`

`ntp_tick_adjust`, `second_overflow`, `hardupdate` and `ntp_adjtime`, each
passing the kernel variables and the clock it was given a pointer to. The long
routines are cut at the comments of the source; every piece keeps the order of
its assignments.
-/

namespace Nanokernel

variable {F : Type} [LFp F]

/-! ## `ntp_tick_adjust()` -/

/-- Add `time_adj` to the phase and take out whole clock units; `unit` is
`hz` for the nanosecond clock and `1000 * hz` for the microsecond clock. -/
def tickPhase (cfg : Config) (k : Kernel F) (unit : ℤ) : F × ℤ :=
  let phase := lAdd k.timePhase k.timeAdj
  let ltemp := cfg.long ((lGint phase).tdiv unit)
  (lAddhi phase (cfg.long (-ltemp * unit)), ltemp)

/-- `ntp_tick_adjust()` with `NTP_NANO`. -/
def ntpTickAdjust (cfg : Config) (k : Kernel F) (tvp : Timespec)
    (tickUpdate : ℤ) : Kernel F × Timespec :=
  let (phase, ltemp) := tickPhase cfg k cfg.hz
  let timeUpdate := cfg.long (tickUpdate + ltemp)
  ({ k with timePhase := phase },
    { tvp with tvNsec := cfg.long (tvp.tvNsec + timeUpdate) })

/-- `ntp_tick_adjust()` without `NTP_NANO`; the last component is
`time_nano`. -/
def ntpTickAdjustMicro (cfg : Config) (k : Kernel F) (tvp : Timeval)
    (tickUpdate : ℤ) : Kernel F × Timeval × ℤ :=
  let (phase, ltemp) := tickPhase cfg k (1000 * cfg.hz)
  let timeUpdate := cfg.long (tickUpdate + ltemp)
  ({ k with timePhase := phase },
    { tvp with tvUsec := cfg.long (tvp.tvUsec + timeUpdate) },
    cfg.long ((lGint phase).tdiv cfg.hz))

/-! ## `second_overflow()` -/

/-- Leap second processing: the `switch` on `time_state`, on the seconds
already counted up. The seconds and `time_tai` are integers here: each moves by
one at a time. -/
def leapSecond (k : Kernel F) (tvSec : ℤ) : Kernel F × ℤ :=
  match k.timeState with
  | .ok =>
    if has k.timeStatus staIns then ({ k with timeState := .ins }, tvSec)
    else if has k.timeStatus staDel then ({ k with timeState := .del }, tvSec)
    else (k, tvSec)
  | .ins =>
    if !has k.timeStatus staIns then ({ k with timeState := .ok }, tvSec)
    else if tvSec.tmod 86400 = 0 then
      ({ k with timeState := .oop }, tvSec - 1)
    else (k, tvSec)
  | .del =>
    if !has k.timeStatus staDel then ({ k with timeState := .ok }, tvSec)
    else if (tvSec + 1).tmod 86400 = 0 then
      ({ k with timeState := .wait, timeTai := k.timeTai - 1 }, tvSec + 1)
    else (k, tvSec)
  | .oop =>
    ({ k with timeState := .wait, timeTai := k.timeTai + 1 }, tvSec)
  | .wait =>
    if !has k.timeStatus (staIns ||| staDel) then
      ({ k with timeState := .ok }, tvSec)
    else (k, tvSec)

/-- The PPS signal is present and enabled to discipline the time. -/
def ppsTime (k : Kernel F) : Bool :=
  has k.timeStatus staPpstime && has k.timeStatus staPpssignal

/-- The shift that amortises the offset. -/
def amortShift (cfg : Config) (k : Kernel F) : ℕ :=
  if cfg.ppsSync && ppsTime k then k.pps.shift.toNat
  else (shiftPll + k.timeConstant).toNat

/-- The total time adjustment for the next second. -/
def nextAdj (cfg : Config) (k : Kernel F) : Kernel F :=
  let ftemp := lRshift k.timeOffset (amortShift cfg k)
  { k with
    timeAdj := lAddhi (lAdd ftemp k.timeFreq) nanosecond
    timeOffset := lSub k.timeOffset ftemp }

/-- The PPS watchdog. -/
def ppsWatchdog (cfg : Config) (k : Kernel F) : Kernel F :=
  if !cfg.ppsSync then k
  else if k.pps.valid > 0 then
    { k with pps := { k.pps with valid := k.pps.valid - 1 } }
  else { k with timeStatus := k.timeStatus &&& ~~~staPpssignal }

/-- What `second_overflow()` does at a rollover, on the seconds before it. -/
def rollover (cfg : Config) (k : Kernel F) (tvSec : ℤ) : Kernel F × ℤ :=
  let k := { k with timeMaxerror := cfg.long (k.timeMaxerror + maxfreq / 1000) }
  let (k, tvSec) := leapSecond k (tvSec + 1)
  (ppsWatchdog cfg (nextAdj cfg k), tvSec)

/-- `second_overflow()` with `NTP_NANO`. -/
def secondOverflow (cfg : Config) (k : Kernel F) (tvp : Timespec) :
    Kernel F × Timespec :=
  if tvp.tvNsec ≥ nanosecond then
    let (k, tvSec) := rollover cfg k tvp.tvSec
    (k, ⟨tvSec, tvp.tvNsec - nanosecond⟩)
  else (k, tvp)

/-- `second_overflow()` without `NTP_NANO`. -/
def secondOverflowMicro (cfg : Config) (k : Kernel F) (tvp : Timeval) :
    Kernel F × Timeval :=
  if tvp.tvUsec ≥ 1000000 then
    let (k, tvSec) := rollover cfg k tvp.tvSec
    (k, ⟨tvSec, tvp.tvUsec - 1000000⟩)
  else (k, tvp)

/-! ## `hardupdate()` -/

/-- Clamp a phase or frequency in whole units. -/
def clamp (limit x : ℤ) : ℤ :=
  if x > limit then limit else if x < -limit then -limit else x

/-- The final clamp of a frequency variable. -/
def clampFreq (freq : F) : F :=
  if lGint freq > maxfreq then lLint maxfreq
  else if lGint freq < -maxfreq then lLint (-maxfreq)
  else freq

/-- The PPS signal is present and enabled to discipline the frequency. -/
def ppsFrequency (k : Kernel F) : Bool :=
  has k.timeStatus staPpsfreq && has k.timeStatus staPpssignal

/-- Select how the phase is to be controlled. -/
def updatePhase (k : Kernel F) (offset : ℤ) : Kernel F :=
  if ppsTime k then k
  else
    { k with
      timeMonitor := clamp maxphase offset
      timeOffset := lLint (clamp maxphase offset) }

/-- A held frequency, or the first update, starts the interval over. -/
def updateReftime (k : Kernel F) (tvSec : ℤ) : Kernel F :=
  if has k.timeStatus staFreqhold || k.timeReftime == 0 then
    { k with timeReftime := tvSec }
  else k

/-- The PLL frequency term. -/
def pllTerm (k : Kernel F) (mtemp : ℤ) : F :=
  lMpy (lRshift (lLint k.timeMonitor)
    ((shiftPll + 2 + k.timeConstant).toNat <<< 1)) mtemp

/-- The interval and the status bit select the FLL. -/
def fllSelected (k : Kernel F) (mtemp : ℤ) : Bool :=
  mtemp ≥ minsec && (has k.timeStatus staFll || mtemp > maxsec)

/-- The FLL frequency term. -/
def fllTerm (cfg : Config) (k : Kernel F) (mtemp : ℤ) : F :=
  lRshift (lLint ((cfg.long (k.timeMonitor <<< (4 : ℕ))).tdiv mtemp))
    (shiftFll + 4).toNat

/-- Select how the frequency is to be controlled, PLL or FLL. -/
def updateFrequency (cfg : Config) (k : Kernel F) (tvSec : ℤ) : Kernel F :=
  let k := updateReftime k tvSec
  let mtemp := cfg.long (tvSec - k.timeReftime)
  let k := { k with
    timeFreq := lAdd k.timeFreq (pllTerm k mtemp)
    timeStatus := k.timeStatus &&& ~~~staMode }
  let k := if fllSelected k mtemp then
      { k with
        timeFreq := lAdd k.timeFreq (fllTerm cfg k mtemp)
        timeStatus := k.timeStatus ||| staMode }
    else k
  { k with timeReftime := tvSec, timeFreq := clampFreq k.timeFreq }

/-- `hardupdate()`. Of the clock it reads `tv_sec` only. -/
def hardupdate (cfg : Config) (k : Kernel F) (tvSec offset : ℤ) : Kernel F :=
  if !has k.timeStatus staPll then k
  else
    let k := updatePhase k offset
    if ppsFrequency k then { k with timeReftime := tvSec }
    else updateFrequency cfg k tvSec

/-! ## `ntp_adjtime()` -/

/-- `MOD_STATUS`: dropping `STA_PLL` resets the state and the status word
before the read/write bits are merged in. -/
def adjStatus (cfg : Config) (ntv : Timex) (k : Kernel F) : Kernel F :=
  if !has ntv.modes modStatus then k
  else
    let k := if has k.timeStatus staPll && !has ntv.status staPll then
        let k := { k with timeState := .ok, timeStatus := staUnsync }
        if cfg.ppsSync then { k with pps := { k.pps with shift := ppsFavg } }
        else k
      else k
    { k with
      timeStatus := k.timeStatus &&& staRonly ||| ntv.status &&& ~~~staRonly }

/-- `MOD_MAXERROR` and `MOD_ESTERROR`. -/
def adjError (ntv : Timex) (k : Kernel F) : Kernel F :=
  let k := if has ntv.modes modMaxerror then
      { k with timeMaxerror := ntv.maxerror } else k
  if has ntv.modes modEsterror then { k with timeEsterror := ntv.esterror }
  else k

/-- `MOD_TIMECONST`, `MOD_TAI` and `MOD_PPSMAX`. -/
def adjConstant (cfg : Config) (ntv : Timex) (k : Kernel F) : Kernel F :=
  let k := if has ntv.modes modTimeconst then
      { k with timeConstant :=
          if ntv.constant < 0 then 0
          else if ntv.constant > maxtc then maxtc
          else ntv.constant }
    else k
  let k := if has ntv.modes modTai && ntv.constant > 0 then
      { k with timeTai := ntv.constant } else k
  if cfg.ppsSync && has ntv.modes modPpsmax then
    { k with pps := { k.pps with shiftmax :=
        if ntv.shift < ppsFavg then ppsFavg
        else if ntv.shift > ppsFavgmax then ppsFavgmax
        else ntv.shift } }
  else k

/-- `MOD_NANO`, `MOD_MICRO`, `MOD_CLKB` and `MOD_CLKA`. -/
def adjClock (ntv : Timex) (k : Kernel F) : Kernel F :=
  let st := k.timeStatus
  let st := if has ntv.modes modNano then st ||| staNano else st
  let st := if has ntv.modes modMicro then st &&& ~~~staNano else st
  let st := if has ntv.modes modClkb then st ||| staClk else st
  let st := if has ntv.modes modClka then st &&& ~~~staClk else st
  { k with timeStatus := st }

/-- `MOD_OFFSET`: the offset is in the unit the status word selects. -/
def adjOffset (cfg : Config) (tvSec : ℤ) (ntv : Timex) (k : Kernel F) :
    Kernel F :=
  if !has ntv.modes modOffset then k
  else if has k.timeStatus staNano then hardupdate cfg k tvSec ntv.offset
  else hardupdate cfg k tvSec (cfg.long (ntv.offset * 1000))

/-- `MOD_FREQUENCY`. -/
def adjFrequency (cfg : Config) (ntv : Timex) (k : Kernel F) : Kernel F :=
  if !has ntv.modes modFrequency then k
  else
    let k := { k with timeFreq := lLint (clamp maxfreq (ntv.freq.tdiv scalePpm)) }
    if cfg.ppsSync then { k with pps := { k.pps with freq := k.timeFreq } }
    else k

/-- What the call changes, in the order of the source. -/
def adjKernel (cfg : Config) (k : Kernel F) (tvSec : ℤ) (ntv : Timex) :
    Kernel F :=
  let k := adjError ntv k
  let k := adjStatus cfg ntv k
  let k := adjConstant cfg ntv k
  let k := adjClock ntv k
  let k := adjOffset cfg tvSec ntv k
  adjFrequency cfg ntv k

/-- The clock variables copied out. -/
def adjReport (cfg : Config) (k : Kernel F) (ntv : Timex) : Timex :=
  let ntv := { ntv with
    offset := if has k.timeStatus staNano then k.timeMonitor
      else k.timeMonitor.tdiv 1000
    freq := cfg.long (lGint k.timeFreq * scalePpm)
    maxerror := k.timeMaxerror
    esterror := k.timeEsterror
    status := k.timeStatus
    constant := k.timeConstant
    precision := if has k.timeStatus staNano then k.timePrecision
      else k.timePrecision.tdiv 1000
    tolerance := maxfreq * scalePpm }
  if cfg.ppsSync then
    { ntv with
      shift := k.pps.shift
      ppsfreq := cfg.long (lGint k.pps.freq * scalePpm)
      jitter := if has k.timeStatus staNano then k.pps.jitter
        else k.pps.jitter.tdiv 1000
      stabil := k.pps.stabil
      calcnt := k.pps.calcnt
      errcnt := k.pps.errcnt
      jitcnt := k.pps.jitcnt
      stbcnt := k.pps.stbcnt }
  else ntv

/-- Status word error decode, and the clock state otherwise. -/
def returnCode (k : Kernel F) : ℤ :=
  let st := k.timeStatus
  if has st (staUnsync ||| staClockerr) ||
      (has st (staPpsfreq ||| staPpstime) && !has st staPpssignal) ||
      (has st staPpstime && has st staPpsjitter) ||
      (has st staPpsfreq && has st (staPpswander ||| staPpserror)) then
    timeError
  else k.timeState.code

/-- `ntp_adjtime()`, for the superuser (`ROOT` is 0): the new state, the
structure copied out and the return code. -/
def ntpAdjtime (cfg : Config) (k : Kernel F) (tvSec : ℤ) (tp : Timex) :
    Kernel F × Timex × ℤ :=
  let k := adjKernel cfg k tvSec tp
  (k, adjReport cfg k tp, returnCode k)

end Nanokernel
