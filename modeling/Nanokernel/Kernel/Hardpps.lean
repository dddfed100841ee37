import Nanokernel.Kernel.Ktime

/-!
# `hardpps()`

The pulse-per-second discipline, compiled under `PPS_SYNC`. The routine
returns from the middle several times; it is cut where it may return.
-/

namespace Nanokernel

variable {F : Type} [LFp F]

/-- The pulse as an offset from the nearest second. -/
def pulseOffset (tsp : Timespec) : Timespec :=
  if tsp.tvNsec ≥ nanosecond / 2 then
    ⟨tsp.tvSec + 1, tsp.tvNsec - nanosecond⟩
  else tsp

/-- A pulse arrived: the signal is present. -/
def ppsSignal (cfg : Config) (k : Kernel F) : Kernel F :=
  { k with
    timeTick := nanosecond.tdiv cfg.hz
    timeStatus := (k.timeStatus ||| (staPpssignal ||| staPpsjitter)) &&&
      ~~~(staPpswander ||| staPpserror)
    pps := { k.pps with valid := ppsValid } }

/-- The difference of the counter values, corrected for a wrapped second and
for a tick boundary. -/
def counterDiff (cfg : Config) (timeTick lastcount nsec : ℤ) : ℤ :=
  let uNsec := cfg.long (nsec - lastcount)
  let uNsec :=
    if uNsec > nanosecond / 2 then uNsec - nanosecond
    else if uNsec < -(nanosecond / 2) then uNsec + nanosecond
    else uNsec
  if uNsec > timeTick / 2 then uNsec - timeTick
  else if uNsec < -(timeTick / 2) then uNsec + timeTick
  else uNsec

/-- Keep the pulse and count the counter difference. -/
def ppsSample (cfg : Config) (k : Kernel F) (pulse : Timespec) (nsec : ℤ) :
    Kernel F :=
  { k with pps := { k.pps with
      tf2 := k.pps.tf1
      tf1 := k.pps.tf0
      tf0 := pulse
      fcount := cfg.long
        (k.pps.fcount + counterDiff cfg k.timeTick k.pps.lastcount nsec)
      lastcount := nsec } }

/-- The median of the three stages, and the difference of the other two. -/
def medianFilter (t0 t1 t2 : ℤ) : ℤ × ℤ :=
  if t0 > t1 then
    if t1 > t2 then (t1, t0 - t2)
    else if t2 > t0 then (t0, t2 - t1)
    else (t2, t0 - t1)
  else
    if t1 < t2 then (t1, t2 - t0)
    else if t2 < t0 then (t0, t1 - t2)
    else (t2, t1 - t0)

/-- The phase loop: popcorn spikes are discarded, other samples become the
time offset if so enabled. -/
def ppsPhase (cfg : Config) (k : Kernel F) : Kernel F :=
  let samples :=
    medianFilter k.pps.tf0.tvNsec k.pps.tf1.tvNsec k.pps.tf2.tvNsec
  let vNsec := samples.1
  let uNsec := samples.2
  let k : Kernel F :=
    { k with timeStatus := k.timeStatus &&& ~~~staPpsjitter }
  let k :=
    if uNsec > cfg.long (k.pps.jitter <<< ppsPopcorn.toNat) then
      { k with
        timeStatus := k.timeStatus ||| staPpsjitter
        pps := { k.pps with jitcnt := cfg.long (k.pps.jitcnt + 1) } }
    else if has k.timeStatus staPpstime then
      { k with timeMonitor := -vNsec, timeOffset := lLint (-vNsec) }
    else k
  { k with pps := { k.pps with
      jitter := cfg.long (k.pps.jitter
        + cfg.long (uNsec - k.pps.jitter) >>> ppsFavg.toNat) } }

/-- The wander, clamped, and the counters it moves. -/
def ppsWander (cfg : Config) (k : Kernel F) (ftemp : F) : Kernel F × F :=
  let wander := { k with
    timeStatus := k.timeStatus ||| staPpswander
    pps := { k.pps with
      intcnt := k.pps.intcnt - 1
      stbcnt := cfg.long (k.pps.stbcnt + 1) } }
  if lGint ftemp > ppsMaxwander then (wander, lLint ppsMaxwander)
  else if lGint ftemp < -ppsMaxwander then (wander, lLint (-ppsMaxwander))
  else ({ k with pps := { k.pps with intcnt := k.pps.intcnt + 1 } }, ftemp)

/-- Four quiet intervals double the averaging interval, four noisy ones
halve it. -/
def ppsInterval (pps : Pps F) : Pps F :=
  if pps.intcnt ≥ 4 then
    if pps.shift < pps.shiftmax then
      { pps with shift := pps.shift + 1, intcnt := 0 }
    else { pps with intcnt := 4 }
  else if pps.intcnt ≤ -4 then
    if pps.shift > ppsFavg then
      { pps with shift := pps.shift - 1, intcnt := 0 }
    else { pps with intcnt := -4 }
  else pps

/-- The frequency loop at the end of a good calibration interval; `pps_freq` is
clamped as `time_freq` is in `hardupdate()`. -/
def ppsFrequencyUpdate (cfg : Config) (k : Kernel F) (vNsec : ℤ) : Kernel F :=
  let ftemp := lSub (lRshift (lLint vNsec) k.pps.shift.toNat) k.pps.freq
  let uNsec := cfg.long |lGint ftemp|
  let (k, ftemp) := ppsWander cfg k ftemp
  let pps := ppsInterval k.pps
  let k := { k with pps := { pps with
    stabil := cfg.long (pps.stabil
      + cfg.long (cfg.long (uNsec * scalePpm) - pps.stabil) >>> ppsFavg.toNat)
    freq := clampFreq (lAdd pps.freq ftemp) } }
  if has k.timeStatus staPpsfreq then { k with timeFreq := k.pps.freq } else k

/-- The end of the calibration interval: the counter is read off, and a
frequency out of range or an interval of the wrong length is an error. -/
def ppsCalibrate (cfg : Config) (k : Kernel F) : Kernel F :=
  let uSec := cfg.long (k.pps.tf0.tvSec - k.pps.lastsec)
  if uSec < 1 <<< k.pps.shift.toNat then k
  else
    let vNsec := cfg.long (-k.pps.fcount)
    let uNsec := cfg.long (maxfreq <<< k.pps.shift.toNat)
    let k := { k with pps := { k.pps with
      calcnt := cfg.long (k.pps.calcnt + 1)
      lastsec := k.pps.tf0.tvSec
      fcount := 0 } }
    if vNsec > uNsec || vNsec < cfg.long (-uNsec) ||
        uSec != 1 <<< k.pps.shift.toNat then
      { k with
        timeStatus := k.timeStatus ||| staPpserror
        pps := { k.pps with errcnt := cfg.long (k.pps.errcnt + 1) } }
    else ppsFrequencyUpdate cfg k vNsec

/-- `hardpps()`. -/
def hardpps (cfg : Config) (k : Kernel F) (tsp : Timespec) (nsec : ℤ) :
    Kernel F :=
  let k := ppsSignal cfg k
  let pulse := pulseOffset tsp
  let vNsec := cfg.long (pulse.tvNsec - k.pps.tf0.tvNsec)
  if pulse.tvSec = k.pps.tf0.tvSec ∧ vNsec < nanosecond - maxfreq then k
  else
    let k := ppsSample cfg k pulse nsec
    if vNsec > maxfreq ∨ vNsec < -maxfreq then k
    else ppsCalibrate cfg (ppsPhase cfg k)

end Nanokernel
