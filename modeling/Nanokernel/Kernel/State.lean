import Nanokernel.Arithmetic.LFp
import Nanokernel.Foundation.SignedWord
import Nanokernel.Kernel.Timex

/-!
# The variables of `ktime.c`

One record for the globals, generic in the fixed-point type, and one for the
build: the width of `long`, `PPS_SYNC` and the tick rate `hz`.
-/

namespace Nanokernel

/-- The width of `long`. -/
inductive LongWidth where
  | ilp32
  | lp64
deriving DecidableEq, Repr

def LongWidth.bits : LongWidth → ℕ
  | .ilp32 => 32
  | .lp64 => 64

theorem LongWidth.bits_pos (w : LongWidth) : 0 < w.bits := by
  cases w <;> decide

/-- The value a `long` variable holds after it is assigned `x`. -/
def LongWidth.long (w : LongWidth) (x : ℤ) : ℤ := x.bmod (2 ^ w.bits)

theorem LongWidth.long_of_fits (w : LongWidth) {x : ℤ} (h : SignedWord.Fits w.bits x) :
    w.long x = x :=
  SignedWord.bmod_of_fits w.bits_pos h

structure Config where
  longWidth : LongWidth
  ppsSync : Bool
  hz : ℤ
deriving DecidableEq, Repr

def Config.long (cfg : Config) (x : ℤ) : ℤ := cfg.longWidth.long x

/-- The integers a `long` holds. -/
def Config.Fits (cfg : Config) (x : ℤ) : Prop :=
  SignedWord.Fits cfg.longWidth.bits x

instance (cfg : Config) (x : ℤ) : Decidable (cfg.Fits x) :=
  inferInstanceAs (Decidable (SignedWord.Fits _ _))

/-- Either width of `long` holds the 32-bit integers. -/
theorem Config.fits_of_fits (cfg : Config) {x : ℤ} (h : SignedWord.Fits 32 x) :
    cfg.Fits x := by
  unfold Config.Fits
  cases cfg.longWidth with
  | ilp32 => exact h
  | lp64 =>
    have hlo := h.1
    have hhi := h.2
    exact ⟨by simp only [LongWidth.bits]; omega, by simp only [LongWidth.bits]; omega⟩

theorem Config.fits_long (cfg : Config) (x : ℤ) : cfg.Fits (cfg.long x) :=
  SignedWord.fits_bmod _ x

/-- A `long` keeps the integers it holds, and no other. -/
theorem Config.long_eq_iff (cfg : Config) {x : ℤ} : cfg.long x = x ↔ cfg.Fits x := by
  constructor
  · intro h
    rw [← h]
    exact cfg.fits_long x
  · exact cfg.longWidth.long_of_fits

theorem Config.long_of_fits (cfg : Config) {x : ℤ} (h : SignedWord.Fits 32 x) :
    cfg.long x = x :=
  cfg.long_eq_iff.mpr (cfg.fits_of_fits h)

/-! ## Loop parameters -/

def shiftPll : ℤ := 4
def shiftFll : ℤ := 2

def ppsFavg : ℤ := 2
def ppsFavgdef : ℤ := 8
def ppsFavgmax : ℤ := 15
def ppsValid : ℤ := 120
def ppsMaxwander : ℤ := 100000
def ppsPopcorn : ℤ := 2

/-! ## State -/

/-- The variables under `PPS_SYNC`. -/
structure Pps (F : Type) where
  tf0 : Timespec
  tf1 : Timespec
  tf2 : Timespec
  freq : F
  fcount : ℤ
  jitter : ℤ
  stabil : ℤ
  lastcount : ℤ
  lastsec : ℤ
  valid : ℤ
  shift : ℤ
  shiftmax : ℤ
  intcnt : ℤ
  calcnt : ℤ
  jitcnt : ℤ
  stbcnt : ℤ
  errcnt : ℤ
deriving DecidableEq, Repr

structure Kernel (F : Type) where
  timeState : TimeState
  timeStatus : BitVec 32
  timeTai : ℤ
  timeMonitor : ℤ
  timeConstant : ℤ
  timePrecision : ℤ
  timeMaxerror : ℤ
  timeEsterror : ℤ
  timeReftime : ℤ
  timeTick : ℤ
  timeOffset : F
  timeFreq : F
  timeAdj : F
  timePhase : F
  pps : Pps F
deriving DecidableEq, Repr

variable {F : Type} [LFp F]

/-- The variables as the compiler initialises them. -/
def Kernel.static : Kernel F where
  timeState := .ok
  timeStatus := staUnsync
  timeTai := 0
  timeMonitor := 0
  timeConstant := 0
  timePrecision := 1
  timeMaxerror := maxphase / 1000
  timeEsterror := maxphase / 1000
  timeReftime := 0
  timeTick := 0
  timeOffset := lClr
  timeFreq := lClr
  timeAdj := lClr
  timePhase := lClr
  pps :=
    { tf0 := ⟨0, 0⟩
      tf1 := ⟨0, 0⟩
      tf2 := ⟨0, 0⟩
      freq := lClr
      fcount := 0
      jitter := 0
      stabil := 0
      lastcount := 0
      lastsec := 0
      valid := 0
      shift := ppsFavg
      shiftmax := ppsFavgdef
      intcnt := 0
      calcnt := 0
      jitcnt := 0
      stbcnt := 0
      errcnt := 0 }

/-- `ntp_init()`. -/
def ntpInit (cfg : Config) (k : Kernel F) : Kernel F :=
  let k := { k with
    timeTick := nanosecond.tdiv cfg.hz
    timeOffset := lClr
    timeFreq := lClr
    timeAdj := lLint nanosecond
    timePhase := lClr }
  if cfg.ppsSync then
    { k with pps := { k.pps with
        tf0 := ⟨0, 0⟩, tf1 := ⟨0, 0⟩, tf2 := ⟨0, 0⟩, fcount := 0, freq := lClr } }
  else k

/-- The state after start-up: the static values, then `ntp_init()`. -/
def Kernel.boot (cfg : Config) : Kernel F := ntpInit cfg Kernel.static

end Nanokernel
