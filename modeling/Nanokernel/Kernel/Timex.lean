import Mathlib.Data.BitVec

/-!
# `timex.h`: constants and the API structure

Status and mode words are 32-bit words. A C `long` field is an integer; the
width of `long` enters where the code computes with it (`Config.long`). The
two fields of a clock reading, and the other counts of whole seconds, are
counted in `ℤ`.
-/

namespace Nanokernel

/-! ## Performance envelope -/

def maxphase : ℤ := 500000000
def maxfreq : ℤ := 500000
def minsec : ℤ := 256
def maxsec : ℤ := 2048
def nanosecond : ℤ := 1000000000
/-- `65536 / 1000`, in integer arithmetic. -/
def scalePpm : ℤ := 65
def maxtc : ℤ := 10

/-! ## Control mode codes -/

def modOffset : BitVec 32 := 0x0001#32
def modFrequency : BitVec 32 := 0x0002#32
def modMaxerror : BitVec 32 := 0x0004#32
def modEsterror : BitVec 32 := 0x0008#32
def modStatus : BitVec 32 := 0x0010#32
def modTimeconst : BitVec 32 := 0x0020#32
def modPpsmax : BitVec 32 := 0x0040#32
def modTai : BitVec 32 := 0x0080#32
def modMicro : BitVec 32 := 0x1000#32
def modNano : BitVec 32 := 0x2000#32
def modClkb : BitVec 32 := 0x4000#32
def modClka : BitVec 32 := 0x8000#32

/-! ## Status codes -/

def staPll : BitVec 32 := 0x0001#32
def staPpsfreq : BitVec 32 := 0x0002#32
def staPpstime : BitVec 32 := 0x0004#32
def staFll : BitVec 32 := 0x0008#32
def staIns : BitVec 32 := 0x0010#32
def staDel : BitVec 32 := 0x0020#32
def staUnsync : BitVec 32 := 0x0040#32
def staFreqhold : BitVec 32 := 0x0080#32
def staPpssignal : BitVec 32 := 0x0100#32
def staPpsjitter : BitVec 32 := 0x0200#32
def staPpswander : BitVec 32 := 0x0400#32
def staPpserror : BitVec 32 := 0x0800#32
def staClockerr : BitVec 32 := 0x1000#32
def staNano : BitVec 32 := 0x2000#32
def staMode : BitVec 32 := 0x4000#32
def staClk : BitVec 32 := 0x8000#32

def staRonly : BitVec 32 :=
  staPpssignal ||| staPpsjitter ||| staPpswander ||| staPpserror |||
    staClockerr ||| staNano ||| staMode ||| staClk

/-- `word & mask` as a condition: some bit of the mask is set. -/
def has (word mask : BitVec 32) : Bool := word &&& mask != 0

/-! ## Clock states -/

/-- The values `time_state` takes. -/
inductive TimeState where
  | ok
  | ins
  | del
  | oop
  | wait
deriving DecidableEq, Repr

def TimeState.code : TimeState → ℤ
  | .ok => 0
  | .ins => 1
  | .del => 2
  | .oop => 3
  | .wait => 4

/-- `TIME_ERROR`, a return code only. -/
def timeError : ℤ := 5

/-! ## Structures -/

/-- The nanoseconds are a `long`: they wrap where a routine writes them. -/
structure Timespec where
  tvSec : ℤ
  tvNsec : ℤ
deriving DecidableEq, Repr

namespace Timespec

def Normalised (t : Timespec) : Prop := 0 ≤ t.tvNsec ∧ t.tvNsec < nanosecond

instance (t : Timespec) : Decidable t.Normalised := inferInstanceAs (Decidable (_ ∧ _))

/-- The earlier of two times. -/
def Before (t t' : Timespec) : Prop :=
  t.tvSec < t'.tvSec ∨ t.tvSec = t'.tvSec ∧ t.tvNsec < t'.tvNsec

instance (t t' : Timespec) : Decidable (Before t t') :=
  inferInstanceAs (Decidable (_ ∨ _))

/-- A count of nanoseconds, split into a `timespec`. -/
def ofNsec (nsec : ℤ) : Timespec := ⟨nsec / nanosecond, nsec % nanosecond⟩

/-- The same time as a count. -/
def nsec (t : Timespec) : ℤ := t.tvSec * nanosecond + t.tvNsec

/-- Times in normal form are ordered as the counts are. -/
theorem before_iff {t t' : Timespec} (ht : t.Normalised) (ht' : t'.Normalised) :
    t.Before t' ↔ t.nsec < t'.nsec := by
  unfold Normalised nanosecond at *
  unfold Before nsec nanosecond
  omega

instance : IsTrans Timespec Before where
  trans t t' t'' h h' := by
    unfold Before at *
    omega

theorem nsec_ofNsec (x : ℤ) : (ofNsec x).nsec = x := by
  unfold nsec ofNsec nanosecond
  dsimp only
  omega

/-- A time in normal form is the count split again. -/
theorem ofNsec_nsec {t : Timespec} (h : t.Normalised) : ofNsec t.nsec = t := by
  obtain ⟨sec, nsec⟩ := t
  unfold Normalised nanosecond at h
  unfold Timespec.nsec ofNsec nanosecond
  dsimp only at h ⊢
  congr <;> omega

theorem ofNsec_inj {x y : ℤ} : ofNsec x = ofNsec y ↔ x = y := by
  constructor
  · intro h
    rw [← nsec_ofNsec x, h, nsec_ofNsec]
  · rintro rfl
    rfl

theorem normalised_ofNsec (nsec : ℤ) : (ofNsec nsec).Normalised := by
  unfold Normalised ofNsec nanosecond
  dsimp only
  omega

theorem before_ofNsec {nsec nsec' : ℤ} (h : nsec < nsec') :
    (ofNsec nsec).Before (ofNsec nsec') := by
  unfold Before ofNsec nanosecond
  dsimp only
  omega

end Timespec

structure Timeval where
  tvSec : ℤ
  tvUsec : ℤ
deriving DecidableEq, Repr

/-- `struct timex`. -/
structure Timex where
  modes : BitVec 32 := 0
  offset : ℤ := 0
  freq : ℤ := 0
  maxerror : ℤ := 0
  esterror : ℤ := 0
  status : BitVec 32 := 0
  constant : ℤ := 0
  precision : ℤ := 0
  tolerance : ℤ := 0
  ppsfreq : ℤ := 0
  jitter : ℤ := 0
  shift : ℤ := 0
  stabil : ℤ := 0
  jitcnt : ℤ := 0
  calcnt : ℤ := 0
  errcnt : ℤ := 0
  stbcnt : ℤ := 0
deriving DecidableEq, Repr

end Nanokernel
