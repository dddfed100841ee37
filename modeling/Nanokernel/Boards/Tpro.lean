import Nanokernel.Foundation.Sequence
import Nanokernel.Foundation.Run
import Nanokernel.Kernel.MicroTime
import Nanokernel.Kernel.State

/-!
# The TPRO IRIG board

`microtime` and `clock_set` of `tprotime.c`. The registers hold the day of the year and
the time in BCD digits; the year comes from the system time, and is kept in `year_offset`
until the day decreases.
-/

namespace Nanokernel

open LeapCycle Run

/-- A `long` that is off is a turn off. -/
theorem LongWidth.fits_of_long_near (w : LongWidth) {x : ℤ} (h : |x - w.long x| < 2 ^ 32) :
    SignedWord.Fits w.bits x := by
  by_contra hout
  have hfar : 2 ^ w.bits ≤ |x - w.long x| := SignedWord.le_abs_sub_bmod hout
  have hturn : (2 : ℤ) ^ 32 ≤ 2 ^ w.bits := by cases w <;> decide
  exact absurd h (not_lt.mpr (hturn.trans hfar))

/-! ## `tprotime.c` -/

namespace Tpro

def maxdiff : ℤ := 1000
def day : ℤ := 86400
def dayYear : ℤ := 31536000
def dayCycle : ℤ := 126230400

def tproSig : BitVec 8 := 0x02#8
def tproSync : BitVec 8 := 0x04#8

def enosig : ℤ := -4
def enosync : ℤ := -3
def ebaddata : ℤ := -2
def ebadtime : ℤ := -1

def yrtab : List ℤ := [dayYear, dayYear, dayYear + day, dayYear]

/-- The registers that are read. -/
structure Regs where
  tprolo : BitVec 32
  tprohi : BitVec 32
  tprostat : BitVec 8
deriving DecidableEq, Repr

/-- What the registers decode to. -/
structure Decoded where
  day : ℤ
  hour : ℤ
  min : ℤ
  sec : ℤ
  usec : ℤ
deriving DecidableEq, Repr

/-- `(v >> shift) & mask`. -/
def digit (v : BitVec 32) (shift : ℕ) (mask : BitVec 32) : ℤ := ((v >>> shift) &&& mask).toNat

def decode (reg : Regs) : Decoded where
  usec := ((((digit reg.tprolo 20 0xf * 10 + digit reg.tprolo 16 0xf) * 10
    + digit reg.tprolo 12 0xf) * 10 + digit reg.tprolo 8 0xf) * 10
    + digit reg.tprolo 4 0xf) * 10 + digit reg.tprolo 0 0xf
  sec := digit reg.tprolo 28 0x7 * 10 + digit reg.tprolo 24 0xf
  min := digit reg.tprohi 4 0x7 * 10 + digit reg.tprohi 0 0xf
  hour := digit reg.tprohi 12 0x3 * 10 + digit reg.tprohi 8 0xf
  day := (digit reg.tprohi 24 0x3 * 10 + digit reg.tprohi 20 0xf) * 10 + digit reg.tprohi 16 0xf

/-- The loop of `clock_set()` over whole cycles, `year` and `sec`. -/
def whileCycles : ℕ → ℤ × ℤ → ℤ × ℤ
  | 0, p => p
  | fuel + 1, (year, sec) =>
    if year ≥ dayCycle then whileCycles fuel (year - dayCycle, sec + dayCycle) else (year, sec)

/-- The loop over the table; the year of a cycle ends it before the table does. -/
def forYears : List ℤ → ℤ → ℤ → ℤ
  | [], _, sec => sec
  | yr :: yrs, year, sec => if year ≥ yr then forYears yrs (year - yr) (sec + yr) else sec

/-- `clock_set()`: the `year_offset` for a system time. -/
def clockSet (tvSec : ℤ) : ℤ :=
  let (year, sec) := whileCycles (tvSec / dayCycle).toNat (tvSec, 0)
  forYears yrtab year sec

end Tpro

/-- The variables of the driver; the registers are mapped at the first call. -/
structure Tpro where
  mapped : Bool
  lastday : ℤ
  yearOffset : ℤ
  tproNosig : ℤ
  tproNosync : ℤ
  tproBaddata : ℤ
  tproBadtime : ℤ
deriving DecidableEq, Repr

namespace Tpro

def start : Tpro := ⟨false, 0, 0, 0, 0, 0, 0⟩

/-- The first call maps the registers and sets the year. -/
def mapRegs (s : Tpro) (tvSec : ℤ) : Tpro :=
  if s.mapped then s else { s with mapped := true, yearOffset := clockSet tvSec }

/-- A day that decreases sets the year, every day is kept. -/
def setDay (s : Tpro) (tvSec day : ℤ) : Tpro :=
  let s := if day < s.lastday then { s with yearOffset := clockSet tvSec } else s
  { s with lastday := day }

/-- `microtime()` at the system time `time`: the time stored and the value returned. -/
def microtime (w : LongWidth) (s : Tpro) (time : Timeval) (reg : Regs) : Tpro × Timeval × ℤ :=
  let s := s.mapRegs time.tvSec
  if reg.tprostat &&& tproSig = 0 then
    ({ s with tproNosig := w.long (s.tproNosig + 1) }, time, enosig)
  else if reg.tprostat &&& tproSync = 0 then
    ({ s with tproNosync := w.long (s.tproNosync + 1) }, time, enosync)
  else
    let d := decode reg
    if d.usec ≥ 1000000 ∨ d.sec ≥ 60 ∨ d.min ≥ 60 ∨ d.hour ≥ 24 ∨ d.day < 1 ∨ d.day > 366 then
      ({ s with tproBaddata := w.long (s.tproBaddata + 1) }, time, ebaddata)
    else
      let s := s.setDay time.tvSec d.day
      let sec := w.long (d.sec + (s.yearOffset + (((d.day - 1) * 24 + d.hour) * 60 + d.min) * 60))
      let mtemp := w.long (sec - time.tvSec)
      if mtemp > maxdiff ∨ mtemp < -maxdiff then
        ({ s with tproBadtime := w.long (s.tproBadtime + 1) }, time, ebadtime)
      else (s, ⟨sec, d.usec⟩, 0)

/-! ## The year of a system time -/

theorem whileCycles_eq {fuel : ℕ} {year sec : ℤ} (hyear : 0 ≤ year)
    (hfuel : year < dayCycle * (fuel + 1)) :
    whileCycles fuel (year, sec) = (year % dayCycle, sec + dayCycle * (year / dayCycle)) := by
  unfold dayCycle at *
  induction fuel generalizing year sec with
  | zero =>
    show (year, sec) = _
    rw [Int.emod_eq_of_lt hyear (by omega), Int.ediv_eq_zero_of_lt hyear (by omega), mul_zero,
      add_zero]
  | succ fuel ih =>
    unfold whileCycles dayCycle
    split_ifs with hcycle
    · have hle : year - 126230400 < 126230400 * ((fuel : ℤ) + 1) := by
        push_cast at hfuel
        omega
      rw [ih (by omega) hle]
      congr 1 <;> omega
    · rw [Int.emod_eq_of_lt hyear (by omega), Int.ediv_eq_zero_of_lt hyear (by omega), mul_zero,
        add_zero]

/-- A system time gives the start of its year. -/
theorem exists_inYear_clockSet {s : ℤ} (hs : 0 ≤ s) :
    ∃ n, InYear n s ∧ clockSet s = yearStart n := by
  have hmod := Int.emod_nonneg s (show dayCycle ≠ 0 by decide)
  have hlt := Int.emod_lt_of_pos s (show 0 < dayCycle by decide)
  obtain ⟨q, hq⟩ := Int.eq_ofNat_of_zero_le (Int.ediv_nonneg hs (show 0 ≤ dayCycle by decide))
  have hdiv := Int.mul_ediv_add_emod s dayCycle
  have hyear := inYear_cycle q ⟨hmod, hlt⟩
  rw [hq] at hdiv
  refine ⟨_, by rw [← hdiv]; exact hyear, ?_⟩
  have hloop : clockSet s = forYears yrtab (s % dayCycle) (0 + dayCycle * q) := by
    unfold clockSet
    rw [whileCycles_eq hs, hq]
    rw [hq, Int.toNat_natCast, mul_add, mul_one]
    omega
  rw [hloop]
  unfold yrtab forYears forYears forYears forYears forYears dayYear day yearStart
  unfold dayCycle at *
  split_ifs <;> push_cast <;> omega

/-- A system time before 1970 counts as 1970. -/
theorem clockSet_of_neg {s : ℤ} (hs : s < 0) : clockSet s = yearStart 0 := by
  have hfuel : (s / dayCycle).toNat = 0 := by
    unfold dayCycle
    omega
  unfold clockSet
  rw [hfuel]
  unfold whileCycles yrtab forYears dayYear
  exact if_neg (by omega)

theorem exists_clockSet (s : ℤ) : ∃ n, InYear n (max s 0) ∧ clockSet s = yearStart n := by
  rcases le_or_gt 0 s with hs | hs
  · rw [max_eq_left hs]
    exact exists_inYear_clockSet hs
  · rw [max_eq_right hs.le, clockSet_of_neg hs]
    exact ⟨0, by decide, rfl⟩

/-- The year offset is that of a year exactly when the system time is in the year. -/
theorem clockSet_eq_iff {s : ℤ} {n : ℕ} : clockSet s = yearStart n ↔ InYear n (max s 0) := by
  obtain ⟨m, hm, hset⟩ := exists_clockSet s
  rw [hset, yearStart_inj]
  constructor
  · rintro rfl
    exact hm
  · exact hm.unique

/-! ## The registers -/

end Tpro

/-- A time of the years 1970 to 2099, which are numbered from 1970. -/
structure Instant where
  year : ℕ
  day : ℕ
  hour : ℕ
  min : ℕ
  sec : ℕ
  usec : ℕ
  year_lt : year < 130
  one_le_day : 1 ≤ day
  day_le : day ≤ daysIn year
  hour_lt : hour < 24
  min_lt : min < 60
  sec_lt : sec < 60
  usec_lt : usec < 1000000
deriving DecidableEq

namespace Instant

variable (i : Instant)

/-- The seconds of the year. -/
def ofYear : ℤ := (((i.day - 1) * 24 + i.hour) * 60 + i.min) * 60 + i.sec

def tvSec : ℤ := yearStart i.year + i.ofYear

def timeval : Timeval := ⟨i.tvSec, i.usec⟩

theorem day_le_366 : i.day ≤ 366 := by
  have hle := i.day_le
  unfold daysIn at hle
  split_ifs at hle <;> omega

theorem inYear : InYear i.year i.tvSec := by
  have hday := i.one_le_day
  have hle := i.day_le
  have hhour := i.hour_lt
  have hmin := i.min_lt
  have hsec := i.sec_lt
  unfold InYear tvSec ofYear
  rw [yearStart_succ]
  omega

end Instant

namespace Tpro

/-- The bits of a register from `shift` on. -/
def field (v : BitVec 32) (shift width : ℕ) : ℕ := v.toNat / 2 ^ shift % 2 ^ width

/-- The registers hold the decimal digits of a time, and the board has signal and sync. -/
structure Encodes (reg : Regs) (i : Instant) : Prop where
  usec : ∀ k, k < 6 → field reg.tprolo (4 * k) 4 = i.usec / 10 ^ k % 10
  sec : field reg.tprolo 24 4 = i.sec % 10 ∧ field reg.tprolo 28 3 = i.sec / 10
  min : field reg.tprohi 0 4 = i.min % 10 ∧ field reg.tprohi 4 3 = i.min / 10
  hour : field reg.tprohi 8 4 = i.hour % 10 ∧ field reg.tprohi 12 2 = i.hour / 10
  day : field reg.tprohi 16 4 = i.day % 10 ∧ field reg.tprohi 20 4 = i.day / 10 % 10 ∧
    field reg.tprohi 24 2 = i.day / 100
  sig : reg.tprostat &&& tproSig ≠ 0
  sync : reg.tprostat &&& tproSync ≠ 0

theorem digit_eq_field (v : BitVec 32) (shift : ℕ) {width : ℕ} {mask : BitVec 32}
    (hmask : mask.toNat = 2 ^ width - 1) : digit v shift mask = field v shift width := by
  unfold digit field
  rw [BitVec.toNat_and, BitVec.toNat_ushiftRight, Nat.shiftRight_eq_div_pow, hmask,
    Nat.and_two_pow_sub_one_eq_mod]

/-- The driver decodes what was encoded. -/
theorem decode_of_encodes {reg : Regs} {i : Instant} (h : Encodes reg i) :
    decode reg = ⟨i.day, i.hour, i.min, i.sec, i.usec⟩ := by
  have hday := i.day_le_366
  have husec := i.usec_lt
  have h4 (v : BitVec 32) (shift : ℕ) : digit v shift 0xf = field v shift 4 :=
    digit_eq_field v shift rfl
  have h3 (v : BitVec 32) (shift : ℕ) : digit v shift 0x7 = field v shift 3 :=
    digit_eq_field v shift rfl
  have h2 (v : BitVec 32) (shift : ℕ) : digit v shift 0x3 = field v shift 2 :=
    digit_eq_field v shift rfl
  have hu0 := h.usec 0 (by decide)
  have hu1 := h.usec 1 (by decide)
  have hu2 := h.usec 2 (by decide)
  have hu3 := h.usec 3 (by decide)
  have hu4 := h.usec 4 (by decide)
  have hu5 := h.usec 5 (by decide)
  unfold decode
  simp only [h4, h3, h2, h.sec.1, h.sec.2, h.min.1, h.min.2, h.hour.1, h.hour.2, h.day.1, h.day.2.1,
    h.day.2.2]
  rw [hu0, hu1, hu2, hu3, hu4, hu5]
  congr 1 <;> omega

/-! ## One call -/

section Call

variable (w : LongWidth) {s : Tpro} {time : Timeval} {reg : Regs} {i : Instant}

/-- The year offset by which a call goes. -/
def refreshed (s : Tpro) (tvSec day : ℤ) : ℤ :=
  if day < s.lastday then clockSet tvSec
  else if s.mapped then s.yearOffset else clockSet tvSec

theorem setDay_mapRegs (s : Tpro) (tvSec day : ℤ) : (s.mapRegs tvSec).setDay tvSec day =
    { s with mapped := true, lastday := day, yearOffset := s.refreshed tvSec day } := by
  obtain ⟨mapped, lastday, yearOffset, nosig, nosync, baddata, badtime⟩ := s
  unfold mapRegs setDay refreshed
  cases mapped <;> by_cases hday : day < lastday <;> simp [hday]

/-- What a call does with valid registers. -/
theorem microtime_of_encodes (h : Encodes reg i) : s.microtime w time reg =
    let s' : Tpro :=
      { s with mapped := true, lastday := i.day, yearOffset := s.refreshed time.tvSec i.day }
    let sec := w.long (i.ofYear + s'.yearOffset)
    let mtemp := w.long (sec - time.tvSec)
    if mtemp > maxdiff ∨ mtemp < -maxdiff then
      ({ s' with tproBadtime := w.long (s.tproBadtime + 1) }, time, ebadtime)
    else (s', ⟨sec, i.usec⟩, 0) := by
  have hvalid : ¬ ((i.usec : ℤ) ≥ 1000000 ∨ (i.sec : ℤ) ≥ 60 ∨ (i.min : ℤ) ≥ 60 ∨
      (i.hour : ℤ) ≥ 24 ∨ (i.day : ℤ) < 1 ∨ (i.day : ℤ) > 366) := by
    have h1 := i.usec_lt
    have h2 := i.sec_lt
    have h3 := i.min_lt
    have h4 := i.hour_lt
    have h5 := i.one_le_day
    have h6 := i.day_le_366
    omega
  have hsec (yearOffset : ℤ) : (i.sec : ℤ)
      + (yearOffset + (((i.day - 1) * 24 + i.hour) * 60 + i.min) * 60) = i.ofYear + yearOffset := by
    unfold Instant.ofYear
    omega
  unfold microtime
  dsimp only
  rw [if_neg h.sig, if_neg h.sync, decode_of_encodes h]
  dsimp only
  rw [if_neg hvalid, setDay_mapRegs]
  dsimp only
  rw [hsec]

/-- The years of the driver start within 32 bits. -/
theorem yearStart_range {n : ℕ} (hn : n ≤ 130) : 0 ≤ yearStart n ∧ yearStart n < 2 ^ 32 :=
  ⟨yearStart_nonneg n, lt_of_le_of_lt (yearStart_le_iff.mpr hn) (by decide)⟩

/-- The call returns the time of the registers. -/
def Returns (w : LongWidth) (s : Tpro) (time : Timeval) (reg : Regs) (i : Instant) : Prop :=
  (s.microtime w time reg).2 = (i.timeval, 0)

instance : Decidable (Returns w s time reg i) := inferInstanceAs (Decidable (_ = _))

/-- It does so if and only if it goes by the right year and a `long` holds the seconds. -/
theorem returns_iff (h : Encodes reg i) (hdiff : |i.tvSec - time.tvSec| ≤ maxdiff) {n : ℕ}
    (hn : n ≤ 130) (hoffset : s.refreshed time.tvSec i.day = yearStart n) :
    Returns w s time reg i ↔ n = i.year ∧ SignedWord.Fits w.bits i.tvSec := by
  obtain ⟨hlo, hhi⟩ := abs_le.mp hdiff
  unfold Returns
  rw [microtime_of_encodes w h, hoffset]
  dsimp only
  constructor
  · intro hret
    split_ifs at hret with hbad
    · exact absurd (show ebadtime = 0 from congrArg Prod.snd hret) (by decide)
    · have hsec : w.long (i.ofYear + yearStart n) = i.tvSec :=
        congrArg (fun r => r.1.tvSec) hret
      refine ⟨yearStart_inj.mp ?_, hsec ▸ SignedWord.fits_bmod _ _⟩
      -- a wrong year is less than a turn away
      have hfits : SignedWord.Fits w.bits (i.ofYear + yearStart n) := by
        have hrange := yearStart_range hn
        have hrange' := yearStart_range i.year_lt.le
        apply w.fits_of_long_near
        rw [hsec, Instant.tvSec, add_comm, add_sub_add_right_eq_sub]
        exact abs_lt.mpr ⟨by omega, by omega⟩
      have hexact : w.long (i.ofYear + yearStart n) = i.ofYear + yearStart n :=
        w.long_of_fits hfits
      unfold Instant.tvSec at hsec
      omega
  · rintro ⟨rfl, hfits⟩
    have hsec : w.long (i.ofYear + yearStart i.year) = i.tvSec := by
      rw [add_comm]
      exact w.long_of_fits hfits
    have hmtemp : w.long (i.tvSec - time.tvSec) = i.tvSec - time.tvSec := by
      have hhalf : (2 : ℤ) ^ 31 ≤ 2 ^ (w.bits - 1) := by cases w <;> decide
      unfold maxdiff at hlo hhi
      exact w.long_of_fits ⟨by omega, by omega⟩
    rw [hsec, hmtemp, if_neg (by omega)]
    rfl

end Call

/-! ## Runs -/

/-- A call at a system time, and the time that the registers hold. -/
structure Reading where
  time : Timeval
  reg : Regs
  instant : Instant
deriving DecidableEq

def step (w : LongWidth) (s : Tpro) (r : Reading) : Tpro := (s.microtime w r.time r.reg).1

/-- The time read before. -/
def previous (_ : Option Instant) (_ : Tpro) (r : Reading) : Option Instant := some r.instant

/-- The registers are valid and the system time is near. -/
def Valid (_ : Tpro × Option Instant) (r : Reading) : Prop :=
  Encodes r.reg r.instant ∧ |r.instant.tvSec - r.time.tvSec| ≤ maxdiff

/-- The system time is in the year that the registers leave open. -/
def SameYear (r : Reading) : Prop := InYear r.instant.year (max r.time.tvSec 0)

instance (r : Reading) : Decidable (SameYear r) := inferInstanceAs (Decidable (InYear _ _))

/-- The year is right at the first call and whenever the day decreases, and it does not
change without that; a `long` holds the seconds. -/
def YearKnown (w : LongWidth) (p : Tpro × Option Instant) (r : Reading) : Prop :=
  (match p.2 with
    | none => SameYear r
    | some i => if r.instant.day < i.day then SameYear r else r.instant.year = i.year) ∧
  SignedWord.Fits w.bits r.instant.tvSec

instance (w : LongWidth) : (p : Tpro × Option Instant) → (r : Reading) →
    Decidable (YearKnown w p r)
  | (_, none), r => inferInstanceAs (Decidable (SameYear r ∧ _))
  | (_, some i), r => inferInstanceAs (Decidable
      ((if r.instant.day < i.day then SameYear r else r.instant.year = i.year) ∧ _))

/-- The variables after a call that was right. -/
def Settled (p : Tpro × Option Instant) : Prop :=
  match p.2 with
  | none => p.1.mapped = false ∧ p.1.lastday = 0
  | some i => p.1.mapped = true ∧ p.1.lastday = i.day ∧ p.1.yearOffset = yearStart i.year

section Step

variable {w : LongWidth} {p : Tpro × Option Instant} {r : Reading}

/-- The year of a system time that is near. -/
theorem exists_clockSet_near (hr : Valid p r) : ∃ n, n ≤ 130 ∧
    clockSet r.time.tvSec = yearStart n ∧ (n = r.instant.year ↔ SameYear r) := by
  obtain ⟨n, hn, hset⟩ := exists_clockSet r.time.tvSec
  refine ⟨n, ?_, hset, ?_⟩
  · have hnear := abs_le.mp hr.2
    have hend := r.instant.inYear.2
    have hlast : yearStart (r.instant.year + 1) ≤ yearStart 130 :=
      yearStart_le_iff.mpr r.instant.year_lt
    have hspan : yearStart 130 + maxdiff < yearStart 131 := by decide
    have hstart : yearStart n < yearStart 131 := by
      have hzero := yearStart_nonneg 130
      unfold maxdiff at *
      exact lt_of_le_of_lt hn.1 (max_lt (by omega) (by omega))
    exact Nat.le_of_lt_succ (yearStart_lt_iff.mp hstart)
  · unfold SameYear
    rw [← clockSet_eq_iff, hset, yearStart_inj]

/-- The year by which a call goes. -/
theorem Settled.refreshed (h : Settled p) (hr : Valid p r) : ∃ n, n ≤ 130 ∧
    p.1.refreshed r.time.tvSec r.instant.day = yearStart n ∧
      (n = r.instant.year ∧ SignedWord.Fits w.bits r.instant.tvSec ↔ YearKnown w p r) := by
  obtain ⟨n, hn, hset, hsame⟩ := exists_clockSet_near hr
  obtain ⟨s, prev⟩ := p
  unfold Tpro.refreshed YearKnown
  cases prev with
  | none =>
    obtain ⟨hmapped, hlastday⟩ := h
    refine ⟨n, hn, ?_, and_congr_left fun _ => hsame⟩
    dsimp only at hmapped hlastday ⊢
    rw [hmapped, hlastday, if_neg (by omega), hset]
    rfl
  | some i =>
    obtain ⟨hmapped, hlastday, hoffset⟩ := h
    dsimp only at hmapped hlastday hoffset ⊢
    rw [hmapped, hlastday, hoffset, if_pos rfl]
    by_cases hday : r.instant.day < i.day
    · rw [if_pos (by omega), if_pos hday]
      exact ⟨n, hn, hset, and_congr_left fun _ => hsame⟩
    · rw [if_neg (by omega), if_neg hday]
      exact ⟨i.year, i.year_lt.le, rfl, and_congr_left fun _ => eq_comm⟩

theorem Settled.returns_iff (h : Settled p) (hr : Valid p r) :
    Returns w p.1 r.time r.reg r.instant ↔ YearKnown w p r := by
  obtain ⟨n, hn, hoffset, hyear⟩ := h.refreshed (w := w) hr
  rw [Tpro.returns_iff w hr.1 hr.2 hn hoffset, hyear]

theorem Settled.step (h : Settled p) (hr : Valid p r) (hknown : YearKnown w p r) :
    Settled (watch (Tpro.step w) previous p r) := by
  obtain ⟨n, hn, hoffset, hyear⟩ := h.refreshed (w := w) hr
  have hret := (h.returns_iff hr).mpr hknown
  obtain ⟨rfl, -⟩ := hyear.mpr hknown
  unfold Returns at hret
  unfold watch Tpro.step previous Settled
  rw [microtime_of_encodes w hr.1, hoffset] at hret ⊢
  dsimp only at hret ⊢
  split_ifs at hret ⊢ with hbad
  · exact absurd (show ebadtime = 0 from congrArg Prod.snd hret) (by decide)
  · exact ⟨rfl, rfl, rfl⟩

end Step

/-- In every sequence of calls from the first: each returns the time in the registers,
exactly when the year is known at each. -/
theorem returns_iff_yearKnown (w : LongWidth) (rs : List Reading)
    (hrs : Along (watch (step w) previous) Valid (start, none) rs) :
    Along (watch (step w) previous) (fun p r => Returns w p.1 r.time r.reg r.instant)
        (start, none) rs ↔
      Along (watch (step w) previous) (YearKnown w) (start, none) rs :=
  along_congr (fun _ _ h hr hknown => Settled.step h hr hknown)
    (fun _ _ h hr => Settled.returns_iff h hr) ⟨rfl, rfl⟩ hrs

/-- The last second of 2019, by the board and by the system. -/
def lastSecond : Reading where
  time := ⟨1577836799, 0⟩
  reg := ⟨0x59000000, 0x03652359, 0x06⟩
  instant :=
    { year := 49, day := 365, hour := 23, min := 59, sec := 59, usec := 0
      year_lt := by decide, one_le_day := by decide, day_le := by decide, hour_lt := by decide
      min_lt := by decide, sec_lt := by decide, usec_lt := by decide }

/-- The first second of 2020 by the board; the system time is a second behind. -/
def newYear : Reading where
  time := ⟨1577836799, 0⟩
  reg := ⟨0x00000000, 0x00010000, 0x06⟩
  instant :=
    { year := 50, day := 1, hour := 0, min := 0, sec := 0, usec := 0
      year_lt := by decide, one_le_day := by decide, day_le := by decide, hour_lt := by decide
      min_lt := by decide, sec_lt := by decide, usec_lt := by decide }

/-- The same with the system in the new year, too. -/
def newYearAgreed : Reading := { newYear with time := ⟨1577836800, 0⟩ }

theorem valid_lastSecond (p : Tpro × Option Instant) : Valid p lastSecond :=
  ⟨⟨by decide, by decide, by decide, by decide, by decide, by decide, by decide⟩, by decide⟩

theorem encodes_newYear : Encodes newYear.reg newYear.instant :=
  ⟨by decide, by decide, by decide, by decide, by decide, by decide, by decide⟩

theorem valid_newYear (p : Tpro × Option Instant) : Valid p newYear :=
  ⟨encodes_newYear, by decide⟩

theorem valid_newYearAgreed (p : Tpro × Option Instant) : Valid p newYearAgreed :=
  ⟨encodes_newYear, by decide⟩

/-- Over New Year, and on in it. -/
theorem returns_iff_yearKnown_newYear :
    Along (watch (step .ilp32) previous) (fun p r => Returns .ilp32 p.1 r.time r.reg r.instant)
      (start, none) [lastSecond, newYearAgreed, newYearAgreed] :=
  (returns_iff_yearKnown .ilp32 [lastSecond, newYearAgreed, newYearAgreed]
    ⟨valid_lastSecond _, valid_newYearAgreed _, valid_newYearAgreed _, trivial⟩).mpr (by decide)

/-- The board is in the new year before the system, and the call fails. -/
theorem not_returns : ¬ ∀ (w : LongWidth) (rs : List Reading),
    Along (watch (step w) previous) Valid (start, none) rs →
    (rs.map fun r => r.instant.timeval).Pairwise Timeval.NotAfter →
    Along (watch (step w) previous) (fun p r => Returns w p.1 r.time r.reg r.instant)
      (start, none) rs := by
  intro h
  obtain ⟨-, hnext, -⟩ := h .lp64 [lastSecond, newYear]
    ⟨valid_lastSecond _, valid_newYear _, trivial⟩ (by decide)
  exact absurd hnext (by decide)

end Tpro

end Nanokernel
