import Mathlib.Data.Int.ModEq
import Nanokernel.Rtems.NanoClock
import Nanokernel.Rtems.StatusUpdates

/-!
# The offset of the local clock

`diffTimeCb` of `rtemsdep.c` is called back with the packet before it is sent
and with the answer. From the four timestamps of the answer it computes how
far the local clock is behind the server. A timestamp counts units of
`2^-32` s since 1900 in 64 bits; it is already negative as a `long long`, and
runs over in 2036. The differences are taken modulo `2^64`, so neither matters
(`diffTimeCb_offset`).
-/

namespace Nanokernel

open SignedWord

/-! ## Units -/

/-- `struct timestamp`, in the byte order of the host. -/
structure Timestamp where
  integer : BitVec 32
  fraction : BitVec 32
deriving DecidableEq, Repr

/-- The value a `time_t` of this width holds after it is assigned `x`. -/
def LongWidth.time (w : LongWidth) (x : ℤ) : ℤ := x.bmod (2 ^ w.bits)

/-- `nts2ll()`. -/
def nts2ll (pt : Timestamp) : BitVec 64 :=
  pt.integer.setWidth 64 <<< 32 + pt.fraction.setWidth 64

/-- `nsec2frac()`; the argument is an `unsigned long`. -/
def nsec2frac (cfg : Config) (nsec : ℤ) : BitVec 64 :=
  (BitVec.ofInt 64 (cfg.ulong nsec) <<< 32).sdiv (BitVec.ofInt 64 nanosecond)

/-- `frac2nsec()`; the result is a `long`. -/
def frac2nsec (cfg : Config) (f : BitVec 64) : ℤ :=
  cfg.long ((BitVec.ofInt 64 nanosecond * f).sshiftRight 32).toInt

/-! ## The callback -/

/-- The fields of `struct ntpPacketSmall` the callback uses. -/
structure NtpPacketSmall where
  liVnMode : BitVec 8
  rootDelay : BitVec 32
  rootDispersion : BitVec 32
  originateTimestamp : Timestamp
  receiveTimestamp : Timestamp
  transmitTimestamp : Timestamp
deriving DecidableEq, Repr

structure DiffTimeCbData where
  diff : BitVec 64
  tripns : ℤ
  liVnMode : BitVec 8
  srvRcvts : BitVec 32
  rootdelay : BitVec 32
  rootdisp : BitVec 32
deriving DecidableEq, Repr

/-- The seconds of a reading of the clock, converted to NTP seconds. -/
def ntpSeconds (cfg : Rtems) (timeT : LongWidth) (tvSec : ℤ) : ℤ :=
  timeT.time (tvSec + cfg.ulong (cfg.timeoffset + unixBaseToNtpBase))

/-- `diffTimeCb()`; `nowts` is what `nano_time()` stores. -/
def diffTimeCb (cfg : Rtems) (timeT : LongWidth) (p : NtpPacketSmall) (state : ℤ)
    (nowts : Timespec) (udat : DiffTimeCbData) : NtpPacketSmall × DiffTimeCbData :=
  if state ≥ 0 then
    let now := nsec2frac cfg.toConfig nowts.tvNsec
    let tvSec := ntpSeconds cfg timeT nowts.tvSec
    if 1 = state then
      -- first pass; record our current time
      ({ p with transmitTimestamp := ⟨BitVec.ofInt 32 tvSec, now.setWidth 32⟩ }, udat)
    else
      let now := now + BitVec.ofInt 64 tvSec <<< 32
      let diff := nts2ll p.transmitTimestamp - now
      let org := nts2ll p.originateTimestamp
      let rcv := nts2ll p.receiveTimestamp
      let (diff, tripns) := if org ≠ 0 ∧ rcv ≠ 0 then
          -- correct for delays
          ((diff + (rcv - org)).sshiftRight 1,
            cfg.ulong (frac2nsec cfg.toConfig (now - org)))
        else (diff, 0)
      (p, { diff := diff
            tripns := tripns
            liVnMode := p.liVnMode
            srvRcvts := p.receiveTimestamp.integer
            rootdelay := p.rootDelay
            rootdisp := p.rootDispersion })
  else (p, udat)

/-! ## Timestamps as integers -/

/-- The units of `2^-32` s a timestamp counts. -/
def Timestamp.units (pt : Timestamp) : ℤ :=
  pt.integer.toNat * 2 ^ 32 + pt.fraction.toNat

/-- The same for a reading of the local clock, in whatever era it is. -/
def ntpUnits (cfg : Rtems) (t : Timespec) : ℤ :=
  (t.tvSec + cfg.timeoffset + unixBaseToNtpBase) * 2 ^ 32
    + t.tvNsec * 2 ^ 32 / nanosecond

theorem ofInt_eq_iff_modEq {x y : ℤ} :
    BitVec.ofInt 64 x = BitVec.ofInt 64 y ↔ x ≡ y [ZMOD 2 ^ 64] := by
  have hcast : ((2 ^ 64 : ℕ) : ℤ) = 2 ^ 64 := by norm_num
  rw [← BitVec.toInt_inj, BitVec.toInt_ofInt, BitVec.toInt_ofInt, ← hcast]
  constructor
  · intro h
    unfold Int.ModEq
    rw [← Int.bmod_emod, h, Int.bmod_emod]
  · intro h
    rw [← Int.emod_bmod, h.eq, Int.emod_bmod]

theorem ofInt_shiftLeft (x : ℤ) :
    BitVec.ofInt 64 x <<< 32 = BitVec.ofInt 64 (x * 2 ^ 32) := by
  apply BitVec.eq_of_toInt_eq
  rw [LFp64.toInt_shiftLeft_half, BitVec.toInt_ofInt]

theorem ofInt_sub (x y : ℤ) :
    BitVec.ofInt 64 (x - y) = BitVec.ofInt 64 x - BitVec.ofInt 64 y := by
  rw [sub_eq_add_neg, BitVec.ofInt_add, BitVec.ofInt_neg, ← BitVec.sub_eq_add_neg]

theorem nts2ll_eq (pt : Timestamp) : nts2ll pt = BitVec.ofInt 64 pt.units := by
  have hword : ∀ w : BitVec 32, w.setWidth 64 = BitVec.ofInt 64 w.toNat := by
    intro w
    apply BitVec.eq_of_toNat_eq
    simp
  unfold nts2ll Timestamp.units
  rw [hword, hword, ofInt_shiftLeft, BitVec.ofInt_add]

theorem nsec2frac_eq (cfg : Config) {nsec : ℤ} (h0 : 0 ≤ nsec) (h : nsec < nanosecond) :
    nsec2frac cfg nsec = BitVec.ofInt 64 (nsec * 2 ^ 32 / nanosecond) := by
  unfold nanosecond at h
  have hnum : (BitVec.ofInt 64 (nsec * 2 ^ 32)).toInt = nsec * 2 ^ 32 := by
    rw [BitVec.toInt_ofInt]
    exact bmod_of_fits (by decide) ⟨by omega, by omega⟩
  have hden : (BitVec.ofInt 64 nanosecond).toInt = nanosecond := by decide
  apply BitVec.eq_of_toInt_eq
  unfold nsec2frac
  rw [cfg.ulong_of_lt h0 (by omega), ofInt_shiftLeft,
    BitVec.toInt_sdiv_of_ne_or_ne _ _ (Or.inr (by decide)), hnum, hden,
    Int.tdiv_eq_ediv_of_nonneg (by omega), BitVec.toInt_ofInt]
  symm
  unfold nanosecond
  exact bmod_of_fits (by decide) ⟨by omega, by omega⟩

/-- Either width of `time_t` keeps the seconds modulo `2^32`. -/
theorem ntpSeconds_modEq (cfg : Rtems) (timeT : LongWidth) (tvSec : ℤ) :
    ntpSeconds cfg timeT tvSec ≡ tvSec + cfg.timeoffset + unixBaseToNtpBase
      [ZMOD 2 ^ 32] := by
  have htime : ∀ x, timeT.time x ≡ x [ZMOD 2 ^ 32] := by
    intro x
    unfold LongWidth.time
    have hmod : x.bmod (2 ^ timeT.bits) % ((2 ^ timeT.bits : ℕ) : ℤ)
        = x % ((2 ^ timeT.bits : ℕ) : ℤ) := Int.bmod_emod
    unfold Int.ModEq
    cases timeT <;> simp only [LongWidth.bits] at hmod ⊢ <;> omega
  have hlong : cfg.ulong (cfg.timeoffset + unixBaseToNtpBase)
      ≡ cfg.timeoffset + unixBaseToNtpBase [ZMOD 2 ^ 32] :=
    cfg.ulong_emod _
  unfold ntpSeconds
  rw [add_assoc]
  exact (htime _).trans (hlong.add_left tvSec)

/-- The local time the callback computes, with either width of `time_t`. -/
theorem now_eq (cfg : Rtems) (timeT : LongWidth) {t : Timespec} (h : t.Normalised) :
    nsec2frac cfg.toConfig t.tvNsec
        + BitVec.ofInt 64 (ntpSeconds cfg timeT t.tvSec) <<< 32
      = BitVec.ofInt 64 (ntpUnits cfg t) := by
  have hsec := (ntpSeconds_modEq cfg timeT t.tvSec).mul_right' (c := 2 ^ 32)
  rw [nsec2frac_eq _ h.1 h.2, ofInt_shiftLeft, ← BitVec.ofInt_add, ofInt_eq_iff_modEq,
    ntpUnits, add_comm]
  exact (show ((2 : ℤ) ^ 32 * 2 ^ 32) = 2 ^ 64 by norm_num) ▸ hsec.add_right _

/-! ## The offset -/

/-- The offset the callback stores. -/
def storedDiff (cfg : Rtems) (timeT : LongWidth) (p : NtpPacketSmall) (state : ℤ)
    (nowts : Timespec) (udat : DiffTimeCbData) : BitVec 64 :=
  (diffTimeCb cfg timeT p state nowts udat).2.diff

/-- The callback tells an absent timestamp by its value. -/
theorem nts2ll_ne_zero {pt : Timestamp} (h : pt.units ≠ 0) : nts2ll pt ≠ 0 := by
  intro hzero
  rw [nts2ll_eq, show (0 : BitVec 64) = BitVec.ofInt 64 0 from rfl,
    ofInt_eq_iff_modEq] at hzero
  have hi := pt.integer.isLt
  have hf := pt.fraction.isLt
  unfold Timestamp.units at h hzero
  unfold Int.ModEq at hzero
  omega

/-- With both timestamps of the request there, the stored value is half of the
sum of the two differences. -/
theorem storedDiff_eq {cfg : Rtems} {timeT : LongWidth} {p : NtpPacketSmall}
    {state : ℤ} {nowts : Timespec} (udat : DiffTimeCbData)
    (hstate : 0 ≤ state ∧ state ≠ 1) (hnow : nowts.Normalised)
    (horg : p.originateTimestamp.units ≠ 0) (hrcv : p.receiveTimestamp.units ≠ 0) :
    storedDiff cfg timeT p state nowts udat
      = (BitVec.ofInt 64 (p.transmitTimestamp.units - ntpUnits cfg nowts
          + (p.receiveTimestamp.units - p.originateTimestamp.units))).sshiftRight 1 := by
  have hboth : nts2ll p.originateTimestamp ≠ 0 ∧ nts2ll p.receiveTimestamp ≠ 0 :=
    ⟨nts2ll_ne_zero horg, nts2ll_ne_zero hrcv⟩
  unfold storedDiff diffTimeCb
  rw [if_pos hstate.1]
  dsimp only
  rw [if_neg (Ne.symm hstate.2), if_pos hboth, now_eq cfg timeT hnow]
  simp only [nts2ll_eq, ← ofInt_sub, ← BitVec.ofInt_add]

/-- The offset is the mean of the two one-way differences, rounded down, in
whatever eras the two clocks are: `theta` is how far the local clock is behind,
`d1` and `d2` are the delays there and back. Only the differences of the
timestamps count. -/
theorem diffTimeCb_offset (cfg : Rtems) (timeT : LongWidth) (p : NtpPacketSmall)
    (state : ℤ) (nowts : Timespec) (udat : DiffTimeCbData) (theta d1 d2 : ℤ)
    (hstate : 0 ≤ state ∧ state ≠ 1) (hnow : nowts.Normalised)
    (horg : p.originateTimestamp.units ≠ 0) (hrcv : p.receiveTimestamp.units ≠ 0)
    (hthere : p.receiveTimestamp.units
      ≡ p.originateTimestamp.units + theta + d1 [ZMOD 2 ^ 64])
    (hback : ntpUnits cfg nowts
      ≡ p.transmitTimestamp.units - theta + d2 [ZMOD 2 ^ 64])
    (htheta : |theta| < 2 ^ 61) (hd1 : 0 ≤ d1 ∧ d1 < 2 ^ 61)
    (hd2 : 0 ≤ d2 ∧ d2 < 2 ^ 61) :
    (storedDiff cfg timeT p state nowts udat).toInt = (2 * theta + d1 - d2) / 2 ∧
    |(storedDiff cfg timeT p state nowts udat).toInt - theta| ≤ (d1 + d2) / 2 + 1 ∧
    ∀ (p' : NtpPacketSmall) (nowts' : Timespec) (shift : ℤ), nowts'.Normalised →
      p'.originateTimestamp.units ≠ 0 → p'.receiveTimestamp.units ≠ 0 →
      p'.originateTimestamp.units ≡ p.originateTimestamp.units + shift [ZMOD 2 ^ 64] →
      p'.receiveTimestamp.units ≡ p.receiveTimestamp.units + shift [ZMOD 2 ^ 64] →
      p'.transmitTimestamp.units ≡ p.transmitTimestamp.units + shift [ZMOD 2 ^ 64] →
      ntpUnits cfg nowts' ≡ ntpUnits cfg nowts + shift [ZMOD 2 ^ 64] →
      storedDiff cfg timeT p' state nowts' udat
        = storedDiff cfg timeT p state nowts udat := by
  obtain ⟨hlo, hhi⟩ := abs_lt.mp htheta
  have hsum : p.transmitTimestamp.units - ntpUnits cfg nowts
      + (p.receiveTimestamp.units - p.originateTimestamp.units)
        ≡ 2 * theta + d1 - d2 [ZMOD 2 ^ 64] := by
    unfold Int.ModEq at hthere hback ⊢
    omega
  have hdiff : (storedDiff cfg timeT p state nowts udat).toInt
      = (2 * theta + d1 - d2) / 2 := by
    rw [storedDiff_eq udat hstate hnow horg hrcv, ofInt_eq_iff_modEq.mpr hsum,
      BitVec.toInt_sshiftRight, BitVec.toInt_ofInt, Int.shiftRight_eq_div_pow,
      bmod_of_fits (by decide) ⟨by omega, by omega⟩]
    rfl
  refine ⟨hdiff, ?_, ?_⟩
  · rw [hdiff, abs_le]
    omega
  · intro p' nowts' shift hnow' horg' hrcv' h1 h2 h3 h4
    -- the shift cancels in each difference
    have hcancel : p'.transmitTimestamp.units - ntpUnits cfg nowts'
        + (p'.receiveTimestamp.units - p'.originateTimestamp.units)
          ≡ p.transmitTimestamp.units - ntpUnits cfg nowts
            + (p.receiveTimestamp.units - p.originateTimestamp.units) [ZMOD 2 ^ 64] := by
      unfold Int.ModEq at h1 h2 h3 h4 ⊢
      omega
    rw [storedDiff_eq udat hstate hnow' horg' hrcv',
      storedDiff_eq udat hstate hnow horg hrcv, ofInt_eq_iff_modEq.mpr hcancel]

/-- A request of the last second of the era, answered in the next one. -/
def eraPacket : NtpPacketSmall :=
  { liVnMode := 0x1c#8
    rootDelay := 0
    rootDispersion := 0
    originateTimestamp := ⟨0xffffffff#32, 0⟩
    receiveTimestamp := ⟨0, 0x80000000#32⟩
    transmitTimestamp := ⟨0, 0xc0000000#32⟩ }

/-- The server's answer arrives as the local clock enters the new era, a second
too slow. -/
theorem diffTimeCb_offset_eraPacket :
    (storedDiff Tasks.utcBoard .ilp32 eraPacket 0 ⟨2085978496, 0⟩
      ⟨0, 0, 0, 0, 0, 0⟩).toInt = (2 * 2 ^ 32 + 2 ^ 31 - 2 ^ 30) / 2 :=
  (diffTimeCb_offset Tasks.utcBoard .ilp32 eraPacket 0 ⟨2085978496, 0⟩
    ⟨0, 0, 0, 0, 0, 0⟩ (2 ^ 32) (2 ^ 31) (2 ^ 30) (by decide) (by decide) (by decide)
    (by decide) (by decide) (by decide) (by decide) (by decide) (by decide)).1

end Nanokernel
