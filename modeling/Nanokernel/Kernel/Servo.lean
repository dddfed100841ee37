import Nanokernel.Kernel.Holdover
import Nanokernel.Kernel.PpsWatchdog
import Nanokernel.Kernel.TwoWordMacros

/-!
# The PLL as a servo

With the PLL in control and no PPS signal, six integers tell the whole story of the kernel
clock: where it is in its second, what is left of the offset, the frequency, the length of the
running second and when the last update was. `tick` and `correct` are what a tick and an update
do to them, with no word in sight; the kernel does the same in every build, as long as the
frequency stays off its limit (`servo_tick`, `servo_hardupdate`).
-/

namespace Nanokernel

open BitMask Decay Run SignedWord

/-- A multiplier of half a word, which both macro sets take. -/
class HalfWordMpy (F : Type) [LFp F] [LawfulLFp F] : Prop where
  val_lMpy : ∀ (v : F) (m : ℤ), 0 ≤ m → m ≤ 2 ^ 16 → val (lMpy v m) = (val v * m).bmod (2 ^ 64)

instance : HalfWordMpy LFp64 := ⟨fun v m _ _ => LFp64.val_lMpy v m⟩

instance : HalfWordMpy LFp32 := by
  refine ⟨fun v m h0 hm => ?_⟩
  have hword : (lMpy v m).toLFp64 = lMpy v.toLFp64 m :=
    (LFp32.toLFp64_lMpy_iff h0 (by omega)).mpr (LFp32.columnsFit_of_lt _ hm)
  show (lMpy v m).toLFp64.toInt = (v.toLFp64.toInt * m).bmod (2 ^ 64)
  rw [hword]
  exact LFp64.val_lMpy v.toLFp64 m

/-- The seconds of the clock, the time since the last one in units of `1 / (hz * 2^32)` ns,
and what steers it in units of `2^-32` ns. -/
structure Servo where
  sec : ℤ
  position : ℤ
  offset : ℤ
  freq : ℤ
  adj : ℤ
  reftime : ℤ
deriving DecidableEq, Repr

namespace Servo

/-- A second, in the units of the position. -/
def second (hz : ℤ) : ℤ := nanosecond * (hz * 2 ^ 32)

/-- The seconds of a poll, of which every second pays one part of the offset. -/
def poll (tc : ℤ) : ℤ := 2 ^ (shiftPll + tc).toNat

/-- A tick, which may end the second. -/
def tick (hz tc : ℤ) (s : Servo) : Servo :=
  if s.position + s.adj < second hz then { s with position := s.position + s.adj }
  else
    { s with
      sec := s.sec + 1
      position := s.position + s.adj - second hz
      offset := rest (poll tc) s.offset
      adj := s.offset.tdiv (poll tc) + s.freq + nanosecond * 2 ^ 32 }

/-- An update, which integrates the offset over an interval. -/
def correct (tc interval offset : ℤ) (s : Servo) : Servo :=
  { s with
    offset := offset * 2 ^ 32
    freq := s.freq + interval * pllGain offset tc
    reftime := s.sec }

end Servo

namespace Clock

variable {F : Type} [LFp F] [LawfulLFp F] {cfg : Config} {c : Clock F} {tc : ℤ}

def servo (cfg : Config) (c : Clock F) : Servo where
  sec := c.tv.tvSec
  position := c.accumulator.weight (cfg.hz * 2 ^ 32)
  offset := val c.k.timeOffset
  freq := val c.k.timeFreq
  adj := val c.k.timeAdj
  reftime := c.k.timeReftime

/-- The clock reads its seconds and the position in the running one. -/
theorem weight_servo (cfg : Config) (c : Clock F) : c.reckoning.weight (cfg.hz * 2 ^ 32)
    = (c.servo cfg).sec * Servo.second cfg.hz + (c.servo cfg).position := by
  unfold servo Servo.second reckoning accumulator Accumulator.weight Timespec.nsec
  ring

/-! ### A tick -/

/-- PPS does not discipline the time. -/
def Unpulsed (cfg : Config) (k : Kernel F) : Prop := (cfg.ppsSync && ppsTime k) = false

/-- A position in the running second is that of a normalised clock. -/
theorem tickFits_of_position (hhz : 2 ≤ cfg.hz ∧ cfg.hz ≤ 100000) (h : Sound cfg c)
    (h0 : 0 ≤ (c.servo cfg).position)
    (hbefore : (c.servo cfg).position < Servo.second cfg.hz) : TickFits cfg c := by
  have hpos : 0 < cfg.hz * 2 ^ 32 := by omega
  have hnsec : c.tv.tvNsec = (c.servo cfg).position / (cfg.hz * 2 ^ 32) :=
    (Accumulator.total_eq_ediv (s := c.accumulator) h.2).1
  refine tickFits_of_normalised hhz h.2 h.1.1.adj ⟨?_, ?_⟩
  · rw [hnsec]
    exact Int.ediv_nonneg h0 hpos.le
  · rw [hnsec]
    exact Int.ediv_lt_of_lt_mul hpos hbefore

/-- The position has passed the second when the nanoseconds have. -/
theorem rollover_iff_position (hhz : 1 ≤ cfg.hz ∧ cfg.hz ≤ 100000) (h : Sound cfg c)
    (hfits : TickFits cfg c) :
    nanosecond ≤ (ntpTickAdjust cfg c.k c.tv 0).2.tvNsec ↔
      Servo.second cfg.hz ≤ (c.servo cfg).position + (c.servo cfg).adj := by
  have hcount : (c.adjust cfg).accumulator
      = c.accumulator.count (cfg.hz * 2 ^ 32) (val c.k.timeAdj) :=
    adjust_accumulator hhz h.2 h.1.1.adj hfits
  have hweight := Accumulator.weight_count (cfg.hz * 2 ^ 32) c.accumulator (val c.k.timeAdj)
  have hreduced := Accumulator.reduced_count (m := cfg.hz * 2 ^ 32) (by omega) c.accumulator
    (val c.k.timeAdj)
  rw [← hcount] at hweight hreduced
  obtain ⟨hres, hres'⟩ := hreduced
  have hsplit : (c.servo cfg).position + (c.servo cfg).adj = cfg.hz * 2 ^ 32
      * (c.adjust cfg).accumulator.total + (c.adjust cfg).accumulator.residue := hweight.symm
  rw [hsplit]
  show nanosecond ≤ (c.adjust cfg).accumulator.total ↔ _
  have hpos : 0 < cfg.hz * 2 ^ 32 := by omega
  unfold Servo.second
  rw [mul_comm nanosecond]
  constructor
  · intro hle
    have hmul := mul_le_mul_of_nonneg_left hle hpos.le
    omega
  · intro hle
    by_contra hlt
    have hmul := mul_le_mul_of_nonneg_left (Int.add_one_le_iff.mpr (not_le.mp hlt)) hpos.le
    rw [mul_add, mul_one] at hmul
    omega

/-- What a second pays, and how long it is, without a word to wrap in. -/
theorem nextAdj_servo {k : Kernel F} (hk : Disciplined k) (htc : k.timeConstant = tc)
    (hpps : Unpulsed cfg k) :
    val (nextAdj cfg k).timeOffset = rest (Servo.poll tc) (val k.timeOffset) ∧
      val (nextAdj cfg k).timeAdj
        = (val k.timeOffset).tdiv (Servo.poll tc) + val k.timeFreq + nanosecond * 2 ^ 32 := by
  have hoffset := hk.1.offset
  have hconst := hk.1.constant
  have hfreq := abs_lt.mp (abs_val_freq_lt hk.1.freq)
  have hshift : amortShift cfg k = (shiftPll + tc).toNat := by
    unfold amortShift
    rw [hpps, htc]
    rfl
  have hrange := amortShift_bounds hk cfg
  have hmin : -2 ^ 63 < val k.timeOffset := by
    have hle := (abs_le.mp hoffset).1
    unfold maxphase at hle
    omega
  obtain ⟨hrest, hadj⟩ := val_nextAdj cfg hmin ⟨by omega, hrange.2⟩
  have hshare := abs_tdiv_mul_le (val k.timeOffset) hrange.1
  have hquarter : |(val k.timeOffset).tdiv (2 ^ amortShift cfg k)| ≤ maxphase * 2 ^ 30 := by
    unfold maxphase at hoffset ⊢
    omega
  have hquarter' := abs_le.mp hquarter
  unfold maxfreq at hfreq
  unfold maxphase at hquarter'
  rw [bmod_of_fits (by decide) ⟨by unfold nanosecond; omega, by unfold nanosecond; omega⟩] at hadj
  rw [hshift] at hrest hadj
  exact ⟨hrest, hadj⟩

omit [LawfulLFp F] in
/-- The seconds are counted up by one where no leap second is due. -/
theorem rollover_tvSec (hroll : nanosecond ≤ (ntpTickAdjust cfg c.k c.tv 0).2.tvNsec)
    (hno : ¬ LeapDue cfg c) :
    (rollover cfg (ntpTickAdjust cfg c.k c.tv 0).1 c.tv.tvSec).2 = c.tv.tvSec + 1 := by
  rw [rollover_eq]
  rcases leapSecond_snd (widenError cfg (ntpTickAdjust cfg c.k c.tv 0).1) (c.tv.tvSec + 1)
    with ⟨-, hdue⟩ | ⟨-, hdue⟩ | ⟨hsec, -⟩
  · exact absurd ⟨⟨rfl, hroll⟩, Or.inl hdue⟩ hno
  · exact absurd ⟨⟨rfl, hroll⟩, Or.inr hdue⟩ hno
  · exact hsec

/-- A rollover steers as the servo does. -/
theorem rollover_servo {k : Kernel F} (hk : Disciplined k) (htc : k.timeConstant = tc)
    (hpps : Unpulsed cfg k) (tvSec : ℤ) :
    val (rollover cfg k tvSec).1.timeOffset = rest (Servo.poll tc) (val k.timeOffset) ∧
      val (rollover cfg k tvSec).1.timeAdj
        = (val k.timeOffset).tdiv (Servo.poll tc) + val k.timeFreq + nanosecond * 2 ^ 32 := by
  have hkept : Disciplined (leapSecond (widenError cfg k) (tvSec + 1)).1 ∧
      (leapSecond (widenError cfg k) (tvSec + 1)).1.timeConstant = tc ∧
      Unpulsed cfg (leapSecond (widenError cfg k) (tvSec + 1)).1 := by
    rw [leapSecond_frame]
    exact ⟨⟨⟨hk.1.monitor, hk.1.offset, hk.1.freq, hk.1.constant, hk.1.adj⟩, hk.2⟩, htc, hpps⟩
  obtain ⟨hoffset, hadj⟩ := nextAdj_servo hkept.1 hkept.2.1 hkept.2.2
  rw [rollover_eq, ppsWatchdog_frame]
  rw [leapSecond_frame] at hoffset hadj ⊢
  exact ⟨hoffset, hadj⟩

/-- A tick of the kernel is a tick of the servo. -/
theorem servo_tick (hhz : 1 ≤ cfg.hz ∧ cfg.hz ≤ 100000) (h : Sound cfg c)
    (hfits : TickFits cfg c) (htc : c.k.timeConstant = tc) (hpps : Unpulsed cfg c.k)
    (hno : ¬ LeapDue cfg c) :
    (c.tick cfg).servo cfg = (c.servo cfg).tick cfg.hz tc := by
  have hroll := rollover_iff_position hhz h hfits
  have hcount : (c.adjust cfg).accumulator
      = c.accumulator.count (cfg.hz * 2 ^ 32) (val c.k.timeAdj) :=
    adjust_accumulator hhz h.2 h.1.1.adj hfits
  have hweight := Accumulator.weight_count (cfg.hz * 2 ^ 32) c.accumulator (val c.k.timeAdj)
  rw [← hcount] at hweight
  unfold Servo.tick
  rcases lt_or_ge (ntpTickAdjust cfg c.k c.tv 0).2.tvNsec nanosecond with hlt | hge
  · rw [if_pos (not_le.mp (mt hroll.mpr (not_le.mpr hlt))), tick_of_lt hlt]
    unfold servo at *
    rw [Servo.mk.injEq]
    exact ⟨rfl, hweight, rfl, rfl, rfl, rfl⟩
  · have hk : Disciplined (ntpTickAdjust cfg c.k c.tv 0).1 :=
      ⟨⟨h.1.1.monitor, h.1.1.offset, h.1.1.freq, h.1.1.constant, h.1.1.adj⟩, h.1.2⟩
    obtain ⟨hoffset, hadj⟩ := rollover_servo hk htc hpps c.tv.tvSec
    have hposition : (⟨(ntpTickAdjust cfg c.k c.tv 0).2.tvNsec - nanosecond,
        val (ntpTickAdjust cfg c.k c.tv 0).1.timePhase⟩ : Accumulator).weight (cfg.hz * 2 ^ 32)
        = (c.adjust cfg).accumulator.weight (cfg.hz * 2 ^ 32) - Servo.second cfg.hz := by
      unfold Accumulator.weight Servo.second accumulator adjust
      ring
    rw [if_neg (not_lt.mpr (hroll.mp hge)), tick_of_rollover hge]
    unfold servo at *
    rw [Servo.mk.injEq]
    refine ⟨rollover_tvSec hge hno, ?_, hoffset, ?_, hadj, ?_⟩
    · show Accumulator.weight _ ⟨_, val (rollover cfg _ c.tv.tvSec).1.timePhase⟩ = _
      rw [rollover_timePhase, hposition, hweight]
    · show val (rollover cfg _ c.tv.tvSec).1.timeFreq = _
      rw [rollover_frame]
      rfl
    · show (rollover cfg _ c.tv.tvSec).1.timeReftime = _
      rw [rollover_frame]
      rfl

/-! ### An update -/

/-- The PLL takes the update, and neither the FLL nor PPS has a hand in it. -/
structure Steers (k : Kernel F) : Prop where
  pll : has k.timeStatus staPll = true
  free : has k.timeStatus staFreqhold = false
  noFll : has k.timeStatus staFll = false
  noPpsTime : ppsTime k = false
  noPpsFreq : ppsFrequency k = false

instance (k : Kernel F) : Decidable (Steers k) :=
  decidable_of_iff (has k.timeStatus staPll = true ∧ has k.timeStatus staFreqhold = false ∧
      has k.timeStatus staFll = false ∧ ppsTime k = false ∧ ppsFrequency k = false)
    ⟨fun h => ⟨h.1, h.2.1, h.2.2.1, h.2.2.2.1, h.2.2.2.2⟩,
      fun h => ⟨h.pll, h.free, h.noFll, h.noPpsTime, h.noPpsFreq⟩⟩

/-- Within its limits the clamp leaves a frequency alone. -/
theorem clampFreq_of_abs_le {v : F} (h : |val v| ≤ maxfreq * 2 ^ 32) : clampFreq v = v := by
  obtain ⟨hlo, hhi⟩ := abs_le.mp h
  unfold maxfreq at hlo hhi
  have hnear := lGint_near v (by omega)
  have hle : lGint v ≤ maxfreq := by
    unfold maxfreq
    rcases le_total 0 (val v) with h0 | h0
    · have hint := lGint_nonneg v h0
      omega
    · omega
  have hge : -maxfreq ≤ lGint v := by
    unfold maxfreq
    omega
  unfold clampFreq
  rw [if_neg (not_lt.mpr hle), if_neg (not_lt.mpr hge)]

/-- The PLL term of an interval that has half a word. -/
theorem val_pllTerm_halfWord [HalfWordMpy F] {k : Kernel F} (hm : |k.timeMonitor| ≤ maxphase)
    (htc : 0 ≤ k.timeConstant ∧ k.timeConstant ≤ maxtc) {mtemp : ℤ} (h0 : 0 ≤ mtemp)
    (hle : mtemp ≤ 2 ^ 16) :
    val (pllTerm k mtemp) = (mtemp * pllGain k.timeMonitor k.timeConstant).bmod (2 ^ 64) := by
  have hmonitor := abs_le.mp hm
  unfold maxphase at hmonitor
  unfold maxtc at htc
  have hval : val (lLint k.timeMonitor : F) = k.timeMonitor * 2 ^ 32 :=
    val_lLint_of_fits ⟨by omega, by omega⟩
  unfold pllTerm
  rw [pllShift_eq htc.1, mul_comm mtemp, HalfWordMpy.val_lMpy _ _ h0 hle,
    val_lRshift _ _ (by omega) (by unfold shiftPll; omega) (by unfold shiftPll; omega), hval]
  rfl

omit [LFp F] [LawfulLFp F] in
theorem Steers.loopOffset {k : Kernel F} (h : Steers k) {offset : ℤ}
    (hoffset : |offset| ≤ maxphase) : loopOffset k offset = offset := by
  obtain ⟨hlo, hhi⟩ := abs_le.mp hoffset
  unfold Nanokernel.loopOffset clamp
  rw [h.noPpsTime, if_neg Bool.false_ne_true, if_neg (not_lt.mpr hhi), if_neg (not_lt.mpr hlo)]

omit [LFp F] [LawfulLFp F] in
theorem Steers.interval {k : Kernel F} (h : Steers k) (href : k.timeReftime ≠ 0) (tvSec : ℤ) :
    updateInterval k tvSec = tvSec - k.timeReftime := by
  unfold updateInterval
  rw [h.free, Bool.false_or, if_neg (by simpa using href)]

omit [LFp F] [LawfulLFp F] in
/-- Up to `MAXSEC` the FLL has to be asked for. -/
theorem Steers.noFllTerm {k : Kernel F} (h : Steers k) {mtemp : ℤ} (hle : mtemp ≤ maxsec) :
    fllSelected k mtemp = false := by
  unfold fllSelected
  rw [h.noFll, Bool.false_or, Bool.and_eq_false_iff]
  exact Or.inr (decide_eq_false (not_lt.mpr hle))

/-- The sum of `hardupdate` does not wrap. -/
theorem Steers.freq [HalfWordMpy F] (h : Steers c.k) (hk : Disciplined c.k)
    (htc : c.k.timeConstant = tc) {offset interval : ℤ} (hoffset : |offset| ≤ maxphase)
    (hmtemp : updateInterval c.k c.tv.tvSec = interval) (h0 : 0 ≤ interval)
    (hle : interval ≤ maxsec)
    (hfreq : |((c.servo cfg).correct tc interval offset).freq| ≤ maxfreq * 2 ^ 32) :
    val (hardupdate cfg c.k c.tv.tvSec offset).timeFreq
      = ((c.servo cfg).correct tc interval offset).freq := by
  have hlong : cfg.long (updateInterval c.k c.tv.tvSec) = interval := by
    unfold maxsec at hle
    rw [hmtemp]
    exact cfg.long_of_fits ⟨by omega, by omega⟩
  have hterm : val (pllTerm (updateReftime (updatePhase c.k offset) c.tv.tvSec) interval)
      = (interval * pllGain offset tc).bmod (2 ^ 64) := by
    obtain ⟨hmon, hconst⟩ := updateReftime_updatePhase c.k c.tv.tvSec offset
    rw [h.loopOffset hoffset] at hmon
    have hrange := hk.1.constant
    unfold maxsec at hle
    rw [← hmon] at hoffset
    rw [← hconst] at hrange
    rw [val_pllTerm_halfWord hoffset hrange h0 (by omega), hmon, hconst, htc]
  have hsum : val (unclampedFreq cfg c.k c.tv.tvSec offset)
      = ((c.servo cfg).correct tc interval offset).freq := by
    have hfits := abs_le.mp hfreq
    unfold maxfreq at hfits
    have hwraps : val (unclampedFreq cfg c.k c.tv.tvSec offset)
        = ((c.servo cfg).correct tc interval offset).freq.bmod (2 ^ 64) := by
      unfold unclampedFreq
      dsimp only
      rw [hlong, h.noFllTerm hle, if_neg Bool.false_ne_true, val_lAdd, hterm, Int.add_bmod_bmod]
      rfl
    rw [hwraps]
    exact bmod_of_fits (by decide) ⟨by omega, by omega⟩
  rw [hardupdate_timeFreq h.pll h.noPpsFreq, clampFreq_of_abs_le (hsum ▸ hfreq), hsum]

/-- An update of the kernel is an update of the servo. -/
theorem servo_hardupdate [HalfWordMpy F] (hk : Disciplined c.k) (h : Steers c.k)
    (htc : c.k.timeConstant = tc) {offset interval : ℤ} (hoffset : |offset| ≤ maxphase)
    (hmtemp : updateInterval c.k c.tv.tvSec = interval) (h0 : 0 ≤ interval)
    (hle : interval ≤ maxsec)
    (hfreq : |((c.servo cfg).correct tc interval offset).freq| ≤ maxfreq * 2 ^ 32) :
    (c.step cfg (.hardupdate offset)).servo cfg = (c.servo cfg).correct tc interval offset := by
  have hstored := h.freq hk htc hoffset hmtemp h0 hle hfreq
  have hphase : val (hardupdate cfg c.k c.tv.tvSec offset).timeOffset = offset * 2 ^ 32 := by
    obtain ⟨hlo, hhi⟩ := abs_le.mp hoffset
    have hclamp : clamp maxphase offset = offset := by
      unfold clamp
      rw [if_neg (not_lt.mpr hhi), if_neg (not_lt.mpr hlo)]
    unfold maxphase at hlo hhi
    rw [hardupdate_timeOffset cfg c.tv.tvSec offset h.pll h.noPpsTime, hclamp]
    exact val_lLint_of_fits ⟨by omega, by omega⟩
  have hreset : (hardupdate cfg c.k c.tv.tvSec offset).timeReftime = c.tv.tvSec :=
    hardupdate_timeReftime cfg c.k c.tv.tvSec h.pll
  show servo cfg ⟨hardupdate cfg c.k c.tv.tvSec offset, c.tv⟩ = _
  unfold Servo.correct at hstored ⊢
  unfold servo at *
  rw [Servo.mk.injEq]
  refine ⟨rfl, ?_, hphase, hstored, ?_, hreset⟩
  · show Accumulator.weight _ ⟨_, val (hardupdate cfg c.k c.tv.tvSec offset).timePhase⟩ = _
    rw [hardupdate_timePhase]
    rfl
  · show val (hardupdate cfg c.k c.tv.tvSec offset).timeAdj = _
    rw [hardupdate_frame]

/-- A call that is not an update leaves the servo alone. -/
theorem servo_adjtime {tp : Timex} (he : Idle cfg c (.adjtime tp)) :
    (c.step cfg (.adjtime tp)).servo cfg = c.servo cfg := by
  have href := he.kept.1
  obtain ⟨hoffset, hfreq, -, -⟩ := he
  have hsel : ChangesSelected tp c.k (c.step cfg (.adjtime tp)).k :=
    changesSelected_adjKernel cfg tp c.k c.tv.tvSec
  have hstays : ¬ MovesLoop (c.step cfg (.adjtime tp)).k tp := by
    rintro ⟨hmoves, -⟩
    exact absurd (hoffset.symm.trans hmoves) Bool.false_ne_true
  unfold servo accumulator
  rw [href, hsel.timeOffset hstays, hsel.timeFreq hfreq hoffset, hsel.timeAdj, hsel.timePhase]
  rfl

end Clock

end Nanokernel
