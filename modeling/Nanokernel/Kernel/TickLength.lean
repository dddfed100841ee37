import Nanokernel.Kernel.Envelope
import Nanokernel.Kernel.LeapSecond

/-!
# The length of a tick

Apart from a leap second, a tick moves the clock by what `ntp_tick_adjust` adds,
and that is between half of `time_tick` and twice as long (`advance_bounds`).
-/

namespace Nanokernel

variable {F : Type}

namespace Clock

/-- The nanoseconds from one clock reading to another. -/
def elapsed (t t' : Timespec) : ℤ :=
  t'.tvNsec - t.tvNsec + (t'.tvSec - t.tvSec) * nanosecond

/-- The switch moves the seconds only when a leap second is due. -/
theorem leapSecond_snd (k : Kernel F) (sec : ℤ) :
    (leapSecond k sec).2 = sec - 1 ∧ k.timeState = .ins ∧
        has k.timeStatus staIns = true ∧ sec.tmod 86400 = 0 ∨
      (leapSecond k sec).2 = sec + 1 ∧ k.timeState = .del ∧
        has k.timeStatus staDel = true ∧ (sec + 1).tmod 86400 = 0 ∨
      (leapSecond k sec).2 = sec ∧
        ¬ (k.timeState = .ins ∧ has k.timeStatus staIns = true ∧
            sec.tmod 86400 = 0 ∨
          k.timeState = .del ∧ has k.timeStatus staDel = true ∧
            (sec + 1).tmod 86400 = 0) := by
  unfold leapSecond
  cases hstate : k.timeState with
  | ins =>
    dsimp only
    split_ifs with hins hday
    · simp_all
    · simp_all
    · simp_all
  | del =>
    dsimp only
    split_ifs with hdel hday
    · simp_all
    · simp_all
    · simp_all
  | oop => simp
  | ok =>
    dsimp only
    split_ifs <;> simp
  | wait =>
    dsimp only
    split_ifs <;> simp

variable [LFp F] {cfg : Config} {c : Clock F}

/-- What `ntp_tick_adjust` adds to the clock in this tick, its `time_update`. -/
def advance (cfg : Config) (c : Clock F) : ℤ := cfg.long (0 + (tickPhase cfg c.k cfg.hz).2)

/-- What becomes of the nanoseconds, which is that modulo the `long` that holds them. -/
def nsecGain (cfg : Config) (c : Clock F) : ℤ :=
  (ntpTickAdjust cfg c.k c.tv 0).2.tvNsec - c.tv.tvNsec

theorem dvd_nsecGain_sub_advance (cfg : Config) (c : Clock F) :
    2 ^ cfg.longWidth.bits ∣ nsecGain cfg c - advance cfg c := by
  have hself := Int.dvd_self_sub_bmod (x := c.tv.tvNsec + advance cfg c)
    (m := 2 ^ cfg.longWidth.bits)
  push_cast at hself
  have hgain : nsecGain cfg c - advance cfg c
      = -(c.tv.tvNsec + advance cfg c - cfg.long (c.tv.tvNsec + advance cfg c)) := by
    show cfg.long (c.tv.tvNsec + advance cfg c) - c.tv.tvNsec - advance cfg c = _
    ring
  rw [hgain]
  exact (dvd_neg).mpr hself

/-- In this tick the second rolls over at midnight with a leap second
announced. -/
def LeapDue (cfg : Config) (c : Clock F) : Prop :=
  Rollover cfg c .tick ∧
    (c.k.timeState = .ins ∧ has c.k.timeStatus staIns = true ∧
        (c.tv.tvSec + 1).tmod 86400 = 0 ∨
      c.k.timeState = .del ∧ has c.k.timeStatus staDel = true ∧
        (c.tv.tvSec + 1 + 1).tmod 86400 = 0)

instance (cfg : Config) (c : Clock F) : Decidable (LeapDue cfg c) :=
  inferInstanceAs (Decidable (_ ∧ _))

theorem elapsed_tick (cfg : Config) (c : Clock F) :
    LeapDue cfg c ∧ (elapsed c.tv (c.tick cfg).tv = nsecGain cfg c - nanosecond ∨
        elapsed c.tv (c.tick cfg).tv = nsecGain cfg c + nanosecond) ∨
      ¬ LeapDue cfg c ∧ elapsed c.tv (c.tick cfg).tv = nsecGain cfg c := by
  by_cases hroll : nanosecond ≤ (ntpTickAdjust cfg c.k c.tv 0).2.tvNsec
  · have hleap := leapSecond_snd
      (widenError cfg (ntpTickAdjust cfg c.k c.tv 0).1) (c.tv.tvSec + 1)
    rw [tick_of_rollover hroll, rollover_eq]
    unfold elapsed nsecGain LeapDue nanosecond
    dsimp only
    -- the second taken off the nanoseconds is the one that is counted up
    rcases hleap with ⟨hsec, hdue⟩ | ⟨hsec, hdue⟩ | ⟨hsec, hdue⟩
    · rw [hsec]
      exact Or.inl ⟨⟨⟨rfl, hroll⟩, Or.inl hdue⟩, Or.inl (by ring)⟩
    · rw [hsec]
      exact Or.inl ⟨⟨⟨rfl, hroll⟩, Or.inr hdue⟩, Or.inr (by ring)⟩
    · rw [hsec]
      exact Or.inr ⟨fun h => hdue h.2, by ring⟩
  · rw [tick_of_lt (not_le.mp hroll)]
    refine Or.inr ⟨fun h => hroll h.1.2, ?_⟩
    unfold elapsed nsecGain
    show _ + (c.tv.tvSec - c.tv.tvSec) * nanosecond = _
    ring

/-- Only a tick moves the clock. -/
theorem step_tv {e : Event} (he : e ≠ .tick) : (step cfg c e).tv = c.tv := by
  cases e with
  | tick => exact absurd rfl he
  | _ => rfl

variable [LawfulLFp F]

theorem advance_eq (hhz : 1 ≤ cfg.hz ∧ cfg.hz ≤ 100000) (h : Sound cfg c) :
    advance cfg c = (val c.k.timePhase + val c.k.timeAdj) / (cfg.hz * 2 ^ 32) :=
  long_tickPhase_snd cfg ⟨hhz.1, by omega⟩ h.2 h.1.1.adj

/-- The nanoseconds show it while they fit their `long`. -/
theorem nsecGain_of_tickFits (hhz : 1 ≤ cfg.hz ∧ cfg.hz ≤ 100000) (h : Sound cfg c)
    (hfits : TickFits cfg c) : nsecGain cfg c = advance cfg c := by
  unfold nsecGain
  rw [ntpTickAdjust_tvNsec cfg hhz h.2 h.1.1.adj, cfg.long_eq_iff.mpr hfits,
    advance_eq hhz h, add_sub_cancel_left]

/-- Between leap seconds the whole clock shows it. -/
theorem elapsed_of_tickFits (hhz : 1 ≤ cfg.hz ∧ cfg.hz ≤ 100000) (h : Sound cfg c)
    (hfits : TickFits cfg c) (hno : ¬ LeapDue cfg c) :
    elapsed c.tv (c.tick cfg).tv = advance cfg c := by
  rcases elapsed_tick cfg c with ⟨hdue, -⟩ | ⟨-, helapsed⟩
  · exact absurd hdue hno
  · rw [helapsed, nsecGain_of_tickFits hhz h hfits]

/-- A tick is between half of `time_tick` and twice as long. -/
theorem advance_bounds (hhz : 1 ≤ cfg.hz ∧ cfg.hz ≤ 100000) (h : Sound cfg c) :
    nanosecond.tdiv cfg.hz ≤ 2 * advance cfg c ∧
      advance cfg c ≤ 2 * nanosecond.tdiv cfg.hz := by
  have hadv := advance_eq hhz h
  obtain ⟨hk, hnn, hlt⟩ := h
  have hadj := hk.1.adj
  unfold AdjRange at hadj
  have hdiv := Int.mul_ediv_add_emod (val c.k.timePhase + val c.k.timeAdj)
    (cfg.hz * 2 ^ 32)
  have hrem := Int.emod_nonneg (val c.k.timePhase + val c.k.timeAdj)
    (by omega : cfg.hz * 2 ^ 32 ≠ 0)
  have hrem' := Int.emod_lt_of_pos (val c.k.timePhase + val c.k.timeAdj)
    (by omega : 0 < cfg.hz * 2 ^ 32)
  have htick : nanosecond.tdiv cfg.hz = nanosecond / cfg.hz :=
    Int.tdiv_eq_ediv_of_nonneg (by decide)
  have hT := Int.mul_ediv_add_emod nanosecond cfg.hz
  have hTrem := Int.emod_nonneg nanosecond (by omega : cfg.hz ≠ 0)
  have hTrem' := Int.emod_lt_of_pos nanosecond (by omega : 0 < cfg.hz)
  have hcomm : cfg.hz * 2 ^ 32 * advance cfg c = cfg.hz * advance cfg c * 2 ^ 32 := by
    ring
  -- each division loses less than a unit, and a second has `hz` ticks
  rw [← hadv, hcomm] at hdiv
  rw [← htick] at hT
  unfold nanosecond at *
  constructor
  · by_contra hlt
    have hmul : cfg.hz * (2 * advance cfg c + 1)
        ≤ cfg.hz * (1000000000 : ℤ).tdiv cfg.hz :=
      mul_le_mul_of_nonneg_left (by omega) (by omega)
    have hexp : cfg.hz * (2 * advance cfg c + 1)
        = 2 * (cfg.hz * advance cfg c) + cfg.hz := by
      ring
    omega
  · by_contra hlt
    have hmul : cfg.hz * (2 * (1000000000 : ℤ).tdiv cfg.hz + 1)
        ≤ cfg.hz * advance cfg c :=
      mul_le_mul_of_nonneg_left (by omega) (by omega)
    have hexp : cfg.hz * (2 * (1000000000 : ℤ).tdiv cfg.hz + 1)
        = 2 * (cfg.hz * (1000000000 : ℤ).tdiv cfg.hz) + cfg.hz := by
      ring
    omega

end Clock

end Nanokernel
