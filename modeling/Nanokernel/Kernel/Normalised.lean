import Nanokernel.Kernel.Envelope
import Nanokernel.Kernel.LeapSecond

/-!
# The carry of `second_overflow`

`second_overflow` carries one second at most. That is enough as long as a tick
and the nanoseconds before it make less than two seconds, which two ticks a
second or more always do (`staysNormalised_iff`).
-/

namespace Nanokernel

open SignedWord Run

variable {F : Type} [LFp F]

namespace Clock

/-- After the tick the nanoseconds are short of a second, and apart from a leap
step the seconds have grown by those that elapsed. -/
def StaysNormalised (cfg : Config) (c : Clock F) : Event → Prop
  | .tick => (c.tick cfg).tv.Normalised ∧ (¬ LeapStep cfg c .tick →
      (c.tick cfg).tv.tvSec
        = c.tv.tvSec + (ntpTickAdjust cfg c.k c.tv 0).2.tvNsec / nanosecond)
  | _ => True

variable [LawfulLFp F]

/-- Two ticks a second or more, or one that does not take the nanoseconds as far
as two seconds. -/
def CarriesOnce (cfg : Config) (c : Clock F) : Event → Prop
  | .tick => 2 ≤ cfg.hz ∨
      val c.k.timePhase + val c.k.timeAdj < (2 * nanosecond - c.tv.tvNsec) * 2 ^ 32
  | _ => True

variable {cfg : Config} {c : Clock F}

/-- The nanoseconds after the tick, before the `long` that holds them. -/
def tickNsec (cfg : Config) (c : Clock F) : ℤ :=
  c.tv.tvNsec + (val c.k.timePhase + val c.k.timeAdj) / (cfg.hz * 2 ^ 32)

/-- `CarriesOnce` by the nanoseconds that the tick makes. -/
theorem carriesOnce_iff (hhz : 1 ≤ cfg.hz ∧ cfg.hz ≤ 100000) (h : Sound cfg c)
    (htv : c.tv.Normalised) :
    CarriesOnce cfg c .tick ↔ tickNsec cfg c < 2 * nanosecond := by
  obtain ⟨hk, hphase⟩ := h
  have hadj := hk.1.adj
  unfold CarriesOnce tickNsec
  by_cases htwo : 2 ≤ cfg.hz
  · refine iff_of_true (Or.inl htwo) ?_
    have hdiv := tickQuotient_lt_of_two htwo hphase hadj
    have hlt := htv.2
    unfold nanosecond at hlt ⊢
    omega
  · have hone : cfg.hz = 1 := by omega
    have hlt : (val c.k.timePhase + val c.k.timeAdj) / 2 ^ 32 < 2 * nanosecond - c.tv.tvNsec ↔
        val c.k.timePhase + val c.k.timeAdj < (2 * nanosecond - c.tv.tvNsec) * 2 ^ 32 :=
      Int.ediv_lt_iff_lt_mul (by decide)
    rw [hone, one_mul]
    exact (or_iff_right (by decide)).trans (hlt.symm.trans lt_sub_iff_add_lt')

/-- Two seconds of nanoseconds fit a `long`. -/
theorem keepsLong_of_carriesOnce (hhz : 1 ≤ cfg.hz ∧ cfg.hz ≤ 100000) (h : Sound cfg c)
    (htv : c.tv.Normalised) {e : Event} (hcarries : CarriesOnce cfg c e) :
    KeepsLong cfg c e := by
  cases e with
  | tick =>
    have hcount := (tickQuotient_bounds (by omega : 1 ≤ cfg.hz ∧ cfg.hz ≤ 100000000)
      h.2 h.1.1.adj).1
    have hlt := (carriesOnce_iff hhz h htv).mp hcarries
    have hlo := htv.1
    unfold tickNsec nanosecond at hlt
    exact cfg.fits_of_fits ⟨by omega, by omega⟩
  | _ => trivial

/-- The clock field holds the nanoseconds that the tick makes, or they are more than two
seconds and it has wrapped below zero. -/
theorem tvNsec_ntpTickAdjust (hhz : 1 ≤ cfg.hz ∧ cfg.hz ≤ 100000) (h : Sound cfg c)
    (htv : c.tv.Normalised) :
    (ntpTickAdjust cfg c.k c.tv 0).2.tvNsec = tickNsec cfg c ∨
      2 * nanosecond ≤ tickNsec cfg c ∧ (ntpTickAdjust cfg c.k c.tv 0).2.tvNsec < 0 := by
  obtain ⟨hcount, hcount'⟩ := tickQuotient_bounds (by omega : 1 ≤ cfg.hz ∧ cfg.hz ≤ 100000000)
    h.2 h.1.1.adj
  have hrange : 0 ≤ tickNsec cfg c ∧ tickNsec cfg c < 2400000000 := by
    obtain ⟨hlo, hhi⟩ := htv
    unfold nanosecond at hhi
    unfold tickNsec
    omega
  rw [ntpTickAdjust_tvNsec cfg hhz h.2 h.1.1.adj]
  by_cases hfits : Fits 32 (tickNsec cfg c)
  · exact Or.inl (cfg.long_of_fits hfits)
  · have hbig : 2 ^ 31 ≤ tickNsec cfg c := by
      by_contra hlt
      exact hfits ⟨by omega, by omega⟩
    unfold nanosecond
    cases hwidth : cfg.longWidth with
    | ilp32 =>
      have hwrap : cfg.long (tickNsec cfg c) = tickNsec cfg c - 2 ^ 32 := by
        unfold Config.long LongWidth.long
        rw [hwidth]
        show (tickNsec cfg c).bmod (2 ^ 32) = _
        exact bmod_of_fits_sub (by decide) ⟨by omega, by omega⟩
      exact Or.inr ⟨by omega, by rw [← tickNsec, hwrap]; omega⟩
    | lp64 =>
      refine Or.inl (cfg.long_eq_iff.mpr ?_)
      unfold Config.Fits
      rw [hwidth, ← tickNsec]
      exact ⟨by simp only [LongWidth.bits]; omega, by simp only [LongWidth.bits]; omega⟩

/-- What `second_overflow` makes of the nanoseconds it finds. -/
theorem staysNormalised_tick_iff (hhz : 1 ≤ cfg.hz ∧ cfg.hz ≤ 100000) (h : Sound cfg c)
    (htv : c.tv.Normalised) :
    StaysNormalised cfg c .tick ↔ tickNsec cfg c < 2 * nanosecond := by
  have hnn : 0 ≤ tickNsec cfg c := by
    have hcount := (tickQuotient_bounds (by omega : 1 ≤ cfg.hz ∧ cfg.hz ≤ 100000000)
      h.2 h.1.1.adj).1
    have hlo := htv.1
    unfold tickNsec
    omega
  unfold StaysNormalised
  rcases tvNsec_ntpTickAdjust hhz h htv with hsame | ⟨hbig, hneg⟩
  · rw [← hsame] at hnn ⊢
    by_cases hroll : nanosecond ≤ (ntpTickAdjust cfg c.k c.tv 0).2.tvNsec
    · have hnsec : (c.tick cfg).tv.tvNsec
          = (ntpTickAdjust cfg c.k c.tv 0).2.tvNsec - nanosecond := by
        rw [tick_of_rollover hroll]
      have hsec : ¬ LeapStep cfg c .tick → (c.tick cfg).tv.tvSec = c.tv.tvSec + 1 := by
        intro hno
        have hmidnight := (tick_leap ⟨rfl, hroll⟩).midnightOnly
        have hins : ¬ Leap.Inserts c.leap (c.tick cfg).leap :=
          fun hins => hno ⟨⟨rfl, hroll⟩, Or.inl hins⟩
        have hdel : ¬ Leap.Deletes c.leap (c.tick cfg).leap :=
          fun hdel => hno ⟨⟨rfl, hroll⟩, Or.inr hdel⟩
        unfold Leap.MidnightOnly at hmidnight
        rw [if_neg hins, if_neg hdel] at hmidnight
        exact hmidnight
      unfold Timespec.Normalised
      rw [hnsec]
      constructor
      · rintro ⟨⟨-, hlt⟩, -⟩
        omega
      · intro hlt
        refine ⟨⟨by omega, by omega⟩, fun hno => ?_⟩
        rw [hsec hno]
        unfold nanosecond at *
        omega
    · have htick : (c.tick cfg).tv = (ntpTickAdjust cfg c.k c.tv 0).2 := by
        rw [tick_of_lt (not_le.mp hroll)]
      have hsec : (ntpTickAdjust cfg c.k c.tv 0).2.tvSec = c.tv.tvSec := rfl
      rw [htick, hsec]
      unfold Timespec.Normalised nanosecond at *
      refine iff_of_true ⟨⟨hnn, by omega⟩, fun _ => by omega⟩ (by omega)
  · -- a wrapped clock stays below zero
    have hlt : (ntpTickAdjust cfg c.k c.tv 0).2.tvNsec < nanosecond :=
      hneg.trans (by decide)
    refine iff_of_false ?_ (not_lt.mpr hbig)
    rintro ⟨⟨hlo, -⟩, -⟩
    rw [tick_of_lt hlt] at hlo
    exact absurd hlo (not_le.mpr hneg)

theorem staysNormalised_iff_carriesOnce (hhz : 1 ≤ cfg.hz ∧ cfg.hz ≤ 100000)
    (h : Sound cfg c) (htv : c.tv.Normalised) (e : Event) :
    StaysNormalised cfg c e ↔ CarriesOnce cfg c e := by
  cases e with
  | tick => exact (staysNormalised_tick_iff hhz h htv).trans (carriesOnce_iff hhz h htv).symm
  | _ => exact Iff.rfl

omit [LawfulLFp F] in
/-- Only a tick moves the clock. -/
theorem step_normalised (htv : c.tv.Normalised) {e : Event}
    (h : StaysNormalised cfg c e) : (step cfg c e).tv.Normalised := by
  cases e with
  | tick => exact h.1
  | _ => exact htv

/-! ## Runs -/

/-- Over every run of ticks and calls the clock stays normalised and counts the
seconds that elapse exactly when no tick takes it as far as two seconds. -/
theorem staysNormalised_iff (cfg : Config) (hhz : 1 ≤ cfg.hz ∧ cfg.hz ≤ 100000)
    (c : Clock F) (hboot : Boots cfg c) (htv : c.tv.Normalised) (es : List Event)
    (hes : Along (step cfg) (Admissible cfg) c es) :
    Along (step cfg) (StaysNormalised cfg) c es ↔
      Along (step cfg) (CarriesOnce cfg) c es := by
  refine along_congr (I := fun c : Clock F => Sound cfg c ∧ c.tv.Normalised) ?_ ?_
    ⟨sound_of_boots hhz.1 hboot, htv⟩ hes
  · rintro c e ⟨hsound, htv⟩ he hcarries
    refine ⟨step_sound hhz hsound he, step_normalised htv ?_⟩
    exact (staysNormalised_iff_carriesOnce hhz hsound htv e).mpr hcarries
  · rintro c e ⟨hsound, htv⟩ -
    exact staysNormalised_iff_carriesOnce hhz hsound htv e

/-- One nanosecond short of a second, on a machine that ticks once a second. -/
def lastNsec : Clock LFp64 := ⟨Kernel.boot oneHertz, 1000000, 999999999⟩

/-- The first tick after the offset still goes at the old rate. -/
theorem staysNormalised_iff_fullOffset :
    Along (step oneHertz) (StaysNormalised oneHertz) lastNsec [fullOffset, .tick] ↔
      Along (step oneHertz) (CarriesOnce oneHertz) lastNsec [fullOffset, .tick] :=
  staysNormalised_iff oneHertz (by decide) lastNsec rfl (by decide) _
    ⟨trivial, trivial, trivial⟩

/-- The second tick adds a second and a sixteenth of the offset. -/
theorem not_staysNormalised : ¬ ∀ (cfg : Config) (c : Clock LFp64) (es : List Event),
    1 ≤ cfg.hz ∧ cfg.hz ≤ 100000 → Boots cfg c → c.tv.Normalised →
    Along (step cfg) (Admissible cfg) c es →
    Along (step cfg) (StaysNormalised cfg) c es := by
  intro h
  have hrun := h oneHertz lastNsec [fullOffset, .tick, .tick] (by decide) rfl (by decide)
    ⟨trivial, trivial, trivial, trivial⟩
  exact absurd hrun.2.2.1.1 (by decide +kernel)

end Clock

end Nanokernel
