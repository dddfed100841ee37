import Mathlib.Tactic.Linarith
import Nanokernel.Kernel.Timex

/-!
# The microsecond clock of `micro.c`

`micro_time` rounds a reading of `nano_time` to the nearest microsecond and does
not carry. The result stays in order and within half a microsecond, but in the
last 500 ns of a second it is a whole second's worth of microseconds
(`microTimes_proper_iff`).
-/

namespace Nanokernel

/-- `micro_time()`, from the reading of `nano_time()`. -/
def microTime (ts : Timespec) : Timeval :=
  ⟨ts.tvSec, (ts.tvNsec + 500).tdiv 1000⟩

namespace Timeval

def Normalised (t : Timeval) : Prop := 0 ≤ t.tvUsec ∧ t.tvUsec < 1000000

instance (t : Timeval) : Decidable t.Normalised := inferInstanceAs (Decidable (_ ∧ _))

/-- The order of the pairs. -/
def NotAfter (t t' : Timeval) : Prop :=
  t.tvSec < t'.tvSec ∨ t.tvSec = t'.tvSec ∧ t.tvUsec ≤ t'.tvUsec

instance (t t' : Timeval) : Decidable (NotAfter t t') :=
  inferInstanceAs (Decidable (_ ∨ _))

/-- The time as a count of nanoseconds. -/
def nsec (t : Timeval) : ℤ := t.tvSec * nanosecond + 1000 * t.tvUsec

end Timeval

section Reading

variable {ts ts' : Timespec}

theorem microTime_tvUsec (h : ts.Normalised) :
    (microTime ts).tvUsec = (ts.tvNsec + 500) / 1000 := by
  exact Int.tdiv_eq_ediv_of_nonneg (add_nonneg h.1 (by decide))

/-- Rounding to the nearest microsecond. -/
theorem abs_microTime_sub_le (h : ts.Normalised) : |(microTime ts).nsec - ts.nsec| ≤ 500 := by
  have hround : (microTime ts).nsec - ts.nsec
      = 1000 * ((ts.tvNsec + 500) / 1000) - ts.tvNsec := by
    unfold Timeval.nsec
    rw [microTime_tvUsec h]
    exact add_sub_add_left_eq_sub _ _ _
  rw [hround, abs_le]
  omega

/-- Rounding keeps the order, across the second as well. -/
theorem microTime_notAfter (h : ts.Normalised) (h' : ts'.Normalised) (hlater : ts.Before ts') :
    (microTime ts).NotAfter (microTime ts') := by
  unfold Timeval.NotAfter
  rw [microTime_tvUsec h, microTime_tvUsec h']
  rcases hlater with hsec | ⟨hsec, hnsec⟩
  · exact Or.inl hsec
  · refine Or.inr ⟨hsec, Int.ediv_le_ediv (by decide) ?_⟩
    exact add_le_add_left hnsec.le 500

/-- The carry is missing in the last 500 ns of a second. -/
theorem microTime_normalised_iff (h : ts.Normalised) :
    (microTime ts).Normalised ↔ ts.tvNsec < 999999500 := by
  unfold Timeval.Normalised
  rw [microTime_tvUsec h]
  obtain ⟨hlo, hhi⟩ := h
  constructor
  · rintro ⟨-, husec⟩
    omega
  · intro hnsec
    constructor
    · exact Int.ediv_nonneg (by linarith) (by decide)
    · omega

end Reading

/-- Over every sequence of readings, each normalised and later than the ones before it: the
microseconds are in range, within half a microsecond of the readings and in order exactly
when no reading is in the last 500 ns of a second. -/
theorem microTimes_proper_iff (readings : List Timespec)
    (hnorm : ∀ ts ∈ readings, ts.Normalised) (hlater : readings.Pairwise Timespec.Before) :
    ((∀ ts ∈ readings, (microTime ts).Normalised ∧ |(microTime ts).nsec - ts.nsec| ≤ 500) ∧
        (readings.map microTime).Pairwise Timeval.NotAfter) ↔
      ∀ ts ∈ readings, ts.tvNsec < 999999500 := by
  have horder : (readings.map microTime).Pairwise Timeval.NotAfter := by
    rw [List.pairwise_map]
    refine hlater.imp_of_mem ?_
    intro ts ts' hts hts' hbefore
    exact microTime_notAfter (hnorm ts hts) (hnorm ts' hts') hbefore
  constructor
  · rintro ⟨hproper, -⟩ ts hts
    exact (microTime_normalised_iff (hnorm ts hts)).mp (hproper ts hts).1
  · intro hnsec
    refine ⟨fun ts hts => ⟨?_, ?_⟩, horder⟩
    · exact (microTime_normalised_iff (hnorm ts hts)).mpr (hnsec ts hts)
    · exact abs_microTime_sub_le (hnorm ts hts)

/-- Two readings that share a microsecond. -/
theorem microTimes_proper_iff_pair :
    ((∀ ts ∈ [⟨7, 1600⟩, ⟨7, 2400⟩],
          (microTime ts).Normalised ∧ |(microTime ts).nsec - ts.nsec| ≤ 500) ∧
        ([⟨7, 1600⟩, ⟨7, 2400⟩].map microTime).Pairwise Timeval.NotAfter) ↔
      ∀ ts ∈ [(⟨7, 1600⟩ : Timespec), ⟨7, 2400⟩], ts.tvNsec < 999999500 :=
  microTimes_proper_iff [⟨7, 1600⟩, ⟨7, 2400⟩] (by decide) (by decide)

/-- A reading 500 ns before the second is rounded to 1000000 microseconds. -/
theorem not_microTimes_proper : ¬ ∀ readings : List Timespec,
    (∀ ts ∈ readings, ts.Normalised) → readings.Pairwise Timespec.Before →
    (∀ ts ∈ readings, (microTime ts).Normalised ∧ |(microTime ts).nsec - ts.nsec| ≤ 500) ∧
      (readings.map microTime).Pairwise Timeval.NotAfter := by
  intro h
  have hproper := h [⟨7, 999999500⟩] (by decide) (by decide)
  exact absurd (hproper.1 ⟨7, 999999500⟩ (by decide)).1 (by decide)

end Nanokernel
