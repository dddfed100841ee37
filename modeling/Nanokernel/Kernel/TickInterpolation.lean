import Nanokernel.Arithmetic.TwoWord
import Nanokernel.Foundation.Accumulator
import Nanokernel.Kernel.Runs

/-!
# The tick interpolation

`ntp_tick_adjust` counts `time_adj` towards whole clock units: the clock field
and `time_phase` are an accumulator of modulus `hz * 2^32`, or
`1000 * hz * 2^32` for the microsecond clock. While `time_adj` is in its range
and the clock field in its `long`, no intermediate overflows (`tickExact`), so
the code does what the accumulator does (`tickPhase_eq`) and no fraction is
lost.
-/

namespace Nanokernel

open SignedWord Run

variable {F : Type} [LFp F] [LawfulLFp F]

/-- The range of `time_adj`: a second of clock frequency, less or more by
under a quarter. -/
def AdjRange (adj : ℤ) : Prop :=
  3 * nanosecond * 2 ^ 32 < 4 * adj ∧ 4 * adj < 5 * nanosecond * 2 ^ 32

instance (adj : ℤ) : Decidable (AdjRange adj) :=
  inferInstanceAs (Decidable (_ ∧ _))

/-- The residue of the accumulator: nonnegative and short of one clock unit. -/
def PhaseRange (unit phase : ℤ) : Prop := 0 ≤ phase ∧ phase < unit * 2 ^ 32

/-! ## One call -/

/-- The clock units of one call, before the `long` they are stored in. -/
def tickCount (k : Kernel F) (unit : ℤ) : ℤ :=
  (lGint (lAdd k.timePhase k.timeAdj)).tdiv unit

/-- Every intermediate of `ntp_tick_adjust` without residual, as an integer, fits
the word it is computed in; `field` is the clock field that it adds to. -/
structure TickExact (cfg : Config) (k : Kernel F) (unit field : ℤ) : Prop where
  sum : Fits 64 (val k.timePhase + val k.timeAdj)
  integral : cfg.Fits (lGint (lAdd k.timePhase k.timeAdj))
  count : cfg.Fits (tickCount k unit)
  update : cfg.Fits (0 + tickCount k unit)
  negated : cfg.Fits (-tickCount k unit)
  product : cfg.Fits (-tickCount k unit * unit)
  shifted : Fits 64 (-tickCount k unit * unit * 2 ^ 32)
  residue : Fits 64
    (val k.timePhase + val k.timeAdj + -tickCount k unit * unit * 2 ^ 32)
  clock : cfg.Fits (field + (0 + tickCount k unit))

section Tick

variable {cfg : Config} {k : Kernel F} {unit : ℤ}

theorem tickSum_bounds (hunit : unit ≤ 100000000)
    (hphase : PhaseRange unit (val k.timePhase)) (hadj : AdjRange (val k.timeAdj)) :
    0 ≤ val k.timePhase + val k.timeAdj ∧
      val k.timePhase + val k.timeAdj < 1400000000 * 2 ^ 32 := by
  unfold AdjRange nanosecond at hadj
  unfold PhaseRange at hphase
  omega

theorem val_tickSum (hunit : unit ≤ 100000000)
    (hphase : PhaseRange unit (val k.timePhase)) (hadj : AdjRange (val k.timeAdj)) :
    val (lAdd k.timePhase k.timeAdj) = val k.timePhase + val k.timeAdj := by
  have hsum := tickSum_bounds hunit hphase hadj
  exact val_lAdd_of_fits ⟨by omega, by omega⟩

theorem lGint_tickSum (hunit : unit ≤ 100000000)
    (hphase : PhaseRange unit (val k.timePhase)) (hadj : AdjRange (val k.timeAdj)) :
    lGint (lAdd k.timePhase k.timeAdj)
      = (val k.timePhase + val k.timeAdj) / 2 ^ 32 := by
  have hsum := tickSum_bounds hunit hphase hadj
  have hval := val_tickSum hunit hphase hadj
  rw [lGint_nonneg _ (by omega), hval]

/-- The two divisions of the code are one. -/
theorem tickCount_eq (hunit : 1 ≤ unit ∧ unit ≤ 100000000)
    (hphase : PhaseRange unit (val k.timePhase)) (hadj : AdjRange (val k.timeAdj)) :
    tickCount k unit = (val k.timePhase + val k.timeAdj) / (unit * 2 ^ 32) := by
  have hsum := tickSum_bounds hunit.2 hphase hadj
  have hint : 0 ≤ (val k.timePhase + val k.timeAdj) / 2 ^ 32 :=
    Int.ediv_nonneg hsum.1 (by decide)
  unfold tickCount
  rw [lGint_tickSum hunit.2 hphase hadj, Int.tdiv_eq_ediv_of_nonneg hint,
    Int.ediv_ediv_of_nonneg (by decide), mul_comm]

theorem tickCount_bounds (hunit : 1 ≤ unit ∧ unit ≤ 100000000)
    (hphase : PhaseRange unit (val k.timePhase)) (hadj : AdjRange (val k.timeAdj)) :
    0 ≤ tickCount k unit ∧ tickCount k unit * unit * 2 ^ 32
      ≤ val k.timePhase + val k.timeAdj := by
  have hsum := tickSum_bounds hunit.2 hphase hadj
  rw [tickCount_eq hunit hphase hadj, mul_assoc]
  exact ⟨Int.ediv_nonneg hsum.1 (by omega), Int.ediv_mul_le _ (by omega)⟩

/-- A tick makes less than a second and a half of clock units. -/
theorem tickQuotient_bounds (hunit : 1 ≤ unit ∧ unit ≤ 100000000)
    (hphase : PhaseRange unit (val k.timePhase)) (hadj : AdjRange (val k.timeAdj)) :
    0 ≤ (val k.timePhase + val k.timeAdj) / (unit * 2 ^ 32) ∧
      (val k.timePhase + val k.timeAdj) / (unit * 2 ^ 32) < 1400000000 := by
  have hsum := tickSum_bounds hunit.2 hphase hadj
  exact ⟨Int.ediv_nonneg hsum.1 (by omega),
    Int.ediv_lt_of_lt_mul (by omega) (by omega)⟩

/-- One of two ticks or more makes less than one unit of the phase and five
eighths of a second. -/
theorem tickQuotient_lt_of_two (htwo : 2 ≤ unit)
    (hphase : PhaseRange unit (val k.timePhase)) (hadj : AdjRange (val k.timeAdj)) :
    (val k.timePhase + val k.timeAdj) / (unit * 2 ^ 32) < 625000001 := by
  apply Int.ediv_lt_of_lt_mul (by omega)
  have hmul : 625000000 * (2 * 2 ^ 32) ≤ 625000000 * (unit * 2 ^ 32) := by omega
  have hlt := hphase.2
  unfold AdjRange nanosecond at hadj
  omega

theorem tickExact (cfg : Config) (hunit : 1 ≤ unit ∧ unit ≤ 100000000)
    (hphase : PhaseRange unit (val k.timePhase)) (hadj : AdjRange (val k.timeAdj))
    {field : ℤ}
    (hfits : cfg.Fits (field + (val k.timePhase + val k.timeAdj) / (unit * 2 ^ 32))) :
    TickExact cfg k unit field := by
  have hsum := tickSum_bounds hunit.2 hphase hadj
  have hint := lGint_tickSum hunit.2 hphase hadj
  obtain ⟨hcount, hmul⟩ := tickCount_bounds hunit hphase hadj
  have hprod : 0 ≤ tickCount k unit * unit := Int.mul_nonneg hcount (by omega)
  have hle : tickCount k unit ≤ tickCount k unit * unit :=
    le_mul_of_one_le_right hcount hunit.1
  have hneg : -tickCount k unit * unit = -(tickCount k unit * unit) :=
    Int.neg_mul _ _
  rw [← tickCount_eq hunit hphase hadj, ← zero_add (tickCount k unit)] at hfits
  exact
    { sum := ⟨by omega, by omega⟩
      integral := cfg.fits_of_fits ⟨by omega, by omega⟩
      count := cfg.fits_of_fits ⟨by omega, by omega⟩
      update := cfg.fits_of_fits ⟨by omega, by omega⟩
      negated := cfg.fits_of_fits ⟨by omega, by omega⟩
      product := cfg.fits_of_fits ⟨by omega, by omega⟩
      shifted := ⟨by omega, by omega⟩
      residue := ⟨by omega, by omega⟩
      clock := hfits }

/-- The phase and the clock units of one call, as the accumulator has them. -/
theorem tickPhase_eq (cfg : Config) (hunit : 1 ≤ unit ∧ unit ≤ 100000000)
    (hphase : PhaseRange unit (val k.timePhase)) (hadj : AdjRange (val k.timeAdj)) :
    val (tickPhase cfg k unit).1
        = (val k.timePhase + val k.timeAdj) % (unit * 2 ^ 32) ∧
      (tickPhase cfg k unit).2
        = (val k.timePhase + val k.timeAdj) / (unit * 2 ^ 32) := by
  have hsum := tickSum_bounds hunit.2 hphase hadj
  have hval := val_tickSum hunit.2 hphase hadj
  have hcount := tickCount_eq hunit hphase hadj
  obtain ⟨hnn, hmul⟩ := tickCount_bounds hunit hphase hadj
  have hprod : 0 ≤ tickCount k unit * unit := Int.mul_nonneg hnn (by omega)
  have hle : tickCount k unit ≤ tickCount k unit * unit :=
    le_mul_of_one_le_right hnn hunit.1
  have hneg : -tickCount k unit * unit = -(tickCount k unit * unit) :=
    Int.neg_mul _ _
  -- a `long` of either width holds the count and the product
  have hlong : cfg.long (tickCount k unit) = tickCount k unit :=
    cfg.long_of_fits ⟨by omega, by omega⟩
  have hlong' : cfg.long (-tickCount k unit * unit) = -tickCount k unit * unit :=
    cfg.long_of_fits ⟨by omega, by omega⟩
  unfold tickPhase
  dsimp only
  rw [← tickCount, hlong, hlong', val_lAddhi_of_fits ⟨by omega, by omega⟩, hval,
    hneg]
  refine ⟨?_, hcount⟩
  have hmod := Int.emod_add_mul_ediv (val k.timePhase + val k.timeAdj) (unit * 2 ^ 32)
  have hcomm : unit * 2 ^ 32 * tickCount k unit = tickCount k unit * unit * 2 ^ 32 := by
    ring
  rw [← hcount, hcomm] at hmod
  omega

theorem phaseRange_tickPhase (cfg : Config) (hunit : 1 ≤ unit ∧ unit ≤ 100000000)
    (hphase : PhaseRange unit (val k.timePhase)) (hadj : AdjRange (val k.timeAdj)) :
    PhaseRange unit (val (tickPhase cfg k unit).1) := by
  rw [(tickPhase_eq cfg hunit hphase hadj).1]
  exact Accumulator.reduced_count (by omega) ⟨0, val k.timePhase⟩ (val k.timeAdj)

/-- What the clock gains in one call without residual. -/
theorem long_tickPhase_snd (cfg : Config) (hunit : 1 ≤ unit ∧ unit ≤ 100000000)
    (hphase : PhaseRange unit (val k.timePhase)) (hadj : AdjRange (val k.timeAdj)) :
    cfg.long (0 + (tickPhase cfg k unit).2)
      = (val k.timePhase + val k.timeAdj) / (unit * 2 ^ 32) := by
  have hsum := tickSum_bounds hunit.2 hphase hadj
  obtain ⟨hnn, hmul⟩ := tickCount_bounds hunit hphase hadj
  have hle : tickCount k unit ≤ tickCount k unit * unit :=
    le_mul_of_one_le_right hnn hunit.1
  rw [(tickPhase_eq cfg hunit hphase hadj).2, ← tickCount_eq hunit hphase hadj,
    zero_add, cfg.long_of_fits ⟨by omega, by omega⟩]

theorem ntpTickAdjust_tvNsec (cfg : Config) (hhz : 1 ≤ cfg.hz ∧ cfg.hz ≤ 100000)
    (hphase : PhaseRange cfg.hz (val k.timePhase)) (hadj : AdjRange (val k.timeAdj))
    (tv : Timespec) :
    (ntpTickAdjust cfg k tv 0).2.tvNsec
      = cfg.long (tv.tvNsec + (val k.timePhase + val k.timeAdj) / (cfg.hz * 2 ^ 32)) := by
  unfold ntpTickAdjust
  dsimp only
  rw [long_tickPhase_snd cfg ⟨hhz.1, by omega⟩ hphase hadj]

end Tick

/-! ## Runs of calls -/

namespace Clock

/-- The clock field and the phase as an accumulator. -/
def accumulator (c : Clock F) : Accumulator := ⟨c.tv.tvNsec, val c.k.timePhase⟩

/-- The clock field is still in its `long` after the next tick. -/
def TickFits (cfg : Config) (c : Clock F) : Prop :=
  cfg.Fits (c.tv.tvNsec + (val c.k.timePhase + val c.k.timeAdj) / (cfg.hz * 2 ^ 32))

instance (cfg : Config) (c : Clock F) : Decidable (TickFits cfg c) :=
  inferInstanceAs (Decidable (Config.Fits _ _))

/-- A tick, if it is one, leaves the clock field in its `long`. -/
def KeepsLong (cfg : Config) (c : Clock F) : Event → Prop
  | .tick => TickFits cfg c
  | _ => True

instance (cfg : Config) (c : Clock F) : (e : Event) → Decidable (KeepsLong cfg c e)
  | .tick => inferInstanceAs (Decidable (TickFits cfg c))
  | .adjtime _ | .hardupdate _ | .hardpps _ _ => inferInstanceAs (Decidable True)

def withAdj (c : Clock F) (adj : F) : Clock F := ⟨{ c.k with timeAdj := adj }, c.tv⟩

/-- `ntp_tick_adjust` with the value `time_adj` has at this tick. -/
def adjustTick (cfg : Config) (c : Clock F) (adj : F) : Clock F :=
  (c.withAdj adj).adjust cfg

variable {cfg : Config} {c : Clock F} {adj : F}

theorem adjust_accumulator (hhz : 1 ≤ cfg.hz ∧ cfg.hz ≤ 100000)
    (hphase : PhaseRange cfg.hz (val c.k.timePhase)) (hadj : AdjRange (val c.k.timeAdj))
    (hfits : TickFits cfg c) :
    (c.adjust cfg).accumulator
      = c.accumulator.count (cfg.hz * 2 ^ 32) (val c.k.timeAdj) := by
  have hnsec := ntpTickAdjust_tvNsec cfg hhz hphase hadj c.tv
  rw [cfg.long_eq_iff.mpr hfits] at hnsec
  have hrest := (tickPhase_eq cfg ⟨hhz.1, by omega⟩ hphase hadj).1
  unfold accumulator Accumulator.count
  rw [Accumulator.mk.injEq]
  exact ⟨hnsec, hrest⟩

/-- A normalised clock has room for a tick that is not the only one of its second. -/
theorem tickFits_of_normalised (hhz : 2 ≤ cfg.hz ∧ cfg.hz ≤ 100000)
    (hphase : PhaseRange cfg.hz (val c.k.timePhase)) (hadj : AdjRange (val c.k.timeAdj))
    (htv : c.tv.Normalised) : TickFits cfg c := by
  obtain ⟨hnsec, hnsec'⟩ := htv
  have hcount := (tickQuotient_bounds ⟨by omega, by omega⟩ hphase hadj).1
  have hcount' := tickQuotient_lt_of_two hhz.1 hphase hadj
  unfold nanosecond at hnsec'
  exact cfg.fits_of_fits ⟨by omega, by omega⟩

/-- The phase is nonnegative and its integral part short of `hz`. -/
theorem phaseRange_of_lGint (h : 0 ≤ val c.k.timePhase)
    (h' : lGint c.k.timePhase < cfg.hz) : PhaseRange cfg.hz (val c.k.timePhase) := by
  rw [lGint_nonneg _ h] at h'
  exact ⟨h, by omega⟩

theorem lGint_of_phaseRange (h : PhaseRange cfg.hz (val c.k.timePhase)) :
    0 ≤ lGint c.k.timePhase ∧ lGint c.k.timePhase < cfg.hz := by
  have hlt := h.2
  rw [lGint_nonneg _ h.1]
  exact ⟨Int.ediv_nonneg h.1 (by decide), by omega⟩

theorem adjustTick_phaseRange (hhz : 1 ≤ cfg.hz ∧ cfg.hz ≤ 100000)
    (hphase : PhaseRange cfg.hz (val c.k.timePhase)) (hadj : AdjRange (val adj)) :
    PhaseRange cfg.hz (val (adjustTick cfg c adj).k.timePhase) :=
  phaseRange_tickPhase (k := (c.withAdj adj).k) cfg ⟨hhz.1, by omega⟩ hphase hadj

/-! ### The room of a run -/

/-- A `long` holds the clock field at the start of a run and the exact one at its end. -/
def RoomFor (cfg : Config) (c : Clock F) (adjs : List F) : Prop :=
  cfg.Fits c.tv.tvNsec ∧
    cfg.Fits (c.tv.tvNsec
      + (val c.k.timePhase + (adjs.map val).sum) / (cfg.hz * 2 ^ 32))

instance (cfg : Config) (c : Clock F) (adjs : List F) : Decidable (RoomFor cfg c adjs) :=
  inferInstanceAs (Decidable (_ ∧ _))

theorem sum_val_nonneg {adjs : List F} (hadjs : ∀ adj ∈ adjs, AdjRange (val adj)) :
    0 ≤ (adjs.map val).sum := by
  apply List.sum_nonneg
  intro x hx
  obtain ⟨adj, hmem, rfl⟩ := List.mem_map.mp hx
  have hlow := (hadjs adj hmem).1
  unfold nanosecond at hlow
  omega

/-- The field only grows, so it fits on the way. -/
theorem RoomFor.tickFits (hhz : 1 ≤ cfg.hz) {adjs : List F} (h : RoomFor cfg c (adj :: adjs))
    (hphase : PhaseRange cfg.hz (val c.k.timePhase))
    (hadjs : ∀ a ∈ adj :: adjs, AdjRange (val a)) : TickFits cfg (c.withAdj adj) := by
  obtain ⟨hstart, hend⟩ := h
  have hpos : 0 < cfg.hz * 2 ^ 32 := by omega
  have hadj : 0 ≤ ([adj].map val).sum := sum_val_nonneg fun a ha =>
    hadjs a (List.mem_cons.mpr (Or.inl (List.mem_singleton.mp ha)))
  have hrest := sum_val_nonneg fun a ha => hadjs a (List.mem_cons_of_mem adj ha)
  rw [List.map_cons, List.map_nil, List.sum_singleton] at hadj
  rw [List.map_cons, List.sum_cons] at hend
  have hnn : 0 ≤ (val c.k.timePhase + val adj) / (cfg.hz * 2 ^ 32) :=
    Int.ediv_nonneg (by have := hphase.1; omega) hpos.le
  have hle : (val c.k.timePhase + val adj) / (cfg.hz * 2 ^ 32)
      ≤ (val c.k.timePhase + (val adj + (adjs.map val).sum)) / (cfg.hz * 2 ^ 32) :=
    Int.ediv_le_ediv hpos (by omega)
  show cfg.Fits (c.tv.tvNsec + (val c.k.timePhase + val adj) / (cfg.hz * 2 ^ 32))
  exact Fits.between hstart hend (by omega) (by omega)

/-- What is left of the run has the room that is left. -/
theorem RoomFor.adjustTick (hhz : 1 ≤ cfg.hz ∧ cfg.hz ≤ 100000) {adjs : List F}
    (h : RoomFor cfg c (adj :: adjs)) (hphase : PhaseRange cfg.hz (val c.k.timePhase))
    (hadj : AdjRange (val adj)) (hfits : TickFits cfg (c.withAdj adj)) :
    RoomFor cfg (adjustTick cfg c adj) adjs := by
  have hpos : 0 < cfg.hz * 2 ^ 32 := by omega
  have hcount : (Clock.adjustTick cfg c adj).accumulator
      = c.accumulator.count (cfg.hz * 2 ^ 32) (val adj) :=
    adjust_accumulator (c := c.withAdj adj) hhz hphase hadj hfits
  unfold accumulator Accumulator.count at hcount
  rw [Accumulator.mk.injEq] at hcount
  obtain ⟨hnsec, hrest⟩ := hcount
  have hend := h.2
  unfold RoomFor
  rw [hnsec, hrest]
  refine ⟨hfits, ?_⟩
  -- the whole counts of this tick and of the rest are those of the sum
  have hsplit := Int.emod_add_mul_ediv (val c.k.timePhase + val adj) (cfg.hz * 2 ^ 32)
  rw [List.map_cons, List.sum_cons, ← add_assoc (val c.k.timePhase), ← hsplit,
    add_right_comm, Int.add_mul_ediv_left _ _ hpos.ne', add_comm (_ / _), ← add_assoc] at hend
  exact hend

/-- With room for its end a run has room for every tick. -/
theorem along_tickFits (hhz : 1 ≤ cfg.hz ∧ cfg.hz ≤ 100000)
    (hphase : PhaseRange cfg.hz (val c.k.timePhase)) {adjs : List F}
    (hadjs : ∀ adj ∈ adjs, AdjRange (val adj)) (hroom : RoomFor cfg c adjs) :
    Along (adjustTick cfg)
      (fun c adj => AdjRange (val adj) ∧ TickFits cfg (c.withAdj adj)) c adjs := by
  induction adjs generalizing c with
  | nil => trivial
  | cons adj adjs ih =>
    have hadj := hadjs adj List.mem_cons_self
    have hfits := hroom.tickFits hhz.1 hphase hadjs
    refine ⟨⟨hadj, hfits⟩, ih (adjustTick_phaseRange hhz hphase hadj) ?_ ?_⟩
    · exact fun a ha => hadjs a (List.mem_cons_of_mem adj ha)
    · exact hroom.adjustTick hhz hphase hadj hfits

/-- A run of calls counts the values of `time_adj`. -/
theorem run_adjustTick_accumulator (hhz : 1 ≤ cfg.hz ∧ cfg.hz ≤ 100000)
    (hphase : PhaseRange cfg.hz (val c.k.timePhase)) {adjs : List F}
    (hadjs : Along (adjustTick cfg)
      (fun c adj => AdjRange (val adj) ∧ TickFits cfg (c.withAdj adj)) c adjs) :
    (run (adjustTick cfg) c adjs).accumulator
      = (adjs.map val).foldl (Accumulator.count (cfg.hz * 2 ^ 32)) c.accumulator := by
  have hstep : ∀ (c : Clock F) (s : Accumulator) (adj : F),
      PhaseRange cfg.hz (val c.k.timePhase) ∧ c.accumulator = s →
      AdjRange (val adj) ∧ TickFits cfg (c.withAdj adj) →
      PhaseRange cfg.hz (val (adjustTick cfg c adj).k.timePhase) ∧
        (adjustTick cfg c adj).accumulator
          = s.count (cfg.hz * 2 ^ 32) (val adj) := by
    rintro c _ adj ⟨hphase, rfl⟩ ⟨hadj, hfits⟩
    exact ⟨adjustTick_phaseRange hhz hphase hadj,
      adjust_accumulator (c := c.withAdj adj) hhz hphase hadj hfits⟩
  rw [List.foldl_map]
  exact (run_simulation hstep ⟨hphase, rfl⟩ hadjs).2

/-- No fraction is lost over any run of ticks that ends within the `long` of the
clock: the clock and the phase hold every `time_adj` exactly, the phase stays
below one nanosecond per tick rate, and nothing on the way overflows. -/
theorem tick_interpolation (cfg : Config) (hhz : 1 ≤ cfg.hz ∧ cfg.hz ≤ 100000)
    (c : Clock F) (hphase : 0 ≤ val c.k.timePhase)
    (hphase' : lGint c.k.timePhase < cfg.hz)
    (adjs : List F) (hadjs : ∀ adj ∈ adjs, AdjRange (val adj))
    (hroom : RoomFor cfg c adjs) :
    cfg.hz * 2 ^ 32 * ((run (adjustTick cfg) c adjs).tv.tvNsec - c.tv.tvNsec)
        + val (run (adjustTick cfg) c adjs).k.timePhase
      = val c.k.timePhase + (adjs.map val).sum ∧
    (run (adjustTick cfg) c adjs).tv.tvSec = c.tv.tvSec ∧
    Along (adjustTick cfg) (fun c adj =>
      (0 ≤ lGint (adjustTick cfg c adj).k.timePhase ∧
        lGint (adjustTick cfg c adj).k.timePhase < cfg.hz) ∧
      TickExact cfg { c.k with timeAdj := adj } cfg.hz c.tv.tvNsec) c adjs := by
  have hrange : PhaseRange cfg.hz (val c.k.timePhase) :=
    phaseRange_of_lGint hphase hphase'
  have halong := along_tickFits hhz hrange hadjs hroom
  refine ⟨?_, ?_, ?_⟩
  · have hweight := Accumulator.weight_foldl_count (cfg.hz * 2 ^ 32) c.accumulator
      (adjs.map val)
    rw [← run_adjustTick_accumulator hhz hrange halong] at hweight
    unfold Accumulator.weight accumulator at hweight
    dsimp only at hweight
    rw [mul_sub]
    omega
  · -- the seconds are left to `second_overflow`
    have hsec : ∀ (s : Clock F) (adj : F), s.tv.tvSec = c.tv.tvSec →
        AdjRange (val adj) ∧ TickFits cfg (s.withAdj adj) →
        (adjustTick cfg s adj).tv.tvSec = c.tv.tvSec :=
      fun _ _ h _ => h
    exact run_invariant hsec rfl halong
  · have hstep : ∀ (s : Clock F) (adj : F), PhaseRange cfg.hz (val s.k.timePhase) →
        AdjRange (val adj) ∧ TickFits cfg (s.withAdj adj) →
        PhaseRange cfg.hz (val (adjustTick cfg s adj).k.timePhase) :=
      fun _ _ hphase hadj => adjustTick_phaseRange hhz hphase hadj.1
    refine along_of_invariant hstep ?_ hrange halong
    rintro s adj hphase ⟨hadj, hfits⟩
    exact ⟨lGint_of_phaseRange (adjustTick_phaseRange hhz hphase hadj),
      tickExact (k := (s.withAdj adj).k) cfg ⟨hhz.1, by omega⟩ hphase hadj hfits⟩

/-- A tick rate that divides neither `10^9` nor any of these. -/
def alphaConfig : Config := ⟨.lp64, false, 1024⟩

def unevenAdjs : List LFp64 :=
  [lLint nanosecond, lAddhi 12345#64 999500001, lAddhi 4294967295#64 1000499999]

def alphaClock : Clock LFp64 := ⟨Kernel.boot alphaConfig, ⟨0, 0⟩⟩

theorem unevenAdjs_adjRange : ∀ adj ∈ unevenAdjs, AdjRange (val adj) := by
  have hall : unevenAdjs.all (fun adj => decide (AdjRange (val adj))) = true := by
    decide +kernel
  exact fun adj hadj => of_decide_eq_true (List.all_eq_true.mp hall adj hadj)

theorem tick_interpolation_uneven :
    alphaConfig.hz * 2 ^ 32
          * ((run (adjustTick alphaConfig) alphaClock unevenAdjs).tv.tvNsec
            - alphaClock.tv.tvNsec)
        + val (run (adjustTick alphaConfig) alphaClock unevenAdjs).k.timePhase
      = val alphaClock.k.timePhase + (unevenAdjs.map val).sum ∧
    (run (adjustTick alphaConfig) alphaClock unevenAdjs).tv.tvSec = alphaClock.tv.tvSec ∧
    Along (adjustTick alphaConfig) (fun c adj =>
      (0 ≤ lGint (adjustTick alphaConfig c adj).k.timePhase ∧
        lGint (adjustTick alphaConfig c adj).k.timePhase < alphaConfig.hz) ∧
      TickExact alphaConfig { c.k with timeAdj := adj } alphaConfig.hz c.tv.tvNsec)
      alphaClock unevenAdjs :=
  tick_interpolation alphaConfig (by decide) alphaClock (by decide +kernel)
    (by decide +kernel) unevenAdjs unevenAdjs_adjRange (by decide +kernel)

/-- The last nanosecond that a `long` holds. -/
def fullClock : Clock LFp64 := ⟨Kernel.boot alphaConfig, ⟨0, 2 ^ 63 - 1⟩⟩

/-- The first tick from there turns the nanoseconds negative. -/
theorem not_tick_interpolation : ¬ ∀ (cfg : Config) (c : Clock LFp64) (adjs : List LFp64),
    1 ≤ cfg.hz ∧ cfg.hz ≤ 100000 → 0 ≤ val c.k.timePhase → lGint c.k.timePhase < cfg.hz →
    cfg.Fits c.tv.tvNsec → (∀ adj ∈ adjs, AdjRange (val adj)) →
    cfg.hz * 2 ^ 32 * ((run (adjustTick cfg) c adjs).tv.tvNsec - c.tv.tvNsec)
        + val (run (adjustTick cfg) c adjs).k.timePhase
      = val c.k.timePhase + (adjs.map val).sum ∧
    (run (adjustTick cfg) c adjs).tv.tvSec = c.tv.tvSec ∧
    Along (adjustTick cfg) (fun c adj =>
      (0 ≤ lGint (adjustTick cfg c adj).k.timePhase ∧
        lGint (adjustTick cfg c adj).k.timePhase < cfg.hz) ∧
      TickExact cfg { c.k with timeAdj := adj } cfg.hz c.tv.tvNsec) c adjs := by
  intro h
  have hrun := h alphaConfig fullClock [lLint nanosecond] (by decide) (by decide +kernel)
    (by decide +kernel) (by decide) ?_
  · exact absurd hrun.1 (by decide +kernel)
  · intro adj hadj
    rw [List.mem_singleton.mp hadj]
    decide +kernel

end Clock

end Nanokernel
