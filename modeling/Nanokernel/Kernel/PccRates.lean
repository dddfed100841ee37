import Mathlib.Tactic.Linarith
import Nanokernel.Kernel.PccClock

/-!
# The rates of the processors

`microset_from_saved` fits the cycle counter of a processor to the kernel clock,
and `nano_time` scales the counts since then. Whatever the clock and the
counters do, a processor that was set has a rate, the scaled count is within 64
bits, and the time read is within the current tick (`interpolation_safe`).
-/

namespace Nanokernel

open Run SignedWord

/-- What happens to the arrays: `ntp_init()` for a tick rate, the kernel clock at
another time, an interrupt that stores `master_pcc`, and on a processor
`microset_from_saved()` and `nano_time()`. -/
inductive ArrayOp (ι : Type) where
  | ntpInit (hz : ℤ)
  | time (tv : Timespec)
  | masterPcc (nsec : ℤ)
  | microsetFromSaved (i : ι) (savedPcc : ℤ) (pt : Timespec)
  | nanoTime (i : ι) (rpcc : ℤ)

/-- The counts since the last `microset()`, with at most one wrap. -/
def elapsedPcc (p : Pcc) (pcc : ℤ) : ℤ :=
  if pcc - p.pccPcc < 0 then pcc - p.pccPcc + 2 ^ pccWidth else pcc - p.pccPcc

namespace PccClock

variable {ι F : Type} [LFp F]

/-- Before `ntp_init()`: the static zeros. -/
def static (tv : Timespec) : PccClock ι F :=
  { clock := ⟨Kernel.static, tv⟩
    pcc := fun _ => ⟨⟨0, 0⟩, 0, 0, 0, 0, 0⟩
    masterPcc := 0
    lasttime := ⟨0, 0⟩ }

def setTime (s : PccClock ι F) (tv : Timespec) : PccClock ι F :=
  { s with clock := { s.clock with tv := tv } }

/-- `ntp_init()`, with the loop that clears the flags. -/
def init (cfg : Config) (s : PccClock ι F) : PccClock ι F :=
  { s with
    clock := { s.clock with k := ntpInit cfg s.clock.k }
    pcc := fun i => { s.pcc i with microsetFlag := 0 } }

def arrayStep [DecidableEq ι] (cfg : Config) (s : PccClock ι F) : ArrayOp ι → PccClock ι F
  | .ntpInit hz => s.init { cfg with hz := hz }
  | .time tv => s.setTime tv
  | .masterPcc nsec => { s with masterPcc := nsec }
  | .microsetFromSaved i savedPcc pt =>
    let p := microsetFromSaved cfg (s.pcc i) s.masterPcc savedPcc pt
    { s with pcc := Function.update s.pcc i p }
  | .nanoTime i rpcc => (s.nanoTime cfg i rpcc).1

/-- The tick rate is positive, and two times of a processor are less than 2.1 s apart.
A `long` of 32 bits needs no such limit. -/
def Steady (cfg : Config) (s : PccClock ι F) : ArrayOp ι → Prop
  | .ntpInit hz => 1 ≤ hz
  | .microsetFromSaved i _ pt =>
    (s.pcc i).microsetFlag ≠ 0 → cfg.longWidth = .lp64 →
      |pt.nsec - (s.pcc i).pccTime.nsec| < 2100000000
  | _ => True

instance (cfg : Config) (s : PccClock ι F) : (op : ArrayOp ι) → Decidable (Steady cfg s op)
  | .ntpInit _ => inferInstanceAs (Decidable (_ ≤ _))
  | .microsetFromSaved _ _ _ => inferInstanceAs (Decidable (_ → _ → _))
  | .time _ | .masterPcc _ | .nanoTime _ _ => inferInstanceAs (Decidable True)

end PccClock

/-! ## One processor -/

theorem maskPcc_bounds (pcc : ℤ) : 0 ≤ maskPcc pcc ∧ maskPcc pcc < 2 ^ pccWidth :=
  ⟨Int.emod_nonneg pcc (by decide), Int.emod_lt_of_pos pcc (by decide)⟩

/-- The counter is in its range, and a processor that was set has a rate. -/
structure Rated (p : Pcc) : Prop where
  pcc : 0 ≤ p.pccPcc ∧ p.pccPcc < 2 ^ pccWidth
  numer : p.microsetFlag ≠ 0 → 0 < p.pccNumer ∧ p.pccNumer < 2 ^ 31
  denom : p.microsetFlag ≠ 0 → 0 < p.pccDenom

variable {p : Pcc}

theorem Rated.elapsed (h : Rated p) (pcc : ℤ) :
    0 ≤ elapsedPcc p (maskPcc pcc) ∧ elapsedPcc p (maskPcc pcc) < 2 ^ pccWidth := by
  obtain ⟨hlo, hhi⟩ := h.pcc
  obtain ⟨hmlo, hmhi⟩ := maskPcc_bounds pcc
  unfold elapsedPcc
  split_ifs with hwrap
  · constructor
    · linarith
    · linarith
  · constructor
    · linarith
    · linarith

/-- The product in `nano_time()` is exact. -/
theorem Rated.fits_product (h : Rated p) (hset : p.microsetFlag ≠ 0) (pcc : ℤ) :
    Fits 64 (elapsedPcc p (maskPcc pcc) * p.pccNumer) := by
  obtain ⟨hlo, hhi⟩ := h.elapsed pcc
  obtain ⟨hpos, hnumer⟩ := h.numer hset
  have hnonneg : 0 ≤ elapsedPcc p (maskPcc pcc) * p.pccNumer := mul_nonneg hlo hpos.le
  have hlt : elapsedPcc p (maskPcc pcc) * p.pccNumer < 2 ^ 63 := by
    calc elapsedPcc p (maskPcc pcc) * p.pccNumer
        ≤ 2 ^ pccWidth * p.pccNumer := mul_le_mul_of_nonneg_right hhi.le hpos.le
      _ < 2 ^ pccWidth * 2 ^ 31 := mul_lt_mul_of_pos_left hnumer (by decide)
      _ = 2 ^ 63 := by decide
  exact ⟨le_trans (by decide) hnonneg, hlt⟩

/-- The numerator that `microset_from_saved()` computes. -/
theorem numer_lt (cfg : Config) {pt u : Timespec}
    (h : cfg.longWidth = .lp64 → |pt.nsec - u.nsec| < 2100000000) :
    cfg.long ((pt.tvSec - u.tvSec) * nanosecond + pt.tvNsec - u.tvNsec) < 2 ^ 31 := by
  have hdiff : (pt.tvSec - u.tvSec) * nanosecond + pt.tvNsec - u.tvNsec = pt.nsec - u.nsec := by
    unfold Timespec.nsec
    ring
  rw [hdiff]
  cases hwidth : cfg.longWidth with
  | ilp32 =>
    unfold Config.long LongWidth.long
    rw [hwidth]
    exact (fits_bmod 32 _).2
  | lp64 =>
    obtain ⟨hlo, hhi⟩ := abs_lt.mp (h hwidth)
    rw [cfg.long_of_fits ⟨le_trans (by decide) hlo.le, lt_trans hhi (by decide)⟩]
    exact lt_trans hhi (by decide)

theorem Rated.microsetFromSaved (h : Rated p) (cfg : Config) (masterPcc savedPcc : ℤ)
    {pt : Timespec}
    (hnear : p.microsetFlag ≠ 0 → cfg.longWidth = .lp64 →
      |pt.nsec - p.pccTime.nsec| < 2100000000) :
    Rated (Nanokernel.microsetFromSaved cfg p masterPcc savedPcc pt) := by
  have hmask := maskPcc_bounds savedPcc
  unfold Nanokernel.microsetFromSaved
  by_cases hset : p.microsetFlag = 0
  · rw [if_pos hset]
    exact ⟨hmask, fun _ => (by decide : 0 < nanosecond ∧ nanosecond < 2 ^ 31),
      fun _ => (by decide : 0 < cpuClock)⟩
  · rw [if_neg hset]
    have hlt := numer_lt cfg (hnear hset)
    dsimp only
    split_ifs with hwrap hskip hskip
    · exact ⟨hmask, h.numer, h.denom⟩
    · obtain ⟨hdenom, hnumer⟩ := not_or.mp hskip
      exact ⟨hmask, fun _ => ⟨not_le.mp hnumer, hlt⟩, fun _ => not_le.mp hdenom⟩
    · exact ⟨hmask, h.numer, h.denom⟩
    · obtain ⟨hdenom, hnumer⟩ := not_or.mp hskip
      exact ⟨hmask, fun _ => ⟨not_le.mp hnumer, hlt⟩, fun _ => not_le.mp hdenom⟩

/-! ## Runs -/

namespace PccClock

/-- Every processor is rated, and a tick is at most a second. -/
structure Paced {ι F : Type} (s : PccClock ι F) : Prop where
  rated : ∀ i, Rated (s.pcc i)
  timeTick : 0 ≤ s.clock.k.timeTick ∧ s.clock.k.timeTick ≤ nanosecond

variable {ι F : Type} [LFp F] {cfg : Config} {s : PccClock ι F}

theorem paced_static (tv : Timespec) : Paced (static tv : PccClock ι F) := by
  refine ⟨fun i => ⟨?_, ?_, ?_⟩, ?_⟩
  · exact (by decide : (0 : ℤ) ≤ 0 ∧ (0 : ℤ) < 2 ^ pccWidth)
  · exact fun hset => absurd rfl hset
  · exact fun hset => absurd rfl hset
  · exact (by decide : (0 : ℤ) ≤ 0 ∧ (0 : ℤ) ≤ nanosecond)

theorem ntpInit_timeTick (cfg : Config) (k : Kernel F) :
    (Nanokernel.ntpInit cfg k).timeTick = nanosecond.tdiv cfg.hz := by
  unfold Nanokernel.ntpInit
  split_ifs <;> rfl

theorem Paced.arrayStep [DecidableEq ι] (h : Paced s) {op : ArrayOp ι}
    (hop : Steady cfg s op) : Paced (arrayStep cfg s op) := by
  cases op with
  | ntpInit hz =>
    refine ⟨fun i => ⟨(h.rated i).pcc, ?_, ?_⟩, ?_⟩
    · exact fun hset => absurd rfl hset
    · exact fun hset => absurd rfl hset
    · show 0 ≤ (Nanokernel.ntpInit { cfg with hz := hz } s.clock.k).timeTick ∧
        (Nanokernel.ntpInit { cfg with hz := hz } s.clock.k).timeTick ≤ nanosecond
      rw [ntpInit_timeTick, Int.tdiv_eq_ediv_of_nonneg (by decide)]
      exact ⟨Int.ediv_nonneg (by decide) (le_trans zero_le_one hop),
        Int.ediv_le_self _ (by decide)⟩
  | time tv => exact ⟨h.rated, h.timeTick⟩
  | masterPcc nsec => exact ⟨h.rated, h.timeTick⟩
  | microsetFromSaved i savedPcc pt =>
    refine ⟨fun j => ?_, h.timeTick⟩
    show Rated (Function.update s.pcc i _ j)
    -- the entries of the other processors are not touched
    rcases eq_or_ne j i with rfl | hne
    · rw [Function.update_self]
      exact (h.rated j).microsetFromSaved cfg _ savedPcc hop
    · rw [Function.update_of_ne hne]
      exact h.rated j
  | nanoTime i rpcc => exact ⟨h.rated, h.timeTick⟩

/-- In every state that a run of `ntp_init()`, `microset_from_saved()` and `nano_time()`
reaches, on every processor and for every counter value: after a `microset()` the rate is
positive and the scaled count fits in 64 bits, and a normalised kernel clock is
interpolated to a normalised time, at most a tick later. -/
theorem interpolation_safe [DecidableEq ι] (cfg : Config) (tv : Timespec)
    (ops : List (ArrayOp ι))
    (hops : Along (arrayStep cfg) (Steady cfg) (static tv : PccClock ι F) ops)
    (i : ι) (rpcc : ℤ) (s : PccClock ι F) (hs : run (arrayStep cfg) (static tv) ops = s) :
    ((s.pcc i).microsetFlag ≠ 0 →
        0 < (s.pcc i).pccNumer ∧ 0 < (s.pcc i).pccDenom ∧
          Fits 64 (elapsedPcc (s.pcc i) (maskPcc rpcc) * (s.pcc i).pccNumer)) ∧
      (s.clock.tv.Normalised →
        (s.interpolated cfg i rpcc).1.Normalised ∧
          s.clock.tv.nsec ≤ (s.interpolated cfg i rpcc).1.nsec ∧
          (s.interpolated cfg i rpcc).1.nsec ≤ s.clock.tv.nsec + s.clock.k.timeTick) := by
  have hpaced : Paced (run (arrayStep cfg) (static tv : PccClock ι F) ops) :=
    run_invariant (fun _ _ h hop => h.arrayStep hop) (paced_static tv) hops
  rw [hs] at hpaced
  have hrated := hpaced.rated i
  constructor
  · intro hset
    exact ⟨(hrated.numer hset).1, hrated.denom hset, hrated.fits_product hset rpcc⟩
  · intro hnorm
    exact interpolate_bounds cfg _ _ hpaced.timeTick hnorm

/-- A 64-bit machine that ticks twice a second. -/
def twoHertz64 : Config := ⟨.lp64, false, 2⟩

/-- One processor that is set three times, half a second apart, as its counter wraps. -/
def wrappingOps : List (ArrayOp Unit) :=
  [.ntpInit 2, .microsetFromSaved () 4200000000 ⟨5, 0⟩,
    .microsetFromSaved () 121532704 ⟨5, 500000000⟩,
    .microsetFromSaved () 138032704 ⟨6, 0⟩, .time ⟨6, 0⟩]

def wrapped : PccClock Unit LFp64 := run (arrayStep twoHertz64) (static ⟨0, 0⟩) wrappingOps

theorem interpolation_safe_wrap :
    let s : PccClock Unit LFp64 := wrapped
    (0 < (s.pcc ()).pccNumer ∧ 0 < (s.pcc ()).pccDenom ∧
        Fits 64 (elapsedPcc (s.pcc ()) (maskPcc 300000000) * (s.pcc ()).pccNumer)) ∧
      (s.interpolated twoHertz64 () 300000000).1.Normalised ∧
        s.clock.tv.nsec ≤ (s.interpolated twoHertz64 () 300000000).1.nsec ∧
        (s.interpolated twoHertz64 () 300000000).1.nsec
          ≤ s.clock.tv.nsec + s.clock.k.timeTick := by
  obtain ⟨hrate, htime⟩ := interpolation_safe twoHertz64 ⟨0, 0⟩ wrappingOps (by decide +kernel) ()
    300000000 (wrapped : PccClock Unit LFp64) rfl
  exact ⟨hrate (by decide +kernel), htime (by decide +kernel)⟩

end PccClock

end Nanokernel
