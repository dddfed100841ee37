import Mathlib.RingTheory.Coprime.Lemmas
import Mathlib.Tactic.IntervalCases
import Mathlib.Tactic.Linarith
import Mathlib.Tactic.Zify
import Nanokernel.Foundation.Sequence
import Nanokernel.Rtems.StatusUpdates

/-!
# The poll interval

The interval at which the daemon polls is `2^(time_constant + 4)` seconds.
`secs2tcld` chooses the constant for a number of seconds and two routines of
`rtemsdep.c` set it and read it back. Both take what `ntp_adjtime` returns for
an error code, which it is not: it is the state of the clock.
-/

namespace Nanokernel

open Run Nearest

/-! ## `secs2tcld()` -/

/-- From 32 rounds on, the loop has ended on its own condition, with `probe` in the
range of an `unsigned`. -/
def ProbeEnds (secs : ℤ) : Prop :=
  ∀ fuel ≥ 32, probeLoop secs fuel 0 1 = probeLoop secs 32 0 1 ∧
    secs ≤ (probeLoop secs fuel 0 1).2 ∧ (probeLoop secs fuel 0 1).2 < 2 ^ 32

/-- The loop counts up to the least power that is not below `secs`. -/
theorem probeLoop_spec {secs : ℤ} (fuel i : ℕ) (hfuel : secs ≤ 2 ^ (i + fuel))
    (hlast : i = 0 ∨ 2 ^ i < 2 * secs) :
    ∃ r : ℕ, probeLoop secs fuel i (2 ^ i) = ((r : ℤ), 2 ^ r) ∧ secs ≤ 2 ^ r ∧
      (r = 0 ∨ 2 ^ r < 2 * secs) := by
  induction fuel generalizing i with
  | zero => exact ⟨i, rfl, hfuel, hlast⟩
  | succ fuel ih =>
    rw [probeLoop]
    by_cases hprobe : (2 : ℤ) ^ i < secs
    · rw [if_pos hprobe, ← pow_succ]
      have hnext : (2 : ℤ) ^ (i + 1) < 2 * secs := by
        rw [pow_succ]
        omega
      have hrounds : secs ≤ 2 ^ (i + 1 + fuel) := by
        rwa [add_assoc, add_comm 1]
      obtain ⟨r, hr, hspec⟩ := ih (i + 1) hrounds (Or.inr hnext)
      push_cast at hr
      exact ⟨r, hr, hspec⟩
    · rw [if_neg hprobe]
      exact ⟨i, rfl, not_lt.mp hprobe, hlast⟩

/-- There is one such power. -/
theorem probe_unique {secs : ℤ} {r r' : ℕ} (h : secs ≤ 2 ^ r ∧ (r = 0 ∨ 2 ^ r < 2 * secs))
    (h' : secs ≤ 2 ^ r' ∧ (r' = 0 ∨ 2 ^ r' < 2 * secs)) : r = r' := by
  have hpow : ∀ {m n : ℕ}, secs ≤ 2 ^ m → (n = 0 ∨ (2 : ℤ) ^ n < 2 * secs) → n ≤ m := by
    rintro m n hm (rfl | hn)
    · exact Nat.zero_le m
    · have hlt : (2 : ℤ) ^ n < 2 ^ (m + 1) := by
        rw [pow_succ]
        omega
      exact Nat.lt_succ_iff.mp ((pow_lt_pow_iff_right₀ (by decide)).mp hlt)
  exact le_antisymm (hpow h'.1 h.2) (hpow h.1 h'.2)

/-- The result is the power in the middle of which `secs / 16` lies. -/
theorem secs2tcld_spec {secs : ℤ} (h : 16 ≤ secs) (hint : secs < 2 ^ 31) :
    ∃ k : ℕ, secs2tcld secs = k ∧ 2 * (secs / 16) ≤ 3 * 2 ^ k ∧
      (k = 0 ∨ 3 * 2 ^ k < 4 * (secs / 16)) := by
  have hrange : secs / 16 ≤ 2 ^ (0 + 32) := by
    rw [Nat.zero_add]
    omega
  obtain ⟨r, hloop, hle, hlast⟩ := probeLoop_spec 32 0 hrange (Or.inl rfl)
  rw [Nat.cast_zero, pow_zero] at hloop
  unfold secs2tcld
  simp only [hloop]
  cases r with
  | zero =>
    refine ⟨0, if_pos rfl, ?_, Or.inl rfl⟩
    rw [pow_zero] at hle ⊢
    omega
  | succ r =>
    have hpow : (2 : ℤ) ^ (r + 1) = 2 * 2 ^ r := pow_succ' 2 r
    have hlow : (2 : ℤ) ^ (r + 1) < 2 * (secs / 16) := by
      rcases hlast with hzero | hlt
      · exact absurd hzero (Nat.succ_ne_zero r)
      · exact hlt
    rw [if_neg (Int.natCast_ne_zero.mpr (Nat.succ_ne_zero r)), hpow,
      Int.mul_ediv_cancel_left _ (by decide : (2 : ℤ) ≠ 0)]
    rw [hpow] at hle hlow
    split_ifs with hupper
    · refine ⟨r + 1, rfl, ?_, Or.inr ?_⟩ <;> rw [hpow] <;> omega
    · refine ⟨r, by push_cast; omega, by omega, Or.inr (by omega)⟩

/-! ### The nearest power -/

/-- The poll intervals. -/
def pollSecs (k : ℕ) : ℤ := 16 * 2 ^ k

theorem pollSecs_succ (k : ℕ) : pollSecs (k + 1) = 2 * pollSecs k := by
  unfold pollSecs
  rw [pow_succ]
  ring

theorem pollSecs_lt_succ (k : ℕ) : pollSecs k < pollSecs (k + 1) := by
  have hpos : 0 < pollSecs k := by
    unfold pollSecs
    positivity
  rw [pollSecs_succ]
  omega

/-- No midpoint `24 * 2^j` between two intervals lies below `secs` in the same 16
seconds. -/
def ClearOfMidpoints (secs : ℤ) : Prop := ∀ j : ℕ, 24 * 2 ^ j < secs → 24 * 2 ^ j / 16 < secs / 16

section Chosen

variable {secs : ℤ} {k : ℕ}

/-- Of the two midpoints only the upper one can fail. -/
theorem nearest_iff_le (hlow : k = 0 ∨ 3 * 2 ^ k < 4 * (secs / 16)) :
    IsNearest pollSecs secs k ↔ secs ≤ 24 * 2 ^ k := by
  have hzero : pollSecs 0 = 16 := rfl
  cases k with
  | zero =>
    rw [nearest_zero_iff pollSecs_lt_succ, pollSecs_succ, hzero, pow_zero]
    omega
  | succ k =>
    have hlt := hlow.resolve_left (Nat.succ_ne_zero k)
    have hsecs : pollSecs k = 16 * 2 ^ k := rfl
    rw [nearest_succ_iff pollSecs_lt_succ, pollSecs_succ (k + 1), pollSecs_succ k, hsecs]
    rw [pow_succ] at hlt ⊢
    omega

theorem clearOfMidpoints_iff_le (hhigh : 2 * (secs / 16) ≤ 3 * 2 ^ k)
    (hlow : k = 0 ∨ 3 * 2 ^ k < 4 * (secs / 16)) :
    ClearOfMidpoints secs ↔ secs ≤ 24 * 2 ^ k := by
  constructor
  · intro hclear
    by_contra hgt
    have hblock := hclear k (not_le.mp hgt)
    omega
  · intro hle j hj
    -- a midpoint below `secs` is at most the lower one
    have hlt : (2 : ℤ) ^ j < 2 ^ k := by omega
    have hjk : j + 1 ≤ k := (pow_lt_pow_iff_right₀ (by decide)).mp hlt
    have hpow : (2 : ℤ) ^ (j + 1) ≤ 2 ^ k := pow_le_pow_right₀ (by decide) hjk
    have hthree := hlow.resolve_left (by omega)
    rw [pow_succ] at hpow
    omega

end Chosen

theorem nearest_secs2tcld_iff {secs : ℤ} (h : 16 ≤ secs) (hint : secs < 2 ^ 31) :
    IsNearest pollSecs secs (secs2tcld secs).toNat ↔ ClearOfMidpoints secs := by
  obtain ⟨k, hk, hhigh, hlow⟩ := secs2tcld_spec h hint
  rw [hk, Int.toNat_natCast, nearest_iff_le hlow, clearOfMidpoints_iff_le hhigh hlow]

theorem probeEnds {secs : ℤ} (hint : secs < 2 ^ 27) : ProbeEnds secs := by
  intro fuel hfuel
  have hrange : ∀ rounds ≥ 32, secs ≤ 2 ^ (0 + rounds) := by
    intro rounds hrounds
    have hpow : (2 : ℤ) ^ 32 ≤ 2 ^ (0 + rounds) := pow_le_pow_right₀ (by decide) (by omega)
    omega
  obtain ⟨r, hr, hle, hlast⟩ := probeLoop_spec fuel 0 (hrange fuel hfuel) (Or.inl rfl)
  obtain ⟨r', hr', hspec⟩ := probeLoop_spec 32 0 (hrange 32 le_rfl) (Or.inl rfl)
  rw [Nat.cast_zero, pow_zero] at hr hr'
  rw [hr, hr', probe_unique ⟨hle, hlast⟩ hspec]
  refine ⟨rfl, hspec.1, ?_⟩
  rcases hspec.2 with rfl | hlt
  · decide
  · dsimp only
    omega

/-- For every number of seconds: the loop ends, and the result is nearest, exactly when
no midpoint lies a little below. -/
theorem secs2tcld_nearest_iff (secs : ℤ) (h : 16 ≤ secs) (hint : secs < 2 ^ 31) :
    (ProbeEnds (secs / 16) ∧ 0 ≤ secs2tcld secs ∧
      ∀ k : ℕ, |16 * 2 ^ (secs2tcld secs).toNat - secs| ≤ |16 * 2 ^ k - secs|) ↔
      ClearOfMidpoints secs := by
  obtain ⟨k, hk, -⟩ := secs2tcld_spec h hint
  have hnonneg : 0 ≤ secs2tcld secs := by
    rw [hk]
    exact Int.natCast_nonneg k
  rw [and_iff_right (probeEnds (by omega)), and_iff_right hnonneg]
  exact nearest_secs2tcld_iff h hint

/-- The default interval. -/
theorem secs2tcld_nearest_iff_default :
    (ProbeEnds (64 / 16) ∧ 0 ≤ secs2tcld 64 ∧
      ∀ k : ℕ, |16 * 2 ^ (secs2tcld 64).toNat - 64| ≤ |16 * 2 ^ k - (64 : ℤ)|) ↔
      ClearOfMidpoints 64 :=
  secs2tcld_nearest_iff 64 (by decide) (by decide)

/-- Half a minute is polled every 16 s, not every 32 s. -/
theorem not_secs2tcld_nearest : ¬ ∀ secs : ℤ, 16 ≤ secs → secs < 2 ^ 31 →
    ProbeEnds (secs / 16) ∧ 0 ≤ secs2tcld secs ∧
      ∀ k : ℕ, |16 * 2 ^ (secs2tcld secs).toNat - secs| ≤ |16 * 2 ^ k - secs| := by
  intro h
  have hnear := (h 31 (by decide) (by decide)).2.2 1
  exact absurd hnear (by decide)

/-! ## The routines -/

variable {F : Type} [LFp F]

/-- `rtemsNtpSetPollInterval()`, with no other task in between: the new clock and the
value returned. -/
def rtemsNtpSetPollInterval (cfg : Config) (c : Clock F) (pollSeconds : ℤ) : Clock F × ℤ :=
  let pollSeconds := if pollSeconds < 16 then 16 else pollSeconds
  let (c, ntv, code) := c.call cfg { modes := 0 }
  if code ≠ 0 then (c, -1)
  else
    let (c, _, code) := c.call cfg { ntv with
      status := ntv.status ||| staPll
      constant := secs2tcld pollSeconds
      modes := modTimeconst ||| modStatus }
    (c, code)

/-- `get_poll_interval()`, in ticks; `rate` is what `rtems_clock_get` returns for the
ticks per second. -/
def getPollInterval (cfg : Config) (c : Clock F) (rate : BitVec 32) : Clock F × BitVec 32 :=
  let (c, ntv, code) := c.call cfg { modes := 0 }
  if code ≠ 0 then (c, rate * 600#32)
  else (c, rate * BitVec.ofInt 32 ((1 : ℤ) <<< (ntv.constant + 4).toNat))

/-- A call without mode bits reads the clock. -/
theorem call_read (cfg : Config) (c : Clock F) : c.call cfg { modes := 0 } =
    (c, adjReport cfg c.k { modes := 0 }, returnCode c.k) := by
  unfold Clock.call ntpAdjtime
  simp only [adjKernel_of_modes_zero cfg { modes := 0 } c.k c.tv.tvSec rfl]

/-- The two halves of a task that sets the interval undisturbed are the routine. -/
theorem tasks_setPollInterval (cfg : Rtems) (s : Tasks F) (task : ℕ)
    (hidle : s.pollTask task = .idle) (pollSeconds : ℤ) :
    (run (Tasks.step cfg) s [.pollRead task pollSeconds, .pollWrite task]).clock =
      (rtemsNtpSetPollInterval cfg.toConfig s.clock pollSeconds).1 := by
  simp only [run_cons, run_nil, Tasks.step, hidle, call_read, rtemsNtpSetPollInterval,
    Function.update_self]
  by_cases hcode : returnCode s.clock.k = 0
  · simp only [hcode, if_true, ne_eq, not_true_eq_false, if_false]
  · simp only [hcode, if_false, ne_eq, not_false_eq_true, if_true]

theorem le_probeLoop (secs : ℤ) (fuel : ℕ) (rval probe : ℤ) :
    rval ≤ (probeLoop secs fuel rval probe).1 := by
  induction fuel generalizing rval probe with
  | zero => exact le_refl rval
  | succ fuel ih =>
    rw [probeLoop]
    split_ifs with hprobe
    · have hnext := ih (rval + 1) (probe * 2)
      omega
    · exact le_refl rval

theorem secs2tcld_nonneg (secs : ℤ) : 0 ≤ secs2tcld secs := by
  have hle := le_probeLoop (secs / 16) 32 0 1
  unfold secs2tcld
  dsimp only
  generalize probeLoop (secs / 16) 32 0 1 = loop at hle ⊢
  split_ifs <;> omega

/-- The constant is the chosen one if the clock is well, and the old one if not. -/
theorem setPollInterval_timeConstant (cfg : Config) (c : Clock F) (pollSeconds : ℤ) :
    (rtemsNtpSetPollInterval cfg c pollSeconds).1.k.timeConstant =
      if returnCode c.k = 0 then min (secs2tcld (max pollSeconds 16)) maxtc
      else c.k.timeConstant := by
  have hsecs : (if pollSeconds < 16 then 16 else pollSeconds) = max pollSeconds 16 := by
    split_ifs <;> omega
  unfold rtemsNtpSetPollInterval
  simp only [call_read, hsecs]
  by_cases hcode : returnCode c.k = 0
  · rw [if_neg (not_not.mpr hcode), if_pos hcode]
    have hnonneg := secs2tcld_nonneg (max pollSeconds 16)
    have hmode : has (modTimeconst ||| modStatus) modTimeconst = true := by decide
    unfold Clock.call ntpAdjtime
    dsimp only
    rw [adjKernel_timeConstant]
    dsimp only
    rw [if_pos hmode]
    split_ifs <;> omega
  · rw [if_pos hcode, if_neg hcode]

/-- The interval in ticks, as the routine computes it. -/
theorem getPollInterval_eq (cfg : Config) (c : Clock F) (rate : BitVec 32) :
    (getPollInterval cfg c rate).2 =
      if returnCode c.k = 0 then
        rate * BitVec.ofInt 32 ((1 : ℤ) <<< (c.k.timeConstant + 4).toNat)
      else rate * 600#32 := by
  have hconstant : (adjReport cfg c.k { modes := 0 }).constant = c.k.timeConstant := by
    unfold adjReport
    split_ifs <;> rfl
  unfold getPollInterval
  simp only [call_read, hconstant]
  by_cases hcode : returnCode c.k = 0
  · rw [if_neg (not_not.mpr hcode), if_pos hcode]
  · rw [if_pos hcode, if_neg hcode]

/-- Six hundred is not a power of two, and no number of ticks makes it one. -/
theorem mul_600_mod_ne {rate n : ℕ} (hpos : 0 < rate) :
    rate * 600 % 2 ^ 32 ≠ rate * 2 ^ (n + 4) := by
  intro heq
  have hlt : rate * 2 ^ (n + 4) < 2 ^ 32 := heq ▸ Nat.mod_lt _ (by decide)
  have hturns := Nat.div_add_mod (rate * 600) (2 ^ 32)
  rw [heq, pow_add] at hturns
  -- an odd factor is left of the difference
  have hodd : IsCoprime ((2 : ℤ) ^ 29) (75 - 2 * 2 ^ n) :=
    IsCoprime.pow_left ⟨2 ^ n - 37, 1, by ring⟩
  have hdvd : (2 : ℤ) ^ 29 ∣ rate * (75 - 2 * 2 ^ n) := by
    refine ⟨rate * 600 / 2 ^ 32, ?_⟩
    zify at hturns
    linarith
  have hrate : (2 : ℤ) ^ 29 ∣ rate := hodd.dvd_of_dvd_mul_right hdvd
  have hle := Int.le_of_dvd (by omega) hrate
  have hpow : 1 ≤ 2 ^ n := Nat.one_le_two_pow
  rw [pow_add] at hlt
  nlinarith

theorem toNat_ofInt_shift {e : ℕ} (he : e ≤ 14) :
    (BitVec.ofInt 32 ((1 : ℤ) <<< e)).toNat = 2 ^ e := by
  interval_cases e <;> decide

theorem getPollInterval_toNat_iff (cfg : Config) {c : Clock F}
    (hconstant : 0 ≤ c.k.timeConstant ∧ c.k.timeConstant ≤ maxtc) {rate : BitVec 32}
    (hrate : rate ≠ 0) :
    (getPollInterval cfg c rate).2.toNat = rate.toNat * 2 ^ (c.k.timeConstant + 4).toNat ↔
      returnCode c.k = 0 ∧ rate.toNat * 2 ^ (c.k.timeConstant + 4).toNat < 2 ^ 32 := by
  have hpos : 0 < rate.toNat := Nat.pos_of_ne_zero fun h => hrate (BitVec.eq_of_toNat_eq h)
  unfold maxtc at hconstant
  have he : 4 ≤ (c.k.timeConstant + 4).toNat := by omega
  have he' : (c.k.timeConstant + 4).toNat ≤ 14 := by omega
  rw [getPollInterval_eq]
  by_cases hcode : returnCode c.k = 0
  · rw [if_pos hcode, and_iff_right hcode, BitVec.toNat_mul, toNat_ofInt_shift he']
    exact ⟨fun h => h ▸ Nat.mod_lt _ (by decide), Nat.mod_eq_of_lt⟩
  · rw [if_neg hcode, BitVec.toNat_mul]
    obtain ⟨n, hn⟩ := Nat.exists_eq_add_of_le' he
    rw [hn]
    exact iff_of_false (mul_600_mod_ne hpos) fun h => hcode h.1

/-- In every reachable state and for every number of seconds: the constant follows the
request and the interval the constant exactly when the clock is well and the interval fits. -/
theorem pollInterval_iff [LawfulLFp F] (cfg : Config) (c : Clock F) (hreach : c.Reachable cfg)
    (pollSeconds : ℤ) (rate : BitVec 32) (hrate : rate ≠ 0) :
    ((rtemsNtpSetPollInterval cfg c pollSeconds).1.k.timeConstant =
          min (secs2tcld (max pollSeconds 16)) maxtc ∧
        (getPollInterval cfg c rate).2.toNat =
          rate.toNat * 2 ^ (c.k.timeConstant + 4).toNat) ↔
      returnCode c.k = 0 ∧ rate.toNat * 2 ^ (c.k.timeConstant + 4).toNat < 2 ^ 32 := by
  have hconstant := (Clock.disciplined_of_reachable hreach).1.constant
  rw [getPollInterval_toNat_iff cfg hconstant hrate, setPollInterval_timeConstant]
  constructor
  · rintro ⟨-, hwell⟩
    exact hwell
  · rintro ⟨hcode, hfits⟩
    exact ⟨if_pos hcode, hcode, hfits⟩

/-- The daemon has cleared `STA_UNSYNC`; a hundred ticks a second. -/
def polledClock : Clock LFp32 :=
  (⟨Kernel.boot oneHertz32, ⟨0, 0⟩⟩ : Clock LFp32).step oneHertz32 (.adjtime
    { modes := modStatus, status := staPll })

theorem pollInterval_iff_polledClock :
    ((rtemsNtpSetPollInterval oneHertz32 polledClock 64).1.k.timeConstant =
          min (secs2tcld (max 64 16)) maxtc ∧
        (getPollInterval oneHertz32 polledClock 100#32).2.toNat =
          (100#32).toNat * 2 ^ (polledClock.k.timeConstant + 4).toNat) ↔
      returnCode polledClock.k = 0 ∧
        (100#32).toNat * 2 ^ (polledClock.k.timeConstant + 4).toNat < 2 ^ 32 :=
  pollInterval_iff oneHertz32 polledClock
    ⟨⟨Kernel.boot oneHertz32, ⟨0, 0⟩⟩, [.adjtime { modes := modStatus, status := staPll }], rfl,
      ⟨trivial, trivial⟩, rfl⟩
    64 100#32 (by decide)

/-- With a leap second announced, the constant stays where it was and the daemon polls
every ten minutes. -/
theorem not_pollInterval : ¬ ∀ (cfg : Config) (c : Clock LFp32), c.Reachable cfg →
    ∀ (pollSeconds : ℤ) (rate : BitVec 32), rate ≠ 0 →
    (rtemsNtpSetPollInterval cfg c pollSeconds).1.k.timeConstant =
        min (secs2tcld (max pollSeconds 16)) maxtc ∧
      (getPollInterval cfg c rate).2.toNat =
        rate.toNat * 2 ^ (c.k.timeConstant + 4).toNat := by
  intro h
  let es : List Event := [.adjtime { modes := modStatus, status := staPll ||| staIns }, .tick]
  let c₀ : Clock LFp32 := ⟨Kernel.boot oneHertz32, ⟨0, 0⟩⟩
  have hboth := h oneHertz32 (run (Clock.step oneHertz32) c₀ es)
    ⟨c₀, es, rfl, ⟨trivial, trivial, trivial⟩, rfl⟩ 64 100#32 (by decide)
  exact absurd hboth (by decide +kernel)

end Nanokernel
