import Nanokernel.Foundation.Run
import Nanokernel.Kernel.ServoLoop

/-!
# The PLL locks

A poll of the server measures how far the clock is behind, up to some noise; the update stores
that as the offset to amortise and corrects the frequency by a share of it. As long as the loop
error leaves the code its room (`Servo.Room`) neither offset nor frequency comes near a limit,
and the kernel with its words, shifts and clamps is the servo, whose error every update makes
smaller.
-/

namespace Nanokernel

open Run

namespace Clock

variable {F : Type} [LFp F] [LawfulLFp F]

/-- What an outsider knows: the time, in units of `1 / (hz * 2^32)` ns, the ticks since the
last update and the updates so far. -/
structure Reference where
  now : ℤ
  since : ℤ
  polls : ℕ
deriving DecidableEq, Repr

/-- Every tick of the clock takes `period` of the reference. -/
def follow (period : ℤ) (t : Reference) (_ : Clock F) : Event → Reference
  | .tick => { t with now := t.now + period, since := t.since + 1 }
  | .hardupdate _ => { t with since := 0, polls := t.polls + 1 }
  | .adjtime _ | .hardpps _ _ => t

/-- How far the clock is behind the reference. -/
def lag (cfg : Config) (c : Clock F) (t : Reference) : ℤ :=
  t.now - c.reckoning.weight (cfg.hz * 2 ^ 32)

/-- The server is polled in time: the next update comes a poll of ticks after the last one, and
not more than an eighth of it later. Its offset is the lag, up to `noise` ns. The loop is a
PLL, and nobody else touches it; no leap second happens. -/
def Polled (cfg : Config) (tc noise : ℤ) (w : Clock F × Reference) : Event → Prop
  | .tick => ¬ LeapDue cfg w.1 ∧ Unpulsed cfg w.1.k ∧
      8 * (w.2.since + 1) ≤ 9 * (cfg.hz * Servo.poll tc)
  | .adjtime tp => Idle cfg w.1 (.adjtime tp)
  | .hardupdate offset => Steers w.1.k ∧ cfg.hz * Servo.poll tc ≤ w.2.since ∧
      |offset * (cfg.hz * 2 ^ 32) - lag cfg w.1 w.2| ≤ noise * (cfg.hz * 2 ^ 32)
  | .hardpps _ _ => False

instance (cfg : Config) (tc noise : ℤ) (w : Clock F × Reference) :
    (e : Event) → Decidable (Polled cfg tc noise w e)
  | .tick => inferInstanceAs (Decidable (_ ∧ (_ = _) ∧ _))
  | .adjtime tp => inferInstanceAs (Decidable (Idle cfg w.1 (.adjtime tp)))
  | .hardupdate _ => inferInstanceAs (Decidable (_ ∧ _))
  | .hardpps _ _ => inferInstanceAs (Decidable False)

theorem lag_eq (cfg : Config) (c : Clock F) (t : Reference) :
    lag cfg c t = (c.servo cfg).lag cfg.hz t.now := by
  unfold lag Servo.lag
  rw [weight_servo]

/-- What holds all the time. -/
structure Tracks (cfg : Config) (tc period : ℤ) (noise start : ℚ) (c : Clock F)
    (t : Reference) : Prop where
  sound : Sound cfg c
  constant : c.k.timeConstant = tc
  since : 0 ≤ t.since
  round : ∃ u : Servo.Update,
    u.Within cfg.hz tc period noise (Servo.boundAfter noise start t.polls) ∧
      Servo.Aligned cfg.hz period t.now t.since u (c.servo cfg) ∧
      Servo.Underway cfg.hz tc period u (c.servo cfg) (lag cfg c t) t.since

section Step

variable {cfg : Config} {tc period noise : ℤ} {start : ℚ} {c : Clock F} {t : Reference}

theorem Tracks.tick (hhz : 50 ≤ cfg.hz ∧ cfg.hz ≤ 100000) (htc : 0 ≤ tc ∧ tc ≤ 6)
    (hnoise : 1 ≤ noise) (hstart : 0 ≤ start)
    (hroom : Servo.Room tc period (Servo.boundAfter (noise * 2 ^ 32) start 0))
    (h : Tracks cfg tc period (noise * 2 ^ 32) start c t) (he : Polled cfg tc noise (c, t) .tick) :
    Tracks cfg tc period (noise * 2 ^ 32) start (c.step cfg .tick)
      (follow period t c .tick) := by
  obtain ⟨hsound, hconst, hsince, u, hin, haligned, hround⟩ := h
  obtain ⟨hno, hpps, hdue⟩ := he
  have hidle : Idle cfg c .tick := hno
  have hN : (1 : ℚ) ≤ noise := by exact_mod_cast hnoise
  obtain ⟨hbig, hsmall⟩ := Servo.boundAfter_bounds (noise * 2 ^ 32) hstart t.polls
  have hroom' := hroom.mono hsmall
  have hmild := hroom'.mild htc (by positivity) hbig hin
  obtain ⟨h0, hbefore⟩ := hround.position_range hmild
  have hservo : (c.step cfg .tick).servo cfg = (c.servo cfg).tick cfg.hz tc :=
    servo_tick (by omega) hsound (tickFits_of_position (by omega) hsound h0 hbefore) hconst
      hpps hno
  rw [lag_eq] at hround
  have hseconds := hround.due hhz.1 htc hmild hroom' (by positivity) hbig hin hsince haligned hdue
  obtain ⟨-, -, q, hq, -⟩ := Servo.poll_bounds htc
  have hnext := hround.tick hhz.1 hmild hseconds ⟨q, hq⟩
  refine ⟨step_sound (by omega) hsound trivial, hidle.kept.2.trans hconst,
    Int.add_nonneg hsince zero_le_one, u, hin, ?_, ?_⟩
  · rw [hservo]
    exact haligned.tick
  · rw [lag_eq, hservo]
    show Servo.Underway _ _ _ _ _ (((c.servo cfg).tick cfg.hz tc).lag _ (t.now + period)) _
    rw [Servo.lag_tick]
    exact hnext

theorem Tracks.adjtime (hhz : 50 ≤ cfg.hz ∧ cfg.hz ≤ 100000) {bound : ℚ}
    (h : Tracks cfg tc period bound start c t) {tp : Timex} (he : Idle cfg c (.adjtime tp)) :
    Tracks cfg tc period bound start (c.step cfg (.adjtime tp)) t := by
  obtain ⟨hsound, hconst, hsince, u, hin, haligned, hround⟩ := h
  refine ⟨step_sound (by omega) hsound trivial, he.kept.2.trans hconst, hsince, u, hin, ?_, ?_⟩
  · rw [servo_adjtime he]
    exact haligned
  · rw [lag_eq, servo_adjtime he, ← lag_eq]
    exact hround

/-- What the server answers, as the lag of the loop. -/
theorem Polled.measured (hhz : 50 ≤ cfg.hz) {offset : ℤ}
    (he : Polled cfg tc noise (c, t) (.hardupdate offset)) :
    |((offset * 2 ^ 32 : ℤ) : ℚ) - lag cfg c t / cfg.hz| ≤ noise * 2 ^ 32 := by
  obtain ⟨-, -, hfresh⟩ := he
  refine Servo.abs_sub_div_le (by omega) ?_
  rw [mul_assoc, mul_comm (2 ^ 32)]
  exact hfresh

/-- The code stores all of it. -/
theorem abs_offset_le {bound : ℚ} (hbound : 10 * (noise * 2 ^ 32) ≤ bound)
    (hphase : bound ≤ 80000000 * 2 ^ 32) {offset : ℤ} {distance : ℚ}
    (hmeasured : |((offset * 2 ^ 32 : ℤ) : ℚ) - distance| ≤ noise * 2 ^ 32)
    (hdistance : |distance| ≤ 6 * bound) : |offset| ≤ maxphase := by
  have hcast : |((offset * 2 ^ 32 : ℤ) : ℚ)| ≤ 500000000 * 2 ^ 32 := by
    have hsum := (abs_add_le (((offset * 2 ^ 32 : ℤ) : ℚ) - distance) distance).trans
      (add_le_add hmeasured hdistance)
    rw [sub_add_cancel] at hsum
    refine hsum.trans ?_
    linarith
  have hle : |offset * 2 ^ 32| ≤ 500000000 * 2 ^ 32 := by exact_mod_cast hcast
  rw [abs_mul, abs_of_nonneg (by decide : (0 : ℤ) ≤ 2 ^ 32)] at hle
  unfold maxphase
  omega

theorem Tracks.update [HalfWordMpy F] (hhz : 50 ≤ cfg.hz ∧ cfg.hz ≤ 100000)
    (htc : 0 ≤ tc ∧ tc ≤ 6) (hnoise : 1 ≤ noise) (hstart : 0 ≤ start)
    (hroom : Servo.Room tc period (Servo.boundAfter (noise * 2 ^ 32) start 0))
    (h : Tracks cfg tc period (noise * 2 ^ 32) start c t) (href : 0 < c.k.timeReftime)
    {offset : ℤ} (he : Polled cfg tc noise (c, t) (.hardupdate offset)) :
    Tracks cfg tc period (noise * 2 ^ 32) start (c.step cfg (.hardupdate offset))
        (follow period t c (.hardupdate offset)) ∧
      0 < (c.step cfg (.hardupdate offset)).k.timeReftime := by
  have hmeasured := he.measured hhz.1
  obtain ⟨hsteers, hlong, -⟩ := he
  have hN : (1 : ℚ) ≤ noise := by exact_mod_cast hnoise
  obtain ⟨hsound, hconst, -, u, hin, haligned, hround⟩ := h
  obtain ⟨hbig, hsmall⟩ := Servo.boundAfter_bounds (noise * 2 ^ 32) hstart t.polls
  have hroom' := hroom.mono hsmall
  have hmild := hroom'.mild htc (by positivity) hbig hin
  rw [lag_eq] at hround hmeasured
  obtain ⟨i, early, full, part, slack, hlater, hlo, hhi⟩ :=
    hround.later hhz.1 htc hmild hroom' (by positivity) hbig hin haligned hlong
  have hlag := hlater.abs_lag_le hhz.1 htc hmild (by positivity) hbig hin hhi
  have hoffset := abs_offset_le hbig hroom'.phase hmeasured hlag
  have hnext := hlater.within hhz.1 htc hmild (by linarith) hbig hin hlo hhi hmeasured
  rw [Servo.next_boundAfter] at hnext
  have hfreq := (hroom.mono (Servo.boundAfter_bounds (noise * 2 ^ 32) hstart
    (t.polls + 1)).2).abs_freq_le htc hnext
  have hsec : c.tv.tvSec = c.k.timeReftime + (i + 1) := hlater.sec
  have hshort := (Servo.poll_bounds htc).2.1
  have hmtemp : updateInterval c.k c.tv.tvSec = c.tv.tvSec - c.k.timeReftime :=
    hsteers.interval href.ne' c.tv.tvSec
  have hservo := servo_hardupdate hsound.1 hsteers hconst hoffset hmtemp (by omega)
    (by unfold maxsec; omega) hfreq
  have hreset : (c.step cfg (.hardupdate offset)).k.timeReftime = c.tv.tvSec :=
    hardupdate_timeReftime cfg c.k c.tv.tvSec hsteers.pll
  have hposition : 0 ≤ ((c.step cfg (.hardupdate offset)).servo cfg).position := by
    rw [hservo]
    show 0 ≤ (c.servo cfg).position
    exact hlater.position_nonneg hmild
  have hbefore : ((c.step cfg (.hardupdate offset)).servo cfg).position
      < Servo.second cfg.hz := by
    rw [hservo]
    exact hlater.before
  obtain ⟨hstarts, hstarts'⟩ := Servo.starts_round tc period t.now hreset.symm hposition hbefore
  refine ⟨⟨step_sound (by omega) hsound trivial, ?_, le_rfl, _, ?_, hstarts, ?_⟩, ?_⟩
  · show (hardupdate cfg c.k c.tv.tvSec offset).timeConstant = tc
    rw [hardupdate_frame]
    exact hconst
  · rw [hservo]
    exact hnext
  · rw [lag_eq]
    exact hstarts'
  · rw [hreset]
    omega

end Step

/-! ### The run -/

/-- Right after an update: the clock is less than `start` ns behind, the frequency would cost
less than half of that in a poll, and the running second less than three times. -/
structure Starts (cfg : Config) (tc period noise start : ℤ) (c : Clock F)
    (t : Reference) : Prop where
  sound : Sound cfg c
  normalised : c.tv.Normalised
  constant : c.k.timeConstant = tc
  reftime : c.k.timeReftime = c.tv.tvSec
  fresh : |val c.k.timeOffset * cfg.hz - lag cfg c t| ≤ noise * (cfg.hz * 2 ^ 32)
  behind : |lag cfg c t| ≤ start * (cfg.hz * 2 ^ 32)
  freq : 2 * (Servo.poll tc * |period - Servo.nominal - val c.k.timeFreq|) ≤ start * 2 ^ 32
  adj : Servo.poll tc * |period - val c.k.timeAdj| ≤ 3 * (start * 2 ^ 32)

/-- How far the clock is behind, and how much of it a poll adds, in nanoseconds. -/
def Follows (cfg : Config) (tc period : ℤ) (bound : ℚ) (c : Clock F) (t : Reference) : Prop :=
  |(lag cfg c t : ℚ)| ≤ 6 * bound * (cfg.hz * 2 ^ 32) ∧
    Servo.poll tc * |((period - Servo.nominal - val c.k.timeFreq : ℤ) : ℚ)| ≤ bound * 2 ^ 32

section Run

variable {cfg : Config} {tc period noise start : ℤ} {c : Clock F} {t : Reference}

theorem Starts.within (hhz : 50 ≤ cfg.hz) (htc : 0 ≤ tc ∧ tc ≤ 6) (hnoise : 1 ≤ noise)
    (h : Starts cfg tc period noise start c t) :
    ((c.servo cfg).update (lag cfg c t)).Within cfg.hz tc period (noise * 2 ^ 32)
      (Servo.boundAfter (noise * 2 ^ 32) (start * 2 ^ 32) 0) := by
  have hH : (50 : ℚ) ≤ cfg.hz := by exact_mod_cast hhz
  have hN : (1 : ℚ) ≤ noise := by exact_mod_cast hnoise
  have hT : (16 : ℚ) ≤ Servo.poll tc := by exact_mod_cast (Servo.poll_bounds htc).1
  have hbound : (start * 2 ^ 32 : ℚ) ≤ Servo.boundAfter (noise * 2 ^ 32) (start * 2 ^ 32) 0 := by
    unfold Servo.boundAfter
    rw [pow_zero, one_mul]
    linarith
  have hrate : 2 * |(((c.servo cfg).update (lag cfg c t)).rate tc period : ℚ)|
      ≤ start * 2 ^ 32 := by
    have hfreq := h.freq
    rw [← abs_of_nonneg (by linarith [(Servo.poll_bounds htc).1] : 0 ≤ Servo.poll tc),
      ← abs_mul] at hfreq
    exact_mod_cast hfreq
  have hbehind : |(lag cfg c t / cfg.hz : ℚ)| ≤ start * 2 ^ 32 := by
    have hle : |(lag cfg c t : ℚ)| ≤ start * (cfg.hz * 2 ^ 32) := by exact_mod_cast h.behind
    rw [abs_div, abs_of_pos (by linarith : (0 : ℚ) < cfg.hz), div_le_iff₀ (by linarith)]
    linarith
  refine ⟨?_, ?_, ?_, ?_⟩
  · exact Servo.abs_sub_div_le (by omega) h.fresh
  · linarith [abs_nonneg (((c.servo cfg).update (lag cfg c t)).rate tc period : ℚ)]
  · refine (abs_sub _ _).trans ?_
    rw [abs_mul, abs_two]
    refine (add_le_add hbehind hrate).trans ?_
    linarith
  · have hadj := h.adj
    rw [← abs_of_nonneg (by linarith [(Servo.poll_bounds htc).1] : 0 ≤ Servo.poll tc),
      ← abs_mul] at hadj
    have hcast : |((Servo.poll tc * (period - val c.k.timeAdj) : ℤ) : ℚ)|
        ≤ 3 * (start * 2 ^ 32) := by exact_mod_cast hadj
    show |((Servo.poll tc * (period - val c.k.timeAdj) : ℤ) : ℚ)| ≤ _
    linarith

/-- The loop starts tracking. -/
theorem Starts.tracks (hhz : 50 ≤ cfg.hz) (htc : 0 ≤ tc ∧ tc ≤ 6) (hnoise : 1 ≤ noise)
    {now : ℤ} (h : Starts cfg tc period noise start c ⟨now, 0, 0⟩) :
    Tracks cfg tc period (noise * 2 ^ 32) (start * 2 ^ 32) c ⟨now, 0, 0⟩ := by
  obtain ⟨hphase, hphase'⟩ := h.sound.2
  obtain ⟨hnsec, hnsec'⟩ := h.normalised
  have hposition : 0 ≤ (c.servo cfg).position := add_nonneg (mul_nonneg (by omega) hnsec) hphase
  have hbefore : (c.servo cfg).position < Servo.second cfg.hz := by
    have hmul := mul_le_mul_of_nonneg_left (Int.le_sub_one_of_lt hnsec')
      (by omega : 0 ≤ cfg.hz * 2 ^ 32)
    show cfg.hz * 2 ^ 32 * c.tv.tvNsec + val c.k.timePhase < Servo.second cfg.hz
    unfold Servo.second
    linarith
  have hsec : (c.servo cfg).sec = (c.servo cfg).reftime := h.reftime.symm
  have hin := h.within hhz htc hnoise
  rw [lag_eq] at hin
  obtain ⟨hstarts, hstarts'⟩ := Servo.starts_round tc period now hsec hposition hbefore
  refine ⟨h.sound, h.constant, le_rfl, _, hin, hstarts, ?_⟩
  rw [lag_eq]
  exact hstarts'

/-- What holds all the time, in nanoseconds. -/
theorem Tracks.follows (hhz : 50 ≤ cfg.hz) (htc : 0 ≤ tc ∧ tc ≤ 6) (hnoise : 1 ≤ noise)
    (hstart : 0 ≤ start)
    (hroom : Servo.Room tc period (Servo.boundAfter (noise * 2 ^ 32) (start * 2 ^ 32) 0))
    (h : Tracks cfg tc period (noise * 2 ^ 32) (start * 2 ^ 32) c t) :
    Follows cfg tc period (Servo.boundAfter noise start t.polls) c t := by
  have hH : (50 : ℚ) ≤ cfg.hz := by exact_mod_cast hhz
  have hN : (1 : ℚ) ≤ noise := by exact_mod_cast hnoise
  have hS : (0 : ℚ) ≤ start * 2 ^ 32 := by positivity
  have hT : (0 : ℚ) ≤ Servo.poll tc := by
    exact_mod_cast (by linarith [(Servo.poll_bounds htc).1] : 0 ≤ Servo.poll tc)
  obtain ⟨hbig, hsmall⟩ := Servo.boundAfter_bounds (noise * 2 ^ 32) hS t.polls
  have hscale : Servo.boundAfter (noise * 2 ^ 32) (start * 2 ^ 32) t.polls
      = Servo.boundAfter noise start t.polls * 2 ^ 32 := by
    unfold Servo.boundAfter
    ring
  obtain ⟨-, -, -, u, hin, -, hround⟩ := h
  have hmild := (hroom.mono hsmall).mild htc (by positivity) hbig hin
  have hrate := hin.rate
  rw [hscale] at hrate
  have hlag : |(lag cfg c t / cfg.hz : ℚ)|
      ≤ 6 * Servo.boundAfter (noise * 2 ^ 32) (start * 2 ^ 32) t.polls := by
    rcases hround with hfirst | ⟨i, early, full, part, slack, hlater, -, hhi⟩
    · exact hfirst.abs_lag_le hhz htc hmild hin
    · exact hlater.abs_lag_le hhz htc hmild (by positivity) hbig hin hhi
  have hfreq : val c.k.timeFreq = u.freq := by
    rcases hround with hfirst | ⟨i, early, full, part, slack, hlater, -, hhi⟩
    · exact hfirst.freq
    · exact hlater.freq
  constructor
  · rw [hscale, abs_div, abs_of_pos (by linarith : (0 : ℚ) < cfg.hz),
      div_le_iff₀ (by linarith)] at hlag
    linarith
  · rw [hfreq, ← abs_of_nonneg hT, ← abs_mul]
    unfold Servo.Update.rate at hrate
    exact_mod_cast hrate

/-- The room, in nanoseconds. -/
theorem room_of_le (hphase : 10 * noise + start ≤ 80000000)
    (hfreq : Servo.poll tc * |period - Servo.nominal| + (10 * noise + start) * 2 ^ 32
      ≤ Servo.poll tc * (maxfreq * 2 ^ 32)) :
    Servo.Room tc period (Servo.boundAfter (noise * 2 ^ 32) (start * 2 ^ 32) 0) := by
  have hbound : Servo.boundAfter (noise * 2 ^ 32) (start * 2 ^ 32) 0
      = (((10 * noise + start) * 2 ^ 32 : ℤ) : ℚ) := by
    unfold Servo.boundAfter
    push_cast
    ring
  rw [hbound]
  constructor
  · exact_mod_cast mul_le_mul_of_nonneg_right hphase (by norm_num)
  · exact_mod_cast hfreq

/-- What a run keeps. -/
theorem Tracks.polled_run [HalfWordMpy F] (hhz : 50 ≤ cfg.hz ∧ cfg.hz ≤ 100000)
    (htc : 0 ≤ tc ∧ tc ≤ 6) (hnoise : 1 ≤ noise) (hstart : 0 ≤ start)
    (hroom : Servo.Room tc period (Servo.boundAfter (noise * 2 ^ 32) (start * 2 ^ 32) 0))
    (h : Tracks cfg tc period (noise * 2 ^ 32) (start * 2 ^ 32) c t)
    (href : 0 < c.k.timeReftime) {es : List Event}
    (hes : Along (watch (step cfg) (follow period)) (Polled cfg tc noise) (c, t) es) :
    Tracks cfg tc period (noise * 2 ^ 32) (start * 2 ^ 32) (run (step cfg) c es)
      (observed (step cfg) (follow period) c t es) := by
  have hS : (0 : ℚ) ≤ start * 2 ^ 32 := by positivity
  have hrun := run_invariant
    (I := fun w => Tracks cfg tc period (noise * 2 ^ 32) (start * 2 ^ 32) w.1 w.2 ∧
      0 < w.1.k.timeReftime) ?_ ⟨h, href⟩ hes
  · rw [run_watch] at hrun
    exact hrun.1
  · rintro ⟨c, t⟩ e ⟨h, href⟩ he
    cases e with
    | tick =>
      have hidle : Idle cfg c .tick := he.1
      exact ⟨h.tick hhz htc hnoise hS hroom he, hidle.kept.1 ▸ href⟩
    | adjtime tp =>
      have hidle : Idle cfg c (.adjtime tp) := he
      exact ⟨h.adjtime hhz hidle, hidle.kept.1 ▸ href⟩
    | hardupdate offset => exact h.update hhz htc hnoise hS hroom href he
    | hardpps tsp nsec => exact he.elim

end Run

/-- The PLL locks on to a reference: from the first update on, whatever the ticks, the updates
and the calls in between, the clock stays within six times `10 * noise` and what is left of the
error it started with, of which every update takes a thirtieth; and so does the frequency. The
bound is what a server with an error of `noise` ns leaves to be seen of the clock. -/
theorem pll_locks [HalfWordMpy F] (cfg : Config) (hhz : 50 ≤ cfg.hz ∧ cfg.hz ≤ 100000)
    (tc period noise start : ℤ) (htc : 0 ≤ tc ∧ tc ≤ 6) (hnoise : 1 ≤ noise)
    (hphase : 10 * noise + start ≤ 80000000)
    (hfreq : Servo.poll tc * |period - Servo.nominal| + (10 * noise + start) * 2 ^ 32
      ≤ Servo.poll tc * (maxfreq * 2 ^ 32))
    (c₀ : Clock F) (hsec : 0 < c₀.tv.tvSec) (now : ℤ)
    (hstart : Starts cfg tc period noise start c₀ ⟨now, 0, 0⟩) (es : List Event)
    (hes : Along (watch (step cfg) (follow period)) (Polled cfg tc noise) (c₀, ⟨now, 0, 0⟩) es) :
    let t := observed (step cfg) (follow period) c₀ ⟨now, 0, 0⟩ es
    Follows cfg tc period (Servo.boundAfter noise start t.polls) (run (step cfg) c₀ es) t := by
  intro t
  have hstart0 : 0 ≤ start := by
    have hle := (abs_nonneg _).trans hstart.behind
    exact nonneg_of_mul_nonneg_left hle (by omega)
  have hroom := room_of_le hphase hfreq
  have htracks := (hstart.tracks hhz.1 htc hnoise).polled_run hhz htc hnoise hstart0 hroom
    (hstart.reftime ▸ hsec) hes
  exact htracks.follows hhz.1 htc hnoise hstart0 hroom

def fiftyHertz : Config := ⟨.ilp32, false, 50⟩

/-- The clock after its first update, which found it half a millisecond behind. -/
def firstUpdate : Clock LFp64 :=
  run (step fiftyHertz) ⟨Kernel.boot fiftyHertz, ⟨1000000, 0⟩⟩
    [.adjtime { modes := modStatus, status := staPll }, .hardupdate 500000]

/-- The time it was then. -/
def then500 : Reference :=
  ⟨firstUpdate.reckoning.weight (50 * 2 ^ 32) + 500000 * (50 * 2 ^ 32), 0, 0⟩

/-- A reference on which the clock loses 20 microseconds in a second. -/
def quickTick : ℤ := Servo.nominal + 20000 * 2 ^ 32

/-- Two polls, sixteen seconds apart. -/
def twoPolls : List Event :=
  List.replicate 800 .tick ++ [.hardupdate 509900] ++ List.replicate 800 .tick ++
    [.hardupdate 471900]

theorem firstUpdate_sound : Sound fiftyHertz firstUpdate :=
  run_invariant (P := Admissible fiftyHertz) (fun _ _ h he => step_sound (by decide) h he)
    (sound_of_boots (by decide) rfl) ⟨trivial, trivial, trivial⟩

theorem firstUpdate_starts : Starts fiftyHertz 0 quickTick 1000 640000 firstUpdate then500 := by
  refine ⟨firstUpdate_sound, ?_, ?_, ?_, ?_, ?_, ?_, ?_⟩
  all_goals decide +kernel

theorem pll_locks_twoPolls :
    Follows fiftyHertz 0 quickTick (Servo.boundAfter 1000 640000 2)
      (run (step fiftyHertz) firstUpdate twoPolls)
      (observed (step fiftyHertz) (follow quickTick) firstUpdate then500 twoPolls) := by
  have hlock := pll_locks fiftyHertz (by decide) 0 quickTick 1000 640000 (by decide) (by decide)
    (by decide) (by decide +kernel) firstUpdate (by decide) then500.now firstUpdate_starts
    twoPolls (by decide +kernel)
  have hpolls : (observed (step fiftyHertz) (follow quickTick) firstUpdate then500
      twoPolls).polls = 2 := by decide +kernel
  rw [← hpolls]
  exact_mod_cast hlock

end Clock

end Nanokernel
