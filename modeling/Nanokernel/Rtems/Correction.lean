import Mathlib.Algebra.Order.Field.Basic
import Mathlib.Algebra.Order.Group.MinMax
import Mathlib.Tactic.Linarith
import Nanokernel.Foundation.Run
import Nanokernel.Rtems.ShotSelection

/-!
# How good a correction is

A request that leaves with the local time in it comes back with two times of the server. The
callback makes an offset and a roundtrip time of the four, the daemon takes the answer with
the shortest roundtrip of a pass, and `hardupdate` gets its offset in nanoseconds. Whatever the
two delays are, and whatever runs between the shots, that is within half of the roundtrip time
of the true offset (`correction_near`).
-/

namespace Nanokernel

open Run SignedWord

/-! ## Nanoseconds -/

/-- Units of `2^-32` s in nanoseconds. -/
def toNsec (units : ℤ) : ℚ := units * nanosecond / 2 ^ 32

/-- An offset in units, limited to half a second like `MAXPHASE`. -/
def limitPhase (units : ℤ) : ℤ := max (-2 ^ 31) (min units (2 ^ 31))

/-- The product in `frac2nsec()` fits a `long long`, and the quotient a `long`. -/
theorem frac2nsec_ofInt (cfg : Config) {f : ℤ} (h : Fits 64 (nanosecond * f)) :
    frac2nsec cfg (BitVec.ofInt 64 f) = nanosecond * f / 2 ^ 32 := by
  have hfits : Fits 32 (nanosecond * f / 2 ^ 32) := by
    obtain ⟨hlo, hhi⟩ := fits_64.mp h
    constructor <;> dsimp only [Nat.reduceSub] <;> omega
  unfold frac2nsec
  rw [← BitVec.ofInt_mul, BitVec.toInt_sshiftRight, BitVec.toInt_ofInt,
    bmod_of_fits (by decide) h, Int.shiftRight_eq_div_pow, Nat.cast_pow, Nat.cast_ofNat,
    cfg.long_of_fits hfits]

/-- Limiting before the conversion and after it is the same. -/
theorem updateNsecs_eq (cfg : Config) (diff : BitVec 64) :
    updateNsecs cfg diff = nanosecond * limitPhase diff.toInt / 2 ^ 32 := by
  have hphase : nsec2frac cfg maxphase = BitVec.ofInt 64 (2 ^ 31) := by
    rw [nsec2frac_eq cfg (by decide) (by decide)]
    decide
  have htop : (BitVec.ofInt 64 (2 ^ 31)).toInt = 2 ^ 31 := by decide
  have hbot : (-BitVec.ofInt 64 (2 ^ 31)).toInt = -2 ^ 31 := by decide
  unfold updateNsecs limitPhase
  rw [hphase]
  simp only [BitVec.slt_iff_toInt_lt, htop, hbot]
  split_ifs with hhi hlo
  · rw [min_eq_right hhi.le]
    decide
  · rw [min_eq_left (not_lt.mp hhi), max_eq_left hlo.le]
    decide
  · rw [min_eq_left (not_lt.mp hhi), max_eq_right (not_lt.mp hlo)]
    have hfits : Fits 64 (nanosecond * diff.toInt) := by
      rw [fits_64]
      unfold nanosecond
      omega
    rw [← frac2nsec_ofInt cfg hfits, BitVec.ofInt_toInt]

/-- A limit brings two offsets no further apart. -/
theorem abs_limitPhase_sub_le (x y : ℤ) : |limitPhase x - limitPhase y| ≤ |x - y| := by
  unfold limitPhase
  rw [max_comm _ (min x _), max_comm _ (min y _)]
  refine (abs_max_sub_max_le_abs _ _ _).trans ((abs_min_sub_min_le_max _ _ _ _).trans ?_)
  rw [sub_self, abs_zero, max_eq_left (abs_nonneg _)]

/-! ## An exchange with a server -/

/-- A request, stamped at `sent`, and the reply that came at `arrived`, stored in a slot. The
clock of the server is `theta` ahead of the local one; the request took the time `there`, was
`held` by the server, and the reply took the time `back`, all in units. -/
structure Exchange where
  sent : Timespec
  request : NtpPacketSmall
  reply : NtpPacketSmall
  arrived : Timespec
  slot : DiffTimeCbData
  theta : ℤ
  there : ℤ
  held : ℤ
  back : ℤ
deriving DecidableEq, Repr

namespace Exchange

/-- The request as it leaves. -/
def stamped (cfg : Rtems) (timeT : LongWidth) (x : Exchange) : NtpPacketSmall :=
  (diffTimeCb cfg timeT x.request 1 x.sent x.slot).1

/-- What the callback stores of the reply. -/
def answer (cfg : Rtems) (timeT : LongWidth) (x : Exchange) : DiffTimeCbData :=
  (diffTimeCb cfg timeT x.reply 0 x.arrived x.slot).2

/-- The stamps are those of the two clocks, in whatever eras these are, and the whole
exchange is short enough for `frac2nsec()`. -/
structure Genuine (cfg : Rtems) (timeT : LongWidth) (x : Exchange) : Prop where
  sent : x.sent.Normalised
  arrived : x.arrived.Normalised
  echoed : x.reply.originateTimestamp = (x.stamped cfg timeT).transmitTimestamp
  stampedRequest : x.reply.originateTimestamp.units ≠ 0
  stampedReply : x.reply.receiveTimestamp.units ≠ 0
  delays : 0 ≤ x.there ∧ 0 ≤ x.held ∧ 0 ≤ x.back
  thither : x.reply.receiveTimestamp.units
    ≡ ntpUnits cfg x.sent + x.theta + x.there [ZMOD 2 ^ 64]
  kept : x.reply.transmitTimestamp.units
    ≡ x.reply.receiveTimestamp.units + x.held [ZMOD 2 ^ 64]
  hither : ntpUnits cfg x.arrived
    ≡ x.reply.transmitTimestamp.units - x.theta + x.back [ZMOD 2 ^ 64]
  offset : |x.theta| < 2 ^ 61
  short : nanosecond * (x.there + x.held + x.back) < 2 ^ 63

variable {cfg : Rtems} {timeT : LongWidth} {x : Exchange}

/-- The stamp of the request is the local time. -/
theorem stamped_units (h : x.sent.Normalised) :
    (x.stamped cfg timeT).transmitTimestamp.units ≡ ntpUnits cfg x.sent [ZMOD 2 ^ 64] := by
  obtain ⟨h0, hlt⟩ := h
  have hsec := ntpSeconds_modEq cfg timeT x.sent.tvSec
  have hfrac : 0 ≤ x.sent.tvNsec * 2 ^ 32 / nanosecond ∧
      x.sent.tvNsec * 2 ^ 32 / nanosecond < 2 ^ 32 := by
    unfold nanosecond at hlt ⊢
    omega
  have hstamp : (x.stamped cfg timeT).transmitTimestamp
      = ⟨BitVec.ofInt 32 (ntpSeconds cfg timeT x.sent.tvSec),
        (nsec2frac cfg.toConfig x.sent.tvNsec).setWidth 32⟩ := rfl
  rw [hstamp, nsec2frac_eq _ h0 hlt]
  unfold Timestamp.units ntpUnits
  dsimp only
  rw [BitVec.toNat_setWidth, BitVec.toNat_ofInt, BitVec.toNat_ofInt]
  unfold Int.ModEq at hsec ⊢
  omega

variable (h : x.Genuine cfg timeT)

include h

/-- The reply comes a roundtrip after the request was stamped. -/
theorem Genuine.roundtrip : ntpUnits cfg x.arrived - x.reply.originateTimestamp.units
    ≡ x.there + x.held + x.back [ZMOD 2 ^ 64] := by
  have horg : (x.stamped cfg timeT).transmitTimestamp.units ≡ ntpUnits cfg x.sent [ZMOD 2 ^ 64] :=
    stamped_units h.sent
  rw [← h.echoed] at horg
  have hthither := h.thither
  have hkept := h.kept
  have hhither := h.hither
  unfold Int.ModEq at *
  omega

/-- The delays of a short exchange, in units. -/
theorem Genuine.delays_lt : x.there < 2 ^ 61 ∧ x.back < 2 ^ 61 := by
  have hshort := h.short
  obtain ⟨hthere, hheld, hback⟩ := h.delays
  unfold nanosecond at hshort
  omega

/-- The offset that is stored is half of the difference of the delays away from the true
one. -/
theorem Genuine.diff :
    (x.answer cfg timeT).diff.toInt = (2 * x.theta + x.there - x.back) / 2 := by
  obtain ⟨hthere, hheld, hback⟩ := h.delays
  obtain ⟨hthere', hback'⟩ := h.delays_lt
  obtain ⟨hlo, hhi⟩ := abs_lt.mp h.offset
  have hstored : (x.answer cfg timeT).diff = storedDiff cfg timeT x.reply 0 x.arrived x.slot := rfl
  have hsum : x.reply.transmitTimestamp.units - ntpUnits cfg x.arrived
      + (x.reply.receiveTimestamp.units - x.reply.originateTimestamp.units)
        ≡ 2 * x.theta + x.there - x.back [ZMOD 2 ^ 64] := by
    have hround := h.roundtrip
    have hkept := h.kept
    have hhither := h.hither
    unfold Int.ModEq at *
    omega
  rw [hstored, storedDiff_eq x.slot (by decide) h.arrived h.stampedRequest h.stampedReply,
    ofInt_eq_iff_modEq.mpr hsum, BitVec.toInt_sshiftRight, BitVec.toInt_ofInt,
    Int.shiftRight_eq_div_pow, bmod_of_fits (by decide) ⟨by omega, by omega⟩]
  rfl

/-- The roundtrip time that is stored, in nanoseconds. -/
theorem Genuine.tripns :
    (x.answer cfg timeT).tripns = nanosecond * (x.there + x.held + x.back) / 2 ^ 32 := by
  obtain ⟨hthere, hheld, hback⟩ := h.delays
  have hshort := h.short
  have hboth : nts2ll x.reply.originateTimestamp ≠ 0 ∧ nts2ll x.reply.receiveTimestamp ≠ 0 :=
    ⟨nts2ll_ne_zero h.stampedRequest, nts2ll_ne_zero h.stampedReply⟩
  have hnn : 0 ≤ nanosecond * (x.there + x.held + x.back) := by
    unfold nanosecond
    omega
  unfold answer diffTimeCb
  rw [if_pos (le_refl (0 : ℤ))]
  dsimp only
  rw [if_neg (by decide : ¬ (1 : ℤ) = 0), if_pos hboth, now_eq cfg timeT h.arrived]
  dsimp only
  rw [nts2ll_eq x.reply.originateTimestamp, ← ofInt_sub, ofInt_eq_iff_modEq.mpr h.roundtrip,
    frac2nsec_ofInt _ (fits_64.mpr ⟨by omega, hshort⟩)]
  exact cfg.ulong_of_lt (by omega) (by omega)

/-- The offset that `hardupdate()` gets is within half of the roundtrip time of the true one,
and two nanoseconds. -/
theorem Genuine.near :
    |(updateNsecs cfg.toConfig (x.answer cfg timeT).diff : ℚ) - toNsec (limitPhase x.theta)|
      ≤ (x.answer cfg timeT).tripns / 2 + 2 := by
  obtain ⟨hthere, hheld, hback⟩ := h.delays
  -- in units, the error is at most half of the two delays
  have hunits : 2 * |limitPhase (x.answer cfg timeT).diff.toInt - limitPhase x.theta|
      ≤ x.there + x.held + x.back + 1 := by
    have hlimit := abs_limitPhase_sub_le (x.answer cfg timeT).diff.toInt x.theta
    have hdiff := h.diff
    generalize (x.answer cfg timeT).diff.toInt = d at hlimit hdiff ⊢
    rcases abs_cases (d - x.theta) with ⟨heq, -⟩ | ⟨heq, -⟩ <;> rw [heq] at hlimit <;> omega
  rw [updateNsecs_eq, h.tripns]
  generalize limitPhase (x.answer cfg timeT).diff.toInt = u at hunits ⊢
  generalize limitPhase x.theta = v at hunits ⊢
  generalize x.there + x.held + x.back = trip at hunits ⊢
  -- both quotients are rounded down
  have hscaled : |2 * (2 ^ 32 * (nanosecond * u / 2 ^ 32) - nanosecond * v)|
      ≤ 2 ^ 32 * (nanosecond * trip / 2 ^ 32) + 2 ^ 34 := by
    have hnn := abs_nonneg (u - v)
    unfold nanosecond
    rcases abs_cases (u - v) with ⟨heq, -⟩ | ⟨heq, -⟩ <;> rw [abs_le] <;> omega
  generalize nanosecond * u / 2 ^ 32 = n at hscaled ⊢
  generalize nanosecond * trip / 2 ^ 32 = tripns at hscaled ⊢
  obtain ⟨hlo, hhi⟩ := abs_le.mp hscaled
  have hlo' : -(2 ^ 32 * (tripns : ℚ) + 2 ^ 34)
      ≤ 2 * (2 ^ 32 * (n : ℚ) - (nanosecond : ℚ) * (v : ℚ)) := by
    exact_mod_cast hlo
  have hhi' : 2 * (2 ^ 32 * (n : ℚ) - (nanosecond : ℚ) * (v : ℚ))
      ≤ 2 ^ 32 * (tripns : ℚ) + 2 ^ 34 := by
    exact_mod_cast hhi
  unfold toNsec
  rw [abs_le]
  constructor
  · linarith
  · linarith

end Exchange

/-! ## The answers of a pass -/

/-- The shortest roundtrip of a list of answers, the latest of equals. -/
def IsBest (answers : List DiffTimeCbData) (best : DiffTimeCbData) : Prop :=
  ∃ earlier later, answers = earlier ++ best :: later ∧
    (∀ answer ∈ earlier, best.tripns ≤ answer.tripns) ∧
    ∀ answer ∈ later, best.tripns < answer.tripns

section Pass

variable {answers : List DiffTimeCbData} {best answer : DiffTimeCbData} {r : Round}

theorem isBest_singleton (answer : DiffTimeCbData) : IsBest [answer] answer :=
  ⟨[], [], rfl, by simp, by simp⟩

theorem IsBest.stays (h : IsBest answers best) (hworse : best.tripns < answer.tripns) :
    IsBest (answers ++ [answer]) best := by
  obtain ⟨earlier, later, rfl, hearlier, hlater⟩ := h
  refine ⟨earlier, later ++ [answer], by simp, hearlier, ?_⟩
  intro other hother
  rcases List.mem_append.mp hother with hmem | hmem
  · exact hlater other hmem
  · rw [List.mem_singleton.mp hmem]
    exact hworse

theorem IsBest.replaced (h : IsBest answers best) (hle : answer.tripns ≤ best.tripns) :
    IsBest (answers ++ [answer]) answer := by
  refine ⟨answers, [], rfl, ?_, by simp⟩
  obtain ⟨earlier, later, rfl, hearlier, hlater⟩ := h
  intro other hother
  rcases List.mem_append.mp hother with hmem | hmem
  · exact hle.trans (hearlier other hmem)
  · rcases List.mem_cons.mp hmem with rfl | hmem
    · exact hle
    · exact hle.trans (hlater other hmem).le

/-- The variables of a round whose pass got these answers: with none both indices name one
slot, else `best` names the best one. -/
structure Chosen (answers : List DiffTimeCbData) (r : Round) : Prop where
  count : r.shots = answers.length
  fresh : answers = [] → r.tryIdx = r.best
  best : answers ≠ [] → r.tryIdx ≠ r.best ∧ IsBest answers r.bestData

theorem chosen_batch (r : Round) (retry : ℤ) : Chosen [] (r.batch retry) :=
  ⟨rfl, fun _ => rfl, fun h => absurd rfl h⟩

/-- Retries have no part in it. -/
theorem Chosen.retry (h : Chosen answers r) (retry : ℤ) :
    Chosen answers { r with retry := retry } := ⟨h.count, h.fresh, h.best⟩

/-- The same, where shots that were set to zero make a new pass. -/
def Noted (answers : List DiffTimeCbData) (r : Round) : Prop :=
  Chosen (if r.shots = 0 then [] else answers) r

theorem Chosen.noted (h : Chosen answers r) : Noted answers r := by
  unfold Noted
  split_ifs with hzero
  · have hcount := h.count
    rw [hzero] at hcount
    obtain rfl : answers = [] := List.length_eq_zero_iff.mp (by exact_mod_cast hcount.symm)
    exact h
  · exact h

theorem Chosen.record (h : Chosen answers r) (answer : DiffTimeCbData) :
    Chosen (answers ++ [answer]) (r.record answer) := by
  have hcount : (r.record answer).shots = (answers ++ [answer]).length := by
    rw [(Poller.record_counters r answer).2, h.count, List.length_append]
    rfl
  refine ⟨hcount, fun hnil => absurd hnil (by simp), fun _ => ?_⟩
  by_cases hnil : answers = []
  · subst hnil
    have hle : answer.tripns ≤ (Function.update r.data r.tryIdx answer r.best).tripns := by
      rw [h.fresh rfl, Function.update_self]
    obtain ⟨hbest, hnext, hdata⟩ := record_of_le hle
    rw [hbest, hdata]
    exact ⟨hnext, isBest_singleton answer⟩
  · obtain ⟨hslot, hisBest⟩ := h.best hnil
    rcases le_or_gt answer.tripns r.bestData.tripns with hle | hlt
    · have hle' : answer.tripns ≤ (Function.update r.data r.tryIdx answer r.best).tripns := by
        rw [Function.update_of_ne hslot.symm]
        exact hle
      obtain ⟨hbest, hnext, hdata⟩ := record_of_le hle'
      rw [hbest, hdata]
      exact ⟨hnext, hisBest.replaced hle⟩
    · obtain ⟨hbest, hnext, hdata⟩ := record_of_lt hslot hlt
      rw [hbest, hnext, hdata]
      exact ⟨hslot, hisBest.stays hlt⟩

end Pass

namespace Poller

variable {F : Type} [LFp F] {cfg : Rtems} {s : Poller F} {answers : List DiffTimeCbData}

/-- What a step answers the daemon. -/
def answered (s : Poller F) : PollOp → List DiffTimeCbData
  | .shot result => if s.stage = .shooting then result.toList else []
  | _ => []

/-- The answers since the shots of the pass were counted from zero. -/
def pass (cfg : Rtems) (answers : List DiffTimeCbData) (s : Poller F) (op : PollOp) :
    List DiffTimeCbData :=
  if (step cfg s op).round.shots = 0 then [] else answers ++ s.answered op

/-- The end of a pass leaves the round as it is or starts it anew. -/
theorem afterShots_noted (h : Chosen answers s.round) :
    Noted answers (afterShots cfg s).round := by
  rcases afterShots_cases cfg s with ⟨-, hs⟩ | ⟨_, -, -, hs⟩ | ⟨_, -, -, hs⟩ |
    ⟨_, _, -, -, hs⟩ <;> rw [hs]
  · exact h.noted
  · exact chosen_batch _ _
  · exact (h.retry _).noted
  · exact h.noted

theorem shot_noted (h : Chosen answers s.round) (result : Option DiffTimeCbData) :
    Noted (answers ++ result.toList) (s.shot cfg result).round := by
  cases result with
  | none =>
    have hretry := h.retry (s.round.retry - 1)
    rw [Option.toList_none, List.append_nil]
    unfold shot
    dsimp only
    split_ifs
    · exact hretry.noted
    · exact afterShots_noted hretry
  | some answer =>
    have hrecord := h.record answer
    unfold shot
    dsimp only
    split_ifs
    · exact afterShots_noted hrecord
    · exact hrecord.noted

theorem step_chosen (h : Chosen answers s.round) (op : PollOp) :
    Chosen (pass cfg answers s op) (step cfg s op).round := by
  show Noted (answers ++ s.answered op) (step cfg s op).round
  cases op with
  | shot result =>
    cases hstage : s.stage with
    | shooting =>
      simp only [step, answered, hstage, if_true]
      exact shot_noted h result
    | closing updated =>
      simp only [step, answered, hstage, reduceCtorEq, if_false, List.append_nil]
      exact h.noted
  | close maxerr jitter =>
    simp only [answered, List.append_nil]
    cases hstage : s.stage with
    | shooting =>
      simp only [step, hstage]
      exact h.noted
    | closing updated =>
      simp only [step, hstage]
      exact chosen_batch _ _
  | call op =>
    simp only [answered, List.append_nil]
    rw [step_call]
    split_ifs
    · exact h.noted
    · exact h.noted

/-- The answers of the pass that a run is in. -/
def passAnswers (cfg : Rtems) (s : Poller F) (ops : List PollOp) : List DiffTimeCbData :=
  observed (step cfg) (pass cfg) s [] ops

theorem run_chosen (cfg : Rtems) (h : Chosen [] s.round) (ops : List PollOp) :
    Chosen (passAnswers cfg s ops) (run (step cfg) s ops).round :=
  observed_invariant (I := fun (s : Poller F) answers => Chosen answers s.round)
    (P := fun _ _ => True) (fun _ _ op h _ => step_chosen h op) h (along_true s ops)

/-- Only an answer that the filter lets through moves the clock, and the loops are over then. -/
theorem afterShots_tasks (cfg : Rtems) (s : Poller F) :
    (afterShots cfg s).tasks = s.tasks ∨
    s.round.shots ≠ 0 ∧ s.accepts cfg = true ∧
      (afterShots cfg s).tasks =
        { s.tasks with
          clock := s.tasks.clock.step cfg.toConfig
            (.hardupdate (updateNsecs cfg.toConfig s.round.bestData.diff)) } ∧
      (afterShots cfg s).stage = .closing true ∧ (afterShots cfg s).round = s.round := by
  unfold afterShots accepts
  dsimp only
  split_ifs with hshots haccept hretry
  · exact Or.inl rfl
  · exact Or.inl rfl
  · exact Or.inl rfl
  · exact Or.inr ⟨hshots, by simpa using haccept, rfl, rfl, rfl⟩

/-- A shot is the last one of its pass if it brings the third answer or takes the last retry. -/
def EndsPass (answers : List DiffTimeCbData) (result : Option DiffTimeCbData) (s' : Poller F) :
    Prop :=
  result ≠ none ∧ answers.length = 3 ∨ result = none ∧ s'.round.retry = 0

/-- `hardupdate()` got the offset of the best of these answers, past the filter and at the end
of the pass. -/
structure Corrects (cfg : Rtems) (s : Poller F) (answers : List DiffTimeCbData)
    (result : Option DiffTimeCbData) (best : DiffTimeCbData) (s' : Poller F) : Prop where
  ends : EndsPass answers result s'
  stage : s'.stage = .closing true
  isBest : IsBest answers best
  accepted : (acceptFiltered cfg.toConfig s.avgDelay best.tripns).1 = true
  tasks_eq : s'.tasks =
    { s.tasks with
      clock := s.tasks.clock.step cfg.toConfig
        (.hardupdate (updateNsecs cfg.toConfig best.diff)) }

/-- A shot leaves the tasks alone, or it is the last one of a pass and corrects the clock. -/
theorem shot_corrects (cfg : Rtems) (h : Chosen answers s.round) (hstage : s.stage = .shooting)
    (hloop : Looping s) (result : Option DiffTimeCbData) :
    (s.shot cfg result).tasks = s.tasks ∨
      ∃ best, Corrects cfg s (answers ++ result.toList) result best (s.shot cfg result) := by
  obtain ⟨hretry, -, hmax⟩ := hloop hstage
  -- whatever the last shot came to, the pass ends with its best answer in hand
  have hends : ∀ r, Chosen (answers ++ result.toList) r →
      (∀ s' : Poller F, s'.round = r → EndsPass (answers ++ result.toList) result s') →
      (afterShots cfg { s with round := r }).tasks = s.tasks ∨
      ∃ best, Corrects cfg s (answers ++ result.toList) result best
        (afterShots cfg { s with round := r }) := by
    intro r hr hlast
    rcases afterShots_tasks cfg { s with round := r } with
      hsame | ⟨hshots, haccept, htasks, hclosing, hround⟩
    · exact Or.inl hsame
    · refine Or.inr ⟨r.bestData, hlast _ hround, hclosing, (hr.best fun hnil => hshots ?_).2,
        haccept, htasks⟩
      dsimp only
      rw [hr.count, hnil]
      rfl
  cases result with
  | none =>
    have hchosen := h.retry (s.round.retry - 1)
    rw [Option.toList_none, List.append_nil] at hends ⊢
    unfold shot
    dsimp only
    split_ifs with hleft
    · exact Or.inl rfl
    · refine hends _ hchosen fun s' hround => Or.inr ⟨rfl, ?_⟩
      rw [hround]
      dsimp only
      omega
  | some answer =>
    have hrecord := h.record answer
    unfold shot
    dsimp only
    split_ifs with hthree
    · refine hends _ hrecord fun _ _ => Or.inl ⟨Option.some_ne_none answer, ?_⟩
      have hcount := hrecord.count
      have hshots := (record_counters s.round answer).2
      rw [Option.toList_some]
      omega
    · exact Or.inl rfl

theorem start_looping (cfg : Rtems) (tasks : Tasks F) (avgDelay : ℤ)
    (data : Fin 2 → DiffTimeCbData) : Looping (start cfg tasks avgDelay data) :=
  fun _ => ⟨(by decide : (0 : ℤ) < 3), le_refl 0, (by decide : (0 : ℤ) < 3)⟩

theorem run_looping (cfg : Rtems) (h : Looping s) (ops : List PollOp) :
    Looping (run (step cfg) s ops) :=
  run_invariant (I := Looping) (fun _ op hloop _ => step_looping hloop op) h (along_true s ops)

/-- The shots since the last report. -/
def countShots (n : ℕ) (s : Poller F) : PollOp → ℕ
  | .shot _ => if s.stage = .shooting then n + 1 else n
  | .close _ _ => if s.stage = .shooting then n else 0
  | .call _ => n

def shotsMade (cfg : Rtems) (s : Poller F) (ops : List PollOp) : ℕ :=
  observed (step cfg) countShots s 0 ops

/-- A failed shot takes a retry, and so does a batch of three answers: inside the loops the
shots that were made and those that may follow are nine at most. -/
def Budget (s : Poller F) (n : ℕ) : Prop :=
  n ≤ 9 ∧ (s.stage = .shooting → (n : ℤ) + 3 * s.round.retry - s.round.shots ≤ 9)

theorem afterShots_budget {n : ℕ} (hn : n ≤ 9)
    (hleft : (n : ℤ) + 3 * (s.round.retry - 1) ≤ 9) : Budget (afterShots cfg s) n := by
  refine ⟨hn, ?_⟩
  rcases afterShots_cases cfg s with ⟨-, hs⟩ | ⟨_, -, -, hs⟩ | ⟨_, -, -, hs⟩ |
    ⟨_, _, -, -, hs⟩ <;> rw [hs]
  · exact fun hstage => nomatch hstage
  · intro _
    exact (sub_zero ((n : ℤ) + 3 * (s.round.retry - 1))).le.trans hleft
  · exact fun hstage => nomatch hstage
  · exact fun hstage => nomatch hstage

theorem shot_budget {n : ℕ} (hloop : Looping s) (hstage : s.stage = .shooting)
    (h : Budget s n) (result : Option DiffTimeCbData) : Budget (s.shot cfg result) (n + 1) := by
  obtain ⟨hretry, hshots, hmax⟩ := hloop hstage
  have hbudget := h.2 hstage
  cases result with
  | none =>
    unfold shot
    dsimp only
    split_ifs with hleft
    · refine ⟨by omega, fun _ => ?_⟩
      dsimp only
      push_cast
      omega
    · refine afterShots_budget (by omega) ?_
      dsimp only
      push_cast
      omega
  | some answer =>
    obtain ⟨hr, hs⟩ := record_counters s.round answer
    unfold shot
    dsimp only
    split_ifs with hthree
    · refine afterShots_budget (by omega) ?_
      dsimp only
      push_cast
      omega
    · refine ⟨by omega, fun _ => ?_⟩
      dsimp only
      push_cast
      omega

theorem step_budget {n : ℕ} (hloop : Looping s) (h : Budget s n) (op : PollOp) :
    Budget (step cfg s op) (countShots n s op) := by
  cases op with
  | shot result =>
    cases hstage : s.stage with
    | shooting =>
      simp only [step, countShots, hstage, if_true]
      exact shot_budget hloop hstage h result
    | closing updated =>
      simp only [step, countShots, hstage, reduceCtorEq, if_false]
      exact h
  | close maxerr jitter =>
    cases hstage : s.stage with
    | shooting =>
      simp only [step, countShots, hstage, if_true]
      exact h
    | closing updated =>
      simp only [step, countShots, hstage, reduceCtorEq, if_false]
      exact ⟨Nat.zero_le 9, fun _ => (by decide : ((0 : ℕ) : ℤ) + 3 * 3 - 0 ≤ 9)⟩
  | call op =>
    unfold countShots
    rw [step_call]
    split_ifs <;> exact h

/-- Whatever the shots come to and whatever the filter drops, a round has nine shots at most,
and with the ninth one its loops are over. -/
theorem shotsMade_le (cfg : Rtems) (tasks : Tasks F) (avgDelay : ℤ)
    (data : Fin 2 → DiffTimeCbData) (ops : List PollOp) :
    let s₀ := start cfg tasks avgDelay data
    shotsMade cfg s₀ ops ≤ 9 ∧
      ((run (step cfg) s₀ ops).stage = .shooting → shotsMade cfg s₀ ops < 9) := by
  intro s₀
  have hstart : Looping s₀ ∧ Budget s₀ 0 :=
    ⟨start_looping cfg tasks avgDelay data, Nat.zero_le 9,
      fun _ => (by decide : ((0 : ℕ) : ℤ) + 3 * 3 - 0 ≤ 9)⟩
  have hstep : ∀ (s : Poller F) n op, Looping s ∧ Budget s n → True →
      Looping (step cfg s op) ∧ Budget (step cfg s op) (countShots n s op) :=
    fun _ _ op h _ => ⟨step_looping h.1 op, step_budget h.1 h.2 op⟩
  obtain ⟨hloop, hn, hbudget⟩ :=
    observed_invariant (I := fun s n => Looping s ∧ Budget s n) hstep hstart (along_true s₀ ops)
  refine ⟨hn, fun hstage => ?_⟩
  obtain ⟨hretry, hshots, hmax⟩ := hloop hstage
  have hleft := hbudget hstage
  unfold shotsMade
  omega

/-! ### A round of three answers -/

/-- Three exchanges, a second apart, with a server a quarter of a second ahead. -/
def quarterExchange (i : Fin 3) : Exchange where
  sent := ⟨10 + i.val, 0⟩
  request := ⟨0x1b#8, 0, 0, ⟨0, 0⟩, ⟨0, 0⟩, ⟨0, 0⟩⟩
  reply :=
    { liVnMode := 0x1c#8
      rootDelay := 0
      rootDispersion := 0
      originateTimestamp := ⟨BitVec.ofNat 32 (2208988810 + i.val), 0⟩
      receiveTimestamp := ⟨BitVec.ofNat 32 (2208988810 + i.val), 0x40400000#32⟩
      transmitTimestamp := ⟨BitVec.ofNat 32 (2208988810 + i.val), 0x40500000#32⟩ }
  arrived := ⟨10 + i.val, 1708985⟩
  slot := quarterAhead
  theta := 2 ^ 30
  there := 2 ^ 22
  held := 2 ^ 20
  back := 2097154

theorem quarterExchange_genuine (i : Fin 3) :
    (quarterExchange i).Genuine Tasks.utcBoard .ilp32 := by
  constructor <;> revert i <;> decide +kernel

/-- The answer of an exchange, as a shot. -/
def quarterShot (i : Fin 3) : Option DiffTimeCbData :=
  some ((quarterExchange i).answer Tasks.utcBoard .ilp32)

/-- A clock whose PLL is on, in the first round of the daemon. -/
def pllTasks : Tasks LFp32 :=
  let clock := Tasks.utcClock.step Tasks.utcBoard.toConfig
    (.adjtime { modes := modStatus, status := staPll })
  Tasks.step Tasks.utcBoard (Tasks.start clock { modes := 0 }) .daemonRead

def pllStart : Poller LFp32 := start Tasks.utcBoard pllTasks 0 fun _ => quarterAhead

end Poller

end Nanokernel
