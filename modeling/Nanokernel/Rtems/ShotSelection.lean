import Mathlib.Data.Nat.Count
import Nanokernel.Foundation.Run
import Nanokernel.Rtems.PollRound

/-!
# The best of a few shots

The inner loop of `ntpDaemon` keeps two slots: the one that `best` names and the one that
the next shot goes to. A shot that failed may leave anything in its slot, and takes one of
the retries that the batches of a round share.
-/

namespace Nanokernel

open Loop

/-! ## The inner loop -/

/-- What `rtems_bsdnet_get_ntp()` came to: an answer, or a failure and what it left in the
slot. -/
inductive Shot where
  | answered (data : DiffTimeCbData)
  | failed (left : DiffTimeCbData)
deriving DecidableEq, Repr

def Shot.isAnswered : Shot → Bool
  | .answered _ => true
  | .failed _ => false

namespace Round

/-- A shot, and what the loop does with it. -/
def turn (r : Round) : Shot → Round
  | .answered data => r.record data
  | .failed left =>
    { r with data := Function.update r.data r.tryIdx left, retry := r.retry - 1 }

/-- `while ( retry > 0 )`, at the attempt `n` of the pass. -/
def innerTurn (shots : ℕ → Shot) : Round × ℕ → Option (Turn (Round × ℕ) (Round × ℕ))
  | (r, n) =>
    if r.retry > 0 then
      match shots n with
      | .failed left => some (.again (r.turn (.failed left), n + 1))
      | .answered data =>
        let r := r.turn (.answered data)
        if r.shots ≥ 3 then some (.done (r, n + 1)) else some (.again (r, n + 1))
    else some (.done (r, n))

/-- The loop within so many turns, and the attempts it made. -/
def innerLoop (shots : ℕ → Shot) (turns : ℕ) (r : Round) : Option (Round × ℕ) :=
  loop (innerTurn shots) turns (r, 0)

/-- The variables before attempt `n`. -/
def attempts (shots : ℕ → Shot) (r : Round) : ℕ → Round
  | 0 => r
  | n + 1 => (attempts shots r n).turn (shots n)

end Round

/-! ## The slots -/

section Slots

variable {shots : ℕ → Shot} {r : Round} {n i : ℕ}

/-- Of the first `n` attempts, attempt `i` is the answer that `best` names: it has the
smallest roundtrip time, the latest of equals, and its slot was not written since. -/
structure Holds (shots : ℕ → Shot) (r : Round) (n i : ℕ) : Prop where
  made : i < n
  answer : shots i = .answered (r.attempts shots n).bestData
  slot : (r.attempts shots i).tryIdx = (r.attempts shots n).best
  kept : ∀ j, i < j → j < n → (r.attempts shots j).tryIdx ≠ (r.attempts shots n).best
  least : ∀ j, j < n → ∀ data, shots j = .answered data →
    (r.attempts shots n).bestData.tripns ≤ data.tripns ∧
      ((r.attempts shots n).bestData.tripns = data.tripns → j ≤ i)

/-- The variables after `n` attempts: with no answer yet both indices name one slot, with
one they differ. -/
structure Sorted (shots : ℕ → Shot) (r : Round) (n : ℕ) : Prop where
  nonneg : 0 ≤ (r.attempts shots n).shots
  fresh : (r.attempts shots n).shots = 0 →
    (r.attempts shots n).tryIdx = (r.attempts shots n).best ∧
      ∀ j, j < n → (shots j).isAnswered = false
  holds : 0 < (r.attempts shots n).shots →
    (r.attempts shots n).tryIdx ≠ (r.attempts shots n).best ∧ ∃ i, Holds shots r n i

/-- An answer that is not worse than the best one takes its place. -/
theorem record_of_le {answer : DiffTimeCbData}
    (h : answer.tripns ≤ (Function.update r.data r.tryIdx answer r.best).tripns) :
    (r.record answer).best = r.tryIdx ∧ (r.record answer).tryIdx ≠ r.tryIdx ∧
      (r.record answer).bestData = answer := by
  have hnext : ∀ slot : Fin 2, slot + 1 ≠ slot := by decide
  unfold Round.bestData Round.record
  dsimp only
  rw [Function.update_self, if_pos h]
  exact ⟨rfl, hnext _, Function.update_self ..⟩

/-- An answer that is worse leaves it. -/
theorem record_of_lt {answer : DiffTimeCbData} (hslot : r.tryIdx ≠ r.best)
    (h : r.bestData.tripns < answer.tripns) :
    (r.record answer).best = r.best ∧ (r.record answer).tryIdx = r.tryIdx ∧
      (r.record answer).bestData = r.bestData := by
  have hbest : Function.update r.data r.tryIdx answer r.best = r.bestData :=
    Function.update_of_ne hslot.symm _ _
  unfold Round.bestData Round.record at *
  dsimp only
  rw [Function.update_self, hbest, if_neg (not_le.mpr h)]
  exact ⟨rfl, rfl, hbest⟩

/-- The attempt leaves the best slot alone, and what it was answered is worse. -/
theorem Holds.stays (h : Holds shots r n i)
    (hslot : (r.attempts shots n).tryIdx ≠ (r.attempts shots n).best)
    (hbest : (r.attempts shots (n + 1)).best = (r.attempts shots n).best)
    (hdata : (r.attempts shots (n + 1)).bestData = (r.attempts shots n).bestData)
    (hworse : ∀ data, shots n = .answered data →
      (r.attempts shots n).bestData.tripns < data.tripns) : Holds shots r (n + 1) i where
  made := h.made.trans (Nat.lt_succ_self n)
  answer := by
    rw [hdata]
    exact h.answer
  slot := by
    rw [hbest]
    exact h.slot
  kept := by
    intro j hij hj
    rw [hbest]
    rcases Nat.lt_succ_iff_lt_or_eq.mp hj with hlt | rfl
    · exact h.kept j hij hlt
    · exact hslot
  least := by
    intro j hj data hanswer
    rw [hdata]
    rcases Nat.lt_succ_iff_lt_or_eq.mp hj with hlt | rfl
    · exact h.least j hlt data hanswer
    · have hlt := hworse data hanswer
      exact ⟨hlt.le, fun heq => absurd heq hlt.ne⟩

/-- The answer that was just recorded, when no earlier one is better. -/
theorem holds_latest {answer : DiffTimeCbData} (hanswer : shots n = .answered answer)
    (hslot : (r.attempts shots (n + 1)).best = (r.attempts shots n).tryIdx)
    (hdata : (r.attempts shots (n + 1)).bestData = answer)
    (hbetter : ∀ j, j < n → ∀ data, shots j = .answered data →
      answer.tripns ≤ data.tripns) : Holds shots r (n + 1) n where
  made := Nat.lt_succ_self n
  answer := by
    rw [hdata]
    exact hanswer
  slot := hslot.symm
  kept := by
    intro j hnj hj
    omega
  least := by
    intro j hj data hj'
    rw [hdata]
    rcases Nat.lt_succ_iff_lt_or_eq.mp hj with hlt | rfl
    · exact ⟨hbetter j hlt data hj', fun _ => hlt.le⟩
    · cases hanswer.symm.trans hj'
      exact ⟨le_refl _, fun _ => le_refl _⟩

theorem Sorted.failed {left : DiffTimeCbData} (h : Sorted shots r n)
    (hshot : shots n = .failed left) : Sorted shots r (n + 1) := by
  have hturn : r.attempts shots (n + 1) = (r.attempts shots n).turn (.failed left) := by
    rw [← hshot]
    rfl
  constructor
  · rw [hturn]
    exact h.nonneg
  · intro hnone
    rw [hturn] at hnone ⊢
    obtain ⟨hslots, hearlier⟩ := h.fresh hnone
    refine ⟨hslots, fun j hj => ?_⟩
    rcases Nat.lt_succ_iff_lt_or_eq.mp hj with hlt | rfl
    · exact hearlier j hlt
    · rw [hshot]
      rfl
  · intro hsome
    rw [hturn] at hsome
    obtain ⟨hslots, i, hi⟩ := h.holds hsome
    have hdata : (r.attempts shots (n + 1)).bestData = (r.attempts shots n).bestData := by
      rw [hturn]
      exact Function.update_of_ne hslots.symm _ _
    refine ⟨by rw [hturn]; exact hslots, i, hi.stays hslots (by rw [hturn]; rfl) hdata ?_⟩
    intro data hanswer
    cases hshot.symm.trans hanswer

theorem Sorted.answered {answer : DiffTimeCbData} (h : Sorted shots r n)
    (hshot : shots n = .answered answer) : Sorted shots r (n + 1) := by
  have hturn : r.attempts shots (n + 1) = (r.attempts shots n).record answer := by
    show (r.attempts shots n).turn (shots n) = _
    rw [hshot]
    rfl
  have hshots := (Poller.record_counters (r.attempts shots n) answer).2
  have hnonneg := h.nonneg
  rw [← hturn] at hshots
  -- a new best answer, whether it is the first one or not worse than the best
  have hlatest : answer.tripns ≤ (Function.update (r.attempts shots n).data
        (r.attempts shots n).tryIdx answer (r.attempts shots n).best).tripns →
      (∀ j, j < n → ∀ data, shots j = .answered data → answer.tripns ≤ data.tripns) →
      (r.attempts shots (n + 1)).tryIdx ≠ (r.attempts shots (n + 1)).best ∧
        ∃ i, Holds shots r (n + 1) i := by
    intro hle hbetter
    obtain ⟨hbest, hnext, hdata⟩ := record_of_le hle
    rw [← hturn] at hbest hnext hdata
    exact ⟨by rw [hbest]; exact hnext, n, holds_latest hshot hbest hdata hbetter⟩
  refine ⟨by omega, fun hnone => by omega, fun _ => ?_⟩
  rcases hnonneg.eq_or_lt with hnone | hsome
  · obtain ⟨hslots, hearlier⟩ := h.fresh hnone.symm
    refine hlatest ?_ ?_
    · rw [hslots, Function.update_self]
    · intro j hj data hdata
      have hnot := hearlier j hj
      rw [hdata] at hnot
      cases hnot
  · obtain ⟨hslots, i, hi⟩ := h.holds hsome
    rcases le_or_gt answer.tripns (r.attempts shots n).bestData.tripns with hle | hlt
    · refine hlatest ?_ ?_
      · rw [Function.update_of_ne hslots.symm]
        exact hle
      · intro j hj data hdata
        exact hle.trans (hi.least j hj data hdata).1
    · obtain ⟨hbest, hnext, hdata⟩ := record_of_lt hslots hlt
      rw [← hturn] at hbest hnext hdata
      refine ⟨by rw [hbest, hnext]; exact hslots, i, hi.stays hslots hbest hdata ?_⟩
      intro data hanswer
      cases hshot.symm.trans hanswer
      exact hlt

/-- Whatever the shots of the pass come to, and whatever the slots had before it. -/
theorem sorted_attempts (shots : ℕ → Shot) (r : Round) (retry : ℤ) (n : ℕ) :
    Sorted shots (r.batch retry) n := by
  induction n with
  | zero =>
    refine ⟨le_refl _, fun _ => ⟨rfl, ?_⟩, fun hsome => ?_⟩
    · intro j hj
      exact absurd hj (Nat.not_lt_zero j)
    · exact absurd hsome (lt_irrefl _)
  | succ n ih =>
    cases hshot : shots n with
    | answered answer => exact ih.answered hshot
    | failed left => exact ih.failed hshot

end Slots

/-! ## The end of the loop -/

/-- Of the first `n` attempts, those that were answered. -/
def answers (shots : ℕ → Shot) (n : ℕ) : ℕ := Nat.count (fun i => (shots i).isAnswered = true) n

def failures (shots : ℕ → Shot) (n : ℕ) : ℕ := Nat.count (fun i => (shots i).isAnswered = false) n

section Loops

variable {shots : ℕ → Shot} {r : Round}

theorem turn_counters (r : Round) (shot : Shot) :
    (r.turn shot).shots = r.shots + (if shot.isAnswered = true then 1 else 0) ∧
      (r.turn shot).retry = r.retry - (if shot.isAnswered = false then 1 else 0) := by
  cases shot with
  | answered answer =>
    obtain ⟨hretry, hshots⟩ := Poller.record_counters r answer
    exact ⟨hshots, hretry.trans (sub_zero _).symm⟩
  | failed left => exact ⟨(add_zero _).symm, rfl⟩

theorem attempts_counters (shots : ℕ → Shot) (r : Round) (n : ℕ) :
    (r.attempts shots n).shots = r.shots + answers shots n ∧
      (r.attempts shots n).retry = r.retry - failures shots n := by
  induction n with
  | zero => exact ⟨(add_zero _).symm, (sub_zero _).symm⟩
  | succ n ih =>
    obtain ⟨hshots, hretry⟩ := turn_counters (r.attempts shots n) (shots n)
    rw [ih.1] at hshots
    rw [ih.2] at hretry
    constructor
    · refine hshots.trans ?_
      unfold answers
      rw [Nat.count_succ]
      push_cast
      omega
    · refine hretry.trans ?_
      unfold failures
      rw [Nat.count_succ]
      push_cast
      omega

/-- Before a turn: the attempts so far left a shot to make, and took retries only while there
were some. -/
structure Underway (shots : ℕ → Shot) (r : Round) (p : Round × ℕ) : Prop where
  round : p.1 = r.attempts shots p.2
  answers_lt : answers shots p.2 < 3
  retries : failures shots p.2 = 0 ∨ 0 ≤ p.1.retry

/-- At the end the attempts are as many as the retries and the shots allow. -/
structure Ended (shots : ℕ → Shot) (r : Round) (p : Round × ℕ) : Prop where
  round : p.1 = r.attempts shots p.2
  answers_le : answers shots p.2 ≤ 3
  failures_le : failures shots p.2 ≤ 3

/-- A turn is an attempt; a break follows the third answer. -/
theorem innerTurn_eq {n : ℕ} (h : 0 < r.retry) : Round.innerTurn shots (r, n) =
    if (shots n).isAnswered = true ∧ 3 ≤ (r.turn (shots n)).shots
    then some (.done (r.turn (shots n), n + 1))
    else some (.again (r.turn (shots n), n + 1)) := by
  unfold Round.innerTurn
  dsimp only
  rw [if_pos h]
  cases shots n with
  | answered answer => exact if_congr ⟨fun hthree => ⟨rfl, hthree⟩, And.right⟩ rfl rfl
  | failed left => exact (if_neg (fun hbreak => nomatch hbreak.1)).symm

theorem innerTurn_proceeds {retry : ℤ} (h : retry ≤ 3) :
    Proceeds (Round.innerTurn shots) (Underway shots (r.batch retry))
      (fun p => p.1.retry.toNat + (3 - p.1.shots).toNat) (Ended shots (r.batch retry)) := by
  rintro ⟨r', n⟩ ⟨hround, hanswers, hretries⟩
  dsimp only at hround hanswers hretries
  subst hround
  obtain ⟨hshots, hretry⟩ := attempts_counters shots (r.batch retry) n
  have hbatch : (r.batch retry).shots = 0 ∧ (r.batch retry).retry = retry := ⟨rfl, rfl⟩
  by_cases hleft : 0 < ((r.batch retry).attempts shots n).retry
  · obtain ⟨hshots', hretry'⟩ := attempts_counters shots (r.batch retry) (n + 1)
    have hanswer : answers shots (n + 1) = answers shots n + _ := Nat.count_succ _ _
    have hfailure : failures shots (n + 1) = failures shots n + _ := Nat.count_succ _ _
    have hattempt : ((r.batch retry).attempts shots n).turn (shots n)
        = (r.batch retry).attempts shots (n + 1) := rfl
    rw [innerTurn_eq hleft, hattempt]
    cases hkind : (shots n).isAnswered with
    | true =>
      rw [hkind, if_pos rfl] at hanswer
      rw [hkind, if_neg Bool.false_ne_true.symm] at hfailure
      by_cases hbreak : 3 ≤ ((r.batch retry).attempts shots (n + 1)).shots
      · refine Or.inr ⟨_, if_pos ⟨rfl, hbreak⟩, rfl, ?_, ?_⟩ <;> dsimp only <;> omega
      · refine Or.inl ⟨_, if_neg fun hboth => hbreak hboth.2, ⟨rfl, ?_, ?_⟩, ?_⟩ <;>
          dsimp only <;> omega
    | false =>
      rw [hkind, if_neg Bool.false_ne_true] at hanswer
      rw [hkind, if_pos rfl] at hfailure
      have hagain : ¬ (false = true ∧ 3 ≤ ((r.batch retry).attempts shots (n + 1)).shots) :=
        fun hboth => Bool.false_ne_true hboth.1
      refine Or.inl ⟨_, if_neg hagain, ⟨rfl, ?_, ?_⟩, ?_⟩ <;> dsimp only <;> omega
  · have hover : Round.innerTurn shots ((r.batch retry).attempts shots n, n)
        = some (.done ((r.batch retry).attempts shots n, n)) := if_neg hleft
    refine Or.inr ⟨_, hover, rfl, hanswers.le, ?_⟩
    dsimp only
    omega

/-- For every sequence of answered and failed shots, and whatever the slots had before the
pass: the loop ends within three answers and three failures, and if there is an answer,
`best` names the slot of the best one. -/
theorem innerLoop_keeps_best (shots : ℕ → Shot) (r : Round) {retry : ℤ} (h : retry ≤ 3)
    {turns : ℕ} (ht : 6 < turns) :
    ∃ r' n, Round.innerLoop shots turns (r.batch retry) = some (r', n) ∧
      r' = (r.batch retry).attempts shots n ∧ answers shots n ≤ 3 ∧ failures shots n ≤ 3 ∧
      (0 < r'.shots → ∃ i, Holds shots (r.batch retry) n i) := by
  have hstart : Underway shots (r.batch retry) (r.batch retry, 0) :=
    ⟨rfl, Nat.zero_lt_succ 2, Or.inl rfl⟩
  have hmeasure : retry.toNat + (3 - 0 : ℤ).toNat < turns := by omega
  obtain ⟨⟨r', n⟩, hloop, hround, hanswers, hfailures⟩ :=
    loop_of_proceeds (innerTurn_proceeds h) hstart hmeasure
  dsimp only at hround hanswers hfailures
  refine ⟨r', n, hloop, hround, hanswers, hfailures, fun hsome => ?_⟩
  rw [hround] at hsome
  exact ((sorted_attempts shots r retry n).holds hsome).2

/-- An answer, a failure that leaves a roundtrip time of zero, an answer as good as the first
one, and one that is worse. -/
def tieShots : ℕ → Shot
  | 0 => .answered Poller.quarterAhead
  | 1 => .failed { Poller.quarterAhead with tripns := 0 }
  | 2 => .answered Poller.quarterAhead
  | _ => .answered { Poller.quarterAhead with tripns := 2000000 }

def tiePass : Round := Poller.pollStart.round.batch 3

theorem innerLoop_keeps_best_tie : ∃ r' i,
    Round.innerLoop tieShots 7 tiePass = some (r', 4) ∧ Holds tieShots tiePass 4 i := by
  obtain ⟨r', n, hloop, hround, -, -, hholds⟩ := innerLoop_keeps_best tieShots
    Poller.pollStart.round (by decide : (3 : ℤ) ≤ 3) (by decide : 6 < 7)
  have hend : Round.innerLoop tieShots 7 tiePass = some (tiePass.attempts tieShots 4, 4) := rfl
  obtain ⟨rfl, rfl⟩ := Prod.mk.inj (Option.some.inj (hloop.symm.trans hend))
  obtain ⟨i, hi⟩ := hholds (by decide)
  exact ⟨_, i, hend, hi⟩

end Loops

/-! ## The shots of a round -/

/-- A shot of the round: a failure leaves the slot as it is. -/
def Shot.ofResult (r : Round) : Option DiffTimeCbData → Shot
  | some answer => .answered answer
  | none => .failed (r.data r.tryIdx)

/-- The shots of the poll loop are the turns of the inner loop, and what follows the shots
comes when that is over. -/
theorem Poller.shot_eq_turn {F : Type} [LFp F] {cfg : Rtems} {s : Poller F}
    (h : s.stage = .shooting) (hloop : Looping s) (result : Option DiffTimeCbData) :
    s.shot cfg result =
      if 0 < (s.round.turn (.ofResult s.round result)).retry ∧
          (s.round.turn (.ofResult s.round result)).shots < 3
      then { s with round := s.round.turn (.ofResult s.round result) }
      else afterShots cfg { s with round := s.round.turn (.ofResult s.round result) } := by
  obtain ⟨hretry, -, hmax⟩ := hloop h
  cases result with
  | none =>
    have hturn : s.round.turn (.ofResult s.round none)
        = { s.round with retry := s.round.retry - 1 } := by
      unfold Round.turn Shot.ofResult
      dsimp only
      rw [Function.update_eq_self]
    unfold shot
    rw [hturn]
    exact if_congr ⟨fun hleft => ⟨hleft, hmax⟩, And.left⟩ rfl rfl
  | some answer =>
    have hcounters := record_counters s.round answer
    have hleft : 0 < (s.round.record answer).retry := hcounters.1.symm ▸ hretry
    show (if (s.round.record answer).shots ≥ 3 then _ else _) = _
    rw [← ite_not]
    exact if_congr ⟨fun hthree => ⟨hleft, not_le.mp hthree⟩, fun hboth => not_le.mpr hboth.2⟩
      rfl rfl

end Nanokernel
