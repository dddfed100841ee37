import Nanokernel.Rtems.StatusUpdates

/-!
# The leap second the daemon asks for

At the end of a successful round `ntpDaemon` sets, clears or leaves the flags
`STA_INS` and `STA_DEL`. An announcement sets its flag and leaves the other
one: two servers that disagree have both set (`followsServer_iff`).
-/

namespace Nanokernel

open BitMask Run

namespace Tasks

variable {F : Type} [LFp F]

/-- The leap indicator of an answer. -/
def leapIndicator (answer : Answer) : BitVec 8 := answer.liVnMode &&& leapMsk

/-- After a successful round the kernel is asked for at most one leap second,
and for the one the server announces on the last day of June or December. -/
def FollowsServer (cfg : Rtems) (s : Tasks F) : TaskOp → Prop
  | .daemonRound (some answer) =>
    s.phase = .polling →
      let status := (step cfg s (.daemonRound (some answer))).clock.k.timeStatus
      ¬ (has status staIns = true ∧ has status staDel = true) ∧
      (lastDay cfg answer = true → leapIndicator answer = leapIns →
        has status staIns = true ∧ has status staDel = false) ∧
      (lastDay cfg answer = true → leapIndicator answer = leapDel →
        has status staDel = true ∧ has status staIns = false)
  | _ => True

/-- The flag of the other kind does not stand when a leap second is announced,
nor do both when the flags are left alone. -/
def Unopposed (cfg : Rtems) (s : Tasks F) : TaskOp → Prop
  | .daemonRound (some answer) =>
    s.phase = .polling →
      if leapIndicator answer = leapNo then True
      else if lastDay cfg answer = true ∧ leapIndicator answer = leapIns then
        has s.ntv.status staDel = false
      else if lastDay cfg answer = true ∧ leapIndicator answer = leapDel then
        has s.ntv.status staIns = false
      else ¬ (has s.ntv.status staIns = true ∧ has s.ntv.status staDel = true)
  | _ => True

/-! ## The flags after a round -/

section Flags

variable {cfg : Rtems} {answer : Answer} {status m : BitVec 32}

theorem has_set (status m : BitVec 32) (hm : has m m = true) :
    has (status ||| m) m = true := by
  rw [has_eq_of_and_eq (or_and_self status m |>.trans BitVec.and_self.symm)]
  exact hm

theorem leapStatus_of_no (h : leapIndicator answer = leapNo) :
    leapStatus cfg answer status = status &&& ~~~(staIns ||| staDel) := by
  unfold leapIndicator at h
  unfold leapStatus
  dsimp only
  rw [if_pos h]

theorem leapStatus_of_ins (hday : lastDay cfg answer = true)
    (h : leapIndicator answer = leapIns) :
    leapStatus cfg answer status = status ||| staIns := by
  unfold leapIndicator at h
  unfold leapStatus
  dsimp only
  rw [h, if_neg (by decide), if_pos (Or.inl rfl), if_pos hday, if_pos rfl]

theorem leapStatus_of_del (hday : lastDay cfg answer = true)
    (h : leapIndicator answer = leapDel) :
    leapStatus cfg answer status = status ||| staDel := by
  unfold leapIndicator at h
  unfold leapStatus
  dsimp only
  rw [h, if_neg (by decide), if_pos (Or.inr rfl), if_pos hday, if_neg (by decide)]

/-- On other days, and for the indicator 3, the flags are left alone. -/
theorem leapStatus_of_else (hno : leapIndicator answer ≠ leapNo)
    (hins : ¬ (lastDay cfg answer = true ∧ leapIndicator answer = leapIns))
    (hdel : ¬ (lastDay cfg answer = true ∧ leapIndicator answer = leapDel)) :
    leapStatus cfg answer status = status := by
  unfold leapIndicator at hno hins hdel
  unfold leapStatus
  dsimp only
  rw [if_neg hno]
  split_ifs with hleap hday hi
  · exact absurd ⟨hday, hi⟩ hins
  · exact absurd ⟨hday, hleap.resolve_left hi⟩ hdel
  · rfl
  · rfl

/-- The request follows the server exactly when no flag is in the way. -/
theorem leapStatus_follows_iff (cfg : Rtems) (answer : Answer) (status : BitVec 32) :
    (¬ (has (leapStatus cfg answer status) staIns = true ∧
        has (leapStatus cfg answer status) staDel = true) ∧
      (lastDay cfg answer = true → leapIndicator answer = leapIns →
        has (leapStatus cfg answer status) staIns = true ∧
          has (leapStatus cfg answer status) staDel = false) ∧
      (lastDay cfg answer = true → leapIndicator answer = leapDel →
        has (leapStatus cfg answer status) staDel = true ∧
          has (leapStatus cfg answer status) staIns = false)) ↔
    if leapIndicator answer = leapNo then True
    else if lastDay cfg answer = true ∧ leapIndicator answer = leapIns then
      has status staDel = false
    else if lastDay cfg answer = true ∧ leapIndicator answer = leapDel then
      has status staIns = false
    else ¬ (has status staIns = true ∧ has status staDel = true) := by
  by_cases hno : leapIndicator answer = leapNo
  · have hclear : has (status &&& ~~~(staIns ||| staDel)) (staIns ||| staDel) = false := by
      unfold has
      rw [and_not_and_self]
      rfl
    rw [has_or, Bool.or_eq_false_iff] at hclear
    have hnoIns : leapNo ≠ leapIns := by decide
    have hnoDel : leapNo ≠ leapDel := by decide
    rw [leapStatus_of_no hno, if_pos hno, hno]
    simp [hclear, hnoIns, hnoDel]
  · rw [if_neg hno]
    by_cases hins : lastDay cfg answer = true ∧ leapIndicator answer = leapIns
    · have hset : has (status ||| staIns) staIns = true := has_set status _ (by decide)
      have hkeep : has (status ||| staIns) staDel = has status staDel :=
        has_eq_of_and_eq (set_and (by decide) status)
      have hother : leapIns ≠ leapDel := by decide
      rw [leapStatus_of_ins hins.1 hins.2, if_pos hins, hset, hkeep]
      simp [hins.1, hins.2, hother]
    · rw [if_neg hins]
      by_cases hdel : lastDay cfg answer = true ∧ leapIndicator answer = leapDel
      · have hset : has (status ||| staDel) staDel = true := has_set status _ (by decide)
        have hkeep : has (status ||| staDel) staIns = has status staIns :=
          has_eq_of_and_eq (set_and (by decide) status)
        have hother : leapDel ≠ leapIns := by decide
        rw [leapStatus_of_del hdel.1 hdel.2, if_pos hdel, hset, hkeep]
        simp [hdel.1, hdel.2, hother]
      · rw [leapStatus_of_else hno hins hdel, if_neg hdel]
        refine ⟨fun h => h.1, fun h => ⟨h, ?_, ?_⟩⟩
        · exact fun hday hi => absurd ⟨hday, hi⟩ hins
        · exact fun hday hd => absurd ⟨hday, hd⟩ hdel

end Flags

/-- The kernel gets the leap flags of the daemon's status word. -/
theorem daemonRound_has {cfg : Rtems} {s : Tasks F} {answer : Answer} {m : BitVec 32}
    (hm : Writable m) (hsync : Apart m staUnsync) (hs : Polling s)
    (hphase : s.phase = .polling) :
    has (step cfg s (.daemonRound (some answer))).clock.k.timeStatus m
      = has (leapStatus cfg answer s.ntv.status) m := by
  apply has_eq_of_and_eq
  simp only [step, if_pos hphase]
  refine (call_status_of_modStatus hm ?_).trans (syncStatus_and hsync _ _)
  exact has_modStatus_of_apart (set_and (by decide) _) (hs hphase)

theorem followsServer_iff_unopposed {cfg : Rtems} {s : Tasks F} (hs : Polling s)
    (op : TaskOp) : FollowsServer cfg s op ↔ Unopposed cfg s op := by
  cases op with
  | daemonRound result =>
    cases result with
    | none => exact Iff.rfl
    | some answer =>
      refine forall_congr' fun hphase => ?_
      have hins : has (step cfg s (.daemonRound (some answer))).clock.k.timeStatus staIns
          = has (leapStatus cfg answer s.ntv.status) staIns :=
        daemonRound_has (by decide) (by decide) hs hphase
      have hdel : has (step cfg s (.daemonRound (some answer))).clock.k.timeStatus staDel
          = has (leapStatus cfg answer s.ntv.status) staDel :=
        daemonRound_has (by decide) (by decide) hs hphase
      dsimp only
      rw [hins, hdel]
      exact leapStatus_follows_iff cfg answer s.ntv.status
  | _ => exact Iff.rfl

/-! ## Runs -/

/-- Over every run of the daemon, with any other tasks in between, every
request follows the server exactly when no announcement meets the flag of the
other kind. -/
theorem followsServer_iff (cfg : Rtems) (clock : Clock F) (ntv : Timex)
    (ops : List TaskOp) :
    Along (step cfg) (FollowsServer cfg) (start clock ntv) ops ↔
      Along (step cfg) (Unopposed cfg) (start clock ntv) ops := by
  have hstart : Polling (start clock ntv) := fun h => nomatch h
  refine along_congr (I := Polling) ?_ ?_ hstart (along_true _ ops)
  · exact fun _ op hs _ _ => polling_step hs op
  · exact fun _ op hs _ => followsServer_iff_unopposed hs op

/-- On 30 June 1972 one server announces an inserted second and another a
deleted one. -/
def disagreeRun : List TaskOp :=
  daemonUp ++
    [.daemonRound (some ⟨leapIns, unixBaseToNtpBase + 78796700, 500, 10⟩),
      .daemonRound (some ⟨leapDel, unixBaseToNtpBase + 78796764, 500, 10⟩)]

instance (cfg : Rtems) (s : Tasks F) : (op : TaskOp) → Decidable (FollowsServer cfg s op)
  | .daemonRound (some _) => inferInstanceAs (Decidable (_ → _ ∧ _ ∧ _))
  | .daemonRound none | .daemonRead | .daemonStart | .daemonUpdate _ | .daemonKill
  | .pollRead _ _ | .pollWrite _ | .kernel _ => inferInstanceAs (Decidable True)

/-- Both flags end up set. -/
theorem not_followsServer : ¬ ∀ (cfg : Rtems) (clock : Clock LFp32) (ntv : Timex)
    (ops : List TaskOp), Along (step cfg) (FollowsServer cfg) (start clock ntv) ops := by
  intro h
  exact absurd (h utcBoard utcClock { modes := 0 } disagreeRun) (by decide +kernel)

end Tasks

end Nanokernel
