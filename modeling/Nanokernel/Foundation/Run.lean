import Mathlib.Algebra.BigOperators.Group.List.Basic
import Mathlib.Data.List.Pairwise
import Mathlib.Tactic.Common

/-!
# Runs of a deterministic machine

A machine is a function `step : σ → ε → σ`; a run feeds it a list of events.
`Along step P s es` says that `P` holds at every event of the run, on the
state the event finds. It states both what a run is assumed to do (every event
is admissible) and what it is shown to do (every step has a property). An
observer keeps notes on a run, and a loop is a machine that may end.
-/

namespace Nanokernel.Run

variable {σ ε ω : Type*} (step : σ → ε → σ)

/-- The state after a list of events. -/
def run (s : σ) (es : List ε) : σ := es.foldl step s

/-- `P` holds at every event of the run. -/
def Along (P : σ → ε → Prop) : σ → List ε → Prop
  | _, [] => True
  | s, e :: es => P s e ∧ Along P (step s e) es

/-- What the events of a run return, in order. -/
def outputs (out : σ → ε → Option ω) : σ → List ε → List ω
  | _, [] => []
  | s, e :: es => (out s e).toList ++ outputs out (step s e) es

variable {step}

@[simp] theorem run_nil (s : σ) : run step s [] = s := rfl

@[simp] theorem run_cons (s : σ) (e : ε) (es : List ε) :
    run step s (e :: es) = run step (step s e) es := rfl

theorem run_append (s : σ) (xs ys : List ε) :
    run step s (xs ++ ys) = run step (run step s xs) ys :=
  List.foldl_append

@[simp] theorem along_nil (P : σ → ε → Prop) (s : σ) : Along step P s [] :=
  trivial

@[simp] theorem along_cons (P : σ → ε → Prop) (s : σ) (e : ε) (es : List ε) :
    Along step P s (e :: es) ↔ P s e ∧ Along step P (step s e) es := Iff.rfl

theorem along_append (P : σ → ε → Prop) (s : σ) (xs ys : List ε) :
    Along step P s (xs ++ ys) ↔
      Along step P s xs ∧ Along step P (run step s xs) ys := by
  induction xs generalizing s with
  | nil => simp
  | cons x xs ih => simp [ih, and_assoc]

theorem outputs_append (out : σ → ε → Option ω) (s : σ) (xs ys : List ε) :
    outputs step out s (xs ++ ys) =
      outputs step out s xs ++ outputs step out (run step s xs) ys := by
  induction xs generalizing s with
  | nil => rfl
  | cons x xs ih =>
    simp only [List.cons_append, outputs, run_cons, List.append_assoc]
    rw [ih]

/-- The outputs of a run that is one event longer. -/
theorem outputs_append_singleton (out : σ → ε → Option ω) (s : σ) (xs : List ε) (x : ε) :
    outputs step out s (xs ++ [x]) =
      outputs step out s xs ++ (out (run step s xs) x).toList := by
  rw [outputs_append, outputs, outputs, List.append_nil]

theorem outputs_none (s : σ) (es : List ε) :
    outputs step (fun _ _ => (none : Option ω)) s es = [] := by
  induction es generalizing s with
  | nil => rfl
  | cons e es ih => exact ih (step s e)

theorem along_and {P Q : σ → ε → Prop} {s : σ} {es : List ε} (hP : Along step P s es)
    (hQ : Along step Q s es) : Along step (fun s e => P s e ∧ Q s e) s es := by
  induction es generalizing s with
  | nil => trivial
  | cons e es ih => exact ⟨⟨hP.1, hQ.1⟩, ih hP.2 hQ.2⟩

/-- The events one by one: `P` holds wherever the list is cut. -/
theorem along_iff_forall_split {P : σ → ε → Prop} {s : σ} {es : List ε} :
    Along step P s es ↔
      ∀ pre e post, es = pre ++ e :: post → P (run step s pre) e := by
  constructor
  · rintro h pre e post rfl
    exact ((along_append P s pre (e :: post)).mp h).2.1
  · induction es generalizing s with
    | nil => exact fun _ => trivial
    | cons e es ih =>
      intro h
      refine ⟨h [] e es rfl, ih ?_⟩
      rintro pre e' post rfl
      exact h (e :: pre) e' post rfl

/-- An event that is admissible anywhere is so along a run. -/
theorem along_of_forall {P : σ → ε → Prop} {s : σ} {es : List ε}
    (h : ∀ e ∈ es, ∀ s, P s e) : Along step P s es := by
  rw [along_iff_forall_split]
  rintro pre e post rfl
  exact h e (by simp) _

instance instDecidableAlong (P : σ → ε → Prop) [∀ s e, Decidable (P s e)] :
    ∀ (s : σ) (es : List ε), Decidable (Along step P s es)
  | _, [] => isTrue trivial
  | s, e :: es =>
    have := instDecidableAlong P (step s e) es
    inferInstanceAs (Decidable (_ ∧ _))

/-! ## Invariants -/

section Invariant

variable {I : σ → Prop} {P Q : σ → ε → Prop}

/-- What one step preserves, a run preserves. -/
theorem run_invariant (hstep : ∀ s e, I s → P s e → I (step s e))
    {s : σ} {es : List ε} (hs : I s) (hes : Along step P s es) :
    I (run step s es) := by
  induction es generalizing s with
  | nil => exact hs
  | cons e es ih => exact ih (hstep s e hs hes.1) hes.2

/-- What every step does under an invariant, it does all along a run. -/
theorem along_of_invariant (hstep : ∀ s e, I s → P s e → I (step s e))
    (himp : ∀ s e, I s → P s e → Q s e)
    {s : σ} {es : List ε} (hs : I s) (hes : Along step P s es) :
    Along step Q s es := by
  induction es generalizing s with
  | nil => trivial
  | cons e es ih =>
    exact ⟨himp s e hs hes.1, ih (hstep s e hs hes.1) hes.2⟩

/-- Two properties of an admissible step that agree under an invariant, which they
keep, agree along a run. -/
theorem along_congr {A : σ → ε → Prop} (hstep : ∀ s e, I s → A s e → Q s e → I (step s e))
    (hiff : ∀ s e, I s → A s e → (P s e ↔ Q s e)) {s : σ} {es : List ε} (hs : I s)
    (hes : Along step A s es) : Along step P s es ↔ Along step Q s es := by
  induction es generalizing s with
  | nil => exact Iff.rfl
  | cons e es ih =>
    rw [along_cons, along_cons, hiff s e hs hes.1]
    exact and_congr_right fun hq => ih (hstep s e hs hes.1 hq) hes.2

theorem along_true (s : σ) (es : List ε) : Along step (fun _ _ => True) s es :=
  along_of_forall fun _ _ _ => trivial

/-- Every state of a run is in a set if the first one is and every step leads there. -/
theorem forall_prefix_iff {s : σ} {es : List ε} :
    (∀ pre, pre <+: es → I (run step s pre)) ↔
      I s ∧ Along step (fun s e => I (step s e)) s es := by
  induction es generalizing s with
  | nil =>
    constructor
    · exact fun h => ⟨h [] (List.prefix_refl _), trivial⟩
    · rintro ⟨hs, -⟩ pre hpre
      rw [List.prefix_nil.mp hpre]
      exact hs
  | cons e es ih =>
    constructor
    · intro h
      refine ⟨h [] List.nil_prefix, h [e] (by simp), ?_⟩
      refine (ih.mp fun pre hpre => ?_).2
      exact h (e :: pre) (List.cons_prefix_cons.mpr ⟨rfl, hpre⟩)
    · rintro ⟨hs, he, hes⟩ pre hpre
      cases pre with
      | nil => exact hs
      | cons e' pre =>
        obtain ⟨rfl, hrest⟩ := List.cons_prefix_cons.mp hpre
        exact ih.mpr ⟨he, hes⟩ pre hrest

/-- A run that leaves a set has a step that leaves it. -/
theorem exists_exit {A : σ → Prop} {s : σ} {es : List ε} (hs : A s)
    (hes : ¬ A (run step s es)) :
    ∃ pre e post, es = pre ++ e :: post ∧ A (run step s pre) ∧
      ¬ A (step (run step s pre) e) := by
  induction es generalizing s with
  | nil => exact absurd hs hes
  | cons e es ih =>
    by_cases h : A (step s e)
    · obtain ⟨pre, e', post, rfl, hin, hout⟩ := ih h hes
      exact ⟨e :: pre, e', post, rfl, hin, hout⟩
    · exact ⟨[], e, es, rfl, hs, h⟩

end Invariant

/-! ## Conservation -/

/-- If every step returns what its stock loses, a run returns what its stock
loses. -/
theorem sum_outputs_add {M : Type*} [AddCommMonoid M] {I : σ → Prop} {P : σ → ε → Prop}
    {out : σ → ε → Option M} {V : σ → M} (hstep : ∀ s e, I s → P s e → I (step s e))
    (hpay : ∀ s e, I s → P s e → (out s e).getD 0 + V (step s e) = V s)
    {s : σ} {es : List ε} (hs : I s) (hes : Along step P s es) :
    (outputs step out s es).sum + V (run step s es) = V s := by
  induction es generalizing s with
  | nil => exact zero_add _
  | cons e es ih =>
    have hhead : (out s e).toList.sum = (out s e).getD 0 := by
      cases out s e with
      | none => rfl
      | some y => exact List.sum_singleton
    rw [outputs, List.sum_append, run_cons, add_assoc, ih (hstep s e hs hes.1) hes.2, hhead]
    exact hpay s e hs hes.1

/-- The same for a stock that also gains at every step. -/
theorem sum_outputs_gain {M : Type*} [AddCommMonoid M] {I : σ → Prop} {P : σ → ε → Prop}
    {out : σ → ε → Option M} {V : σ → M} {gain : ε → M}
    (hstep : ∀ s e, I s → P s e → I (step s e))
    (hpay : ∀ s e, I s → P s e → (out s e).getD 0 + V (step s e) = V s + gain e)
    {s : σ} {es : List ε} (hs : I s) (hes : Along step P s es) :
    (outputs step out s es).sum + V (run step s es) = V s + (es.map gain).sum := by
  induction es generalizing s with
  | nil => rw [List.map_nil, List.sum_nil, add_zero]; exact zero_add _
  | cons e es ih =>
    have hhead : (out s e).toList.sum = (out s e).getD 0 := by
      cases out s e with
      | none => rfl
      | some y => exact List.sum_singleton
    rw [outputs, List.sum_append, run_cons, add_assoc, ih (hstep s e hs hes.1) hes.2, hhead,
      ← add_assoc, hpay s e hs hes.1, List.map_cons, List.sum_cons, add_assoc]

/-! ## Simulation -/

section Simulation

variable {τ ω' : Type*} {step' : τ → ε → τ} {R : σ → τ → Prop}
  {P : σ → ε → Prop}

/-- A relation that every admissible common event keeps holds after every
common run. -/
theorem run_simulation
    (hstep : ∀ s t e, R s t → P s e → R (step s e) (step' t e))
    {s : σ} {t : τ} {es : List ε} (hst : R s t) (hes : Along step P s es) :
    R (run step s es) (run step' t es) := by
  induction es generalizing s t with
  | nil => exact hst
  | cons e es ih => exact ih (hstep s t e hst hes.1) hes.2

/-- Machines in such a relation return the same. -/
theorem outputs_simulation {out : σ → ε → Option ω} {out' : τ → ε → Option ω}
    (hstep : ∀ s t e, R s t → P s e → R (step s e) (step' t e))
    (hout : ∀ s t e, R s t → P s e → out s e = out' t e)
    {s : σ} {t : τ} {es : List ε} (hst : R s t) (hes : Along step P s es) :
    outputs step out s es = outputs step' out' t es := by
  induction es generalizing s t with
  | nil => rfl
  | cons e es ih =>
    rw [outputs, outputs, hout s t e hst hes.1,
      ih (hstep s t e hst hes.1) hes.2]

/-- If only a step with `Q` lets the two machines look alike, and keeps the
relation, a run through which they look alike has `Q` all along. -/
theorem along_of_alike {Q : σ → ε → Prop} (Alike : σ → τ → Prop)
    {out : σ → ε → Option ω} {out' : τ → ε → Option ω}
    (hstep : ∀ s t e, R s t → P s e → Q s e → R (step s e) (step' t e))
    (hshow : ∀ s t e, R s t → P s e → Alike (step s e) (step' t e) →
      out s e = out' t e → Q s e)
    {s : σ} {t : τ} {es : List ε} (hst : R s t) (hes : Along step P s es)
    (halike : ∀ pre, pre <+: es → Alike (run step s pre) (run step' t pre) ∧
      outputs step out s pre = outputs step' out' t pre) :
    Along step Q s es := by
  induction es generalizing s t with
  | nil => trivial
  | cons e es ih =>
    obtain ⟨hone, houts⟩ := halike [e] (by simp)
    have hout : out s e = out' t e := by
      have hhead := congrArg List.head? houts
      simpa [outputs] using hhead
    have hq := hshow s t e hst hes.1 hone hout
    refine ⟨hq, ih (hstep s t e hst hes.1 hq) hes.2 ?_⟩
    intro pre hpre
    -- the first outputs are equal, so the rest are
    obtain ⟨hrun, hrest⟩ := halike (e :: pre) (List.cons_prefix_cons.mpr ⟨rfl, hpre⟩)
    rw [outputs, outputs, hout] at hrest
    exact ⟨hrun, List.append_cancel_left hrest⟩

end Simulation

/-! ## Ordered outputs -/

theorem forall_mem_outputs {Q : ω → Prop} {out : σ → ε → Option ω} {s : σ} {es : List ε}
    (h : Along step (fun s e => ∀ x, out s e = some x → Q x) s es) :
    ∀ x ∈ outputs step out s es, Q x := by
  induction es generalizing s with
  | nil => exact fun _ hx => absurd hx List.not_mem_nil
  | cons e es ih =>
    intro x hx
    rw [outputs, List.mem_append, Option.mem_toList] at hx
    rcases hx with hx | hx
    · exact h.1 x hx
    · exact ih h.2 x hx

/-- If the state records the last output, the record and the outputs are in order
exactly when every output lies beyond the record it finds. -/
theorem pairwise_cons_outputs_iff {out : σ → ε → Option ω} {lt : ω → ω → Prop}
    [IsTrans ω lt] {record : σ → ω}
    (hrecord : ∀ s e, record (step s e) = (out s e).getD (record s))
    {s : σ} {es : List ε} :
    (record s :: outputs step out s es).Pairwise lt ↔
      Along step (fun s e => ∀ x, out s e = some x → lt (record s) x) s es := by
  induction es generalizing s with
  | nil => exact iff_of_true (List.pairwise_singleton lt _) trivial
  | cons e es ih =>
    rw [along_cons, ← ih, hrecord, outputs]
    cases h : out s e with
    | none =>
      have hnone : ∀ x, (none : Option ω) = some x → lt (record s) x := nofun
      exact (and_iff_right hnone).symm
    | some y =>
      have hsome : (∀ x, some y = some x → lt (record s) x) ↔ lt (record s) y := by
        constructor
        · exact fun h => h y rfl
        · rintro h x ⟨⟩
          exact h
      rw [hsome]
      exact List.pairwise_cons_cons_iff_of_trans

/-- If every output lies beyond what the state has recorded, and the record
only grows, the outputs are in order. -/
theorem pairwise_outputs {I : σ → Prop} {P : σ → ε → Prop}
    {out : σ → ε → Option ω} {lt : ω → ω → Prop} {beyond : σ → ω → Prop}
    (hstep : ∀ s e, I s → P s e → I (step s e))
    (hrecord : ∀ s e x y, I s → P s e → out s e = some x →
      beyond (step s e) y → lt x y)
    (hout : ∀ s e x, I s → P s e → out s e = some x → beyond s x)
    (hgrow : ∀ s e x, I s → P s e → beyond (step s e) x → beyond s x)
    {s : σ} {es : List ε} (hs : I s) (hes : Along step P s es) :
    (outputs step out s es).Pairwise lt ∧
      ∀ x ∈ outputs step out s es, beyond s x := by
  induction es generalizing s with
  | nil => exact ⟨List.Pairwise.nil, fun _ h => absurd h List.not_mem_nil⟩
  | cons e es ih =>
    obtain ⟨hpair, hbeyond⟩ := ih (hstep s e hs hes.1) hes.2
    rw [outputs]
    cases h : out s e with
    | none =>
      exact ⟨hpair, fun x hx => hgrow s e x hs hes.1 (hbeyond x hx)⟩
    | some y =>
      refine ⟨List.Pairwise.cons ?_ hpair, ?_⟩
      · exact fun x hx => hrecord s e y x hs hes.1 h (hbeyond x hx)
      · intro x hx
        rcases List.mem_cons.mp hx with rfl | hx
        · exact hout s e x hs hes.1 h
        · exact hgrow s e x hs hes.1 (hbeyond x hx)

/-! ## Notes on a run

An observer follows a run and keeps a note, which it updates at every event from the state the
event finds. The machine does not see the note (`along_watch`), so a property of the past that
the state does not hold can be related to the state as an invariant.
-/

section Observer

/-- The machine with its observer. -/
def watch {τ : Type*} (step : σ → ε → σ) (obs : τ → σ → ε → τ) (p : σ × τ) (e : ε) : σ × τ :=
  (step p.1 e, obs p.2 p.1 e)

/-- The note after a list of events. -/
def observed {τ : Type*} (step : σ → ε → σ) (obs : τ → σ → ε → τ) (s : σ) (t : τ)
    (es : List ε) : τ :=
  (run (watch step obs) (s, t) es).2

variable {τ : Type*} {obs : τ → σ → ε → τ}

theorem run_watch (s : σ) (t : τ) (es : List ε) :
    run (watch step obs) (s, t) es = (run step s es, observed step obs s t es) := by
  have hfst : (run (watch step obs) (s, t) es).1 = run step s es := by
    induction es generalizing s t with
    | nil => rfl
    | cons e es ih => exact ih (step s e) (obs t s e)
  exact Prod.ext hfst rfl

theorem along_watch {P : σ → ε → Prop} {s : σ} {t : τ} {es : List ε} :
    Along (watch step obs) (fun p e => P p.1 e) (s, t) es ↔ Along step P s es := by
  induction es generalizing s t with
  | nil => exact Iff.rfl
  | cons e es ih => exact and_congr_right fun _ => ih

/-- What every step preserves of the state and the note holds after every run. -/
theorem observed_invariant {I : σ → τ → Prop} {P : σ → ε → Prop}
    (hstep : ∀ s t e, I s t → P s e → I (step s e) (obs t s e)) {s : σ} {t : τ} {es : List ε}
    (hs : I s t) (hes : Along step P s es) :
    I (run step s es) (observed step obs s t es) := by
  have hwatch : ∀ (p : σ × τ) e, I p.1 p.2 → P p.1 e →
      I (watch step obs p e).1 (watch step obs p e).2 :=
    fun p e => hstep p.1 p.2 e
  have hrun := run_invariant (I := fun p => I p.1 p.2) hwatch hs (along_watch.mpr hes)
  rwa [run_watch] at hrun

/-- An observer that writes down the outputs. -/
theorem observed_outputs (out : σ → ε → Option ω) (s : σ) (l : List ω) (es : List ε) :
    observed step (fun l s e => l ++ (out s e).toList) s l es = l ++ outputs step out s es := by
  induction es generalizing s l with
  | nil => exact (List.append_nil l).symm
  | cons e es ih =>
    rw [outputs, ← List.append_assoc]
    exact ih (step s e) _

/-- What every step preserves of the state and the outputs so far. -/
theorem outputs_invariant {I : σ → List ω → Prop} {P : σ → ε → Prop}
    {out : σ → ε → Option ω}
    (hstep : ∀ s l e, I s l → P s e → I (step s e) (l ++ (out s e).toList))
    {s : σ} {es : List ε} (hs : I s []) (hes : Along step P s es) :
    I (run step s es) (outputs step out s es) := by
  have hnote := observed_invariant (I := I) hstep hs hes
  rwa [observed_outputs, List.nil_append] at hnote

end Observer

end Nanokernel.Run

/-! ## Loops

A turn of a loop goes on with a state, ends the loop with a result, or has no outcome where it
does what it may not. An invariant that every turn keeps, and a measure that every turn makes
smaller, show that the loop ends and no turn goes wrong.
-/

namespace Nanokernel.Loop

variable {σ ω : Type*}

/-- What a turn comes to. -/
inductive Turn (σ ω : Type*)
  | again (s : σ)
  | done (w : ω)

/-- The loop within so many turns. -/
def loop (turn : σ → Option (Turn σ ω)) : ℕ → σ → Option ω
  | 0, _ => none
  | turns + 1, s =>
    match turn s with
    | none => none
    | some (.again s') => loop turn turns s'
    | some (.done w) => some w

/-- From a state of the invariant a turn goes on to one with a smaller measure, or ends the
loop with a result that meets the postcondition. -/
def Proceeds (turn : σ → Option (Turn σ ω)) (inv : σ → Prop) (measure : σ → ℕ)
    (post : ω → Prop) : Prop :=
  ∀ s, inv s → (∃ s', turn s = some (.again s') ∧ inv s' ∧ measure s' < measure s) ∨
    ∃ w, turn s = some (.done w) ∧ post w

theorem loop_of_proceeds {turn : σ → Option (Turn σ ω)} {inv : σ → Prop} {measure : σ → ℕ}
    {post : ω → Prop} (hturn : Proceeds turn inv measure post) {turns : ℕ} {s : σ}
    (hs : inv s) (hturns : measure s < turns) : ∃ w, loop turn turns s = some w ∧ post w := by
  induction turns generalizing s with
  | zero => exact absurd hturns (Nat.not_lt_zero _)
  | succ turns ih =>
    unfold loop
    rcases hturn s hs with ⟨s', hagain, hs', hless⟩ | ⟨w, hdone, hw⟩
    · rw [hagain]
      exact ih hs' (by omega)
    · rw [hdone]
      exact ⟨w, rfl, hw⟩

end Nanokernel.Loop
