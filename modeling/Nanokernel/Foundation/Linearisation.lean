import Nanokernel.Foundation.Run

/-!
# Calls that take time

A call to an object begins, is carried out in small steps and returns, and other things happen
in between. All that is seen of it from outside is a history: what was called, what it returned,
and what came of each event. A history is explained by an atomic object if every call can be
said to happen in one moment after it began and before it returns, and returns what it returns
there (`AtomicObject.Explains`). Whatever an implementation lets its small steps fall between,
it is enough to explain one step (`AtomicObject.explains_history`).
-/

namespace Nanokernel.Run

/-- What is seen from outside: a call begins, it returns, or an event has an outcome. -/
inductive Seen (κ ρ ι ω : Type*) where
  | call (c : κ)
  | ret (r : ρ)
  | event (i : ι) (o : ω)
deriving DecidableEq, Repr

/-- How far the call that runs has come. -/
inductive Phase (κ ρ : Type*) where
  | idle
  | begun (c : κ)
  | happened (r : ρ)
deriving DecidableEq, Repr

/-- An object whose calls and events take place in one step. -/
structure AtomicObject (τ κ ρ ι ω : Type*) where
  call : τ → κ → τ × ρ
  event : τ → ι → τ × ω

variable {σ ε τ κ ρ ι ω : Type*}

namespace AtomicObject

/-- The object goes from one state to another through a history. Each call in it happens once,
between its beginning and its return. -/
inductive Explains (obj : AtomicObject τ κ ρ ι ω) :
    τ → Phase κ ρ → List (Seen κ ρ ι ω) → τ → Phase κ ρ → Prop
  | nil {t p} : Explains obj t p [] t p
  | call {t c l t' p'} (h : Explains obj t (.begun c) l t' p') :
      Explains obj t .idle (.call c :: l) t' p'
  | happens {t c l t' p'} (h : Explains obj (obj.call t c).1 (.happened (obj.call t c).2) l t' p') :
      Explains obj t (.begun c) l t' p'
  | ret {t r l t' p'} (h : Explains obj t .idle l t' p') :
      Explains obj t (.happened r) (.ret r :: l) t' p'
  | event {t p i l t' p'} (h : Explains obj (obj.event t i).1 p l t' p') :
      Explains obj t p (.event i (obj.event t i).2 :: l) t' p'

variable {obj : AtomicObject τ κ ρ ι ω}

theorem Explains.append {t t' t'' : τ} {p p' p'' : Phase κ ρ} {l l' : List (Seen κ ρ ι ω)}
    (h : obj.Explains t p l t' p') (h' : obj.Explains t' p' l' t'' p'') :
    obj.Explains t p (l ++ l') t'' p'' := by
  induction h with
  | nil => exact h'
  | call _ ih => exact .call (ih h')
  | happens _ ih => exact .happens (ih h')
  | ret _ ih => exact .ret (ih h')
  | event _ ih => exact .event (ih h')

/-- A call that is over at once. -/
theorem Explains.at_once (t : τ) (c : κ) :
    obj.Explains t .idle [.call c, .ret (obj.call t c).2] (obj.call t c).1 .idle :=
  .call (.happens (.ret .nil))

end AtomicObject

/-- What is seen of a run. -/
def history (step : σ → ε → σ) (seen : σ → ε → List (Seen κ ρ ι ω)) :
    σ → List ε → List (Seen κ ρ ι ω)
  | _, [] => []
  | s, e :: es => seen s e ++ history step seen (step s e) es

/-- An implementation whose single steps the object explains is the object to all who see it. -/
theorem AtomicObject.explains_history {obj : AtomicObject τ κ ρ ι ω} {step : σ → ε → σ}
    {seen : σ → ε → List (Seen κ ρ ι ω)} {p : σ → Phase κ ρ} {P : σ → ε → Prop}
    {R : σ → τ → Prop}
    (hstep : ∀ s t e, R s t → P s e →
      ∃ t', obj.Explains t (p s) (seen s e) t' (p (step s e)) ∧ R (step s e) t')
    {s : σ} {t : τ} {es : List ε} (hst : R s t) (hes : Along step P s es) :
    ∃ t', obj.Explains t (p s) (history step seen s es) t' (p (run step s es)) ∧
      R (run step s es) t' := by
  induction es generalizing s t with
  | nil => exact ⟨t, .nil, hst⟩
  | cons e es ih =>
    obtain ⟨t', hone, ht'⟩ := hstep s t e hst hes.1
    obtain ⟨t'', hrest, ht''⟩ := ih ht' hes.2
    exact ⟨t'', hone.append hrest, ht''⟩

end Nanokernel.Run
