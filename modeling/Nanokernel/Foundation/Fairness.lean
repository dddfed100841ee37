import Mathlib.Data.Nat.Count
import Mathlib.Logic.Function.Iterate
import Mathlib.Order.WellFounded
import Nanokernel.Foundation.Run

/-!
# Endless runs

The states of a machine that is fed an infinite sequence of events. What some of the events
iterate and the others leave alone depends on how many there were of the former
(`trace_iterate`). If every slot of an endless schedule is given to a party, or to none of
them, and a slot of a party that has nothing to do leaves the state alone, then a fair schedule
reaches a goal if there is always one party whose slots come closer to it, and no slot of
another loses ground (`Fairness.eventually_of_advances`).
-/

namespace Nanokernel.Run

variable {σ ε α : Type*} (step : σ → ε → σ)

/-- The state that each event of the sequence finds. -/
def trace (s : σ) (es : ℕ → ε) : ℕ → σ
  | 0 => s
  | n + 1 => step (trace s es n) (es n)

variable {step} {s : σ} {es : ℕ → ε}

/-- What every step preserves holds in every state. -/
theorem trace_invariant {I : σ → Prop} {P : σ → ε → Prop}
    (hstep : ∀ s e, I s → P s e → I (step s e)) (hs : I s)
    (hes : ∀ n, P (trace step s es n) (es n)) (n : ℕ) : I (trace step s es n) := by
  induction n with
  | zero => exact hs
  | succ n ih => exact hstep _ _ ih (hes n)

/-- From a state on, what every later step preserves holds in every later state. -/
theorem trace_invariant_from {I : σ → Prop} {P : σ → ε → Prop} {n : ℕ}
    (hstep : ∀ s e, I s → P s e → I (step s e)) (hs : I (trace step s es n))
    (hes : ∀ m, P (trace step s es m) (es m)) {m : ℕ} (hm : n ≤ m) :
    I (trace step s es m) := by
  induction m, hm using Nat.le_induction with
  | base => exact hs
  | succ m _ ih => exact hstep _ _ ih (hes m)

/-- As many iterations as there were events of the kind. -/
theorem trace_iterate {V : σ → α} {f : α → α} {p : ε → Prop} [DecidablePred p]
    (hp : ∀ n, p (es n) → V (trace step s es (n + 1)) = f (V (trace step s es n)))
    (hnot : ∀ n, ¬ p (es n) → V (trace step s es (n + 1)) = V (trace step s es n)) (n : ℕ) :
    V (trace step s es n) = f^[Nat.count (fun i => p (es i)) n] (V s) := by
  induction n with
  | zero => rfl
  | succ n ih =>
    rw [Nat.count_succ]
    by_cases h : p (es n)
    · rw [if_pos h, Function.iterate_succ_apply', hp n h, ih]
    · rw [if_neg h, hnot n h, ih, Nat.add_zero]

/-- Infinitely many events are more than any number. -/
theorem exists_le_count {p : ℕ → Prop} [DecidablePred p] (h : ∀ N, ∃ n ≥ N, p n) (m : ℕ) :
    ∃ N, m ≤ Nat.count p N := by
  induction m with
  | zero => exact ⟨0, Nat.zero_le _⟩
  | succ m ih =>
    obtain ⟨N, hN⟩ := ih
    obtain ⟨n, hn, hp⟩ := h N
    refine ⟨n + 1, ?_⟩
    rw [Nat.count_succ, if_pos hp]
    exact Nat.succ_le_succ (hN.trans (Nat.count_monotone p hn))

end Nanokernel.Run

/-! ## Fair schedules -/

namespace Nanokernel.Fairness

open Run

variable {σ ε ι : Type*} {step : σ → ε → σ}

/-- Every party gets slots again and again. -/
def Fair (party : ε → Option ι) (slots : ℕ → ε) : Prop :=
  ∀ p n, ∃ m, n ≤ m ∧ party (slots m) = some p

section Ranking

variable {α : Type*} [Preorder α] {party : ε → Option ι} {I G : σ → Prop}
  {rank : σ → α} {helpful : σ → ι}

/-- A slot reaches the goal, comes closer to it, or is of another party than the helpful one
and leaves things as they are. -/
def Advances (step : σ → ε → σ) (party : ε → Option ι) (G : σ → Prop) (rank : σ → α)
    (helpful : σ → ι) (s : σ) (e : ε) : Prop :=
  G (step s e) ∨ rank (step s e) < rank s ∨
    rank (step s e) = rank s ∧ helpful (step s e) = helpful s ∧ party e ≠ some (helpful s)

theorem trace_keeps (hinv : ∀ s e, I s → I (step s e)) {s : σ} (hs : I s) (slots : ℕ → ε)
    (n : ℕ) : I (trace step s slots n) :=
  trace_invariant (P := fun _ _ => True) (fun s e h _ => hinv s e h) hs (fun _ => trivial) n

/-- Until the helpful party's slot comes, the schedule reaches the goal, comes closer to it
or finds the same party helpful; that slot comes closer. -/
theorem exists_closer (hinv : ∀ s e, I s → I (step s e))
    (hadv : ∀ s e, I s → ¬ G s → Advances step party G rank helpful s e)
    {slots : ℕ → ε} (hfair : Fair party slots) {s : σ} (hs : I s) {n : ℕ}
    (hn : ¬ G (trace step s slots n)) :
    ∃ m, n < m ∧ (G (trace step s slots m) ∨
      rank (trace step s slots m) < rank (trace step s slots n)) := by
  obtain ⟨m, hnm, hm⟩ := hfair (helpful (trace step s slots n)) n
  by_contra hnone
  push Not at hnone
  -- then nothing has changed when that slot comes
  have hsame : ∀ k, n ≤ k → k ≤ m →
      ¬ G (trace step s slots k) ∧
        rank (trace step s slots k) = rank (trace step s slots n) ∧
        helpful (trace step s slots k) = helpful (trace step s slots n) := by
    intro k hnk
    induction k, hnk using Nat.le_induction with
    | base => exact fun _ => ⟨hn, rfl, rfl⟩
    | succ k hnk ih =>
      intro hkm
      obtain ⟨hk, hrank, hhelp⟩ := ih (by omega)
      obtain ⟨hgoal, hless⟩ := hnone (k + 1) (by omega)
      have hk' := hadv _ (slots k) (trace_keeps hinv hs slots k) hk
      rcases hk' with hreach | hcloser | ⟨hrank', hhelp', -⟩
      · exact absurd hreach hgoal
      · exact absurd (hrank ▸ hcloser) hless
      · exact ⟨hgoal, hrank'.trans hrank, hhelp'.trans hhelp⟩
  obtain ⟨hgm, hrank, hhelp⟩ := hsame m hnm le_rfl
  obtain ⟨hgoal, hless⟩ := hnone (m + 1) (by omega)
  rcases hadv _ (slots m) (trace_keeps hinv hs slots m) hgm with hreach | hcloser | hstay
  · exact hgoal hreach
  · exact hless (hrank ▸ hcloser)
  · exact hstay.2.2 (hhelp ▸ hm)

/-- A goal that every slot of a helpful party brings closer is reached under every fair
schedule. -/
theorem eventually_of_advances [WellFoundedLT α] (hinv : ∀ s e, I s → I (step s e))
    (hadv : ∀ s e, I s → ¬ G s → Advances step party G rank helpful s e)
    {slots : ℕ → ε} (hfair : Fair party slots) {s : σ} (hs : I s) (n : ℕ) :
    ∃ m, n ≤ m ∧ G (trace step s slots m) := by
  induction hr : rank (trace step s slots n) using WellFoundedLT.induction generalizing n with
  | ind r ih =>
    subst hr
    by_cases hn : G (trace step s slots n)
    · exact ⟨n, le_rfl, hn⟩
    · obtain ⟨m, hnm, hm⟩ := exists_closer hinv hadv hfair hs hn
      rcases hm with hreach | hless
      · exact ⟨m, hnm.le, hreach⟩
      · obtain ⟨k, hmk, hk⟩ := ih _ hless m rfl
        exact ⟨k, hnm.le.trans hmk, hk⟩

end Ranking

end Nanokernel.Fairness
