import Mathlib.Data.Fintype.Card
import Mathlib.Data.List.Nodup
import Mathlib.Tactic.Common

/-!
# Locks that are handed on

A lock is the queue of those who claim it. The first owns it; when it lets go, the lock goes
to the next. Only the owner can release it.
-/

namespace Nanokernel

/-- The claimants in order, the owner first. -/
structure FifoLock (α : Type*) where
  claims : List α
  nodup : claims.Nodup

namespace FifoLock

variable {α : Type*}

def free : FifoLock α := ⟨[], List.nodup_nil⟩

def owner (l : FifoLock α) : Option α := l.claims.head?

/-- The owner lets go. -/
def release (l : FifoLock α) : FifoLock α := ⟨l.claims.tail, l.nodup.tail⟩

theorem mem_of_owner {l : FifoLock α} {p : α} (h : l.owner = some p) : p ∈ l.claims :=
  List.mem_of_mem_head? h

theorem claims_of_owner {l : FifoLock α} {p : α} (h : l.owner = some p) :
    l.claims = p :: l.release.claims := by
  cases hc : l.claims with
  | nil => simp [owner, hc] at h
  | cons q qs =>
    have hq : q = p := by simpa [owner, hc] using h
    simp [release, hc, hq]

/-- Whoever releases the lock gives up its claim, and nobody else does. -/
theorem mem_release {l : FifoLock α} {p : α} (h : l.owner = some p) (q : α) :
    q ∈ l.release.claims ↔ q ∈ l.claims ∧ q ≠ p := by
  have hclaims := claims_of_owner h
  have hnodup := l.nodup
  rw [hclaims, List.nodup_cons] at hnodup
  rw [hclaims, List.mem_cons]
  constructor
  · rintro hq
    exact ⟨Or.inr hq, fun hp => hnodup.1 (hp ▸ hq)⟩
  · rintro ⟨rfl | hq, hp⟩
    · exact absurd rfl hp
    · exact hq

theorem length_le_card [Fintype α] (l : FifoLock α) : l.claims.length ≤ Fintype.card α :=
  l.nodup.length_le_card

variable [DecidableEq α]

/-- A claim is made once. -/
def obtain (l : FifoLock α) (p : α) : FifoLock α :=
  if h : p ∈ l.claims then l
  else ⟨l.claims ++ [p], List.nodup_append.mpr ⟨l.nodup, List.nodup_singleton p, by
    rintro a ha b hb rfl
    exact h (List.mem_singleton.mp hb ▸ ha)⟩⟩

@[simp] theorem obtain_of_mem {l : FifoLock α} {p : α} (h : p ∈ l.claims) : l.obtain p = l :=
  dif_pos h

theorem claims_obtain {l : FifoLock α} {p : α} (h : p ∉ l.claims) :
    (l.obtain p).claims = l.claims ++ [p] := by
  rw [obtain, dif_neg h]

theorem mem_obtain (l : FifoLock α) (p q : α) :
    q ∈ (l.obtain p).claims ↔ q ∈ l.claims ∨ q = p := by
  by_cases h : p ∈ l.claims
  · rw [obtain_of_mem h]
    constructor
    · exact Or.inl
    · rintro (hq | rfl)
      · exact hq
      · exact h
  · rw [claims_obtain h, List.mem_append, List.mem_singleton]

/-- A claim does not move the owner. -/
theorem owner_obtain {l : FifoLock α} {q : α} (h : q ∈ l.claims) (p : α) :
    (l.obtain p).owner = l.owner := by
  by_cases hp : p ∈ l.claims
  · rw [obtain_of_mem hp]
  · rw [owner, claims_obtain hp, owner, List.head?_append_of_ne_nil]
    exact List.ne_nil_of_mem h

/-! ## How long a claimant waits -/

/-- Whose slot brings `p` closer to the lock: its own until it has a claim, then the
owner's. -/
def helper (l : FifoLock α) (p : α) : α := if p ∈ l.claims then l.owner.getD p else p

theorem helper_of_not_mem {l : FifoLock α} {p : α} (h : p ∉ l.claims) : l.helper p = p :=
  if_neg h

theorem helper_of_mem {l : FifoLock α} {p : α} (h : p ∈ l.claims) :
    l.owner = some (l.helper p) := by
  rw [helper, if_pos h]
  cases hc : l.owner with
  | none => exact absurd (List.head?_eq_none_iff.mp hc ▸ h) List.not_mem_nil
  | some q => rfl

theorem helper_obtain_other {l : FifoLock α} {p q : α} (h : p ≠ q) :
    (l.obtain q).helper p = l.helper p := by
  have hmem : p ∈ (l.obtain q).claims ↔ p ∈ l.claims := by
    rw [mem_obtain]
    exact or_iff_left h
  unfold helper
  simp only [hmem]
  split
  · next hp => rw [owner_obtain hp]
  · rfl

section Count

variable [Fintype α]

/-- How many are served before `p`: those ahead of it, or all if it has no claim yet. -/
def ahead (l : FifoLock α) (p : α) : ℕ :=
  if p ∈ l.claims then l.claims.idxOf p else Fintype.card α

theorem ahead_le_card (l : FifoLock α) (p : α) : l.ahead p ≤ Fintype.card α := by
  unfold ahead
  split
  · exact List.idxOf_le_length.trans l.length_le_card
  · exact le_rfl

theorem ahead_obtain_self {l : FifoLock α} {p : α} (h : p ∉ l.claims) :
    (l.obtain p).ahead p < l.ahead p := by
  have hmem : p ∈ (l.obtain p).claims := (mem_obtain l p p).mpr (Or.inr rfl)
  rw [ahead, if_pos hmem, ahead, if_neg h]
  exact (List.idxOf_lt_length_of_mem hmem).trans_le (length_le_card _)

theorem ahead_obtain_other {l : FifoLock α} {p q : α} (h : p ≠ q) :
    (l.obtain q).ahead p = l.ahead p := by
  by_cases hq : q ∈ l.claims
  · rw [obtain_of_mem hq]
  · have hmem : p ∈ (l.obtain q).claims ↔ p ∈ l.claims := by
      rw [mem_obtain]
      exact or_iff_left h
    unfold ahead
    simp only [hmem]
    split
    · next hp => rw [claims_obtain hq, List.idxOf_append_of_mem hp]
    · rfl

/-- A claimant comes one closer with every release of another. -/
theorem ahead_release {l : FifoLock α} {p q : α} (hq : l.owner = some q) (hp : p ∈ l.claims)
    (h : p ≠ q) : l.release.ahead p + 1 = l.ahead p := by
  have hmem : p ∈ l.release.claims := (mem_release hq p).mpr ⟨hp, h⟩
  rw [ahead, if_pos hmem, ahead, if_pos hp, claims_of_owner hq, List.idxOf_cons_ne _ h.symm]

theorem ahead_of_not_mem {l : FifoLock α} {p : α} (h : p ∉ l.claims) :
    l.ahead p = Fintype.card α := if_neg h

end Count

end FifoLock

end Nanokernel
