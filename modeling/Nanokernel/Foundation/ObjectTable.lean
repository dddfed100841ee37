import Mathlib.Logic.Function.Basic
import Mathlib.Tactic.Common

/-!
# Tables of objects

An operating system keeps objects under the ids it hands out. 0 is no id, and an
id names one object for good: once its object is deleted it stays unused.
-/

namespace Nanokernel

/-- The objects that exist, by id. `next` is the id handed out next. -/
structure ObjectTable (α : Type*) where
  next : ℕ
  entry : ℕ → Option α
  next_pos : 0 < next
  entry_zero : entry 0 = none
  entry_of_le : ∀ id, next ≤ id → entry id = none

namespace ObjectTable

variable {α : Type*}

def empty : ObjectTable α where
  next := 1
  entry _ := none
  next_pos := Nat.one_pos
  entry_zero := rfl
  entry_of_le _ _ := rfl

/-- A new object, and its id. -/
def create (t : ObjectTable α) (a : α) : ObjectTable α × ℕ :=
  ({ next := t.next + 1
     entry := Function.update t.entry t.next (some a)
     next_pos := Nat.succ_pos t.next
     entry_zero := by
      rw [Function.update_of_ne (Nat.ne_of_lt t.next_pos)]
      exact t.entry_zero
     entry_of_le := by
      intro id hid
      rw [Function.update_of_ne (Nat.ne_of_gt hid)]
      exact t.entry_of_le id (Nat.le_of_succ_le hid) }, t.next)

/-- The objects change, each on its own; none comes into being. -/
def update (t : ObjectTable α) (f : ℕ → α → Option α) : ObjectTable α where
  next := t.next
  entry id := (t.entry id).bind (f id)
  next_pos := t.next_pos
  entry_zero := by rw [t.entry_zero]; rfl
  entry_of_le id hid := by rw [t.entry_of_le id hid]; rfl

def delete (t : ObjectTable α) (id : ℕ) : ObjectTable α :=
  t.update fun i a => if i = id then none else some a

/-- The object of an id, if there is one, becomes `a`. -/
def set (t : ObjectTable α) (id : ℕ) (a : α) : ObjectTable α :=
  t.update fun i b => if i = id then some a else some b

def map (t : ObjectTable α) (f : α → α) : ObjectTable α :=
  t.update fun _ a => some (f a)

/-- The id was handed out, and its object deleted. -/
def Deleted (t : ObjectTable α) (id : ℕ) : Prop :=
  id ≠ 0 ∧ id < t.next ∧ t.entry id = none

variable {t : ObjectTable α} {id i : ℕ} {a : α}

theorem lt_of_entry (h : t.entry id = some a) : id < t.next := by
  by_contra hle
  rw [t.entry_of_le id (Nat.le_of_not_lt hle)] at h
  cases h

theorem ne_zero_of_entry (h : t.entry id = some a) : id ≠ 0 := by
  rintro rfl
  rw [t.entry_zero] at h
  cases h

/-! ## The entries after each operation -/

@[simp] theorem create_snd (t : ObjectTable α) (a : α) : (t.create a).2 = t.next := rfl

@[simp] theorem entry_create (t : ObjectTable α) (a : α) (i : ℕ) :
    (t.create a).1.entry i = if i = t.next then some a else t.entry i := by
  show Function.update t.entry t.next (some a) i = _
  rw [Function.update_apply]

@[simp] theorem entry_delete (t : ObjectTable α) (id i : ℕ) :
    (t.delete id).entry i = if i = id then none else t.entry i := by
  show (t.entry i).bind _ = _
  cases t.entry i <;> simp

@[simp] theorem entry_set (t : ObjectTable α) (id i : ℕ) (a : α) :
    (t.set id a).entry i =
      if i = id then (t.entry i).map (fun _ => a) else t.entry i := by
  show (t.entry i).bind _ = _
  cases t.entry i with
  | none => simp
  | some b => split_ifs with h <;> simp [h]

@[simp] theorem entry_map (t : ObjectTable α) (f : α → α) (i : ℕ) :
    (t.map f).entry i = (t.entry i).map f := by
  show (t.entry i).bind _ = _
  cases t.entry i <;> rfl

/-- An object that was there is not the new one. -/
theorem ne_next_of_entry (h : t.entry id = some a) : id ≠ t.next :=
  Nat.ne_of_lt (lt_of_entry h)

/-! ## Deleted ids stay unused -/

theorem Deleted.create (h : t.Deleted id) (a : α) : (t.create a).1.Deleted id := by
  refine ⟨h.1, Nat.lt_succ_of_lt h.2.1, ?_⟩
  rw [entry_create, if_neg (Nat.ne_of_lt h.2.1)]
  exact h.2.2

theorem Deleted.update (h : t.Deleted id) (f : ℕ → α → Option α) :
    (t.update f).Deleted id := by
  refine ⟨h.1, h.2.1, ?_⟩
  show (t.entry id).bind (f id) = none
  rw [h.2.2]
  rfl

end ObjectTable

end Nanokernel
