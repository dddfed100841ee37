import Nanokernel.Boards.Tpro
import Nanokernel.Foundation.Run

/-!
# The year search of the TPRO board

`clock_set` looks for the year of a system time with two loops, and the second has no bound
of its own: what keeps it in `yrtab` is that the first leaves less than a cycle, and that
the table adds up to one. Neither variable exceeds the system time, so no `long` wraps.
-/

namespace Nanokernel.Tpro

open LeapCycle Loop

/-! ## The loops, turn by turn -/

/-- `while (year >= DAY_CYCLE)`, on `year` and `sec`. -/
def whileTurn : ℤ × ℤ → Option (Turn (ℤ × ℤ) (ℤ × ℤ))
  | (year, sec) =>
    if year ≥ dayCycle then some (.again (year - dayCycle, sec + dayCycle))
    else some (.done (year, sec))

/-- `for (i = 0; year >= yrtab[i]; i++)`, on `i`, `year` and `sec`; to read past the table
has no outcome. -/
def forTurn : ℕ × ℤ × ℤ → Option (Turn (ℕ × ℤ × ℤ) ℤ)
  | (i, year, sec) =>
    match yrtab[i]? with
    | none => none
    | some yr =>
      if year ≥ yr then some (.again (i + 1, year - yr, sec + yr)) else some (.done sec)

/-- `clock_set()` within so many turns of each loop. -/
def clockSetTurns (turns : ℕ) (tvSec : ℤ) : Option ℤ :=
  match loop whileTurn turns (tvSec, 0) with
  | none => none
  | some (year, sec) => loop forTurn turns (0, year, sec)

/-! ## The search -/

section Search

variable {tvSec : ℤ}

/-- Whole cycles of four years, and what is left of the time. -/
structure Cycles (tvSec : ℤ) (p : ℤ × ℤ) : Prop where
  year_nonneg : 0 ≤ p.1
  sum : p.1 + p.2 = tvSec
  cycles : ∃ q, p.2 = yearStart (4 * q)

/-- The start of a year of the cycle that the time is in, and what is left of it. -/
structure Searching (tvSec : ℤ) (p : ℕ × ℤ × ℤ) : Prop where
  year_nonneg : 0 ≤ p.2.1
  sum : p.2.1 + p.2.2 = tvSec
  inTable : p.1 < 4
  cycle : ∃ q, p.2.2 = yearStart (4 * q + p.1) ∧ tvSec < yearStart (4 * q + 4)

theorem yearStart_nextCycle (q : ℕ) :
    yearStart (4 * (q + 1)) = yearStart (4 * q) + dayCycle := by
  unfold yearStart dayCycle
  omega

theorem yrtab_eq {i : ℕ} (hi : i < 4) : yrtab[i]? = some (86400 * daysIn i : ℤ) := by
  match i, hi with
  | 0, _ => rfl
  | 1, _ => rfl
  | 2, _ => rfl
  | 3, _ => rfl

/-- The table has the years of every cycle. -/
theorem yearStart_nextYear (q i : ℕ) :
    yearStart (4 * q + (i + 1)) = yearStart (4 * q + i) + 86400 * daysIn i := by
  rw [← Nat.add_assoc, yearStart_succ]
  unfold daysIn
  rw [Nat.mul_add_mod]

theorem whileTurn_proceeds : Proceeds whileTurn (Cycles tvSec) (fun p => p.1.toNat)
    fun p => Cycles tvSec p ∧ p.1 < dayCycle := by
  rintro ⟨year, sec⟩ h
  obtain ⟨hyear, hsum, q, hq⟩ := h
  unfold whileTurn
  by_cases hcycle : year ≥ dayCycle
  · refine Or.inl ⟨_, if_pos hcycle, ⟨sub_nonneg.mpr hcycle, ?_, q + 1, ?_⟩, ?_⟩
    · dsimp only at *
      omega
    · rw [yearStart_nextCycle, ← hq]
    · unfold dayCycle at *
      dsimp only at *
      omega
  · exact Or.inr ⟨_, if_neg hcycle, ⟨hyear, hsum, q, hq⟩, not_le.mp hcycle⟩

/-- A turn goes to the next year of the cycle, or the time is in the year. -/
theorem forTurn_proceeds : Proceeds forTurn (Searching tvSec) (fun p => 4 - p.1)
    fun sec => ∃ n, InYear n tvSec ∧ sec = yearStart n := by
  rintro ⟨i, year, sec⟩ h
  obtain ⟨hyear, hsum, hi, q, hq, hcycle⟩ := h
  have hnext := yearStart_nextYear q i
  unfold forTurn
  dsimp only at *
  rw [yrtab_eq hi]
  dsimp only
  by_cases hyr : year ≥ 86400 * daysIn i
  · have hlt : yearStart (4 * q + (i + 1)) < yearStart (4 * q + 4) := by omega
    have hin := yearStart_lt_iff.mp hlt
    have hsum' : year - 86400 * daysIn i + (sec + 86400 * daysIn i) = tvSec := by omega
    refine Or.inl ⟨_, if_pos hyr, ⟨sub_nonneg.mpr hyr, hsum', by dsimp only; omega, q, ?_,
      hcycle⟩, by dsimp only; omega⟩
    rw [hnext, ← hq]
  · refine Or.inr ⟨_, if_neg hyr, 4 * q + i, ⟨by omega, ?_⟩, hq⟩
    rw [Nat.add_assoc]
    omega

/-- The search ends, in the table, at the start of the year. -/
theorem clockSetTurns_eq (h : 0 ≤ tvSec) {turns : ℕ} (ht : tvSec.toNat + 4 < turns) :
    clockSetTurns turns tvSec = some (clockSet tvSec) := by
  have hstart : Cycles tvSec (tvSec, 0) := ⟨h, add_zero _, 0, rfl⟩
  obtain ⟨⟨year, sec⟩, hwhile, ⟨hyear, hsum, q, hq⟩, hlt⟩ :=
    loop_of_proceeds whileTurn_proceeds hstart (show tvSec.toNat < turns by omega)
  have hnext := yearStart_nextCycle q
  dsimp only at *
  have hsearch : Searching tvSec (0, year, sec) :=
    ⟨hyear, hsum, Nat.zero_lt_succ 3, q, hq, by rw [mul_add, mul_one] at hnext; omega⟩
  obtain ⟨w, hfor, n, hn, hw⟩ :=
    loop_of_proceeds forTurn_proceeds hsearch (show 4 < turns by omega)
  have hset : clockSet tvSec = yearStart n := by
    rw [clockSet_eq_iff, max_eq_left h]
    exact hn
  unfold clockSetTurns
  rw [hwhile, hset, ← hw]
  exact hfor

example : clockSetTurns 4 126230399 = some 94694400 := by decide

end Search

/-! ## The calendar -/

def leapYear (y : ℕ) : Prop := 4 ∣ y ∧ (¬ 100 ∣ y ∨ 400 ∣ y)

instance (y : ℕ) : Decidable (leapYear y) := inferInstanceAs (Decidable (_ ∧ _))

/-- The Unix time of the 1 January 00:00 UTC of the year `1970 + n`. -/
def january1 : ℕ → ℤ
  | 0 => 0
  | n + 1 => january1 n + day * if leapYear (1970 + n) then 366 else 365

/-- Every fourth year is leap until 2100. -/
theorem january1_eq {n : ℕ} (h : n ≤ 130) : january1 n = yearStart n := by
  induction n with
  | zero => rfl
  | succ n ih =>
    have hleap : leapYear (1970 + n) ↔ n % 4 = 2 := by
      unfold leapYear
      omega
    rw [january1, ih (by omega), yearStart_succ]
    unfold day daysIn
    simp only [hleap]
    split_ifs <;> rfl

/-- The search ends without a read outside of the table, whatever the time. The year offset
is the last start of a year that is not after the time, and until 2099 the new year. -/
theorem clockSet_finds_year (tvSec : ℤ) (h : 0 ≤ tvSec) :
    (∃ least, ∀ turns, least ≤ turns → clockSetTurns turns tvSec = some (clockSet tvSec)) ∧
    (∃ n, clockSet tvSec = yearStart n) ∧ clockSet tvSec ≤ tvSec ∧
    (∀ n, yearStart n ≤ tvSec → yearStart n ≤ clockSet tvSec) ∧
    ∀ n, n < 130 → january1 n ≤ tvSec → tvSec < january1 (n + 1) →
      clockSet tvSec = january1 n := by
  obtain ⟨n, hn, hset⟩ := exists_inYear_clockSet h
  refine ⟨⟨tvSec.toNat + 5, fun turns hturns => clockSetTurns_eq h (by omega)⟩,
    ⟨n, hset⟩, hset ▸ hn.1, fun m hm => ?_, fun m hm hstart hend => ?_⟩
  · have hlt : m < n + 1 := yearStart_lt_iff.mp (lt_of_le_of_lt hm hn.2)
    rw [hset, yearStart_le_iff]
    omega
  · rw [january1_eq hm.le] at hstart
    rw [january1_eq hm] at hend
    have hin : InYear m tvSec := ⟨hstart, hend⟩
    rw [hset, january1_eq hm.le, hn.unique hin]

/-- The last second of 2000. -/
theorem clockSet_finds_year_2000 :
    clockSet 978307199 = january1 30 ∧ clockSet 978307199 ≤ 978307199 := by
  have hyear := clockSet_finds_year 978307199 (by decide)
  exact ⟨hyear.2.2.2.2 30 (by decide) (by decide) (by decide), hyear.2.2.1⟩

end Nanokernel.Tpro
