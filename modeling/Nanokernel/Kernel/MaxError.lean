import Nanokernel.Kernel.LeapSecond

/-!
# The maximum error

Every second adds half a millisecond to the maximum error, and only the daemon
takes it back. Without an answer from a server it grows until the `long` it is
kept in is full, and wraps (`errorGrows_iff`).
-/

namespace Nanokernel

open SignedWord Run

variable {F : Type} [LFp F]

namespace Clock

/-- The call sets the maximum error. -/
def SetsError : Event → Prop
  | .adjtime tp => has tp.modes modMaxerror = true
  | _ => False

/-- The maximum error is not negative, and no smaller unless it was set. -/
def ErrorGrows (cfg : Config) (c : Clock F) (e : Event) : Prop :=
  0 ≤ (step cfg c e).k.timeMaxerror ∧
    (¬ SetsError e → c.k.timeMaxerror ≤ (step cfg c e).k.timeMaxerror)

/-- The caller sets no negative error. -/
def PassesError (cfg : Config) (_ : Clock F) : Event → Prop
  | .adjtime tp => has tp.modes modMaxerror = true → 0 ≤ tp.maxerror ∧ cfg.Fits tp.maxerror
  | _ => True

/-- The second that rolls over still has room in the `long`. -/
def RoomToGrow (cfg : Config) (c : Clock F) (e : Event) : Prop :=
  Rollover cfg c e → cfg.Fits (c.k.timeMaxerror + maxfreq / 1000)

variable {cfg : Config} {c : Clock F}

theorem tick_timeMaxerror (cfg : Config) (c : Clock F) :
    (c.tick cfg).k.timeMaxerror = if Rollover cfg c .tick then
      cfg.long (c.k.timeMaxerror + maxfreq / 1000) else c.k.timeMaxerror := by
  by_cases hroll : Rollover cfg c .tick
  · rw [if_pos hroll, tick_of_rollover hroll.2]
    exact rollover_timeMaxerror cfg _ _
  · rw [if_neg hroll, tick_of_lt (not_le.mp fun hle => hroll ⟨rfl, hle⟩)]
    rfl

/-- What a call other than a tick leaves. -/
theorem step_timeMaxerror (cfg : Config) (c : Clock F) {e : Event} (he : e ≠ .tick) :
    (step cfg c e).k.timeMaxerror = c.k.timeMaxerror ∨
      ∃ tp, e = .adjtime tp ∧ SetsError e ∧
        (step cfg c e).k.timeMaxerror = tp.maxerror := by
  cases e with
  | tick => exact absurd rfl he
  | adjtime tp =>
    have herror := adjKernel_timeMaxerror cfg tp c.k c.tv.tvSec
    split_ifs at herror with hset
    · exact Or.inr ⟨tp, rfl, hset, herror⟩
    · exact Or.inl herror
  | hardupdate offset =>
    left
    show (Nanokernel.hardupdate cfg c.k c.tv.tvSec offset).timeMaxerror = _
    rw [hardupdate_frame]
  | hardpps tsp nsec =>
    left
    show (Nanokernel.hardpps cfg c.k tsp nsec).timeMaxerror = _
    rw [hardpps_frame]

/-- Half a millisecond more either fits, or comes out negative. -/
theorem long_grow {x : ℤ} (hnn : 0 ≤ x) (hfit : cfg.Fits x) :
    0 ≤ cfg.long (x + maxfreq / 1000) ↔ cfg.Fits (x + maxfreq / 1000) := by
  have hgrow : maxfreq / 1000 = 500 := by decide
  rw [hgrow]
  constructor
  · intro hlong
    by_contra hno
    have hwrap : cfg.long (x + 500) = x + 500 - 2 ^ cfg.longWidth.bits := by
      apply bmod_of_fits_sub
      · cases cfg.longWidth <;> decide
      · unfold Config.Fits Fits at *
        cases hwidth : cfg.longWidth <;> rw [hwidth] at hno hfit <;>
          simp only [LongWidth.bits] at * <;> omega
    unfold Config.Fits Fits at *
    cases hwidth : cfg.longWidth <;> rw [hwidth] at hno hfit hwrap <;>
      simp only [LongWidth.bits] at * <;> omega
  · intro hfits
    have hlong : cfg.long (x + 500) = x + 500 :=
      bmod_of_fits (by cases cfg.longWidth <;> decide) hfits
    omega

/-- The maximum error is a `long` that is not negative. -/
def ErrorInRange (cfg : Config) (c : Clock F) : Prop :=
  0 ≤ c.k.timeMaxerror ∧ cfg.Fits c.k.timeMaxerror

theorem errorGrows_iff_roomToGrow (h : ErrorInRange cfg c) {e : Event}
    (he : PassesError cfg c e) : ErrorGrows cfg c e ↔ RoomToGrow cfg c e := by
  by_cases htick : e = .tick
  · subst htick
    have herror : (step cfg c .tick).k.timeMaxerror = if Rollover cfg c .tick then
        cfg.long (c.k.timeMaxerror + maxfreq / 1000) else c.k.timeMaxerror :=
      tick_timeMaxerror cfg c
    unfold ErrorGrows RoomToGrow
    rw [herror]
    by_cases hroll : Rollover cfg c .tick
    · rw [if_pos hroll]
      constructor
      · exact fun hgrows _ => (long_grow h.1 h.2).mp hgrows.1
      · intro hroom
        have hlong : cfg.long (c.k.timeMaxerror + maxfreq / 1000)
            = c.k.timeMaxerror + maxfreq / 1000 :=
          bmod_of_fits (by cases cfg.longWidth <;> decide) (hroom hroll)
        have hgrow : (0 : ℤ) ≤ maxfreq / 1000 := by decide
        rw [hlong]
        exact ⟨add_nonneg h.1 hgrow, fun _ => le_add_of_nonneg_right hgrow⟩
    · rw [if_neg hroll]
      exact iff_of_true ⟨h.1, fun _ => le_rfl⟩ fun hr => absurd hr hroll
  · refine iff_of_true ?_ fun hroll => absurd hroll.1 htick
    unfold ErrorGrows
    rcases step_timeMaxerror cfg c htick with herror | ⟨tp, rfl, hset, herror⟩
    · rw [herror]
      exact ⟨h.1, fun _ => le_rfl⟩
    · rw [herror]
      exact ⟨(he hset).1, fun hno => absurd hset hno⟩

theorem step_errorInRange (h : ErrorInRange cfg c) {e : Event} (he : PassesError cfg c e)
    (hroom : RoomToGrow cfg c e) : ErrorInRange cfg (step cfg c e) := by
  refine ⟨((errorGrows_iff_roomToGrow h he).mpr hroom).1, ?_⟩
  by_cases htick : e = .tick
  · subst htick
    show cfg.Fits (c.tick cfg).k.timeMaxerror
    rw [tick_timeMaxerror]
    split_ifs with hroll
    · exact fits_bmod _ _
    · exact h.2
  · rcases step_timeMaxerror cfg c htick with herror | ⟨tp, rfl, hset, herror⟩
    · rw [herror]
      exact h.2
    · rw [herror]
      exact (he hset).2

/-! ## Runs -/

/-- Over every run of ticks and calls the maximum error stays nonnegative and
shrinks only where it is set, exactly when every second that rolls over finds
room for its share. -/
theorem errorGrows_iff (cfg : Config) (c : Clock F) (hnn : 0 ≤ c.k.timeMaxerror)
    (hfits : cfg.Fits c.k.timeMaxerror) (es : List Event)
    (hes : Along (step cfg) (PassesError cfg) c es) :
    Along (step cfg) (ErrorGrows cfg) c es ↔ Along (step cfg) (RoomToGrow cfg) c es := by
  refine along_congr (I := ErrorInRange cfg) ?_ ?_ ⟨hnn, hfits⟩ hes
  · exact fun c e h he hroom => step_errorInRange h he hroom
  · exact fun c e h he => errorGrows_iff_roomToGrow h he

/-- Nobody calls: the maximum error is all that moves but the seconds. -/
def silent (m s : ℤ) : Clock LFp32 :=
  ⟨{ (Kernel.boot oneHertz32 : Kernel LFp32) with timeMaxerror := m }, s, 0⟩

theorem errorGrows_iff_silent :
    Along (step oneHertz32) (ErrorGrows oneHertz32) (silent 500000 0) [.tick, .tick] ↔
      Along (step oneHertz32) (RoomToGrow oneHertz32) (silent 500000 0) [.tick, .tick] :=
  errorGrows_iff oneHertz32 (silent 500000 0) (by decide) (by decide) _
    ⟨trivial, trivial, trivial⟩

/-- Half a millisecond a second, as long as it fits. -/
theorem iterate_growError {m : ℤ} (hnn : 0 ≤ m) {n : ℕ} (hfits : cfg.Fits (m + 500 * n)) :
    (growError cfg)^[n] m = m + 500 * n := by
  induction n with
  | zero => simp
  | succ n ih =>
    have hlow : cfg.Fits (m + 500 * n) := by
      obtain ⟨hlo, hhi⟩ := hfits
      refine ⟨le_trans ?_ (add_nonneg hnn (by positivity)), lt_of_le_of_lt ?_ hhi⟩
      · exact neg_nonpos.mpr (by positivity)
      · push_cast
        omega
    have hgrow : maxfreq / 1000 = 500 := by decide
    rw [Function.iterate_succ_apply', ih hlow, growError, hgrow]
    have hsum : m + 500 * (n : ℤ) + 500 = m + 500 * ((n + 1 : ℕ) : ℤ) := by
      push_cast
      omega
    rw [hsum]
    exact bmod_of_fits (by cases cfg.longWidth <;> decide) hfits

/-- Fifty days without a server. -/
theorem not_errorGrows : ¬ ∀ (cfg : Config) (c : Clock LFp32) (es : List Event),
    cfg.longWidth = .ilp32 → Boots cfg c → Along (step cfg) (PassesError cfg) c es →
    Along (step cfg) (ErrorGrows cfg) c es := by
  intro h
  obtain ⟨n, hn⟩ : ∃ n : ℕ, n = 4293967 := ⟨_, rfl⟩
  have hpasses : Along (step oneHertz32) (PassesError oneHertz32) (silent 500000 0)
      (List.replicate n .tick ++ [.tick]) := by
    apply along_of_forall
    intro e he s
    obtain rfl : e = .tick := by
      rcases List.mem_append.mp he with he | he
      · exact List.eq_of_mem_replicate he
      · exact List.mem_singleton.mp he
    trivial
  have hrun := h oneHertz32 (silent 500000 0) _ rfl rfl hpasses
  have hlocked : Locked oneHertz32 (silent 500000 0).k :=
    ⟨rfl, by decide +kernel, by decide +kernel⟩
  have herror : (growError oneHertz32)^[n] 500000 = 2147483500 := by
    have hfits : oneHertz32.Fits (500000 + 500 * (n : ℤ)) := by
      rw [hn]
      decide
    rw [iterate_growError (by decide) hfits, hn]
    norm_num
  have hquiet : run (step oneHertz32) (silent 500000 0) (List.replicate n .tick)
      = silent 2147483500 (0 + n) := by
    rw [run_tick_of_locked hlocked rfl n fun i _ => leapSecond_of_ok rfl (by decide) _]
    show (⟨{ (Kernel.boot oneHertz32 : Kernel LFp32) with
      timeMaxerror := (growError oneHertz32)^[n] 500000 }, 0 + (n : ℤ), 0⟩ : Clock LFp32) = _
    rw [herror]
    rfl
  rw [along_append, hquiet] at hrun
  -- the next half millisecond does not fit
  have hlocked' : Locked oneHertz32 (silent 2147483500 (0 + n)).k := hlocked.withError _
  have hlast : 0 ≤ (tick oneHertz32 (silent 2147483500 (0 + n))).k.timeMaxerror := hrun.2.1.1
  have hunarmed : has (staUnsync : BitVec 32) (staIns ||| staDel) = false := by decide
  rw [tick_of_locked hlocked' rfl, leapSecond_of_ok rfl hunarmed] at hlast
  exact absurd hlast (by decide : ¬ 0 ≤ oneHertz32.long (2147483500 + maxfreq / 1000))

end Clock

end Nanokernel
