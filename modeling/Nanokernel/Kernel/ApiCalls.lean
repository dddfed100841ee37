import Nanokernel.Kernel.AdjtimeFrame

/-!
# What the callers are told

`ntp_gettime` and `ntp_adjtime` decode the status word in the same way: an
unsynchronised clock is an error. Dropping `STA_PLL` is meant to reset the word
to its value at boot, `STA_UNSYNC`; the merge that follows takes that flag from
the caller instead, so whether the clock counts as unsynchronised is up to the
word that was passed.
-/

namespace Nanokernel

open BitMask Run

/-! ## `ntp_gettime()` -/

structure Ntptimeval where
  time : Timespec
  maxerror : ℤ
  esterror : ℤ
  tai : ℤ
deriving DecidableEq, Repr

variable {F : Type}

/-- `ntp_gettime()` with `NTP_NANO`: the structure copied out and the return code;
`nano_time()` stored `atv`. -/
def ntpGettime (k : Kernel F) (atv : Timespec) : Ntptimeval × ℤ :=
  ({ time := atv, maxerror := k.timeMaxerror, esterror := k.timeEsterror, tai := k.timeTai },
    returnCode k)

/-- An event of the clock, or a call of `ntp_gettime` at the time `nano_time()` stores. -/
inductive ApiCall where
  | event (e : Event)
  | gettime (atv : Timespec)
deriving DecidableEq, Repr

namespace ApiCall

variable [LFp F]

def step (cfg : Config) (c : Clock F) : ApiCall → Clock F
  | .event e => c.step cfg e
  | .gettime _ => c

/-- What the call returns, if it returns a clock state. -/
def code (cfg : Config) (c : Clock F) : ApiCall → Option ℤ
  | .event e => (c.returned cfg e).map Prod.snd
  | .gettime atv => some (ntpGettime c.k atv).2

/-- The call writes the writable part of the status word. -/
def WritesStatus : ApiCall → Prop
  | .event (.adjtime tp) => has tp.modes modStatus = true
  | _ => False

end ApiCall

/-! ## The error decode -/

theorem returnCode_of_unsync {k : Kernel F} (h : has k.timeStatus staUnsync = true) :
    returnCode k = timeError := by
  unfold returnCode
  dsimp only
  rw [has_or, h, Bool.true_or, Bool.true_or, Bool.true_or, Bool.true_or, if_pos rfl]

/-! ## The writable flags -/

variable [LFp F]

namespace Clock

/-- Only a call with `MOD_STATUS` writes a writable flag. -/
theorem step_status {m : BitVec 32} (hm : Writable m) (cfg : Config) (c : Clock F) {e : Event}
    (he : ∀ tp, e = .adjtime tp → has tp.modes modStatus = false) :
    (c.step cfg e).k.timeStatus &&& m = c.k.timeStatus &&& m := by
  cases e with
  | tick =>
    have htick : c.step cfg .tick = c.tick cfg := rfl
    rw [htick]
    rcases tick_kernel cfg c with hk | hroll
    · rw [hk]
      rfl
    · rw [hroll]
      exact rollover_status cfg _ _ hm
  | adjtime tp => exact (changesSelected_adjKernel cfg tp c.k c.tv.tvSec).writable m hm (he tp rfl)
  | hardupdate offset =>
    exact hardupdate_status cfg c.k c.tv.tvSec offset (hm.of_sub (by decide))
  | hardpps tsp nsec => exact hardpps_status cfg c.k hm tsp nsec

end Clock

/-! ## Dropping `STA_PLL` -/

/-- The caller is told of an error by every call. -/
def ToldOfError (cfg : Config) (c : Clock F) (calls : List ApiCall) : Prop :=
  ∀ code ∈ outputs (ApiCall.step cfg) (ApiCall.code cfg) c calls, code = timeError

section Unsync

variable {cfg : Config} {c : Clock F} {call : ApiCall}

theorem step_unsync (h : has c.k.timeStatus staUnsync = true) (hcall : ¬ call.WritesStatus) :
    has (ApiCall.step cfg c call).k.timeStatus staUnsync = true := by
  cases call with
  | gettime atv => exact h
  | event e =>
    have hkept : (c.step cfg e).k.timeStatus &&& staUnsync = c.k.timeStatus &&& staUnsync := by
      apply Clock.step_status (by decide) cfg c
      rintro tp rfl
      exact Bool.eq_false_iff.mpr hcall
    rw [← h]
    exact has_eq_of_and_eq hkept

theorem code_of_unsync (h : has c.k.timeStatus staUnsync = true) (hcall : ¬ call.WritesStatus)
    {code : ℤ} (hcode : ApiCall.code cfg c call = some code) : code = timeError := by
  cases call with
  | gettime atv =>
    cases hcode
    exact returnCode_of_unsync h
  | event e =>
    cases e with
    | adjtime tp =>
      -- the status word is decoded after the call has changed what it may
      have hafter : has (ApiCall.step cfg c (.event (.adjtime tp))).k.timeStatus staUnsync
          = true := step_unsync h hcall
      cases hcode
      exact returnCode_of_unsync hafter
    | _ => exact absurd hcode nofun

/-- As long as the status word is not written, an unsynchronised clock stays so. -/
theorem toldOfError_of_unsync {calls : List ApiCall} (h : has c.k.timeStatus staUnsync = true)
    (hcalls : ∀ call ∈ calls, ¬ call.WritesStatus) : ToldOfError cfg c calls := by
  have hsteps : Along (ApiCall.step cfg) (fun _ call => ¬ ApiCall.WritesStatus call) c calls :=
    along_of_forall fun call hcall _ => hcalls call hcall
  have herror : Along (ApiCall.step cfg)
      (fun c call => ∀ code, ApiCall.code cfg c call = some code → code = timeError) c calls :=
    along_of_invariant (I := fun c => has c.k.timeStatus staUnsync = true)
      (fun _ _ hc hcall => step_unsync hc hcall)
      (fun _ _ hc hcall _ hcode => code_of_unsync hc hcall hcode) h hsteps
  exact forall_mem_outputs herror

end Unsync

/-- In every state with `STA_PLL`, and for every status word without: after the reset the
state is that of a clock at boot, and this call and all others up to the next write of the
status word report an error, exactly when the word that was passed has `STA_UNSYNC`. -/
theorem dropPll_iff (cfg : Config) (c : Clock F) (hpll : has c.k.timeStatus staPll = true)
    (ntv : Timex) (hmodes : ntv.modes = modStatus) (hdrop : has ntv.status staPll = false) :
    ((c.step cfg (.adjtime ntv)).k.timeState = .ok ∧
        has (c.step cfg (.adjtime ntv)).k.timeStatus staUnsync = true ∧
        (ntpAdjtime cfg c.k c.tv.tvSec ntv).2.2 = timeError ∧
        ∀ calls : List ApiCall, (∀ call ∈ calls, ¬ call.WritesStatus) →
          ToldOfError cfg (c.step cfg (.adjtime ntv)) calls) ↔
      has ntv.status staUnsync = true := by
  have hstatus : has (c.step cfg (.adjtime ntv)).k.timeStatus staUnsync
      = has ntv.status staUnsync := by
    apply has_eq_of_and_eq
    have hmerge := adjKernel_status cfg ntv c.k c.tv.tvSec (show Writable staUnsync by decide)
    rwa [hmodes, if_pos (by decide)] at hmerge
  have hstate : (c.step cfg (.adjtime ntv)).k.timeState = .ok := by
    have hreset := adjKernel_timeState cfg ntv c.k c.tv.tvSec
    rwa [if_pos ⟨by rw [hmodes]; decide, hpll, hdrop⟩] at hreset
  rw [← hstatus]
  constructor
  · rintro ⟨-, hunsync, -⟩
    exact hunsync
  · intro hunsync
    exact ⟨hstate, hunsync, returnCode_of_unsync hunsync,
      fun calls => toldOfError_of_unsync hunsync⟩

/-- The clock after `STA_PLL` was set. -/
def lockedClock : Clock LFp32 :=
  run (Clock.step oneHertz32) ⟨Kernel.boot oneHertz32, ⟨0, 0⟩⟩
    [.adjtime { modes := modStatus, status := staPll }]

theorem dropPll_iff_lockedClock :
    ((lockedClock.step oneHertz32
            (.adjtime { modes := modStatus, status := staUnsync })).k.timeState = .ok ∧
        has (lockedClock.step oneHertz32
            (.adjtime { modes := modStatus, status := staUnsync })).k.timeStatus staUnsync = true ∧
        (ntpAdjtime oneHertz32 lockedClock.k lockedClock.tv.tvSec
            { modes := modStatus, status := staUnsync }).2.2 = timeError ∧
        ∀ calls : List ApiCall, (∀ call ∈ calls, ¬ call.WritesStatus) →
          ToldOfError oneHertz32 (lockedClock.step oneHertz32
            (.adjtime { modes := modStatus, status := staUnsync })) calls) ↔
      has staUnsync staUnsync = true :=
  dropPll_iff oneHertz32 lockedClock (by decide) { modes := modStatus, status := staUnsync }
    rfl (by decide)

/-- A status word of zero leaves a clock without discipline that is reported as good. -/
theorem not_dropPll : ¬ ∀ (cfg : Config) (c : Clock LFp32), c.Reachable cfg →
    has c.k.timeStatus staPll = true → ∀ ntv : Timex, ntv.modes = modStatus →
    has ntv.status staPll = false →
    (c.step cfg (.adjtime ntv)).k.timeState = .ok ∧
      has (c.step cfg (.adjtime ntv)).k.timeStatus staUnsync = true ∧
      (ntpAdjtime cfg c.k c.tv.tvSec ntv).2.2 = timeError ∧
      ∀ calls : List ApiCall, (∀ call ∈ calls, ¬ call.WritesStatus) →
        ToldOfError cfg (c.step cfg (.adjtime ntv)) calls := by
  intro h
  have hreset := h oneHertz32 lockedClock
    ⟨⟨Kernel.boot oneHertz32, ⟨0, 0⟩⟩, [.adjtime { modes := modStatus, status := staPll }], rfl,
      ⟨trivial, trivial⟩, rfl⟩ (by decide) { modes := modStatus, status := 0 } rfl (by decide)
  exact absurd hreset.2.1 (by decide)

end Nanokernel
