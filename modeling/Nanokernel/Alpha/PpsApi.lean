import Mathlib.Data.Fintype.Pi
import Nanokernel.Foundation.Run
import Nanokernel.Kernel.Timex

/-!
# The PPS device of the Alpha kernel

`ppsioctl` and `pps_dcd` of `alpha/ppsapi.c`: four units, each with the parameters that
were stored for it and the timestamps of its last edges, and the unit that drives
`hardpps`.
-/

namespace Nanokernel

open Run

/-! ## `timepps.h` -/

def ppsApiVers1 : BitVec 32 := 1#32

def ppsCaptureassert : BitVec 32 := 0x01#32
def ppsCaptureclear : BitVec 32 := 0x02#32
def ppsOffsetassert : BitVec 32 := 0x10#32
def ppsOffsetclear : BitVec 32 := 0x20#32
def ppsTsfmtTspec : BitVec 32 := 0x1000#32
def ppsTsfmtNtpfp : BitVec 32 := 0x2000#32

/-- `pps_timeu_t`: the `timespec` of the union, and the word of the pad beyond it. -/
structure PpsTimeu where
  tspec : Timespec
  longpad : BitVec 64
deriving DecidableEq, Repr

structure PpsParams where
  apiVersion : BitVec 32
  mode : BitVec 32
  assertOffTu : PpsTimeu
  clearOffTu : PpsTimeu
deriving DecidableEq, Repr

structure PpsInfo where
  assertSequence : BitVec 32
  clearSequence : BitVec 32
  assertTu : PpsTimeu
  clearTu : PpsTimeu
  currentMode : BitVec 32
deriving DecidableEq, Repr

/-- `PPS_NORMALIZE`: one second carried or borrowed. -/
def ppsNormalize (t : Timespec) : Timespec :=
  if t.tvNsec ≥ nanosecond then ⟨t.tvSec + 1, t.tvNsec - nanosecond⟩
  else if t.tvNsec < 0 then ⟨t.tvSec - 1, t.tvNsec + nanosecond⟩
  else t

/-- What kernel and library do with an offset if the mode selects it. -/
def applyOffset (mode mask : BitVec 32) (t offset : Timespec) : Timespec :=
  if has mode mask then ppsNormalize ⟨t.tvSec + offset.tvSec, t.tvNsec + offset.tvNsec⟩
  else t

/-! ## The two edges -/

inductive PpsEdge where
  | assert
  | clear
deriving DecidableEq, Repr

def PpsEdge.captureMask : PpsEdge → BitVec 32
  | .assert => ppsCaptureassert
  | .clear => ppsCaptureclear

def PpsEdge.offsetMask : PpsEdge → BitVec 32
  | .assert => ppsOffsetassert
  | .clear => ppsOffsetclear

/-- `assert_offset` and `clear_offset`. -/
def PpsParams.offset (p : PpsParams) : PpsEdge → Timespec
  | .assert => p.assertOffTu.tspec
  | .clear => p.clearOffTu.tspec

/-- `assert_timestamp` and `clear_timestamp`. -/
def PpsInfo.timestamp (i : PpsInfo) : PpsEdge → Timespec
  | .assert => i.assertTu.tspec
  | .clear => i.clearTu.tspec

/-- An edge is counted and its timestamp kept. -/
def PpsInfo.stamp (i : PpsInfo) (e : PpsEdge) (t : Timespec) : PpsInfo :=
  match e with
  | .assert =>
    { i with
      assertSequence := i.assertSequence + 1
      assertTu := { i.assertTu with tspec := t } }
  | .clear =>
    { i with
      clearSequence := i.clearSequence + 1
      clearTu := { i.clearTu with tspec := t } }

@[simp] theorem PpsInfo.timestamp_stamp (i : PpsInfo) (e e' : PpsEdge) (t : Timespec) :
    (i.stamp e t).timestamp e' = if e' = e then t else i.timestamp e' := by
  cases e <;> cases e' <;> rfl

/-! ## The device -/

structure PpsDevice where
  ppsEdge : Fin 4 → ℤ
  ppsUnit : ℤ
  ppsParams : Fin 4 → PpsParams
  ppsInfo : Fin 4 → PpsInfo
deriving DecidableEq

/-- The commands of the switch. -/
inductive PpsIoc where
  | getcap
  | create
  | destroy
  | setparams
  | getparams
  | fetch
  | kpcbind
  | unknown
deriving DecidableEq, Repr

/-- The commands marked as no-ops. -/
def PpsIoc.NoOp (cmd : PpsIoc) : Prop := cmd = .getcap ∨ cmd = .create ∨ cmd = .destroy

instance (cmd : PpsIoc) : Decidable cmd.NoOp := inferInstanceAs (Decidable (_ ∨ _))

/-- The commands that are not to change the parameters or the unit. -/
def PpsIoc.Queries (cmd : PpsIoc) : Prop := cmd.NoOp ∨ cmd = .fetch ∨ cmd = .unknown

instance (cmd : PpsIoc) : Decidable cmd.Queries := inferInstanceAs (Decidable (_ ∨ _))

/-- What is copied to the data area. -/
inductive PpsReply where
  | none
  | params (p : PpsParams)
  | info (i : PpsInfo)
deriving DecidableEq, Repr

/-- `minor(tp->t_dev) & 0x3`. -/
def minorUnit (minor : ℕ) : Fin 4 := ⟨minor &&& 3, Nat.lt_succ_of_le Nat.and_le_right⟩

namespace PpsDevice

def zeroTimeu : PpsTimeu := ⟨⟨0, 0⟩, 0⟩

/-- The initialisers of the file. -/
def start : PpsDevice where
  ppsEdge _ := 0
  ppsUnit := -1
  ppsParams _ := ⟨ppsApiVers1, 0, zeroTimeu, zeroTimeu⟩
  ppsInfo _ := ⟨0, 0, zeroTimeu, zeroTimeu, 0⟩

/-- `ppsioctl()`; `data` is what the data area holds, read as a `pps_params_t`, and its
first word is the `int` of `PPS_IOC_KPCBIND`. -/
def ppsioctl (d : PpsDevice) (minor : ℕ) (cmd : PpsIoc) (data : PpsParams) :
    PpsDevice × PpsReply × ℤ :=
  let unit := minorUnit minor
  match cmd with
  -- no break between the first three and the fourth
  | .getcap | .create | .destroy | .setparams =>
    ({ d with ppsParams := Function.update d.ppsParams unit data }, .none, 0)
  | .getparams => (d, .params (d.ppsParams unit), 0)
  | .fetch => (d, .info (d.ppsInfo unit), 0)
  | .kpcbind => ({ d with ppsUnit := if data.apiVersion ≠ 0 then (unit : ℤ) else -1 }, .none, 0)
  | .unknown => (d, .none, -1)

/-- The edge that a level makes. -/
def transition (d : PpsDevice) (unit : Fin 4) (edge : ℤ) : Option PpsEdge :=
  if edge ≠ 0 ∧ d.ppsEdge unit = 0 then some .assert
  else if edge = 0 ∧ d.ppsEdge unit ≠ 0 then some .clear
  else none

/-- `pps_dcd()`; `nano_time` gives `time` and returns `nsec`. Also what is passed to
`hardpps`. -/
def ppsDcd (d : PpsDevice) (unit : Fin 4) (edge : ℤ) (time : Timespec) (nsec : ℤ) :
    PpsDevice × Option (Timespec × ℤ) :=
  let params := d.ppsParams unit
  let ppsEdge := Function.update d.ppsEdge unit edge
  match d.transition unit edge with
  | none => ({ d with ppsEdge := ppsEdge }, none)
  | some e =>
    let t := applyOffset params.mode e.offsetMask time (params.offset e)
    ({ d with
        ppsEdge := ppsEdge
        ppsInfo := Function.update d.ppsInfo unit ((d.ppsInfo unit).stamp e t) },
      if (unit : ℤ) = d.ppsUnit ∧ has params.mode e.captureMask then some (t, nsec) else none)

/-! ## The stored parameters -/

inductive Op where
  | ioctl (minor : ℕ) (cmd : PpsIoc) (data : PpsParams)
  | dcd (unit : Fin 4) (edge : ℤ) (time : Timespec) (nsec : ℤ)
deriving DecidableEq

def step (d : PpsDevice) : Op → PpsDevice
  | .ioctl minor cmd data => (d.ppsioctl minor cmd data).1
  | .dcd unit edge time nsec => (d.ppsDcd unit edge time nsec).1

/-- What `PPS_IOC_SETPARAMS` has stored for each unit. -/
def remember (stored : Fin 4 → PpsParams) (_ : PpsDevice) : Op → Fin 4 → PpsParams
  | .ioctl minor .setparams data => Function.update stored (minorUnit minor) data
  | _ => stored

/-- `PPS_IOC_GETPARAMS` returns what was stored for the unit, and the commands that are
not to change anything leave the parameters of every unit and `pps_unit` alone. -/
def ReadsBack (w : PpsDevice × (Fin 4 → PpsParams)) : Op → Prop
  | .ioctl minor cmd data =>
    (cmd = .getparams →
      (w.1.ppsioctl minor cmd data).2 = (.params (w.2 (minorUnit minor)), 0)) ∧
    (cmd.Queries → (w.1.ppsioctl minor cmd data).1.ppsParams = w.1.ppsParams ∧
      (w.1.ppsioctl minor cmd data).1.ppsUnit = w.1.ppsUnit)
  | .dcd _ _ _ _ => True

/-- The data area of a no-op holds what the unit has. -/
def Harmless (d : PpsDevice) : Op → Prop
  | .ioctl minor cmd data => cmd.NoOp → data = d.ppsParams (minorUnit minor)
  | .dcd _ _ _ _ => True

instance (d : PpsDevice) : (op : Op) → Decidable (Harmless d op)
  | .ioctl _ _ _ => inferInstanceAs (Decidable (_ → _))
  | .dcd _ _ _ _ => inferInstanceAs (Decidable True)

/-- A no-op stores its data area. -/
theorem ppsioctl_of_noOp {cmd : PpsIoc} (h : cmd.NoOp) (d : PpsDevice) (minor : ℕ)
    (data : PpsParams) : d.ppsioctl minor cmd data =
      ({ d with ppsParams := Function.update d.ppsParams (minorUnit minor) data }, .none, 0) := by
  rcases h with rfl | rfl | rfl <;> rfl

/-- The other commands store in one case alone. -/
theorem ppsioctl_ppsParams {cmd : PpsIoc} (h : ¬ cmd.NoOp) (d : PpsDevice) (minor : ℕ)
    (data : PpsParams) : (d.ppsioctl minor cmd data).1.ppsParams =
      if cmd = .setparams then Function.update d.ppsParams (minorUnit minor) data
      else d.ppsParams := by
  cases cmd with
  | getcap => exact absurd (Or.inl rfl) h
  | create => exact absurd (Or.inr (Or.inl rfl)) h
  | destroy => exact absurd (Or.inr (Or.inr rfl)) h
  | _ => rfl

theorem ppsDcd_ppsParams (d : PpsDevice) (unit : Fin 4) (edge : ℤ) (time : Timespec) (nsec : ℤ) :
    (d.ppsDcd unit edge time nsec).1.ppsParams = d.ppsParams := by
  unfold ppsDcd
  dsimp only
  cases d.transition unit edge <;> rfl

/-- A level that makes an edge stamps the unit, any other none. -/
theorem ppsDcd_ppsInfo (d : PpsDevice) (unit : Fin 4) (edge : ℤ) (time : Timespec) (nsec : ℤ) :
    (d.ppsDcd unit edge time nsec).1.ppsInfo =
      match d.transition unit edge with
      | none => d.ppsInfo
      | some e => Function.update d.ppsInfo unit ((d.ppsInfo unit).stamp e
          (applyOffset (d.ppsParams unit).mode e.offsetMask time
            ((d.ppsParams unit).offset e))) := by
  unfold ppsDcd
  dsimp only
  cases d.transition unit edge <;> rfl

section Step

variable {w : PpsDevice × (Fin 4 → PpsParams)} {op : Op}

/-- One command is as it should be if and only if it does no harm. -/
theorem readsBack_iff (h : w.2 = w.1.ppsParams) : ReadsBack w op ↔ Harmless w.1 op := by
  cases op with
  | dcd => exact Iff.rfl
  | ioctl minor cmd data =>
    by_cases hnoOp : cmd.NoOp
    · have hget : cmd ≠ .getparams := by
        rintro rfl
        exact absurd hnoOp (by decide)
      unfold ReadsBack Harmless
      dsimp only
      rw [ppsioctl_of_noOp hnoOp]
      constructor
      · rintro ⟨-, hkeeps⟩ -
        exact Function.update_eq_self_iff.mp (hkeeps (Or.inl hnoOp)).1
      · intro hdata
        refine ⟨fun heq => absurd heq hget, fun _ => ⟨?_, rfl⟩⟩
        exact Function.update_eq_self_iff.mpr (hdata hnoOp)
    · refine iff_of_true ⟨?_, ?_⟩ fun hno => absurd hno hnoOp
      · rintro rfl
        rw [h]
        rfl
      · rintro (hno | rfl | rfl)
        · exact absurd hno hnoOp
        · exact ⟨rfl, rfl⟩
        · exact ⟨rfl, rfl⟩

/-- Through such a step the device has what was stored. -/
theorem remember_eq (h : w.2 = w.1.ppsParams) (hop : Harmless w.1 op) :
    remember w.2 w.1 op = (w.1.step op).ppsParams := by
  cases op with
  | dcd unit edge time nsec => exact h.trans (ppsDcd_ppsParams w.1 unit edge time nsec).symm
  | ioctl minor cmd data =>
    show remember w.2 w.1 (.ioctl minor cmd data) = (w.1.ppsioctl minor cmd data).1.ppsParams
    by_cases hnoOp : cmd.NoOp
    · have hsame : Function.update w.1.ppsParams (minorUnit minor) data = w.1.ppsParams :=
        Function.update_eq_self_iff.mpr (hop hnoOp)
      have hset : remember w.2 w.1 (.ioctl minor cmd data) = w.2 := by
        rcases hnoOp with rfl | rfl | rfl <;> rfl
      rw [ppsioctl_of_noOp hnoOp, hset, h]
      exact hsame.symm
    · rw [ppsioctl_ppsParams hnoOp, ← h]
      cases cmd <;> rfl

end Step

/-- In every sequence of calls and edges on the four units, from the initial parameters:
what is stored is read back and nothing else changes it, exactly when every command that
should be a no-op brings along what its unit has. -/
theorem params_readBack_iff (ops : List Op) :
    Along (watch step remember) ReadsBack (start, start.ppsParams) ops ↔
      Along step Harmless start ops := by
  refine (along_congr (I := fun w : PpsDevice × (Fin 4 → PpsParams) => w.2 = w.1.ppsParams)
    (A := fun _ _ => True) (Q := fun w op => Harmless w.1 op) ?_ ?_ rfl
    (along_true _ _)).trans along_watch
  · exact fun w op h _ hop => remember_eq h hop
  · exact fun w op h _ => readsBack_iff h

/-- Offsets are stored for a unit, and its capabilities are asked for with an empty
data area. -/
def asksCapabilities : List Op :=
  [.ioctl 0 .setparams
      ⟨ppsApiVers1, ppsCaptureassert ||| ppsOffsetassert, ⟨⟨0, 500⟩, 0⟩, zeroTimeu⟩,
    .ioctl 0 .getcap ⟨0, 0, zeroTimeu, zeroTimeu⟩]

/-- The offsets are gone. -/
theorem not_params_readBack : ¬ ∀ ops : List Op,
    Along (watch step remember) ReadsBack (start, start.ppsParams) ops := by
  intro h
  obtain ⟨-, hgetcap, -⟩ := h asksCapabilities
  have hsame := congrFun (hgetcap.2 (by decide)).1 0
  exact absurd hsame (by decide)

end PpsDevice

end Nanokernel
