import Nanokernel.Alpha.PpsApi

/-!
# The PPS library of the Alpha

`time_pps_setparams`, `time_pps_kcbind` and `time_pps_fetch` of `alpha/timepps.h` on one
handle, above the device. Both the kernel, at an edge, and the library, when it fetches,
add the offsets of the parameters they have; `time_pps_kcbind` hands those of the library
to the kernel.
-/

namespace Nanokernel

open Run

/-! ## Offsets -/

section Offset

variable {t offset : Timespec}

/-- One carry is enough for the sum of two times. -/
theorem applyOffset_eq (mode mask : BitVec 32) (ht : t.Normalised) (ho : offset.Normalised) :
    applyOffset mode mask t offset
      = .ofNsec (t.nsec + if has mode mask then offset.nsec else 0) := by
  unfold applyOffset
  split_ifs with hmode
  · unfold Timespec.Normalised at ht ho
    unfold ppsNormalize Timespec.ofNsec Timespec.nsec
    unfold nanosecond at *
    dsimp only
    split_ifs <;> congr <;> omega
  · rw [add_zero, Timespec.ofNsec_nsec ht]

theorem nsec_eq_zero_iff (h : offset.Normalised) : offset.nsec = 0 ↔ offset = ⟨0, 0⟩ := by
  constructor
  · intro hzero
    rw [← Timespec.ofNsec_nsec h, hzero]
    rfl
  · rintro rfl
    rfl

end Offset

/-! ## The calls -/

inductive PpsErrno where
  | efault
  | eperm
  | einval
  /-- whatever the device returned -/
  | ioctl
deriving DecidableEq, Repr

/-- `pps_unit_t`: the device behind the file descriptor, and the parameters. -/
structure PpsHandle where
  minor : ℕ
  params : PpsParams
deriving DecidableEq, Repr

namespace PpsHandle

/-- The handle that `time_pps_create` returns. -/
def create (minor : ℕ) : PpsHandle :=
  ⟨minor, ppsApiVers1, ppsCaptureassert ||| ppsTsfmtTspec, PpsDevice.zeroTimeu, PpsDevice.zeroTimeu⟩

/-- `time_pps_setparams()`; `params` may be a null pointer. -/
def timePpsSetparams (h : PpsHandle) (params : Option PpsParams) : Except PpsErrno PpsHandle :=
  match params with
  | none => .error .efault
  | some params => .ok { h with params := { params with apiVersion := ppsApiVers1 } }

/-- A data area that holds an `int`. -/
def intArea (i : BitVec 32) : PpsParams := ⟨i, 0, PpsDevice.zeroTimeu, PpsDevice.zeroTimeu⟩

/-- `time_pps_kcbind()` by a user; the offsets of the handle stay what they are. -/
def timePpsKcbind (h : PpsHandle) (d : PpsDevice) (euid : ℕ) (mode : BitVec 32) :
    Except PpsErrno PpsDevice :=
  if euid ≠ 0 then .error .eperm
  else
    let (d, _, rc) := d.ppsioctl h.minor .setparams h.params
    if rc < 0 then .error .ioctl
    else
      let (d, _, rc) := d.ppsioctl h.minor .kpcbind (intArea mode)
      if rc < 0 then .error .ioctl else .ok d

/-- The format that `tsformat` selects, zero being that of the mode. -/
def format (h : PpsHandle) (tsformat : BitVec 32) : BitVec 32 :=
  if tsformat = 0 then h.params.mode &&& (ppsTsfmtTspec ||| ppsTsfmtNtpfp) else tsformat

/-- The timestamps of the device with the offsets of the handle. -/
def withOffsets (h : PpsHandle) (infobuf : PpsInfo) : PpsInfo :=
  let mode := h.params.mode
  { infobuf with
    assertTu := { infobuf.assertTu with
      tspec := applyOffset mode ppsOffsetassert infobuf.assertTu.tspec h.params.assertOffTu.tspec }
    clearTu := { infobuf.clearTu with
      tspec := applyOffset mode ppsOffsetclear infobuf.clearTu.tspec h.params.clearOffTu.tspec } }

/-- `time_pps_fetch()`; `tspectontp` is the conversion to the NTP format. -/
def timePpsFetch (tspectontp : PpsTimeu → PpsTimeu) (h : PpsHandle) (d : PpsDevice)
    (ppsinfo : Bool) (tsformat : BitVec 32) : Except PpsErrno PpsInfo :=
  if !ppsinfo then .error .efault
  else
    match d.ppsioctl h.minor .fetch (intArea 0) with
    | (_, .info infobuf, _) =>
      let infobuf := h.withOffsets infobuf
      if h.format tsformat = ppsTsfmtTspec then
        .ok { infobuf with currentMode := h.params.mode }
      else if h.format tsformat = ppsTsfmtNtpfp then
        .ok { infobuf with
          assertTu := tspectontp infobuf.assertTu
          clearTu := tspectontp infobuf.clearTu
          currentMode := h.params.mode }
      else .error .einval
    | _ => .error .ioctl

def unit (h : PpsHandle) : Fin 4 := minorUnit h.minor

theorem timestamp_withOffsets (h : PpsHandle) (infobuf : PpsInfo) (e : PpsEdge) :
    (h.withOffsets infobuf).timestamp e =
      applyOffset h.params.mode e.offsetMask (infobuf.timestamp e) (h.params.offset e) := by
  cases e <;> rfl

/-- A binding stores the parameters of the handle, those of the unit alone. -/
theorem timePpsKcbind_root (h : PpsHandle) (d : PpsDevice) (mode : BitVec 32) :
    ∃ d', h.timePpsKcbind d 0 mode = .ok d' ∧
      d'.ppsParams = Function.update d.ppsParams h.unit h.params :=
  ⟨_, rfl, rfl⟩

/-- In the `timespec` format the fetched timestamps are those with the offsets. -/
theorem timePpsFetch_tspec (tspectontp : PpsTimeu → PpsTimeu) {h : PpsHandle} (d : PpsDevice)
    {tsformat : BitVec 32} (hformat : h.format tsformat = ppsTsfmtTspec) :
    h.timePpsFetch tspectontp d true tsformat
      = .ok { h.withOffsets (d.ppsInfo h.unit) with currentMode := h.params.mode } := by
  unfold timePpsFetch
  rw [hformat]
  rfl

end PpsHandle

/-! ## One handle -/

structure PpsSystem where
  device : PpsDevice
  handle : PpsHandle
deriving DecidableEq

namespace PpsSystem

inductive Op where
  | setparams (params : Option PpsParams)
  | kcbind (euid : ℕ) (mode : BitVec 32)
  | dcd (unit : Fin 4) (edge : ℤ) (time : Timespec) (nsec : ℤ)
  | fetch (ppsinfo : Bool) (tsformat : BitVec 32)
deriving DecidableEq

def start (minor : ℕ) : PpsSystem := ⟨.start, .create minor⟩

/-- What a call leaves behind; one that fails leaves everything. -/
def step (s : PpsSystem) : Op → PpsSystem
  | .setparams params =>
    match s.handle.timePpsSetparams params with
    | .ok handle => { s with handle := handle }
    | .error _ => s
  | .kcbind euid mode =>
    match s.handle.timePpsKcbind s.device euid mode with
    | .ok device => { s with device := device }
    | .error _ => s
  | .dcd unit edge time nsec => { s with device := (s.device.ppsDcd unit edge time nsec).1 }
  | .fetch _ _ => s

/-- The time captured at the last edge of each kind since the parameters were changed or
bound. -/
abbrev Captured := PpsEdge → Option Timespec

def capture (n : Captured) (s : PpsSystem) : Op → Captured
  | .setparams (some _) | .kcbind 0 _ => fun _ => none
  | .dcd unit edge time _ =>
    match s.device.transition unit edge with
    | some e => if unit = s.handle.unit then Function.update n e (some time) else n
    | none => n
  | _ => n

/-- Offsets and captured times are in normal form. -/
def Admissible (_ : PpsSystem × Captured) : Op → Prop
  | .setparams (some params) => ∀ e, (params.offset e).Normalised
  | .dcd _ _ time _ => time.Normalised
  | _ => True

/-- A captured time and the offset configured for its edge, if it is selected. -/
def configured (params : PpsParams) (e : PpsEdge) (time : Timespec) : Timespec :=
  .ofNsec (time.nsec + if has params.mode e.offsetMask then (params.offset e).nsec else 0)

/-- The timestamps that are fetched carry the offset once. -/
def OffsetOnce (tspectontp : PpsTimeu → PpsTimeu) (w : PpsSystem × Captured) : Op → Prop
  | .fetch ppsinfo tsformat => w.1.handle.format tsformat = ppsTsfmtTspec →
      ∀ info, w.1.handle.timePpsFetch tspectontp w.1.device ppsinfo tsformat = .ok info →
        ∀ e, ∀ time ∈ w.2 e, info.timestamp e = configured w.1.handle.params e time
  | _ => True

/-- The parameters that the kernel has select no offset for the edge, or a zero one. -/
def Silent (params : PpsParams) (e : PpsEdge) : Prop :=
  has params.mode e.offsetMask = true → params.offset e = ⟨0, 0⟩

/-- At a fetch of timestamps the kernel has no offset for an edge that was captured. -/
def KernelSilent (w : PpsSystem × Captured) : Op → Prop
  | .fetch ppsinfo tsformat => w.1.handle.format tsformat = ppsTsfmtTspec → ppsinfo = true →
      ∀ e, (w.2 e).isSome = true → Silent (w.1.device.ppsParams w.1.handle.unit) e
  | _ => True

/-- What holds of a run: offsets are in normal form on both sides, and the device has the
captured time with the kernel's offset. -/
structure Kept (w : PpsSystem × Captured) : Prop where
  handle : ∀ e, (w.1.handle.params.offset e).Normalised
  kernel : ∀ e, ((w.1.device.ppsParams w.1.handle.unit).offset e).Normalised
  captured : ∀ e, ∀ time ∈ w.2 e, time.Normalised ∧
    (w.1.device.ppsInfo w.1.handle.unit).timestamp e
      = configured (w.1.device.ppsParams w.1.handle.unit) e time

theorem kept_start (minor : ℕ) : Kept (start minor, fun _ => none) := by
  have hzero : (⟨0, 0⟩ : Timespec).Normalised := by decide
  exact ⟨fun e => by cases e <;> exact hzero, fun e => by cases e <;> exact hzero, nofun⟩

section Step

variable {w : PpsSystem × Captured} {op : Op}

/-- A timestamp is right if and only if the kernel has added nothing. -/
theorem Kept.timestamp_eq_iff (h : Kept w) {e : PpsEdge} {time : Timespec} (he : time ∈ w.2 e) :
    applyOffset w.1.handle.params.mode e.offsetMask
        ((w.1.device.ppsInfo w.1.handle.unit).timestamp e) (w.1.handle.params.offset e)
      = configured w.1.handle.params e time ↔
      Silent (w.1.device.ppsParams w.1.handle.unit) e := by
  obtain ⟨htime, hinfo⟩ := h.captured e time he
  have hzero := nsec_eq_zero_iff (h.kernel e)
  unfold configured at *
  rw [hinfo, applyOffset_eq _ _ (Timespec.normalised_ofNsec _) (h.handle e), Timespec.ofNsec_inj,
    Timespec.nsec_ofNsec]
  unfold Silent
  rw [← hzero]
  by_cases hmode : has (w.1.device.ppsParams w.1.handle.unit).mode e.offsetMask = true
  · rw [if_pos hmode]
    constructor
    · intro heq _
      omega
    · intro hsilent
      rw [hsilent hmode, add_zero]
  · rw [if_neg hmode, add_zero]
    exact iff_of_true rfl fun hset => absurd hset hmode

theorem Kept.offsetOnce_iff_silent (tspectontp : PpsTimeu → PpsTimeu) (h : Kept w) :
    OffsetOnce tspectontp w op ↔ KernelSilent w op := by
  cases op with
  | setparams | kcbind | dcd => exact Iff.rfl
  | fetch ppsinfo tsformat =>
    refine forall_congr' fun hformat => ?_
    cases ppsinfo with
    | false => exact iff_of_true (fun info hinfo => nomatch hinfo) nofun
    | true =>
      rw [PpsHandle.timePpsFetch_tspec tspectontp w.1.device hformat]
      constructor
      · intro honce _ e hsome
        obtain ⟨time, htime⟩ := Option.isSome_iff_exists.mp hsome
        have hstamp := honce _ rfl e time htime
        exact (h.timestamp_eq_iff htime).mp
          ((w.1.handle.timestamp_withOffsets _ e).symm.trans hstamp)
      · rintro hsilent info ⟨⟩ e time htime
        have hstamp := (h.timestamp_eq_iff htime).mpr
          (hsilent rfl e (Option.isSome_iff_exists.mpr ⟨time, htime⟩))
        exact (w.1.handle.timestamp_withOffsets _ e).trans hstamp

/-- An edge leaves the captured time with the kernel's offset. -/
theorem Kept.dcd (h : Kept w) {unit : Fin 4} {edge : ℤ} {time : Timespec} (nsec : ℤ)
    (htime : time.Normalised) :
    Kept (watch PpsSystem.step capture w (.dcd unit edge time nsec)) := by
  have hparams := w.1.device.ppsDcd_ppsParams unit edge time nsec
  have hinfo := w.1.device.ppsDcd_ppsInfo unit edge time nsec
  refine ⟨h.handle, fun e => ?_, fun e t ht => ?_⟩
  · show (((w.1.device.ppsDcd unit edge time nsec).1.ppsParams w.1.handle.unit).offset e).Normalised
    rw [hparams]
    exact h.kernel e
  · show t.Normalised ∧
      ((w.1.device.ppsDcd unit edge time nsec).1.ppsInfo w.1.handle.unit).timestamp e
        = configured ((w.1.device.ppsDcd unit edge time nsec).1.ppsParams w.1.handle.unit) e t
    rw [hparams, hinfo]
    have hcapture : t ∈ capture w.2 w.1 (.dcd unit edge time nsec) e := ht
    unfold capture at hcapture
    dsimp only at hcapture
    cases htransition : w.1.device.transition unit edge with
    | none =>
      rw [htransition] at hcapture
      exact h.captured e t hcapture
    | some e' =>
      rw [htransition] at hcapture
      dsimp only at hcapture ⊢
      by_cases hunit : unit = w.1.handle.unit
      · subst hunit
        rw [if_pos rfl] at hcapture
        rw [Function.update_self, PpsInfo.timestamp_stamp]
        by_cases hedge : e = e'
        · subst hedge
          rw [Function.update_self] at hcapture
          cases hcapture
          rw [if_pos rfl]
          exact ⟨htime, applyOffset_eq _ _ htime (h.kernel e)⟩
        · rw [Function.update_of_ne hedge] at hcapture
          rw [if_neg hedge]
          exact h.captured e t hcapture
      · rw [if_neg hunit] at hcapture
        rw [Function.update_of_ne (Ne.symm hunit)]
        exact h.captured e t hcapture

theorem Kept.step (h : Kept w) (hop : Admissible w op) :
    Kept (watch PpsSystem.step capture w op) := by
  cases op with
  | setparams params =>
    cases params with
    | none => exact h
    | some params =>
      refine ⟨fun e => ?_, h.kernel, nofun⟩
      cases e
      · exact hop .assert
      · exact hop .clear
  | kcbind euid mode =>
    cases euid with
    | succ euid => exact h
    | zero =>
      obtain ⟨d, hd, hparams⟩ := w.1.handle.timePpsKcbind_root w.1.device mode
      have hstep : w.1.step (.kcbind 0 mode) = { w.1 with device := d } := by
        unfold PpsSystem.step
        dsimp only
        rw [hd]
      unfold watch
      rw [hstep]
      refine ⟨h.handle, fun e => ?_, nofun⟩
      show ((d.ppsParams w.1.handle.unit).offset e).Normalised
      rw [hparams, Function.update_self]
      exact h.handle e
  | dcd unit edge time nsec => exact h.dcd nsec hop
  | fetch => exact h

end Step

/-- In every sequence of calls and edges on one handle: every timestamp that is fetched of
an edge captured since the parameters were changed and bound carries its offset once,
exactly when at each fetch the kernel has no offset of its own for the edge. -/
theorem offsetOnce_iff (tspectontp : PpsTimeu → PpsTimeu) (minor : ℕ) (ops : List Op)
    (hops : Along (watch step capture) Admissible (start minor, fun _ => none) ops) :
    Along (watch step capture) (OffsetOnce tspectontp) (start minor, fun _ => none) ops ↔
      Along (watch step capture) KernelSilent (start minor, fun _ => none) ops :=
  along_congr (fun _ _ h hop _ => h.step hop) (fun _ _ h _ => h.offsetOnce_iff_silent tspectontp)
    (kept_start minor) hops

/-- An offset of 1000 ns for the rising edge. -/
def oneMicrosecond : PpsParams :=
  ⟨ppsApiVers1, ppsCaptureassert ||| ppsOffsetassert ||| ppsTsfmtTspec, ⟨⟨0, 1000⟩, 0⟩,
    PpsDevice.zeroTimeu⟩

/-- The offset is set, an edge comes, and its timestamp is fetched. -/
def unbound : List Op :=
  [.setparams (some oneMicrosecond), .dcd 0 1 ⟨10, 0⟩ 0, .fetch true ppsTsfmtTspec]

theorem admissible_oneMicrosecond (e : PpsEdge) : (oneMicrosecond.offset e).Normalised := by
  cases e <;> decide

theorem offsetOnce_iff_unbound :
    Along (watch step capture) (OffsetOnce id) (start 0, fun _ => none) unbound ↔
      Along (watch step capture) KernelSilent (start 0, fun _ => none) unbound :=
  offsetOnce_iff id 0 unbound
    ⟨admissible_oneMicrosecond, show Timespec.Normalised ⟨10, 0⟩ by decide, trivial, trivial⟩

/-- Once the kernel is bound, the offset is added twice. -/
theorem not_offsetOnce : ¬ ∀ (minor : ℕ) (ops : List Op),
    Along (watch step capture) Admissible (start minor, fun _ => none) ops →
    Along (watch step capture) (OffsetOnce id) (start minor, fun _ => none) ops := by
  intro h
  obtain ⟨-, -, -, honce, -⟩ := h 0
    [.setparams (some oneMicrosecond), .kcbind 0 ppsCaptureassert, .dcd 0 1 ⟨10, 0⟩ 0,
      .fetch true ppsTsfmtTspec]
    ⟨admissible_oneMicrosecond, trivial, show Timespec.Normalised ⟨10, 0⟩ by decide, trivial,
      trivial⟩
  exact absurd (honce rfl _ rfl .assert ⟨10, 0⟩ rfl) (by decide)

end PpsSystem

end Nanokernel
