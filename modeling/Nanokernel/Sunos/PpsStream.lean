import Nanokernel.Alpha.PpsApi
import Nanokernel.Foundation.Linearisation

/-!
# The PPS module of SunOS

`ppsapi.c` for SunOS is a STREAMS module: pushed on a serial line it puts its own routine in
the place of the driver's external status interrupt, and taken off it puts the driver's back.
There is one set of variables for all lines, and an interrupt of any line may come between any
two instructions. Whatever happens, the module is one of atomic pushes and pops, in which a
push counts while no line is hooked and every pop unhooks the line there is
(`ppsStream_linearises`).
-/

namespace Nanokernel

open Run

namespace PpsStream

/-! ## The serial driver -/

/-- What an entry of a `zsops` names: nothing, the routine of the driver's vector at an
address, or the one of this module. -/
inductive Routine (P : Type) where
  | null
  | driver (p : P)
  | ppsapiIntr
deriving DecidableEq, Repr

/-- `struct zsops`: the external status interrupt, and the vector whose other entries these
are. -/
structure Zsops (P : Type) where
  zsopXsint : Routine P
  others : Option P
deriving DecidableEq, Repr

/-- A pointer to a `zsops`: one of the driver's, or `&ppszsops`. -/
inductive Vector (P : Type) where
  | driver (p : P)
  | ppszsops
deriving DecidableEq, Repr

/-- The channels, and how the lines and they refer to each other. -/
structure Board (Z P : Type) where
  zaCommon : Fin 128 → Option Z
  zsPriv : Z → Fin 128
  zsOps : Z → P

/-- `minor(dev) & 0x7f`. -/
def line (dev : ℕ) : Fin 128 := ⟨dev &&& 127, Nat.lt_succ_of_le Nat.and_le_right⟩

/-- An external status interrupt: the status of the chip, what `uniqtime` and `nano_time`
would give, and what the driver's own routine would leave in `za_rr0`. -/
structure Xsint (Z : Type) where
  zs : Z
  s0 : BitVec 8
  uniqtime : Timeval
  time : Timespec
  nsec : ℤ
  rr0 : BitVec 8
deriving DecidableEq, Repr

/-- `ZSRR0_CD`, the carrier. -/
def zsrr0Cd : BitVec 8 := 0x08#8

/-- The carrier has changed, and which way. -/
def carrierEdge (s0 rr0 : BitVec 8) : Option PpsEdge :=
  if (s0 ^^^ rr0) &&& zsrr0Cd = 0 then none
  else if s0 &&& zsrr0Cd ≠ 0 then some .assert
  else some .clear

/-! ## Messages -/

/-- The commands of the switch: that of the older module, and those of `timepps.h`. -/
inductive IocCmd where
  | ciogetev
  | pps (cmd : PpsIoc)
deriving DecidableEq, Repr

/-- `mblk_t`, as far as `ppsapi_wput` looks at it. An `M_IOCTL` brings the `int` of its data
block, if it has one, and `allocb` succeeds on it or not. -/
inductive Message where
  | flush (flushw : Bool)
  | ioctl (cmd : IocCmd) (cont : Option (BitVec 32)) (allocb : Bool)
  | other
deriving DecidableEq, Repr

/-- `struct ppsclockev`. -/
structure Ppsclockev where
  tv : Timeval
  serial : BitVec 32
deriving DecidableEq, Repr

/-- `pps_info_t`. -/
structure StreamInfo where
  assertSequence : BitVec 32
  clearSequence : BitVec 32
  assertTimestamp : Timespec
  clearTimestamp : Timespec
  currentMode : BitVec 32
deriving DecidableEq, Repr

/-- What goes back with an `M_IOCACK`: the block as it came, no data, or a copy. -/
inductive Payload where
  | asItCame
  | empty
  | event (ev : Ppsclockev)
  | info (info : StreamInfo)
deriving DecidableEq, Repr

/-- What becomes of a message or an interrupt. -/
inductive Outcome (Z : Type) where
  /-- the message goes on, and the queue was flushed -/
  | putnext (flushed : Bool)
  | iocack (payload : Payload)
  /-- `M_IOCNAK` with `ENOMEM` -/
  | iocnak
  /-- an edge was captured, and `hardpps` called with this -/
  | captured (zs : Z) (edge : PpsEdge) (hardpps : Option (Timespec × ℤ))
  /-- the driver's own routine ran -/
  | driver (zs : Z)
  /-- a null pointer was followed, or a routine called itself for ever -/
  | panic
deriving DecidableEq, Repr

/-! ## The module -/

/-- The next instruction of `ppsapi_open` or `ppsapi_close`. -/
inductive Pc (Z : Type) where
  | idle
  | saveOps (dev : ℕ) (zs : Z)
  | copyOps (dev : ℕ) (zs : Z)
  | setXsint (dev : ℕ) (zs : Z)
  | zsopinit (dev : ℕ) (zs : Z)
  | saveZscom (zs : Z)
  | restore
  | clearZscom
  | clearOps
deriving DecidableEq, Repr

/-- `I_PUSH` calls `ppsapi_open`, `modopen` being `sflag == MODOPEN`, and `I_POP` calls
`ppsapi_close`. -/
inductive Call where
  | push (dev : ℕ) (modopen : Bool)
  | pop
deriving DecidableEq, Repr

/-- What may come at any moment: an interrupt or a message. -/
inductive Arrival (Z : Type) where
  | xsint (x : Xsint Z)
  | wput (m : Message)
deriving DecidableEq, Repr

inductive Op (Z : Type) where
  | call (c : Call)
  /-- The call that runs executes an instruction. -/
  | next
  | arrive (a : Arrival Z)
deriving DecidableEq, Repr

end PpsStream

open PpsStream

/-- The variables of the file, the vector of each channel, `za_rr0` of each line, and the
instruction that comes next. -/
structure PpsStream (Z P : Type) where
  zsOps : Z → Vector P
  zaRr0 : Fin 128 → BitVec 8
  ppssavedzsops : Option (Vector P)
  ppszsops : Zsops P
  ppssavedzscom : Option Z
  ppsclockev : Ppsclockev
  ppsInfo : StreamInfo
  ppsKpcmode : BitVec 32
  pc : Pc Z
  /-- what the last call returned: 0, or -1 for `OPENFAIL` -/
  returned : ℤ

namespace PpsStream

variable {Z P : Type} [DecidableEq Z] (b : Board Z P)

/-- Nothing is pushed; the status of each line is as the driver last saw it. -/
def start (rr0 : Fin 128 → BitVec 8) : PpsStream Z P where
  zsOps z := .driver (b.zsOps z)
  zaRr0 := rr0
  ppssavedzsops := none
  ppszsops := ⟨.null, none⟩
  ppssavedzscom := none
  ppsclockev := ⟨⟨0, 0⟩, 0⟩
  ppsInfo := ⟨0, 0, ⟨0, 0⟩, ⟨0, 0⟩, 0⟩
  ppsKpcmode := 0
  pc := .idle
  returned := 0

/-- What a pointer to a `zsops` points to. -/
def contents (m : PpsStream Z P) : Vector P → Zsops P
  | .driver p => ⟨.driver p, some p⟩
  | .ppszsops => m.ppszsops

/-- `ppsapi_open()` up to the first assignment. -/
def ppsapiOpen (m : PpsStream Z P) (dev : ℕ) (modopen : Bool) : PpsStream Z P :=
  if !modopen then { m with returned := -1 }
  else if m.ppssavedzsops = none then
    match b.zaCommon (line dev) with
    | none => { m with returned := -1 }
    | some zs => { m with pc := .saveOps dev zs }
  else { m with returned := 0 }

/-- `ppsapi_close()` up to the first assignment; nothing is ever queued that it could flush. -/
def ppsapiClose (m : PpsStream Z P) : PpsStream Z P :=
  if m.ppssavedzsops = none then { m with returned := 0 } else { m with pc := .restore }

/-- One instruction of the call that runs. -/
def next (m : PpsStream Z P) : PpsStream Z P :=
  match m.pc with
  | .idle => m
  | .saveOps dev zs => { m with ppssavedzsops := some (m.zsOps zs), pc := .copyOps dev zs }
  | .copyOps dev zs =>
    { m with
      ppszsops := m.ppssavedzsops.elim ⟨.null, none⟩ m.contents
      pc := .setXsint dev zs }
  | .setXsint dev zs =>
    { m with ppszsops := { m.ppszsops with zsopXsint := .ppsapiIntr }, pc := .zsopinit dev zs }
  | .zsopinit _ zs =>
    { m with zsOps := Function.update m.zsOps zs .ppszsops, pc := .saveZscom zs }
  | .saveZscom zs => { m with ppssavedzscom := some zs, pc := .idle, returned := 0 }
  | .restore =>
    match m.ppssavedzscom, m.ppssavedzsops with
    | some zs, some v => { m with zsOps := Function.update m.zsOps zs v, pc := .clearZscom }
    | _, _ => m
  | .clearZscom => { m with ppssavedzscom := none, pc := .clearOps }
  | .clearOps => { m with ppssavedzsops := none, pc := .idle, returned := 0 }

/-- The instruction would follow a null pointer. -/
def nextPanics (m : PpsStream Z P) : Prop :=
  match m.pc with
  | .copyOps _ _ => m.ppssavedzsops = none
  | .restore => m.ppssavedzscom = none ∨ m.ppssavedzsops = none
  | _ => False

instance (m : PpsStream Z P) : Decidable m.nextPanics := by
  unfold nextPanics
  split <;> infer_instance

/-- The driver's own routine; it is not in this file. -/
def driverXsint (m : PpsStream Z P) (x : Xsint Z) : PpsStream Z P × Outcome Z :=
  ({ m with zaRr0 := Function.update m.zaRr0 (b.zsPriv x.zs) x.rr0 }, .driver x.zs)

/-- An edge is counted, and its time kept. -/
def StreamInfo.stamp (i : StreamInfo) (e : PpsEdge) (t : Timespec) : StreamInfo :=
  match e with
  | .assert => { i with assertSequence := i.assertSequence + 1, assertTimestamp := t }
  | .clear => { i with clearSequence := i.clearSequence + 1, clearTimestamp := t }

/-- The older structure has the rising edge alone. -/
def Ppsclockev.stamp (ev : Ppsclockev) (e : PpsEdge) (tv : Timeval) : Ppsclockev :=
  match e with
  | .assert => ⟨tv, ev.serial + 1⟩
  | .clear => ev

/-- `ppsapi_intr()`. -/
def ppsapiIntr (m : PpsStream Z P) (x : Xsint Z) : PpsStream Z P × Outcome Z :=
  match carrierEdge x.s0 (m.zaRr0 (b.zsPriv x.zs)) with
  | some e =>
    ({ m with
        ppsclockev := m.ppsclockev.stamp e x.uniqtime
        ppsInfo := m.ppsInfo.stamp e x.time
        zaRr0 := Function.update m.zaRr0 (b.zsPriv x.zs) x.s0 },
      .captured x.zs e (if has m.ppsKpcmode e.captureMask then some (x.time, x.nsec) else none))
  | none =>
    match (m.ppssavedzsops.map m.contents).map Zsops.zsopXsint with
    | some (.driver _) => driverXsint b m x
    | _ => (m, .panic)

/-- The chip interrupts: the vector of the channel says who is called. -/
def dispatch (m : PpsStream Z P) (x : Xsint Z) : PpsStream Z P × Outcome Z :=
  match (m.contents (m.zsOps x.zs)).zsopXsint with
  | .null => (m, .panic)
  | .driver _ => driverXsint b m x
  | .ppsapiIntr => ppsapiIntr b m x

/-- `ppsapi_wput()`, the put procedure of both sides. -/
def ppsapiWput (m : PpsStream Z P) : Message → PpsStream Z P × Outcome Z
  | .flush flushw => (m, .putnext flushw)
  | .ioctl .ciogetev _ allocb =>
    (m, if allocb then .iocack (.event m.ppsclockev) else .iocnak)
  -- these have no meaning in this design
  | .ioctl (.pps .create) _ _ | .ioctl (.pps .destroy) _ _ | .ioctl (.pps .setparams) _ _
  | .ioctl (.pps .getparams) _ _ | .ioctl (.pps .getcap) _ _ => (m, .iocack .asItCame)
  | .ioctl (.pps .fetch) _ allocb => (m, if allocb then .iocack (.info m.ppsInfo) else .iocnak)
  | .ioctl (.pps .kpcbind) cont _ =>
    match cont with
    | none => (m, .panic)
    | some mode => ({ m with ppsKpcmode := mode }, .iocack .empty)
  | .ioctl (.pps .unknown) _ _ => (m, .putnext false)
  | .other => (m, .putnext false)

/-- A call up to its first assignment. -/
def enter (m : PpsStream Z P) : Call → PpsStream Z P
  | .push dev modopen => ppsapiOpen b m dev modopen
  | .pop => m.ppsapiClose

def arrive (m : PpsStream Z P) : Arrival Z → PpsStream Z P × Outcome Z
  | .xsint x => dispatch b m x
  | .wput message => m.ppsapiWput message

/-- A call waits until the one that runs is through. -/
def step (m : PpsStream Z P) : Op Z → PpsStream Z P
  | .call c => if m.pc = .idle then enter b m c else m
  | .next => m.next
  | .arrive a => (arrive b m a).1

/-- What is seen when a call has come so far: its return, if it is through. -/
def ending (m : PpsStream Z P) : List (Seen Call ℤ (Arrival Z) (Outcome Z)) :=
  if m.pc = .idle then [.ret m.returned] else []

/-- What is seen of a step. -/
def seen (m : PpsStream Z P) : Op Z → List (Seen Call ℤ (Arrival Z) (Outcome Z))
  | .call c => if m.pc = .idle then .call c :: (enter b m c).ending else []
  | .next => if m.pc = .idle then [] else m.next.ending
  | .arrive a => [.event a (arrive b m a).2]

omit [DecidableEq Z] in
/-- Whatever arrives, the call that runs goes on where it was. -/
theorem arrive_pc (m : PpsStream Z P) (a : Arrival Z) : (arrive b m a).1.pc = m.pc := by
  cases a with
  | xsint x =>
    show (dispatch b m x).1.pc = m.pc
    unfold dispatch ppsapiIntr
    split
    · rfl
    · rfl
    · split
      · rfl
      · split <;> rfl
  | wput message =>
    show (m.ppsapiWput message).1.pc = m.pc
    unfold ppsapiWput
    split <;> try rfl
    split <;> rfl

/-- `PPS_IOC_KPCBIND` comes with its argument. -/
def Supplied (_ : PpsStream Z P) (op : Op Z) : Prop :=
  ∀ allocb, op ≠ .arrive (.wput (.ioctl (.pps .kpcbind) none allocb))

instance (m : PpsStream Z P) (op : Op Z) : Decidable (Supplied m op) :=
  inferInstanceAs (Decidable (∀ _ : Bool, _ ≠ _))

/-- No instruction of a call follows a null pointer, and no arrival has that outcome. -/
def NoPanic (m : PpsStream Z P) : Op Z → Prop
  | .call _ => True
  | .next => ¬ m.nextPanics
  | .arrive a => (arrive b m a).2 ≠ .panic

end PpsStream

/-! ## The atomic module -/

namespace PpsLine

/-- A captured edge, with both times. -/
structure Capture where
  edge : PpsEdge
  uniqtime : Timeval
  time : Timespec
deriving DecidableEq, Repr

end PpsLine

open PpsLine

/-- The channel that is hooked, everything that was captured on the way (the latest first),
and the edges that were bound last. -/
structure PpsLine (Z : Type) where
  hook : Option Z
  zaRr0 : Fin 128 → BitVec 8
  log : List Capture
  bound : BitVec 32

namespace PpsLine

variable {Z P : Type} [DecidableEq Z] (b : Board Z P)

def start (rr0 : Fin 128 → BitVec 8) : PpsLine Z := ⟨none, rr0, [], 0⟩

/-- How many edges of one kind there were. -/
def count (log : List Capture) (e : PpsEdge) : BitVec 32 :=
  BitVec.ofNat 32 (log.countP (·.edge = e))

/-- The last edge of a kind. -/
def last (log : List Capture) (e : PpsEdge) : Option Capture := log.find? (·.edge = e)

/-- What `PPS_IOC_FETCH` shows of the log. -/
def info (log : List Capture) : StreamInfo where
  assertSequence := count log .assert
  clearSequence := count log .clear
  assertTimestamp := (last log .assert).elim ⟨0, 0⟩ Capture.time
  clearTimestamp := (last log .clear).elim ⟨0, 0⟩ Capture.time
  currentMode := 0

/-- What `CIOGETEV` shows of it. -/
def event (log : List Capture) : Ppsclockev :=
  ⟨(last log .assert).elim ⟨0, 0⟩ Capture.uniqtime, count log .assert⟩

/-- An edge of the carrier on the hooked channel is captured, and not shown to the driver,
whatever other line of the modem changes with it. The driver has all the rest. -/
def xsint (s : PpsLine Z) (x : Xsint Z) : PpsLine Z × Outcome Z :=
  match if s.hook = some x.zs then carrierEdge x.s0 (s.zaRr0 (b.zsPriv x.zs)) else none with
  | some e =>
    ({ s with
        zaRr0 := Function.update s.zaRr0 (b.zsPriv x.zs) x.s0
        log := ⟨e, x.uniqtime, x.time⟩ :: s.log },
      .captured x.zs e (if has s.bound e.captureMask then some (x.time, x.nsec) else none))
  | none =>
    ({ s with zaRr0 := Function.update s.zaRr0 (b.zsPriv x.zs) x.rr0 }, .driver x.zs)

/-- A push hooks the channel of its line, unless one is hooked. -/
def push (s : PpsLine Z) (dev : ℕ) (modopen : Bool) : PpsLine Z × ℤ :=
  if !modopen then (s, -1)
  else
    match s.hook, b.zaCommon (line dev) with
    | some _, _ => (s, 0)
    | none, none => (s, -1)
    | none, some zs => ({ s with hook := some zs }, 0)

/-- A message binds the edges, or changes nothing. -/
def bind (s : PpsLine Z) : Message → PpsLine Z
  | .ioctl (.pps .kpcbind) cont _ => { s with bound := cont.getD s.bound }
  | _ => s

/-- The answer to a message: a command that no case names goes on. -/
def reply (s : PpsLine Z) : Message → Outcome Z
  | .flush flushw => .putnext flushw
  | .ioctl .ciogetev _ allocb => if allocb then .iocack (.event (event s.log)) else .iocnak
  | .ioctl (.pps .fetch) _ allocb => if allocb then .iocack (.info (info s.log)) else .iocnak
  | .ioctl (.pps .kpcbind) _ _ => .iocack .empty
  | .ioctl (.pps .unknown) _ _ | .other => .putnext false
  | .ioctl (.pps _) _ _ => .iocack .asItCame

/-- The atomic module. -/
def atomic : AtomicObject (PpsLine Z) Call ℤ (Arrival Z) (Outcome Z) where
  call
    | s, .push dev modopen => push b s dev modopen
    | s, .pop => ({ s with hook := none }, 0)
  event
    | s, .xsint x => xsint b s x
    | s, .wput message => (s.bind message, s.reply message)

/-- An edge more in the log. -/
theorem count_cons (c : Capture) (log : List Capture) (e : PpsEdge) :
    count (c :: log) e = if c.edge = e then count log e + 1 else count log e := by
  unfold count
  rw [List.countP_cons]
  by_cases h : c.edge = e <;> simp [h, BitVec.ofNat_add]

theorem last_cons (c : Capture) (log : List Capture) (e : PpsEdge) :
    last (c :: log) e = if c.edge = e then some c else last log e := by
  unfold last
  by_cases h : c.edge = e <;> simp [h]

theorem info_cons (e : PpsEdge) (u : Timeval) (t : Timespec) (log : List Capture) :
    info (⟨e, u, t⟩ :: log) = (info log).stamp e t := by
  cases e <;> simp [info, count_cons, last_cons, StreamInfo.stamp]

theorem event_cons (e : PpsEdge) (u : Timeval) (t : Timespec) (log : List Capture) :
    event (⟨e, u, t⟩ :: log) = (event log).stamp e u := by
  cases e <;> simp [event, count_cons, last_cons, Ppsclockev.stamp]

/-- Nothing panics here. -/
theorem event_ne_panic (s : PpsLine Z) (a : Arrival Z) : ((atomic b).event s a).2 ≠ .panic := by
  cases a with
  | xsint x =>
    show (xsint b s x).2 ≠ .panic
    unfold xsint
    split <;> simp
  | wput message =>
    show s.reply message ≠ .panic
    unfold reply
    split <;> try split_ifs
    all_goals simp

end PpsLine

/-! ## The module against it -/

namespace PpsStream

variable {Z P : Type} [DecidableEq Z] {b : Board Z P} {m : PpsStream Z P} {s : PpsLine Z}

/-- How far the call that runs has come: it happens when `zsopinit` does. -/
def Pc.phase : Pc Z → Phase Call ℤ
  | .idle => .idle
  | .saveOps dev _ | .copyOps dev _ | .setXsint dev _ | .zsopinit dev _ => .begun (.push dev true)
  | .restore => .begun .pop
  | .saveZscom _ | .clearZscom | .clearOps => .happened 0

/-- What the call that runs has done so far. -/
def AtPc (b : Board Z P) (m : PpsStream Z P) (hook : Option Z) : Prop :=
  match m.pc with
  | .idle => (hook = none → m.ppssavedzsops = none) ∧ m.ppssavedzscom = hook
  | .saveOps dev zs =>
    hook = none ∧ m.ppssavedzscom = none ∧ b.zaCommon (line dev) = some zs
  | .copyOps dev zs =>
    hook = none ∧ m.ppssavedzscom = none ∧ b.zaCommon (line dev) = some zs ∧
      m.ppssavedzsops = some (.driver (b.zsOps zs))
  | .setXsint dev zs =>
    hook = none ∧ m.ppssavedzscom = none ∧ b.zaCommon (line dev) = some zs ∧
      m.ppssavedzsops = some (.driver (b.zsOps zs)) ∧
      m.ppszsops = ⟨.driver (b.zsOps zs), some (b.zsOps zs)⟩
  | .zsopinit dev zs =>
    hook = none ∧ m.ppssavedzscom = none ∧ b.zaCommon (line dev) = some zs ∧
      m.ppssavedzsops = some (.driver (b.zsOps zs)) ∧
      m.ppszsops = ⟨.ppsapiIntr, some (b.zsOps zs)⟩
  | .saveZscom zs => hook = some zs
  | .restore => hook ≠ none ∧ m.ppssavedzscom = hook
  | .clearZscom => hook = none
  | .clearOps => hook = none ∧ m.ppssavedzscom = none

/-- The variables are those of the atomic module: the vector of the hooked channel is
`ppszsops`, which is the driver's but for the one entry, and every other channel has its own. -/
structure Agrees (b : Board Z P) (m : PpsStream Z P) (s : PpsLine Z) : Prop where
  zaRr0 : m.zaRr0 = s.zaRr0
  info : m.ppsInfo = PpsLine.info s.log
  event : m.ppsclockev = PpsLine.event s.log
  bound : m.ppsKpcmode = s.bound
  vectors : ∀ zs, m.zsOps zs = if s.hook = some zs then .ppszsops else .driver (b.zsOps zs)
  hooked : ∀ zs, s.hook = some zs → m.ppssavedzsops = some (.driver (b.zsOps zs)) ∧
    m.ppszsops = ⟨.ppsapiIntr, some (b.zsOps zs)⟩
  pc : AtPc b m s.hook

theorem agrees_start (b : Board Z P) (rr0 : Fin 128 → BitVec 8) :
    Agrees b (start b rr0) (PpsLine.start rr0) where
  zaRr0 := rfl
  info := rfl
  event := rfl
  bound := rfl
  vectors := fun _ => rfl
  hooked := fun _ h => nomatch h
  pc := ⟨fun _ => rfl, rfl⟩

/-! ### Interrupts and messages -/

theorem Agrees.driverXsint (h : Agrees b m s) (x : Xsint Z) :
    Agrees b (driverXsint b m x).1
      { s with zaRr0 := Function.update s.zaRr0 (b.zsPriv x.zs) x.rr0 } := by
  refine ⟨?_, h.info, h.event, h.bound, h.vectors, h.hooked, h.pc⟩
  show Function.update m.zaRr0 _ _ = _
  rw [h.zaRr0]

/-- An interrupt of the hooked channel calls the routine of the module. -/
theorem Agrees.ppsapiIntr (h : Agrees b m s) {x : Xsint Z} (hx : s.hook = some x.zs) :
    Agrees b (ppsapiIntr b m x).1 (PpsLine.xsint b s x).1 ∧
      (ppsapiIntr b m x).2 = (PpsLine.xsint b s x).2 := by
  obtain ⟨hsaved, -⟩ := h.hooked x.zs hx
  unfold PpsStream.ppsapiIntr PpsLine.xsint
  rw [if_pos hx, h.zaRr0]
  cases hedge : carrierEdge x.s0 (s.zaRr0 (b.zsPriv x.zs)) with
  | none =>
    rw [hsaved]
    exact ⟨h.driverXsint x, rfl⟩
  | some e =>
    refine ⟨⟨rfl, ?_, ?_, h.bound, h.vectors, h.hooked, h.pc⟩, ?_⟩
    · rw [PpsLine.info_cons, ← h.info]
    · rw [PpsLine.event_cons, ← h.event]
    · rw [← h.bound]

theorem Agrees.dispatch (h : Agrees b m s) (x : Xsint Z) :
    Agrees b (dispatch b m x).1 (PpsLine.xsint b s x).1 ∧
      (dispatch b m x).2 = (PpsLine.xsint b s x).2 := by
  unfold PpsStream.dispatch
  by_cases hx : s.hook = some x.zs
  · rw [h.vectors, if_pos hx]
    unfold contents
    rw [(h.hooked x.zs hx).2]
    exact h.ppsapiIntr hx
  · have hdriver : PpsLine.xsint b s x
        = ({ s with zaRr0 := Function.update s.zaRr0 (b.zsPriv x.zs) x.rr0 }, .driver x.zs) := by
      unfold PpsLine.xsint
      rw [if_neg hx]
    rw [h.vectors, if_neg hx, hdriver]
    exact ⟨h.driverXsint x, rfl⟩

theorem Agrees.ppsapiWput (h : Agrees b m s) {message : Message}
    (hsupplied : Supplied m (.arrive (.wput message))) :
    Agrees b (m.ppsapiWput message).1 (s.bind message) ∧
      (m.ppsapiWput message).2 = s.reply message := by
  cases message with
  | flush flushw => exact ⟨h, rfl⟩
  | other => exact ⟨h, rfl⟩
  | ioctl cmd cont allocb =>
    cases cmd with
    | ciogetev =>
      refine ⟨h, ?_⟩
      show (if allocb then Outcome.iocack (.event m.ppsclockev) else .iocnak) = _
      rw [h.event]
      rfl
    | pps cmd =>
      cases cmd with
      | fetch =>
        refine ⟨h, ?_⟩
        show (if allocb then Outcome.iocack (.info m.ppsInfo) else .iocnak) = _
        rw [h.info]
        rfl
      | kpcbind =>
        cases cont with
        | none => exact absurd rfl (hsupplied allocb)
        | some mode =>
          exact ⟨⟨h.zaRr0, h.info, h.event, rfl, h.vectors, h.hooked, h.pc⟩, rfl⟩
      | _ => exact ⟨h, rfl⟩

/-! ### Calls -/

/-- While a line is hooked, the driver's vector is saved. -/
theorem Agrees.hook_eq_none (h : Agrees b m s) (hsaved : m.ppssavedzsops = none) :
    s.hook = none := by
  cases hhook : s.hook with
  | none => rfl
  | some zs => exact absurd ((h.hooked zs hhook).1.symm.trans hsaved) (Option.some_ne_none _)

theorem Agrees.saved_iff (h : Agrees b m s) (hpc : m.pc = .idle) :
    m.ppssavedzsops = none ↔ s.hook = none := by
  have hat := h.pc
  unfold AtPc at hat
  rw [hpc] at hat
  exact ⟨h.hook_eq_none, hat.1⟩

theorem Agrees.savedZscom (h : Agrees b m s) (hpc : m.pc = .idle) :
    m.ppssavedzscom = s.hook := by
  have hat := h.pc
  unfold AtPc at hat
  rw [hpc] at hat
  exact hat.2

/-- What a call returns is seen outside only. -/
theorem Agrees.returned (h : Agrees b m s) (r : ℤ) : Agrees b { m with returned := r } s where
  zaRr0 := h.zaRr0
  info := h.info
  event := h.event
  bound := h.bound
  vectors := h.vectors
  hooked := h.hooked
  pc := h.pc

/-- A call that is over at once happens there. -/
theorem explains_at_once {c : Call} {r : ℤ} (hpc : m.pc = .idle)
    (hcall : (PpsLine.atomic b).call s c = (s, r)) :
    (PpsLine.atomic b).Explains s .idle (.call c :: ending { m with returned := r }) s
      (Pc.phase m.pc) := by
  have hends : ending { m with returned := r } = [.ret r] := if_pos hpc
  have honce : (PpsLine.atomic b).Explains s .idle
      [.call c, .ret ((PpsLine.atomic b).call s c).2] ((PpsLine.atomic b).call s c).1 .idle :=
    .at_once s c
  rw [hcall] at honce
  rw [hends, hpc]
  exact honce

/-- A push is over at once, without a hook of its own, or it has changed nothing yet. -/
theorem Agrees.push (h : Agrees b m s) (hpc : m.pc = .idle) (dev : ℕ) (modopen : Bool) :
    (PpsLine.atomic b).Explains s .idle
        (.call (.push dev modopen) :: (ppsapiOpen b m dev modopen).ending) s
        (ppsapiOpen b m dev modopen).pc.phase ∧
      Agrees b (ppsapiOpen b m dev modopen) s := by
  unfold ppsapiOpen
  cases modopen with
  | false => exact ⟨explains_at_once hpc rfl, h.returned (-1)⟩
  | true =>
    rw [if_neg (by decide)]
    split_ifs with hsaved
    · have hhook : s.hook = none := h.hook_eq_none hsaved
      cases hcommon : b.zaCommon (line dev) with
      | none =>
        refine ⟨explains_at_once hpc ?_, h.returned (-1)⟩
        show PpsLine.push b s dev true = _
        simp [PpsLine.push, hhook, hcommon]
      | some zs =>
        refine ⟨.call .nil, h.zaRr0, h.info, h.event, h.bound, h.vectors, h.hooked, hhook, ?_,
          hcommon⟩
        exact (h.savedZscom hpc).trans hhook
    · obtain ⟨zs, hzs⟩ := Option.ne_none_iff_exists'.mp (mt (h.saved_iff hpc).mpr hsaved)
      refine ⟨explains_at_once hpc ?_, h.returned 0⟩
      show PpsLine.push b s dev true = _
      simp [PpsLine.push, hzs]

theorem Agrees.pop (h : Agrees b m s) (hpc : m.pc = .idle) :
    (PpsLine.atomic b).Explains s .idle (.call .pop :: m.ppsapiClose.ending) s
        m.ppsapiClose.pc.phase ∧
      Agrees b m.ppsapiClose s := by
  unfold ppsapiClose
  split_ifs with hsaved
  · have hhook : s.hook = none := h.hook_eq_none hsaved
    refine ⟨explains_at_once hpc ?_, h.returned 0⟩
    show (({ s with hook := none } : PpsLine Z), (0 : ℤ)) = (s, 0)
    rw [← hhook]
  · exact ⟨.call .nil, h.zaRr0, h.info, h.event, h.bound, h.vectors, h.hooked,
      mt (h.saved_iff hpc).mpr hsaved, h.savedZscom hpc⟩

/-- The variables of the file while nothing is hooked: what a call writes to them is not seen. -/
theorem Agrees.unhooked (h : Agrees b m s) (hhook : s.hook = none) {m' : PpsStream Z P}
    (hzs : m'.zsOps = m.zsOps) (hrr0 : m'.zaRr0 = m.zaRr0) (hinfo : m'.ppsInfo = m.ppsInfo)
    (hevent : m'.ppsclockev = m.ppsclockev) (hbound : m'.ppsKpcmode = m.ppsKpcmode)
    (hpc : AtPc b m' none) : Agrees b m' s where
  zaRr0 := hrr0.trans h.zaRr0
  info := hinfo.trans h.info
  event := hevent.trans h.event
  bound := hbound.trans h.bound
  vectors := fun zs => (congrFun hzs zs).trans (h.vectors zs)
  hooked := fun zs hzs => absurd (hhook.symm.trans hzs) (by simp)
  pc := hhook ▸ hpc

theorem Agrees.not_nextPanics (h : Agrees b m s) : ¬ m.nextPanics := by
  have hat : AtPc b m s.hook := h.pc
  unfold AtPc at hat
  unfold nextPanics
  cases hpc : m.pc with
  | copyOps dev zs =>
    rw [hpc] at hat
    obtain ⟨-, -, -, hsaved⟩ := hat
    simp [hsaved]
  | restore =>
    rw [hpc] at hat
    obtain ⟨hne, hscom⟩ := hat
    obtain ⟨zs, hhook⟩ := Option.ne_none_iff_exists'.mp hne
    simp [hscom, hhook, (h.hooked zs hhook).1]
  | _ => exact id

theorem seen_next (hpc : m.pc ≠ .idle) (hnext : m.next.pc ≠ .idle) :
    seen b m .next = [] := by
  show (if _ then _ else _) = _
  rw [if_neg hpc]
  exact if_neg hnext

/-- The push happens at `zsopinit`: from there on the channel's interrupts come to the
module. -/
theorem Agrees.zsopinit (h : Agrees b m s) {dev : ℕ} {zs : Z} (hpc : m.pc = .zsopinit dev zs) :
    m.next.pc = .saveZscom zs ∧ Agrees b m.next { s with hook := some zs } := by
  have hat : AtPc b m s.hook := h.pc
  unfold AtPc at hat
  rw [hpc] at hat
  obtain ⟨hhook, -, -, hsaved, hops⟩ := hat
  unfold PpsStream.next
  rw [hpc]
  refine ⟨rfl, h.zaRr0, h.info, h.event, h.bound, ?_, ?_, rfl⟩
  · intro zs'
    show Function.update m.zsOps zs .ppszsops zs' = if some zs = some zs' then _ else _
    by_cases hzs : zs' = zs
    · subst hzs
      rw [Function.update_self, if_pos rfl]
    · rw [Function.update_of_ne hzs, if_neg (fun heq => hzs (Option.some.inj heq).symm),
        h.vectors, hhook]
      exact if_neg (by simp)
  · intro zs' hzs
    obtain rfl : zs = zs' := Option.some.inj hzs
    exact ⟨hsaved, hops⟩

/-- The pop happens where the vector is restored, and from there on they no longer do. -/
theorem Agrees.restore (h : Agrees b m s) (hpc : m.pc = .restore) :
    m.next.pc = .clearZscom ∧ Agrees b m.next { s with hook := none } := by
  have hat : AtPc b m s.hook := h.pc
  unfold AtPc at hat
  rw [hpc] at hat
  obtain ⟨hne, hscom⟩ := hat
  obtain ⟨zs, hhook⟩ := Option.ne_none_iff_exists'.mp hne
  obtain ⟨hsaved, -⟩ := h.hooked zs hhook
  rw [hhook] at hscom
  unfold PpsStream.next
  rw [hpc]
  dsimp only
  rw [hscom, hsaved]
  refine ⟨rfl, h.zaRr0, h.info, h.event, h.bound, ?_, fun _ hno => (nomatch hno), rfl⟩
  intro zs'
  show Function.update m.zsOps zs (.driver (b.zsOps zs)) zs' = .driver (b.zsOps zs')
  by_cases hzs : zs' = zs
  · subst hzs
    exact Function.update_self ..
  · rw [Function.update_of_ne hzs, h.vectors, hhook]
    exact if_neg fun heq => hzs (Option.some.inj heq).symm

/-- Each instruction, with what the calls have assigned before it. -/
theorem Agrees.next (h : Agrees b m s) : ∃ s',
    (PpsLine.atomic b).Explains s m.pc.phase (seen b m .next) s' m.next.pc.phase ∧
      Agrees b m.next s' := by
  have hat : AtPc b m s.hook := h.pc
  unfold AtPc at hat
  cases hpc : m.pc with
  | idle =>
    unfold seen PpsStream.next
    rw [hpc]
    refine ⟨s, ?_, h⟩
    dsimp only
    rw [if_pos rfl, hpc]
    exact .nil
  | saveOps dev zs =>
    unfold seen PpsStream.next
    rw [hpc] at hat ⊢
    obtain ⟨hhook, hscom, hcommon⟩ := hat
    have hown : m.zsOps zs = .driver (b.zsOps zs) := by
      rw [h.vectors, hhook]
      exact if_neg (by simp)
    refine ⟨s, .nil, h.unhooked hhook rfl rfl rfl rfl rfl ⟨rfl, hscom, hcommon, ?_⟩⟩
    exact congrArg some hown
  | copyOps dev zs =>
    unfold seen PpsStream.next
    rw [hpc] at hat ⊢
    obtain ⟨hhook, hscom, hcommon, hsaved⟩ := hat
    refine ⟨s, .nil, h.unhooked hhook rfl rfl rfl rfl rfl ⟨rfl, hscom, hcommon, hsaved, ?_⟩⟩
    show m.ppssavedzsops.elim _ m.contents = _
    rw [hsaved]
    rfl
  | setXsint dev zs =>
    unfold seen PpsStream.next
    rw [hpc] at hat ⊢
    obtain ⟨hhook, hscom, hcommon, hsaved, hops⟩ := hat
    refine ⟨s, .nil, h.unhooked hhook rfl rfl rfl rfl rfl ⟨rfl, hscom, hcommon, hsaved, ?_⟩⟩
    show ({ m.ppszsops with zsopXsint := .ppsapiIntr } : Zsops P) = _
    rw [hops]
  | zsopinit dev zs =>
    obtain ⟨hnext, hagrees⟩ := h.zsopinit hpc
    rw [seen_next (by simp [hpc]) (by simp [hnext]), hnext]
    rw [hpc] at hat
    obtain ⟨hhook, -, hcommon, -, -⟩ := hat
    have hcall : (PpsLine.atomic b).call s (.push dev true) = ({ s with hook := some zs }, 0) := by
      show PpsLine.push b s dev true = _
      simp [PpsLine.push, hhook, hcommon]
    refine ⟨{ s with hook := some zs }, .happens ?_, hagrees⟩
    rw [hcall]
    exact .nil
  | saveZscom zs =>
    unfold seen PpsStream.next
    rw [hpc] at hat ⊢
    refine ⟨s, .ret .nil, h.zaRr0, h.info, h.event, h.bound, h.vectors, h.hooked, ?_, hat.symm⟩
    exact fun hnone => absurd (hat.symm.trans hnone) (Option.some_ne_none zs)
  | restore =>
    obtain ⟨hnext, hagrees⟩ := h.restore hpc
    rw [seen_next (by simp [hpc]) (by simp [hnext]), hnext]
    exact ⟨{ s with hook := none }, .happens .nil, hagrees⟩
  | clearZscom =>
    unfold seen PpsStream.next
    rw [hpc] at hat ⊢
    exact ⟨s, .nil, h.unhooked hat rfl rfl rfl rfl rfl ⟨rfl, rfl⟩⟩
  | clearOps =>
    unfold seen PpsStream.next
    rw [hpc] at hat ⊢
    obtain ⟨hhook, hscom⟩ := hat
    exact ⟨s, .ret .nil, h.unhooked hhook rfl rfl rfl rfl rfl ⟨fun _ => rfl, hscom⟩⟩

theorem Agrees.arrive (h : Agrees b m s) {a : Arrival Z} (ha : Supplied m (.arrive a)) :
    Agrees b (arrive b m a).1 ((PpsLine.atomic b).event s a).1 ∧
      (PpsStream.arrive b m a).2 = ((PpsLine.atomic b).event s a).2 := by
  cases a with
  | xsint x => exact h.dispatch x
  | wput message => exact h.ppsapiWput ha

/-- One step of the module is explained by the atomic one. -/
theorem Agrees.step (h : Agrees b m s) {op : Op Z} (hop : Supplied m op) : ∃ s',
    (PpsLine.atomic b).Explains s m.pc.phase (seen b m op) s' (step b m op).pc.phase ∧
      Agrees b (PpsStream.step b m op) s' := by
  cases op with
  | call c =>
    unfold seen PpsStream.step
    dsimp only
    split_ifs with hpc
    · rw [hpc]
      cases c with
      | push dev modopen => exact ⟨s, h.push hpc dev modopen⟩
      | pop => exact ⟨s, h.pop hpc⟩
    · exact ⟨s, .nil, h⟩
  | next => exact h.next
  | arrive a =>
    obtain ⟨hkept, hout⟩ := h.arrive hop
    have hphase : (PpsStream.step b m (.arrive a)).pc = m.pc := arrive_pc b m a
    refine ⟨_, ?_, hkept⟩
    rw [hphase]
    unfold seen
    dsimp only
    rw [hout]
    exact .event .nil

/-- Every run of the module, with interrupts and messages between any two instructions of a push
or a pop, looks from outside like one of the atomic module, and nothing panics: each call
happens once between its beginning and its end and returns what it does there, the driver
keeps all its interrupts but the carrier edges of the hooked line, which are counted, kept and
handed to `hardpps`, and a fetch shows all edges since the module was loaded. -/
theorem ppsStream_linearises (b : Board Z P) (rr0 : Fin 128 → BitVec 8) (ops : List (Op Z))
    (hops : Along (step b) Supplied (start b rr0) ops) :
    (∃ s, (PpsLine.atomic b).Explains (PpsLine.start rr0) .idle
        (history (step b) (seen b) (start b rr0) ops) s
        (run (step b) (start b rr0) ops).pc.phase) ∧
      Along (step b) (NoPanic b) (start b rr0) ops := by
  have hstart : Agrees b (start b rr0) (PpsLine.start rr0) := agrees_start b rr0
  obtain ⟨s, hexplains, -⟩ := AtomicObject.explains_history
    (p := fun m : PpsStream Z P => m.pc.phase) (fun _ _ _ h hop => h.step hop) hstart hops
  refine ⟨⟨s, hexplains⟩, ?_⟩
  refine along_of_invariant (I := fun m => ∃ s, Agrees b m s) ?_ ?_ ⟨_, hstart⟩ hops
  · rintro m op ⟨s, h⟩ hop
    obtain ⟨s', -, h'⟩ := h.step hop
    exact ⟨s', h'⟩
  · rintro m op ⟨s, h⟩ hop
    cases op with
    | call c => trivial
    | next => exact h.not_nextPanics
    | arrive a =>
      show (PpsStream.arrive b m a).2 ≠ .panic
      rw [(h.arrive hop).2]
      exact PpsLine.event_ne_panic b s a

/-- Two lines, with the channels of one chip. -/
def twoLines : Board Bool Unit where
  zaCommon l := if l = line 0 then some false else if l = line 1 then some true else none
  zsPriv zs := line zs.toNat
  zsOps _ := ()

def carrierUp (zs : Bool) : Xsint Bool := ⟨zs, 0x08#8, ⟨5, 0⟩, ⟨5, 100⟩, 7, 0x08#8⟩
def carrierDown (zs : Bool) : Xsint Bool := ⟨zs, 0x00#8, ⟨6, 0⟩, ⟨6, 200⟩, 8, 0x00#8⟩

/-- The first line is pushed, with an edge just after `zsopinit`; the second is pushed and
popped, and takes the first one's hook with it. -/
def secondPop : List (Op Bool) :=
  [.arrive (.wput (.ioctl (.pps .kpcbind) (some ppsCaptureassert) true)), .call (.push 0 true),
    .next, .next, .next, .next, .arrive (.xsint (carrierUp false)), .next, .call (.push 1 true),
    .call .pop, .next, .next, .next, .arrive (.xsint (carrierDown false)),
    .arrive (.wput (.ioctl (.pps .fetch) none true))]

/-- What is seen of it. -/
def secondPopSeen : List (Seen Call ℤ (Arrival Bool) (Outcome Bool)) :=
  [.event (.wput (.ioctl (.pps .kpcbind) (some ppsCaptureassert) true)) (.iocack .empty),
    .call (.push 0 true),
    .event (.xsint (carrierUp false)) (.captured false .assert (some (⟨5, 100⟩, 7))),
    .ret 0, .call (.push 1 true), .ret 0, .call .pop, .ret 0,
    .event (.xsint (carrierDown false)) (.driver false),
    .event (.wput (.ioctl (.pps .fetch) none true))
      (.iocack (.info ⟨1, 0, ⟨5, 100⟩, ⟨0, 0⟩, 0⟩))]

theorem ppsStream_linearises_secondPop : ∃ s,
    (PpsLine.atomic twoLines).Explains (PpsLine.start fun _ => 0) .idle secondPopSeen s .idle := by
  have hseen : history (step twoLines) (seen twoLines) (start twoLines fun _ => 0) secondPop
      = secondPopSeen := by decide +kernel
  have hidle : (run (step twoLines) (start twoLines fun _ => 0) secondPop).pc.phase = .idle := by
    decide +kernel
  obtain ⟨s, hexplains⟩ :=
    (ppsStream_linearises twoLines (fun _ => 0) secondPop (by decide +kernel)).1
  rw [hseen, hidle] at hexplains
  exact ⟨s, hexplains⟩

end PpsStream

end Nanokernel
