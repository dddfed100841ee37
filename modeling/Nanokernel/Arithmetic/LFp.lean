import Mathlib.Data.Int.Init
import Mathlib.Data.BitVec

/-!
# The fixed-point macros of `l_fp.h`

`ktime.c` is written against one set of macro names and compiled against one
of two bodies. `LFp` is the set of names; `LFp64` is the body behind
`NTP_L64` (one `long long`), `LFp32` the body for 32-bit machines (two words).
Both follow the macros expression by expression, in two's complement words.
-/

namespace Nanokernel

/-- The operations `ktime.c` performs on a 32.32 fixed-point variable. The
integer operands are the C `long` or `int` arguments of the macros. -/
class LFp (F : Type) where
  lAdd : F → F → F
  lSub : F → F → F
  lAddhi : F → Int → F
  lRshift : F → Nat → F
  lMpy : F → Int → F
  lClr : F
  lLint : Int → F
  lGint : F → Int

export LFp (lAdd lSub lAddhi lRshift lMpy lClr lLint lGint)

/-! ## `NTP_L64`: single-precision macros for 64-bit machines -/

/-- `typedef long long l_fp`. -/
abbrev LFp64 := BitVec 64

namespace LFp64

def lRshift (v : LFp64) (n : Nat) : LFp64 :=
  if v.slt 0 then -((-v).sshiftRight n) else v.sshiftRight n

def lGint (v : LFp64) : Int :=
  if v.slt 0 then (-((-v).sshiftRight 32)).toInt else (v.sshiftRight 32).toInt

end LFp64

instance : LFp LFp64 where
  lAdd v u := v + u
  lSub v u := v - u
  lAddhi v a := v + BitVec.ofInt 64 a <<< 32
  lRshift := LFp64.lRshift
  lMpy v a := v * BitVec.ofInt 64 a
  lClr := 0
  lLint a := BitVec.ofInt 64 a <<< 32
  lGint := LFp64.lGint

/-! ## Double-precision macros for 32-bit machines -/

/-- The two words of `l_fp`: `l_i`, the integral part, and `l_uf`, the
fractional part. Signed and unsigned reads of a word are told apart at the
operation, as the unions of the C type do. -/
structure LFp32 where
  li : BitVec 32
  luf : BitVec 32
deriving DecidableEq, Repr

namespace LFp32

/-- `x & mask`, read as a C truth value. -/
def bit (x mask : BitVec 32) : Bool := x &&& mask != 0

/-- `M_ADD`: the fractions are added in 16-bit halves to see the carry. -/
def mAdd (r a : LFp32) : LFp32 :=
  let loTmp := (r.luf &&& 0xffff#32) + (a.luf &&& 0xffff#32)
  let hiTmp := (r.luf >>> 16 &&& 0xffff#32) + (a.luf >>> 16 &&& 0xffff#32)
  let hiTmp := if bit loTmp 0x10000#32 then hiTmp + 1 else hiTmp
  let ri := r.li + a.li
  { li := if bit hiTmp 0x10000#32 then ri + 1 else ri
    luf := (hiTmp &&& 0xffff#32) <<< 16 ||| (loTmp &&& 0xffff#32) }

/-- `M_SUB`: a zero fraction is a case of its own; otherwise the fraction is
negated in two's complement and the integral part in one's complement. -/
def mSub (r a : LFp32) : LFp32 :=
  if a.luf = 0 then { r with li := r.li - a.li }
  else
    let loTmp := (r.luf &&& 0xffff#32) + (-a.luf &&& 0xffff#32)
    let hiTmp := (r.luf >>> 16 &&& 0xffff#32)
      + ((-a.luf).sshiftRight 16 &&& 0xffff#32)
    let hiTmp := if bit loTmp 0x10000#32 then hiTmp + 1 else hiTmp
    let ri := r.li + ~~~a.li
    { li := if bit hiTmp 0x10000#32 then ri + 1 else ri
      luf := (hiTmp &&& 0xffff#32) <<< 16 ||| (loTmp &&& 0xffff#32) }

/-- `M_NEG`. -/
def mNeg (v : LFp32) : LFp32 :=
  if v.luf = 0 then { v with li := -v.li }
  else { li := ~~~v.li, luf := -v.luf }

/-- The shift both branches of `M_RSHIFT` make. -/
def mRshiftMagnitude (v : LFp32) (n : Nat) : LFp32 :=
  if n < 32 then
    { li := v.li.sshiftRight n, luf := v.luf >>> n ||| v.li <<< (32 - n) }
  else
    { li := 0, luf := v.li.sshiftRight (n - 32) }

/-- `M_RSHIFT`: a negative value is negated, shifted and negated back. -/
def mRshift (v : LFp32) (n : Nat) : LFp32 :=
  if v.li.slt 0 then mNeg (mRshiftMagnitude (mNeg v) n)
  else mRshiftMagnitude v n

/-- The product both branches of `M_MPY` form, column by 16-bit column. -/
def mMpyMagnitude (v : LFp32) (m : Int) : LFp32 :=
  let m := BitVec.ofInt 32 m
  let d := (v.luf &&& 0xffff#32) * m
  let c := (v.luf >>> 16) * m + d >>> 16
  let b := (v.li &&& 0xffff#32) * m + c >>> 16
  let a := v.li.sshiftRight 16 * m + b >>> 16
  { li := a <<< 16 + (b &&& 0xffff#32), luf := c <<< 16 + (d &&& 0xffff#32) }

/-- `M_MPY`. -/
def mMpy (v : LFp32) (m : Int) : LFp32 :=
  if v.li.slt 0 then mNeg (mMpyMagnitude (mNeg v) m)
  else mMpyMagnitude v m

end LFp32

instance : LFp LFp32 where
  lAdd := LFp32.mAdd
  lSub := LFp32.mSub
  lAddhi v a := LFp32.mAdd v ⟨BitVec.ofInt 32 a, 0⟩
  lRshift := LFp32.mRshift
  lMpy := LFp32.mMpy
  lClr := ⟨0, 0⟩
  lLint a := ⟨BitVec.ofInt 32 a, 0⟩
  lGint v := v.li.toInt

end Nanokernel
