import Rv64gc.Execute.FpuMisc
import Rv64gc.Execute.Iq2Port

/-!
# FPnew's operations that round nothing

`fpu_fpnew_wrapper.sv` turns an operation of the core into one of FPnew. Sign injection, minimum and
maximum, comparison and classification go to the block NONCOMP, which has no registers here:
`fpnew_noncomp.sv`, with the slice for the format of the result around it.
-/

namespace Rv64gc.Execute

open Hdl

-- ---------------------------------------------------------------------
-- The wrapper
-- ---------------------------------------------------------------------

/-- `operation_e`, as far as the wrapper uses it -/
inductive FpnewOp where
  | fmadd | fnmsub | add | mul | div | sqrt | sgnj | minmax | cmp | classify | f2f | f2i | i2f
deriving DecidableEq

namespace Fpnew

abbrev rne : BitVec 3 := 0
abbrev rtz : BitVec 3 := 1
abbrev rdn : BitVec 3 := 2
abbrev rup : BitVec 3 := 3
abbrev dyn : BitVec 3 := 7

end Fpnew

open Fpnew

/-- What `u_fpnew` is given. -/
structure FpnewReq where
  op : FpnewOp
  opMod : Bool
  rm : BitVec 3
  srcFmt : FpFmt
  dstFmt : FpFmt
  intFmt : FpIntFmt
  operand0 : Word
  operand1 : Word
  operand2 : Word
  tag : CdbTag
deriving DecidableEq

namespace FpOp

variable (x : FpOp)

/-- `mapped_rm` -/
def mappedRm : BitVec 3 := if x.rmValid then x.rm else dyn

/-- `mapped_int_fmt` -/
def mappedIntFmt : FpIntFmt := if x.info.intFmt = .i32 then .i32 else .i64

/-- `fpnew_rm`: where nothing is rounded it tells which operation of its kind is meant. -/
def fpnewRm : BitVec 3 :=
  match x.info.op, x.info.miscOp with
  | .sgnj, .sgnj => rne
  | .sgnj, .sgnjn => rtz
  | .sgnj, .sgnjx => rdn
  | .minmax, .min => rne
  | .minmax, .max => rtz
  | .cmp, .eq => rdn
  | .cmp, .lt => rtz
  | .cmp, .le => rne
  | .classify, _ => rne
  | _, _ => x.mappedRm

/-- An operation with the three operands in order. -/
def fpnewCall (op : FpnewOp) : FpnewReq :=
  ⟨op, x.info.opMod, x.fpnewRm, x.info.fmt, x.info.dstFmt, x.mappedIntFmt, x.rs1, x.rs2, x.rs3,
    x.tag⟩

/-- An operation with one operand. -/
def fpnewCallOne (op : FpnewOp) : FpnewReq := { x.fpnewCall op with operand1 := 0, operand2 := 0 }

/-- The request of the wrapper; an addition takes the last two operands. -/
def fpnewReq : FpnewReq :=
  match x.info.op with
  | .none => x.fpnewCall .add
  | .add => { x.fpnewCall .add with operand0 := 0, operand1 := x.rs1, operand2 := x.rs2 }
  | .fmadd => x.fpnewCall .fmadd
  | .fnmsub => x.fpnewCall .fnmsub
  | .mul => x.fpnewCall .mul
  | .div => x.fpnewCall .div
  | .sqrt => x.fpnewCallOne .sqrt
  | .sgnj => x.fpnewCall .sgnj
  | .minmax => x.fpnewCall .minmax
  | .cmp => x.fpnewCall .cmp
  | .classify => x.fpnewCallOne .classify
  | .f2f => x.fpnewCallOne .f2f
  | .f2i => x.fpnewCallOne .f2i
  | .i2f => x.fpnewCallOne .i2f

end FpOp

-- ---------------------------------------------------------------------
-- The block
-- ---------------------------------------------------------------------

/-- `fp_info_t` of `fpnew_classifier` -/
structure FpnewInfo where
  isNormal : Bool
  isSubnormal : Bool
  isZero : Bool
  isInf : Bool
  isNan : Bool
  isSignalling : Bool
  isBoxed : Bool

section Noncomp

variable {F : FloatFormat}

/-- A word that is not NaN-boxed counts as a quiet NaN. -/
def classifyInput (x : F.Word) (isBoxed : Bool) : FpnewInfo :=
  let isZero := isBoxed && x.exponent == 0 && x.fraction == 0
  let isNan := !isBoxed || x.exponent == BitVec.allOnes _ && x.fraction != 0
  { isNormal := isBoxed && x.exponent != 0 && x.exponent != BitVec.allOnes _
    isZero
    isSubnormal := isBoxed && x.exponent == 0 && !isZero
    isInf := isBoxed && (x.exponent == BitVec.allOnes _ && x.fraction == 0)
    isNan
    isSignalling := isBoxed && isNan && !x.fraction.msb
    isBoxed }

/-- `'{sign: 1'b0, exponent: '1, mantissa: 2**(MAN_BITS-1)}` -/
def quietNan (F : FloatFormat) : F.Word :=
  .signed false (BitVec.allOnes F.expBits ++ BitVec.twoPow F.fracBits (F.fracBits - 1))

/-- `DONT_CARE` in every bit -/
def dontCare (F : FloatFormat) : F.Word := BitVec.allOnes _

variable (a b : F.Word) (infoA infoB : FpnewInfo) (rm : BitVec 3) (opMod : Bool)

def operandsEqual : Bool := a == b || infoA.isZero && infoB.isZero

/-- An unsigned comparison, the other way round where a sign is set. -/
def operandASmaller : Bool := decide (a < b) ^^ (a.sign || b.sign)

def sgnjResult : F.Word :=
  let base := if infoA.isBoxed then a else quietNan F
  let signA := a.sign && infoA.isBoxed
  let signB := b.sign && infoB.isBoxed
  if rm = rne then .signed signB base.low
  else if rm = rtz then .signed (!signB) base.low
  else if rm = rdn then .signed (signA ^^ signB) base.low
  else if rm = rup then a
  else dontCare F

def minmaxResult : F.Word :=
  if infoA.isNan && infoB.isNan then quietNan F
  else if infoA.isNan then b
  else if infoB.isNan then a
  else if rm = rne then if operandASmaller a b then a else b
  else if rm = rtz then if operandASmaller a b then b else a
  else dontCare F

/-- `cmp_result`, with the flag -/
def cmpResult : F.Word × Bool :=
  let flag (p : Bool) : F.Word := (BitVec.ofBool p).setWidth _
  let anyNan := infoA.isNan || infoB.isNan
  let equal := operandsEqual a b infoA infoB
  if infoA.isSignalling || infoB.isSignalling then (flag (rm == rdn && opMod), true)
  else if rm = rne then
    if anyNan then (0, true) else (flag ((operandASmaller a b || equal) ^^ opMod), false)
  else if rm = rtz then
    if anyNan then (0, true) else (flag ((operandASmaller a b && !equal) ^^ opMod), false)
  else if rm = rdn then
    if anyNan then (flag opMod, false) else (flag (equal ^^ opMod), false)
  else (dontCare F, false)

/-- The bit of `class_mask_d`: `NEGINF`, `NEGNORM` and so on up to `QNAN`. -/
def classMaskBit : Nat :=
  if infoA.isNormal then if a.sign then 1 else 6
  else if infoA.isSubnormal then if a.sign then 2 else 5
  else if infoA.isZero then if a.sign then 3 else 4
  else if infoA.isInf then if a.sign then 0 else 7
  else if infoA.isNan then if infoA.isSignalling then 8 else 9
  else 9

/-- A slice sends its result out to the whole register, filled up with the extension bit. -/
def sliceResult (extensionBit : Bool) (result : F.Word) : Word :=
  (BitVec.ofBool extensionBit ++ result).signExtend 64

/-- `fpnew_noncomp` in its slice; a class leaves by a port of its own. -/
def noncompSlice (op : FpnewOp) : Word × FpStatus :=
  match op with
  | .sgnj =>
    let result := sgnjResult a b infoA infoB rm
    (sliceResult (if opMod then result.sign else true) result, {})
  | .minmax =>
    (sliceResult true (minmaxResult a b infoA infoB rm),
      { nv := infoA.isSignalling || infoB.isSignalling })
  | .cmp =>
    let (result, nv) := cmpResult a b infoA infoB rm opMod
    (sliceResult false result, { nv })
  | .classify => ((BitVec.twoPow 10 (classMaskBit a infoA)).setWidth 64, {})
  | _ => (sliceResult true (dontCare F), ⟨true, true, true, true, true⟩)

end Noncomp

namespace FpnewReq

variable (r : FpnewReq)

/-- `is_boxed` of `fpnew_top` for single precision -/
def boxed (data : Word) : Bool := data.extractLsb' 32 32 == BitVec.allOnes 32

/-- What the block answers in the cycle of the request. The format of the result chooses the
slice. -/
def noncomp : Word × FpStatus :=
  match r.dstFmt with
  | .s =>
    let a : single.Word := r.operand0.extractLsb' 0 32
    let b : single.Word := r.operand1.extractLsb' 0 32
    noncompSlice a b (classifyInput a (boxed r.operand0)) (classifyInput b (boxed r.operand1)) r.rm
      r.opMod r.op
  | .d =>
    let a : double.Word := r.operand0
    let b : double.Word := r.operand1
    noncompSlice a b (classifyInput a true) (classifyInput b true) r.rm r.opMod r.op

end FpnewReq

end Rv64gc.Execute
