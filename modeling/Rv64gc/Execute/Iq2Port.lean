import Rv64gc.Execute.Divider
import Rv64gc.Execute.MulQueue

/-!
# The port of ALU3, the divider and the FPU

`rv64gc_core_top.sv` and `fpu_top.sv`: IQ2 issues one operation a cycle, to ALU3, the CSR file, the
divider or the FPU, and all of them answer on CDB[3]. FPnew is a parameter: it takes operations and
returns each some time later. Nothing but the terms that suppress the issue keeps ALU3 and the FPU
apart.
-/

namespace Rv64gc.Execute

open Hdl

-- ---------------------------------------------------------------------
-- Operations
-- ---------------------------------------------------------------------

/-- `fpu_req_data_r` with the operands and the rounding mode, into which `frm` has been put. -/
structure FpOp where
  tag : CdbTag
  info : FpInfo
  rm : BitVec 3
  rs1 : Word
  rs2 : Word
  rs3 : Word
deriving DecidableEq

namespace FpOp

variable (x : FpOp)

def isFmv : Bool := x.info.pipe == .fmv

def rmValid : Bool := decide (x.rm.toNat ≤ 4)

/-- `fpnew_unsupported` of the wrapper -/
def fpnewUnsupported : Bool :=
  match x.info.op with
  | .add | .fmadd | .fnmsub | .mul | .div | .sqrt | .f2f | .f2i | .i2f => !x.rmValid
  | .sgnj => !(x.info.miscOp == .sgnj || x.info.miscOp == .sgnjn || x.info.miscOp == .sgnjx)
  | .minmax => !(x.info.miscOp == .min || x.info.miscOp == .max)
  | .cmp => !(x.info.miscOp == .eq || x.info.miscOp == .lt || x.info.miscOp == .le)
  | .classify => false
  | .none => true

/-- `fmv_unit` -/
def fmvResult : Word :=
  match x.info.fmvOp with
  | .wFromX => BitVec.allOnes 32 ++ x.rs1.setWidth 32
  | .xFromW => (x.rs1.setWidth 32).signExtend 64
  | .dFromX => x.rs1
  | .xFromD => x.rs1

end FpOp

/-- `cdb_csr_we[3]`, `cdb_csr_addr[3]`, `cdb_csr_wdata[3]` and `cdb_csr_op[3]` -/
structure CsrPort where
  we : Bool
  addr : BitVec 12
  wdata : Word
  op : BitVec 2
deriving DecidableEq

def CsrPort.none : CsrPort := ⟨false, 0, 0, 0⟩

/-- An operation of IQ2. ALU3 and the CSR file have their values in the cycle of the issue. -/
inductive Iq2Op where
  | alu (tag : CdbTag) (value : Word) (csr : CsrPort)
  /-- With `csr_access_illegal`. -/
  | csr (tag : CdbTag) (value : Word) (illegal : Bool) (csr : CsrPort)
  | div (tag : CdbTag) (req : DivReq)
  | fp (x : FpOp)
deriving DecidableEq

namespace Iq2Op

def isFp : Iq2Op → Bool
  | .fp _ => true
  | _ => false

def isCsr : Iq2Op → Bool
  | .csr .. => true
  | _ => false

def isDiv : Iq2Op → Bool
  | .div .. => true
  | _ => false

/-- ALU3 or the CSR file -/
def isNow : Iq2Op → Bool
  | .alu .. | .csr .. => true
  | _ => false

end Iq2Op

/-- CDB[3], with `cdb_fp_fflags[3]` where they are valid. -/
structure Broadcast where
  tag : CdbTag
  data : Word
  exception : Bool
  fflags : BitVec 5
  csr : CsrPort
deriving DecidableEq

/-- What FPnew makes of an operation: the result and `{nv, dz, of, uf, nx}`. -/
abbrev FpnewFn := FpOp → Word × BitVec 5

-- ---------------------------------------------------------------------
-- State and inputs
-- ---------------------------------------------------------------------

structure Iq2Port where
  divider : Divider
  /-- `div_rob_idx_r` and `div_pdst_r` -/
  divTag : CdbTag
  /-- `div_hold_valid_r` with what is held -/
  divHold : Option CdbResult
  fpuReqValid : Bool
  fpuReq : FpOp

structure Iq2In where
  flush : Option PortFlush
  /-- `iq2_issue_candidate_valid_s` and `iq2_issue_data_s` -/
  candidate : Option Iq2Op
  /-- The candidate is not at the head of the reorder buffer. -/
  notHead : Bool
  fpnewInReady : Bool
  /-- `fpnew_out_valid` with the operation that FPnew returns. -/
  fpnewOut : Option FpOp

namespace Iq2In

variable (i : Iq2In)

def fullFlush : Bool := i.flush.any (·.isFull)

def partlyClears (r : RobIdx) : Bool := i.flush.any (·.partlyClears r)

end Iq2In

namespace Iq2Port

def noReq : FpOp :=
  ⟨⟨0, 0⟩, ⟨.s, .s, .i32, 0, .misc, .none, false, .sgnj, .wFromX⟩, 0, 0, 0, 0⟩

def reset : Iq2Port := ⟨.reset, ⟨0, 0⟩, none, false, noReq⟩

variable (pipelined : Bool) (fpnew : FpnewFn) (s : Iq2Port) (i : Iq2In)

-- ---------------------------------------------------------------------
-- The FPU
-- ---------------------------------------------------------------------

/-- `in_valid_i` and `in_ready_o` of FPnew -/
def fpnewAccept : Option FpOp :=
  if s.fpuReqValid && !s.fpuReq.isFmv && !s.fpuReq.fpnewUnsupported && i.fpnewInReady then
    some s.fpuReq
  else none

/-- What FPnew returns goes first, before a move and before an operation it does not know. -/
def fpuReady : Bool :=
  if s.fpuReq.isFmv || s.fpuReq.fpnewUnsupported then i.fpnewOut.isNone else i.fpnewInReady

/-- `fpu_out_valid` with the other outputs -/
def fpuOut : Option (CdbTag × Word × BitVec 5) :=
  match i.fpnewOut with
  | some x => some (x.tag, fpnew x)
  | none =>
    if s.fpuReqValid && s.fpuReq.isFmv then some (s.fpuReq.tag, s.fpuReq.fmvResult, 0) else none

def fpuUnsupported : Bool :=
  s.fpuReqValid && !s.fpuReq.isFmv && s.fpuReq.fpnewUnsupported && i.fpnewOut.isNone

def fpuFlushKill : Bool := i.fullFlush || i.partlyClears s.fpuReq.tag.robIdx

def divFlushKill : Bool := i.fullFlush || i.partlyClears s.divTag.robIdx

-- ---------------------------------------------------------------------
-- Issue
-- ---------------------------------------------------------------------

/-- `iq2_issue_suppress_s[0]`; `pipelined` is `FPU_PIPELINED_ISSUE_ENABLE`. -/
def issueSuppress (c : Iq2Op) : Bool :=
  c.isCsr && i.notHead || c.isDiv && s.divider.busy ||
    (if pipelined then s.fpuReqValid && !s.fpuReady i else s.fpuReqValid) ||
    (if pipelined && c.isFp then false else (s.fpuOut fpnew i).isSome) ||
    (if pipelined && c.isFp then false else s.divider.validOut) ||
    (if pipelined && c.isFp then false else s.divHold.isSome)

def issue : Option Iq2Op := i.candidate.filter fun c => !s.issueSuppress pipelined fpnew i c

/-- `div_issue` with the operation -/
def divIssue : Option (CdbTag × DivReq) :=
  match s.issue pipelined fpnew i with
  | some (.div tag req) => some (tag, req)
  | _ => none

/-- `div_issue_live` -/
def divIssueLive : Option (CdbTag × DivReq) :=
  (s.divIssue pipelined fpnew i).filter fun d => !i.partlyClears d.1.robIdx

/-- `fpu_issue` with the operation -/
def fpuIssue : Option FpOp :=
  match s.issue pipelined fpnew i with
  | some (.fp x) => some x
  | _ => none

/-- `fpu_issue_live` -/
def fpuIssueLive : Option FpOp :=
  (s.fpuIssue pipelined fpnew i).filter fun x => !i.partlyClears x.tag.robIdx

/-- `alu3_issue` with the operation -/
def alu3Issue : Option Iq2Op := (s.issue pipelined fpnew i).filter Iq2Op.isNow

-- ---------------------------------------------------------------------
-- CDB[3]
-- ---------------------------------------------------------------------

/-- `div_valid_live` with the result -/
def divValidLive : Option CdbResult :=
  if s.divider.validOut && !i.partlyClears s.divTag.robIdx then some ⟨s.divTag, s.divider.result⟩
  else none

def divPortBusy : Bool :=
  (s.alu3Issue pipelined fpnew i).isSome || (s.fpuOut fpnew i).isSome || s.fpuUnsupported i

def divTakeHold : Bool := s.divHold.isSome && !s.divPortBusy pipelined fpnew i

def divTakeFresh : Bool :=
  (s.divValidLive i).isSome && s.divHold.isNone && !s.divPortBusy pipelined fpnew i

/-- `div_eff` -/
def divEff : Option CdbResult :=
  if s.divTakeHold pipelined fpnew i then s.divHold
  else if s.divTakeFresh pipelined fpnew i then s.divValidLive i
  else none

/-- `cdb_has_exception[3]` -/
def cdbHasException : Bool :=
  s.fpuUnsupported i || (s.alu3Issue pipelined fpnew i).any fun c =>
    match c with
    | .csr _ _ illegal _ => illegal
    | _ => false

/-- `fpu_valid_live` or `fpu_unsupported_live`, with what goes to the port -/
def fpuLive : Option (CdbTag × Word × BitVec 5) :=
  if s.fpuUnsupported i then
    if i.partlyClears s.fpuReq.tag.robIdx then none else some (s.fpuReq.tag, 0, 0)
  else (s.fpuOut fpnew i).filter fun out => !i.partlyClears out.1.robIdx

/-- `cdb_valid[3]` with the other signals -/
def cdb : Option Broadcast :=
  let exception := s.cdbHasException pipelined fpnew i
  match s.fpuLive fpnew i with
  | some (tag, data, fflags) => some ⟨tag, data, exception, fflags, .none⟩
  | none =>
    match s.alu3Issue pipelined fpnew i with
    | some (.alu tag value csr) => some ⟨tag, value, exception, 0, csr⟩
    | some (.csr tag value _ csr) => some ⟨tag, value, exception, 0, csr⟩
    | _ => (s.divEff pipelined fpnew i).map fun out => ⟨out.tag, out.data, exception, 0, .none⟩

-- ---------------------------------------------------------------------
-- The next cycle
-- ---------------------------------------------------------------------

def divTagNext : CdbTag :=
  if s.divFlushKill i then ⟨0, 0⟩
  else if s.divider.busy then s.divTag
  else (s.divIssueLive pipelined fpnew i).elim s.divTag Prod.fst

def divHoldNext : Option CdbResult :=
  if i.fullFlush || s.divHold.any fun out => i.partlyClears out.tag.robIdx then none
  else if (s.divValidLive i).isSome && !s.divTakeFresh pipelined fpnew i then s.divValidLive i
  else if s.divTakeHold pipelined fpnew i then none
  else s.divHold

def fpuReqValidNext : Bool :=
  !s.fpuFlushKill i &&
    ((s.fpuIssueLive pipelined fpnew i).isSome || s.fpuReqValid && !s.fpuReady i)

def fpuReqNext : FpOp :=
  if s.fpuFlushKill i then noReq else (s.fpuIssueLive pipelined fpnew i).getD s.fpuReq

def next : Iq2Port where
  divider := s.divider.next ((s.divIssueLive pipelined fpnew i).map Prod.snd) (s.divFlushKill i)
  divTag := s.divTagNext pipelined fpnew i
  divHold := s.divHoldNext pipelined fpnew i
  fpuReqValid := s.fpuReqValidNext pipelined fpnew i
  fpuReq := s.fpuReqNext pipelined fpnew i

end Iq2Port

end Rv64gc.Execute
