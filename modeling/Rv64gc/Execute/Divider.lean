import Rv64gc.Decode.Insn
import Rv64gc.Execute.Alu
import Rv64gc.Hdl.Restoring

/-!
# The divider

`divider.sv`: a restoring division of sixteen bits a cycle on the absolute values. Division by zero
and the overflow of a signed division take one cycle.
-/

namespace Rv64gc.Execute

/-- `operand_a`, `operand_b`, `op` and `is_w_op` -/
structure DivReq where
  op : DivOp
  isW : Bool
  a : Word
  b : Word
deriving DecidableEq

namespace DivReq

variable (r : DivReq)

def isSigned : Bool := r.op == .div || r.op == .rem

def isRem : Bool := r.op == .rem || r.op == .remu

/-- `in_a` and `in_b`, of an operand -/
def widened (x : Word) : Word :=
  if r.isW then
    if r.isSigned then (x.setWidth 32).signExtend 64 else (x.setWidth 32).setWidth 64
  else x

def inA : Word := r.widened r.a

def inB : Word := r.widened r.b

end DivReq

inductive DivState where
  | idle
  | running
  | done
deriving DecidableEq

structure Divider where
  state : DivState
  iter : BitVec 6
  maxIter : BitVec 6
  dividend : Word
  divisor : Word
  quotient : Word
  remainder : Word
  negateQuo : Bool
  negateRem : Bool
  isRem : Bool
  isW : Bool
  specialCase : Bool
  specialResult : Word
  validOut : Bool
  result : Word
deriving DecidableEq

abbrev divBitsPerCycle : Nat := 16

namespace Divider

def reset : Divider :=
  ⟨.idle, 0, 0, 0, 0, 0, 0, false, false, false, false, false, 0, false, 0⟩

variable (s : Divider)

def busy : Bool := s.state != .idle

/-- `bit_pos_step`, in step `k` of the cycle -/
def bitPos (k : Nat) : BitVec 6 :=
  (if s.isW then 31 else 63) - s.iter * BitVec.ofNat 6 divBitsPerCycle - BitVec.ofNat 6 k

/-- One step of the loop, on `quotient_next` and `remainder_next`. -/
def bitStep (x : Word × Word) (k : Nat) : Word × Word :=
  Hdl.restoringStep s.dividend s.divisor x (s.bitPos k).toNat

/-- `quotient_next` and `remainder_next` -/
def stepped : Word × Word :=
  (List.range divBitsPerCycle).foldl s.bitStep (s.quotient, s.remainder)

/-- `final_quo` or `final_rem`, as wide as the operation, of a quotient and a remainder. -/
def final (x : Word × Word) : Word :=
  let value := if s.isRem then if s.negateRem then -x.2 else x.2
    else if s.negateQuo then -x.1 else x.1
  if s.isW then (value.setWidth 32).signExtend 64 else value

def special (r : DivReq) : Option Word :=
  if r.inB = 0 then some (if r.isRem then r.inA else BitVec.allOnes 64)
  else if r.isSigned && !r.isW && r.inA == BitVec.intMin 64 && r.inB == BitVec.allOnes 64 then
    some (if r.isRem then 0 else BitVec.intMin 64)
  else if r.isSigned && r.isW && r.inA.setWidth 32 == BitVec.intMin 32 &&
      r.inB.setWidth 32 == BitVec.allOnes 32 then
    some (if r.isRem then 0 else (BitVec.intMin 32).signExtend 64)
  else none

/-- The cycle in which an idle divider takes a request. -/
def start (r : DivReq) : Divider :=
  let t := { s with
    validOut := false
    isRem := r.isRem
    isW := r.isW
    maxIter := BitVec.ofNat 6 ((if r.isW then 32 else 64) / divBitsPerCycle) }
  match special r with
  | some value => { t with specialCase := true, specialResult := value, state := .done }
  | none =>
    { t with
      specialCase := false
      negateQuo := r.isSigned && (r.inA.msb != r.inB.msb)
      negateRem := r.isSigned && r.inA.msb
      dividend := if r.isSigned && r.inA.msb then -r.inA else r.inA
      divisor := if r.isSigned && r.inB.msb then -r.inB else r.inB
      quotient := 0
      remainder := 0
      iter := 0
      state := .running }

/-- A cycle without a request. -/
def work : Divider :=
  match s.state with
  | .idle => { s with validOut := false }
  | .running =>
    let t := { s with quotient := s.stepped.1, remainder := s.stepped.2 }
    if s.iter = s.maxIter - 1 then
      { t with validOut := true, result := s.final s.stepped, state := .idle }
    else { t with validOut := false, iter := s.iter + 1 }
  | .done =>
    { s with
      validOut := true
      result :=
        if s.specialCase then
          if s.isW then (s.specialResult.setWidth 32).signExtend 64 else s.specialResult
        else s.final (s.quotient, s.remainder)
      state := .idle }

def next (validIn : Option DivReq) (flush : Bool) : Divider :=
  if flush then { s with state := .idle, validOut := false }
  else if s.busy then s.work
  else validIn.elim s.work s.start

-- ---------------------------------------------------------------------
-- A division left alone
-- ---------------------------------------------------------------------

/-- For how many cycles the divider is busy with a request. -/
def latency (r : DivReq) : Nat :=
  match special r with
  | some _ => 1
  | none => if r.isW then 2 else 4

/-- With a request for `k` cycles. -/
def after (r : DivReq) : Nat → Divider
  | 0 => s.start r
  | k + 1 => (after r k).work

/-- What the divider makes of a request. -/
def divide (r : DivReq) : Word := (reset.after r (latency r)).result

end Divider

end Rv64gc.Execute
