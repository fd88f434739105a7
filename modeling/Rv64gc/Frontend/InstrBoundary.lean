import Rv64gc.Frontend.PredChecker
import Rv64gc.Hdl.Machine

/-!
# Instruction boundaries

`instr_boundary` cuts a cache line into instructions of two and four bytes, four in a cycle. Half an
instruction at the end of a line is kept until the next line comes. The caller takes some of the
slots and goes on behind the last one.
-/

namespace Rv64gc.Frontend

open Hdl

/-- `raw_hw_o`, `raw_insn_o`, `slot_is_rvc_o` and `slot_pc_o` of a valid slot. -/
structure RawSlot where
  hw : BitVec 16
  insn : BitVec 32
  isRvc : Bool
  pc : Addr
deriving DecidableEq

/-- The lower half of an instruction at the end of a line, and its address. -/
structure Remainder where
  hw : BitVec 16
  pc : Addr
deriving DecidableEq

abbrev LineData := BitVec 512

def lineByte (line : LineData) (pos : Nat) : BitVec 8 := line.extractLsb' (8 * pos) 8

def lineHalf (line : LineData) (pos : Nat) : BitVec 16 :=
  lineByte line (pos + 1) ++ lineByte line pos

/-- An instruction of two bytes, by its first half. -/
def isShort (hw : BitVec 16) : Bool := hw.extractLsb' 0 2 != 3

structure Extracted where
  slots : List RawSlot
  straddle : Option Remainder

/-- The loop over the slots from a byte position on. Once the position is past the line, or half an
instruction is found at its end, the other iterations change nothing. -/
def extractFrom (line : LineData) (workPc : Addr) : Nat → Nat → Extracted
  | 0, _ => ⟨[], none⟩
  | k + 1, pos =>
    if pos ≤ 62 then
      let hw := lineHalf line pos
      let pc := workPc.extractLsb' 6 58 ++ BitVec.ofNat 6 pos
      if isShort hw then
        let rest := extractFrom line workPc k (pos + 2)
        { rest with slots := ⟨hw, 0#16 ++ hw, true, pc⟩ :: rest.slots }
      else if pos ≤ 60 then
        let rest := extractFrom line workPc k (pos + 4)
        { rest with slots := ⟨hw, lineHalf line (pos + 2) ++ hw, false, pc⟩ :: rest.slots }
      else ⟨[], some ⟨hw, pc⟩⟩
    else ⟨[], none⟩

/-- `remainder_*_r` -/
structure InstrBoundary where
  remainder : Option Remainder

structure BoundaryIn where
  /-- `redirect_i` or `bpu_redirect_i` -/
  redirect : Bool
  stall : Bool
  workValid : Bool
  workPc : Addr
  /-- `data_line_i`, when `data_valid_i` -/
  dataLine : Option LineData
  finalCount : Nat

namespace InstrBoundary

variable (s : InstrBoundary) (i : BoundaryIn)

def startOffset : Nat := (i.workPc.extractLsb' 0 6).toNat

/-- The line that is cut up, when `work_valid_i` and `data_valid_i`. -/
def workLine : Option LineData := if i.workValid then i.dataLine else none

/-- What is waiting when the line starts at its first byte. -/
def pending : Option Remainder := if startOffset i = 0 then s.remainder else none

/-- `slot_*` and `straddle_*` -/
def extracted : Extracted :=
  match workLine i, s.pending i with
  | none, _ => ⟨[], none⟩
  | some line, some r =>
    let rest := extractFrom line i.workPc (pipeWidth - 1) 2
    { rest with slots := ⟨0, lineHalf line 0 ++ r.hw, false, r.pc⟩ :: rest.slots }
  | some line, none => extractFrom line i.workPc pipeWidth (startOffset i)

def extractCount : Nat := (s.extracted i).slots.length

/-- `consume_remainder_o` -/
def consumeRemainder : Bool := (workLine i).isSome && (s.pending i).isSome && s.extractCount i != 0

/-- `seq_next_pc_o`, when `seq_valid_o` -/
def seqNextPc : Option Addr :=
  if i.finalCount ≠ 0 then
    (s.extracted i).slots[i.finalCount - 1]?.map fun x => fallthrough x.pc x.isRvc
  else
    (s.extracted i).straddle.map fun _ => (i.workPc.extractLsb' 6 58 + 1) ++ 0#6

/-- `line_straddle_advance_o` -/
def lineStraddleAdvance : Bool :=
  (s.extracted i).straddle.isSome && s.extractCount i == 0 && (s.seqNextPc i).isSome &&
    !i.redirect && !i.stall

def next : InstrBoundary where
  remainder :=
    if i.redirect then none
    else if i.stall then s.remainder
    else match (s.extracted i).straddle with
      | some r => some r
      | none => if s.consumeRemainder i then none else s.remainder

def reset : InstrBoundary := ⟨none⟩

end InstrBoundary

end Rv64gc.Frontend
