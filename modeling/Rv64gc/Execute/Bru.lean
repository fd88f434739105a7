import Rv64gc.Execute.Alu

/-!
# The branch unit

`bru.sv`: resolves branches and jumps. A fused compare-and-branch evaluates the comparison of its
first instruction itself and also returns that instruction's result.
-/

namespace Rv64gc.Execute

structure BruIn where
  a : Word
  b : Word
  pc : Word
  imm : Word
  op : BrOp
  isFused : Bool
  fusionType : BitVec 3
  fusedImm : BitVec 32
  bpTaken : Bool
  bpTarget : Word
  isRvc : Bool

namespace BruIn

def stdTaken (x : BruIn) : Bool :=
  match x.op with
  | .eq => x.a == x.b
  | .ne => x.a != x.b
  | .lt => x.a.slt x.b
  | .ge => x.b.sle x.a
  | .ltu => x.a.ult x.b
  | .geu => x.b.ule x.a
  | .jal => true
  | .jalr => true

def fusedImm64 (x : BruIn) : Word := sext32 x.fusedImm

/-- The comparison that the first of the fused instructions makes. -/
def fusedLt (x : BruIn) : Bool :=
  if x.fusionType = 0 ∨ x.fusionType = 2 then x.a.slt x.b
  else if x.fusionType = 1 ∨ x.fusionType = 3 then x.a.ult x.b
  else if x.fusionType = 4 then x.a.slt x.fusedImm64
  else x.a.ult x.fusedImm64

def fusedTaken (x : BruIn) : Bool :=
  if x.fusionType = 0 ∨ x.fusionType = 1 then x.fusedLt
  else if x.fusionType = 2 ∨ x.fusionType = 3 then !x.fusedLt
  else if x.fusionType = 4 ∨ x.fusionType = 5 then
    if x.op = .eq then !x.fusedLt else x.fusedLt
  else if x.fusionType = 6 then x.a.setWidth 32 != 0#32
  else x.a.setWidth 32 == 0#32

/-- JAL and JALR. -/
def isJump (x : BruIn) : Bool := x.op == .jal || x.op == .jalr

/-- A fused AUIPC+JALR is still an unconditional jump. -/
def taken (x : BruIn) : Bool :=
  if x.isJump then x.stdTaken else if x.isFused then x.fusedTaken else x.stdTaken

def branchTarget (x : BruIn) : Word :=
  if x.op = .jalr then (x.a + x.imm) &&& ~~~1#64 else x.pc + x.imm

def fallthrough (x : BruIn) : Word := x.pc + if x.isRvc then 2 else 4

/-- Where the program goes on. -/
def target (x : BruIn) : Word :=
  if x.isJump then x.branchTarget else if x.taken then x.branchTarget else x.fallthrough

def fusedResult (x : BruIn) : Word :=
  if x.fusionType = 6 ∨ x.fusionType = 7 then sext32 (x.a.setWidth 32) else ofBool x.fusedLt

def result (x : BruIn) : Word :=
  if x.isFused && !x.isJump then x.fusedResult else x.fallthrough

def mispredict (x : BruIn) : Bool :=
  x.taken != x.bpTaken || (x.taken && x.branchTarget != x.bpTarget)

variable {x : BruIn}

theorem taken_branch (branch : x.isJump = false) :
    x.taken = if x.isFused then x.fusedTaken else x.stdTaken := by
  unfold taken
  rw [branch, if_neg Bool.false_ne_true]

/-- JALR goes where its operand and its immediate say, whatever else is fused into it. -/
theorem jalr_outcome (jalr : x.op = .jalr) :
    x.taken = true ∧ x.branchTarget = (x.a + x.imm) &&& ~~~1#64 ∧ x.target = x.branchTarget ∧
      x.result = x.fallthrough := by
  have jump : x.isJump = true := by simp [isJump, jalr]
  refine ⟨?_, if_pos jalr, if_pos jump, ?_⟩
  · unfold taken stdTaken
    rw [if_pos jump, jalr]
  · unfold result
    rw [jump, Bool.not_true, Bool.and_false, if_neg Bool.false_ne_true]

theorem target_branch (branch : x.isJump = false) :
    x.target = if x.taken then x.branchTarget else x.fallthrough := by
  unfold target
  rw [branch, if_neg Bool.false_ne_true]

theorem result_branch (branch : x.isJump = false) :
    x.result = if x.isFused then x.fusedResult else x.fallthrough := by
  unfold result
  rw [branch, Bool.not_false, Bool.and_true]

end BruIn

end Rv64gc.Execute
