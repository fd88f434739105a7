import Rv64gc.Decode.FusionRefines

/-!
# What the branch unit reports

Where a branch or jump goes by the instruction set, a fused one being the branch after its
comparison, and that the branch unit goes there, links, and finds every wrong prediction.
-/

namespace Rv64gc.Execute

/-- Whether a conditional branch is taken by the instruction set; the jumps always are. -/
def branchHolds (op : BrOp) (a b : Word) : Bool :=
  match op with
  | .eq => decide (a = b)
  | .ne => decide (a ≠ b)
  | .lt => decide (a.toInt < b.toInt)
  | .ge => decide (b.toInt ≤ a.toInt)
  | .ltu => decide (a.toNat < b.toNat)
  | .geu => decide (b.toNat ≤ a.toNat)
  | .jal => true
  | .jalr => true

/-- The instructions that fuse with a branch on their result. -/
inductive Comparison where
  | slt
  | sltu
  | slti
  | sltiu
  | sextw
deriving DecidableEq

/-- What such an instruction writes. -/
def Comparison.value (a b imm : Word) : Comparison → Word
  | .slt => if a.toInt < b.toInt then 1 else 0
  | .sltu => if a.toNat < b.toNat then 1 else 0
  | .slti => if a.toInt < imm.toInt then 1 else 0
  | .sltiu => if a.toNat < imm.toNat then 1 else 0
  | .sextw => sext32 (a.setWidth 32)

namespace BruIn

/-- The pairs that fuse, by `fusion_type`: the comparison and the branches after it. -/
def pair (x : BruIn) : Comparison × List BrOp :=
  match x.fusionType.toNat with
  | 0 => (.slt, [.ne])
  | 1 => (.sltu, [.ne])
  | 2 => (.slt, [.eq])
  | 3 => (.sltu, [.eq])
  | 4 => (.slti, [.ne, .eq])
  | 5 => (.sltiu, [.ne, .eq])
  | 6 => (.sextw, [.ne])
  | _ => (.sextw, [.eq])

/-- A fused conditional branch is of a pair that fuses. -/
def Emitted (x : BruIn) : Prop :=
  x.isFused = true → x.isJump = false → x.op ∈ x.pair.2

/-- Whether the transfer is taken by the instruction set: a fused branch compares the result of the
first instruction with zero. -/
def archTaken (x : BruIn) : Bool :=
  if x.isFused && !x.isJump then branchHolds x.op (x.pair.1.value x.a x.b x.fusedImm64) 0
  else branchHolds x.op x.a x.b

/-- The length of the instruction that transfers; of a fused pair it is the second. -/
def length (x : BruIn) : Word := if x.isRvc then 2 else 4

/-- The next PC by the instruction set. -/
def archNext (x : BruIn) : Word :=
  match x.op with
  | .jalr => (x.a + x.imm) &&& ~~~1#64
  | .jal => x.pc + x.imm
  | _ => if x.archTaken then x.pc + x.imm else x.pc + x.length

/-- The next PC that was predicted. -/
def predictedNext (x : BruIn) : Word := if x.bpTaken then x.bpTarget else x.pc + x.length

variable {x : BruIn}

theorem stdTaken_eq (x : BruIn) : x.stdTaken = branchHolds x.op x.a x.b := by
  unfold stdTaken branchHolds
  cases x.op <;> simp [BitVec.slt, BitVec.sle, BitVec.ult, BitVec.ule] <;> rfl

theorem ne_holds (bit : Bool) : branchHolds .ne (ofBool bit) 0#64 = bit := by
  cases bit <;> decide

theorem eq_holds (bit : Bool) : branchHolds .eq (ofBool bit) 0#64 = !bit := by
  cases bit <;> decide

theorem word_holds (v : BitVec 32) :
    branchHolds .ne (sext32 v) 0#64 = (v != 0#32) ∧
      branchHolds .eq (sext32 v) 0#64 = (v == 0#32) := by
  have zero : sext32 v = 0#64 ↔ v = 0#32 := Decode.sext32_eq_zero v
  unfold branchHolds
  by_cases none_ : v = 0#32
  · rw [none_]
    decide
  · simp [zero, none_]

/-- A fused branch is taken as the branch after the comparison would be. -/
theorem fusedTaken_eq (paired : x.op ∈ x.pair.2) :
    x.fusedTaken = branchHolds x.op (x.pair.1.value x.a x.b x.fusedImm64) 0 := by
  have lt : ∀ y : Word, (if x.a.toInt < y.toInt then 1#64 else 0#64) = ofBool (x.a.slt y) := by
    intro y
    simp [ofBool, BitVec.slt]
  have ltu : ∀ y : Word, (if x.a.toNat < y.toNat then 1#64 else 0#64) = ofBool (x.a.ult y) := by
    intro y
    simp [ofBool, BitVec.ult]
  unfold fusedTaken fusedLt
  unfold pair at paired ⊢
  generalize x.fusionType = type at *
  have types : type = 0 ∨ type = 1 ∨ type = 2 ∨ type = 3 ∨ type = 4 ∨ type = 5 ∨ type = 6 ∨
      type = 7 := by
    clear paired
    revert type
    decide
  rcases types with rfl | rfl | rfl | rfl | rfl | rfl | rfl | rfl
  · have op : x.op = .ne := List.mem_singleton.mp paired
    simp [op, Comparison.value, lt, ne_holds]
  · have op : x.op = .ne := List.mem_singleton.mp paired
    simp [op, Comparison.value, ltu, ne_holds]
  · have op : x.op = .eq := List.mem_singleton.mp paired
    simp [op, Comparison.value, lt, eq_holds]
  · have op : x.op = .eq := List.mem_singleton.mp paired
    simp [op, Comparison.value, ltu, eq_holds]
  · have op : x.op = .ne ∨ x.op = .eq := List.mem_pair.mp paired
    rcases op with op | op
    · simp [op, Comparison.value, lt, ne_holds]
    · simp [op, Comparison.value, lt, eq_holds]
  · have op : x.op = .ne ∨ x.op = .eq := List.mem_pair.mp paired
    rcases op with op | op
    · simp [op, Comparison.value, ltu, ne_holds]
    · simp [op, Comparison.value, ltu, eq_holds]
  · have op : x.op = .ne := List.mem_singleton.mp paired
    simp [op, Comparison.value, word_holds]
  · have op : x.op = .eq := List.mem_singleton.mp paired
    simp [op, Comparison.value, word_holds]

theorem taken_eq (emitted : x.Emitted) : x.taken = x.archTaken := by
  unfold taken archTaken
  cases jump : x.isJump with
  | true => simp [stdTaken_eq]
  | false =>
    cases fused : x.isFused with
    | true => simpa using fusedTaken_eq (emitted fused jump)
    | false => simp [stdTaken_eq]

/-- The branch unit goes where the instruction set goes. -/
theorem target_eq (emitted : x.Emitted) : x.target = x.archNext := by
  have taken := taken_eq emitted
  unfold target archNext branchTarget isJump fallthrough length
  cases op : x.op <;> simp [taken]

/-- What a transfer compares with the next PC that was predicted. -/
theorem archNext_eq (x : BruIn) :
    x.archNext = if x.archTaken then x.branchTarget else x.pc + x.length := by
  unfold archNext branchTarget archTaken isJump branchHolds
  cases op : x.op <;> simp

/-- A wrong prediction is one of the wrong next PC, or of the wrong direction though it leads to the
same place. -/
theorem mispredict_iff (emitted : x.Emitted) :
    x.mispredict = true ↔ x.predictedNext ≠ x.archNext ∨ x.bpTaken ≠ x.archTaken := by
  rw [archNext_eq]
  unfold mispredict predictedNext
  rw [taken_eq emitted]
  cases x.archTaken with
  | true =>
    cases x.bpTaken with
    | true => simp [ne_comm]
    | false => simp
  | false =>
    cases x.bpTaken with
    | true => simp
    | false => simp

/-- The link value of a jump is the address after it. -/
theorem result_jump (jump : x.isJump = true) : x.result = x.pc + x.length := by
  unfold result
  rw [jump, Bool.not_true, Bool.and_false, if_neg Bool.false_ne_true]
  rfl

/-- A transfer is mispredicted just when its direction or its next PC was predicted wrong; then as
always the redirect is to the next PC, and a jump links the address after it. -/
theorem outcome_right (emitted : x.Emitted) :
    (x.mispredict = true ↔ x.predictedNext ≠ x.archNext ∨ x.bpTaken ≠ x.archTaken) ∧
      x.target = x.archNext ∧ (x.isJump = true → x.result = x.pc + x.length) :=
  ⟨mispredict_iff emitted, target_eq emitted, result_jump⟩

/-- SLTI with a negative immediate and BEQ, compressed, predicted to a stale target. -/
def fusedBranch : BruIn where
  a := 7
  b := 0
  pc := 0x80001002
  imm := 0x40
  op := .eq
  isFused := true
  fusionType := 4
  fusedImm := 0xffffffff
  bpTaken := true
  bpTarget := 0x80002000
  isRvc := true

theorem outcome_right_fused :
    (fusedBranch.mispredict = true ↔ fusedBranch.predictedNext ≠ fusedBranch.archNext ∨
        fusedBranch.bpTaken ≠ fusedBranch.archTaken) ∧
      fusedBranch.target = fusedBranch.archNext ∧
      (fusedBranch.isJump = true → fusedBranch.result = fusedBranch.pc + fusedBranch.length) :=
  outcome_right fun _ _ => by decide

/-- A branch that is not taken is reported though its predicted target is the address after it. -/
theorem reported_right_address :
    ¬ ∀ x : BruIn, x.Emitted → (x.mispredict = false ↔ x.predictedNext = x.archNext) := by
  intro reports
  have here := reports
    { a := 1, b := 2, pc := 0x80001000, imm := 0x40, op := .eq, isFused := false, fusionType := 0
      fusedImm := 0, bpTaken := true, bpTarget := 0x80001004, isRvc := false }
    (fun fused => nomatch fused)
  revert here
  decide

end BruIn

-- ---------------------------------------------------------------------
-- The transfers that decode and fusion hand over
-- ---------------------------------------------------------------------

open Decode

theorem fused_emitted (fuses : fusionPattern a b = some p) (branch : (fusedUop a b p).fuType = .bru)
    (regs : Regs) : (bruIn (fusedUop a b p) regs).Emitted := by
  have holds := fusionPattern_holds fuses
  cases p with
  | luiAddi =>
    simp only [FusionPattern.holds, isLui, Bool.and_eq_true, beq_iff_eq] at holds
    simp [fusedUop, mergeUop, holds.1.1.1] at branch
  | auipcAddi =>
    simp only [FusionPattern.holds, Bool.and_eq_true] at holds
    rw [auipcAddi_fused holds.1.1] at branch
    simp [mergeUop, (isAuipc_fields holds.1.1).1] at branch
  | auipcJalr =>
    intro _ cond
    simp only [FusionPattern.holds, Bool.and_eq_true] at holds
    simp [BruIn.isJump, bruIn, fusedUop, mergeUop, holds.1.1, holds.1.2, holds.2] at cond
  | sltBne | sltuBne | sltBeq | sltuBeq | sltiBne | sltiBeq | sltiuBne | sltiuBeq | sextwBne
  | sextwBeq =>
    have other : a.aluOp ≠ .pass2 := by
      intro pass
      simp [FusionPattern.holds, isSlt, isSltu, isSlti, isSltiu, isSextw, pass] at holds
    rw [fusedUop_compare rfl other]
    intro _ _
    simp [bruIn, BruIn.pair, compareUop, compareBranch]

/-- Every fused branch among them is of a pair that fuses. -/
theorem emit_emitted (decoded : Window.FromDecode w) (inside : i < w.count)
    (branch : (w.emit i).fuType = .bru) (regs : Regs) : (bruIn (w.emit i) regs).Emitted := by
  have plain : (bruIn (w.slot i) regs).Emitted := by
    intro fused
    rw [bruIn, Window.slot_isFused decoded inside] at fused
    cases fused
  unfold Window.emit at branch ⊢
  split at branch
  next starts =>
    rw [if_pos starts] at *
    split at branch
    next p fuses =>
      exact fused_emitted fuses branch regs
    next => exact plain
  next alone => rwa [if_neg alone]

end Rv64gc.Execute
