import Rv64gc.Decode.Fusion

/-!
# Which operations are control transfers

Commit takes an operation for a control transfer by the marks it was allocated with. For every
operation decode and fusion hand over these are the operations of the branch unit.
-/

namespace Rv64gc.Decode

open Fields

/-- `rob_alloc_bpu_type` -/
def allocBpuType (d : DecodedInsn) : BitVec 3 :=
  if d.fuType = .bru then
    match d.brOp with
    | .jal => if d.rdArch = 1 ∨ d.rdArch = 5 then 3 else 1
    | .jalr =>
      if (d.rs1Arch = 1 ∨ d.rs1Arch = 5) ∧ d.rdArch = 0 then 4
      else if d.rdArch = 1 ∨ d.rdArch = 5 then 3
      else 2
    | _ => 0
  else 0

/-- `head_is_control` of the entry the operation is allocated to. -/
def isControl (d : DecodedInsn) : Bool := d.isBranch || allocBpuType d != 0

def isJump (d : DecodedInsn) : Bool := d.brOp == .jal || d.brOp == .jalr

/-- The operation redirects fetch when it commits, whatever was predicted. -/
def refetches (d : DecodedInsn) : Bool := d.isCsr || d.isFence || d.isFenceI || d.isSfenceVma

/-- The operation retires alone, as `isSerializing` of its entry. -/
def serializes (d : DecodedInsn) : Bool :=
  refetches d || d.isMret || d.isSret || d.isEcall || d.isWfi

/-- Conditional branches and nothing else are marked as branches, and what retires alone is no part
of a pair. -/
def marksMatch (d : DecodedInsn) : Bool :=
  d.isBranch == (d.fuType == .bru && !isJump d) &&
    (!serializes d || d.fuType == .csr || d.fuType == .alu && d.aluOp == .add && !d.useImm)

theorem decodeOpcode_marksMatch (insn : BitVec 32) (pc : BitVec 64) (isRvc : Bool) :
    marksMatch (decodeOpcode insn (defaults insn pc isRvc)) = true := by
  simp only [decodeOpcode, decodeLui, decodeAuipc, decodeJal, decodeJalr, decodeBranch, decodeLoad,
    decodeStore, decodeAmo, decodeLoadFp, decodeStoreFp, decodeOpImm, decodeOp, decodeMuldiv,
    decodeOpImm32, decodeOp32, decodeMiscMem, decodeSystem, decodeCsr, decodeFp, decodeFma,
    illegal, fpIntFmt, fpBinary, sameFmt, defaults, apply_ite marksMatch]
  simp [marksMatch, isJump, serializes, refetches]

theorem suppressRd_marksMatch (insn : BitVec 32) (d : DecodedInsn) :
    marksMatch (suppressRd insn d) = marksMatch d := by
  unfold suppressRd
  dsimp only
  split <;> split <;> rfl

theorem decodeSlice_marksMatch (insn : BitVec 32) (pc : BitVec 64) (isRvc : Bool) :
    marksMatch (decodeSlice insn pc isRvc) = true :=
  (suppressRd_marksMatch insn _).trans (decodeOpcode_marksMatch insn pc isRvc)

/-- The opcodes of the branch unit. -/
theorem decodeSlice_fuType (transfer : opcode insn = opBranch ∨ opcode insn = opJal ∨
    opcode insn = opJalr) : (decodeSlice insn pc isRvc).fuType = .bru := by
  unfold decodeSlice suppressRd
  simp only [apply_ite DecodedInsn.fuType, ite_self]
  obtain branch | jal | jalr := transfer
  · have eq : decodeOpcode insn (defaults insn pc isRvc) =
        decodeBranch insn (defaults insn pc isRvc) := by
      unfold decodeOpcode
      rw [branch]
      rfl
    simp [eq, decodeBranch, illegal, apply_ite DecodedInsn.fuType]
  · have eq : decodeOpcode insn (defaults insn pc isRvc) =
        decodeJal insn (defaults insn pc isRvc) := by
      unfold decodeOpcode
      rw [jal]
      rfl
    simp [eq, decodeJal]
  · have eq : decodeOpcode insn (defaults insn pc isRvc) =
        decodeJalr insn (defaults insn pc isRvc) := by
      unfold decodeOpcode
      rw [jalr]
      rfl
    simp [eq, decodeJalr, illegal, apply_ite DecodedInsn.fuType]

variable {d a b : DecodedInsn}

theorem allocBpuType_eq_zero (other : d.fuType ≠ .bru ∨ isJump d = false) :
    allocBpuType d = 0 := by
  unfold allocBpuType
  split
  next bru =>
    obtain notBru | branch := other
    · exact absurd bru notBru
    · cases op : d.brOp <;> simp_all [isJump]
  next => rfl

theorem allocBpuType_ne_zero (bru : d.fuType = .bru) (jump : isJump d = true) :
    allocBpuType d ≠ 0 := by
  simp only [isJump, Bool.or_eq_true, beq_iff_eq] at jump
  unfold allocBpuType
  rw [if_pos bru]
  obtain jal | jalr := jump
  · rw [jal]
    dsimp only
    split <;> decide
  · rw [jalr]
    dsimp only
    split
    · decide
    · split <;> decide

theorem isControl_of_marks (marks : d.isBranch = (d.fuType == .bru && !isJump d)) :
    isControl d = true ↔ d.fuType = .bru := by
  by_cases bru : d.fuType = .bru
  · cases jump : isJump d with
    | true =>
      have typed : (allocBpuType d != 0) = true := bne_iff_ne.mpr (allocBpuType_ne_zero bru jump)
      simp only [isControl, typed, Bool.or_true, bru]
    | false => simp [isControl, marks, bru, jump]
  · simp [isControl, marks, bru, allocBpuType_eq_zero (.inl bru)]

/-- The first of a pair is an operation of the ALU that does not retire alone. -/
theorem first_of_pair (marks : marksMatch a = true) (fuses : fusionPattern a b = some p) :
    a.fuType = .alu ∧ a.isBranch = false ∧ serializes a = false := by
  have held := fusionPattern_holds fuses
  have alu : a.fuType = .alu ∧ (a.aluOp ≠ .add ∨ a.useImm = true) := by
    cases p <;>
      simp only [FusionPattern.holds, isLui, isAuipc, isSlt, isSltu, isSlti, isSltiu, isSextw,
        Bool.and_eq_true, beq_iff_eq] at held <;>
      simp [held]
  simp only [marksMatch, Bool.and_eq_true, beq_iff_eq, Bool.or_eq_true, Bool.not_eq_true'] at marks
  obtain ⟨branch, again⟩ := marks
  refine ⟨alu.1, by simp [branch, alu.1], ?_⟩
  obtain (none | csr) | ⟨⟨-, add⟩, reg⟩ := again
  · exact none
  · simp [alu.1] at csr
  · obtain other | imm := alu.2
    · exact absurd add other
    · simp [imm] at reg

/-- A fused operation of the branch unit stands where its second instruction stands. -/
structure FusedTransfer (a b u : DecodedInsn) : Prop where
  unit : u.fuType = .bru
  second : b.fuType = .bru
  branch : u.isBranch = true
  pc : u.pc = b.pc
  isRvc : u.isRvc = b.isRvc
  bp : u.bp = b.bp
  serializes : serializes u = serializes a

/-- Any other fused operation is the first instruction with another immediate. -/
structure FusedSum (a b u : DecodedInsn) : Prop where
  unit : u.fuType = a.fuType
  second : b.fuType = .alu
  branch : u.isBranch = a.isBranch
  bp : u.bp = a.bp
  serializes : serializes u = serializes a

theorem fusedUop_cases (marks : marksMatch a = true) (fuses : fusionPattern a b = some p) :
    FusedTransfer a b (fusedUop a b p) ∨ FusedSum a b (fusedUop a b p) := by
  obtain ⟨alu, -, -⟩ := first_of_pair marks fuses
  have held := fusionPattern_holds fuses
  cases p <;>
    simp only [FusionPattern.holds, isAddi, isJalr, isBne, isBeq, Bool.and_eq_true,
      beq_iff_eq] at held
  case luiAddi | auipcAddi =>
    right
    constructor <;> simp [fusedUop, mergeUop, serializes, refetches, alu, held]
  all_goals
    left
    constructor <;>
      simp [fusedUop, mergeUop, compareBranch, held, apply_ite DecodedInsn.fuType,
        apply_ite DecodedInsn.isBranch, apply_ite DecodedInsn.pc, apply_ite DecodedInsn.isRvc,
        apply_ite DecodedInsn.bp, apply_ite serializes]
  all_goals simp [serializes, refetches]

namespace Window

variable {w : Window}

theorem slot_marks (decoded : w.FromDecode) (inside : j < w.count) :
    marksMatch (w.slot j) = true := by
  obtain ⟨insn, pc, isRvc, bp, same⟩ := decoded.decoded j inside
  rw [same]
  exact decodeSlice_marksMatch insn pc isRvc

end Window

end Rv64gc.Decode
