import Rv64gc.Decode.Encodings
import Rv64gc.Execute.Division
import Rv64gc.Execute.Multiplier

/-!
# What decoded instructions compute

From an encoding to the value that is written: `decode_slice`, the operand multiplexers of
`rv64gc_core_top.sv`, and the ALU, the multiplier or the divider.
-/

namespace Rv64gc.Decode

open Fields Execute

/-- OP, OP-IMM, their forms on words, LUI and AUIPC. -/
def computational : List (BitVec 7) := [opLui, opAuipc, opOpImm, opOp, opOpImm32, opOp32]

/-- The operands of the multiplier; its port has no immediate. -/
def mulReq (d : DecodedInsn) (regs : Regs) : MulReq where
  op := d.mulOp
  isW := d.isWOp
  a := srcValue regs d.rs1Valid d.rs1Arch
  b := srcValue regs d.rs2Valid d.rs2Arch

def divReq (d : DecodedInsn) (regs : Regs) : DivReq where
  op := d.divOp
  isW := d.isWOp
  a := srcValue regs d.rs1Valid d.rs1Arch
  b := srcValue regs d.rs2Valid d.rs2Arch

/-- What the unit of an operation computes. -/
def unitResult (d : DecodedInsn) (regs : Regs) : Option Word :=
  match d.fuType with
  | .alu => some (aluResult d regs)
  | .mul => some (mulReq d regs).resultSel
  | .div => some (Divider.divide (divReq d regs))
  | _ => none

/-- The value an instruction writes to its integer destination, of the registers and its address,
where it only computes. -/
def Insn.computes : Insn → Option (ArchReg × ((ArchReg → Word) → Word → Word))
  | .compute rd value => some (rd, value)
  | .mul op isW rd a b =>
    some (rd, fun regs _ => MulReq.value ⟨op, isW, xreg regs a, xreg regs b⟩)
  | .div op isW rd a b =>
    some (rd, fun regs _ => DivReq.value ⟨op, isW, xreg regs a, xreg regs b⟩)
  | _ => none

variable {insn : BitVec 32} {pc : Word} {isRvc : Bool}

-- ---------------------------------------------------------------------
-- The instructions of these opcodes
-- ---------------------------------------------------------------------

/-- An instruction that computes into `rd`; of the word multiplications there is one. -/
def Computes (insn : BitVec 32) : Insn → Prop
  | .compute r _ => r = rd insn
  | .mul op isW r _ _ => r = rd insn ∧ (isW = true → op = .mul)
  | .div _ _ r _ _ => r = rd insn
  | _ => False

theorem computes_map {found : Option IntOp} (shape : ∀ o, Computes insn (f o))
    (some_ : found.map f = some i) : Computes insn i := by
  obtain ⟨o, -, rfl⟩ := Option.map_eq_some_iff.mp some_
  exact shape o

theorem computes_opImm (known : Insn.ofOpImm insn = some i) : Computes insn i := by
  have imm (b : Word) (o : IntOp) : Computes insn (Insn.regImm insn b o) := rfl
  unfold Insn.ofOpImm at known
  split_ifs at known
  · obtain left | ⟨-, right⟩ := Option.or_eq_some_iff.mp known
    · exact computes_map (imm _) left
    · exact computes_map (imm _) right
  · obtain left | ⟨-, right⟩ := Option.or_eq_some_iff.mp known
    · exact computes_map (imm _) left
    · exact computes_map (imm _) right
  · exact computes_map (imm _) known

theorem computes_opImm32 (known : Insn.ofOpImm32 insn = some i) : Computes insn i := by
  have imm (b : Word) (o : IntOp) : Computes insn (Insn.regImm insn b o) := rfl
  unfold Insn.ofOpImm32 at known
  split_ifs at known
  · exact Option.some.inj known ▸ imm _ _
  · exact Option.some.inj known ▸ imm _ _
  · exact Option.some.inj known ▸ imm _ _
  · exact computes_map (imm _) known
  · exact computes_map (imm _) known

theorem computes_lookup {rows : List (BitVec 3 × Insn)}
    (shapes : ∀ row ∈ rows, Computes insn row.2) (known : rows.lookup f3 = some i) :
    Computes insn i := by
  obtain ⟨before, after, split, -⟩ := List.lookup_eq_some_iff.mp known
  exact shapes (f3, i) (by simp [split])

theorem computes_muldiv (isW : Bool) (known : Insn.ofMuldiv insn isW = some i) :
    Computes insn i := by
  unfold Insn.ofMuldiv at known
  split_ifs at known with wide
  · refine computes_lookup ?_ known
    simp [Computes]
  · refine computes_lookup ?_ known
    simp [Computes, wide]

theorem computes_op (known : Insn.ofOp insn = some i) : Computes insn i := by
  unfold Insn.ofOp at known
  split_ifs at known
  · exact computes_muldiv _ known
  · exact computes_map (f := Insn.regReg insn) (fun _ => rfl) known

theorem computes_op32 (known : Insn.ofOp32 insn = some i) : Computes insn i := by
  unfold Insn.ofOp32 at known
  split_ifs at known
  · exact computes_muldiv _ known
  · exact Option.some.inj known ▸ rfl
  · exact computes_map (f := Insn.regReg insn) (fun _ => rfl) known

theorem computes_of32 (op : opcode insn ∈ computational) (known : Insn.of32 insn = some i) :
    Computes insn i := by
  simp only [computational, List.mem_cons, List.not_mem_nil, or_false] at op
  unfold Insn.of32 at known
  rcases op with op | op | op | op | op | op <;> rw [op] at known
  · exact Option.some.inj known ▸ rfl
  · exact Option.some.inj known ▸ rfl
  · exact computes_opImm known
  · exact computes_op known
  · exact computes_opImm32 known
  · exact computes_op32 known

-- ---------------------------------------------------------------------
-- Their results
-- ---------------------------------------------------------------------

theorem operand_source (source : operand valid fp r = some (.x a)) (regs : Regs) :
    srcValue regs valid r = xreg regs a := by
  cases valid <;> cases fp <;> simp [operand] at source
  rw [source]
  exact srcValue_xreg regs a

theorem mulReq_sources (from_ : sources d = [some (.x a), some (.x b), none]) (regs : Regs) :
    srcValue regs d.rs1Valid d.rs1Arch = xreg regs a ∧
      srcValue regs d.rs2Valid d.rs2Arch = xreg regs b := by
  simp only [sources, List.cons.injEq] at from_
  exact ⟨operand_source from_.1 regs, operand_source from_.2.1 regs⟩

/-- The units compute what the instruction does. -/
theorem unitResult_eq (shape : Computes insn i) (means : Means d i) :
    ∃ value, i.computes = some (rd insn, value) ∧
      ∀ regs, unitResult d regs = some (value regs d.pc) := by
  have unit : d.fuType = i.marks.fuType := congrArg Marks.fuType means.marks
  have performs := means.performs
  cases i with
  | compute r value =>
    obtain rfl : r = rd insn := shape
    refine ⟨value, rfl, fun regs => ?_⟩
    rw [unitResult, unit]
    exact congrArg some (performs.2 regs)
  | mul op isW r a b =>
    obtain ⟨rfl, words⟩ := shape
    obtain ⟨from_, -, operation, width⟩ := performs
    refine ⟨_, rfl, fun regs => ?_⟩
    obtain ⟨first, second⟩ := mulReq_sources from_ regs
    have request : mulReq d regs = ⟨op, isW, xreg regs a, xreg regs b⟩ := by
      rw [mulReq, operation, width, first, second]
    rw [unitResult, unit]
    exact congrArg some (request ▸ MulReq.resultSel_eq ⟨op, isW, _, _⟩ words)
  | div op isW r a b =>
    obtain rfl : r = rd insn := shape
    obtain ⟨from_, -, operation, width⟩ := performs
    refine ⟨_, rfl, fun regs => ?_⟩
    obtain ⟨first, second⟩ := mulReq_sources from_ regs
    have request : divReq d regs = ⟨op, isW, xreg regs a, xreg regs b⟩ := by
      rw [divReq, operation, width, first, second]
    rw [unitResult, unit]
    exact congrArg some (request ▸ Divider.divide_eq _)
  | _ => exact shape.elim

theorem regular_of_accepted (op : opcode insn ∈ computational)
    (accepted : (decodeSlice insn pc isRvc).hasException = false) : ¬Deviates insn := by
  simp only [computational, List.mem_cons, List.not_mem_nil, or_false] at op
  rintro (⟨amo, -⟩ | ⟨opImm32, large⟩ | ⟨system, -⟩ | ⟨fp, -⟩)
  · rw [amo] at op
    revert op
    decide
  · have refused : Right (decodeSlice insn pc isRvc) none := by
      unfold decodeSlice decodeOpcode
      rw [opImm32]
      exact refuses_slliUw large
    rw [refused.1] at accepted
    cases accepted
  · rw [system] at op
    revert op
    decide
  · simp only [fpOpcodes, List.mem_cons, List.not_mem_nil, or_false] at fp
    rcases fp with fp | fp | fp | fp | fp <;>
      (rw [fp] at op; revert op; decide)

/-- An accepted encoding of these opcodes has a meaning, and its unit computes just the value the
instruction writes, on all registers and at every address. -/
theorem computes_right (op : opcode insn ∈ computational)
    (accepted : (decodeSlice insn pc isRvc).hasException = false) :
    ∃ i value, Insn.of32 insn = some i ∧ i.computes = some (rd insn, value) ∧
      dest (decodeSlice insn pc isRvc) = Insn.written (.x (rd insn)) ∧
      ∀ regs, unitResult (decodeSlice insn pc isRvc) regs = some (value regs pc) := by
  have right := @right_of_regular insn pc isRvc (regular_of_accepted op accepted)
  cases known : Insn.of32 insn with
  | none =>
    rw [known] at right
    rw [right.1] at accepted
    cases accepted
  | some i =>
    rw [known] at right
    have shape := computes_of32 op known
    obtain ⟨value, computes, results⟩ := unitResult_eq shape right
    rw [decodeSlice_pc] at results
    refine ⟨i, value, rfl, computes, ?_, results⟩
    rw [right.dest]
    cases i with
    | compute r value => exact congrArg (fun r => Insn.written (.x r)) shape
    | mul _ _ r _ _ => exact congrArg (fun r => Insn.written (.x r)) shape.1
    | div _ _ r _ _ => exact congrArg (fun r => Insn.written (.x r)) shape
    | _ => exact shape.elim

/-- MULHSU. -/
theorem computes_right_mulhsu :
    ∃ i value, Insn.of32 0x02B52533 = some i ∧ i.computes = some (10, value) ∧
      dest (decodeSlice 0x02B52533 0x80000000 false) = Insn.written (.x 10) ∧
      ∀ regs, unitResult (decodeSlice 0x02B52533 0x80000000 false) regs =
        some (value regs 0x80000000) :=
  computes_right (by decide) (by decide)

end Rv64gc.Decode
