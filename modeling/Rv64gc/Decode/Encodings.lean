import Rv64gc.Decode.MemoryDecode
import Rv64gc.Decode.FpDecode

/-!
# All 32-bit encodings

Decode is right about an encoding unless it is one of the four kinds it gets wrong, and it is wrong
about each of those.
-/

namespace Rv64gc.Decode

open Fields Execute

variable {insn : BitVec 32} {pc : Word} {isRvc : Bool} {d : DecodedInsn}

/-- SLLI.UW by 32 and more. -/
def LargeSlliUw (insn : BitVec 32) : Prop := funct3 insn = f3Sll ∧ funct7 insn = 0b0000101#7

def fpOpcodes : List (BitVec 7) := [opFp, opFmadd, opFmsub, opFnmsub, opFnmadd]

/-- The 32-bit encodings that decode gets wrong. -/
def Deviates (insn : BitVec 32) : Prop :=
  opcode insn = opAmo ∧ ReservedAmo insn ∨
    opcode insn = opOpImm32 ∧ LargeSlliUw insn ∨
    opcode insn = opSystem ∧ StrayFields insn ∨
    opcode insn ∈ fpOpcodes ∧ ReservedRounding insn

def opcodes : List (BitVec 7) :=
  [opLui, opAuipc, opJal, opJalr, opBranch, opLoad, opStore, opAmo, opLoadFp, opStoreFp, opOpImm,
    opOp, opOpImm32, opOp32, opMiscMem, opSystem, opFp, opFmadd, opFmsub, opFnmsub, opFnmadd]

theorem right_of_regular (regular : ¬Deviates insn) :
    Right (decodeSlice insn pc isRvc) (Insn.of32 insn) := by
  unfold Deviates at regular
  unfold decodeSlice decodeOpcode Insn.of32
  by_cases used : opcode insn ∈ opcodes
  · simp only [opcodes, List.mem_cons, List.not_mem_nil, or_false] at used
    rcases used with op | op | op | op | op | op | op | op | op | op | op | op | op | op | op | op |
      op | op | op | op | op <;> rw [op]
    · exact right_lui
    · exact right_auipc
    · exact right_jal
    · exact right_jalr
    · exact right_branch
    · exact right_load
    · exact right_store
    · exact right_amo fun amo => regular (.inl ⟨op, amo⟩)
    · exact right_loadFp
    · exact right_storeFp
    · exact right_opImm
    · exact right_op
    · exact right_opImm32 fun slliUw => regular (.inr (.inl ⟨op, slliUw⟩))
    · exact right_op32
    · exact right_miscMem
    · exact right_system fun stray => regular (.inr (.inr (.inl ⟨op, stray⟩)))
    · exact right_fp fun rm => regular (.inr (.inr (.inr ⟨by rw [op]; decide, rm⟩)))
    · exact right_fma (by rw [op]; decide) fun rm =>
        regular (.inr (.inr (.inr ⟨by rw [op]; decide, rm⟩)))
    · exact right_fma (by rw [op]; decide) fun rm =>
        regular (.inr (.inr (.inr ⟨by rw [op]; decide, rm⟩)))
    · exact right_fma (by rw [op]; decide) fun rm =>
        regular (.inr (.inr (.inr ⟨by rw [op]; decide, rm⟩)))
    · exact right_fma (by rw [op]; decide) fun rm =>
        regular (.inr (.inr (.inr ⟨by rw [op]; decide, rm⟩)))
  · simp only [opcodes, List.mem_cons, List.not_mem_nil, or_false, not_or] at used
    obtain ⟨lui, auipc, jal, jalr, branch, load, store, amo, loadFp, storeFp, opImm, op, opImm32,
      op32, miscMem, system, fp, fmadd, fmsub, fnmsub, fnmadd⟩ := used
    simp only [lui, auipc, jal, jalr, branch, load, store, amo, loadFp, storeFp, opImm, op, opImm32,
      op32, miscMem, system, fp, fmadd, fmsub, fnmsub, fnmadd, or_self, if_false]
    exact right_illegal insn _

/-- What decodes to an instruction is not refused. -/
theorem Means.accepted (means : Means d i) : ¬Right d none := by
  rintro ⟨raised, illegal⟩
  have marked : i.marks.hasException = true := means.marks ▸ raised
  have performs := means.performs
  cases i <;> first | (cases marked; done) | skip
  · exact absurd (performs.2.symm.trans illegal) (by decide)
  · exact absurd (performs.2.symm.trans illegal) (by decide)

theorem Means.refused (refused : Right d none) : ¬Means d i := fun means =>
  means.accepted refused

theorem wrong_amo (reserved : ReservedAmo insn) :
    ¬Right (suppressRd insn (decodeAmo insn (defaults insn pc isRvc))) (Insn.ofAmo insn) := by
  obtain ⟨f3, nothing⟩ := reserved
  have accepted : (decodeAmo insn (defaults insn pc isRvc)).hasException = false := by
    unfold decodeAmo
    obtain f3 | f3 := f3 <;> rw [f3] <;> rfl
  have none : Insn.ofAmo insn = none := by
    unfold Insn.ofAmo
    obtain nothing | ⟨lr, second⟩ := nothing
    · rw [nothing]
      rfl
    · obtain f3 | f3 := f3 <;> rw [f3, lr] <;> exact if_pos ⟨rfl, second⟩
  rw [none]
  rintro ⟨raised, -⟩
  rw [suppressRd_hasException, accepted] at raised
  cases raised

theorem refuses_slliUw (large : LargeSlliUw insn) :
    Right (suppressRd insn (decodeOpImm32 insn (defaults insn pc isRvc))) none := by
  unfold decodeOpImm32
  rw [large.1, large.2]
  exact right_illegal insn _

theorem wrong_slliUw (large : LargeSlliUw insn) :
    ¬Right (suppressRd insn (decodeOpImm32 insn (defaults insn pc isRvc)))
      (Insn.ofOpImm32 insn) := by
  have slliUw : Insn.ofOpImm32 insn =
      some (Insn.regImm insn (Insn.shamt insn) .slliUw) := by
    unfold Insn.ofOpImm32
    rw [funct6_hi6, large.1, large.2]
    rfl
  rw [slliUw]
  exact Means.refused (refuses_slliUw large)

theorem wrong_system (stray : StrayFields insn) :
    ¬Right (suppressRd insn (decodeSystem insn (defaults insn pc isRvc))) (Insn.ofSystem insn) := by
  obtain ⟨priv, known, fields⟩ := stray
  obtain ⟨i, -, means⟩ := privileged_means priv known
  have none : Insn.ofSystem insn = none := by
    unfold Insn.ofSystem
    rw [if_pos priv, if_neg fun sfence => privileged_not_sfence known sfence.1, if_neg fields]
  rw [none]
  exact means.accepted

theorem wrong_fp (op : opcode insn = opFp) (reserved : ReservedRounding insn) :
    ¬Right (suppressRd insn (decodeFp insn (defaults insn pc isRvc))) (Insn.ofFp insn) := by
  obtain ⟨rm, fmt, found, rounds⟩ := reserved
  obtain ⟨⟨o, f, r, srcs⟩, rounded⟩ := Option.isSome_iff_exists.mp (rounds op)
  have nothing : Insn.ofFp insn = none := by
    unfold Insn.ofFp
    rw [found, Option.bind_some, rounded, rm]
    rfl
  rw [nothing]
  exact Means.accepted (right_fpRounded found rounded)

theorem wrong_fma (row : (opcode insn, o) ∈ fmaOps) (reserved : ReservedRounding insn) :
    ¬Right (suppressRd insn (decodeFma insn (defaults insn pc isRvc))) (Insn.ofFma insn o) := by
  obtain ⟨rm, fmt, found, -⟩ := reserved
  have none : Insn.ofFma insn o = none := by
    unfold Insn.ofFma
    rw [found, rm]
    rfl
  rw [none]
  exact (fma_means row found).accepted

theorem wrong_of_deviates (deviates : Deviates insn) :
    ¬Right (decodeSlice insn pc isRvc) (Insn.of32 insn) := by
  unfold decodeSlice decodeOpcode Insn.of32
  obtain ⟨op, amo⟩ | ⟨op, slliUw⟩ | ⟨op, stray⟩ | ⟨op, rm⟩ := deviates
  · rw [op]
    exact wrong_amo amo
  · rw [op]
    exact wrong_slliUw slliUw
  · rw [op]
    exact wrong_system stray
  · simp only [fpOpcodes, List.mem_cons, List.not_mem_nil, or_false] at op
    obtain op | op | op | op | op := op <;> rw [op]
    · exact wrong_fp op rm
    · exact wrong_fma (by rw [op]; decide) rm
    · exact wrong_fma (by rw [op]; decide) rm
    · exact wrong_fma (by rw [op]; decide) rm
    · exact wrong_fma (by rw [op]; decide) rm

end Rv64gc.Decode
