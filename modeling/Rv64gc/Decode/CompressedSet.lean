import Rv64gc.Decode.RvcDecompress
import Rv64gc.Decode.Encodings
import Rv64gc.Hdl.Bits
import Mathlib.Tactic.IntervalCases

/-!
# The compressed instructions

What each 16-bit encoding stands for, with its immediate described as a placement of bits, and that
the expansion is an encoding of just that. One hint is missed: C.LUI into x0.
-/

namespace Rv64gc.Decode

open Fields Compressed

-- ---------------------------------------------------------------------
-- Their meaning
-- ---------------------------------------------------------------------

/-- An immediate of `w` bits, given by runs: from which bit of the instruction downwards which of
its bits stand. -/
def placed (w : Nat) (runs : List (Nat × List Nat)) (h : BitVec 16) : BitVec w :=
  Hdl.tabulate fun k => runs.any fun (hi, bits) =>
    (bits.idxOf? k.val).any fun i => h.getLsbD (hi - i)

namespace Insn

variable (h : BitVec 16)

/-- The immediates and shift amounts that stand beside the registers. -/
def cimm : BitVec 6 := placed 6 [(12, [5]), (6, [4, 3, 2, 1, 0])] h

/-- An integer operation on a register and a constant, and on two registers. -/
def onImm (op : IntOp) (rd rs : ArchReg) (imm : Word) : Insn :=
  .compute rd fun regs _ => op.value (xreg regs rs) imm

def onRegs (op : IntOp) (rd a b : ArchReg) : Insn :=
  .compute rd fun regs _ => op.value (xreg regs a) (xreg regs b)

def ofQ0 : Option Insn :=
  let wordOffset : Word := (placed 7 [(12, [5, 4, 3]), (6, [2, 6])] h).setWidth 64
  let dwordOffset : Word := (placed 8 [(12, [5, 4, 3]), (6, [7, 6])] h).setWidth 64
  if cop h = 0b000#3 then
    -- C.ADDI4SPN
    let imm := placed 10 [(12, [5, 4, 9, 8, 7, 6, 2, 3])] h
    if imm = 0 then none else some (onImm .add (rp2 h) 2 (imm.setWidth 64))
  else if cop h = 0b001#3 then some (.load (.f (rp2 h)) .dword false (rp1 h) dwordOffset)
  else if cop h = 0b010#3 then some (.load (.x (rp2 h)) .word false (rp1 h) wordOffset)
  else if cop h = 0b011#3 then some (.load (.x (rp2 h)) .dword false (rp1 h) dwordOffset)
  else if cop h = 0b101#3 then some (.store (.f (rp2 h)) .dword (rp1 h) dwordOffset)
  else if cop h = 0b110#3 then some (.store (.x (rp2 h)) .word (rp1 h) wordOffset)
  else if cop h = 0b111#3 then some (.store (.x (rp2 h)) .dword (rp1 h) dwordOffset)
  else none

def ofAlu : Option Insn :=
  let imm : Word := (cimm h).setWidth 64
  if h.extractLsb' 10 2 = 0b00#2 then some (onImm .srl (rp1 h) (rp1 h) imm)
  else if h.extractLsb' 10 2 = 0b01#2 then some (onImm .sra (rp1 h) (rp1 h) imm)
  else if h.extractLsb' 10 2 = 0b10#2 then
    some (onImm .and (rp1 h) (rp1 h) ((cimm h).signExtend 64))
  else
    ([((false, 0b00#2), IntOp.sub), ((false, 0b01), .xor), ((false, 0b10), .or),
      ((false, 0b11), .and), ((true, 0b00), .subw), ((true, 0b01), .addw)].lookup
        (h.getLsbD 12, h.extractLsb' 5 2)).map fun op => onRegs op (rp1 h) (rp1 h) (rp2 h)

/-- Where the destination is x0 and that is not reserved, the instruction is a hint. -/
def ofQ1 : Option Insn :=
  let imm : Word := (cimm h).signExtend 64
  let offset : Word :=
    (placed 9 [(12, [8, 4, 3]), (6, [7, 6, 2, 1, 5])] h).signExtend 64
  if cop h = 0b000#3 then some (onImm .add (rc1 h) (rc1 h) imm)
  else if cop h = 0b001#3 then
    if rc1 h = 0 then none else some (onImm .addw (rc1 h) (rc1 h) imm)
  else if cop h = 0b010#3 then some (.compute (rc1 h) fun _ _ => imm)
  else if cop h = 0b011#3 then
    if cimm h = 0 then none
    else if rc1 h = 2 then
      -- C.ADDI16SP
      let imm := placed 10 [(12, [9]), (6, [4, 6, 8, 7, 5])] h
      some (onImm .add 2 2 (imm.signExtend 64))
    else
      -- C.LUI
      let imm := placed 18 [(12, [17]), (6, [16, 15, 14, 13, 12])] h
      some (.compute (rc1 h) fun _ _ => imm.signExtend 64)
  else if cop h = 0b100#3 then ofAlu h
  else if cop h = 0b101#3 then
    let offset := placed 12 [(12, [11, 4, 9, 8, 10, 6, 7, 3, 2, 1, 5])] h
    some (.jal 0 (offset.signExtend 64))
  else if cop h = 0b110#3 then some (.branch (fun regs => xreg regs (rp1 h) == 0) offset)
  else some (.branch (fun regs => xreg regs (rp1 h) != 0) offset)

def ofQ2 : Option Insn :=
  let wordLoad : Word := (placed 8 [(12, [5]), (6, [4, 3, 2, 7, 6])] h).setWidth 64
  let dwordLoad : Word := (placed 9 [(12, [5]), (6, [4, 3, 8, 7, 6])] h).setWidth 64
  let wordStore : Word := (placed 8 [(12, [5, 4, 3, 2, 7, 6])] h).setWidth 64
  let dwordStore : Word := (placed 9 [(12, [5, 4, 3, 8, 7, 6])] h).setWidth 64
  if cop h = 0b000#3 then some (onImm .sll (rc1 h) (rc1 h) ((cimm h).setWidth 64))
  else if cop h = 0b001#3 then some (.load (.f (rc1 h)) .dword false 2 dwordLoad)
  else if cop h = 0b010#3 then
    if rc1 h = 0 then none else some (.load (.x (rc1 h)) .word false 2 wordLoad)
  else if cop h = 0b011#3 then
    if rc1 h = 0 then none else some (.load (.x (rc1 h)) .dword false 2 dwordLoad)
  else if cop h = 0b100#3 then
    if h.getLsbD 12 = false then
      if rc2 h ≠ 0 then some (.compute (rc1 h) fun regs _ => xreg regs (rc2 h))
      else if rc1 h ≠ 0 then some (.jalr 0 (rc1 h) 0)
      else none
    else
      if rc2 h ≠ 0 then some (onRegs .add (rc1 h) (rc1 h) (rc2 h))
      else if rc1 h ≠ 0 then some (.jalr 1 (rc1 h) 0)
      else some .ebreak
  else if cop h = 0b101#3 then some (.store (.f (rc2 h)) .dword 2 dwordStore)
  else if cop h = 0b110#3 then some (.store (.x (rc2 h)) .word 2 wordStore)
  else some (.store (.x (rc2 h)) .dword 2 dwordStore)

/-- The instruction a 16-bit encoding stands for, if it is one. -/
def of16 : Option Insn :=
  if quadrant h = 0b00#2 then ofQ0 h
  else if quadrant h = 0b01#2 then ofQ1 h
  else if quadrant h = 0b10#2 then ofQ2 h
  else none

end Insn

-- ---------------------------------------------------------------------
-- Immediates
-- ---------------------------------------------------------------------

section Immediates

variable (h : BitVec 16)

theorem getLsbD_placed {w : Nat} {runs : List (Nat × List Nat)} (k : Nat) (inside : k < w) :
    (placed w runs h).getLsbD k = runs.any fun (hi, bits) =>
      (bits.idxOf? k).any fun i => h.getLsbD (hi - i) :=
  Hdl.getLsbD_tabulate _ ⟨k, inside⟩

theorem fields_placed : shamt6 h = Insn.cimm h ∧ ciImm6 h = Insn.cimm h ∧
    addi4spnImm h = placed 10 [(12, [5, 4, 9, 8, 7, 6, 2, 3])] h ∧
    addi16spImm h = placed 10 [(12, [9]), (6, [4, 6, 8, 7, 5])] h ∧
    jImm h = placed 12 [(12, [11, 4, 9, 8, 10, 6, 7, 3, 2, 1, 5])] h ∧
    bImm h = placed 9 [(12, [8, 4, 3]), (6, [7, 6, 2, 1, 5])] h ∧
    lwImm h = placed 7 [(12, [5, 4, 3]), (6, [2, 6])] h ∧
    ldImm h = placed 8 [(12, [5, 4, 3]), (6, [7, 6])] h ∧
    lwspImm h = placed 8 [(12, [5]), (6, [4, 3, 2, 7, 6])] h ∧
    ldspImm h = placed 9 [(12, [5]), (6, [4, 3, 8, 7, 6])] h ∧
    swspImm h = placed 8 [(12, [5, 4, 3, 2, 7, 6])] h ∧
    sdspImm h = placed 9 [(12, [5, 4, 3, 8, 7, 6])] h := by
  refine ⟨?_, ?_, ?_, ?_, ?_, ?_, ?_, ?_, ?_, ?_, ?_, ?_⟩ <;>
  · refine BitVec.eq_of_getLsbD_eq fun k hk => ?_
    try unfold Insn.cimm
    rw [getLsbD_placed h k hk]
    interval_cases k <;>
      simp only [shamt6, ciImm6, addi4spnImm, addi16spImm, jImm, bImm, lwImm, ldImm, lwspImm,
        ldspImm, swspImm, sdspImm, BitVec.getLsbD_append, BitVec.getLsbD_extractLsb', List.idxOf?,
        List.findIdx?_cons, List.any_cons, List.any_nil] <;>
      simp

/-- The immediate of C.LUI is the field of the other immediates, twelve places up. -/
theorem lui_placed :
    placed 18 [(12, [17]), (6, [16, 15, 14, 13, 12])] h = ciImm6 h ++ 0#12 := by
  refine BitVec.eq_of_getLsbD_eq fun k hk => ?_
  rw [getLsbD_placed h k hk]
  interval_cases k <;>
    simp only [ciImm6, BitVec.getLsbD_append, BitVec.getLsbD_extractLsb', List.idxOf?,
      List.findIdx?_cons, List.any_cons, List.any_nil] <;>
    simp

end Immediates

theorem signExtend_above (imm : BitVec 6) :
    (imm.signExtend 20 ++ 0#12).signExtend 64 = (imm ++ 0#12).signExtend 64 := by
  refine BitVec.eq_of_getLsbD_eq fun k hk => ?_
  simp only [BitVec.getLsbD_signExtend, BitVec.getLsbD_append, BitVec.msb_eq_getLsbD_last]
  grind

theorem signExtend_twice {n m : Nat} (imm : BitVec n) (some : 0 < n) (narrow : n ≤ m) :
    (imm.signExtend m).signExtend 64 = imm.signExtend 64 := by
  refine BitVec.eq_of_getLsbD_eq fun k hk => ?_
  simp only [BitVec.getLsbD_signExtend, BitVec.msb_eq_getLsbD_last]
  grind

theorem signExtend_unsigned {n m : Nat} (imm : BitVec n) (narrow : n < m) :
    (imm.setWidth m).signExtend 64 = imm.setWidth 64 := by
  refine BitVec.eq_of_getLsbD_eq fun k hk => ?_
  simp only [BitVec.getLsbD_signExtend, BitVec.getLsbD_setWidth, BitVec.msb_eq_getLsbD_last]
  have above : imm.getLsbD (m - 1) = false := BitVec.getLsbD_of_ge _ _ (by omega)
  have beyond : m ≤ k → imm.getLsbD k = false := fun out => BitVec.getLsbD_of_ge _ _ (by omega)
  grind

-- ---------------------------------------------------------------------
-- What the formats encode
-- ---------------------------------------------------------------------

/-- The word encodes the instruction, and decode is right about it. -/
def Encodes (w : BitVec 32) (i : Option Insn) : Prop := Insn.of32 w = i ∧ ¬Deviates w

theorem regular_of_opcode (op : opcode w = o)
    (other : o ∉ opAmo :: opOpImm32 :: opSystem :: fpOpcodes) : ¬Deviates w := by
  subst op
  simp only [List.mem_cons, not_or] at other
  rintro (⟨amo, -⟩ | ⟨opImm32, -⟩ | ⟨system, -⟩ | ⟨fp, -⟩)
  · exact other.1 amo
  · exact other.2.1 opImm32
  · exact other.2.2.1 system
  · exact other.2.2.2 fp

section Encoded

variable (imm : BitVec 12) (rd' rs' b : ArchReg) (shamt : BitVec 6)

theorem encodes_addi : Encodes (iType imm rs' f3AddSub rd' opOpImm)
    (some (Insn.onImm .add rd' rs' (imm.signExtend 64))) := by
  obtain ⟨op, frd, f3, frs, fimm⟩ := iType_fields imm rs' rd' f3AddSub opOpImm
  refine ⟨?_, regular_of_opcode op (by decide)⟩
  unfold Insn.of32 Insn.ofOpImm Insn.regImm
  rw [op, frd, f3, frs, fimm]
  rfl

theorem encodes_andi : Encodes (iType imm rs' f3And rd' opOpImm)
    (some (Insn.onImm .and rd' rs' (imm.signExtend 64))) := by
  obtain ⟨op, frd, f3, frs, fimm⟩ := iType_fields imm rs' rd' f3And opOpImm
  refine ⟨?_, regular_of_opcode op (by decide)⟩
  unfold Insn.of32 Insn.ofOpImm Insn.regImm
  rw [op, frd, f3, frs, fimm]
  rfl

theorem encodes_addiw : Encodes (iType imm rs' f3AddSub rd' opOpImm32)
    (some (Insn.onImm .addw rd' rs' (imm.signExtend 64))) := by
  obtain ⟨op, frd, f3, frs, fimm⟩ := iType_fields imm rs' rd' f3AddSub opOpImm32
  constructor
  · unfold Insn.of32 Insn.ofOpImm32 Insn.regImm
    rw [op, frd, f3, frs, fimm]
    rfl
  · rintro (⟨amo, -⟩ | ⟨-, slliUw, -⟩ | ⟨system, -⟩ | ⟨fp, -⟩)
    · exact absurd (op.symm.trans amo) (by decide)
    · exact absurd (f3.symm.trans slliUw) (by decide)
    · exact absurd (op.symm.trans system) (by decide)
    · rw [op] at fp
      exact absurd fp (by decide)

theorem encodes_load (f3 : BitVec 3) (size : MemSize)
    (row : f3 = f3Lw ∧ size = .word ∨ f3 = f3Ld ∧ size = .dword) :
    Encodes (iType imm rs' f3 rd' opLoad)
      (some (.load (.x rd') size false rs' (imm.signExtend 64))) := by
  obtain ⟨op, frd, ff3, frs, fimm⟩ := iType_fields imm rs' rd' f3 opLoad
  refine ⟨?_, regular_of_opcode op (by decide)⟩
  unfold Insn.of32 Insn.ofLoad
  obtain ⟨rfl, rfl⟩ | ⟨rfl, rfl⟩ := row <;> rw [op, frd, ff3, frs, fimm] <;> rfl

theorem encodes_fld : Encodes (iType imm rs' f3Ld rd' opLoadFp)
    (some (.load (.f rd') .dword false rs' (imm.signExtend 64))) := by
  obtain ⟨op, frd, f3, frs, fimm⟩ := iType_fields imm rs' rd' f3Ld opLoadFp
  refine ⟨?_, regular_of_opcode op (by decide)⟩
  unfold Insn.of32 Insn.ofLoadFp
  rw [op, frd, f3, frs, fimm]
  rfl

theorem encodes_store (f3 : BitVec 3) (size : MemSize)
    (row : f3 = f3Sw ∧ size = .word ∨ f3 = f3Sd ∧ size = .dword) :
    Encodes (sType imm b rs' f3 opStore)
      (some (.store (.x b) size rs' (imm.signExtend 64))) := by
  obtain ⟨op, ff3, frs, fb, fimm⟩ := sType_fields imm b rs' f3 opStore
  refine ⟨?_, regular_of_opcode op (by decide)⟩
  unfold Insn.of32 Insn.ofStore
  obtain ⟨rfl, rfl⟩ | ⟨rfl, rfl⟩ := row <;> rw [op, ff3, frs, fb, fimm] <;> rfl

theorem encodes_fsd : Encodes (sType imm b rs' f3Sd opStoreFp)
    (some (.store (.f b) .dword rs' (imm.signExtend 64))) := by
  obtain ⟨op, f3, frs, fb, fimm⟩ := sType_fields imm b rs' f3Sd opStoreFp
  refine ⟨?_, regular_of_opcode op (by decide)⟩
  unfold Insn.of32 Insn.ofStoreFp
  rw [op, f3, frs, fb, fimm]
  rfl

/-- The three immediate shifts. -/
theorem encodes_shift (f6 : BitVec 6) (f3 : BitVec 3) (o : IntOp)
    (row : (f3, f6, o) ∈ [(f3Sll, 0b000000#6, IntOp.sll), (f3SrlSra, 0b000000, .srl),
      (f3SrlSra, 0b010000, .sra)]) :
    Encodes (shiftType f6 shamt rs' f3 rd' opOpImm)
      (some (Insn.onImm o rd' rs' (shamt.setWidth 64))) := by
  obtain ⟨op, frd, ff3, frs, ff6, fshamt⟩ := shiftType_fields f6 shamt rs' rd' f3 opOpImm
  refine ⟨?_, regular_of_opcode op (by decide)⟩
  simp only [List.mem_cons, Prod.mk.injEq, List.not_mem_nil, or_false] at row
  unfold Insn.of32 Insn.ofOpImm Insn.regImm Insn.shamt
  obtain ⟨rfl, rfl, rfl⟩ | ⟨rfl, rfl, rfl⟩ | ⟨rfl, rfl, rfl⟩ := row <;>
    rw [op, frd, ff3, frs, ff6, fshamt] <;> rfl

theorem encodes_op (f7 : BitVec 7) (f3 : BitVec 3) (o : IntOp)
    (row : Insn.opOps.lookup (f7, f3) = some o) (plain : f7 ≠ f7Muldiv) :
    Encodes (rType f7 b rs' f3 rd' opOp) (some (Insn.onRegs o rd' rs' b)) := by
  obtain ⟨op, frd, ff3, frs, fb, ff7⟩ := rType_fields f7 b rs' rd' f3 opOp
  refine ⟨?_, regular_of_opcode op (by decide)⟩
  unfold Insn.of32 Insn.ofOp Insn.regReg
  rw [op, frd, ff3, frs, fb, ff7, row, if_neg plain]
  rfl

theorem encodes_op32 (f7 : BitVec 7) (o : IntOp)
    (row : Insn.op32Ops.lookup (f7, f3AddSub) = some o) (plain : f7 ≠ f7Muldiv) :
    Encodes (rType f7 b rs' f3AddSub rd' opOp32) (some (Insn.onRegs o rd' rs' b)) := by
  obtain ⟨op, frd, ff3, frs, fb, ff7⟩ := rType_fields f7 b rs' rd' f3AddSub opOp32
  refine ⟨?_, regular_of_opcode op (by decide)⟩
  have notZexth : ¬(f7 = f7Zexth ∧ f3AddSub = f3Zexth) := fun zexth => absurd zexth.2 (by decide)
  unfold Insn.of32 Insn.ofOp32 Insn.regReg
  rw [op, frd, ff3, frs, fb, ff7, row, if_neg plain, if_neg notZexth]
  rfl

theorem encodes_lui (imm : BitVec 20) : Encodes (uType imm rd' opLui)
    (some (.compute rd' fun _ _ => (imm ++ 0#12).signExtend 64)) := by
  obtain ⟨op, frd, fimm⟩ := uType_fields rd' opLui imm
  refine ⟨?_, regular_of_opcode op (by decide)⟩
  unfold Insn.of32
  rw [op, frd, fimm]
  rfl

theorem encodes_jal (imm : BitVec 21) (even : imm.getLsbD 0 = false) :
    Encodes (jType imm rd' opJal) (some (.jal rd' (imm.signExtend 64))) := by
  obtain ⟨op, frd, fimm⟩ := jType_fields rd' opJal imm even
  refine ⟨?_, regular_of_opcode op (by decide)⟩
  unfold Insn.of32
  rw [op, frd, fimm]
  rfl

theorem encodes_jalr : Encodes (iType imm rs' f3AddSub rd' opJalr)
    (some (.jalr rd' rs' (imm.signExtend 64))) := by
  obtain ⟨op, frd, f3, frs, fimm⟩ := iType_fields imm rs' rd' f3AddSub opJalr
  refine ⟨?_, regular_of_opcode op (by decide)⟩
  unfold Insn.of32
  rw [op, frd, f3, frs, fimm]
  rfl

theorem encodes_branch (imm : BitVec 13) (even : imm.getLsbD 0 = false) :
    Encodes (bType imm 0 rs' f3Beq opBranch)
        (some (.branch (fun regs => xreg regs rs' == 0) (imm.signExtend 64))) ∧
      Encodes (bType imm 0 rs' f3Bne opBranch)
        (some (.branch (fun regs => xreg regs rs' != 0) (imm.signExtend 64))) := by
  constructor
  · obtain ⟨op, f3, frs, fb, fimm⟩ := bType_fields 0 rs' f3Beq opBranch imm even
    refine ⟨?_, regular_of_opcode op (by decide)⟩
    unfold Insn.of32 Insn.ofBranch
    rw [op, f3, frs, fb, fimm]
    rfl
  · obtain ⟨op, f3, frs, fb, fimm⟩ := bType_fields 0 rs' f3Bne opBranch imm even
    refine ⟨?_, regular_of_opcode op (by decide)⟩
    unfold Insn.of32 Insn.ofBranch
    rw [op, f3, frs, fb, fimm]
    rfl

end Encoded

-- ---------------------------------------------------------------------
-- Expansion
-- ---------------------------------------------------------------------

section Expansion

variable {h : BitVec 16}

theorem onImm_x0 (rd : ArchReg) (imm : Word) :
    Insn.onImm .add rd 0 imm = .compute rd fun _ _ => imm := by
  refine congrArg (Insn.compute rd) (funext fun regs => funext fun _ => ?_)
  exact (congrArg (· + imm) (if_pos rfl)).trans (BitVec.zero_add imm)

theorem onImm_zero (rd rs : ArchReg) :
    Insn.onImm .add rd rs 0 = .compute rd fun regs _ => xreg regs rs :=
  congrArg (Insn.compute rd) (funext fun _ => funext fun _ => BitVec.add_zero _)

theorem encodes_ebreak : Encodes 0x00100073 (some .ebreak) := by
  refine ⟨rfl, ?_⟩
  rintro (⟨amo, -⟩ | ⟨opImm32, -⟩ | ⟨-, stray⟩ | ⟨fp, -⟩)
  · exact absurd amo (by decide)
  · exact absurd opImm32 (by decide)
  · exact stray.2.2 (by decide)
  · exact absurd fp (by decide)

/-- Zero is what reserved encodings expand to. -/
theorem encodes_reserved : Encodes 0 none :=
  ⟨by decide, regular_of_opcode (o := 0) (by decide) (by decide)⟩

theorem encodes_q0 : Encodes (decompressQ0 h) (Insn.ofQ0 h) := by
  obtain ⟨-, -, addi4spn, -, -, -, lw, ld, -⟩ := fields_placed h
  unfold decompressQ0 Insn.ofQ0
  dsimp only
  rw [← addi4spn, ← lw, ← ld]
  rcases f3_cases (cop h) with c | c | c | c | c | c | c | c <;> rw [c]
  · by_cases zero : addi4spnImm h = 0
    · rw [if_pos zero, if_pos zero]
      exact encodes_reserved
    · rw [if_neg zero, if_neg zero, ← signExtend_unsigned _ (show 10 < 12 by decide)]
      exact encodes_addi _ _ _
  · rw [← signExtend_unsigned (ldImm h) (show 8 < 12 by decide)]
    exact encodes_fld _ _ _
  · rw [← signExtend_unsigned (lwImm h) (show 7 < 12 by decide)]
    exact encodes_load _ _ _ _ _ (.inl ⟨rfl, rfl⟩)
  · rw [← signExtend_unsigned (ldImm h) (show 8 < 12 by decide)]
    exact encodes_load _ _ _ _ _ (.inr ⟨rfl, rfl⟩)
  · exact encodes_reserved
  · rw [← signExtend_unsigned (ldImm h) (show 8 < 12 by decide)]
    exact encodes_fsd _ _ _
  · rw [← signExtend_unsigned (lwImm h) (show 7 < 12 by decide)]
    exact encodes_store _ _ _ _ _ (.inl ⟨rfl, rfl⟩)
  · rw [← signExtend_unsigned (ldImm h) (show 8 < 12 by decide)]
    exact encodes_store _ _ _ _ _ (.inr ⟨rfl, rfl⟩)

theorem two_rest : ∀ k : BitVec 2, k ≠ 0 → k ≠ 1 → k ≠ 2 → k = 3 := by decide

theorem encodes_alu : Encodes (decompressAlu h) (Insn.ofAlu h) := by
  obtain ⟨shamt, imm, -⟩ := fields_placed h
  unfold decompressAlu Insn.ofAlu
  dsimp only
  rw [← shamt]
  split_ifs with srl sra andi pair sub xor or subw addw
  · exact encodes_shift _ _ _ _ _ _ (by decide)
  · exact encodes_shift _ _ _ _ _ _ (by decide)
  · rw [shamt, ← imm, ← signExtend_twice (ciImm6 h) (by decide) (show 6 ≤ 12 by decide)]
    exact encodes_andi _ _ _
  · rw [pair, sub]
    exact encodes_op _ _ _ _ _ _ rfl (by decide)
  · rw [pair, xor]
    exact encodes_op _ _ _ _ _ _ rfl (by decide)
  · rw [pair, or]
    exact encodes_op _ _ _ _ _ _ rfl (by decide)
  · have and := two_rest (h.extractLsb' 5 2) sub xor or
    rw [pair, and]
    exact encodes_op _ _ _ _ _ _ rfl (by decide)
  · rw [Bool.eq_true_of_not_eq_false pair, subw]
    exact encodes_op32 _ _ _ _ _ rfl (by decide)
  · rw [Bool.eq_true_of_not_eq_false pair, addw]
    exact encodes_op32 _ _ _ _ _ rfl (by decide)
  · rw [Bool.eq_true_of_not_eq_false pair]
    by_cases or : h.extractLsb' 5 2 = 0b10#2
    · rw [or]
      exact encodes_reserved
    · rw [two_rest (h.extractLsb' 5 2) subw addw or]
      exact encodes_reserved

/-- The hint that expands to a reserved encoding: C.LUI into x0. -/
def LuiHint (h : BitVec 16) : Prop :=
  quadrant h = 0b01#2 ∧ cop h = 0b011#3 ∧ rc1 h = 0 ∧ ciImm6 h ≠ 0

/-- The immediate of C.ADDI16SP is made of the bits of the other immediates. -/
theorem addi16spImm_zero : addi16spImm h = 0 ↔ ciImm6 h = 0 := by
  constructor
  · intro zero
    have bit (k : Nat) : (addi16spImm h).getLsbD k = false := by rw [zero]; simp
    simp only [addi16spImm, BitVec.getLsbD_append, BitVec.getLsbD_extractLsb'] at bit
    refine BitVec.eq_of_getLsbD_eq fun k hk => ?_
    simp only [ciImm6, BitVec.getLsbD_append, BitVec.getLsbD_extractLsb']
    interval_cases k
    · simpa using bit 5
    · simpa using bit 7
    · simpa using bit 8
    · simpa using bit 6
    · simpa using bit 4
    · simpa using bit 9
  · intro zero
    have bit (k : Nat) : (ciImm6 h).getLsbD k = false := by rw [zero]; simp
    simp only [ciImm6, BitVec.getLsbD_append, BitVec.getLsbD_extractLsb'] at bit
    refine BitVec.eq_of_getLsbD_eq fun k hk => ?_
    simp only [addi16spImm, BitVec.getLsbD_append, BitVec.getLsbD_extractLsb']
    interval_cases k
    · rfl
    · rfl
    · rfl
    · rfl
    · simpa using bit 4
    · simpa using bit 0
    · simpa using bit 3
    · simpa using bit 1
    · simpa using bit 2
    · simpa using bit 5

theorem offsets_even : (jImm h).getLsbD 0 = false ∧ (bImm h).getLsbD 0 = false := by
  simp only [jImm, bImm, BitVec.getLsbD_append]
  exact ⟨rfl, rfl⟩

theorem even_signExtend {n m : Nat} (imm : BitVec n) (some : 0 < n)
    (even : imm.getLsbD 0 = false) : (imm.signExtend m).getLsbD 0 = false := by
  rw [BitVec.getLsbD_signExtend, if_pos some, even, Bool.and_false]

theorem encodes_q1 (q : quadrant h = 0b01#2) (noHint : ¬LuiHint h) :
    Encodes (decompressQ1 h) (Insn.ofQ1 h) := by
  obtain ⟨-, imm, -, addi16sp, j, b, -⟩ := fields_placed h
  have lui := lui_placed h
  unfold decompressQ1 Insn.ofQ1
  dsimp only
  rw [← imm, ← addi16sp, ← j, ← b, lui]
  have wide := signExtend_twice (ciImm6 h) (by decide) (show 6 ≤ 12 by decide)
  have branches := encodes_branch (rp1 h) ((bImm h).signExtend 13)
    (even_signExtend _ (by decide) offsets_even.2)
  rw [signExtend_twice (bImm h) (by decide) (show 9 ≤ 13 by decide)] at branches
  rcases f3_cases (cop h) with c | c | c | c | c | c | c | c <;> rw [c]
  · rw [← wide]
    exact encodes_addi _ _ _
  · by_cases zero : rc1 h = 0
    · rw [if_pos zero, if_pos zero]
      exact encodes_reserved
    · rw [if_neg zero, if_neg zero, ← wide]
      exact encodes_addiw _ _ _
  · rw [← onImm_x0, ← wide]
    exact encodes_addi _ _ _
  · simp +decide only [if_true, if_false, addi16spImm_zero]
    by_cases zero : ciImm6 h = 0
    · simp only [zero, or_true, if_true, ite_self]
      exact encodes_reserved
    rw [if_neg zero, if_neg zero]
    by_cases sp : rc1 h = 2
    · rw [if_pos sp, if_pos sp,
        ← signExtend_twice (addi16spImm h) (by decide) (show 10 ≤ 12 by decide)]
      exact encodes_addi _ _ _
    · have notX0 : rc1 h ≠ 0 := fun x0 => noHint ⟨q, c, x0, zero⟩
      rw [if_neg sp, if_neg sp, if_neg (not_or.mpr ⟨notX0, zero⟩), ← signExtend_above]
      exact encodes_lui _ _
  · exact encodes_alu
  · rw [← signExtend_twice (jImm h) (by decide) (show 12 ≤ 21 by decide)]
    exact encodes_jal _ _ (even_signExtend _ (by decide) offsets_even.1)
  · exact branches.1
  · exact branches.2

theorem encodes_q2 : Encodes (decompressQ2 h) (Insn.ofQ2 h) := by
  obtain ⟨shamt, -, -, -, -, -, -, -, lwsp, ldsp, swsp, sdsp⟩ := fields_placed h
  unfold decompressQ2 Insn.ofQ2
  dsimp only
  rw [← shamt, ← lwsp, ← ldsp, ← swsp, ← sdsp]
  have lw := signExtend_unsigned (lwspImm h) (show 8 < 12 by decide)
  have ld := signExtend_unsigned (ldspImm h) (show 9 < 12 by decide)
  have sw := signExtend_unsigned (swspImm h) (show 8 < 12 by decide)
  have sd := signExtend_unsigned (sdspImm h) (show 9 < 12 by decide)
  rcases f3_cases (cop h) with c | c | c | c | c | c | c | c <;> rw [c]
  · exact encodes_shift _ _ _ _ _ _ (by decide)
  · rw [← ld]
    exact encodes_fld _ _ _
  · simp +decide only [if_true, if_false]
    by_cases zero : rc1 h = 0
    · rw [if_pos zero, if_pos zero]
      exact encodes_reserved
    · rw [if_neg zero, if_neg zero, ← lw]
      exact encodes_load _ _ _ _ _ (.inl ⟨rfl, rfl⟩)
  · simp +decide only [if_true, if_false]
    by_cases zero : rc1 h = 0
    · rw [if_pos zero, if_pos zero]
      exact encodes_reserved
    · rw [if_neg zero, if_neg zero, ← ld]
      exact encodes_load _ _ _ _ _ (.inr ⟨rfl, rfl⟩)
  · simp +decide only [if_true, if_false]
    have still : BitVec.signExtend 64 (0 : BitVec 12) = (0 : Word) := by decide
    by_cases bit : h.getLsbD 12 = false
    · rw [if_pos bit, if_pos bit]
      by_cases none2 : rc2 h = 0
      · rw [if_pos none2, if_neg (not_not.mpr none2)]
        by_cases none1 : rc1 h = 0
        · rw [if_pos none1, if_neg (not_not.mpr none1)]
          exact encodes_reserved
        · rw [if_neg none1, if_pos none1, ← still]
          exact encodes_jalr _ _ _
      · rw [if_neg none2, if_pos none2, ← onImm_zero, ← still]
        exact encodes_addi _ _ _
    · rw [if_neg bit, if_neg bit]
      by_cases none2 : rc2 h = 0
      · rw [if_pos none2, if_neg (not_not.mpr none2)]
        by_cases none1 : rc1 h = 0
        · rw [if_pos none1, if_neg (not_not.mpr none1)]
          exact encodes_ebreak
        · rw [if_neg none1, if_pos none1, ← still]
          exact encodes_jalr _ _ _
      · rw [if_neg none2, if_pos none2]
        exact encodes_op _ _ _ _ _ _ rfl (by decide)
  · rw [← sd]
    exact encodes_fsd _ _ _
  · rw [← sw]
    exact encodes_store _ _ _ _ _ (.inl ⟨rfl, rfl⟩)
  · rw [← sd]
    exact encodes_store _ _ _ _ _ (.inr ⟨rfl, rfl⟩)

theorem encodes_expansion (noHint : ¬LuiHint h) :
    Encodes (rvcDecompress h) (Insn.of16 h) := by
  unfold rvcDecompress Insn.of16
  by_cases q0 : quadrant h = 0b00#2
  · rw [if_pos q0, if_pos q0]
    exact encodes_q0
  by_cases q1 : quadrant h = 0b01#2
  · rw [if_neg q0, if_neg q0, if_pos q1, if_pos q1]
    exact encodes_q1 q1 noHint
  by_cases q2 : quadrant h = 0b10#2
  · rw [if_neg q0, if_neg q0, if_neg q1, if_neg q1, if_pos q2, if_pos q2]
    exact encodes_q2
  · rw [if_neg q0, if_neg q0, if_neg q1, if_neg q1, if_neg q2, if_neg q2]
    exact encodes_reserved

end Expansion

-- ---------------------------------------------------------------------
-- Both lengths
-- ---------------------------------------------------------------------

/-- What the front end makes of the fetched bits: the lower half alone is a compressed instruction
unless its last two bits are set. -/
def decodeFetched (w : BitVec 32) (pc : Word) : DecodedInsn :=
  if w.extractLsb' 0 2 = 0b11#2 then decodeSlice w pc false
  else decodeSlice (rvcDecompress (w.extractLsb' 0 16)) pc true

def encoded (w : BitVec 32) : Option Insn :=
  if w.extractLsb' 0 2 = 0b11#2 then Insn.of32 w else Insn.of16 (w.extractLsb' 0 16)

def Misread (w : BitVec 32) : Prop :=
  if w.extractLsb' 0 2 = 0b11#2 then Deviates w else LuiHint (w.extractLsb' 0 16)

theorem wrong_hint (hint : LuiHint h) (pc : Word) :
    ¬Right (decodeSlice (rvcDecompress h) pc true) (Insn.of16 h) := by
  obtain ⟨q, c, x0, notZero⟩ := hint
  have zero : rvcDecompress h = 0 := by
    unfold rvcDecompress decompressQ1
    rw [q, c, x0]
    simp +decide only [true_or, if_true, if_false]
  have lui : ∃ i, Insn.of16 h = some i := by
    obtain ⟨-, imm, -⟩ := fields_placed h
    unfold Insn.of16 Insn.ofQ1
    rw [q, c, x0, ← imm, if_neg notZero]
    exact ⟨_, rfl⟩
  obtain ⟨i, lui⟩ := lui
  rw [zero, lui]
  have refused : Right (decodeSlice 0 pc true) (Insn.of32 0) :=
    right_of_regular encodes_reserved.2
  rw [encodes_reserved.1] at refused
  exact Means.refused refused

theorem wrong_of_misread (misread : Misread w) (pc : Word) :
    ¬Right (decodeFetched w pc) (encoded w) := by
  unfold Misread at misread
  unfold decodeFetched encoded
  split_ifs at misread ⊢ with full
  · exact wrong_of_deviates misread
  · exact wrong_hint misread pc

/-- Decode is right about an encoding exactly if it is none of those it misreads. -/
theorem decode_right_iff (w : BitVec 32) (pc : Word) :
    Right (decodeFetched w pc) (encoded w) ↔ ¬Misread w := by
  constructor
  · exact fun right misread => wrong_of_misread misread pc right
  · intro read
    unfold Misread at read
    unfold decodeFetched encoded
    split_ifs at read ⊢ with full
    · exact right_of_regular read
    · obtain ⟨meaning, regular⟩ := encodes_expansion read
      rw [← meaning]
      exact right_of_regular regular

/-- An AMO without an operation, SLLI.UW by 32, ECALL with a destination, FADD.S with a reserved
rounding mode, and the hint C.LUI into x0. -/
theorem decode_misreads :
    ¬Right (decodeFetched 0x2800A0AF 0) (encoded 0x2800A0AF) ∧
      ¬Right (decodeFetched 0x0A01109B 0) (encoded 0x0A01109B) ∧
      ¬Right (decodeFetched 0x000000F3 0) (encoded 0x000000F3) ∧
      ¬Right (decodeFetched 0x00005053 0) (encoded 0x00005053) ∧
      ¬Right (decodeFetched 0x00006005 0) (encoded 0x00006005) := by
  have amo : Misread 0x2800A0AF := Or.inl ⟨by decide, .inl (by decide), .inl (by decide)⟩
  have slliUw : Misread 0x0A01109B := Or.inr (.inl ⟨by decide, by decide, by decide⟩)
  have ecall : Misread 0x000000F3 :=
    Or.inr (.inr (.inl ⟨by decide, by decide, by decide, by decide⟩))
  have fadd : Misread 0x00005053 :=
    Or.inr (.inr (.inr ⟨by decide, by decide, .s, by decide, fun _ => rfl⟩))
  have lui : Misread 0x00006005 :=
    And.intro (by decide) ⟨by decide, by decide, by decide⟩
  exact ⟨wrong_of_misread amo 0, wrong_of_misread slliUw 0, wrong_of_misread ecall 0,
    wrong_of_misread fadd 0, wrong_of_misread lui 0⟩

end Rv64gc.Decode
