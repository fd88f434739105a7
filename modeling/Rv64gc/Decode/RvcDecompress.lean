import Rv64gc.Decode.DecodeSlice

/-!
# Expanding compressed instructions

`rvc_decompress.sv`: the 32-bit instruction of each compressed one. A reserved encoding expands to
zero, which no opcode has.
-/

namespace Rv64gc.Decode

-- ---------------------------------------------------------------------
-- The formats of 32-bit instructions
-- ---------------------------------------------------------------------

def iType (imm : BitVec 12) (rs1 : BitVec 5) (f3 : BitVec 3) (rd : BitVec 5) (op : BitVec 7) :
    BitVec 32 :=
  imm ++ rs1 ++ f3 ++ rd ++ op

/-- A shift keeps its six-bit amount below the upper six bits of funct7. -/
def shiftType (f6 : BitVec 6) (shamt : BitVec 6) (rs1 : BitVec 5) (f3 : BitVec 3) (rd : BitVec 5)
    (op : BitVec 7) : BitVec 32 :=
  f6 ++ shamt ++ rs1 ++ f3 ++ rd ++ op

def rType (f7 : BitVec 7) (rs2 rs1 : BitVec 5) (f3 : BitVec 3) (rd : BitVec 5) (op : BitVec 7) :
    BitVec 32 :=
  f7 ++ rs2 ++ rs1 ++ f3 ++ rd ++ op

def sType (imm : BitVec 12) (rs2 rs1 : BitVec 5) (f3 : BitVec 3) (op : BitVec 7) : BitVec 32 :=
  imm.extractLsb' 5 7 ++ rs2 ++ rs1 ++ f3 ++ imm.extractLsb' 0 5 ++ op

def uType (imm : BitVec 20) (rd : BitVec 5) (op : BitVec 7) : BitVec 32 := imm ++ rd ++ op

def bType (imm : BitVec 13) (rs2 rs1 : BitVec 5) (f3 : BitVec 3) (op : BitVec 7) : BitVec 32 :=
  imm.extractLsb' 12 1 ++ imm.extractLsb' 5 6 ++ rs2 ++ rs1 ++ f3 ++ imm.extractLsb' 1 4 ++
    imm.extractLsb' 11 1 ++ op

def jType (imm : BitVec 21) (rd : BitVec 5) (op : BitVec 7) : BitVec 32 :=
  imm.extractLsb' 20 1 ++ imm.extractLsb' 1 10 ++ imm.extractLsb' 11 1 ++ imm.extractLsb' 12 8 ++
    rd ++ op

-- ---------------------------------------------------------------------
-- Fields of a compressed instruction
-- ---------------------------------------------------------------------

namespace Compressed

variable (h : BitVec 16)

def quadrant : BitVec 2 := h.extractLsb' 0 2
def cop : BitVec 3 := h.extractLsb' 13 3
def rc1 : BitVec 5 := h.extractLsb' 7 5
def rc2 : BitVec 5 := h.extractLsb' 2 5

/-- The registers x8 to x15. -/
def rp1 : BitVec 5 := 0b01#2 ++ h.extractLsb' 7 3
def rp2 : BitVec 5 := 0b01#2 ++ h.extractLsb' 2 3

def shamt6 : BitVec 6 := h.extractLsb' 12 1 ++ h.extractLsb' 2 5

def addi4spnImm : BitVec 10 :=
  h.extractLsb' 7 4 ++ h.extractLsb' 11 2 ++ h.extractLsb' 5 1 ++ h.extractLsb' 6 1 ++ 0#2

def ciImm6 : BitVec 6 := h.extractLsb' 12 1 ++ h.extractLsb' 2 5

def addi16spImm : BitVec 10 :=
  h.extractLsb' 12 1 ++ h.extractLsb' 3 2 ++ h.extractLsb' 5 1 ++ h.extractLsb' 2 1 ++
    h.extractLsb' 6 1 ++ 0#4

def jImm : BitVec 12 :=
  h.extractLsb' 12 1 ++ h.extractLsb' 8 1 ++ h.extractLsb' 9 2 ++ h.extractLsb' 6 1 ++
    h.extractLsb' 7 1 ++ h.extractLsb' 2 1 ++ h.extractLsb' 11 1 ++ h.extractLsb' 3 3 ++ 0#1

def bImm : BitVec 9 :=
  h.extractLsb' 12 1 ++ h.extractLsb' 5 2 ++ h.extractLsb' 2 1 ++ h.extractLsb' 10 2 ++
    h.extractLsb' 3 2 ++ 0#1

def lwImm : BitVec 7 :=
  h.extractLsb' 5 1 ++ h.extractLsb' 10 3 ++ h.extractLsb' 6 1 ++ 0#2

def ldImm : BitVec 8 := h.extractLsb' 5 2 ++ h.extractLsb' 10 3 ++ 0#3

def lwspImm : BitVec 8 := h.extractLsb' 2 2 ++ h.extractLsb' 12 1 ++ h.extractLsb' 4 3 ++ 0#2

def ldspImm : BitVec 9 := h.extractLsb' 2 3 ++ h.extractLsb' 12 1 ++ h.extractLsb' 5 2 ++ 0#3

def swspImm : BitVec 8 := h.extractLsb' 7 2 ++ h.extractLsb' 9 4 ++ 0#2

def sdspImm : BitVec 9 := h.extractLsb' 7 3 ++ h.extractLsb' 10 3 ++ 0#3

end Compressed

open Compressed

-- ---------------------------------------------------------------------
-- The three quadrants
-- ---------------------------------------------------------------------

def decompressQ0 (h : BitVec 16) : BitVec 32 :=
  if cop h = 0b000#3 then
    if addi4spnImm h = 0 then 0
    else iType ((addi4spnImm h).setWidth 12) 2 f3AddSub (rp2 h) opOpImm
  else if cop h = 0b001#3 then iType ((ldImm h).setWidth 12) (rp1 h) f3Ld (rp2 h) opLoadFp
  else if cop h = 0b010#3 then iType ((lwImm h).setWidth 12) (rp1 h) f3Lw (rp2 h) opLoad
  else if cop h = 0b011#3 then iType ((ldImm h).setWidth 12) (rp1 h) f3Ld (rp2 h) opLoad
  else if cop h = 0b101#3 then sType ((ldImm h).setWidth 12) (rp2 h) (rp1 h) f3Sd opStoreFp
  else if cop h = 0b110#3 then sType ((lwImm h).setWidth 12) (rp2 h) (rp1 h) f3Sw opStore
  else if cop h = 0b111#3 then sType ((ldImm h).setWidth 12) (rp2 h) (rp1 h) f3Sd opStore
  else 0

/-- The register operations of quadrant 1. -/
def decompressAlu (h : BitVec 16) : BitVec 32 :=
  let kind := h.extractLsb' 10 2
  let sub := h.extractLsb' 5 2
  if kind = 0b00#2 then shiftType 0b000000#6 (shamt6 h) (rp1 h) f3SrlSra (rp1 h) opOpImm
  else if kind = 0b01#2 then shiftType 0b010000#6 (shamt6 h) (rp1 h) f3SrlSra (rp1 h) opOpImm
  else if kind = 0b10#2 then iType ((ciImm6 h).signExtend 12) (rp1 h) f3And (rp1 h) opOpImm
  else if h.getLsbD 12 = false then
    if sub = 0b00#2 then rType f7SubSra (rp2 h) (rp1 h) f3AddSub (rp1 h) opOp
    else if sub = 0b01#2 then rType f7Normal (rp2 h) (rp1 h) f3Xor (rp1 h) opOp
    else if sub = 0b10#2 then rType f7Normal (rp2 h) (rp1 h) f3Or (rp1 h) opOp
    else rType f7Normal (rp2 h) (rp1 h) f3And (rp1 h) opOp
  else
    if sub = 0b00#2 then rType f7SubSra (rp2 h) (rp1 h) f3AddSub (rp1 h) opOp32
    else if sub = 0b01#2 then rType f7Normal (rp2 h) (rp1 h) f3AddSub (rp1 h) opOp32
    else 0

def decompressQ1 (h : BitVec 16) : BitVec 32 :=
  if cop h = 0b000#3 then iType ((ciImm6 h).signExtend 12) (rc1 h) f3AddSub (rc1 h) opOpImm
  else if cop h = 0b001#3 then
    if rc1 h = 0 then 0
    else iType ((ciImm6 h).signExtend 12) (rc1 h) f3AddSub (rc1 h) opOpImm32
  else if cop h = 0b010#3 then iType ((ciImm6 h).signExtend 12) 0 f3AddSub (rc1 h) opOpImm
  else if cop h = 0b011#3 then
    if rc1 h = 2 then
      if addi16spImm h = 0 then 0
      else iType ((addi16spImm h).signExtend 12) 2 f3AddSub 2 opOpImm
    else
      -- The hints, which have x0 for their destination, expand to zero as well.
      if rc1 h = 0 ∨ ciImm6 h = 0 then 0 else uType ((ciImm6 h).signExtend 20) (rc1 h) opLui
  else if cop h = 0b100#3 then decompressAlu h
  else if cop h = 0b101#3 then jType ((jImm h).signExtend 21) 0 opJal
  else if cop h = 0b110#3 then bType ((bImm h).signExtend 13) 0 (rp1 h) f3Beq opBranch
  else bType ((bImm h).signExtend 13) 0 (rp1 h) f3Bne opBranch

def decompressQ2 (h : BitVec 16) : BitVec 32 :=
  if cop h = 0b000#3 then shiftType 0b000000#6 (shamt6 h) (rc1 h) f3Sll (rc1 h) opOpImm
  else if cop h = 0b001#3 then iType ((ldspImm h).setWidth 12) 2 f3Ld (rc1 h) opLoadFp
  else if cop h = 0b010#3 then
    if rc1 h = 0 then 0 else iType ((lwspImm h).setWidth 12) 2 f3Lw (rc1 h) opLoad
  else if cop h = 0b011#3 then
    if rc1 h = 0 then 0 else iType ((ldspImm h).setWidth 12) 2 f3Ld (rc1 h) opLoad
  else if cop h = 0b100#3 then
    if h.getLsbD 12 = false then
      if rc2 h = 0 then
        if rc1 h = 0 then 0 else iType 0 (rc1 h) f3AddSub 0 opJalr
      else iType 0 (rc2 h) f3AddSub (rc1 h) opOpImm
    else
      if rc2 h = 0 then
        if rc1 h = 0 then 0x00100073 else iType 0 (rc1 h) f3AddSub 1 opJalr
      else rType f7Normal (rc2 h) (rc1 h) f3AddSub (rc1 h) opOp
  else if cop h = 0b101#3 then sType ((sdspImm h).setWidth 12) (rc2 h) 2 f3Sd opStoreFp
  else if cop h = 0b110#3 then sType ((swspImm h).setWidth 12) (rc2 h) 2 f3Sw opStore
  else sType ((sdspImm h).setWidth 12) (rc2 h) 2 f3Sd opStore

/-- `insn_out` -/
def rvcDecompress (h : BitVec 16) : BitVec 32 :=
  if quadrant h = 0b00#2 then decompressQ0 h
  else if quadrant h = 0b01#2 then decompressQ1 h
  else if quadrant h = 0b10#2 then decompressQ2 h
  else 0

-- ---------------------------------------------------------------------
-- Reading the formats
-- ---------------------------------------------------------------------

open Fields

section Formats

variable (imm : BitVec 12) (f6 shamt : BitVec 6) (f7 : BitVec 7) (rs2' rs1' rd' : BitVec 5)
  (f3 : BitVec 3) (op : BitVec 7)

theorem iType_fields : opcode (iType imm rs1' f3 rd' op) = op ∧
    rd (iType imm rs1' f3 rd' op) = rd' ∧ funct3 (iType imm rs1' f3 rd' op) = f3 ∧
    rs1 (iType imm rs1' f3 rd' op) = rs1' ∧
    immI (iType imm rs1' f3 rd' op) = imm.signExtend 64 := by
  have field : (iType imm rs1' f3 rd' op).extractLsb' 20 12 = imm := by
    refine BitVec.eq_of_getLsbD_eq fun k hk => ?_
    simp only [iType, BitVec.getLsbD_extractLsb', BitVec.getLsbD_append]
    grind
  refine ⟨?_, ?_, ?_, ?_, congrArg (BitVec.signExtend 64) field⟩ <;>
  · refine BitVec.eq_of_getLsbD_eq fun k hk => ?_
    simp only [opcode, rd, funct3, rs1, iType, BitVec.getLsbD_extractLsb', BitVec.getLsbD_append]
    grind

theorem shiftType_fields : opcode (shiftType f6 shamt rs1' f3 rd' op) = op ∧
    rd (shiftType f6 shamt rs1' f3 rd' op) = rd' ∧
    funct3 (shiftType f6 shamt rs1' f3 rd' op) = f3 ∧
    rs1 (shiftType f6 shamt rs1' f3 rd' op) = rs1' ∧
    funct6 (shiftType f6 shamt rs1' f3 rd' op) = f6 ∧
    (shiftType f6 shamt rs1' f3 rd' op).extractLsb' 20 6 = shamt := by
  refine ⟨?_, ?_, ?_, ?_, ?_, ?_⟩ <;>
  · refine BitVec.eq_of_getLsbD_eq fun k hk => ?_
    simp only [opcode, rd, funct3, rs1, funct6, shiftType, BitVec.getLsbD_extractLsb',
      BitVec.getLsbD_append]
    grind

theorem rType_fields : opcode (rType f7 rs2' rs1' f3 rd' op) = op ∧
    rd (rType f7 rs2' rs1' f3 rd' op) = rd' ∧ funct3 (rType f7 rs2' rs1' f3 rd' op) = f3 ∧
    rs1 (rType f7 rs2' rs1' f3 rd' op) = rs1' ∧ rs2 (rType f7 rs2' rs1' f3 rd' op) = rs2' ∧
    funct7 (rType f7 rs2' rs1' f3 rd' op) = f7 := by
  refine ⟨?_, ?_, ?_, ?_, ?_, ?_⟩ <;>
  · refine BitVec.eq_of_getLsbD_eq fun k hk => ?_
    simp only [opcode, rd, funct3, rs1, rs2, funct7, rType, BitVec.getLsbD_extractLsb',
      BitVec.getLsbD_append]
    grind

theorem sType_fields : opcode (sType imm rs2' rs1' f3 op) = op ∧
    funct3 (sType imm rs2' rs1' f3 op) = f3 ∧ rs1 (sType imm rs2' rs1' f3 op) = rs1' ∧
    rs2 (sType imm rs2' rs1' f3 op) = rs2' ∧
    immS (sType imm rs2' rs1' f3 op) = imm.signExtend 64 := by
  have field : (sType imm rs2' rs1' f3 op).extractLsb' 25 7 ++
      (sType imm rs2' rs1' f3 op).extractLsb' 7 5 = imm := by
    refine BitVec.eq_of_getLsbD_eq fun k hk => ?_
    simp only [sType, BitVec.getLsbD_extractLsb', BitVec.getLsbD_append]
    grind
  refine ⟨?_, ?_, ?_, ?_, congrArg (BitVec.signExtend 64) field⟩ <;>
  · refine BitVec.eq_of_getLsbD_eq fun k hk => ?_
    simp only [opcode, funct3, rs1, rs2, sType, BitVec.getLsbD_extractLsb', BitVec.getLsbD_append]
    grind

theorem uType_fields (imm : BitVec 20) : opcode (uType imm rd' op) = op ∧
    rd (uType imm rd' op) = rd' ∧ immU (uType imm rd' op) = (imm ++ 0#12).signExtend 64 := by
  have field : (uType imm rd' op).extractLsb' 12 20 = imm := by
    refine BitVec.eq_of_getLsbD_eq fun k hk => ?_
    simp only [uType, BitVec.getLsbD_extractLsb', BitVec.getLsbD_append]
    grind
  refine ⟨?_, ?_, congrArg (fun imm => (imm ++ 0#12).signExtend 64) field⟩ <;>
  · refine BitVec.eq_of_getLsbD_eq fun k hk => ?_
    simp only [opcode, rd, uType, BitVec.getLsbD_extractLsb', BitVec.getLsbD_append]
    grind

/-- An even branch offset survives. -/
theorem bType_fields (imm : BitVec 13) (even : imm.getLsbD 0 = false) :
    opcode (bType imm rs2' rs1' f3 op) = op ∧ funct3 (bType imm rs2' rs1' f3 op) = f3 ∧
      rs1 (bType imm rs2' rs1' f3 op) = rs1' ∧ rs2 (bType imm rs2' rs1' f3 op) = rs2' ∧
      immB (bType imm rs2' rs1' f3 op) = imm.signExtend 64 := by
  have field : (bType imm rs2' rs1' f3 op).extractLsb' 31 1 ++
      (bType imm rs2' rs1' f3 op).extractLsb' 7 1 ++
      (bType imm rs2' rs1' f3 op).extractLsb' 25 6 ++
      (bType imm rs2' rs1' f3 op).extractLsb' 8 4 ++ 0#1 = imm := by
    refine BitVec.eq_of_getLsbD_eq fun k hk => ?_
    simp only [bType, BitVec.getLsbD_extractLsb', BitVec.getLsbD_append]
    grind
  refine ⟨?_, ?_, ?_, ?_, congrArg (BitVec.signExtend 64) field⟩ <;>
  · refine BitVec.eq_of_getLsbD_eq fun k hk => ?_
    simp only [opcode, funct3, rs1, rs2, bType, BitVec.getLsbD_extractLsb', BitVec.getLsbD_append]
    grind

theorem jType_fields (imm : BitVec 21) (even : imm.getLsbD 0 = false) :
    opcode (jType imm rd' op) = op ∧ rd (jType imm rd' op) = rd' ∧
      immJ (jType imm rd' op) = imm.signExtend 64 := by
  have field : (jType imm rd' op).extractLsb' 31 1 ++ (jType imm rd' op).extractLsb' 12 8 ++
      (jType imm rd' op).extractLsb' 20 1 ++ (jType imm rd' op).extractLsb' 21 10 ++ 0#1 = imm := by
    refine BitVec.eq_of_getLsbD_eq fun k hk => ?_
    simp only [jType, BitVec.getLsbD_extractLsb', BitVec.getLsbD_append]
    grind
  refine ⟨?_, ?_, congrArg (BitVec.signExtend 64) field⟩ <;>
  · refine BitVec.eq_of_getLsbD_eq fun k hk => ?_
    simp only [opcode, rd, jType, BitVec.getLsbD_extractLsb', BitVec.getLsbD_append]
    grind

end Formats

end Rv64gc.Decode
