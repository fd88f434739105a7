import Rv64gc.Isa
import Rv64gc.Decode.Insn

/-!
# Decoding one instruction

`decode_slice.sv`: the micro-operation of a 32-bit instruction word. Each opcode starts from the
defaults and overwrites some fields; an illegal encoding is marked, and keeps the fields that
were set before the mark.
-/

namespace Rv64gc.Decode

namespace Fields

variable (insn : BitVec 32)

def opcode : BitVec 7 := insn.extractLsb' 0 7
def rd : BitVec 5 := insn.extractLsb' 7 5
def funct3 : BitVec 3 := insn.extractLsb' 12 3
def rs1 : BitVec 5 := insn.extractLsb' 15 5
def rs2 : BitVec 5 := insn.extractLsb' 20 5
def rs3 : BitVec 5 := insn.extractLsb' 27 5
def funct7 : BitVec 7 := insn.extractLsb' 25 7
def fpFmt2 : BitVec 2 := insn.extractLsb' 25 2
def funct12 : BitVec 12 := insn.extractLsb' 20 12

/-- The upper six bits of funct7: the seventh belongs to the shift amount. -/
def funct6 : BitVec 6 := insn.extractLsb' 26 6

def immI : BitVec 64 := (insn.extractLsb' 20 12).signExtend 64

def immS : BitVec 64 := (insn.extractLsb' 25 7 ++ insn.extractLsb' 7 5).signExtend 64

def immB : BitVec 64 :=
  (insn.extractLsb' 31 1 ++ insn.extractLsb' 7 1 ++ insn.extractLsb' 25 6 ++
    insn.extractLsb' 8 4 ++ 0#1).signExtend 64

def immU : BitVec 64 := (insn.extractLsb' 12 20 ++ 0#12).signExtend 64

def immJ : BitVec 64 :=
  (insn.extractLsb' 31 1 ++ insn.extractLsb' 12 8 ++ insn.extractLsb' 20 1 ++
    insn.extractLsb' 21 10 ++ 0#1).signExtend 64

end Fields

open Fields

/-- The shifts and bit operations that OP-IMM distinguishes by the upper six bits of funct7. -/
def hi6 (funct7 : BitVec 7) : BitVec 6 := funct7.extractLsb' 1 6

def defaults (insn : BitVec 32) (pc : BitVec 64) (isRvc : Bool) : DecodedInsn where
  valid := true
  pc := pc
  trapPc := pc
  insn := insn
  rs1Arch := rs1 insn
  rs2Arch := rs2 insn
  rs3Arch := rs3 insn
  rdArch := rd insn
  rs1Valid := false
  rs2Valid := false
  rs3Valid := false
  rdValid := false
  imm := 0
  fuType := .alu
  aluOp := .add
  brOp := .eq
  mulOp := .mul
  divOp := .div
  memSize := .byte
  csrOp := .none
  csrAddr := 0
  isBranch := false
  isJal := false
  isJalr := false
  isLoad := false
  isStore := false
  isCsr := false
  isMul := false
  isDiv := false
  isWOp := false
  isUnsigned := false
  useImm := false
  isFence := false
  isFenceI := false
  isEcall := false
  isEbreak := false
  isMret := false
  isSret := false
  isSfenceVma := false
  isWfi := false
  isAmo := false
  amoOp := 0
  amoAq := false
  amoRl := false
  isFpOp := false
  rs1IsFp := false
  rs2IsFp := false
  rs3IsFp := false
  rdIsFp := false
  fp := ⟨.d, .d, .i64, 0, .misc, .none, false, .sgnj, .dFromX⟩
  isRvc := isRvc
  bp := .none
  hasException := false
  excCode := 0
  excTval := 0
  isFused := false
  fusedImm := 0
  fusionType := 0

/-- Marks the instruction illegal and leaves everything else as it is. -/
def illegal (d : DecodedInsn) : DecodedInsn :=
  { d with hasException := true, excCode := excIllegalInsn }

-- ---------------------------------------------------------------------
-- Control transfer and memory
-- ---------------------------------------------------------------------

def decodeLui (insn : BitVec 32) (d : DecodedInsn) : DecodedInsn :=
  { d with aluOp := .lui, rdValid := true, imm := immU insn, useImm := true }

def decodeAuipc (insn : BitVec 32) (d : DecodedInsn) : DecodedInsn :=
  { d with aluOp := .pass2, rdValid := true, imm := immU insn, useImm := true }

def decodeJal (insn : BitVec 32) (d : DecodedInsn) : DecodedInsn :=
  { d with fuType := .bru, brOp := .jal, rdValid := true, isJal := true, imm := immJ insn }

def decodeJalr (insn : BitVec 32) (d : DecodedInsn) : DecodedInsn :=
  let d := { d with
    fuType := .bru, brOp := .jalr, rs1Valid := true, rdValid := true, isJalr := true
    imm := immI insn, useImm := true }
  if funct3 insn = 0 then d else illegal d

def decodeBranch (insn : BitVec 32) (d : DecodedInsn) : DecodedInsn :=
  let d := { d with
    fuType := .bru, rs1Valid := true, rs2Valid := true, isBranch := true, imm := immB insn }
  if funct3 insn = f3Beq then { d with brOp := .eq }
  else if funct3 insn = f3Bne then { d with brOp := .ne }
  else if funct3 insn = f3Blt then { d with brOp := .lt }
  else if funct3 insn = f3Bge then { d with brOp := .ge }
  else if funct3 insn = f3Bltu then { d with brOp := .ltu }
  else if funct3 insn = f3Bgeu then { d with brOp := .geu }
  -- `brOp` keeps its default, BEQ.
  else illegal d

def decodeLoad (insn : BitVec 32) (d : DecodedInsn) : DecodedInsn :=
  let d := { d with
    fuType := .load, rs1Valid := true, rdValid := true, isLoad := true
    imm := immI insn, useImm := true }
  if funct3 insn = f3Lb then { d with memSize := .byte }
  else if funct3 insn = f3Lh then { d with memSize := .half }
  else if funct3 insn = f3Lw then { d with memSize := .word }
  else if funct3 insn = f3Ld then { d with memSize := .dword }
  else if funct3 insn = f3Lbu then { d with memSize := .byte, isUnsigned := true }
  else if funct3 insn = f3Lhu then { d with memSize := .half, isUnsigned := true }
  else if funct3 insn = f3Lwu then { d with memSize := .word, isUnsigned := true }
  else illegal d

def decodeStore (insn : BitVec 32) (d : DecodedInsn) : DecodedInsn :=
  let d := { d with
    fuType := .sta, rs1Valid := true, rs2Valid := true, isStore := true
    imm := immS insn, useImm := true }
  if funct3 insn = f3Sb then { d with memSize := .byte }
  else if funct3 insn = f3Sh then { d with memSize := .half }
  else if funct3 insn = f3Sw then { d with memSize := .word }
  else if funct3 insn = f3Sd then { d with memSize := .dword }
  else illegal d

def decodeAmo (insn : BitVec 32) (d : DecodedInsn) : DecodedInsn :=
  let d := { d with
    amoOp := rs3 insn, amoAq := insn.getLsbD 26, amoRl := insn.getLsbD 25, imm := 0 }
  let access (d : DecodedInsn) : DecodedInsn := { d with
    fuType := .load, rs1Valid := true, rs2Valid := rs3 insn != amoLr, rdValid := true
    isLoad := true, isAmo := true }
  if funct3 insn = 0b010#3 then access { d with memSize := .word }
  else if funct3 insn = 0b011#3 then access { d with memSize := .dword }
  else illegal d

def decodeLoadFp (insn : BitVec 32) (d : DecodedInsn) : DecodedInsn :=
  let d := { d with
    fuType := .load, rs1Valid := true, rdValid := true, rdIsFp := true, isLoad := true
    imm := immI insn, useImm := true }
  if funct3 insn = f3Lw then
    { d with memSize := .word, isUnsigned := true, fp := { d.fp with fmt := .s, dstFmt := .s } }
  else if funct3 insn = f3Ld then
    { d with memSize := .dword, fp := { d.fp with fmt := .d, dstFmt := .d } }
  else illegal d

def decodeStoreFp (insn : BitVec 32) (d : DecodedInsn) : DecodedInsn :=
  let d := { d with
    fuType := .sta, rs1Valid := true, rs2Valid := true, rs2IsFp := true, isStore := true
    imm := immS insn, useImm := true }
  if funct3 insn = f3Sw then
    { d with memSize := .word, fp := { d.fp with fmt := .s, dstFmt := .s } }
  else if funct3 insn = f3Sd then
    { d with memSize := .dword, fp := { d.fp with fmt := .d, dstFmt := .d } }
  else illegal d

-- ---------------------------------------------------------------------
-- Integer computation
-- ---------------------------------------------------------------------

def decodeOpImm (insn : BitVec 32) (d : DecodedInsn) : DecodedInsn :=
  let d := { d with rs1Valid := true, rdValid := true, imm := immI insn, useImm := true }
  let op (o : AluOp) : DecodedInsn := { d with aluOp := o }
  if funct3 insn = f3AddSub then op .add
  else if funct3 insn = f3Slt then op .slt
  else if funct3 insn = f3Sltu then op .sltu
  else if funct3 insn = f3Xor then op .xor
  else if funct3 insn = f3Or then op .or
  else if funct3 insn = f3And then op .and
  else if funct3 insn = f3Sll then
    if funct6 insn = 0 then op .sll
    else if funct7 insn = f7ZbbRot ∧ rs2 insn = zbbClz then op .clz
    else if funct7 insn = f7ZbbRot ∧ rs2 insn = zbbCtz then op .ctz
    else if funct7 insn = f7ZbbRot ∧ rs2 insn = zbbCpop then op .cpop
    else if funct7 insn = f7ZbbRot ∧ rs2 insn = zbbSextb then op .sextb
    else if funct7 insn = f7ZbbRot ∧ rs2 insn = zbbSexth then op .sexth
    else if funct6 insn = hi6 f7ZbsBset then op .bset
    else if funct6 insn = hi6 f7ZbsBclrBext then op .bclr
    else if funct6 insn = hi6 f7ZbsBinv then op .binv
    else illegal d
  else if funct3 insn = f3SrlSra then
    if funct12 insn = f12Rev8 then { d with aluOp := .rev8, rs2Arch := 0 }
    else if funct12 insn = f12Orcb then { d with aluOp := .orcb, rs2Arch := 0 }
    else if funct6 insn = 0b000000#6 then op .srl
    else if funct6 insn = 0b010000#6 then op .sra
    else if funct6 insn = hi6 f7ZbbRot then op .ror
    else if funct6 insn = hi6 f7ZbsBclrBext then op .bext
    else illegal d
  else illegal d

/-- The M extension on OP. -/
def decodeMuldiv (insn : BitVec 32) (d : DecodedInsn) : DecodedInsn :=
  let mul (o : MulOp) : DecodedInsn := { d with fuType := .mul, isMul := true, mulOp := o }
  let div (o : DivOp) : DecodedInsn := { d with fuType := .div, isDiv := true, divOp := o }
  if funct3 insn = f3Mul then mul .mul
  else if funct3 insn = f3Mulh then mul .mulh
  else if funct3 insn = f3Mulhsu then mul .mulhsu
  else if funct3 insn = f3Mulhu then mul .mulhu
  else if funct3 insn = f3Div then div .div
  else if funct3 insn = f3Divu then div .divu
  else if funct3 insn = f3Rem then div .rem
  else if funct3 insn = f3Remu then div .remu
  else illegal d

def decodeOp (insn : BitVec 32) (d : DecodedInsn) : DecodedInsn :=
  let d := { d with rs1Valid := true, rs2Valid := true, rdValid := true }
  let alu := { d with fuType := .alu }
  let op (o : AluOp) : DecodedInsn := { alu with aluOp := o }
  if funct7 insn = f7Muldiv then decodeMuldiv insn d
  else if funct7 insn = f7Zba then
    if funct3 insn = f3Sh1add then op .sh1add
    else if funct3 insn = f3Sh2add then op .sh2add
    else if funct3 insn = f3Sh3add then op .sh3add
    else illegal alu
  else if funct7 insn = f7ZbbMinmax then
    if funct3 insn = f3Min then op .min
    else if funct3 insn = f3Max then op .max
    else if funct3 insn = f3Minu then op .minu
    else if funct3 insn = f3Maxu then op .maxu
    else illegal alu
  else if funct7 insn = f7ZbbRot then
    if funct3 insn = f3Sll then op .rol
    else if funct3 insn = f3SrlSra then op .ror
    else illegal alu
  else if funct7 insn = f7ZbsBset then
    if funct3 insn = f3Bset then op .bset else illegal alu
  else if funct7 insn = f7ZbsBclrBext then
    if funct3 insn = f3Bclr then op .bclr
    else if funct3 insn = f3Bext then op .bext
    else illegal alu
  else if funct7 insn = f7ZbsBinv then
    if funct3 insn = f3Binv then op .binv else illegal alu
  else if funct7 insn = f7Zicond then
    if funct3 insn = f3CzeroEqz then op .czeroEqz
    else if funct3 insn = f3CzeroNez then op .czeroNez
    else illegal alu
  else
    let either (normal alt : AluOp) : DecodedInsn :=
      if funct7 insn = f7Normal then op normal
      else if funct7 insn = f7SubSra then op alt
      else illegal alu
    let only (normal : AluOp) : DecodedInsn :=
      if funct7 insn = f7Normal then op normal else illegal alu
    if funct3 insn = f3AddSub then either .add .sub
    else if funct3 insn = f3Sll then only .sll
    else if funct3 insn = f3Slt then only .slt
    else if funct3 insn = f3Sltu then only .sltu
    else if funct3 insn = f3Xor then either .xor .xnor
    else if funct3 insn = f3SrlSra then either .srl .sra
    else if funct3 insn = f3Or then either .or .orn
    else if funct3 insn = f3And then either .and .andn
    else illegal alu

def decodeOpImm32 (insn : BitVec 32) (d : DecodedInsn) : DecodedInsn :=
  let d := { d with
    rs1Valid := true, rdValid := true, isWOp := true, imm := immI insn, useImm := true }
  let op (o : AluOp) : DecodedInsn := { d with aluOp := o }
  if funct3 insn = f3AddSub then op .add
  else if funct3 insn = f3Sll then
    if funct7 insn = f7Normal then op .sll
    else if funct7 insn = f7ZbbRot ∧ rs2 insn = zbbClz then op .clz
    else if funct7 insn = f7ZbbRot ∧ rs2 insn = zbbCtz then op .ctz
    else if funct7 insn = f7ZbbRot ∧ rs2 insn = zbbCpop then op .cpop
    else if funct7 insn = f7Slliuw then { d with aluOp := .sll, isUnsigned := true }
    else illegal d
  else if funct3 insn = f3SrlSra then
    if funct7 insn = f7Normal then op .srl
    else if funct7 insn = f7SubSra then op .sra
    else if funct7 insn = f7ZbbRot then op .ror
    else illegal d
  else illegal d

def decodeOp32 (insn : BitVec 32) (d : DecodedInsn) : DecodedInsn :=
  let d := { d with rs1Valid := true, rs2Valid := true, rdValid := true, isWOp := true }
  let alu := { d with fuType := .alu }
  let op (o : AluOp) : DecodedInsn := { alu with aluOp := o }
  let div (o : DivOp) : DecodedInsn := { d with fuType := .div, isDiv := true, divOp := o }
  if funct7 insn = f7Muldiv then
    if funct3 insn = f3Mul then { d with fuType := .mul, isMul := true, mulOp := .mul }
    else if funct3 insn = f3Div then div .div
    else if funct3 insn = f3Divu then div .divu
    else if funct3 insn = f3Rem then div .rem
    else if funct3 insn = f3Remu then div .remu
    else illegal d
  else if funct7 insn = f7Zexth ∧ funct3 insn = f3Zexth ∧ rs2 insn = 0 then
    { alu with aluOp := .and, rs2Valid := false, isUnsigned := false, imm := 0xFFFF#64
               useImm := true }
  else if funct7 insn = f7ZbaUw then
    let uw := { alu with isUnsigned := true }
    if funct3 insn = f3AddSub then { uw with aluOp := .add } else illegal uw
  else if funct7 insn = f7Zba then
    let uw := { alu with isUnsigned := true }
    if funct3 insn = f3Sh1add then { uw with aluOp := .sh1add }
    else if funct3 insn = f3Sh2add then { uw with aluOp := .sh2add }
    else if funct3 insn = f3Sh3add then { uw with aluOp := .sh3add }
    else illegal uw
  else if funct7 insn = f7ZbbRot then
    if funct3 insn = f3Sll then op .rol
    else if funct3 insn = f3SrlSra then op .ror
    else illegal alu
  else if funct3 insn = f3AddSub then
    if funct7 insn = f7Normal then op .add
    else if funct7 insn = f7SubSra then op .sub
    else illegal alu
  else if funct3 insn = f3Sll then
    if funct7 insn = f7Normal then op .sll else illegal alu
  else if funct3 insn = f3SrlSra then
    if funct7 insn = f7Normal then op .srl
    else if funct7 insn = f7SubSra then op .sra
    else illegal alu
  else illegal alu

-- ---------------------------------------------------------------------
-- Fences and system instructions
-- ---------------------------------------------------------------------

def decodeMiscMem (insn : BitVec 32) (d : DecodedInsn) : DecodedInsn :=
  if funct3 insn = f3Fence then { d with isFence := true }
  else if funct3 insn = f3FenceI then { d with isFenceI := true }
  else illegal d

def decodeCsr (insn : BitVec 32) (d : DecodedInsn) : DecodedInsn :=
  let d := { d with fuType := .csr, isCsr := true, csrAddr := funct12 insn, rdValid := true }
  let reg (o : CsrOp) : DecodedInsn := { d with csrOp := o, rs1Valid := true }
  let uimm (o : CsrOp) : DecodedInsn :=
    { d with csrOp := o, imm := (rs1 insn).setWidth 64, useImm := true }
  if funct3 insn = f3Csrrw then reg .rw
  else if funct3 insn = f3Csrrs then reg .rs
  else if funct3 insn = f3Csrrc then reg .rc
  else if funct3 insn = f3Csrrwi then uimm .rw
  else if funct3 insn = f3Csrrsi then uimm .rs
  else if funct3 insn = f3Csrrci then uimm .rc
  else illegal d

def decodeSystem (insn : BitVec 32) (d : DecodedInsn) : DecodedInsn :=
  if funct3 insn = f3Priv then
    if funct7 insn = f7SfenceVma ∧ rd insn = 0 then
      { d with fuType := .alu, isFence := true, isSfenceVma := true }
    else if funct12 insn = f12Ecall then
      { d with isEcall := true, hasException := true, excCode := excEcallM }
    else if funct12 insn = f12Ebreak then
      { d with isEbreak := true, hasException := true, excCode := excBreakpoint }
    -- MRET and SRET carry no mark: nothing here depends on the privilege.
    else if funct12 insn = f12Mret then { d with isMret := true }
    else if funct12 insn = f12Sret then { d with isSret := true }
    else if funct12 insn = f12Wfi then { d with isWfi := true }
    else illegal d
  else decodeCsr insn d

-- ---------------------------------------------------------------------
-- Floating point
-- ---------------------------------------------------------------------

/-- Single precision has the even funct7 of each pair. -/
def fmtOf (insn : BitVec 32) : FpFmt := if (funct7 insn).getLsbD 0 then .d else .s

/-- Format and destination format are the same. -/
def sameFmt (insn : BitVec 32) (d : DecodedInsn) : DecodedInsn :=
  { d with fp := { d.fp with fmt := fmtOf insn, dstFmt := fmtOf insn } }

/-- Two sources and a destination, all in the floating-point file. -/
def fpBinary (insn : BitVec 32) (pipe : FpuPipe) (op : FpuOp) (d : DecodedInsn) : DecodedInsn :=
  let d := sameFmt insn d
  { d with
    rs1Valid := true, rs2Valid := true, rdValid := true
    rs1IsFp := true, rs2IsFp := true, rdIsFp := true
    fp := { d.fp with pipe := pipe, op := op } }

/-- The integer format that rs2 names in a conversion. -/
def fpIntFmt (insn : BitVec 32) (d : DecodedInsn) : DecodedInsn :=
  if rs2 insn = fpRs2W then { d with fp := { d.fp with intFmt := .i32 } }
  else if rs2 insn = fpRs2Wu then { d with fp := { d.fp with intFmt := .i32, opMod := true } }
  else if rs2 insn = fpRs2L then { d with fp := { d.fp with intFmt := .i64 } }
  else if rs2 insn = fpRs2Lu then { d with fp := { d.fp with intFmt := .i64, opMod := true } }
  else illegal d

def decodeFp (insn : BitVec 32) (d : DecodedInsn) : DecodedInsn :=
  let d := { d with fuType := .alu, isFpOp := true, fp := { d.fp with rm := funct3 insn } }
  let f7 := funct7 insn
  let misc (d : DecodedInsn) (o : FpuMiscOp) : DecodedInsn :=
    { d with fp := { d.fp with miscOp := o } }
  if f7 = f7FaddS ∨ f7 = f7FaddD then fpBinary insn .fma .add d
  else if f7 = f7FsubS ∨ f7 = f7FsubD then
    let d := fpBinary insn .fma .add d
    { d with fp := { d.fp with opMod := true } }
  else if f7 = f7FmulS ∨ f7 = f7FmulD then fpBinary insn .fma .mul d
  else if f7 = f7FdivS ∨ f7 = f7FdivD then fpBinary insn .divsqrt .div d
  else if f7 = f7FsqrtS ∨ f7 = f7FsqrtD then
    let d := { fpBinary insn .divsqrt .sqrt d with rs2Valid := false, rs2IsFp := false }
    if rs2 insn = fpRs2Zero then d else illegal d
  else if f7 = f7FsgnjS ∨ f7 = f7FsgnjD then
    let d := fpBinary insn .misc .sgnj d
    if funct3 insn = f3Fsgnj then misc d .sgnj
    else if funct3 insn = f3Fsgnjn then misc d .sgnjn
    else if funct3 insn = f3Fsgnjx then misc d .sgnjx
    else illegal d
  else if f7 = f7FminmaxS ∨ f7 = f7FminmaxD then
    let d := fpBinary insn .misc .minmax d
    if funct3 insn = f3Fmin then misc d .min
    else if funct3 insn = f3Fmax then misc d .max
    else illegal d
  else if f7 = f7FcmpS ∨ f7 = f7FcmpD then
    let d := { fpBinary insn .misc .cmp d with rdIsFp := false }
    if funct3 insn = f3Feq then misc d .eq
    else if funct3 insn = f3Flt then misc d .lt
    else if funct3 insn = f3Fle then misc d .le
    else illegal d
  else if f7 = f7FmvXW ∨ f7 = f7FmvXD then
    let d := sameFmt insn { d with rs1Valid := true, rs1IsFp := true }
    if rs2 insn = fpRs2Zero ∧ funct3 insn = f3Fmv then
      { d with
        rdValid := true
        fp := { d.fp with pipe := .fmv, fmvOp := if f7 = f7FmvXD then .xFromD else .xFromW } }
    else if rs2 insn = fpRs2Zero ∧ funct3 insn = f3Fclass then
      { d with
        rdValid := true, fp := { d.fp with pipe := .misc, op := .classify, miscOp := .cls } }
    else illegal d
  else if f7 = f7FmvWX ∨ f7 = f7FmvDX then
    if rs2 insn = fpRs2Zero ∧ funct3 insn = f3Fmv then
      let d := sameFmt insn { d with rs1Valid := true, rdValid := true, rdIsFp := true }
      { d with
        fp := { d.fp with pipe := .fmv, fmvOp := if f7 = f7FmvDX then .dFromX else .wFromX } }
    else illegal d
  else if f7 = f7FcvtSD ∨ f7 = f7FcvtDS then
    let toS := f7 = f7FcvtSD
    let d := { d with
      rs1Valid := true, rs1IsFp := true, rdValid := true, rdIsFp := true
      fp := { d.fp with
        pipe := .conv, op := .f2f
        fmt := if toS then .d else .s, dstFmt := if toS then .s else .d } }
    if rs2 insn = (if toS then fpRs2D else fpRs2S) then d else illegal d
  else if f7 = f7FcvtToIntS ∨ f7 = f7FcvtToIntD then
    let d := sameFmt insn
      { d with rs1Valid := true, rs1IsFp := true, rdValid := true, rdIsFp := false }
    fpIntFmt insn { d with fp := { d.fp with pipe := .conv, op := .f2i } }
  else if f7 = f7FcvtFromIntS ∨ f7 = f7FcvtFromIntD then
    let d := sameFmt insn { d with rs1Valid := true, rdValid := true, rdIsFp := true }
    fpIntFmt insn { d with fp := { d.fp with pipe := .conv, op := .i2f } }
  else illegal d

/-- The four fused multiply-adds. -/
def decodeFma (insn : BitVec 32) (d : DecodedInsn) : DecodedInsn :=
  let op : FpuOp :=
    if opcode insn = opFmadd ∨ opcode insn = opFmsub then .fmadd else .fnmsub
  let opMod : Bool :=
    if opcode insn = opFmadd then false else if opcode insn = opFmsub then true
    else if opcode insn = opFnmsub then false else true
  let d := { d with
    fuType := .alu, isFpOp := true, rs1Valid := true, rs2Valid := true, rs3Valid := true
    rdValid := true, rs1IsFp := true, rs2IsFp := true, rs3IsFp := true, rdIsFp := true
    fp := { d.fp with pipe := .fma, rm := funct3 insn, op := op, opMod := opMod } }
  if fpFmt2 insn = 0b00#2 then { d with fp := { d.fp with fmt := .s, dstFmt := .s } }
  else if fpFmt2 insn = 0b01#2 then { d with fp := { d.fp with fmt := .d, dstFmt := .d } }
  else illegal { d with fp := { d.fp with dstFmt := d.fp.fmt } }

-- ---------------------------------------------------------------------
-- The whole slice
-- ---------------------------------------------------------------------

/-- Writes to x0 are dropped, and without a destination the rd field is cleared, so that rename
never looks up the immediate bits that stores and branches have there. -/
def suppressRd (insn : BitVec 32) (d : DecodedInsn) : DecodedInsn :=
  let d := if rd insn = 0 ∧ d.rdIsFp = false then { d with rdValid := false } else d
  if d.rdValid then d else { d with rdArch := 0 }

def decodeOpcode (insn : BitVec 32) (d : DecodedInsn) : DecodedInsn :=
  let op := opcode insn
  if op = opLui then decodeLui insn d
  else if op = opAuipc then decodeAuipc insn d
  else if op = opJal then decodeJal insn d
  else if op = opJalr then decodeJalr insn d
  else if op = opBranch then decodeBranch insn d
  else if op = opLoad then decodeLoad insn d
  else if op = opStore then decodeStore insn d
  else if op = opAmo then decodeAmo insn d
  else if op = opLoadFp then decodeLoadFp insn d
  else if op = opStoreFp then decodeStoreFp insn d
  else if op = opOpImm then decodeOpImm insn d
  else if op = opOp then decodeOp insn d
  else if op = opOpImm32 then decodeOpImm32 insn d
  else if op = opOp32 then decodeOp32 insn d
  else if op = opMiscMem then decodeMiscMem insn d
  else if op = opSystem then decodeSystem insn d
  else if op = opFp then decodeFp insn d
  else if op = opFmadd ∨ op = opFmsub ∨ op = opFnmsub ∨ op = opFnmadd then decodeFma insn d
  else illegal d

def decodeSlice (insn : BitVec 32) (pc : BitVec 64) (isRvc : Bool) : DecodedInsn :=
  suppressRd insn (decodeOpcode insn (defaults insn pc isRvc))

-- ---------------------------------------------------------------------
-- Trap returns
-- ---------------------------------------------------------------------

def isTrapReturn (d : DecodedInsn) : Bool := d.isMret || d.isSret

theorem suppressRd_isTrapReturn (insn : BitVec 32) (d : DecodedInsn) :
    isTrapReturn (suppressRd insn d) = isTrapReturn d := by
  unfold suppressRd
  simp only [isTrapReturn, apply_ite DecodedInsn.isMret, apply_ite DecodedInsn.isSret, ite_self]

theorem suppressRd_hasException (insn : BitVec 32) (d : DecodedInsn) :
    (suppressRd insn d).hasException = d.hasException := by
  unfold suppressRd
  simp only [apply_ite DecodedInsn.hasException, ite_self]

theorem decodeOpcode_isFused (insn : BitVec 32) (d : DecodedInsn) :
    (decodeOpcode insn d).isFused = d.isFused := by
  simp only [decodeOpcode, decodeLui, decodeAuipc, decodeJal, decodeJalr, decodeBranch, decodeLoad,
    decodeStore, decodeAmo, decodeLoadFp, decodeStoreFp, decodeOpImm, decodeOp, decodeMuldiv,
    decodeOpImm32, decodeOp32, decodeMiscMem, decodeSystem, decodeCsr, decodeFp, decodeFma,
    illegal, fpIntFmt, fpBinary, sameFmt, apply_ite DecodedInsn.isFused, ite_self]

theorem decodeSlice_isFused (insn : BitVec 32) (pc : BitVec 64) (isRvc : Bool) :
    (decodeSlice insn pc isRvc).isFused = false := by
  unfold decodeSlice suppressRd
  simp only [apply_ite DecodedInsn.isFused, ite_self]
  exact decodeOpcode_isFused insn _

/-- Only the SYSTEM opcode has trap returns. -/
theorem decodeOpcode_isTrapReturn (other : opcode insn ≠ opSystem) :
    isTrapReturn (decodeOpcode insn d) = isTrapReturn d := by
  simp only [isTrapReturn, decodeOpcode, decodeLui, decodeAuipc, decodeJal, decodeJalr,
    decodeBranch, decodeLoad, decodeStore, decodeAmo, decodeLoadFp, decodeStoreFp, decodeOpImm,
    decodeOp, decodeMuldiv, decodeOpImm32, decodeOp32, decodeMiscMem, decodeFp, decodeFma,
    illegal, fpIntFmt, fpBinary, sameFmt, if_neg other, apply_ite DecodedInsn.isMret,
    apply_ite DecodedInsn.isSret, ite_self]

theorem decodeCsr_isTrapReturn (insn : BitVec 32) (d : DecodedInsn) :
    isTrapReturn (decodeCsr insn d) = isTrapReturn d := by
  simp only [isTrapReturn, decodeCsr, illegal, apply_ite DecodedInsn.isMret,
    apply_ite DecodedInsn.isSret, ite_self]

theorem decodeSystem_return_clean (clean : d.hasException = false) (plain : isTrapReturn d = false)
    (ret : isTrapReturn (decodeSystem insn d) = true) :
    (decodeSystem insn d).hasException = false := by
  unfold decodeSystem at ret ⊢
  split_ifs at ret ⊢ with priv fence ecall ebreak mret sret wfi
  · exact clean
  · exact absurd (plain.symm.trans ret) Bool.false_ne_true
  · exact absurd (plain.symm.trans ret) Bool.false_ne_true
  · exact clean
  · exact clean
  · exact clean
  · exact absurd (plain.symm.trans ret) Bool.false_ne_true
  · rw [decodeCsr_isTrapReturn, plain] at ret
    cases ret

/-- MRET and SRET decode to instructions without an exception. -/
theorem decodeSlice_return_clean (ret : isTrapReturn (decodeSlice insn pc isRvc) = true) :
    (decodeSlice insn pc isRvc).hasException = false := by
  unfold decodeSlice at ret ⊢
  rw [suppressRd_isTrapReturn] at ret
  rw [suppressRd_hasException]
  by_cases system : opcode insn = opSystem
  · have eq : decodeOpcode insn (defaults insn pc isRvc) =
        decodeSystem insn (defaults insn pc isRvc) := by
      unfold decodeOpcode
      rw [system]
      rfl
    rw [eq] at ret ⊢
    exact decodeSystem_return_clean rfl rfl ret
  · rw [decodeOpcode_isTrapReturn system] at ret
    cases ret

theorem suppressRd_pc (insn : BitVec 32) (d : DecodedInsn) : (suppressRd insn d).pc = d.pc := by
  unfold suppressRd
  simp only [apply_ite DecodedInsn.pc, ite_self]

theorem suppressRd_isRvc (insn : BitVec 32) (d : DecodedInsn) :
    (suppressRd insn d).isRvc = d.isRvc := by
  unfold suppressRd
  simp only [apply_ite DecodedInsn.isRvc, ite_self]

theorem decodeOpcode_pc (insn : BitVec 32) (d : DecodedInsn) : (decodeOpcode insn d).pc = d.pc := by
  simp only [decodeOpcode, decodeLui, decodeAuipc, decodeJal, decodeJalr, decodeBranch, decodeLoad,
    decodeStore, decodeAmo, decodeLoadFp, decodeStoreFp, decodeOpImm, decodeOp, decodeMuldiv,
    decodeOpImm32, decodeOp32, decodeMiscMem, decodeSystem, decodeCsr, decodeFp, decodeFma,
    illegal, fpIntFmt, fpBinary, sameFmt, apply_ite DecodedInsn.pc, ite_self]

theorem decodeOpcode_isRvc (insn : BitVec 32) (d : DecodedInsn) :
    (decodeOpcode insn d).isRvc = d.isRvc := by
  simp only [decodeOpcode, decodeLui, decodeAuipc, decodeJal, decodeJalr, decodeBranch, decodeLoad,
    decodeStore, decodeAmo, decodeLoadFp, decodeStoreFp, decodeOpImm, decodeOp, decodeMuldiv,
    decodeOpImm32, decodeOp32, decodeMiscMem, decodeSystem, decodeCsr, decodeFp, decodeFma,
    illegal, fpIntFmt, fpBinary, sameFmt, apply_ite DecodedInsn.isRvc, ite_self]

theorem decodeSlice_pc (insn : BitVec 32) (pc : BitVec 64) (isRvc : Bool) :
    (decodeSlice insn pc isRvc).pc = pc :=
  (suppressRd_pc insn _).trans (decodeOpcode_pc insn _)

end Rv64gc.Decode
