import Rv64gc.Pkg

/-!
# Decoded instructions

The micro-operation that decode hands to fusion and rename: `decoded_insn_t` of `uarch_pkg`, with
its floating-point and its branch prediction fields grouped.
-/

namespace Rv64gc

inductive FuType where
  | alu | bru | mul | div | load | sta | std | csr
deriving DecidableEq

inductive AluOp where
  -- Base integer
  | add | sub | and | or | xor | slt | sltu | sll | srl | sra | lui
  /-- Operand 2 added to operand 1, which is the PC: AUIPC. -/
  | pass2
  -- Zba
  | sh1add | sh2add | sh3add
  -- Zbb
  | min | max | minu | maxu | clz | ctz | cpop | andn | orn | xnor | rol | ror
  | sextb | sexth | rev8 | orcb
  -- Zbs
  | bset | bclr | binv | bext
  -- Zicond
  | czeroEqz | czeroNez
deriving DecidableEq

inductive BrOp where
  | eq | ne | lt | ge | ltu | geu | jal | jalr
deriving DecidableEq

inductive MulOp where
  | mul | mulh | mulhsu | mulhu
deriving DecidableEq

inductive DivOp where
  | div | divu | rem | remu
deriving DecidableEq

inductive MemSize where
  | byte | half | word | dword
deriving DecidableEq

inductive CsrOp where
  | rw | rs | rc | none
deriving DecidableEq

inductive FpFmt where
  | s | d
deriving DecidableEq

inductive FpIntFmt where
  | i8 | i16 | i32 | i64
deriving DecidableEq

inductive FpuPipe where
  | misc | fma | divsqrt | fmv | conv
deriving DecidableEq

inductive FpuOp where
  | none | add | mul | div | sqrt | sgnj | minmax | cmp | classify | f2f | f2i | i2f
  | fmadd | fnmsub
deriving DecidableEq

inductive FpuMiscOp where
  | sgnj | sgnjn | sgnjx | min | max | eq | lt | le | cls
deriving DecidableEq

inductive FmvOp where
  | wFromX | xFromW | dFromX | xFromD
deriving DecidableEq

/-- The fields only the floating-point pipes read. The rounding mode is the raw field. -/
structure FpInfo where
  fmt : FpFmt
  dstFmt : FpFmt
  intFmt : FpIntFmt
  rm : BitVec 3
  pipe : FpuPipe
  op : FpuOp
  opMod : Bool
  miscOp : FpuMiscOp
  fmvOp : FmvOp
deriving DecidableEq

/-- The branch prediction the instruction was fetched under. -/
structure BpInfo where
  taken : Bool
  target : BitVec 64
  owner : Bool
  fromSubgroup : Bool
  lookupPc : BitVec 64
  rasTos : BitVec 5
  rasTop : BitVec 64
  ghr : BitVec ghrBits
deriving DecidableEq

def BpInfo.none : BpInfo := ⟨false, 0, false, false, 0, 0, 0, 0⟩

structure DecodedInsn where
  valid : Bool
  pc : BitVec 64
  /-- Where a trap restarts: the first of a fused pair. -/
  trapPc : BitVec 64
  insn : BitVec 32
  rs1Arch : ArchReg
  rs2Arch : ArchReg
  rs3Arch : ArchReg
  rdArch : ArchReg
  rs1Valid : Bool
  rs2Valid : Bool
  rs3Valid : Bool
  rdValid : Bool
  imm : BitVec 64
  fuType : FuType
  aluOp : AluOp
  brOp : BrOp
  mulOp : MulOp
  divOp : DivOp
  memSize : MemSize
  csrOp : CsrOp
  csrAddr : BitVec 12
  isBranch : Bool
  isJal : Bool
  isJalr : Bool
  isLoad : Bool
  isStore : Bool
  isCsr : Bool
  isMul : Bool
  isDiv : Bool
  isWOp : Bool
  isUnsigned : Bool
  useImm : Bool
  isFence : Bool
  isFenceI : Bool
  isEcall : Bool
  isEbreak : Bool
  isMret : Bool
  isSret : Bool
  isSfenceVma : Bool
  isWfi : Bool
  isAmo : Bool
  amoOp : BitVec 5
  amoAq : Bool
  amoRl : Bool
  isFpOp : Bool
  rs1IsFp : Bool
  rs2IsFp : Bool
  rs3IsFp : Bool
  rdIsFp : Bool
  fp : FpInfo
  isRvc : Bool
  bp : BpInfo
  hasException : Bool
  excCode : BitVec 4
  excTval : BitVec 64
  isFused : Bool
  fusedImm : BitVec 32
  fusionType : BitVec 3

end Rv64gc
