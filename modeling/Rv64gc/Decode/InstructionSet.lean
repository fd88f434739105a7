import Rv64gc.Decode.DecodeSlice
import Rv64gc.Execute.Alu

/-!
# The instruction set

What each encoding of RV64GC with Zba, Zbb, Zbs and Zicond stands for. An instruction is described
by its effect on the integer registers where it computes, jumps or branches, and by its operation
and operands where another unit carries it out. Encodings without a description are reserved.
-/

namespace Rv64gc.Decode

open Fields

export Execute (Word)

/-- Register x0 reads as zero. -/
def xreg (regs : ArchReg → Word) (r : ArchReg) : Word := if r = 0 then 0 else regs r

/-- A register of the integer or of the floating-point file. -/
inductive Reg where
  | x (r : ArchReg)
  | f (r : ArchReg)
deriving DecidableEq

inductive AmoOp where
  | lr | sc | swap | add | xor | and | or | min | max | minu | maxu
deriving DecidableEq

inductive FpOp where
  | add | sub | mul | div | sqrt | madd | msub | nmsub | nmadd
  | sgnj | sgnjn | sgnjx | min | max | eq | lt | le | classify
  | convert (dst : FpFmt)
  | toInt (dst : FpIntFmt) (unsigned : Bool)
  | fromInt (src : FpIntFmt) (unsigned : Bool)
  | toBits | fromBits
deriving DecidableEq

/-- An instruction. What it computes may depend on the address it stands at. -/
inductive Insn where
  | compute (rd : ArchReg) (value : (ArchReg → Word) → Word → Word)
  | jal (rd : ArchReg) (offset : Word)
  | jalr (rd base : ArchReg) (offset : Word)
  | branch (taken : (ArchReg → Word) → Bool) (offset : Word)
  | load (rd : Reg) (size : MemSize) (unsigned : Bool) (base : ArchReg) (offset : Word)
  | store (src : Reg) (size : MemSize) (base : ArchReg) (offset : Word)
  | amo (op : AmoOp) (size : MemSize) (aq rl : Bool) (rd addr src : ArchReg)
  | mul (op : MulOp) (word : Bool) (rd a b : ArchReg)
  | div (op : DivOp) (word : Bool) (rd a b : ArchReg)
  | csr (op : CsrOp) (addr : BitVec 12) (rd : ArchReg) (src : ArchReg ⊕ Word)
  | fence | fenceI | ecall | ebreak | mret | sret | wfi | sfenceVma
  /-- The format is that of the sources, or of the result where these are integers. An operation
  that does not round has no mode. -/
  | fp (op : FpOp) (fmt : FpFmt) (rm : Option (BitVec 3)) (rd : Reg) (srcs : List Reg)

-- ---------------------------------------------------------------------
-- Integer operations
-- ---------------------------------------------------------------------

inductive IntOp where
  | add | sub | sll | slt | sltu | xor | srl | sra | or | and
  | addw | subw | sllw | srlw | sraw
  | addUw | sh1add | sh2add | sh3add | sh1addUw | sh2addUw | sh3addUw | slliUw
  | andn | orn | xnor | clz | ctz | cpop | clzw | ctzw | cpopw
  | max | maxu | min | minu | sextb | sexth | zexth | rol | ror | rolw | rorw | orcb | rev8
  | bclr | bext | binv | bset | czeroEqz | czeroNez
deriving DecidableEq

def bool (b : Bool) : Word := if b then 1 else 0

/-- The low word, as the 64-bit value that stands for it. -/
def word (v : BitVec 32) : Word := v.signExtend 64

def low (a : Word) : BitVec 32 := a.setWidth 32

/-- The low word without its sign. -/
def uword (a : Word) : Word := (low a).setWidth 64

/-- How many of the bits in the given order are passed before the first set one. -/
def zerosBefore (a : Word) (order : List Nat) : Word :=
  BitVec.ofNat 64 ((order.findIdx? a.getLsbD).getD order.length)

def population (a : Word) (width : Nat) : Word :=
  BitVec.ofNat 64 ((List.range width).countP a.getLsbD)

def byteOf (a : Word) (k : Nat) : BitVec 8 := a.extractLsb' (8 * k) 8

def fill (b : BitVec 8) : BitVec 8 := if b = 0 then 0 else 0xFF

namespace IntOp

/-- The result on two operands; unary operations ignore the second. -/
def value (a b : Word) : IntOp → Word
  | .add => a + b
  | .sub => a - b
  | .sll => a <<< (b.toNat % 64)
  | .slt => bool (a.slt b)
  | .sltu => bool (a.ult b)
  | .xor => a ^^^ b
  | .srl => a >>> (b.toNat % 64)
  | .sra => a.sshiftRight (b.toNat % 64)
  | .or => a ||| b
  | .and => a &&& b
  | .addw => word (low a + low b)
  | .subw => word (low a - low b)
  | .sllw => word (low a <<< (b.toNat % 32))
  | .srlw => word (low a >>> (b.toNat % 32))
  | .sraw => word ((low a).sshiftRight (b.toNat % 32))
  | .addUw => uword a + b
  | .sh1add => (a <<< 1) + b
  | .sh2add => (a <<< 2) + b
  | .sh3add => (a <<< 3) + b
  | .sh1addUw => (uword a <<< 1) + b
  | .sh2addUw => (uword a <<< 2) + b
  | .sh3addUw => (uword a <<< 3) + b
  | .slliUw => uword a <<< (b.toNat % 64)
  | .andn => a &&& ~~~b
  | .orn => a ||| ~~~b
  | .xnor => ~~~(a ^^^ b)
  | .clz => zerosBefore a (List.range 64).reverse
  | .ctz => zerosBefore a (List.range 64)
  | .cpop => population a 64
  | .clzw => zerosBefore a (List.range 32).reverse
  | .ctzw => zerosBefore a (List.range 32)
  | .cpopw => population a 32
  | .max => if a.slt b then b else a
  | .maxu => if a.ult b then b else a
  | .min => if a.slt b then a else b
  | .minu => if a.ult b then a else b
  | .sextb => (a.setWidth 8).signExtend 64
  | .sexth => (a.setWidth 16).signExtend 64
  | .zexth => (a.setWidth 16).setWidth 64
  | .rol => a.rotateLeft (b.toNat % 64)
  | .ror => a.rotateRight (b.toNat % 64)
  | .rolw => word ((low a).rotateLeft (b.toNat % 32))
  | .rorw => word ((low a).rotateRight (b.toNat % 32))
  | .orcb => fill (byteOf a 7) ++ fill (byteOf a 6) ++ fill (byteOf a 5) ++ fill (byteOf a 4) ++
      fill (byteOf a 3) ++ fill (byteOf a 2) ++ fill (byteOf a 1) ++ fill (byteOf a 0)
  | .rev8 => byteOf a 0 ++ byteOf a 1 ++ byteOf a 2 ++ byteOf a 3 ++ byteOf a 4 ++ byteOf a 5 ++
      byteOf a 6 ++ byteOf a 7
  | .bclr => a &&& ~~~(1#64 <<< (b.toNat % 64))
  | .bext => bool (a.getLsbD (b.toNat % 64))
  | .binv => a ^^^ (1#64 <<< (b.toNat % 64))
  | .bset => a ||| (1#64 <<< (b.toNat % 64))
  | .czeroEqz => if b = 0 then 0 else a
  | .czeroNez => if b ≠ 0 then 0 else a

end IntOp

-- ---------------------------------------------------------------------
-- Encodings, opcode by opcode
-- ---------------------------------------------------------------------

namespace Insn

variable (insn : BitVec 32)

/-- A register-register operation. -/
def regReg (op : IntOp) : Insn :=
  .compute (rd insn) fun regs _ => op.value (xreg regs (rs1 insn)) (xreg regs (rs2 insn))

def regImm (imm : Word) (op : IntOp) : Insn :=
  .compute (rd insn) fun regs _ => op.value (xreg regs (rs1 insn)) imm

/-- The six-bit shift amount of a 64-bit operation, and the five bits of a word operation. -/
def shamt : Word := (insn.extractLsb' 20 6).setWidth 64
def shamtw : Word := (rs2 insn).setWidth 64

def ofBranch : Option Insn :=
  let cond (taken : Word → Word → Bool) : Insn :=
    .branch (fun regs => taken (xreg regs (rs1 insn)) (xreg regs (rs2 insn))) (immB insn)
  [(0b000#3, cond fun a b => a == b), (0b001, cond fun a b => a != b), (0b100, cond BitVec.slt),
    (0b101, cond fun a b => !a.slt b), (0b110, cond BitVec.ult),
    (0b111, cond fun a b => !a.ult b)].lookup (funct3 insn)

def ofLoad : Option Insn :=
  let load (size : MemSize) (unsigned : Bool) : Insn :=
    .load (.x (rd insn)) size unsigned (rs1 insn) (immI insn)
  [(0b000#3, load .byte false), (0b001, load .half false), (0b010, load .word false),
    (0b011, load .dword false), (0b100, load .byte true), (0b101, load .half true),
    (0b110, load .word true)].lookup (funct3 insn)

def ofStore : Option Insn :=
  let store (size : MemSize) : Insn := .store (.x (rs2 insn)) size (rs1 insn) (immS insn)
  [(0b000#3, store .byte), (0b001, store .half), (0b010, store .word),
    (0b011, store .dword)].lookup (funct3 insn)

def ofLoadFp : Option Insn :=
  let load (size : MemSize) : Insn := .load (.f (rd insn)) size false (rs1 insn) (immI insn)
  [(0b010#3, load .word), (0b011, load .dword)].lookup (funct3 insn)

def ofStoreFp : Option Insn :=
  let store (size : MemSize) : Insn := .store (.f (rs2 insn)) size (rs1 insn) (immS insn)
  [(0b010#3, store .word), (0b011, store .dword)].lookup (funct3 insn)

def amoOps : List (BitVec 5 × AmoOp) :=
  [(0b00010, .lr), (0b00011, .sc), (0b00001, .swap), (0b00000, .add), (0b00100, .xor),
    (0b01100, .and), (0b01000, .or), (0b10000, .min), (0b10100, .max), (0b11000, .minu),
    (0b11100, .maxu)]

/-- LR has no second source. -/
def ofAmo : Option Insn := do
  let op ← amoOps.lookup (rs3 insn)
  let size ← [(0b010#3, MemSize.word), (0b011, .dword)].lookup (funct3 insn)
  if op = .lr ∧ rs2 insn ≠ 0 then none
  else some (.amo op size (insn.getLsbD 26) (insn.getLsbD 25) (rd insn) (rs1 insn) (rs2 insn))

def ofOpImm : Option Insn :=
  if funct3 insn = 0b001#3 then
    (([(0b000000#6, IntOp.sll), (0b001010, .bset), (0b010010, .bclr), (0b011010, .binv)].lookup
        (funct6 insn)).map (regImm insn (shamt insn))).or
      (([(0x600#12, IntOp.clz), (0x601, .ctz), (0x602, .cpop), (0x604, .sextb),
        (0x605, .sexth)].lookup (funct12 insn)).map (regImm insn 0))
  else if funct3 insn = 0b101#3 then
    (([(0b000000#6, IntOp.srl), (0b010000, .sra), (0b011000, .ror), (0b010010, .bext)].lookup
        (funct6 insn)).map (regImm insn (shamt insn))).or
      (([(0x287#12, IntOp.orcb), (0x6B8, .rev8)].lookup (funct12 insn)).map (regImm insn 0))
  else
    ([(0b000#3, IntOp.add), (0b010, .slt), (0b011, .sltu), (0b100, .xor), (0b110, .or),
      (0b111, .and)].lookup (funct3 insn)).map (regImm insn (immI insn))

def ofOpImm32 : Option Insn :=
  if funct3 insn = 0b000#3 then some (regImm insn (immI insn) .addw)
  else if funct3 insn = 0b001#3 then
    if funct7 insn = 0b0000000#7 then some (regImm insn (shamtw insn) .sllw)
    else if funct6 insn = 0b000010#6 then some (regImm insn (shamt insn) .slliUw)
    else ([(0x600#12, IntOp.clzw), (0x601, .ctzw), (0x602, .cpopw)].lookup
      (funct12 insn)).map (regImm insn 0)
  else if funct3 insn = 0b101#3 then
    ([(0b0000000#7, IntOp.srlw), (0b0100000, .sraw), (0b0110000, .rorw)].lookup
      (funct7 insn)).map (regImm insn (shamtw insn))
  else none

/-- Multiplication and division by funct3. -/
def ofMuldiv (word : Bool) : Option Insn :=
  let mul (op : MulOp) : Insn := .mul op word (rd insn) (rs1 insn) (rs2 insn)
  let div (op : DivOp) : Insn := .div op word (rd insn) (rs1 insn) (rs2 insn)
  if word then
    [(0b000#3, mul .mul), (0b100, div .div), (0b101, div .divu), (0b110, div .rem),
      (0b111, div .remu)].lookup (funct3 insn)
  else
    [(0b000#3, mul .mul), (0b001, mul .mulh), (0b010, mul .mulhsu), (0b011, mul .mulhu),
      (0b100, div .div), (0b101, div .divu), (0b110, div .rem),
      (0b111, div .remu)].lookup (funct3 insn)

def opOps : List ((BitVec 7 × BitVec 3) × IntOp) :=
  [((0b0000000, 0b000), .add), ((0b0100000, 0b000), .sub), ((0b0000000, 0b001), .sll),
    ((0b0000000, 0b010), .slt), ((0b0000000, 0b011), .sltu), ((0b0000000, 0b100), .xor),
    ((0b0000000, 0b101), .srl), ((0b0100000, 0b101), .sra), ((0b0000000, 0b110), .or),
    ((0b0000000, 0b111), .and),
    -- Zba
    ((0b0010000, 0b010), .sh1add), ((0b0010000, 0b100), .sh2add), ((0b0010000, 0b110), .sh3add),
    -- Zbb
    ((0b0100000, 0b111), .andn), ((0b0100000, 0b110), .orn), ((0b0100000, 0b100), .xnor),
    ((0b0000101, 0b110), .max), ((0b0000101, 0b111), .maxu), ((0b0000101, 0b100), .min),
    ((0b0000101, 0b101), .minu), ((0b0110000, 0b001), .rol), ((0b0110000, 0b101), .ror),
    -- Zbs
    ((0b0100100, 0b001), .bclr), ((0b0100100, 0b101), .bext), ((0b0110100, 0b001), .binv),
    ((0b0010100, 0b001), .bset),
    -- Zicond
    ((0b0000111, 0b101), .czeroEqz), ((0b0000111, 0b111), .czeroNez)]

def ofOp : Option Insn :=
  if funct7 insn = 0b0000001#7 then ofMuldiv insn false
  else (opOps.lookup (funct7 insn, funct3 insn)).map (regReg insn)

def op32Ops : List ((BitVec 7 × BitVec 3) × IntOp) :=
  [((0b0000000, 0b000), .addw), ((0b0100000, 0b000), .subw), ((0b0000000, 0b001), .sllw),
    ((0b0000000, 0b101), .srlw), ((0b0100000, 0b101), .sraw),
    ((0b0000100, 0b000), .addUw), ((0b0010000, 0b010), .sh1addUw),
    ((0b0010000, 0b100), .sh2addUw), ((0b0010000, 0b110), .sh3addUw),
    ((0b0110000, 0b001), .rolw), ((0b0110000, 0b101), .rorw)]

/-- ZEXT.H has no second source. -/
def ofOp32 : Option Insn :=
  if funct7 insn = 0b0000001#7 then ofMuldiv insn true
  else if funct7 insn = 0b0000100#7 ∧ funct3 insn = 0b100#3 then
    if rs2 insn = 0 then some (regImm insn 0 .zexth) else none
  else (op32Ops.lookup (funct7 insn, funct3 insn)).map (regReg insn)

/-- The fields that FENCE and FENCE.I leave unused are ignored. -/
def ofMiscMem : Option Insn := [(0b000#3, fence), (0b001, fenceI)].lookup (funct3 insn)

def ofSystem : Option Insn :=
  if funct3 insn = 0b000#3 then
    if funct7 insn = 0b0001001#7 ∧ rd insn = 0 then some sfenceVma
    else if rd insn = 0 ∧ rs1 insn = 0 then
      [(0x000#12, ecall), (0x001, ebreak), (0x302, mret), (0x102, sret), (0x105, wfi)].lookup
        (funct12 insn)
    else none
  else
    let reg (op : CsrOp) : Insn := .csr op (funct12 insn) (rd insn) (.inl (rs1 insn))
    let uimm (op : CsrOp) : Insn :=
      .csr op (funct12 insn) (rd insn) (.inr ((rs1 insn).setWidth 64))
    [(0b001#3, reg .rw), (0b010, reg .rs), (0b011, reg .rc), (0b101, uimm .rw),
      (0b110, uimm .rs), (0b111, uimm .rc)].lookup (funct3 insn)

-- ---------------------------------------------------------------------
-- Floating point
-- ---------------------------------------------------------------------

/-- The modes 101 and 110 are reserved; 111 takes the mode in `frm`. -/
def rounding : Option (BitVec 3) :=
  if funct3 insn = 0b101#3 ∨ funct3 insn = 0b110#3 then none else some (funct3 insn)

def fpFormats : List (BitVec 2 × FpFmt) := [(0b00, .s), (0b01, .d)]

def intFormats : List (BitVec 5 × (FpIntFmt × Bool)) :=
  [(0, .i32, false), (1, .i32, true), (2, .i64, false), (3, .i64, true)]

/-- The operations of OP-FP that round. -/
def fpRounded (fmt : FpFmt) : Option (FpOp × FpFmt × Reg × List Reg) :=
  let f1 := Reg.f (rs1 insn)
  let f2 := Reg.f (rs2 insn)
  let fd := Reg.f (rd insn)
  if rs3 insn = 0b00000#5 then some (.add, fmt, fd, [f1, f2])
  else if rs3 insn = 0b00001#5 then some (.sub, fmt, fd, [f1, f2])
  else if rs3 insn = 0b00010#5 then some (.mul, fmt, fd, [f1, f2])
  else if rs3 insn = 0b00011#5 then some (.div, fmt, fd, [f1, f2])
  else if rs3 insn = 0b01011#5 ∧ rs2 insn = 0 then some (.sqrt, fmt, fd, [f1])
  else if rs3 insn = 0b01000#5 then
    -- Only conversions between different formats.
    ([(0#5, FpFmt.s), (1, .d)].lookup (rs2 insn)).bind fun src =>
      if src = fmt then none else some (.convert fmt, src, fd, [f1])
  else if rs3 insn = 0b11000#5 then
    (intFormats.lookup (rs2 insn)).map fun (dst, unsigned) =>
      (.toInt dst unsigned, fmt, .x (rd insn), [f1])
  else if rs3 insn = 0b11010#5 then
    (intFormats.lookup (rs2 insn)).map fun (src, unsigned) =>
      (.fromInt src unsigned, fmt, fd, [.x (rs1 insn)])
  else none

/-- The operations of OP-FP that do not round. -/
def fpExact : Option (FpOp × Reg × List Reg) :=
  let f1 := Reg.f (rs1 insn)
  let f2 := Reg.f (rs2 insn)
  let binary (op : FpOp) := (op, Reg.f (rd insn), [f1, f2])
  let compare (op : FpOp) := (op, Reg.x (rd insn), [f1, f2])
  if rs3 insn = 0b00100#5 then
    ([(0b000#3, FpOp.sgnj), (0b001, .sgnjn), (0b010, .sgnjx)].lookup (funct3 insn)).map binary
  else if rs3 insn = 0b00101#5 then
    ([(0b000#3, FpOp.min), (0b001, .max)].lookup (funct3 insn)).map binary
  else if rs3 insn = 0b10100#5 then
    ([(0b000#3, FpOp.le), (0b001, .lt), (0b010, .eq)].lookup (funct3 insn)).map compare
  else if rs3 insn = 0b11100#5 ∧ rs2 insn = 0 then
    ([(0b000#3, FpOp.toBits), (0b001, .classify)].lookup (funct3 insn)).map fun op =>
      (op, .x (rd insn), [f1])
  else if rs3 insn = 0b11110#5 ∧ rs2 insn = 0 ∧ funct3 insn = 0b000#3 then
    some (.fromBits, .f (rd insn), [.x (rs1 insn)])
  else none

def ofFp : Option Insn :=
  (fpFormats.lookup (fpFmt2 insn)).bind fun fmt =>
    match fpRounded insn fmt with
    | some (op, fmt, rd, srcs) => (rounding insn).map fun rm => .fp op fmt (some rm) rd srcs
    | none => (fpExact insn).map fun (op, rd, srcs) => .fp op fmt none rd srcs

def ofFma (op : FpOp) : Option Insn :=
  (fpFormats.lookup (fpFmt2 insn)).bind fun fmt =>
    (rounding insn).map fun rm =>
      .fp op fmt (some rm) (.f (rd insn)) [.f (rs1 insn), .f (rs2 insn), .f (rs3 insn)]

-- ---------------------------------------------------------------------
-- All encodings
-- ---------------------------------------------------------------------

/-- The instruction a 32-bit word encodes, if it is one. -/
def of32 : Option Insn :=
  let op := opcode insn
  if op = 0b0110111#7 then some (.compute (rd insn) fun _ _ => immU insn)
  else if op = 0b0010111#7 then some (.compute (rd insn) fun _ pc => pc + immU insn)
  else if op = 0b1101111#7 then some (.jal (rd insn) (immJ insn))
  else if op = 0b1100111#7 then
    if funct3 insn = 0 then some (.jalr (rd insn) (rs1 insn) (immI insn)) else none
  else if op = 0b1100011#7 then ofBranch insn
  else if op = 0b0000011#7 then ofLoad insn
  else if op = 0b0100011#7 then ofStore insn
  else if op = 0b0010011#7 then ofOpImm insn
  else if op = 0b0011011#7 then ofOpImm32 insn
  else if op = 0b0110011#7 then ofOp insn
  else if op = 0b0111011#7 then ofOp32 insn
  else if op = 0b0001111#7 then ofMiscMem insn
  else if op = 0b1110011#7 then ofSystem insn
  else if op = 0b0101111#7 then ofAmo insn
  else if op = 0b0000111#7 then ofLoadFp insn
  else if op = 0b0100111#7 then ofStoreFp insn
  else if op = 0b1010011#7 then ofFp insn
  else if op = 0b1000011#7 then ofFma insn .madd
  else if op = 0b1000111#7 then ofFma insn .msub
  else if op = 0b1001011#7 then ofFma insn .nmsub
  else if op = 0b1001111#7 then ofFma insn .nmadd
  else none

end Insn

end Rv64gc.Decode
