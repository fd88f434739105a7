import Rv64gc.Decode.FusionRefines
import Rv64gc.Decode.InstructionSet

/-!
# Decode recognises the instruction set

`decode_slice` marks an encoding illegal or turns it into a micro-operation that asks the units for
the encoded instruction. Four kinds of 32-bit encodings it gets wrong: it accepts reserved atomic
operations, the unused fields of the privileged instructions and the reserved rounding modes, and
it refuses SLLI.UW by 32 bits and more.
-/

namespace Rv64gc.Decode

open Fields Execute

-- ---------------------------------------------------------------------
-- What a micro-operation asks for
-- ---------------------------------------------------------------------

def operand (valid fp : Bool) (r : ArchReg) : Option Reg :=
  if valid then some (if fp then .f r else .x r) else none

def sources (d : DecodedInsn) : List (Option Reg) :=
  [operand d.rs1Valid d.rs1IsFp d.rs1Arch, operand d.rs2Valid d.rs2IsFp d.rs2Arch,
    operand d.rs3Valid d.rs3IsFp d.rs3Arch]

def dest (d : DecodedInsn) : Option Reg := operand d.rdValid d.rdIsFp d.rdArch

/-- The unit an operation goes to, and the marks by which the back end treats it specially. -/
structure Marks where
  fuType : FuType := .alu
  isBranch : Bool := false
  isJal : Bool := false
  isJalr : Bool := false
  isLoad : Bool := false
  isStore : Bool := false
  isCsr : Bool := false
  isMul : Bool := false
  isDiv : Bool := false
  isFence : Bool := false
  isFenceI : Bool := false
  isEcall : Bool := false
  isEbreak : Bool := false
  isMret : Bool := false
  isSret : Bool := false
  isSfenceVma : Bool := false
  isWfi : Bool := false
  isAmo : Bool := false
  isFpOp : Bool := false
  hasException : Bool := false

def marks (d : DecodedInsn) : Marks :=
  ⟨d.fuType, d.isBranch, d.isJal, d.isJalr, d.isLoad, d.isStore, d.isCsr, d.isMul, d.isDiv,
    d.isFence, d.isFenceI, d.isEcall, d.isEbreak, d.isMret, d.isSret, d.isSfenceVma, d.isWfi,
    d.isAmo, d.isFpOp, d.hasException⟩

/-- What the floating-point unit does under the given control: the moves by their own operation,
everything else by the one that `fpu_fpnew_wrapper` maps. -/
def fpOpOf (c : FpInfo) : Option FpOp :=
  if c.pipe = .fmv then
    match c.fmvOp, c.fmt with
    | .wFromX, .s => some .fromBits
    | .dFromX, .d => some .fromBits
    | .xFromW, .s => some .toBits
    | .xFromD, .d => some .toBits
    | _, _ => none
  else
    match c.op with
    | .none => none
    | .add => some (if c.opMod then .sub else .add)
    | .mul => some .mul
    | .div => some .div
    | .sqrt => some .sqrt
    | .fmadd => some (if c.opMod then .msub else .madd)
    | .fnmsub => some (if c.opMod then .nmadd else .nmsub)
    | .sgnj =>
      [(FpuMiscOp.sgnj, FpOp.sgnj), (.sgnjn, .sgnjn), (.sgnjx, .sgnjx)].lookup c.miscOp
    | .minmax => [(FpuMiscOp.min, FpOp.min), (.max, .max)].lookup c.miscOp
    | .cmp => [(FpuMiscOp.eq, FpOp.eq), (.lt, .lt), (.le, .le)].lookup c.miscOp
    | .classify => some .classify
    | .f2f => some (.convert c.dstFmt)
    | .f2i => some (.toInt c.intFmt c.opMod)
    | .i2f => some (.fromInt c.intFmt c.opMod)

-- ---------------------------------------------------------------------
-- What an instruction asks for
-- ---------------------------------------------------------------------

namespace Insn

def marks : Insn → Marks
  | compute .. => {}
  | jal .. => { fuType := .bru, isJal := true }
  | jalr .. => { fuType := .bru, isJalr := true }
  | branch .. => { fuType := .bru, isBranch := true }
  | load .. => { fuType := .load, isLoad := true }
  | store .. => { fuType := .sta, isStore := true }
  | amo .. => { fuType := .load, isLoad := true, isAmo := true }
  | mul .. => { fuType := .mul, isMul := true }
  | div .. => { fuType := .div, isDiv := true }
  | csr .. => { fuType := .csr, isCsr := true }
  | fence => { isFence := true }
  | fenceI => { isFenceI := true }
  | ecall => { isEcall := true, hasException := true }
  | ebreak => { isEbreak := true, hasException := true }
  | mret => { isMret := true }
  | sret => { isSret := true }
  | wfi => { isWfi := true }
  | sfenceVma => { isFence := true, isSfenceVma := true }
  | fp .. => { isFpOp := true }

/-- A write of x0 is dropped. -/
def written : Reg → Option Reg
  | .x r => if r = 0 then none else some (.x r)
  | .f r => some (.f r)

def dest : Insn → Option Reg
  | compute rd _ | jal rd _ | jalr rd _ _ | amo _ _ _ _ rd _ _ | mul _ _ rd _ _ | div _ _ rd _ _
  | csr _ _ rd _ => written (.x rd)
  | load rd _ _ _ _ | fp _ _ _ rd _ => written rd
  | _ => none

end Insn

def AmoOp.code : AmoOp → BitVec 5
  | .lr => amoLr
  | .sc => 0b00011
  | .swap => 0b00001
  | .add => 0b00000
  | .xor => 0b00100
  | .and => 0b01100
  | .or => 0b01000
  | .min => 0b10000
  | .max => 0b10100
  | .minu => 0b11000
  | .maxu => 0b11100

/-- Only conversions have a format of their own for the result. -/
def FpOp.dstFmt (fmt : FpFmt) : FpOp → FpFmt
  | .convert dst => dst
  | _ => fmt

def IntSources (d : DecodedInsn) : Prop := ∀ r, some (Reg.f r) ∉ sources d

def insnLength (d : DecodedInsn) : Word := if d.isRvc then 2 else 4

/-- Operation, operands, immediate and width are the instruction's. Where an instruction computes,
branches or jumps, its result is compared on all register contents. -/
def Performs (d : DecodedInsn) : Insn → Prop
  | .compute _ value => IntSources d ∧ ∀ regs, aluResult d regs = value regs d.pc
  | .jal _ offset => sources d = [none, none, none] ∧
      ∀ regs, (bruIn d regs).taken = true ∧ (bruIn d regs).target = d.pc + offset ∧
        (bruIn d regs).result = d.pc + insnLength d
  | .jalr _ base offset => sources d = [some (.x base), none, none] ∧
      ∀ regs, (bruIn d regs).taken = true ∧
        (bruIn d regs).target = (xreg regs base + offset) &&& ~~~1#64 ∧
        (bruIn d regs).result = d.pc + insnLength d
  | .branch taken offset => IntSources d ∧
      ∀ regs, (bruIn d regs).taken = taken regs ∧
        (bruIn d regs).target = d.pc + if taken regs then offset else insnLength d
  | .load rd size unsigned base offset => sources d = [some (.x base), none, none] ∧
      d.imm = offset ∧ d.memSize = size ∧ ∀ r, rd = .x r → d.isUnsigned = unsigned
  | .store src size base offset => sources d = [some (.x base), some src, none] ∧
      d.imm = offset ∧ d.memSize = size
  | .amo op size aq rl _ addr src =>
      sources d = [some (.x addr), if op = .lr then none else some (.x src), none] ∧
      d.imm = 0 ∧ d.memSize = size ∧ d.amoOp = op.code ∧ d.amoAq = aq ∧ d.amoRl = rl
  | .mul op word _ a b => sources d = [some (.x a), some (.x b), none] ∧ d.useImm = false ∧
      d.mulOp = op ∧ d.isWOp = word
  | .div op word _ a b => sources d = [some (.x a), some (.x b), none] ∧ d.useImm = false ∧
      d.divOp = op ∧ d.isWOp = word
  | .csr op addr _ (.inl src) => sources d = [some (.x src), none, none] ∧ d.useImm = false ∧
      d.csrOp = op ∧ d.csrAddr = addr
  | .csr op addr _ (.inr uimm) => sources d = [none, none, none] ∧ d.useImm = true ∧
      d.imm = uimm ∧ d.csrOp = op ∧ d.csrAddr = addr
  | .ecall => sources d = [none, none, none] ∧ d.excCode = excEcallM
  | .ebreak => sources d = [none, none, none] ∧ d.excCode = excBreakpoint
  | .fence | .fenceI | .mret | .sret | .wfi | .sfenceVma => sources d = [none, none, none]
  | .fp op fmt rm _ srcs => sources d = [srcs[0]?, srcs[1]?, srcs[2]?] ∧
      fpOpOf d.fp = some op ∧ d.fp.fmt = fmt ∧ d.fp.dstFmt = op.dstFmt fmt ∧
      ∀ m, rm = some m → d.fp.rm = m

structure Means (d : DecodedInsn) (i : Insn) : Prop where
  marks : marks d = i.marks
  dest : dest d = i.dest
  performs : Performs d i

/-- The illegal-instruction exception for what encodes nothing, the instruction for all else. -/
def Right (d : DecodedInsn) : Option Insn → Prop
  | none => d.hasException = true ∧ d.excCode = excIllegalInsn
  | some i => Means d i

-- ---------------------------------------------------------------------
-- Destinations
-- ---------------------------------------------------------------------

/-- The destination before writes to x0 are dropped. -/
structure Meant (insn : BitVec 32) (d : DecodedInsn) (i : Insn) : Prop where
  marks : marks d = i.marks
  field : d.rdArch = rd insn
  dest : (if d.rdValid then Insn.written (if d.rdIsFp then .f (rd insn) else .x (rd insn))
    else none) = i.dest
  performs : Performs d i

theorem suppressRd_eq (insn : BitVec 32) (d : DecodedInsn) :
    suppressRd insn d =
      let kept := d.rdValid && (rd insn != 0 || d.rdIsFp)
      { d with rdValid := kept, rdArch := if kept then d.rdArch else 0 } := by
  unfold suppressRd
  by_cases drop : rd insn = 0 ∧ d.rdIsFp = false
  · have off : (d.rdValid && (rd insn != 0 || d.rdIsFp)) = false := by simp [drop]
    simp only [if_pos drop, off]
    rfl
  · have on : (rd insn != 0 || d.rdIsFp) = true := by grind
    rw [if_neg drop, on, Bool.and_true]
    dsimp only
    split_ifs <;> rfl

theorem Meant.means (meant : Meant insn d i) : Means (suppressRd insn d) i := by
  rw [suppressRd_eq]
  refine ⟨meant.marks, ?_, ?_⟩
  · rw [← meant.dest]
    have field := meant.field
    unfold Decode.dest operand Insn.written
    grind
  · have performs := meant.performs
    cases i <;> exact performs

theorem right_illegal (insn : BitVec 32) (d : DecodedInsn) :
    Right (suppressRd insn (illegal d)) none := by
  rw [suppressRd_eq]
  exact ⟨rfl, rfl⟩

end Rv64gc.Decode
