import Rv64gc.Decode.Fusion
import Rv64gc.Execute.Bru

/-!
# Fused operations compute what their pairs compute

Micro-operations act on the integer registers through the ALU and the branch unit; everything
else is left to an arbitrary function, since fusion passes it through. A window has the effect of
its instructions as soon as every fused pair has, and all patterns do but AUIPC+ADDIW, which
misses the narrowing of the sum.
-/

namespace Rv64gc.Decode

open Hdl Execute Fields

-- ---------------------------------------------------------------------
-- Executing micro-operations
-- ---------------------------------------------------------------------

abbrev Regs := ArchReg → Word

/-- Integer registers, everything else, where control goes after the last transfer, and whether
that transfer was mispredicted, so that nothing behind it counts. -/
@[ext] structure ArchState (M : Type) where
  regs : Regs
  rest : M
  nextPc : Option Word
  squashed : Bool

/-- What the units besides the ALU and the branch unit do with an operation. -/
abbrev OtherUnits (M : Type) := DecodedInsn → Regs × M → Regs × M

/-- A missing source and x0 read as zero. -/
def srcValue (regs : Regs) (valid : Bool) (r : ArchReg) : Word :=
  if valid && r != 0 then regs r else 0

def writeBack (regs : Regs) (d : DecodedInsn) (v : Word) : Regs := fun r =>
  if d.rdValid && d.rdArch != 0 && r == d.rdArch then v else regs r

/-- The operand multiplexers in front of the ALU: AUIPC takes the PC. -/
def aluIn (d : DecodedInsn) (regs : Regs) : AluIn where
  a := if d.useImm && d.aluOp == .pass2 then d.pc else srcValue regs d.rs1Valid d.rs1Arch
  b := if d.useImm then d.imm else srcValue regs d.rs2Valid d.rs2Arch
  isWOp := d.isWOp
  isUnsigned := d.isUnsigned

def bruIn (d : DecodedInsn) (regs : Regs) : BruIn where
  a := srcValue regs d.rs1Valid d.rs1Arch
  b := srcValue regs d.rs2Valid d.rs2Arch
  pc := d.pc
  imm := d.imm
  op := d.brOp
  isFused := d.isFused
  fusionType := d.fusionType
  fusedImm := d.fusedImm
  bpTaken := d.bp.taken
  bpTarget := d.bp.target
  isRvc := d.isRvc

def aluResult (d : DecodedInsn) (regs : Regs) : Word := alu d.aluOp (aluIn d regs)

def execAlu (d : DecodedInsn) (s : ArchState M) : ArchState M :=
  { s with regs := writeBack s.regs d (aluResult d s.regs) }

def execBru (d : DecodedInsn) (s : ArchState M) : ArchState M :=
  let x := bruIn d s.regs
  { s with
    regs := writeBack s.regs d x.result, nextPc := some x.target, squashed := x.mispredict }

/-- Floating-point operations share the ALU's queue, not the ALU. -/
def execUop (other : OtherUnits M) (d : DecodedInsn) (s : ArchState M) : ArchState M :=
  if s.squashed then s
  else if d.fuType = .alu ∧ d.isFpOp = false then execAlu d s
  else if d.fuType = .bru then execBru d s
  else
    let r := other d (s.regs, s.rest)
    { s with regs := r.1, rest := r.2 }

def runUops (other : OtherUnits M) (ds : List DecodedInsn) (s : ArchState M) : ArchState M :=
  ds.foldl (fun s d => execUop other d s) s

/-- How many instructions an operation retires as. -/
def retireWeight (d : DecodedInsn) : Nat := if d.isFused then 2 else 1

-- ---------------------------------------------------------------------
-- What decode guarantees
-- ---------------------------------------------------------------------

/-- The fields that fusion takes for granted in an instruction without an exception. -/
def shaped (d : DecodedInsn) : Bool :=
  d.hasException ||
    (d.fuType != .bru || d.brOp == .jal || d.rs1Valid) &&
    (!d.isFpOp || d.aluOp == .add && !d.useImm) &&
    (!isAddi d || d.rs1Valid && !d.isUnsigned) &&
    (!isLui d || d.useImm) &&
    (!isAuipc d || !d.rs1Valid) &&
    (!(isSlti d || isSltiu d) || signExtend32 d.imm == d.imm)

/-- A conditional branch has no destination. -/
def branchNoRd (d : DecodedInsn) : Bool := !(isBne d || isBeq d) || !d.rdValid

theorem signExtend32_immI (insn : BitVec 32) : signExtend32 (immI insn) = immI insn := by
  unfold signExtend32 immI
  generalize insn.extractLsb' 20 12 = imm
  ext i inside
  simp only [BitVec.getElem_signExtend, BitVec.getLsbD_setWidth, BitVec.getLsbD_signExtend,
    BitVec.msb_eq_getLsbD_last]
  by_cases low : i < 32
  · simp [low]
    grind
  · simp [low]
    grind

theorem decodeOpcode_shaped (insn : BitVec 32) (pc : BitVec 64) (isRvc : Bool) :
    shaped (decodeOpcode insn (defaults insn pc isRvc)) = true := by
  simp only [decodeOpcode, decodeLui, decodeAuipc, decodeJal, decodeJalr, decodeBranch, decodeLoad,
    decodeStore, decodeAmo, decodeLoadFp, decodeStoreFp, decodeOpImm, decodeOp, decodeMuldiv,
    decodeOpImm32, decodeOp32, decodeMiscMem, decodeSystem, decodeCsr, decodeFp, decodeFma,
    illegal, fpIntFmt, fpBinary, sameFmt, defaults, apply_ite shaped]
  simp [shaped, isAddi, isLui, isAuipc, isSlti, isSltiu, signExtend32_immI]

theorem decodeOpcode_branchNoRd (insn : BitVec 32) (pc : BitVec 64) (isRvc : Bool) :
    branchNoRd (decodeOpcode insn (defaults insn pc isRvc)) = true := by
  simp only [decodeOpcode, decodeLui, decodeAuipc, decodeJal, decodeJalr, decodeBranch, decodeLoad,
    decodeStore, decodeAmo, decodeLoadFp, decodeStoreFp, decodeOpImm, decodeOp, decodeMuldiv,
    decodeOpImm32, decodeOp32, decodeMiscMem, decodeSystem, decodeCsr, decodeFp, decodeFma,
    illegal, fpIntFmt, fpBinary, sameFmt, defaults, apply_ite branchNoRd]
  simp [branchNoRd, isBne, isBeq]

theorem suppressRd_shaped (insn : BitVec 32) (d : DecodedInsn) :
    shaped (suppressRd insn d) = shaped d := by
  unfold suppressRd
  dsimp only
  split <;> split <;> rfl

theorem suppressRd_branchNoRd (insn : BitVec 32) (ok : branchNoRd d = true) :
    branchNoRd (suppressRd insn d) = true := by
  have noRd : branchNoRd { d with rdValid := false } = true := Bool.or_true _
  have noArch : ∀ e : DecodedInsn, branchNoRd { e with rdArch := 0 } = branchNoRd e := fun _ => rfl
  unfold suppressRd
  dsimp only
  split
  · exact noRd
  · split
    · exact ok
    · rw [noArch]
      exact ok

/-- Without a destination the rd field is zero. -/
theorem suppressRd_rdValid (rd : (suppressRd insn d).rdArch ≠ 0) :
    (suppressRd insn d).rdValid = true := by
  unfold suppressRd at rd ⊢
  dsimp only at rd ⊢
  split at rd
  · exact absurd rfl rd
  · rename_i h
    rw [if_neg h]
    cases valid : d.rdValid with
    | true => rw [if_pos rfl, valid]
    | false => simp [valid] at rd

/-- A decoded slot without an exception. -/
structure Plain (d : DecodedInsn) : Prop where
  bru : d.fuType = .bru → d.brOp ≠ .jal → d.rs1Valid = true
  fp : d.isFpOp = true → d.aluOp = .add ∧ d.useImm = false
  addi : isAddi d = true → d.rs1Valid = true ∧ d.isUnsigned = false
  lui : isLui d = true → d.useImm = true
  auipc : isAuipc d = true → d.rs1Valid = false
  compareImm : isSlti d = true ∨ isSltiu d = true → signExtend32 d.imm = d.imm
  branch : isBne d = true ∨ isBeq d = true → d.rdValid = false
  rd : d.rdArch ≠ 0 → d.rdValid = true
  unfused : d.isFused = false

theorem plain_of_shaped (clean : d.hasException = false) (ok : shaped d = true)
    (noRd : branchNoRd d = true) (rd : d.rdArch ≠ 0 → d.rdValid = true)
    (unfused : d.isFused = false) : Plain d := by
  unfold shaped at ok
  unfold branchNoRd at noRd
  simp only [clean, Bool.false_or, Bool.and_eq_true, Bool.or_eq_true, bne_iff_ne, beq_iff_eq,
    Bool.not_eq_true', Bool.or_eq_false_iff] at ok noRd
  obtain ⟨⟨⟨⟨⟨bru, fp⟩, addi⟩, lui⟩, auipc⟩, compareImm⟩ := ok
  refine ⟨?_, ?_, ?_, ?_, ?_, ?_, ?_, rd, unfused⟩
  · intro unit notJal
    tauto
  · intro h
    rw [h] at fp
    simpa using fp
  · intro h
    rw [h] at addi
    simpa using addi
  · intro h
    rw [h] at lui
    simpa using lui
  · intro h
    rw [h] at auipc
    simpa using auipc
  · rintro (h | h) <;> rw [h] at compareImm <;> simpa using compareImm
  · rintro (h | h) <;> rw [h] at noRd <;> simpa using noRd

theorem slot_plain {w : Window} (decoded : w.FromDecode) (inside : j < w.count)
    (clean : (w.slot j).hasException = false) : Plain (w.slot j) := by
  obtain ⟨insn, pc, isRvc, bp, same⟩ := decoded.decoded j inside
  have ok : shaped (decodeSlice insn pc isRvc) = true :=
    (suppressRd_shaped insn _).trans (decodeOpcode_shaped insn pc isRvc)
  have noRd : branchNoRd (decodeSlice insn pc isRvc) = true :=
    suppressRd_branchNoRd insn (decodeOpcode_branchNoRd insn pc isRvc)
  refine plain_of_shaped clean ?_ ?_ ?_ ?_
  · rw [same]
    exact ok
  · rw [same]
    exact noRd
  · rw [same]
    exact suppressRd_rdValid
  · rw [same]
    exact decodeSlice_isFused insn pc isRvc

-- ---------------------------------------------------------------------
-- One fused pair
-- ---------------------------------------------------------------------

/-- The narrowing of AUIPC+ADDIW, which the fused operation leaves out, changes nothing. -/
def WordSumFits (a b : DecodedInsn) : Prop :=
  isAuipc a = true → isAddi b = true → b.isWOp = true →
    signExtend32 (a.pc + a.imm + b.imm) = a.pc + a.imm + b.imm

section

variable {a b d : DecodedInsn} {p : FusionPattern} {other : OtherUnits M} {s : ArchState M}

theorem execUop_alu (unit : d.fuType = .alu) (int : d.isFpOp = false)
    (running : s.squashed = false) : execUop other d s = execAlu d s := by
  unfold execUop
  rw [running, if_neg Bool.false_ne_true, if_pos ⟨unit, int⟩]

theorem execUop_bru (unit : d.fuType = .bru) (running : s.squashed = false) :
    execUop other d s = execBru d s := by
  unfold execUop
  rw [running, if_neg Bool.false_ne_true, if_neg (by simp [unit]), if_pos unit]

theorem execUop_squashed (stopped : s.squashed = true) : execUop other d s = s := by
  unfold execUop
  rw [if_pos stopped]

/-- The second instruction reads what the first one wrote. -/
theorem srcValue_writeBack (rd : a.rdArch ≠ 0) (writes : a.rdValid = true)
    (reads : b.rs1Valid = true) (same : a.rdArch = b.rs1Arch) :
    srcValue (writeBack regs a v) b.rs1Valid b.rs1Arch = v := by
  have used : a.rdArch ≠ 0#5 := rd
  unfold srcValue writeBack
  simp [reads, writes, ← same, used]

theorem srcValue_zero : srcValue regs valid 0 = 0 := by
  simp [srcValue]

/-- The second result replaces the first. -/
theorem writeBack_twice (same : a.rdArch = b.rdArch) (first : a.rdValid = true)
    (second : b.rdValid = true) :
    writeBack (writeBack regs a u) b v = writeBack regs a v := by
  funext r
  unfold writeBack
  simp only [first, second, same]
  split
  · rfl
  · rfl

theorem writeBack_self (rd : a.rdArch ≠ 0) (writes : a.rdValid = true) :
    writeBack regs a v a.rdArch = v := by
  have used : a.rdArch ≠ 0#5 := rd
  simp [writeBack, writes, used]

theorem writeBack_none (none : b.rdValid = false) : writeBack regs b v = regs := by
  funext r
  simp [writeBack, none]

/-- What ADDI or ADDIW adds to its operand. -/
def addImm (b : DecodedInsn) (v : Word) : Word :=
  if b.isWOp then signExtend32 (v + b.imm) else v + b.imm

theorem alu_addi (addi : isAddi b = true) (unsigned : b.isUnsigned = false) (v : Word) :
    alu b.aluOp ⟨v, b.imm, b.isWOp, b.isUnsigned⟩ = addImm b v := by
  simp only [isAddi, Bool.and_eq_true, beq_iff_eq] at addi
  rw [addi.1.2]
  unfold alu addImm
  dsimp only
  rw [unsigned, Bool.and_false, if_neg Bool.false_ne_true]
  split
  · unfold sext32 AluIn.a32 AluIn.b32 signExtend32
    dsimp only
    rw [BitVec.setWidth_add _ _ (by decide)]
  · rfl

theorem addi_exec (unitA : a.fuType = .alu) (intA : a.isFpOp = false) (plainA : Plain a)
    (plainB : Plain b) (addi : isAddi b = true) (covers : overwrites a b = true)
    (rd : a.rdArch ≠ 0) (running : s.squashed = false) :
    execUop other b (execUop other a s) =
      { s with regs := writeBack s.regs a (addImm b (aluResult a s.regs)) } := by
  obtain ⟨reads, unsigned⟩ := plainB.addi addi
  simp only [overwrites, Bool.and_eq_true, beq_iff_eq] at covers
  have fields := addi
  simp only [isAddi, Bool.and_eq_true, beq_iff_eq] at fields
  have intB : b.isFpOp = false := by
    cases fp : b.isFpOp with
    | false => rfl
    | true => exact absurd (fields.2.symm.trans (plainB.fp fp).2) Bool.false_ne_true.symm
  have writesB : b.rdValid = true := plainB.rd (covers.2 ▸ rd)
  rw [execUop_alu unitA intA running]
  rw [execUop_alu (s := execAlu a s) fields.1.1 intB running]
  have operand : aluIn b (execAlu a s).regs =
      ⟨aluResult a s.regs, b.imm, b.isWOp, b.isUnsigned⟩ := by
    unfold aluIn execAlu
    rw [fields.1.2, fields.2]
    dsimp only
    rw [srcValue_writeBack rd (plainA.rd rd) reads covers.1]
    rfl
  have value : aluResult b (execAlu a s).regs = addImm b (aluResult a s.regs) := by
    rw [aluResult, operand, alu_addi addi unsigned]
  unfold execAlu at value ⊢
  dsimp only at value ⊢
  rw [value, writeBack_twice covers.2 (plainA.rd rd) writesB]

/-- The fused compare-and-branch as it leaves the detector. -/
def compareUop (a b : DecodedInsn) (op : BrOp) (fusedImm : BitVec 32) (type : BitVec 3) :
    DecodedInsn :=
  { compareBranch a b op fusedImm type with
    bp := b.bp, pc := b.pc, trapPc := a.trapPc, isRvc := b.isRvc, rdValid := a.rdValid }

/-- Whether a branch on the first instruction's result is taken. -/
def branchOn (op : BrOp) (v : Word) : Bool := if op = .ne then v != 0 else v == 0

theorem compare_exec (unitA : a.fuType = .alu) (intA : a.isFpOp = false) (plainA : Plain a)
    (plainB : Plain b) (unitB : b.fuType = .bru) (opB : b.brOp = op) (cond : op = .ne ∨ op = .eq)
    (zero : testsZero a b = true) (rd : a.rdArch ≠ 0) (running : s.squashed = false)
    (result : (bruIn (compareUop a b op imm type) s.regs).fusedResult = aluResult a s.regs)
    (taken : (bruIn (compareUop a b op imm type) s.regs).fusedTaken =
      branchOn op (aluResult a s.regs)) :
    execUop other (compareUop a b op imm type) s = execUop other b (execUop other a s) := by
  simp only [testsZero, Bool.and_eq_true, beq_iff_eq] at zero
  have noJump : (op == .jal || op == .jalr) = false := by
    rcases cond with rfl | rfl <;> rfl
  have reads : b.rs1Valid = true := plainB.bru unitB (by
    rw [opB]
    rcases cond with rfl | rfl <;> decide)
  have noRd : b.rdValid = false := plainB.branch (by
    rcases cond with rfl | rfl <;> simp [isBne, isBeq, unitB, opB])
  have operands : bruIn b (execAlu a s).regs =
      { bruIn b s.regs with a := aluResult a s.regs, b := 0 } := by
    unfold bruIn execAlu
    dsimp only
    rw [srcValue_writeBack rd (plainA.rd rd) reads zero.1, zero.2, srcValue_zero]
  have branch : (bruIn (compareUop a b op imm type) s.regs).isJump = false := noJump
  have pairBranch : (bruIn b (execAlu a s).regs).isJump = false := by
    show (b.brOp == .jal || b.brOp == .jalr) = false
    rw [opB, noJump]
  have fusedTaken : (bruIn (compareUop a b op imm type) s.regs).taken =
      branchOn op (aluResult a s.regs) := by
    rw [BruIn.taken_branch branch]
    exact taken
  have pairTaken : (bruIn b (execAlu a s).regs).taken = branchOn op (aluResult a s.regs) := by
    rw [BruIn.taken_branch pairBranch, operands]
    unfold BruIn.stdTaken branchOn
    dsimp only [bruIn]
    rcases cond with rfl | rfl <;> simp [plainB.unfused, opB]
  have notJalr : op ≠ .jalr := by
    rcases cond with rfl | rfl <;> decide
  have target : (bruIn (compareUop a b op imm type) s.regs).branchTarget = b.pc + b.imm := by
    unfold BruIn.branchTarget
    exact if_neg notJalr
  have pairTarget : (bruIn b (execAlu a s).regs).branchTarget = b.pc + b.imm := by
    unfold BruIn.branchTarget
    exact if_neg fun jalr => notJalr (opB.symm.trans jalr)
  rw [execUop_alu unitA intA running, execUop_bru (s := execAlu a s) unitB running,
    execUop_bru (d := compareUop a b op imm type) rfl running]
  apply ArchState.ext
  · show writeBack s.regs (compareUop a b op imm type) _ = writeBack (execAlu a s).regs b _
    rw [writeBack_none noRd, BruIn.result_branch branch]
    exact congrArg (writeBack s.regs a) result
  · rfl
  · show some _ = some _
    rw [BruIn.target_branch branch, BruIn.target_branch pairBranch, fusedTaken, pairTaken, target,
      pairTarget]
    rfl
  · show BruIn.mispredict _ = BruIn.mispredict _
    unfold BruIn.mispredict
    rw [fusedTaken, pairTaken, target, pairTarget]
    rfl

-- The value of the first instruction, class by class.

theorem slt_value (slt : isSlt a = true) (regs : Regs) :
    aluResult a regs = ofBool ((srcValue regs a.rs1Valid a.rs1Arch).slt
      (srcValue regs a.rs2Valid a.rs2Arch)) := by
  simp only [isSlt, Bool.and_eq_true, beq_iff_eq, Bool.not_eq_true'] at slt
  simp [aluResult, aluIn, slt.1.2, slt.2, alu]

theorem sltu_value (sltu : isSltu a = true) (regs : Regs) :
    aluResult a regs = ofBool ((srcValue regs a.rs1Valid a.rs1Arch).ult
      (srcValue regs a.rs2Valid a.rs2Arch)) := by
  simp only [isSltu, Bool.and_eq_true, beq_iff_eq, Bool.not_eq_true'] at sltu
  simp [aluResult, aluIn, sltu.1.2, sltu.2, alu]

theorem slti_value (plainA : Plain a) (slti : isSlti a = true) (regs : Regs) :
    aluResult a regs =
      ofBool ((srcValue regs a.rs1Valid a.rs1Arch).slt (signExtend32 a.imm)) := by
  rw [plainA.compareImm (.inl slti)]
  simp only [isSlti, Bool.and_eq_true, beq_iff_eq] at slti
  simp [aluResult, aluIn, slti.1.2, slti.2, alu]

theorem sltiu_value (plainA : Plain a) (sltiu : isSltiu a = true) (regs : Regs) :
    aluResult a regs =
      ofBool ((srcValue regs a.rs1Valid a.rs1Arch).ult (signExtend32 a.imm)) := by
  rw [plainA.compareImm (.inr sltiu)]
  simp only [isSltiu, Bool.and_eq_true, beq_iff_eq] at sltiu
  simp [aluResult, aluIn, sltiu.1.2, sltiu.2, alu]

theorem isAddi_of_isSextw (sextw : isSextw a = true) : isAddi a = true := by
  simp only [isSextw, Bool.and_eq_true, beq_iff_eq] at sextw
  simp [isAddi, sextw]

theorem sextw_value (plainA : Plain a) (sextw : isSextw a = true) (regs : Regs) :
    aluResult a regs = sext32 ((srcValue regs a.rs1Valid a.rs1Arch).setWidth 32) := by
  have unsigned := (plainA.addi (isAddi_of_isSextw sextw)).2
  simp only [isSextw, Bool.and_eq_true, beq_iff_eq] at sextw
  simp [aluResult, aluIn, sextw, alu, unsigned, AluIn.a32, AluIn.b32]

theorem branchOn_ofBool (c : Bool) :
    branchOn .ne (ofBool c) = c ∧ branchOn .eq (ofBool c) = !c := by
  cases c <;> exact ⟨rfl, rfl⟩

theorem sext32_eq_zero (v : BitVec 32) : sext32 v = 0 ↔ v = 0 := by
  constructor
  · intro h
    apply BitVec.eq_of_getLsbD_eq
    intro i inside
    have low := congrArg (fun w : Word => w.getLsbD i) h
    simp only [sext32, BitVec.getLsbD_signExtend, if_pos inside] at low
    simpa [show i < 64 by omega] using low
  · rintro rfl
    rfl

theorem branchOn_sext32 (v : BitVec 32) :
    branchOn .ne (sext32 v) = (v != 0) ∧ branchOn .eq (sext32 v) = (v == 0) := by
  have zero := sext32_eq_zero v
  unfold branchOn
  rw [if_pos rfl, if_neg (by decide)]
  by_cases h : v = 0
  · simp [h, sext32]
  · have h' : sext32 v ≠ 0 := fun e => h (zero.mp e)
    constructor
    · rw [bne_iff_ne.mpr h, bne_iff_ne.mpr h']
    · rw [beq_eq_false_iff_ne.mpr h, beq_eq_false_iff_ne.mpr h']

theorem isAuipc_false (other : a.aluOp ≠ .pass2) : isAuipc a = false := by
  simp [isAuipc, other]

/-- A compare pattern leaves the detector as `compareUop`. -/
theorem fusedUop_compare (merged : mergeUop a b p = compareBranch a b op imm type)
    (other : a.aluOp ≠ .pass2) : fusedUop a b p = compareUop a b op imm type := by
  unfold fusedUop
  rw [merged]
  simp only [compareBranch, isAuipc_false other, Bool.false_and, Bool.false_eq_true, if_false,
    if_true]
  rfl

theorem alu_first (plainA : Plain a) (op : a.aluOp ≠ .add ∨ a.useImm = true) :
    a.isFpOp = false := by
  cases fp : a.isFpOp with
  | false => rfl
  | true =>
    obtain ⟨add, noImm⟩ := plainA.fp fp
    rcases op with h | h
    · exact absurd add h
    · exact absurd (noImm.symm.trans h) Bool.false_ne_true

-- What the classification wires say about the fields.

theorem isSlt_fields (h : isSlt a = true) : a.fuType = .alu ∧ (a.aluOp = .slt ∨ a.aluOp = .sltu) := by
  simp only [isSlt, Bool.and_eq_true, beq_iff_eq] at h
  exact ⟨h.1.1, .inl h.1.2⟩

theorem isSltu_fields (h : isSltu a = true) :
    a.fuType = .alu ∧ (a.aluOp = .slt ∨ a.aluOp = .sltu) := by
  simp only [isSltu, Bool.and_eq_true, beq_iff_eq] at h
  exact ⟨h.1.1, .inr h.1.2⟩

theorem isSlti_fields (h : isSlti a = true) :
    a.fuType = .alu ∧ (a.aluOp = .slt ∨ a.aluOp = .sltu) := by
  simp only [isSlti, Bool.and_eq_true, beq_iff_eq] at h
  exact ⟨h.1.1, .inl h.1.2⟩

theorem isSltiu_fields (h : isSltiu a = true) :
    a.fuType = .alu ∧ (a.aluOp = .slt ∨ a.aluOp = .sltu) := by
  simp only [isSltiu, Bool.and_eq_true, beq_iff_eq] at h
  exact ⟨h.1.1, .inr h.1.2⟩

theorem isBne_fields (h : isBne b = true) : b.fuType = .bru ∧ b.brOp = .ne := by
  simpa only [isBne, Bool.and_eq_true, beq_iff_eq] using h

theorem isBeq_fields (h : isBeq b = true) : b.fuType = .bru ∧ b.brOp = .eq := by
  simpa only [isBeq, Bool.and_eq_true, beq_iff_eq] using h

/-- A fused comparison, from the value of its first instruction. -/
theorem set_branch_exec (plainA : Plain a) (plainB : Plain b)
    (first : a.fuType = .alu ∧ (a.aluOp = .slt ∨ a.aluOp = .sltu))
    (second : b.fuType = .bru ∧ b.brOp = op) (cond : op = .ne ∨ op = .eq)
    (zero : testsZero a b = true) (rd : a.rdArch ≠ 0) (running : s.squashed = false)
    (merged : mergeUop a b p = compareBranch a b op imm type)
    (value : aluResult a s.regs = ofBool (bruIn (compareUop a b op imm type) s.regs).fusedLt)
    (compares : type ≠ 6 ∧ type ≠ 7)
    (taken : (bruIn (compareUop a b op imm type) s.regs).fusedTaken =
      if op = .ne then (bruIn (compareUop a b op imm type) s.regs).fusedLt
      else !(bruIn (compareUop a b op imm type) s.regs).fusedLt) :
    execUop other (fusedUop a b p) s = execUop other b (execUop other a s) := by
  obtain ⟨unitA, set⟩ := first
  have notAdd : a.aluOp ≠ .add := by
    rcases set with h | h <;> simp [h]
  have notPc : a.aluOp ≠ .pass2 := by
    rcases set with h | h <;> simp [h]
  rw [fusedUop_compare merged notPc]
  refine compare_exec unitA (alu_first plainA (.inl notAdd)) plainA plainB second.1 second.2 cond
    zero rd running ?_ ?_
  · rw [value]
    unfold BruIn.fusedResult
    rw [if_neg]
    simpa [bruIn, compareUop, compareBranch] using compares
  · rw [taken, value]
    rcases cond with rfl | rfl
    · exact (branchOn_ofBool _).1.symm
    · exact (branchOn_ofBool _).2.symm

/-- A fused test of a sign-extended word. -/
theorem sextw_branch_exec (plainA : Plain a) (plainB : Plain b) (first : isSextw a = true)
    (second : b.fuType = .bru ∧ b.brOp = op) (cond : op = .ne ∧ type = 6 ∨ op = .eq ∧ type = 7)
    (zero : testsZero a b = true) (rd : a.rdArch ≠ 0) (running : s.squashed = false)
    (merged : mergeUop a b p = compareBranch a b op imm type) :
    execUop other (fusedUop a b p) s = execUop other b (execUop other a s) := by
  have value := sextw_value plainA first s.regs
  simp only [isSextw, Bool.and_eq_true, beq_iff_eq] at first
  have notPc : a.aluOp ≠ .pass2 := by
    rw [first.1.1.1.2]
    decide
  rw [fusedUop_compare merged notPc]
  refine compare_exec first.1.1.1.1 (alu_first plainA (.inr first.1.1.2)) plainA plainB second.1
    second.2 (cond.imp And.left And.left) zero rd running ?_ ?_
  · rw [value]
    rcases cond with ⟨rfl, rfl⟩ | ⟨rfl, rfl⟩ <;> rfl
  · rw [value]
    rcases cond with ⟨rfl, rfl⟩ | ⟨rfl, rfl⟩
    · exact (branchOn_sext32 _).1.symm
    · exact (branchOn_sext32 _).2.symm

theorem isAuipc_fields (h : isAuipc a = true) :
    a.fuType = .alu ∧ a.aluOp = .pass2 ∧ a.useImm = true := by
  simp only [isAuipc, Bool.and_eq_true, beq_iff_eq] at h
  exact ⟨h.1.1, h.1.2, h.2⟩

theorem auipc_value (first : isAuipc a = true) (regs : Regs) :
    aluResult a regs = a.pc + a.imm := by
  obtain ⟨-, op, imm⟩ := isAuipc_fields first
  simp [aluResult, aluIn, op, imm, alu]

theorem luiAddi_exec (plainA : Plain a) (plainB : Plain b) (first : isLui a = true)
    (second : isAddi b = true) (covers : overwrites a b = true) (rd : a.rdArch ≠ 0)
    (running : s.squashed = false) :
    execUop other (fusedUop a b .luiAddi) s = execUop other b (execUop other a s) := by
  have imm := plainA.lui first
  simp only [isLui, Bool.and_eq_true, beq_iff_eq] at first
  have int := alu_first plainA (.inr imm)
  have value : aluResult a s.regs = a.imm := by
    simp [aluResult, aluIn, first.2, imm, alu]
  have same : fusedUop a b .luiAddi = mergeUop a b .luiAddi := by
    unfold fusedUop
    exact if_neg (by simp [mergeUop, first.1])
  rw [addi_exec first.1 int plainA plainB second covers rd running, value, same,
    execUop_alu (d := mergeUop a b .luiAddi) first.1 int running]
  have sum : aluResult (mergeUop a b .luiAddi) s.regs = addImm b a.imm := by
    simp [aluResult, aluIn, mergeUop, first.2, imm, alu, luiAddImm, addImm]
  unfold execAlu
  rw [sum]
  rfl

theorem auipcAddi_fused (first : isAuipc a = true) :
    fusedUop a b .auipcAddi = mergeUop a b .auipcAddi := by
  unfold fusedUop
  exact if_neg (by simp [mergeUop, (isAuipc_fields first).1])

theorem auipcAddi_value (first : isAuipc a = true) (regs : Regs) :
    aluResult (mergeUop a b .auipcAddi) regs = a.pc + a.imm + b.imm := by
  obtain ⟨-, op, imm⟩ := isAuipc_fields first
  simp [aluResult, aluIn, mergeUop, op, imm, alu, BitVec.add_assoc]

/-- The fused address computation adds without narrowing. -/
theorem auipcAddi_exec (other : OtherUnits M) (plainA : Plain a) (plainB : Plain b) (first : isAuipc a = true)
    (second : isAddi b = true) (covers : overwrites a b = true) (rd : a.rdArch ≠ 0)
    (running : s.squashed = false) :
    execUop other (fusedUop a b .auipcAddi) s =
        { s with regs := writeBack s.regs a (a.pc + a.imm + b.imm) } ∧
      execUop other b (execUop other a s) =
        { s with regs := writeBack s.regs a (addImm b (a.pc + a.imm)) } := by
  obtain ⟨unit, op, imm⟩ := isAuipc_fields first
  have int := alu_first plainA (.inr imm)
  rw [addi_exec unit int plainA plainB second covers rd running, auipc_value first,
    auipcAddi_fused first, execUop_alu (d := mergeUop a b .auipcAddi) unit int running]
  unfold execAlu
  rw [auipcAddi_value first]
  exact ⟨rfl, rfl⟩

/-- The jump target of the fused call comes from the immediate alone. -/
theorem auipcJalr_exec (plainA : Plain a) (plainB : Plain b) (first : isAuipc a = true)
    (second : isJalr b = true) (covers : overwrites a b = true) (rd : a.rdArch ≠ 0)
    (running : s.squashed = false) :
    execUop other (fusedUop a b .auipcJalr) s = execUop other b (execUop other a s) := by
  obtain ⟨unit, op, imm⟩ := isAuipc_fields first
  have int := alu_first plainA (.inr imm)
  have noRs1 := plainA.auipc first
  have merged : fusedUop a b .auipcJalr =
      { mergeUop a b .auipcJalr with
        bp := b.bp, pc := b.pc, trapPc := a.trapPc, isRvc := b.isRvc
        imm := a.pc + a.imm + b.imm } := by
    unfold fusedUop
    simp only [mergeUop, first, second, covers, Bool.and_self, if_true]
  simp only [isJalr, Bool.and_eq_true, beq_iff_eq] at second
  simp only [overwrites, Bool.and_eq_true, beq_iff_eq] at covers
  have reads := plainB.bru second.1 (by simp [second.2])
  have writesB := plainB.rd (covers.2 ▸ rd)
  have operand : (bruIn b (execAlu a s).regs).a = a.pc + a.imm := by
    show srcValue (writeBack s.regs a (aluResult a s.regs)) b.rs1Valid b.rs1Arch = _
    rw [srcValue_writeBack rd (plainA.rd rd) reads covers.1, auipc_value first]
  rw [execUop_alu unit int running, execUop_bru (s := execAlu a s) second.1 running, merged,
    execUop_bru (by rfl) running]
  generalize fused : bruIn { mergeUop a b .auipcJalr with
    bp := b.bp, pc := b.pc, trapPc := a.trapPc, isRvc := b.isRvc
    imm := a.pc + a.imm + b.imm } s.regs = x
  generalize pair : bruIn b (execAlu a s).regs = y at operand
  have noOperand : x.a = 0 := by
    rw [← fused]
    show srcValue s.regs a.rs1Valid a.rs1Arch = 0
    rw [noRs1]
    rfl
  obtain ⟨takenX, targetX, goesX, resultX⟩ := BruIn.jalr_outcome (x := x) (by rw [← fused]; rfl)
  obtain ⟨takenY, targetY, goesY, resultY⟩ :=
    BruIn.jalr_outcome (x := y) (by rw [← pair]; exact second.2)
  have sameTarget : x.branchTarget = y.branchTarget := by
    have sum : (0 : Word) + x.imm = x.imm := BitVec.zero_add _
    rw [targetX, targetY, noOperand, operand, sum, ← fused, ← pair]
    rfl
  have sameLink : x.fallthrough = y.fallthrough := by
    rw [← fused, ← pair]
    rfl
  unfold execBru
  rw [fused, pair]
  apply ArchState.ext
  · show writeBack s.regs _ x.result = writeBack (writeBack s.regs a _) b y.result
    rw [resultX, resultY, sameLink, writeBack_twice covers.2 (plainA.rd rd) writesB]
    unfold writeBack
    simp only [mergeUop, covers.2, writesB, plainA.rd rd]
  · rfl
  · show some x.target = some y.target
    rw [goesX, goesY, sameTarget]
  · show x.mispredict = y.mispredict
    unfold BruIn.mispredict
    rw [takenX, takenY, sameTarget, ← fused, ← pair]
    rfl

/-- The fused operation does what the two instructions do. -/
theorem fusedUop_exec (plainA : Plain a) (plainB : Plain b) (fuses : fusionPattern a b = some p)
    (fits : WordSumFits a b) :
    execUop other (fusedUop a b p) s = execUop other b (execUop other a s) := by
  cases running : s.squashed with
  | true => rw [execUop_squashed running, execUop_squashed running, execUop_squashed running]
  | false =>
  have rd := (fusionPattern_valid fuses).2.2
  have holds := fusionPattern_holds fuses
  cases p <;> simp only [FusionPattern.holds, Bool.and_eq_true] at holds <;>
    obtain ⟨⟨first, second⟩, uses⟩ := holds
  case luiAddi => exact luiAddi_exec plainA plainB first second uses rd running
  case auipcJalr => exact auipcJalr_exec plainA plainB first second uses rd running
  case auipcAddi =>
    obtain ⟨fused, pair⟩ := auipcAddi_exec other plainA plainB first second uses rd running
    rw [fused, pair, addImm]
    split
    · rename_i word
      rw [fits first second word]
    · rfl
  case sltBne =>
    exact set_branch_exec plainA plainB (isSlt_fields first) (isBne_fields second) (.inl rfl) uses
      rd running rfl (slt_value first s.regs) (by decide) rfl
  case sltuBne =>
    exact set_branch_exec plainA plainB (isSltu_fields first) (isBne_fields second) (.inl rfl) uses
      rd running rfl (sltu_value first s.regs) (by decide) rfl
  case sltBeq =>
    exact set_branch_exec plainA plainB (isSlt_fields first) (isBeq_fields second) (.inr rfl) uses
      rd running rfl (slt_value first s.regs) (by decide) rfl
  case sltuBeq =>
    exact set_branch_exec plainA plainB (isSltu_fields first) (isBeq_fields second) (.inr rfl) uses
      rd running rfl (sltu_value first s.regs) (by decide) rfl
  case sltiBne =>
    exact set_branch_exec plainA plainB (isSlti_fields first) (isBne_fields second) (.inl rfl) uses
      rd running rfl (slti_value plainA first s.regs) (by decide) rfl
  case sltiBeq =>
    exact set_branch_exec plainA plainB (isSlti_fields first) (isBeq_fields second) (.inr rfl) uses
      rd running rfl (slti_value plainA first s.regs) (by decide) rfl
  case sltiuBne =>
    exact set_branch_exec plainA plainB (isSltiu_fields first) (isBne_fields second) (.inl rfl)
      uses rd running rfl (sltiu_value plainA first s.regs) (by decide) rfl
  case sltiuBeq =>
    exact set_branch_exec plainA plainB (isSltiu_fields first) (isBeq_fields second) (.inr rfl)
      uses rd running rfl (sltiu_value plainA first s.regs) (by decide) rfl
  case sextwBne =>
    exact sextw_branch_exec plainA plainB first (isBne_fields second) (.inl ⟨rfl, rfl⟩) uses rd
      running rfl
  case sextwBeq =>
    exact sextw_branch_exec plainA plainB first (isBeq_fields second) (.inr ⟨rfl, rfl⟩) uses rd
      running rfl

/-- Only AUIPC+ADDIW is inexact, and only where narrowing would change the sum. -/
theorem fusedUop_exec_iff (plainA : Plain a) (plainB : Plain b)
    (fuses : fusionPattern a b = some p) :
    (∀ (M : Type) (other : OtherUnits M) (s : ArchState M),
        execUop other (fusedUop a b p) s = execUop other b (execUop other a s)) ↔
      WordSumFits a b := by
  constructor
  · intro same first second word
    have rd := (fusionPattern_valid fuses).2.2
    have holds := fusionPattern_holds fuses
    obtain rfl : p = .auipcAddi := by
      have aFields := isAuipc_fields first
      have bFields := second
      simp only [isAddi, Bool.and_eq_true, beq_iff_eq] at bFields
      cases p <;>
        simp [FusionPattern.holds, isLui, isJalr, isSlt, isSltu, isSlti, isSltiu, isSextw,
          aFields, bFields] at holds ⊢
    simp only [FusionPattern.holds, Bool.and_eq_true] at holds
    let s : ArchState Unit := ⟨fun _ => 0, (), none, false⟩
    have same := same Unit (fun _ r => r) s
    obtain ⟨fused, pair⟩ := auipcAddi_exec (fun _ r => r) plainA plainB first second holds.2 rd
      (show s.squashed = false from rfl)
    rw [fused, pair] at same
    have value := congrFun (congrArg ArchState.regs same) a.rdArch
    dsimp only at value
    rw [writeBack_self rd (plainA.rd rd), writeBack_self rd (plainA.rd rd), addImm,
      if_pos word] at value
    exact value.symm
  · intro fits M other s
    exact fusedUop_exec plainA plainB fuses fits

end

-- ---------------------------------------------------------------------
-- The whole window
-- ---------------------------------------------------------------------

namespace Window

/-- Every output has the effect of the instructions it stands for, from every state, so has the
whole window, and the outputs retire as as many instructions as there were. -/
structure FusionRight (w : Window) : Prop where
  uops : ∀ (M : Type) (other : OtherUnits M) (s : ArchState M) (p : Nat), p < w.decCountOut →
    execUop other (w.decOut p) s = runUops other ((w.origin p).map w.slot) s
  window : ∀ (M : Type) (other : OtherUnits M) (s : ArchState M),
    runUops other w.outputs s = runUops other w.inputs s
  weights : (w.outputs.map retireWeight).sum = w.count

variable {w : Window}

theorem kept_of_lt (decoded : w.FromDecode) (inside : p < w.decCountOut) :
    ∃ i, i < w.count ∧ w.consumed i = false ∧ w.kept[p]? = some i := by
  have all : p < w.kept.length := by
    have most := rank_mono (fun i => !w.consumed i) decoded.fits
    rw [kept, length_packed]
    rw [decCountOut_eq decoded] at inside
    omega
  obtain ⟨-, stays, lands⟩ := getElem?_packed_iff.mp (List.getElem?_eq_getElem all)
  refine ⟨w.kept[p], ?_, by simpa using stays, List.getElem?_eq_getElem all⟩
  by_contra beyond
  have later := rank_mono (fun i => !w.consumed i) (Nat.le_of_not_lt beyond)
  rw [decCountOut_eq decoded] at inside
  omega

/-- The outputs stand for the slots in order, each for one or two of them. -/
theorem origins_cover (decoded : w.FromDecode) (inside : i ≤ w.count)
    (stays : w.consumed i = false) :
    (List.range (rank (fun i => !w.consumed i) i)).flatMap w.origin = List.range i := by
  have few := decoded.fits
  induction i using Nat.strong_induction_on with
  | _ i ih =>
  match i with
  | 0 => rfl
  | i + 1 =>
    have notFirst : w.starts i = false := stays
    cases second : w.consumed i with
    | false =>
      have kept := kept_rank (show i < pipeWidth by omega) second
      rw [rank_succ, second, Bool.not_false, if_pos rfl, List.range_succ, List.flatMap_append,
        ih i (by omega) (by omega) second, List.range_succ, List.flatMap_singleton,
        origin_eq kept, notFirst]
      rfl
    | true =>
      match i, second with
      | k + 1, starts =>
        have first := starts_not_consumed starts
        have kept := kept_rank (show k < pipeWidth by omega) first
        rw [rank_succ, starts, rank_succ, first, Bool.not_false, if_pos rfl, Bool.not_true,
          if_neg Bool.false_ne_true, Nat.add_zero, List.range_succ, List.flatMap_append,
          ih k (by omega) (by omega) first, List.flatMap_singleton, origin_eq kept, List.range_succ,
          List.range_succ, List.append_assoc]
        exact congrArg _ (if_pos starts)

theorem fusedUop_isFused (a b : DecodedInsn) (p : FusionPattern) :
    (fusedUop a b p).isFused = true := by
  have merged : (mergeUop a b p).isFused = true := by
    cases p <;> rfl
  unfold fusedUop
  simp only [apply_ite DecodedInsn.isFused, merged, ite_self]

/-- The output of a fused pair. -/
theorem decOut_pair (kept : w.kept[p]? = some i) (starts : w.starts i = true) :
    ∃ pat, fusionPattern (w.slot i) (w.slot (i + 1)) = some pat ∧
      w.decOut p = fusedUop (w.slot i) (w.slot (i + 1)) pat ∧ w.origin p = [i, i + 1] := by
  obtain ⟨pat, fuses⟩ := fits_iff.mp (fusable_fits (Bool.and_eq_true_iff.mp starts).2)
  refine ⟨pat, fuses, ?_, ?_⟩
  · unfold decOut emit
    rw [kept]
    dsimp only
    rw [if_pos starts, fuses]
  · rw [origin_eq kept, if_pos starts]

/-- The output of any other slot. -/
theorem decOut_single (kept : w.kept[p]? = some i) (alone : w.starts i = false) :
    w.decOut p = w.slot i ∧ w.origin p = [i] := by
  refine ⟨?_, ?_⟩
  · unfold decOut emit
    rw [kept]
    dsimp only
    rw [alone, if_neg Bool.false_ne_true]
  · rw [origin_eq kept, alone]
    rfl

theorem retireWeight_decOut (decoded : w.FromDecode) (inside : p < w.decCountOut) :
    retireWeight (w.decOut p) = (w.origin p).length := by
  obtain ⟨i, present, -, kept⟩ := kept_of_lt decoded inside
  cases starts : w.starts i with
  | true =>
    obtain ⟨pat, -, out, origin⟩ := decOut_pair kept starts
    rw [out, origin, retireWeight, fusedUop_isFused]
    rfl
  | false =>
    obtain ⟨out, origin⟩ := decOut_single kept starts
    rw [out, origin, retireWeight, slot_isFused decoded present]
    rfl

theorem all_covered (decoded : w.FromDecode) :
    (List.range w.decCountOut).flatMap w.origin = List.range w.count := by
  rw [decCountOut_eq decoded]
  refine origins_cover decoded (Nat.le_refl _) ?_
  cases consumed : w.consumed w.count with
  | false => rfl
  | true =>
    match h : w.count, consumed with
    | k + 1, starts =>
      have := starts_inside decoded starts
      omega

theorem weights (decoded : w.FromDecode) : (w.outputs.map retireWeight).sum = w.count := by
  have lengths : ∀ n, n ≤ w.decCountOut →
      (((List.range n).map w.decOut).map retireWeight).sum =
        ((List.range n).flatMap w.origin).length := by
    intro n inside
    induction n with
    | zero => rfl
    | succ n ih =>
      rw [List.range_succ, List.map_append, List.map_append, List.sum_append, List.flatMap_append,
        List.length_append, ih (Nat.le_of_succ_le inside), List.flatMap_singleton,
        ← retireWeight_decOut decoded inside]
      simp
  rw [outputs, lengths _ (Nat.le_refl _), all_covered decoded, List.length_range]

/-- Equal effects output by output give equal effects of the window. -/
theorem runUops_outputs (decoded : w.FromDecode) {other : OtherUnits M}
    (uops : ∀ (s : ArchState M) (p : Nat), p < w.decCountOut →
      execUop other (w.decOut p) s = runUops other ((w.origin p).map w.slot) s)
    (s : ArchState M) : runUops other w.outputs s = runUops other w.inputs s := by
  have prefixes : ∀ n, n ≤ w.decCountOut → runUops other ((List.range n).map w.decOut) s =
      runUops other (((List.range n).flatMap w.origin).map w.slot) s := by
    intro n inside
    induction n with
    | zero => rfl
    | succ n ih =>
      have last := uops (runUops other ((List.range n).map w.decOut) s) n inside
      rw [List.range_succ, List.map_append, List.flatMap_append, List.map_append,
        List.flatMap_singleton]
      simp only [runUops, List.foldl_append] at ih last ⊢
      rw [← ih (Nat.le_of_succ_le inside), ← last]
      rfl
  rw [outputs, prefixes _ (Nat.le_refl _), all_covered decoded, inputs]

theorem fits_of_right (decoded : w.FromDecode)
    (clean : ∀ j, j < w.count → (w.slot j).hasException = false) (right : w.FusionRight) :
    w.ChosenPairs WordSumFits := by
  refine chosenPairs_iff.mpr fun k starts => ?_
  have inside := starts_inside decoded starts
  have before := Nat.lt_of_succ_lt inside
  have first := starts_not_consumed starts
  have few := decoded.fits
  have kept := kept_rank (show k < pipeWidth by omega) first
  obtain ⟨pat, fuses, out, origin⟩ := decOut_pair kept starts
  refine (fusedUop_exec_iff (slot_plain decoded before (clean k before))
    (slot_plain decoded inside (clean (k + 1) inside)) fuses).mp ?_
  intro M other s
  have same := right.uops M other s _ (rank_lt_decCountOut decoded before first)
  rw [out, origin] at same
  exact same

theorem right_of_fits (decoded : w.FromDecode)
    (clean : ∀ j, j < w.count → (w.slot j).hasException = false)
    (fits : w.ChosenPairs WordSumFits) : w.FusionRight := by
  have uops : ∀ (M : Type) (other : OtherUnits M) (s : ArchState M) (p : Nat),
      p < w.decCountOut →
      execUop other (w.decOut p) s = runUops other ((w.origin p).map w.slot) s := by
    intro M other s p inside
    obtain ⟨i, present, -, kept⟩ := kept_of_lt decoded inside
    cases starts : w.starts i with
    | true =>
      have second := starts_inside decoded starts
      obtain ⟨pat, fuses, out, origin⟩ := decOut_pair kept starts
      rw [out, origin]
      exact fusedUop_exec (slot_plain decoded present (clean i present))
        (slot_plain decoded second (clean (i + 1) second)) fuses (chosenPairs_iff.mp fits i starts)
    | false =>
      obtain ⟨out, origin⟩ := decOut_single kept starts
      rw [out, origin]
      rfl
  exact ⟨uops, fun M other => runUops_outputs decoded (uops M other), weights decoded⟩

/-- Executing a window after fusion is executing it before, iff no chosen AUIPC+ADDIW pair has a
sum that narrowing would change. -/
theorem fusion_refines (decoded : w.FromDecode)
    (clean : ∀ j, j < w.count → (w.slot j).hasException = false) :
    w.FusionRight ↔ w.ChosenPairs WordSumFits :=
  ⟨fits_of_right decoded clean, right_of_fits decoded clean⟩

-- LUI x1, 1 and ADDI x1, x1, 1.
def luiAddiX1 : Window := decodedWindow [0x000010B7, 0x00108093]

theorem fusion_refines_luiAddi : luiAddiX1.FusionRight := by
  have decoded : luiAddiX1.FromDecode := fromDecode_decodedWindow _ (by decide)
  refine (fusion_refines decoded (by decide)).mpr ⟨?_, ?_, ?_⟩
  · intro _ auipc
    exact absurd auipc (by decide)
  · intro notFirst
    exact absurd notFirst (by decide)
  · intro _ third
    exact absurd third (by decide)

-- AUIPC x1, 0x80000 and ADDIW x1, x1, -1.
def auipcAddiwX1 : Window := decodedWindow [0x80000097, 0xFFF0809B]

def cleared : ArchState Unit := ⟨fun _ => 0, (), none, false⟩

/-- The fused operation leaves the 64-bit sum in x1, the two instructions the narrowed one. -/
theorem fused_auipc_addiw_differs :
    auipcAddiwX1.FromDecode ∧
      (∀ j, j < auipcAddiwX1.count → (auipcAddiwX1.slot j).hasException = false) ∧
      (runUops (fun _ r => r) auipcAddiwX1.outputs cleared).regs 1 = 0xFFFFFFFF7FFFFFFF#64 ∧
      (runUops (fun _ r => r) auipcAddiwX1.inputs cleared).regs 1 = 0x7FFFFFFF#64 ∧
      ¬auipcAddiwX1.FusionRight := by
  have fused : (runUops (fun _ r => r) auipcAddiwX1.outputs cleared).regs 1 =
      0xFFFFFFFF7FFFFFFF#64 := by decide +kernel
  have pair : (runUops (fun _ r => r) auipcAddiwX1.inputs cleared).regs 1 = 0x7FFFFFFF#64 := by
    decide +kernel
  refine ⟨fromDecode_decodedWindow _ (by decide), by decide, fused, pair, fun right => ?_⟩
  rw [right.window Unit (fun _ r => r) cleared, pair] at fused
  exact absurd fused (by decide)

end Window

end Rv64gc.Decode
