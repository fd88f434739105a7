import Rv64gc.Decode.Recognition
import Rv64gc.Decode.IntegerOps
import Rv64gc.Hdl.Bits

/-!
# Decoding integer computation

The opcodes whose instructions the ALU, the multiplier and the divider carry out. One encoding is
missed: SLLI.UW with an amount of 32 and more.
-/

namespace Rv64gc.Decode

open Fields Execute

variable {insn : BitVec 32} {pc : Word} {isRvc : Bool} {d : DecodedInsn}

/-- The micro-operation of an integer operation with an immediate for its second operand. -/
def immUop (d : DecodedInsn) (o : IntOp) (imm : Word) : DecodedInsn :=
  { d with
    rs1Valid := true, rdValid := true, imm := imm, useImm := true
    aluOp := o.aluOp, isWOp := o.onWords, isUnsigned := o.unsignedWord }

def regUop (d : DecodedInsn) (o : IntOp) : DecodedInsn :=
  { d with
    rs1Valid := true, rs2Valid := true, rdValid := true
    aluOp := o.aluOp, isWOp := o.onWords, isUnsigned := o.unsignedWord }

theorem srcValue_xreg (regs : Regs) (r : ArchReg) : srcValue regs true r = xreg regs r := by
  unfold srcValue xreg
  by_cases zero : r = 0 <;> simp [zero]

theorem aluOp_ne_pass2 (o : IntOp) : (o.aluOp == AluOp.pass2) = false := by cases o <;> rfl

/-- The ALU may see another immediate than the operation, where that makes no difference. -/
theorem right_imm {o : IntOp} {imm b : Word}
    (shape : ∃ r, d = immUop { defaults insn pc isRvc with rs2Arch := r } o imm)
    (same : ∀ a, o.value a imm = o.value a b) (mask : o = .zexth → imm = 0xFFFF#64) :
    Right (suppressRd insn d) (some (Insn.regImm insn b o)) := by
  obtain ⟨r, rfl⟩ := shape
  have value (regs : Regs) :
      aluResult (immUop { defaults insn pc isRvc with rs2Arch := r } o imm) regs =
        o.value (xreg regs (rs1 insn)) b := by
    have computed := IntOp.alu_value o
      (aluIn (immUop { defaults insn pc isRvc with rs2Arch := r } o imm) regs) rfl rfl mask
    refine computed.trans ?_
    simp only [aluIn, immUop, aluOp_ne_pass2, Bool.and_false, Bool.false_eq_true, if_false, if_true]
    exact (congrArg (o.value · imm) (srcValue_xreg regs _)).trans (same _)
  exact Meant.means ⟨rfl, rfl, rfl, fun f => by simp [sources, operand, immUop, defaults], value⟩

theorem right_reg {o : IntOp} (notZext : o ≠ .zexth)
    (shape : d = regUop (defaults insn pc isRvc) o) :
    Right (suppressRd insn d) (some (Insn.regReg insn o)) := by
  subst shape
  have value (regs : Regs) : aluResult (regUop (defaults insn pc isRvc) o) regs =
      o.value (xreg regs (rs1 insn)) (xreg regs (rs2 insn)) := by
    have computed := IntOp.alu_value o (aluIn (regUop (defaults insn pc isRvc) o) regs) rfl rfl
      (fun zext => absurd zext notZext)
    refine computed.trans ?_
    exact congrArg₂ (o.value · ·) (srcValue_xreg regs _) (srcValue_xreg regs _)
  exact Meant.means ⟨rfl, rfl, rfl, fun f => by simp [sources, operand, regUop, defaults], value⟩

theorem f3_cases : ∀ f3 : BitVec 3,
    f3 = 0 ∨ f3 = 1 ∨ f3 = 2 ∨ f3 = 3 ∨ f3 = 4 ∨ f3 = 5 ∨ f3 = 6 ∨ f3 = 7 := by
  decide

theorem funct12_join (insn : BitVec 32) : funct12 insn = funct7 insn ++ rs2 insn := by
  unfold funct12 funct7 rs2
  exact (BitVec.extractLsb'_append_extractLsb'_eq_extractLsb' (show 25 = 20 + 5 from rfl)).symm

theorem funct12_iff {a : BitVec 7} {b : BitVec 5} :
    funct12 insn = a ++ b ↔ funct7 insn = a ∧ rs2 insn = b := by
  rw [funct12_join]
  constructor
  · intro eq
    have left := congrArg (BitVec.extractLsb' 5 7) eq
    have right := congrArg (BitVec.extractLsb' 0 5) eq
    rw [BitVec.extractLsb'_append_eq_left, BitVec.extractLsb'_append_eq_left] at left
    rw [BitVec.extractLsb'_append_eq_right, BitVec.extractLsb'_append_eq_right] at right
    exact ⟨left, right⟩
  · rintro ⟨rfl, rfl⟩
    rfl

theorem funct6_hi6 (insn : BitVec 32) : funct6 insn = hi6 (funct7 insn) := by
  refine BitVec.eq_of_getLsbD_eq fun k hk => ?_
  simp only [hi6, funct6, funct7, BitVec.getLsbD_extractLsb']
  grind

/-- The upper bits of the immediate do not reach the shift amount. -/
theorem immI_shamt (insn : BitVec 32) :
    (immI insn).toNat % 64 = (Insn.shamt insn).toNat % 64 := by
  have low : (immI insn).setWidth 6 = (Insn.shamt insn).setWidth 6 := by
    refine BitVec.eq_of_getLsbD_eq fun k hk => ?_
    simp only [immI, Insn.shamt, BitVec.getLsbD_setWidth, BitVec.getLsbD_signExtend,
      BitVec.getLsbD_extractLsb']
    grind
  simpa [BitVec.toNat_setWidth] using congrArg BitVec.toNat low

theorem immI_shamtw (insn : BitVec 32) :
    (immI insn).toNat % 32 = (Insn.shamtw insn).toNat % 32 := by
  have low : (immI insn).setWidth 5 = (Insn.shamtw insn).setWidth 5 := by
    refine BitVec.eq_of_getLsbD_eq fun k hk => ?_
    simp only [immI, Insn.shamtw, rs2, BitVec.getLsbD_setWidth, BitVec.getLsbD_signExtend,
      BitVec.getLsbD_extractLsb']
    grind
  simpa [BitVec.toNat_setWidth] using congrArg BitVec.toNat low

theorem value_shamt (o : IntOp) (shift : o.amountBits = some 6) (a : Word) :
    o.value a (immI insn) = o.value a (Insn.shamt insn) := by
  cases o <;> first | (cases shift; done) | simp only [IntOp.value, immI_shamt]

theorem value_shamtw (o : IntOp) (shift : o.amountBits = some 5) (a : Word) :
    o.value a (immI insn) = o.value a (Insn.shamtw insn) := by
  cases o <;> first | (cases shift; done) | simp only [IntOp.value, immI_shamtw]

theorem right_lui : Right (suppressRd insn (decodeLui insn (defaults insn pc isRvc)))
    (some (.compute (rd insn) fun _ _ => immU insn)) :=
  Meant.means ⟨rfl, rfl, rfl, fun f => by simp [sources, operand, decodeLui, defaults],
    fun _ => rfl⟩

theorem right_auipc : Right (suppressRd insn (decodeAuipc insn (defaults insn pc isRvc)))
    (some (.compute (rd insn) fun _ pc => pc + immU insn)) :=
  Meant.means ⟨rfl, rfl, rfl, fun f => by simp [sources, operand, decodeAuipc, defaults],
    fun _ => rfl⟩

theorem right_opImm : Right (suppressRd insn (decodeOpImm insn (defaults insn pc isRvc)))
    (Insn.ofOpImm insn) := by
  unfold decodeOpImm Insn.ofOpImm
  extract_lets e op
  have imm (o : IntOp) (b : Word) (wide : o.onWords = false) (signed : o.unsignedWord = false)
      (same : ∀ a, o.value a (immI insn) = o.value a b) :
      Right (suppressRd insn (op o.aluOp)) (some (Insn.regImm insn b o)) := by
    refine @right_imm insn pc isRvc _ _ _ _ ⟨rs2 insn, ?_⟩ same fun zext => ?_
    · simp only [immUop, wide, signed]
      rfl
    · rw [zext] at wide
      cases wide
  have rev8 : Right (suppressRd insn { e with aluOp := .rev8, rs2Arch := 0 })
      (some (Insn.regImm insn 0 .rev8)) := right_imm ⟨0, rfl⟩ (fun _ => rfl) nofun
  have orcb : Right (suppressRd insn { e with aluOp := .orcb, rs2Arch := 0 })
      (some (Insn.regImm insn 0 .orcb)) := right_imm ⟨0, rfl⟩ (fun _ => rfl) nofun
  have bad := right_illegal insn e
  clear_value op
  generalize ({ e with aluOp := .rev8, rs2Arch := 0 } : DecodedInsn) = e1 at *
  generalize ({ e with aluOp := .orcb, rs2Arch := 0 } : DecodedInsn) = e2 at *
  clear_value e
  rcases f3_cases (funct3 insn) with f3 | f3 | f3 | f3 | f3 | f3 | f3 | f3 <;> rw [f3]
  · exact imm .add _ rfl rfl fun _ => rfl
  · -- Left shifts, bit operations and the counts.
    simp +decide only [if_true, if_false]
    split_ifs with sll clz ctz cpop sextb sexth bset bclr binv
    · rw [sll]
      exact imm .sll _ rfl rfl (value_shamt _ rfl)
    · rw [funct6_hi6, clz.1, funct12_iff.mpr clz]
      exact imm .clz _ rfl rfl fun _ => rfl
    · rw [funct6_hi6, ctz.1, funct12_iff.mpr ctz]
      exact imm .ctz _ rfl rfl fun _ => rfl
    · rw [funct6_hi6, cpop.1, funct12_iff.mpr cpop]
      exact imm .cpop _ rfl rfl fun _ => rfl
    · rw [funct6_hi6, sextb.1, funct12_iff.mpr sextb]
      exact imm .sextb _ rfl rfl fun _ => rfl
    · rw [funct6_hi6, sexth.1, funct12_iff.mpr sexth]
      exact imm .sexth _ rfl rfl fun _ => rfl
    · rw [bset]
      exact imm .bset _ rfl rfl (value_shamt _ rfl)
    · rw [bclr]
      exact imm .bclr _ rfl rfl (value_shamt _ rfl)
    · rw [binv]
      exact imm .binv _ rfl rfl (value_shamt _ rfl)
    · rw [← funct12_iff] at clz ctz cpop sextb sexth
      have none6 : [(0b000000#6, IntOp.sll), (0b001010, .bset), (0b010010, .bclr),
          (0b011010, .binv)].lookup (funct6 insn) = none := by
        simp only [List.lookup_eq_none_iff, List.forall_mem_cons, bne_iff_ne]
        exact ⟨sll, bset, bclr, binv, List.forall_mem_nil _⟩
      have none12 : [(0x600#12, IntOp.clz), (0x601, .ctz), (0x602, .cpop), (0x604, .sextb),
          (0x605, .sexth)].lookup (funct12 insn) = none := by
        simp only [List.lookup_eq_none_iff, List.forall_mem_cons, bne_iff_ne]
        exact ⟨clz, ctz, cpop, sextb, sexth, List.forall_mem_nil _⟩
      rw [none6, none12]
      exact bad
  · exact imm .slt _ rfl rfl fun _ => rfl
  · exact imm .sltu _ rfl rfl fun _ => rfl
  · exact imm .xor _ rfl rfl fun _ => rfl
  · -- Right shifts, BEXT and the byte operations.
    simp +decide only [if_true, if_false]
    split_ifs with rev orc srl sra ror bext
    · have split := funct12_iff (a := 0b0110101) (b := 0b11000) |>.mp rev
      rw [funct6_hi6, split.1, rev]
      exact rev8
    · have split := funct12_iff (a := 0b0010100) (b := 0b00111) |>.mp orc
      rw [funct6_hi6, split.1, orc]
      exact orcb
    · rw [srl]
      exact imm .srl _ rfl rfl (value_shamt _ rfl)
    · rw [sra]
      exact imm .sra _ rfl rfl (value_shamt _ rfl)
    · rw [ror]
      exact imm .ror _ rfl rfl (value_shamt _ rfl)
    · rw [bext]
      exact imm .bext _ rfl rfl (value_shamt _ rfl)
    · have none6 : [(0b000000#6, IntOp.srl), (0b010000, .sra), (0b011000, .ror),
          (0b010010, .bext)].lookup (funct6 insn) = none := by
        simp only [List.lookup_eq_none_iff, List.forall_mem_cons, bne_iff_ne]
        exact ⟨srl, sra, ror, bext, List.forall_mem_nil _⟩
      have none12 : [(0x287#12, IntOp.orcb), (0x6B8, .rev8)].lookup (funct12 insn) = none := by
        simp only [List.lookup_eq_none_iff, List.forall_mem_cons, bne_iff_ne]
        exact ⟨orc, rev, List.forall_mem_nil _⟩
      rw [none6, none12]
      exact bad
  · exact imm .or _ rfl rfl fun _ => rfl
  · exact imm .and _ rfl rfl fun _ => rfl

theorem hi6_slliuw :
    ∀ f7 : BitVec 7, hi6 f7 = 0b000010#6 → f7 = f7Slliuw ∨ f7 = 0b0000101#7 :=
  Hdl.forall_bits (by decide +kernel)

/-- SLLI.UW is only recognised with an amount below 32. -/
theorem right_opImm32 (small : ¬(funct3 insn = f3Sll ∧ funct7 insn = 0b0000101#7)) :
    Right (suppressRd insn (decodeOpImm32 insn (defaults insn pc isRvc)))
      (Insn.ofOpImm32 insn) := by
  unfold decodeOpImm32 Insn.ofOpImm32
  extract_lets e op
  have imm (o : IntOp) (b : Word) (narrow : o.onWords = true) (signed : o.unsignedWord = false)
      (notZext : o ≠ .zexth) (same : ∀ a, o.value a (immI insn) = o.value a b) :
      Right (suppressRd insn (op o.aluOp)) (some (Insn.regImm insn b o)) := by
    refine @right_imm insn pc isRvc _ _ _ _ ⟨rs2 insn, ?_⟩ same fun zext => absurd zext notZext
    simp only [immUop, narrow, signed]
    rfl
  have slliUw : Right (suppressRd insn { e with aluOp := .sll, isUnsigned := true })
      (some (Insn.regImm insn (Insn.shamt insn) .slliUw)) :=
    right_imm ⟨rs2 insn, rfl⟩ (value_shamt _ rfl) nofun
  have bad := right_illegal insn e
  clear_value op
  generalize ({ e with aluOp := .sll, isUnsigned := true } : DecodedInsn) = e1 at *
  clear_value e
  rcases f3_cases (funct3 insn) with f3 | f3 | f3 | f3 | f3 | f3 | f3 | f3 <;>
    rw [f3] at small ⊢
  · exact imm .addw _ rfl rfl nofun fun _ => rfl
  · simp +decide only [if_true, if_false] at small ⊢
    by_cases sllw : funct7 insn = f7Normal
    · rw [if_pos sllw, if_pos sllw]
      exact imm .sllw _ rfl rfl nofun (value_shamtw _ rfl)
    rw [if_neg sllw, if_neg sllw]
    by_cases six : funct6 insn = 0b000010#6
    · have uw := (hi6_slliuw _ (funct6_hi6 insn ▸ six)).resolve_right
        fun f7 => small ⟨trivial, f7⟩
      rw [if_pos six, uw]
      exact slliUw
    rw [if_neg six]
    split_ifs with clz ctz cpop uw
    · rw [funct12_iff.mpr clz]
      exact imm .clzw _ rfl rfl nofun fun _ => rfl
    · rw [funct12_iff.mpr ctz]
      exact imm .ctzw _ rfl rfl nofun fun _ => rfl
    · rw [funct12_iff.mpr cpop]
      exact imm .cpopw _ rfl rfl nofun fun _ => rfl
    · rw [funct6_hi6, uw] at six
      exact absurd rfl six
    · rw [← funct12_iff] at clz ctz cpop
      have none12 : [(0x600#12, IntOp.clzw), (0x601, .ctzw), (0x602, .cpopw)].lookup
          (funct12 insn) = none := by
        simp only [List.lookup_eq_none_iff, List.forall_mem_cons, bne_iff_ne]
        exact ⟨clz, ctz, cpop, List.forall_mem_nil _⟩
      rw [none12]
      exact bad
  · exact bad
  · exact bad
  · exact bad
  · simp +decide only [if_true, if_false]
    split_ifs with srlw sraw rorw
    · rw [srlw]
      exact imm .srlw _ rfl rfl nofun (value_shamtw _ rfl)
    · rw [sraw]
      exact imm .sraw _ rfl rfl nofun (value_shamtw _ rfl)
    · rw [rorw]
      exact imm .rorw _ rfl rfl nofun (value_shamtw _ rfl)
    · have none7 : [(0b0000000#7, IntOp.srlw), (0b0100000, .sraw), (0b0110000, .rorw)].lookup
          (funct7 insn) = none := by
        simp only [List.lookup_eq_none_iff, List.forall_mem_cons, bne_iff_ne]
        exact ⟨srlw, sraw, rorw, List.forall_mem_nil _⟩
      rw [none7]
      exact bad
  · exact bad
  · exact bad

/-- Multiplication and division: funct3 selects the operation. -/
theorem right_mul (shape : d = { defaults insn pc isRvc with
      rs1Valid := true, rs2Valid := true, rdValid := true, isWOp := narrow
      fuType := .mul, isMul := true, mulOp := o }) :
    Right (suppressRd insn d) (some (.mul o narrow (rd insn) (rs1 insn) (rs2 insn))) := by
  subst shape
  exact Meant.means ⟨rfl, rfl, rfl, rfl, rfl, rfl, rfl⟩

theorem right_div (shape : d = { defaults insn pc isRvc with
      rs1Valid := true, rs2Valid := true, rdValid := true, isWOp := narrow
      fuType := .div, isDiv := true, divOp := o }) :
    Right (suppressRd insn d) (some (.div o narrow (rd insn) (rs1 insn) (rs2 insn))) := by
  subst shape
  exact Meant.means ⟨rfl, rfl, rfl, rfl, rfl, rfl, rfl⟩

theorem right_muldiv :
    Right (suppressRd insn (decodeMuldiv insn { defaults insn pc isRvc with
      rs1Valid := true, rs2Valid := true, rdValid := true })) (Insn.ofMuldiv insn false) := by
  unfold decodeMuldiv Insn.ofMuldiv
  rcases f3_cases (funct3 insn) with f3 | f3 | f3 | f3 | f3 | f3 | f3 | f3 <;> rw [f3]
  · exact right_mul rfl
  · exact right_mul rfl
  · exact right_mul rfl
  · exact right_mul rfl
  · exact right_div rfl
  · exact right_div rfl
  · exact right_div rfl
  · exact right_div rfl

/-- The values of funct7 that the integer operations on registers have. -/
def opFunct7s : List (BitVec 7) :=
  [f7Normal, f7SubSra, f7Zba, f7ZbbMinmax, f7ZbbRot, f7ZbsBset, f7ZbsBclrBext, f7ZbsBinv, f7Zicond]

theorem opOps_none : ∀ f7 f3, f7 ∉ opFunct7s → Insn.opOps.lookup (f7, f3) = none := by
  have all : ∀ f7, f7 ∉ opFunct7s → ∀ row ∈ Insn.opOps, f7 ≠ row.1.1 :=
    Hdl.forall_bits (by decide +kernel)
  intro f7 f3 unused
  rw [List.lookup_eq_none_iff]
  intro row mem
  have other := all f7 unused row mem
  simpa [Prod.ext_iff] using fun same => absurd same other

theorem right_op : Right (suppressRd insn (decodeOp insn (defaults insn pc isRvc)))
    (Insn.ofOp insn) := by
  unfold decodeOp Insn.ofOp
  extract_lets e alu op either only
  have reg (o : IntOp) (a : AluOp) (same : o.aluOp = a) (wide : o.onWords = false)
      (signed : o.unsignedWord = false) :
      Right (suppressRd insn (op a)) (some (Insn.regReg insn o)) := by
    refine @right_reg insn pc isRvc _ _ (fun zext => by rw [zext] at wide; cases wide) ?_
    simp only [regUop, same, wide, signed]
    rfl
  have muldiv : Right (suppressRd insn (decodeMuldiv insn e)) (Insn.ofMuldiv insn false) :=
    right_muldiv
  have bad := right_illegal insn alu
  clear_value op
  clear_value alu
  clear_value e
  by_cases md : funct7 insn = f7Muldiv
  · rw [if_pos md, if_pos md]
    exact muldiv
  rw [if_neg md, if_neg md]
  by_cases used : funct7 insn ∈ opFunct7s
  · simp only [opFunct7s, List.mem_cons, List.not_mem_nil, or_false] at used
    rcases used with f7 | f7 | f7 | f7 | f7 | f7 | f7 | f7 | f7 <;>
      rcases f3_cases (funct3 insn) with f3 | f3 | f3 | f3 | f3 | f3 | f3 | f3 <;>
      simp only [either, only, f7, f3] <;> first | exact bad | (refine reg _ _ ?_ ?_ ?_ <;> rfl)
  · rw [opOps_none _ _ used]
    simp only [opFunct7s, List.mem_cons, List.not_mem_nil, or_false, not_or] at used
    obtain ⟨normal, subSra, zba, minmax, rot, bset, bclrBext, binv, zicond⟩ := used
    simp only [either, only, normal, subSra, zba, minmax, rot, bset, bclrBext, binv, zicond,
      if_false, ite_self]
    exact bad

def op32Funct7s : List (BitVec 7) := [f7Normal, f7SubSra, f7ZbaUw, f7Zba, f7ZbbRot]

theorem op32Ops_none : ∀ f7 f3, f7 ∉ op32Funct7s → Insn.op32Ops.lookup (f7, f3) = none := by
  have all : ∀ f7, f7 ∉ op32Funct7s → ∀ row ∈ Insn.op32Ops, f7 ≠ row.1.1 :=
    Hdl.forall_bits (by decide +kernel)
  intro f7 f3 unused
  rw [List.lookup_eq_none_iff]
  intro row mem
  have other := all f7 unused row mem
  simpa [Prod.ext_iff] using fun same => absurd same other

theorem right_op32 : Right (suppressRd insn (decodeOp32 insn (defaults insn pc isRvc)))
    (Insn.ofOp32 insn) := by
  unfold decodeOp32 Insn.ofOp32
  extract_lets e alu op div uw
  have reg (o : IntOp) (a : AluOp) (same : o.aluOp = a) (narrow : o.onWords = true)
      (signed : o.unsignedWord = false) (notZext : o ≠ .zexth) :
      Right (suppressRd insn (op a)) (some (Insn.regReg insn o)) := by
    refine @right_reg insn pc isRvc _ _ notZext ?_
    simp only [regUop, same, narrow, signed]
    rfl
  have unsigned (o : IntOp) (a : AluOp) (same : o.aluOp = a) (uns : o.unsignedWord = true)
      (notZext : o ≠ .zexth) :
      Right (suppressRd insn { uw with aluOp := a }) (some (Insn.regReg insn o)) := by
    have narrow : o.onWords = true := by cases o <;> first | rfl | cases uns
    refine @right_reg insn pc isRvc _ _ notZext ?_
    simp only [regUop, same, narrow, uns]
    rfl
  have zexth : Right (suppressRd insn { alu with
      aluOp := .and, rs2Valid := false, isUnsigned := false, imm := 0xFFFF#64, useImm := true })
      (some (Insn.regImm insn 0 .zexth)) :=
    right_imm ⟨rs2 insn, rfl⟩ (fun _ => rfl) fun _ => rfl
  have bad := right_illegal insn alu
  have badUw := right_illegal insn uw
  have badE := right_illegal insn e
  have mul : Right (suppressRd insn { e with fuType := .mul, isMul := true, mulOp := .mul })
      (some (.mul .mul true (rd insn) (rs1 insn) (rs2 insn))) := right_mul rfl
  have divs (o : DivOp) :
      Right (suppressRd insn (div o)) (some (.div o true (rd insn) (rs1 insn) (rs2 insn))) :=
    right_div rfl
  by_cases md : funct7 insn = f7Muldiv
  · rw [if_pos md, if_pos md]
    clear_value div
    generalize ({ e with fuType := .mul, isMul := true, mulOp := .mul } : DecodedInsn) = e1 at *
    unfold Insn.ofMuldiv
    rcases f3_cases (funct3 insn) with f3 | f3 | f3 | f3 | f3 | f3 | f3 | f3 <;> rw [f3] <;>
      first | exact badE | exact mul | exact divs _
  rw [if_neg md, if_neg md]
  generalize ({ alu with
    aluOp := .and, rs2Valid := false, isUnsigned := false, imm := 0xFFFF#64
    useImm := true } : DecodedInsn) = zext at *
  by_cases half : funct7 insn = f7Zexth ∧ funct3 insn = f3Zexth
  · rw [if_pos half]
    by_cases none2 : rs2 insn = 0
    · rw [if_pos ⟨half.1, half.2, none2⟩, if_pos none2]
      exact zexth
    · rw [if_neg fun all => none2 all.2.2, if_neg none2, half.1, half.2]
      exact badUw
  rw [if_neg half, if_neg fun all => half ⟨all.1, all.2.1⟩]
  clear_value op
  clear_value uw
  clear_value alu
  by_cases used : funct7 insn ∈ op32Funct7s
  · simp only [op32Funct7s, List.mem_cons, List.not_mem_nil, or_false] at used
    rcases used with f7 | f7 | f7 | f7 | f7 <;>
      rcases f3_cases (funct3 insn) with f3 | f3 | f3 | f3 | f3 | f3 | f3 | f3 <;>
      rw [f7, f3] <;>
      first
        | exact bad
        | exact badUw
        | (refine reg _ _ ?_ ?_ ?_ nofun <;> rfl)
        | (refine unsigned _ _ ?_ ?_ nofun <;> rfl)
  · rw [op32Ops_none _ _ used]
    simp only [op32Funct7s, List.mem_cons, List.not_mem_nil, or_false, not_or] at used
    obtain ⟨normal, subSra, zbaUw, zba, rot⟩ := used
    simp only [normal, subSra, zbaUw, zba, rot, if_false, ite_self]
    exact bad

end Rv64gc.Decode
