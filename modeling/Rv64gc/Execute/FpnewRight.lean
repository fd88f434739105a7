import Rv64gc.Decode.FpDecode
import Rv64gc.Execute.Fpnew

/-!
# What FPnew answers

Where nothing is rounded the answer is the one the F and D extensions ask for, for every instruction
of that kind and for all register contents. FPnew finds the two zeros equal, which `fpu_misc` does
not.
-/

namespace Rv64gc.Execute

open Hdl Fpnew

-- ---------------------------------------------------------------------
-- Operands
-- ---------------------------------------------------------------------

section Operands

variable {F : FloatFormat}

/-- The classifier sees `raw` as `x`. -/
structure Reads (info : FpnewInfo) (raw x : F.Word) : Prop where
  nan : info.isNan = x.isNan
  signalling : info.isSignalling = snan x
  zero : info.isZero = true ↔ x.low = 0#_
  number : x.isNan = false → raw = x
  base : (if info.isBoxed then raw else quietNan F) = x
  sign : (raw.sign && info.isBoxed) = x.sign
  mask : classMaskBit raw info = classBit x

theorem low_zero (x : F.Word) : x.low = 0#_ ↔ x.exponent = 0#_ ∧ x.fraction = 0#_ := by
  have zero := FloatFormat.Word.zero_iff x
  rw [← BitVec.toNat_inj]
  exact zero.symm

theorem classMaskBit_boxed (x : F.Word) : classMaskBit x (classifyInput x true) = classBit x := by
  have wide : F.expBits ≠ 0 := by have more := F.expBits_gt; omega
  by_cases frac : x.fraction = 0#_
  · by_cases zero : x.exponent = 0#_
    · simp [classMaskBit, classifyInput, classBit, zero, frac, wide]
    · by_cases ones : x.exponent = BitVec.allOnes _
      · simp [classMaskBit, classifyInput, classBit, ones, frac, wide]
      · simp [classMaskBit, classifyInput, classBit, zero, ones]
  · by_cases zero : x.exponent = 0#_
    · simp [classMaskBit, classifyInput, classBit, zero, frac, wide]
    · by_cases ones : x.exponent = BitVec.allOnes _
      · cases q : x.fraction.msb <;>
          simp [classMaskBit, classifyInput, classBit, FloatFormat.Word.quiet, ones, frac, q, wide]
      · simp [classMaskBit, classifyInput, classBit, zero, ones]

theorem reads_boxed (x : F.Word) : Reads (classifyInput x true) x x where
  nan := by simp [classifyInput, FloatFormat.Word.isNan, Bool.beq_eq_decide_eq]
  signalling := by
    simp [classifyInput, snan, FloatFormat.Word.isNan, FloatFormat.Word.quiet, Bool.beq_eq_decide_eq]
  zero := by simp [classifyInput, low_zero]
  number := fun _ => rfl
  base := rfl
  sign := by simp [classifyInput]
  mask := classMaskBit_boxed x

/-- The canonical NaN is a quiet one, as in both formats of the core. -/
theorem reads_unboxed (raw : F.Word) (nan : (canonicalNan F).isNan = true)
    (quiet : (canonicalNan F).quiet = true) :
    Reads (classifyInput raw false) raw (canonicalNan F) where
  nan := nan.symm
  signalling := by simp [classifyInput, snan, quiet]
  zero := by
    have some_ : ¬ (canonicalNan F).low = 0#_ := fun zero => by
      rw [number_of_low zero] at nan
      cases nan
    simp [classifyInput, some_]
  number := fun number => by rw [number] at nan; cases nan
  base := rfl
  sign := by
    simp [classifyInput, canonicalNan, FloatFormat.Word.sign, FloatFormat.Word.signed,
      BitVec.msb_append]
  mask := by
    have parts : (canonicalNan F).exponent = BitVec.allOnes _ ∧ (canonicalNan F).fraction ≠ 0#_ := by
      simpa [FloatFormat.Word.isNan] using nan
    simp [classMaskBit, classifyInput, classBit, parts.1, parts.2, quiet]

end Operands

-- ---------------------------------------------------------------------
-- Order
-- ---------------------------------------------------------------------

section Order

variable {F : FloatFormat} {a b x y : F.Word} {infoA infoB : FpnewInfo}

/-- Two different words compare as their keys do. -/
theorem operandASmaller_iff (apart : a ≠ b) :
    operandASmaller a b = true ↔ a.orderKey < b.orderKey := by
  have lows : a.sign = b.sign → a.low.toNat ≠ b.low.toNat := fun signs low =>
    apart (FloatFormat.Word.ext_iff.2 ⟨signs, BitVec.eq_of_toNat_eq low⟩)
  have bound := a.low.isLt
  have bound' := b.low.isLt
  have order : decide (a < b) = decide (a.toNat < b.toNat) := rfl
  rw [operandASmaller, order, BitVec.lt_def, FloatFormat.Word.toNat_eq a,
    FloatFormat.Word.toNat_eq b, FloatFormat.Word.orderKey_toNat, FloatFormat.Word.orderKey_toNat]
  cases s : a.sign <;> cases s' : b.sign <;> rw [s, s'] at lows <;> simp at lows ⊢ <;> omega

theorem operandASmaller_le (apart : a ≠ b) :
    operandASmaller a b = true ↔ a.orderKey ≤ b.orderKey := by
  have turned : operandASmaller b a = !operandASmaller a b := by
    have values : a.toNat ≠ b.toNat := fun same => apart (BitVec.eq_of_toNat_eq same)
    have order : decide (b < a) = !decide (a < b) := by
      rw [← decide_not, decide_eq_decide, BitVec.lt_def, BitVec.lt_def]
      omega
    rw [operandASmaller, operandASmaller, order, Bool.not_xor, Bool.or_comm]
  rw [← BitVec.not_lt, ← operandASmaller_iff apart.symm, turned]
  simp

/-- Equal, or the two zeros. -/
theorem operandsEqual_iff (ra : Reads infoA a a) (rb : Reads infoB b b) (ha : a.isNan = false)
    (hb : b.isNan = false) : operandsEqual a b infoA infoB = true ↔ a.value = b.value := by
  rw [operandsEqual, Bool.or_eq_true, Bool.and_eq_true, beq_iff_eq, ra.zero, rb.zero]
  exact (FloatFormat.Word.value_inj ha hb).symm

theorem lt_of_smaller (ha : a.isNan = false) (hb : b.isNan = false) (differ : a.value ≠ b.value) :
    operandASmaller a b = true ↔ a.value < b.value := by
  rw [operandASmaller_iff fun same => differ (congrArg _ same), FloatFormat.Word.orderKey_lt ha hb]
  exact or_iff_left fun same => differ same.1

end Order

-- ---------------------------------------------------------------------
-- The operations
-- ---------------------------------------------------------------------

section Answers

variable {F : FloatFormat} {a b x y : F.Word} {infoA infoB : FpnewInfo}

/-- `fpnew_rm` of the operations that round nothing -/
def miscRm : FpuMiscOp → BitVec 3
  | .sgnj | .min | .le | .cls => rne
  | .sgnjn | .max | .lt => rtz
  | .sgnjx | .eq => rdn

def miscKind : FpuMiscOp → FpuOp
  | .sgnj | .sgnjn | .sgnjx => .sgnj
  | .min | .max => .minmax
  | .eq | .lt | .le => .cmp
  | .cls => .classify

def miscFpnewOp : FpuMiscOp → FpnewOp
  | .sgnj | .sgnjn | .sgnjx => .sgnj
  | .min | .max => .minmax
  | .eq | .lt | .le => .cmp
  | .cls => .classify

theorem sgnjResult_right (ra : Reads infoA a x) (rb : Reads infoB b y)
    (kind : m = .sgnj ∨ m = .sgnjn ∨ m = .sgnjx) :
    sgnjResult a b infoA infoB (miscRm m) = rvFloat m x y := by
  have base : (if infoA.isBoxed then a else quietNan F) = x := ra.base
  unfold sgnjResult
  simp only [base, ra.sign, rb.sign]
  rcases kind with rfl | rfl | rfl <;> rfl

theorem minmaxResult_right (ra : Reads infoA a x) (rb : Reads infoB b y)
    (kind : m = .min ∨ m = .max) :
    minmaxResult a b infoA infoB (miscRm m) = rvFloat m x y := by
  rw [← floatResult_eq, minmaxResult, ra.nan, rb.nan]
  cases hx : x.isNan with
  | true =>
    cases hy : y.isNan with
    | true => rcases kind with rfl | rfl <;> simp [floatResult, hx, hy] <;> rfl
    | false => rcases kind with rfl | rfl <;> simp [floatResult, hx, hy, rb.number hy]
  | false =>
    cases hy : y.isNan with
    | true => rcases kind with rfl | rfl <;> simp [floatResult, hx, hy, ra.number hx]
    | false =>
      obtain rfl := ra.number hx
      obtain rfl := rb.number hy
      by_cases same : a = b
      · subst same
        rcases kind with rfl | rfl <;> simp [floatResult, hx, miscRm]
      · have le := operandASmaller_le same
        have lt := operandASmaller_iff same
        rcases kind with rfl | rfl
        · simp [floatResult, hx, hy, miscRm, le]
        · simp only [floatResult, hx, hy, miscRm, lt, ge_iff_le, ← BitVec.not_lt, ite_not]
          simp

theorem sliceResult_flag (p : Bool) :
    sliceResult (F := F) false ((BitVec.ofBool p).setWidth _) = (BitVec.ofBool p).setWidth 64 := by
  have positive : (BitVec.ofBool false ++ (BitVec.ofBool p).setWidth (1 + (F.expBits + F.fracBits))).msb
      = false := by
    simp [BitVec.msb_append]
  rw [sliceResult, BitVec.signExtend_eq_setWidth_of_msb_false positive]
  apply BitVec.eq_of_toNat_eq
  cases p <;> simp

/-- A comparison that finds a NaN does not hold, and only `flt` and `fle` signal a quiet one. -/
theorem cmpResult_nan (ra : Reads infoA a x) (rb : Reads infoB b y)
    (kind : m = .eq ∨ m = .lt ∨ m = .le) (nan : (x.isNan || y.isNan) = true) :
    cmpResult a b infoA infoB (miscRm m) false =
      ((BitVec.ofBool false).setWidth _, rvInvalid m x y) := by
  unfold cmpResult
  simp only [ra.nan, rb.nan, ra.signalling, rb.signalling, nan]
  rcases kind with rfl | rfl | rfl <;> cases sx : snan x <;> cases sy : snan y <;>
    simp_all [miscRm, rvInvalid, snan]

theorem cmpResult_number (ra : Reads infoA a a) (rb : Reads infoB b b)
    (kind : m = .eq ∨ m = .lt ∨ m = .le) (ha : a.isNan = false) (hb : b.isNan = false) :
    (sliceResult false (cmpResult a b infoA infoB (miscRm m) false).1,
        (cmpResult a b infoA infoB (miscRm m) false).2) =
      (rvInt m a b, rvInvalid m a b) := by
  have quiet : snan a = false ∧ snan b = false := by simp [snan, ha, hb]
  have equal := operandsEqual_iff ra rb ha hb
  have smaller := lt_of_smaller ha hb
  unfold cmpResult
  simp only [ra.nan, rb.nan, ra.signalling, rb.signalling, quiet, ha, hb]
  rcases kind with rfl | rfl | rfl <;> refine Prod.ext ?_ (by simp [miscRm, rvInvalid, ha, hb])
  · simp only [miscRm, rvInt, ha, hb]
    simpa [sliceResult_flag] using (flag_eq_iff _ _).2 equal
  · have less : (operandASmaller a b && !operandsEqual a b infoA infoB) = true ↔
        a.value < b.value := by
      rw [Bool.and_eq_true, Bool.not_eq_true', ← Bool.not_eq_true, equal]
      constructor
      · exact fun both => (smaller both.2).1 both.1
      · exact fun less => ⟨(smaller less.ne).2 less, less.ne⟩
    simp only [miscRm, rvInt, ha, hb]
    simpa [sliceResult_flag] using (flag_eq_iff _ _).2 less
  · have least : (operandASmaller a b || operandsEqual a b infoA infoB) = true ↔
        a.value ≤ b.value := by
      rw [Bool.or_eq_true, equal, le_iff_lt_or_eq]
      by_cases same : a.value = b.value
      · simp [same]
      · rw [smaller same]
    simp only [miscRm, rvInt, ha, hb]
    simpa [sliceResult_flag] using (flag_eq_iff _ _).2 least

theorem cmpResult_right (ra : Reads infoA a x) (rb : Reads infoB b y)
    (kind : m = .eq ∨ m = .lt ∨ m = .le) :
    (sliceResult false (cmpResult a b infoA infoB (miscRm m) false).1,
        (cmpResult a b infoA infoB (miscRm m) false).2) =
      (rvInt m x y, rvInvalid m x y) := by
  by_cases numbers : x.isNan = false ∧ y.isNan = false
  · obtain ⟨hx, hy⟩ := numbers
    obtain rfl := ra.number hx
    obtain rfl := rb.number hy
    exact cmpResult_number ra rb kind hx hy
  · have nan : (x.isNan || y.isNan) = true := by
      rwa [← Bool.not_eq_false, Bool.or_eq_false_iff]
    rw [cmpResult_nan ra rb kind nan, sliceResult_flag, ← intResult_nan m numbers]
    rcases kind with rfl | rfl | rfl <;> simp [intResult, nan]

/-- The block answers for what the operands stand for. -/
theorem noncompSlice_right (ra : Reads infoA a x) (rb : Reads infoB b y) (m : FpuMiscOp) :
    noncompSlice a b infoA infoB (miscRm m) false (miscFpnewOp m) =
      (if writesInt m then rvInt m x y else sliceResult true (rvFloat m x y),
        { nv := rvInvalid m x y }) := by
  cases m with
  | sgnj => exact congrArg (fun r => (sliceResult true r, _)) (sgnjResult_right ra rb (by simp))
  | sgnjn => exact congrArg (fun r => (sliceResult true r, _)) (sgnjResult_right ra rb (by simp))
  | sgnjx => exact congrArg (fun r => (sliceResult true r, _)) (sgnjResult_right ra rb (by simp))
  | min =>
    refine Prod.ext (congrArg (sliceResult true) (minmaxResult_right ra rb (by simp))) ?_
    simp [noncompSlice, miscFpnewOp, rvInvalid, ra.signalling, rb.signalling, snan]
  | max =>
    refine Prod.ext (congrArg (sliceResult true) (minmaxResult_right ra rb (by simp))) ?_
    simp [noncompSlice, miscFpnewOp, rvInvalid, ra.signalling, rb.signalling, snan]
  | eq =>
    have answers := Prod.ext_iff.1 (cmpResult_right (m := .eq) ra rb (by simp))
    exact Prod.ext answers.1 (congrArg (fun nv => ({ nv } : FpStatus)) answers.2)
  | lt =>
    have answers := Prod.ext_iff.1 (cmpResult_right (m := .lt) ra rb (by simp))
    exact Prod.ext answers.1 (congrArg (fun nv => ({ nv } : FpStatus)) answers.2)
  | le =>
    have answers := Prod.ext_iff.1 (cmpResult_right (m := .le) ra rb (by simp))
    exact Prod.ext answers.1 (congrArg (fun nv => ({ nv } : FpStatus)) answers.2)
  | cls =>
    refine Prod.ext ?_ rfl
    show (BitVec.twoPow 10 (classMaskBit a infoA)).setWidth 64 = BitVec.twoPow 64 (rvClass x)
    rw [ra.mask]
    exact classBits_eq x

end Answers

-- ---------------------------------------------------------------------
-- The two formats
-- ---------------------------------------------------------------------

theorem signExtend_ones (r : BitVec 32) :
    (BitVec.ofBool true ++ r).signExtend 64 = BitVec.allOnes 32 ++ r := by
  have top : (BitVec.ofBool true ++ r).msb = true := by
    rw [BitVec.msb_append]
    rfl
  apply BitVec.eq_of_getLsbD_eq
  intro i bound
  rw [BitVec.getLsbD_signExtend, top, BitVec.getLsbD_append, BitVec.getLsbD_append,
    BitVec.getLsbD_allOnes]
  by_cases low : i < 32
  · have inside : i < 1 + 32 := by omega
    simp [low, bound, inside]
  · by_cases next : i < 1 + 32
    · obtain rfl : i = 32 := by omega
      rfl
    · have rest : i - 32 < 32 := by omega
      simp [low, next, bound, rest]

theorem signExtend_cut (r : BitVec 64) (bit : Bool) : (BitVec.ofBool bit ++ r).signExtend 64 = r := by
  apply BitVec.eq_of_getLsbD_eq
  intro i low
  have inside : i < 1 + 64 := by omega
  rw [BitVec.getLsbD_signExtend, BitVec.getLsbD_append]
  simp [low, inside]

theorem sliceResult_single (r : single.Word) :
    sliceResult true r = BitVec.allOnes 32 ++ r :=
  signExtend_ones r

theorem sliceResult_double (r : double.Word) : sliceResult true r = r :=
  signExtend_cut r true

theorem reads_single (data : Word) :
    Reads (F := single) (classifyInput (F := single) (data.extractLsb' 0 32) (FpnewReq.boxed data))
      (data.extractLsb' 0 32) (unbox data) := by
  unfold unbox FpnewReq.boxed
  by_cases boxed : data.extractLsb' 32 32 = BitVec.allOnes 32
  · rw [if_pos boxed, boxed, beq_self_eq_true]
    exact reads_boxed (F := single) _
  · rw [if_neg boxed, beq_false_of_ne boxed]
    exact reads_unboxed (F := single) _ (by decide) (by decide)

theorem noncomp_right (r : FpnewReq) (m : FpuMiscOp) (op : r.op = miscFpnewOp m)
    (rm : r.rm = miscRm m) (opMod : r.opMod = false) :
    r.noncomp = rvMisc m r.dstFmt r.operand0 r.operand1 := by
  unfold FpnewReq.noncomp rvMisc
  rw [op, rm, opMod]
  cases r.dstFmt with
  | s =>
    have slice := noncompSlice_right (reads_single r.operand0) (reads_single r.operand1) m
    rw [sliceResult_single] at slice
    exact slice
  | d =>
    have slice := noncompSlice_right (reads_boxed (F := double) r.operand0)
      (reads_boxed (F := double) r.operand1) m
    rw [sliceResult_double] at slice
    exact slice

-- ---------------------------------------------------------------------
-- From the instruction
-- ---------------------------------------------------------------------

/-- The control of an operation that rounds nothing. -/
structure ExactInfo (m : FpuMiscOp) (fmt : FpFmt) (c : FpInfo) : Prop where
  pipe : c.pipe = .misc
  op : c.op = miscKind m
  miscOp : c.miscOp = m
  opMod : c.opMod = false
  srcFmt : c.fmt = fmt
  dstFmt : c.dstFmt = fmt

/-- The wrapper knows the operation, and FPnew does it. -/
theorem ExactInfo.answer {m : FpuMiscOp} {fmt : FpFmt} {x : FpOp} (info : ExactInfo m fmt x.info) :
    x.isFmv = false ∧ x.fpnewUnsupported = false ∧
      x.fpnewReq.noncomp = rvMisc m fmt x.rs1 x.rs2 := by
  obtain ⟨pipe, op, miscOp, opMod, -, dstFmt⟩ := info
  refine ⟨by rw [FpOp.isFmv, pipe]; rfl, ?_, ?_⟩
  · cases m <;> simp [FpOp.fpnewUnsupported, op, miscOp, miscKind]
  · have request : x.fpnewReq.op = miscFpnewOp m ∧ x.fpnewReq.rm = miscRm m ∧
        x.fpnewReq.opMod = false ∧ x.fpnewReq.dstFmt = fmt ∧ x.fpnewReq.operand0 = x.rs1 ∧
        (m ≠ .cls → x.fpnewReq.operand1 = x.rs2) := by
      cases m <;>
        simp [FpOp.fpnewReq, FpOp.fpnewCall, FpOp.fpnewCallOne, FpOp.fpnewRm, op, miscOp, opMod,
          dstFmt, miscKind, miscRm, miscFpnewOp]
    obtain ⟨op, rm, opMod, rfl, operand0, operand1⟩ := request
    rw [noncomp_right _ m op rm opMod, operand0]
    by_cases classifies : m = .cls
    · subst classifies
      unfold rvMisc
      split <;> rfl
    · rw [operand1 classifies]

/-- The operation of the block for an instruction that rounds nothing; the moves do not come here. -/
def exactOf : Decode.FpOp → Option FpuMiscOp
  | .sgnj => some .sgnj
  | .sgnjn => some .sgnjn
  | .sgnjx => some .sgnjx
  | .min => some .min
  | .max => some .max
  | .eq => some .eq
  | .lt => some .lt
  | .le => some .le
  | .classify => some .cls
  | _ => none

section Decoded

open Decode.Fields (opcode funct3 rs2 rs3 fpFmt2)

variable {insn : BitVec 32} {pc : Word} {isRvc : Bool} {o : Decode.FpOp} {fmt : FpFmt}
  {m : FpuMiscOp} {rd : Decode.Reg} {srcs : List Decode.Reg}

theorem exactInfo_decodeFp (found : Decode.Insn.fpFormats.lookup (fpFmt2 insn) = some fmt)
    (exact : Decode.Insn.fpExact insn = some (o, rd, srcs)) (kind : exactOf o = some m) :
    ExactInfo m fmt (Decode.decodeFp insn (Decode.defaults insn pc isRvc)).fp := by
  obtain ⟨f7, fm⟩ := Decode.format_funct7 found
  unfold Decode.Insn.fpExact at exact
  dsimp only at exact
  split_ifs at exact with sgnj minmax cmp toBits fromBits
  · obtain ⟨o, row, eq⟩ := Option.map_eq_some_iff.mp exact
    cases eq
    rw [sgnj] at f7
    unfold Decode.decodeFp
    rcases Decode.f3_cases (funct3 insn) with f3 | f3 | f3 | f3 | f3 | f3 | f3 | f3 <;>
      rw [f3] at row <;> cases row <;> cases kind <;> cases fmt <;> rw [f7, f3] <;>
      exact ⟨rfl, rfl, rfl, rfl, fm, fm⟩
  · obtain ⟨o, row, eq⟩ := Option.map_eq_some_iff.mp exact
    cases eq
    rw [minmax] at f7
    unfold Decode.decodeFp
    rcases Decode.f3_cases (funct3 insn) with f3 | f3 | f3 | f3 | f3 | f3 | f3 | f3 <;>
      rw [f3] at row <;> cases row <;> cases kind <;> cases fmt <;> rw [f7, f3] <;>
      exact ⟨rfl, rfl, rfl, rfl, fm, fm⟩
  · obtain ⟨o, row, eq⟩ := Option.map_eq_some_iff.mp exact
    cases eq
    rw [cmp] at f7
    unfold Decode.decodeFp
    rcases Decode.f3_cases (funct3 insn) with f3 | f3 | f3 | f3 | f3 | f3 | f3 | f3 <;>
      rw [f3] at row <;> cases row <;> cases kind <;> cases fmt <;> rw [f7, f3] <;>
      exact ⟨rfl, rfl, rfl, rfl, fm, fm⟩
  · obtain ⟨o, row, eq⟩ := Option.map_eq_some_iff.mp exact
    cases eq
    rw [toBits.1] at f7
    unfold Decode.decodeFp Decode.sameFmt
    rcases Decode.f3_cases (funct3 insn) with f3 | f3 | f3 | f3 | f3 | f3 | f3 | f3 <;>
      rw [f3] at row <;> cases row <;> cases kind
    cases fmt <;> rw [f7, f3, toBits.2, fm] <;> exact ⟨rfl, rfl, rfl, rfl, rfl, rfl⟩
  · cases exact
    cases kind

theorem suppressRd_fp (insn : BitVec 32) (d : DecodedInsn) :
    (Decode.suppressRd insn d).fp = d.fp := by
  unfold Decode.suppressRd
  simp only [apply_ite DecodedInsn.fp, ite_self]

/-- An instruction of OP-FP that rounds nothing goes to FPnew with the control of its operation. -/
theorem exactInfo_decodeSlice (fp : opcode insn = opFp)
    (encoded : Decode.Insn.ofFp insn = some (.fp o fmt none rd srcs)) (kind : exactOf o = some m) :
    ExactInfo m fmt (Decode.decodeSlice insn pc isRvc).fp := by
  have same : Decode.decodeOpcode insn (Decode.defaults insn pc isRvc) =
      Decode.decodeFp insn (Decode.defaults insn pc isRvc) := by
    unfold Decode.decodeOpcode
    rw [fp]
    rfl
  rw [Decode.decodeSlice, suppressRd_fp, same]
  unfold Decode.Insn.ofFp at encoded
  obtain ⟨fmt', found, rest⟩ := Option.bind_eq_some_iff.mp encoded
  split at rest
  · obtain ⟨rm, -, eq⟩ := Option.map_eq_some_iff.mp rest
    cases eq
  · obtain ⟨⟨o', rd', srcs'⟩, exact, eq⟩ := Option.map_eq_some_iff.mp rest
    cases eq
    exact exactInfo_decodeFp found exact kind

/-- Every instruction that injects a sign, takes the minimum or the maximum, compares or classifies
is one FPnew knows, and it answers as the F and D extensions ask, with the flags they ask for. -/
theorem fpnew_answers_right (fp : opcode insn = opFp)
    (encoded : Decode.Insn.ofFp insn = some (.fp o fmt none rd srcs)) (kind : exactOf o = some m)
    (tag : CdbTag) (rm : BitVec 3) (rs1 rs2 rs3 : Word) :
    (⟨tag, (Decode.decodeSlice insn pc isRvc).fp, rm, rs1, rs2, rs3⟩ : FpOp).isFmv = false ∧
      (⟨tag, (Decode.decodeSlice insn pc isRvc).fp, rm, rs1, rs2, rs3⟩ : FpOp).fpnewUnsupported =
        false ∧
      (⟨tag, (Decode.decodeSlice insn pc isRvc).fp, rm, rs1, rs2, rs3⟩ : FpOp).fpnewReq.noncomp =
        rvMisc m fmt rs1 rs2 :=
  ExactInfo.answer (x := ⟨tag, (Decode.decodeSlice insn pc isRvc).fp, rm, rs1, rs2, rs3⟩)
    (exactInfo_decodeSlice fp encoded kind)

/-- `feq.d f1, f2` with a zero of each sign: they are equal. -/
theorem fpnew_answers_right_zeros :
    (⟨⟨0, 0⟩, (Decode.decodeSlice 0xa22120d3 0 false).fp, 0, 0, 0x8000000000000000, 0⟩ :
      FpOp).fpnewReq.noncomp = rvMisc .eq .d 0 0x8000000000000000 :=
  (fpnew_answers_right (o := .eq) (by decide) rfl rfl ⟨0, 0⟩ 0 0
    0x8000000000000000 0).2.2

end Decoded

end Rv64gc.Execute
