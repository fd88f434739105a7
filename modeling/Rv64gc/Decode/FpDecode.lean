import Rv64gc.Decode.IntegerDecode

/-!
# Decoding floating-point instructions

The rounding mode goes to the floating-point unit as it stands in the instruction: decode accepts
the reserved modes as well, and it is the unit that refuses them.
-/

namespace Rv64gc.Decode

open Fields Execute

variable {insn : BitVec 32} {pc : Word} {isRvc : Bool}

def fmtBits : FpFmt → BitVec 2
  | .s => 0b00
  | .d => 0b01

theorem funct7_kind (insn : BitVec 32) : funct7 insn = rs3 insn ++ fpFmt2 insn := by
  unfold funct7 rs3 fpFmt2
  exact (BitVec.extractLsb'_append_extractLsb'_eq_extractLsb' (show 27 = 25 + 2 from rfl)).symm

theorem format_bits (found : Insn.fpFormats.lookup m = some fmt) : m = fmtBits fmt := by
  have all : ∀ m, (Insn.fpFormats.lookup m).all fun fmt => m = fmtBits fmt := by decide
  have row := all m
  rw [found] at row
  exact of_decide_eq_true row

/-- The format is in the lower bits of funct7. -/
theorem format_funct7 (found : Insn.fpFormats.lookup (fpFmt2 insn) = some fmt) :
    funct7 insn = rs3 insn ++ fmtBits fmt ∧ fmtOf insn = fmt := by
  have f7 : funct7 insn = rs3 insn ++ fmtBits fmt := format_bits found ▸ funct7_kind insn
  have low : (funct7 insn).getLsbD 0 = (fmtBits fmt).getLsbD 0 := by
    rw [f7, BitVec.getLsbD_append]
    simp
  refine ⟨f7, ?_⟩
  unfold fmtOf
  rw [low]
  cases fmt <;> rfl

theorem format_rs2 (row : [(0#5, FpFmt.s), (1, .d)].lookup r2 = some src) :
    r2 = (fmtBits src).setWidth 5 := by
  have all : ∀ r2 : BitVec 5, ([(0#5, FpFmt.s), (1, .d)].lookup r2).all fun src =>
      r2 = (fmtBits src).setWidth 5 := by
    decide
  have bits := all r2
  rw [row] at bits
  exact of_decide_eq_true bits

theorem intFormat_cases (row : Insn.intFormats.lookup r2 = some (fmt, unsigned)) :
    r2 = 0 ∧ fmt = .i32 ∧ unsigned = false ∨ r2 = 1 ∧ fmt = .i32 ∧ unsigned = true ∨
      r2 = 2 ∧ fmt = .i64 ∧ unsigned = false ∨ r2 = 3 ∧ fmt = .i64 ∧ unsigned = true := by
  have all : ∀ r2, (Insn.intFormats.lookup r2).all fun row =>
      r2 = 0 ∧ row.1 = .i32 ∧ row.2 = false ∨ r2 = 1 ∧ row.1 = .i32 ∧ row.2 = true ∨
        r2 = 2 ∧ row.1 = .i64 ∧ row.2 = false ∨ r2 = 3 ∧ row.1 = .i64 ∧ row.2 = true := by
    decide
  have bits := all r2
  rw [row] at bits
  exact of_decide_eq_true bits

theorem right_fpRounded (found : Insn.fpFormats.lookup (fpFmt2 insn) = some fmt)
    (rounded : Insn.fpRounded insn fmt = some (op, f, r, srcs)) :
    Right (suppressRd insn (decodeFp insn (defaults insn pc isRvc)))
      (some (.fp op f (some (funct3 insn)) r srcs)) := by
  obtain ⟨f7, fm⟩ := format_funct7 found
  unfold Insn.fpRounded at rounded
  dsimp only at rounded
  split_ifs at rounded with add sub mul div sqrt cvt toInt fromInt
  · rw [add] at f7
    cases rounded
    unfold decodeFp
    cases fmt <;> rw [f7] <;>
      exact Meant.means ⟨rfl, rfl, rfl, rfl, rfl, fm, fm, fun _ => Option.some.inj⟩
  · rw [sub] at f7
    cases rounded
    unfold decodeFp
    cases fmt <;> rw [f7] <;>
      exact Meant.means ⟨rfl, rfl, rfl, rfl, rfl, fm, fm, fun _ => Option.some.inj⟩
  · rw [mul] at f7
    cases rounded
    unfold decodeFp
    cases fmt <;> rw [f7] <;>
      exact Meant.means ⟨rfl, rfl, rfl, rfl, rfl, fm, fm, fun _ => Option.some.inj⟩
  · rw [div] at f7
    cases rounded
    unfold decodeFp
    cases fmt <;> rw [f7] <;>
      exact Meant.means ⟨rfl, rfl, rfl, rfl, rfl, fm, fm, fun _ => Option.some.inj⟩
  · rw [sqrt.1] at f7
    cases rounded
    unfold decodeFp
    cases fmt <;> rw [f7, sqrt.2] <;>
      exact Meant.means ⟨rfl, rfl, rfl, rfl, rfl, fm, fm, fun _ => Option.some.inj⟩
  · obtain ⟨src, row, eq⟩ := Option.bind_eq_some_iff.mp rounded
    split_ifs at eq with same
    cases eq
    rw [cvt] at f7
    unfold decodeFp
    cases fmt <;> cases f <;> first | exact absurd rfl same | skip
    · rw [f7, format_rs2 row]
      exact Meant.means ⟨rfl, rfl, rfl, rfl, rfl, rfl, rfl, fun _ => Option.some.inj⟩
    · rw [f7, format_rs2 row]
      exact Meant.means ⟨rfl, rfl, rfl, rfl, rfl, rfl, rfl, fun _ => Option.some.inj⟩
  · obtain ⟨⟨dst, unsigned⟩, row, eq⟩ := Option.map_eq_some_iff.mp rounded
    cases eq
    rw [toInt] at f7
    unfold decodeFp fpIntFmt
    cases fmt <;> rw [f7] <;>
      obtain ⟨r2, rfl, rfl⟩ | ⟨r2, rfl, rfl⟩ | ⟨r2, rfl, rfl⟩ | ⟨r2, rfl, rfl⟩ :=
        intFormat_cases row <;> rw [r2] <;>
      exact Meant.means ⟨rfl, rfl, rfl, rfl, rfl, fm, fm, fun _ => Option.some.inj⟩
  · obtain ⟨⟨src, unsigned⟩, row, eq⟩ := Option.map_eq_some_iff.mp rounded
    cases eq
    rw [fromInt] at f7
    unfold decodeFp fpIntFmt
    cases fmt <;> rw [f7] <;>
      obtain ⟨r2, rfl, rfl⟩ | ⟨r2, rfl, rfl⟩ | ⟨r2, rfl, rfl⟩ | ⟨r2, rfl, rfl⟩ :=
        intFormat_cases row <;> rw [r2] <;>
      exact Meant.means ⟨rfl, rfl, rfl, rfl, rfl, fm, fm, fun _ => Option.some.inj⟩

theorem right_fpExact (found : Insn.fpFormats.lookup (fpFmt2 insn) = some fmt)
    (exact : Insn.fpExact insn = some (op, r, srcs)) :
    Right (suppressRd insn (decodeFp insn (defaults insn pc isRvc)))
      (some (.fp op fmt none r srcs)) := by
  obtain ⟨f7, fm⟩ := format_funct7 found
  unfold Insn.fpExact at exact
  dsimp only at exact
  split_ifs at exact with sgnj minmax cmp toBits fromBits
  · obtain ⟨o, row, eq⟩ := Option.map_eq_some_iff.mp exact
    cases eq
    rw [sgnj] at f7
    unfold decodeFp
    rcases f3_cases (funct3 insn) with f3 | f3 | f3 | f3 | f3 | f3 | f3 | f3 <;> rw [f3] at row <;>
      cases row <;> cases fmt <;> rw [f7, f3] <;>
      exact Meant.means ⟨rfl, rfl, rfl, rfl, rfl, fm, fm, nofun⟩
  · obtain ⟨o, row, eq⟩ := Option.map_eq_some_iff.mp exact
    cases eq
    rw [minmax] at f7
    unfold decodeFp
    rcases f3_cases (funct3 insn) with f3 | f3 | f3 | f3 | f3 | f3 | f3 | f3 <;> rw [f3] at row <;>
      cases row <;> cases fmt <;> rw [f7, f3] <;>
      exact Meant.means ⟨rfl, rfl, rfl, rfl, rfl, fm, fm, nofun⟩
  · obtain ⟨o, row, eq⟩ := Option.map_eq_some_iff.mp exact
    cases eq
    rw [cmp] at f7
    unfold decodeFp
    rcases f3_cases (funct3 insn) with f3 | f3 | f3 | f3 | f3 | f3 | f3 | f3 <;> rw [f3] at row <;>
      cases row <;> cases fmt <;> rw [f7, f3] <;>
      exact Meant.means ⟨rfl, rfl, rfl, rfl, rfl, fm, fm, nofun⟩
  · obtain ⟨o, row, eq⟩ := Option.map_eq_some_iff.mp exact
    cases eq
    rw [toBits.1] at f7
    unfold decodeFp sameFmt
    rcases f3_cases (funct3 insn) with f3 | f3 | f3 | f3 | f3 | f3 | f3 | f3 <;> rw [f3] at row <;>
      cases row <;> cases fmt <;> rw [f7, f3, toBits.2, fm] <;>
      exact Meant.means ⟨rfl, rfl, rfl, rfl, rfl, rfl, rfl, nofun⟩
  · cases exact
    rw [fromBits.1] at f7
    unfold decodeFp sameFmt
    cases fmt <;> rw [f7, fromBits.2.1, fromBits.2.2, fm] <;>
      exact Meant.means ⟨rfl, rfl, rfl, rfl, rfl, rfl, rfl, nofun⟩

def fpFunct7s : List (BitVec 7) :=
  [f7FaddS, f7FaddD, f7FsubS, f7FsubD, f7FmulS, f7FmulD, f7FdivS, f7FdivD, f7FsqrtS, f7FsqrtD,
    f7FsgnjS, f7FsgnjD, f7FminmaxS, f7FminmaxD, f7FcmpS, f7FcmpD, f7FmvXW, f7FmvXD, f7FmvWX,
    f7FmvDX, f7FcvtSD, f7FcvtDS, f7FcvtToIntS, f7FcvtToIntD, f7FcvtFromIntS, f7FcvtFromIntD]

def fpKinds : List (BitVec 5) :=
  [0b00000, 0b00001, 0b00010, 0b00011, 0b01011, 0b01000, 0b11000, 0b11010, 0b00100, 0b00101,
    0b10100, 0b11100, 0b11110]

theorem right_unless {p : Prop} [Decidable p] (no : ¬p) (rest : Right (suppressRd insn b) none) :
    Right (suppressRd insn (if p then a else b)) none := by
  rwa [if_neg no]

theorem right_refused {p : Prop} [Decidable p] (no : ¬p) :
    Right (suppressRd insn (if p then a else illegal b)) none :=
  right_unless no (right_illegal insn b)

theorem right_refusedBoth {p q : Prop} [Decidable p] [Decidable q] (no : ¬p) (nor : ¬q) :
    Right (suppressRd insn (if p then a else if q then b else illegal c)) none :=
  right_unless no (right_refused nor)

theorem right_fpIntFmt (nothing : Insn.intFormats.lookup (rs2 insn) = none) (d : DecodedInsn) :
    Right (suppressRd insn (fpIntFmt insn d)) none := by
  simp only [Insn.intFormats, List.lookup_eq_none_iff, List.forall_mem_cons, bne_iff_ne] at nothing
  obtain ⟨w, wu, l, lu, -⟩ := nothing
  exact right_unless w (right_unless wu (right_unless l (right_unless lu (right_illegal insn d))))

theorem right_fpNone
    (nothing : ∀ fmt, Insn.fpFormats.lookup (fpFmt2 insn) = some fmt →
      Insn.fpRounded insn fmt = none ∧ Insn.fpExact insn = none) :
    Right (suppressRd insn (decodeFp insn (defaults insn pc isRvc))) none := by
  by_cases used : rs3 insn ∈ fpKinds ∧ ∃ fmt, Insn.fpFormats.lookup (fpFmt2 insn) = some fmt
  · obtain ⟨kind, fmt, found⟩ := used
    obtain ⟨f7, fm⟩ := format_funct7 found
    obtain ⟨noRounded, noExact⟩ := nothing fmt found
    unfold Insn.fpRounded at noRounded
    unfold Insn.fpExact at noExact
    dsimp only at noRounded noExact
    simp only [fpKinds, List.mem_cons, List.not_mem_nil, or_false] at kind
    rcases kind with add | sub | mul | div | sqrt | cvt | toInt | fromInt | sgnj | minmax | cmp |
      toBits | fromBits
    · simp [add] at noRounded
    · simp [sub] at noRounded
    · simp [mul] at noRounded
    · simp [div] at noRounded
    · have notZero : rs2 insn ≠ fpRs2Zero := fun zero => by simp [sqrt, zero] at noRounded
      rw [sqrt] at f7
      unfold decodeFp
      cases fmt <;> rw [f7] <;> exact right_refused notZero
    · rw [cvt] at f7
      unfold decodeFp
      cases fmt <;> rw [f7]
      · have notD : rs2 insn ≠ fpRs2D := fun d => by
          rw [cvt, d] at noRounded
          cases noRounded
        exact right_refused notD
      · have notS : rs2 insn ≠ fpRs2S := fun s => by
          rw [cvt, s] at noRounded
          cases noRounded
        exact right_refused notS
    · rw [toInt] at f7
      unfold decodeFp
      have noInt : Insn.intFormats.lookup (rs2 insn) = none := by simpa [toInt] using noRounded
      cases fmt <;> rw [f7] <;> exact right_fpIntFmt noInt _
    · rw [fromInt] at f7
      unfold decodeFp
      have noInt : Insn.intFormats.lookup (rs2 insn) = none := by simpa [fromInt] using noRounded
      cases fmt <;> rw [f7] <;> exact right_fpIntFmt noInt _
    · rw [sgnj] at f7 noExact
      unfold decodeFp
      rcases f3_cases (funct3 insn) with f3 | f3 | f3 | f3 | f3 | f3 | f3 | f3 <;>
        rw [f3] at noExact <;>
        first | (cases noExact; done) | (cases fmt <;> rw [f7, f3] <;> exact right_illegal insn _)
    · rw [minmax] at f7 noExact
      unfold decodeFp
      rcases f3_cases (funct3 insn) with f3 | f3 | f3 | f3 | f3 | f3 | f3 | f3 <;>
        rw [f3] at noExact <;>
        first | (cases noExact; done) | (cases fmt <;> rw [f7, f3] <;> exact right_illegal insn _)
    · rw [cmp] at f7 noExact
      unfold decodeFp
      rcases f3_cases (funct3 insn) with f3 | f3 | f3 | f3 | f3 | f3 | f3 | f3 <;>
        rw [f3] at noExact <;>
        first | (cases noExact; done) | (cases fmt <;> rw [f7, f3] <;> exact right_illegal insn _)
    · have notMv : ¬(rs2 insn = fpRs2Zero ∧ funct3 insn = f3Fmv) := fun mv => by
        simp [toBits, mv.1, mv.2] at noExact
      have notClass : ¬(rs2 insn = fpRs2Zero ∧ funct3 insn = f3Fclass) := fun cls => by
        rw [toBits, cls.1, cls.2] at noExact
        cases noExact
      rw [toBits] at f7
      unfold decodeFp
      cases fmt <;> rw [f7] <;> exact right_refusedBoth notMv notClass
    · have notMv : ¬(rs2 insn = fpRs2Zero ∧ funct3 insn = f3Fmv) := fun mv => by
        simp [fromBits, mv.1, mv.2] at noExact
      rw [fromBits] at f7
      unfold decodeFp
      cases fmt <;> rw [f7] <;> exact right_refused notMv
  · have unused : funct7 insn ∉ fpFunct7s := by
      intro listed
      have all : ∀ f7 ∈ fpFunct7s, f7.extractLsb' 2 5 ∈ fpKinds ∧
          (Insn.fpFormats.lookup (f7.extractLsb' 0 2)).isSome = true := by decide
      obtain ⟨kind, format⟩ := all _ listed
      rw [funct7_kind, BitVec.extractLsb'_append_eq_left] at kind
      rw [funct7_kind, BitVec.extractLsb'_append_eq_right] at format
      exact used ⟨kind, Option.isSome_iff_exists.mp format⟩
    have off (a b : BitVec 7) (ha : a ∈ fpFunct7s) (hb : b ∈ fpFunct7s) :
        ¬(funct7 insn = a ∨ funct7 insn = b) := by
      rintro (h | h)
      · exact unused (h ▸ ha)
      · exact unused (h ▸ hb)
    unfold decodeFp
    extract_lets d f7 misc
    iterate 13 refine right_unless (off _ _ (by decide) (by decide)) ?_
    exact right_illegal insn _

/-- The instruction rounds, and its rounding mode is one of the reserved ones. -/
def ReservedRounding (insn : BitVec 32) : Prop :=
  Insn.rounding insn = none ∧ ∃ fmt, Insn.fpFormats.lookup (fpFmt2 insn) = some fmt ∧
    (opcode insn = opFp → (Insn.fpRounded insn fmt).isSome = true)

theorem rounding_some (rm : Insn.rounding insn = some m) : m = funct3 insn := by
  unfold Insn.rounding at rm
  split_ifs at rm
  exact (Option.some.inj rm).symm

theorem right_fp (regular : ¬ReservedRounding insn) :
    Right (suppressRd insn (decodeFp insn (defaults insn pc isRvc))) (Insn.ofFp insn) := by
  unfold Insn.ofFp
  cases found : Insn.fpFormats.lookup (fpFmt2 insn) with
  | none => exact right_fpNone fun fmt found' => by rw [found] at found'; cases found'
  | some fmt =>
    rw [Option.bind_some]
    cases rounded : Insn.fpRounded insn fmt with
    | some r =>
      obtain ⟨o, f, rd', srcs⟩ := r
      cases rm : Insn.rounding insn with
      | none =>
        exact absurd ⟨rm, fmt, found, fun _ => by rw [rounded]; rfl⟩ regular
      | some m =>
        rw [rounding_some rm]
        exact right_fpRounded found rounded
    | none =>
      cases exact : Insn.fpExact insn with
      | some r => exact right_fpExact found exact
      | none =>
        refine right_fpNone fun fmt' found' => ?_
        rw [found] at found'
        cases found'
        exact ⟨rounded, exact⟩

/-- The opcodes of the four multiply-adds. -/
def fmaOps : List (BitVec 7 × FpOp) :=
  [(opFmadd, .madd), (opFmsub, .msub), (opFnmsub, .nmsub), (opFnmadd, .nmadd)]

theorem fma_means (row : (opcode insn, o) ∈ fmaOps)
    (found : Insn.fpFormats.lookup (fpFmt2 insn) = some fmt) :
    Means (suppressRd insn (decodeFma insn (defaults insn pc isRvc)))
      (.fp o fmt (some (funct3 insn)) (.f (rd insn))
        [.f (rs1 insn), .f (rs2 insn), .f (rs3 insn)]) := by
  have bits := format_bits found
  simp only [fmaOps, List.mem_cons, Prod.mk.injEq, List.not_mem_nil, or_false] at row
  unfold decodeFma
  obtain ⟨op, rfl⟩ | ⟨op, rfl⟩ | ⟨op, rfl⟩ | ⟨op, rfl⟩ := row <;> rw [op] <;>
    cases fmt <;> rw [bits] <;>
    exact Meant.means ⟨rfl, rfl, rfl, rfl, rfl, rfl, rfl, fun _ => Option.some.inj⟩

theorem right_fma (row : (opcode insn, o) ∈ fmaOps) (regular : ¬ReservedRounding insn) :
    Right (suppressRd insn (decodeFma insn (defaults insn pc isRvc))) (Insn.ofFma insn o) := by
  have notFp : opcode insn ≠ opFp := by
    have all : ∀ row ∈ fmaOps, row.1 ≠ opFp := by decide
    exact all _ row
  unfold Insn.ofFma
  cases found : Insn.fpFormats.lookup (fpFmt2 insn) with
  | none =>
    unfold decodeFma
    simp only [Insn.fpFormats, List.lookup_eq_none_iff, List.forall_mem_cons, bne_iff_ne] at found
    exact right_unless found.1 (right_unless found.2.1 (right_illegal insn _))
  | some fmt =>
    cases rm : Insn.rounding insn with
    | none => exact absurd ⟨rm, fmt, found, fun fp => absurd fp notFp⟩ regular
    | some m =>
      rw [rounding_some rm]
      exact fma_means row found

end Rv64gc.Decode
