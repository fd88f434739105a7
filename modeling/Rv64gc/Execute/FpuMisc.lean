import Rv64gc.Decode.Insn
import Rv64gc.Hdl.BinaryFloat

/-!
# The floating-point operations that round nothing

`fpu_misc.sv`: sign injection, minimum and maximum, comparison and classification. The source writes
each operation out for both formats. Here they are the same definitions at `single` and `double`.
-/

namespace Rv64gc.Execute

open Hdl

abbrev single : FloatFormat := ⟨8, 23, by decide⟩

abbrev double : FloatFormat := ⟨11, 52, by decide⟩

/-- `CANONICAL_NAN_S` -/
def canonicalNanS : single.Word := 0x7fc00000

/-- `CANONICAL_NAN_D` -/
def canonicalNanD : double.Word := 0x7ff8000000000000

/-- `rs1_s`, `rs2_s`: a register that is not NaN-boxed reads as the canonical NaN. -/
def singleView (data : BitVec 64) : single.Word :=
  if data.extractLsb' 32 32 = BitVec.allOnes 32 then data.extractLsb' 0 32 else canonicalNanS

section Operands

variable {F : FloatFormat}

/-- `rs1_s_snan`, `rs1_d_snan` -/
def snan (x : F.Word) : Bool := x.isNan && !x.quiet

/-- The bit that `fp32_classify`, `fp64_classify` set. -/
def classBit (x : F.Word) : Nat :=
  if x.exponent = BitVec.allOnes _ ∧ x.fraction = 0 then if x.sign then 0 else 7
  else if x.exponent = BitVec.allOnes _ ∧ x.quiet then 9
  else if x.exponent = BitVec.allOnes _ ∧ !x.quiet then 8
  else if x.exponent = 0 ∧ x.fraction = 0 then if x.sign then 3 else 4
  else if x.exponent = 0 ∧ x.fraction ≠ 0 then if x.sign then 2 else 5
  else if x.sign then 1 else 6

/-- `rs1_s_class_bits`, `rs1_d_class_bits` -/
def classBits (x : F.Word) : BitVec 10 := BitVec.twoPow 10 (classBit x)

/-- `result_s`, `result_d` -/
def floatResult (canonicalNan : F.Word) (op : FpuMiscOp) (rs1 rs2 : F.Word) : F.Word :=
  match op with
  | .sgnj => .signed rs2.sign rs1.low
  | .sgnjn => .signed (!rs2.sign) rs1.low
  | .sgnjx => .signed (rs1.sign ^^ rs2.sign) rs1.low
  | .min =>
    if rs1.isNan && rs2.isNan then canonicalNan
    else if rs1.isNan then rs2
    else if rs2.isNan then rs1
    else if rs1.orderKey ≤ rs2.orderKey then rs1
    else rs2
  | .max =>
    if rs1.isNan && rs2.isNan then canonicalNan
    else if rs1.isNan then rs2
    else if rs2.isNan then rs1
    else if rs1.orderKey ≥ rs2.orderKey then rs1
    else rs2
  | _ => canonicalNan

/-- What the comparisons and the classification leave in `result_o`. -/
def intResult (op : FpuMiscOp) (rs1 rs2 : F.Word) : BitVec 64 :=
  match op with
  | .eq => (BitVec.ofBool (!(rs1.isNan || rs2.isNan) && rs1 == rs2)).setWidth 64
  | .lt => (BitVec.ofBool (!(rs1.isNan || rs2.isNan) && rs1.orderKey < rs2.orderKey)).setWidth 64
  | .le => (BitVec.ofBool (!(rs1.isNan || rs2.isNan) && rs1.orderKey ≤ rs2.orderKey)).setWidth 64
  | .cls => (classBits rs1).setWidth 64
  | _ => 0

/-- `status_o.nv` -/
def nv (op : FpuMiscOp) (rs1 rs2 : F.Word) : Bool :=
  match op with
  | .min | .max | .eq => snan rs1 || snan rs2
  | .lt | .le => rs1.isNan || rs2.isNan
  | _ => false

end Operands

/-- The operations that leave an integer. -/
def writesInt (op : FpuMiscOp) : Bool := op ∈ [.eq, .lt, .le, .cls]

/-- `fp_status_t` -/
structure FpStatus where
  nv : Bool := false
  dz : Bool := false
  overflow : Bool := false
  uf : Bool := false
  nx : Bool := false
deriving DecidableEq

structure FpuMiscOut where
  valid : Bool
  result : BitVec 64
  status : FpStatus
deriving DecidableEq

def fpuMisc (valid : Bool) (op : FpuMiscOp) (fmt : FpFmt) (rs1Data rs2Data : BitVec 64) :
    FpuMiscOut :=
  match fmt with
  | .s =>
    let rs1 := singleView rs1Data
    let rs2 := singleView rs2Data
    { valid
      result :=
        if writesInt op then intResult op rs1 rs2
        else BitVec.allOnes 32 ++ floatResult canonicalNanS op rs1 rs2
      status := { nv := nv op rs1 rs2 } }
  | .d =>
    let rs1 : double.Word := rs1Data
    let rs2 : double.Word := rs2Data
    { valid
      result :=
        if writesInt op then intResult op rs1 rs2
        else floatResult canonicalNanD op rs1 rs2
      status := { nv := nv op rs1 rs2 } }

-- ---------------------------------------------------------------------
-- What the F and D extensions ask
-- ---------------------------------------------------------------------

/-- The quiet NaN with no other bit. -/
def canonicalNan (F : FloatFormat) : F.Word :=
  .signed false (BitVec.allOnes F.expBits ++ BitVec.twoPow F.fracBits (F.fracBits - 1))

section Meaning

variable {F : FloatFormat}

open Classical in
/-- Ten classes, told apart by what the operand stands for. -/
noncomputable def rvClass (x : F.Word) : Nat :=
  if x.isNan then if x.quiet then 9 else 8
  else if x.value = ⊥ then 0
  else if x.value ≤ -F.normal then 1
  else if x.value < 0 then 2
  else if x.value = 0 then if x.sign then 3 else 4
  else if x.value < F.normal then 5
  else if x.value < ⊤ then 6
  else 7

open Classical in
/-- Of the two zeros the negative one counts as the less. -/
noncomputable def rvFloat (op : FpuMiscOp) (rs1 rs2 : F.Word) : F.Word :=
  match op with
  | .sgnj => .signed rs2.sign rs1.low
  | .sgnjn => .signed (!rs2.sign) rs1.low
  | .sgnjx => .signed (rs1.sign ^^ rs2.sign) rs1.low
  | .min =>
    if rs1.isNan && rs2.isNan then canonicalNan F
    else if rs1.isNan then rs2
    else if rs2.isNan then rs1
    else if rs2.value < rs1.value ∨ rs2.value = rs1.value ∧ rs2.sign then rs2
    else rs1
  | .max =>
    if rs1.isNan && rs2.isNan then canonicalNan F
    else if rs1.isNan then rs2
    else if rs2.isNan then rs1
    else if rs1.value < rs2.value ∨ rs1.value = rs2.value ∧ rs1.sign then rs2
    else rs1
  | _ => canonicalNan F

open Classical in
/-- A comparison with a NaN does not hold. -/
noncomputable def rvInt (op : FpuMiscOp) (rs1 rs2 : F.Word) : BitVec 64 :=
  let holds (p : Prop) : BitVec 64 := if !rs1.isNan ∧ !rs2.isNan ∧ p then 1 else 0
  match op with
  | .eq => holds (rs1.value = rs2.value)
  | .lt => holds (rs1.value < rs2.value)
  | .le => holds (rs1.value ≤ rs2.value)
  | .cls => BitVec.twoPow 64 (rvClass rs1)
  | _ => 0

/-- Only `flt` and `fle` signal a quiet NaN. -/
def rvInvalid (op : FpuMiscOp) (rs1 rs2 : F.Word) : Bool :=
  match op with
  | .min | .max | .eq => rs1.isNan && !rs1.quiet || rs2.isNan && !rs2.quiet
  | .lt | .le => rs1.isNan || rs2.isNan
  | _ => false

end Meaning

/-- A single sits in a register under ones; anything else there reads as the canonical NaN. -/
def unbox (data : BitVec 64) : single.Word :=
  if data.extractLsb' 32 32 = BitVec.allOnes 32 then data.extractLsb' 0 32 else canonicalNan single

noncomputable def rvMisc (op : FpuMiscOp) (fmt : FpFmt) (rs1 rs2 : BitVec 64) :
    BitVec 64 × FpStatus :=
  match fmt with
  | .s =>
    (if writesInt op then rvInt op (unbox rs1) (unbox rs2)
      else BitVec.allOnes 32 ++ rvFloat op (unbox rs1) (unbox rs2),
      { nv := rvInvalid op (unbox rs1) (unbox rs2) })
  | .d =>
    (if writesInt op then rvInt (F := double) op rs1 rs2 else rvFloat (F := double) op rs1 rs2,
      { nv := rvInvalid (F := double) op rs1 rs2 })

/-- The comparisons that should find the two zeros equal, and do not. -/
def ComparesZeros {F : FloatFormat} (op : FpuMiscOp) (rs1 rs2 : F.Word) : Prop :=
  rs1.low = 0 ∧ rs2.low = 0 ∧
    (op = .eq ∧ rs1.sign ≠ rs2.sign ∨ op = .lt ∧ rs1.sign ∧ !rs2.sign ∨
      op = .le ∧ !rs1.sign ∧ rs2.sign)

-- ---------------------------------------------------------------------
-- Classes
-- ---------------------------------------------------------------------

theorem classBit_eq_rvClass {F : FloatFormat} (x : F.Word) : classBit x = rvClass x := by
  have normal := F.normal_lt_inf
  have unit := Nat.two_pow_pos F.fracBits
  unfold classBit
  simp only [FloatFormat.Word.inf_iff, FloatFormat.Word.zero_iff, FloatFormat.Word.subnormal_iff]
  simp only [FloatFormat.Word.exponent_allOnes]
  cases num : x.isNan with
  | true =>
    have beyond := (FloatFormat.Word.isNan_iff x).1 num
    rw [rvClass, if_pos num, if_neg (by omega)]
    cases q : x.quiet
    · simp [beyond.le]
    · simp [beyond.le]
  | false =>
    have below := FloatFormat.Word.low_le num
    have nonneg := FloatFormat.magnitude_nonneg F below
    have top := FloatFormat.magnitude_lt_top F below
    have sub := FloatFormat.magnitude_lt_normal F below
    have none_ := FloatFormat.magnitude_eq_zero F below
    have number : ¬ x.isNan = true := Bool.eq_false_iff.1 num
    rw [rvClass, if_neg number]
    cases s : x.sign with
    | true =>
      have inf := not_congr top
      rw [not_lt_top_iff] at inf
      rw [FloatFormat.Word.value_neg s]
      simp only [EReal.neg_eq_bot_iff, EReal.neg_le_neg_iff, EReal.neg_lt_zero,
        EReal.neg_eq_zero_iff, inf, ← not_lt (b := F.normal), sub, nonneg.lt_iff_ne', ne_eq, none_]
      split_ifs <;> first | rfl | omega
    | false =>
      have order : ¬ F.magnitude x.low.toNat ≤ -F.normal := fun h =>
        absurd (nonneg.trans h) (by rw [EReal.neg_nonneg, not_le]; exact F.normal_pos)
      have bot : F.magnitude x.low.toNat ≠ ⊥ := fun h => by
        rw [h] at nonneg
        exact absurd nonneg (by decide)
      rw [FloatFormat.Word.value_pos s]
      simp only [bot, order, nonneg.not_gt, none_, sub, top, if_false, Bool.false_eq_true]
      split_ifs <;> first | rfl | omega

theorem classBit_lt {F : FloatFormat} (x : F.Word) : classBit x < 10 := by
  unfold classBit
  split_ifs <;> omega

theorem classBits_eq {F : FloatFormat} (x : F.Word) :
    (classBits x).setWidth 64 = BitVec.twoPow 64 (rvClass x) := by
  have wide : ∀ n < 10, (BitVec.twoPow 10 n).setWidth 64 = BitVec.twoPow 64 n := by decide
  rw [← classBit_eq_rvClass]
  exact wide _ (classBit_lt x)

-- ---------------------------------------------------------------------
-- Order
-- ---------------------------------------------------------------------

section Order

variable {F : FloatFormat} {a b : F.Word}

theorem orderKey_le (ha : a.isNan = false) (hb : b.isNan = false) :
    a.orderKey ≤ b.orderKey ↔
      ¬ (b.value < a.value ∨ b.value = a.value ∧ b.sign = true ∧ a.sign = false) := by
  rw [← FloatFormat.Word.orderKey_lt hb ha, BitVec.not_lt]

theorem eq_of_value (ha : a.isNan = false) (hb : b.isNan = false) (same : a.value = b.value)
    (signs : a.sign = b.sign) : a = b := by
  rcases (FloatFormat.Word.value_inj ha hb).1 same with rfl | ⟨low, low'⟩
  · rfl
  · exact FloatFormat.Word.ext_iff.2 ⟨signs, low.trans low'.symm⟩

/-- Where the keys of equal numbers differ these are the two zeros. -/
theorem zeros_iff (ha : a.isNan = false) (hb : b.isNan = false) :
    a.value = b.value ∧ a.sign = true ∧ b.sign = false ↔
      a.low = 0 ∧ b.low = 0 ∧ a.sign = true ∧ b.sign = false := by
  rw [FloatFormat.Word.value_inj ha hb]
  constructor
  · rintro ⟨rfl | zeros, neg, pos⟩
    · rw [neg] at pos
      cases pos
    · exact ⟨zeros.1, zeros.2, neg, pos⟩
  · rintro ⟨low, low', signs⟩
    exact ⟨.inr ⟨low, low'⟩, signs⟩

theorem number_of_low (zero : a.low = 0) : a.isNan = false := by
  rw [← Bool.not_eq_true, FloatFormat.Word.isNan_iff, zero]
  simp

theorem floatResult_eq (op : FpuMiscOp) (a b : F.Word) :
    floatResult (canonicalNan F) op a b = rvFloat op a b := by
  cases op with
  | min =>
    unfold floatResult rvFloat
    cases ha : a.isNan <;> cases hb : b.isNan <;> try rfl
    simp only [Bool.and_self, Bool.false_eq_true, if_false, orderKey_le ha hb, ite_not]
    by_cases less : b.value < a.value
    · simp only [less, true_or, if_true]
    · by_cases same : b.value = a.value
      · cases s : b.sign <;> cases s' : a.sign
        case true.true => rw [eq_of_value hb ha same (s.trans s'.symm), ite_self, ite_self]
        all_goals simp [same]
      · simp only [less, same, false_and, or_self, if_false]
  | max =>
    unfold floatResult rvFloat
    cases ha : a.isNan <;> cases hb : b.isNan <;> try rfl
    simp only [Bool.and_self, Bool.false_eq_true, if_false, ge_iff_le, orderKey_le hb ha, ite_not]
    by_cases less : a.value < b.value
    · simp only [less, true_or, if_true]
    · by_cases same : a.value = b.value
      · cases s : a.sign <;> cases s' : b.sign
        case true.true => rw [eq_of_value ha hb same (s.trans s'.symm), ite_self, ite_self]
        all_goals simp [same]
      · simp only [less, same, false_and, or_self, if_false]
  | _ => rfl

theorem flag_eq_iff (p : Bool) (q : Prop) [Decidable q] :
    (BitVec.ofBool p).setWidth 64 = (if q then 1 else 0) ↔ (p = true ↔ q) := by
  cases p <;> by_cases h : q <;> simp [h]

theorem comparesZeros_number {op : FpuMiscOp} (zeros : ComparesZeros op a b) :
    a.isNan = false ∧ b.isNan = false :=
  ⟨number_of_low zeros.1, number_of_low zeros.2.1⟩

theorem orderKey_lt_iff (ha : a.isNan = false) (hb : b.isNan = false) :
    (a.orderKey < b.orderKey ↔ a.value < b.value) ↔
      ¬ (a.low = 0 ∧ b.low = 0 ∧ a.sign = true ∧ b.sign = false) := by
  rw [FloatFormat.Word.orderKey_lt ha hb, zeros_iff ha hb]
  constructor
  · intro right zeros
    have same := (FloatFormat.Word.value_inj ha hb).2 (.inr ⟨zeros.1, zeros.2.1⟩)
    exact absurd same (right.1 (.inr zeros)).ne
  · intro other
    rw [or_iff_left other]

theorem orderKey_le_iff (ha : a.isNan = false) (hb : b.isNan = false) :
    (a.orderKey ≤ b.orderKey ↔ a.value ≤ b.value) ↔
      ¬ (b.low = 0 ∧ a.low = 0 ∧ b.sign = true ∧ a.sign = false) := by
  rw [← BitVec.not_lt, ← not_lt, not_iff_not, orderKey_lt_iff hb ha]

/-- A comparison with a NaN fails in both. -/
theorem intResult_nan (op : FpuMiscOp) (nan : ¬ (a.isNan = false ∧ b.isNan = false)) :
    intResult op a b = rvInt op a b := by
  have some_ : (a.isNan || b.isNan) = true := by
    rwa [← Bool.not_eq_false, Bool.or_eq_false_iff]
  have none_ (p : Prop) : ¬ ((!a.isNan) = true ∧ (!b.isNan) = true ∧ p) := fun h =>
    nan ⟨Bool.not_eq_true' _ ▸ h.1, Bool.not_eq_true' _ ▸ h.2.1⟩
  cases op with
  | cls => exact classBits_eq a
  | eq | lt | le =>
    simp only [intResult, rvInt, flag_eq_iff, some_, none_, Bool.not_true, Bool.false_and,
      Bool.false_eq_true]
  | _ => rfl

/-- A comparison is right but for the two zeros. -/
theorem intResult_eq_iff (op : FpuMiscOp) (a b : F.Word) :
    intResult op a b = rvInt op a b ↔ ¬ ComparesZeros op a b := by
  by_cases numbers : a.isNan = false ∧ b.isNan = false
  · obtain ⟨ha, hb⟩ := numbers
    cases op with
    | eq =>
      simp only [intResult, rvInt, flag_eq_iff, ha, hb, Bool.or_self, Bool.not_false, Bool.true_and,
        beq_iff_eq, true_and, ComparesZeros, reduceCtorEq, false_and, or_false]
      rw [FloatFormat.Word.value_inj ha hb, FloatFormat.Word.ext_iff]
      constructor
      · rintro right ⟨low, low', signs⟩
        exact signs (right.2 (.inr ⟨low, low'⟩)).1
      · intro other
        refine ⟨.inl, fun h => h.elim id fun zeros => ?_⟩
        exact ⟨by_contra fun signs => other ⟨zeros.1, zeros.2, signs⟩, zeros.1.trans zeros.2.symm⟩
    | lt =>
      have order := orderKey_lt_iff ha hb
      simp only [intResult, rvInt, flag_eq_iff, ha, hb]
      simpa [ComparesZeros] using order
    | le =>
      have order := orderKey_le_iff ha hb
      simp only [intResult, rvInt, flag_eq_iff, ha, hb]
      simpa [ComparesZeros, and_comm, and_left_comm] using order
    | cls =>
      refine iff_of_true (classBits_eq a) ?_
      simp [ComparesZeros]
    | _ => simp [intResult, rvInt, ComparesZeros]
  · exact iff_of_true (intResult_nan op numbers) fun zeros => numbers (comparesZeros_number zeros)

end Order

theorem nv_eq {F : FloatFormat} (op : FpuMiscOp) (a b : F.Word) : nv op a b = rvInvalid op a b := by
  cases op <;> rfl

theorem selected_eq_iff {F : FloatFormat} (box : F.Word → BitVec 64) (op : FpuMiscOp)
    (a b : F.Word) :
    (if writesInt op then intResult op a b else box (floatResult (canonicalNan F) op a b)) =
        (if writesInt op then rvInt op a b else box (rvFloat op a b)) ↔
      ¬ ComparesZeros op a b := by
  rw [floatResult_eq]
  cases int : writesInt op with
  | true => exact intResult_eq_iff op a b
  | false =>
    refine iff_of_true rfl fun zeros => ?_
    rcases zeros.2.2 with ⟨rfl, _⟩ | ⟨rfl, _⟩ | ⟨rfl, _⟩ <;> cases int

theorem canonicalNanS_eq : canonicalNanS = canonicalNan single := by decide

theorem canonicalNanD_eq : canonicalNanD = canonicalNan double := by decide

theorem singleView_eq (data : BitVec 64) : singleView data = unbox data := by
  rw [singleView, unbox, canonicalNanS_eq]

/-- The operands are read as the two zeros, and the comparison is one that should find them equal. -/
def ZerosCompared (op : FpuMiscOp) (fmt : FpFmt) (rs1 rs2 : BitVec 64) : Prop :=
  match fmt with
  | .s => ComparesZeros op (unbox rs1) (unbox rs2)
  | .d => ComparesZeros (F := double) op rs1 rs2

/-- The unit answers as the F and D extensions ask, unless it compares the two zeros. -/
theorem fpuMisc_right_iff (valid : Bool) (op : FpuMiscOp) (fmt : FpFmt) (rs1 rs2 : BitVec 64) :
    ((fpuMisc valid op fmt rs1 rs2).result, (fpuMisc valid op fmt rs1 rs2).status) =
        rvMisc op fmt rs1 rs2 ↔
      ¬ ZerosCompared op fmt rs1 rs2 := by
  cases fmt with
  | s =>
    have right := selected_eq_iff (F := single) (fun x => BitVec.allOnes 32 ++ x) op (unbox rs1)
      (unbox rs2)
    simp only [fpuMisc, rvMisc, ZerosCompared, singleView_eq, canonicalNanS_eq, nv_eq, Prod.mk.injEq,
      and_true]
    exact right
  | d =>
    have right := selected_eq_iff (F := double) id op rs1 rs2
    simp only [fpuMisc, rvMisc, ZerosCompared, canonicalNanD_eq, nv_eq, Prod.mk.injEq, and_true]
    exact right

/-- `feq.d` of `+0` and `-0` -/
theorem feq_zeros_differ :
    (fpuMisc true .eq .d 0 0x8000000000000000).result = 0 ∧
      (rvMisc .eq .d 0 0x8000000000000000).1 = 1 := by
  have same : FloatFormat.Word.value (F := double) 0 = FloatFormat.Word.value 0x8000000000000000 :=
    (FloatFormat.Word.value_inj (by decide) (by decide)).2 (.inr ⟨by decide, by decide⟩)
  have numbers : (!FloatFormat.Word.isNan (F := double) 0) = true ∧
      (!FloatFormat.Word.isNan (F := double) 0x8000000000000000) = true := by decide
  refine ⟨by decide, ?_⟩
  exact if_pos ⟨numbers.1, numbers.2, same⟩

end Rv64gc.Execute
