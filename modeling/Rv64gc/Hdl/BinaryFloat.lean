import Mathlib.Data.EReal.Operations
import Mathlib.Order.Monotone.Basic
import Mathlib.Tactic

/-!
# Binary floating point

The interchange formats: a sign, an exponent and a fraction. Below infinity the bits of a magnitude,
read as a number, are in the order of what they stand for, whatever the widths of the fields are.
-/

namespace Rv64gc.Hdl

structure FloatFormat where
  expBits : Nat
  fracBits : Nat
  expBits_gt : 1 < expBits

namespace FloatFormat

abbrev Word (F : FloatFormat) : Type := BitVec (1 + (F.expBits + F.fracBits))

variable (F : FloatFormat)

def bias : Int := 2 ^ (F.expBits - 1) - 1

-- ---------------------------------------------------------------------
-- Magnitudes
-- ---------------------------------------------------------------------

/-- The bits of infinity. -/
def infBits : Nat := (2 ^ F.expBits - 1) * 2 ^ F.fracBits

/-- The number with this exponent and fraction. -/
noncomputable def finite (exp frac : Nat) : ℝ :=
  if exp = 0 then frac * 2 ^ (1 - F.bias - F.fracBits)
  else (2 ^ F.fracBits + frac) * 2 ^ (exp - F.bias - F.fracBits)

/-- What the bits below the sign stand for. -/
noncomputable def magnitude (n : Nat) : EReal :=
  if n = F.infBits then ⊤ else F.finite (n / 2 ^ F.fracBits) (n % 2 ^ F.fracBits)

/-- The same in units of the smallest number. -/
def scaled (n : Nat) : Nat :=
  if n / 2 ^ F.fracBits = 0 then n % 2 ^ F.fracBits
  else (2 ^ F.fracBits + n % 2 ^ F.fracBits) * 2 ^ (n / 2 ^ F.fracBits - 1)

noncomputable def smallest : ℝ := 2 ^ (1 - F.bias - F.fracBits)

theorem smallest_pos : 0 < F.smallest := by
  unfold smallest
  positivity

theorem finite_eq (n : Nat) :
    F.finite (n / 2 ^ F.fracBits) (n % 2 ^ F.fracBits) = F.scaled n * F.smallest := by
  unfold finite scaled smallest
  split
  next => rfl
  next some_ =>
    obtain ⟨e, exp⟩ := Nat.exists_eq_succ_of_ne_zero some_
    have power : ((e.succ : Nat) : Int) - F.bias - F.fracBits =
        (e : Int) + (1 - F.bias - F.fracBits) := by
      push_cast
      ring
    rw [exp, power, zpow_add₀ two_ne_zero, Nat.succ_sub_one]
    push_cast
    rw [zpow_natCast]
    ring

theorem scaled_at (exp frac : Nat) (fits : frac < 2 ^ F.fracBits) :
    F.scaled (2 ^ F.fracBits * exp + frac) =
      if exp = 0 then frac else (2 ^ F.fracBits + frac) * 2 ^ (exp - 1) := by
  unfold scaled
  rw [Nat.mul_add_div (Nat.two_pow_pos _), Nat.div_eq_of_lt fits, Nat.mul_add_mod,
    Nat.mod_eq_of_lt fits, Nat.add_zero]

/-- A carry out of the fraction doubles the unit and starts it again at the least. -/
theorem scaled_succ (n : Nat) : F.scaled n < F.scaled (n + 1) := by
  have fits := Nat.mod_lt n (Nat.two_pow_pos F.fracBits)
  have parts := Nat.div_add_mod n (2 ^ F.fracBits)
  generalize n / 2 ^ F.fracBits = exp at parts
  generalize n % 2 ^ F.fracBits = frac at parts fits
  subst parts
  rw [scaled_at F exp frac fits]
  by_cases carry : frac + 1 < 2 ^ F.fracBits
  · rw [Nat.add_assoc, scaled_at F exp _ carry]
    split
    next => omega
    next => exact Nat.mul_lt_mul_of_pos_right (by omega) (Nat.two_pow_pos _)
  · have next_ : 2 ^ F.fracBits * exp + frac + 1 = 2 ^ F.fracBits * (exp + 1) + 0 := by
      rw [Nat.mul_add, Nat.mul_one]
      omega
    rw [next_, scaled_at F _ 0 (Nat.two_pow_pos _), if_neg exp.succ_ne_zero, Nat.add_sub_cancel]
    cases exp with
    | zero => simpa using fits
    | succ e =>
      rw [if_neg e.succ_ne_zero, Nat.add_sub_cancel, Nat.pow_succ]
      have unit := Nat.two_pow_pos e
      nlinarith

theorem scaled_strictMono : StrictMono F.scaled := strictMono_nat_of_lt_succ F.scaled_succ

theorem scaled_zero : F.scaled 0 = 0 := by
  simp [scaled]

theorem magnitude_of_lt (h : n < F.infBits) :
    F.magnitude n = ((F.scaled n * F.smallest : ℝ) : EReal) := by
  rw [magnitude, if_neg (by omega), finite_eq]

theorem magnitude_infBits : F.magnitude F.infBits = ⊤ := if_pos rfl

/-- Up to infinity the bits are in the order of the numbers. -/
theorem magnitude_lt (hn : n ≤ F.infBits) (hm : m ≤ F.infBits) :
    F.magnitude n < F.magnitude m ↔ n < m := by
  rcases Nat.lt_or_eq_of_le hn with low | rfl
  · rcases Nat.lt_or_eq_of_le hm with low' | rfl
    · rw [magnitude_of_lt F low, magnitude_of_lt F low', EReal.coe_lt_coe_iff,
        mul_lt_mul_iff_of_pos_right F.smallest_pos, Nat.cast_lt]
      exact F.scaled_strictMono.lt_iff_lt
    · rw [magnitude_infBits, magnitude_of_lt F low]
      exact iff_of_true (EReal.coe_lt_top _) low
  · rw [magnitude_infBits]
    exact iff_of_false not_top_lt (by omega)

theorem magnitude_inj (hn : n ≤ F.infBits) (hm : m ≤ F.infBits) :
    F.magnitude n = F.magnitude m ↔ n = m := by
  constructor
  · intro same
    rcases Nat.lt_trichotomy n m with h | h | h
    · exact absurd ((magnitude_lt F hn hm).2 h) (same ▸ lt_irrefl _)
    · exact h
    · exact absurd ((magnitude_lt F hm hn).2 h) (same ▸ lt_irrefl _)
  · rintro rfl
    rfl

theorem two_le_codes : 4 ≤ 2 ^ F.expBits :=
  Nat.pow_le_pow_right (n := 2) (by omega) F.expBits_gt

/-- Below infinity is at least one exponent of normal numbers. -/
theorem normal_lt_inf : 2 ^ F.fracBits < F.infBits := by
  have codes := F.two_le_codes
  have unit := Nat.two_pow_pos F.fracBits
  unfold infBits
  calc 2 ^ F.fracBits = 1 * 2 ^ F.fracBits := (Nat.one_mul _).symm
    _ < (2 ^ F.expBits - 1) * 2 ^ F.fracBits := Nat.mul_lt_mul_of_pos_right (by omega) unit

theorem magnitude_zero : F.magnitude 0 = 0 := by
  rw [magnitude_of_lt F (Nat.zero_lt_of_lt F.normal_lt_inf), scaled_zero]
  simp

theorem magnitude_nonneg (hn : n ≤ F.infBits) : 0 ≤ F.magnitude n := by
  rcases Nat.eq_zero_or_pos n with rfl | pos
  · rw [magnitude_zero]
  · rw [← F.magnitude_zero]
    exact ((magnitude_lt F (Nat.zero_le _) hn).2 pos).le

theorem neg_magnitude_le (hn : n ≤ F.infBits) (hm : m ≤ F.infBits) :
    -F.magnitude n ≤ F.magnitude m := by
  have nonpos : -F.magnitude n ≤ 0 := by
    rw [EReal.neg_le, neg_zero]
    exact magnitude_nonneg F hn
  exact nonpos.trans (magnitude_nonneg F hm)

theorem magnitude_eq_zero (hn : n ≤ F.infBits) : F.magnitude n = 0 ↔ n = 0 := by
  have inj := magnitude_inj F hn (Nat.zero_le _)
  rwa [magnitude_zero] at inj

theorem magnitude_eq_neg (hn : n ≤ F.infBits) (hm : m ≤ F.infBits) :
    F.magnitude n = -F.magnitude m ↔ n = 0 ∧ m = 0 := by
  constructor
  · intro same
    have nonneg := magnitude_nonneg F hn
    rw [same, EReal.neg_nonneg] at nonneg
    have none_ := (magnitude_eq_zero F hm).1 (nonneg.antisymm (magnitude_nonneg F hm))
    rw [none_, magnitude_zero, neg_zero, magnitude_eq_zero F hn] at same
    exact ⟨same, none_⟩
  · rintro ⟨rfl, rfl⟩
    rw [magnitude_zero, neg_zero]

/-- The least number with a full significand. -/
noncomputable def normal : EReal := ((2 ^ (1 - F.bias) : ℝ) : EReal)

theorem magnitude_normal : F.magnitude (2 ^ F.fracBits) = F.normal := by
  have parts := scaled_at F 1 0 (Nat.two_pow_pos _)
  rw [magnitude_of_lt F F.normal_lt_inf, normal]
  rw [if_neg one_ne_zero, Nat.mul_one, Nat.add_zero, Nat.sub_self, Nat.pow_zero,
    Nat.mul_one] at parts
  rw [parts, smallest, zpow_sub₀ two_ne_zero (1 - F.bias), zpow_natCast, EReal.coe_eq_coe_iff]
  push_cast
  field_simp

theorem magnitude_lt_top (hn : n ≤ F.infBits) : F.magnitude n < ⊤ ↔ n < F.infBits := by
  rw [← magnitude_infBits, magnitude_lt F hn le_rfl]

theorem magnitude_lt_normal (hn : n ≤ F.infBits) :
    F.magnitude n < F.normal ↔ n < 2 ^ F.fracBits := by
  rw [← magnitude_normal, magnitude_lt F hn F.normal_lt_inf.le]

theorem normal_pos : 0 < F.normal := by
  rw [normal, EReal.coe_pos]
  positivity

end FloatFormat

-- ---------------------------------------------------------------------
-- Words
-- ---------------------------------------------------------------------

namespace FloatFormat.Word

variable {F : FloatFormat}

def sign (x : F.Word) : Bool := x.msb

def exponent (x : F.Word) : BitVec F.expBits := x.extractLsb' F.fracBits F.expBits

def fraction (x : F.Word) : BitVec F.fracBits := x.extractLsb' 0 F.fracBits

/-- Everything below the sign. -/
def low (x : F.Word) : BitVec (F.expBits + F.fracBits) := x.extractLsb' 0 (F.expBits + F.fracBits)

def signed (s : Bool) (low : BitVec (F.expBits + F.fracBits)) : F.Word := BitVec.ofBool s ++ low

def isNan (x : F.Word) : Bool := x.exponent = BitVec.allOnes _ && x.fraction != 0

/-- The top bit of the fraction: a NaN that does not signal has it. -/
def quiet (x : F.Word) : Bool := x.fraction.msb

/-- An unsigned key: the negative numbers, turned around, under the positive ones. -/
def orderKey (x : F.Word) : F.Word := if x.sign then ~~~x else signed true x.low

noncomputable def value (x : F.Word) : EReal :=
  if x.sign then -F.magnitude x.low.toNat else F.magnitude x.low.toNat

theorem low_toNat (x : F.Word) : x.low.toNat = x.toNat % 2 ^ (F.expBits + F.fracBits) := by
  unfold low
  rw [BitVec.extractLsb'_toNat, Nat.shiftRight_zero]

theorem toNat_eq (x : F.Word) :
    x.toNat = x.sign.toNat * 2 ^ (F.expBits + F.fracBits) + x.low.toNat := by
  have bound := x.isLt
  rw [low_toNat]
  unfold sign
  rw [BitVec.msb_eq_decide, Nat.add_sub_cancel_left]
  rw [Nat.pow_add, Nat.pow_one] at bound
  generalize 2 ^ (F.expBits + F.fracBits) = half at bound ⊢
  by_cases top : half ≤ x.toNat
  · rw [Nat.mod_eq_sub_mod top, Nat.mod_eq_of_lt (by omega)]
    simp only [top, decide_true, Bool.toNat_true]
    omega
  · rw [Nat.mod_eq_of_lt (by omega)]
    simp [top]

theorem ext_iff {x y : F.Word} : x = y ↔ x.sign = y.sign ∧ x.low = y.low := by
  constructor
  · rintro rfl
    exact ⟨rfl, rfl⟩
  · rintro ⟨signs, lows⟩
    apply BitVec.eq_of_toNat_eq
    rw [toNat_eq x, toNat_eq y, signs, lows]

theorem low_parts (x : F.Word) :
    x.low.toNat = 2 ^ F.fracBits * x.exponent.toNat + x.fraction.toNat := by
  rw [low_toNat]
  unfold exponent fraction
  rw [BitVec.extractLsb'_toNat, BitVec.extractLsb'_toNat, Nat.shiftRight_zero,
    Nat.shiftRight_eq_div_pow, Nat.pow_add, Nat.mul_comm (2 ^ F.expBits), Nat.mod_mul]
  omega

theorem exponent_allOnes (x : F.Word) :
    x.exponent = BitVec.allOnes _ ↔ F.infBits ≤ x.low.toNat := by
  have codes := x.exponent.isLt
  have rest := x.fraction.isLt
  rw [low_parts, ← BitVec.toNat_inj, BitVec.toNat_allOnes, infBits, Nat.mul_comm]
  constructor
  · intro all
    rw [all]
    omega
  · intro inf
    by_contra some_
    have short : x.exponent.toNat + 1 ≤ 2 ^ F.expBits - 1 := by omega
    have gap := Nat.mul_le_mul_left (2 ^ F.fracBits) short
    rw [Nat.mul_add, Nat.mul_one] at gap
    omega

theorem exponent_zero (x : F.Word) : x.exponent = 0 ↔ x.low.toNat < 2 ^ F.fracBits := by
  have rest := x.fraction.isLt
  rw [low_parts, ← BitVec.toNat_inj]
  constructor
  · intro none_
    rw [none_]
    simpa using rest
  · intro sub
    by_contra some_
    have unit := Nat.mul_le_mul_left (2 ^ F.fracBits) (Nat.one_le_iff_ne_zero.2 some_)
    omega

theorem fraction_zero (x : F.Word) :
    x.fraction = 0 ↔ x.low.toNat = 2 ^ F.fracBits * x.exponent.toNat := by
  rw [low_parts, ← BitVec.toNat_inj]
  simp

theorem inf_iff (x : F.Word) :
    x.exponent = BitVec.allOnes _ ∧ x.fraction = 0 ↔ x.low.toNat = F.infBits := by
  constructor
  · rintro ⟨all, none_⟩
    rw [(fraction_zero x).1 none_, all, BitVec.toNat_allOnes, infBits, Nat.mul_comm]
  · intro inf
    have all := (exponent_allOnes x).2 inf.ge
    refine ⟨all, (fraction_zero x).2 ?_⟩
    rw [inf, all, BitVec.toNat_allOnes, infBits, Nat.mul_comm]

theorem zero_iff (x : F.Word) : x.exponent = 0 ∧ x.fraction = 0 ↔ x.low.toNat = 0 := by
  rw [low_parts, ← BitVec.toNat_inj, ← BitVec.toNat_inj]
  simp [Nat.add_eq_zero_iff]

theorem subnormal_iff (x : F.Word) :
    x.exponent = 0 ∧ x.fraction ≠ 0 ↔ x.low.toNat < 2 ^ F.fracBits ∧ x.low.toNat ≠ 0 := by
  rw [← exponent_zero, ne_eq, ne_eq, ← zero_iff, not_and]
  exact ⟨fun h => ⟨h.1, fun _ => h.2⟩, fun h => ⟨h.1, h.2 h.1⟩⟩

/-- A NaN is what lies beyond infinity. -/
theorem isNan_iff (x : F.Word) : x.isNan = true ↔ F.infBits < x.low.toNat := by
  unfold isNan
  rw [Bool.and_eq_true, decide_eq_true_eq, bne_iff_ne]
  constructor
  · rintro ⟨all, some_⟩
    exact lt_of_le_of_ne ((exponent_allOnes x).1 all)
      fun inf => some_ ((inf_iff x).2 inf.symm).2
  · intro beyond
    have all := (exponent_allOnes x).2 beyond.le
    exact ⟨all, fun none_ => absurd ((inf_iff x).1 ⟨all, none_⟩) beyond.ne'⟩

theorem low_le {x : F.Word} (num : x.isNan = false) : x.low.toNat ≤ F.infBits := by
  rw [← Bool.not_eq_true, isNan_iff] at num
  omega

theorem orderKey_toNat (x : F.Word) :
    x.orderKey.toNat =
      if x.sign then 2 ^ (F.expBits + F.fracBits) - 1 - x.low.toNat
      else 2 ^ (F.expBits + F.fracBits) + x.low.toNat := by
  have parts := toNat_eq x
  have bound := x.low.isLt
  unfold orderKey
  cases s : x.sign with
  | true =>
    rw [s, Bool.toNat_true, Nat.one_mul] at parts
    rw [if_pos rfl, if_pos rfl, BitVec.toNat_not, parts, Nat.pow_add 2 1, Nat.pow_one]
    omega
  | false =>
    rw [if_neg (by simp), if_neg (by simp), signed, BitVec.toNat_append, BitVec.toNat_ofBool,
      Bool.toNat_true, ← Nat.shiftLeft_add_eq_or_of_lt bound, Nat.one_shiftLeft]

theorem value_pos {x : F.Word} (s : x.sign = false) : x.value = F.magnitude x.low.toNat := by
  rw [value, s, if_neg (by simp)]

theorem value_neg {x : F.Word} (s : x.sign = true) : x.value = -F.magnitude x.low.toNat := by
  rw [value, s, if_pos rfl]

/-- The keys are ordered as the numbers are, the two zeros apart: there the negative one is less. -/
theorem orderKey_lt {a b : F.Word} (ha : a.isNan = false) (hb : b.isNan = false) :
    a.orderKey < b.orderKey ↔
      a.value < b.value ∨ a.value = b.value ∧ a.sign = true ∧ b.sign = false := by
  have below := low_le ha
  have below' := low_le hb
  have bound := a.low.isLt
  have bound' := b.low.isLt
  rw [BitVec.lt_def, orderKey_toNat, orderKey_toNat]
  cases s : a.sign <;> cases s' : b.sign
  case false.false =>
    rw [value_pos s, value_pos s', magnitude_lt F below below']
    simp
  case false.true =>
    have order : ¬ a.value < b.value := by
      rw [value_pos s, value_neg s', not_lt]
      exact neg_magnitude_le F below' below
    simp only [order, Bool.false_eq_true, if_false, if_true, false_and, and_false, or_false,
      iff_false]
    omega
  case true.false =>
    have order : a.value ≤ b.value := by
      rw [value_neg s, value_pos s']
      exact neg_magnitude_le F below below'
    simp only [Bool.false_eq_true, if_false, if_true, and_self, and_true, ← le_iff_lt_or_eq, order,
      iff_true]
    omega
  case true.true =>
    rw [value_neg s, value_neg s', EReal.neg_lt_neg_iff, magnitude_lt F below' below]
    simp only [if_true, Bool.true_eq_false, and_false, or_false]
    omega

/-- Two words stand for one number only as the two zeros. -/
theorem value_inj {a b : F.Word} (ha : a.isNan = false) (hb : b.isNan = false) :
    a.value = b.value ↔ a = b ∨ a.low = 0 ∧ b.low = 0 := by
  have below := low_le ha
  have below' := low_le hb
  have zero_iff (x : F.Word) : x.low = 0 ↔ x.low.toNat = 0 := by
    rw [← BitVec.toNat_inj]
    rfl
  rw [ext_iff, zero_iff, zero_iff, ← BitVec.toNat_inj]
  cases s : a.sign <;> cases s' : b.sign
  case false.false =>
    rw [value_pos s, value_pos s', magnitude_inj F below below']
    simp only [eq_self, true_and]
    omega
  case false.true =>
    rw [value_pos s, value_neg s', magnitude_eq_neg F below below']
    simp
  case true.false =>
    rw [value_neg s, value_pos s', eq_comm, magnitude_eq_neg F below' below]
    simp [and_comm]
  case true.true =>
    rw [value_neg s, value_neg s', neg_inj, magnitude_inj F below below']
    simp only [eq_self, true_and]
    omega

end FloatFormat.Word

end Rv64gc.Hdl
