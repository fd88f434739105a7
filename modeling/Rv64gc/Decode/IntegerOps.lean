import Rv64gc.Execute.Alu
import Rv64gc.Decode.InstructionSet

/-!
# The ALU computes the integer operations

The control word of each integer operation, and that the ALU then returns the operation's value.
-/

namespace Rv64gc.Decode

open Execute

namespace IntOp

def aluOp : IntOp → AluOp
  | .add | .addw | .addUw => .add
  | .sub | .subw => .sub
  | .sll | .sllw | .slliUw => .sll
  | .slt => .slt
  | .sltu => .sltu
  | .xor => .xor
  | .srl | .srlw => .srl
  | .sra | .sraw => .sra
  | .or => .or
  | .and | .zexth => .and
  | .sh1add | .sh1addUw => .sh1add
  | .sh2add | .sh2addUw => .sh2add
  | .sh3add | .sh3addUw => .sh3add
  | .andn => .andn
  | .orn => .orn
  | .xnor => .xnor
  | .clz | .clzw => .clz
  | .ctz | .ctzw => .ctz
  | .cpop | .cpopw => .cpop
  | .max => .max
  | .maxu => .maxu
  | .min => .min
  | .minu => .minu
  | .sextb => .sextb
  | .sexth => .sexth
  | .rol | .rolw => .rol
  | .ror | .rorw => .ror
  | .orcb => .orcb
  | .rev8 => .rev8
  | .bclr => .bclr
  | .bext => .bext
  | .binv => .binv
  | .bset => .bset
  | .czeroEqz => .czeroEqz
  | .czeroNez => .czeroNez

/-- The operations with operands of one word. -/
def onWords : IntOp → Bool
  | .addw | .subw | .sllw | .srlw | .sraw | .addUw | .sh1addUw | .sh2addUw | .sh3addUw | .slliUw
  | .clzw | .ctzw | .cpopw | .rolw | .rorw | .zexth => true
  | _ => false

/-- The word operations that take the first operand without its sign. -/
def unsignedWord : IntOp → Bool
  | .addUw | .sh1addUw | .sh2addUw | .sh3addUw | .slliUw => true
  | _ => false

/-- How many bits of the second operand the shifts and the bit operations read. -/
def amountBits : IntOp → Option Nat
  | .sll | .srl | .sra | .rol | .ror | .bset | .bclr | .binv | .bext | .slliUw => some 6
  | .sllw | .srlw | .sraw | .rolw | .rorw => some 5
  | _ => none

end IntOp

-- ---------------------------------------------------------------------
-- Shift amounts and rotations
-- ---------------------------------------------------------------------

section Shifts

variable (x : AluIn)

theorem shamt_double (wide : x.isWOp = false) : x.shamt.toNat = x.b.toNat % 64 := by
  simp [AluIn.shamt, wide]

theorem shamt32_word : x.shamt32.toNat = x.b.toNat % 32 := by
  unfold AluIn.shamt32 AluIn.shamt
  split <;> simp

theorem negated_amount {w k : Nat} (width : w = 2 ^ k) (s : BitVec k) :
    (0 - s).toNat = if s.toNat = 0 then 0 else w - s.toNat := by
  have small : s.toNat < w := width ▸ s.isLt
  rw [BitVec.toNat_sub, ← width]
  split_ifs with zero
  · simp [zero]
  · simp [Nat.mod_eq_of_lt (show w - s.toNat < w by omega)]

/-- A rotation by two shifts, the second by the negated amount. -/
theorem rotateLeft_of_shifts {w k : Nat} (width : w = 2 ^ k) (a : BitVec w) (s : BitVec k) :
    (a <<< s.toNat) ||| (a >>> (0 - s).toNat) = a.rotateLeft s.toNat := by
  have small : s.toNat < w := width ▸ s.isLt
  rw [BitVec.rotateLeft_def, Nat.mod_eq_of_lt small, negated_amount width]
  split_ifs with zero
  · simp [zero, BitVec.ushiftRight_eq_zero]
  · rfl

theorem rotateRight_of_shifts {w k : Nat} (width : w = 2 ^ k) (a : BitVec w) (s : BitVec k) :
    (a >>> s.toNat) ||| (a <<< (0 - s).toNat) = a.rotateRight s.toNat := by
  have small : s.toNat < w := width ▸ s.isLt
  rw [BitVec.rotateRight_def, Nat.mod_eq_of_lt small, negated_amount width]
  split_ifs with zero
  · simp [zero, BitVec.shiftLeft_eq_zero]
  · rfl

theorem rol_double (wide : x.isWOp = false) : x.rol = x.a.rotateLeft (x.b.toNat % 64) := by
  unfold AluIn.rol
  rw [wide, if_neg Bool.false_ne_true, rotateLeft_of_shifts (w := 64) (k := 6) rfl,
    shamt_double x wide]

theorem ror_double (wide : x.isWOp = false) : x.ror = x.a.rotateRight (x.b.toNat % 64) := by
  unfold AluIn.ror
  rw [wide, if_neg Bool.false_ne_true, rotateRight_of_shifts (w := 64) (k := 6) rfl,
    shamt_double x wide]

theorem rol_word (narrow : x.isWOp = true) :
    x.rol = word ((low x.a).rotateLeft (x.b.toNat % 32)) := by
  unfold AluIn.rol
  rw [if_pos narrow, rotateLeft_of_shifts (w := 32) (k := 5) rfl, shamt32_word]
  rfl

theorem ror_word (narrow : x.isWOp = true) :
    x.ror = word ((low x.a).rotateRight (x.b.toNat % 32)) := by
  unfold AluIn.ror
  rw [if_pos narrow, rotateRight_of_shifts (w := 32) (k := 5) rfl, shamt32_word]
  rfl

end Shifts

-- ---------------------------------------------------------------------
-- Counting bits
-- ---------------------------------------------------------------------

section Counts

variable (x : AluIn)

theorem findIdx?_range (p : Nat → Bool) (n : Nat) :
    (List.range n).findIdx? p = (List.range n).find? p := by
  cases found : (List.range n).find? p with
  | none =>
    rw [List.findIdx?_eq_none_iff]
    intro k hk
    simpa using List.find?_eq_none.mp found k hk
  | some k =>
    obtain ⟨hp, hk, before⟩ := List.find?_range_eq_some.mp found
    rw [List.findIdx?_eq_some_iff_getElem]
    refine ⟨by simpa using hk, by simpa using hp, fun j hj => ?_⟩
    simpa using before j hj

theorem ctz_zerosBefore (width : x.width = n) :
    BitVec.ofNat 64 x.ctz = zerosBefore x.a (List.range n) := by
  unfold zerosBefore
  rw [findIdx?_range, List.length_range, ← width]
  rfl

theorem clz_zerosBefore (width : x.width = n) :
    BitVec.ofNat 64 x.clz = zerosBefore x.a (List.range n).reverse := by
  have down : (List.range n).reverse = (List.range n).map fun k => n - 1 - k := by
    rw [List.range_eq_range', List.reverse_range', ← List.range_eq_range', Nat.zero_add]
  unfold zerosBefore
  rw [List.length_reverse, List.length_range, down, List.findIdx?_map, findIdx?_range, ← width]
  rfl

theorem cpop_population (width : x.width = n) :
    BitVec.ofNat 64 x.cpop = population x.a n := by
  rw [← width]
  rfl

end Counts

-- ---------------------------------------------------------------------
-- All operations
-- ---------------------------------------------------------------------

namespace IntOp

theorem and_halfMask (a : Word) : a &&& 0xFFFF#64 = (a.setWidth 16).setWidth 64 := by
  refine BitVec.eq_of_getLsbD_eq fun k hk => ?_
  have mask : (0xFFFF#64).getLsbD k = decide (k < 16) := by
    have all : ∀ k < 64, (0xFFFF#64).getLsbD k = decide (k < 16) := by decide
    exact all k hk
  rw [BitVec.getLsbD_and, mask, BitVec.getLsbD_setWidth, BitVec.getLsbD_setWidth, decide_eq_true hk,
    Bool.true_and, Bool.and_comm]

/-- ZEXT.H is carried out as an AND with the mask in place of the missing operand. -/
theorem alu_value (o : IntOp) (x : AluIn) (narrow : x.isWOp = o.onWords)
    (uns : x.isUnsigned = o.unsignedWord) (mask : o = zexth → x.b = 0xFFFF#64) :
    alu o.aluOp x = o.value x.a x.b := by
  have width : x.width = if o.onWords then 32 else 64 := by rw [← narrow]; rfl
  cases o <;> simp only [aluOp, onWords, unsignedWord] at narrow uns width ⊢ <;>
    simp only [alu, value, narrow, uns, Bool.and_true, Bool.and_false, Bool.false_eq_true, if_true,
      if_false, AluIn.zbaSrc, AluIn.bitMask, shamt_double, shamt32_word] <;> try rfl
  case clz | clzw => exact clz_zerosBefore x width
  case ctz | ctzw => exact ctz_zerosBefore x width
  case cpop | cpopw => exact cpop_population x width
  case max => simp [BitVec.sle_eq_not_slt, ← Bool.not_eq_true]
  case maxu => simp [BitVec.ule_eq_not_ult, ← Bool.not_eq_true]
  case zexth => rw [mask rfl, and_halfMask]
  case rol => exact rol_double x narrow
  case ror => exact ror_double x narrow
  case rolw => exact rol_word x narrow
  case rorw => exact ror_word x narrow

end IntOp

end Rv64gc.Decode
