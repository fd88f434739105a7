import Rv64gc.Decode.Insn
import Rv64gc.Execute.Alu
import Rv64gc.Hdl.Bits

/-!
# The multiplier

`multiplier.sv`: one product of 128 bits for each treatment of the signs, and a register for the
half of it that the operation asks for.
-/

namespace Rv64gc.Execute

/-- `operand_a`, `operand_b`, `op` and `is_w_op` -/
structure MulReq where
  op : MulOp
  isW : Bool
  a : Word
  b : Word
deriving DecidableEq

namespace MulReq

variable (r : MulReq)

/-- `ext_a` and `ext_b`, of an operand -/
def extended (x : Word) : Word := if r.isW then (x.setWidth 32).signExtend 64 else x

def extA : Word := r.extended r.a

def extB : Word := r.extended r.b

def productSS : BitVec 128 := r.extA.signExtend 128 * r.extB.signExtend 128

def productSU : BitVec 128 := r.extA.signExtend 128 * r.extB.setWidth 128

def productUU : BitVec 128 := r.extA.setWidth 128 * r.extB.setWidth 128

def productSel : BitVec 128 :=
  match r.op with
  | .mul => r.productSS
  | .mulh => r.productSS
  | .mulhsu => r.productSU
  | .mulhu => r.productUU

def resultSel : Word :=
  match r.op with
  | .mul =>
    if r.isW then (r.productSel.setWidth 32).signExtend 64 else r.productSel.setWidth 64
  | .mulh => r.productSel.extractLsb' 64 64
  | .mulhsu => r.productSel.extractLsb' 64 64
  | .mulhu => r.productSel.extractLsb' 64 64

end MulReq

/-- `s1_valid` and `s1_result` -/
structure Multiplier where
  validOut : Bool
  result : Word

namespace Multiplier

def next (s : Multiplier) (validIn : Option MulReq) (flush : Bool) : Multiplier :=
  if flush then { s with validOut := false }
  else
    match validIn with
    | some r => ⟨true, r.resultSel⟩
    | none => { s with validOut := false }

end Multiplier

-- ---------------------------------------------------------------------
-- What it computes
-- ---------------------------------------------------------------------

/-- A multiplication of the instruction set: the low half of the product, or the high half of the
product of signed or unsigned operands. -/
def rvMultiply (op : MulOp) (a b : BitVec w) : BitVec w :=
  match op with
  | .mul => a * b
  | .mulh => BitVec.ofInt w (a.toInt * b.toInt / 2 ^ w)
  | .mulhsu => BitVec.ofInt w (a.toInt * b.toNat / 2 ^ w)
  | .mulhu => BitVec.ofNat w (a.toNat * b.toNat / 2 ^ w)

/-- The value of the instruction; MULW extends the sign of its low half. -/
def MulReq.value (r : MulReq) : Word :=
  if r.isW then sext32 (rvMultiply r.op (r.a.setWidth 32) (r.b.setWidth 32))
  else rvMultiply r.op r.a r.b

theorem setWidth_eq_ofInt (x : BitVec v) : x.setWidth w = BitVec.ofInt w x.toNat := by
  apply BitVec.eq_of_toNat_eq
  rw [BitVec.ofInt_natCast, BitVec.toNat_setWidth, BitVec.toNat_ofNat]

theorem high_ofInt (p : Int) :
    (BitVec.ofInt 128 p).extractLsb' 64 64 = BitVec.ofInt 64 (p / 2 ^ 64) := by
  apply BitVec.eq_of_toNat_eq
  simp only [BitVec.extractLsb'_toNat, BitVec.toNat_ofInt, Nat.shiftRight_eq_div_pow]
  omega

namespace MulReq

variable (r : MulReq)

/-- The three products are exact. -/
theorem productSS_eq : r.productSS = BitVec.ofInt 128 (r.extA.toInt * r.extB.toInt) := by
  rw [BitVec.ofInt_mul]
  rfl

theorem productSU_eq : r.productSU = BitVec.ofInt 128 (r.extA.toInt * r.extB.toNat) := by
  rw [BitVec.ofInt_mul, ← setWidth_eq_ofInt]
  rfl

theorem productUU_eq : r.productUU = BitVec.ofInt 128 (r.extA.toNat * r.extB.toNat) := by
  rw [BitVec.ofInt_mul, ← setWidth_eq_ofInt, ← setWidth_eq_ofInt]
  rfl

theorem productSS_low (inside : w ≤ 128) :
    r.productSS.setWidth w = BitVec.ofInt w r.extA.toInt * BitVec.ofInt w r.extB.toInt := by
  rw [productSS_eq, Hdl.setWidth_ofInt inside, BitVec.ofInt_mul]

/-- The multiplier computes the instruction; of the word operations there is MULW alone. -/
theorem resultSel_eq (words : r.isW = true → r.op = .mul) : r.resultSel = r.value := by
  unfold value resultSel productSel
  cases wide : r.isW with
  | true =>
    have same (x : Word) : (r.extended x).toInt = (x.setWidth 32).toInt := by
      rw [extended, if_pos wide, BitVec.toInt_signExtend_of_le (by decide)]
    rw [words wide]
    simp only [if_true, productSS_low r (show 32 ≤ 128 by decide), extA, extB, same,
      BitVec.ofInt_toInt, rvMultiply, sext32]
  | false =>
    have a : r.extA = r.a := by simp [extA, extended, wide]
    have b : r.extB = r.b := by simp [extB, extended, wide]
    simp only [Bool.false_eq_true, if_false]
    cases r.op with
    | mul => simp only [productSS_low r (show 64 ≤ 128 by decide), a, b, BitVec.ofInt_toInt, rvMultiply]
    | mulh => simp only [productSS_eq, high_ofInt, a, b, rvMultiply]
    | mulhsu => simp only [productSU_eq, high_ofInt, a, b, rvMultiply]
    | mulhu =>
      simp only [productUU_eq, high_ofInt, a, b, rvMultiply]
      rw [← BitVec.ofInt_natCast, Int.natCast_ediv, Int.natCast_mul]
      rfl

end MulReq

end Rv64gc.Execute
