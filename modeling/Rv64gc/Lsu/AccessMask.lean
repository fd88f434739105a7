import Mathlib.Tactic.IntervalCases
import Rv64gc.Lsu.StoreBuffer

/-!
# The bytes of an access

The queues of the load/store unit compare accesses by masks of eight bits: what an access takes of
the doubleword it starts in. An access may start anywhere.
-/

namespace Rv64gc.Lsu

/-- The place of the first byte in its doubleword. -/
def dwordOffset (addr : BitVec 64) : Nat := (addr.extractLsb' 0 3).toNat

/-- What an access takes of its first doubleword: all of it, if the access has its size. -/
def accessMask (addr : BitVec 64) (size : BitVec 2) : BitVec 8 :=
  if size = memByte then 0x01#8 <<< dwordOffset addr
  else if size = memHalf then 0x03#8 <<< dwordOffset addr
  else if size = memWord then 0x0F#8 <<< dwordOffset addr
  else 0xFF#8

/-- The number of bytes of an access. -/
def accessBytes (size : BitVec 2) : Nat :=
  if size = memByte then 1 else if size = memHalf then 2 else if size = memWord then 4 else 8

/-- The access reaches into a second doubleword. -/
def crossDword (addr : BitVec 64) (size : BitVec 2) : Bool :=
  if size = memByte then false
  else if size = memHalf then decide (6 < dwordOffset addr)
  else if size = memWord then decide (4 < dwordOffset addr)
  else decide (dwordOffset addr ≠ 0)

def sameDword (a b : BitVec 64) : Bool := a.extractLsb' 3 61 == b.extractLsb' 3 61

variable {addr : BitVec 64} {size : BitVec 2}

theorem dwordOffset_eq (addr : BitVec 64) : dwordOffset addr = addr.toNat % 8 := by
  rw [dwordOffset, BitVec.extractLsb'_toNat, Nat.shiftRight_zero]

theorem sameDword_iff {a b : BitVec 64} : sameDword a b = true ↔ a.toNat / 8 = b.toNat / 8 := by
  rw [sameDword, beq_iff_eq, ← BitVec.toNat_inj, BitVec.extractLsb'_toNat, BitVec.extractLsb'_toNat,
    Nat.shiftRight_eq_div_pow, Nat.shiftRight_eq_div_pow]
  omega

theorem size_cases : ∀ size : BitVec 2,
    size = memByte ∨ size = memHalf ∨ size = memWord ∨ size = 3 := by
  decide

theorem accessBytes_pos (size : BitVec 2) : 0 < accessBytes size ∧ accessBytes size ≤ 8 := by
  rcases size_cases size with rfl | rfl | rfl | rfl <;> decide

theorem crossDword_iff : crossDword addr size = true ↔ 8 < addr.toNat % 8 + accessBytes size := by
  have off : addr.toNat % 8 < 8 := Nat.mod_lt _ (by decide)
  unfold crossDword
  rw [dwordOffset_eq]
  generalize addr.toNat % 8 = m at *
  rcases size_cases size with rfl | rfl | rfl | rfl <;> interval_cases m <;> decide

/-- A doubleword is taken for the whole of the one it starts in. -/
theorem accessMask_bit (few : k < 8) : (accessMask addr size).getLsbD k =
    decide (size = 3 ∨ addr.toNat % 8 ≤ k ∧ k < addr.toNat % 8 + accessBytes size) := by
  have off : addr.toNat % 8 < 8 := Nat.mod_lt _ (by decide)
  unfold accessMask
  rw [dwordOffset_eq]
  generalize addr.toNat % 8 = m at *
  rcases size_cases size with rfl | rfl | rfl | rfl <;> interval_cases m <;> interval_cases k <;> rfl

theorem accessMask_within (within : crossDword addr size = false) (few : k < 8) :
    (accessMask addr size).getLsbD k =
      decide (addr.toNat % 8 ≤ k ∧ k < addr.toNat % 8 + accessBytes size) := by
  have inside : ¬8 < addr.toNat % 8 + accessBytes size := by
    rw [← crossDword_iff, within]
    exact Bool.false_ne_true
  rw [accessMask_bit few]
  refine decide_eq_decide.mpr (or_iff_right_of_imp ?_)
  rintro rfl
  have eight : accessBytes 3 = 8 := rfl
  omega

theorem masks_meet {a b : BitVec 8} :
    (a &&& b != 0) = true ↔ ∃ k < 8, a.getLsbD k = true ∧ b.getLsbD k = true := by
  rw [bne_iff_ne, ne_eq]
  constructor
  · intro some_
    by_contra none_
    refine some_ (BitVec.eq_of_getLsbD_eq fun k inside => ?_)
    have out : ¬(a.getLsbD k = true ∧ b.getLsbD k = true) := fun both => none_ ⟨k, inside, both⟩
    have zero : BitVec.getLsbD (0 : BitVec 8) k = false := BitVec.getLsbD_zero
    rw [BitVec.getLsbD_and, zero]
    grind
  · rintro ⟨k, -, first, second⟩ zero
    have bit := congrArg (BitVec.getLsbD · k) zero
    simp [first, second] at bit

end Rv64gc.Lsu
