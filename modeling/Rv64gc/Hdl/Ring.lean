import Mathlib.Logic.Basic
import Rv64gc.Hdl.Index

/-!
# Ring pointers

Pointers into a ring of `2 ^ w` slots wrap around, so a slot is identified by how far it lies
behind the head. Comparing two pointers cannot tell a full ring from an empty one: the laws below
say where it works.
-/

namespace Rv64gc.Hdl

/-- How many slots `i` lies behind `head`. -/
def offset (head i : BitVec w) : Nat := (i - head).toNat

/-- The slot `k` behind `head`. -/
def slotAt (head : BitVec w) (k : Nat) : BitVec w := head + BitVec.ofNat w k

theorem offset_lt (head i : BitVec w) : offset head i < 2 ^ w := (i - head).isLt

theorem offset_eq (head i : BitVec w) :
    offset head i = if head.toNat ≤ i.toNat then i.toNat - head.toNat
      else 2 ^ w + i.toNat - head.toNat := by
  have hi := i.isLt
  have hh := head.isLt
  unfold offset
  rw [BitVec.toNat_sub]
  split
  · rw [show 2 ^ w - head.toNat + i.toNat = i.toNat - head.toNat + 2 ^ w by omega,
      Nat.add_mod_right, Nat.mod_eq_of_lt (by omega)]
  · rw [Nat.mod_eq_of_lt (by omega)]
    omega

theorem slotAt_toNat (head : BitVec w) (few : k ≤ 2 ^ w) :
    (slotAt head k).toNat = if head.toNat + k < 2 ^ w then head.toNat + k
      else head.toNat + k - 2 ^ w := by
  have hh := head.isLt
  unfold slotAt
  rw [BitVec.toNat_add, BitVec.toNat_ofNat, Nat.add_mod_mod]
  split
  · rw [Nat.mod_eq_of_lt (by omega)]
  · rename_i wraps
    rw [Nat.mod_eq_sub_mod (by omega), Nat.mod_eq_of_lt (by omega)]

@[simp] theorem slotAt_zero (head : BitVec w) : slotAt head 0 = head := by
  simp [slotAt]

@[simp] theorem slotAt_offset (head i : BitVec w) : slotAt head (offset head i) = i := by
  unfold slotAt offset
  rw [BitVec.ofNat_toNat, BitVec.setWidth_eq, BitVec.add_comm, BitVec.sub_add_cancel]

theorem offset_inj (head : BitVec w) {i j : BitVec w} (same : offset head i = offset head j) :
    i = j := by
  rw [← slotAt_offset head i, same, slotAt_offset]

theorem slotAt_slotAt (head : BitVec w) (j k : Nat) :
    slotAt (slotAt head j) k = slotAt head (j + k) := by
  simp [slotAt, BitVec.add_assoc, BitVec.ofNat_add]

/-- Once around. -/
theorem slotAt_size (head : BitVec w) : slotAt head (2 ^ w) = head := by
  have hh := head.isLt
  apply BitVec.eq_of_toNat_eq
  rw [slotAt_toNat head (Nat.le_refl _), if_neg (by omega)]
  omega

theorem offset_slotAt (head : BitVec w) (inside : k < 2 ^ w) : offset head (slotAt head k) = k := by
  have hh := head.isLt
  rw [offset_eq, slotAt_toNat head (Nat.le_of_lt inside)]
  split <;> split <;> omega

/-- Moving the head past `n` slots. -/
theorem offset_advance (head i : BitVec w) (few : n ≤ 2 ^ w) :
    offset (slotAt head n) i =
      if n ≤ offset head i then offset head i - n else 2 ^ w + offset head i - n := by
  have hi := i.isLt
  have hh := head.isLt
  rw [offset_eq (slotAt head n), offset_eq head, slotAt_toNat head few]
  split <;> split <;> split <;> split <;> omega

/-- The comparison of pointers that hardware does for "from `first` up to, but not including,
`last`". -/
def inRange (first last i : BitVec w) : Bool :=
  if first = last then false
  else if first < last then decide (first ≤ i) && decide (i < last)
  else decide (first ≤ i) || decide (i < last)

/-- An empty range and the whole ring look the same: both count as empty. -/
theorem inRange_iff (first last i : BitVec w) :
    inRange first last i = true ↔ offset first i < offset first last := by
  have hi := i.isLt
  have hf := first.isLt
  have hl := last.isLt
  unfold inRange
  by_cases same : first = last
  · subst same
    simp [offset_eq]
  · have apart : first.toNat ≠ last.toNat := fun h => same (BitVec.eq_of_toNat_eq h)
    rw [if_neg same, offset_eq, offset_eq]
    split <;> rename_i order <;> rw [BitVec.lt_def] at order <;>
      simp only [Bool.and_eq_true, Bool.or_eq_true, decide_eq_true_eq, BitVec.le_def,
        BitVec.lt_def] <;> split <;> split <;> omega

/-- The range between two slots of the ring. -/
theorem inRange_slotAt (head i : BitVec w) (order : k ≤ n) (few : n ≤ 2 ^ w) :
    inRange (slotAt head k) (slotAt head n) i = true ↔
      k ≤ offset head i ∧ offset head i < n ∧ ¬(k = 0 ∧ n = 2 ^ w) := by
  have hi := offset_lt head i
  rw [inRange_iff, offset_advance head i (by omega), offset_advance head _ (by omega)]
  rcases Nat.lt_or_eq_of_le few with less | rfl
  · rw [offset_slotAt head less]
    split <;> omega
  · rw [slotAt_size, show offset head head = 0 by simp [offset]]
    split <;> split <;> omega

end Rv64gc.Hdl
