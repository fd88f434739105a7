import Mathlib.Data.List.Basic
import Mathlib.Data.List.Range
import Mathlib.Tactic.SplitIfs
import Rv64gc.Hdl.Index

/-!
# Bit vectors written one bit at a time

The blocking assignments `v[i] = b` of a combinational loop, and the scan for the lowest set bit
that a priority encoder performs.
-/

namespace Rv64gc.Hdl

/-- `b[i] = v`; a write outside the vector is lost. -/
def put (b : BitVec n) (i : Nat) (v : Bool) : BitVec n :=
  if v then b ||| BitVec.twoPow n i else b &&& ~~~BitVec.twoPow n i

theorem getLsbD_put (b : BitVec n) (i : Nat) (v : Bool) (j : Nat) :
    (put b i v).getLsbD j = if i = j ∧ j < n then v else b.getLsbD j := by
  by_cases hj : j < n
  · cases v <;> by_cases hij : i = j <;>
      simp [put, BitVec.getLsbD_twoPow, hij, hj, -BitVec.getLsbD_eq_getElem]
  · simp [hj, BitVec.getLsbD_of_ge _ j (Nat.le_of_not_lt hj)]

/-- `b[lo + w - 1 : lo] = v`. -/
def putField (b : BitVec n) (lo : Nat) (v : BitVec w) : BitVec n :=
  (b &&& ~~~((BitVec.allOnes w).setWidth n <<< lo)) ||| (v.setWidth n <<< lo)

theorem getLsbD_putField (b : BitVec n) (lo : Nat) (v : BitVec w) (j : Nat) (hj : j < n) :
    (putField b lo v).getLsbD j =
      if lo ≤ j ∧ j < lo + w then v.getLsbD (j - lo) else b.getLsbD j := by
  simp only [putField, BitVec.getLsbD_or, BitVec.getLsbD_and, BitVec.getLsbD_not,
    BitVec.getLsbD_shiftLeft, BitVec.getLsbD_setWidth, BitVec.getLsbD_allOnes]
  by_cases low : lo ≤ j
  · by_cases high : j < lo + w
    · have inside : j - lo < n ∧ j - lo < w ∧ ¬j < lo := by omega
      simp [hj, low, high, inside]
    · have outside : j - lo < n ∧ ¬j - lo < w ∧ ¬j < lo := by omega
      simp [hj, high, outside, BitVec.getLsbD_of_ge v (j - lo) (by omega)]
  · have below : j < lo := by omega
    simp [hj, below, low]

/-- `for (k = 0; k < count; k++) if (sel[k]) b[idx[k]] = v`. -/
def putEach (sel : Nat → Bool) (idx : Nat → Nat) (v : Bool) (b : BitVec n) : Nat → BitVec n
  | 0 => b
  | k + 1 =>
    let b := putEach sel idx v b k
    if sel k then put b (idx k) v else b

theorem getLsbD_putEach_true {b : BitVec n} :
    (putEach sel idx true b count).getLsbD j = true ↔
      b.getLsbD j = true ∨ (∃ k < count, sel k = true ∧ idx k = j) ∧ j < n := by
  induction count with
  | zero => simp [putEach]
  | succ count ih =>
    unfold putEach
    by_cases hsel : sel count = true
    · simp only [hsel, if_true, getLsbD_put, Nat.lt_succ_iff_lt_or_eq]
      grind
    · simp only [hsel, Nat.lt_succ_iff_lt_or_eq]
      grind

theorem getLsbD_putEach_false {b : BitVec n} :
    (putEach sel idx false b count).getLsbD j = true ↔
      b.getLsbD j = true ∧ ∀ k < count, sel k = true → idx k ≠ j := by
  induction count with
  | zero => simp [putEach]
  | succ count ih =>
    unfold putEach
    have inside : b.getLsbD j = true → j < n := BitVec.lt_of_getLsbD
    by_cases hsel : sel count = true
    · simp only [hsel, if_true, getLsbD_put, Nat.lt_succ_iff_lt_or_eq]
      grind
    · simp only [hsel, Nat.lt_succ_iff_lt_or_eq]
      grind

/-- A property of all bit vectors is one of all numbers below the bound: the numbers are literals
where it is evaluated. -/
theorem forall_bits {p : BitVec n → Prop} (all : ∀ k < 2 ^ n, p (BitVec.ofNat n k)) (b : BitVec n) :
    p b := by
  have at_b := all b.toNat b.isLt
  rwa [BitVec.ofNat_toNat, BitVec.setWidth_eq] at at_b

/-- `for (k = 0; k < n; k++) b[k] = f[k]`. -/
def tabulate (f : Fin n → Bool) : BitVec n :=
  putEach (fun k => if h : k < n then f ⟨k, h⟩ else false) id true 0 n

@[simp] theorem getLsbD_tabulate (f : Fin n → Bool) (k : Fin n) :
    (tabulate f).getLsbD k = f k := by
  rw [Bool.eq_iff_iff, tabulate, getLsbD_putEach_true]
  constructor
  · rintro (h | ⟨⟨j, hj, hsel, rfl⟩, -⟩)
    · simp at h
    · simpa [k.isLt] using hsel
  · intro h
    exact .inr ⟨⟨k, k.isLt, by simpa using h, rfl⟩, k.isLt⟩

/-- The lowest set bit, found by the loop that breaks at the first one. -/
def firstSet (b : BitVec n) : Option Nat :=
  (List.range n).find? b.getLsbD

theorem firstSet_some {b : BitVec n} (found : firstSet b = some i) :
    i < n ∧ b.getLsbD i = true := by
  have member := List.mem_of_find?_eq_some found
  exact ⟨List.mem_range.mp member, List.find?_some found⟩

theorem firstSet_none {b : BitVec n} (none_found : firstSet b = none) (i : Nat) :
    b.getLsbD i = false := by
  by_cases hi : i < n
  · have h := List.find?_eq_none.mp none_found i (List.mem_range.mpr hi)
    simpa using h
  · exact BitVec.getLsbD_of_ge b i (by omega)

-- ---------------------------------------------------------------------
-- Parts and widths
-- ---------------------------------------------------------------------

theorem append_inj {x x' : BitVec n} {y y' : BitVec m} (same : x ++ y = x' ++ y') :
    x = x' ∧ y = y' := by
  have bits (k : Nat) : (x ++ y).getLsbD k = (x' ++ y').getLsbD k := by rw [same]
  simp only [BitVec.getLsbD_append] at bits
  constructor
  · apply BitVec.eq_of_getLsbD_eq
    intro k _
    simpa [show ¬k + m < m by omega] using bits (k + m)
  · apply BitVec.eq_of_getLsbD_eq
    intro k inside
    simpa [inside] using bits k

theorem setWidth_ofInt (inside : w ≤ v) (p : Int) :
    (BitVec.ofInt v p).setWidth w = BitVec.ofInt w p := by
  have divides : ((2 ^ w : Nat) : Int) ∣ ((2 ^ v : Nat) : Int) :=
    Int.natCast_dvd_natCast.mpr (Nat.pow_dvd_pow 2 inside)
  have some_ : ((2 ^ v : Nat) : Int) ≠ 0 :=
    Int.natCast_ne_zero.mpr (Nat.pos_iff_ne_zero.mp (Nat.two_pow_pos v))
  apply BitVec.eq_of_toInt_eq
  rw [BitVec.toInt_setWidth, BitVec.toInt_ofInt, BitVec.toNat_ofInt,
    Int.toNat_of_nonneg (Int.emod_nonneg _ some_), ← Int.emod_bmod,
    Int.emod_emod_of_dvd _ divides, Int.emod_bmod]

end Rv64gc.Hdl
