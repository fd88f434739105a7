import Mathlib.Data.Nat.Bitwise
import Rv64gc.Hdl.Index

/-!
# Restoring division

Long division in base two, one bit of the dividend at a time from the top: the remainder takes the
next bit in, and gives the divisor back when it can.
-/

namespace Rv64gc.Hdl

variable {w : Nat}

/-- One step, with the dividend's bit at `pos`; the quotient gets its bit at the same place. -/
def restoringStep (n d : BitVec w) (x : BitVec w × BitVec w) (pos : Nat) : BitVec w × BitVec w :=
  let shifted := x.2.shiftConcat (n.getLsbD pos)
  if d ≤ shifted then (x.1 ||| BitVec.twoPow w pos, shifted - d)
  else (x.1 &&& ~~~BitVec.twoPow w pos, shifted)

/-- Quotient and remainder of the bits from `pos` on. -/
structure Divided (n d : BitVec w) (pos : Nat) (x : BitVec w × BitVec w) : Prop where
  quotient : x.1.toNat = (n.toNat >>> pos) / d.toNat * 2 ^ pos
  remainder : x.2.toNat = (n.toNat >>> pos) % d.toNat

variable {n d : BitVec w} {x : BitVec w × BitVec w} {pos : Nat}

theorem shiftRight_bit (n pos : Nat) :
    n >>> pos = 2 * (n >>> (pos + 1)) + (n.testBit pos).toNat := by
  rw [Nat.shiftRight_succ, Nat.testBit_eq_decide_div_mod_eq, Nat.shiftRight_eq_div_pow]
  have parts := Nat.div_add_mod (n / 2 ^ pos) 2
  rcases Nat.mod_two_eq_zero_or_one (n / 2 ^ pos) with even | odd
  · simp [even]
    omega
  · simp [odd]
    omega

theorem div_mod_bit {m d b : Nat} (positive : 0 < d) (bit : b < 2) :
    (2 * m + b) / d = 2 * (m / d) + (if d ≤ 2 * (m % d) + b then 1 else 0) ∧
      (2 * m + b) % d = 2 * (m % d) + b - (if d ≤ 2 * (m % d) + b then d else 0) := by
  have less := Nat.mod_lt m positive
  have parts := Nat.div_add_mod m d
  generalize m / d = q at parts ⊢
  generalize m % d = r at parts less ⊢
  subst parts
  split
  next fits =>
    have whole : 2 * (d * q + r) + b = (2 * r + b - d) + d * (2 * q + 1) := by
      rw [Nat.mul_add, Nat.mul_left_comm, Nat.mul_add d]
      omega
    rw [whole, Nat.add_mul_div_left _ _ positive, Nat.add_mul_mod_self_left,
      Nat.div_eq_of_lt (by omega), Nat.mod_eq_of_lt (by omega)]
    omega
  next small =>
    have whole : 2 * (d * q + r) + b = (2 * r + b) + d * (2 * q) := by
      rw [Nat.mul_add, Nat.mul_left_comm]
      omega
    rw [whole, Nat.add_mul_div_left _ _ positive, Nat.add_mul_mod_self_left,
      Nat.div_eq_of_lt (by omega), Nat.mod_eq_of_lt (by omega)]
    omega

/-- Nothing of the remainder is shifted out. -/
theorem Divided.no_loss (divided : Divided n d (pos + 1) x) (inside : pos < w) :
    2 * x.2.toNat + 1 < 2 ^ w := by
  have small : n.toNat >>> (pos + 1) < 2 ^ (w - (pos + 1)) := by
    rw [Nat.shiftRight_eq_div_pow, Nat.div_lt_iff_lt_mul (Nat.two_pow_pos _), ← Nat.pow_add]
    exact Nat.lt_of_lt_of_eq n.isLt (by congr 1; omega)
  have bound : x.2.toNat < 2 ^ (w - (pos + 1)) := by
    rw [divided.remainder]
    exact Nat.lt_of_le_of_lt (Nat.mod_le _ _) small
  have half : 2 ^ (w - (pos + 1)) * 2 ≤ 2 ^ w := by
    rw [← Nat.pow_succ]
    exact Nat.pow_le_pow_right (by decide) (by omega)
  omega

theorem getLsbD_low {q : BitVec w} (high : q.toNat = a * 2 ^ (pos + 1)) : q.getLsbD pos = false := by
  rw [BitVec.getLsbD, high, Nat.testBit_mul_two_pow]
  simp

theorem set_low {q : BitVec w} (high : q.toNat = a * 2 ^ (pos + 1)) (inside : pos < w) :
    (q ||| BitVec.twoPow w pos).toNat = a * 2 ^ (pos + 1) + 2 ^ pos := by
  have low : 2 ^ pos < 2 ^ (pos + 1) := Nat.pow_lt_pow_right (by decide) (Nat.lt_succ_self pos)
  rw [BitVec.toNat_or, high, BitVec.toNat_twoPow_of_lt inside, Nat.mul_comm a,
    Nat.two_pow_add_eq_or_of_lt low]

theorem clear_low {q : BitVec w} (high : q.toNat = a * 2 ^ (pos + 1)) :
    q &&& ~~~BitVec.twoPow w pos = q := by
  have clear := getLsbD_low high
  ext k inside
  simp only [BitVec.getElem_and, BitVec.getElem_not, BitVec.getElem_twoPow]
  by_cases here : k = pos
  · subst here
    rw [BitVec.getLsbD_eq_getElem inside] at clear
    simp [clear]
  · simp [here]

theorem Divided.step (divided : Divided n d (pos + 1) x) (inside : pos < w) (positive : 0 < d.toNat) :
    Divided n d pos (restoringStep n d x pos) := by
  have room := divided.no_loss inside
  have bit : (n.getLsbD pos).toNat < 2 := by cases n.getLsbD pos <;> decide
  have shifted : (x.2.shiftConcat (n.getLsbD pos)).toNat =
      2 * ((n.toNat >>> (pos + 1)) % d.toNat) + (n.getLsbD pos).toNat := by
    rw [BitVec.toNat_shiftConcat, Nat.shiftLeft_eq, Nat.mod_eq_of_lt (by omega), divided.remainder,
      Nat.pow_one, Nat.mul_comm]
  obtain ⟨quotient, remainder⟩ := @div_mod_bit (n.toNat >>> (pos + 1)) d.toNat _ positive bit
  have now : n.toNat >>> pos = 2 * (n.toNat >>> (pos + 1)) + (n.getLsbD pos).toNat :=
    shiftRight_bit n.toNat pos
  have double : ∀ q, 2 * q * 2 ^ pos = q * 2 ^ (pos + 1) := by
    intro q
    rw [Nat.pow_succ, Nat.mul_comm 2 q, Nat.mul_assoc, Nat.mul_comm 2]
  rw [← now, ← shifted] at quotient remainder
  unfold restoringStep
  by_cases fits : d ≤ x.2.shiftConcat (n.getLsbD pos)
  · simp only [if_pos fits]
    rw [if_pos (BitVec.le_def.mp fits)] at quotient remainder
    constructor
    · rw [set_low divided.quotient inside, quotient, Nat.add_mul, double, Nat.one_mul]
    · rw [BitVec.toNat_sub_of_le fits, remainder]
  · simp only [if_neg fits]
    rw [if_neg (mt BitVec.le_def.mpr fits)] at quotient remainder
    constructor
    · rw [clear_low divided.quotient, divided.quotient, quotient]
      exact (double _).symm
    · rw [remainder, Nat.sub_zero]

/-- The steps from `top` down. -/
theorem Divided.steps (divided : Divided n d top x) (inside : top ≤ w) (positive : 0 < d.toNat)
    (k : Nat) (few : k ≤ top) :
    Divided n d (top - k)
      ((List.range k).foldl (fun x j => restoringStep n d x (top - (j + 1))) x) := by
  induction k with
  | zero => simpa using divided
  | succ k ih =>
    have before := ih (by omega)
    rw [List.range_succ, List.foldl_append]
    rw [show top - k = top - (k + 1) + 1 by omega] at before
    exact before.step (by omega) positive

theorem Divided.start (n d : BitVec w) (small : n.toNat < 2 ^ pos) : Divided n d pos (0, 0) := by
  have none_ : n.toNat >>> pos = 0 := by
    rw [Nat.shiftRight_eq_div_pow, Nat.div_eq_of_lt small]
  constructor <;> simp [none_]

theorem Divided.finish (divided : Divided n d 0 x) : x = (n / d, n % d) := by
  refine Prod.ext (BitVec.eq_of_toNat_eq ?_) (BitVec.eq_of_toNat_eq ?_)
  · simpa using divided.quotient
  · simpa using divided.remainder

end Rv64gc.Hdl
