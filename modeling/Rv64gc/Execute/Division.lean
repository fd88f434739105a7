import Mathlib.Data.List.Basic
import Mathlib.Tactic.IntervalCases
import Rv64gc.Execute.Divider
import Rv64gc.Hdl.Bits

/-!
# What the divider computes

The instructions DIV, DIVU, REM and REMU and their word forms, and that the divider computes them
whatever an earlier division left in its registers.
-/

namespace Rv64gc.Execute

/-- A division of the instruction set on words of any width: towards zero, all ones for a division by
zero, and the remainder with the sign of the dividend. -/
def rvDivide (op : DivOp) (a b : BitVec w) : BitVec w :=
  match op with
  | .div => if b = 0 then BitVec.allOnes w else BitVec.ofInt w (a.toInt.tdiv b.toInt)
  | .divu => if b = 0 then BitVec.allOnes w else BitVec.ofNat w (a.toNat / b.toNat)
  | .rem => if b = 0 then a else BitVec.ofInt w (a.toInt.tmod b.toInt)
  | .remu => if b = 0 then a else BitVec.ofNat w (a.toNat % b.toNat)

theorem signExtend_low (x : BitVec 32) : (x.signExtend 64).setWidth 32 = x :=
  (Hdl.setWidth_ofInt (by decide) x.toInt).trans BitVec.ofInt_toInt

theorem signExtend_zero_iff {x : BitVec 32} : x.signExtend 64 = 0 ↔ x = 0 := by
  constructor
  · intro zero
    rw [← signExtend_low x, zero]
    rfl
  · rintro rfl
    rfl

theorem setWidth_zero_iff {x : BitVec 32} : x.setWidth 64 = 0 ↔ x = 0 := by
  constructor
  · intro zero
    have low : (x.setWidth 64).setWidth 32 = x := by simp
    rw [← low, zero]
    rfl
  · rintro rfl
    rfl

/-- Dividing the extended halves divides the halves. -/
theorem rvDivide_signed {op : DivOp} {a b : BitVec 32} (signed : op = .div ∨ op = .rem) :
    (rvDivide op (a.signExtend 64) (b.signExtend 64)).setWidth 32 = rvDivide op a b := by
  have same : ∀ x : BitVec 32, (x.signExtend 64).toInt = x.toInt :=
    fun x => BitVec.toInt_signExtend_of_le (by decide)
  rcases signed with rfl | rfl
  · simp only [rvDivide, signExtend_zero_iff, same]
    split
    · rfl
    · exact Hdl.setWidth_ofInt (by decide) _
  · simp only [rvDivide, signExtend_zero_iff, same]
    split
    · exact signExtend_low a
    · exact Hdl.setWidth_ofInt (by decide) _

theorem rvDivide_unsigned {op : DivOp} {a b : BitVec 32} (unsigned : op = .divu ∨ op = .remu) :
    (rvDivide op (a.setWidth 64) (b.setWidth 64)).setWidth 32 = rvDivide op a b := by
  have low : (a.setWidth 64).setWidth 32 = a := by simp
  have same : ∀ x : BitVec 32, (x.setWidth 64).toNat = x.toNat := by
    intro x
    rw [BitVec.toNat_setWidth, Nat.mod_eq_of_lt (by omega)]
  rcases unsigned with rfl | rfl
  · simp only [rvDivide, setWidth_zero_iff, same]
    split
    · rfl
    · exact BitVec.setWidth_ofNat_of_le (by decide) _
  · simp only [rvDivide, setWidth_zero_iff, same]
    split
    · exact low
    · exact BitVec.setWidth_ofNat_of_le (by decide) _

/-- The value of the instruction; the word forms extend the sign of their low half. -/
def DivReq.value (r : DivReq) : Word :=
  if r.isW then sext32 (rvDivide r.op (r.a.setWidth 32) (r.b.setWidth 32))
  else rvDivide r.op r.a r.b

namespace Divider

variable {s : Divider} {r : DivReq}

-- ---------------------------------------------------------------------
-- How long it takes
-- ---------------------------------------------------------------------

theorem latency_pos (r : DivReq) : 0 < latency r := by
  unfold latency
  split
  · decide
  · split <;> decide

theorem latency_le (r : DivReq) : latency r ≤ 4 := by
  unfold latency
  split
  · decide
  · split <;> decide

/-- The divider is busy until it has its result. -/
theorem busy_after (s : Divider) (r : DivReq) (early : k ≤ latency r) :
    (s.after r k).busy = decide (k < latency r) ∧
      (s.after r k).validOut = decide (k = latency r) := by
  unfold latency at early ⊢
  cases special_ : special r with
  | some v =>
    have early : k ≤ 1 := by simpa [special_] using early
    interval_cases k <;> simp [after, busy, work, start, special_]
  | none =>
    cases wide : r.isW with
    | true =>
      have early : k ≤ 2 := by simpa [special_, wide] using early
      interval_cases k <;> simp [after, busy, work, start, special_, wide, divBitsPerCycle]
    | false =>
      have early : k ≤ 4 := by simpa [special_, wide] using early
      interval_cases k <;> simp [after, busy, work, start, special_, wide, divBitsPerCycle]

-- ---------------------------------------------------------------------
-- The loop
-- ---------------------------------------------------------------------

/-- How many bits an operation divides. -/
def width (r : DivReq) : Nat := if r.isW then 32 else 64

/-- The magnitude of an operand. -/
def magnitude (r : DivReq) (x : Word) : Word := if r.isSigned && x.msb then -x else x

/-- A divider at work: the registers of the request, and the quotient and remainder of the bits it
has taken. -/
structure Works (s : Divider) (r : DivReq) (k : Nat) : Prop where
  state : s.state = .running
  iter : s.iter = BitVec.ofNat 6 k
  maxIter : s.maxIter = BitVec.ofNat 6 (width r / divBitsPerCycle)
  isW : s.isW = r.isW
  isRem : s.isRem = r.isRem
  negateQuo : s.negateQuo = (r.isSigned && (r.inA.msb != r.inB.msb))
  negateRem : s.negateRem = (r.isSigned && r.inA.msb)
  dividend : s.dividend = magnitude r r.inA
  divisor : s.divisor = magnitude r r.inB
  divided : Hdl.Divided s.dividend s.divisor (width r - 16 * k)
    (s.quotient, s.remainder)

theorem inB_ne_zero (normal : special r = none) : r.inB ≠ 0 := by
  rintro zero
  simp [special, zero] at normal

theorem magnitude_pos {x : Word} (nonzero : x ≠ 0) : 0 < (magnitude r x).toNat := by
  unfold magnitude
  split
  · exact Nat.pos_of_ne_zero fun h => nonzero (by simpa using BitVec.eq_of_toNat_eq (y := 0) h)
  · exact Nat.pos_of_ne_zero fun h => nonzero (BitVec.eq_of_toNat_eq (y := 0) h)

theorem bitPos_toNat (isW : s.isW = r.isW) (iter : s.iter = BitVec.ofNat 6 k)
    (turn : 16 * k + 16 ≤ width r) (step : j < 16) :
    (s.bitPos j).toNat = width r - 16 * k - (j + 1) := by
  unfold bitPos
  unfold width at turn ⊢
  unfold divBitsPerCycle
  rw [isW, iter]
  split
  next wide =>
    rw [if_pos wide] at turn
    have few : k ≤ 1 := by omega
    interval_cases k <;> interval_cases j <;> rfl
  next wide =>
    rw [if_neg wide] at turn
    have few : k ≤ 3 := by omega
    interval_cases k <;> interval_cases j <;> rfl

/-- The first steps of a cycle. -/
theorem Works.steps (works : s.Works r k) (normal : special r = none)
    (turn : 16 * k + 16 ≤ width r) (few : j ≤ 16) :
    Hdl.Divided s.dividend s.divisor (width r - 16 * k - j)
      ((List.range j).foldl s.bitStep (s.quotient, s.remainder)) := by
  have positive : 0 < s.divisor.toNat := by
    rw [works.divisor]
    exact magnitude_pos (inB_ne_zero normal)
  have wide : width r ≤ 64 := by
    unfold width
    split <;> decide
  have same : (List.range j).foldl s.bitStep (s.quotient, s.remainder) =
      (List.range j).foldl (fun x j => Hdl.restoringStep s.dividend s.divisor x
        (width r - 16 * k - (j + 1))) (s.quotient, s.remainder) := by
    apply List.foldl_ext
    intro x m on
    have step : m < 16 := Nat.lt_of_lt_of_le (List.mem_range.mp on) few
    rw [bitStep, bitPos_toNat works.isW works.iter turn step]
  rw [same]
  exact works.divided.steps (by omega) positive j (by omega)

theorem Works.stepped (works : s.Works r k) (normal : special r = none)
    (turn : 16 * k + 16 ≤ width r) :
    Hdl.Divided s.dividend s.divisor (width r - 16 * (k + 1)) s.stepped := by
  have steps := works.steps normal turn (Nat.le_refl _)
  rwa [show width r - 16 * k - 16 =
    width r - 16 * (k + 1) by omega] at steps

/-- Both magnitudes fit the bits that are divided. -/
theorem magnitude_lt (r : DivReq) (x : Word) :
    (magnitude r (r.widened x)).toNat < 2 ^ width r := by
  unfold width
  cases wide : r.isW with
  | false => exact (magnitude r (r.widened x)).isLt
  | true =>
    unfold magnitude DivReq.widened
    simp only [wide, if_true]
    generalize x.setWidth 32 = y
    have low := y.isLt
    have top := y.msb_eq_decide
    cases signed : r.isSigned with
    | false =>
      simp only [Bool.false_and, Bool.false_eq_true, if_false, BitVec.toNat_setWidth]
      omega
    | true =>
      simp only [Bool.true_and, if_true, BitVec.msb_signExtend]
      cases sign : y.msb with
      | false =>
        rw [sign] at top
        have top := of_decide_eq_false top.symm
        simp [BitVec.toNat_signExtend, sign]
        omega
      | true =>
        rw [sign] at top
        have top := of_decide_eq_true top.symm
        simp [BitVec.toNat_neg, BitVec.toNat_signExtend, sign]
        omega

theorem works_start (s : Divider) (normal : special r = none) : (s.start r).Works r 0 := by
  have divided := Hdl.Divided.start (magnitude r r.inA) (magnitude r r.inB) (magnitude_lt r r.a)
  constructor <;> simp [start, normal, magnitude, width]
  case divided => simpa [magnitude, width] using divided

theorem latency_normal (normal : special r = none) : 16 * latency r = width r := by
  unfold latency width
  simp only [normal]
  split <;> rfl

theorem Works.last_iff (works : s.Works r k) (normal : special r = none) (early : k < latency r) :
    s.iter = s.maxIter - 1 ↔ k + 1 = latency r := by
  rw [works.iter, works.maxIter]
  unfold latency at early ⊢
  unfold width divBitsPerCycle
  simp only [normal] at early ⊢
  cases wide : r.isW with
  | true =>
    have few : k < 2 := by simpa [wide] using early
    interval_cases k <;> simp
  | false =>
    have few : k < 4 := by simpa [wide] using early
    interval_cases k <;> simp

theorem Works.next (works : s.Works r k) (normal : special r = none) (more : k + 1 < latency r) :
    s.work.Works r (k + 1) := by
  have turn := latency_normal normal
  have stepped := works.stepped normal (by omega)
  have goes : ¬ s.iter = s.maxIter - 1 := by
    rw [works.last_iff normal (by omega)]
    omega
  have worked : s.work = { s with
      quotient := s.stepped.1
      remainder := s.stepped.2
      validOut := false
      iter := s.iter + 1 } := by
    unfold work
    rw [works.state]
    simp only [if_neg goes]
  rw [worked]
  have iter : s.iter + 1 = BitVec.ofNat 6 (k + 1) := by
    rw [works.iter, BitVec.ofNat_add]
    rfl
  exact { works with iter := iter, divided := stepped }

theorem works_after (s : Divider) (normal : special r = none) (early : k < latency r) :
    (s.after r k).Works r k := by
  induction k with
  | zero => exact works_start s normal
  | succ k ih => exact (ih (by omega)).next normal early

-- ---------------------------------------------------------------------
-- The result
-- ---------------------------------------------------------------------

/-- The sign rules: the quotient and the remainder of the magnitudes, with the signs put back. -/
theorem signs_divide (r : DivReq) (nonzero : r.inB ≠ 0) :
    (if r.isRem then
      if r.isSigned && r.inA.msb then -(magnitude r r.inA % magnitude r r.inB)
      else magnitude r r.inA % magnitude r r.inB
    else
      if r.isSigned && (r.inA.msb != r.inB.msb) then -(magnitude r r.inA / magnitude r r.inB)
      else magnitude r r.inA / magnitude r r.inB) =
    rvDivide r.op r.inA r.inB := by
  generalize r.inA = a at *
  generalize r.inB = b at *
  unfold magnitude DivReq.isSigned DivReq.isRem
  cases r.op with
  | div =>
    have value : rvDivide .div a b = a.sdiv b := by
      apply BitVec.eq_of_toInt_eq
      rw [rvDivide, if_neg nonzero, BitVec.toInt_ofInt, BitVec.toInt_sdiv]
    rw [value, BitVec.sdiv_eq]
    cases a.msb <;> cases b.msb <;> rfl
  | rem =>
    have value : rvDivide .rem a b = a.srem b := by
      rw [rvDivide, if_neg nonzero, ← BitVec.toInt_srem, BitVec.ofInt_toInt]
    rw [value, BitVec.srem_eq]
    cases a.msb <;> cases b.msb <;> rfl
  | divu =>
    rw [rvDivide, if_neg nonzero, ← BitVec.udiv_def]
    rfl
  | remu =>
    rw [rvDivide, if_neg nonzero, ← BitVec.umod_def]
    rfl

theorem widened_signed (wide : r.isW = true) (signed : r.isSigned = true) (x : Word) :
    r.widened x = (x.setWidth 32).signExtend 64 := by
  rw [DivReq.widened, if_pos wide, if_pos signed]

theorem widened_unsigned (wide : r.isW = true) (unsigned : r.isSigned = false) (x : Word) :
    r.widened x = (x.setWidth 32).setWidth 64 := by
  rw [DivReq.widened, if_pos wide, unsigned, if_neg Bool.false_ne_true]

theorem signed_op (signed : r.isSigned = true) : r.op = .div ∨ r.op = .rem := by
  simpa [DivReq.isSigned] using signed

theorem unsigned_op (unsigned : r.isSigned = false) : r.op = .divu ∨ r.op = .remu := by
  cases op : r.op <;> simp [DivReq.isSigned, op] at unsigned ⊢

/-- The low halves of the operands divide alike. -/
theorem low_divides (wide : r.isW = true) :
    (rvDivide r.op r.inA r.inB).setWidth 32 =
      rvDivide r.op (r.a.setWidth 32) (r.b.setWidth 32) := by
  unfold DivReq.inA DivReq.inB
  cases signed : r.isSigned with
  | true => rw [widened_signed wide signed, widened_signed wide signed,
      rvDivide_signed (signed_op signed)]
  | false => rw [widened_unsigned wide signed, widened_unsigned wide signed,
      rvDivide_unsigned (unsigned_op signed)]

theorem value_eq (r : DivReq) :
    r.value =
      if r.isW then ((rvDivide r.op r.inA r.inB).setWidth 32).signExtend 64
      else rvDivide r.op r.inA r.inB := by
  unfold DivReq.value sext32
  split
  next wide => rw [low_divides wide]
  next narrow => rw [DivReq.inA, DivReq.inB, DivReq.widened, DivReq.widened, if_neg narrow, if_neg narrow]

/-- The last cycle of a normal division. -/
theorem Works.finish (works : s.Works r k) (normal : special r = none)
    (last : k + 1 = latency r) : s.work.result = r.value := by
  have turn := latency_normal normal
  have stepped := works.stepped normal (by omega)
  rw [show width r - 16 * (k + 1) = 0 by omega] at stepped
  have ends := (works.last_iff normal (by omega)).mpr last
  have worked : s.work.result = s.final s.stepped := by
    unfold work
    rw [works.state]
    simp only [if_pos ends]
  rw [worked, stepped.finish, value_eq, ← signs_divide r (inB_ne_zero normal)]
  unfold final
  rw [works.isRem, works.isW, works.negateQuo, works.negateRem, works.dividend, works.divisor]

theorem overflow_divides (signed : r.isSigned = true) (a : r.inA = BitVec.intMin 64)
    (b : r.inB = BitVec.allOnes 64) :
    rvDivide r.op r.inA r.inB = if r.isRem then 0 else BitVec.intMin 64 := by
  rw [a, b]
  cases op_ : r.op <;> simp [DivReq.isSigned, DivReq.isRem, op_] at signed ⊢ <;> decide

theorem overflow_divides_word (wide : r.isW = true) (signed : r.isSigned = true)
    (a : r.inA.setWidth 32 = BitVec.intMin 32) (b : r.inB.setWidth 32 = BitVec.allOnes 32) :
    (rvDivide r.op r.inA r.inB).setWidth 32 = if r.isRem then 0 else BitVec.intMin 32 := by
  rw [DivReq.inA, widened_signed wide signed, signExtend_low] at a
  rw [DivReq.inB, widened_signed wide signed, signExtend_low] at b
  rw [low_divides wide, a, b, DivReq.isRem]
  rcases signed_op signed with op | op <;> rw [op] <;> decide

/-- A division that needs no loop. -/
theorem special_value (found : special r = some v) :
    (if r.isW then (v.setWidth 32).signExtend 64 else v) = r.value := by
  rw [value_eq]
  unfold special at found
  split at found
  next zero =>
    have value : rvDivide r.op r.inA r.inB = v := by
      rw [zero]
      cases op_ : r.op <;> simp [rvDivide, DivReq.isRem, op_] at found ⊢ <;> exact found
    rw [value]
  split at found
  next overflow =>
    simp only [Bool.and_eq_true, beq_iff_eq, Bool.not_eq_true'] at overflow
    obtain ⟨⟨⟨signed, wide⟩, a⟩, b⟩ := overflow
    rw [overflow_divides signed a b, wide]
    exact (Option.some.inj found).symm
  split at found
  next overflow =>
    simp only [Bool.and_eq_true, beq_iff_eq] at overflow
    obtain ⟨⟨⟨signed, wide⟩, a⟩, b⟩ := overflow
    rw [overflow_divides_word wide signed a b, wide, ← Option.some.inj found, if_pos rfl, if_pos rfl]
    cases r.isRem <;> rfl
  next => exact nomatch found

theorem result_after (s : Divider) (r : DivReq) : (s.after r (latency r)).result = r.value := by
  cases special_ : special r with
  | none =>
    obtain ⟨k, last⟩ := Nat.exists_eq_add_of_lt (latency_pos r)
    rw [Nat.zero_add] at last
    rw [last]
    exact (works_after s special_ (by omega)).finish special_ last.symm
  | some v =>
    have one : latency r = 1 := by simp [latency, special_]
    rw [one, ← special_value special_]
    simp [after, work, start, special_]

/-- What the divider computes does not depend on what is left in its registers. -/
theorem divide_eq (r : DivReq) : divide r = r.value := result_after reset r

-- ---------------------------------------------------------------------
-- A division among the inputs of the core
-- ---------------------------------------------------------------------

/-- The cycles from a request on; `later` are the requests of the cycles after it. -/
def run (s : Divider) (r : DivReq) (later : Nat → Option DivReq) : Nat → Divider
  | 0 => s.next (some r) false
  | k + 1 => (run s r later k).next (later k) false

theorem run_eq_after (idle : s.state = .idle) (later : Nat → Option DivReq)
    (early : k ≤ latency r) : s.run r later k = s.after r k := by
  induction k with
  | zero => simp [run, next, busy, idle, after]
  | succ k ih =>
    have works := (busy_after s r (show k ≤ latency r by omega)).1
    have inside : k < latency r := early
    rw [run, ih (by omega), next, works]
    simp [inside, after]

/-- In step `j` of a cycle the divider shifts a zero out of the partial remainder. -/
def KeepsBits (s : Divider) : Prop :=
  s.state = .running → ∀ j < divBitsPerCycle,
    ((List.range j).foldl s.bitStep (s.quotient, s.remainder)).2.msb = false

theorem keeps_bits (s : Divider) (early : k < latency r) : (s.after r k).KeepsBits := by
  intro running j step
  cases special_ : special r with
  | some v =>
    have zero : k = 0 := by
      simp [latency, special_] at early
      exact early
    subst zero
    simp [after, start, special_] at running
  | none =>
    have works := works_after s special_ early
    have turn := latency_normal special_
    have step : j < 16 := step
    have divided := works.steps special_ (show 16 * k + 16 ≤ width r by omega)
      (Nat.le_of_lt step)
    rw [show width r - 16 * k - j = width r - 16 * k - j - 1 + 1 by omega] at divided
    have wide : width r ≤ 64 := by
      unfold width
      split <;> decide
    have room := divided.no_loss (by omega)
    rw [BitVec.msb_eq_decide]
    exact decide_eq_false (by omega)

/-- Started from idle the divider is busy for a few cycles and then gives the value of the
instruction, whatever its registers held. -/
theorem divides (idle : s.state = .idle) (r : DivReq) (later : Nat → Option DivReq) :
    ∃ n, 0 < n ∧ n ≤ 4 ∧
      (∀ k < n, (s.run r later k).busy = true ∧ (s.run r later k).validOut = false ∧
        (s.run r later k).KeepsBits) ∧
      (s.run r later n).busy = false ∧ (s.run r later n).validOut = true ∧
      (s.run r later n).result = r.value := by
  refine ⟨latency r, latency_pos r, latency_le r, ?_, ?_⟩
  · intro k early
    rw [run_eq_after idle later (by omega)]
    obtain ⟨busy, out⟩ := busy_after s r (Nat.le_of_lt early)
    exact ⟨busy.trans (decide_eq_true early), out.trans (decide_eq_false (by omega)),
      keeps_bits s early⟩
  · rw [run_eq_after idle later (Nat.le_refl _)]
    obtain ⟨busy, out⟩ := busy_after s r (Nat.le_refl (latency r))
    exact ⟨busy.trans (decide_eq_false (Nat.lt_irrefl _)), out.trans (decide_eq_true rfl),
      result_after s r⟩

/-- The registers of a division that was flushed, and the smallest word divided by minus one. -/
theorem divides_flushed :
    ∃ n, 0 < n ∧ n ≤ 4 ∧
      let s := ((reset.start ⟨.remu, false, 77, 5⟩).work).next none true
      let r : DivReq := ⟨.div, true, 0x80000000, 0xffffffff⟩
      (∀ k < n, (s.run r (fun _ => none) k).busy = true ∧
        (s.run r (fun _ => none) k).validOut = false ∧ (s.run r (fun _ => none) k).KeepsBits) ∧
      (s.run r (fun _ => none) n).busy = false ∧ (s.run r (fun _ => none) n).validOut = true ∧
      (s.run r (fun _ => none) n).result = r.value :=
  divides rfl _ _

end Divider

end Rv64gc.Execute
