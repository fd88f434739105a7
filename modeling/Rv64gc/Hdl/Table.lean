import Mathlib.Logic.Function.Basic
import Rv64gc.Hdl.Index

/-!
# Tables written by several ports at once

The loop `if (en[k]) table[idx[k]] <= val[k]`, in which a later port wins, and the read port that
bypasses the writes of the ports before it. Both come down to the last port that writes the
location.
-/

namespace Rv64gc.Hdl

variable {ι α : Type} [DecidableEq ι]

/-- `for (k = 0; k < n; k++) if (en[k]) table[idx[k]] <= val[k]`. -/
def writeEach (en : Nat → Bool) (idx : Nat → ι) (val : Nat → α) (table : ι → α) : Nat → ι → α
  | 0 => table
  | n + 1 =>
    let table := writeEach en idx val table n
    if en n then Function.update table (idx n) (val n) else table

/-- The value read at `a`, with `init` the one stored and the first `n` writes bypassed. -/
def bypass (en : Nat → Bool) (idx : Nat → ι) (val : Nat → α) (init : α) (a : ι) : Nat → α
  | 0 => init
  | n + 1 => if en n && idx n == a then val n else bypass en idx val init a n

/-- The last of the first `n` ports that writes `a`. -/
def lastWrite (en : Nat → Bool) (idx : Nat → ι) (a : ι) : Nat → Option Nat
  | 0 => none
  | n + 1 => if en n && idx n == a then some n else lastWrite en idx a n

variable {en : Nat → Bool} {idx : Nat → ι} {val : Nat → α} {table : ι → α} {a : ι}

/-- A bypassed read sees the table as the writes before it leave it. -/
theorem bypass_eq_writeEach (n : Nat) :
    bypass en idx val (table a) a n = writeEach en idx val table n a := by
  induction n with
  | zero => rfl
  | succ n ih =>
    cases on : en n with
    | false => simpa [bypass, writeEach, on] using ih
    | true =>
      by_cases hit : idx n = a
      · simp [bypass, writeEach, on, hit]
      · simpa [bypass, writeEach, on, hit, Function.update_of_ne (Ne.symm hit)] using ih

theorem bypass_eq_lastWrite (init : α) (n : Nat) :
    bypass en idx val init a n = ((lastWrite en idx a n).map val).getD init := by
  induction n with
  | zero => rfl
  | succ n ih =>
    unfold bypass lastWrite
    split
    · rfl
    · exact ih

theorem lastWrite_none_iff {n : Nat} :
    lastWrite en idx a n = none ↔ ∀ j < n, en j = true → idx j ≠ a := by
  induction n with
  | zero => simp [lastWrite]
  | succ n ih =>
    unfold lastWrite
    by_cases hit : (en n && idx n == a) = true
    · rw [if_pos hit]
      rw [Bool.and_eq_true, beq_iff_eq] at hit
      simp only [reduceCtorEq, false_iff]
      exact fun none => none n (Nat.lt_succ_self n) hit.1 hit.2
    · rw [if_neg hit, ih]
      rw [Bool.and_eq_true, beq_iff_eq] at hit
      constructor
      · intro none j before on
        rcases Nat.lt_succ_iff_lt_or_eq.mp before with inside | rfl
        · exact none j inside on
        · exact fun same => hit ⟨on, same⟩
      · exact fun none j before => none j (Nat.lt_succ_of_lt before)

/-- A location that no port writes keeps its value. -/
theorem writeEach_of_none {n : Nat} (none : ∀ j < n, en j = true → idx j ≠ a) :
    writeEach en idx val table n a = table a := by
  rw [← bypass_eq_writeEach, bypass_eq_lastWrite, lastWrite_none_iff.mpr none]
  rfl

theorem writeEach_congr {en' : Nat → Bool} {idx' : Nat → ι} {val' : Nat → α} {n : Nat}
    (same : ∀ j < n, en j = en' j ∧ (en j = true → idx j = idx' j ∧ val j = val' j)) :
    writeEach en idx val table n = writeEach en' idx' val' table n := by
  induction n with
  | zero => rfl
  | succ n ih =>
    unfold writeEach
    rw [ih fun j less => same j (Nat.lt_succ_of_lt less)]
    obtain ⟨on, agree⟩ := same n (Nat.lt_succ_self n)
    cases enabled : en n with
    | false => simp [← on, enabled]
    | true => simp [← on, enabled, (agree enabled).1, (agree enabled).2]

/-- Ports that stay off at the end can be left out. -/
theorem writeEach_of_idle {m n : Nat} (le : m ≤ n) (idle : ∀ j, m ≤ j → j < n → en j = false) :
    writeEach en idx val table n = writeEach en idx val table m := by
  induction le with
  | refl => rfl
  | step le ih =>
    rename_i n
    simp only [writeEach, idle n le (Nat.lt_succ_self n), Bool.false_eq_true,
      if_false]
    exact ih fun j after before => idle j after (Nat.lt_succ_of_lt before)

end Rv64gc.Hdl
