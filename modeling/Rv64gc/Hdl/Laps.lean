import Mathlib.Data.Fin.Basic
import Mathlib.Data.List.Range
import Rv64gc.Hdl.Index

/-!
# Laps of a ring

A ring of any number of slots is filled in turn, so the slots taken so far are numbered and a number
says its slot. A window is the slots of successive numbers: fewer numbers than one lap have slots of
their own.
-/

namespace Rv64gc.Hdl

variable {n : Nat} [NeZero n]

/-- The slot of a number. -/
def slotOf (n : Nat) [NeZero n] (k : Nat) : Fin n := Fin.ofNat n k

@[simp] theorem slotOf_val (k : Nat) : (slotOf n k).val = k % n := rfl

/-- The pointer step of a ring whose size need not be a power of two. -/
def stepSlot (i : Fin n) : Fin n := if i.val = n - 1 then 0 else i + 1

@[simp] theorem stepSlot_slotOf (k : Nat) : stepSlot (slotOf n k) = slotOf n (k + 1) := by
  have some_ : 0 < n := Nat.pos_of_ne_zero (NeZero.ne n)
  have below := Nat.mod_lt k some_
  apply Fin.ext
  unfold stepSlot
  rw [slotOf_val, slotOf_val, Nat.add_mod]
  split
  next last =>
    rcases Nat.eq_or_lt_of_le some_ with one | more
    · subst one
      simp [Nat.mod_one]
    · rw [last, Nat.mod_eq_of_lt more, Nat.sub_add_cancel some_, Nat.mod_self]
      rfl
  next inside => rw [Fin.val_add, slotOf_val, Fin.val_one', Nat.add_mod, Nat.mod_mod]

/-- Within one lap a slot has one number. -/
theorem slotOf_apart (order : j < k) (lap : k < j + n) : slotOf n j ≠ slotOf n k := by
  intro same
  have even : j % n = k % n := congrArg Fin.val same
  have parts := Nat.div_add_mod j n
  have parts' := Nat.div_add_mod k n
  rcases Nat.lt_trichotomy (j / n) (k / n) with less | same_ | more
  · have := Nat.mul_le_mul_left n (Nat.succ_le_of_lt less)
    rw [Nat.mul_succ] at this
    omega
  · rw [same_] at parts
    omega
  · have := Nat.mul_le_mul_left n (Nat.le_of_lt more)
    omega

/-- The slots of `len` successive numbers. -/
def window (n : Nat) [NeZero n] (start len : Nat) : List (Fin n) :=
  (List.range' start len).map (slotOf n)

@[simp] theorem window_zero (start : Nat) : window n start 0 = [] := rfl

theorem window_cons (start len : Nat) :
    window n start (len + 1) = slotOf n start :: window n (start + 1) len := rfl

theorem window_concat (start len : Nat) :
    window n start (len + 1) = window n start len ++ [slotOf n (start + len)] := by
  simp [window, List.range'_concat]

@[simp] theorem tail_window (start len : Nat) :
    (window n start len).tail = window n (start + 1) (len - 1) := by
  cases len with
  | zero => rfl
  | succ len => rfl

theorem mem_window : i ∈ window n start len ↔ ∃ k, start ≤ k ∧ k < start + len ∧ slotOf n k = i := by
  simp only [window, List.mem_map, List.mem_range'_1, and_assoc]

/-- The slot after a window that leaves the ring a free slot is none of the window's. -/
theorem not_mem_window (before : start + len ≤ k) (lap : k < start + n) :
    slotOf n k ∉ window n start len := by
  intro inside
  obtain ⟨j, from_, below, same⟩ := mem_window.mp inside
  exact slotOf_apart (by omega) (by omega) same

end Rv64gc.Hdl
