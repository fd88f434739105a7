import Mathlib.Data.List.FinRange
import Mathlib.Data.List.Induction
import Mathlib.Order.Basic
import Rv64gc.Hdl.Index

/-!
# Loops that pick the smallest

A combinational loop over the entries of a small table keeps the entry with the smallest key it has
seen, the first of equal ones.
-/

namespace Rv64gc.Hdl

/-- An entry is taken when it meets the condition and is smaller than what has been found. -/
def takeLess (p : Fin n → Bool) (key : Fin n → Nat) (best : Option (Fin n)) (k : Fin n) :
    Option (Fin n) :=
  if p k && best.all fun b => decide (key k < key b) then some k else best

/-- The index of a loop that takes what is smaller. -/
def leastOf (p : Fin n → Bool) (key : Fin n → Nat) : Option (Fin n) :=
  (List.finRange n).foldl (takeLess p key) none

variable {p : Fin n → Bool} {key : Fin n → Nat} {l : List (Fin n)} {k : Fin n}

/-- What the loop has found after these entries. -/
def Smallest (p : Fin n → Bool) (key : Fin n → Nat) (l : List (Fin n)) : Option (Fin n) → Prop
  | some k => p k = true ∧ ∀ j ∈ l, p j = true → key k ≤ key j
  | none => ∀ j ∈ l, p j = false

theorem Smallest.take {best : Option (Fin n)} (found : Smallest p key l best) :
    Smallest p key (l ++ [k]) (takeLess p key best k) := by
  unfold takeLess
  split
  next taken =>
    obtain ⟨here, less⟩ := Bool.and_eq_true_iff.mp taken
    refine ⟨here, fun j on holds => ?_⟩
    rcases List.mem_append.mp on with on | on
    · cases best with
      | none => cases (found j on).symm.trans holds
      | some b => exact (of_decide_eq_true less).le.trans (found.2 j on holds)
    · rw [List.mem_singleton.mp on]
  next stays =>
    cases best with
    | none =>
      intro j on
      rcases List.mem_append.mp on with on | on
      · exact found j on
      · rw [List.mem_singleton.mp on]
        simpa using stays
    | some b =>
      refine ⟨found.1, fun j on holds => ?_⟩
      rcases List.mem_append.mp on with on | on
      · exact found.2 j on holds
      · rw [List.mem_singleton.mp on] at holds ⊢
        simpa [holds] using stays

theorem leastOf_smallest (p : Fin n → Bool) (key : Fin n → Nat) :
    Smallest p key (List.finRange n) (leastOf p key) := by
  have all : ∀ l : List (Fin n), Smallest p key l (l.foldl (takeLess p key) none) := by
    intro l
    induction l using List.reverseRecOn with
    | nil => exact fun j on => (List.not_mem_nil on).elim
    | append_singleton l k ih =>
      rw [List.foldl_append]
      exact ih.take
  exact all (List.finRange n)

theorem leastOf_some (found : leastOf p key = some k) :
    p k = true ∧ ∀ j, p j = true → key k ≤ key j := by
  have smallest := leastOf_smallest p key
  rw [found] at smallest
  exact ⟨smallest.1, fun j => smallest.2 j (List.mem_finRange j)⟩

theorem leastOf_none (found : leastOf p key = none) (j : Fin n) : p j = false := by
  have smallest := leastOf_smallest p key
  rw [found] at smallest
  exact smallest j (List.mem_finRange j)

end Rv64gc.Hdl
