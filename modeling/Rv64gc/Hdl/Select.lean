import Mathlib.Data.List.FinRange
import Rv64gc.Hdl.Index

/-!
# Loops that pick an index

A combinational loop over the entries of a small table ends with the first entry that meets a
condition or with the last one, by the way it is written.
-/

namespace Rv64gc.Hdl

/-- The index of a loop that keeps what it has found. -/
def firstOf (p : Fin n → Bool) : Option (Fin n) := (List.finRange n).find? p

/-- The index of a loop in which later entries overwrite earlier ones. -/
def lastOf (p : Fin n → Bool) : Option (Fin n) := (List.finRange n).reverse.find? p

theorem firstOf_some {p : Fin n → Bool} (found : firstOf p = some k) : p k = true :=
  List.find?_some found

/-- No entry before the first one meets the condition. -/
theorem firstOf_least {p : Fin n → Bool} (found : firstOf p = some k) (before : j < k) :
    p j = false := by
  obtain ⟨-, i, inside, here, least⟩ := List.find?_eq_some_iff_getElem.mp found
  rw [List.getElem_finRange] at here
  have less : j.val < i := by
    rw [← here] at before
    exact before
  simpa using least j.val less

theorem firstOf_none {p : Fin n → Bool} : firstOf p = none ↔ ∀ k, p k = false := by
  simp [firstOf]

theorem lastOf_some {p : Fin n → Bool} (found : lastOf p = some k) : p k = true :=
  List.find?_some found

theorem lastOf_none {p : Fin n → Bool} : lastOf p = none ↔ ∀ k, p k = false := by
  simp [lastOf]

/-- Taking out the first of a kind takes the first off the list of its kind. -/
theorem filter_eraseP_self (p : α → Bool) (l : List α) :
    (l.eraseP p).filter p = (l.filter p).tail := by
  induction l with
  | nil => rfl
  | cons x l ih =>
    cases here : p x with
    | true => simp [here]
    | false => simp [here, ih]

/-- It leaves the other kinds alone. -/
theorem filter_eraseP_other {p r : α → Bool} (apart : ∀ x, p x = true → r x = false) (l : List α) :
    (l.eraseP p).filter r = l.filter r := by
  induction l with
  | nil => rfl
  | cons x l ih =>
    cases here : p x with
    | true => simp [here, apart x here]
    | false =>
      rw [List.eraseP_cons_of_neg (by simp [here]), List.filter_cons, List.filter_cons, ih]

end Rv64gc.Hdl
