import Mathlib.Algebra.BigOperators.Fin
import Mathlib.Data.List.FinRange
import Mathlib.Tactic.Abel
import Rv64gc.Hdl.Index

/-!
# What a table holds

A table of slots, each empty or with one item, holds a multiset of items. What one cycle does to each
slot adds up to what it does to the whole table.
-/

namespace Rv64gc.Hdl

/-- The items of all slots. -/
def held (slot : Fin d → Option β) : Multiset β := ∑ e, ((slot e).toList : Multiset β)

theorem held_none : held (fun _ : Fin d => (none : Option β)) = 0 := by
  simp [held]

theorem held_add {a b c e : Fin d → Option β}
    (each : ∀ k, ((a k).toList : Multiset β) + (b k).toList = (c k).toList + (e k).toList) :
    held a + held b = held c + held e := by
  simp only [held, ← Finset.sum_add_distrib, each]

/-- A table is what meets a condition and what does not. -/
theorem held_split (slot : Fin d → Option β) (p : Fin d → Bool) :
    held slot = held (fun e => if p e then slot e else none) +
      held fun e => if p e then none else slot e := by
  simp only [held, ← Finset.sum_add_distrib]
  apply Finset.sum_congr rfl
  intro e _
  cases p e <;> simp

/-- One slot that a port picks. -/
theorem held_pick (slot : Fin d → Option β) (o : Option (Fin d)) :
    held (fun e => if o == some e then slot e else none) = ((o.bind slot).toList : Multiset β) := by
  cases o with
  | none => simp [held]
  | some k =>
    unfold held
    rw [Finset.sum_eq_single k]
    · simp
    · intro e _ other
      simp [Ne.symm other]
    · intro away
      exact absurd (Finset.mem_univ k) away

/-- The table with one item of a list in each slot. -/
theorem held_get (l : List β) : held (fun k : Fin l.length => some (l.get k)) = (l : Multiset β) := by
  induction l with
  | nil => simp [held]
  | cons a l ih =>
    unfold held at ih
    show (∑ k : Fin (l.length + 1), ((some ((a :: l).get k)).toList : Multiset β)) = _
    rw [Fin.sum_univ_succ]
    exact congrArg (({a} : Multiset β) + ·) ih

theorem coe_filter_map (p : Fin d → Bool) (f : Fin d → β) (l : List (Fin d)) :
    (((l.filter p).map f : List β) : Multiset β) =
      (l.map fun e => (((if p e then some (f e) else none).toList : List β) : Multiset β)).sum := by
  induction l with
  | nil => rfl
  | cons e l ih =>
    rw [List.map_cons, List.sum_cons, ← ih]
    cases here : p e <;> simp [here]

theorem held_filter (p : Fin d → Bool) (f : Fin d → β) :
    held (fun e => if p e then some (f e) else none) =
      ((((List.finRange d).filter p).map f : List β) : Multiset β) := by
  rw [coe_filter_map, held, ← List.sum_ofFn, List.ofFn_eq_map]

theorem sum_idxOf [DecidableEq δ] (free : List δ) (l : List β) (once : free.Nodup)
    (room : l.length ≤ free.length) :
    (free.map fun e => ((l[free.idxOf e]?).toList : Multiset β)).sum = (l : Multiset β) := by
  induction free generalizing l with
  | nil =>
    have none_ : l = [] := List.length_eq_zero_iff.mp (Nat.le_zero.mp room)
    simp [none_]
  | cons a free ih =>
    cases l with
    | nil => simp
    | cons b l =>
      obtain ⟨away, once⟩ := List.nodup_cons.mp once
      have rest := ih l once (by simpa using room)
      rw [List.map_cons, List.sum_cons, List.idxOf_cons_self, List.getElem?_cons_zero]
      have same : (free.map fun e => (((b :: l)[(a :: free).idxOf e]?).toList : Multiset β)) =
          free.map fun e => ((l[free.idxOf e]?).toList : Multiset β) := by
        apply List.map_congr_left
        intro e on
        have other : a ≠ e := fun same => away (same ▸ on)
        rw [List.idxOf_cons_ne _ other, List.getElem?_cons_succ]
      rw [same, rest]
      rfl

/-- The items of a list, one in each of the first of some slots. -/
theorem held_place (free : List (Fin d)) (l : List β) (once : free.Nodup)
    (room : l.length ≤ free.length) :
    held (fun e => if e ∈ free then l[free.idxOf e]? else none) = (l : Multiset β) := by
  have away (e : Fin d) (_ : e ∈ Finset.univ) (off : e ∉ free.toFinset) :
      ((if e ∈ free then l[free.idxOf e]? else none).toList : Multiset β) = 0 := by
    rw [if_neg fun on => off (List.mem_toFinset.mpr on)]
    rfl
  rw [held, ← sum_idxOf free l once room, ← List.sum_toFinset _ once]
  rw [← Finset.sum_subset (Finset.subset_univ _) away]
  apply Finset.sum_congr rfl
  intro e on
  rw [if_pos (List.mem_toFinset.mp on)]

end Rv64gc.Hdl
