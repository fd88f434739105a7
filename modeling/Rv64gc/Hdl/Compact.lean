import Mathlib.Data.List.Basic
import Rv64gc.Hdl.Index

/-!
# Packing slots to the front

A stage that drops some of its slots moves the others to the front and keeps their order. A slot
that stays lands on its rank: the number of slots before it that stay.
-/

namespace Rv64gc.Hdl

/-- The slots below `n` that stay, in order. -/
def packed (keep : Nat → Bool) (n : Nat) : List Nat := (List.range n).filter keep

/-- How many slots before `j` stay. -/
def rank (keep : Nat → Bool) (j : Nat) : Nat := (List.range j).countP keep

variable {keep other : Nat → Bool}

@[simp] theorem rank_zero : rank keep 0 = 0 := rfl

theorem rank_succ (j : Nat) : rank keep (j + 1) = rank keep j + if keep j then 1 else 0 := by
  simp [rank, List.range_succ, List.countP_append, List.countP_singleton]

theorem rank_mono (keep : Nat → Bool) (before : i ≤ j) : rank keep i ≤ rank keep j := by
  induction before with
  | refl => exact Nat.le_refl _
  | step _ ih =>
    rw [rank_succ]
    exact Nat.le_trans ih (Nat.le_add_right _ _)

theorem rank_le (j : Nat) : rank keep j ≤ j := by
  induction j with
  | zero => exact Nat.le_refl 0
  | succ j ih =>
    rw [rank_succ]
    split <;> omega

theorem rank_lt (stays : keep i = true) (before : i < j) : rank keep i < rank keep j := by
  have next := rank_mono keep (Nat.succ_le_of_lt before)
  rw [rank_succ, if_pos stays] at next
  exact next

theorem rank_congr (same : ∀ i, i < j → keep i = other i) : rank keep j = rank other j := by
  induction j with
  | zero => rfl
  | succ j ih =>
    rw [rank_succ, rank_succ, ih fun i less => same i (Nat.lt_succ_of_lt less),
      same j (Nat.lt_succ_self j)]

/-- Counting the ones that stay is counting the ones that go. -/
theorem rank_add_rank_not (keep : Nat → Bool) (j : Nat) : rank keep j + rank (fun i => !keep i) j = j := by
  induction j with
  | zero => rfl
  | succ j ih =>
    rw [rank_succ, rank_succ]
    cases keep j <;> simp <;> omega

theorem packed_succ (n : Nat) : packed keep (n + 1) = packed keep n ++ if keep n then [n] else [] := by
  simp [packed, List.range_succ, List.filter_append, List.filter_singleton]

theorem length_packed (n : Nat) : (packed keep n).length = rank keep n :=
  List.countP_eq_length_filter.symm

/-- The slot at position `p` after packing. -/
theorem getElem?_packed_iff :
    (packed keep n)[p]? = some k ↔ k < n ∧ keep k = true ∧ rank keep k = p := by
  induction n with
  | zero => simp [packed]
  | succ n ih =>
    rw [packed_succ]
    by_cases inside : p < (packed keep n).length
    · rw [List.getElem?_append_left inside, ih]
      rw [length_packed] at inside
      constructor
      · rintro ⟨less, stays, lands⟩
        exact ⟨Nat.lt_succ_of_lt less, stays, lands⟩
      · rintro ⟨less, stays, lands⟩
        refine ⟨?_, stays, lands⟩
        by_contra beyond
        have last := rank_mono keep (Nat.le_of_not_lt beyond)
        omega
    · rw [List.getElem?_append_right (Nat.le_of_not_lt inside)]
      rw [length_packed] at inside ⊢
      constructor
      · intro at_
        cases stays : keep n with
        | false => simp [stays] at at_
        | true =>
          simp only [stays, if_true] at at_
          obtain ⟨first, rfl⟩ := List.getElem?_eq_some_iff.mp at_
          simp only [List.length_singleton, Nat.lt_one_iff] at first
          simp only [first, List.getElem_cons_zero]
          exact ⟨Nat.lt_succ_self _, stays, by omega⟩
      · rintro ⟨less, stays, lands⟩
        have last : k = n := by
          by_contra other
          have before := rank_lt stays (show k < n by omega)
          omega
        rw [← last, stays, lands, Nat.sub_self]
        rfl

/-- When the slots that stay are an initial run, there is nothing to move. -/
theorem rank_of_all (all : ∀ i < j, keep i = true) : rank keep j = j := by
  induction j with
  | zero => rfl
  | succ j ih =>
    simp [rank_succ, ih fun i less => all i (Nat.lt_succ_of_lt less), all j (Nat.lt_succ_self j)]

theorem keep_iff_lt_rank (closed : ∀ i j, i < j → keep j = true → keep i = true)
    (bound : ∀ i, keep i = true → i < n) : keep j = true ↔ j < rank keep n := by
  constructor
  · intro stays
    have all : rank keep (j + 1) = j + 1 := rank_of_all fun i less => by
      rcases Nat.lt_succ_iff_lt_or_eq.mp less with before | rfl
      · exact closed i j before stays
      · exact stays
    have last := rank_mono keep (Nat.succ_le_of_lt (bound j stays))
    rw [Nat.succ_eq_add_one, all] at last
    exact last
  · intro inside
    by_contra goes
    have none : ∀ m, rank keep (j + m) = rank keep j := by
      intro m
      induction m with
      | zero => rfl
      | succ m ih =>
        cases stays : keep (j + m) with
        | false => simpa [← Nat.add_assoc, rank_succ, stays] using ih
        | true =>
          cases m with
          | zero => exact absurd stays goes
          | succ m => exact absurd (closed j _ (by omega) stays) goes
    have before : rank keep j ≤ j := rank_le j
    rcases Nat.le_total n j with small | large
    · have := rank_mono keep small
      omega
    · have := none (n - j)
      rw [Nat.add_sub_cancel' large] at this
      omega

theorem packed_eq_range (initial : ∀ i, keep i = true ↔ i < m) (bound : m ≤ n) :
    packed keep n = List.range m := by
  apply List.ext_getElem?
  intro p
  rw [Option.ext_iff]
  intro k
  rw [getElem?_packed_iff, initial]
  constructor
  · rintro ⟨-, less, rfl⟩
    rw [rank_of_all fun i before => (initial i).mpr (Nat.lt_trans before less), List.getElem?_range less]
  · intro found
    obtain ⟨less, rfl⟩ := List.getElem?_eq_some_iff.mp found
    simp only [List.length_range] at less
    simp only [List.getElem_range]
    exact ⟨by omega, less, rank_of_all fun i before => (initial i).mpr (Nat.lt_trans before less)⟩

/-- The slots of `l` from `m` on move to the front. -/
theorem packed_eq_range' (final : ∀ i, keep i = true ↔ m ≤ i ∧ i < l) (bound : l ≤ n) :
    packed keep n = List.range' m (l - m) := by
  have rank_final : ∀ k, rank keep (m + k) = min k (l - m) := by
    intro k
    induction k with
    | zero =>
      have none : ∀ j, j ≤ m → rank keep j = 0 := by
        intro j le
        induction j with
        | zero => rfl
        | succ j ih =>
          have goes : keep j = false := by
            rw [← Bool.not_eq_true, final]
            omega
          simp [rank_succ, goes, ih (by omega)]
      simp [none m (Nat.le_refl m)]
    | succ k ih =>
      rw [← Nat.add_assoc, rank_succ, ih]
      by_cases stays : keep (m + k) = true
      · have := (final _).mp stays
        rw [if_pos stays]
        omega
      · rw [if_neg stays]
        rw [final] at stays
        omega
  apply List.ext_getElem?
  intro p
  rw [Option.ext_iff]
  intro k
  rw [getElem?_packed_iff, final]
  constructor
  · rintro ⟨-, ⟨after, less⟩, rfl⟩
    have := rank_final (k - m)
    rw [Nat.add_sub_cancel' after] at this
    rw [this, List.getElem?_range' (by omega)]
    simp only [Nat.one_mul, Option.some.injEq]
    omega
  · intro found
    obtain ⟨less, rfl⟩ := List.getElem?_eq_some_iff.mp found
    simp only [List.length_range'] at less
    have := rank_final p
    simp only [List.getElem_range', Nat.one_mul, this]
    omega

theorem filterMap_getElem?_range {l : List α} (short : l.length ≤ n) :
    (List.range n).filterMap (fun k => l[k]?) = l := by
  induction l generalizing n with
  | nil => simp
  | cons a l ih =>
    cases n with
    | zero => simp at short
    | succ n =>
      rw [List.range_succ_eq_map, List.filterMap_cons]
      simp only [List.getElem?_cons_zero, List.filterMap_map, List.cons.injEq, true_and]
      exact ih (Nat.le_of_succ_le_succ short)

end Rv64gc.Hdl
