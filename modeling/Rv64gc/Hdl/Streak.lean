import Mathlib.Data.List.Induction

/-!
# Values learnt by repetition

A learner keeps the last value and counts how often it has been repeated, up to a bound; another
value begins anew. The bound is reached when the values end with that many repetitions.
-/

namespace Rv64gc.Hdl

variable {α : Type*}

/-- The value with the count of its repetitions. -/
def learn [DecidableEq α] (top : Nat) (s : α × Nat) (a : α) : α × Nat :=
  if a = s.1 then (s.1, min top (s.2 + 1)) else (a, 0)

theorem replicate_suffix_concat {l : List α} {a b : α} {k : Nat} :
    List.replicate (k + 1) a <:+ l ++ [b] ↔ a = b ∧ List.replicate k a <:+ l := by
  rw [List.suffix_concat_iff, List.replicate_succ']
  constructor
  · rintro (none_ | ⟨init, eq, suffix⟩)
    · simp at none_
    · obtain ⟨rfl, same⟩ := List.append_inj' eq rfl
      rw [List.cons.injEq] at same
      exact ⟨same.1, suffix⟩
  · rintro ⟨rfl, suffix⟩
    exact .inr ⟨_, rfl, suffix⟩

/-- The value ends the list with its repetitions, and below the bound with no more of them. -/
structure Learnt (top : Nat) (l : List α) (s : α × Nat) : Prop where
  bound : s.2 ≤ top
  repeats : List.replicate (s.2 + 1) s.1 <:+ l
  whole : s.2 < top → ¬ List.replicate (s.2 + 2) s.1 <:+ l

theorem Learnt.step [DecidableEq α] {top : Nat} {l : List α} {s : α × Nat} (learnt : Learnt top l s) (a : α) :
    Learnt top (l ++ [a]) (learn top s a) := by
  obtain ⟨v, c⟩ := s
  obtain ⟨bound, repeats, whole⟩ := learnt
  dsimp only at bound repeats whole
  unfold learn
  by_cases same : a = v
  · subst same
    rw [if_pos rfl]
    by_cases full : c = top
    · subst full
      have fewer : List.replicate c a <:+ l := by
        rw [List.replicate_succ] at repeats
        exact (List.suffix_cons _ _).trans repeats
      refine ⟨Nat.min_le_left _ _, ?_, fun less => ?_⟩
      · simpa [replicate_suffix_concat] using fewer
      · simp at less
    · have next : min top (c + 1) = c + 1 := by omega
      simp only [next]
      refine ⟨by omega, replicate_suffix_concat.2 ⟨rfl, repeats⟩, fun _ more => ?_⟩
      exact whole (by omega) (replicate_suffix_concat.1 more).2
  · rw [if_neg same]
    refine ⟨Nat.zero_le _, replicate_suffix_concat.2 ⟨rfl, List.nil_suffix⟩, fun _ two => ?_⟩
    obtain ⟨-, one⟩ := replicate_suffix_concat.1 two
    obtain ⟨init, rfl⟩ := one
    rw [List.replicate_one, replicate_suffix_concat] at repeats
    exact same repeats.1.symm

theorem learnt_foldl [DecidableEq α] (top : Nat) (first : α) (l : List α) :
    Learnt top (first :: l) (l.foldl (learn top) (first, 0)) := by
  induction l using List.reverseRecOn with
  | nil => exact ⟨Nat.zero_le _, by simp, fun _ two => by simpa using two.length_le⟩
  | append_singleton l a ih =>
    rw [List.foldl_append, ← List.cons_append]
    exact ih.step a

/-- The learner is sure of a value when the list ends with it once more than the bound. -/
theorem sure_iff {top : Nat} {l : List α} {s : α × Nat} (learnt : Learnt top l s) (v : α) :
    s = (v, top) ↔ List.replicate (top + 1) v <:+ l := by
  constructor
  · rintro rfl
    exact learnt.repeats
  · intro suffix
    obtain ⟨w, c⟩ := s
    obtain ⟨init, rfl⟩ := suffix
    have ends := learnt.repeats
    rw [List.replicate_succ' (n := top), ← List.append_assoc, replicate_suffix_concat] at ends
    obtain rfl : w = v := ends.1
    have full : c = top := by
      by_contra less
      have below : c < top := Nat.lt_of_le_of_ne learnt.bound less
      refine learnt.whole below ?_
      have more : top + 1 = top - 1 - c + (c + 2) := by omega
      have parts := List.replicate_append_replicate (n := top - 1 - c) (m := c + 2) (a := w)
      rw [more, ← parts, ← List.append_assoc]
      exact List.suffix_append _ _
    rw [full]

end Rv64gc.Hdl
