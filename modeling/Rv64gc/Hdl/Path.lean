import Mathlib.Data.List.Basic
import Rv64gc.Hdl.Index

/-!
# Lists laid end to end

Each item of a list begins somewhere and says where the next one has to begin.
-/

namespace Rv64gc.Hdl

variable {α β : Type} {first next : α → β}

/-- The items lead from one place to another, each beginning where the one before it ends. -/
def Path (first next : α → β) : β → List α → β → Prop
  | p, [], q => p = q
  | p, x :: l, q => first x = p ∧ Path first next (next x) l q

theorem path_append :
    Path first next p (l ++ m) q ↔ ∃ r, Path first next p l r ∧ Path first next r m q := by
  induction l generalizing p with
  | nil => simp [Path]
  | cons x l ih =>
    simp only [List.cons_append, Path, ih]
    constructor
    · rintro ⟨begins, r, before, after⟩
      exact ⟨r, ⟨begins, before⟩, after⟩
    · rintro ⟨r, ⟨begins, before⟩, after⟩
      exact ⟨begins, r, before, after⟩

theorem path_snoc :
    Path first next p (l ++ [x]) q ↔ Path first next p l (first x) ∧ next x = q := by
  rw [path_append]
  constructor
  · rintro ⟨r, before, rfl, rfl⟩
    exact ⟨before, rfl⟩
  · rintro ⟨before, rfl⟩
    exact ⟨_, before, rfl, rfl⟩

/-- A path is cut in two anywhere. -/
theorem Path.split (path : Path first next p l q) (n : Nat) :
    ∃ r, Path first next p (l.take n) r ∧ Path first next r (l.drop n) q :=
  path_append.mp ((List.take_append_drop n l).symm ▸ path)

/-- Items that keep their places keep the path. -/
theorem Path.mapIdx {γ : Type} {first' next' : γ → β} {f : Nat → α → γ}
    (path : Path first next p l q)
    (same : ∀ k x, l[k]? = some x → first' (f k x) = first x ∧ next' (f k x) = next x) :
    Path first' next' p (l.mapIdx f) q := by
  induction l generalizing p f with
  | nil => exact path
  | cons x l ih =>
    obtain ⟨begins, rest⟩ := path
    obtain ⟨sameFirst, sameNext⟩ := same 0 x rfl
    rw [List.mapIdx_cons]
    refine ⟨sameFirst.trans begins, ?_⟩
    rw [sameNext]
    exact ih rest fun k y here => same (k + 1) y here

theorem Path.map {γ : Type} {first' next' : γ → β} {f : α → γ} (path : Path first next p l q)
    (same : ∀ x ∈ l, first' (f x) = first x ∧ next' (f x) = next x) :
    Path first' next' p (l.map f) q := by
  induction l generalizing p with
  | nil => exact path
  | cons x l ih =>
    obtain ⟨begins, rest⟩ := path
    obtain ⟨sameFirst, sameNext⟩ := same x (List.mem_cons_self ..)
    refine ⟨sameFirst.trans begins, ?_⟩
    rw [sameNext]
    exact ih rest fun y mem => same y (List.mem_cons_of_mem _ mem)

/-- Items that stand for stretches of a path make a path themselves. -/
theorem Path.group {γ : Type} {first' next' : γ → β} {g : γ → List α} {ys : List γ}
    (path : Path first next p (ys.flatMap g) q)
    (same : ∀ y ∈ ys, ∀ a b, Path first next a (g y) b → first' y = a ∧ next' y = b) :
    Path first' next' p ys q := by
  induction ys generalizing p with
  | nil => exact path
  | cons y ys ih =>
    rw [List.flatMap_cons] at path
    obtain ⟨r, here, rest⟩ := path_append.mp path
    obtain ⟨begins, ends⟩ := same y (List.mem_cons_self ..) p r here
    refine ⟨begins, ?_⟩
    rw [ends]
    exact ih rest fun z mem => same z (List.mem_cons_of_mem _ mem)

end Rv64gc.Hdl
