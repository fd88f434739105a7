import Rv64gc.Hdl.Renaming

/-!
# Giving tags back

`Safe` says that no tag has two owners. Here is the other direction: a tag that is not free has
one. `Chained` says that the window leads from the committed map to the speculative one, so the
tag a write replaces is the one that its commit takes out of the committed map. A tag in use stays
in use over a commit, unless the commit replaces it.
-/

namespace Rv64gc.Hdl

variable {ρ τ : Type} {shared : τ → Prop} {rat cmap : ρ → τ} {win rest : List (Option (Write ρ τ))}

-- ---------------------------------------------------------------------
-- Commits one after the other
-- ---------------------------------------------------------------------

theorem commitMap_append [DecidableEq ρ] (le : n ≤ win.length) :
    commitMap cmap (win ++ rest) n = commitMap cmap win n :=
  commitMap_congr fun _ less => List.getElem?_append_left (Nat.lt_of_lt_of_le less le)

/-- Committing `n` entries and then `m` more. -/
theorem commitMap_drop [DecidableEq ρ] (cmap : ρ → τ) (win : List (Option (Write ρ τ)))
    (n m : Nat) : commitMap (commitMap cmap win n) (win.drop n) m = commitMap cmap win (n + m) := by
  induction m with
  | zero => rfl
  | succ m ih =>
    simp only [commitMap, ih, List.getElem?_drop]
    rfl

theorem writeAt_drop : WriteAt (win.drop n) i w ↔ WriteAt win (n + i) w := by
  rw [WriteAt, WriteAt, List.getElem?_drop]

-- ---------------------------------------------------------------------
-- The window leads from one map to the other
-- ---------------------------------------------------------------------

structure Chained [DecidableEq ρ] (cmap : ρ → τ) (win : List (Option (Write ρ τ))) (rat : ρ → τ) :
    Prop where
  old : ∀ j w, WriteAt win j w → w.old = commitMap cmap win j w.rd
  last : rat = commitMap cmap win win.length

namespace Chained

variable [DecidableEq ρ]

theorem nil (cmap : ρ → τ) : Chained cmap [] cmap where
  old _ _ at_ := absurd (writeAt_lt at_) (Nat.not_lt_zero _)
  last := rfl

theorem skip (chain : Chained cmap win rat) : Chained cmap (win ++ [none]) rat where
  old j w at_ := by
    rcases writeAt_append.mp at_ with at_ | ⟨-, new⟩
    · rw [commitMap_append (Nat.le_of_lt (writeAt_lt at_))]
      exact chain.old j w at_
    · cases new
  last := by
    have idle : ∀ w, ¬WriteAt (win ++ [none]) win.length w := by
      intro w at_
      rcases writeAt_append.mp at_ with at_ | ⟨-, new⟩
      · exact Nat.lt_irrefl _ (writeAt_lt at_)
      · cases new
    rw [List.length_append, List.length_singleton, commitMap_of_none idle,
      commitMap_append (Nat.le_refl _)]
    exact chain.last

/-- An instruction replaces the tag that it finds in the speculative map. -/
theorem alloc (chain : Chained cmap win rat) (rd : ρ) (v : τ) :
    Chained cmap (win ++ [some ⟨rd, v, rat rd⟩]) (Function.update rat rd v) where
  old j w at_ := by
    rcases writeAt_append.mp at_ with at_ | ⟨rfl, new⟩
    · rw [commitMap_append (Nat.le_of_lt (writeAt_lt at_))]
      exact chain.old j w at_
    · obtain rfl := Option.some.inj new
      rw [commitMap_append (Nat.le_refl _), ← chain.last]
  last := by
    have here : WriteAt (win ++ [some ⟨rd, v, rat rd⟩]) win.length ⟨rd, v, rat rd⟩ :=
      writeAt_append.mpr (.inr ⟨rfl, rfl⟩)
    rw [List.length_append, List.length_singleton, commitMap_of_write here,
      commitMap_append (Nat.le_refl _), ← chain.last]

theorem commits (chain : Chained cmap win rat) (le : n ≤ win.length) :
    Chained (commitMap cmap win n) (win.drop n) rat where
  old j w at_ := by
    rw [commitMap_drop]
    exact chain.old (n + j) w (writeAt_drop.mp at_)
  last := by
    rw [commitMap_drop, List.length_drop, Nat.add_sub_cancel' le]
    exact chain.last

end Chained

-- ---------------------------------------------------------------------
-- Tags in use
-- ---------------------------------------------------------------------

/-- The tag is committed or the destination of an entry of the window. -/
def InUse (cmap : ρ → τ) (win : List (Option (Write ρ τ))) (v : τ) : Prop :=
  (∃ a, cmap a = v) ∨ ∃ i w, WriteAt win i w ∧ w.dst = v

theorem superseded_congr [DecidableEq ρ] {win' : List (Option (Write ρ τ))}
    (same : ∀ k < n, win[k]? = win'[k]?) : superseded cmap win n = superseded cmap win' n := by
  ext v
  refine exists_congr fun j => and_congr_right fun less => exists_congr fun w => ?_
  rw [WriteAt, WriteAt, same j less,
    commitMap_congr fun k before => same k (Nat.lt_trans before less)]

theorem inUse_append : InUse cmap (win ++ rest) v ↔
    InUse cmap win v ∨ ∃ i w, WriteAt rest i w ∧ w.dst = v := by
  have split : (∃ i w, WriteAt (win ++ rest) i w ∧ w.dst = v) ↔
      (∃ i w, WriteAt win i w ∧ w.dst = v) ∨ ∃ i w, WriteAt rest i w ∧ w.dst = v := by
    constructor
    · rintro ⟨i, w, at_, dst⟩
      rw [WriteAt, List.getElem?_append] at at_
      split at at_
      · exact .inl ⟨i, w, at_, dst⟩
      · exact .inr ⟨_, w, at_, dst⟩
    · rintro (⟨i, w, at_, dst⟩ | ⟨i, w, at_, dst⟩)
      · refine ⟨i, w, ?_, dst⟩
        rw [WriteAt, List.getElem?_append_left (writeAt_lt at_)]
        exact at_
      · refine ⟨win.length + i, w, ?_, dst⟩
        rw [WriteAt, List.getElem?_append_right (Nat.le_add_right _ _), Nat.add_sub_cancel_left]
        exact at_
  rw [InUse, split, ← or_assoc]
  rfl

/-- Commits leave a tag in use, but for those they supersede. -/
theorem InUse.commits [DecidableEq ρ] (used : InUse cmap win v) (n : Nat) :
    InUse (commitMap cmap win n) (win.drop n) v ∨ v ∈ superseded cmap win n := by
  rcases used with ⟨a, was⟩ | ⟨i, w, at_, rfl⟩
  · rcases committed_or_superseded (m := 0) was (Nat.zero_le n) with still | gone
    · exact .inl (.inl still)
    · exact .inr gone
  · by_cases leaves : i < n
    · have now : commitMap cmap win (i + 1) w.rd = w.dst := by
        rw [commitMap_of_write at_, Function.update_self]
      rcases committed_or_superseded now leaves with still | gone
      · exact .inl (.inl still)
      · exact .inr gone
    · refine .inl (.inr ⟨i - n, w, writeAt_drop.mpr ?_, rfl⟩)
      rw [Nat.add_sub_cancel' (Nat.le_of_not_lt leaves)]
      exact at_

theorem inUse_of_commits [DecidableEq ρ] (used : InUse (commitMap cmap win n) (win.drop n) v) :
    InUse cmap win v := by
  by_contra unused
  obtain ⟨notCommitted, notDst⟩ := not_or.mp unused
  rcases used with ⟨a, held⟩ | ⟨i, w, at_, dst⟩
  · exact commitMap_induct (· ≠ v) (not_exists.mp notCommitted)
      (fun i w at_ same => notDst ⟨i, w, at_, same⟩) a held
  · exact notDst ⟨n + i, w, writeAt_drop.mp at_, dst⟩

/-- A superseded tag is out of use. -/
theorem Distinct.unused_of_superseded [DecidableEq ρ] (d : Distinct shared cmap win)
    (le : n ≤ win.length) (private_ : ¬shared v) (gone : v ∈ superseded cmap win n) :
    ¬InUse (commitMap cmap win n) (win.drop n) v := by
  obtain ⟨j, less, w, at_, was⟩ := gone
  have before := d.commits (Nat.le_of_lt (Nat.lt_of_lt_of_le less le))
  have head : WriteAt (win.drop j) 0 w := writeAt_drop.mpr at_
  have after : ¬InUse (commitMap cmap win (j + 1)) (win.drop (j + 1)) v := by
    rintro (⟨a, held⟩ | ⟨i, u, at_u, dst⟩)
    · rw [commitMap_of_write at_] at held
      by_cases same : a = w.rd
      · subst same
        rw [Function.update_self] at held
        exact before.committed 0 w w.rd head (held.symm ▸ private_) (was.trans held.symm)
      · rw [Function.update_of_ne same] at held
        exact same (before.map a w.rd (held.symm ▸ private_) (held.trans was.symm))
    · have later : WriteAt (win.drop j) (1 + i) u := by
        rw [writeAt_drop, ← Nat.add_assoc]
        exact writeAt_drop.mp at_u
      exact before.committed _ u w.rd later (dst.symm ▸ private_) (was.trans dst.symm)
  intro used
  have rest : j + 1 + (n - (j + 1)) = n := Nat.add_sub_cancel' less
  have tail : win.drop n = (win.drop (j + 1)).drop (n - (j + 1)) := by rw [List.drop_drop, rest]
  rw [← rest, ← commitMap_drop, rest, tail] at used
  exact after (inUse_of_commits used)

/-- What a commit supersedes is the tag that the instruction replaced when it was renamed. -/
theorem Chained.old_of_superseded [DecidableEq ρ] (chain : Chained cmap win rat)
    (gone : v ∈ superseded cmap win n) : ∃ j < n, ∃ w, WriteAt win j w ∧ w.old = v := by
  obtain ⟨j, less, w, at_, was⟩ := gone
  exact ⟨j, less, w, at_, (chain.old j w at_).trans was⟩

end Rv64gc.Hdl
