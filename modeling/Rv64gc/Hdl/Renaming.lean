import Mathlib.Data.Set.Basic
import Rv64gc.Hdl.Table

/-!
# Register renaming

A renamer keeps a set of free tags, a speculative map, a committed map and the window of
instructions in between, oldest first. Each entry of the window that writes a register knows its
new tag and the tag it replaces. Tags that are `shared` stand for constants and are never free.

`Safe` says that no tag has two owners. Granting a free tag, letting the oldest entry commit,
cutting the window and starting over from the committed map all keep it. It does not ask that the
window leads from the committed map to the speculative one, so it still holds of a speculative map
saved for a longer window.
-/

namespace Rv64gc.Hdl

structure Write (ρ τ : Type) where
  rd : ρ
  dst : τ
  old : τ

variable {ρ τ : Type} {shared : τ → Prop} {free : Set τ} {rat cmap : ρ → τ}
  {win : List (Option (Write ρ τ))}

/-- Entry `i` of the window is the write `w`. -/
def WriteAt (win : List (Option (Write ρ τ))) (i : Nat) (w : Write ρ τ) : Prop :=
  win[i]? = some (some w)

/-- Entry `i` writes register `a`. -/
def WritesAt (win : List (Option (Write ρ τ))) (i : Nat) (a : ρ) : Prop :=
  ∃ w, WriteAt win i w ∧ w.rd = a

-- ---------------------------------------------------------------------
-- Windows
-- ---------------------------------------------------------------------

theorem writeAt_lt (at_ : WriteAt win i w) : i < win.length :=
  (List.getElem?_eq_some_iff.mp at_).1

theorem writeAt_inj (first : WriteAt win i v) (second : WriteAt win i w) : v = w :=
  Option.some.inj (Option.some.inj (first.symm.trans second))

theorem writeAt_take : WriteAt (win.take k) i w ↔ i < k ∧ WriteAt win i w := by
  unfold WriteAt
  rw [List.getElem?_take]
  by_cases inside : i < k
  · simp [inside]
  · simp [inside]

theorem writeAt_append : WriteAt (win ++ [e]) i w ↔
    WriteAt win i w ∨ i = win.length ∧ e = some w := by
  unfold WriteAt
  rw [List.getElem?_append]
  split
  · rename_i inside
    simp [Nat.ne_of_lt inside]
  · rename_i outside
    rw [List.getElem?_eq_none (Nat.le_of_not_lt outside)]
    by_cases last : i = win.length
    · simp [last]
    · have past : [e].length ≤ i - win.length := by
        rw [List.length_singleton]
        omega
      simp [last, List.getElem?_eq_none past]

theorem writesAt_append_of_lt (inside : i < win.length) :
    WritesAt (win ++ [e]) i a ↔ WritesAt win i a := by
  unfold WritesAt
  simp only [writeAt_append, Nat.ne_of_lt inside, false_and, or_false]

-- ---------------------------------------------------------------------
-- Who may hold a tag
-- ---------------------------------------------------------------------

/-- A reader of register `a` in front of entry `j` may hold the tag `x`: where it is committed or
in the window it belongs to `a`, and nothing between there and `j` writes `a`. -/
structure Holds (cmap : ρ → τ) (win : List (Option (Write ρ τ))) (x : τ) (a : ρ) (j : Nat) :
    Prop where
  committed : ∀ b, cmap b = x → b = a ∧ ∀ i < j, ¬WritesAt win i a
  inWindow : ∀ i w, WriteAt win i w → w.dst = x →
    i < j ∧ w.rd = a ∧ ∀ k, i < k → k < j → ¬WritesAt win k a

/-- The committed tags and the destinations in the window all differ. -/
structure Distinct (shared : τ → Prop) (cmap : ρ → τ) (win : List (Option (Write ρ τ))) : Prop where
  dst : ∀ i j v w, WriteAt win i v → WriteAt win j w → ¬shared v.dst → v.dst = w.dst → i = j
  committed : ∀ i w a, WriteAt win i w → ¬shared w.dst → cmap a ≠ w.dst
  map : ∀ a b, ¬shared (cmap a) → cmap a = cmap b → a = b

structure Safe (shared : τ → Prop) (free : Set τ) (rat cmap : ρ → τ)
    (win : List (Option (Write ρ τ))) : Prop where
  notShared : ∀ v ∈ free, ¬shared v
  notMapped : ∀ v ∈ free, ∀ a, rat a ≠ v
  notCommitted : ∀ v ∈ free, ∀ a, cmap a ≠ v
  notDst : ∀ v ∈ free, ∀ i w, WriteAt win i w → w.dst ≠ v
  notOld : ∀ v ∈ free, ∀ i w, WriteAt win i w → w.old ≠ v
  distinct : Distinct shared cmap win
  mapInj : ∀ a b, ¬shared (rat a) → rat a = rat b → a = b
  oldInj : ∀ i j v w, WriteAt win i v → WriteAt win j w → ¬shared v.old → v.old = w.old → i = j
  oldMapped : ∀ i w a, WriteAt win i w → ¬shared w.old → rat a ≠ w.old
  ratHolds : ∀ a, ¬shared (rat a) → Holds cmap win (rat a) a win.length
  oldHolds : ∀ j w, WriteAt win j w → ¬shared w.old → Holds cmap win w.old w.rd j

-- ---------------------------------------------------------------------
-- Cutting
-- ---------------------------------------------------------------------

theorem Holds.take (holds : Holds cmap win x a j) (le : l ≤ j)
    (here : ∀ i w, i < k → WriteAt win i w → w.dst = x → i < l) :
    Holds cmap (win.take k) x a l := by
  refine ⟨fun b eq => ?_, fun i w at_ eq => ?_⟩
  · obtain ⟨same, none⟩ := holds.committed b eq
    refine ⟨same, fun i less => ?_⟩
    rintro ⟨w, at_, rd⟩
    exact none i (Nat.lt_of_lt_of_le less le) ⟨w, (writeAt_take.mp at_).2, rd⟩
  · obtain ⟨inside, at_⟩ := writeAt_take.mp at_
    obtain ⟨-, rd, none⟩ := holds.inWindow i w at_ eq
    refine ⟨here i w inside at_ eq, rd, fun m after before => ?_⟩
    rintro ⟨v, at_, rd⟩
    exact none m after (Nat.lt_of_lt_of_le before le) ⟨v, (writeAt_take.mp at_).2, rd⟩

theorem Distinct.take (d : Distinct shared cmap win) (k : Nat) :
    Distinct shared cmap (win.take k) where
  dst i j v w atV atW := d.dst i j v w (writeAt_take.mp atV).2 (writeAt_take.mp atW).2
  committed i w a at_ := d.committed i w a (writeAt_take.mp at_).2
  map := d.map

theorem Safe.shrink (safe : Safe shared free rat cmap win) (sub : ∀ v ∈ free', v ∈ free) :
    Safe shared free' rat cmap win :=
  { safe with
    notShared := fun v member => safe.notShared v (sub v member)
    notMapped := fun v member => safe.notMapped v (sub v member)
    notCommitted := fun v member => safe.notCommitted v (sub v member)
    notDst := fun v member => safe.notDst v (sub v member)
    notOld := fun v member => safe.notOld v (sub v member) }

/-- The youngest entries can be squashed, the speculative map staying as it is. -/
theorem Safe.take (safe : Safe shared free rat cmap win) (k : Nat) :
    Safe shared free rat cmap (win.take k) where
  notShared := safe.notShared
  notMapped := safe.notMapped
  notCommitted := safe.notCommitted
  notDst v member i w at_ := safe.notDst v member i w (writeAt_take.mp at_).2
  notOld v member i w at_ := safe.notOld v member i w (writeAt_take.mp at_).2
  distinct := safe.distinct.take k
  mapInj := safe.mapInj
  oldInj i j v w atV atW := safe.oldInj i j v w (writeAt_take.mp atV).2 (writeAt_take.mp atW).2
  oldMapped i w a at_ := safe.oldMapped i w a (writeAt_take.mp at_).2
  ratHolds a private_ := by
    refine (safe.ratHolds a private_).take ?_ fun i w inside at_ _ => ?_
    · rw [List.length_take]
      exact Nat.min_le_right _ _
    · rw [List.length_take]
      exact Nat.lt_min.mpr ⟨inside, writeAt_lt at_⟩
  oldHolds j w at_ private_ := by
    have holds := safe.oldHolds j w (writeAt_take.mp at_).2 private_
    exact holds.take (Nat.le_refl j) fun i v _ atV eq => (holds.inWindow i v atV eq).1

-- ---------------------------------------------------------------------
-- Renaming one instruction
-- ---------------------------------------------------------------------

theorem Holds.append (holds : Holds cmap win x a j) (le : j ≤ win.length)
    (other : ∀ w, e = some w → w.dst ≠ x) : Holds cmap (win ++ [e]) x a j := by
  refine ⟨fun b eq => ?_, fun i w at_ eq => ?_⟩
  · obtain ⟨same, none⟩ := holds.committed b eq
    refine ⟨same, fun i less => ?_⟩
    rw [writesAt_append_of_lt (Nat.lt_of_lt_of_le less le)]
    exact none i less
  · rcases writeAt_append.mp at_ with at_ | ⟨-, new⟩
    · obtain ⟨before, rd, none⟩ := holds.inWindow i w at_ eq
      refine ⟨before, rd, fun k after less => ?_⟩
      rw [writesAt_append_of_lt (Nat.lt_of_lt_of_le less le)]
      exact none k after less
    · exact absurd eq (other w new)

/-- The last entry does not write `a`, so a reader behind it holds the same tag. -/
theorem Holds.extend (holds : Holds cmap (win ++ [e]) x a win.length)
    (other : ∀ w, e = some w → w.rd ≠ a) : Holds cmap (win ++ [e]) x a (win.length + 1) := by
  have last : ¬WritesAt (win ++ [e]) win.length a := by
    rintro ⟨w, at_, rd⟩
    rcases writeAt_append.mp at_ with at_ | ⟨-, new⟩
    · exact Nat.lt_irrefl _ (writeAt_lt at_)
    · exact other w new rd
  refine ⟨fun b eq => ?_, fun i w at_ eq => ?_⟩
  · obtain ⟨same, none⟩ := holds.committed b eq
    refine ⟨same, fun i less => ?_⟩
    rcases Nat.lt_succ_iff_lt_or_eq.mp less with inside | rfl
    · exact none i inside
    · exact last
  · obtain ⟨before, rd, none⟩ := holds.inWindow i w at_ eq
    refine ⟨Nat.lt_succ_of_lt before, rd, fun k after less => ?_⟩
    rcases Nat.lt_succ_iff_lt_or_eq.mp less with inside | rfl
    · exact none k after inside
    · exact last

/-- An instruction that writes no register. -/
theorem Safe.skip (safe : Safe shared free rat cmap win) :
    Safe shared free rat cmap (win ++ [none]) := by
  have old_at : ∀ {i w}, WriteAt (win ++ [none]) i w → WriteAt win i w := by
    intro i w at_
    rcases writeAt_append.mp at_ with at_ | ⟨-, new⟩
    · exact at_
    · cases new
  exact
    { notShared := safe.notShared
      notMapped := safe.notMapped
      notCommitted := safe.notCommitted
      notDst := fun v member i w at_ => safe.notDst v member i w (old_at at_)
      notOld := fun v member i w at_ => safe.notOld v member i w (old_at at_)
      distinct :=
        { dst := fun i j v w atV atW => safe.distinct.dst i j v w (old_at atV) (old_at atW)
          committed := fun i w a at_ => safe.distinct.committed i w a (old_at at_)
          map := safe.distinct.map }
      mapInj := safe.mapInj
      oldInj := fun i j v w atV atW => safe.oldInj i j v w (old_at atV) (old_at atW)
      oldMapped := fun i w a at_ => safe.oldMapped i w a (old_at at_)
      ratHolds := fun a private_ => by
        rw [List.length_append]
        refine Holds.extend ?_ fun w new => by cases new
        exact (safe.ratHolds a private_).append (Nat.le_refl _) fun w new => by cases new
      oldHolds := fun j w at_ private_ =>
        (safe.oldHolds j w (old_at at_) private_).append (Nat.le_of_lt (writeAt_lt (old_at at_)))
          fun w new => by cases new }

/-- An instruction that writes `rd` gets a free tag, or a shared one. -/
theorem Safe.alloc [DecidableEq ρ] (safe : Safe shared free rat cmap win)
    (grant : v ∈ free ∨ shared v) (rd : ρ) :
    Safe shared (free \ {v}) (Function.update rat rd v) cmap
      (win ++ [some ⟨rd, v, rat rd⟩]) := by
  have taken : ¬shared v → v ∈ free := fun private_ => grant.resolve_right private_
  have cases_at : ∀ {i w}, WriteAt (win ++ [some ⟨rd, v, rat rd⟩]) i w →
      WriteAt win i w ∨ i = win.length ∧ w = ⟨rd, v, rat rd⟩ := by
    intro i w at_
    rcases writeAt_append.mp at_ with at_ | ⟨last, new⟩
    · exact .inl at_
    · exact .inr ⟨last, (Option.some.inj new).symm⟩
  -- The new map holds the new tag at `rd` and the old tags elsewhere.
  have mapped : ∀ a, (a = rd ∧ Function.update rat rd v a = v) ∨
      (a ≠ rd ∧ Function.update rat rd v a = rat a) := by
    intro a
    by_cases same : a = rd
    · subst same
      exact .inl ⟨rfl, Function.update_self _ _ _⟩
    · exact .inr ⟨same, Function.update_of_ne same _ _⟩
  have newHolds : ∀ {x a j}, Holds cmap win x a j → x ≠ v → j ≤ win.length →
      Holds cmap (win ++ [some ⟨rd, v, rat rd⟩]) x a j := by
    intro x a j holds other le
    refine holds.append le fun w new => ?_
    obtain rfl := Option.some.inj new
    exact other.symm
  exact
    { notShared := fun u member => safe.notShared u member.1
      notMapped := fun u member a => by
        rcases mapped a with ⟨-, eq⟩ | ⟨-, eq⟩
        · rw [eq]
          exact fun same => member.2 same.symm
        · rw [eq]
          exact safe.notMapped u member.1 a
      notCommitted := fun u member => safe.notCommitted u member.1
      notDst := fun u member i w at_ => by
        rcases cases_at at_ with at_ | ⟨-, rfl⟩
        · exact safe.notDst u member.1 i w at_
        · exact fun same => member.2 same.symm
      notOld := fun u member i w at_ => by
        rcases cases_at at_ with at_ | ⟨-, rfl⟩
        · exact safe.notOld u member.1 i w at_
        · exact safe.notMapped u member.1 rd
      distinct :=
        { dst := fun i j u w atU atW private_ same => by
            rcases cases_at atU with atU | ⟨rfl, rfl⟩ <;> rcases cases_at atW with atW | ⟨rfl, rfl⟩
            · exact safe.distinct.dst i j u w atU atW private_ same
            · have member : v ∈ free := taken fun sh => private_ (same.symm ▸ sh)
              exact absurd same (safe.notDst v member i u atU)
            · exact absurd same.symm (safe.notDst v (taken private_) j w atW)
            · rfl
          committed := fun i w a at_ private_ => by
            rcases cases_at at_ with at_ | ⟨-, rfl⟩
            · exact safe.distinct.committed i w a at_ private_
            · exact safe.notCommitted v (taken private_) a
          map := safe.distinct.map }
      mapInj := fun a b private_ same => by
        rcases mapped a with ⟨ha, eqA⟩ | ⟨ha, eqA⟩ <;> rcases mapped b with ⟨hb, eqB⟩ | ⟨hb, eqB⟩ <;>
          rw [eqA] at private_ same <;> rw [eqB] at same
        · exact ha.trans hb.symm
        · exact absurd same.symm (safe.notMapped v (taken private_) b)
        · exact absurd same (safe.notMapped v (taken (same ▸ private_)) a)
        · exact safe.mapInj a b private_ same
      oldInj := fun i j u w atU atW private_ same => by
        rcases cases_at atU with atU | ⟨rfl, rfl⟩ <;> rcases cases_at atW with atW | ⟨rfl, rfl⟩
        · exact safe.oldInj i j u w atU atW private_ same
        · exact absurd same.symm (safe.oldMapped i u rd atU private_)
        · exact absurd same (safe.oldMapped j w rd atW (same ▸ private_))
        · rfl
      oldMapped := fun i w a at_ private_ => by
        rcases cases_at at_ with at_ | ⟨-, rfl⟩ <;> rcases mapped a with ⟨ha, eq⟩ | ⟨ha, eq⟩ <;> rw [eq]
        · exact fun same => safe.notOld v (taken (same ▸ private_)) i w at_ same.symm
        · exact safe.oldMapped i w a at_ private_
        · exact fun same => safe.notMapped v (taken (same ▸ private_)) rd same.symm
        · exact fun same => ha (safe.mapInj a rd (same ▸ private_) same)
      ratHolds := fun a private_ => by
        rw [List.length_append]
        rcases mapped a with ⟨rfl, eq⟩ | ⟨ha, eq⟩ <;> rw [eq] at private_ ⊢
        · refine ⟨fun b eq => absurd eq (safe.notCommitted v (taken private_) b), ?_⟩
          intro i w at_ eq
          rcases cases_at at_ with at_ | ⟨rfl, rfl⟩
          · exact absurd eq (safe.notDst v (taken private_) i w at_)
          · exact ⟨Nat.lt_succ_self _, rfl, fun k after before => by
              exact absurd (Nat.le_of_lt_succ before) (Nat.not_le_of_lt after)⟩
        · have other : rat a ≠ v := fun same => safe.notMapped v (taken (same ▸ private_)) a same
          refine Holds.extend (newHolds (safe.ratHolds a private_) other (Nat.le_refl _)) ?_
          intro w new rd_
          obtain rfl := Option.some.inj new
          exact ha rd_.symm
      oldHolds := fun j w at_ private_ => by
        rcases cases_at at_ with at_ | ⟨rfl, rfl⟩
        · have other : w.old ≠ v := fun same => safe.notOld v (taken (same ▸ private_)) j w at_ same
          exact newHolds (safe.oldHolds j w at_ private_) other
            (Nat.le_of_lt (writeAt_lt at_))
        · have other : rat rd ≠ v := fun same => safe.notMapped v (taken (same ▸ private_)) rd same
          exact newHolds (safe.ratHolds rd private_) other (Nat.le_refl _) }

-- ---------------------------------------------------------------------
-- The oldest entry commits
-- ---------------------------------------------------------------------

theorem Holds.drop (holds : Holds cmap (none :: win) x a (j + 1)) : Holds cmap win x a j := by
  refine ⟨fun b eq => ?_, fun i w at_ eq => ?_⟩
  · obtain ⟨same, none⟩ := holds.committed b eq
    exact ⟨same, fun i less => none (i + 1) (Nat.succ_lt_succ less)⟩
  · obtain ⟨before, rd, none⟩ := holds.inWindow (i + 1) w at_ eq
    exact ⟨Nat.lt_of_succ_lt_succ before, rd, fun k after less =>
      none (k + 1) (Nat.succ_lt_succ after) (Nat.succ_lt_succ less)⟩

theorem Holds.commit [DecidableEq ρ] (holds : Holds cmap (some w :: win) x a (j + 1)) :
    Holds (Function.update cmap w.rd w.dst) win x a j := by
  refine ⟨fun b eq => ?_, fun i u at_ eq => ?_⟩
  · by_cases same : b = w.rd
    · subst same
      rw [Function.update_self] at eq
      obtain ⟨-, rd, none⟩ := holds.inWindow 0 w rfl eq
      exact ⟨rd, fun i less => none (i + 1) (Nat.succ_pos i) (Nat.succ_lt_succ less)⟩
    · rw [Function.update_of_ne same] at eq
      obtain ⟨same, none⟩ := holds.committed b eq
      exact ⟨same, fun i less => none (i + 1) (Nat.succ_lt_succ less)⟩
  · obtain ⟨before, rd, none⟩ := holds.inWindow (i + 1) u at_ eq
    exact ⟨Nat.lt_of_succ_lt_succ before, rd, fun k after less =>
      none (k + 1) (Nat.succ_lt_succ after) (Nat.succ_lt_succ less)⟩

theorem Distinct.sub (d : Distinct shared cmap win)
    (sub : ∀ i w, WriteAt win' i w → WriteAt win i w) : Distinct shared cmap win' where
  dst i j v w atV atW := d.dst i j v w (sub i v atV) (sub j w atW)
  committed i w a at_ := d.committed i w a (sub i w at_)
  map := d.map

theorem Distinct.drop (d : Distinct shared cmap (none :: win)) : Distinct shared cmap win where
  dst i j v w atV atW private_ same :=
    Nat.succ.inj (d.dst (i + 1) (j + 1) v w atV atW private_ same)
  committed i w a at_ := d.committed (i + 1) w a at_
  map := d.map

theorem Distinct.commit [DecidableEq ρ] (d : Distinct shared cmap (some w :: win)) :
    Distinct shared (Function.update cmap w.rd w.dst) win where
  dst i j u v atU atV private_ same :=
    Nat.succ.inj (d.dst (i + 1) (j + 1) u v atU atV private_ same)
  committed i u a at_ private_ := by
    by_cases same : a = w.rd
    · subst same
      rw [Function.update_self]
      intro eq
      cases d.dst (i + 1) 0 u w at_ rfl private_ eq.symm
    · rw [Function.update_of_ne same]
      exact d.committed (i + 1) u a at_ private_
  map a b private_ same := by
    by_cases ha : a = w.rd <;> by_cases hb : b = w.rd
    · exact ha.trans hb.symm
    · subst ha
      rw [Function.update_self] at private_ same
      rw [Function.update_of_ne hb] at same
      exact absurd same.symm (d.committed 0 w b rfl private_)
    · subst hb
      rw [Function.update_of_ne ha, Function.update_self] at same
      rw [Function.update_of_ne ha] at private_
      exact absurd same (d.committed 0 w a rfl (same ▸ private_))
    · rw [Function.update_of_ne ha] at private_ same
      rw [Function.update_of_ne hb] at same
      exact d.map a b private_ same

theorem Safe.drop (safe : Safe shared free rat cmap (none :: win)) :
    Safe shared free rat cmap win where
  notShared := safe.notShared
  notMapped := safe.notMapped
  notCommitted := safe.notCommitted
  notDst v member i w at_ := safe.notDst v member (i + 1) w at_
  notOld v member i w at_ := safe.notOld v member (i + 1) w at_
  distinct := safe.distinct.drop
  mapInj := safe.mapInj
  oldInj i j v w atV atW private_ same :=
    Nat.succ.inj (safe.oldInj (i + 1) (j + 1) v w atV atW private_ same)
  oldMapped i w a at_ := safe.oldMapped (i + 1) w a at_
  ratHolds a private_ := (safe.ratHolds a private_).drop
  oldHolds j w at_ private_ := (safe.oldHolds (j + 1) w at_ private_).drop

/-- The tags that a commit may give back: the one the instruction replaced when it was renamed, and
the one it replaces in the committed map. -/
theorem Safe.commit [DecidableEq ρ] (safe : Safe shared free rat cmap (some w :: win))
    (freed : ∀ v ∈ free', v ∈ free ∨ ¬shared v ∧ (v = w.old ∨ v = cmap w.rd)) :
    Safe shared free' rat (Function.update cmap w.rd w.dst) win := by
  have first : WriteAt (some w :: win) 0 w := rfl
  exact
    { notShared := fun v member => by
        rcases freed v member with member | ⟨private_, -⟩
        · exact safe.notShared v member
        · exact private_
      notMapped := fun v member a => by
        rcases freed v member with member | ⟨private_, rfl | rfl⟩
        · exact safe.notMapped v member a
        · exact safe.oldMapped 0 w a first private_
        · intro same
          obtain ⟨rd, none⟩ :=
            (safe.ratHolds a (same.symm ▸ private_)).committed w.rd same.symm
          exact none 0 (Nat.succ_pos _) ⟨w, first, rd⟩
      notCommitted := fun v member b => by
        by_cases same : b = w.rd
        · subst same
          rw [Function.update_self]
          rcases freed v member with member | ⟨private_, rfl | rfl⟩
          · exact safe.notDst v member 0 w first
          · intro eq
            exact Nat.lt_irrefl 0 ((safe.oldHolds 0 w first private_).inWindow 0 w first eq).1
          · exact fun eq => safe.distinct.committed 0 w w.rd first (eq.symm ▸ private_) eq.symm
        · rw [Function.update_of_ne same]
          rcases freed v member with member | ⟨private_, rfl | rfl⟩
          · exact safe.notCommitted v member b
          · exact fun eq => same ((safe.oldHolds 0 w first private_).committed b eq).1
          · exact fun eq => same (safe.distinct.map b w.rd (eq.symm ▸ private_) eq)
      notDst := fun v member i u at_ => by
        rcases freed v member with member | ⟨private_, rfl | rfl⟩
        · exact safe.notDst v member (i + 1) u at_
        · intro eq
          exact Nat.not_lt_zero _
            ((safe.oldHolds 0 w first private_).inWindow (i + 1) u at_ eq).1
        · exact fun eq =>
            safe.distinct.committed (i + 1) u w.rd at_ (eq.symm ▸ private_) eq.symm
      notOld := fun v member i u at_ => by
        rcases freed v member with member | ⟨private_, rfl | rfl⟩
        · exact safe.notOld v member (i + 1) u at_
        · intro eq
          cases safe.oldInj (i + 1) 0 u w at_ first (eq.symm ▸ private_) eq
        · intro eq
          obtain ⟨rd, none⟩ :=
            (safe.oldHolds (i + 1) u at_ (eq.symm ▸ private_)).committed w.rd eq.symm
          exact none 0 (Nat.succ_pos i) ⟨w, first, rd⟩
      distinct := safe.distinct.commit
      mapInj := safe.mapInj
      oldInj := fun i j u v atU atV private_ same =>
        Nat.succ.inj (safe.oldInj (i + 1) (j + 1) u v atU atV private_ same)
      oldMapped := fun i u a at_ => safe.oldMapped (i + 1) u a at_
      ratHolds := fun a private_ => (safe.ratHolds a private_).commit
      oldHolds := fun j u at_ private_ => (safe.oldHolds (j + 1) u at_ private_).commit }

-- ---------------------------------------------------------------------
-- Several commits at once
-- ---------------------------------------------------------------------

/-- The committed map once the first `n` entries have written it. -/
def commitMap [DecidableEq ρ] (cmap : ρ → τ) (win : List (Option (Write ρ τ))) : Nat → ρ → τ
  | 0 => cmap
  | n + 1 =>
    match win[n]? with
    | some (some w) => Function.update (commitMap cmap win n) w.rd w.dst
    | _ => commitMap cmap win n

theorem commitMap_of_write [DecidableEq ρ] (at_ : WriteAt win n w) :
    commitMap cmap win (n + 1) = Function.update (commitMap cmap win n) w.rd w.dst := by
  rw [WriteAt] at at_
  simp [commitMap, at_]

theorem commitMap_of_none [DecidableEq ρ] (none : ∀ w, ¬WriteAt win n w) :
    commitMap cmap win (n + 1) = commitMap cmap win n := by
  cases at_ : win[n]? with
  | none => simp [commitMap, at_]
  | some e =>
    cases e with
    | none => simp [commitMap, at_]
    | some w => exact absurd at_ (none w)

/-- Only the entries that commit matter. -/
theorem commitMap_congr [DecidableEq ρ] (same : ∀ k < n, win[k]? = win'[k]?) :
    commitMap cmap win n = commitMap cmap win' n := by
  induction n with
  | zero => rfl
  | succ n ih =>
    unfold commitMap
    rw [same n (Nat.lt_succ_self n), ih fun k less => same k (Nat.lt_succ_of_lt less)]

/-- What holds of the committed tags and of the destinations holds of what is committed next. -/
theorem commitMap_induct [DecidableEq ρ] (P : τ → Prop) (map : ∀ a, P (cmap a))
    (dst : ∀ i w, WriteAt win i w → P w.dst) (a : ρ) : P (commitMap cmap win n a) := by
  induction n with
  | zero => exact map a
  | succ n ih =>
    by_cases write : ∃ w, WriteAt win n w
    · obtain ⟨w, at_⟩ := write
      rw [commitMap_of_write at_]
      by_cases same : a = w.rd
      · rw [same, Function.update_self]
        exact dst n w at_
      · rw [Function.update_of_ne same]
        exact ih
    · rw [commitMap_of_none (not_exists.mp write)]
      exact ih

/-- A table written by the commit ports is the committed map after as many commits. -/
theorem writeEach_eq_commitMap [DecidableEq ρ] {en : Nat → Bool} {idx : Nat → ρ} {val : Nat → τ}
    (on : ∀ k < n, en k = true → ∃ w, WriteAt win k w ∧ w.rd = idx k ∧ w.dst = val k)
    (off : ∀ k < n, en k = false → ∀ w, ¬WriteAt win k w) :
    writeEach en idx val cmap n = commitMap cmap win n := by
  induction n with
  | zero => rfl
  | succ n ih =>
    have before := ih (fun k less => on k (Nat.lt_succ_of_lt less))
      fun k less => off k (Nat.lt_succ_of_lt less)
    cases port : en n with
    | true =>
      obtain ⟨w, at_, rd, dst⟩ := on n (Nat.lt_succ_self n) port
      rw [commitMap_of_write at_, rd, dst, ← before]
      simp [writeEach, port]
    | false =>
      rw [commitMap_of_none (off n (Nat.lt_succ_self n) port), ← before]
      simp [writeEach, port]

/-- What the first `n` commits may give back. -/
def released [DecidableEq ρ] (shared : τ → Prop) (cmap : ρ → τ) (win : List (Option (Write ρ τ)))
    (n : Nat) : Set τ :=
  {v | ¬shared v ∧ ∃ j < n, ∃ w, WriteAt win j w ∧ (v = w.old ∨ v = commitMap cmap win j w.rd)}

theorem drop_cases (less : n < win.length) :
    (win[n]? = some none ∧ win.drop n = none :: win.drop (n + 1)) ∨
      ∃ w, win[n]? = some (some w) ∧ win.drop n = some w :: win.drop (n + 1) := by
  rw [List.getElem?_eq_getElem less, List.drop_eq_getElem_cons less]
  cases win[n] with
  | none => exact .inl ⟨rfl, rfl⟩
  | some w => exact .inr ⟨w, rfl, rfl⟩

theorem Distinct.commits [DecidableEq ρ] (d : Distinct shared cmap win) (le : n ≤ win.length) :
    Distinct shared (commitMap cmap win n) (win.drop n) := by
  induction n with
  | zero => exact d
  | succ n ih =>
    have before := ih (Nat.le_of_succ_le le)
    rcases drop_cases (Nat.lt_of_succ_le le) with ⟨at_, tail⟩ | ⟨_, at_, tail⟩
    · rw [tail] at before
      simpa only [commitMap, at_] using before.drop
    · rw [tail] at before
      rw [commitMap_of_write at_]
      exact before.commit

theorem Safe.commits [DecidableEq ρ] (safe : Safe shared free rat cmap win)
    (le : n ≤ win.length) : Safe shared (free ∪ released shared cmap win n) rat
      (commitMap cmap win n) (win.drop n) := by
  induction n with
  | zero =>
    refine Safe.shrink safe ?_
    rintro v (member | ⟨-, j, less, -⟩)
    · exact member
    · exact absurd less (Nat.not_lt_zero j)
  | succ n ih =>
    have before := ih (Nat.le_of_succ_le le)
    rcases drop_cases (Nat.lt_of_succ_le le) with ⟨at_, tail⟩ | ⟨_, at_, tail⟩
    · rw [tail] at before
      simp only [commitMap, at_]
      refine before.drop.shrink ?_
      rintro v (member | ⟨private_, j, less, u, atU, back⟩)
      · exact .inl member
      · refine .inr ⟨private_, j, ?_, u, atU, back⟩
        refine Nat.lt_of_le_of_ne (Nat.le_of_lt_succ less) ?_
        rintro rfl
        rw [WriteAt, at_] at atU
        cases atU
    · rw [tail] at before
      rw [commitMap_of_write at_]
      refine before.commit ?_
      rintro v (member | ⟨private_, j, less, u, atU, back⟩)
      · exact .inl (.inl member)
      · rcases Nat.lt_succ_iff_lt_or_eq.mp less with inside | rfl
        · exact .inl (.inr ⟨private_, j, inside, u, atU, back⟩)
        · obtain rfl := writeAt_inj at_ atU
          exact .inr ⟨private_, back⟩

/-- The tags that the first `n` commits take out of the committed map. -/
def superseded [DecidableEq ρ] (cmap : ρ → τ) (win : List (Option (Write ρ τ))) (n : Nat) : Set τ :=
  {v | ∃ j < n, ∃ w, WriteAt win j w ∧ commitMap cmap win j w.rd = v}

/-- A tag that is committed at some point is committed later or superseded. -/
theorem committed_or_superseded [DecidableEq ρ] (was : commitMap cmap win m a = v) (le : m ≤ n) :
    (∃ b, commitMap cmap win n b = v) ∨ v ∈ superseded cmap win n := by
  induction le with
  | refl => exact .inl ⟨a, was⟩
  | step _ ih =>
    rename_i n _
    rcases ih with ⟨b, held⟩ | ⟨j, less, rest⟩
    · by_cases write : ∃ w, WriteAt win n w
      · obtain ⟨w, at_⟩ := write
        by_cases same : b = w.rd
        · subst same
          exact .inr ⟨n, Nat.lt_succ_self n, w, at_, held⟩
        · refine .inl ⟨b, ?_⟩
          rw [Nat.succ_eq_add_one, commitMap_of_write at_, Function.update_of_ne same]
          exact held
      · refine .inl ⟨b, ?_⟩
        rw [Nat.succ_eq_add_one, commitMap_of_none (not_exists.mp write)]
        exact held
    · exact .inr ⟨j, Nat.lt_succ_of_lt less, rest⟩

/-- What a snapshot makes free when it is restored: the tags free in it, and those free in the
committed state now that were not then. -/
def reclaimed (shared : τ → Prop) (saved savedCommitted : Set τ) (cmap : ρ → τ) : Set τ :=
  saved ∪ {v | v ∉ savedCommitted ∧ ¬shared v ∧ ∀ a, cmap a ≠ v}

/-- Commits keep a snapshot safe. -/
theorem Safe.snapshot_commits [DecidableEq ρ] {saved savedCommitted : Set τ}
    (safe : Safe shared (reclaimed shared saved savedCommitted cmap) rat cmap win)
    (le : n ≤ win.length) :
    Safe shared (reclaimed shared saved savedCommitted (commitMap cmap win n)) rat
      (commitMap cmap win n) (win.drop n) := by
  refine (safe.commits le).shrink ?_
  rintro v (member | ⟨absent, private_, lost⟩)
  · exact .inl (.inl member)
  · by_cases was : ∃ a, cmap a = v
    · obtain ⟨a, was⟩ := was
      rcases committed_or_superseded (m := 0) was (Nat.zero_le n) with ⟨b, still⟩ | gone
      · exact absurd still (lost b)
      · obtain ⟨j, less, w, at_, eq⟩ := gone
        exact .inr ⟨private_, j, less, w, at_, .inr eq.symm⟩
    · exact .inl (.inr ⟨absent, private_, not_exists.mp was⟩)

/-- Starting over from the committed map with an empty window. -/
theorem Safe.restart (distinct : Distinct shared cmap win)
    (unused : ∀ v ∈ free, ¬shared v ∧ ∀ a, cmap a ≠ v) : Safe shared free cmap cmap [] where
  notShared v member := (unused v member).1
  notMapped v member := (unused v member).2
  notCommitted v member := (unused v member).2
  notDst _ _ i _ at_ := absurd (writeAt_lt at_) (Nat.not_lt_zero i)
  notOld _ _ i _ at_ := absurd (writeAt_lt at_) (Nat.not_lt_zero i)
  distinct :=
    { dst := fun i _ _ _ at_ => absurd (writeAt_lt at_) (Nat.not_lt_zero i)
      committed := fun i _ _ at_ => absurd (writeAt_lt at_) (Nat.not_lt_zero i)
      map := distinct.map }
  mapInj := distinct.map
  oldInj i _ _ _ at_ := absurd (writeAt_lt at_) (Nat.not_lt_zero i)
  oldMapped i _ _ at_ := absurd (writeAt_lt at_) (Nat.not_lt_zero i)
  ratHolds a private_ :=
    ⟨fun b eq => ⟨distinct.map b a (eq.symm ▸ private_) eq, fun i less => absurd less (Nat.not_lt_zero i)⟩,
      fun i _ at_ => absurd (writeAt_lt at_) (Nat.not_lt_zero i)⟩
  oldHolds i _ at_ := absurd (writeAt_lt at_) (Nat.not_lt_zero i)

end Rv64gc.Hdl
