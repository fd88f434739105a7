import Rv64gc.Frontend.UopTraces
import Rv64gc.Hdl.TreePlru

/-!
# Traces that stay

A fill goes to the way that the tree of its set points to, and every fill and hit turns the tree
away from its way. A trace that has been used is replaced only after three others of its set.
-/

namespace Rv64gc.Frontend

open Hdl

namespace UopCache

variable (policy : UocPolicy) (s : UopCache) (i : UopIn) (set : UocIndex) (w : UocWay)

-- ---------------------------------------------------------------------
-- Uses
-- ---------------------------------------------------------------------

/-- What the cycle fills in the set. -/
def fills : Option Sealed := (s.doFill policy i).filter fun x => set == pcIndex x.head

/-- The way of the set that is filled, or else hit. -/
def uses : Option UocWay :=
  match s.fills policy i set with
  | some x => some (s.victimWay x)
  | none => if set = pcIndex s.lookupPc && s.hit then some s.hitWay else none

/-- The state after some cycles -/
def after (s : UopCache) (inputs : List UopIn) : UopCache := inputs.foldl (next policy) s

/-- The ways of the set that are used in some cycles -/
def usesIn (s : UopCache) : List UopIn → List UocWay
  | [] => []
  | i :: rest => (s.uses policy i set).toList ++ usesIn (s.next policy i) rest

/-- The trace of a way -/
def entry : Option (UocTag × List DecodedInsn) :=
  if s.valid set w then some (s.tag set w, s.data set w) else none

variable {policy s i set w}

-- ---------------------------------------------------------------------
-- The tree
-- ---------------------------------------------------------------------

theorem follows : TreePlru.Follows 3 TreePlru.wayPath TreePlru.ofSeven plruUpdate plruVictim :=
  TreePlru.follows_seven

theorem plruNext_uses : s.plruNext policy i set =
    (s.uses policy i set).toList.foldl plruUpdate (s.plru set) := by
  unfold plruNext uses fills arrays
  cases fill : s.doFill policy i with
  | none =>
    by_cases hits : (decide (set = pcIndex s.lookupPc) && s.hit) = true
    · simp [hits]
    · simp [hits]
  | some x =>
    by_cases here : set = pcIndex x.head
    · have inSet : (some x).filter (fun y : Sealed => set == pcIndex y.head) = some x := by
        simp [here, Option.filter_some]
      rw [inSet]
      by_cases same : pcIndex x.head = pcIndex s.lookupPc <;> simp [here, filled, same]
    · have inSet : (some x).filter (fun y : Sealed => set == pcIndex y.head) = none := by
        simp [here, Option.filter_some]
      rw [inSet]
      by_cases looked : set = pcIndex s.lookupPc
      · have other : pcIndex x.head ≠ pcIndex s.lookupPc := fun same => here (looked.trans same.symm)
        cases s.hit <;> simp [filled, looked, other, Ne.symm other]
      · simp [here, filled, looked]

-- ---------------------------------------------------------------------
-- Traces
-- ---------------------------------------------------------------------

/-- A way that is not filled keeps its trace. -/
theorem entry_next (stays : i.invalidate = false)
    (spared : plruVictim (s.plru set) ≠ w) :
    (s.next policy i).entry set w = s.entry set w := by
  have same : (s.arrays policy i).entry set w = s.entry set w := by
    unfold arrays
    cases fill : s.doFill policy i with
    | none => rfl
    | some x =>
      have other : ¬(set = pcIndex x.head ∧ w = s.victimWay x) := by
        rintro ⟨here, way⟩
        rw [here] at spared
        exact spared way.symm
      simp [entry, filled, other]
  rw [← same]
  simp [entry, next, stays]

/-- The ways that have been used since are `us`, and fewer than three others of the set are. -/
theorem entry_after (s : UopCache) (p : Fin 7 → Bool) (us : List UocWay) (inputs : List UopIn)
    (tree : s.plru set = us.foldl plruUpdate (plruUpdate p w))
    (stays : ∀ i ∈ inputs, i.invalidate = false)
    (few : (((us ++ usesIn policy set s inputs).filter (· ≠ w)).toFinset).card < 3) :
    (after policy s inputs).entry set w = s.entry set w := by
  induction inputs generalizing s us with
  | nil => rfl
  | cons i rest ih =>
    have spared : plruVictim (s.plru set) ≠ w := by
      rw [tree]
      refine follows.spared p (lt_of_le_of_lt (Finset.card_le_card ?_) few)
      intro u on
      rw [List.filter_append, List.toFinset_append]
      exact Finset.mem_union_left _ on
    have onward : (s.next policy i).plru set =
        (us ++ (s.uses policy i set).toList).foldl plruUpdate (plruUpdate p w) := by
      show s.plruNext policy i set = _
      rw [plruNext_uses, tree, List.foldl_append]
    have rest_few : ((((us ++ (s.uses policy i set).toList) ++
        usesIn policy set (s.next policy i) rest).filter (· ≠ w)).toFinset).card < 3 := by
      rw [List.append_assoc]
      exact few
    calc (after policy (s.next policy i) rest).entry set w
        = (s.next policy i).entry set w :=
          ih _ _ onward (fun j on => stays j (List.mem_cons_of_mem i on)) rest_few
      _ = s.entry set w := entry_next (stays i List.mem_cons_self) spared

end UopCache

end Rv64gc.Frontend
