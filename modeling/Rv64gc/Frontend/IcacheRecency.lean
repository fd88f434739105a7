import Rv64gc.Frontend.IcacheLines
import Rv64gc.Hdl.TreePlru

/-!
# Lines that stay

The way a miss will be installed in is picked when the miss register is taken, not when the line
comes. A line that has been used is in the way that a later miss picks only after three others of
its set have been used; a miss that was on its way before may have picked it already.
-/

namespace Rv64gc.Frontend

open Hdl

namespace Icache

variable {α : Type} {Carries : BitVec 58 → α → Prop} {s : Icache α} {i : IcacheIn α}
  {set : BitVec 6} {w : Fin 8} {m : Fin 2}

-- ---------------------------------------------------------------------
-- Uses
-- ---------------------------------------------------------------------

/-- The way of the set that the request in stage 1 hits, or else the one that is installed. -/
def uses (s : Icache α) (i : IcacheIn α) (set : BitVec 6) : Option (Fin 8) :=
  if i.invalidateAll then none
  else match (if s.s1Valid then s.hitWay else none), s.install i with
    | some w, _ => if set = setOf s.s1Addr then some w else none
    | none, some e => if set = setOf e.addr then some e.victim else none
    | none, none => none

/-- The ways of the set that are used in some cycles -/
def usesIn (set : BitVec 6) (s : Icache α) : List (IcacheIn α) → List (Fin 8)
  | [] => []
  | i :: rest => (s.uses i set).toList ++ usesIn set (s.next i) rest

/-- The line of a way -/
def entry (s : Icache α) (set : BitVec 6) (w : Fin 8) : Option (BitVec 52 × α) :=
  if s.validArr set w then some (s.tagArr set w, s.dataArr w set) else none

/-- No miss on its way will be installed there. -/
def Unclaimed (s : Icache α) (set : BitVec 6) (w : Fin 8) : Prop :=
  ∀ m, (s.mshr m).valid = true → setOf (s.mshr m).addr = set → (s.mshr m).victim ≠ w

-- ---------------------------------------------------------------------
-- The tree
-- ---------------------------------------------------------------------

theorem getLsbD_touch : ∀ (p : BitVec 7) (w : Fin 8) (k : Fin 7),
    (plruTouch p w).getLsbD k = TreePlru.turn (fun k => p.getLsbD k) w k := by
  decide +kernel

theorem follows : TreePlru.Follows 3 TreePlru.wayPath
    (fun p : BitVec 7 => TreePlru.ofSeven fun k => p.getLsbD k) plruTouch plruVictim :=
  .of_seven (fun p w => funext (getLsbD_touch p w)) (by decide +kernel)

theorem plruNext_uses (s : Icache α) (i : IcacheIn α) (set : BitVec 6) :
    s.plruNext i set = (s.uses i set).toList.foldl plruTouch (s.plruState set) := by
  unfold plruNext uses
  cases i.invalidateAll with
  | true => rfl
  | false =>
    simp only [Bool.false_eq_true, if_false]
    generalize (if s.s1Valid = true then s.hitWay else none) = looked
    cases looked with
    | some w => by_cases here : set = setOf s.s1Addr <;> simp [here]
    | none =>
      cases s.install i with
      | some e => by_cases here : set = setOf e.addr <;> simp [here]
      | none => rfl

-- ---------------------------------------------------------------------
-- Lines
-- ---------------------------------------------------------------------

/-- A register in use keeps its way, or takes the victim of the set that was looked up. -/
theorem mshrNext_victim (valid : (s.mshrNext i m).valid = true) :
    (s.mshr m).valid = true ∧ (s.mshrNext i m).addr = (s.mshr m).addr ∧
        (s.mshrNext i m).victim = (s.mshr m).victim ∨
      (s.mshrNext i m).addr = s.s1Pa ∧ s.s1Valid = true ∧
        (s.mshrNext i m).victim = plruVictim (s.plruState (setOf s.s1Addr)) := by
  obtain ⟨keeps, -⟩ := mshrNext_valid valid
  unfold mshrNext at *
  simp only [keeps, Bool.false_eq_true, if_false] at valid ⊢
  cases takes : s.allocates i && s.freeIdx == some m with
  | true =>
    have looks : s.s1Valid = true := by
      simp only [allocates, Bool.and_eq_true] at takes
      exact takes.1.1.1.1
    refine .inr ⟨?_, looks, ?_⟩
    all_goals
      simp only [if_true]
      repeat' split
      all_goals rfl
  | false =>
    left
    simp only [takes, Bool.false_eq_true, if_false] at valid ⊢
    grind

theorem Unclaimed.next (index : s.s1Valid = true → setOf s.s1Addr = setOf s.s1Pa)
    (unclaimed : s.Unclaimed set w) (spared : plruVictim (s.plruState set) ≠ w) :
    (s.next i).Unclaimed set w := by
  intro m valid here
  have valid : (s.mshrNext i m).valid = true := valid
  have here : setOf (s.mshrNext i m).addr = set := here
  show (s.mshrNext i m).victim ≠ w
  rcases mshrNext_victim valid with ⟨before, addr, victim⟩ | ⟨addr, looks, victim⟩
  · rw [addr] at here
    rw [victim]
    exact unclaimed m before here
  · rw [addr, ← index looks] at here
    rw [victim, here]
    exact spared

/-- What is installed was waited for. -/
theorem install_victim (writes : s.install i = some e) :
    ∃ m, (s.mshr m).valid = true ∧ e.addr = (s.mshr m).addr ∧ e.victim = (s.mshr m).victim := by
  unfold install at writes
  split at writes
  next m f sc =>
    cases writes
    have awaited := (scInstall_cases sc).2
    simp only [awaits, Bool.and_eq_true] at awaited
    exact ⟨m, awaited.1.1, rfl, rfl⟩
  next =>
    obtain ⟨m, first, rfl⟩ := Option.map_eq_some_iff.mp writes
    have found := firstOf_some first
    simp only [Bool.and_eq_true] at found
    exact ⟨m, found.1, rfl, rfl⟩

/-- A way that no miss will be installed in keeps its line. -/
theorem entry_next (stays : i.invalidateAll = false) (unclaimed : s.Unclaimed set w) :
    (s.next i).entry set w = s.entry set w := by
  unfold entry next validArrNext tagArrNext dataArrNext
  simp only [stays, Bool.false_eq_true, if_false]
  cases writes : s.install i with
  | none => rfl
  | some e =>
    have other : ¬(set = setOf e.addr ∧ w = e.victim) := by
      rintro ⟨here, way⟩
      obtain ⟨m, valid, addr, victim⟩ := install_victim writes
      rw [addr] at here
      exact unclaimed m valid here.symm (victim ▸ way.symm)
    simp only [if_neg other]

/-- The ways that have been used since are `us`, and fewer than three others of the set are. -/
theorem entry_run [Inhabited α] (s : Icache α) (p : BitVec 7) (us : List (Fin 8))
    (inputs : List (IcacheIn α)) (reach : (icacheRuns Carries).Reachable s)
    (legal : (icacheRuns Carries).Legal s inputs)
    (tree : s.plruState set = us.foldl plruTouch (plruTouch p w)) (unclaimed : s.Unclaimed set w)
    (stays : ∀ i ∈ inputs, i.invalidateAll = false)
    (few : (((us ++ usesIn set s inputs).filter (· ≠ w)).toFinset).card < 3) :
    ((icacheRuns Carries).run s inputs).entry set w = s.entry set w := by
  induction inputs generalizing s us with
  | nil => rfl
  | cons i rest ih =>
    have spared : plruVictim (s.plruState set) ≠ w := by
      rw [tree]
      refine follows.spared p (lt_of_le_of_lt (Finset.card_le_card ?_) few)
      intro u on
      rw [List.filter_append, List.toFinset_append]
      exact Finset.mem_union_left _ on
    have index := (sound_of_reach reach).index
    have onward : (s.next i).plruState set =
        (us ++ (s.uses i set).toList).foldl plruTouch (plruTouch p w) := by
      show s.plruNext i set = _
      rw [plruNext_uses, tree, List.foldl_append]
    have rest_few : ((((us ++ (s.uses i set).toList) ++
        usesIn set (s.next i) rest).filter (· ≠ w)).toFinset).card < 3 := by
      rw [List.append_assoc]
      exact few
    calc ((icacheRuns Carries).run (s.next i) rest).entry set w
        = (s.next i).entry set w :=
          ih (s.next i) _ (reach.cycle legal.1) legal.2 onward (unclaimed.next index spared)
            (fun j on => stays j (List.mem_cons_of_mem i on)) rest_few
      _ = s.entry set w := entry_next (stays i List.mem_cons_self) unclaimed

end Icache

end Rv64gc.Frontend
