import Rv64gc.Cache.DcacheLines

/-!
# The ways a set fills

A use of a way sets the bit of its pair to the way that the victim function reads as the next one
to go: way 1 clears the bit that picks way 1, way 3 the one that picks way 3. Nothing looks for a
way that is free. A set that starts with all bits clear fills its ways 1 and 3 in turn, and never
the other two.
-/

namespace Rv64gc.L1d

open Hdl

namespace Dcache

/-- One of the two ways that are filled. -/
def Filled (w : Way) : Prop := w = 1 ∨ w = 3

/-- The two bits below the root are clear, so no victim is way 0 or 2. -/
structure Halved (s : Dcache) : Prop where
  low : ∀ set, (s.plru set).getLsbD 0 = false
  high : ∀ set, (s.plru set).getLsbD 1 = false
  ways : ∀ set w, (s.tags set w).valid = true → Filled w
  outA : ∀ w, (s.outA w).valid = true → Filled w
  outB : ∀ w, (s.outB w).valid = true → Filled w
  mshrs : ∀ m, (s.mshr m).valid = true → Filled (s.mshr m).victim

/-- The way of the set that a load hits in port A, or else the one that is installed. -/
def uses (s : Dcache) (i : Inputs) (set : SetIndex) : Option Way :=
  if i.invalidateAll then none
  else
    match s.ld0Line, s.ld0Hit with
    | some l, some w => if set = indexOf l then some w else none
    | _, _ =>
      s.installIdx.bind fun m =>
        if set = indexOf (s.mshr m).line then some (s.mshr m).victim else none

variable {s : Dcache} {i : Inputs} {en : Bool} {set : SetIndex} {w : Way}

-- ---------------------------------------------------------------------
-- The tree of a set
-- ---------------------------------------------------------------------

theorem nextPlru_uses (s : Dcache) (i : Inputs) (set : SetIndex) :
    s.nextPlru i set = (s.uses i set).elim (s.plru set) (s.touched set) := by
  unfold nextPlru uses
  split
  · rfl
  · cases s.ld0Line <;> cases s.ld0Hit <;> cases s.installIdx
    all_goals
      simp only [Option.bind_none, Option.bind_some, Option.elim_none]
      -- A use is of one set, and the others keep their tree.
      try split <;> rfl

theorem Halved.victim (halved : s.Halved) (set : SetIndex) : Filled (s.victimWay set) := by
  have low := halved.low set
  have high := halved.high set
  unfold victimWay
  simp only [low, high]
  split
  · exact .inr rfl
  · exact .inl rfl

/-- A use leaves the two bits clear and turns the root to the other way. -/
theorem touched_bits (set : SetIndex) (halved : s.Halved) (filled : Filled w) :
    (s.touched set w).getLsbD 0 = false ∧ (s.touched set w).getLsbD 1 = false ∧
      (s.touched set w).getLsbD 2 = decide (w = 1) := by
  have low := halved.low set
  have high := halved.high set
  unfold touched
  rcases filled with rfl | rfl
  · simp only [low]
    decide
  · simp only [high]
    decide

-- ---------------------------------------------------------------------
-- Ways that are named
-- ---------------------------------------------------------------------

theorem wayHit_valid {out : Way → TagEntry} {line : Line} (hit : wayHit out line = some w) :
    (out w).valid = true := by
  have found := lastOf_some hit
  simp only [Bool.and_eq_true] at found
  exact found.1

theorem Halved.install (halved : s.Halved) (install : s.installIdx = some m) :
    Filled (s.mshr m).victim :=
  halved.mshrs m (installIdx_valid install)

theorem Halved.uses (halved : s.Halved) (used : s.uses i set = some w) : Filled w := by
  unfold Dcache.uses at used
  split at used
  · cases used
  · split at used
    next l w' line hit =>
      split at used
      · cases used
        rw [ld0Hit, line] at hit
        exact halved.outA w (wayHit_valid hit)
      · cases used
    next =>
      obtain ⟨m, install, used⟩ := Option.bind_eq_some_iff.mp used
      split at used
      · cases used
        exact halved.install install
      · cases used

/-- A new entry takes the victim of its set. -/
theorem allocated_victim {old e : Mshr} (new : s.allocated i old = some e) :
    e.victim = s.victimWay (indexOf e.line) := by
  unfold allocated at new
  split_ifs at new
  all_goals
    obtain ⟨l, -, rfl⟩ := Option.map_eq_some_iff.mp new
    rfl

theorem nextMshr_victim (m : MshrIdx) : (s.nextMshr i m).victim =
    (if s.mshrFree = some m then ((s.allocated i (s.mshr m)).getD (s.mshr m)).victim
      else (s.mshr m).victim) := by
  simp only [nextMshr, upgrade, apply_ite Mshr.victim, ite_self]

-- ---------------------------------------------------------------------
-- The invariant
-- ---------------------------------------------------------------------

theorem Halved.readOut (halved : s.Halved) (valid : (s.readOut set w).valid = true) :
    Filled w := by
  rcases readOut_cases (s := s) set w with old | ⟨m, install, -, rfl, -⟩
  · rw [old] at valid
    exact halved.ways set w valid
  · exact halved.install install

theorem Halved.next_mshrs (halved : s.Halved) (m : MshrIdx)
    (valid : (s.nextMshr i m).valid = true) : Filled (s.nextMshr i m).victim := by
  rw [nextMshr_victim]
  rw [nextMshr_valid] at valid
  split_ifs at valid with done full free
  · rw [if_pos free]
    cases new : s.allocated i (s.mshr m) with
    | some e =>
      rw [Option.getD_some, allocated_victim new]
      exact halved.victim _
    | none =>
      rw [new] at valid
      exact halved.mshrs m valid
  · rw [if_neg free]
    exact halved.mshrs m valid

theorem Halved.next_tree (halved : s.Halved) (set : SetIndex) :
    (s.nextPlru i set).getLsbD 0 = false ∧ (s.nextPlru i set).getLsbD 1 = false := by
  rw [nextPlru_uses]
  cases used : s.uses i set with
  | none => exact ⟨halved.low set, halved.high set⟩
  | some w =>
    obtain ⟨low, high, -⟩ := touched_bits set halved (halved.uses used)
    exact ⟨low, high⟩

theorem Halved.next (halved : s.Halved) : (s.next i en).Halved where
  low set := (halved.next_tree set).1
  high set := (halved.next_tree set).2
  ways set w valid := by
    have valid : (s.nextTags i set w).valid = true := valid
    rw [nextTags_valid valid] at valid
    exact halved.readOut valid
  outA _ valid := halved.readOut valid
  outB _ valid := halved.readOut valid
  mshrs m valid := halved.next_mshrs m valid

theorem Halved.reset : (reset : Dcache).Halved where
  low _ := BitVec.getLsbD_zero
  high _ := BitVec.getLsbD_zero
  ways := nofun
  outA := nofun
  outB := nofun
  mshrs := nofun

/-- The victim is the filled way that was not used last. -/
theorem Halved.victim_next (halved : s.Halved) (used : s.uses i set = some w) :
    (s.next i en).victimWay set = if w = 1 then 3 else 1 := by
  obtain ⟨low, high, root⟩ := touched_bits set halved (halved.uses used)
  have tree : (s.next i en).plru set = s.touched set w := by
    show s.nextPlru i set = _
    rw [nextPlru_uses, used]
    rfl
  simp only [victimWay, tree, low, high, root, decide_eq_true_eq]
  rfl

end Dcache

end Rv64gc.L1d
