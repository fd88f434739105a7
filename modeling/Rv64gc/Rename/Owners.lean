import Rv64gc.Rename.InFlight

/-!
# Every physical register has one owner

The invariant of rename and the instructions in flight: for both register classes the state is
`Safe`, and so is every snapshot that a branch in flight may still restore, with the window cut at
that branch. A snapshot's slot may have been taken over by a younger branch; the snapshot of a
longer window is safe for the shorter one too.
-/

namespace Rv64gc.Rename

open Hdl Backend

-- ---------------------------------------------------------------------
-- The batch of a cycle
-- ---------------------------------------------------------------------

namespace RenameStage

variable {s : RenameStage} {x : RenameIn}

def batch (s : RenameStage) (x : RenameIn) (c : RegClass) : List (Option (Write ArchReg PhysReg)) :=
  (s.renInsn x).map (·.write c)

/-- Free once the slots before `k` have taken their registers. -/
def freeBefore (s : RenameStage) (x : RenameIn) (c : RegClass) (k : Nat) : Set PhysReg :=
  {v | ((s.freeList c).workBitmap (s.pregConsumedBefore x c k)).getLsbD v = true}

theorem oldPdst_renamed (at_slot : (s.work x)[k]? = some d) :
    (s.renamed x k d).oldPdst = d.rdClass.base + s.mapBefore x d.rdClass k d.rdArch := by
  have read := ratRead_eq (s := s) (x := x) (c := d.rdClass) (k := k) (a := d.rdArch)
  rw [← read]
  simp [renamed, ratRead, Rat.oldPhys, ratIn, ratWrArch_eq at_slot]

theorem write_renamed (at_slot : (s.work x)[k]? = some d) :
    (s.renamed x k d).write c =
      if d.writesRd && d.rdClass == c then
        some ⟨d.rdArch, s.ratWrPhys x c k, s.mapBefore x c k d.rdArch⟩
      else none := by
  have base : (s.renamed x k d).base = d := rfl
  rw [RenamedInsn.write, base]
  split
  · rename_i writes
    obtain ⟨wr, same⟩ := (Bool.and_eq_true _ _).mp writes
    rw [beq_iff_eq] at same
    subst same
    rw [oldPdst_renamed at_slot]
    simp [renamed, wr]
  · rfl

/-- The register a slot writes is the next free one, or `p0`. -/
theorem grant_of_writes (inside : k < s.advanceCount x) (at_slot : (s.work x)[k]? = some d)
    (writes : (d.writesRd && d.rdClass == c) = true) :
    (s.ratWrPhys x c k ∈ s.freeBefore x c k ∧
        s.freeBefore x c (k + 1) ⊆ s.freeBefore x c k \ {s.ratWrPhys x c k}) ∨
      d.isZeroElim = true ∧ c.Shared (s.ratWrPhys x c k) ∧
        s.freeBefore x c (k + 1) = s.freeBefore x c k := by
  obtain ⟨wr, same⟩ := (Bool.and_eq_true _ _).mp writes
  rw [beq_iff_eq] at same
  subst same
  have tag := ratWrPhys_eq inside at_slot wr
  unfold freeBefore
  rw [consumed_succ inside at_slot]
  cases zero : d.isZeroElim with
  | true =>
    refine .inr ⟨rfl, ?_, by simp [DecodedInsn.needsPreg, zero]⟩
    have int : d.rdClass = .int := by
      simp only [DecodedInsn.isZeroElim, Bool.and_eq_true, Bool.not_eq_true'] at zero
      simp [DecodedInsn.rdClass, zero.1.1.2, RegClass.ofFp]
    rw [tag, zero]
    exact ⟨by rw [int]; rfl, rfl⟩
  | false =>
    have needs : d.needsPreg = true := by simp [DecodedInsn.needsPreg, wr, zero]
    have found := found_of_needsPreg (slotCanAdvance_iff.mpr inside) at_slot needs
    rw [flSlotIdx_eq (Nat.le_of_lt inside)] at found
    rw [tag, zero, needs]
    simp only [Bool.false_eq_true, if_false, beq_self_eq_true, Bool.and_self, if_true]
    refine .inl ⟨(firstSet_some found).2, fun v member => ?_⟩
    obtain ⟨free, before⟩ := FreeList.workBitmap_iff.mp member
    refine ⟨FreeList.workBitmap_iff.mpr ⟨free, fun j less => before j (Nat.lt_succ_of_lt less)⟩, ?_⟩
    rintro rfl
    exact before _ (Nat.lt_succ_self _) found

theorem freeBefore_idle (inside : k < s.advanceCount x) (at_slot : (s.work x)[k]? = some d)
    (idle : (d.writesRd && d.rdClass == c) = false) :
    s.freeBefore x c (k + 1) = s.freeBefore x c k := by
  have none : (d.needsPreg && d.rdClass == c) = false := by
    rw [DecodedInsn.needsPreg, Bool.and_right_comm, idle]
    rfl
  rw [freeBefore, consumed_succ inside at_slot, none]
  rfl

theorem take_batch_succ (inside : k < s.advanceCount x) (at_slot : (s.work x)[k]? = some d) :
    (s.batch x c).take (k + 1) = (s.batch x c).take k ++ [(s.renamed x k d).write c] := by
  rw [List.take_add_one, batch, List.getElem?_map, getElem?_renInsn, if_pos inside, at_slot]
  rfl

/-- Renaming the slots before `k` keeps the state safe. -/
theorem safe_batch {cmap : ArchReg → PhysReg} {win : List (Option (Write ArchReg PhysReg))}
    (safe : Safe c.Shared {v | (s.freeList c).freeBitmap.getLsbD v = true} (s.rat c).table cmap win)
    (le : k ≤ s.advanceCount x) :
    Safe c.Shared (s.freeBefore x c k) (s.mapBefore x c k) cmap
      (win ++ (s.batch x c).take k) := by
  induction k with
  | zero =>
    rw [List.take_zero, List.append_nil]
    exact safe
  | succ k ih =>
    have inside : k < s.advanceCount x := le
    have less := slotCanAdvance_lt (slotCanAdvance_iff.mpr inside)
    obtain ⟨d, at_slot⟩ : ∃ d, (s.work x)[k]? = some d := ⟨_, List.getElem?_eq_getElem less⟩
    have before := ih (Nat.le_of_lt inside)
    rw [take_batch_succ inside at_slot, ← List.append_assoc, write_renamed at_slot,
      mapBefore_succ inside at_slot]
    cases writes : d.writesRd && d.rdClass == c with
    | false =>
      rw [freeBefore_idle inside at_slot writes]
      exact before.skip
    | true =>
      rcases grant_of_writes inside at_slot writes with ⟨grant, sub⟩ | ⟨-, zero, same⟩
      · exact (before.alloc (.inl grant) d.rdArch).shrink sub
      · refine (before.alloc (.inr zero) d.rdArch).shrink fun v member => ⟨same ▸ member, ?_⟩
        rintro rfl
        exact before.notShared _ (same ▸ member) zero

end RenameStage

-- ---------------------------------------------------------------------
-- The invariant
-- ---------------------------------------------------------------------

namespace Core

def freeSet (s : Core) (c : RegClass) : Set PhysReg :=
  {v | (s.rename.freeList c).freeBitmap.getLsbD v = true}

def saved (s : Core) (c : RegClass) (id : CkptId) : Set PhysReg :=
  {v | ((s.rename.freeList c).ckptBitmap id).getLsbD v = true}

/-- Free in the committed state of the snapshot; tags that do not exist count as free. -/
def savedCommitted (s : Core) (c : RegClass) (id : CkptId) : Set PhysReg :=
  {v | v < c.depth → ((s.rename.freeList c).ckptCommittedBitmap id).getLsbD v = true}

/-- The snapshot in slot `id` may be restored by the instruction in place `k`. -/
def SnapshotSafe (s : Core) (c : RegClass) (id : CkptId) (k : Nat) : Prop :=
  Safe c.Shared
    (reclaimed c.Shared (s.saved c id) (s.savedCommitted c id) (s.rename.rat c).committed)
    ((s.rename.rat c).ckpt id) (s.rename.rat c).committed ((s.window c).take k)

structure Owned (s : Core) : Prop where
  zeroHeld : Rat.ZeroHeld (s.rename.rat .int)
  maps : ∀ c, (s.rename.freeList c).committedMap = (s.rename.rat c).committed
  /-- What an instruction that names `x0` replaces is `p0`. -/
  x0 : ∀ r ∈ s.inFlight, r.base.rdIsFp = false → r.base.rdArch = 0 → r.oldPdst = 0
  tags : ∀ r ∈ s.inFlight, r.base.writesRd = true → ∃ v < r.base.rdClass.depth,
    r.pdst = r.base.rdClass.base + v ∧ (r.base.isZeroElim = false → ¬r.base.rdClass.Shared v)
  committed : ∀ c a, (s.rename.rat c).committed a < c.depth
  safe : ∀ c, Safe c.Shared (s.freeSet c) (s.rename.rat c).table (s.rename.rat c).committed
    (s.window c)
  snapshots : ∀ c (k : Nat) (r : RenamedInsn), s.inFlight[k]? = some r → r.usesCheckpoint = true →
    r.base.rdValid = false → s.SnapshotSafe c r.checkpointId k

variable {s : Core} {i : CoreIn}

theorem initBitmap_iff : (FreeList.initBitmap depth).getLsbD v = true ↔ v < depth ∧ 32 ≤ v := by
  simp only [FreeList.initBitmap, BitVec.getLsbD_and, BitVec.getLsbD_allOnes, BitVec.getLsbD_not,
    BitVec.getLsbD_setWidth, Bool.and_eq_true, Bool.not_eq_true', decide_eq_true_eq,
    Bool.and_eq_false_imp, decide_eq_false_iff_not, archRegs]
  constructor
  · rintro ⟨inside, -, outside⟩
    exact ⟨inside, by simpa using outside inside⟩
  · rintro ⟨inside, above⟩
    exact ⟨inside, inside, fun _ => by omega⟩

theorem owned_reset : Owned .reset where
  zeroHeld := Rat.zeroHeld_reset
  maps _ := rfl
  x0 r member := by cases member
  tags r member := by cases member
  committed c a := by
    refine Nat.lt_of_lt_of_le a.isLt ?_
    cases c <;> decide
  safe c := by
    have distinct : Distinct c.Shared Rat.identity [] := by
      refine ⟨?_, ?_, ?_⟩
      · exact fun i _ _ _ at_ => absurd (writeAt_lt at_) (Nat.not_lt_zero i)
      · exact fun i _ _ at_ => absurd (writeAt_lt at_) (Nat.not_lt_zero i)
      · exact fun a b _ same => BitVec.eq_of_toNat_eq same
    refine Safe.restart distinct fun v member => ?_
    · have above := (initBitmap_iff.mp member).2
      refine ⟨fun sh => ?_, fun a same => ?_⟩
      · rw [sh.2] at above
        cases above
      · have small := a.isLt
        have same : a.toNat = v := same
        omega
  snapshots c k r at_ := by cases at_

-- ---------------------------------------------------------------------
-- What commit gives back
-- ---------------------------------------------------------------------

/-- A register that the free list takes back is the one that a leaving instruction replaced. -/
theorem released_of_releases (owned : Owned s) (legal : s.Legal i)
    (release : FreeList.releases c.protectZero (s.rename.freeListIn (s.renameIn i) c) r = true)
    (tag : RenameStage.releasePreg (s.renameIn i) c r = v) :
    v ∈ released c.Shared (s.rename.rat c).committed (s.window c) i.commit.commitCount := by
  obtain ⟨less, private_⟩ := FreeList.releases_iff.mp release
  have private_ : ¬c.Shared v := by
    rw [← tag]
    exact private_
  have less : r < (packed (RenameStage.cratWrEn (s.renameIn i) c) pipeWidth).length := by
    rw [length_packed]
    exact less
  obtain ⟨k, at_⟩ : ∃ k, (packed (RenameStage.cratWrEn (s.renameIn i) c) pipeWidth)[r]? = some k :=
    ⟨_, List.getElem?_eq_getElem less⟩
  rw [RenameStage.releasePreg, at_] at tag
  have port := (getElem?_packed_iff.mp at_).2.1
  have port' := port
  simp only [RenameStage.cratWrEn, Bool.and_eq_true, decide_eq_true_eq, beq_iff_eq] at port'
  have leavesNow : k < i.commit.commitCount := port'.1.2
  obtain ⟨insn, at_k, agrees⟩ := leaves legal leavesNow
  have tag : insn.oldPdst - c.base = v := by
    rw [← tag, ← agrees.oldPdst]
    rfl
  have class_eq : insn.base.rdClass = c := by
    rw [← port'.2, DecodedInsn.rdClass, ← agrees.rdIsFp]
    rfl
  have writes : s.commitsAt i c k = true := by
    rw [commitsAt, port, Bool.true_and, Bool.or_eq_true, Bool.not_eq_true', bne_iff_ne]
    by_contra both
    simp only [not_or, not_not, Bool.not_eq_false] at both
    obtain ⟨zero, x0⟩ := both
    have arch : insn.base.rdArch = 0 := by
      rw [← agrees.rdArch]
      exact x0
    have int : insn.base.rdIsFp = false := by
      cases fp : insn.base.rdIsFp with
      | false => rfl
      | true =>
        rw [← class_eq, DecodedInsn.rdClass, fp] at zero
        cases zero
    have held := owned.x0 insn (List.mem_of_getElem? at_k) int arch
    rw [held, Nat.zero_sub] at tag
    exact private_ ⟨zero, tag.symm⟩
  obtain ⟨-, w, write⟩ := (commitsAt_iff legal leavesNow at_k).mp writes
  refine ⟨private_, k, leavesNow, w, writeAt_window.mpr ⟨insn, at_k, write⟩, .inl ?_⟩
  obtain ⟨-, rfl⟩ := write_some_iff.mp write
  exact tag.symm

theorem committedMapNext_eq (owned : Owned s) :
    (s.rename.freeList c).committedMapNext c.protectZero (s.rename.freeListIn (s.renameIn i) c) =
      (s.rename.rat c).committedNext c.protectZero (s.rename.ratIn (s.renameIn i) c) := by
  rw [FreeList.committedMapNext, owned.maps c]
  rfl

/-- The committed bitmap of the next state: what the committed map does not hold. -/
theorem committedBitmap_iff (owned : Owned s) :
    ((s.rename.freeList c).committedBitmapNext c.protectZero
        (s.rename.freeListIn (s.renameIn i) c)).getLsbD v = true ↔
      v < c.depth ∧ ¬c.Shared v ∧
        ∀ a, ((s.next i).rename.rat c).committed a ≠ v := by
  rw [FreeList.committedBitmapNext_iff, committedMapNext_eq owned]
  rfl

/-- What is committed is a register of the class. -/
theorem committed_bound (owned : Owned s) (legal : s.Legal i) (c : RegClass) (a : ArchReg) :
    ((s.next i).rename.rat c).committed a < c.depth := by
  have writes : ∀ k w, WriteAt (s.leaving i c) k w → w.dst < c.depth := by
    intro k w at_
    obtain ⟨r, at_r, write⟩ := writeAt_window.mp (writeAt_leaving.mp at_).2
    obtain ⟨wr, rfl⟩ := write_some_iff.mp write
    have both := writesRd_iff.mpr wr
    obtain ⟨writes, same⟩ := (Bool.and_eq_true _ _).mp both
    obtain rfl := beq_iff_eq.mp same
    obtain ⟨v, bound, tag, -⟩ := owned.tags r (List.mem_of_getElem? at_r) writes
    simp only [tag, Nat.add_sub_cancel_left]
    exact bound
  have next : ((s.next i).rename.rat c).committed =
      commitMap (s.rename.rat c).committed (s.leaving i c) i.commit.commitCount :=
    committedNext_eq legal
  rw [next]
  exact commitMap_induct (· < c.depth) (owned.committed c) writes a

-- ---------------------------------------------------------------------
-- One cycle
-- ---------------------------------------------------------------------

theorem window_length : (s.window c).length = s.inFlight.length := List.length_map ..

/-- The cycle saves a checkpoint in slot `cp`. -/
def saves (s : Core) (i : CoreIn) (cp : CkptId) : Bool :=
  s.rename.ckptSaveValid (s.renameIn i) && cp == s.rename.ckptSaveId (s.renameIn i)

/-- The slot holds the same in both states. -/
structure SameCkpt (s t : Core) (cp : CkptId) : Prop where
  saved : ∀ c, t.saved c cp = s.saved c cp
  savedCommitted : ∀ c, t.savedCommitted c cp = s.savedCommitted c cp
  map : ∀ c, (t.rename.rat c).ckpt cp = (s.rename.rat c).ckpt cp

theorem same_ckpt {cp : CkptId} (other : s.saves i cp = false) : SameCkpt s (s.next i) cp := by
  have off : (s.rename.ckptSaveValid (s.renameIn i) && cp == s.rename.ckptSaveId (s.renameIn i)) =
      false := other
  refine ⟨fun c => ?_, fun c => ?_, fun c => ?_⟩
  · simp only [saved, next, RenameStage.next, FreeList.next, RenameStage.freeListIn, off,
      Bool.false_eq_true, if_false]
  · simp only [savedCommitted, next, RenameStage.next, FreeList.next, RenameStage.freeListIn, off,
      Bool.false_eq_true, if_false]
  · simp only [next, RenameStage.next, Rat.next, RenameStage.ratIn, off, Bool.false_eq_true,
      if_false]

/-- The part of the window before `k` has committed what all of it has. -/
theorem committed_take (legal : s.Legal i) (calm : i.commit.flushOut.valid = false)
    (stays : i.commit.commitCount ≤ k) : ((s.next i).rename.rat c).committed =
      commitMap (s.rename.rat c).committed ((s.window c).take k) i.commit.commitCount := by
  refine (committedNext_calm legal calm).trans (commitMap_congr fun j less => ?_)
  rw [List.getElem?_take, if_pos (Nat.lt_of_lt_of_le less stays)]

theorem length_take_window (le : k ≤ s.inFlight.length) : ((s.window c).take k).length = k := by
  rw [List.length_take, window_length, Nat.min_eq_left le]

/-- A snapshot that is not overwritten stays safe, its window shorter by what has left. -/
theorem snapshot_kept {cp : CkptId} (snapshot : s.SnapshotSafe c cp k) (legal : s.Legal i)
    (calm : i.commit.flushOut.valid = false) (stays : i.commit.commitCount ≤ k)
    (le : k ≤ s.inFlight.length) (other : s.saves i cp = false) :
    Safe c.Shared
      (reclaimed c.Shared ((s.next i).saved c cp) ((s.next i).savedCommitted c cp)
        ((s.next i).rename.rat c).committed)
      (((s.next i).rename.rat c).ckpt cp) ((s.next i).rename.rat c).committed
      (((s.window c).take k).drop i.commit.commitCount) := by
  have same := same_ckpt other
  have short : i.commit.commitCount ≤ ((s.window c).take k).length := by
    rw [length_take_window le]
    exact stays
  have later := Safe.snapshot_commits snapshot short
  rw [← committed_take legal calm stays] at later
  rw [same.saved, same.savedCommitted, same.map]
  exact later

theorem owned_flush (owned : Owned s) (legal : s.Legal i)
    (flush : i.commit.flushOut.valid = true) : Owned (s.next i) := by
  have empty : (s.next i).inFlight = [] := by simp [next, inFlightNext, flush]
  have table : ∀ c, ((s.next i).rename.rat c).table = ((s.next i).rename.rat c).committed := by
    intro c
    simp [next, RenameStage.next, Rat.next, RenameStage.ratIn, doFlush_eq, flush]
  have free : ∀ c, ((s.next i).rename.freeList c).freeBitmap =
      (s.rename.freeList c).committedBitmapNext c.protectZero
        (s.rename.freeListIn (s.renameIn i) c) := by
    intro c
    simp [next, RenameStage.next, FreeList.next, RenameStage.freeListIn, doFlush_eq, flush]
  refine ⟨Rat.zeroHeld_next owned.zeroHeld, fun c => committedMapNext_eq owned, ?_, ?_,
    committed_bound owned legal, fun c => ?_, ?_⟩
  · rw [empty]
    exact fun r member => by cases member
  · rw [empty]
    exact fun r member => by cases member
  · have leaves : Distinct c.Shared (s.rename.rat c).committed (s.leaving i c) :=
      (owned.safe c).distinct.sub fun k w at_ => (writeAt_leaving.mp at_).2
    have distinct := leaves.commits (n := i.commit.commitCount) (by simp [leaving])
    rw [← committedNext_eq legal] at distinct
    rw [table, window, empty]
    refine Safe.restart distinct fun v member => ?_
    have unused : ((s.next i).rename.freeList c).freeBitmap.getLsbD v = true := member
    rw [free, committedBitmap_iff owned] at unused
    exact unused.2
  · rw [empty]
    exact fun c k r at_ => by cases at_

/-- What a recovery leaves of the window: the branch, which writes nothing, and what is older. -/
theorem window_recover (legal : s.Legal i) (recover : i.recover = some k)
    (at_ : s.inFlight[k]? = some r) (noRd : r.base.rdValid = false) :
    (s.next i).window c = ((s.window c).take k).drop i.commit.commitCount ++ [none] := by
  have calm := (legal.recovers k recover).1
  have less := (List.getElem?_eq_some_iff.mp at_).1
  have clear : ((s.inFlight.take (k + 1)).modify k RenamedInsn.recovered).map (·.write c) =
      (s.window c).take (k + 1) := by
    rw [window, ← List.map_take]
    apply List.ext_getElem?
    intro j
    simp only [List.getElem?_map, List.getElem?_modify]
    split <;> cases (s.inFlight.take (k + 1))[j]? <;> simp
  have last : (s.window c)[k]? = some none := by
    rw [window, List.getElem?_map, at_]
    simp [RenamedInsn.write, DecodedInsn.writesRd, noRd]
  rw [window, next]
  simp only [inFlightNext, calm, recover, Bool.false_eq_true, if_false]
  rw [List.map_drop, clear, List.take_add_one, last, List.drop_append_of_le_length]
  · rfl
  · rw [List.length_take, window_length, Nat.min_eq_left (Nat.le_of_lt less)]
    exact commitCount_le_recover legal recover

/-- After a recovery an entry is one that was older than the branch, or the branch itself. -/
theorem inFlight_recover (legal : s.Legal i) (recover : i.recover = some k)
    (at_ : s.inFlight[k]? = some r) (at_e : (s.next i).inFlight[j]? = some e) :
    (j + i.commit.commitCount < k ∧ s.inFlight[j + i.commit.commitCount]? = some e) ∨
      e = r.recovered := by
  have calm := (legal.recovers k recover).1
  simp only [next, inFlightNext, calm, recover, Bool.false_eq_true, if_false, List.getElem?_drop,
    List.getElem?_modify, List.getElem?_take] at at_e
  rw [Nat.add_comm i.commit.commitCount j] at at_e
  by_cases last : k = j + i.commit.commitCount
  · rw [← last, if_pos (Nat.lt_succ_self k), at_] at at_e
    simp only [if_true, Option.map_eq_map, Option.map_some, Option.some.injEq] at at_e
    exact .inr at_e.symm
  · simp only [if_neg last, Option.map_eq_map, Option.map_id'] at at_e
    split at at_e
    · exact .inl ⟨by omega, at_e⟩
    · cases at_e

/-- What stays in front of an older branch. -/
theorem window_take_recover (legal : s.Legal i) (recover : i.recover = some k)
    (at_ : s.inFlight[k]? = some r) (noRd : r.base.rdValid = false)
    (before : j + i.commit.commitCount < k) : ((s.next i).window c).take j =
      ((s.window c).take (j + i.commit.commitCount)).drop i.commit.commitCount := by
  have inside := (List.getElem?_eq_some_iff.mp at_).1
  rw [window_recover legal recover at_ noRd, List.drop_take, List.drop_take,
    List.take_append_of_le_length, List.take_take]
  · congr 1
    omega
  · rw [List.length_take, List.length_drop, window_length]
    omega

theorem restore_recover (legal : s.Legal i) (recover : i.recover = some k) :
    (s.renameIn i).doFlush = false ∧ (s.renameIn i).doCkptRestore = true := by
  have calm := (legal.recovers k recover).1
  refine ⟨doFlush_eq.trans calm, ?_⟩
  rw [doCkptRestore_eq calm, recover]
  rfl

theorem saves_recover (legal : s.Legal i) (recover : i.recover = some k) (cp : CkptId) :
    s.saves i cp = false := by
  simp [saves, RenameStage.ckptSaveValid, (restore_recover legal recover).2]

theorem table_recover (legal : s.Legal i) (recover : i.recover = some k)
    (at_ : s.inFlight[k]? = some r) :
    ((s.next i).rename.rat c).table = (s.rename.rat c).ckpt r.checkpointId := by
  obtain ⟨noFlush, restore⟩ := restore_recover legal recover
  have id := restoreId_eq (legal.recovers k recover).1 recover at_
  simp [next, RenameStage.next, Rat.next, RenameStage.ratIn, noFlush, restore, id]

/-- A recovery makes free what the snapshot reclaims. -/
theorem free_recover (owned : Owned s) (legal : s.Legal i) (recover : i.recover = some k)
    (at_ : s.inFlight[k]? = some r) : (s.next i).freeSet c =
      reclaimed c.Shared (s.saved c r.checkpointId) (s.savedCommitted c r.checkpointId)
        ((s.next i).rename.rat c).committed := by
  obtain ⟨noFlush, restore⟩ := restore_recover legal recover
  have id := restoreId_eq (legal.recovers k recover).1 recover at_
  have free : ((s.next i).rename.freeList c).freeBitmap =
      (s.rename.freeList c).ckptBitmap r.checkpointId |||
        ((s.rename.freeList c).committedBitmapNext c.protectZero
            (s.rename.freeListIn (s.renameIn i) c) &&&
          ~~~(s.rename.freeList c).ckptCommittedBitmap r.checkpointId) := by
    simp [next, RenameStage.next, FreeList.next, RenameStage.freeListIn, noFlush, restore, id]
  ext v
  have now : v ∈ (s.next i).freeSet c ↔
      ((s.next i).rename.freeList c).freeBitmap.getLsbD v = true := Iff.rfl
  rw [now, free, BitVec.getLsbD_or, BitVec.getLsbD_and, BitVec.getLsbD_not, Bool.or_eq_true,
    Bool.and_eq_true, Bool.and_eq_true, committedBitmap_iff owned, Bool.not_eq_true',
    decide_eq_true_eq]
  constructor
  · rintro (was | ⟨⟨bound, private_, lost⟩, -, absent⟩)
    · exact .inl was
    · refine .inr ⟨fun was => ?_, private_, lost⟩
      rw [was bound] at absent
      cases absent
  · rintro (was | ⟨absent, private_, lost⟩)
    · exact .inl was
    · obtain ⟨bound, absent⟩ := Classical.not_imp.mp absent
      exact .inr ⟨⟨bound, private_, lost⟩, bound, Bool.eq_false_of_not_eq_true absent⟩

theorem owned_recover (owned : Owned s) (legal : s.Legal i) (recover : i.recover = some k) :
    Owned (s.next i) := by
  obtain ⟨calm, -, -, r, at_, uses, noRd⟩ := legal.recovers k recover
  have inside := (List.getElem?_eq_some_iff.mp at_).1
  have stays := commitCount_le_recover legal recover
  refine ⟨Rat.zeroHeld_next owned.zeroHeld, fun c => committedMapNext_eq owned, ?_, ?_,
    committed_bound owned legal, fun c => ?_, ?_⟩
  · intro e member
    obtain ⟨j, at_e⟩ := List.mem_iff_getElem?.mp member
    rcases inFlight_recover legal recover at_ at_e with ⟨-, old⟩ | rfl
    · exact owned.x0 e (List.mem_of_getElem? old)
    · exact owned.x0 r (List.mem_of_getElem? at_)
  · intro e member
    obtain ⟨j, at_e⟩ := List.mem_iff_getElem?.mp member
    rcases inFlight_recover legal recover at_ at_e with ⟨-, old⟩ | rfl
    · exact owned.tags e (List.mem_of_getElem? old)
    · exact owned.tags r (List.mem_of_getElem? at_)
  · have same := same_ckpt (saves_recover legal recover r.checkpointId)
    have snapshot := snapshot_kept (owned.snapshots c k r at_ uses noRd) legal calm stays
      (Nat.le_of_lt inside) (saves_recover legal recover _)
    rw [same.saved, same.savedCommitted, same.map] at snapshot
    rw [window_recover legal recover at_ noRd, table_recover legal recover at_,
      free_recover owned legal recover at_]
    exact snapshot.skip
  · intro c j e at_e usesE noRdE
    rcases inFlight_recover legal recover at_ at_e with ⟨before, old⟩ | rfl
    · have snapshot := snapshot_kept (owned.snapshots c _ e old usesE noRdE) legal calm
        (Nat.le_add_left _ _) (by omega) (saves_recover legal recover _)
      rw [SnapshotSafe, window_take_recover legal recover at_ noRd before]
      exact snapshot
    · cases usesE

/-- In a cycle that does not flush the batch joins the window and the oldest leave it. -/
theorem window_calm (legal : s.Legal i) (calm : i.commit.flushOut.valid = false)
    (steady : i.recover = none) : (s.next i).window c =
      (s.window c ++ s.rename.batch (s.renameIn i) c).drop i.commit.commitCount := by
  rw [window, next]
  simp only [inFlightNext, calm, steady, Bool.false_eq_true, if_false]
  rw [List.map_append, List.map_drop, List.drop_append_of_le_length]
  · rfl
  · rw [window_length]
    exact commitCount_le legal

theorem commitCount_le_window (legal : s.Legal i) :
    i.commit.commitCount ≤ (s.window c).length := by
  rw [window_length]
  exact commitCount_le legal

theorem commitCount_le_append (legal : s.Legal i) (c : RegClass)
    (rest : List (Option (Write ArchReg PhysReg))) :
    i.commit.commitCount ≤ (s.window c ++ rest).length := by
  rw [List.length_append]
  exact (commitCount_le_window legal).trans (Nat.le_add_right _ _)

/-- What is renamed in this cycle does not commit in it. -/
theorem committed_append (legal : s.Legal i) (calm : i.commit.flushOut.valid = false)
    (rest : List (Option (Write ArchReg PhysReg))) : ((s.next i).rename.rat c).committed =
      commitMap (s.rename.rat c).committed (s.window c ++ rest) i.commit.commitCount := by
  refine (committedNext_calm legal calm).trans (commitMap_congr fun j less => ?_)
  exact (List.getElem?_append_left (Nat.lt_of_lt_of_le less (commitCount_le_window legal))).symm

/-- The state once the slots before `p` are renamed and the oldest instructions have left. -/
theorem safe_slots (owned : Owned s) (legal : s.Legal i)
    (calm : i.commit.flushOut.valid = false) (le : p ≤ s.rename.advanceCount (s.renameIn i)) :
    Safe c.Shared
      (s.rename.freeBefore (s.renameIn i) c p ∪
        {v | ∃ r < pipeWidth,
          FreeList.releases c.protectZero (s.rename.freeListIn (s.renameIn i) c) r = true ∧
            RenameStage.releasePreg (s.renameIn i) c r = v})
      (s.rename.mapBefore (s.renameIn i) c p) ((s.next i).rename.rat c).committed
      ((s.window c ++ (s.rename.batch (s.renameIn i) c).take p).drop i.commit.commitCount) := by
  have renamed := RenameStage.safe_batch (owned.safe c) le
  have short := commitCount_le_window (c := c) legal
  have enough := commitCount_le_append legal c ((s.rename.batch (s.renameIn i) c).take p)
  have same : ∀ j < i.commit.commitCount,
      (s.window c)[j]? = (s.window c ++ (s.rename.batch (s.renameIn i) c).take p)[j]? :=
    fun j less => (List.getElem?_append_left (Nat.lt_of_lt_of_le less short)).symm
  rw [committed_append legal calm]
  refine (renamed.commits enough).shrink ?_
  rintro v (free | ⟨r, -, release, tag⟩)
  · exact .inl free
  · obtain ⟨private_, j, less, w, at_, back⟩ := released_of_releases owned legal release tag
    refine .inr ⟨private_, j, less, w, ?_, ?_⟩
    · rw [WriteAt, ← same j less]
      exact at_
    · rw [commitMap_congr fun k before => same k (Nat.lt_trans before less)] at back
      exact back

/-- A renamed instruction with a checkpoint is the branch that the cycle saves it for. -/
theorem ckptBranch_of_uses (at_ : (s.rename.renInsn (s.renameIn i))[p]? = some r)
    (uses : r.usesCheckpoint = true) : s.rename.ckptBranch (s.renameIn i) = some p ∧
      r.checkpointId = s.rename.ckptSaveId (s.renameIn i) := by
  obtain ⟨-, -, same⟩ := RenameStage.renInsn_some at_
  rw [same] at uses
  have branch := uses
  simp only [RenameStage.renamed, Bool.and_eq_true, beq_iff_eq] at branch
  refine ⟨branch.2, ?_⟩
  rw [same]
  simp only [RenameStage.renamed] at uses ⊢
  rw [uses]
  rfl

section Calm

variable (owned : Owned s) (legal : s.Legal i) (calm : i.commit.flushOut.valid = false)
  (steady : i.recover = none)

include calm steady

theorem inFlight_calm : (s.next i).inFlight =
    s.inFlight.drop i.commit.commitCount ++ s.rename.renInsn (s.renameIn i) := by
  simp [next, inFlightNext, calm, steady]

theorem noRestore_calm : (s.renameIn i).doCkptRestore = false := by
  rw [doCkptRestore_eq calm, steady]
  rfl

include legal

/-- What stays in front of an instruction that was in flight before. -/
theorem window_take_older (le : k + i.commit.commitCount ≤ s.inFlight.length) :
    ((s.next i).window c).take k =
      ((s.window c).take (k + i.commit.commitCount)).drop i.commit.commitCount := by
  have short : k ≤ ((s.window c).drop i.commit.commitCount).length := by
    rw [List.length_drop, window_length]
    omega
  rw [window_calm legal calm steady, List.drop_append_of_le_length (commitCount_le_window legal),
    List.take_append_of_le_length short, List.drop_take, Nat.add_sub_cancel]

/-- What is in front of an instruction renamed in this cycle. -/
theorem window_take_younger (p : Nat) :
    ((s.next i).window c).take (s.inFlight.length - i.commit.commitCount + p) =
      (s.window c ++ (s.rename.batch (s.renameIn i) c).take p).drop i.commit.commitCount := by
  have short := commitCount_le_window (c := c) legal
  have length : ((s.window c).drop i.commit.commitCount).length =
      s.inFlight.length - i.commit.commitCount := by
    rw [List.length_drop, window_length]
  rw [window_calm legal calm steady, List.drop_append_of_le_length short,
    List.drop_append_of_le_length short, List.take_append, List.take_of_length_le (by omega),
    length, Nat.add_sub_cancel_left]

include owned

/-- The snapshot that a cycle takes is the state in front of the branch. -/
theorem snapshot_taken (branch : s.rename.ckptBranch (s.renameIn i) = some p) :
    Safe c.Shared
      (reclaimed c.Shared ((s.next i).saved c (s.rename.ckptSaveId (s.renameIn i)))
        ((s.next i).savedCommitted c (s.rename.ckptSaveId (s.renameIn i)))
        ((s.next i).rename.rat c).committed)
      (((s.next i).rename.rat c).ckpt (s.rename.ckptSaveId (s.renameIn i)))
      ((s.next i).rename.rat c).committed
      ((s.window c ++ (s.rename.batch (s.renameIn i) c).take p).drop i.commit.commitCount) := by
  have noFlush : (s.renameIn i).doFlush = false := doFlush_eq.trans calm
  have noRestore := noRestore_calm (s := s) calm steady
  obtain ⟨less, advance, -⟩ := RenameStage.ckptBranchBefore_some branch
  have le := Nat.le_of_lt (RenameStage.slotCanAdvance_iff.mp advance)
  have save : s.rename.ckptSaveValid (s.renameIn i) = true := by
    simp [RenameStage.ckptSaveValid, branch, noFlush, noRestore]
  have at_slot : s.rename.ckptBranchSlot (s.renameIn i) = p := by
    simp [RenameStage.ckptBranchSlot, branch]
  have map : ((s.next i).rename.rat c).ckpt (s.rename.ckptSaveId (s.renameIn i)) =
      s.rename.mapBefore (s.renameIn i) c p := by
    rw [← RenameStage.written_eq (Nat.le_of_lt less)]
    simp [next, RenameStage.next, Rat.next, RenameStage.ratIn, save, at_slot]
  rw [map]
  refine (safe_slots owned legal calm le).shrink ?_
  rintro v (was | ⟨absent, private_, unused⟩)
  · have was : ((s.rename.freeList c).ckptSaveBitmapNext c.protectZero
        (s.rename.freeListIn (s.renameIn i) c)).getLsbD v = true := by
      simpa [saved, next, RenameStage.next, FreeList.next, RenameStage.freeListIn, save] using was
    have count : (s.rename.freeListIn (s.renameIn i) c).ckptSaveAllocCount =
        s.rename.pregConsumedBefore (s.renameIn i) c p := by
      simp [RenameStage.freeListIn, at_slot]
    have bound : s.rename.pregConsumedBefore (s.renameIn i) c p ≤ pipeWidth :=
      (Hdl.rank_le p).trans (Nat.le_of_lt less)
    rw [← count] at bound
    rcases FreeList.free_of_ckptSave bound was with free | release
    · rw [count] at free
      exact .inl free
    · exact .inr release
  · -- What is free in the committed state now was free there when the snapshot was taken.
    refine absurd (fun bound => ?_) absent
    have now := (committedBitmap_iff (i := i) owned).mpr ⟨bound, private_, unused⟩
    simpa [next, RenameStage.next, FreeList.next, RenameStage.freeListIn, save] using now

theorem safe_calm : Safe c.Shared ((s.next i).freeSet c) ((s.next i).rename.rat c).table
    ((s.next i).rename.rat c).committed ((s.next i).window c) := by
  have noFlush : (s.renameIn i).doFlush = false := doFlush_eq.trans calm
  have noRestore := noRestore_calm (s := s) calm steady
  have main := safe_slots (c := c) owned legal calm (Nat.le_refl _)
  have all : (s.rename.batch (s.renameIn i) c).take (s.rename.advanceCount (s.renameIn i)) =
      s.rename.batch (s.renameIn i) c := by
    apply List.take_of_length_le
    rw [RenameStage.batch, List.length_map, RenameStage.length_renInsn]
  have table : ((s.next i).rename.rat c).table =
      s.rename.mapBefore (s.renameIn i) c (s.rename.advanceCount (s.renameIn i)) := by
    apply RenameStage.table_next
    rw [flushValid_eq calm, steady]
    rfl
  rw [all, ← window_calm legal calm steady, ← table] at main
  refine main.shrink fun v member => ?_
  have member : ((s.rename.freeList c).allocateAndRelease c.protectZero
      (s.rename.freeListIn (s.renameIn i) c) pipeWidth).getLsbD v = true := by
    simpa [freeSet, next, RenameStage.next, FreeList.next, RenameStage.freeListIn, noFlush,
      noRestore] using member
  rcases FreeList.free_of_cycle (Hdl.rank_le _) member with free | release
  · refine .inl ?_
    rw [RenameStage.freeBefore, ← RenameStage.pregConsumedBefore_all]
    exact free
  · exact .inr release

/-- The snapshot of a branch that was in flight before and stays. -/
theorem snapshot_older (at_ : s.inFlight[k + i.commit.commitCount]? = some r)
    (uses : r.usesCheckpoint = true) (noRd : r.base.rdValid = false) :
    (s.next i).SnapshotSafe c r.checkpointId k := by
  have inside := (List.getElem?_eq_some_iff.mp at_).1
  have window := window_take_older (c := c) legal calm steady (Nat.le_of_lt inside)
  rw [SnapshotSafe, window]
  cases overwritten : s.saves i r.checkpointId with
  | true =>
    -- A younger branch has taken the slot over; its snapshot is cut back to the older window.
    simp only [saves, RenameStage.ckptSaveValid, Bool.and_eq_true, beq_iff_eq] at overwritten
    obtain ⟨⟨⟨taken, -⟩, -⟩, same⟩ := overwritten
    obtain ⟨p, branch⟩ := Option.isSome_iff_exists.mp taken
    have cut := (snapshot_taken (c := c) owned legal calm steady branch).take k
    rw [← window_take_younger legal calm steady, List.take_take, Nat.min_eq_left (by omega),
      window] at cut
    rw [same]
    exact cut
  | false =>
    exact snapshot_kept (owned.snapshots c _ r at_ uses noRd) legal calm (Nat.le_add_left _ _)
      (Nat.le_of_lt inside) overwritten

/-- The snapshot of a branch renamed in this cycle. -/
theorem snapshot_younger (at_ : (s.rename.renInsn (s.renameIn i))[p]? = some r)
    (uses : r.usesCheckpoint = true) : (s.next i).SnapshotSafe c r.checkpointId
      (s.inFlight.length - i.commit.commitCount + p) := by
  obtain ⟨branch, id⟩ := ckptBranch_of_uses at_ uses
  rw [SnapshotSafe, window_take_younger legal calm steady, id]
  exact snapshot_taken (c := c) owned legal calm steady branch

theorem owned_calm : Owned (s.next i) := by
  have inFlight := inFlight_calm (s := s) calm steady
  refine ⟨Rat.zeroHeld_next owned.zeroHeld, fun c => committedMapNext_eq owned, ?_, ?_,
    committed_bound owned legal, fun c => safe_calm owned legal calm steady, ?_⟩
  · intro e member int x0
    rw [inFlight, List.mem_append] at member
    rcases member with old | new
    · exact owned.x0 e (List.mem_of_mem_drop old) int x0
    · obtain ⟨j, at_e⟩ := List.mem_iff_getElem?.mp new
      obtain ⟨inside, at_slot, same⟩ := RenameStage.renInsn_some at_e
      have le : j ≤ pipeWidth :=
        (Nat.le_of_lt inside).trans (RenameStage.advanceCount_le.trans RenameStage.length_work)
      have intClass : e.base.rdClass = .int := by simp [DecodedInsn.rdClass, int, RegClass.ofFp]
      rw [same, RenameStage.oldPdst_renamed at_slot, intClass, x0,
        RenameStage.mapBefore_zero owned.zeroHeld le]
      rfl
  · intro e member writes
    rw [inFlight, List.mem_append] at member
    rcases member with old | new
    · exact owned.tags e (List.mem_of_mem_drop old) writes
    · obtain ⟨j, at_e⟩ := List.mem_iff_getElem?.mp new
      obtain ⟨inside, at_slot, same⟩ := RenameStage.renInsn_some at_e
      have here : (e.base.writesRd && e.base.rdClass == e.base.rdClass) = true := by simp [writes]
      refine ⟨s.rename.ratWrPhys (s.renameIn i) e.base.rdClass j, ?_, ?_, ?_⟩
      · rcases RenameStage.grant_of_writes inside at_slot here with ⟨grant, -⟩ | ⟨-, zero, -⟩
        · exact BitVec.lt_of_getLsbD grant
        · rw [zero.2]
          cases e.base.rdClass <;> decide
      · rw [same]
        simp [RenameStage.renamed, writes]
      · intro notZero
        rcases RenameStage.grant_of_writes inside at_slot here with ⟨grant, -⟩ | ⟨zero, -⟩
        · exact (owned.safe _).notShared _ (FreeList.workBitmap_iff.mp grant).1
        · rw [notZero] at zero
          cases zero
  · intro c k e at_e uses noRd
    rw [inFlight, List.getElem?_append, List.length_drop] at at_e
    split at at_e
    · rw [List.getElem?_drop, Nat.add_comm] at at_e
      exact snapshot_older owned legal calm steady at_e uses noRd
    · rename_i younger
      have snapshot := snapshot_younger (c := c) owned legal calm steady at_e uses
      rwa [Nat.add_sub_cancel' (Nat.le_of_not_lt younger)] at snapshot

end Calm

/-- Every cycle keeps the invariant. -/
theorem owned_next (owned : Owned s) (legal : s.Legal i) : Owned (s.next i) := by
  cases flush : i.commit.flushOut.valid with
  | true => exact owned_flush owned legal flush
  | false =>
    cases recover : i.recover with
    | none => exact owned_calm owned legal flush recover
    | some k => exact owned_recover owned legal recover

theorem owned_of_reachable (reach : core.Reachable s) : Owned s :=
  reach.invariant Owned owned_reset fun _ _ _ owned legal _ => owned_next owned legal

-- ---------------------------------------------------------------------
-- Every reachable state
-- ---------------------------------------------------------------------

/-- The tags of the two classes do not meet. -/
theorem class_of_tag {c d : RegClass} {v w : Nat} (boundV : v < c.depth) (boundW : w < d.depth)
    (same : c.base + v = d.base + w) : c = d := by
  cases c with
  | int =>
    cases d with
    | int => rfl
    | fp =>
      have same : 0 + v = 160 + w := same
      have boundV : v < 160 := boundV
      omega
  | fp =>
    cases d with
    | fp => rfl
    | int =>
      have same : 160 + v = 0 + w := same
      have boundW : w < 160 := boundW
      omega

/-- Two instructions in flight with one destination are the same, unless it is `p0`. -/
theorem pdst_inj {j k : Nat} {q r : RenamedInsn} (owned : Owned s)
    (atQ : s.inFlight[j]? = some q) (atR : s.inFlight[k]? = some r) (writesQ : q.base.writesRd = true) (private_ : q.base.isZeroElim = false)
    (writesR : r.base.writesRd = true) (same : q.pdst = r.pdst) : j = k := by
  obtain ⟨v, boundQ, tagQ, notShared⟩ := owned.tags q (List.mem_of_getElem? atQ) writesQ
  obtain ⟨w, boundR, tagR, -⟩ := owned.tags r (List.mem_of_getElem? atR) writesR
  have class_eq : r.base.rdClass = q.base.rdClass :=
    class_of_tag boundR boundQ (tagR.symm.trans (same.symm.trans tagQ))
  have writeQ : q.write q.base.rdClass =
      some ⟨q.base.rdArch, q.pdst - q.base.rdClass.base, q.oldPdst - q.base.rdClass.base⟩ := by
    simp [RenamedInsn.write, writesQ]
  have writeR : r.write q.base.rdClass =
      some ⟨r.base.rdArch, r.pdst - q.base.rdClass.base, r.oldPdst - q.base.rdClass.base⟩ := by
    simp [RenamedInsn.write, writesR, class_eq]
  refine (owned.safe q.base.rdClass).distinct.dst j k _ _ (writeAt_window.mpr ⟨q, atQ, writeQ⟩)
    (writeAt_window.mpr ⟨r, atR, writeR⟩) ?_ ?_
  · simp only [tagQ, Nat.add_sub_cancel_left]
    exact notShared private_
  · simp only [same]

theorem pdst_uncommitted (owned : Owned s) (member : r ∈ s.inFlight)
    (writes : r.base.writesRd = true) (private_ : r.base.isZeroElim = false) (c : RegClass)
    (a : ArchReg) : c.base + (s.rename.rat c).committed a ≠ r.pdst := by
  obtain ⟨k, at_⟩ := List.mem_iff_getElem?.mp member
  obtain ⟨v, bound, tag, notShared⟩ := owned.tags r member writes
  have committed := owned.committed c a
  intro same
  have class_eq : c = r.base.rdClass := class_of_tag committed bound (same.trans tag)
  subst class_eq
  have write : r.write r.base.rdClass =
      some ⟨r.base.rdArch, r.pdst - r.base.rdClass.base, r.oldPdst - r.base.rdClass.base⟩ := by
    simp [RenamedInsn.write, writes]
  refine (owned.safe r.base.rdClass).distinct.committed k _ a
    (writeAt_window.mpr ⟨r, at_, write⟩) ?_ ?_
  · simp only [tag, Nat.add_sub_cancel_left]
    exact notShared private_
  · simp only [← same, Nat.add_sub_cancel_left]

/-- No physical register has two owners, but for the `p0` of eliminated zeros. -/
structure OneOwner (s : Core) : Prop where
  grants : ∀ c k v, (s.rename.freeList c).found k = some v →
    (∀ a, (s.rename.rat c).table a ≠ v) ∧ (∀ a, (s.rename.rat c).committed a ≠ v) ∧
      ∀ r ∈ s.inFlight, r.base.writesRd = true → r.pdst ≠ c.base + v
  inFlight : ∀ (j k : Nat) (q r : RenamedInsn), s.inFlight[j]? = some q → s.inFlight[k]? = some r →
    q.base.writesRd = true → q.base.isZeroElim = false → r.base.writesRd = true →
      q.pdst = r.pdst → j = k
  committed : ∀ r ∈ s.inFlight, r.base.writesRd = true → r.base.isZeroElim = false →
    ∀ c a, c.base + (s.rename.rat c).committed a ≠ r.pdst

theorem one_owner (reach : core.Reachable s) : OneOwner s := by
  have owned := owned_of_reachable reach
  refine ⟨?_, fun j k q r atQ atR writesQ private_ writesR same =>
    pdst_inj owned atQ atR writesQ private_ writesR same,
    fun r member writes private_ c a => pdst_uncommitted owned member writes private_ c a⟩
  intro c k v found
  obtain ⟨bound, free⟩ := FreeList.found_free found
  have safe := owned.safe c
  refine ⟨safe.notMapped v free, safe.notCommitted v free, fun r member writes same => ?_⟩
  obtain ⟨w, boundW, tag, -⟩ := owned.tags r member writes
  have class_eq : r.base.rdClass = c := class_of_tag boundW bound (tag.symm.trans same)
  obtain ⟨j, at_⟩ := List.mem_iff_getElem?.mp member
  have write : r.write c =
      some ⟨r.base.rdArch, r.pdst - c.base, r.oldPdst - c.base⟩ := by
    simp [RenamedInsn.write, writes, class_eq]
  refine safe.notDst v free j _ (writeAt_window.mpr ⟨r, at_, write⟩) ?_
  simp only [same, Nat.add_sub_cancel_left]

-- ADDI x1, x0, 5 and ADD x2, x1, x1 in flight.
def addsInFlight : Core :=
  core.next .reset (reset.plainCycle
    [Decode.decodeSlice 0x00500093 0 false, Decode.decodeSlice 0x00108133 4 false] 0 none)

theorem one_owner_addsInFlight : OneOwner addsInFlight :=
  one_owner (Machine.Reachable.cycle .reset (legal_plainCycle _ _ _))

-- ADDI x1, x0, 0 and ADDI x2, x0, 0 in flight.
def zerosInFlight : Core :=
  core.next .reset (reset.plainCycle
    [Decode.decodeSlice 0x00000093 0 false, Decode.decodeSlice 0x00000113 4 false] 0 none)

/-- Two eliminated zeros in flight are both in `p0`. -/
theorem zeros_share_p0 : ¬∀ s, core.Reachable s → ∀ (j k : Nat) (q r : RenamedInsn),
    s.inFlight[j]? = some q → s.inFlight[k]? = some r → q.base.writesRd = true →
      r.base.writesRd = true → q.pdst = r.pdst → j = k := by
  intro claim
  have reach : core.Reachable zerosInFlight :=
    Machine.Reachable.cycle .reset (legal_plainCycle _ _ _)
  have tags : zerosInFlight.inFlight.map (fun r => (r.pdst, r.base.writesRd)) =
      [(0, true), (0, true)] := by
    decide +kernel
  have entry : ∀ k, k < 2 → ∃ r, zerosInFlight.inFlight[k]? = some r ∧ r.pdst = 0 ∧
      r.base.writesRd = true := by
    intro k less
    have length := congrArg List.length tags
    rw [List.length_map] at length
    have inside : k < zerosInFlight.inFlight.length := by
      rw [length]
      exact less
    refine ⟨_, List.getElem?_eq_getElem inside, ?_⟩
    have here := congrArg (·[k]?) tags
    simp only [List.getElem?_map, List.getElem?_eq_getElem inside, Option.map_some] at here
    rcases k with - | - | k
    · simpa using here
    · simpa using here
    · omega
  obtain ⟨q, atQ, tagQ, writesQ⟩ := entry 0 (by decide)
  obtain ⟨r, atR, tagR, writesR⟩ := entry 1 (by decide)
  cases claim _ reach 0 1 q r atQ atR writesQ writesR (tagQ.trans tagR.symm)

end Core

end Rv64gc.Rename
