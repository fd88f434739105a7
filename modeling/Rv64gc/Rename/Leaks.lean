import Rv64gc.Hdl.Reclaim
import Rv64gc.Rename.Owners

/-!
# No physical register is lost

A register that is neither free nor committed nor the destination of an instruction in flight can
never be granted again. Without recoveries that does not happen: the register that a commit
replaces in the committed map is the one its instruction releases.

A recovery puts the saved bitmap back and adds what is free in the committed state now but was not
then. A register that was in flight at the save is in neither of the two when it has been
committed and replaced since, and that one is lost. `History` keeps what commits have replaced
since each save, `Restores` rules such a register out.
-/

namespace Rv64gc.Rename

open Hdl Backend

-- ---------------------------------------------------------------------
-- The history of the checkpoints
-- ---------------------------------------------------------------------

/-- What has become of each checkpoint. Instructions are numbered in the order of rename; the
number of a squashed one is used again. -/
structure History where
  /-- The number of the oldest instruction in flight. -/
  first : Nat
  /-- The branch that saved it last. -/
  savedBy : CkptId → Nat
  /-- The registers that commits have replaced since, those of the saving cycle included. -/
  replaced : RegClass → CkptId → Set PhysReg

/-- The registers that the commits of this cycle take out of the committed map. -/
def Core.replacedNow (s : Core) (i : CoreIn) (c : RegClass) : Set PhysReg :=
  superseded (s.rename.rat c).committed (s.leaving i c) i.commit.commitCount

namespace History

def reset : History := ⟨0, fun _ => 0, fun _ _ => ∅⟩

def next (h : History) (s : Core) (i : CoreIn) : History where
  first := h.first + i.commit.commitCount
  savedBy cp :=
    if s.saves i cp then
      h.first + s.inFlight.length + s.rename.ckptBranchSlot (s.renameIn i)
    else h.savedBy cp
  replaced c cp := (if s.saves i cp then ∅ else h.replaced c cp) ∪ s.replacedNow i c

end History

/-- The core next to the history of its checkpoints. -/
def coreRuns : Machine (Core × History) CoreIn where
  reset := (.reset, .reset)
  next := fun (s, h) i => (s.next i, h.next s i)
  legal := fun (s, _) i => s.Legal i

/-- No register that the snapshot has in use but not committed has been replaced by a commit since
the save. -/
def Intact (c : RegClass) (s : Core) (h : History) (i : CoreIn) (cp : CkptId) : Prop :=
  ∀ v ∈ (h.next s i).replaced c cp, ¬c.Shared v → v ∈ s.saved c cp ∨ v ∉ s.savedCommitted c cp

/-- A recovery restores the snapshot of its own branch, and that snapshot is intact. -/
def Restores (c : RegClass) (st : Core × History) (i : CoreIn) : Prop :=
  ∀ (k : Nat) (r : RenamedInsn), i.recover = some k → st.1.inFlight[k]? = some r →
    st.2.savedBy r.checkpointId = st.2.first + k ∧ Intact c st.1 st.2 i r.checkpointId

-- ---------------------------------------------------------------------
-- One cycle of rename
-- ---------------------------------------------------------------------

namespace RenameStage

variable {s : RenameStage} {x : RenameIn} {c : RegClass}

/-- Every slot replaces what the map holds in front of it. -/
theorem chained_batch {cmap : ArchReg → PhysReg} {win : List (Option (Write ArchReg PhysReg))}
    (chain : Chained cmap win (s.rat c).table) (le : k ≤ s.advanceCount x) :
    Chained cmap (win ++ (s.batch x c).take k) (s.mapBefore x c k) := by
  induction k with
  | zero =>
    rw [List.take_zero, List.append_nil]
    exact chain
  | succ k ih =>
    have inside : k < s.advanceCount x := le
    have less := slotCanAdvance_lt (slotCanAdvance_iff.mpr inside)
    obtain ⟨d, at_slot⟩ : ∃ d, (s.work x)[k]? = some d := ⟨_, List.getElem?_eq_getElem less⟩
    have before := ih (Nat.le_of_lt inside)
    rw [take_batch_succ inside at_slot, ← List.append_assoc, write_renamed at_slot,
      mapBefore_succ inside at_slot]
    cases d.writesRd && d.rdClass == c with
    | false => exact before.skip
    | true => exact before.alloc _ _

/-- A free register that the slots before `k` do not leave free is the destination of one. -/
theorem dst_of_taken (le : k ≤ s.advanceCount x) (free : (s.freeList c).freeBitmap.getLsbD v = true)
    (taken : v ∉ s.freeBefore x c k) : ∃ i w, WriteAt ((s.batch x c).take k) i w ∧ w.dst = v := by
  have handed : ∃ j < s.pregConsumedBefore x c k, (s.freeList c).found j = some v := by
    by_contra none
    refine taken (FreeList.workBitmap_iff.mpr ⟨free, fun j less found => none ⟨j, less, found⟩⟩)
  obtain ⟨j, less, found⟩ := handed
  obtain ⟨p, before, d, at_slot, needs, class_eq, count⟩ := slot_of_consumed less
  have inside : p < s.advanceCount x := Nat.lt_of_lt_of_le before le
  simp only [DecodedInsn.needsPreg, Bool.and_eq_true, Bool.not_eq_true'] at needs
  obtain ⟨writes, notZero⟩ := needs
  have both : (d.writesRd && d.rdClass == c) = true := by simp [writes, class_eq]
  refine ⟨p, ⟨d.rdArch, s.ratWrPhys x c p, s.mapBefore x c p d.rdArch⟩, ?_, ?_⟩
  · rw [writeAt_take]
    refine ⟨before, ?_⟩
    rw [WriteAt, batch, List.getElem?_map, getElem?_renInsn, if_pos inside, at_slot]
    simp only [Option.map_some, write_renamed at_slot, both, if_true]
  · subst class_eq
    simp [ratWrPhys_eq inside at_slot writes, notZero, count, FreeList.allocPreg, FreeList.foundIdx,
      found]

end RenameStage

namespace Core

variable {s : Core} {h : History} {i : CoreIn} {c : RegClass}

-- ---------------------------------------------------------------------
-- The invariant
-- ---------------------------------------------------------------------

/-- The snapshot in slot `cp` fits the part `win` of the window in front of its branch. -/
structure Tracks (s : Core) (h : History) (c : RegClass) (cp : CkptId)
    (win : List (Option (Write ArchReg PhysReg))) : Prop where
  chained : Chained (s.rename.rat c).committed win ((s.rename.rat c).ckpt cp)
  kept : ∀ v < c.depth, v ∈ s.savedCommitted c cp → v ∈ s.saved c cp ∨
    InUse (s.rename.rat c).committed win v ∨ v ∈ h.replaced c cp
  gone : ∀ v ∈ h.replaced c cp, ¬c.Shared v → ¬InUse (s.rename.rat c).committed win v

structure Tracked (c : RegClass) (s : Core) (h : History) : Prop where
  idle : ∀ r ∈ s.inFlight, r.base.writesRd = false → r.pdst = 0
  used : ∀ v < c.depth, v ∈ s.freeSet c ∨ InUse (s.rename.rat c).committed (s.window c) v
  chained : Chained (s.rename.rat c).committed (s.window c) (s.rename.rat c).table
  snapshots : ∀ (k : Nat) (r : RenamedInsn), s.inFlight[k]? = some r → r.usesCheckpoint = true →
    h.savedBy r.checkpointId = h.first + k → s.Tracks h c r.checkpointId ((s.window c).take k)

theorem tracked_reset (c : RegClass) : Tracked c .reset .reset where
  idle r member := by cases member
  used v bound := by
    by_cases arch : v < archRegs
    · refine .inr (.inl ⟨BitVec.ofNat 5 v, ?_⟩)
      have same : (BitVec.ofNat 5 v).toNat = v := by
        rw [BitVec.toNat_ofNat, Nat.mod_eq_of_lt arch]
      exact same
    · exact .inl (initBitmap_iff.mpr ⟨bound, Nat.le_of_not_lt arch⟩)
  chained := .nil _
  snapshots k r at_ := by cases at_

-- ---------------------------------------------------------------------
-- What commits replace
-- ---------------------------------------------------------------------

theorem inUse_of_shared (owned : Owned s) (sh : c.Shared v) :
    ∃ a, (s.rename.rat c).committed a = v := by
  obtain ⟨zero, rfl⟩ := sh
  cases c with
  | int => exact ⟨0, owned.zeroHeld.committed⟩
  | fp => cases zero

theorem replacedNow_calm (legal : s.Legal i) (calm : i.commit.flushOut.valid = false) :
    s.replacedNow i c =
      superseded (s.rename.rat c).committed (s.window c) i.commit.commitCount :=
  superseded_congr fun _ less => leaving_calm legal calm less

theorem replacedNow_of_none (none : i.commit.commitCount = 0) : s.replacedNow i c = ∅ := by
  ext v
  simp [replacedNow, superseded, none]

theorem replacedNow_take (legal : s.Legal i) (calm : i.commit.flushOut.valid = false)
    (stays : i.commit.commitCount ≤ k) : s.replacedNow i c =
      superseded (s.rename.rat c).committed ((s.window c).take k) i.commit.commitCount := by
  rw [replacedNow_calm legal calm]
  refine superseded_congr fun j less => ?_
  rw [List.getElem?_take, if_pos (Nat.lt_of_lt_of_le less stays)]

theorem replacedNow_append (legal : s.Legal i) (calm : i.commit.flushOut.valid = false)
    (rest : List (Option (Write ArchReg PhysReg))) : s.replacedNow i c =
      superseded (s.rename.rat c).committed (s.window c ++ rest) i.commit.commitCount := by
  rw [replacedNow_calm legal calm]
  refine superseded_congr fun j less => ?_
  exact (List.getElem?_append_left (Nat.lt_of_lt_of_le less (commitCount_le_window legal))).symm

/-- The release port of an instruction that leaves. -/
theorem releases_of_leaving (legal : s.Legal i) (calm : i.commit.flushOut.valid = false)
    (less : j < i.commit.commitCount) (at_ : WriteAt (s.window c) j w) (private_ : ¬c.Shared w.old) :
    ∃ r < pipeWidth,
      FreeList.releases c.protectZero (s.rename.freeListIn (s.renameIn i) c) r = true ∧
        RenameStage.releasePreg (s.renameIn i) c r = w.old := by
  obtain ⟨r, at_r, write⟩ := writeAt_window.mp at_
  obtain ⟨r', at_r', agrees⟩ := leaves legal less
  obtain rfl := Option.some.inj (at_r.symm.trans at_r')
  have commits := (commitsAt_iff legal less at_r).mpr ⟨clean_of_calm calm less, w, write⟩
  have port : RenameStage.cratWrEn (s.renameIn i) c j = true := by
    rw [commitsAt, Bool.and_eq_true] at commits
    exact commits.1
  have inside : j < pipeWidth := Nat.lt_of_lt_of_le less i.commit.commitCount_le
  have place : (packed (RenameStage.cratWrEn (s.renameIn i) c) pipeWidth)[
      rank (RenameStage.cratWrEn (s.renameIn i) c) j]? = some j :=
    getElem?_packed_iff.mpr ⟨inside, port, rfl⟩
  have tag : RenameStage.releasePreg (s.renameIn i) c
      (rank (RenameStage.cratWrEn (s.renameIn i) c) j) = w.old := by
    obtain ⟨-, rfl⟩ := write_some_iff.mp write
    simp only [RenameStage.releasePreg, place]
    rw [← agrees.oldPdst]
    rfl
  refine ⟨_, Nat.lt_of_lt_of_le (rank_lt port inside) (Hdl.rank_le _),
    FreeList.releases_iff.mpr ⟨rank_lt port inside, ?_⟩, tag⟩
  have same : (s.rename.freeListIn (s.renameIn i) c).releasePreg
      (rank (RenameStage.cratWrEn (s.renameIn i) c) j) = w.old := tag
  rw [same]
  exact private_

-- ---------------------------------------------------------------------
-- A snapshot
-- ---------------------------------------------------------------------

/-- A snapshot that is not overwritten still fits the window, shorter by what has left. -/
theorem Tracks.kept_snapshot {cp : CkptId} (tracks : s.Tracks h c cp ((s.window c).take k))
    (owned : Owned s) (legal : s.Legal i) (calm : i.commit.flushOut.valid = false)
    (stays : i.commit.commitCount ≤ k) (le : k ≤ s.inFlight.length) (other : s.saves i cp = false) :
    (s.next i).Tracks (h.next s i) c cp (((s.window c).take k).drop i.commit.commitCount) := by
  have same := same_ckpt other
  have short : i.commit.commitCount ≤ ((s.window c).take k).length := by
    rw [length_take_window le]
    exact stays
  have now := replacedNow_take (c := c) legal calm stays
  have replaced : (h.next s i).replaced c cp = h.replaced c cp ∪ s.replacedNow i c := by
    simp only [History.next, other, Bool.false_eq_true, if_false]
  constructor
  · rw [same.map, committed_take legal calm stays]
    exact tracks.chained.commits short
  · intro v bound committed
    rw [same.savedCommitted] at committed
    rw [same.saved, committed_take legal calm stays, replaced]
    rcases tracks.kept v bound committed with free | used | gone
    · exact .inl free
    · rcases used.commits i.commit.commitCount with used | gone
      · exact .inr (.inl used)
      · exact .inr (.inr (.inr (now ▸ gone)))
    · exact .inr (.inr (.inl gone))
  · intro v gone private_
    rw [committed_take legal calm stays]
    rw [replaced] at gone
    rcases gone with gone | gone
    · exact fun used => tracks.gone v gone private_ (inUse_of_commits used)
    · rw [now] at gone
      exact ((owned.safe c).distinct.take k).unused_of_superseded short private_ gone

-- ---------------------------------------------------------------------
-- A cycle without a recovery
-- ---------------------------------------------------------------------

/-- No commit port writes a free register. -/
theorem commitPdst_used (tracked : Tracked c s h) (owned : Owned s) (legal : s.Legal i)
    (free : v ∈ s.freeSet c) (port : RenameStage.cratWrEn (s.renameIn i) c k = true)
    (private_ : ¬c.Shared (RenameStage.commitPdstLocal (s.renameIn i) c k)) :
    RenameStage.commitPdstLocal (s.renameIn i) c k ≠ v := by
  simp only [RenameStage.cratWrEn, Bool.and_eq_true, decide_eq_true_eq, beq_iff_eq] at port
  obtain ⟨⟨valid, less⟩, class_eq⟩ := port
  obtain ⟨r, at_, agrees⟩ := leaves legal less
  have class_head : r.base.rdClass = c := by
    rw [DecodedInsn.rdClass, ← agrees.rdIsFp]
    exact class_eq
  have tag : RenameStage.commitPdstLocal (s.renameIn i) c k = r.pdst - c.base := by
    rw [RenameStage.commitPdstLocal, if_pos class_eq, ← agrees.pdst]
    rfl
  rw [tag] at private_ ⊢
  cases writes : r.base.writesRd with
  | true =>
    have write : r.write c = some ⟨r.base.rdArch, r.pdst - c.base, r.oldPdst - c.base⟩ := by
      simp [RenamedInsn.write, writes, class_head]
    exact (owned.safe c).notDst v free k _ (writeAt_window.mpr ⟨r, at_, write⟩)
  | false =>
    -- Only an integer instruction can name a register and not write it: `x0`.
    have none := tracked.idle r (List.mem_of_getElem? at_) writes
    refine absurd ?_ private_
    rw [none, Nat.zero_sub]
    refine ⟨?_, rfl⟩
    cases c with
    | int => rfl
    | fp =>
      have isFp : r.base.rdIsFp = true := by
        cases fp : r.base.rdIsFp with
        | true => rfl
        | false => simp [DecodedInsn.rdClass, RegClass.ofFp, fp] at class_head
      have named : r.base.rdValid = true := by
        rw [← agrees.rdValid]
        have valid : ((s.renameIn i).commit.rdValid k) = true := valid
        simp only [renameIn, commitWires, CommitIn.commitOut, Bool.and_eq_true] at valid
        exact valid.1.2
      simp [DecodedInsn.writesRd, isFp, named] at writes

/-- Before the instructions in front of slot `p` commit, every register is free or in use. -/
theorem used_slots (tracked : Tracked c s h) (le : p ≤ s.rename.advanceCount (s.renameIn i)) (bound : v < c.depth) :
    (v ∈ s.freeSet c ∧ v ∈ s.rename.freeBefore (s.renameIn i) c p) ∨
      InUse (s.rename.rat c).committed
        (s.window c ++ (s.rename.batch (s.renameIn i) c).take p) v := by
  rcases tracked.used v bound with free | used
  · by_cases taken : v ∈ s.rename.freeBefore (s.renameIn i) c p
    · exact .inl ⟨free, taken⟩
    · exact .inr (inUse_append.mpr (.inr (RenameStage.dst_of_taken le free taken)))
  · exact .inr (inUse_append.mpr (.inl used))

section Calm

variable (tracked : Tracked c s h) (owned : Owned s) (legal : s.Legal i)
  (calm : i.commit.flushOut.valid = false) (steady : i.recover = none)

include calm steady

theorem freeSet_calm : (s.next i).freeSet c =
    {v | ((s.rename.freeList c).allocateAndRelease c.protectZero
      (s.rename.freeListIn (s.renameIn i) c) pipeWidth).getLsbD v = true} := by
  have noFlush : (s.renameIn i).doFlush = false := doFlush_eq.trans calm
  have noRestore := noRestore_calm (s := s) calm steady
  simp [freeSet, next, RenameStage.next, FreeList.next, RenameStage.freeListIn, noFlush, noRestore]

include tracked owned legal

/-- What a commit replaces is free afterwards. -/
theorem free_of_replaced (bound : v < c.depth) (private_ : ¬c.Shared v)
    (gone : v ∈ s.replacedNow i c) : v ∈ (s.next i).freeSet c := by
  rw [replacedNow_calm legal calm] at gone
  obtain ⟨j, less, w, at_, rfl⟩ := tracked.chained.old_of_superseded gone
  obtain ⟨r, inside, release, tag⟩ := releases_of_leaving legal calm less at_ private_
  rw [freeSet_calm calm steady]
  exact FreeList.allocateAndRelease_of_released
    (fun free => (owned.safe c).notOld w.old free j w at_ rfl) bound release tag inside

/-- The snapshot of a branch renamed in this cycle. -/
theorem tracks_younger (branch : s.rename.ckptBranch (s.renameIn i) = some p) :
    (s.next i).Tracks (h.next s i) c (s.rename.ckptSaveId (s.renameIn i))
      ((s.window c ++ (s.rename.batch (s.renameIn i) c).take p).drop i.commit.commitCount) := by
  have noFlush : (s.renameIn i).doFlush = false := doFlush_eq.trans calm
  have noRestore := noRestore_calm (s := s) calm steady
  obtain ⟨less, advance, -⟩ := RenameStage.ckptBranchBefore_some branch
  have le := Nat.le_of_lt (RenameStage.slotCanAdvance_iff.mp advance)
  have save : s.rename.ckptSaveValid (s.renameIn i) = true := by
    simp [RenameStage.ckptSaveValid, branch, noFlush, noRestore]
  have saves : s.saves i (s.rename.ckptSaveId (s.renameIn i)) = true := by
    rw [Core.saves, save, beq_self_eq_true]
    rfl
  have at_slot : s.rename.ckptBranchSlot (s.renameIn i) = p := by
    simp [RenameStage.ckptBranchSlot, branch]
  have short := commitCount_le_append legal c ((s.rename.batch (s.renameIn i) c).take p)
  have replaced : (h.next s i).replaced c (s.rename.ckptSaveId (s.renameIn i)) =
      s.replacedNow i c := by
    simp only [History.next, saves, if_true, Set.empty_union]
  have now := replacedNow_append (c := c) legal calm ((s.rename.batch (s.renameIn i) c).take p)
  constructor
  · have map : ((s.next i).rename.rat c).ckpt (s.rename.ckptSaveId (s.renameIn i)) =
        s.rename.mapBefore (s.renameIn i) c p := by
      rw [← RenameStage.written_eq (Nat.le_of_lt less)]
      simp [next, RenameStage.next, Rat.next, RenameStage.ratIn, save, at_slot]
    rw [map, committed_append legal calm]
    exact (RenameStage.chained_batch tracked.chained le).commits short
  · intro v bound _
    rw [replaced, committed_append legal calm]
    rcases used_slots tracked le bound with ⟨free, left⟩ | used
    · refine .inl ?_
      have kept : ((s.rename.freeList c).ckptSaveBitmapNext c.protectZero
          (s.rename.freeListIn (s.renameIn i) c)).getLsbD v = true := by
        apply FreeList.ckptSave_of_kept
        · have count : (s.rename.freeListIn (s.renameIn i) c).ckptSaveAllocCount =
              s.rename.pregConsumedBefore (s.renameIn i) c p := by
            simp [RenameStage.freeListIn, at_slot]
          rw [count]
          exact left
        · exact fun k _ port private_ => commitPdst_used tracked owned legal free port private_
      simpa [saved, next, RenameStage.next, FreeList.next, RenameStage.freeListIn, save] using kept
    · rcases used.commits i.commit.commitCount with used | gone
      · exact .inr (.inl used)
      · exact .inr (.inr (now ▸ gone))
  · intro v gone private_
    rw [replaced, now] at gone
    rw [committed_append legal calm]
    exact (RenameStage.safe_batch (owned.safe c) le).distinct.unused_of_superseded short private_ gone

theorem tracked_calm : Tracked c (s.next i) (h.next s i) := by
  have inFlight := inFlight_calm (s := s) calm steady
  have all : (s.rename.batch (s.renameIn i) c).take (s.rename.advanceCount (s.renameIn i)) =
      s.rename.batch (s.renameIn i) c := by
    apply List.take_of_length_le
    rw [RenameStage.batch, List.length_map, RenameStage.length_renInsn]
  constructor
  · intro e member idle
    rw [inFlight, List.mem_append] at member
    rcases member with old | new
    · exact tracked.idle e (List.mem_of_mem_drop old) idle
    · obtain ⟨j, at_e⟩ := List.mem_iff_getElem?.mp new
      obtain ⟨-, -, same⟩ := RenameStage.renInsn_some at_e
      rw [same]
      simp [RenameStage.renamed, idle]
  · intro v bound
    have prior := used_slots tracked (Nat.le_refl (s.rename.advanceCount (s.renameIn i))) bound
    rw [all] at prior
    rcases prior with ⟨free, left⟩ | used
    · refine .inl ?_
      obtain ⟨-, kept⟩ := FreeList.workBitmap_iff.mp left
      rw [freeSet_calm calm steady]
      refine FreeList.allocateAndRelease_of_kept free fun k _ consumed => kept k ?_
      rw [← RenameStage.pregConsumedBefore_all]
      exact consumed
    · rcases used.commits i.commit.commitCount with still | gone
      · refine .inr ?_
        rw [window_calm legal calm steady, committed_append legal calm]
        exact still
      · by_cases sh : c.Shared v
        · exact .inr (.inl (inUse_of_shared (owned_next owned legal) sh))
        · refine .inl (free_of_replaced tracked owned legal calm steady bound sh ?_)
          rw [replacedNow_append legal calm]
          exact gone
  · have table : ((s.next i).rename.rat c).table =
        s.rename.mapBefore (s.renameIn i) c (s.rename.advanceCount (s.renameIn i)) := by
      apply RenameStage.table_next
      rw [flushValid_eq calm, steady]
      rfl
    have chain := RenameStage.chained_batch tracked.chained
      (Nat.le_refl (s.rename.advanceCount (s.renameIn i)))
    rw [all] at chain
    rw [window_calm legal calm steady, table,
      committed_append legal calm (s.rename.batch (s.renameIn i) c)]
    exact chain.commits (commitCount_le_append legal c _)
  · intro k e at_e uses own
    rw [inFlight, List.getElem?_append, List.length_drop] at at_e
    split at at_e
    · rename_i older
      rw [List.getElem?_drop, Nat.add_comm] at at_e
      have le := Nat.le_of_lt (List.getElem?_eq_some_iff.mp at_e).1
      rw [window_take_older legal calm steady le]
      cases overwritten : s.saves i e.checkpointId with
      | true =>
        -- The slot now belongs to a younger branch.
        simp only [History.next, overwritten, if_true] at own
        omega
      | false =>
        simp only [History.next, overwritten, Bool.false_eq_true, if_false] at own
        refine (tracked.snapshots _ e at_e uses ?_).kept_snapshot owned legal calm
          (Nat.le_add_left _ _) le overwritten
        omega
    · rename_i younger
      obtain ⟨branch, id⟩ := ckptBranch_of_uses at_e uses
      have tracks := tracks_younger (p := k - (s.inFlight.length - i.commit.commitCount)) tracked
        owned legal calm steady branch
      rw [← window_take_younger legal calm steady, ← id] at tracks
      rwa [Nat.add_sub_cancel' (Nat.le_of_not_lt younger)] at tracks

end Calm

-- ---------------------------------------------------------------------
-- Flushes
-- ---------------------------------------------------------------------

theorem tracked_flush (owned : Owned s) (flush : i.commit.flushOut.valid = true) :
    Tracked c (s.next i) (h.next s i) := by
  have empty : (s.next i).inFlight = [] := by simp [next, inFlightNext, flush]
  have table : ((s.next i).rename.rat c).table = ((s.next i).rename.rat c).committed := by
    simp [next, RenameStage.next, Rat.next, RenameStage.ratIn, doFlush_eq, flush]
  have free : ((s.next i).rename.freeList c).freeBitmap =
      (s.rename.freeList c).committedBitmapNext c.protectZero
        (s.rename.freeListIn (s.renameIn i) c) := by
    simp [next, RenameStage.next, FreeList.next, RenameStage.freeListIn, doFlush_eq, flush]
  constructor
  · rw [empty]
    exact fun r member => by cases member
  · intro v bound
    by_cases used : ∃ a, ((s.next i).rename.rat c).committed a = v
    · exact .inr (.inl used)
    · refine .inl ?_
      have private_ : ¬c.Shared v := by
        rintro ⟨zero, rfl⟩
        cases c with
        | int => exact used ⟨0, (Rat.zeroHeld_next owned.zeroHeld).committed⟩
        | fp => cases zero
      have now := (committedBitmap_iff (i := i) owned).mpr ⟨bound, private_, not_exists.mp used⟩
      rw [← free] at now
      exact now
  · rw [window, empty, table]
    exact .nil _
  · rw [empty]
    exact fun k r at_ => by cases at_

section Recover

variable {k : Nat} {r : RenamedInsn} (tracked : Tracked c s h) (owned : Owned s)
  (legal : s.Legal i) (recover : i.recover = some k) (at_ : s.inFlight[k]? = some r)
  (uses : r.usesCheckpoint = true) (own : h.savedBy r.checkpointId = h.first + k)
  (noRd : r.base.rdValid = false)

include tracked owned legal recover at_ uses own

/-- The snapshot that a recovery restores. -/
theorem tracks_restored : (s.next i).Tracks (h.next s i) c r.checkpointId
    (((s.window c).take k).drop i.commit.commitCount) :=
  (tracked.snapshots k r at_ uses own).kept_snapshot owned legal (legal.recovers k recover).1
    (commitCount_le_recover legal recover) (Nat.le_of_lt (List.getElem?_eq_some_iff.mp at_).1)
    (saves_recover legal recover _)

include noRd

theorem tracked_recover (intact : Intact c s h i r.checkpointId) :
    Tracked c (s.next i) (h.next s i) := by
  have calm := (legal.recovers k recover).1
  have same := same_ckpt (saves_recover legal recover r.checkpointId)
  have tracks := tracks_restored tracked owned legal recover at_ uses own
  constructor
  · intro e member idle
    obtain ⟨j, at_e⟩ := List.mem_iff_getElem?.mp member
    rcases inFlight_recover legal recover at_ at_e with ⟨-, old⟩ | rfl
    · exact tracked.idle e (List.mem_of_getElem? old) idle
    · exact tracked.idle r (List.mem_of_getElem? at_) idle
  · intro v bound
    rw [free_recover owned legal recover at_, window_recover legal recover at_ noRd]
    by_cases used : InUse ((s.next i).rename.rat c).committed
        (((s.window c).take k).drop i.commit.commitCount) v
    · exact .inr (inUse_append.mpr (.inl used))
    have unused := (not_or.mp used).1
    have private_ : ¬c.Shared v := fun sh => unused (inUse_of_shared (owned_next owned legal) sh)
    refine .inl ?_
    by_cases committed : v ∈ s.savedCommitted c r.checkpointId
    · rw [← same.savedCommitted] at committed
      rcases tracks.kept v bound committed with free | again | gone
      · rw [same.saved] at free
        exact .inl free
      · exact absurd again used
      · rcases intact v gone private_ with free | absent
        · exact .inl free
        · exact .inr ⟨absent, private_, not_exists.mp unused⟩
    · exact .inr ⟨committed, private_, not_exists.mp unused⟩
  · rw [window_recover legal recover at_ noRd, table_recover legal recover at_, ← same.map]
    exact tracks.chained.skip
  · intro j e at_e usesE ownE
    rcases inFlight_recover legal recover at_ at_e with ⟨before, old⟩ | rfl
    · have other := saves_recover legal recover e.checkpointId
      simp only [History.next, other, Bool.false_eq_true, if_false] at ownE
      rw [window_take_recover legal recover at_ noRd before]
      refine (tracked.snapshots _ e old usesE ?_).kept_snapshot owned legal calm
        (Nat.le_add_left _ _) (Nat.le_of_lt (List.getElem?_eq_some_iff.mp old).1) other
      omega
    · cases usesE

end Recover

/-- Every cycle that restores an intact snapshot, or none, keeps the invariant. -/
theorem tracked_next (tracked : Tracked c s h) (owned : Owned s) (legal : s.Legal i)
    (restores : Restores c (s, h) i) : Tracked c (s.next i) (h.next s i) := by
  cases flush : i.commit.flushOut.valid with
  | true => exact tracked_flush owned flush
  | false =>
    cases recover : i.recover with
    | none => exact tracked_calm tracked owned legal flush recover
    | some k =>
      obtain ⟨-, -, -, r, at_, uses, noRd⟩ := legal.recovers k recover
      obtain ⟨own, intact⟩ := restores k r recover at_
      exact tracked_recover tracked owned legal recover at_ uses own noRd intact

-- ---------------------------------------------------------------------
-- Every run
-- ---------------------------------------------------------------------

/-- Every register is free, committed, or the destination of an instruction in flight. -/
def NoLeak (c : RegClass) (s : Core) : Prop :=
  ∀ v < c.depth, v ∈ s.freeSet c ∨ (∃ a, (s.rename.rat c).committed a = v) ∨
    ∃ r ∈ s.inFlight, r.base.writesRd = true ∧ r.pdst = c.base + v

/-- What a recovery of the branch in place `k` makes free: the registers of the squashed
instructions, and those that commits have replaced since the branch saved its checkpoint. -/
structure Reclaims (c : RegClass) (s : Core) (h : History) (i : CoreIn) (k : Nat) : Prop where
  squashed : ∀ j, k < j → ∀ r, s.inFlight[j]? = some r → r.base.writesRd = true →
    r.base.rdClass = c → r.base.isZeroElim = false →
      ∃ v ∈ (s.next i).freeSet c, r.pdst = c.base + v
  replaced : ∀ r, s.inFlight[k]? = some r → ∀ v ∈ (h.next s i).replaced c r.checkpointId,
    ¬c.Shared v → v ∈ (s.next i).freeSet c

/-- What a write of the window has as its destination. -/
theorem dst_of_writeAt (owned : Owned s) (at_ : WriteAt (s.window c) k w) :
    w.dst < c.depth ∧ ∃ r, s.inFlight[k]? = some r ∧ r.base.writesRd = true ∧
      r.pdst = c.base + w.dst := by
  obtain ⟨r, at_r, write⟩ := writeAt_window.mp at_
  obtain ⟨wr, rfl⟩ := write_some_iff.mp write
  obtain ⟨writes, same⟩ := (Bool.and_eq_true _ _).mp (writesRd_iff.mpr wr)
  obtain rfl := beq_iff_eq.mp same
  obtain ⟨v, bound, tag, -⟩ := owned.tags r (List.mem_of_getElem? at_r) writes
  simp only [tag, Nat.add_sub_cancel_left]
  exact ⟨bound, r, at_r, writes, tag⟩

theorem noLeak_of_tracked (tracked : Tracked c s h) (owned : Owned s) : NoLeak c s := by
  intro v bound
  rcases tracked.used v bound with free | committed | ⟨k, w, at_, rfl⟩
  · exact .inl free
  · exact .inr (.inl committed)
  · obtain ⟨-, r, at_r, rest⟩ := dst_of_writeAt owned at_
    exact .inr (.inr ⟨r, List.mem_of_getElem? at_r, rest⟩)

theorem reclaims_of_tracked (tracked : Tracked c s h) (owned : Owned s) (legal : s.Legal i)
    (recover : i.recover = some k) (at_ : s.inFlight[k]? = some r)
    (own : h.savedBy r.checkpointId = h.first + k) (intact : Intact c s h i r.checkpointId) :
    Reclaims c s h i k := by
  obtain ⟨calm, -, -, r', at_r', uses, noRd⟩ := legal.recovers k recover
  obtain rfl := Option.some.inj (at_.symm.trans at_r')
  have stays := commitCount_le_recover legal recover
  have next := tracked_recover tracked owned legal recover at_ uses own noRd intact
  have tracks := tracks_restored tracked owned legal recover at_ uses own
  constructor
  · intro j younger e at_e writes class_eq private_
    obtain ⟨v, bound, tag, notShared⟩ := owned.tags e (List.mem_of_getElem? at_e) writes
    subst class_eq
    have write : e.write e.base.rdClass =
        some ⟨e.base.rdArch, e.pdst - e.base.rdClass.base, e.oldPdst - e.base.rdClass.base⟩ := by
      simp [RenamedInsn.write, writes]
    have here := writeAt_window.mpr ⟨e, at_e, write⟩
    have dst : e.pdst - e.base.rdClass.base = v := by rw [tag, Nat.add_sub_cancel_left]
    refine ⟨v, ?_, tag⟩
    rcases next.used v bound with free | used
    · exact free
    · rw [window_recover legal recover at_ noRd, committed_take legal calm stays] at used
      rcases inUse_append.mp used with used | ⟨l, w, none, -⟩
      · rcases inUse_of_commits used with ⟨a, held⟩ | ⟨l, w, at_w, same⟩
        · exact absurd (held.trans dst.symm)
            ((owned.safe _).distinct.committed j _ a here (dst.symm ▸ notShared private_))
        · obtain ⟨less, at_w⟩ := writeAt_take.mp at_w
          have equal := (owned.safe _).distinct.dst j l _ w here at_w
            (dst.symm ▸ notShared private_) (dst.trans same.symm)
          omega
      · have last := writeAt_lt none
        rw [List.length_singleton, Nat.lt_one_iff] at last
        subst last
        cases none
  · intro e at_e v gone private_
    obtain rfl := Option.some.inj (at_.symm.trans at_e)
    rw [free_recover owned legal recover at_]
    have unused := (not_or.mp (tracks.gone v gone private_)).1
    rcases intact v gone private_ with free | absent
    · exact .inl free
    · exact .inr ⟨absent, private_, not_exists.mp unused⟩

theorem tracked_of_reach {st : Core × History} (reach : coreRuns.Reach (Restores c) st) :
    Owned st.1 ∧ Tracked c st.1 st.2 :=
  reach.invariant (fun st : Core × History => Owned st.1 ∧ Tracked c st.1 st.2) ⟨owned_reset, tracked_reset c⟩
    fun _ _ _ before legal restores =>
      ⟨owned_next before.1 legal, tracked_next before.2 before.1 legal restores⟩

/-- In a run whose recoveries all restore an intact snapshot no register is lost, and the next
recovery reclaims what it should if and only if its snapshot is intact. -/
theorem no_leak {st : Core × History} (reach : coreRuns.Reach (Restores c) st) :
    NoLeak c st.1 ∧ ∀ (i : CoreIn) (k : Nat) (r : RenamedInsn), st.1.Legal i → i.recover = some k →
      st.1.inFlight[k]? = some r → st.2.savedBy r.checkpointId = st.2.first + k →
        (Reclaims c st.1 st.2 i k ↔ Intact c st.1 st.2 i r.checkpointId) := by
  obtain ⟨owned, tracked⟩ := tracked_of_reach reach
  refine ⟨noLeak_of_tracked tracked owned, fun i k r legal recover at_ own => ⟨?_, ?_⟩⟩
  · intro reclaims v gone private_
    have free := reclaims.replaced r at_ v gone private_
    rw [free_recover owned legal recover at_] at free
    rcases free with saved | ⟨absent, -⟩
    · exact .inl saved
    · exact .inr absent
  · exact reclaims_of_tracked tracked owned legal recover at_ own

-- ADDI x1, x0, 1 and ADDI x1, x0, 2 and a branch.
def movesIn : CoreIn :=
  reset.plainCycle
    [Decode.decodeSlice 0x00100093 0 false, Decode.decodeSlice 0x00200093 4 false,
      Decode.decodeSlice 0x00000063 8 false] 0 none

def movesInFlight : Core := core.next .reset movesIn

/-- What the instruction in place `k` shows of itself. -/
theorem place_of_map {l : List α} {f : α → β} {ys : List β} {k : Nat} (all : l.map f = ys)
    (at_ : ys[k]? = some y) : ∃ x, l[k]? = some x ∧ f x = y := by
  rw [← all, List.getElem?_map, Option.map_eq_some_iff] at at_
  exact at_

theorem movesInFlight_branches : movesInFlight.inFlight.map
    (fun r => (r.usesCheckpoint, r.base.rdValid, r.checkpointId)) =
      [(false, true, 0), (false, true, 0), (true, false, 0)] := by
  decide +kernel

theorem no_leak_movesInFlight :
    NoLeak .int (movesInFlight.next (movesInFlight.plainCycle [] 0 (some 2))) := by
  obtain ⟨r, at_, shows⟩ := place_of_map movesInFlight_branches (k := 2) rfl
  simp only [Prod.mk.injEq] at shows
  have legal : movesInFlight.Legal (movesInFlight.plainCycle [] 0 (some 2)) :=
    legal_plainRecovery at_ ⟨shows.1, shows.2.1⟩ (by decide) (by decide +kernel)
      (by decide +kernel)
  have first : coreRuns.Reach (Restores .int) (movesInFlight, History.reset.next reset movesIn) :=
    Machine.Reach.cycle .reset (legal_plainCycle _ _ _) fun k r recover => by cases recover
  have restores : Restores .int (movesInFlight, History.reset.next reset movesIn)
      (movesInFlight.plainCycle [] 0 (some 2)) := by
    intro k e recover at_e
    obtain rfl := Option.some.inj recover
    obtain rfl := Option.some.inj (at_.symm.trans at_e)
    rw [shows.2.2]
    refine ⟨by decide +kernel, fun v gone => ?_⟩
    have before : (movesInFlight.plainCycle [] 0 (some 2)).commit.commitCount = 0 := by
      decide +kernel
    have earlier : movesIn.commit.commitCount = 0 := by decide +kernel
    simp only [History.next, replacedNow_of_none before, replacedNow_of_none earlier,
      History.reset, Set.union_empty, ite_self, Set.mem_empty_iff_false] at gone
  exact (no_leak (first.cycle legal restores)).1

def movesRetired : Core := core.next movesInFlight (movesInFlight.plainCycle [] 2 none)

/-- The first move's register is in flight at the save, and is committed and replaced before the
branch recovers. -/
theorem committed_and_replaced_lost : ¬∀ s, core.Reachable s → NoLeak .int s := by
  intro claim
  have retired : movesRetired.inFlight.map
      (fun r => (r.usesCheckpoint, r.base.rdValid, r.checkpointId)) = [(true, false, 0)] := by
    decide +kernel
  obtain ⟨r, at_, shows⟩ := place_of_map retired (k := 0) rfl
  simp only [Prod.mk.injEq] at shows
  have legal : movesRetired.Legal (movesRetired.plainCycle [] 0 (some 0)) :=
    legal_plainRecovery at_ ⟨shows.1, shows.2.1⟩ (by decide) (by decide +kernel)
      (by decide +kernel)
  have reach : core.Reachable movesRetired :=
    Machine.Reachable.cycle (Machine.Reachable.cycle .reset (legal_plainCycle _ _ _))
      (legal_plainCycle _ _ _)
  rcases claim _ (reach.cycle legal) 32 (by decide) with free | ⟨a, held⟩ | ⟨e, member, writes, -⟩
  · have lost : ((core.next movesRetired (movesRetired.plainCycle [] 0
        (some 0))).rename.freeList .int).freeBitmap.getLsbD 32 = false := by
      decide +kernel
    have free : ((core.next movesRetired (movesRetired.plainCycle [] 0
        (some 0))).rename.freeList .int).freeBitmap.getLsbD 32 = true := free
    rw [lost] at free
    cases free
  · have none : ∀ a : ArchReg, ((core.next movesRetired (movesRetired.plainCycle [] 0
        (some 0))).rename.rat .int).committed a ≠ 32 := by
      decide +kernel
    exact none a held
  · have idle : (core.next movesRetired (movesRetired.plainCycle [] 0 (some 0))).inFlight.map
        (fun e => e.base.writesRd) = [false] := by
      decide +kernel
    have shows := List.mem_map_of_mem (f := fun e : RenamedInsn => e.base.writesRd) member
    rw [idle, List.mem_singleton, writes] at shows
    cases shows

end Core

end Rv64gc.Rename
