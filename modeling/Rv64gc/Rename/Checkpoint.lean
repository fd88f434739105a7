import Mathlib.Tactic.SplitIfs
import Rv64gc.Pkg
import Rv64gc.Hdl.Bits
import Rv64gc.Hdl.Machine

/-!
# The checkpoint file

`checkpoint.sv`: which of the 64 slots are in use, and the 7-bit save number that decides at a
restore which of them are older than the restored one.

The abstract view is the list of live checkpoints in the order they were saved, each with the
number of saves before it. The slots in use are to be exactly the ones on that list.
-/

namespace Rv64gc.Rename

open Hdl

-- ---------------------------------------------------------------------
-- The block
-- ---------------------------------------------------------------------

abbrev ckptSeqBits : Nat := checkpointBits + 1

structure CheckpointFile where
  occupied : BitVec numCheckpoints
  slotSeq : CkptId → BitVec ckptSeqBits
  nextSeq : BitVec ckptSeqBits

structure CheckpointIn where
  saveValid : Bool
  restoreValid : Bool
  restoreId : CkptId
  releaseValid : Nat → Bool
  releaseId : Nat → CkptId
  flush : Bool

namespace CheckpointFile

def reset : CheckpointFile := ⟨0, fun _ => 0, 0⟩

variable (s : CheckpointFile) (i : CheckpointIn)

def releaseMask (i : CheckpointIn) : BitVec numCheckpoints :=
  putEach i.releaseValid (fun k => i.releaseId k) true 0 pipeWidth

def occupiedAfterRelease : BitVec numCheckpoints :=
  s.occupied &&& ~~~releaseMask i

def saveAvail : Bool :=
  s.occupiedAfterRelease i != BitVec.allOnes numCheckpoints

def restoreSeqDelta (k : CkptId) : BitVec ckptSeqBits :=
  s.slotSeq i.restoreId - s.slotSeq k

/-- A slot survives a restore when its save number is 1 to 63 below the restored one's. -/
def restoreKeep (k : CkptId) : Bool :=
  (s.occupiedAfterRelease i).getLsbD k && s.restoreSeqDelta i k != 0 &&
    decide ((s.restoreSeqDelta i k).toNat < numCheckpoints)

def restoreKeepMask : BitVec numCheckpoints :=
  tabulate (s.restoreKeep i)

/-- The loop runs from the highest slot down, so the lowest free slot is assigned last. -/
def saveId : CkptId :=
  (List.finRange numCheckpoints).foldr
    (fun (k : CkptId) id => if (s.occupiedAfterRelease i).getLsbD k then id else k) 0

def next : CheckpointFile where
  occupied :=
    if i.flush then 0
    else if i.restoreValid then s.restoreKeepMask i
    else
      let released := putEach i.releaseValid (fun k => i.releaseId k) false s.occupied pipeWidth
      if i.saveValid && s.saveAvail i then put released (s.saveId i) true else released
  nextSeq :=
    if i.flush then 0
    else if i.restoreValid then s.nextSeq
    else if i.saveValid && s.saveAvail i then s.nextSeq + 1 else s.nextSeq
  slotSeq k :=
    if i.saveValid && s.saveAvail i && k == s.saveId i then s.nextSeq else s.slotSeq k

end CheckpointFile

-- ---------------------------------------------------------------------
-- What a cycle does to a slot
-- ---------------------------------------------------------------------

/-- A committing branch gives slot `k` back in this cycle. -/
def CheckpointIn.Releases (i : CheckpointIn) (k : CkptId) : Prop :=
  ∃ j < pipeWidth, i.releaseValid j = true ∧ i.releaseId j = k

namespace CheckpointFile

variable {s : CheckpointFile} {i : CheckpointIn} {k : CkptId}

theorem occupiedAfterRelease_iff :
    (s.occupiedAfterRelease i).getLsbD k = true ↔
      s.occupied.getLsbD k = true ∧ ¬i.Releases k := by
  have mask : (releaseMask i).getLsbD k = true ↔ i.Releases k := by
    rw [releaseMask, getLsbD_putEach_true, CheckpointIn.Releases]
    simp only [BitVec.ofNat_eq_ofNat, BitVec.getLsbD_zero, Bool.false_eq_true, false_or,
      k.isLt, and_true, Fin.val_inj]
  rw [occupiedAfterRelease, BitVec.getLsbD_and, BitVec.getLsbD_not, Bool.and_eq_true,
    Bool.and_eq_true, ← mask]
  simp [k.isLt]

theorem released_iff :
    (putEach i.releaseValid (fun j => i.releaseId j) false s.occupied pipeWidth).getLsbD k =
      true ↔ (s.occupiedAfterRelease i).getLsbD k = true := by
  rw [getLsbD_putEach_false, occupiedAfterRelease_iff, CheckpointIn.Releases]
  simp only [ne_eq, Fin.val_inj, not_exists, not_and]

/-- The slot handed out is free once the slots released in the same cycle are counted. -/
theorem saveId_free (avail : s.saveAvail i = true) :
    (s.occupiedAfterRelease i).getLsbD (s.saveId i) = false := by
  have some_free : ∃ k : CkptId, (s.occupiedAfterRelease i).getLsbD k = false := by
    by_contra all
    simp only [not_exists, Bool.not_eq_false] at all
    refine absurd ?_ (bne_iff_ne.mp avail)
    refine BitVec.eq_of_getLsbD_eq fun j hj => ?_
    rw [all ⟨j, hj⟩]
    simp [hj]
  obtain ⟨k, free⟩ := some_free
  -- The fold returns a free slot of the list as soon as the list has one.
  have fold : ∀ slots : List CkptId, k ∈ slots →
      (s.occupiedAfterRelease i).getLsbD
        (slots.foldr (fun (k : CkptId) id =>
          if (s.occupiedAfterRelease i).getLsbD k then id else k) 0 : CkptId) = false := by
    intro slots
    induction slots with
    | nil => intro member; cases member
    | cons slot rest ih =>
      intro member
      simp only [List.foldr_cons]
      split_ifs with busy
      · refine ih ((List.mem_cons.mp member).resolve_left ?_)
        rintro rfl
        rw [free] at busy
        exact Bool.false_ne_true busy
      · simpa using busy
  exact fold _ (List.mem_finRange k)

theorem next_occupied_flush (flush : i.flush = true) : (s.next i).occupied.getLsbD k = false := by
  simp [next, flush]

theorem next_occupied_restore (flush : i.flush = false) (restore : i.restoreValid = true) :
    (s.next i).occupied.getLsbD k = s.restoreKeep i k := by
  simp only [next, flush, restore, restoreKeepMask, if_true, Bool.false_eq_true, if_false]
  exact getLsbD_tabulate _ k

theorem next_occupied_save (flush : i.flush = false) (restore : i.restoreValid = false)
    (save : i.saveValid = true) (avail : s.saveAvail i = true) :
    (s.next i).occupied.getLsbD k = true ↔
      (s.occupiedAfterRelease i).getLsbD k = true ∨ k = s.saveId i := by
  simp only [next, flush, restore, save, avail, Bool.and_self, if_true, Bool.false_eq_true,
    if_false, getLsbD_put, k.isLt, and_true, Fin.val_inj, ← released_iff]
  split_ifs with same
  · simp [same]
  · simp [Ne.symm same]

theorem next_occupied_idle (flush : i.flush = false) (restore : i.restoreValid = false)
    (idle : (i.saveValid && s.saveAvail i) = false) :
    (s.next i).occupied.getLsbD k = true ↔ (s.occupiedAfterRelease i).getLsbD k = true := by
  simp only [next, flush, restore, idle, Bool.false_eq_true, if_false, released_iff]

end CheckpointFile

end Rv64gc.Rename
