import Rv64gc.Backend.Commit
import Rv64gc.Hdl.Renaming
import Rv64gc.Rename.Sequential

/-!
# Rename and the instructions in flight

The rename stage as the core drives it. The instructions between rename and the end of the ROB are
a list, oldest first, with what the rename buffer keeps of them. Commit takes from its head what
its scan says, a full flush empties it, and a mispredicted branch that owns a checkpoint cuts it
behind itself.
-/

namespace Rv64gc.Rename

open Hdl Backend

-- ---------------------------------------------------------------------
-- The machine
-- ---------------------------------------------------------------------

structure Core where
  rename : RenameStage
  inFlight : List RenamedInsn

structure CoreIn where
  req : RenameReq
  commit : CommitIn
  /-- The place in the window of the branch that recovers in this cycle. -/
  recover : Option Nat

/-- The entry at the head shows the instruction. -/
structure Agrees (h : HeadEntry) (r : RenamedInsn) : Prop where
  pdst : h.pdst = r.pdst
  oldPdst : h.oldPdst = r.oldPdst
  rdArch : h.rdArch = r.base.rdArch
  rdValid : h.rdValid = r.base.rdValid
  rdIsFp : h.rdIsFp = r.base.rdIsFp
  usesCheckpoint : h.usesCheckpoint = r.usesCheckpoint
  checkpointId : h.checkpointId = r.checkpointId

/-- The wires from the commit stage to rename. -/
def commitWires (c : CommitIn) : RenameCommit where
  count := c.commitCount
  oldPdst k := (c.commitOut k).oldPdst
  rdValid k := (c.commitOut k).rdValid
  isFpDst k := (c.head k).rdIsFp
  rdArch k := (c.commitOut k).rdArch
  pdst k := (c.commitOut k).pdst
  releaseCp := c.releaseCheckpoint
  cpId k := (c.head k).checkpointId

/-- A branch gives up its checkpoint when it recovers. -/
def RenamedInsn.recovered (r : RenamedInsn) : RenamedInsn :=
  { r with usesCheckpoint := false, checkpointId := 0 }

namespace Core

def reset : Core := ⟨.reset, []⟩

variable (s : Core) (i : CoreIn)

def recovering : Option RenamedInsn := i.recover.bind fun k => s.inFlight[k]?

/-- A flush from commit goes before a recovery. -/
def renameIn : RenameIn :=
  { i.req with
    commit := commitWires i.commit
    flushValid := i.commit.flushOut.valid || i.recover.isSome
    flushFull := i.commit.flushOut.valid && i.commit.flushOut.fullFlush
    flushCheckpointId :=
      if i.commit.flushOut.valid then i.commit.flushOut.checkpointId
      else match s.recovering i with
        | some r => r.checkpointId
        | none => 0 }

/-- Nothing is renamed in a cycle that flushes. -/
def inFlightNext : List RenamedInsn :=
  if i.commit.flushOut.valid then []
  else match i.recover with
    | some k => ((s.inFlight.take (k + 1)).modify k RenamedInsn.recovered).drop i.commit.commitCount
    | none => s.inFlight.drop i.commit.commitCount ++ s.rename.renInsn (s.renameIn i)

def next : Core := ⟨s.rename.next (s.renameIn i), s.inFlightNext i⟩

/-- What the core promises: the heads of the ROB are the oldest instructions in flight, and a
branch that recovers owns a checkpoint, writes no register and has not completed. -/
structure Legal (s : Core) (i : CoreIn) : Prop where
  heads : ∀ k, (i.commit.head k).valid = true → k < pipeWidth →
    ∃ r, s.inFlight[k]? = some r ∧ Agrees (i.commit.head k) r
  recovers : ∀ k, i.recover = some k →
    i.commit.flushOut.valid = false ∧ s.rename.stall (s.renameIn i) = false ∧
      (k < pipeWidth → (i.commit.head k).ready = false) ∧
      ∃ r, s.inFlight[k]? = some r ∧ r.usesCheckpoint = true ∧ r.base.rdValid = false

end Core

def core : Machine Core CoreIn where
  reset := .reset
  next := Core.next
  legal := Core.Legal

-- ---------------------------------------------------------------------
-- Windows of one register class
-- ---------------------------------------------------------------------

/-- What the instruction writes in class `c`. -/
def RenamedInsn.write (c : RegClass) (r : RenamedInsn) : Option (Write ArchReg PhysReg) :=
  if r.base.writesRd && r.base.rdClass == c then
    some ⟨r.base.rdArch, r.pdst - c.base, r.oldPdst - c.base⟩
  else none

def Core.window (s : Core) (c : RegClass) : List (Option (Write ArchReg PhysReg)) :=
  s.inFlight.map (·.write c)

abbrev RegClass.Shared (c : RegClass) (v : PhysReg) : Prop := FreeList.Shared c.protectZero v

theorem writesRd_iff {d : DecodedInsn} : (d.writesRd && d.rdClass == c) = true ↔
    d.rdValid = true ∧ d.rdClass = c ∧ (c.protectZero = true → d.rdArch ≠ 0) := by
  cases c <;> cases fp : d.rdIsFp <;>
    simp [DecodedInsn.writesRd, DecodedInsn.rdClass, RegClass.ofFp, RegClass.protectZero, fp]

theorem write_some_iff {r : RenamedInsn} : r.write c = some w ↔
    (r.base.rdValid = true ∧ r.base.rdClass = c ∧ (c.protectZero = true → r.base.rdArch ≠ 0)) ∧
      w = ⟨r.base.rdArch, r.pdst - c.base, r.oldPdst - c.base⟩ := by
  rw [RenamedInsn.write, ← writesRd_iff]
  split
  · rename_i writes
    simp [writes, eq_comm]
  · rename_i idle
    simp [idle]

@[simp] theorem write_recovered (r : RenamedInsn) : r.recovered.write c = r.write c := rfl

theorem writeAt_window {s : Core} : WriteAt (s.window c) k w ↔
    ∃ r, s.inFlight[k]? = some r ∧ r.write c = some w := by
  simp [WriteAt, Core.window, List.getElem?_map]

-- ---------------------------------------------------------------------
-- What leaves
-- ---------------------------------------------------------------------

namespace Core

variable {s : Core} {i : CoreIn}

theorem leaves (legal : s.Legal i) (less : k < i.commit.commitCount) :
    ∃ r, s.inFlight[k]? = some r ∧ Agrees (i.commit.head k) r := by
  have scanned := Nat.lt_of_lt_of_le less i.commit.commitCount_le_scan
  have inside := Nat.lt_of_lt_of_le less i.commit.commitCount_le
  exact legal.heads k ((CommitIn.scanOk i.commit).ready k scanned).1 inside

theorem commitCount_le (legal : s.Legal i) : i.commit.commitCount ≤ s.inFlight.length := by
  cases count : i.commit.commitCount with
  | zero => exact Nat.zero_le _
  | succ n =>
    obtain ⟨r, at_, -⟩ := leaves (k := n) legal (by simp [count])
    exact (List.getElem?_eq_some_iff.mp at_).1

/-- The branch that recovers is not among the instructions that leave. -/
theorem commitCount_le_recover (legal : s.Legal i) (recover : i.recover = some k) :
    i.commit.commitCount ≤ k := by
  obtain ⟨-, -, unready, -⟩ := legal.recovers k recover
  apply Nat.le_of_not_lt
  intro less
  have scanned := Nat.lt_of_lt_of_le less i.commit.commitCount_le_scan
  have inside := Nat.lt_of_lt_of_le less i.commit.commitCount_le
  have ready := ((CommitIn.scanOk i.commit).ready k scanned).2
  rw [unready inside] at ready
  cases ready

theorem clean_of_calm (calm : i.commit.flushOut.valid = false) (less : k < i.commit.commitCount) :
    (i.commit.head k).hasException = false := by
  cases exception : (i.commit.head k).hasException with
  | false => rfl
  | true =>
    rw [i.commit.flushOut_of_exception less exception] at calm
    cases calm

/-- The commit port `k` writes the map of class `c`. -/
def commitsAt (s : Core) (i : CoreIn) (c : RegClass) (k : Nat) : Bool :=
  RenameStage.cratWrEn (s.renameIn i) c k &&
    (!c.protectZero || (s.renameIn i).commit.rdArch k != 0)

theorem commitsAt_iff (legal : s.Legal i) (less : k < i.commit.commitCount)
    (at_ : s.inFlight[k]? = some r) : s.commitsAt i c k = true ↔
      (i.commit.head k).hasException = false ∧ ∃ w, r.write c = some w := by
  obtain ⟨r', at_', agrees⟩ := leaves legal less
  obtain rfl := Option.some.inj (at_.symm.trans at_')
  have scanned := Nat.lt_of_lt_of_le less i.commit.commitCount_le_scan
  have leaves := ((CommitIn.scanOk i.commit).slots k).mpr scanned
  have some_write : (∃ w, r.write c = some w) ↔ r.base.rdValid = true ∧ r.base.rdClass = c ∧
      (c.protectZero = true → r.base.rdArch ≠ 0) := by
    simp only [write_some_iff, exists_and_left, exists_eq, and_true]
  rw [some_write]
  have class_eq : RegClass.ofFp (i.commit.head k).rdIsFp = r.base.rdClass := by
    rw [agrees.rdIsFp]
    rfl
  simp only [commitsAt, RenameStage.cratWrEn, renameIn, commitWires, CommitIn.commitOut, leaves,
    class_eq, agrees.rdValid, agrees.rdArch, less, Bool.true_and, decide_true, Bool.and_true,
    Bool.and_eq_true, Bool.or_eq_true, Bool.not_eq_true', beq_iff_eq, bne_iff_ne, ne_eq]
  cases c.protectZero <;> simp <;> grind

theorem commitsAt_lt (commits : s.commitsAt i c k = true) : k < i.commit.commitCount := by
  simp only [commitsAt, RenameStage.cratWrEn, Bool.and_eq_true, decide_eq_true_eq] at commits
  exact commits.1.1.2

/-- The register a commit port writes is the one the instruction was renamed to. -/
theorem commitPort_eq (legal : s.Legal i) (less : k < i.commit.commitCount)
    (at_ : s.inFlight[k]? = some r) (write : r.write c = some w) :
    w.rd = (s.renameIn i).commit.rdArch k ∧
      w.dst = RenameStage.commitPdstLocal (s.renameIn i) c k := by
  obtain ⟨r', at_', agrees⟩ := leaves legal less
  obtain rfl := Option.some.inj (at_.symm.trans at_')
  obtain ⟨⟨-, class_eq, -⟩, rfl⟩ := write_some_iff.mp write
  have class_head : RegClass.ofFp (i.commit.head k).rdIsFp = c := by
    rw [agrees.rdIsFp]
    exact class_eq
  simp [RenameStage.commitPdstLocal, renameIn, commitWires, CommitIn.commitOut, class_head,
    agrees.rdArch, agrees.pdst]

/-- The instructions that leave with their writes, those with an exception without one. -/
def leaving (s : Core) (i : CoreIn) (c : RegClass) : List (Option (Write ArchReg PhysReg)) :=
  (List.range i.commit.commitCount).map fun k =>
    if s.commitsAt i c k then ((s.window c)[k]?).join else none

theorem writeAt_leaving : WriteAt (s.leaving i c) k w ↔
    s.commitsAt i c k = true ∧ WriteAt (s.window c) k w := by
  simp only [WriteAt, leaving, List.getElem?_map, Option.map_eq_some_iff]
  constructor
  · rintro ⟨j, at_, eq⟩
    obtain ⟨inside, rfl⟩ := List.getElem?_eq_some_iff.mp at_
    simp only [List.getElem_range] at eq
    split at eq
    · rename_i commits
      exact ⟨commits, Option.join_eq_some_iff.mp eq⟩
    · cases eq
  · rintro ⟨commits, at_⟩
    refine ⟨k, List.getElem?_range (commitsAt_lt commits), ?_⟩
    rw [if_pos commits, at_]
    rfl

theorem committedNext_eq (legal : s.Legal i) :
    (s.rename.rat c).committedNext c.protectZero (s.rename.ratIn (s.renameIn i) c) =
      commitMap (s.rename.rat c).committed (s.leaving i c) i.commit.commitCount := by
  have beyond : ∀ j, i.commit.commitCount ≤ j → j < pipeWidth → s.commitsAt i c j = false := by
    intro j after _
    rw [← Bool.not_eq_true]
    exact fun commits => Nat.not_lt_of_le after (commitsAt_lt commits)
  refine Eq.trans (writeEach_of_idle i.commit.commitCount_le beyond)
    (writeEach_eq_commitMap (fun k less port => ?_) fun k _ port w at_ => ?_)
  · obtain ⟨r, at_, -⟩ := leaves legal less
    obtain ⟨-, w, write⟩ := (commitsAt_iff legal less at_).mp port
    refine ⟨w, writeAt_leaving.mpr ⟨port, writeAt_window.mpr ⟨r, at_, write⟩⟩, ?_⟩
    exact commitPort_eq legal less at_ write
  · have commits := (writeAt_leaving.mp at_).1
    rw [show s.commitsAt i c k = false from port] at commits
    cases commits

/-- Without a flush everything that leaves writes its register. -/
theorem leaving_calm (legal : s.Legal i) (calm : i.commit.flushOut.valid = false)
    (less : k < i.commit.commitCount) : (s.leaving i c)[k]? = (s.window c)[k]? := by
  obtain ⟨r, at_, -⟩ := leaves legal less
  have at_window : (s.window c)[k]? = some (r.write c) := by
    rw [window, List.getElem?_map, at_]
    rfl
  have commits := commitsAt_iff (c := c) legal less at_
  rw [leaving, List.getElem?_map, List.getElem?_range less, at_window]
  simp only [Option.map_some, at_window, Option.join_some, Option.some.injEq]
  cases write : r.write c with
  | none => simp
  | some w => simp [commits.mpr ⟨clean_of_calm calm less, w, write⟩]

theorem committedNext_calm (legal : s.Legal i) (calm : i.commit.flushOut.valid = false) :
    (s.rename.rat c).committedNext c.protectZero (s.rename.ratIn (s.renameIn i) c) =
      commitMap (s.rename.rat c).committed (s.window c) i.commit.commitCount :=
  (committedNext_eq legal).trans (commitMap_congr fun _ less => leaving_calm legal calm less)

-- ---------------------------------------------------------------------
-- Flushes
-- ---------------------------------------------------------------------

theorem doFlush_eq : (s.renameIn i).doFlush = i.commit.flushOut.valid := by
  cases valid : i.commit.flushOut.valid with
  | false => simp [RenameIn.doFlush, renameIn, valid]
  | true => simp [RenameIn.doFlush, renameIn, valid, i.commit.flushOut_full valid]

theorem doCkptRestore_eq (calm : i.commit.flushOut.valid = false) :
    (s.renameIn i).doCkptRestore = i.recover.isSome := by
  simp [RenameIn.doCkptRestore, renameIn, calm]

theorem flushValid_eq (calm : i.commit.flushOut.valid = false) :
    (s.renameIn i).flushValid = i.recover.isSome := by
  simp [renameIn, calm]

theorem restoreId_eq (calm : i.commit.flushOut.valid = false) (recover : i.recover = some k)
    (at_ : s.inFlight[k]? = some r) : (s.renameIn i).flushCheckpointId = r.checkpointId := by
  simp [renameIn, calm, recovering, recover, at_]

-- ---------------------------------------------------------------------
-- Plain cycles
-- ---------------------------------------------------------------------

/-- The head entry of an instruction without side effects. -/
def headOf (r : RenamedInsn) (ready : Bool) : HeadEntry where
  valid := true
  ready := ready
  pc := r.base.pc
  trapPc := r.base.trapPc
  hasException := false
  excCode := 0
  excTval := 0
  isBranch := r.base.isBranch
  bpuType := 0
  isStore := false
  isLoad := false
  isCsr := false
  isFence := false
  isFenceI := false
  isMret := false
  isSret := false
  isSfenceVma := false
  isEcall := false
  isWfi := false
  isFused := r.base.isFused
  isFpInstr := r.base.isFpOp
  fpFflags := 0
  branchTaken := false
  branchTarget := 0
  branchMispredict := false
  csrAddr := 0
  csrWdata := 0
  csrWe := false
  csrOp := 0
  pdst := r.pdst
  oldPdst := r.oldPdst
  rdArch := r.base.rdArch
  rdValid := r.base.rdValid
  rdIsFp := r.base.rdIsFp
  usesCheckpoint := r.usesCheckpoint
  checkpointId := r.checkpointId
  bpRasTos := 0
  bpRasTop := 0
  bpRasOp := 0
  bpGhr := 0

def noHead : HeadEntry :=
  { headOf ⟨Decode.defaults 0 0 false, 0, 0, 0, 0, 0, 0, false, false, false, 0, false, 0, 0, false⟩
      false with valid := false }

/-- A commit stage without interrupts whose first `done` entries have completed. -/
def commitOf (window : List RenamedInsn) (done : Nat) : CommitIn where
  headIdx := 0
  head k :=
    match window[k]? with
    | some r => headOf r (decide (k < done))
    | none => noHead
  fenceIReady := true
  sfenceVmaReady := true
  mtvec := 0
  stvec := 0
  mepc := 0
  sepc := 0
  privMode := 3
  medeleg := 0
  irqPending := false
  irqCause := 0
  irqToSupervisor := false

/-- A cycle with nothing in the way, in which the first `done` instructions in flight have
completed and the one in place `recover`, if any, turns out mispredicted. -/
def plainCycle (s : Core) (packet : List DecodedInsn) (done : Nat) (recover : Option Nat) :
    CoreIn :=
  ⟨.unblocked packet, commitOf s.inFlight done, recover⟩

theorem heads_plainCycle (valid : ((s.plainCycle packet done recover).commit.head k).valid = true) :
    ∃ r, s.inFlight[k]? = some r ∧ Agrees ((s.plainCycle packet done recover).commit.head k) r := by
  cases at_ : s.inFlight[k]? with
  | none => simp [plainCycle, commitOf, at_, noHead] at valid
  | some r =>
    refine ⟨r, rfl, ?_⟩
    simp only [plainCycle, commitOf, at_]
    exact ⟨rfl, rfl, rfl, rfl, rfl, rfl, rfl⟩

theorem legal_plainCycle (s : Core) (packet : List DecodedInsn) (done : Nat) :
    s.Legal (s.plainCycle packet done none) where
  heads _ valid _ := heads_plainCycle valid
  recovers k recover := by cases recover

theorem legal_plainRecovery {k : Nat} {r : RenamedInsn} (at_ : s.inFlight[k]? = some r)
    (branch : r.usesCheckpoint = true ∧ r.base.rdValid = false) (undone : done ≤ k)
    (calm : (s.plainCycle packet done (some k)).commit.flushOut.valid = false)
    (empty : s.rename.stall (s.renameIn (s.plainCycle packet done (some k))) = false) :
    s.Legal (s.plainCycle packet done (some k)) where
  heads _ valid _ := heads_plainCycle valid
  recovers j recover := by
    obtain rfl := Option.some.inj recover
    refine ⟨calm, empty, fun _ => ?_, r, at_, branch⟩
    simp only [plainCycle, commitOf, at_, headOf, decide_eq_false_iff_not]
    exact Nat.not_lt_of_le undone

end Core

end Rv64gc.Rename
