import Rv64gc.Decode.Insn
import Rv64gc.Hdl.Compact
import Rv64gc.Rename.Checkpoint
import Rv64gc.Rename.FreeList
import Rv64gc.Rename.Rat

/-!
# The rename stage

`rename.sv`: up to four decoded instructions get their physical registers in a cycle. Two passes
decide how many of them advance, first without and then with the registers the free lists have to
offer. What does not advance waits in the holding register and goes first in the next cycle.

Work slots are a list, oldest first: the source packs them into the lowest slots.
-/

namespace Rv64gc.Rename

open Hdl

-- ---------------------------------------------------------------------
-- The two register files
-- ---------------------------------------------------------------------

inductive RegClass where
  | int | fp
deriving DecidableEq

namespace RegClass

abbrev depth : RegClass → Nat
  | int => intPrfDepth
  | fp => fpPrfDepth

/-- What is added to a register of the class to make its tag. -/
def base : RegClass → PhysReg
  | int => 0
  | fp => fpPhysBase

/-- Only the integer file has a register that is always zero. -/
def protectZero : RegClass → Bool
  | int => true
  | fp => false

def ofFp (isFp : Bool) : RegClass := if isFp then fp else int

end RegClass

-- ---------------------------------------------------------------------
-- Instructions
-- ---------------------------------------------------------------------

abbrev LqIdx := BitVec 5
abbrev SqIdx := BitVec 5

structure RenamedInsn where
  base : DecodedInsn
  robIdx : RobIdx
  rs1Phys : PhysReg
  rs2Phys : PhysReg
  rs3Phys : PhysReg
  pdst : PhysReg
  oldPdst : PhysReg
  rs1Ready : Bool
  rs2Ready : Bool
  rs3Ready : Bool
  checkpointId : CkptId
  usesCheckpoint : Bool
  sqIdx : SqIdx
  lqIdx : LqIdx
  zeroEliminated : Bool

end Rv64gc.Rename

namespace Rv64gc.DecodedInsn

open Rename

def rdClass (d : DecodedInsn) : RegClass := .ofFp d.rdIsFp

/-- It changes the map: its destination is a register other than `x0`. -/
def writesRd (d : DecodedInsn) : Bool := d.rdValid && (d.rdIsFp || d.rdArch != 0)

/-- `li rd, 0` and `xor rd, rs, rs` get `p0`. Moves are not eliminated: sharing any other register
would need a reference count. -/
def isZeroElim (d : DecodedInsn) : Bool :=
  d.rdValid && d.rdArch != 0 && d.fuType == .alu && !d.rdIsFp && !d.isFpOp &&
    (d.aluOp == .add && d.useImm && d.imm == 0 && d.rs1Arch == 0 ||
      d.aluOp == .xor && !d.useImm && d.rs1Valid && d.rs2Valid && d.rs1Arch == d.rs2Arch)

def needsPreg (d : DecodedInsn) : Bool := d.writesRd && !d.isZeroElim

end Rv64gc.DecodedInsn

namespace Rv64gc.Rename

open Hdl

-- ---------------------------------------------------------------------
-- State and ports
-- ---------------------------------------------------------------------

structure RenameStage where
  hold : Nat → Option DecodedInsn
  rat : RegClass → Rat
  freeList : (c : RegClass) → FreeList c.depth
  checkpoint : CheckpointFile
  recoveryHeadroomOk : Bool

/-- What decode and the back end drive. -/
structure RenameReq where
  dec : Nat → DecodedInsn
  decCount : Nat
  robAllocIdx : Nat → RobIdx
  robAllocReady : Bool
  backendAdmissionThrottle : Bool
  dqFull : Bool
  lqAllocIdx : Nat → LqIdx
  sqAllocIdx : Nat → SqIdx
  lqFull : Bool
  sqFull : Bool
  pregReadyTable : PhysReg → Bool

/-- What the commit stage drives. -/
structure RenameCommit where
  count : Nat
  oldPdst : Nat → PhysReg
  rdValid : Nat → Bool
  isFpDst : Nat → Bool
  rdArch : Nat → ArchReg
  pdst : Nat → PhysReg
  releaseCp : Nat → Bool
  cpId : Nat → CkptId

structure RenameIn extends RenameReq where
  commit : RenameCommit
  flushValid : Bool
  flushFull : Bool
  flushCheckpointId : CkptId

def RenameIn.doFlush (x : RenameIn) : Bool := x.flushValid && x.flushFull
def RenameIn.doCkptRestore (x : RenameIn) : Bool := x.flushValid && !x.flushFull

def backendThrottleWidth : Nat := 2

/-- Free registers of a class that partial recovery wants to see. -/
def recoveryFreeHeadroom (c : RegClass) : Nat := c.depth - archRegs - 8 * pipeWidth

namespace RenameStage

def reset : RenameStage where
  hold _ := none
  rat _ := .reset
  freeList c := .reset c.depth
  checkpoint := .reset
  recoveryHeadroomOk := false

-- ---------------------------------------------------------------------
-- Commit
-- ---------------------------------------------------------------------

/-- Commit slot `k` writes a register of class `c`. -/
def cratWrEn (x : RenameIn) (c : RegClass) (k : Nat) : Bool :=
  x.commit.rdValid k && decide (k < x.commit.count) && RegClass.ofFp (x.commit.isFpDst k) == c

def commitPdstLocal (x : RenameIn) (c : RegClass) (k : Nat) : PhysReg :=
  if RegClass.ofFp (x.commit.isFpDst k) = c then x.commit.pdst k - c.base else 0

def releaseCount (x : RenameIn) (c : RegClass) : Nat := rank (cratWrEn x c) pipeWidth

def releasePreg (x : RenameIn) (c : RegClass) (r : Nat) : PhysReg :=
  match (packed (cratWrEn x c) pipeWidth)[r]? with
  | some k => x.commit.oldPdst k - c.base
  | none => 0

variable (s : RenameStage) (x : RenameIn)

-- ---------------------------------------------------------------------
-- Work slots
-- ---------------------------------------------------------------------

def held : List DecodedInsn := (List.range pipeWidth).filterMap s.hold

def holdActive : Bool := (List.range pipeWidth).any fun k => (s.hold k).isSome

/-- The valid instructions of the decode packet. -/
def packet (x : RenameIn) : List DecodedInsn :=
  ((List.range pipeWidth).filter fun k => decide (k < x.decCount) && (x.dec k).valid).map x.dec

/-- A decode packet is merged only when nothing is held. -/
def work : List DecodedInsn :=
  (s.held ++ if s.holdActive then [] else packet x).take pipeWidth

def workValid (k : Nat) : Bool := (s.work x)[k]?.isSome

/-- Work slot `k` holds an instruction with property `p`. -/
def slot (p : DecodedInsn → Bool) (k : Nat) : Bool := (s.work x)[k]?.any p

def slotNeedsPreg (c : RegClass) (k : Nat) : Bool :=
  s.slot x (fun d => d.needsPreg && d.rdClass == c) k

def slotNeedsCkpt (k : Nat) : Bool := s.slot x (·.isBranch) k

-- ---------------------------------------------------------------------
-- Pass 1: everything but the physical registers
-- ---------------------------------------------------------------------

def checkpointIn (save : Bool) : CheckpointIn where
  saveValid := save
  restoreValid := x.doCkptRestore
  restoreId := x.flushCheckpointId
  releaseValid := x.commit.releaseCp
  releaseId := x.commit.cpId
  flush := x.doFlush

def ckptSaveAvail : Bool := s.checkpoint.saveAvail (checkpointIn x false)
def ckptSaveId : CkptId := s.checkpoint.saveId (checkpointIn x false)

structure Pass1 where
  inOrderOpen : Bool
  ckptConsumed : Bool

/-- The slot gets everything but a physical register; `b` is what the slots before it left. -/
def hasResources (b : Pass1) (k : Nat) (d : DecodedInsn) : Bool :=
  (!d.isLoad || !x.lqFull) && (!d.isStore || !x.sqFull) &&
    (!d.isBranch || !b.ckptConsumed && s.ckptSaveAvail x) && x.robAllocReady && !x.dqFull &&
    (!x.backendAdmissionThrottle || decide (k < backendThrottleWidth))

def advancesSp (b : Pass1) (k : Nat) : Bool :=
  b.inOrderOpen && s.slot x (s.hasResources x b k) k

/-- What slot `k` finds. -/
def pass1 : Nat → Pass1
  | 0 => ⟨true, false⟩
  | k + 1 =>
    let b := pass1 k
    { inOrderOpen := b.inOrderOpen && !(s.workValid x k && !s.advancesSp x b k)
      ckptConsumed := b.ckptConsumed || (s.advancesSp x b k && s.slotNeedsCkpt x k) }

def slotCanAdvanceSp (k : Nat) : Bool := s.advancesSp x (s.pass1 x k) k

-- ---------------------------------------------------------------------
-- Pass 2: the physical registers
-- ---------------------------------------------------------------------

def requests (c : RegClass) (k : Nat) : Bool := s.slotNeedsPreg x c k && s.slotCanAdvanceSp x k

def flReqCount (c : RegClass) : Nat := rank (s.requests x c) pipeWidth
def flSlotIdx (c : RegClass) (k : Nat) : Nat := rank (s.requests x c) k

def flAvailCount (c : RegClass) : Nat := (s.freeList c).allocAvailCount (s.flReqCount x c)

def hasPreg (k : Nat) : Bool :=
  s.slot x (fun d => !d.needsPreg || decide (s.flSlotIdx x d.rdClass k < s.flAvailCount x d.rdClass)) k

/-- No slot before `k` was left behind. -/
def inOrderOpen : Nat → Bool
  | 0 => true
  | k + 1 =>
    let advances := s.slotCanAdvanceSp x k && inOrderOpen k && s.hasPreg x k
    inOrderOpen k && !(s.workValid x k && !advances)

def slotCanAdvance (k : Nat) : Bool :=
  s.slotCanAdvanceSp x k && s.inOrderOpen x k && s.hasPreg x k

def pregConsumedBefore (c : RegClass) (k : Nat) : Nat :=
  rank (fun j => s.slotCanAdvance x j && s.slotNeedsPreg x c j) k

/-- The last branch among the advancing slots before `k`. -/
def ckptBranchBefore : Nat → Option Nat
  | 0 => none
  | k + 1 =>
    if s.slotCanAdvance x k && s.slotNeedsCkpt x k then some k else ckptBranchBefore k

def ckptBranch : Option Nat := s.ckptBranchBefore x pipeWidth
def ckptBranchSlot : Nat := (s.ckptBranch x).getD 0

def ckptSaveValid : Bool := (s.ckptBranch x).isSome && !x.doFlush && !x.doCkptRestore

-- ---------------------------------------------------------------------
-- The map and the free list
-- ---------------------------------------------------------------------

def ratWrEn (c : RegClass) (k : Nat) : Bool :=
  s.slotCanAdvance x k && s.slot x (fun d => d.writesRd && d.rdClass == c) k

def ratWrArch (k : Nat) : ArchReg :=
  match (s.work x)[k]? with
  | some d => d.rdArch
  | none => 0

def ratWrPhys (c : RegClass) (k : Nat) : PhysReg :=
  if s.ratWrEn x c k then
    if s.slot x (·.isZeroElim) k then 0 else (s.freeList c).allocPreg (s.flSlotIdx x c k)
  else 0

def ratIn (c : RegClass) : RatIn where
  wrEn := s.ratWrEn x c
  wrArch := s.ratWrArch x
  wrPhys := s.ratWrPhys x c
  commitWrEn := cratWrEn x c
  commitArch := x.commit.rdArch
  commitPhys := commitPdstLocal x c
  ckptSave := s.ckptSaveValid x
  ckptSaveId := s.ckptSaveId x
  ckptSaveSlot := s.ckptBranchSlot x
  ckptRestore := x.doCkptRestore
  ckptRestoreId := x.flushCheckpointId
  flush := x.doFlush

def freeListIn (c : RegClass) : FreeListIn where
  allocConsumeCount := s.pregConsumedBefore x c pipeWidth
  releaseCount := releaseCount x c
  releasePreg := releasePreg x c
  commitWrValid := cratWrEn x c
  commitArch := x.commit.rdArch
  commitPdst := commitPdstLocal x c
  ckptSave := s.ckptSaveValid x
  ckptSaveId := s.ckptSaveId x
  ckptSaveAllocCount := s.pregConsumedBefore x c (s.ckptBranchSlot x)
  ckptRestore := x.doCkptRestore
  ckptRestoreId := x.flushCheckpointId
  flush := x.doFlush

-- ---------------------------------------------------------------------
-- Output
-- ---------------------------------------------------------------------

def ratRead (c : RegClass) (k : Nat) (arch : ArchReg) : PhysReg :=
  c.base + (s.rat c).read (s.ratIn x c) k arch

/-- The operand is a register other than `x0`. -/
def readsReg (valid isFp : Bool) (arch : ArchReg) : Bool := valid && (isFp || arch != 0)

def srcPhys (k : Nat) (valid isFp : Bool) (arch : ArchReg) : PhysReg :=
  if readsReg valid isFp arch then s.ratRead x (.ofFp isFp) k arch else 0

/-- An earlier slot of this cycle produces the operand, and has not run. -/
def producedInBatch (k : Nat) (isFp : Bool) (arch : ArchReg) : Bool :=
  (List.range k).any fun j =>
    s.slotCanAdvance x j && s.slot x (fun d => d.needsPreg && d.rdIsFp == isFp && d.rdArch == arch) j

def srcReady (k : Nat) (d : DecodedInsn) (valid isFp : Bool) (arch : ArchReg) : Bool :=
  d.isZeroElim || !readsReg valid isFp arch ||
    x.pregReadyTable (s.srcPhys x k valid isFp arch) && !s.producedInBatch x k isFp arch

/-- What leaves work slot `k`, which holds `d`. -/
def renamed (k : Nat) (d : DecodedInsn) : RenamedInsn where
  base := d
  robIdx := x.robAllocIdx (rank (s.slotCanAdvance x) k)
  rs1Phys := s.srcPhys x k d.rs1Valid d.rs1IsFp d.rs1Arch
  rs2Phys := s.srcPhys x k d.rs2Valid d.rs2IsFp d.rs2Arch
  rs3Phys := s.srcPhys x k d.rs3Valid d.rs3IsFp d.rs3Arch
  pdst := if d.writesRd then d.rdClass.base + s.ratWrPhys x d.rdClass k else 0
  oldPdst := d.rdClass.base + (s.rat d.rdClass).oldPhys (s.ratIn x d.rdClass) k
  rs1Ready := s.srcReady x k d d.rs1Valid d.rs1IsFp d.rs1Arch
  rs2Ready := s.srcReady x k d d.rs2Valid d.rs2IsFp d.rs2Arch
  rs3Ready := s.srcReady x k d d.rs3Valid d.rs3IsFp d.rs3Arch
  checkpointId :=
    if d.isBranch && s.ckptBranch x == some k then s.ckptSaveId x else 0
  usesCheckpoint := d.isBranch && s.ckptBranch x == some k
  -- The queues number their entries by loads and stores, not by slots.
  sqIdx :=
    if d.isStore then
      x.sqAllocIdx (rank (fun j => s.slotCanAdvance x j && s.slot x (·.isStore) j) k)
    else 0
  lqIdx :=
    if d.isLoad then
      x.lqAllocIdx (rank (fun j => s.slotCanAdvance x j && s.slot x (·.isLoad) j) k)
    else 0
  zeroEliminated := d.isZeroElim

def renInsn : List RenamedInsn :=
  (packed (s.slotCanAdvance x) pipeWidth).filterMap fun k =>
    (s.work x)[k]?.map (s.renamed x k)

def anyAdvance : Bool := (List.range pipeWidth).any (s.slotCanAdvance x)
def captureNonadvance : Bool := s.holdActive || s.anyAdvance x

def stall : Bool := s.holdActive || !(s.work x).isEmpty && !s.anyAdvance x

def recoveryResourcesOk : Bool :=
  decide (recoveryFreeHeadroom .int ≤ (s.freeList .int).freeCount) &&
    decide (recoveryFreeHeadroom .fp ≤ (s.freeList .fp).freeCount) &&
    x.robAllocReady && !x.dqFull && !x.lqFull && !x.sqFull && !s.holdActive &&
    !x.backendAdmissionThrottle && !x.doFlush && !x.doCkptRestore

/-- What stays behind is packed into the lowest slots of the holding register. -/
def holdNext (p : Nat) : Option DecodedInsn :=
  if x.doFlush || x.doCkptRestore then none
  else if s.captureNonadvance x then
    (packed (fun k => s.workValid x k && !s.slotCanAdvance x k) pipeWidth)[p]?.bind
      fun k => (s.work x)[k]?
  else none

def next : RenameStage where
  hold := s.holdNext x
  rat c := (s.rat c).next c.protectZero (s.ratIn x c)
  freeList c := (s.freeList c).next c.protectZero (s.freeListIn x c)
  checkpoint := s.checkpoint.next (checkpointIn x (s.ckptSaveValid x))
  recoveryHeadroomOk := s.recoveryResourcesOk x

end RenameStage

end Rv64gc.Rename

