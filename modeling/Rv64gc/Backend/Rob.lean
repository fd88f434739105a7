import Rv64gc.Isa
import Rv64gc.Pkg
import Rv64gc.Hdl.Ring

/-!
# The reorder buffer

`rob.sv`: a ring of 128 entries with a 7-bit head and tail and an 8-bit count. Entries are
allocated at the tail and leave at the head, four a cycle. The completion ports write wherever
their index points. A partial flush moves the tail back to a given pointer.
-/

namespace Rv64gc.Backend

open Hdl

-- ---------------------------------------------------------------------
-- Storage and ports
-- ---------------------------------------------------------------------

structure RobEntry where
  valid : Bool
  ready : Bool
  storeAddrDone : Bool
  storeDataDone : Bool
  pc : BitVec 64
  trapPc : BitVec 64
  hasExc : Bool
  excCode : BitVec 4
  excTval : BitVec 64
  isBranch : Bool
  bpuType : BitVec 3
  isStore : Bool
  isLoad : Bool
  isCsr : Bool
  isFence : Bool
  isFenceI : Bool
  isMret : Bool
  isSret : Bool
  isSfenceVma : Bool
  isEcall : Bool
  isWfi : Bool
  isFused : Bool
  isFpInstr : Bool
  branchTaken : Bool
  branchTarget : BitVec 64
  branchTakenTarget : BitVec 64
  branchMispredict : Bool
  csrAddr : BitVec 12
  csrWdata : BitVec 64
  csrWe : Bool
  csrOp : BitVec 2
  fpFflags : BitVec 5
deriving DecidableEq

def RobEntry.empty : RobEntry :=
  ⟨false, false, false, false, 0, 0, false, 0, 0, false, 0, false, false, false, false, false,
    false, false, false, false, false, false, false, false, 0, 0, false, 0, 0, false, 0, 0⟩

structure Rob where
  head : RobIdx
  tail : RobIdx
  count : BitVec 8
  entry : RobIdx → RobEntry

/-- What rename writes into a new entry. -/
structure AllocSlot where
  readyNow : Bool
  hasException : Bool
  excCode : BitVec 4
  excTval : BitVec 64
  pc : BitVec 64
  trapPc : BitVec 64
  isBranch : Bool
  bpuType : BitVec 3
  isStore : Bool
  isLoad : Bool
  isCsr : Bool
  isFence : Bool
  isFenceI : Bool
  isMret : Bool
  isSret : Bool
  isSfenceVma : Bool
  isEcall : Bool
  isWfi : Bool
  isFused : Bool
  isFpInstr : Bool

/-- One slot of the common data bus. -/
structure CdbPort where
  valid : Bool
  idx : RobIdx
  hasException : Bool
  excCode : BitVec 4
  isBranch : Bool
  branchTaken : Bool
  branchTarget : BitVec 64
  branchTakenTarget : BitVec 64
  branchMispredict : Bool
  csrWe : Bool
  csrAddr : BitVec 12
  csrWdata : BitVec 64
  csrOp : BitVec 2
  fpFflagsValid : Bool
  fpFflags : BitVec 5

structure LoadPort where
  valid : Bool
  idx : RobIdx
  hasException : Bool
  excCode : BitVec 4

structure RobIn where
  allocCount : Nat
  alloc : Nat → AllocSlot
  wb : Nat → CdbPort
  staValid : Bool
  staIdx : RobIdx
  stdValid : Bool
  stdIdx : RobIdx
  loadWb : Nat → LoadPort
  sidebandValid : Bool
  sidebandIdx : RobIdx
  sidebandCode : BitVec 4
  sidebandTval : BitVec 64
  violationValid : Bool
  violationIdx : RobIdx
  commitCount : Nat
  flushValid : Bool
  flushRobTail : RobIdx
  flushFull : Bool
  flushClearBranchMispredict : Bool

def cdbWidth : Nat := 4
def loadPorts : Nat := 2

namespace Rob

-- ---------------------------------------------------------------------
-- Pointers
-- ---------------------------------------------------------------------

/-- Pointer plus a small number, with the explicit wrap of the source. -/
def wrapAdd (idx : RobIdx) (n : Nat) : RobIdx :=
  let sum : BitVec 8 := idx.setWidth 8 + BitVec.ofNat 8 n
  if 128#8 ≤ sum then ((sum.setWidth 7).setWidth 8 - 128#8).setWidth 7 else sum.setWidth 7

theorem wrapAdd_eq (idx : RobIdx) (n : Nat) : wrapAdd idx n = slotAt idx n := by
  unfold wrapAdd slotAt
  dsimp only
  have hi := idx.isLt
  apply BitVec.eq_of_toNat_eq
  split <;>
    simp only [BitVec.toNat_setWidth, BitVec.toNat_sub, BitVec.toNat_add, BitVec.toNat_ofNat,
      robIdxBits] at * <;>
    omega

def headIdx (s : Rob) (i : Nat) : RobIdx := wrapAdd s.head i
def allocIdx (s : Rob) (i : Nat) : RobIdx := wrapAdd s.tail i

def nextHead (s : Rob) (x : RobIn) : RobIdx := wrapAdd s.head x.commitCount
def nextTail (s : Rob) (x : RobIn) : RobIdx := wrapAdd s.tail x.allocCount

def freeCount (s : Rob) : BitVec 8 := 128#8 - s.count
def allocReady (s : Rob) : Bool := 4#8 ≤ s.freeCount
def isEmpty (s : Rob) : Bool := s.count == 0#8
def isFull (s : Rob) : Bool := 128#8 < s.count + 4#8

-- ---------------------------------------------------------------------
-- The read port
-- ---------------------------------------------------------------------

/-- Entries with side effects of their own never take the ready bypass. -/
def simpleEntry (e : RobEntry) : Bool :=
  !e.isStore && !e.isCsr && !e.isBranch && !e.isFence && !e.isFenceI && !e.isMret && !e.isSret &&
    !e.isSfenceVma && !e.isEcall && !e.isWfi

def violates (x : RobIn) (i : RobIdx) : Bool := x.violationValid && x.violationIdx == i

/-- A load result that arrives this cycle for the head slot `k`. -/
def loadBypass (s : Rob) (x : RobIn) (k : Nat) : Bool :=
  let e := s.entry (s.headIdx k)
  (List.range loadPorts).any fun lw =>
    let p := x.loadWb lw
    p.valid && decide (k < s.count.toNat) && e.valid && !e.ready && e.isLoad && !e.hasExc &&
      !p.hasException && p.idx == s.headIdx k && !violates x (s.headIdx k)

/-- An arithmetic result that arrives this cycle for the head slot `k`. -/
def arithBypass (s : Rob) (x : RobIn) (k : Nat) : Bool :=
  let e := s.entry (s.headIdx k)
  (List.range cdbWidth).any fun w =>
    let p := x.wb w
    decide (k < s.count.toNat) && e.valid && !e.ready && !e.isLoad && simpleEntry e && !e.hasExc &&
      p.valid && p.idx == s.headIdx k && !p.hasException && !p.isBranch && !p.csrWe &&
      !violates x (s.headIdx k)

/-- A partial flush may leave stale valid bits, so the count gates them. -/
def headValid (s : Rob) (k : Nat) : Bool :=
  (s.entry (s.headIdx k)).valid && decide (k < s.count.toNat)

/-- Only the first two slots take the bypasses. -/
def headReady (s : Rob) (x : RobIn) (k : Nat) : Bool :=
  let ready := (s.entry (s.headIdx k)).ready
  if k < 2 then ready || s.loadBypass x k || s.arithBypass x k else ready

def headFpFflags (s : Rob) (x : RobIn) (k : Nat) : BitVec 5 :=
  (List.range cdbWidth).foldl
    (fun flags w =>
      let p := x.wb w
      if p.valid && p.fpFflagsValid && p.idx == s.headIdx k then flags ||| p.fpFflags else flags)
    (s.entry (s.headIdx k)).fpFflags

-- ---------------------------------------------------------------------
-- What happens to one entry
-- ---------------------------------------------------------------------

/-- Squashed by a partial flush. -/
def squash (e : RobEntry) : RobEntry :=
  { e with
    valid := false, ready := false, storeAddrDone := false, storeDataDone := false
    isBranch := false, isStore := false, isLoad := false, isCsr := false, isFence := false
    isFenceI := false, isMret := false, isSret := false, isSfenceVma := false, isEcall := false
    isWfi := false, isFused := false, isFpInstr := false, hasExc := false, excTval := 0
    branchTaken := false, branchMispredict := false, csrWe := false, csrOp := 0, fpFflags := 0 }

/-- Squashed by a full flush. -/
def flushed (e : RobEntry) : RobEntry :=
  { squash e with fpFflags := e.fpFflags }

/-- Left through the head. -/
def retire (e : RobEntry) : RobEntry :=
  { e with
    valid := false, ready := false, storeAddrDone := false, storeDataDone := false
    isBranch := false, isStore := false, isLoad := false, isCsr := false, isFence := false
    isFenceI := false, isMret := false, isSret := false, isSfenceVma := false, isEcall := false
    isWfi := false, isFused := false, isFpInstr := false, excTval := 0, fpFflags := 0 }

def allocated (a : AllocSlot) : RobEntry where
  valid := true
  ready := a.readyNow
  storeAddrDone := false
  storeDataDone := false
  pc := a.pc
  trapPc := a.trapPc
  hasExc := a.hasException
  excCode := a.excCode
  excTval := a.excTval
  isBranch := a.isBranch
  bpuType := a.bpuType
  isStore := a.isStore
  isLoad := a.isLoad
  isCsr := a.isCsr
  isFence := a.isFence
  isFenceI := a.isFenceI
  isMret := a.isMret
  isSret := a.isSret
  isSfenceVma := a.isSfenceVma
  isEcall := a.isEcall
  isWfi := a.isWfi
  isFused := a.isFused
  isFpInstr := a.isFpInstr
  branchTaken := false
  branchTarget := 0
  branchTakenTarget := 0
  branchMispredict := false
  csrAddr := 0
  csrWdata := 0
  csrWe := false
  csrOp := 0
  fpFflags := 0

/-- A CDB slot completes the entry; `old` is the entry before the cycle. -/
def complete (old : RobEntry) (p : CdbPort) (e : RobEntry) : RobEntry :=
  let e := { e with ready := true }
  let e := if p.hasException then { e with hasExc := true, excCode := p.excCode, excTval := 0 }
    else e
  -- A mispredict mark that is already there stays.
  let e := if old.branchMispredict then e
    else { e with
      branchTaken := p.branchTaken, branchTarget := p.branchTarget
      branchTakenTarget := p.branchTakenTarget, branchMispredict := p.branchMispredict }
  let e := { e with
    csrWe := p.csrWe, csrAddr := p.csrAddr, csrWdata := p.csrWdata, csrOp := p.csrOp }
  if p.fpFflagsValid then { e with fpFflags := old.fpFflags ||| p.fpFflags } else e

def completeLoad (p : LoadPort) (e : RobEntry) : RobEntry :=
  let e := { e with ready := true }
  if p.hasException then { e with hasExc := true, excCode := p.excCode, excTval := 0 } else e

def completeSta (both : Bool) (e : RobEntry) : RobEntry :=
  { e with storeAddrDone := true, ready := if both then true else e.ready }

def completeStd (both : Bool) (e : RobEntry) : RobEntry :=
  { e with storeDataDone := true, ready := if both then true else e.ready }

def markException (code : BitVec 4) (tval : BitVec 64) (e : RobEntry) : RobEntry :=
  { e with ready := true, hasExc := true, excCode := code, excTval := tval }

-- ---------------------------------------------------------------------
-- The cycle
-- ---------------------------------------------------------------------

def inFlushRange (s : Rob) (x : RobIn) (i : RobIdx) : Bool := inRange x.flushRobTail s.tail i

def sidebandFire (s : Rob) (x : RobIn) : Bool :=
  let conflict := (List.range pipeWidth).any fun i =>
    decide (i < x.allocCount) && s.allocIdx i == x.sidebandIdx
  let notFlushed := !x.flushValid || (!x.flushFull && !s.inFlushRange x x.sidebandIdx)
  x.sidebandValid && (s.entry x.sidebandIdx).valid && !conflict && notFlushed

/-- The completion ports, in the order in which the source writes them, as they act on entry `i`. -/
def completions (s : Rob) (x : RobIn) (i : RobIdx) (e : RobEntry) : RobEntry :=
  let old := s.entry i
  let e := (List.range cdbWidth).foldl
    (fun e w => if (x.wb w).valid && (x.wb w).idx == i then complete old (x.wb w) e else e) e
  let e := if x.staValid && x.staIdx == i then
      completeSta (old.storeDataDone || (x.stdValid && x.stdIdx == x.staIdx)) e else e
  let e := if x.stdValid && x.stdIdx == i then
      completeStd (old.storeAddrDone || (x.staValid && x.staIdx == x.stdIdx)) e else e
  let e := (List.range loadPorts).foldl
    (fun e lw =>
      if (x.loadWb lw).valid && (x.loadWb lw).idx == i then completeLoad (x.loadWb lw) e else e) e
  let e := if s.sidebandFire x && x.sidebandIdx == i then
      markException x.sidebandCode x.sidebandTval e else e
  if violates x i then markException excInternalReplay 0 e else e

def retiring (s : Rob) (x : RobIn) (i : RobIdx) : Bool :=
  (List.range pipeWidth).any fun k => decide (k < x.commitCount) && s.headIdx k == i

/-- The branch just before the restored tail, which recovery has resolved. -/
def flushPrevIdx (x : RobIn) : RobIdx :=
  if x.flushRobTail = 0 then 127 else x.flushRobTail - 1

def clearsMispredict (s : Rob) (x : RobIn) (i : RobIdx) : Bool :=
  x.flushClearBranchMispredict && (s.entry i).valid && (s.entry i).isBranch && flushPrevIdx x == i

def maxValid (s : Rob) (x : RobIn) : BitVec 8 := s.count - BitVec.ofNat 8 x.commitCount

/-- Entries from the next head to the restored tail, by pointer difference. -/
def rawCount (s : Rob) (x : RobIn) : BitVec 8 :=
  let nh := s.nextHead x
  if nh ≤ x.flushRobTail then x.flushRobTail.setWidth 8 - nh.setWidth 8
  else 128#8 - nh.setWidth 8 + x.flushRobTail.setWidth 8

def partialFlush (s : Rob) (x : RobIn) : Rob where
  tail := x.flushRobTail
  -- More entries than there were: the head has moved past the restored tail.
  head := if s.rawCount x ≤ s.maxValid x then s.nextHead x else x.flushRobTail
  count := if s.rawCount x ≤ s.maxValid x then s.rawCount x else 0
  entry i :=
    let e := s.entry i
    let e := if s.inFlushRange x i then squash e else e
    let e := if s.retiring x i then retire e else e
    let e := s.completions x i e
    if s.clearsMispredict x i then { e with ready := true, branchMispredict := false } else e

/-- The slot that allocates entry `i`, if one does. -/
def allocating (s : Rob) (x : RobIn) (i : RobIdx) : Option Nat :=
  (List.range pipeWidth).find? fun k => decide (k < x.allocCount) && s.allocIdx k == i

def normal (s : Rob) (x : RobIn) : Rob where
  tail := s.nextTail x
  head := s.nextHead x
  count := s.count + BitVec.ofNat 8 x.allocCount - BitVec.ofNat 8 x.commitCount
  entry i :=
    let e := match s.allocating x i with
      | some k => allocated (x.alloc k)
      | none => s.entry i
    let e := s.completions x i e
    if s.retiring x i then retire e else e

def next (s : Rob) (x : RobIn) : Rob :=
  if x.flushValid && x.flushFull then ⟨0, 0, 0, fun i => flushed (s.entry i)⟩
  else if x.flushValid then s.partialFlush x
  else s.normal x

def reset : Rob := ⟨0, 0, 0, fun _ => .empty⟩

end Rob

end Rv64gc.Backend
