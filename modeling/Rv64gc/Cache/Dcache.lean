import Rv64gc.Hdl.Machine
import Rv64gc.Hdl.Select

/-!
# The data cache

`dcache.sv` without its data: the tags, the miss registers, the lookups of two load ports, a store
port and a prefetch probe, the installs, and the write-through queue and the L2 port as far as they
hold an install back. A lookup reads the tags at the end of its first cycle and compares them in its
second one; a write of the same edge is seen.
-/

namespace Rv64gc.L1d

open Hdl

abbrev Line := BitVec 58
abbrev SetIndex := BitVec 8
abbrev Tag := BitVec 50
abbrev Way := Fin 4
abbrev MshrIdx := Fin 16

def lineOf (addr : BitVec 64) : Line := addr.extractLsb' 6 58

def indexOf (line : Line) : SetIndex := line.extractLsb' 0 8

def tagOf (line : Line) : Tag := line.extractLsb' 8 50

structure TagEntry where
  valid : Bool
  dirty : Bool
  tag : Tag

structure StoreReq where
  addr : BitVec 64
  data : BitVec 64
  byteMask : BitVec 8
deriving DecidableEq

structure Inputs where
  load0 : Option (BitVec 64)
  load1 : Option (BitVec 64)
  store : Option StoreReq
  storeIsPtw : Bool
  storeNext : Option StoreReq
  l2Ready : Bool
  l2Resp : Option Line
  prefetch : Option Line
  invalidateAll : Bool

/-- A store in the second stage, with the port its tags were read through. -/
structure StoreS1 where
  req : StoreReq
  isPtw : Bool
  usePortB : Bool

structure Mshr where
  valid : Bool
  line : Line
  writebackPend : Bool
  fillPend : Bool
  fillDone : Bool
  storePending : Bool
  storeLineMask : BitVec 64
  nwaPending : Bool
  nwaWtOwed : Bool
  nwaIdleCnt : BitVec 7
  isPf : Bool
  victim : Way

inductive L2State where
  | idle
  | writeback
  | fillReq
  | fillWait
deriving DecidableEq

structure Dcache where
  tags : SetIndex → Way → TagEntry
  outA : Way → TagEntry
  outB : Way → TagEntry
  ld0 : Option (BitVec 64)
  ld1 : Option (BitVec 64)
  st : Option StoreS1
  pf : Option Line
  plru : SetIndex → BitVec 3
  mshr : MshrIdx → Mshr
  l2State : L2State
  l2Active : MshrIdx
  wtHead : BitVec 2
  wtTail : BitVec 2
  wtCount : Nat
  wtLine : BitVec 2 → Line

/-- `DPF_MSHR_RESERVE` and `DPF_FILL_BACKLOG_GATE` -/
def dpfMshrReserve : Nat := 6
def dpfFillBacklogGate : Nat := 16

namespace Dcache

def reset : Dcache where
  tags _ _ := ⟨false, false, 0⟩
  outA _ := ⟨false, false, 0⟩
  outB _ := ⟨false, false, 0⟩
  ld0 := none
  ld1 := none
  st := none
  pf := none
  plru _ := 0
  mshr _ := ⟨false, 0, false, false, false, false, 0, false, false, 0, false, 0⟩
  l2State := .idle
  l2Active := 0
  wtHead := 0
  wtTail := 0
  wtCount := 0
  wtLine _ := 0

-- ---------------------------------------------------------------------
-- Lookups
-- ---------------------------------------------------------------------

/-- The way that hits; the last one if there are several. -/
def wayHit (out : Way → TagEntry) (line : Line) : Option Way :=
  lastOf fun w => (out w).valid && (out w).tag == tagOf line

variable (s : Dcache) (i : Inputs)

def ld0Line : Option Line := s.ld0.map lineOf
def ld1Line : Option Line := s.ld1.map lineOf
def stLine : Option Line := s.st.map fun st => lineOf st.req.addr

def stOut : Way → TagEntry := if s.st.any StoreS1.usePortB then s.outB else s.outA

def ld0Hit : Option Way := s.ld0Line.bind (wayHit s.outA)
def ld1Hit : Option Way := s.ld1Line.bind (wayHit s.outB)
def stHit : Option Way := s.stLine.bind (wayHit s.stOut)
def pfHit : Option Way := s.pf.bind (wayHit s.outB)

def mshrMatch (line : Line) : Option MshrIdx :=
  lastOf fun m => (s.mshr m).valid && (s.mshr m).line == line

def mshrFree : Option MshrIdx := firstOf fun m => !(s.mshr m).valid

def mshrOcc : Nat := (List.finRange 16).countP fun m => (s.mshr m).valid

def fillBacklog : Nat := (List.finRange 16).countP fun m =>
  (s.mshr m).valid && (s.mshr m).fillPend && !(s.mshr m).writebackPend && !(s.mshr m).isPf

/-- The victim of a set by its PLRU tree. -/
def victimWay (set : SetIndex) : Way :=
  let p := s.plru set
  if p.getLsbD 2 then (if p.getLsbD 0 then 2 else 3) else if p.getLsbD 1 then 0 else 1

/-- The tree of a set after a use of the way. -/
def touched (set : SetIndex) (w : Way) : BitVec 3 :=
  let p := s.plru set
  match w with
  | 0 => BitVec.ofBool true ++ BitVec.ofBool true ++ BitVec.ofBool (p.getLsbD 0)
  | 1 => BitVec.ofBool true ++ BitVec.ofBool false ++ BitVec.ofBool (p.getLsbD 0)
  | 2 => BitVec.ofBool false ++ BitVec.ofBool (p.getLsbD 1) ++ BitVec.ofBool true
  | 3 => BitVec.ofBool false ++ BitVec.ofBool (p.getLsbD 1) ++ BitVec.ofBool false

-- ---------------------------------------------------------------------
-- Installs
-- ---------------------------------------------------------------------

/-- `nwa_wt_room` -/
def wtRoom : Bool := decide (s.wtCount < 4)

def fillDoneIdx : Option MshrIdx := firstOf fun m =>
  (s.mshr m).valid && (s.mshr m).fillDone && (!(s.mshr m).nwaWtOwed || s.wtRoom)

/-- A line that stores have written in full is installed without a fill. -/
def nwaValidateIdx : Option MshrIdx :=
  if s.wtRoom && s.fillDoneIdx.isNone then
    firstOf fun m => (s.mshr m).valid && (s.mshr m).nwaPending &&
      (s.mshr m).storeLineMask == BitVec.allOnes 64 && !(s.mshr m).writebackPend
  else none

/-- The entry whose line is written to the RAMs. -/
def installIdx : Option MshrIdx := s.fillDoneIdx.or s.nwaValidateIdx

def nwaUpgradeIdx : Option MshrIdx := firstOf fun m =>
  (s.mshr m).valid && (s.mshr m).nwaPending && (s.mshr m).storeLineMask != BitVec.allOnes 64

/-- `tr_we` with its address and data. -/
def tagWrite : Option (SetIndex × Way × TagEntry) :=
  s.installIdx.map fun m =>
    (indexOf (s.mshr m).line, (s.mshr m).victim, ⟨true, false, tagOf (s.mshr m).line⟩)

/-- The bytes of the line that the store writes. -/
def stFullMask (st : StoreS1) : BitVec 64 :=
  st.req.byteMask.setWidth 64 <<< (st.req.addr.extractLsb' 0 6).toNat

/-- A store to the line that is being installed writes into it. -/
def fillDoneStoreMerge : Bool :=
  !i.invalidateAll && s.fillDoneIdx.any fun m => s.stLine == some (s.mshr m).line

-- ---------------------------------------------------------------------
-- Allocation
-- ---------------------------------------------------------------------

/-- A lookup that neither hits nor finds its line on the way. -/
def newMiss (line : Option Line) (hit : Option Way) : Bool :=
  !i.invalidateAll && hit.isNone && line.any fun l => (s.mshrMatch l).isNone

/-- A lookup that does not hit and finds its line on the way. -/
def missMerge (line : Option Line) (hit : Option Way) : Option MshrIdx :=
  if !i.invalidateAll && hit.isNone then line.bind s.mshrMatch else none

def ld0NewMissReq : Bool := s.newMiss i s.ld0Line s.ld0Hit
def ld1NewMissReq : Bool := s.newMiss i s.ld1Line s.ld1Hit

def ld0MissAllocSel : Bool := s.ld0NewMissReq i && s.mshrFree.isSome
def ld1MissAllocSel : Bool :=
  !s.ld0MissAllocSel i && s.ld1NewMissReq i && s.mshrFree.isSome

def stCanAllocateMshr : Bool :=
  s.newMiss i s.stLine s.stHit && s.mshrFree.isSome && s.fillDoneIdx.isNone

def pfFillAllocSel : Bool :=
  s.newMiss i s.pf s.pfHit && s.mshrFree.isSome && decide (s.mshrOcc < dpfMshrReserve) &&
    decide (s.fillBacklog < dpfFillBacklogGate) && !s.ld0MissAllocSel i && !s.ld1MissAllocSel i &&
    !s.stCanAllocateMshr i

def allocOf (old : Mshr) (line : Line) (out : Way → TagEntry) (isPf : Bool) : Mshr :=
  { old with
    valid := true, isPf := isPf, line := line, victim := s.victimWay (indexOf line)
    fillPend := true, fillDone := false, storePending := false, storeLineMask := 0
    nwaPending := false, nwaWtOwed := false
    writebackPend := (out (s.victimWay (indexOf line))).dirty }

/-- What the one free entry becomes: loads come first, then the store, then the prefetch. -/
def allocated (old : Mshr) : Option Mshr :=
  if s.ld0MissAllocSel i then s.ld0Line.map fun l => s.allocOf old l s.outA false
  else if s.ld1MissAllocSel i then s.ld1Line.map fun l => s.allocOf old l s.outB false
  else if s.stCanAllocateMshr i then
    s.st.map fun st =>
      -- A store of the page-table walker is not deferred.
      { s.allocOf old (lineOf st.req.addr) s.stOut false with
        fillPend := st.isPtw, nwaPending := !st.isPtw, nwaWtOwed := !st.isPtw, nwaIdleCnt := 0
        storePending := true, storeLineMask := stFullMask st }
  else if s.pfFillAllocSel i then s.pf.map fun l => s.allocOf old l s.outB true
  else none

-- ---------------------------------------------------------------------
-- Stores
-- ---------------------------------------------------------------------

def stMerge : Option MshrIdx :=
  if s.fillDoneIdx.isNone then
    (s.missMerge i s.stLine s.stHit).filter fun m =>
      !((s.mshr m).nwaPending && (s.mshr m).storeLineMask == BitVec.allOnes 64)
  else none

/-- A store that misses is taken into an entry without a fill. -/
def nwaStoreAccept : Bool :=
  s.st.any (fun st => !st.isPtw) && s.stHit.isNone && !i.invalidateAll && s.fillDoneIdx.isNone &&
    (s.stCanAllocateMshr i && !s.ld0MissAllocSel i && !s.ld1MissAllocSel i ||
      (s.missMerge i s.stLine s.stHit).any fun m =>
        (s.mshr m).nwaPending && (s.mshr m).storeLineMask != BitVec.allOnes 64)

def storeProducesWt : Bool :=
  s.st.isSome && (s.fillDoneStoreMerge i ||
    s.fillDoneIdx.isNone && s.nwaValidateIdx.isNone && !i.invalidateAll && s.stHit.isSome)

/-- The line that an install owes to L2. -/
def nwaInstWt : Option Line :=
  match s.nwaValidateIdx with
  | some m => some (s.mshr m).line
  | none =>
    match s.fillDoneIdx with
    | some m => if (s.mshr m).nwaWtOwed then some (s.mshr m).line else none
    | none => none

def wtEnqLine : Line :=
  match s.nwaInstWt with
  | some l => l
  | none =>
    if s.fillDoneStoreMerge i then (s.fillDoneIdx.map fun m => (s.mshr m).line).getD 0
    else s.stLine.getD 0

def wtDeqFire : Bool := s.l2State == .idle && decide (s.wtCount ≠ 0) && i.l2Ready

def wtMergeReady : Bool :=
  decide (s.wtCount ≠ 0) && !(s.wtDeqFire i && decide (s.wtCount = 1)) &&
    s.wtLine (s.wtTail - 1) == s.wtEnqLine i

def wtEnqReady : Bool := s.wtMergeReady i || decide (s.wtCount < 4) || s.wtDeqFire i

def storeAckS1 : Bool :=
  s.storeProducesWt i && s.wtEnqReady i && s.nwaInstWt.isNone || s.nwaStoreAccept i

def wtEnqValid : Bool := s.nwaInstWt.isSome || s.storeProducesWt i && s.wtEnqReady i

def wtPushFire : Bool := s.wtEnqValid i && !s.wtMergeReady i

def storeAckMatchesHead : Bool := s.storeAckS1 i && i.store.isSome && i.store == s.st.map StoreS1.req

-- ---------------------------------------------------------------------
-- The first stage
-- ---------------------------------------------------------------------

def s0StBypass : Bool := s.storeAckMatchesHead i && i.storeNext.isSome

/-- The store that is looked up: the next one when the head is acknowledged. -/
def s0Store : Option StoreReq := if s.s0StBypass i then i.storeNext else i.store

def grantA : Bool := (s.s0Store i).isSome && i.load0.isNone

def grantB : Bool := (s.s0Store i).isSome && i.load0.isSome && i.load1.isNone

/-- The prefetch probe takes port B when nobody else does. -/
def pfProbe (prefetchEnable : Bool) : Option Line :=
  if prefetchEnable && i.load1.isNone && !s.grantB i then i.prefetch else none

/-- The set that port A reads. -/
def raddrA : SetIndex :=
  match i.load0 with
  | some a => indexOf (lineOf a)
  | none => ((s.s0Store i).map fun st => indexOf (lineOf st.addr)).getD 0

def raddrB (prefetchEnable : Bool) : SetIndex :=
  match i.load1 with
  | some a => indexOf (lineOf a)
  | none =>
    if s.grantB i then ((s.s0Store i).map fun st => indexOf (lineOf st.addr)).getD 0
    else ((s.pfProbe i prefetchEnable).map indexOf).getD 0

/-- A synchronous read: a write of the same edge passes it, an invalidation does not. -/
def readOut (set : SetIndex) (w : Way) : TagEntry :=
  match s.tagWrite with
  | some (set', w', e) => if set' = set ∧ w' = w then e else s.tags set w
  | none => s.tags set w

-- ---------------------------------------------------------------------
-- The next state
-- ---------------------------------------------------------------------

def nextTags (set : SetIndex) (w : Way) : TagEntry :=
  if i.invalidateAll then { s.tags set w with valid := false, dirty := false }
  else s.readOut set w

def nextPlru (set : SetIndex) : BitVec 3 :=
  if i.invalidateAll then s.plru set
  else
    match s.ld0Line, s.ld0Hit with
    | some l, some w => if set = indexOf l then s.touched set w else s.plru set
    | _, _ =>
      match s.installIdx with
      | some m =>
        if set = indexOf (s.mshr m).line then s.touched set (s.mshr m).victim else s.plru set
      | none => s.plru set

/-- A deferred entry goes on as a fill. -/
def upgrade (e : Mshr) : Mshr := { e with fillPend := true, nwaPending := false }

/-- The entry a load finds that stores have not written in full. -/
def loadUpgrade (line : Option Line) (hit : Option Way) : Option MshrIdx :=
  (s.missMerge i line hit).filter fun m =>
    (s.mshr m).nwaPending && (s.mshr m).storeLineMask != BitVec.allOnes 64

def pressureUpgrade : Option MshrIdx :=
  if s.mshrFree.isNone &&
      (s.ld0NewMissReq i || s.ld1NewMissReq i || s.newMiss i s.stLine s.stHit) then
    s.nwaUpgradeIdx
  else none

def ptwUpgrade : Option MshrIdx :=
  if s.st.any StoreS1.isPtw then
    (s.missMerge i s.stLine s.stHit).filter fun m => (s.mshr m).nwaPending
  else none

def idleUpgrade : Option MshrIdx := firstOf fun m =>
  (s.mshr m).valid && (s.mshr m).nwaPending && decide (64#7 ≤ (s.mshr m).nwaIdleCnt)

/-- The entry upgrades if one of the reasons names it. -/
def upgrades (m : MshrIdx) : Bool :=
  s.loadUpgrade i s.ld0Line s.ld0Hit == some m || s.loadUpgrade i s.ld1Line s.ld1Hit == some m ||
    s.pressureUpgrade i == some m || s.ptwUpgrade i == some m || s.idleUpgrade == some m

/-- Every assignment reads the old entry, and a later one wins. -/
def nextMshr (m : MshrIdx) : Mshr :=
  let old := s.mshr m
  let e := if s.mshrFree = some m then (s.allocated i old).getD old else old
  let e := if s.stMerge i = some m then
    { e with
      storePending := true
      storeLineMask := old.storeLineMask ||| (s.st.map stFullMask).getD 0 }
  else e
  let e := if s.nwaValidateIdx = some m then
    { e with valid := false, nwaPending := false, nwaWtOwed := false } else e
  let e := if s.upgrades i m then upgrade e else e
  let e := if old.valid && old.nwaPending && s.idleUpgrade != some m then
    { e with nwaIdleCnt := old.nwaIdleCnt + 1 } else e
  let e := if old.valid && old.fillPend && i.l2Resp == some old.line then
    { e with fillPend := false, fillDone := true } else e
  let e := if s.l2State = .writeback ∧ i.l2Ready = true ∧ s.l2Active = m then
    { e with writebackPend := false } else e
  if s.fillDoneIdx = some m then { e with fillDone := false, valid := false } else e

def wbIdx : Option MshrIdx := firstOf fun m => (s.mshr m).valid && (s.mshr m).writebackPend

def fillIdx : Option MshrIdx := firstOf fun m =>
  (s.mshr m).valid && (s.mshr m).fillPend && !(s.mshr m).writebackPend

def nextL2 : L2State × MshrIdx :=
  match s.l2State with
  | .idle =>
    if s.wtCount ≠ 0 then (.idle, s.l2Active)
    else
      match s.wbIdx, s.fillIdx with
      | some m, _ => (.writeback, m)
      | none, some m => (.fillReq, m)
      | none, none => (.idle, s.l2Active)
  | .writeback => (if i.l2Ready then .fillReq else .writeback, s.l2Active)
  | .fillReq => (if i.l2Ready then .fillWait else .fillReq, s.l2Active)
  | .fillWait =>
    (if i.l2Resp == some (s.mshr s.l2Active).line then .idle else .fillWait, s.l2Active)

def next (prefetchEnable : Bool) : Dcache where
  tags := s.nextTags i
  outA := s.readOut (s.raddrA i)
  outB := s.readOut (s.raddrB i prefetchEnable)
  ld0 := i.load0
  ld1 := i.load1
  st :=
    if (s.grantA i || s.grantB i) && (s.s0StBypass i || !s.storeAckMatchesHead i) then
      (s.s0Store i).map fun req => ⟨req, i.storeIsPtw && !s.s0StBypass i, s.grantB i⟩
    else none
  pf := s.pfProbe i prefetchEnable
  plru := s.nextPlru i
  mshr := s.nextMshr i
  l2State := (s.nextL2 i).1
  l2Active := (s.nextL2 i).2
  wtHead := if s.wtDeqFire i then s.wtHead + 1 else s.wtHead
  wtTail := if s.wtPushFire i then s.wtTail + 1 else s.wtTail
  wtCount := s.wtCount + (if s.wtPushFire i then 1 else 0) - if s.wtDeqFire i then 1 else 0
  wtLine k := if s.wtPushFire i && k == s.wtTail then s.wtEnqLine i else s.wtLine k

end Dcache

def dcacheRuns (prefetchEnable : Bool) : Machine Dcache Inputs where
  reset := .reset
  next s i := s.next i prefetchEnable
  legal _ _ := True

end Rv64gc.L1d
