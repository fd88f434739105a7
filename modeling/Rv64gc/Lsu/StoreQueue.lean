import Rv64gc.Backend.ProgramWindow

/-!
# The store queue

`store_queue.sv`: a ring of 32 stores. Entries come at the tail in program order, the commit pointer
marks them as they retire, and the head drains the marked ones into the committed store buffer.
Address and data are filled in by index, whenever they come.
-/

namespace Rv64gc.Lsu

open Hdl Backend

abbrev SqIdx := BitVec 5

structure SqEntry where
  valid : Bool
  robIdx : RobIdx
  addr : BitVec 64
  addrValid : Bool
  data : BitVec 64
  dataValid : Bool
  byteMask : BitVec 8
  size : BitVec 2
  committed : Bool
deriving DecidableEq

def SqEntry.empty : SqEntry := ⟨false, 0, 0, false, 0, false, 0, 0, false⟩

structure StaFill where
  idx : SqIdx
  robIdx : RobIdx
  addr : BitVec 64
  size : BitVec 2

structure StdFill where
  idx : SqIdx
  robIdx : RobIdx
  data : BitVec 64
  byteMask : BitVec 8

/-- `flush_valid`, with what comes with it. -/
structure FlushIn where
  full : Bool
  robTail : RobIdx

structure SqIn where
  /-- `alloc_rob_idx` of the `alloc_count` new entries -/
  alloc : List RobIdx
  sta : Option StaFill
  std : Option StdFill
  commitCount : Nat
  drainReady : Bool
  robHead : RobIdx
  flush : Option FlushIn

structure StoreQueue where
  ring : Fifo 5 SqEntry
  commitPtr : SqIdx

namespace StoreQueue

variable (s : StoreQueue) (x : SqIn)

def reset : StoreQueue := ⟨⟨0, 0, 0, fun _ => .empty⟩, 0⟩

/-- Not enough space for four. -/
def full : Bool := decide (32 - pipeWidth + 1 ≤ s.ring.count)

def drainValid : Bool :=
  let e := s.ring.slot s.ring.head
  e.valid && e.committed && e.addrValid && e.dataValid

/-- `drain_fire_c` -/
def drainFire : Bool := s.drainValid && x.drainReady

/-- `sta_fill_accept`: the entry is still that of the store. -/
def staAccept (j : SqIdx) : Option StaFill :=
  x.sta.filter fun f => f.idx == j && (s.ring.slot j).valid && (s.ring.slot j).robIdx == f.robIdx

/-- `std_fill_accept` -/
def stdAccept (j : SqIdx) : Option StdFill :=
  x.std.filter fun f => f.idx == j && (s.ring.slot j).valid && (s.ring.slot j).robIdx == f.robIdx

def fill (j : SqIdx) (e : SqEntry) : SqEntry :=
  let e := match s.staAccept x j with
    | some f => { e with addr := f.addr, size := f.size, addrValid := true }
    | none => e
  match s.stdAccept x j with
  | some f => { e with data := f.data, byteMask := f.byteMask, dataValid := true }
  | none => e

/-- `flush_newly_committed` -/
def newlyCommitted (j : SqIdx) : Bool := decide (offset s.commitPtr j < x.commitCount)

def committedAfter (j : SqIdx) : Bool := (s.ring.slot j).committed || s.newlyCommitted x j

def mark (j : SqIdx) (e : SqEntry) : SqEntry :=
  if s.newlyCommitted x j then { e with committed := true } else e

-- ---------------------------------------------------------------------
-- A flush
-- ---------------------------------------------------------------------

def drained : Nat := if s.drainFire x then 1 else 0

/-- What a flush keeps of the entries it scans. -/
def keepTest (f : FlushIn) (j : SqIdx) : Bool :=
  (s.ring.slot j).valid && (s.committedAfter x j ||
    !f.full && olderThanTail x.robHead f.robTail (s.ring.slot j).robIdx)

/-- `partial_flush_keep` and `full_flush_keep` -/
def flushKeep (f : FlushIn) (j : SqIdx) : Bool :=
  s.ring.scanned (s.drained x) (s.keepTest x f) j

def flushed (f : FlushIn) : StoreQueue where
  ring := s.ring.cut (s.drained x) (s.keepTest x f) (fun j =>
    let e := s.mark x j (s.ring.slot j)
    if f.full then e else s.fill x j e) .empty
  commitPtr :=
    if f.full then
      slotAt (slotAt s.ring.head (s.drained x)) (s.ring.scanCount (s.drained x) (s.keepTest x f))
    else slotAt s.commitPtr x.commitCount

-- ---------------------------------------------------------------------
-- A cycle
-- ---------------------------------------------------------------------

/-- The slot when the head drains, the stores that retire are marked and the fills come. -/
def updated (j : SqIdx) : SqEntry :=
  let e := s.ring.slot j
  let e :=
    if s.drainFire x && j == s.ring.head then { e with valid := false, committed := false } else e
  s.fill x j (s.mark x j e)

/-- The slot of a new entry; what else it held stays. -/
def place (r : Option RobIdx) (e : SqEntry) : SqEntry :=
  match r with
  | some r =>
    { e with valid := true, robIdx := r, addrValid := false, dataValid := false, committed := false }
  | none => e

def normal : StoreQueue where
  ring := s.ring.turn (s.drained x) x.alloc.length fun j =>
    place x.alloc[offset s.ring.tail j]? (s.updated x j)
  commitPtr := slotAt s.commitPtr x.commitCount

def next : StoreQueue :=
  match x.flush with
  | some f => s.flushed x f
  | none => s.normal x

end StoreQueue

end Rv64gc.Lsu
