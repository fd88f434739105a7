import Rv64gc.Lsu.StoreQueue

/-!
# The load queue

`load_queue.sv`: a ring of 32 loads. Entries come at the tail in program order and leave at the head
as they retire. The two load ports fill in addresses and results by index, if the entry still is that
of the load.
-/

namespace Rv64gc.Lsu

open Hdl Backend

abbrev LqIdx := BitVec 5

structure LqEntry where
  valid : Bool
  robIdx : RobIdx
  addr : BitVec 64
  addrValid : Bool
  executed : Bool
  size : BitVec 2
  isUnsigned : Bool
  hasResult : Bool
  data : BitVec 64
deriving DecidableEq

def LqEntry.empty : LqEntry := ⟨false, 0, 0, false, false, 0, false, false, 0⟩

structure ExecFill where
  idx : LqIdx
  robIdx : RobIdx
  addr : BitVec 64
  size : BitVec 2
  isUnsigned : Bool

structure ResultFill where
  idx : LqIdx
  robIdx : RobIdx
  data : BitVec 64

structure LqIn where
  alloc : List RobIdx
  exec0 : Option ExecFill
  exec1 : Option ExecFill
  result0 : Option ResultFill
  result1 : Option ResultFill
  commitCount : Nat
  robHead : RobIdx
  flush : Option FlushIn

structure LoadQueue where
  ring : Fifo 5 LqEntry

namespace LoadQueue

variable (s : LoadQueue) (x : LqIn)

def reset : LoadQueue := ⟨⟨0, 0, 0, fun _ => .empty⟩⟩

def full : Bool := decide (32 - pipeWidth + 1 ≤ s.ring.count)

/-- `exec_owner_match` -/
def execMatch (f : Option ExecFill) (j : LqIdx) : Option ExecFill :=
  f.filter fun f => f.idx == j && (s.ring.slot j).valid && (s.ring.slot j).robIdx == f.robIdx

/-- `result0_owner_match`: the address has to be there, or to come in the same cycle. -/
def resultMatch (f : Option ResultFill) (j : LqIdx) : Option ResultFill :=
  f.filter fun f => f.idx == j && (s.ring.slot j).valid && (s.ring.slot j).robIdx == f.robIdx &&
    ((s.ring.slot j).executed || (s.execMatch x.exec0 j).isSome || (s.execMatch x.exec1 j).isSome)

def execFill (f : Option ExecFill) (e : LqEntry) : LqEntry :=
  match f with
  | some f =>
    { e with
      addr := f.addr, size := f.size, isUnsigned := f.isUnsigned, addrValid := true, executed := true }
  | none => e

def resultFill (f : Option ResultFill) (e : LqEntry) : LqEntry :=
  match f with
  | some f => { e with data := f.data, hasResult := true }
  | none => e

def fill (j : LqIdx) (e : LqEntry) : LqEntry :=
  resultFill (s.resultMatch x x.result1 j) (resultFill (s.resultMatch x x.result0 j)
    (execFill (s.execMatch x.exec1 j) (execFill (s.execMatch x.exec0 j) e)))

-- ---------------------------------------------------------------------
-- A flush
-- ---------------------------------------------------------------------

def keepTest (f : FlushIn) (j : LqIdx) : Bool :=
  (s.ring.slot j).valid && olderThanTail x.robHead f.robTail (s.ring.slot j).robIdx

def partialFlush (f : FlushIn) : LoadQueue where
  ring := s.ring.cut x.commitCount (s.keepTest x f) (fun j => s.fill x j (s.ring.slot j)) .empty

/-- All loads go; the head stays where it is. -/
def fullFlush : LoadQueue where
  ring :=
    { head := s.ring.head
      tail := s.ring.head
      count := 0
      slot j := { s.ring.slot j with valid := false, executed := false } }

-- ---------------------------------------------------------------------
-- A cycle
-- ---------------------------------------------------------------------

/-- The slot when the loads at the head retire and the fills come. -/
def updated (j : LqIdx) : LqEntry :=
  let e := s.ring.slot j
  let e := if decide (offset s.ring.head j < x.commitCount) then { e with valid := false } else e
  s.fill x j e

def place (r : Option RobIdx) (e : LqEntry) : LqEntry :=
  match r with
  | some r =>
    { e with valid := true, robIdx := r, addrValid := false, executed := false, hasResult := false }
  | none => e

def normal : LoadQueue where
  ring := s.ring.turn x.commitCount x.alloc.length fun j =>
    place x.alloc[offset s.ring.tail j]? (s.updated x j)

def next : LoadQueue :=
  match x.flush with
  | some f => if f.full then s.fullFlush else s.partialFlush x f
  | none => s.normal x

end LoadQueue

end Rv64gc.Lsu
