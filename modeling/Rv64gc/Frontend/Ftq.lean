import Rv64gc.Hdl.Laps
import Rv64gc.Hdl.Machine

/-!
# The fetch target queue

`ftq` keeps the fetch blocks from their allocation to their commit in one ring of 24 slots. An entry
first waits to be requested, then for its packets to be written back, then to be committed. Entries
change state in order, so each state is a pointer and a count; the writeback owner and the commit
owner of a cycle may be entries that only enter their state in that cycle. A cancel takes the entry
after the writeback owner back, and the entry allocated with it gets its slot.
-/

namespace Rv64gc.Frontend

variable {α : Type}

structure FtqIn (α : Type) where
  flush : Bool
  /-- `enq_entry`, when `enq_valid` -/
  enq : Option α
  ifuReqPop : Bool
  ifuCancelNext : Bool
  deliveryPush : Bool
  pop : Bool
  commitPop : Bool

structure Ftq (α : Type) where
  mem : Fin 24 → α
  tagMem : Fin 24 → BitVec 16
  ifuReqPtr : Fin 24
  ifuWbPtr : Fin 24
  commitPtr : Fin 24
  wrPtr : Fin 24
  countAllocToIfu : Nat
  countIfuToWb : Nat
  countWbToCommit : Nat
  epoch : BitVec 4
  allocTag : BitVec 16

/-- An entry as the queue presents it. -/
structure FtqOwner (α : Type) where
  idx : Fin 24
  epoch : BitVec 4
  tag : BitVec 16
  entry : α
deriving DecidableEq

namespace Ftq

def reset [Inhabited α] : Ftq α := ⟨fun _ => default, fun _ => 0, 0, 0, 0, 0, 0, 0, 0, 0, 0⟩

def ptrNext (ptr : Fin 24) : Fin 24 := if ptr = 23 then 0 else ptr + 1

variable (f : Ftq α) (i : FtqIn α)

-- ---------------------------------------------------------------------
-- What fires
-- ---------------------------------------------------------------------

def totalCount : Nat := f.countAllocToIfu + f.countIfuToWb + f.countWbToCommit

def full : Bool := decide (24 ≤ f.totalCount)

def ifuOwnerValid : Bool := decide (f.countAllocToIfu ≠ 0)

/-- `ifu_cancel_next_possible_c` -/
def cancelNextPossible : Bool := !i.flush && i.ifuCancelNext && decide (1 < f.countIfuToWb)

def enqReady : Bool := i.flush || !f.full || f.cancelNextPossible i

/-- `enq_idx_c` -/
def enqIdx : Fin 24 :=
  if f.cancelNextPossible i && i.enq.isSome then ptrNext f.ifuWbPtr else f.wrPtr

def enqFire : Bool := i.enq.isSome && f.enqReady i

def reqPopExisting : Bool := !i.flush && i.ifuReqPop && f.ifuOwnerValid

def reqPopFromEnq : Bool := !i.flush && i.ifuReqPop && !f.ifuOwnerValid && f.enqFire i

def reqPopFire : Bool := f.reqPopExisting i || f.reqPopFromEnq i

def cancelNextFire : Bool := f.cancelNextPossible i && i.enq.isSome

def enqReplaceNext : Bool := f.enqFire i && f.cancelNextFire i

def wbPopFire : Bool := !i.flush && i.pop && (decide (f.countIfuToWb ≠ 0) || f.reqPopExisting i)

def wbOwnerValid : Bool := decide (f.countIfuToWb ≠ 0) || f.reqPopFire i

def deliveryPushFire : Bool := !i.flush && i.deliveryPush && f.wbOwnerValid i

def commitOwnerValid : Bool := decide (f.countWbToCommit ≠ 0) || f.deliveryPushFire i

def commitPopFire : Bool := !i.flush && i.commitPop && f.commitOwnerValid i

-- ---------------------------------------------------------------------
-- What is presented
-- ---------------------------------------------------------------------

def reqPopIdx : Fin 24 := if f.reqPopFromEnq i then f.enqIdx i else f.ifuReqPtr

def wbOwnerIdx : Fin 24 := if f.countIfuToWb ≠ 0 then f.ifuWbPtr else f.reqPopIdx i

def commitOwnerIdx : Fin 24 := if f.countWbToCommit ≠ 0 then f.commitPtr else f.wbOwnerIdx i

/-- The entry a slot holds. -/
def stored (idx : Fin 24) : FtqOwner α := ⟨idx, f.epoch, f.tagMem idx, f.mem idx⟩

/-- What the requester of a new entry is told: `enq_idx`, `enq_epoch` and `enq_tag`. -/
def enqOwner : Option (FtqOwner α) :=
  i.enq.map fun e =>
    ⟨if i.flush then 0 else f.enqIdx i, if i.flush then f.epoch + 1 else f.epoch, f.allocTag, e⟩

/-- `ifu_req_pop_*_c` -/
def reqPopOwner : Option (FtqOwner α) :=
  if f.reqPopFromEnq i then i.enq.map fun e => ⟨f.reqPopIdx i, f.epoch, f.allocTag, e⟩
  else if f.ifuOwnerValid then some (f.stored f.ifuReqPtr) else none

/-- `ifu_wb_owner_*` with `current_epoch`, when `ifu_wb_owner_valid` -/
def wbOwner : Option (FtqOwner α) :=
  if !f.wbOwnerValid i then none
  else if f.countIfuToWb ≠ 0 then some (f.stored (f.wbOwnerIdx i))
  else f.reqPopOwner i

/-- `commit_owner_*` with `current_epoch`, when `commit_owner_valid` -/
def commitOwner : Option (FtqOwner α) :=
  if f.commitOwnerValid i then some (f.stored (f.commitOwnerIdx i)) else none

/-- `next_ifu_owner_*` with `current_epoch`, when `next_ifu_owner_valid` -/
def nextOwner : Option (FtqOwner α) :=
  if 1 < f.countIfuToWb then
    if f.cancelNextFire i && !f.enqReplaceNext i then
      if 2 < f.countIfuToWb then some (f.stored (ptrNext (ptrNext f.ifuWbPtr))) else none
    else some (f.stored (ptrNext f.ifuWbPtr))
  else none

-- ---------------------------------------------------------------------
-- Next state
-- ---------------------------------------------------------------------

def nextCountAllocToIfu : Nat :=
  if i.flush then (f.enqFire i).toNat
  else f.countAllocToIfu + (f.enqFire i).toNat - (f.reqPopFire i).toNat

def nextCountIfuToWb : Nat :=
  if i.flush then 0
  else f.countIfuToWb + (f.reqPopFire i).toNat - (f.wbPopFire i).toNat - (f.cancelNextFire i).toNat

def nextCountWbToCommit : Nat :=
  if i.flush then 0
  else f.countWbToCommit + (f.deliveryPushFire i).toNat - (f.commitPopFire i).toNat

def nextIfuReqPtr : Fin 24 :=
  if i.flush then 0
  else if f.reqPopExisting i then
    if 1 < f.countAllocToIfu then ptrNext f.ifuReqPtr
    else if f.enqFire i then f.enqIdx i
    else ptrNext f.ifuReqPtr
  else if f.reqPopFromEnq i then ptrNext (f.enqIdx i)
  else if f.countAllocToIfu = 0 ∧ f.enqFire i then f.enqIdx i
  else f.ifuReqPtr

def nextIfuWbPtr : Fin 24 :=
  if i.flush then 0
  else if f.wbPopFire i then
    if f.cancelNextFire i ∧ 2 < f.countIfuToWb then ptrNext (ptrNext f.ifuWbPtr)
    else if f.cancelNextFire i ∧ f.reqPopFire i then f.reqPopIdx i
    else if f.cancelNextFire i then ptrNext (ptrNext f.ifuWbPtr)
    else if 1 < f.countIfuToWb then ptrNext f.ifuWbPtr
    else if f.reqPopFire i then f.reqPopIdx i
    else ptrNext f.ifuWbPtr
  else if f.cancelNextFire i then f.ifuWbPtr
  else if f.countIfuToWb = 0 ∧ f.reqPopFire i then f.reqPopIdx i
  else f.ifuWbPtr

def nextCommitPtr : Fin 24 :=
  if i.flush then 0
  else if f.commitPopFire i then
    if 1 < f.countWbToCommit then ptrNext f.commitPtr
    else if f.deliveryPushFire i then f.wbOwnerIdx i
    else ptrNext f.commitPtr
  else if f.countWbToCommit = 0 ∧ f.deliveryPushFire i then f.wbOwnerIdx i
  else f.commitPtr

/-- One slot of a memory is written, or none. -/
def put (m : Fin 24 → β) (idx : Fin 24) : Option β → Fin 24 → β
  | some v => fun k => if k = idx then v else m k
  | none => m

/-- `enq_entry`, when `enq_fire_c` -/
def enqueued : Option α := if f.enqFire i then i.enq else none

def next : Ftq α where
  mem := put f.mem (if i.flush then 0 else f.enqIdx i) (f.enqueued i)
  tagMem := put f.tagMem (if i.flush then 0 else f.enqIdx i) ((f.enqueued i).map fun _ => f.allocTag)
  ifuReqPtr := f.nextIfuReqPtr i
  ifuWbPtr := f.nextIfuWbPtr i
  commitPtr := f.nextCommitPtr i
  wrPtr :=
    if i.flush then if f.enqFire i then 1 else 0
    else if f.enqFire i && !f.enqReplaceNext i then ptrNext f.wrPtr
    else f.wrPtr
  countAllocToIfu := f.nextCountAllocToIfu i
  countIfuToWb := f.nextCountIfuToWb i
  countWbToCommit := f.nextCountWbToCommit i
  epoch := if i.flush then f.epoch + 1 else f.epoch
  allocTag := if f.enqFire i then f.allocTag + 1 else f.allocTag

end Ftq

end Rv64gc.Frontend
