import Rv64gc.Hdl.Machine
import Rv64gc.Hdl.Ring
import Rv64gc.Lsu.AmoUnit
import Rv64gc.Pkg

/-!
# Accesses to devices

`lsu.sv`: loads and stores to the CLINT, the PLIC and the UART go around the data cache, through one
request port with one access under way. A load takes the port when it issues, in any order; a store
when its committed store buffer entry is the next one.
-/

namespace Rv64gc.Lsu

open Hdl Mmu

/-- A load to a device. `seq` is its place in the program, which the hardware does not keep. -/
structure MmioLoad where
  seq : Nat
  robIdx : RobIdx
  addr : Pa
  size : BitVec 2
  isUnsigned : Bool
deriving DecidableEq

/-- `mmio_resp_ext` -/
def MmioLoad.extended (l : MmioLoad) (raw : Word) : Word :=
  if l.size = memByte then
    if l.isUnsigned then (raw.setWidth 8).setWidth 64 else (raw.setWidth 8).signExtend 64
  else if l.size = memHalf then
    if l.isUnsigned then (raw.setWidth 16).setWidth 64 else (raw.setWidth 16).signExtend 64
  else if l.size = memWord then
    if l.isUnsigned then (raw.setWidth 32).setWidth 64 else (raw.setWidth 32).signExtend 64
  else raw

/-- `load_extracted_fwd` and `p1_extracted_fwd`: the bytes of a doubleword of stored data. -/
def MmioLoad.forwarded (l : MmioLoad) (raw : Word) : Word :=
  l.extended (raw >>> (8 * (l.addr.extractLsb' 0 3).toNat))

/-- What the request registers hold; `mmio_req_is_load_r` tells which. -/
inductive MmioReq where
  | load (l : MmioLoad)
  | store (req : StoreReq)
deriving DecidableEq

def MmioReq.isLoad : MmioReq → Bool
  | .load _ => true
  | .store _ => false

/-- `flush_in`: the first slot it takes back, unless it takes back all. -/
structure MmioFlush where
  robIdx : RobIdx
  full : Bool
deriving DecidableEq

/-- A load that issues, with the data an older store forwards to it. -/
structure MmioIssue where
  load : MmioLoad
  fwd : Option Word
deriving DecidableEq

structure MmioIn where
  robHead : RobIdx
  flush : Option MmioFlush
  /-- The committed store buffer entry that leaves next, when it goes to a device. -/
  store : Option StoreReq
  /-- Loads to a device on the two load ports that wait for no store. -/
  load0 : Option MmioIssue
  load1 : Option MmioIssue
  ready : Bool
  resp : Option Word
  /-- Nothing of a higher priority but a forwarded load is on writeback port 0. -/
  wbFree : Bool
  /-- No writeback port is free for the forwarded load. -/
  fwdBlocked0 : Bool
  fwdBlocked1 : Bool
  /-- The slots that retire. -/
  retires : RobIdx → Bool
  /-- The loads that take their slot in the reorder buffer. -/
  enters : Nat → Option MmioLoad

/-- The rule every part of the unit has for a flush: older loads stay. -/
def MmioIn.keeps (i : MmioIn) (r : RobIdx) : Bool :=
  match i.flush with
  | none => true
  | some f => !f.full && decide (offset i.robHead r < offset i.robHead f.robIdx)

-- ---------------------------------------------------------------------
-- The port
-- ---------------------------------------------------------------------

structure MmioPort where
  reqValid : Bool
  request : MmioReq
  reqDrop : Bool
  waitResp : Bool
  storeRespFire : Bool
  /-- `mmio_resp_hold_valid_r` with the load and the raw answer. -/
  respHold : Option (MmioLoad × Word)
deriving DecidableEq

/-- A load with the value for its destination, on its way to a writeback port. -/
abbrev FwdHold := Option (MmioLoad × Word)

namespace MmioPort

def reset : MmioPort := ⟨false, .store ⟨0, 0, 0⟩, false, false, false, none⟩

variable (s : MmioPort) (i : MmioIn)

/-- `mmio_available` -/
def available : Bool := !s.reqValid && !s.waitResp && s.respHold.isNone

/-- `mmio_store_launch` -/
def storeLaunch : Option StoreReq := if s.available && !s.storeRespFire then i.store else none

/-- A load leaves for the device unless its data is forwarded. -/
def MmioIssue.leaves (x : MmioIssue) : Option MmioLoad := if x.fwd.isNone then some x.load else none

/-- `mmio_load0_launch` -/
def load0Launch : Option MmioLoad :=
  if s.available && (s.storeLaunch i).isNone && i.flush.isNone then i.load0.bind MmioIssue.leaves
  else none

/-- `mmio_load1_launch` -/
def load1Launch : Option MmioLoad :=
  if s.available && (s.storeLaunch i).isNone && (s.load0Launch i).isNone && i.flush.isNone then
    i.load1.bind MmioIssue.leaves
  else none

/-- The load that takes the port. -/
def loadLaunch : Option MmioLoad := (s.load0Launch i).or (s.load1Launch i)

def launch : Option MmioReq :=
  ((s.storeLaunch i).map .store).or ((s.loadLaunch i).map .load)

/-- The device takes the request. -/
def accepted : Option MmioReq := if s.reqValid && i.ready then some s.request else none

/-- The device answers. -/
def answered : Option (MmioReq × Word) :=
  if s.waitResp then i.resp.map fun raw => (s.request, raw) else none

/-- `mmio_load_wb_fire`: a forwarded load goes first. -/
def wbFire (fwd : FwdHold) : Option (MmioLoad × Word) :=
  if i.wbFree && !fwd.any fun x => i.keeps x.1.robIdx then
    s.respHold.filter fun x => i.keeps x.1.robIdx
  else none

def next (fwd : FwdHold) : MmioPort where
  -- A flush takes a request for a load off the port, whatever its age.
  reqValid := (s.launch i).isSome ||
    s.reqValid && !(i.flush.isSome && s.request.isLoad) && !i.ready
  request := (s.launch i).getD s.request
  reqDrop :=
    if (s.launch i).isSome || (s.answered i).isSome then false
    else if i.flush.isSome && s.request.isLoad then
      if s.waitResp then true else if s.reqValid then false else s.reqDrop
    else s.reqDrop
  waitResp := (s.waitResp && i.resp.isNone) || (s.reqValid && i.ready)
  storeRespFire := (s.answered i).any fun x => !x.1.isLoad
  respHold :=
    match s.answered i with
    | some (.load l, raw) =>
      if !s.reqDrop && i.flush.isNone then some (l, raw)
      else if (s.wbFire i fwd).isSome || i.flush.isSome then none else s.respHold
    | _ => if (s.wbFire i fwd).isSome || i.flush.isSome then none else s.respHold

end MmioPort

-- ---------------------------------------------------------------------
-- Forwarded loads
-- ---------------------------------------------------------------------

/-- A load on a port with forwarded data. -/
def MmioIn.captured (i : MmioIn) (load : Option MmioIssue) : FwdHold :=
  if i.flush.isNone then load.bind fun x => x.fwd.map fun raw => (x.load, x.load.forwarded raw)
  else none

/-- A flush clears the register when it is full or the load is not older. -/
def MmioIn.clears (i : MmioIn) (hold : FwdHold) : Bool :=
  i.flush.any fun f => f.full || hold.any fun x => !i.keeps x.1.robIdx

/-- `fwd_hold_valid_r`: a load can come in while one leaves. -/
def MmioIn.fwdHold0 (i : MmioIn) (hold : FwdHold) : FwdHold :=
  if i.clears hold then none
  else if hold.isSome && i.fwdBlocked0 then hold
  else i.captured i.load0

/-- `p1_fwd_hold_valid_r` -/
def MmioIn.fwdHold1 (i : MmioIn) (hold : FwdHold) : FwdHold :=
  if i.clears hold then none
  else if hold.isSome then if i.fwdBlocked1 then hold else none
  else i.captured i.load1

/-- A forwarded load that is written back. -/
def MmioIn.fwdLeaves (i : MmioIn) (hold : FwdHold) (blocked : Bool) : FwdHold :=
  if blocked then none else hold.filter fun x => i.keeps x.1.robIdx

-- ---------------------------------------------------------------------
-- What becomes of the loads
-- ---------------------------------------------------------------------

inductive Fate where
  | inFlight
  | retired
  | squashed
deriving DecidableEq

/-- A load from the cycle it takes its slot in the reorder buffer. -/
structure MmioLife where
  load : MmioLoad
  issued : Bool
  /-- It has taken the request port. -/
  launched : Bool
  /-- How often the device was read for it. -/
  reads : Nat
  /-- What the device answered, as wide as the load. -/
  answer : Option Word
  /-- What was written to the destination register. -/
  value : Option Word
  fate : Fate
deriving DecidableEq

/-- The unit, with the loads of the run by their place in the program. -/
structure MmioUnit where
  port : MmioPort
  fwd0 : FwdHold
  fwd1 : FwdHold
  lives : Nat → Option MmioLife

namespace MmioUnit

variable (s : MmioUnit) (i : MmioIn)

/-- The loads that issue. -/
def issues (l : MmioLoad) : Prop :=
  i.flush = none ∧ ((∃ x, i.load0 = some x ∧ x.load = l) ∨ ∃ x, i.load1 = some x ∧ x.load = l)

instance (l : MmioLoad) : Decidable (issues i l) :=
  inferInstanceAs (Decidable (i.flush = none ∧ _))

/-- The writebacks of the cycle. A writeback names a slot of the reorder buffer, not a load. -/
def writebacks : List (RobIdx × Word) :=
  ((i.fwdLeaves s.fwd0 i.fwdBlocked0).map fun x => (x.1.robIdx, x.2)).toList ++
    ((i.fwdLeaves s.fwd1 i.fwdBlocked1).map fun x => (x.1.robIdx, x.2)).toList ++
    ((s.port.wbFire i s.fwd0).map fun x => (x.1.robIdx, x.1.extended x.2)).toList

def nextLife (m : MmioLife) : MmioLife where
  load := m.load
  issued := m.issued || decide (issues i m.load)
  launched := m.launched || (s.port.launch i == some (.load m.load))
  reads := if s.port.accepted i = some (.load m.load) then m.reads + 1 else m.reads
  answer :=
    match s.port.answered i with
    | some (req, raw) => if req = .load m.load then some (m.load.extended raw) else m.answer
    | none => m.answer
  value :=
    if m.fate = .inFlight then ((s.writebacks i).lookup m.load.robIdx).or m.value else m.value
  fate :=
    if m.fate = .inFlight then
      if i.retires m.load.robIdx then .retired
      else if i.keeps m.load.robIdx then .inFlight else .squashed
    else m.fate

def next : MmioUnit where
  port := s.port.next i s.fwd0
  fwd0 := i.fwdHold0 s.fwd0
  fwd1 := i.fwdHold1 s.fwd1
  lives n :=
    match s.lives n with
    | some m => some (s.nextLife i m)
    | none => (i.enters n).map fun l => ⟨l, false, false, 0, none, none, .inFlight⟩

/-- What the rest of the core keeps to: a load takes a slot that no other has, issues once while it
is in flight, and retires once it is written back. -/
structure Keeps : Prop where
  enters : ∀ n l, i.enters n = some l → l.seq = n ∧
    (∀ k m, s.lives k = some m → m.fate = .inFlight → m.load.robIdx ≠ l.robIdx) ∧
    ∀ k l', i.enters k = some l' → l'.robIdx = l.robIdx → k = n
  issues : ∀ l, issues i l → ∃ m, s.lives l.seq = some m ∧ m.load = l ∧ m.fate = .inFlight ∧
    m.issued = false
  retires : ∀ n m, s.lives n = some m → m.fate = .inFlight → i.retires m.load.robIdx = true →
    m.value.isSome = true

end MmioUnit

def mmioRuns : Machine MmioUnit MmioIn where
  reset := ⟨.reset, none, none, fun _ => none⟩
  next s i := s.next i
  legal s i := s.Keeps i

/-- The device was read once for a load that has retired, with the value the load returned, and never
for one that was squashed. -/
structure MmioUnit.ReadOnce (s : MmioUnit) : Prop where
  retired : ∀ n m, s.lives n = some m → m.fate = .retired →
    m.reads = 1 ∧ ∃ v, m.answer = some v ∧ m.value = some v
  squashed : ∀ n m, s.lives n = some m → m.fate = .squashed → m.reads = 0

/-- No load to a device issues with forwarded data, and none that has left for the device is
squashed, unless its request waits on the port and is not taken in this cycle. -/
structure MmioUnit.Undisturbed (s : MmioUnit) (i : MmioIn) : Prop where
  unforwarded : ∀ x, i.load0 = some x ∨ i.load1 = some x → x.fwd = none
  unread : ∀ n m, s.lives n = some m → m.fate = .inFlight → m.launched = true →
    i.keeps m.load.robIdx = false → i.retires m.load.robIdx = false →
      s.port.reqValid = true ∧ s.port.request = .load m.load ∧ i.ready = false

end Rv64gc.Lsu
