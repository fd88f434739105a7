import Rv64gc.Lsu.AmoUnit
import Rv64gc.Lsu.MmioPort

/-!
# Atomics in a run

The AMO unit beside what it works with: the store port of the data cache, which it shares with the
committed store buffer, and the reorder buffer, which decides what retires.
-/

namespace Rv64gc.Lsu

open Hdl Mmu

/-- An atomic's place in the program, which the hardware does not keep, and its slot. -/
structure AmoTag where
  seq : Nat
  robIdx : RobIdx
deriving DecidableEq

abbrev AmoInsn := AmoOp AmoTag

-- ---------------------------------------------------------------------
-- What the architecture asks
-- ---------------------------------------------------------------------

/-- The new value of an atomic operation, as the manual defines it. -/
def atomicOp (op : BitVec 5) (old rs2 : BitVec w) : BitVec w :=
  if op = amoSwap then rs2
  else if op = amoAdd then BitVec.ofNat w (old.toNat + rs2.toNat)
  else if op = amoXor then old ^^^ rs2
  else if op = amoAnd then old &&& rs2
  else if op = amoOr then old ||| rs2
  else if op = amoMin then BitVec.ofInt w (min old.toInt rs2.toInt)
  else if op = amoMax then BitVec.ofInt w (max old.toInt rs2.toInt)
  else if op = amoMinu then BitVec.ofNat w (min old.toNat rs2.toNat)
  else if op = amoMaxu then BitVec.ofNat w (max old.toNat rs2.toNat)
  else rs2

/-- What a read returns from the bytes at its address. -/
def AmoOp.extracted (a : AmoOp Tag) (bytes : Word) : Word :=
  if a.size = memWord then (bytes.setWidth 32).signExtend 64 else bytes

/-- The update with a new value for the bytes at the address. -/
def AmoOp.update (a : AmoOp Tag) (new32 : BitVec 32) (new64 : Word) : StoreReq :=
  if a.size = memWord then ⟨a.addr, new32.setWidth 64, 0x0F⟩ else ⟨a.addr, new64, 0xFF⟩

-- ---------------------------------------------------------------------
-- What becomes of the atomics
-- ---------------------------------------------------------------------

/-- An atomic from the cycle it takes its slot in the reorder buffer. -/
structure AmoLife where
  op : AmoInsn
  issued : Bool
  /-- SC: the reservation held when it issued. -/
  reserved : Bool
  /-- The bytes at its address when its read was answered. -/
  read : Option Word
  /-- What was written to the destination register. -/
  rd : Option Word
  /-- What the data cache took for it. -/
  updates : List StoreReq
  fate : Fate

/-- The update the instruction stands for. -/
def AmoLife.want (m : AmoLife) : Option StoreReq :=
  if m.op.op = amoLr then none
  else if m.op.op = amoSc then
    if m.reserved then some (m.op.update (m.op.rs2.setWidth 32) m.op.rs2) else none
  else m.read.map fun bytes =>
    m.op.update (atomicOp m.op.op (bytes.setWidth 32) (m.op.rs2.setWidth 32))
      (atomicOp m.op.op bytes m.op.rs2)

/-- The value for its destination register. -/
def AmoLife.result (m : AmoLife) : Option Word :=
  if m.op.op = amoSc then some (if m.reserved then 0 else 1) else m.read.map m.op.extracted

-- ---------------------------------------------------------------------
-- Runs
-- ---------------------------------------------------------------------

structure AmoRunIn where
  unit : AmoIn AmoTag
  /-- The bytes the data cache has at the address of the read. -/
  mem : Word
  /-- `amo_wb_drain_fire` -/
  wbDrains : Bool
  /-- The store on the port wins a lookup. -/
  grant : Bool
  /-- `dcache_store_req_next`, the entry after the head of the committed store buffer. -/
  nextReq : Option StoreReq
  /-- The slots that retire. -/
  retires : RobIdx → Bool
  /-- `load_commit_count` is not 0. -/
  loads : Bool
  /-- The slots a flush takes back. -/
  squashes : RobIdx → Bool
  /-- The atomics that take their slot in the reorder buffer. -/
  enters : Nat → Option AmoInsn

structure AmoRun where
  unit : AmoUnit AmoTag
  /-- The store in the second stage of the data cache, with the atomic it is of. -/
  lookup : Option (Option Nat × StoreReq)
  /-- The atomics of the run by their place in the program. -/
  lives : Nat → Option AmoLife

namespace AmoRun

variable (s : AmoRun) (i : AmoRunIn)

/-- The request on the store port and whose it is. -/
def presented : Option (Option Nat × StoreReq) :=
  match s.unit.storeReq, s.unit.current with
  | some q, some a => some (some a.tag.seq, q)
  | _, _ => i.unit.csbReq.map fun q => (none, q)

/-- `s1_st_valid`: while a store is acknowledged the one behind it is looked up. -/
def nextLookup : Option (Option Nat × StoreReq) :=
  if i.grant then
    if i.unit.storeAck then
      if s.unit.storeReq.isNone then i.nextReq.map fun q => (none, q) else none
    else s.presented i
  else none

/-- The update the data cache makes for an atomic. -/
def taken (n : Nat) : Option StoreReq :=
  match s.lookup with
  | some (some k, q) => if i.unit.storeAck && k == n then some q else none
  | _ => none

/-- The atomic issues. -/
def issues (n : Nat) : Bool := i.unit.issue.any fun a => a.tag.seq == n

/-- The read of the atomic is answered. -/
def answers (n : Nat) : Bool :=
  !i.unit.fullFlush && (s.unit.loadValue i.unit).isSome &&
    s.unit.current.any fun a => a.tag.seq == n

/-- The value that is written back to a slot. -/
def writeback (r : RobIdx) : Option Word :=
  if i.wbDrains then (s.unit.wb.filter fun x => x.1.tag.robIdx == r).map (·.2) else none

def nextLife (m : AmoLife) : AmoLife where
  op := m.op
  issued := m.issued || issues i m.op.tag.seq
  reserved := if issues i m.op.tag.seq then s.unit.scSuccess m.op else m.reserved
  read := if s.answers i m.op.tag.seq then some i.mem else m.read
  rd := if m.fate = .inFlight then (s.writeback i m.op.tag.robIdx).or m.rd else m.rd
  updates := m.updates ++ (s.taken i m.op.tag.seq).toList
  fate :=
    if m.fate = .inFlight then
      if i.retires m.op.tag.robIdx then .retired
      else if i.squashes m.op.tag.robIdx then .squashed else .inFlight
    else m.fate

def next : AmoRun where
  unit := s.unit.next i.unit
  lookup := s.nextLookup i
  lives n :=
    match s.lives n with
    | some m => some (s.nextLife i m)
    | none => (i.enters n).map fun a => ⟨a, false, false, none, none, [], .inFlight⟩

/-- What the rest of the core keeps to. -/
structure Keeps : Prop where
  enters : ∀ n a, i.enters n = some a → a.tag.seq = n ∧
    (∀ k m, s.lives k = some m → m.fate = .inFlight → m.op.tag.robIdx ≠ a.tag.robIdx) ∧
    ∀ k b, i.enters k = some b → b.tag.robIdx = a.tag.robIdx → k = n
  /-- An atomic issues once, while it is in flight, the unit is free and no flush arrives. -/
  issues : ∀ a, i.unit.issue = some a → s.unit.busy = false ∧ s.unit.reprobing = false ∧
    i.unit.fullFlush = false ∧ (∀ r, i.squashes r = false) ∧
    ∃ m, s.lives a.tag.seq = some m ∧ m.op = a ∧ m.fate = .inFlight ∧ m.issued = false
  /-- It retires once it is written back, and counts as a load. -/
  retires : ∀ n m, s.lives n = some m → m.fate = .inFlight → i.retires m.op.tag.robIdx = true →
    m.rd.isSome = true ∧ i.loads = true
  /-- `amo_store_commit_fire` -/
  unitRetires : i.unit.retires = (i.loads && s.unit.current.any fun a => i.retires a.tag.robIdx)
  /-- An atomic issues as the oldest instruction, so only a full flush takes it back. -/
  squashes : (i.unit.fullFlush = true → ∀ r, i.squashes r = true) ∧
    (i.unit.fullFlush = false → ∀ n m, s.lives n = some m → m.fate = .inFlight →
      m.issued = true → i.squashes m.op.tag.robIdx = false)
  drains : i.wbDrains = true → i.unit.wbLeaves = true ∧ i.unit.fullFlush = false
  /-- The data cache answers a read with what it has. -/
  answers : ∀ a v, s.unit.current = some a → s.unit.loadValue i.unit = some v →
    v = a.extracted i.mem
  /-- `store_ack_matches_head`: only the request on the port is acknowledged. -/
  acks : i.unit.storeAck = true →
    ∃ o q, s.lookup = some (o, q) ∧ s.unit.dcacheStoreReq i.unit = some q
  /-- An atomic waits for the older stores to its bytes, and younger ones leave after it. -/
  apart : ∀ a st q, s.unit.current = some a → s.unit.store = some st → st.committed = false →
    i.unit.csbReq = some q ∨ i.nextReq = some q → q.addr ≠ a.addr

end AmoRun

def amoRuns : Machine AmoRun AmoRunIn where
  reset := ⟨.reset, none, fun _ => none⟩
  next s i := s.next i
  legal s i := s.Keeps i

namespace AmoRun

/-- Memory is updated for an atomic exactly when it retires: with the update it stands for, once, at
the latest when the data cache takes the request on its port; and it has returned its value. -/
structure UpdatesOnce (s : AmoRun) : Prop where
  retired : ∀ n m, s.lives n = some m → m.fate = .retired →
    m.result.isSome = true ∧ m.rd = m.result ∧
      (m.updates = m.want.toList ∨
        m.updates = [] ∧ m.want.isSome = true ∧ s.unit.storeReq = m.want ∧
          s.unit.current = some m.op)
  otherwise : ∀ n m, s.lives n = some m → m.fate ≠ .retired → m.updates = []

/-- A read is asked for again only in a cycle in which it is not answered and no full flush
arrives. -/
def Asked (s : AmoRun) (i : AmoRunIn) : Prop :=
  s.unit.reprobeFire i.unit = true →
    i.unit.fullFlush = false ∧ s.unit.loadValue i.unit = none

end AmoRun

end Rv64gc.Lsu
