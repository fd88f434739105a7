import Rv64gc.Hdl.Machine
import Rv64gc.Mmu.Tlb
import Rv64gc.Pkg

/-!
# Atomic memory operations

`lsu.sv`: an atomic leaves through load port 0 once it is the oldest instruction. Its read half
runs like a load; the store half waits for the instruction to retire and then takes the store port
of the data cache. LR sets a reservation that SC tests when it issues.
-/

namespace Rv64gc.Lsu

open Hdl Mmu

abbrev Word := BitVec 64

abbrev memByte : BitVec 2 := 0
abbrev memHalf : BitVec 2 := 1
abbrev memWord : BitVec 2 := 2
abbrev memDword : BitVec 2 := 3

abbrev amoLr : BitVec 5 := 0b00010
abbrev amoSc : BitVec 5 := 0b00011
abbrev amoSwap : BitVec 5 := 0b00001
abbrev amoAdd : BitVec 5 := 0b00000
abbrev amoXor : BitVec 5 := 0b00100
abbrev amoAnd : BitVec 5 := 0b01100
abbrev amoOr : BitVec 5 := 0b01000
abbrev amoMin : BitVec 5 := 0b10000
abbrev amoMax : BitVec 5 := 0b10100
abbrev amoMinu : BitVec 5 := 0b11000
abbrev amoMaxu : BitVec 5 := 0b11100

-- ---------------------------------------------------------------------
-- The operation
-- ---------------------------------------------------------------------

/-- `amo_new_word` and `amo_new_dword` -/
def amoNew (op : BitVec 5) (old rs2 : BitVec w) : BitVec w :=
  if op = amoSwap then rs2
  else if op = amoAdd then old + rs2
  else if op = amoXor then old ^^^ rs2
  else if op = amoAnd then old &&& rs2
  else if op = amoOr then old ||| rs2
  else if op = amoMin then if old.slt rs2 then old else rs2
  else if op = amoMax then if rs2.slt old then old else rs2
  else if op = amoMinu then if old < rs2 then old else rs2
  else if op = amoMaxu then if rs2 < old then old else rs2
  else rs2

/-- `amo_store_data_calc` -/
def amoStoreData (size : BitVec 2) (op : BitVec 5) (old rs2 : Word) : Word :=
  if size = memWord then (amoNew op (old.setWidth 32) (rs2.setWidth 32)).setWidth 64
  else amoNew op old rs2

/-- `amo_sc_store_data_calc` -/
def scStoreData (size : BitVec 2) (rs2 : Word) : Word :=
  if size = memWord then (rs2.setWidth 32).setWidth 64 else rs2

def amoStoreMask (size : BitVec 2) : BitVec 8 := if size = memWord then 0x0F else 0xFF

-- ---------------------------------------------------------------------
-- State
-- ---------------------------------------------------------------------

/-- What the unit keeps of the instruction that issued; `Tag` is whatever else travels with it. -/
structure AmoOp (Tag : Type) where
  op : BitVec 5
  size : BitVec 2
  addr : Pa
  rs2 : Word
  tag : Tag
deriving DecidableEq

structure AmoStore where
  committed : Bool
  data : Word
  mask : BitVec 8
deriving DecidableEq

structure Reservation where
  addr : Pa
  size : BitVec 2
deriving DecidableEq

structure AmoUnit (Tag : Type) where
  /-- `amo_data_r`, `amo_addr_r` and `amo_rs2_r`: the last operation that issued. -/
  current : Option (AmoOp Tag)
  waitLoad : Bool
  /-- `amo_reprobe_inflight` -/
  reprobing : Bool
  store : Option AmoStore
  /-- `amo_wb_*_r`: the value for the destination register. -/
  wb : Option (AmoOp Tag × Word)
  lr : Option Reservation

/-- A store request at the data cache. -/
structure StoreReq where
  addr : Pa
  data : Word
  mask : BitVec 8
deriving DecidableEq

structure AmoIn (Tag : Type) where
  issue : Option (AmoOp Tag)
  /-- `amo_load_value`, when a hit or a fill answers the read. -/
  answer : Option Word
  /-- The read has been out for long and the port is free to ask again. -/
  reprobe : Bool
  /-- `dcache_load_resp_valid[0]`, in the cycle after a re-probe. -/
  reprobeResp : Option Word
  /-- `flush_in.valid && flush_in.full_flush` -/
  fullFlush : Bool
  /-- `amo_wb_drain_fire`, or a partial flush that covers the result. -/
  wbLeaves : Bool
  /-- The instruction retires in this cycle. -/
  retires : Bool
  storeAck : Bool
  /-- The store a committed store buffer entry presents. -/
  csbReq : Option StoreReq

namespace AmoUnit

variable {Tag : Type}

def reset : AmoUnit Tag := ⟨none, false, false, none, none, none⟩

variable (s : AmoUnit Tag) (i : AmoIn Tag)

/-- `amo_busy` -/
def busy : Bool := s.waitLoad || s.store.isSome || s.wb.isSome

/-- `amo_store_req_valid`, with its request -/
def storeReq : Option StoreReq := do
  let op ← s.current
  let st ← s.store
  if st.committed then some ⟨op.addr, st.data, st.mask⟩ else none

/-- `dcache_store_req` -/
def dcacheStoreReq : Option StoreReq := s.storeReq.or i.csbReq

/-- `amo_store_ack_fire` -/
def storeAckFire : Bool := s.storeReq.isSome && i.storeAck

/-- `amo_store_commit_fire` -/
def storeCommitFire : Bool := s.store.isSome && i.retires

/-- `lr_store_clear` -/
def lrStoreClear : Bool :=
  match s.lr, s.dcacheStoreReq i with
  | some r, some q => i.storeAck && q.addr.extractLsb' 2 62 == r.addr.extractLsb' 2 62
  | _, _ => false

/-- `amo_sc_success` -/
def scSuccess (op : AmoOp Tag) : Bool :=
  s.lr.any fun r => r.addr.extractLsb' 2 62 == op.addr.extractLsb' 2 62 && r.size == op.size

/-- `amo_reprobe_req_fire` -/
def reprobeFire : Bool := i.reprobe && s.waitLoad && !s.reprobing

/-- `amo_load_value`. A re-probe is answered whether or not the read still waits. -/
def loadValue : Option Word :=
  (if s.reprobing then i.reprobeResp else none).or (if s.waitLoad then i.answer else none)

/-- A full flush keeps nothing but a store whose instruction has retired, and a re-probe that is on
its way. -/
def killed : AmoUnit Tag :=
  { s with
    waitLoad := false
    reprobing := s.reprobeFire i
    wb := none
    store := if s.storeAckFire i then none
      else match s.store with
        | some st =>
          if s.storeCommitFire i || st.committed then some { st with committed := true } else none
        | none => none
    lr := none }

/-- What leaves in a cycle without a full flush. -/
def drained : AmoUnit Tag :=
  { s with
    reprobing := s.reprobeFire i
    wb := if i.wbLeaves then none else s.wb
    lr := if s.lrStoreClear i then none else s.lr
    store := if s.storeAckFire i then none
      else s.store.map fun st => { st with committed := st.committed || s.storeCommitFire i } }

/-- The read half is answered. -/
def answered : AmoUnit Tag :=
  let t := s.drained i
  match s.loadValue i, s.current with
  | some old, some op =>
    { t with
      waitLoad := false
      wb := some (op, old)
      lr := if op.op = amoLr then some ⟨op.addr, op.size⟩ else t.lr
      store := if op.op = amoLr then t.store
        else some ⟨false, amoStoreData op.size op.op old op.rs2, amoStoreMask op.size⟩ }
  | _, _ => t

def next : AmoUnit Tag :=
  if i.fullFlush then s.killed i
  else
    let t := s.answered i
    match i.issue with
    | some op =>
      if op.op = amoSc then
        { t with
          current := some op
          lr := none
          store := if s.scSuccess op then
              some ⟨false, scStoreData op.size op.rs2, amoStoreMask op.size⟩ else t.store
          wb := some (op, if s.scSuccess op then 0 else 1) }
      else { t with waitLoad := true, current := some op }
    | none => t

end AmoUnit

end Rv64gc.Lsu
