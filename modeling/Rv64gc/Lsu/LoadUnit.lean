import Rv64gc.Backend.ProgramWindow
import Rv64gc.Lsu.AmoRuns
import Rv64gc.Lsu.MmioPort
import Rv64gc.Lsu.StoreBuffer

/-!
# Loads on their way

`lsu.sv`: until it is written back, a load that has issued is in one of many registers: the stage
behind the data cache, a retry register, the load miss buffer, a hold register before a writeback
port, the splitter of line-crossing loads, the device port or the AMO unit. Each has its own rule
for a flush.
-/

namespace Rv64gc.Lsu

open Hdl Mmu Backend

-- ---------------------------------------------------------------------
-- What the registers hold
-- ---------------------------------------------------------------------

/-- A load of the issue queue with its address. -/
structure LoadOp where
  load : MmioLoad
  /-- `is_amo`, with `amo_op` and the second operand. -/
  amo : Option (BitVec 5 × Word)
deriving DecidableEq

namespace LoadOp

variable (o : LoadOp)

/-- `load_size_bytes` -/
def sizeBytes : Nat :=
  if o.load.size = memHalf then 2 else if o.load.size = memWord then 4
  else if o.load.size = memDword then 8 else 1

/-- `load_cross_line` -/
def crossLine : Bool := decide (64 < (o.load.addr.extractLsb' 0 6).toNat + o.sizeBytes)

/-- `load_addr_natural_misaligned` -/
def naturalMisaligned : Bool := decide ((o.load.addr.extractLsb' 0 3).toNat % o.sizeBytes ≠ 0)

/-- `load_addr_misaligned`: only an atomic has to be aligned. -/
def misaligned : Bool := o.naturalMisaligned && o.amo.isSome

/-- `load_addr_mmio` -/
def mmio : Bool := isMmio o.load.addr

def isSc : Bool := o.amo.any fun x => x.1 == amoSc

/-- What the AMO unit takes of it. -/
def toAmo : Option AmoInsn :=
  o.amo.map fun x => ⟨x.1, o.load.size, o.load.addr, x.2, ⟨o.load.seq, o.load.robIdx⟩⟩

end LoadOp

/-- A load whose request the data cache got in the last cycle, unless `load_nocache_r`. -/
structure PipeLoad where
  op : LoadOp
  nocache : Bool
deriving DecidableEq

/-- What port 1 issues, from its retry register or from the issue queue. -/
structure Port1Load where
  op : LoadOp
  misalign : Bool
  nocache : Bool
deriving DecidableEq

/-- A line the data cache has been given. -/
structure Fill where
  addr : Pa
  data : BitVec 512
deriving DecidableEq

/-- The fill is of the line of an address. -/
def Fill.holds (f : Fill) (addr : Pa) : Bool := addr.extractLsb' 6 58 == f.addr.extractLsb' 6 58

/-- The doubleword at an address. -/
def Fill.dword (f : Fill) (addr : Pa) : Word :=
  f.data.extractLsb' (64 * (addr.extractLsb' 3 3).toNat) 64

/-- `lmb_extract_from_fill` -/
def Fill.extract (f : Fill) (l : MmioLoad) : Word := l.forwarded (f.dword l.addr)

/-- `amo_fill_extracted` -/
def Fill.amoExtract (f : Fill) (a : AmoInsn) : Word :=
  let shifted := f.dword a.addr >>> (8 * (a.addr.extractLsb' 0 3).toNat)
  if a.size = memWord then (shifted.setWidth 32).signExtend 64 else shifted

structure LmbEntry where
  valid : Bool
  /-- Its data has come and waits for the writeback port. -/
  ready : Bool
  load : MmioLoad
  data : Word
deriving DecidableEq

/-- A result on its way to a writeback port. -/
structure LoadResult where
  load : MmioLoad
  data : Word
  isExc : Bool
deriving DecidableEq

inductive SplitState where
  | req0
  | wait0
  | req1
  | wait1
  | wb
deriving DecidableEq

/-- A load across two lines is read as two doublewords. -/
structure SplitLoad where
  state : SplitState
  load : MmioLoad
  waitAddr : Pa
  firstDword : Word
  secondDword : Word
deriving DecidableEq

namespace SplitLoad

variable (x : SplitLoad)

/-- `split_load_req_addr`, while it asks for a line. -/
def reqAddr : Option Pa :=
  match x.state with
  | .req0 => some (x.load.addr.extractLsb' 3 61 ++ 0#3)
  | .req1 => some ((x.load.addr.extractLsb' 6 58 + 1) ++ 0#6)
  | _ => none

/-- `split_load_merged_raw` -/
def mergedRaw : Word :=
  (x.firstDword >>> (8 * (x.load.addr.extractLsb' 0 3).toNat)) |||
    (x.secondDword <<< (8 * ((64 - (x.load.addr.extractLsb' 0 6).toNat) % 16)))

/-- `split_load_result` -/
def result : Word := x.load.extended x.mergedRaw

/-- The next step, when the answer comes and when the result leaves. -/
def turn (resp : Option Word) (leaves : Bool) : Option SplitLoad :=
  match x.state with
  | .req0 => some { x with waitAddr := x.reqAddr.getD 0, state := .wait0 }
  | .wait0 => some <| (resp.map fun d => { x with firstDword := d, state := .req1 }).getD x
  | .req1 => some { x with waitAddr := x.reqAddr.getD 0, state := .wait1 }
  | .wait1 => some <| (resp.map fun d => { x with secondDword := d, state := .wb }).getD x
  | .wb => if leaves then none else some x

end SplitLoad

/-- A load, or an atomic, by the slot it has in the reorder buffer. -/
structure LoadLife where
  robIdx : RobIdx
  fate : Fate
deriving DecidableEq

structure LoadUnit where
  robHead : RobIdx
  /-- `load_issue_*_r`, and `load_issue_*_rr` one cycle later. -/
  pipe0 : Option PipeLoad
  pipe1 : Option PipeLoad
  last0 : Option PipeLoad
  last1 : Option PipeLoad
  retry0 : Option LoadOp
  retry1 : Option Port1Load
  split : Option SplitLoad
  mmio : MmioPort
  amo : AmoUnit AmoTag
  /-- `amo_wait_stall_cyc` -/
  amoStall : Nat
  /-- The last four fills. -/
  fillBypass : List (Option Fill)
  lmb : Fin 32 → LmbEntry
  /-- `reprobe_inflight` with `reprobe_idx_r` -/
  reprobe : Option (Fin 32)
  /-- `lmb_stall_cyc` -/
  lmbStall : Nat
  /-- `p0_dcache_hold_*_r` and `p1_dcache_hold_*_r` -/
  hold0 : FwdHold
  hold1 : FwdHold
  fwd0 : Option LoadResult
  misalign1 : Option MmioLoad
  fwd1 : FwdHold
  /-- The loads of the run by their place in the program. -/
  lives : Nat → Option LoadLife

structure LoadIn where
  flush : Option FlushTo
  commitCount : Nat
  /-- `load_commit_count` is not 0. -/
  loadCommit : Bool
  /-- The issue queue's candidates for the two ports. -/
  load0 : Option LoadOp
  load1 : Option LoadOp
  /-- A translation that is not there, or a reason of the issue logic outside, holds it back. -/
  suppress0 : Bool
  suppress1 : Bool
  /-- `sq_order_wait_block` and `partial_fwd_wait` -/
  orderWait0 : Bool
  orderWait1 : Bool
  partialWait0 : Bool
  partialWait1 : Bool
  /-- What an older store forwards. -/
  fwdHit0 : Option Word
  fwdHit1 : Option Word
  /-- `sta_older_than_load0` or `sq_fwd_wait` -/
  olderStore : Bool
  csbDeqValid : Bool
  /-- `dcache_load_resp_valid`, with its data, and `dcache_load_miss_retry` -/
  resp0 : Option Word
  resp1 : Option Word
  missRetry0 : Bool
  missRetry1 : Bool
  fill : Option Fill
  /-- The committed store buffer's next store, when it goes to a device. -/
  mmioStore : Option StoreReq
  mmioReady : Bool
  mmioResp : Option Word
  csbReq : Option StoreReq
  storeAck : Bool
  /-- The loads that take their slot in the reorder buffer. -/
  enters : Nat → Option RobIdx

def LoadIn.fullFlush (i : LoadIn) : Bool := i.flush == some .full

/-- The loads a flush takes back. -/
def LoadIn.squashes (i : LoadIn) (robHead r : RobIdx) : Bool :=
  match i.flush with
  | none => false
  | some .full => true
  | some (.upTo n) => decide (n ≤ offset robHead r)

namespace LoadUnit

def reset : LoadUnit where
  robHead := 0
  pipe0 := none
  pipe1 := none
  last0 := none
  last1 := none
  retry0 := none
  retry1 := none
  split := none
  mmio := .reset
  amo := .reset
  amoStall := 0
  fillBypass := List.replicate 4 none
  lmb _ := ⟨false, false, ⟨0, 0, 0, 0, false⟩, 0⟩
  reprobe := none
  lmbStall := 0
  hold0 := none
  hold1 := none
  fwd0 := none
  misalign1 := none
  fwd1 := none
  lives _ := none

variable (s : LoadUnit) (i : LoadIn)

-- ---------------------------------------------------------------------
-- What a flush leaves
-- ---------------------------------------------------------------------

/-- `flush_in` -/
def flushIn : Option MmioFlush :=
  i.flush.map fun
    | .full => ⟨0, true⟩
    | .upTo n => ⟨slotAt s.robHead n, false⟩

/-- `flush_keep` of a register: what is older than the first slot taken back stays. -/
def keeps (r : RobIdx) : Bool :=
  match s.flushIn i with
  | none => true
  | some f => !f.full && decide (offset s.robHead r < offset s.robHead f.robIdx)

/-- A full flush clears a register, a partial one when what is in it does not stay. -/
def clears (held : Option RobIdx) : Bool :=
  i.fullFlush || i.flush.isSome && held.any fun r => !s.keeps i r

def kept (hold : FwdHold) : FwdHold := hold.filter fun x => s.keeps i x.1.robIdx

def fwd0Kept : Option LoadResult := s.fwd0.filter fun x => s.keeps i x.load.robIdx

def amoWbKept : Option (AmoInsn × Word) := s.amo.wb.filter fun x => s.keeps i x.1.tag.robIdx

/-- `load_pipe_flush_keep`, of a load the data cache looks up. -/
def cached (p : Option PipeLoad) : Option LoadOp :=
  (p.filter fun x => s.keeps i x.op.load.robIdx && !x.nocache && x.op.amo.isNone).map (·.op)

-- ---------------------------------------------------------------------
-- What the data cache says
-- ---------------------------------------------------------------------

/-- `p0_dcache_hit_valid` -/
def hit0 : FwdHold := (s.cached i s.pipe0).bind fun o => i.resp0.map fun data => (o.load, data)

/-- `p1_dcache_hit_valid` -/
def hit1 : FwdHold := (s.cached i s.pipe1).bind fun o => i.resp1.map fun data => (o.load, data)

/-- `p0_miss_retry_req` -/
def missRetryReq0 : Option LoadOp := if i.missRetry0 then s.cached i s.pipe0 else none

/-- `p1_miss_retry_req` -/
def missRetryReq1 : Option LoadOp := if i.missRetry1 then s.cached i s.pipe1 else none

/-- `p0_miss_detect` -/
def missDetect0 : Option LoadOp :=
  if i.resp0.isNone && !i.missRetry0 then s.cached i s.pipe0 else none

/-- `p1_miss_detect` -/
def missDetect1 : Option LoadOp :=
  if i.resp1.isNone && !i.missRetry1 then s.cached i s.pipe1 else none

/-- `p0_load_wb_port_busy` -/
def loadWbPortBusy0 : Bool :=
  (s.amoWbKept i).isSome || (s.hit0 i).isSome || (s.kept i s.hold0).isSome

/-- `p1_normal_wb_valid` -/
def normalWbValid1 : Bool :=
  (s.kept i s.hold1).isSome || s.misalign1.any (fun l => s.keeps i l.robIdx) ||
    (s.hit1 i).isSome || (s.kept i s.fwd1).isSome

/-- `p0_fwd_spill_to_p1` -/
def fwdSpillToPort1 : Option LoadResult :=
  if s.loadWbPortBusy0 i && !s.normalWbValid1 i then s.fwd0Kept i else none

/-- `fwd_hold_blocked` -/
def fwdHoldBlocked : Bool :=
  (s.fwd0Kept i).isSome && s.loadWbPortBusy0 i && s.normalWbValid1 i

/-- `split_load_wb_fire` -/
def splitLoadWbFire : Option SplitLoad :=
  if (s.amoWbKept i).isNone && (s.kept i s.hold0).isNone && (s.hit0 i).isNone &&
      (s.fwd0Kept i).isNone then
    s.split.filter fun x => x.state == .wb && s.keeps i x.load.robIdx
  else none

/-- `lmb_wb_port_free` -/
def lmbWbPortFree : Bool :=
  !s.loadWbPortBusy0 i && (s.fwd0Kept i).isNone && (s.splitLoadWbFire i).isNone

-- ---------------------------------------------------------------------
-- The load miss buffer
-- ---------------------------------------------------------------------

/-- `valid` and `lmb_flush_keep` -/
def lmbLive (j : Fin 32) : Bool := (s.lmb j).valid && s.keeps i (s.lmb j).load.robIdx

/-- The free entries, the lowest first. -/
def lmbFree : List (Fin 32) := (List.finRange 32).filter fun j => !s.lmbLive i j

/-- `lmb_free_idx`, with the load of port 0 that takes the entry. -/
def lmbAlloc0 : Option (Fin 32 × LoadOp) :=
  (s.missDetect0 i).bind fun o => (s.lmbFree i)[0]?.map fun j => (j, o)

/-- `lmb_p1_alloc_idx`, with the load of port 1 that takes the entry. -/
def lmbAlloc1 : Option (Fin 32 × LoadOp) :=
  (s.missDetect1 i).bind fun o =>
    (s.lmbFree i)[if (s.missDetect0 i).isSome then 1 else 0]?.map fun j => (j, o)

/-- `p0_lmb_retry_req` -/
def lmbRetryReq0 : Option LoadOp := if (s.lmbAlloc0 i).isNone then s.missDetect0 i else none

/-- `p1_lmb_retry_req` -/
def lmbRetryReq1 : Option LoadOp := if (s.lmbAlloc1 i).isNone then s.missDetect1 i else none

/-- `miss_fill_data`: a fill of this cycle or of the last four. -/
def missFill (l : MmioLoad) : Option Fill :=
  (i.fill :: s.fillBypass).findSome? fun f => f.filter fun f => f.holds l.addr

/-- `lmb_fill_match` -/
def lmbFillMatch (j : Fin 32) : Bool :=
  s.lmbLive i j && !(s.lmb j).ready && i.fill.any fun f => f.holds (s.lmb j).load.addr

/-- `lmb_match_idx` -/
def lmbMatchIdx : Option (Fin 32) := (List.finRange 32).find? fun j => s.lmbFillMatch i j

/-- `lmb_ready_idx` -/
def lmbReadyIdx : Option (Fin 32) :=
  (List.finRange 32).find? fun j => s.lmbLive i j && (s.lmb j).ready

/-- `lmb_reprobe_idx` -/
def lmbReprobeIdx : Option (Fin 32) :=
  (List.finRange 32).find? fun j => s.lmbLive i j && !(s.lmb j).ready

def lmbAnyValid : Bool := (List.finRange 32).any fun j => s.lmbLive i j

-- ---------------------------------------------------------------------
-- Issue
-- ---------------------------------------------------------------------

/-- `mmio_store_launch` -/
def mmioStoreLaunch : Bool := s.mmio.available && !s.mmio.storeRespFire && i.mmioStore.isSome

/-- `mmio_load0_block` -/
def mmioLoad0Block (o : LoadOp) : Bool :=
  !o.misaligned && o.mmio && (!s.mmio.available || s.mmioStoreLaunch i)

/-- `mmio_load0_candidate_launch` -/
def mmioLoad0CandidateLaunch : Bool :=
  s.mmio.available && !s.mmioStoreLaunch i && i.fwdHit0.isNone && !i.partialWait0 &&
    i.flush.isNone && i.load0.any fun o => !o.misaligned && o.mmio

/-- `mmio_load1_block` -/
def mmioLoad1Block (o : LoadOp) : Bool :=
  !o.misaligned && o.mmio &&
    (!s.mmio.available || s.mmioStoreLaunch i || s.mmioLoad0CandidateLaunch i)

/-- `amo_serial_block` -/
def amoSerialBlock : Bool :=
  s.amo.busy || i.csbDeqValid || s.lmbAnyValid i || s.hold0.isSome || s.hold1.isSome ||
    s.pipe0.isSome || s.pipe1.isSome || s.last0.isSome || s.last1.isSome || s.retry0.isSome ||
    (s.missRetryReq0 i).isSome || s.retry1.isSome || (s.missRetryReq1 i).isSome ||
    s.fwd0.isSome || s.fwd1.isSome

/-- `amo_forward_block` -/
def amoForwardBlock (i : LoadIn) : Bool := i.olderStore || i.partialWait0 || i.fwdHit0.isSome

/-- `load_issue_suppress[0]` -/
def suppress0 (o : LoadOp) : Bool :=
  i.flush.isSome || s.split.isSome || s.retry0.isSome || s.hold0.isSome ||
    (s.missRetryReq0 i).isSome || i.suppress0 ||
    (!o.misaligned &&
      (i.orderWait0 || i.partialWait0 || s.fwdHoldBlocked i || s.mmioLoad0Block i o ||
        s.amo.busy ||
        (o.amo.isSome &&
          (o.load.robIdx != s.robHead || s.amoSerialBlock i || amoForwardBlock i || o.mmio))))

/-- `p1_fwd_blocked`, of a load that does not wait. -/
def fwdBlocked1 : Bool := i.fwdHit1.isSome && s.fwd1.isSome

/-- `load_issue_suppress[1]` -/
def suppress1 (o : LoadOp) : Bool :=
  i.flush.isSome || s.split.isSome || o.crossLine || i.suppress1 || s.amo.busy || o.amo.isSome ||
    i.load0.any (fun a => a.amo.isSome) || s.retry1.isSome || (s.missRetryReq1 i).isSome ||
    (!o.misaligned &&
      (i.orderWait1 || i.partialWait1 || s.fwdBlocked1 i || s.mmioLoad1Block i o))

/-- `load_issue_valid`: what leaves the issue queue. -/
def issue0 : Option LoadOp := i.load0.filter fun o => !s.suppress0 i o

def issue1 : Option LoadOp := i.load1.filter fun o => !s.suppress1 i o

/-- `dcache_conflict` -/
def dcacheConflict : Bool :=
  match s.issue0 i, s.issue1 i with
  | some a, some b =>
    !a.misaligned && !b.misaligned && a.load.addr.extractLsb' 6 8 == b.load.addr.extractLsb' 6 8
  | _, _ => false

/-- `p0_retry_fire` -/
def retryFire0 : Option LoadOp := if i.flush.isNone && s.split.isNone then s.retry0 else none

/-- `split_load_start` -/
def splitLoadStart : Option LoadOp :=
  (s.issue0 i).filter fun o =>
    o.crossLine && !o.misaligned && !o.mmio && o.amo.isNone && i.fwdHit0.isNone && i.flush.isNone

def splitLoadReq : Option Pa := s.split.bind SplitLoad.reqAddr

/-- The load of the issue queue that asks the data cache through port 0. -/
def normalReq0 : Option LoadOp :=
  (s.issue0 i).filter fun o =>
    s.retry0.isNone && !o.misaligned && !o.crossLine && s.split.isNone && !o.mmio &&
      i.fwdHit0.isNone && !o.isSc

/-- `amo_port0_idle` -/
def port0Idle : Bool :=
  s.splitLoadReq.isNone && (s.retryFire0 i).isNone && (s.normalReq0 i).isNone

/-- `reprobe_req_fire`, with the entry -/
def reprobeReqFire : Option (Fin 32) :=
  if decide (512 ≤ s.lmbStall) && s.reprobe.isNone && s.port0Idle i then s.lmbReprobeIdx i else none

/-- `amo_reprobe_req_fire` -/
def amoReprobeReqFire : Bool :=
  s.amo.waitLoad && decide (512 ≤ s.amoStall) && s.reprobe.isNone && !s.amo.reprobing &&
    s.port0Idle i && (s.reprobeReqFire i).isNone

/-- `dcache_load_req_valid[0]` -/
def dcacheLoadReqValid0 : Bool :=
  s.splitLoadReq.isSome || (s.retryFire0 i).isSome || (s.normalReq0 i).isSome ||
    (s.reprobeReqFire i).isSome || s.amoReprobeReqFire i

/-- `p1_eff_*` -/
def eff1 : Option Port1Load :=
  if i.orderWait1 || i.partialWait1 then none
  else
    match s.retry1 with
    | some x =>
      if i.fwdHit1.isSome && s.fwd1.isSome then none
      else some ⟨x.op, x.misalign, x.nocache || x.op.mmio || i.fwdHit1.isSome⟩
    | none =>
      (s.issue1 i).bind fun o =>
        if if i.fwdHit1.isSome then s.fwd1.isSome else s.dcacheConflict i then none
        else some ⟨o, o.misaligned, o.misaligned || o.mmio || i.fwdHit1.isSome⟩

/-- The effective load of port 1, unless `p1_issue_flush_kill`. -/
def exec1 : Option Port1Load := (s.eff1 i).filter fun x => s.keeps i x.op.load.robIdx

-- ---------------------------------------------------------------------
-- The device port and the AMO unit
-- ---------------------------------------------------------------------

/-- What is written back through port 0 before a load from a device, but for `fwd_hold`. -/
def mmioWbFree : Bool :=
  !s.loadWbPortBusy0 i && (s.splitLoadWbFire i).isNone && (s.lmbMatchIdx i).isNone &&
    (s.lmbReadyIdx i).isNone

def mmioIn : MmioIn where
  robHead := s.robHead
  flush := s.flushIn i
  store := i.mmioStore
  load0 := ((s.issue0 i).filter fun o => !o.misaligned && o.mmio).map fun o => ⟨o.load, i.fwdHit0⟩
  load1 :=
    ((s.eff1 i).filter fun x => !x.misalign && x.op.mmio).map fun x => ⟨x.op.load, i.fwdHit1⟩
  ready := i.mmioReady
  resp := i.mmioResp
  wbFree := s.mmioWbFree i
  fwdBlocked0 := false
  fwdBlocked1 := false
  retires _ := false
  enters _ := none

/-- `amo_load_hit_fire` or `amo_load_fill_fire`, with `amo_load_value` -/
def amoAnswer : Option Word :=
  match i.resp0, s.pipe0.any fun x => x.op.amo.isSome with
  | some data, true => some data
  | _, _ =>
    s.amo.current.bind fun a => (i.fill.filter fun f => f.holds a.addr).map fun f => f.amoExtract a

def amoIn : AmoIn AmoTag where
  issue :=
    ((s.issue0 i).filter fun o =>
      !o.misaligned && !o.mmio && i.flush.isNone && (o.isSc || s.dcacheLoadReqValid0 i)).bind
        LoadOp.toAmo
  answer := s.amoAnswer i
  reprobe := s.amoReprobeReqFire i
  reprobeResp := i.resp0
  fullFlush := i.fullFlush
  wbLeaves := (s.amoWbKept i).isNone || (s.kept i s.hold0).isNone
  retires :=
    i.loadCommit && s.amo.current.any fun a => decide (offset s.robHead a.tag.robIdx < i.commitCount)
  storeAck := i.storeAck
  csbReq := i.csbReq

-- ---------------------------------------------------------------------
-- What leaves
-- ---------------------------------------------------------------------

def reprobeWbFire : FwdHold :=
  s.reprobe.bind fun j => i.resp0.map fun data => ((s.lmb j).load, data)

def plain (x : MmioLoad × Word) : LoadResult := ⟨x.1, x.2, false⟩

/-- The entry of the load miss buffer that is written back. -/
def lmbWb : FwdHold :=
  if s.lmbWbPortFree i then
    match s.lmbMatchIdx i with
    | some j => i.fill.map fun f => ((s.lmb j).load, f.extract (s.lmb j).load)
    | none => (s.lmbReadyIdx i).map fun j => ((s.lmb j).load, (s.lmb j).data)
  else none

/-- `mmio_load_wb_fire` -/
def mmioWb : FwdHold :=
  (s.mmio.wbFire (s.mmioIn i) (s.fwd0.map fun x => (x.load, x.data))).map fun x =>
    (x.1, x.1.extended x.2)

/-- An atomic's result, by the fields a load has. -/
def amoWb : FwdHold :=
  (s.amoWbKept i).map fun x =>
    (⟨x.1.tag.seq, x.1.tag.robIdx, x.1.addr, x.1.size, false⟩, x.2)

/-- What goes to writeback port 0 before an answer to a re-probe. -/
def wbBeforeReprobe : Option LoadResult :=
  ((s.kept i s.hold0).map plain).or <| ((s.amoWb i).map plain).or <|
    ((s.hit0 i).map plain).or <| (s.fwd0Kept i).or <|
    ((s.splitLoadWbFire i).map fun x => ⟨x.load, x.result, false⟩).or <|
    ((s.lmbWb i).map plain).or <| (s.mmioWb i).map plain

/-- `reprobe_wb_won` -/
def reprobeWbWon : Option (Fin 32) :=
  if !i.fullFlush && (s.wbBeforeReprobe i).isNone && i.resp0.isSome then s.reprobe else none

/-- `load_wb_*[0]` -/
def wb0 : Option LoadResult :=
  if i.fullFlush then none else (s.wbBeforeReprobe i).or ((s.reprobeWbFire i).map plain)

/-- `load_wb_*[1]` -/
def wb1 : Option LoadResult :=
  if i.fullFlush then none
  else
    ((s.kept i s.hold1).map plain).or <|
      ((s.misalign1.filter fun l => s.keeps i l.robIdx).map fun l => ⟨l, 0, true⟩).or <|
      ((s.hit1 i).map plain).or <| (s.fwdSpillToPort1 i).or ((s.kept i s.fwd1).map plain)

def writebacks : List LoadResult := (s.wb0 i).toList ++ (s.wb1 i).toList

/-- The loads of `spec_wakeup_valid`. -/
def wakeups : List MmioLoad :=
  ((((s.retryFire0 i).or (s.normalReq0 i)).filter fun o =>
      s.splitLoadReq.isNone && o.amo.isNone).map (·.load)).toList ++
    (((s.exec1 i).filter fun x =>
      !x.misalign && !x.op.mmio && i.fwdHit1.isNone && x.op.amo.isNone).map (·.op.load)).toList

-- ---------------------------------------------------------------------
-- The next cycle
-- ---------------------------------------------------------------------

/-- The loads behind the data cache that a flush leaves there. -/
def pipeHeld (p : Option PipeLoad) : Option PipeLoad :=
  p.filter fun x => s.keeps i x.op.load.robIdx

def nextPipe0 : Option PipeLoad :=
  -- The issue queue gives port 0 nothing in a flush.
  if i.flush.isSome then s.pipeHeld i s.pipe0
  else
    ((s.retryFire0 i).map fun o => ⟨o, false⟩).or <| (s.issue0 i).map fun o =>
      ⟨o, o.crossLine || o.misaligned || o.mmio || o.amo.isSome || i.fwdHit0.isSome⟩

def nextPipe1 : Option PipeLoad :=
  if i.flush.isSome then
    (((s.exec1 i).filter fun x => !x.misalign).map fun x => ⟨x.op, x.nocache⟩).or
      (s.pipeHeld i s.pipe1)
  else (s.eff1 i).map fun x => ⟨x.op, x.nocache⟩

def nextLast (last pipe : Option PipeLoad) : Option PipeLoad :=
  if i.flush.isSome then s.pipeHeld i last else pipe

def nextRetry0 : Option LoadOp :=
  if s.clears i (s.retry0.map (·.load.robIdx)) then none
  else
    (s.missRetryReq0 i).or <| (s.lmbRetryReq0 i).or <|
      if (s.retryFire0 i).isSome then none else s.retry0

def nextRetry1 : Option Port1Load :=
  if s.clears i (s.retry1.map (·.op.load.robIdx)) then none
  else
    match (s.missRetryReq1 i).or (s.lmbRetryReq1 i) with
    | some o => some ⟨o, false, false⟩
    | none =>
      if s.dcacheConflict i && !i.orderWait1 && !i.partialWait1 && i.fwdHit1.isNone then
        (s.issue1 i).map fun o => ⟨o, o.misaligned, o.misaligned⟩
      else if i.flush.isNone && !i.orderWait1 && !i.partialWait1 && !s.fwdBlocked1 i then none
      else s.retry1

/-- `split_load_resp_data` -/
def splitLoadResp (x : SplitLoad) : Option Word :=
  i.resp0.or ((i.fill.filter fun f => f.holds x.waitAddr).map fun f => f.dword x.waitAddr)

def nextSplit : Option SplitLoad :=
  if s.clears i (s.split.map (·.load.robIdx)) then none
  else
    match s.split with
    | none => (s.splitLoadStart i).map fun o => ⟨.req0, o.load, 0, 0, 0⟩
    | some x => x.turn (splitLoadResp i x) (s.splitLoadWbFire i).isSome

/-- An entry for a load that missed. -/
def allocated (o : LoadOp) : LmbEntry :=
  match s.missFill i o.load with
  | some f => ⟨true, true, o.load, f.extract o.load⟩
  | none => ⟨true, false, o.load, 0⟩

def emptied (e : LmbEntry) : LmbEntry := { e with valid := false, ready := false }

/-- The entry after the flush and with the load that takes it. -/
def lmbTaken (j : Fin 32) : LmbEntry :=
  let e := s.lmb j
  let e := if i.flush.isSome && e.valid && !s.keeps i e.load.robIdx then emptied e else e
  let e := ((s.lmbAlloc0 i).filter fun x => x.1 == j).elim e fun x => s.allocated i x.2
  ((s.lmbAlloc1 i).filter fun x => x.1 == j).elim e fun x => s.allocated i x.2

/-- The entry when its fill comes. -/
def lmbFilled (j : Fin 32) (e : LmbEntry) : LmbEntry :=
  if s.lmbFillMatch i j then
    if s.lmbWbPortFree i && s.lmbMatchIdx i == some j then emptied e
    else { e with
      ready := true
      data := (i.fill.map fun f => f.extract (s.lmb j).load).getD 0 }
  else e

def nextLmb (j : Fin 32) : LmbEntry :=
  if i.fullFlush then emptied (s.lmb j)
  else
    let e := s.lmbFilled i j (s.lmbTaken i j)
    let e :=
      if s.lmbWbPortFree i && (s.lmbMatchIdx i).isNone && s.lmbReadyIdx i == some j then emptied e
      else e
    if s.reprobeWbWon i == some j then emptied e else e

def nextLmbStall : Nat :=
  if (s.lmbReprobeIdx i).isSome && i.fill.isNone && (s.lmbMatchIdx i).isNone &&
      (s.lmbAlloc0 i).isNone && (s.lmbAlloc1 i).isNone then
    min 1023 (s.lmbStall + 1)
  else 0

def nextAmoStall : Nat :=
  if s.amo.waitLoad && (s.amoAnswer i).isNone && (s.amoIn i).issue.isNone &&
      !s.amoReprobeReqFire i && !s.amo.reprobing then
    min 1023 (s.amoStall + 1)
  else 0

def nextHold0 : FwdHold :=
  if s.clears i (s.hold0.map (·.1.robIdx)) then none
  else if (s.amoWbKept i).isSome || (s.kept i s.hold0).isSome then s.hit0 i else none

def nextHold1 : FwdHold :=
  if s.clears i (s.hold1.map (·.1.robIdx)) then none
  else if (s.kept i s.hold1).isSome || s.misalign1.any (fun l => s.keeps i l.robIdx) then s.hit1 i
  else none

def nextFwd0 : Option LoadResult :=
  if s.clears i (s.fwd0.map (·.load.robIdx)) then none
  else if s.fwdHoldBlocked i then s.fwd0
  else if i.flush.isSome then none
  else
    ((s.issue0 i).filter fun o =>
      (i.fwdHit0.isSome && o.amo.isNone) || o.misaligned).map fun o =>
        ⟨o.load, if o.misaligned then 0 else o.load.forwarded (i.fwdHit0.getD 0), o.misaligned⟩

def nextMisalign1 : Option MmioLoad :=
  if s.clears i (s.misalign1.map (·.robIdx)) then none
  else if s.misalign1.isNone && i.flush.isNone then
    ((s.issue1 i).filter LoadOp.misaligned).map (·.load)
  else none

/-- `p1_fwd_hold_valid_r` waits for port 1, and for a forwarded load that has to leave there. -/
def fwdWaits1 : Bool :=
  (s.kept i s.hold1).isSome || s.misalign1.any (fun l => s.keeps i l.robIdx) ||
    (s.hit1 i).isSome || (s.fwd0.isSome && i.resp0.isSome && s.pipe0.any fun x => !x.nocache)

def nextFwd1 : FwdHold :=
  if s.clears i (s.fwd1.map (·.1.robIdx)) then none
  else if s.fwd1.isSome then if s.fwdWaits1 i then s.fwd1 else none
  else if i.flush.isSome then none
  else
    ((s.eff1 i).filter fun x => !x.misalign).bind fun x =>
      i.fwdHit1.map fun raw => (x.op.load, x.op.load.forwarded raw)

def nextLife (m : LoadLife) : LoadLife where
  robIdx := m.robIdx
  fate :=
    if m.fate = .inFlight then
      if offset s.robHead m.robIdx < i.commitCount then .retired
      else if i.squashes s.robHead m.robIdx then .squashed else .inFlight
    else m.fate

def next : LoadUnit where
  robHead := if i.fullFlush then 0 else slotAt s.robHead i.commitCount
  pipe0 := s.nextPipe0 i
  pipe1 := s.nextPipe1 i
  last0 := s.nextLast i s.last0 s.pipe0
  last1 := s.nextLast i s.last1 s.pipe1
  retry0 := s.nextRetry0 i
  retry1 := s.nextRetry1 i
  split := s.nextSplit i
  mmio := s.mmio.next (s.mmioIn i) (s.fwd0.map fun x => (x.load, x.data))
  amo := s.amo.next (s.amoIn i)
  amoStall := s.nextAmoStall i
  fillBypass := (i.fill :: s.fillBypass).take 4
  lmb := s.nextLmb i
  reprobe := s.reprobeReqFire i
  lmbStall := s.nextLmbStall i
  hold0 := s.nextHold0 i
  hold1 := s.nextHold1 i
  fwd0 := s.nextFwd0 i
  misalign1 := s.nextMisalign1 i
  fwd1 := s.nextFwd1 i
  lives n :=
    match s.lives n with
    | some m => some (s.nextLife i m)
    | none => (i.enters n).map fun r => ⟨r, .inFlight⟩

/-- What the rest of the core keeps to. -/
structure Keeps : Prop where
  /-- The issue queue gives out loads in flight. -/
  issues : ∀ o, i.load0 = some o ∨ i.load1 = some o →
    ∃ m, s.lives o.load.seq = some m ∧ m.robIdx = o.load.robIdx ∧ m.fate = .inFlight
  /-- A partial flush keeps the instruction that asks for it. -/
  cut : ∀ n, i.flush = some (.upTo n) → 0 < n ∧ n ≤ robDepth

end LoadUnit

def loadRuns : Machine LoadUnit LoadIn where
  reset := .reset
  next s i := s.next i
  legal s i := s.Keeps i

namespace LoadUnit

/-- A flush of an earlier cycle has taken back the load at this place of the program. -/
def Squashed (s : LoadUnit) (seq : Nat) : Prop :=
  ∃ m, s.lives seq = some m ∧ m.fate = .squashed

/-- Nothing is heard any more of a load that was squashed: no writeback, no wakeup, no store. -/
structure Silent (s : LoadUnit) (i : LoadIn) : Prop where
  writebacks : ∀ x ∈ s.writebacks i, ¬ s.Squashed x.load.seq
  wakeups : ∀ l ∈ s.wakeups i, ¬ s.Squashed l.seq
  stores : ∀ a q, s.amo.current = some a → s.amo.storeReq = some q → ¬ s.Squashed a.tag.seq

/-- The device does not take the request for a load in the cycle in which that load is squashed, and
an atomic's read is not asked for again in the cycle of a full flush. -/
structure Severed (s : LoadUnit) (i : LoadIn) : Prop where
  request : ∀ l, s.mmio.accepted (s.mmioIn i) = some (.load l) → s.keeps i l.robIdx = true
  reprobe : i.fullFlush = true → s.amoReprobeReqFire i = false

end LoadUnit

end Rv64gc.Lsu
