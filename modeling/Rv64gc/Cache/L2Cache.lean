import Rv64gc.Hdl.Select

/-!
# The L2 cache

`l2_cache.sv`: four requesters share one lookup a cycle. A hit answers through a pipe of eight
stages, a miss waits in an MSHR for its victim to be written back and for memory, and a writeback of
the D-cache merges into the MSHR of its line. Memory answers reads in the order it took them.
`invalidate_all` is tied off in the core, so that its state machine rests.
-/

namespace Rv64gc.Cache

open Hdl

abbrev Addr := BitVec 64
abbrev Line := BitVec 58
abbrev SetIndex := BitVec 10
abbrev Tag := BitVec 48
abbrev LineData := BitVec 512

abbrev l2Ways : Nat := 8
abbrev l2MshrDepth : Nat := 32
abbrev l2HitLatency : Nat := 8
abbrev respqDepth : Nat := 4

def lineOf (a : Addr) : Line := a.extractLsb' 6 58
def setOf (a : Addr) : SetIndex := a.extractLsb' 6 10
def tagOf (a : Addr) : Tag := a.extractLsb' 16 48

inductive Source where
  | icache | dcache | prefetch | ptw
deriving DecidableEq

structure Way where
  valid : Bool
  dirty : Bool
  tag : Tag
  data : LineData
deriving DecidableEq

/-- `MSHR_IDLE` is an MSHR that is not valid. -/
inductive MshrState where
  | pending | waitMem | writeback | installWb
deriving DecidableEq

structure Mshr where
  addr : Addr
  source : Source
  state : MshrState
  isWriteback : Bool
  wbData : LineData
  fillWay : Fin l2Ways
  evictAddr : Addr
  evictData : LineData
  wbMerge : Option LineData
  /-- Which of the accepted requests this is; not in the hardware. -/
  id : Nat
deriving DecidableEq

structure Resp where
  addr : Addr
  data : LineData
  source : Source
  /-- Which of the accepted requests is answered; not in the hardware. -/
  id : Nat
deriving DecidableEq

structure L2 where
  /-- `tag_ram`, `valid_ram`, `dirty_ram` and `data_ram` -/
  way : SetIndex → Fin l2Ways → Way
  /-- The seven bits of the tree. -/
  plru : SetIndex → Fin 7 → Bool
  mshr : Fin l2MshrDepth → Option Mshr
  hitPipe : Fin l2HitLatency → Option Resp
  respq : List Resp
  rdOrder : List (Fin l2MshrDepth)
  /-- The requests accepted so far. -/
  accepted : Nat

structure L2In where
  /-- The data of a writeback, or a fill request. -/
  dcacheReq : Option (Addr × Option LineData)
  ptwReq : Option Addr
  icacheReq : Option Addr
  prefetchReq : Option Addr
  memReqReady : Bool
  memResp : Option LineData

/-- An arbitrated request. -/
structure Arb where
  addr : Addr
  wdata : Option LineData
  source : Source

namespace L2

def reset : L2 where
  way := fun _ _ => ⟨false, false, 0, 0⟩
  plru := fun _ _ => false
  mshr := fun _ => none
  hitPipe := fun _ => none
  respq := []
  rdOrder := []
  accepted := 0

variable (s : L2) (x : L2In)

-- ---------------------------------------------------------------------
-- The lookup
-- ---------------------------------------------------------------------

/-- D-cache, walker, I-cache, prefetch. -/
def arb : Option Arb :=
  (x.dcacheReq.map fun r => ⟨r.1, r.2, .dcache⟩).or <|
    (x.ptwReq.map fun a => ⟨a, none, .ptw⟩).or <|
      (x.icacheReq.map fun a => ⟨a, none, .icache⟩).or <|
        x.prefetchReq.map fun a => ⟨a, none, .prefetch⟩

/-- `lookup_reserved_ways` -/
def reserved (set : SetIndex) (w : Fin l2Ways) : Bool :=
  (firstOf fun i => (s.mshr i).any fun m => setOf m.addr == set && m.fillWay == w).isSome

/-- `hit_way` -/
def hitWay (a : Addr) : Option (Fin l2Ways) :=
  lastOf fun w =>
    (s.way (setOf a) w).valid && !s.reserved (setOf a) w && (s.way (setOf a) w).tag == tagOf a

/-- `plru_victim` -/
def plruVictim (set : SetIndex) : Fin l2Ways :=
  let ps := s.plru set
  if !ps 0 then
    if !ps 1 then if ps 3 then 1 else 0
    else if ps 4 then 3 else 2
  else if !ps 2 then if ps 5 then 5 else 4
  else if ps 6 then 7 else 6

/-- An invalid way, or else the first from the victim of the tree on that no MSHR has reserved. -/
def victimWay (set : SetIndex) : Option (Fin l2Ways) :=
  (firstOf fun w => !(s.way set w).valid && !s.reserved set w).or
    ((firstOf fun off => !s.reserved set (s.plruVictim set + off)).map (s.plruVictim set + ·))

/-- `need_evict` -/
def needEvict (set : SetIndex) (w : Fin l2Ways) : Bool := (s.way set w).valid && (s.way set w).dirty

def mshrFree : Option (Fin l2MshrDepth) := firstOf fun i => (s.mshr i).isNone

def mshrAddrMatch (a : Addr) : Bool :=
  (firstOf fun i => (s.mshr i).any fun m => lineOf m.addr == lineOf a).isSome

def inState (state : MshrState) : Option (Fin l2MshrDepth) :=
  firstOf fun i => (s.mshr i).any fun m => m.state == state

def readCanAccept (a : Addr) : Bool :=
  (s.hitWay a).isSome || !s.mshrAddrMatch a && s.mshrFree.isSome && (s.victimWay (setOf a)).isSome

def writeCanAccept (a : Addr) : Bool :=
  (s.hitWay a).isSome || s.mshrAddrMatch a || s.mshrFree.isSome && (s.victimWay (setOf a)).isSome

/-- `arb_fire`, with the request. -/
def fire : Option Arb :=
  (arb x).filter fun r => if r.wdata.isSome then s.writeCanAccept r.addr else s.readCanAccept r.addr

-- ---------------------------------------------------------------------
-- Responses
-- ---------------------------------------------------------------------

def hitResp : Option Resp := s.hitPipe (Fin.last _)

/-- `respq_deq_idx`: a queued response waits while the hit of this cycle is for its requester. -/
def respqDeq : Option (Fin s.respq.length) :=
  firstOf fun k => !s.hitResp.any fun h => s.respq[k].source == h.source

def respqCanAccept : Bool := s.respq.length != respqDepth || s.respqDeq.isSome

/-- `mshr_resp_idx`: memory answers the oldest read. -/
def mshrResp : Option (Fin l2MshrDepth × Mshr) :=
  s.rdOrder.head?.bind fun i =>
    ((s.mshr i).filter fun m => m.state == .waitMem).map fun m => (i, m)

/-- `mem_resp_wb_merge_now` -/
def wbMergeNow (m : Mshr) : Option LineData :=
  (s.fire x).bind fun r => if lineOf r.addr = lineOf m.addr then r.wdata else none

/-- `mem_resp_data_merged` -/
def respDataMerged (m : Mshr) (data : LineData) : LineData :=
  ((s.wbMergeNow x m).or m.wbMerge).getD data

/-- `mem_resp_capture && respq_can_accept`: the MSHR, and what memory has read. -/
def capture : Option (Fin l2MshrDepth × Mshr × LineData) :=
  x.memResp.bind fun data =>
    if s.respqCanAccept then s.mshrResp.map fun e => (e.1, e.2, data) else none

/-- The answer that comes of a fill. -/
def memAnswer : Option Resp :=
  (s.capture x).map fun c => ⟨c.2.1.addr, s.respDataMerged x c.2.1 c.2.2, c.2.1.source, c.2.1.id⟩

/-- `mem_resp_direct`: nothing is queued for the requester. -/
def memDirect : Option Resp :=
  (s.memAnswer x).filter fun r => !s.respq.any fun q => q.source == r.source

/-- `hit_resp_collision_enq` -/
def hitCollision : Bool := s.hitResp.any fun h => (s.memDirect x).any fun r => r.source == h.source

/-- What is queued in this cycle. -/
def respqEnq : Option Resp :=
  if s.hitCollision x then s.hitResp
  else if (s.memDirect x).isNone then s.memAnswer x
  else none

/-- The response to a requester. -/
def resp (source : Source) : Option Resp :=
  ((s.memDirect x).filter fun r => r.source == source).or <|
    (s.hitResp.filter fun r => r.source == source).or <|
      (s.respqDeq.map fun k => s.respq[k]).filter fun r => r.source == source

-- ---------------------------------------------------------------------
-- Memory requests
-- ---------------------------------------------------------------------

/-- A writeback of a victim goes first. -/
def wbIssue : Option (Fin l2MshrDepth) := if x.memReqReady then s.inState .writeback else none

/-- `rd_issue_fire` -/
def rdIssue : Option (Fin l2MshrDepth) :=
  if s.respqCanAccept && x.memReqReady && (s.inState .writeback).isNone then s.inState .pending
  else none

-- ---------------------------------------------------------------------
-- One cycle
-- ---------------------------------------------------------------------

/-- A miss takes a free MSHR; a write that meets the MSHR of its line merges instead. -/
def alloc : Option (Fin l2MshrDepth × Mshr) :=
  (s.fire x).bind fun r =>
    if (s.hitWay r.addr).isSome || s.mshrAddrMatch r.addr then none
    else s.mshrFree.bind fun i => (s.victimWay (setOf r.addr)).map fun w =>
      (i, {
        addr := r.addr
        source := r.source
        state :=
          if s.needEvict (setOf r.addr) w then .writeback
          else if r.wdata.isSome then .installWb else .pending
        isWriteback := r.wdata.isSome
        wbData := r.wdata.getD 0
        fillWay := w
        evictAddr := (s.way (setOf r.addr) w).tag ++ setOf r.addr ++ 0#6
        evictData := (s.way (setOf r.addr) w).data
        wbMerge := none
        id := s.accepted })

/-- The next state of an MSHR that stays. -/
def advance (i : Fin l2MshrDepth) (m : Mshr) : Mshr :=
  { m with
    wbMerge := (s.wbMergeNow x m).or m.wbMerge
    state :=
      if s.wbIssue x = some i then if m.isWriteback then .installWb else .pending
      else if s.rdIssue x = some i then .waitMem
      else m.state }

def mshrNext (i : Fin l2MshrDepth) : Option Mshr :=
  if s.inState .installWb = some i ∨ (s.capture x).map Prod.fst = some i then none
  else match s.alloc x with
    | some (k, m) => if k = i then some m else (s.mshr i).map (s.advance x i)
    | none => (s.mshr i).map (s.advance x i)

/-- The writeback whose line is installed. -/
def install : Option Mshr := (s.inState .installWb).bind s.mshr

def wayNext (set : SetIndex) (w : Fin l2Ways) : Way :=
  match (s.capture x).filter fun c => setOf c.2.1.addr == set && c.2.1.fillWay == w with
  | some (_, m, data) => ⟨true, m.wbMerge.isSome, tagOf m.addr, s.respDataMerged x m data⟩
  | none => match s.install.filter fun m => setOf m.addr == set && m.fillWay == w with
    | some m => ⟨true, true, tagOf m.addr, m.wbMerge.getD m.wbData⟩
    | none => match (s.fire x).filter fun r => setOf r.addr == set && s.hitWay r.addr == some w with
      | some ⟨_, some data, _⟩ => { s.way set w with dirty := true, data := data }
      | _ => s.way set w

/-- Every bit on the way to the leaf points away from it. -/
def plruUpdate (ps : Fin 7 → Bool) (w : Fin l2Ways) : Fin 7 → Bool :=
  let b (n : Nat) : Bool := w.val.testBit n
  fun n => match n with
    | 0 => !b 2
    | 1 => if b 2 then ps 1 else !b 1
    | 2 => if b 2 then !b 1 else ps 2
    | 3 => if b 2 || b 1 then ps 3 else !b 0
    | 4 => if b 2 || !b 1 then ps 4 else !b 0
    | 5 => if b 2 && !b 1 then !b 0 else ps 5
    | 6 => if b 2 && b 1 then !b 0 else ps 6

def plruNext (set : SetIndex) : Fin 7 → Bool :=
  match (s.capture x).filter fun c => setOf c.2.1.addr == set with
  | some (_, m, _) => plruUpdate (s.plru set) m.fillWay
  | none => match s.install.filter fun m => setOf m.addr == set with
    | some m => plruUpdate (s.plru set) m.fillWay
    | none => match (s.fire x).filter fun r => setOf r.addr == set with
      | some r => (s.hitWay r.addr).elim (s.plru set) (plruUpdate (s.plru set))
      | none => s.plru set

/-- `hit_pipe[0]` -/
def hitStart : Option Resp :=
  (s.fire x).bind fun r =>
    if r.wdata.isSome then none
    else (s.hitWay r.addr).map fun w => ⟨r.addr, (s.way (setOf r.addr) w).data, r.source, s.accepted⟩

def next : L2 where
  way := s.wayNext x
  plru := s.plruNext x
  mshr := s.mshrNext x
  hitPipe := Fin.cases (s.hitStart x) fun k => s.hitPipe k.castSucc
  respq := (s.respqDeq.elim s.respq fun k => s.respq.eraseIdx k) ++ (s.respqEnq x).toList
  rdOrder := (if (s.capture x).isSome then s.rdOrder.tail else s.rdOrder) ++ (s.rdIssue x).toList
  accepted := if (s.fire x).isSome then s.accepted + 1 else s.accepted

end L2

end Rv64gc.Cache
