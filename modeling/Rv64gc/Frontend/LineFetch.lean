import Rv64gc.Frontend.Nlpb

/-!
# Line fetch

`ifu_line_fetch`: the cache and the prefetch buffer behind one request port, the queue of the
cache's answers, and the two line registers delivery reads before the queue.
-/

namespace Rv64gc.Frontend

/-- The fetch target a line was requested for. -/
structure FtqId where
  idx : BitVec 5
  epoch : BitVec 4
  allocTag : BitVec 16
deriving DecidableEq

/-- An entry of `icache_resp_queue`. -/
structure RespEntry (α : Type) where
  data : α
  hit : Bool
  pc : Addr
  ftqValid : Bool
  ftq : FtqId

structure LineState (α : Type) where
  addr : BitVec 58
  data : α
  epoch : BitVec 4

structure FutureLine (α : Type) where
  data : α
  hit : Bool
  pc : Addr
  ftq : FtqId

structure LineFetch (α : Type) where
  icache : Icache α
  nlpb : Nlpb α
  /-- Depth 4, head first. -/
  icq : List (RespEntry α)
  /-- `nlpb_resp_addr_r` and `nlpb_resp_data_r`, when `nlpb_resp_valid_r` -/
  nlpbResp : Option (Fill α)
  icReqAddrPipe : Addr
  icReqFtqPipe : Option FtqId
  redirectScrub : Bool
  lineState : Option (LineState α)
  futureLine : Option (FutureLine α)

structure LineFetchIn (α : Type) where
  flush : Bool
  redirectScrub : Bool
  fenceI : Bool
  reqValid : Bool
  reqAddr : Addr
  instrVmActive : Bool
  itlbHit : Bool
  itlbPa : Addr
  itlbFault : Bool
  f1Valid : Bool
  stall : Bool
  workValid : Bool
  /-- `work_line_addr_i`, when `work_line_valid_i` -/
  workLine : Option (BitVec 58)
  currentEpoch : BitVec 4
  ftqWbOwner : Option (BitVec 5 × BitVec 16)
  ftqNextOwner : Option (BitVec 5 × BitVec 16)
  reqOwner : Option FtqId
  icacheFillReqAccepted : Bool
  icacheFillResp : Option (Fill α)
  pfL2ReqReady : Bool
  pfL2Resp : Option (Fill α)

/-- `line_resp_*` -/
structure LineResp (α : Type) where
  data : α
  hit : Bool
  addr : BitVec 58

namespace LineFetch

variable (s : LineFetch α) (i : LineFetchIn α)

-- ---------------------------------------------------------------------
-- The request and the cache's answer
-- ---------------------------------------------------------------------

def icacheReqValid : Bool :=
  i.reqValid && !i.flush && (!i.instrVmActive || (i.itlbHit && !i.itlbFault))

def icacheIn : IcacheIn α where
  reqValid := icacheReqValid i
  reqAddr := i.reqAddr
  reqPa := if i.instrVmActive then i.itlbPa else i.reqAddr
  fillReqAccepted := i.icacheFillReqAccepted
  fillResp := i.icacheFillResp
  invalidateAll := i.fenceI

def icResp : Option (IcacheResp α) := s.icache.resp (icacheIn i)

/-- The line after the one being requested is prefetched when the cache hits. -/
def nlpbTrigger : Option Addr :=
  match s.icResp i with
  | some r => if !i.instrVmActive && r.hit then some (lineAddr (lineOf i.reqAddr)) else none
  | none => none

def nlpbIn : NlpbIn α where
  trigger := s.nlpbTrigger i
  flush := i.flush
  fenceI := i.fenceI
  pfReqReady := i.pfL2ReqReady
  pfResp := i.pfL2Resp

/-- `nlpb_hit_data`, when `hit` -/
def nlpbHit : Option α :=
  if i.f1Valid && !i.stall && !i.instrVmActive then s.nlpb.lookup i.reqAddr else none

/-- `nlpb_resp_data_r`, when `nlpb_resp_match_c` -/
def nlpbRespMatch : Option α :=
  (s.nlpbResp.filter fun r => i.workLine == some (lineOf r.addr)).map Fill.data

/-- `merged_resp_*`: what enters the queue. -/
def mergedResp : Option (RespEntry α) :=
  let entry (data : α) (hit : Bool) : RespEntry α :=
    ⟨data, hit, s.icReqAddrPipe, s.icReqFtqPipe.isSome, s.icReqFtqPipe.getD ⟨0, 0, 0⟩⟩
  match s.icResp i, s.nlpbRespMatch i with
  | some r, other => some (entry r.data (r.hit || other.isSome))
  | none, some d => some (entry d true)
  | none, none => none

-- ---------------------------------------------------------------------
-- The head of the queue
-- ---------------------------------------------------------------------

/-- `icq_deq_*`: an empty queue passes the answer through. -/
def icqDeq : Option (RespEntry α) :=
  if i.flush then none
  else match s.icq with
    | e :: _ => some e
    | [] => s.mergedResp i

variable (e : RespEntry α)

def ownedBy (owner : Option (BitVec 5 × BitVec 16)) : Bool :=
  e.ftqValid && e.ftq.epoch == i.currentEpoch && owner == some (e.ftq.idx, e.ftq.allocTag)

def currentOwnerMatch : Bool := ownedBy i e i.ftqWbOwner
def nextOwnerMatch : Bool := ownedBy i e i.ftqNextOwner

def lineMatchesWork : Bool := i.workLine == some (lineOf e.pc)

def deqUnownedStale : Bool :=
  e.ftqValid && i.ftqWbOwner.isSome && !currentOwnerMatch i e && !nextOwnerMatch i e

def deqPriorOwnerLine : Bool :=
  currentOwnerMatch i e && i.workLine.any fun line => lineOf e.pc < line

def deqRedirectStale : Bool :=
  s.redirectScrub && currentOwnerMatch i e && i.workLine.isSome && !lineMatchesWork i e

def deqStale : Bool :=
  !e.ftqValid || e.ftq.epoch != i.currentEpoch || deqUnownedStale i e ||
    deqPriorOwnerLine i e || s.deqRedirectStale i e

/-- The head is for a line delivery has not reached: it waits in the future line, and is lost when
that is taken. -/
def deqFuture : Bool :=
  !lineMatchesWork i e && !s.deqStale i e && (currentOwnerMatch i e || nextOwnerMatch i e)

def deqReady : Bool := lineMatchesWork i e || s.deqStale i e || s.deqFuture i e

-- ---------------------------------------------------------------------
-- Delivery
-- ---------------------------------------------------------------------

/-- The future line, when `future_line_match_c`. -/
def fromFuture : Option (FutureLine α) :=
  s.futureLine.filter fun f =>
    i.workLine == some (lineOf f.pc) && f.ftq.epoch == i.currentEpoch &&
      i.ftqWbOwner == some (f.ftq.idx, f.ftq.allocTag)

def lineResp : Option (LineResp α) :=
  match s.fromFuture i with
  | some f => some ⟨f.data, f.hit, lineOf f.pc⟩
  | none =>
    match s.icqDeq i with
    | some e =>
      if lineMatchesWork i e && !s.deqStale i e then some ⟨e.data, e.hit, lineOf e.pc⟩ else none
    | none => none

/-- The line register, when `line_state_match_c`. -/
def lineStateMatch : Option (LineState α) :=
  s.lineState.filter fun l => i.workLine == some l.addr && l.epoch == i.currentEpoch

/-- `data_line_o`, when `data_valid_o` -/
def dataLine : Option α :=
  match s.lineResp i with
  | some r => some r.data
  | none => (s.lineStateMatch i).map LineState.data

-- ---------------------------------------------------------------------
-- The clock edge
-- ---------------------------------------------------------------------

def icqNext : List (RespEntry α) :=
  if i.flush then []
  else match s.icq, s.mergedResp i with
    | [], none => []
    | [], some r => if s.deqReady i r then [] else [r]
    | e :: rest, none => if s.deqReady i e then rest else e :: rest
    | e :: rest, some r =>
      if s.deqReady i e then rest ++ [r]
      else if rest.length + 1 = 4 then e :: rest else e :: rest ++ [r]

def nlpbRespNext : Option (Fill α) :=
  if i.flush then none else (s.nlpbHit i).map fun d => ⟨lineAddr (lineOf i.reqAddr), d⟩

def lineStateNext : Option (LineState α) :=
  if i.flush || i.fenceI then none
  else match s.lineResp i with
    | some r => if i.workValid then some ⟨r.addr, r.data, i.currentEpoch⟩ else s.lineState
    | none => s.lineState

def futureLineNext : Option (FutureLine α) :=
  if i.flush || i.fenceI then none
  else if (s.fromFuture i).isSome then none
  else match s.icqDeq i, s.futureLine with
    | some e, none => if s.deqFuture i e then some ⟨e.data, e.hit, e.pc, e.ftq⟩ else none
    | _, f => f

def next : LineFetch α where
  icache := s.icache.next (icacheIn i)
  nlpb := s.nlpb.next (s.nlpbIn i)
  icq := s.icqNext i
  nlpbResp := s.nlpbRespNext i
  icReqAddrPipe := if !i.flush && icacheReqValid i then i.reqAddr else s.icReqAddrPipe
  icReqFtqPipe := if !i.flush && icacheReqValid i then i.reqOwner else none
  redirectScrub :=
    if i.flush then false
    else if i.redirectScrub then true
    else if (s.lineResp i).isSome then false
    else s.redirectScrub
  lineState := s.lineStateNext i
  futureLine := s.futureLineNext i

def reset [Inhabited α] : LineFetch α where
  icache := .reset
  nlpb := .reset
  icq := []
  nlpbResp := none
  icReqAddrPipe := 0
  icReqFtqPipe := none
  redirectScrub := false
  lineState := none
  futureLine := none

-- ---------------------------------------------------------------------
-- What line fetch holds
-- ---------------------------------------------------------------------

/-- Every line that can still be delivered has the property. -/
structure Holds (P : α → Prop) (s : LineFetch α) : Prop where
  icache : s.icache.Holds P
  nlpb : s.nlpb.Holds P
  icq : ∀ e ∈ s.icq, P e.data
  nlpbResp : ∀ r ∈ s.nlpbResp, P r.data
  lineState : ∀ l ∈ s.lineState, P l.data
  futureLine : ∀ f ∈ s.futureLine, P f.data

/-- What a cycle answers fetch with has the property. -/
structure Serves (P : α → Prop) (s : LineFetch α) (i : LineFetchIn α) : Prop where
  icache : i.flush = false → ∀ r, s.icResp i = some r → P r.data
  delivered : ∀ d, s.dataLine i = some d → P d

variable {s : LineFetch α} {i : LineFetchIn α} {e : RespEntry α} {P : α → Prop}

theorem holds_reset [Inhabited α] : (reset : LineFetch α).Holds P where
  icache := Icache.holds_reset
  nlpb := Nlpb.holds_reset
  icq := nofun
  nlpbResp := nofun
  lineState := nofun
  futureLine := nofun

theorem Holds.nlpbRespMatch (held : s.Holds P) (found : s.nlpbRespMatch i = some d) : P d := by
  obtain ⟨r, kept, rfl⟩ := Option.map_eq_some_iff.mp found
  exact held.nlpbResp r (Option.filter_eq_some_iff.mp kept).1

theorem Holds.mergedResp (held : s.Holds P) (answers : ∀ r, s.icResp i = some r → P r.data)
    (merged : s.mergedResp i = some e) : P e.data := by
  unfold LineFetch.mergedResp at merged
  split at merged
  next _ r answer =>
    cases merged
    exact answers r answer
  next d _ found =>
    cases merged
    exact held.nlpbRespMatch found
  next => cases merged

/-- The queue hands out what it holds, or the answer of this cycle. -/
theorem Holds.icqDeq (held : s.Holds P)
    (answers : i.flush = false → ∀ r, s.icResp i = some r → P r.data)
    (deq : s.icqDeq i = some e) : P e.data := by
  unfold LineFetch.icqDeq at deq
  split at deq
  next => cases deq
  next noFlush =>
    split at deq
    next head _ queue =>
      cases deq
      exact held.icq _ (by simp [queue])
    next => exact held.mergedResp (answers (by simpa using noFlush)) deq

theorem Holds.lineResp (held : s.Holds P)
    (answers : i.flush = false → ∀ r, s.icResp i = some r → P r.data)
    (answer : s.lineResp i = some r) : P r.data := by
  unfold LineFetch.lineResp at answer
  split at answer
  next f future =>
    cases answer
    exact held.futureLine f (Option.filter_eq_some_iff.mp future).1
  next =>
    split at answer
    next e deq =>
      split at answer
      next =>
        cases answer
        exact held.icqDeq answers deq
      next => cases answer
    next => cases answer

theorem Holds.serves (held : s.Holds P)
    (answers : i.flush = false → ∀ r, s.icResp i = some r → P r.data) : s.Serves P i where
  icache := answers
  delivered d data := by
    unfold dataLine at data
    split at data
    next r answer =>
      cases data
      exact held.lineResp answers answer
    next =>
      obtain ⟨l, kept, rfl⟩ := Option.map_eq_some_iff.mp data
      exact held.lineState l (Option.filter_eq_some_iff.mp kept).1

theorem Holds.icqNext (held : s.Holds P)
    (answers : i.flush = false → ∀ r, s.icResp i = some r → P r.data) :
    ∀ e ∈ s.icqNext i, P e.data := by
  intro e mem
  unfold LineFetch.icqNext at mem
  split at mem
  next => cases mem
  next noFlush =>
    have merged := held.mergedResp (e := e) (answers (by simpa using noFlush))
    have queued := held.icq e
    split at mem
    next => cases mem
    next r queue resp =>
      split at mem
      next => cases mem
      next => exact merged (by simp_all)
    next head rest queue resp =>
      refine queued (queue ▸ ?_)
      split at mem
      next => exact List.mem_cons_of_mem _ mem
      next => exact mem
    next head rest r queue resp =>
      have either : e ∈ s.icq ∨ e = r := by
        rw [queue]
        split at mem
        next =>
          obtain old | new := List.mem_append.mp mem
          · exact .inl (List.mem_cons_of_mem _ old)
          · exact .inr (List.mem_singleton.mp new)
        next =>
          split at mem
          next => exact .inl mem
          next =>
            obtain old | new := List.mem_append.mp mem
            · exact .inl old
            · exact .inr (List.mem_singleton.mp new)
      rcases either with old | rfl
      · exact queued old
      · exact merged resp

theorem Holds.next (held : s.Holds P) (serves : s.Serves P i)
    (fill : ∀ f m, i.icacheFillResp = some f → s.icache.awaits f m = true → P f.data)
    (prefetch : ∀ f, i.pfL2Resp = some f → s.nlpb.Keeps (s.nlpbIn i) f → P f.data) :
    (s.next i).Holds P where
  icache := held.icache.next fill
  nlpb := held.nlpb.next prefetch
  icq := held.icqNext serves.icache
  nlpbResp r mem := by
    simp only [LineFetch.next, nlpbRespNext, Option.mem_def] at mem
    split at mem
    next => cases mem
    next =>
      obtain ⟨d, hit, rfl⟩ := Option.map_eq_some_iff.mp mem
      unfold nlpbHit at hit
      split at hit
      next => exact held.nlpb.lookup hit
      next => cases hit
  lineState l mem := by
    simp only [LineFetch.next, lineStateNext, Option.mem_def] at mem
    split at mem
    next => cases mem
    next =>
      split at mem
      next r answer =>
        split at mem
        next =>
          cases mem
          exact held.lineResp serves.icache answer
        next => exact held.lineState l mem
      next => exact held.lineState l mem
  futureLine f mem := by
    simp only [LineFetch.next, futureLineNext, Option.mem_def] at mem
    split at mem
    next => cases mem
    next =>
      split at mem
      next => cases mem
      next =>
        split at mem
        next e deq _ =>
          split at mem
          next =>
            cases mem
            exact held.icqDeq serves.icache deq
          next => cases mem
        next => exact held.futureLine f mem

/-- A fence empties everything, as it redirects fetch in the same cycle. -/
theorem holds_fenced (fence : i.fenceI = true) (flush : i.flush = true) :
    (s.next i).Holds P where
  icache := Icache.holds_invalidated fence (by simp [icacheIn, icacheReqValid, flush])
  nlpb := Nlpb.holds_fenced fence
  icq := by simp [next, icqNext, flush]
  nlpbResp := by simp [next, nlpbRespNext, flush]
  lineState := by simp [next, lineStateNext, flush]
  futureLine := by simp [next, futureLineNext, flush]

end LineFetch

end Rv64gc.Frontend
