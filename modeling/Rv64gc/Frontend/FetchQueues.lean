import Rv64gc.Frontend.PacketBuffer
import Rv64gc.Hdl.Fifo

/-!
# The queue of the cache's answers

`icache_resp_queue` holds four answers of the cache in a ring. Line fetch takes the head for the line
delivery is at, or keeps it in the future line. An answer that finds the queue full, or whose turn
comes while the future line is taken, is lost.
-/

namespace Rv64gc.Frontend

open Hdl

variable {α : Type}

abbrev RespQueue (α : Type) := Fifo 2 (RespEntry α)

structure RespIn (α : Type) where
  flush : Bool
  /-- `resp_*_i`, when `resp_valid_i` -/
  resp : Option (RespEntry α)
  deqReady : Bool

namespace RespQueue

variable (q : RespQueue α) (i : RespIn α)

def full : Bool := decide (q.count = 4)

/-- `deq_*_o`, when `deq_valid_o` -/
def deq : Option (RespEntry α) :=
  if i.flush then none else if q.count ≠ 0 then some (q.slot q.head) else i.resp

def deqFire : Bool := !i.flush && decide (q.count ≠ 0) && i.deqReady

/-- `bypass_path_c` -/
def bypass : Bool := !i.flush && decide (q.count = 0) && i.deqReady

/-- What is stored: `enq_fire_c`. -/
def enq : Option (RespEntry α) :=
  if !i.flush && (!full q || q.deqFire i) && !q.bypass i then i.resp else none

def next : RespQueue α :=
  if i.flush then { q with head := 0, tail := 0, count := 0 }
  else q.turn (if q.deqFire i then 1 else 0) (q.enq i).toList.length fun k =>
    match q.enq i with
    | some e => if k = q.tail then e else q.slot k
    | none => q.slot k

def reset [Inhabited (RespEntry α)] : RespQueue α := ⟨0, 0, 0, fun _ => default⟩

/-- What leaves, from the ring or past it. -/
def taken : Option (RespEntry α) := if i.deqReady then q.deq i else none

/-- What comes and is not dropped. -/
def accepted : Option (RespEntry α) := if q.bypass i then i.resp else q.enq i

end RespQueue

-- ---------------------------------------------------------------------
-- The ring of answers
-- ---------------------------------------------------------------------

namespace RespQueue

variable {q : RespQueue α} {i : RespIn α}

structure Sound (q : RespQueue α) : Prop where
  ring : Fifo.Sound q
  fits : q.count ≤ 4

theorem sound_reset [Inhabited (RespEntry α)] : Sound (reset : RespQueue α) :=
  ⟨⟨Nat.zero_le _, rfl⟩, Nat.zero_le _⟩

theorem dequeues_le (q : RespQueue α) (i : RespIn α) :
    (if q.deqFire i then 1 else 0) ≤ q.count := by
  split
  next fires =>
    simp only [deqFire, Bool.and_eq_true, decide_eq_true_eq] at fires
    omega
  next => omega

/-- An entry is stored in a free slot, or in the one that is left in the same cycle. -/
theorem room_of_enq (fits : q.count ≤ 4) (takes : q.enq i = some e) :
    q.count - (if q.deqFire i then 1 else 0) < 4 := by
  unfold enq at takes
  split at takes
  next free =>
    simp only [Bool.and_eq_true, Bool.or_eq_true, full, Bool.not_eq_true',
      decide_eq_false_iff_not] at free
    split
    next => omega
    next waits =>
      have other := free.1.2.resolve_right waits
      omega
  next => cases takes

theorem slotAt_apart {head : BitVec 2} {j k : Nat} (less : j < k) (near : k - j < 4) :
    slotAt head j ≠ slotAt head k := by
  intro same
  have toNat := congrArg BitVec.toNat same
  simp only [slotAt, BitVec.toNat_add, BitVec.toNat_ofNat] at toNat
  omega

theorem Sound.next (sound : Sound q) : Sound (q.next i) := by
  obtain ⟨⟨fits', tail⟩, fits⟩ := sound
  unfold RespQueue.next
  split
  next => exact ⟨⟨Nat.zero_le _, rfl⟩, Nat.zero_le _⟩
  next =>
    have few := dequeues_le q i
    have count : q.count + (q.enq i).toList.length - (if q.deqFire i then 1 else 0) ≤ 4 := by
      cases takes : q.enq i with
      | none =>
        simp only [Option.toList_none, List.length_nil]
        omega
      | some e =>
        have room := room_of_enq fits takes
        simp only [Option.toList_some, List.length_singleton]
        omega
    refine ⟨⟨count, ?_⟩, count⟩
    show slotAt q.tail _ = slotAt (slotAt q.head _) (q.count + _ - _)
    rw [tail, slotAt_slotAt, slotAt_slotAt]
    congr 1
    omega

/-- What a cycle does to the list. -/
theorem contents_next (sound : Sound q) (noFlush : i.flush = false) :
    (q.next i).contents =
      q.contents.drop (if q.deqFire i then 1 else 0) ++ (q.enq i).toList := by
  obtain ⟨⟨-, tail⟩, fits⟩ := sound
  have few := dequeues_le q i
  unfold RespQueue.next
  rw [noFlush]
  simp only [Bool.false_eq_true, if_false]
  cases takes : q.enq i with
  | none =>
    have law : (q.turn (if q.deqFire i then 1 else 0) 0 q.slot).contents.map id = _ :=
      Fifo.turn_contents id few fun _ _ _ => rfl
    simpa using law
  | some e =>
    have room := room_of_enq fits takes
    have law : (q.turn (if q.deqFire i then 1 else 0) 1
        fun k => if k = q.tail then e else q.slot k).contents.map id = _ :=
      Fifo.turn_contents id few ?_
    · simpa [tail] using law
    · intro k from_ below
      have other : slotAt q.head k ≠ q.tail := by
        rw [tail]
        exact slotAt_apart below (by omega)
      simp only [if_neg other]
      rfl

theorem contents_head (some_ : q.count ≠ 0) :
    ∃ rest, q.contents = q.slot q.head :: rest := by
  obtain ⟨n, count⟩ := Nat.exists_eq_succ_of_ne_zero some_
  refine ⟨(List.range n).map fun k => q.nth (k + 1), ?_⟩
  rw [Fifo.contents, count, List.range_succ_eq_map, List.map_cons, List.map_map]
  congr 1
  simp [Fifo.nth, slotAt]

/-- What was there and what comes is what leaves and what is there afterwards. -/
theorem conserved (sound : Sound q) (noFlush : i.flush = false) :
    q.contents ++ (q.accepted i).toList = (q.taken i).toList ++ (q.next i).contents := by
  rw [contents_next sound noFlush]
  by_cases empty : q.count = 0
  · have none_ : q.contents = [] := by
      rw [Fifo.contents, empty]
      rfl
    cases ready : i.deqReady with
    | false => simp [none_, accepted, taken, bypass, ready]
    | true => simp [none_, accepted, taken, bypass, ready, empty, noFlush, deq, enq]
  · obtain ⟨rest, contents⟩ := contents_head empty
    cases ready : i.deqReady with
    | false => simp [accepted, taken, bypass, ready, deqFire]
    | true => simp [contents, accepted, taken, bypass, ready, empty, noFlush, deq, deqFire]

end RespQueue

/-- The ring, and what has come and gone since the last flush. -/
structure RespRun (α : Type) where
  queue : RespQueue α
  accepted : List (RespEntry α)
  taken : List (RespEntry α)

def respRuns [Inhabited (RespEntry α)] : Machine (RespRun α) (RespIn α) where
  reset := ⟨.reset, [], []⟩
  next s i :=
    if i.flush then ⟨s.queue.next i, [], []⟩
    else ⟨s.queue.next i, s.accepted ++ (s.queue.accepted i).toList,
      s.taken ++ (s.queue.taken i).toList⟩
  legal _ _ := True

structure RespRun.InOrder (s : RespRun α) : Prop where
  sound : RespQueue.Sound s.queue
  order : s.accepted = s.taken ++ Fifo.contents s.queue

theorem RespRun.InOrder.next [Inhabited (RespEntry α)] {s : RespRun α} {i : RespIn α}
    (inOrder : s.InOrder) : (respRuns.next s i).InOrder := by
  cases flush : i.flush with
  | true =>
    simp only [respRuns, flush, if_true]
    refine ⟨inOrder.sound.next, ?_⟩
    simp [RespQueue.next, flush, Fifo.contents]
  | false =>
    simp only [respRuns, flush, Bool.false_eq_true, if_false]
    refine ⟨inOrder.sound.next, ?_⟩
    rw [inOrder.order, List.append_assoc, RespQueue.conserved inOrder.sound flush,
      List.append_assoc]

theorem resps_inOrder [Inhabited (RespEntry α)] {s : RespRun α}
    (reach : respRuns.Reachable s) : s.InOrder := by
  refine reach.invariant RespRun.InOrder ?_ fun _ _ _ inOrder _ _ => inOrder.next
  exact ⟨RespQueue.sound_reset, rfl⟩

-- ---------------------------------------------------------------------
-- What becomes of an answer
-- ---------------------------------------------------------------------

namespace LineFetch

variable (s : LineFetch α) (i : LineFetchIn α)

def icqIn : RespIn α := ⟨i.flush, s.mergedResp i, (s.icqDeq i).any (s.deqReady i)⟩

/-- An answer that comes to a full queue whose head stays. -/
def lostFull : Option (RespEntry α) :=
  match s.icq with
  | head :: rest =>
    if !i.flush && decide (rest.length + 1 = 4) && !s.deqReady i head then s.mergedResp i else none
  | [] => none

/-- `icq_future_overflow_drop_c` -/
def lostFuture : Option (RespEntry α) :=
  (s.icqDeq i).filter fun e => s.deqFuture i e && s.futureLine.isSome

/-- The answers of a cycle without a flush: the one that comes and the one at the head. -/
structure Fates : Prop where
  comes : ∀ r, s.mergedResp i = some r →
    r ∈ s.icqNext i ∨ (s.icqDeq i = some r ∧ s.deqReady i r = true) ∨ s.lostFull i = some r
  head : ∀ e, s.icqDeq i = some e →
    (s.deqReady i e = false ∧ (e ∈ s.icqNext i ∨ s.lostFull i = some e)) ∨
    s.deqStale i e = true ∨
    (∃ r, s.lineResp i = some r ∧ r.addr = lineOf e.pc) ∨
    s.futureLineNext i = some ⟨e.data, e.hit, e.pc, e.ftq⟩ ∨
    s.lostFuture i = some e

variable {s : LineFetch α} {i : LineFetchIn α} {e r : RespEntry α}

theorem comes_cases (noFlush : i.flush = false) (comes : s.mergedResp i = some r) :
    r ∈ s.icqNext i ∨ (s.icqDeq i = some r ∧ s.deqReady i r = true) ∨ s.lostFull i = some r := by
  unfold icqNext icqDeq lostFull
  rw [noFlush, comes]
  cases queue : s.icq with
  | nil =>
    cases ready : s.deqReady i r with
    | true => simp
    | false => simp [ready]
  | cons head rest =>
    cases ready : s.deqReady i head with
    | true => simp [ready]
    | false =>
      by_cases full : rest.length + 1 = 4
      · simp [ready, full]
      · simp [ready, full]

theorem delivered_of_match (head : s.icqDeq i = some e)
    (here : lineMatchesWork i e = true) (fresh : s.deqStale i e = false) :
    ∃ r, s.lineResp i = some r ∧ r.addr = lineOf e.pc := by
  unfold lineResp
  cases future : s.fromFuture i with
  | none =>
    refine ⟨⟨e.data, e.hit, lineOf e.pc⟩, ?_, rfl⟩
    simp [head, here, fresh]
  | some f =>
    refine ⟨⟨f.data, f.hit, lineOf f.pc⟩, rfl, ?_⟩
    have kept := (Option.filter_eq_some_iff.mp future).2
    simp only [Bool.and_eq_true, beq_iff_eq] at kept
    simp only [lineMatchesWork, beq_iff_eq] at here
    exact Option.some.inj (kept.1.1.symm.trans here)

theorem fates (noFlush : i.flush = false) (noFence : i.fenceI = false) : s.Fates i where
  comes _ := comes_cases noFlush
  head e head := by
    cases ready : s.deqReady i e with
    | false =>
      left
      refine ⟨rfl, ?_⟩
      have origin := head
      unfold icqDeq at origin
      rw [noFlush] at origin
      cases queue : s.icq with
      | nil =>
        simp only [queue, Bool.false_eq_true, if_false] at origin
        obtain stays | ⟨-, gone⟩ | lost := comes_cases noFlush origin
        · exact .inl stays
        · simp [ready] at gone
        · exact .inr lost
      | cons first rest =>
        simp only [queue, Bool.false_eq_true, if_false, Option.some.injEq] at origin
        subst origin
        left
        unfold icqNext
        rw [noFlush, queue]
        cases s.mergedResp i with
        | none => simp [ready]
        | some r =>
          by_cases full : rest.length + 1 = 4
          · simp [ready, full]
          · simp [ready, full]
    | true =>
      right
      cases stale : s.deqStale i e with
      | true => exact .inl rfl
      | false =>
        right
        cases here : lineMatchesWork i e with
        | true => exact .inl (delivered_of_match head here stale)
        | false =>
          right
          have waits : s.deqFuture i e = true := by
            simpa [deqReady, here, stale] using ready
          cases future : s.futureLine with
          | none =>
            left
            simp [futureLineNext, noFlush, noFence, fromFuture, future, head, waits]
          | some f =>
            right
            simp [lostFuture, head, waits, future, Option.filter]

/-- The queue of the line fetch is what the ring holds. -/
theorem icqNext_ring {q : RespQueue α} (sound : RespQueue.Sound q)
    (same : Fifo.contents q = s.icq) :
    Fifo.contents (RespQueue.next q (s.icqIn i)) = s.icqNext i := by
  have length : s.icq.length = q.count := by rw [← same, Fifo.length_contents]
  cases flush : i.flush with
  | true => simp [RespQueue.next, icqIn, icqNext, flush, Fifo.contents]
  | false =>
    rw [RespQueue.contents_next sound flush, same]
    cases queue : s.icq with
    | nil =>
      have empty : q.count = 0 := by rw [← length, queue]; rfl
      cases comes : s.mergedResp i with
      | none => simp [RespQueue.deqFire, RespQueue.enq, icqIn, icqNext, queue, empty, comes, flush]
      | some r =>
        cases ready : s.deqReady i r with
        | true =>
          simp [RespQueue.deqFire, RespQueue.enq, RespQueue.bypass, RespQueue.full, icqIn, icqNext,
            icqDeq, queue, empty, comes, flush, ready]
        | false =>
          simp [RespQueue.deqFire, RespQueue.enq, RespQueue.bypass, RespQueue.full, icqIn, icqNext,
            icqDeq, queue, empty, comes, flush, ready]
    | cons first rest =>
      have count : q.count = rest.length + 1 := by rw [← length, queue]; rfl
      cases ready : s.deqReady i first with
      | true =>
        cases comes : s.mergedResp i with
        | none =>
          simp [RespQueue.deqFire, RespQueue.enq, icqIn, icqNext, icqDeq, queue, count, comes, flush,
            ready]
        | some r =>
          simp [RespQueue.deqFire, RespQueue.enq, RespQueue.bypass, icqIn, icqNext, icqDeq, queue,
            count, comes, flush, ready]
      | false =>
        cases comes : s.mergedResp i with
        | none =>
          simp [RespQueue.deqFire, RespQueue.enq, icqIn, icqNext, icqDeq, queue, count, comes, flush,
            ready]
        | some r =>
          by_cases full : rest.length + 1 = 4
          · simp [RespQueue.deqFire, RespQueue.enq, RespQueue.bypass, RespQueue.full, icqIn, icqNext,
              icqDeq, queue, count, comes, flush, ready, full]
          · simp [RespQueue.deqFire, RespQueue.enq, RespQueue.bypass, RespQueue.full, icqIn, icqNext,
              icqDeq, queue, count, comes, flush, ready, full]

-- ---------------------------------------------------------------------
-- Without a request
-- ---------------------------------------------------------------------

/-- Nothing has been asked for that could be answered. -/
structure Unasked (s : LineFetch α) : Prop where
  cache : s.icache.s1Valid = false
  prefetch : s.nlpbResp = none

theorem Unasked.mergedResp (unasked : s.Unasked) (i : LineFetchIn α) : s.mergedResp i = none := by
  have fwd : s.icache.mshrFwd (icacheIn i) = none := by
    have none_ : ∀ f : Fill α, s.icache.forwards f = false := by
      intro f
      simp [Icache.forwards, unasked.cache]
    unfold Icache.mshrFwd
    cases (icacheIn i).fillResp with
    | none => simp [unasked.cache]
    | some f => simp [Option.filter, none_, unasked.cache]
  have answer : s.icResp i = none := by
    simp [icResp, Icache.resp, fwd, unasked.cache]
  simp [LineFetch.mergedResp, answer, nlpbRespMatch, unasked.prefetch]

theorem Unasked.run (unasked : s.Unasked) (inputs : List (LineFetchIn α))
    (quiet : ∀ j ∈ inputs, j.reqValid = false ∧ j.f1Valid = false) :
    (inputs.foldl LineFetch.next s).Unasked := by
  induction inputs generalizing s with
  | nil => exact unasked
  | cons j rest ih =>
    obtain ⟨noReq, noF1⟩ := quiet j List.mem_cons_self
    refine ih ⟨?_, ?_⟩ fun k on => quiet k (List.mem_cons_of_mem j on)
    · simp [LineFetch.next, Icache.next, icacheIn, icacheReqValid, noReq]
    · simp [LineFetch.next, nlpbRespNext, nlpbHit, noF1]

end LineFetch

-- ---------------------------------------------------------------------
-- All runs
-- ---------------------------------------------------------------------

/-- An answer is taken when there is room or one leaves, and passes an empty queue. -/
structure RespQueue.Takes (q : RespQueue α) : Prop where
  accepts : ∀ i e, i.flush = false → i.resp = some e → q.count < 4 ∨ (taken q i).isSome →
    accepted q i = some e
  passes : ∀ i e, i.flush = false → q.count = 0 → i.resp = some e → i.deqReady = true →
    accepted q i = some e ∧ taken q i = some e

theorem respQueue_takes (q : RespQueue α) : RespQueue.Takes q where
  accepts i e noFlush comes room := by
    unfold RespQueue.accepted
    cases passes : q.bypass i with
    | true => simpa using comes
    | false =>
      have free : q.count < 4 ∨ q.deqFire i = true := by
        refine room.imp id fun leaves => ?_
        cases ready : i.deqReady with
        | false => simp [RespQueue.taken, ready] at leaves
        | true =>
          have some_ : q.count ≠ 0 := by simpa [RespQueue.bypass, noFlush, ready] using passes
          simp [RespQueue.deqFire, noFlush, ready, some_]
      have open_ : (!RespQueue.full q || q.deqFire i) = true := by
        rw [Bool.or_eq_true]
        refine free.imp (fun few => ?_) id
        simp [RespQueue.full]
        omega
      simp [RespQueue.enq, noFlush, passes, open_, comes]
  passes i e noFlush empty comes ready := by
    simp [RespQueue.accepted, RespQueue.bypass, RespQueue.taken, RespQueue.deq, noFlush, empty,
      ready, comes]

namespace LineFetchIn

/-- Delivery is at line 0 of the owner with index 0; the next owner has index 1. -/
def quiet : LineFetchIn (BitVec 58) where
  flush := false
  redirectScrub := false
  fenceI := false
  reqValid := false
  reqAddr := 0
  instrVmActive := false
  itlbHit := false
  itlbPa := 0
  itlbFault := false
  f1Valid := false
  stall := false
  workValid := true
  workLine := some 0
  currentEpoch := 0
  ftqWbOwner := some (0, 0)
  ftqNextOwner := some (1, 1)
  reqOwner := some ⟨1, 0, 1⟩
  icacheFillReqAccepted := false
  icacheFillResp := none
  pfL2ReqReady := false
  pfL2Resp := none

def request (addr : Addr) : LineFetchIn (BitVec 58) :=
  { quiet with reqValid := true, reqAddr := addr }

def accepts : LineFetchIn (BitVec 58) := { quiet with icacheFillReqAccepted := true }

def answers (addr : Addr) : LineFetchIn (BitVec 58) :=
  { quiet with icacheFillResp := some ⟨addr, lineOf addr⟩ }

/-- Two lines of the next owner are fetched while delivery waits. -/
def twoLines : List (LineFetchIn (BitVec 58)) :=
  [request 0x40, quiet, accepts, request 0x40, answers 0x40,
    request 0x80, quiet, accepts, request 0x80]

end LineFetchIn

/-- Line fetch as the second line comes. -/
def secondLine : LineFetch (BitVec 58) := LineFetchIn.twoLines.foldl LineFetch.next .reset

theorem unasked_secondLine : (secondLine.next (.answers 0x80)).Unasked where
  cache := by decide +kernel
  prefetch := by
    have none_ : (secondLine.next (.answers 0x80)).nlpbResp.isNone := by decide +kernel
    exact Option.isNone_iff_eq_none.mp none_

end Rv64gc.Frontend
