import Rv64gc.Hdl.Progress
import Rv64gc.Mmu.Ptw

/-!
# The walker in a run

Walks, answers of the L2, flushes and invalidations come in any order. The walker keeps one flag for
an answer that comes too late and one register for a page that a store has made dirty. Beside it stand
the numbers of the walks and invalidations, and what has been written to memory.
-/

namespace Rv64gc.Mmu

open Hdl

structure WalkerRun where
  ptw : Ptw
  /-- The invalidations so far. -/
  epoch : Nat
  /-- The walks so far; the last is the one under way. -/
  walk : Nat
  /-- The invalidations before it. -/
  since : Nat
  /-- The read that the L2 has not answered, with the walk that asked for it. -/
  sent : Option (Pa × Nat)
  /-- The walk has met a leaf whose A or D bit it has to set. -/
  owes : Bool
  /-- How often the leaf of the walk has been written. -/
  wrote : Nat
  /-- The pages the DTLB has marked dirty, and the marks that have been written, oldest first. -/
  marks : List (Pa × BitVec 64)
  marked : List (Pa × BitVec 64)

namespace WalkerRun

def reset : WalkerRun := ⟨.reset, 0, 0, 0, none, false, 0, [], []⟩

variable (s : WalkerRun) (x : PtwIn)

/-- The walker takes a request. -/
def starts : Bool :=
  !x.flushes && s.ptw.state == .idle && !s.ptw.staleRespPending && s.ptw.dirtyWb.isNone &&
    (x.dtlbReq.isSome || x.itlbReq.isSome)

/-- The walk gets a page-table entry. -/
def reads : Option (BitVec 64) :=
  if !x.flushes && s.ptw.state == .wait then s.ptw.pteResp x else none

/-- The D-cache takes the leaf of the walk. -/
def writesLeaf : Bool :=
  s.ptw.state == .adWriteback && s.ptw.adWbReturnFill && x.dcacheStoreAck

/-- The D-cache takes a mark. -/
def writesMark : Bool :=
  s.ptw.state == .adWriteback && !s.ptw.adWbReturnFill && x.dcacheStoreAck

def next : WalkerRun where
  ptw := s.ptw.next x
  epoch := if x.translationFlush then s.epoch + 1 else s.epoch
  walk := if s.starts x then s.walk + 1 else s.walk
  since := if s.starts x then s.epoch else s.since
  sent :=
    if x.l2ReqAccepted then some (s.ptw.l2ReqAddr, s.walk)
    else if x.l2Resp.isSome then none else s.sent
  owes := (s.reads x).elim s.owes fun pte => s.ptw.pteAdUpdateNeeded pte
  wrote := if s.starts x then 0 else if s.writesLeaf x then s.wrote + 1 else s.wrote
  marks := s.marks ++ if s.ptw.dirtyWbReady then x.dirtyWb.toList else []
  marked := if s.writesMark x then s.marked ++ [(s.ptw.adWbPa, s.ptw.adWbValue)] else s.marked

/-- The L2 takes requests that are made and answers each once. -/
structure Keeps : Prop where
  accepts : x.l2ReqAccepted = true → s.ptw.l2ReqValid = true
  answers : ∀ r, x.l2Resp = some r → ∃ w, s.sent = some (r.addr, w)

end WalkerRun

def walkerRuns : Machine WalkerRun PtwIn where
  reset := .reset
  next s x := s.next x
  legal s x := s.Keeps x

namespace WalkerRun

/-- The walker takes the next miss, unless a flush arrives with it. -/
def Ready (s : WalkerRun) : Prop :=
  s.ptw.state = .idle ∧ s.ptw.staleRespPending = false ∧ s.ptw.dirtyWb = none

/-- In a cycle each walk keeps to itself. -/
structure Apart (s : WalkerRun) (x : PtwIn) : Prop where
  /-- A page-table entry is the answer to a read of the walk that takes it. -/
  answers : ∀ pte, s.reads x = some pte → ∃ pa, s.sent = some (pa, s.walk)
  /-- A TLB is filled by a walk that began after the last invalidation, this cycle's included. -/
  fills : ∀ itlb t, s.ptw.fillFor itlb = some t → s.since = s.epoch
  /-- A fill follows the one write of its leaf, if the leaf had to be written. -/
  leaf : s.ptw.state = .fill → s.wrote = if s.owes then 1 else 0
  /-- Each mark has been written once or waits. -/
  marks : s.marks = s.marked ++ s.ptw.dirtyWb.toList

/-- No flush arrives in the cycle in which the D-cache takes a mark. -/
def AckHeard (s : WalkerRun) (x : PtwIn) : Prop := s.writesMark x = true → x.flushes = false

/-- The L2 and the D-cache serve the walker in the end, and flushes stay away. -/
structure Served (state : Nat → WalkerRun) (input : Nat → PtwIn) : Prop where
  quiet : ∀ n, (input n).flushes = false
  accepts : ∀ n, (∀ k, n ≤ k → (state k).ptw.state = .req) →
    ∃ k, n ≤ k ∧ (input k).l2ReqAccepted = true
  answers : ∀ n, (∀ k, n ≤ k → (state k).sent.isSome = true) →
    ∃ k, n ≤ k ∧ (input k).l2Resp.isSome = true
  acks : ∀ n, (∀ k, n ≤ k → (state k).ptw.state = .adWriteback) →
    ∃ k, n ≤ k ∧ (input k).dcacheStoreAck = true

-- ---------------------------------------------------------------------
-- The invariant
-- ---------------------------------------------------------------------

variable {s : WalkerRun} {x : PtwIn}

/-- A walk is under way, and not a mark. -/
def Walking (s : WalkerRun) : Prop :=
  s.ptw.state ≠ .idle ∧ (s.ptw.state = .adWriteback → s.ptw.adWbReturnFill = true)

structure Tracked (s : WalkerRun) : Prop where
  reads : s.ptw.Reads (s.sent.map Prod.fst)
  own : ∀ pa w, s.sent = some (pa, w) → s.ptw.state = .wait → w = s.walk
  late : s.ptw.staleRespPending = true → s.sent.isSome = true
  since : s.Walking → s.since = s.epoch
  unwritten : s.ptw.state = .req ∨ s.ptw.state = .wait → s.wrote = 0
  leaf : s.ptw.state = .adWriteback → s.ptw.adWbReturnFill = true → s.wrote = 0 ∧ s.owes = true
  filled : s.ptw.state = .fill → s.wrote = if s.owes then 1 else 0
  mark : s.ptw.state = .adWriteback → s.ptw.adWbReturnFill = false →
    s.ptw.dirtyWb = some (s.ptw.adWbPa, s.ptw.adWbValue)
  marks : s.marks = s.marked ++ s.ptw.dirtyWb.toList

-- ---------------------------------------------------------------------
-- What a cycle does to the walker
-- ---------------------------------------------------------------------

/-- Where the walker goes from where it was, in a cycle without a flush. -/
inductive Moves (s : WalkerRun) (x : PtwIn) : Prop
  | stays (same : s.ptw.walk x = s.ptw) (start : s.starts x = false) (pte : s.reads x = none)
      (write : s.ptw.state = .adWriteback → x.dcacheStoreAck = false)
  | begins (start : s.starts x = true)
      (state : (s.ptw.walk x).state = .req ∨ (s.ptw.walk x).state = .fault)
  | marks (idle : s.ptw.state = .idle) (state : (s.ptw.walk x).state = .adWriteback)
      (mark : (s.ptw.walk x).adWbReturnFill = false)
      (pending : s.ptw.dirtyWb = some ((s.ptw.walk x).adWbPa, (s.ptw.walk x).adWbValue))
  | asks (req : s.ptw.state = .req) (accepted : x.l2ReqAccepted = true)
      (state : (s.ptw.walk x).state = .wait)
  | answered (pte : BitVec 64) (wait : s.ptw.state = .wait) (gets : s.reads x = some pte)
      (state : (s.ptw.walk x).state = .req ∨ (s.ptw.walk x).state = .fault ∨
        (s.ptw.walk x).state = .fill ∧ s.ptw.pteAdUpdateNeeded pte = false ∨
        (s.ptw.walk x).state = .adWriteback ∧ (s.ptw.walk x).adWbReturnFill = true ∧
          s.ptw.pteAdUpdateNeeded pte = true)
  | acked (wb : s.ptw.state = .adWriteback) (ack : x.dcacheStoreAck = true)
      (state : (s.ptw.walk x).state = if s.ptw.adWbReturnFill then .fill else .idle)
  | ends (last : s.ptw.state = .fill ∨ s.ptw.state = .fault)
      (state : (s.ptw.walk x).state = .idle)

theorem moves (quiet : x.flushes = false) : s.Moves x := by
  cases state : s.ptw.state with
  | idle =>
    cases stale : s.ptw.staleRespPending with
    | true =>
      exact .stays (by simp [Ptw.walk, state, stale]) (by simp [starts, stale])
        (by simp [reads, state]) (by simp [state])
    | false =>
      cases dirty : s.ptw.dirtyWb with
      | some m =>
        refine .marks state ?_ ?_ ?_ <;> simp [Ptw.walk, state, stale, dirty]
      | none =>
        cases data : x.dtlbReq with
        | some r =>
          refine .begins (by simp [starts, quiet, state, stale, dirty, data]) ?_
          simp only [Ptw.walk, state, stale, dirty, data, Ptw.start]
          cases canonical x.satp r.va <;> simp
        | none =>
          cases fetch : x.itlbReq with
          | some va =>
            refine .begins (by simp [starts, quiet, state, stale, dirty, fetch]) ?_
            simp only [Ptw.walk, state, stale, dirty, data, fetch, Ptw.start]
            cases canonical x.satp va <;> simp
          | none =>
            exact .stays (by simp [Ptw.walk, state, stale, dirty, data, fetch])
              (by simp [starts, data, fetch]) (by simp [reads, state]) (by simp [state])
  | req =>
    cases accepted : x.l2ReqAccepted with
    | true => exact .asks state accepted (by simp [Ptw.walk, state, accepted])
    | false =>
      exact .stays (by simp [Ptw.walk, state, accepted]) (by simp [starts, state])
        (by simp [reads, state]) (by simp [state])
  | wait =>
    cases resp : s.ptw.pteResp x with
    | none =>
      exact .stays (by simp [Ptw.walk, state, resp]) (by simp [starts, state])
        (by simp [reads, resp]) (by simp [state])
    | some pte =>
      refine .answered pte state (by simp [reads, quiet, state, resp]) ?_
      simp only [Ptw.walk, state, resp, Ptw.step]
      split_ifs <;> simp_all
  | adWriteback =>
    cases ack : x.dcacheStoreAck with
    | true => exact .acked state ack (by simp [Ptw.walk, state, ack])
    | false =>
      exact .stays (by simp [Ptw.walk, state, ack]) (by simp [starts, state])
        (by simp [reads, state]) fun _ => ack
  | fill => exact .ends (.inl state) (by simp [Ptw.walk, state])
  | fault => exact .ends (.inr state) (by simp [Ptw.walk, state])

-- ---------------------------------------------------------------------
-- The invariant holds
-- ---------------------------------------------------------------------

theorem reset_tracked : Tracked .reset where
  reads := ⟨by simp [reset, Ptw.reset], by simp [reset], by simp [reset, Ptw.reset]⟩
  own := by simp [reset]
  late := by simp [reset, Ptw.reset]
  since walking := absurd rfl walking.1
  unwritten := by simp [reset, Ptw.reset]
  leaf := by simp [reset, Ptw.reset]
  filled := by simp [reset, Ptw.reset]
  mark := by simp [reset, Ptw.reset]
  marks := rfl

theorem reads_next (tracked : s.Tracked) (legal : s.Keeps x) :
    (s.next x).ptw.Reads ((s.next x).sent.map Prod.fst) := by
  have same : (s.next x).sent.map Prod.fst = s.ptw.sentNext x (s.sent.map Prod.fst) := by
    simp only [next, Ptw.sentNext]
    split_ifs <;> rfl
  rw [same]
  refine tracked.reads.next legal.accepts fun r resp => ?_
  obtain ⟨w, sent⟩ := legal.answers r resp
  simp [sent]

theorem own_next (tracked : s.Tracked) (legal : s.Keeps x)
    (sent : (s.next x).sent = some (pa, w)) (waits : (s.next x).ptw.state = .wait) :
    w = (s.next x).walk := by
  have quiet : x.flushes = false :=
    Ptw.quiet_of_busy (s := s.ptw) fun idle => by cases idle.symm.trans waits
  change (s.ptw.next x).state = .wait at waits
  rw [Ptw.next_state quiet] at waits
  simp only [next] at sent ⊢
  obtain ⟨req, accepted, -⟩ | ⟨wait, -, -⟩ := Ptw.walk_waits waits
  · rw [if_pos accepted] at sent
    have idle : s.starts x = false := by simp [starts, req]
    rw [idle]
    exact (congrArg Prod.snd (Option.some.inj sent)).symm
  · have idle : s.starts x = false := by simp [starts, wait]
    have free : x.l2ReqAccepted = false := by
      by_contra accepted
      have req := legal.accepts (by simpa using accepted)
      simp [Ptw.l2ReqValid, wait] at req
    rw [if_neg (by simp [free])] at sent
    rw [idle]
    split at sent
    · cases sent
    · exact tracked.own pa w sent wait

/-- A dropped read is still to be answered. -/
theorem late_next (tracked : s.Tracked) (late : (s.next x).ptw.staleRespPending = true) :
    (s.next x).sent.isSome = true := by
  simp only [next, Ptw.next, Bool.and_eq_true, Bool.or_eq_true, Bool.not_eq_true'] at late
  obtain ⟨resp, dropped⟩ := late
  simp only [next, resp]
  cases accepted : x.l2ReqAccepted with
  | true => rfl
  | false =>
    obtain ⟨-, inflight⟩ | stale := dropped
    · have wait : s.ptw.state = .wait := by simpa [Ptw.readInflight, accepted] using inflight
      obtain ⟨pa, sent, -⟩ := tracked.reads.wait wait
      obtain ⟨r, here, -⟩ := Option.map_eq_some_iff.mp sent
      simp [here]
    · simpa using tracked.late stale

/-- A mark that is written gives its register free. -/
theorem marks_next (tracked : s.Tracked) (heard : s.AckHeard x) :
    (s.next x).marks = (s.next x).marked ++ (s.next x).ptw.dirtyWb.toList := by
  have pending : (s.next x).ptw.dirtyWb =
      if s.writesMark x then none else s.ptw.dirtyWb.or x.dirtyWb := by
    simp only [next, Ptw.next, Ptw.marked]
    congr 2
    cases writes : s.writesMark x with
    | true =>
      have quiet := heard writes
      simp only [writesMark, Bool.and_eq_true] at writes
      simp [quiet, writes.1.1, writes.1.2, writes.2]
    | false =>
      simp only [writesMark, Bool.and_eq_false_iff] at writes
      rcases writes with (state | ret) | ack
      · simp [state]
      · simp [ret]
      · simp [ack]
  rw [pending]
  simp only [next, tracked.marks, Ptw.dirtyWbReady]
  cases writes : s.writesMark x with
  | true =>
    simp only [writesMark, Bool.and_eq_true, beq_iff_eq, Bool.not_eq_true'] at writes
    have waits := tracked.mark writes.1.1 writes.1.2
    simp [waits]
  | false =>
    obtain free | ⟨m, waits⟩ := Option.eq_none_or_eq_some s.ptw.dirtyWb
    · simp [free]
    · simp [waits]

/-- A flush leaves no walk, and what it drops is not missed. -/
theorem tracked_of_flush (tracked : s.Tracked) (legal : s.Keeps x) (heard : s.AckHeard x)
    (flush : x.flushes = true) : (s.next x).Tracked where
  reads := reads_next tracked legal
  own _ _ := own_next tracked legal
  late := late_next tracked
  since walking := absurd (Ptw.next_state_of_flush flush) walking.1
  unwritten := by simp [next, Ptw.next_state_of_flush flush]
  leaf := by simp [next, Ptw.next_state_of_flush flush]
  filled := by simp [next, Ptw.next_state_of_flush flush]
  mark := by simp [next, Ptw.next_state_of_flush flush]
  marks := marks_next tracked heard

theorem next_ptw (quiet : x.flushes = false) :
    (s.next x).ptw.state = (s.ptw.walk x).state ∧
      (s.next x).ptw.adWbReturnFill = (s.ptw.walk x).adWbReturnFill ∧
      (s.next x).ptw.adWbPa = (s.ptw.walk x).adWbPa ∧
      (s.next x).ptw.adWbValue = (s.ptw.walk x).adWbValue := by
  simp [next, Ptw.next, quiet]

/-- The next walk counts from now on, and one under way goes on counting. -/
theorem since_next (tracked : s.Tracked) (quiet : x.flushes = false)
    (walking : (s.next x).Walking) : (s.next x).since = (s.next x).epoch := by
  have same : x.translationFlush = false := (Bool.or_eq_false_iff.mp quiet).2
  obtain ⟨state, ret, -, -⟩ := next_ptw (s := s) quiet
  obtain ⟨busy, fills⟩ := walking
  rw [state] at busy fills
  rw [ret] at fills
  have kept (idle : s.starts x = false) (before : s.Walking) :
      (s.next x).since = (s.next x).epoch := by
    simp only [next, idle, same]
    exact tracked.since before
  cases moves quiet with
  | stays same' idle =>
    rw [same'] at busy fills
    exact kept idle ⟨busy, fills⟩
  | begins start => simp [next, start, same]
  | marks idle at_ mark => cases mark.symm.trans (fills at_)
  | asks req => exact kept (by simp [starts, req]) ⟨by simp [req], by simp [req]⟩
  | answered pte wait => exact kept (by simp [starts, wait]) ⟨by simp [wait], by simp [wait]⟩
  | acked wb ack at_ =>
    refine kept (by simp [starts, wb]) ⟨by simp [wb], fun _ => ?_⟩
    by_contra mark
    rw [if_neg mark] at at_
    exact busy at_
  | ends last at_ => exact absurd at_ busy

theorem unwritten_next (tracked : s.Tracked) (quiet : x.flushes = false)
    (state : (s.ptw.walk x).state = .req ∨ (s.ptw.walk x).state = .wait) :
    (s.next x).wrote = 0 := by
  have kept (idle : s.starts x = false) (before : s.ptw.state = .req ∨ s.ptw.state = .wait) :
      (s.next x).wrote = 0 := by
    have none_ : s.writesLeaf x = false := by
      rcases before with req | wait
      · simp [writesLeaf, req]
      · simp [writesLeaf, wait]
    simp only [next, idle, none_]
    exact tracked.unwritten before
  cases moves quiet with
  | stays same idle =>
    rw [same] at state
    exact kept idle state
  | begins start => simp [next, start]
  | marks idle at_ => simp [at_] at state
  | asks req => exact kept (by simp [starts, req]) (.inl req)
  | answered pte wait => exact kept (by simp [starts, wait]) (.inr wait)
  | acked wb ack at_ =>
    rw [at_] at state
    split at state <;> simp at state
  | ends last at_ => simp [at_] at state

theorem leaf_next (tracked : s.Tracked) (quiet : x.flushes = false)
    (state : (s.ptw.walk x).state = .adWriteback) (ret : (s.ptw.walk x).adWbReturnFill = true) :
    (s.next x).wrote = 0 ∧ (s.next x).owes = true := by
  cases moves quiet with
  | stays same idle pte write =>
    rw [same] at state ret
    have none_ : s.writesLeaf x = false := by simp [writesLeaf, write state]
    simp only [next, idle, none_, pte]
    exact tracked.leaf state ret
  | begins start at_ => simp [state] at at_
  | marks idle at_ mark => cases mark.symm.trans ret
  | asks req accepted at_ => cases state.symm.trans at_
  | answered pte wait gets at_ =>
    have idle : s.starts x = false := by simp [starts, wait]
    have none_ : s.writesLeaf x = false := by simp [writesLeaf, wait]
    have owes : s.ptw.pteAdUpdateNeeded pte = true := by simpa [state, ret] using at_
    simp only [next, idle, none_, gets]
    exact ⟨tracked.unwritten (.inr wait), owes⟩
  | acked wb ack at_ =>
    rw [state] at at_
    split at at_ <;> cases at_
  | ends last at_ => cases state.symm.trans at_

theorem filled_next (tracked : s.Tracked) (quiet : x.flushes = false)
    (state : (s.ptw.walk x).state = .fill) :
    (s.next x).wrote = if (s.next x).owes then 1 else 0 := by
  cases moves quiet with
  | stays same idle pte =>
    rw [same] at state
    -- A fill takes one cycle.
    have ends : (s.ptw.walk x).state = .idle := by simp [Ptw.walk, state]
    rw [same, state] at ends
    cases ends
  | begins start at_ => simp [state] at at_
  | marks idle at_ => cases state.symm.trans at_
  | asks req accepted at_ => cases state.symm.trans at_
  | answered pte wait gets at_ =>
    have idle : s.starts x = false := by simp [starts, wait]
    have none_ : s.writesLeaf x = false := by simp [writesLeaf, wait]
    have owes : s.ptw.pteAdUpdateNeeded pte = false := by simpa [state] using at_
    simp only [next, idle, none_, gets, Option.elim_some, owes]
    exact tracked.unwritten (.inr wait)
  | acked wb ack at_ =>
    have ret : s.ptw.adWbReturnFill = true := by
      by_contra mark
      rw [state, if_neg mark] at at_
      cases at_
    obtain ⟨unwritten, owes⟩ := tracked.leaf wb ret
    have idle : s.starts x = false := by simp [starts, wb]
    have none_ : s.reads x = none := by simp [reads, wb]
    have writes : s.writesLeaf x = true := by simp [writesLeaf, wb, ret, ack]
    simp [next, idle, none_, writes, unwritten, owes]
  | ends last at_ => cases state.symm.trans at_

theorem tracked_of_quiet (tracked : s.Tracked) (legal : s.Keeps x) (heard : s.AckHeard x)
    (quiet : x.flushes = false) : (s.next x).Tracked := by
  obtain ⟨state, ret, pa, value⟩ := next_ptw (s := s) quiet
  constructor
  case reads => exact reads_next tracked legal
  case own => exact fun _ _ => own_next tracked legal
  case late => exact late_next tracked
  case since => exact since_next tracked quiet
  case unwritten =>
    rw [state]
    exact unwritten_next tracked quiet
  case leaf =>
    rw [state, ret]
    exact leaf_next tracked quiet
  case filled =>
    rw [state]
    exact filled_next tracked quiet
  case mark => exact Ptw.mark_of_writes tracked.mark
  case marks => exact marks_next tracked heard

theorem tracked_run (reach : walkerRuns.Reach AckHeard s) : s.Tracked :=
  reach.invariant Tracked reset_tracked fun s x _ tracked legal heard => by
    cases flush : x.flushes with
    | true => exact tracked_of_flush tracked legal heard flush
    | false => exact tracked_of_quiet tracked legal heard flush

theorem apart (tracked : s.Tracked) (legal : s.Keeps x) : s.Apart x where
  answers pte gets := by
    unfold reads at gets
    split at gets
    · rename_i waits
      simp only [Bool.and_eq_true, beq_iff_eq] at waits
      obtain ⟨r, resp⟩ : ∃ r, x.l2Resp = some r := by
        cases resp : x.l2Resp with
        | none => simp [Ptw.pteResp, resp] at gets
        | some r => exact ⟨r, rfl⟩
      obtain ⟨w, sent⟩ := legal.answers r resp
      obtain rfl := tracked.own _ w sent waits.2
      exact ⟨_, sent⟩
    · cases gets
  fills itlb t fill := by
    have state : s.ptw.state = .fill := by
      by_contra other
      simp [Ptw.fillFor, other] at fill
    exact tracked.since ⟨by simp [state], by simp [state]⟩
  leaf := tracked.filled
  marks := tracked.marks

-- ---------------------------------------------------------------------
-- The walker comes back
-- ---------------------------------------------------------------------

/-- How far the walker is from being ready. -/
def rank (s : WalkerRun) : Nat :=
  match s.ptw.state with
  | .idle => if s.ptw.staleRespPending then 3 else if s.ptw.dirtyWb.isSome then 2 else 0
  | .adWriteback => if s.ptw.adWbReturnFill then 5 else 1
  | .fill | .fault => 4
  | .wait => 6 + 2 * s.ptw.walkLevel.toNat
  | .req => 7 + 2 * s.ptw.walkLevel.toNat

/-- What the walker waits for. -/
def Awaited (s : WalkerRun) (x : PtwIn) : Prop :=
  match s.ptw.state with
  | .idle => s.ptw.staleRespPending = true → x.l2Resp.isSome = true
  | .req => x.l2ReqAccepted = true
  | .wait => x.l2Resp.isSome = true
  | .adWriteback => x.dcacheStoreAck = true
  | .fill | .fault => True

theorem level_pred (more : l ≠ (0 : BitVec 2)) : (l - 1).toNat + 1 = l.toNat := by
  bv_omega

/-- After an entry the walk is over, or goes a level down. -/
theorem step_state_level (w : Ptw) (pte : BitVec 64) :
    (w.step pte).state = .fault ∨ (w.step pte).state = .fill ∨ (w.step pte).state = .adWriteback ∨
      (w.step pte).state = .req ∧ (w.step pte).walkLevel = w.walkLevel - 1 ∧ w.walkLevel ≠ 0 := by
  unfold Ptw.step
  dsimp only
  split_ifs with invalid leaf misaligned needed last
  · exact .inl rfl
  · exact .inl rfl
  · exact .inr (.inr (.inl rfl))
  · exact .inr (.inl rfl)
  · exact .inl rfl
  · exact .inr (.inr (.inr ⟨rfl, rfl, last⟩))

/-- The answer that comes is to the read the walk waits for. -/
theorem pteResp_of_resp (tracked : s.Tracked) (legal : s.Keeps x) (wait : s.ptw.state = .wait)
    (resp : x.l2Resp.isSome = true) : ∃ pte, s.ptw.pteResp x = some pte := by
  obtain ⟨r, resp⟩ := Option.isSome_iff_exists.mp resp
  obtain ⟨pa, sent, line⟩ := tracked.reads.wait wait
  obtain ⟨w, here⟩ := legal.answers r resp
  rw [here] at sent
  obtain rfl := Option.some.inj sent
  exact ⟨s.ptw.pteOf r, by simp [Ptw.pteResp, resp, line]⟩

/-- What the walker waits for brings it closer. -/
theorem rank_awaited (tracked : s.Tracked) (legal : s.Keeps x) (quiet : x.flushes = false)
    (busy : ¬ s.Ready) (awaited : s.Awaited x) : (s.next x).rank < s.rank := by
  obtain ⟨state', ret', -, -⟩ := next_ptw (s := s) quiet
  have level : (s.next x).ptw.walkLevel = (s.ptw.walk x).walkLevel := by
    simp [next, Ptw.next, quiet]
  unfold rank
  rw [state', ret', level]
  unfold Awaited at awaited
  cases state : s.ptw.state with
  | idle =>
    rw [state] at awaited
    cases stale : s.ptw.staleRespPending with
    | true =>
      have resp := awaited stale
      have idle : s.ptw.walk x = s.ptw := by simp [Ptw.walk, state, stale]
      have heard : (s.next x).ptw.staleRespPending = false := by simp [next, Ptw.next, resp]
      simp only [idle, state, heard, Bool.false_eq_true, ↓reduceIte]
      split <;> decide
    | false =>
      obtain free | ⟨m, waits⟩ := Option.eq_none_or_eq_some s.ptw.dirtyWb
      · exact absurd ⟨state, stale, free⟩ busy
      · simp [Ptw.walk, state, stale, waits]
  | req =>
    rw [state] at awaited
    simp [Ptw.walk, state, show x.l2ReqAccepted = true from awaited]
  | wait =>
    rw [state] at awaited
    obtain ⟨pte, gets⟩ := pteResp_of_resp tracked legal state awaited
    simp only [Ptw.walk, state, gets]
    obtain at_ | at_ | at_ | ⟨at_, lower, more⟩ := step_state_level s.ptw pte
    · simp only [at_]
      omega
    · simp only [at_]
      omega
    · simp only [at_]
      split <;> omega
    · have less := level_pred more
      simp only [at_, lower]
      omega
  | adWriteback =>
    rw [state] at awaited
    have ack : x.dcacheStoreAck = true := awaited
    have keeps : (s.next x).ptw.staleRespPending = false := by
      have none_ : s.ptw.staleRespPending = false := by
        by_contra stale
        cases state.symm.trans (tracked.reads.stale (by simpa using stale))
      simp [next, Ptw.next, quiet, none_]
    cases ret : s.ptw.adWbReturnFill with
    | true => simp [Ptw.walk, state, ack, ret]
    | false =>
      have free : (s.next x).ptw.dirtyWb = none := by
        simp [next, Ptw.next, Ptw.marked, quiet, state, ack, ret]
      simp [Ptw.walk, state, ack, ret, keeps, free]
  | fill => 
    simp only [Ptw.walk, state]
    split_ifs <;> decide
  | fault =>
    simp only [Ptw.walk, state]
    split_ifs <;> decide

/-- Otherwise the walker stays where it is. -/
theorem stays_unawaited (quiet : x.flushes = false) (waits : ¬ s.Awaited x) :
    (s.next x).ptw.state = s.ptw.state ∧ (s.next x).rank = s.rank := by
  obtain ⟨state', ret', -, -⟩ := next_ptw (s := s) quiet
  have level : (s.next x).ptw.walkLevel = (s.ptw.walk x).walkLevel := by
    simp [next, Ptw.next, quiet]
  unfold rank
  rw [state', ret', level]
  unfold Awaited at waits
  cases state : s.ptw.state with
  | idle =>
    rw [state] at waits
    simp only [Classical.not_imp, Bool.not_eq_true, Option.isSome_eq_false_iff,
      Option.isNone_iff_eq_none] at waits
    obtain ⟨stale, resp⟩ := waits
    have keeps : (s.next x).ptw.staleRespPending = true := by
      simp [next, Ptw.next, stale, resp]
    simp [Ptw.walk, state, stale, keeps]
  | req =>
    rw [state] at waits
    simp [Ptw.walk, state, show x.l2ReqAccepted = false by simpa using waits]
  | wait =>
    rw [state] at waits
    have resp : x.l2Resp = none := by simpa using waits
    simp [Ptw.walk, Ptw.pteResp, state, resp]
  | adWriteback =>
    rw [state] at waits
    simp [Ptw.walk, state, show x.dcacheStoreAck = false by simpa using waits]
  | fill =>
    rw [state] at waits
    exact absurd trivial waits
  | fault =>
    rw [state] at waits
    exact absurd trivial waits

variable {state : Nat → WalkerRun} {input : Nat → PtwIn}

theorem tracked_trace (trace : walkerRuns.Trace s state input) (tracked : s.Tracked)
    (quiet : ∀ n, (input n).flushes = false) (n : Nat) : (state n).Tracked := by
  induction n with
  | zero => exact trace.start ▸ tracked
  | succ n ih =>
    rw [trace.next n]
    exact tracked_of_quiet ih (trace.legal n) (fun _ => quiet n) (quiet n)

/-- What the walker waits for comes. -/
theorem not_stuck (trace : walkerRuns.Trace s state input) (tracked : ∀ n, (state n).Tracked)
    (served : Served state input) (n : Nat) :
    ∃ k, n ≤ k ∧ (state k).Awaited (input k) := by
  by_contra never
  simp only [not_exists, not_and] at never
  have same : ∀ d, (state (n + d)).ptw.state = (state n).ptw.state := by
    intro d
    induction d with
    | zero => rfl
    | succ d ih =>
      rw [← ih, ← Nat.add_assoc, trace.next (n + d)]
      exact (stays_unawaited (served.quiet _) (never _ (Nat.le_add_right n d))).1
  have stays (k : Nat) (later : n ≤ k) : (state k).ptw.state = (state n).ptw.state := by
    have there := same (k - n)
    rwa [Nat.add_sub_cancel' later] at there
  cases at_ : (state n).ptw.state with
  | idle =>
    have sent (k : Nat) (later : n ≤ k) : (state k).sent.isSome = true := by
      have waits := never k later
      simp only [Awaited, stays k later, at_, Classical.not_imp] at waits
      exact (tracked k).late waits.1
    obtain ⟨k, later, resp⟩ := served.answers n sent
    exact never k later (by simp [Awaited, stays k later, at_, resp])
  | req =>
    obtain ⟨k, later, accepted⟩ := served.accepts n fun k later => (stays k later).trans at_
    exact never k later (by simp [Awaited, stays k later, at_, accepted])
  | wait =>
    have sent (k : Nat) (later : n ≤ k) : (state k).sent.isSome = true := by
      obtain ⟨pa, sent, -⟩ := (tracked k).reads.wait ((stays k later).trans at_)
      obtain ⟨r, here, -⟩ := Option.map_eq_some_iff.mp sent
      simp [here]
    obtain ⟨k, later, resp⟩ := served.answers n sent
    exact never k later (by simp [Awaited, stays k later, at_, resp])
  | adWriteback =>
    obtain ⟨k, later, ack⟩ := served.acks n fun k later => (stays k later).trans at_
    exact never k later (by simp [Awaited, stays k later, at_, ack])
  | fill => exact never n (Nat.le_refl n) (by simp [Awaited, at_])
  | fault => exact never n (Nat.le_refl n) (by simp [Awaited, at_])

theorem comes_back (trace : walkerRuns.Trace s state input) (tracked : s.Tracked)
    (served : Served state input) (n : Nat) : ∃ m, n ≤ m ∧ (state m).Ready := by
  have all := tracked_trace trace tracked served.quiet
  refine leads_to (P := fun k => (state k).Ready) (fun k => (state k).rank) (fun k busy => ?_)
    (fun k busy => ?_) n
  · show (state (k + 1)).rank ≤ (state k).rank
    rw [trace.next k]
    by_cases awaited : (state k).Awaited (input k)
    · exact (rank_awaited (all k) (trace.legal k) (served.quiet k) busy awaited).le
    · exact (stays_unawaited (served.quiet k) awaited).2.le
  · obtain ⟨m, later, awaited⟩ := not_stuck trace all served k
    refine ⟨m, later, ?_⟩
    rw [trace.next m]
    exact (rank_awaited (all m) (trace.legal m) (served.quiet m) (busy m later) awaited).ne

-- ---------------------------------------------------------------------
-- Every interleaving
-- ---------------------------------------------------------------------

/-- In a run in which every mark that the D-cache takes is heard of, walks keep to themselves, and
the walker comes back for the next miss whenever it is served. -/
theorem walks_apart (reach : walkerRuns.Reach AckHeard s) :
    (∀ x, s.Keeps x → s.Apart x) ∧
      ∀ state input, walkerRuns.Trace s state input → Served state input →
        ∀ n, ∃ m, n ≤ m ∧ (state m).Ready :=
  ⟨fun _ legal => apart (tracked_run reach) legal,
    fun _ _ trace served n => comes_back trace (tracked_run reach) served n⟩

end WalkerRun

-- ---------------------------------------------------------------------
-- A mark written twice
-- ---------------------------------------------------------------------

namespace PtwIn

/-- Nothing happens. -/
def quiet : PtwIn where
  satp := 0
  dtlbReq := none
  itlbReq := none
  dirtyWb := none
  l2ReqAccepted := false
  l2Resp := none
  dcacheStoreAck := false
  flush := false
  translationFlush := false

end PtwIn

namespace WalkerRun

theorem keeps_quiet {s : WalkerRun} {x : PtwIn} (accepts : x.l2ReqAccepted = false) (resp : x.l2Resp = none) :
    s.Keeps x := ⟨by simp [accepts], by simp [resp]⟩

/-- A store has marked a page dirty, and a flush withdraws the write. -/
theorem walks_apart_mark : ∃ s, walkerRuns.Reach AckHeard s ∧ s.marks = [(0x80001000, 0xCF)] ∧
    s.Apart { PtwIn.quiet with flush := true } := by
  have reach : walkerRuns.Reach AckHeard
      (walkerRuns.run .reset [{ PtwIn.quiet with dirtyWb := some (0x80001000, 0xCF) }, .quiet]) :=
    (Machine.Reach.cycle .reset (keeps_quiet rfl rfl) (fun _ => rfl)).cycle (keeps_quiet rfl rfl)
      fun _ => rfl
  exact ⟨_, reach, by decide, (walks_apart reach).1 _ (keeps_quiet rfl rfl)⟩

/-- A flush arrives as the D-cache takes the mark. -/
theorem mark_written_twice : ∃ s, walkerRuns.Reachable s ∧
    s.marks = [(0x80001000, 0xCF)] ∧ s.marked = [(0x80001000, 0xCF)] ∧
    s.ptw.dirtyWb = some (0x80001000, 0xCF) ∧ s.Keeps .quiet ∧ ¬ s.Apart .quiet := by
  refine ⟨walkerRuns.run .reset [{ PtwIn.quiet with dirtyWb := some (0x80001000, 0xCF) }, .quiet,
    { PtwIn.quiet with flush := true, dcacheStoreAck := true }], ?_, ?_, ?_, ?_, keeps_quiet rfl rfl,
    ?_⟩
  · have marked : walkerRuns.Reachable
        (walkerRuns.run .reset [{ PtwIn.quiet with dirtyWb := some (0x80001000, 0xCF) }]) :=
      Machine.Reachable.cycle .reset (keeps_quiet rfl rfl)
    have written := Machine.Reachable.cycle marked (i := .quiet) (keeps_quiet rfl rfl)
    exact Machine.Reachable.cycle written (keeps_quiet rfl rfl)
  · decide
  · decide
  · decide
  · intro apart
    exact absurd apart.marks (by decide)

end WalkerRun

end Rv64gc.Mmu
