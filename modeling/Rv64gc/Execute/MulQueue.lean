import Rv64gc.Execute.Multiplier
import Rv64gc.Hdl.Machine
import Rv64gc.Pkg

/-!
# The multiplier on CDB[2]

`rv64gc_core_top.sv`: IQ1 issues one operation a cycle, to ALU2 or to the multiplier, and both answer
on CDB[2]. ALU2 answers in the cycle of its issue and goes first, and products wait for the port in
three registers. There is nothing that holds IQ1 back when they are full.
-/

namespace Rv64gc.Execute

open Hdl

/-- The names that travel with an operation. -/
structure CdbTag where
  robIdx : RobIdx
  pdst : PhysReg
deriving DecidableEq

/-- `cdb_rob_idx`, `cdb_tag` and `cdb_data` -/
structure CdbResult where
  tag : CdbTag
  data : Word
deriving DecidableEq

/-- `flush_out`; a partial one comes with `rename_buf_partial_clear`. -/
inductive PortFlush where
  | full
  | partly (clear : RobIdx → Bool)

def PortFlush.isFull : PortFlush → Bool
  | .full => true
  | .partly _ => false

/-- `!full_flush && rename_buf_partial_clear[r]` -/
def PortFlush.partlyClears (r : RobIdx) : PortFlush → Bool
  | .full => false
  | .partly clear => clear r

-- ---------------------------------------------------------------------
-- The completion queue
-- ---------------------------------------------------------------------

/-- `mul_hold`, `mul_hold1` and `mul_hold2` -/
structure MulHold where
  hold : Option CdbResult
  hold1 : Option CdbResult
  hold2 : Option CdbResult
deriving DecidableEq

namespace MulHold

variable (q : MulHold)

def empty : MulHold := ⟨none, none, none⟩

def shift : MulHold := ⟨q.hold1, q.hold2, none⟩

def push (x : CdbResult) : MulHold :=
  if q.hold.isNone then { q with hold := some x }
  else if q.hold1.isNone then { q with hold1 := some x }
  else if q.hold2.isNone then { q with hold2 := some x }
  else q

def full : Bool := q.hold.isSome && q.hold1.isSome && q.hold2.isSome

/-- The oldest first. -/
def results : List CdbResult := q.hold.toList ++ q.hold1.toList ++ q.hold2.toList

end MulHold

-- ---------------------------------------------------------------------
-- The port
-- ---------------------------------------------------------------------

/-- An operation of IQ1; ALU2 has its value in the cycle of the issue. -/
inductive Iq1Op where
  | alu (value : Word)
  | mul (req : MulReq)

structure MulPort where
  multiplier : Multiplier
  /-- `mul_rob_idx_s1` and `mul_pdst_s1` -/
  s1 : CdbTag
  queue : MulHold

structure MulPortIn where
  /-- `iq1_issue_data[0]`, whether it is valid or not -/
  tag : CdbTag
  issue : Option Iq1Op
  flush : Option PortFlush

namespace MulPortIn

variable (i : MulPortIn)

def fullFlush : Bool := i.flush.any (·.isFull)

def partlyClears (r : RobIdx) : Bool := i.flush.any (·.partlyClears r)

/-- `alu2_issue` with what it answers -/
def alu2 : Option CdbResult :=
  match i.issue with
  | some (.alu value) => some ⟨i.tag, value⟩
  | _ => none

/-- `mul_issue_live` -/
def mulIssueLive : Option MulReq :=
  match i.issue with
  | some (.mul req) => if i.partlyClears i.tag.robIdx then none else some req
  | _ => none

end MulPortIn

namespace MulPort

def reset : MulPort := ⟨⟨false, 0⟩, ⟨0, 0⟩, .empty⟩

variable (s : MulPort) (i : MulPortIn)

/-- What comes out of the multiplier. -/
def completed : Option CdbResult :=
  if s.multiplier.validOut then some ⟨s.s1, s.multiplier.result⟩ else none

/-- `mul_valid_live` -/
def validLive : Option CdbResult := s.completed.filter fun x => !i.partlyClears x.tag.robIdx

/-- `mul_take_hold` -/
def takeHold : Bool := i.alu2.isNone && s.queue.hold.isSome

/-- `mul_take_fresh` -/
def takeFresh : Bool := i.alu2.isNone && s.queue.hold.isNone && (s.validLive i).isSome

/-- `mul_enqueue_fresh` -/
def enqueueFresh : Option CdbResult := if s.takeFresh i then none else s.validLive i

def drained : MulHold := if s.takeHold i then s.queue.shift else s.queue

/-- `mul_hold_overflow` -/
def holdOverflow : Bool := (s.enqueueFresh i).isSome && (s.drained i).full

/-- The queue a cycle without a full flush leaves. -/
def queued : MulHold :=
  match s.enqueueFresh i with
  | some x => (s.drained i).push x
  | none => s.drained i

/-- `mul_eff` -/
def mulEff : Option CdbResult :=
  if s.takeHold i then s.queue.hold else if s.takeFresh i then s.validLive i else none

/-- `cdb_valid[2]` -/
def cdb : Option CdbResult := i.alu2.or (s.mulEff i)

def next : MulPort where
  multiplier := s.multiplier.next i.mulIssueLive i.fullFlush
  s1 := if i.fullFlush then ⟨0, 0⟩ else i.tag
  queue := if i.fullFlush then .empty else s.queued i

/-- The products on their way to the port, in the order they complete. -/
def waiting : List CdbResult := s.queue.results ++ s.completed.toList

end MulPort

-- ---------------------------------------------------------------------
-- Runs without a flush
-- ---------------------------------------------------------------------

/-- The port with all multiplies that have issued, with the products they are to give, and all
products it has broadcast. -/
structure MulRun where
  port : MulPort
  issued : List CdbResult
  sent : List CdbResult

/-- The product of the multiply that issues. -/
def MulPortIn.product (i : MulPortIn) : Option CdbResult :=
  i.mulIssueLive.map fun req => ⟨i.tag, req.resultSel⟩

def mulRuns : Machine MulRun MulPortIn where
  reset := ⟨.reset, [], []⟩
  next s i := ⟨s.port.next i, s.issued ++ i.product.toList, s.sent ++ (s.port.mulEff i).toList⟩
  legal _ i := i.flush = none

/-- What is broadcast is what has issued up to the products on their way, of which there is one at
most; the oldest leaves as soon as ALU2 leaves the port to it. -/
structure MulRun.Delivers (s : MulRun) (i : MulPortIn) : Prop where
  conserved : s.sent ++ s.port.waiting = s.issued
  one : s.port.waiting.length ≤ 1
  fits : s.port.holdOverflow i = false
  alu : ∀ x, i.alu2 = some x → s.port.cdb i = some x
  oldest : i.alu2 = none → s.port.cdb i = s.port.waiting.head?

namespace MulPort

variable {s : MulPort} {i : MulPortIn}

/-- One product is on its way at most. -/
structure Lone (s : MulPort) : Prop where
  hold1 : s.queue.hold1 = none
  hold2 : s.queue.hold2 = none
  one : s.queue.hold = none ∨ s.completed = none

theorem validLive_calm (calm : i.flush = none) : s.validLive i = s.completed := by
  unfold validLive
  cases s.completed with
  | none => rfl
  | some x => simp [MulPortIn.partlyClears, calm]

theorem next_completed (calm : i.flush = none) : (s.next i).completed = i.product := by
  have kept : i.fullFlush = false := by simp [MulPortIn.fullFlush, calm]
  unfold completed next Multiplier.next MulPortIn.product
  rw [kept]
  cases i.mulIssueLive <;> rfl

theorem next_queue (calm : i.flush = none) : (s.next i).queue = s.queued i := by
  simp [next, MulPortIn.fullFlush, calm]

/-- What is on its way stays while ALU2 has the port. -/
theorem busy_cycle (calm : i.flush = none) (lone : s.Lone) (alu : i.alu2 = some x) :
    s.mulEff i = none ∧ s.holdOverflow i = false ∧
      (s.queued i).results = s.waiting ∧ (s.queued i).hold1 = none ∧ (s.queued i).hold2 = none := by
  obtain ⟨hold1, hold2, one⟩ := lone
  have stays : s.drained i = s.queue := by simp [drained, takeHold, alu]
  have enters : s.enqueueFresh i = s.completed := by
    simp [enqueueFresh, takeFresh, alu, validLive_calm calm]
  refine ⟨by simp [mulEff, takeHold, takeFresh, alu], ?_, ?_⟩
  · simp [holdOverflow, MulHold.full, stays, hold1]
  rw [queued, enters, stays]
  cases fresh : s.completed with
  | none => simp [waiting, fresh, hold1, hold2]
  | some y =>
    have free : s.queue.hold = none := one.resolve_right (by simp [fresh])
    simp [MulHold.push, waiting, MulHold.results, free, fresh, hold1, hold2]

/-- What is on its way leaves when ALU2 leaves the port. -/
theorem free_cycle (calm : i.flush = none) (lone : s.Lone) (alu : i.alu2 = none) :
    (s.mulEff i).toList = s.waiting ∧ s.holdOverflow i = false ∧ s.queued i = .empty := by
  obtain ⟨hold1, hold2, one⟩ := lone
  cases held : s.queue.hold with
  | none =>
    have empty : s.drained i = .empty := by
      cases queue : s.queue
      simp_all [drained, takeHold, MulHold.empty]
    have enters : s.enqueueFresh i = none := by
      unfold enqueueFresh takeFresh
      cases fresh : s.validLive i <;> simp [alu, held]
    refine ⟨?_, by simp [holdOverflow, enters], by simp [queued, enters, empty]⟩
    rw [mulEff, takeHold, takeFresh, validLive_calm calm]
    cases fresh : s.completed <;> simp [alu, held, waiting, MulHold.results, hold1, hold2, fresh]
  | some x =>
    have none : s.completed = none := one.resolve_left (by simp [held])
    have enters : s.enqueueFresh i = Option.none := by
      simp [enqueueFresh, validLive_calm calm, none]
    have empty : s.drained i = .empty := by
      simp [drained, takeHold, alu, held, MulHold.shift, hold1, hold2, MulHold.empty]
    refine ⟨?_, by simp [holdOverflow, enters], by simp [queued, enters, empty]⟩
    simp [mulEff, takeHold, alu, held, waiting, MulHold.results, hold1, hold2, none]

theorem waiting_lone (lone : s.Lone) : s.waiting.length ≤ 1 := by
  obtain ⟨hold1, hold2, one⟩ := lone
  obtain none | none := one
  · cases fresh : s.completed <;> simp [waiting, MulHold.results, hold1, hold2, none, fresh]
  · cases held : s.queue.hold <;> simp [waiting, MulHold.results, hold1, hold2, none, held]

/-- ALU2 and the multiplier do not get an operation in the same cycle. -/
theorem product_of_alu (alu : i.alu2 = some x) : i.product = none := by
  unfold MulPortIn.alu2 at alu
  split at alu
  next value same => simp [MulPortIn.product, MulPortIn.mulIssueLive, same]
  next => cases alu

theorem next_waiting (calm : i.flush = none) :
    (s.next i).waiting = (s.queued i).results ++ i.product.toList := by
  rw [waiting, next_queue calm, next_completed calm]

theorem lone_next (calm : i.flush = none) (lone : s.Lone) : (s.next i).Lone := by
  cases alu : i.alu2 with
  | none =>
    obtain ⟨-, -, empty⟩ := free_cycle calm lone alu
    have queue : (s.next i).queue = .empty := (next_queue calm).trans empty
    exact ⟨by rw [queue]; rfl, by rw [queue]; rfl, .inl (by rw [queue]; rfl)⟩
  | some x =>
    obtain ⟨-, -, -, hold1, hold2⟩ := busy_cycle calm lone alu
    refine ⟨?_, ?_, .inr ((next_completed calm).trans (product_of_alu alu))⟩
    · rw [next_queue calm, hold1]
    · rw [next_queue calm, hold2]

/-- A product leaves, or stays; what issues comes behind it. -/
theorem cycle_conserves (calm : i.flush = none) (lone : s.Lone) :
    (s.mulEff i).toList ++ (s.next i).waiting = s.waiting ++ i.product.toList := by
  rw [next_waiting calm]
  cases alu : i.alu2 with
  | none =>
    obtain ⟨leaves, -, empty⟩ := free_cycle calm lone alu
    rw [leaves, empty]
    rfl
  | some x =>
    obtain ⟨stays, -, results, -⟩ := busy_cycle calm lone alu
    rw [stays, results]
    rfl

end MulPort

/-- What the runs keep. -/
structure MulRun.Conserved (s : MulRun) : Prop where
  lone : s.port.Lone
  conserved : s.sent ++ s.port.waiting = s.issued

theorem conserved_of_reach (reach : mulRuns.Reachable s) : s.Conserved := by
  refine reach.invariant MulRun.Conserved ⟨⟨rfl, rfl, .inl rfl⟩, rfl⟩ ?_
  intro s i _ ⟨lone, conserved⟩ calm _
  refine ⟨MulPort.lone_next calm lone, ?_⟩
  show s.sent ++ (s.port.mulEff i).toList ++ (s.port.next i).waiting = s.issued ++ i.product.toList
  rw [List.append_assoc, MulPort.cycle_conserves calm lone, ← List.append_assoc, conserved]

/-- Every multiply is broadcast once and in order, and one register would have been enough. -/
theorem products_broadcast_once (reach : mulRuns.Reachable s) (legal : mulRuns.legal s i) :
    s.Delivers i := by
  obtain ⟨lone, conserved⟩ := conserved_of_reach reach
  have calm : i.flush = none := legal
  constructor
  case conserved => exact conserved
  case one => exact MulPort.waiting_lone lone
  case fits =>
    cases alu : i.alu2 with
    | none => exact (MulPort.free_cycle calm lone alu).2.1
    | some x => exact (MulPort.busy_cycle calm lone alu).2.1
  case alu =>
    intro x alu
    simp [MulPort.cdb, alu]
  case oldest =>
    intro alu
    have leaves := (MulPort.free_cycle calm lone alu).1
    rw [MulPort.cdb, alu, ← leaves]
    cases s.port.mulEff i <;> rfl

-- ---------------------------------------------------------------------
-- A product that waits
-- ---------------------------------------------------------------------

def mulAt (r : RobIdx) (a b : Word) : MulPortIn := ⟨⟨r, 40⟩, some (.mul ⟨.mul, false, a, b⟩), none⟩

def aluAt (r : RobIdx) (value : Word) : MulPortIn := ⟨⟨r, 41⟩, some (.alu value), none⟩

/-- The product of 6 and 7 waits for two cycles of ALU2. -/
def afterTraffic : MulRun :=
  mulRuns.run mulRuns.reset [mulAt 3 6 7, aluAt 4 1, aluAt 5 2]

theorem products_broadcast_once_waited :
    afterTraffic.Delivers ⟨⟨9, 0⟩, none, none⟩ ∧
      afterTraffic.port.cdb ⟨⟨9, 0⟩, none, none⟩ = some ⟨⟨3, 40⟩, 42⟩ := by
  refine ⟨products_broadcast_once ?_ rfl, by decide +kernel⟩
  exact Machine.Reachable.run .reset ⟨rfl, rfl, rfl, trivial⟩

end Rv64gc.Execute
