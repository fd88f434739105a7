import Mathlib.Algebra.Order.Group.Multiset
import Rv64gc.Execute.Division
import Rv64gc.Execute.Iq2Port

/-!
# What a partial flush leaves on the way to CDB[3]

An operation of the divider or the FPU is in the divider or held behind it, in the request register,
or in FPnew, until it is broadcast. A partial flush is to take the younger operations away and leave
the older ones. The divider and the FPU decide by one index each, of the division and of the request
they had last, and FPnew drops all it has or nothing.
-/

namespace Rv64gc.Execute

open Hdl

-- ---------------------------------------------------------------------
-- At most one
-- ---------------------------------------------------------------------

/-- At most one, as a multiset. -/
def one (x : Option α) : Multiset α := x.elim 0 fun a => {a}

@[simp] theorem one_none : one (none : Option α) = 0 := rfl

@[simp] theorem one_some (a : α) : one (some a) = {a} := rfl

theorem map_one (f : α → β) (x : Option α) : (one x).map f = one (x.map f) := by
  cases x <;> simp

theorem filter_one (p : α → Bool) (x : Option α) :
    (one x).filter (fun a => p a = true) = one (x.filter p) := by
  cases x with
  | none => rfl
  | some a => cases holds : p a <;> simp [Multiset.filter_singleton, Option.filter, holds]

-- ---------------------------------------------------------------------
-- Runs
-- ---------------------------------------------------------------------

def FpOp.broadcast (fpnew : FpnewFn) (x : FpOp) : Broadcast :=
  if x.isFmv then ⟨x.tag, x.fmvResult, false, 0, .none⟩
  else if x.fpnewUnsupported then ⟨x.tag, 0, true, 0, .none⟩
  else ⟨x.tag, (fpnew x).1, false, (fpnew x).2, .none⟩

def CdbResult.broadcast (out : CdbResult) : Broadcast := ⟨out.tag, out.data, false, 0, .none⟩

/-- What a division is to give. -/
def quotient (d : CdbTag × DivReq) : Broadcast := CdbResult.broadcast ⟨d.1, d.2.value⟩

/-- What an operation is to give on CDB[3]. -/
def Iq2Op.broadcast (fpnew : FpnewFn) : Iq2Op → Broadcast
  | .alu tag value port => ⟨tag, value, false, 0, port⟩
  | .csr tag value illegal port => ⟨tag, value, illegal, 0, port⟩
  | .div tag req => quotient (tag, req)
  | .fp x => x.broadcast fpnew

/-- The flush of the cycle does not squash the operation that gives this. -/
def Iq2In.spares (i : Iq2In) (b : Broadcast) : Bool := !i.partlyClears b.tag.robIdx

namespace Iq2Port

variable (pipelined : Bool) (fpnew : FpnewFn) (s : Iq2Port) (i : Iq2In)

/-- The operation in the request register. -/
def request : Option FpOp := if s.fpuReqValid then some s.fpuReq else none

/-- A division or an FP operation that issues, live or not. -/
def lateIssue : Option Iq2Op := (s.issue pipelined fpnew i).filter fun c => !c.isNow

/-- What is on CDB[3] and does not come from ALU3. -/
def late : Option Broadcast :=
  if (s.fpuLive fpnew i).isSome || (s.alu3Issue pipelined fpnew i).isNone then
    s.cdb pipelined fpnew i
  else none

end Iq2Port

/-- The port with the division that the divider has and the operations in FPnew, what all issued
operations are to give, and all that has been broadcast. -/
structure Iq2Run where
  port : Iq2Port
  dividing : Option (CdbTag × DivReq)
  inFpnew : Multiset FpOp
  issued : Multiset Broadcast
  sent : Multiset Broadcast
  /-- There has been no flush. -/
  calm : Bool
  /-- What divisions and FP operations that no flush has squashed are still to give. -/
  owed : Multiset Broadcast

namespace Iq2Run

variable (pipelined : Bool) (fpnew : FpnewFn) (s : Iq2Run) (i : Iq2In)

/-- What FPnew may return. -/
def atFpnew : Multiset FpOp := s.inFpnew + one (s.port.fpnewAccept i)

/-- What FPnew keeps unless it is flushed. -/
def staying : Multiset FpOp := i.fpnewOut.elim (s.atFpnew i) (s.atFpnew i).erase

def dividingNext : Option (CdbTag × DivReq) :=
  if s.port.divFlushKill i then none
  else match s.port.divIssueLive pipelined fpnew i with
    | some d => some d
    | none => if s.port.divider.validOut then none else s.dividing

/-- What is owed behind the flush, with the operation that issues. -/
def due : Multiset Broadcast :=
  (s.owed + one ((s.port.lateIssue pipelined fpnew i).map (Iq2Op.broadcast fpnew))).filter
    fun b => i.spares b = true

/-- The operations on their way to the port. -/
def waiting : Multiset Broadcast :=
  one (s.dividing.map quotient) + one (s.port.divHold.map CdbResult.broadcast) +
    (one s.port.request + s.inFpnew).map (FpOp.broadcast fpnew)

def next : Iq2Run where
  port := s.port.next pipelined fpnew i
  dividing := s.dividingNext pipelined fpnew i
  inFpnew := if s.port.fpuFlushKill i then 0 else s.staying i
  issued := s.issued + one ((s.port.issue pipelined fpnew i).map (Iq2Op.broadcast fpnew))
  sent := s.sent + one (s.port.cdb pipelined fpnew i)
  calm := s.calm && i.flush.isNone
  owed := if i.fullFlush then 0
    else s.due pipelined fpnew i - one (s.port.late pipelined fpnew i)

end Iq2Run

def iq2Runs (pipelined : Bool) (fpnew : FpnewFn) : Machine Iq2Run Iq2In where
  reset := ⟨.reset, none, 0, 0, 0, true, 0⟩
  next s i := s.next pipelined fpnew i
  legal s i := ∀ x, i.fpnewOut = some x → x ∈ s.atFpnew i

/-- What is on its way is what the divisions and FP operations are to give that no flush has squashed,
and what the divider and the FPU broadcast is one of these. -/
structure Iq2Run.Survive (pipelined : Bool) (fpnew : FpnewFn) (s : Iq2Run) (i : Iq2In) :
    Prop where
  owed : s.waiting fpnew = s.owed
  late : ∀ b, s.port.late pipelined fpnew i = some b → b ∈ s.due pipelined fpnew i

/-- A flush that squashes the last division squashes the one that issues, one that squashes the last
request squashes the FP operation that issues, FPnew has only operations that fare as the last
request, and a held quotient that is squashed does not find the port free. -/
structure Iq2Run.Apart (pipelined : Bool) (fpnew : FpnewFn) (s : Iq2Run) (i : Iq2In) : Prop where
  div : i.partlyClears s.port.divTag.robIdx = true → ∀ d,
    s.port.divIssue pipelined fpnew i = some d → i.partlyClears d.1.robIdx = true
  fp : i.partlyClears s.port.fpuReq.tag.robIdx = true → ∀ x,
    s.port.fpuIssue pipelined fpnew i = some x → i.partlyClears x.tag.robIdx = true
  inside : ∀ x ∈ s.staying i,
    i.partlyClears x.tag.robIdx = i.partlyClears s.port.fpuReq.tag.robIdx
  held : ∀ out, s.port.divHold = some out → i.partlyClears out.tag.robIdx = true →
    s.port.divPortBusy pipelined fpnew i = true

-- ---------------------------------------------------------------------
-- What issues
-- ---------------------------------------------------------------------

namespace Iq2Port

variable {pipelined : Bool} {fpnew : FpnewFn} {s : Iq2Port} {i : Iq2In} {c : Iq2Op}

theorem issued_free (issued : s.issue pipelined fpnew i = some c) :
    i.candidate = some c ∧ s.issueSuppress pipelined fpnew i c = false := by
  simpa [issue, Option.filter_eq_some_iff] using issued

/-- Only FP operations issue while CDB[3] has something to give. -/
theorem issued_quiet (issued : s.issue pipelined fpnew i = some c) (other : c.isFp = false) :
    s.fpuOut fpnew i = none ∧ s.divider.validOut = false ∧ s.divHold = none := by
  have free := (issued_free issued).2
  simp only [issueSuppress, other, Bool.and_false, Bool.false_eq_true, if_false,
    Bool.or_eq_false_iff] at free
  obtain ⟨⟨⟨-, out⟩, fresh⟩, held⟩ := free
  refine ⟨?_, fresh, ?_⟩
  · simpa using out
  · simpa using held

/-- The request register is empty, or is left in this cycle. -/
theorem issued_ready (issued : s.issue pipelined fpnew i = some c) (valid : s.fpuReqValid = true) :
    pipelined = true ∧ s.fpuReady i = true := by
  have free := (issued_free issued).2
  cases pipelined with
  | false => simp [issueSuppress, valid] at free
  | true =>
    refine ⟨rfl, ?_⟩
    simp only [issueSuppress, valid, Bool.or_eq_false_iff] at free
    simpa using free.1.1.1.2

theorem issued_csr (issued : s.issue pipelined fpnew i = some c) (csr : c.isCsr = true) :
    i.notHead = false := by
  have free := (issued_free issued).2
  simp only [issueSuppress, csr, Bool.true_and, Bool.or_eq_false_iff] at free
  exact free.1.1.1.1.1

theorem divIssue_iff : s.divIssue pipelined fpnew i = some d ↔
    s.issue pipelined fpnew i = some (.div d.1 d.2) := by
  unfold divIssue
  cases s.issue pipelined fpnew i with
  | none => simp
  | some c => cases c <;> simp [Prod.ext_iff]

theorem fpuIssue_iff : s.fpuIssue pipelined fpnew i = some x ↔
    s.issue pipelined fpnew i = some (.fp x) := by
  unfold fpuIssue
  cases s.issue pipelined fpnew i with
  | none => simp
  | some c => cases c <;> simp

theorem divIssueLive_iff : s.divIssueLive pipelined fpnew i = some d ↔
    s.divIssue pipelined fpnew i = some d ∧ i.partlyClears d.1.robIdx = false := by
  simp [divIssueLive, Option.filter_eq_some_iff]

theorem fpuIssueLive_iff : s.fpuIssueLive pipelined fpnew i = some x ↔
    s.fpuIssue pipelined fpnew i = some x ∧ i.partlyClears x.tag.robIdx = false := by
  simp [fpuIssueLive, Option.filter_eq_some_iff]

/-- A division issues to a divider that has none. -/
theorem divIssue_idle (comes : s.divIssue pipelined fpnew i = some d) :
    s.divider.busy = false ∧ s.divider.validOut = false ∧ s.divHold = none := by
  have issued := divIssue_iff.1 comes
  have free := (issued_free issued).2
  obtain ⟨-, fresh, held⟩ := issued_quiet issued rfl
  refine ⟨?_, fresh, held⟩
  simp only [issueSuppress, Iq2Op.isDiv, Bool.true_and, Bool.or_eq_false_iff] at free
  exact free.1.1.1.1.2

theorem alu3_issued (now : s.alu3Issue pipelined fpnew i = some c) :
    s.issue pipelined fpnew i = some c ∧ c.isNow = true := by
  simpa [alu3Issue, Option.filter_eq_some_iff] using now

theorem alu3_quiet (now : s.alu3Issue pipelined fpnew i = some c) :
    s.fpuOut fpnew i = none ∧ s.divider.validOut = false ∧ s.divHold = none := by
  obtain ⟨issued, isNow⟩ := alu3_issued now
  refine issued_quiet issued ?_
  cases c with
  | fp => cases isNow
  | _ => rfl

-- ---------------------------------------------------------------------
-- One division
-- ---------------------------------------------------------------------

/-- The divider is idle while a result is held. -/
structure Settled (s : Iq2Port) : Prop where
  fresh : s.divider.validOut = true → s.divider.busy = false
  held : s.divHold.isSome = true → s.divider.busy = false ∧ s.divider.validOut = false

end Iq2Port

theorem Divider.work_fresh (d : Divider) (fresh : d.work.validOut = true) :
    d.work.busy = false := by
  unfold Divider.work at fresh ⊢
  cases state : d.state with
  | idle => simp [state] at fresh
  | running =>
    simp only [state] at fresh ⊢
    split at fresh
    next last => simp [last, Divider.busy]
    next => cases fresh
  | done => simp [Divider.busy]

theorem Divider.start_quiet (d : Divider) (r : DivReq) : (d.start r).validOut = false := by
  unfold Divider.start
  cases special r <;> rfl

/-- A divider that gives a result is idle. -/
theorem Divider.next_fresh (d : Divider) (req : Option DivReq) (flush : Bool)
    (fresh : (d.next req flush).validOut = true) : (d.next req flush).busy = false := by
  cases flush with
  | true => exact nomatch fresh
  | false =>
    unfold Divider.next at fresh ⊢
    simp only [Bool.false_eq_true, if_false] at fresh ⊢
    split at fresh
    next running =>
      rw [if_pos running]
      exact d.work_fresh fresh
    next idle =>
      rw [if_neg idle]
      cases req with
      | none => exact d.work_fresh fresh
      | some r => exact absurd fresh (by simp [Divider.start_quiet])

theorem Divider.next_idle (d : Divider) (flush : Bool) (idle : d.busy = false) :
    (d.next none flush).busy = false ∧ (d.next none flush).validOut = false := by
  have state : d.state = .idle := by simpa [Divider.busy] using idle
  cases flush <;> simp [Divider.next, Divider.busy, Divider.work, state]

namespace Iq2Port

variable {pipelined : Bool} {fpnew : FpnewFn} {s : Iq2Port} {i : Iq2In} {c : Iq2Op}

theorem Settled.live (settled : s.Settled) (held : s.divHold.isSome = true) :
    s.divValidLive i = none := by
  simp [divValidLive, (settled.held held).2]

theorem divValidLive_fresh (live : (s.divValidLive i).isSome = true) :
    s.divider.validOut = true := by
  unfold divValidLive at live
  split at live
  next fresh => simp only [Bool.and_eq_true] at fresh; exact fresh.1
  next => cases live

/-- What is held came out of the divider, now or before. -/
theorem divHoldNext_idle (settled : s.Settled)
    (held : (s.divHoldNext pipelined fpnew i).isSome = true) :
    s.divider.busy = false ∧ s.divIssueLive pipelined fpnew i = none := by
  have from_ : s.divider.validOut = true ∨ s.divHold.isSome = true := by
    unfold divHoldNext at held
    split at held
    · cases held
    split at held
    · exact .inl (divValidLive_fresh held)
    split at held
    · cases held
    · exact .inr held
  constructor
  · rcases from_ with fresh | before
    · exact settled.fresh fresh
    · exact (settled.held before).1
  · cases live : s.divIssueLive pipelined fpnew i with
    | none => rfl
    | some d =>
      obtain ⟨-, fresh, held⟩ := divIssue_idle (divIssueLive_iff.1 live).1
      simp [fresh, held] at from_

theorem settled_next (settled : s.Settled) : (s.next pipelined fpnew i).Settled := by
  constructor
  case fresh => exact Divider.next_fresh _ _ _
  case held =>
    intro held
    obtain ⟨idle, none⟩ := divHoldNext_idle settled held
    have next : (s.next pipelined fpnew i).divider =
        s.divider.next Option.none (s.divFlushKill i) := by
      rw [Iq2Port.next, none]
      rfl
    rw [next]
    exact Divider.next_idle _ _ idle

-- ---------------------------------------------------------------------
-- One claim
-- ---------------------------------------------------------------------

theorem fpuLive_busy (live : (s.fpuLive fpnew i).isSome = true) :
    s.fpuUnsupported i = true ∨ (s.fpuOut fpnew i).isSome = true := by
  unfold fpuLive at live
  split at live
  next unsupported => exact .inl unsupported
  next =>
    right
    cases out : s.fpuOut fpnew i with
    | none => simp [out] at live
    | some => rfl

theorem divEff_free (busy : s.divPortBusy pipelined fpnew i = true) :
    s.divEff pipelined fpnew i = none := by
  simp [divEff, divTakeHold, divTakeFresh, busy]

theorem fpuUnsupported_iff : s.fpuUnsupported i = true ↔
    s.fpuReqValid = true ∧ s.fpuReq.isFmv = false ∧ s.fpuReq.fpnewUnsupported = true ∧
      i.fpnewOut = none := by
  simp [fpuUnsupported, and_assoc]

-- ---------------------------------------------------------------------
-- The operations in the FPU
-- ---------------------------------------------------------------------

variable (s i) in
/-- The request that stays. -/
def kept : Option FpOp := if s.fpuReady i then none else s.request

variable (s i) in
/-- The request that is answered without FPnew. -/
def answered : Option FpOp :=
  if (s.fpuReq.isFmv || s.fpuReq.fpnewUnsupported) && i.fpnewOut.isNone then s.request else none

/-- The request that is given to FPnew is what is left. -/
theorem request_parts :
    one s.request = one (s.kept i) + one (s.fpnewAccept i) + one (s.answered i) := by
  unfold kept answered fpnewAccept fpuReady request
  cases s.fpuReqValid <;> cases s.fpuReq.isFmv <;> cases s.fpuReq.fpnewUnsupported <;>
    cases i.fpnewOut <;> cases i.fpnewInReady <;> simp

theorem kept_request (on : s.kept i = some x) : x = s.fpuReq := by
  unfold kept request at on
  split at on
  · cases on
  split at on
  · exact (Option.some.inj on).symm
  · cases on

/-- What leaves the request to one operation: the request stays, or another issues. -/
theorem request_next (lives : s.fpuFlushKill i = false) :
    one (s.next pipelined fpnew i).request =
      one (s.kept i) + one (s.fpuIssueLive pipelined fpnew i) := by
  unfold request kept next fpuReqValidNext fpuReqNext
  rw [lives]
  cases live : s.fpuIssueLive pipelined fpnew i with
  | none =>
    cases valid : s.fpuReqValid <;> cases ready : s.fpuReady i <;> simp [request, valid]
  | some x =>
    have ready := issued_ready (fpuIssue_iff.1 (fpuIssueLive_iff.1 live).1)
    cases valid : s.fpuReqValid with
    | false => simp [request, valid]
    | true => simp [(ready valid).2]

variable (fpnew s i) in
/-- What the FPU puts on the port. -/
def fpuCast : Option Broadcast :=
  (s.fpuLive fpnew i).map fun out => ⟨out.1, out.2.1, s.fpuUnsupported i, out.2.2, .none⟩

end Iq2Port

/-- FPnew knows the operation. -/
def FpOp.Plain (x : FpOp) : Prop := x.isFmv = false ∧ x.fpnewUnsupported = false

/-- The flush of the cycle does not squash the operation. -/
def Iq2In.leaves (i : Iq2In) (x : FpOp) : Bool := !i.partlyClears x.tag.robIdx

theorem FpOp.broadcast_tag (fpnew : FpnewFn) (x : FpOp) : (x.broadcast fpnew).tag = x.tag := by
  unfold FpOp.broadcast
  split
  · rfl
  split <;> rfl

theorem spares_broadcast (fpnew : FpnewFn) (i : Iq2In) (x : FpOp) :
    i.spares (x.broadcast fpnew) = i.leaves x := by
  rw [Iq2In.spares, FpOp.broadcast_tag, Iq2In.leaves]

namespace Iq2Port

variable {pipelined : Bool} {fpnew : FpnewFn} {s : Iq2Port} {i : Iq2In} {c : Iq2Op}

/-- The FPU gives what FPnew returns, or the answer to the request, unless it is squashed. -/
theorem fpuCast_parts (fpnew : FpnewFn) (plain : ∀ x, i.fpnewOut = some x → x.Plain) :
    one (s.fpuCast fpnew i) =
      (((one i.fpnewOut + one (s.answered i)).filter fun x => i.leaves x = true).map
        (FpOp.broadcast fpnew)) := by
  rw [Multiset.filter_add, filter_one, filter_one, Multiset.map_add, map_one, map_one]
  unfold fpuCast fpuLive fpuUnsupported fpuOut answered request Iq2In.leaves
  cases out : i.fpnewOut with
  | some x =>
    obtain ⟨fmv, known⟩ := plain x out
    cases clear : i.partlyClears x.tag.robIdx <;>
      simp [FpOp.broadcast, fmv, known, Option.filter, clear]
  | none =>
    cases valid : s.fpuReqValid with
    | false => simp
    | true =>
      cases clear : i.partlyClears s.fpuReq.tag.robIdx <;>
        cases fmv : s.fpuReq.isFmv <;> cases known : s.fpuReq.fpnewUnsupported <;>
          simp [FpOp.broadcast, fmv, known, Option.filter, clear]

end Iq2Port

namespace Iq2Run

variable {pipelined : Bool} {fpnew : FpnewFn} {s : Iq2Run} {i : Iq2In}

theorem plain_atFpnew (plain : ∀ x ∈ s.inFpnew, x.Plain) : ∀ x ∈ s.atFpnew i, x.Plain := by
  intro x on
  rcases Multiset.mem_add.mp on with before | now
  · exact plain x before
  · unfold Iq2Port.fpnewAccept at now
    split at now
    next accept =>
      simp only [one_some, Multiset.mem_singleton] at now
      subst now
      simp only [Bool.and_eq_true, Bool.not_eq_true'] at accept
      exact ⟨accept.1.1.2, accept.1.2⟩
    next => exact absurd now (Multiset.notMem_zero x)

theorem plain_staying (plain : ∀ x ∈ s.inFpnew, x.Plain) : ∀ x ∈ s.staying i, x.Plain := by
  intro x on
  unfold staying at on
  cases out : i.fpnewOut with
  | none =>
    rw [out] at on
    exact plain_atFpnew plain x on
  | some y =>
    rw [out] at on
    exact plain_atFpnew plain x (Multiset.mem_of_mem_erase on)

/-- What FPnew has accepted it keeps, or it returns it. -/
theorem staying_parts (legal : ∀ x, i.fpnewOut = some x → x ∈ s.atFpnew i) :
    s.staying i + one i.fpnewOut = s.inFpnew + one (s.port.fpnewAccept i) := by
  show _ = s.atFpnew i
  unfold staying
  cases out : i.fpnewOut with
  | none => simp
  | some x =>
    show (s.atFpnew i).erase x + {x} = s.atFpnew i
    rw [add_comm, Multiset.singleton_add]
    exact Multiset.cons_erase (legal x out)

/-- What is in the FPU: the request that stays, what FPnew keeps, and what leaves. -/
theorem inFpu_parts (legal : ∀ x, i.fpnewOut = some x → x ∈ s.atFpnew i) :
    one s.port.request + s.inFpnew =
      one (s.port.kept i) + s.staying i + (one i.fpnewOut + one (s.port.answered i)) := by
  calc one s.port.request + s.inFpnew
    _ = one (s.port.kept i) + (s.inFpnew + one (s.port.fpnewAccept i)) +
        one (s.port.answered i) := by
      rw [Iq2Port.request_parts (i := i)]
      ac_rfl
    _ = _ := by
      rw [← staying_parts legal]
      ac_rfl

/-- A flush that squashes the last request leaves nothing in the FPU. -/
theorem fpu_killed (cleared : i.partlyClears s.port.fpuReq.tag.robIdx = true)
    (apart : s.Apart pipelined fpnew i) :
    (one (s.port.kept i) + s.staying i + one (s.port.fpuIssue pipelined fpnew i)).filter
      (fun x => i.leaves x = true) = 0 := by
  rw [Multiset.filter_eq_nil]
  intro x on
  suffices i.partlyClears x.tag.robIdx = true by simp [Iq2In.leaves, this]
  rcases Multiset.mem_add.mp on with on | on
  · rcases Multiset.mem_add.mp on with on | on
    · cases kept : s.port.kept i with
      | none => simp [kept] at on
      | some y =>
        simp only [kept, one_some, Multiset.mem_singleton] at on
        rw [on, Iq2Port.kept_request kept, cleared]
    · rw [apart.inside x on, cleared]
  · cases comes : s.port.fpuIssue pipelined fpnew i with
    | none => simp [comes] at on
    | some y =>
      simp only [comes, one_some, Multiset.mem_singleton] at on
      rw [on]
      exact apart.fp cleared y comes

/-- Any other flush leaves all of it, with the live operation that issues. -/
theorem fpu_lives (spared : i.partlyClears s.port.fpuReq.tag.robIdx = false)
    (apart : s.Apart pipelined fpnew i) :
    (one (s.port.kept i) + s.staying i + one (s.port.fpuIssue pipelined fpnew i)).filter
        (fun x => i.leaves x = true) =
      one (s.port.kept i) + s.staying i + one (s.port.fpuIssueLive pipelined fpnew i) := by
  have before : ∀ x ∈ one (s.port.kept i) + s.staying i, i.leaves x = true := by
    intro x on
    suffices i.partlyClears x.tag.robIdx = false by simp [Iq2In.leaves, this]
    rcases Multiset.mem_add.mp on with on | on
    · cases kept : s.port.kept i with
      | none => simp [kept] at on
      | some y =>
        simp only [kept, one_some, Multiset.mem_singleton] at on
        rw [on, Iq2Port.kept_request kept, spared]
    · rw [apart.inside x on, spared]
  rw [Multiset.filter_add, Multiset.filter_eq_self.2 before, filter_one]
  rfl

/-- An FP operation that issues comes to the request register, then to FPnew, and leaves once. -/
theorem fpu_survivors (part : i.fullFlush = false) (apart : s.Apart pipelined fpnew i)
    (plain : ∀ x ∈ s.inFpnew, x.Plain)
    (legal : ∀ x, i.fpnewOut = some x → x ∈ s.atFpnew i) :
    (one (s.next pipelined fpnew i).port.request + (s.next pipelined fpnew i).inFpnew).map
        (FpOp.broadcast fpnew) + one (s.port.fpuCast fpnew i) =
      (((one s.port.request + s.inFpnew).map (FpOp.broadcast fpnew) +
        one ((s.port.fpuIssue pipelined fpnew i).map (FpOp.broadcast fpnew))).filter
          fun b => i.spares b = true) := by
  have stays : one (s.next pipelined fpnew i).port.request + (s.next pipelined fpnew i).inFpnew =
      (one (s.port.kept i) + s.staying i + one (s.port.fpuIssue pipelined fpnew i)).filter
        (fun x => i.leaves x = true) := by
    cases cleared : i.partlyClears s.port.fpuReq.tag.robIdx with
    | true =>
      have kill : s.port.fpuFlushKill i = true := by simp [Iq2Port.fpuFlushKill, cleared]
      rw [fpu_killed cleared apart]
      simp [Iq2Run.next, kill, Iq2Port.next, Iq2Port.request, Iq2Port.fpuReqValidNext]
    | false =>
      have kill : s.port.fpuFlushKill i = false := by
        simp [Iq2Port.fpuFlushKill, part, cleared]
      rw [fpu_lives cleared apart, add_right_comm]
      show one (s.port.next pipelined fpnew i).request +
        (if s.port.fpuFlushKill i then 0 else s.staying i) = _
      rw [Iq2Port.request_next kill, kill]
      rfl
  have cast := Iq2Port.fpuCast_parts (s := s.port) fpnew fun x out =>
    plain_atFpnew plain x (legal x out)
  rw [stays, cast, ← Multiset.map_add, ← map_one, ← Multiset.map_add, Multiset.filter_map,
    ← Multiset.filter_add, inFpu_parts legal]
  congr 1
  simp only [Function.comp_def, spares_broadcast]
  congr 1
  ac_rfl

end Iq2Run

-- ---------------------------------------------------------------------
-- The division on its way
-- ---------------------------------------------------------------------

namespace Iq2Port

variable {pipelined : Bool} {fpnew : FpnewFn} {s : Iq2Port} {i : Iq2In} {c : Iq2Op}

/-- The divider works on the division, and nothing is held. -/
def Divides (s : Iq2Port) : Option (CdbTag × DivReq) → Prop
  | none => s.divider.busy = false ∧ s.divider.validOut = false
  | some (tag, req) => s.divTag = tag ∧ s.divHold = none ∧
      ∃ d k, k ≤ Divider.latency req ∧ s.divider = Divider.after d req k

/-- A division is at work, or gives its value. -/
theorem Divides.work (divides : s.Divides (some (tag, req))) :
    (s.divider.busy = true ∧ s.divider.validOut = false) ∨
      (s.divider.busy = false ∧ s.divider.validOut = true ∧ s.divider.result = req.value) := by
  obtain ⟨-, -, d, k, early, same⟩ := divides
  obtain ⟨busy, validOut⟩ := Divider.busy_after d req early
  rw [same, busy, validOut]
  rcases Nat.lt_or_eq_of_le early with more | last
  · left
    exact ⟨decide_eq_true more, decide_eq_false (by omega)⟩
  · subst last
    exact .inr ⟨decide_eq_false (by omega), decide_eq_true rfl, Divider.result_after d req⟩

theorem Divides.none_of_issue (divides : s.Divides dividing)
    (comes : s.divIssue pipelined fpnew i = some d) : dividing = none := by
  obtain ⟨idle, quiet, -⟩ := divIssue_idle comes
  cases dividing with
  | none => rfl
  | some e =>
    rcases divides.work with ⟨busy, -⟩ | ⟨-, fresh, -⟩
    · exact absurd busy (by simp [idle])
    · exact absurd fresh (by simp [quiet])

theorem divHoldNext_none (held : s.divHold = none) (live : s.divValidLive i = none) :
    s.divHoldNext pipelined fpnew i = none := by
  simp [divHoldNext, held, live]

/-- A result goes to the port or is held until the port is free, unless it is squashed. -/
theorem divHold_survivors (part : i.fullFlush = false) (settled : s.Settled)
    (held : ∀ out, s.divHold = some out → i.partlyClears out.tag.robIdx = true →
      s.divPortBusy pipelined fpnew i = true) :
    one ((s.divHoldNext pipelined fpnew i).map CdbResult.broadcast) +
        one ((s.divEff pipelined fpnew i).map CdbResult.broadcast) =
      (one (s.divHold.map CdbResult.broadcast)).filter (fun b => i.spares b = true) +
        one ((s.divValidLive i).map CdbResult.broadcast) := by
  rw [filter_one]
  unfold divHoldNext divEff divTakeHold divTakeFresh
  rw [part]
  cases holds : s.divHold with
  | none => cases s.divValidLive i <;> cases s.divPortBusy pipelined fpnew i <;> simp
  | some out =>
    have live := settled.live (i := i) (by simp [holds])
    rw [live]
    cases cleared : i.partlyClears out.tag.robIdx with
    | true =>
      have busy := held out holds cleared
      simp [busy, cleared, Iq2In.spares, CdbResult.broadcast, Option.filter]
    | false =>
      cases s.divPortBusy pipelined fpnew i <;>
        simp [cleared, Iq2In.spares, CdbResult.broadcast, Option.filter]

end Iq2Port

namespace Iq2Run

variable {pipelined : Bool} {fpnew : FpnewFn} {s : Iq2Run} {i : Iq2In}

/-- A division that issues comes to the divider, and one that is done leaves it with its value. -/
theorem dividing_survivors (part : i.fullFlush = false) (apart : s.Apart pipelined fpnew i)
    (divides : s.port.Divides s.dividing) :
    one ((s.dividingNext pipelined fpnew i).map quotient) +
        one ((s.port.divValidLive i).map CdbResult.broadcast) =
      (one (s.dividing.map quotient) +
        one ((s.port.divIssue pipelined fpnew i).map quotient)).filter
          (fun b => i.spares b = true) := by
  have kill : s.port.divFlushKill i = i.partlyClears s.port.divTag.robIdx := by
    simp [Iq2Port.divFlushKill, part]
  rw [Multiset.filter_add, filter_one, filter_one]
  unfold dividingNext Iq2Port.divValidLive
  rw [kill]
  cases comes : s.port.divIssue pipelined fpnew i with
  | some d =>
    obtain ⟨-, quiet, -⟩ := Iq2Port.divIssue_idle comes
    have idle := divides.none_of_issue comes
    cases cleared : i.partlyClears s.port.divTag.robIdx with
    | true =>
      have clear := apart.div cleared d comes
      simp [idle, quiet, Iq2In.spares, quotient, CdbResult.broadcast, clear, Option.filter]
    | false =>
      cases clear : i.partlyClears d.1.robIdx <;>
        simp [idle, quiet, Iq2In.spares, quotient, CdbResult.broadcast, clear, Option.filter,
          Iq2Port.divIssueLive, comes]
  | none =>
    cases dividing : s.dividing with
    | none =>
      rw [dividing] at divides
      simp [Iq2Port.divIssueLive, comes, divides.2]
    | some d =>
      obtain ⟨tag, req⟩ := d
      rw [dividing] at divides
      have tag_ := divides.1
      subst tag_
      rcases divides.work with ⟨-, quiet⟩ | ⟨-, fresh, value⟩
      · cases cleared : i.partlyClears s.port.divTag.robIdx <;>
          simp [quiet, cleared, Iq2In.spares, quotient, CdbResult.broadcast, Option.filter,
            Iq2Port.divIssueLive, comes]
      · cases cleared : i.partlyClears s.port.divTag.robIdx <;>
          simp [fresh, value, cleared, Iq2In.spares, quotient, CdbResult.broadcast, Option.filter,
            Iq2Port.divIssueLive, comes]

theorem divides_next (divides : s.port.Divides s.dividing) :
    (s.port.next pipelined fpnew i).Divides (s.dividingNext pipelined fpnew i) := by
  unfold dividingNext
  cases kill : s.port.divFlushKill i with
  | true =>
    rw [if_pos rfl]
    show _ ∧ _
    simp [Iq2Port.next, kill, Divider.next, Divider.busy]
  | false =>
    rw [if_neg Bool.false_ne_true]
    cases live : s.port.divIssueLive pipelined fpnew i with
    | some d =>
      obtain ⟨idle, quiet, held⟩ := Iq2Port.divIssue_idle (Iq2Port.divIssueLive_iff.1 live).1
      have liveNone : s.port.divValidLive i = none := by simp [Iq2Port.divValidLive, quiet]
      refine ⟨?_, Iq2Port.divHoldNext_none held liveNone, s.port.divider, 0, Nat.zero_le _, ?_⟩
      · simp [Iq2Port.next, Iq2Port.divTagNext, kill, idle, live]
      · simp [Iq2Port.next, Divider.next, kill, idle, live, Divider.after]
    | none =>
      have next : (s.port.next pipelined fpnew i).divider = s.port.divider.next none false := by
        rw [Iq2Port.next, live, kill]
        rfl
      cases dividing : s.dividing with
      | none =>
        rw [dividing] at divides
        simp only [ite_self]
        show _ ∧ _
        rw [next]
        exact Divider.next_idle _ _ divides.1
      | some d =>
        obtain ⟨tag, req⟩ := d
        rw [dividing] at divides
        rcases divides.work with ⟨busy, quiet⟩ | ⟨idle, fresh, -⟩
        · obtain ⟨same, held, d, k, early, works⟩ := divides
          have liveNone : s.port.divValidLive i = none := by simp [Iq2Port.divValidLive, quiet]
          have more : k < Divider.latency req := by
            have at_ := (Divider.busy_after d req early).1
            rw [← works, busy] at at_
            exact of_decide_eq_true at_.symm
          simp only [quiet, Bool.false_eq_true, if_false]
          refine ⟨?_, Iq2Port.divHoldNext_none held liveNone, d, k + 1, more, ?_⟩
          · simp [Iq2Port.next, Iq2Port.divTagNext, kill, busy, same]
          · rw [next, Divider.after, ← works]
            simp [Divider.next, busy]
        · simp only [fresh, if_true]
          show _ ∧ _
          rw [next]
          exact Divider.next_idle _ _ idle

end Iq2Run

-- ---------------------------------------------------------------------
-- The port
-- ---------------------------------------------------------------------

namespace Iq2Port

variable {pipelined : Bool} {fpnew : FpnewFn} {s : Iq2Port} {i : Iq2In} {c : Iq2Op}

theorem divEff_none (pipelined : Bool) (live : (s.fpuLive fpnew i).isSome = true) :
    s.divEff pipelined fpnew i = none := by
  apply divEff_free
  rcases fpuLive_busy live with unsupported | busy
  · simp [divPortBusy, unsupported]
  · simp [divPortBusy, busy]

/-- Without ALU3 the port is the FPU's or, while that has nothing, the divider's. -/
theorem cdb_other (none : s.alu3Issue pipelined fpnew i = none) :
    s.cdb pipelined fpnew i =
      (s.fpuCast fpnew i).or ((s.divEff pipelined fpnew i).map CdbResult.broadcast) := by
  rw [cdb, fpuCast, cdbHasException, none]
  cases s.fpuLive fpnew i with
  | some out => simp
  | none =>
    cases eff : s.divEff pipelined fpnew i with
    | none => rfl
    | some out =>
      have free : s.divPortBusy pipelined fpnew i = false := by
        cases busy : s.divPortBusy pipelined fpnew i with
        | false => rfl
        | true => exact absurd eff (by simp [divEff_free busy])
      have unsupported : s.fpuUnsupported i = false := by
        simp only [divPortBusy, Bool.or_eq_false_iff] at free
        exact free.2
      simp [unsupported, CdbResult.broadcast]

/-- ALU3 meets the FPU only in an operation that FPnew does not know. -/
theorem cdb_over (now : s.alu3Issue pipelined fpnew i = some c)
    (live : (s.fpuLive fpnew i).isSome = true) :
    s.cdb pipelined fpnew i = s.fpuCast fpnew i := by
  have unsupported : s.fpuUnsupported i = true := by
    rcases fpuLive_busy live with unsupported | busy
    · exact unsupported
    · exact absurd busy (by simp [(alu3_quiet now).1])
  obtain ⟨out, same⟩ := Option.isSome_iff_exists.1 live
  simp [cdb, fpuCast, same, cdbHasException, unsupported]

theorem late_parts (pipelined : Bool) (fpnew : FpnewFn) (s : Iq2Port) (i : Iq2In) :
    one (s.late pipelined fpnew i) =
      one (s.fpuCast fpnew i) + one ((s.divEff pipelined fpnew i).map CdbResult.broadcast) := by
  unfold late
  cases live : s.fpuLive fpnew i with
  | none =>
    cases now : s.alu3Issue pipelined fpnew i with
    | none => simp [cdb_other now, fpuCast, live]
    | some c =>
      have eff : s.divEff pipelined fpnew i = none := divEff_free (by simp [divPortBusy, now])
      simp [eff, fpuCast, live]
  | some out =>
    have some_ : (s.fpuLive fpnew i).isSome = true := by rw [live]; rfl
    have eff := divEff_none pipelined some_
    cases now : s.alu3Issue pipelined fpnew i with
    | none => simp [cdb_other now, fpuCast, live, eff]
    | some c => simp [cdb_over now some_, eff]

theorem lateIssue_parts (pipelined : Bool) (fpnew : FpnewFn) (s : Iq2Port) (i : Iq2In) :
    one ((s.lateIssue pipelined fpnew i).map (Iq2Op.broadcast fpnew)) =
      one ((s.fpuIssue pipelined fpnew i).map (FpOp.broadcast fpnew)) +
        one ((s.divIssue pipelined fpnew i).map quotient) := by
  unfold lateIssue fpuIssue divIssue
  cases s.issue pipelined fpnew i with
  | none => rfl
  | some c => cases c <;> simp [Iq2Op.isNow, Iq2Op.broadcast, Option.filter]

end Iq2Port

namespace Iq2Run

variable {pipelined : Bool} {fpnew : FpnewFn} {s : Iq2Run} {i : Iq2In}

/-- What the runs keep. -/
structure Sound (s : Iq2Run) : Prop where
  settled : s.port.Settled
  plain : ∀ x ∈ s.inFpnew, x.Plain
  divides : s.port.Divides s.dividing

theorem Sound.next (sound : s.Sound) : (s.next pipelined fpnew i).Sound := by
  obtain ⟨settled, plain, divides⟩ := sound
  constructor
  case settled => exact Iq2Port.settled_next settled
  case plain =>
    intro x on
    have on : x ∈ if s.port.fpuFlushKill i then 0 else s.staying i := on
    split at on
    · exact absurd on (Multiset.notMem_zero x)
    · exact plain_staying plain x on
  case divides => exact divides_next divides

theorem sound_reset : (iq2Runs pipelined fpnew).reset.Sound := by
  constructor
  case settled => exact ⟨fun _ => rfl, fun held => nomatch held⟩
  case plain => exact fun x on => absurd on (Multiset.notMem_zero x)
  case divides => exact ⟨rfl, rfl⟩

/-- What is broadcast has left; what issues and is not squashed is on its way. -/
theorem cycle_survivors (part : i.fullFlush = false) (apart : s.Apart pipelined fpnew i)
    (sound : s.Sound) (legal : (iq2Runs pipelined fpnew).legal s i) :
    (s.next pipelined fpnew i).waiting fpnew + one (s.port.late pipelined fpnew i) =
      (s.waiting fpnew +
        one ((s.port.lateIssue pipelined fpnew i).map (Iq2Op.broadcast fpnew))).filter
          fun b => i.spares b = true := by
  obtain ⟨settled, plain, divides⟩ := sound
  have held := Iq2Port.divHold_survivors part settled apart.held
  have dividing := dividing_survivors part apart divides
  have fpu := fpu_survivors part apart plain legal
  have split : s.waiting fpnew +
        one ((s.port.lateIssue pipelined fpnew i).map (Iq2Op.broadcast fpnew)) =
      (one (s.dividing.map quotient) +
        one ((s.port.divIssue pipelined fpnew i).map quotient)) +
      one (s.port.divHold.map CdbResult.broadcast) +
      ((one s.port.request + s.inFpnew).map (FpOp.broadcast fpnew) +
        one ((s.port.fpuIssue pipelined fpnew i).map (FpOp.broadcast fpnew))) := by
    rw [waiting, Iq2Port.lateIssue_parts]
    ac_rfl
  rw [split, Multiset.filter_add, Multiset.filter_add, ← dividing, ← fpu, Iq2Port.late_parts]
  calc (s.next pipelined fpnew i).waiting fpnew + (one (s.port.fpuCast fpnew i) +
        one ((s.port.divEff pipelined fpnew i).map CdbResult.broadcast))
    _ = one ((s.dividingNext pipelined fpnew i).map quotient) +
        (one ((s.port.divHoldNext pipelined fpnew i).map CdbResult.broadcast) +
          one ((s.port.divEff pipelined fpnew i).map CdbResult.broadcast)) +
        ((one (s.next pipelined fpnew i).port.request + (s.next pipelined fpnew i).inFpnew).map
          (FpOp.broadcast fpnew) + one (s.port.fpuCast fpnew i)) := by
      rw [waiting]
      show one ((s.dividingNext pipelined fpnew i).map quotient) +
        one ((s.port.divHoldNext pipelined fpnew i).map CdbResult.broadcast) + _ + _ = _
      ac_rfl
    _ = _ := by
      rw [held]
      ac_rfl

/-- A full flush leaves nothing. -/
theorem waiting_full (full : i.fullFlush = true) : (s.next pipelined fpnew i).waiting fpnew = 0 := by
  have div : s.port.divFlushKill i = true := by simp [Iq2Port.divFlushKill, full]
  have fpu : s.port.fpuFlushKill i = true := by simp [Iq2Port.fpuFlushKill, full]
  simp [waiting, next, dividingNext, Iq2Port.next, Iq2Port.divHoldNext, Iq2Port.request,
    Iq2Port.fpuReqValidNext, div, fpu, full]

/-- In a cycle with a full flush the port is as in one without a flush. -/
theorem late_full (pipelined : Bool) (fpnew : FpnewFn) (s : Iq2Run) (full : i.fullFlush = true) :
    s.port.late pipelined fpnew i = s.port.late pipelined fpnew { i with flush := none } ∧
      s.due pipelined fpnew i = s.due pipelined fpnew { i with flush := none } := by
  obtain ⟨flush, candidate, notHead, ready, out⟩ := i
  match flush, full with
  | some .full, _ => exact ⟨rfl, rfl⟩

theorem apart_calm (pipelined : Bool) (fpnew : FpnewFn) (s : Iq2Run) (calm : i.flush = none) :
    s.Apart pipelined fpnew i := by
  have spared : ∀ r, i.partlyClears r = false := by simp [Iq2In.partlyClears, calm]
  constructor
  case div => exact fun clear => absurd clear (by simp [spared])
  case fp => exact fun clear => absurd clear (by simp [spared])
  case inside => exact fun x _ => by rw [spared, spared]
  case held => exact fun out _ clear => absurd clear (by simp [spared])

theorem late_due (sound : s.Sound) (owed : s.waiting fpnew = s.owed)
    (legal : (iq2Runs pipelined fpnew).legal s i) (apart : s.Apart pipelined fpnew i)
    (part : i.fullFlush = false) (late : s.port.late pipelined fpnew i = some b) :
    b ∈ s.due pipelined fpnew i := by
  have cycle := cycle_survivors part apart sound legal
  rw [owed, late] at cycle
  rw [due, ← cycle]
  exact Multiset.mem_add.mpr (.inr (Multiset.mem_singleton_self b))

/-- What is on its way is what is owed. -/
theorem owed_next (sound : s.Sound) (owed : s.waiting fpnew = s.owed)
    (legal : (iq2Runs pipelined fpnew).legal s i) (apart : s.Apart pipelined fpnew i) :
    (s.next pipelined fpnew i).waiting fpnew = (s.next pipelined fpnew i).owed := by
  show _ = if i.fullFlush then 0 else s.due pipelined fpnew i - one (s.port.late pipelined fpnew i)
  cases full : i.fullFlush with
  | true => exact waiting_full full
  | false =>
    have cycle := cycle_survivors full apart sound legal
    rw [owed] at cycle
    rw [if_neg Bool.false_ne_true, due, ← cycle, add_tsub_cancel_right]

/-- While every flush meets operations that fare as the last of their unit, it takes the younger ones
away and leaves the older ones. -/
theorem survivors_broadcast_once (reach : (iq2Runs pipelined fpnew).Reach (Apart pipelined fpnew) s)
    (legal : (iq2Runs pipelined fpnew).legal s i) (apart : s.Apart pipelined fpnew i) :
    s.Survive pipelined fpnew i := by
  obtain ⟨sound, owed⟩ : s.Sound ∧ s.waiting fpnew = s.owed := by
    refine reach.invariant (fun s => s.Sound ∧ s.waiting fpnew = s.owed) ⟨sound_reset, rfl⟩ ?_
    intro s i _ ⟨sound, owed⟩ legal apart
    exact ⟨sound.next, owed_next sound owed legal apart⟩
  refine ⟨owed, ?_⟩
  intro b late
  cases full : i.fullFlush with
  | false => exact late_due sound owed legal apart full late
  | true =>
    obtain ⟨same, sameDue⟩ := late_full pipelined fpnew s full
    rw [sameDue]
    rw [same] at late
    exact late_due sound owed legal (apart_calm _ _ _ rfl) rfl late

end Iq2Run

-- ---------------------------------------------------------------------
-- A division in the cycle of a flush
-- ---------------------------------------------------------------------

/-- FPnew is not used. -/
def idleFpnew : FpnewFn := fun _ => (0, 0)

/-- Of 6 by 0, at an index of the reorder buffer. -/
def divAt (r : RobIdx) : Iq2Op := .div ⟨r, 40⟩ ⟨.divu, false, 6, 0⟩

def cycleOf (c : Option Iq2Op) (flush : Option PortFlush) : Iq2In := ⟨flush, c, false, true, none⟩

/-- Squashes what is at 5 and behind it. -/
def behindFive : PortFlush := .partly fun r => decide (5 ≤ r.toNat)

theorem survivors_broadcast_once_divided :
    ((iq2Runs false idleFpnew).next (iq2Runs false idleFpnew).reset
      (cycleOf (some (divAt 3)) none)).Survive false idleFpnew (cycleOf none (some behindFive)) := by
  refine Iq2Run.survivors_broadcast_once (.cycle .reset ?_ (Iq2Run.apart_calm _ _ _ rfl)) ?_ ?_
  · exact fun x out => nomatch out
  · exact fun x out => nomatch out
  · constructor
    case div => exact fun clear => absurd clear (by decide +kernel)
    case fp => exact fun clear => absurd clear (by decide +kernel)
    case inside => exact fun x on => absurd on (Multiset.notMem_zero x)
    case held => exact fun out on => nomatch on

/-- The division at 5 is done, and then the one at 3 issues in the cycle in which what is at 5 is
squashed. -/
def dividedTwice : List Iq2In :=
  [cycleOf (some (divAt 5)) none, cycleOf none none, cycleOf none none,
    cycleOf (some (divAt 3)) (some behindFive)]

theorem division_squashed : ¬ ∀ pipelined fpnew s i, (iq2Runs pipelined fpnew).Reachable s →
    (iq2Runs pipelined fpnew).legal s i → s.Survive pipelined fpnew i := by
  intro survive
  have reach : (iq2Runs false idleFpnew).Reachable
      ((iq2Runs false idleFpnew).run (iq2Runs false idleFpnew).reset dividedTwice) := by
    refine Machine.Reachable.run .reset ⟨?_, ?_, ?_, ?_, trivial⟩ <;>
      exact fun x out => nomatch out
  have same := (survive false _ _ (cycleOf none none) reach fun x out => nomatch out).owed
  have few := congrArg Multiset.card same
  exact absurd few (by decide +kernel)

end Rv64gc.Execute
