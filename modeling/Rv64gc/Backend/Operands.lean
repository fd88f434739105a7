import Rv64gc.Backend.IssueQueue
import Rv64gc.Hdl.Machine
import Rv64gc.Hdl.Table

/-!
# Operands

`rv64gc_core_top.sv`, `int_prf.sv`, `bypass_network.sv` and the wakeup half of `issue_queue.sv`: a
result is written to the register file and announced, in the cycle after it when it comes over the
common data bus and at once when a load brings it. An instruction that issues because all its
operands have been announced reads what was written for them.
-/

namespace Rv64gc.Backend

open Hdl Lsu

abbrev PhysTag := BitVec 8

/-- `FP_PHYS_BASE` -/
abbrev fpPhysBase : PhysTag := 160

/-- `FP_PRF_DEPTH` -/
abbrev fpPrfDepth : BitVec 7 := 96

/-- The place of a floating-point register in its file. -/
def fpAddr (t : PhysTag) : BitVec 7 := (t - fpPhysBase).setWidth 7

-- ---------------------------------------------------------------------
-- Results
-- ---------------------------------------------------------------------

/-- A place a result comes over. -/
structure Lane where
  valid : Bool
  hasException : Bool
  tag : PhysTag
  data : BitVec 64
  /-- A load of a word. -/
  word : Bool
deriving DecidableEq

/-- What goes to a floating-point register: a word is boxed. -/
def Lane.fpData (l : Lane) : BitVec 64 :=
  if l.word then (0xFFFFFFFF : BitVec 32) ++ l.data.extractLsb' 0 32 else l.data

def Lane.dataFor (l : Lane) (t : PhysTag) : BitVec 64 := if t < fpPhysBase then l.data else l.fpData

def Lane.good (l : Lane) : Bool := l.valid && !l.hasException

/-- It brings a result for this register; register 0 has none. -/
def Lane.brings (l : Lane) (t : PhysTag) : Bool := l.good && l.tag != 0 && l.tag == t

structure ResultsIn where
  /-- The four lanes of the common data bus, then the two loads. -/
  lane : Nat → Lane
  /-- The registers rename hands out, and whether a load is to write them. -/
  renames : List (PhysTag × Bool)
  fullFlush : Bool

structure Results where
  /-- `cdb_valid_r`, `cdb_has_exception_r`, `cdb_tag_r` and `cdb_data_r` -/
  cdbR : Nat → Lane
  /-- `regfile_copy0` to `regfile_copy5`, which are written alike. -/
  prf : PhysTag → BitVec 64
  fpPrf : BitVec 7 → BitVec 64
  pregReadyTable : PhysTag → Bool

namespace Results

def reset : Results := ⟨fun _ => ⟨false, false, 0, 0, false⟩, fun _ => 0, fun _ => 0, fun _ => true⟩

variable (s : Results) (x : ResultsIn)

/-- `cdb_valid_live` and `load_wb_valid_live` -/
def live (n : Nat) : Lane :=
  { x.lane n with
    valid := (x.lane n).valid && !x.fullFlush
    word := (x.lane n).word && decide (4 ≤ n) }

/-- `prf_wen` -/
def prfWen (n : Nat) : Bool :=
  (live x n).good && (live x n).tag != 0 && decide ((live x n).tag < fpPhysBase)

/-- `fp_prf_wen`: the last lane of the bus and the loads. -/
def fpPrfWen (n : Nat) : Bool :=
  (live x (3 + n)).good && decide (fpPhysBase ≤ (live x (3 + n)).tag) &&
    decide (fpAddr (live x (3 + n)).tag < fpPrfDepth)

def handsOut (t : PhysTag) : Bool := x.renames.any fun r => r.1 != 0 && r.1 == t

/-- `preg_ready_table_comb` -/
def pregReadyTableComb (t : PhysTag) : Bool := s.pregReadyTable t && !handsOut x t

def next : Results where
  cdbR n := if x.fullFlush then ⟨false, false, 0, 0, false⟩ else live x n
  prf := writeEach (prfWen x) (fun n => (live x n).tag) (fun n => (live x n).data) s.prf 6
  fpPrf := writeEach (fpPrfWen x) (fun n => fpAddr (live x (3 + n)).tag)
    (fun n => (live x (3 + n)).fpData) s.fpPrf 3
  pregReadyTable t :=
    if x.fullFlush then true
    else t == 0 || (List.range 6).any (fun n => (live x n).brings t) || s.pregReadyTableComb x t

/-- `bypass_valid`, `bypass_tag` and `bypass_data` -/
def bypassLane (n : Nat) : Lane := if n < 4 then s.cdbR n else live x n

/-- `bypassed_data`: an operand as it is read in the cycle. -/
def operand (t : PhysTag) : BitVec 64 :=
  bypass (fun n => (s.bypassLane x n).good && (s.bypassLane x n).tag != 0)
    (fun n => (s.bypassLane x n).tag) (fun n => (s.bypassLane x n).data)
    (if t = 0 then 0 else s.prf t) t 6

/-- `fp_bypassed_data` -/
def fpOperand (t : PhysTag) : BitVec 64 :=
  bypass (fun n => (s.bypassLane x n).good && (s.bypassLane x n).tag != 0)
    (fun n => (s.bypassLane x n).tag) (fun n => (s.bypassLane x n).fpData) (s.fpPrf (fpAddr t)) t 6

/-- `rs1_cdb_hit`: the bus announces the register. -/
def cdbHit (t : PhysTag) : Bool := (List.range 4).any fun n => (s.cdbR n).good && (s.cdbR n).tag == t

/-- `rs1_load_wb_hit` -/
def loadWbHit (t : PhysTag) : Bool := (live x 4).brings t || (live x 5).brings t

end Results

-- ---------------------------------------------------------------------
-- Sources
-- ---------------------------------------------------------------------

inductive SrcName where
  | rs1
  | rs2
  | rs3
deriving DecidableEq

/-- What a queue keeps for a source of an entry. -/
structure Source where
  tag : PhysTag
  ready : Bool
  spec : Bool
deriving DecidableEq

/-- A source as it comes from dispatch. -/
structure NewSource where
  tag : PhysTag
  rsReady : Bool
  /-- The instruction reads it. -/
  used : Bool
deriving DecidableEq

/-- What a source sees in a cycle. -/
structure Wakes where
  cdbHit : Bool
  loadWbHit : Bool
  specMatch : Bool
  specCancel : Bool
  /-- `preg_ready_table` -/
  table : Bool

namespace Source

variable (earlyRedirectWakeup : Bool) (s : Source) (x : Wakes)

/-- `spec_cancel_rs1` -/
def cancelled : Bool := x.specCancel && s.spec && !x.cdbHit && !x.loadWbHit

def nextReady : Bool :=
  if s.cancelled x then false
  else s.ready || x.cdbHit || x.loadWbHit || (earlyRedirectWakeup && x.table)

def nextSpec : Bool :=
  if s.cancelled x then false
  else if (x.cdbHit && !s.ready) || x.loadWbHit then false
  else s.spec

/-- `do_spec1`: for the next cycle. -/
def doSpec : Bool := x.specMatch && !s.ready && !x.cdbHit && !s.cancelled x

def woken : Source :=
  ⟨s.tag, s.nextReady earlyRedirectWakeup x || s.doSpec x, s.nextSpec x || s.doSpec x⟩

end Source

namespace NewSource

variable (o : NewSource) (x : Wakes)

/-- `enq_s1_rdy` -/
def enqReady : Bool := o.rsReady || x.table || x.cdbHit || x.loadWbHit

/-- `enq_s1_spec_wakeup` -/
def enqSpecWakeup : Bool := x.specMatch && !o.enqReady x && !x.specCancel

def entered : Source := ⟨o.tag, o.enqReady x || o.enqSpecWakeup x, o.enqSpecWakeup x⟩

end NewSource

-- ---------------------------------------------------------------------
-- A queue and the results
-- ---------------------------------------------------------------------

structure WakeupIn (d : Nat) where
  results : ResultsIn
  /-- `spec_wk_tag` and `spec_wk_tag1`, when valid -/
  specWk : List PhysTag
  /-- `spec_cancel_tag` and `spec_cancel_tag1`, when valid -/
  specCancel : List PhysTag
  eligiblePort1 : Fin d → Bool
  suppress0 : Bool
  suppress1 : Bool
  enq : List (Waiting (SrcName → NewSource))
  robHead : RobIdx
  flush : Option FlushIn

structure Wakeup (d : Nat) where
  results : Results
  queue : IssueQueue d (SrcName → NewSource)
  src : Fin d → SrcName → Source
  /-- What was written for a register since it was handed out. -/
  value : PhysTag → Option (BitVec 64)
  /-- A load is to write it. -/
  loads : PhysTag → Bool

namespace Wakeup

variable {d : Nat} (early : Bool) (s : Wakeup d) (x : WakeupIn d)

def reset : Wakeup d :=
  ⟨.reset, .reset, fun _ _ => ⟨0, false, false⟩, fun t => if t = 0 then some 0 else none, fun _ => false⟩

def wakes (t : PhysTag) : Wakes where
  cdbHit := s.results.cdbHit t
  loadWbHit := Results.loadWbHit x.results t
  specMatch := x.specWk.contains t
  specCancel := x.specCancel.contains t
  table := s.results.pregReadyTableComb x.results t

/-- `next_src1_ready`, `next_src2_ready` and `next_src3_ready` -/
def nextReady (e : Fin d) (k : SrcName) : Bool :=
  (s.src e k).nextReady early (s.wakes x (s.src e k).tag)

/-- `next_src1_spec` and the others -/
def nextSpec (e : Fin d) (k : SrcName) : Bool := (s.src e k).nextSpec (s.wakes x (s.src e k).tag)

def eligible (e : Fin d) : Bool :=
  s.nextReady early x e .rs1 && s.nextReady early x e .rs2 && s.nextReady early x e .rs3

def queueIn : IqIn d (SrcName → NewSource) where
  eligible := s.eligible early x
  eligiblePort1 := x.eligiblePort1
  suppress0 := x.suppress0
  suppress1 := x.suppress1
  enq := x.enq
  robHead := x.robHead
  flush := x.flush

/-- A source of an entry after the wakeup, the issue and the enqueue. -/
def updatedSrc (e : Fin d) (k : SrcName) : Source :=
  match s.queue.lane (s.queueIn early x) e with
  | some w => (w.insn.data k).entered (s.wakes x (w.insn.data k).tag)
  | none =>
    if s.queue.issued (s.queueIn early x) e then ⟨(s.src e k).tag, false, false⟩
    else if (s.queue.slot e).isSome then (s.src e k).woken early (s.wakes x (s.src e k).tag)
    else s.src e k

def nextSrc (e : Fin d) (k : SrcName) : Source :=
  match x.flush with
  | some f =>
    if f.full then ⟨(s.src e k).tag, false, false⟩
    else if s.queue.flushRemove (s.queueIn early x) f e then
      ⟨(s.updatedSrc early x e k).tag, false, false⟩
    else s.updatedSrc early x e k
  | none => s.updatedSrc early x e k

/-- The result that comes over one of these lanes for a register. -/
def result (lanes : List Nat) (t : PhysTag) : Option (BitVec 64) :=
  (lanes.find? fun n => (Results.live x.results n).brings t).map fun n =>
    (Results.live x.results n).dataFor t

def nextValue (t : PhysTag) : Option (BitVec 64) :=
  (result x (List.range 6) t).or (if Results.handsOut x.results t then none else s.value t)

def next : Wakeup d where
  results := s.results.next x.results
  queue := s.queue.next (s.queueIn early x)
  src := s.nextSrc early x
  value := s.nextValue x
  loads t := ((x.results.renames.find? fun r => r.1 != 0 && r.1 == t).map Prod.snd).getD (s.loads t)

/-- What can be read of a register in the cycle: what has been written, or what a load brings. -/
def visible (t : PhysTag) : Option (BitVec 64) := (result x [4, 5] t).or (s.value t)

/-- What the rest of the core keeps to. -/
structure Keeps : Prop where
  flush : x.results.fullFlush = x.flush.any FlushIn.full
  /-- A register has one writer at a time. -/
  once : ∀ t n m, n < 6 → m < 6 → (Results.live x.results n).brings t = true →
    (Results.live x.results m).brings t = true → n = m
  /-- It is not handed out while it is written, or while an instruction waits for it. -/
  unwritten : ∀ t, Results.handsOut x.results t = true → s.results.cdbHit t = false ∧
    ∀ n, n < 6 → (Results.live x.results n).brings t = false
  unread : ∀ e w k, s.queue.slot e = some w → (w.insn.data k).used = true →
    Results.handsOut x.results (w.insn.data k).tag = false
  /-- The first three lanes bring no floating-point results. -/
  lanes : ∀ t n, n < 3 → (Results.live x.results n).brings t = true → t < fpPhysBase
  /-- A register is written by a load or over the bus, as it was handed out for; only loads wake early,
  before they bring what they read. -/
  bus : ∀ t n, n < 6 → (Results.live x.results n).brings t = true → s.loads t = decide (4 ≤ n)
  spec : ∀ t, t ∈ x.specWk → s.loads t = true ∧ s.visible x t = none ∧
    Results.handsOut x.results t = false
  /-- What dispatch sends as ready has been written, and the register of a source has been handed
  out. -/
  enq : ∀ w, w ∈ x.enq → ∀ k,
    if (w.insn.data k).used then
      ((w.insn.data k).rsReady = true →
        (s.value (w.insn.data k).tag).isSome = true ∧
          Results.handsOut x.results (w.insn.data k).tag = false) ∧
      ((s.value (w.insn.data k).tag).isSome = true ∨
        s.results.pregReadyTableComb x.results (w.insn.data k).tag = false)
    else (w.insn.data k).rsReady = true

end Wakeup

/-- A queue with the results of the core. -/
def wakeups (d : Nat) (early : Bool) : Machine (Wakeup d) (WakeupIn d) :=
  ⟨.reset, fun s x => s.next early x, fun s x => s.Keeps x⟩

-- ---------------------------------------------------------------------
-- Ports
-- ---------------------------------------------------------------------

section Ports

variable {ι α : Type} [DecidableEq ι] {en : Nat → Bool} {idx : Nat → ι} {val : Nat → α}
  {init v : α} {a : ι} {n : Nat}

/-- Ports that agree on a location, with what is stored or with one that hits. -/
theorem bypass_of_agree (agree : ∀ j < n, en j = true → idx j = a → val j = v)
    (some_ : init = v ∨ ∃ j < n, en j = true ∧ idx j = a) : bypass en idx val init a n = v := by
  induction n with
  | zero =>
    rcases some_ with same | ⟨j, less, -⟩
    · exact same
    · omega
  | succ n ih =>
    unfold bypass
    split
    next hit =>
      rw [Bool.and_eq_true, beq_iff_eq] at hit
      exact agree n (Nat.lt_succ_self n) hit.1 hit.2
    next miss =>
      rw [Bool.and_eq_true, beq_iff_eq] at miss
      refine ih (fun j less => agree j (Nat.lt_succ_of_lt less)) (some_.imp_right ?_)
      rintro ⟨j, less, on, here⟩
      rcases Nat.lt_succ_iff_lt_or_eq.mp less with less | rfl
      · exact ⟨j, less, on, here⟩
      · exact (miss ⟨on, here⟩).elim

theorem writeEach_of_agree {table : ι → α}
    (agree : ∀ j < n, en j = true → idx j = a → val j = v)
    (some_ : table a = v ∨ ∃ j < n, en j = true ∧ idx j = a) :
    writeEach en idx val table n a = v := by
  rw [← bypass_eq_writeEach]
  exact bypass_of_agree agree some_

end Ports

-- ---------------------------------------------------------------------
-- One source
-- ---------------------------------------------------------------------

/-- What is known of a source when the cycle begins, with `val` for what has been written. -/
structure Source.Settled (c : Source) (x : Wakes) (val : Bool) : Prop where
  written : c.ready = true → c.spec = false → val = true
  announced : val = true → c.ready = true ∧ c.spec = false ∨ x.cdbHit = true
  early : c.spec = true → c.ready = true
  bus : x.cdbHit = true → val = true ∧ c.spec = false
  table : x.table = true → val = true
  wakes : x.specMatch = true → val = false ∧ x.loadWbHit = false

namespace Source

variable {c : Source} {x : Wakes} {val : Bool}

/-- It is ready for good when it has been written or a load brings it. -/
theorem Settled.next (known : c.Settled x val) (earlyRedirectWakeup : Bool) :
    (c.nextReady earlyRedirectWakeup x && !c.nextSpec x) = (val || x.loadWbHit) := by
  obtain ⟨written, announced, early, bus, table, wakes⟩ := known
  unfold nextReady nextSpec cancelled
  cases spec : c.spec with
  | true =>
    have ready := early spec
    have quiet : x.cdbHit = false := by
      rw [← Bool.not_eq_true]
      exact fun hit => by cases spec.symm.trans (bus hit).2
    have unwritten : val = false := by
      rw [← Bool.not_eq_true]
      intro val
      rcases announced val with ⟨-, other⟩ | hit
      · cases spec.symm.trans other
      · cases quiet.symm.trans hit
    cases x.loadWbHit <;> cases x.specCancel <;> simp [ready, quiet, unwritten]
  | false =>
    cases ready : c.ready <;> cases hit : x.cdbHit <;> cases val <;> simp_all

theorem Settled.woken (known : c.Settled x val) (earlyRedirectWakeup : Bool) :
    ((c.woken earlyRedirectWakeup x).ready = true ∧ (c.woken earlyRedirectWakeup x).spec = false ↔
      (val || x.loadWbHit) = true) := by
  have wakes := known.wakes
  rw [← known.next earlyRedirectWakeup]
  simp only [Source.woken, Bool.or_eq_true, Bool.or_eq_false_iff, Bool.and_eq_true,
    Bool.not_eq_true']
  constructor
  · rintro ⟨ready | early, final, quiet⟩
    · exact ⟨ready, final⟩
    · cases quiet.symm.trans early
  · rintro ⟨ready, final⟩
    refine ⟨.inl ready, final, ?_⟩
    have settled := known.next earlyRedirectWakeup
    rw [ready, final] at settled
    unfold doSpec
    cases wakes' : x.specMatch with
    | false => rfl
    | true => simp [(wakes wakes').1, (wakes wakes').2] at settled

theorem Settled.woken_spec (known : c.Settled x val) {earlyRedirectWakeup : Bool}
    (spec : (c.woken earlyRedirectWakeup x).spec = true) :
    (c.woken earlyRedirectWakeup x).ready = true ∧ (c.spec = true ∨ x.specMatch = true) := by
  simp only [Source.woken, Bool.or_eq_true] at spec ⊢
  rcases spec with stays | wakes
  · unfold nextSpec at stays
    split at stays
    · cases stays
    next kept =>
      split at stays
      · cases stays
      · refine ⟨.inl ?_, .inl stays⟩
        simp [nextReady, kept, known.early stays]
  · refine ⟨.inr wakes, .inr ?_⟩
    simp only [doSpec, Bool.and_eq_true] at wakes
    exact wakes.1.1.1

end Source

namespace NewSource

variable {o : NewSource} {x : Wakes} {val : Bool}

theorem entered_ready (ready : o.enqReady x = (val || x.loadWbHit)) :
    ((o.entered x).ready = true ∧ (o.entered x).spec = false ↔ (val || x.loadWbHit) = true) := by
  rw [← ready]
  cases here : o.enqReady x <;> simp [entered, enqSpecWakeup, here]

theorem entered_spec (spec : (o.entered x).spec = true) :
    (o.entered x).ready = true ∧ x.specMatch = true := by
  have wakes : o.enqSpecWakeup x = true := spec
  refine ⟨by simp [entered, wakes], ?_⟩
  simp only [enqSpecWakeup, Bool.and_eq_true] at wakes
  exact wakes.1.1

end NewSource

end Rv64gc.Backend
