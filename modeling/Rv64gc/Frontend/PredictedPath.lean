import Rv64gc.Backend.CommitCycle
import Rv64gc.Decode.FusionRefines
import Rv64gc.Decode.Transfers
import Rv64gc.Frontend.PredChecker
import Rv64gc.Hdl.Machine

/-!
# Predictions and the path that retires

Fetch follows its predictions: behind a tagged instruction it goes on at the predicted target. A
control transfer compares its prediction with its outcome and redirects fetch when they differ.
Any other instruction compares nothing, so its tag is right only when it says what would happen
anyway.
-/

namespace Rv64gc.Frontend

open Hdl Decode Decode.Fields Backend Execute

-- ---------------------------------------------------------------------
-- From packets to operations
-- ---------------------------------------------------------------------

namespace PredIn

variable (x : PredIn)

/-- The prediction `decode` attaches to slot `j`. -/
def bpOf (j : Nat) : BpInfo :=
  match x.tag with
  | some p => if p.slot = j then { BpInfo.none with taken := true, target := p.target } else .none
  | none => .none

/-- The packet in the decode register. -/
def window : Window where
  slot j :=
    { decodeSlice (x.slot j).insn (x.slot j).pc (x.slot j).isRvc with
      bp := x.bpOf j, valid := decide (j < x.finalCount) }
  count := x.finalCount

/-- Where fetch goes on behind the packet. -/
def nextPc (cursor : Addr) : Addr :=
  match x.tag with
  | some p => p.target
  | none => if x.finalCount = 0 then cursor else (x.slot (x.finalCount - 1)).next

end PredIn

/-- The fall-through of a decoded instruction. -/
def pcAfter (d : DecodedInsn) : Addr := fallthrough d.pc d.isRvc

/-- An operation in flight, with the first and the fall-through address of the instructions it
stands for, and what the branch unit has found. -/
structure PathOp where
  uop : DecodedInsn
  first : Addr
  last : Addr
  resolved : Option BruIn
  /-- Fetch has been redirected by a partial flush. -/
  recovered : Bool

namespace PathOp

/-- Where the program goes on. -/
def next (op : PathOp) : Addr :=
  match op.resolved with
  | some x => x.target
  | none => op.last

/-- Where fetch went on. -/
def cont (op : PathOp) : Addr :=
  if op.recovered then op.next
  else if op.uop.bp.taken then op.uop.bp.target
  else op.last

end PathOp

/-- Output `p` of fusion. -/
def opAt (w : Window) (p : Nat) : PathOp where
  uop := w.decOut p
  first := (w.slot ((w.origin p).headD 0)).pc
  last := pcAfter (w.slot ((w.origin p).getLastD 0))
  resolved := none
  recovered := false

def PredIn.delivered (x : PredIn) : List PathOp :=
  (List.range x.window.decCountOut).map (opAt x.window)

-- ---------------------------------------------------------------------
-- Fetch, execution and commit
-- ---------------------------------------------------------------------

/-- What has happened to the program: an instruction or a fused pair retired, or control went to
another place without a control transfer. -/
inductive PathEvent where
  | retired (first next : Addr)
  | turned (target : Addr)

/-- Where the program stands after the events, as long as each instruction that retired is the one
it had come to. -/
def follow : Addr → List PathEvent → Option Addr
  | pc, [] => some pc
  | pc, .retired first next :: rest => if first = pc then follow next rest else none
  | _, .turned target :: rest => follow target rest

structure PathCore where
  cursor : Addr
  ops : List PathOp
  events : List PathEvent

/-- One cycle: the heads of the ROB, the packet that is delivered, the operands of what issues to
the branch unit and the branch that recovers, both by their distance from the head of the ROB. -/
structure PathIn where
  commit : CommitIn
  deliver : Option PredIn
  issue : Nat → Option Regs
  recover : Option Nat

/-- The entry at the head shows the operation. -/
structure PathShows (h : HeadEntry) (op : PathOp) : Prop where
  pc : h.pc = op.uop.pc
  isBranch : h.isBranch = op.uop.isBranch
  bpuType : h.bpuType = allocBpuType op.uop
  isCsr : h.isCsr = op.uop.isCsr
  isFence : h.isFence = op.uop.isFence
  isFenceI : h.isFenceI = op.uop.isFenceI
  isSfenceVma : h.isSfenceVma = op.uop.isSfenceVma
  isMret : h.isMret = op.uop.isMret
  isSret : h.isSret = op.uop.isSret
  isEcall : h.isEcall = op.uop.isEcall
  isWfi : h.isWfi = op.uop.isWfi
  load : h.replays = true → op.uop.fuType = .load
  resolved : h.ready = true → h.hasException = false → op.uop.fuType = .bru →
    ∃ x, op.resolved = some x ∧ h.branchTarget = x.target ∧
      h.branchMispredict = (x.mispredict && !op.recovered)

/-- The slots follow each other from `cursor`. -/
structure PacketAt (cursor : Addr) (x : PredIn) : Prop where
  width : x.extractCount ≤ pipeWidth
  valid : ∀ j < pipeWidth, (x.slot j).valid = true ↔ j < x.extractCount
  begins : 0 < x.extractCount → (x.slot 0).pc = cursor
  follows : ∀ j, j + 1 < x.extractCount → (x.slot (j + 1)).pc = (x.slot j).next
  /-- No compressed instruction expands to one that redirects fetch to its PC plus 4. -/
  expanded : ∀ j < x.extractCount, (x.slot j).isRvc = true →
    refetches (decodeSlice (x.slot j).insn (x.slot j).pc true) = false

namespace PathCore

variable (s : PathCore) (i : PathIn)

def issued : List PathOp :=
  s.ops.mapIdx fun k op =>
    match i.issue k with
    | some regs => { op with resolved := some (bruIn op.uop regs) }
    | none => op

def recoveredOps (k : Nat) : List PathOp :=
  ((s.issued i).take (k + 1)).modify k fun op => { op with recovered := true }

def opsNext : List PathOp :=
  if i.commit.flushOut.valid then []
  else match i.recover with
    | some k => (s.recoveredOps i k).drop i.commit.commitCount
    | none => (s.issued i).drop i.commit.commitCount ++ (i.deliver.map PredIn.delivered).getD []

def cursorNext : Addr :=
  if i.commit.flushOut.valid then i.commit.flushOut.redirectPc
  else match i.recover with
    | some k => (s.ops[k]?.map PathOp.next).getD s.cursor
    | none => match i.deliver with
      | some x => x.nextPc s.cursor
      | none => s.cursor

def eventsNext : List PathEvent :=
  s.events ++ (s.ops.take i.commit.retireCount).map (fun op => .retired op.first op.next) ++
    if i.commit.leavesPath then [.turned i.commit.flushOut.redirectPc] else []

def next : PathCore := ⟨s.cursorNext i, s.opsNext i, s.eventsNext i⟩

/-- The heads of the ROB are the oldest operations in flight; branches resolve once and in any
order; a branch recovers when it was mispredicted and commit flushes nothing; packets are cut from
where fetch stands. -/
structure Legal : Prop where
  heads : ∀ k < pipeWidth, (i.commit.head k).valid = true →
    ∃ op, s.ops[k]? = some op ∧ PathShows (i.commit.head k) op
  issues : ∀ k regs, i.issue k = some regs →
    ∃ op, s.ops[k]? = some op ∧ op.uop.fuType = .bru ∧ op.resolved = none
  recovers : ∀ k, i.recover = some k → i.commit.flushOut.valid = false ∧ i.commit.commitCount ≤ k ∧
    ∃ op x, s.ops[k]? = some op ∧ op.resolved = some x ∧ x.mispredict = true
  packet : ∀ x, i.deliver = some x → PacketAt s.cursor x

end PathCore

abbrev resetVector : Addr := 0x80000000

def pathCore : Machine PathCore PathIn where
  reset := ⟨resetVector, [], []⟩
  next := PathCore.next
  legal := PathCore.Legal

/-- The program has retired along its own path. -/
def PathCore.Sequential (s : PathCore) : Prop := (follow resetVector s.events).isSome = true

/-- The slot a BTB entry was matched to by its address is an operation of the branch unit, or the
entry says what happens anyway. -/
def BtbHonest (x : PredIn) : Prop :=
  ∀ p, x.tag = some p → x.btbPick = some p →
    (x.window.slot p.slot).fuType = .bru ∨ p.target = (x.slot p.slot).next

def HonestPacket (_ : PathCore) (i : PathIn) : Prop := ∀ x, i.deliver = some x → BtbHonest x

-- ---------------------------------------------------------------------
-- What is true of every operation
-- ---------------------------------------------------------------------

theorem taken_of_jump {x : BruIn} (jump : x.isJump = true) : x.taken = true := by
  unfold BruIn.taken
  rw [if_pos jump]
  simp only [BruIn.isJump, Bool.or_eq_true, beq_iff_eq] at jump
  obtain jal | jalr := jump
  · simp [BruIn.stdTaken, jal]
  · simp [BruIn.stdTaken, jalr]

theorem target_of_predicted {x : BruIn} (right : x.mispredict = false) :
    x.target = if x.bpTaken then x.bpTarget else x.fallthrough := by
  simp only [BruIn.mispredict, Bool.or_eq_false_iff, bne_eq_false_iff_eq, Bool.and_eq_false_iff]
    at right
  obtain ⟨same, target⟩ := right
  rw [← same]
  cases taken : x.taken with
  | true =>
    have there : x.branchTarget = x.bpTarget := by simpa [taken] using target
    simp [BruIn.target, taken, there]
  | false =>
    have branch : x.isJump = false := by
      by_contra jump
      rw [taken_of_jump (by simpa using jump)] at taken
      cases taken
    simp [BruIn.target, taken, branch]

/-- The marks of the operation tell what it is, and its tag is checked or harmless. -/
structure Whole (op : PathOp) : Prop where
  control : isControl op.uop = true ↔ op.uop.fuType = .bru
  transfer : op.uop.fuType = .bru → pcAfter op.uop = op.last
  straight : op.uop.fuType ≠ .bru → op.uop.bp.taken = true → op.uop.bp.target = op.last
  serial : serializes op.uop = true → op.uop.fuType ≠ .bru
  refetch : refetches op.uop = true → op.last = op.uop.pc + 4
  load : op.uop.fuType = .load → op.uop.pc = op.first
  outcome : ∀ x, op.resolved = some x → op.uop.fuType = .bru ∧ ∃ regs, x = bruIn op.uop regs
  recovered : op.recovered = true → op.resolved.isSome = true

section

variable {op : PathOp} {h : HeadEntry}

theorem Whole.next_straight (whole : Whole op) (straight : op.uop.fuType ≠ .bru) :
    op.resolved = none ∧ op.next = op.last := by
  have none : op.resolved = none := by
    cases found : op.resolved with
    | none => rfl
    | some x => exact absurd (whole.outcome x found).1 straight
  exact ⟨none, by simp [PathOp.next, none]⟩

theorem PathShows.mispredicts_iff (shows : PathShows h op) (whole : Whole op) :
    h.mispredicts = true ↔ op.uop.fuType = .bru ∧ h.branchMispredict = true := by
  have control : h.isControl = isControl op.uop := by
    simp [HeadEntry.isControl, isControl, shows.isBranch, shows.bpuType]
  rw [HeadEntry.mispredicts, control, Bool.and_eq_true, whole.control]

/-- What retires without a redirect is followed by what fetch went on with. -/
theorem PathShows.cont_eq (shows : PathShows h op) (whole : Whole op) (ready : h.ready = true)
    (clean : h.hasException = false) (right : h.mispredicts = false) : op.cont = op.next := by
  by_cases bru : op.uop.fuType = .bru
  · obtain ⟨x, found, -, flag⟩ := shows.resolved ready clean bru
    unfold PathOp.cont
    cases again : op.recovered with
    | true => rfl
    | false =>
      have wrong : ¬h.mispredicts = true := by simp [right]
      rw [shows.mispredicts_iff whole, flag, again] at wrong
      have predicted : x.mispredict = false := by simpa [bru] using wrong
      obtain ⟨-, regs, rfl⟩ := whole.outcome x found
      have last := whole.transfer bru
      simp only [PathOp.next, found, target_of_predicted predicted, Bool.false_eq_true, if_false]
      rw [← last]
      rfl
  · obtain ⟨none, next⟩ := whole.next_straight bru
    have notAgain : op.recovered = false := by
      by_contra again
      have some := whole.recovered (by simpa using again)
      simp [none] at some
    rw [next]
    unfold PathOp.cont
    rw [notAgain, if_neg Bool.false_ne_true]
    split
    next taken => exact whole.straight bru taken
    next => rfl

theorem PathShows.mispredict_target (shows : PathShows h op) (whole : Whole op)
    (ready : h.ready = true) (clean : h.hasException = false) (wrong : h.mispredicts = true) :
    h.branchTarget = op.next := by
  obtain ⟨bru, -⟩ := (shows.mispredicts_iff whole).mp wrong
  obtain ⟨x, found, target, -⟩ := shows.resolved ready clean bru
  rw [target]
  simp [PathOp.next, found]

theorem PathShows.refetch_target (shows : PathShows h op) (whole : Whole op)
    (marks : h.refetches = true) : h.pc + 4 = op.next := by
  have again : refetches op.uop = true := by
    simp only [HeadEntry.refetches, HeadEntry.changesVmState, shows.isCsr, shows.isFence,
      shows.isFenceI, shows.isSfenceVma, refetches, Bool.or_eq_true, Bool.and_eq_true] at marks ⊢
    tauto
  have straight := whole.serial (by simp [serializes, again])
  rw [(whole.next_straight straight).2, whole.refetch again, shows.pc]

theorem PathShows.serial_right (shows : PathShows h op) (whole : Whole op)
    (serial : h.isSerializing = true) : h.mispredicts = false := by
  have alone : serializes op.uop = true := by
    simp only [HeadEntry.isSerializing, shows.isCsr, shows.isFence, shows.isFenceI, shows.isMret,
      shows.isSret, shows.isSfenceVma, shows.isEcall, shows.isWfi, serializes, refetches,
      Bool.or_eq_true] at serial ⊢
    tauto
  by_contra wrong
  exact whole.serial alone ((shows.mispredicts_iff whole).mp (by simpa using wrong)).1

end

-- ---------------------------------------------------------------------
-- What a packet delivers
-- ---------------------------------------------------------------------

namespace PredIn

variable {x : PredIn} {cursor : Addr}

theorem finalCount_width (packet : PacketAt cursor x) : x.finalCount ≤ x.extractCount :=
  finalCount_le fun j width valid => (packet.valid j width).mp valid

theorem window_fromDecode (packet : PacketAt cursor x) : x.window.FromDecode where
  fits := Nat.le_trans (finalCount_width packet) packet.width
  decoded j inside := by
    have there : j < x.finalCount := inside
    exact ⟨(x.slot j).insn, (x.slot j).pc, (x.slot j).isRvc, x.bpOf j, by simp [window, there]⟩
  stale j beyond := by
    have out : ¬j < x.finalCount := Nat.not_lt_of_le beyond
    simp [window, out]

@[simp] theorem window_pc (x : PredIn) (j : Nat) : (x.window.slot j).pc = (x.slot j).pc := by
  simp [window, decodeSlice, suppressRd_pc, decodeOpcode_pc, defaults]

@[simp] theorem window_isRvc (x : PredIn) (j : Nat) :
    (x.window.slot j).isRvc = (x.slot j).isRvc := by
  simp [window, decodeSlice, suppressRd_isRvc, decodeOpcode_isRvc, defaults]

@[simp] theorem pcAfter_window (x : PredIn) (j : Nat) :
    pcAfter (x.window.slot j) = (x.slot j).next := by
  simp [pcAfter, Slot.next]

@[simp] theorem window_bp (x : PredIn) (j : Nat) : (x.window.slot j).bp = x.bpOf j := rfl

theorem bpOf_taken (taken : (x.bpOf j).taken = true) :
    ∃ p, x.tag = some p ∧ p.slot = j ∧ (x.bpOf j).target = p.target := by
  unfold bpOf at taken ⊢
  split at taken
  next p tagged =>
    split at taken
    next here => exact ⟨p, tagged, here, by simp [here]⟩
    next => cases taken
  next => cases taken

/-- Only the last slot of a packet is tagged. -/
theorem bpOf_inner (inner : j + 1 < x.finalCount) : (x.bpOf j).taken = false := by
  by_contra taken
  obtain ⟨p, tagged, rfl, -⟩ := bpOf_taken (by simpa using taken)
  rw [finalCount_of_tag tagged] at inner
  exact Nat.lt_irrefl _ inner

/-- A tag is on an operation of the branch unit, or says what happens anyway. -/
theorem bpOf_honest (honest : BtbHonest x) (taken : (x.bpOf j).taken = true) :
    (x.window.slot j).fuType = .bru ∨ (x.bpOf j).target = (x.slot j).next := by
  obtain ⟨p, tagged, rfl, target⟩ := bpOf_taken taken
  rw [target]
  obtain btb | ⟨c, ctl, same⟩ := bpPick_some (tag_some tagged).2
  · exact honest p tagged btb
  · obtain ⟨-, t, isCtl⟩ := pdCtl_some ctl
    rw [same] at isCtl
    have transfer : opcode (x.slot p.slot).insn = opBranch ∨ opcode (x.slot p.slot).insn = opJal ∨
        opcode (x.slot p.slot).insn = opJalr := by
      unfold ctlOf at isCtl
      grind
    exact .inl (decodeSlice_fuType transfer)

/-- Where fetch went on behind slot `j`. -/
def contAt (x : PredIn) (j : Nat) : Addr :=
  if (x.bpOf j).taken then (x.bpOf j).target else (x.slot j).next

theorem contAt_inner (inner : j + 1 < x.finalCount) : x.contAt j = (x.slot j).next := by
  simp [contAt, bpOf_inner inner]

theorem contAt_last (some : x.finalCount = n + 1) : x.nextPc cursor = x.contAt n := by
  unfold nextPc contAt bpOf
  cases tagged : x.tag with
  | none => simp [some, BpInfo.none]
  | some p =>
    have last := finalCount_of_tag tagged
    have here : (p.slot : Nat) = n := by omega
    simp [here]

/-- The slots of the packet lead from where fetch stood to where it goes on. -/
theorem slots_path (packet : PacketAt cursor x) :
    Path (fun j => (x.slot j).pc) x.contAt cursor (List.range x.finalCount) (x.nextPc cursor) := by
  have width := finalCount_width packet
  have prefixes : ∀ n, n + 1 ≤ x.finalCount →
      Path (fun j => (x.slot j).pc) x.contAt cursor (List.range (n + 1)) (x.contAt n) := by
    intro n
    induction n with
    | zero =>
      intro inside
      exact ⟨packet.begins (Nat.lt_of_lt_of_le inside width), rfl⟩
    | succ n ih =>
      intro inside
      rw [List.range_succ, path_snoc]
      refine ⟨?_, rfl⟩
      show Path _ _ _ _ (x.slot (n + 1)).pc
      rw [packet.follows n (Nat.lt_of_lt_of_le inside width), ← contAt_inner inside]
      exact ih (Nat.le_of_succ_le inside)
  cases count : x.finalCount with
  | zero =>
    have none : x.tag = none := by
      by_contra some
      obtain ⟨p, tagged⟩ := Option.ne_none_iff_exists'.mp some
      have last := finalCount_of_tag tagged
      omega
    simp [nextPc, none, count, Hdl.Path]
  | succ n =>
    rw [contAt_last count]
    exact prefixes n (Nat.le_of_eq count.symm)

-- ---------------------------------------------------------------------
-- What fusion makes of it
-- ---------------------------------------------------------------------

/-- An output of fusion is a slot or a pair of slots. -/
theorem opAt_cases (packet : PacketAt cursor x) (inside : p < x.window.decCountOut) :
    (∃ i, i < x.finalCount ∧ x.window.origin p = [i] ∧
        opAt x.window p = ⟨x.window.slot i, (x.slot i).pc, (x.slot i).next, none, false⟩) ∨
      ∃ i pat, i + 1 < x.finalCount ∧ x.window.origin p = [i, i + 1] ∧
        fusionPattern (x.window.slot i) (x.window.slot (i + 1)) = some pat ∧
        opAt x.window p =
          ⟨fusedUop (x.window.slot i) (x.window.slot (i + 1)) pat, (x.slot i).pc,
            (x.slot (i + 1)).next, none, false⟩ := by
  have decoded := window_fromDecode packet
  obtain ⟨i, present, -, kept⟩ := Window.kept_of_lt decoded inside
  cases starts : x.window.starts i with
  | true =>
    obtain ⟨pat, fuses, out, origin⟩ := Window.decOut_pair kept starts
    exact .inr ⟨i, pat, Window.starts_inside decoded starts, origin, fuses,
      by simp [opAt, out, origin]⟩
  | false =>
    obtain ⟨out, origin⟩ := Window.decOut_single kept starts
    exact .inl ⟨i, present, origin, by simp [opAt, out, origin]⟩

theorem delivered_path (packet : PacketAt cursor x) (honest : BtbHonest x) :
    Path PathOp.first PathOp.cont cursor x.delivered (x.nextPc cursor) := by
  have decoded := window_fromDecode packet
  have slots := slots_path packet
  rw [show x.finalCount = x.window.count from rfl, ← Window.all_covered decoded] at slots
  have outputs : Path (fun p => (opAt x.window p).first) (fun p => (opAt x.window p).cont) cursor
      (List.range x.window.decCountOut) (x.nextPc cursor) := by
    refine slots.group fun p mem a b here => ?_
    obtain ⟨i, inside, origin, op⟩ | ⟨i, pat, inside, origin, fuses, op⟩ :=
      opAt_cases packet (List.mem_range.mp mem)
    · rw [origin] at here
      obtain ⟨begins, ends⟩ := here
      rw [op, ← begins, ← ends]
      exact ⟨rfl, rfl⟩
    · rw [origin] at here
      obtain ⟨begins, -, ends⟩ := here
      rw [op, ← begins, ← ends]
      refine ⟨rfl, ?_⟩
      have marks := Window.slot_marks decoded (Nat.lt_of_succ_lt inside)
      obtain transfer | sum := fusedUop_cases marks fuses
      · simp [PathOp.cont, contAt, transfer.bp]
      · have untagged : (x.bpOf i).taken = false := bpOf_inner inside
        simp only [PathOp.cont, sum.bp, window_bp, untagged, contAt]
        split
        next => cases ‹false = true›
        next =>
          split
          next taken =>
            obtain bru | same := bpOf_honest honest taken
            · cases sum.second.symm.trans bru
            · exact same.symm
          next => rfl
  exact outputs.map fun p _ => ⟨rfl, rfl⟩

theorem whole_slot (packet : PacketAt cursor x) (honest : BtbHonest x) (inside : i < x.finalCount) :
    Whole ⟨x.window.slot i, (x.slot i).pc, (x.slot i).next, none, false⟩ := by
  have marks := Window.slot_marks (window_fromDecode packet) inside
  simp only [marksMatch, Bool.and_eq_true, beq_iff_eq, Bool.or_eq_true, Bool.not_eq_true'] at marks
  obtain ⟨branch, alone⟩ := marks
  have bounded := Nat.lt_of_lt_of_le inside (finalCount_width packet)
  constructor
  case control => exact isControl_of_marks branch
  case transfer => exact fun _ => pcAfter_window x i
  case straight =>
    intro straight taken
    obtain bru | same := bpOf_honest honest taken
    · exact absurd bru straight
    · exact same
  case serial =>
    intro serial
    change serializes (x.window.slot i) = true at serial
    obtain (none | csr) | ⟨⟨alu, -⟩, -⟩ := alone
    · cases none.symm.trans serial
    · simp [csr]
    · simp [alu]
  case refetch =>
    intro again
    change refetches (decodeSlice (x.slot i).insn (x.slot i).pc (x.slot i).isRvc) = true at again
    have whole : (x.slot i).isRvc = false := by
      by_contra rvc
      rw [Bool.not_eq_false] at rvc
      rw [rvc, packet.expanded i bounded rvc] at again
      cases again
    simp [Slot.next, fallthrough, whole]
  case load => exact fun _ => window_pc x i
  case outcome =>
    intro _ none
    cases none
  case recovered =>
    intro none
    cases none

theorem whole_pair (packet : PacketAt cursor x) (inside : i + 1 < x.finalCount)
    (fuses : fusionPattern (x.window.slot i) (x.window.slot (i + 1)) = some pat) :
    Whole ⟨fusedUop (x.window.slot i) (x.window.slot (i + 1)) pat, (x.slot i).pc,
      (x.slot (i + 1)).next, none, false⟩ := by
  have marks := Window.slot_marks (window_fromDecode packet) (Nat.lt_of_succ_lt inside)
  obtain ⟨alu, noBranch, plain⟩ := first_of_pair marks fuses
  obtain transfer | sum := fusedUop_cases marks fuses
  · constructor
    case control => simp [isControl, transfer.branch, transfer.unit]
    case transfer =>
      intro _
      simp [pcAfter, transfer.pc, transfer.isRvc, Slot.next]
    case straight => exact fun straight => absurd transfer.unit straight
    case serial => exact fun serial => absurd (transfer.serializes.trans plain) (by simp [serial])
    case refetch =>
      intro again
      have serial := transfer.serializes.trans plain
      simp [serializes, again] at serial
    case load =>
      intro load
      cases transfer.unit.symm.trans load
    case outcome =>
      intro _ none
      cases none
    case recovered =>
      intro none
      cases none
  · have unit := sum.unit.trans alu
    constructor
    case control =>
      refine isControl_of_marks ?_
      rw [sum.branch, noBranch, unit]
      rfl
    case transfer =>
      intro bru
      cases unit.symm.trans bru
    case straight =>
      intro _ taken
      have untagged : (x.bpOf i).taken = false := bpOf_inner inside
      rw [sum.bp, window_bp, untagged] at taken
      cases taken
    case serial => exact fun serial => absurd (sum.serializes.trans plain) (by simp [serial])
    case refetch =>
      intro again
      have serial := sum.serializes.trans plain
      simp [serializes, again] at serial
    case load =>
      intro load
      cases unit.symm.trans load
    case outcome =>
      intro _ none
      cases none
    case recovered =>
      intro none
      cases none

theorem delivered_whole (packet : PacketAt cursor x) (honest : BtbHonest x) :
    ∀ op ∈ x.delivered, Whole op := by
  intro op mem
  obtain ⟨p, inside, rfl⟩ := List.mem_map.mp mem
  obtain ⟨i, here, -, op⟩ | ⟨i, pat, here, -, fuses, op⟩ :=
    opAt_cases packet (List.mem_range.mp inside)
  · exact op ▸ whole_slot packet honest here
  · exact op ▸ whole_pair packet here fuses

end PredIn

end Rv64gc.Frontend
