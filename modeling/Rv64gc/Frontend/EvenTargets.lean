import Rv64gc.Csr.Privilege
import Rv64gc.Frontend.PredictedPath
import Rv64gc.Frontend.RetiredPath

/-!
# Where fetch is sent is even

Instructions are two or four bytes long, so their addresses are even as long as fetch is sent to
even addresses only. The branch unit clears the lowest bit of a JALR's target and the trap vectors
clear the two lowest of their base. A trap return goes to the address the register holds, and a
write of `mepc` or `sepc` keeps every bit of it.
-/

namespace Rv64gc.Frontend

open Hdl Decode Decode.Fields Backend Execute Csr

def Aligned (a : BitVec 64) : Prop := a.toNat % 2 = 0

instance (a : BitVec 64) : Decidable (Aligned a) := inferInstanceAs (Decidable (_ = _))

-- ---------------------------------------------------------------------
-- Even addresses
-- ---------------------------------------------------------------------

theorem aligned_iff {a : BitVec 64} : Aligned a ↔ a.getLsbD 0 = false := by
  unfold Aligned BitVec.getLsbD
  rw [Nat.testBit_zero]
  simp

theorem Aligned.add {a b : BitVec 64} (left : Aligned a) (right : Aligned b) :
    Aligned (a + b) := by
  unfold Aligned at *
  rw [BitVec.toNat_add]
  omega

theorem aligned_cleared (a : BitVec 64) : Aligned (a &&& ~~~1#64) := by
  rw [aligned_iff, BitVec.getLsbD_and]
  simp

theorem aligned_vecBase (tvec : BitVec 64) : Aligned (CommitIn.vecBase tvec) := by
  rw [aligned_iff, CommitIn.vecBase, BitVec.getLsbD_and]
  simp

theorem aligned_irqEntry (tvec cause : BitVec 64) :
    Aligned (CommitIn.irqEntry tvec cause) := by
  unfold CommitIn.irqEntry
  split
  next =>
    refine (aligned_vecBase tvec).add ?_
    exact aligned_iff.mpr (by simp)
  next => exact aligned_vecBase tvec

theorem aligned_fallthrough {pc : Addr} (even : Aligned pc) (isRvc : Bool) :
    Aligned (fallthrough pc isRvc) := by
  unfold fallthrough
  refine even.add ?_
  cases isRvc with
  | false => decide
  | true => decide

theorem aligned_immB (insn : BitVec 32) : Aligned (immB insn) := by
  rw [aligned_iff, immB, BitVec.getLsbD_signExtend, BitVec.getLsbD_append]
  simp

theorem aligned_immJ (insn : BitVec 32) : Aligned (immJ insn) := by
  rw [aligned_iff, immJ, BitVec.getLsbD_signExtend, BitVec.getLsbD_append]
  simp

-- ---------------------------------------------------------------------
-- Operations with even addresses
-- ---------------------------------------------------------------------

/-- The branch unit adds an even offset, or clears the bit. -/
def evenOffset (d : DecodedInsn) : Bool :=
  d.fuType != .bru || d.brOp == .jalr || !d.imm.getLsbD 0

theorem decodeOpcode_evenOffset (insn : BitVec 32) (pc : BitVec 64) (isRvc : Bool) :
    evenOffset (decodeOpcode insn (defaults insn pc isRvc)) = true := by
  have branch := aligned_iff.mp (aligned_immB insn)
  have jump := aligned_iff.mp (aligned_immJ insn)
  simp only [decodeOpcode, decodeLui, decodeAuipc, decodeJal, decodeJalr, decodeBranch, decodeLoad,
    decodeStore, decodeAmo, decodeLoadFp, decodeStoreFp, decodeOpImm, decodeOp, decodeMuldiv,
    decodeOpImm32, decodeOp32, decodeMiscMem, decodeSystem, decodeCsr, decodeFp, decodeFma,
    illegal, fpIntFmt, fpBinary, sameFmt, defaults, apply_ite evenOffset]
  simp [evenOffset, branch, jump, -BitVec.getLsbD_eq_getElem]

theorem suppressRd_evenOffset (insn : BitVec 32) (d : DecodedInsn) :
    evenOffset (suppressRd insn d) = evenOffset d := by
  unfold suppressRd
  dsimp only
  split <;> split <;> rfl

theorem decodeSlice_evenOffset (insn : BitVec 32) (pc : BitVec 64) (isRvc : Bool) :
    evenOffset (decodeSlice insn pc isRvc) = true :=
  (suppressRd_evenOffset insn _).trans (decodeOpcode_evenOffset insn pc isRvc)

theorem suppressRd_trapPc (insn : BitVec 32) (d : DecodedInsn) :
    (suppressRd insn d).trapPc = d.trapPc := by
  unfold suppressRd
  simp only [apply_ite DecodedInsn.trapPc, ite_self]

theorem decodeOpcode_trapPc (insn : BitVec 32) (d : DecodedInsn) :
    (decodeOpcode insn d).trapPc = d.trapPc := by
  simp only [decodeOpcode, decodeLui, decodeAuipc, decodeJal, decodeJalr, decodeBranch, decodeLoad,
    decodeStore, decodeAmo, decodeLoadFp, decodeStoreFp, decodeOpImm, decodeOp, decodeMuldiv,
    decodeOpImm32, decodeOp32, decodeMiscMem, decodeSystem, decodeCsr, decodeFp, decodeFma,
    illegal, fpIntFmt, fpBinary, sameFmt, apply_ite DecodedInsn.trapPc, ite_self]

theorem decodeSlice_trapPc (insn : BitVec 32) (pc : BitVec 64) (isRvc : Bool) :
    (decodeSlice insn pc isRvc).trapPc = pc :=
  (suppressRd_trapPc insn _).trans (decodeOpcode_trapPc insn _)

/-- A pair jumps by the offset of its second instruction. -/
theorem fusedUop_evenOffset {a b : DecodedInsn} (marks : marksMatch a = true)
    (fuses : fusionPattern a b = some p) (offset : evenOffset b = true) :
    evenOffset (fusedUop a b p) = true := by
  obtain ⟨alu, -, -⟩ := first_of_pair marks fuses
  have held := fusionPattern_holds fuses
  unfold evenOffset at offset
  cases p <;>
    simp only [FusionPattern.holds, isAddi, isJalr, isBne, isBeq, Bool.and_eq_true,
      beq_iff_eq] at held <;>
    simp only [held, bne_self_eq_false, beq_self_eq_true, Bool.false_or] at offset <;>
    simp only [fusedUop, mergeUop, compareBranch, apply_ite evenOffset] <;>
    simp_all [evenOffset, isJalr, -BitVec.getLsbD_eq_getElem]

structure EvenUop (d : DecodedInsn) : Prop where
  pc : Aligned d.pc
  trapPc : Aligned d.trapPc
  bp : d.bp.taken = true → Aligned d.bp.target
  offset : evenOffset d = true

theorem fusedUop_trapPc (a b : DecodedInsn) (p : FusionPattern) :
    (fusedUop a b p).trapPc = a.trapPc := by
  have merged : (mergeUop a b p).trapPc = a.trapPc := by cases p <;> rfl
  simp only [fusedUop, apply_ite DecodedInsn.trapPc, merged, ite_self]

theorem fusedUop_pc (a b : DecodedInsn) (p : FusionPattern) :
    (fusedUop a b p).pc = a.pc ∨ (fusedUop a b p).pc = b.pc := by
  have merged : (mergeUop a b p).pc = a.pc := by cases p <;> rfl
  simp only [fusedUop, apply_ite DecodedInsn.pc, merged, ite_self]
  split
  next => exact .inr rfl
  next => exact .inl rfl

theorem EvenUop.fused {a b : DecodedInsn} (marks : marksMatch a = true)
    (fuses : fusionPattern a b = some p) (first : EvenUop a) (second : EvenUop b) :
    EvenUop (fusedUop a b p) where
  pc := by
    obtain same | same := fusedUop_pc a b p
    · exact same ▸ first.pc
    · exact same ▸ second.pc
  trapPc := fusedUop_trapPc a b p ▸ first.trapPc
  bp := by
    obtain transfer | sum := fusedUop_cases marks fuses
    · rw [transfer.bp]
      exact second.bp
    · rw [sum.bp]
      exact first.bp
  offset := fusedUop_evenOffset marks fuses second.offset

/-- What the branch unit finds for the operation. -/
theorem aligned_target {d : DecodedInsn} (even : EvenUop d) (bru : d.fuType = .bru) (regs : Regs) :
    Aligned (bruIn d regs).branchTarget ∧ Aligned (bruIn d regs).target := by
  have branch : Aligned (bruIn d regs).branchTarget := by
    have offset := even.offset
    unfold BruIn.branchTarget
    split
    next => exact aligned_cleared _
    next other =>
      have op : d.brOp ≠ .jalr := other
      have bit : d.imm.getLsbD 0 = false := by simpa [evenOffset, bru, op] using offset
      exact even.pc.add (aligned_iff.mpr bit)
  refine ⟨branch, ?_⟩
  unfold BruIn.target
  split
  next => exact branch
  next =>
    split
    next => exact branch
    next => exact aligned_fallthrough even.pc _

-- ---------------------------------------------------------------------
-- Fetch, execution, commit and the CSRs
-- ---------------------------------------------------------------------

structure FetchCore where
  path : PathCore
  csr : CsrFile
  /-- Where fetch has been, and what the BTB and the return address stack may hold. -/
  targets : List Addr
  /-- `fetch_exception_pc_r`, while `fetch_exception_pending_r` -/
  fault : Option Addr

structure FetchIn where
  core : CoreIn
  deliver : Option PredIn
  issue : Nat → Option Regs
  recover : Option Nat
  /-- The address of a lookup that faults. -/
  lookupFault : Option Addr
  /-- `fetch_exception_fire_c` -/
  inject : Bool

/-- The predicted targets a packet is checked against. -/
def PredIn.predicted (x : PredIn) : List Addr :=
  (x.btb.map (·.target)).toList ++ (x.btbAlt.map (·.target)).toList ++
    (x.ftq.map (·.predCtlTarget)).toList ++ [x.rasPopAddr]

/-- The operation that takes a fault of fetch to the ROB. -/
def faultOp (pc : Addr) : PathOp where
  uop := { defaults 0x13 pc false with useImm := true, hasException := true, excTval := pc }
  first := pc
  last := fallthrough pc false
  resolved := none
  recovered := false

namespace FetchCore

variable (s : FetchCore) (i : FetchIn)

def pathIn : PathIn := ⟨commitIn s.csr i.core, i.deliver, i.issue, i.recover⟩

def quiet : Bool := !(s.pathIn i).commit.flushOut.valid && i.recover.isNone

/-- What the predictors learn: the targets the branch unit finds, and the return addresses. -/
def learned : List Addr :=
  ((s.path.issued (s.pathIn i)).filterMap (·.resolved)).flatMap
      (fun x => [x.branchTarget, x.target]) ++
    (i.deliver.map fun x => (List.range x.extractCount).map fun j => (x.slot j).next).getD []

def pathNext : PathCore :=
  let p := s.path.next (s.pathIn i)
  if s.quiet i && i.inject then { p with ops := p.ops ++ (s.fault.map faultOp).toList } else p

def next : FetchCore where
  path := s.pathNext i
  csr := s.csr.next (csrIn s.csr i.core)
  targets := s.targets ++ s.path.cursor :: s.learned i
  fault := if s.quiet i && !i.inject then s.fault.or i.lookupFault else none

/-- The address fetch asks for when no slot of a line is taken. -/
def lineAfter (pc : Addr) : Addr := (pc.extractLsb' 6 58 + 1) ++ (0 : BitVec 6)

/-- Where fetch stands or goes on, or has been sent to. -/
def MayAsk (pc : Addr) : Prop :=
  pc = s.path.cursor ∨ pc ∈ s.targets ∨ ∃ x, i.deliver = some x ∧ pc = x.nextPc s.path.cursor

/-- The entries of the ROB report the restart address of their operations, predictors hold what they
have learned, and lookups are for where fetch may go on and for the line behind it. -/
structure Legal : Prop where
  path : s.path.Legal (s.pathIn i)
  trapPc : ∀ k < pipeWidth, (i.core.head k).valid = true →
    ∃ op, s.path.ops[k]? = some op ∧ (i.core.head k).trapPc = op.uop.trapPc
  predicted : ∀ x, i.deliver = some x → ∀ t ∈ x.predicted, t ∈ s.targets
  lookup : ∀ a, i.lookupFault = some a → s.MayAsk i a ∨ ∃ b, s.MayAsk i b ∧ a = lineAfter b
  injects : i.inject = true → i.deliver = none

end FetchCore

def fetchCores : Machine FetchCore FetchIn where
  reset := ⟨pathCore.reset, .reset, [0], none⟩
  next := FetchCore.next
  legal := FetchCore.Legal

namespace FetchCore

variable (s : FetchCore) (i : FetchIn)

/-- No write leaves an odd address in a register trap returns read. -/
def WritesEven : Prop :=
  let x := csrIn s.csr i.core
  x.writeValid = true →
    (x.writeAddr = csrMepc → Aligned (CsrFile.applyOp x.writeOp s.csr.mepc x.writeData)) ∧
    (x.writeAddr = csrSepc → Aligned (CsrFile.applyOp x.writeOp s.csr.sepc x.writeData))

/-- Every address fetch asks for, is sent to or restarts from is even. -/
structure FetchesEven : Prop where
  asks : ∀ a, s.MayAsk i a → Aligned a
  packet : ∀ x, i.deliver = some x → ∀ j < x.extractCount, Aligned (x.slot j).pc
  redirect : (s.pathIn i).commit.flushOut.valid = true →
    Aligned (s.pathIn i).commit.flushOut.redirectPc
  recovery : ∀ k op, i.recover = some k → s.path.ops[k]? = some op → Aligned op.next
  vectors : Aligned (s.pathIn i).commit.trapVector ∧ Aligned (s.pathIn i).commit.irqVector
  returns : Aligned s.csr.mepc ∧ Aligned s.csr.sepc
  trap : (csrIn s.csr i.core).trapValid = true → Aligned (csrIn s.csr i.core).trapPc

end FetchCore

-- ---------------------------------------------------------------------
-- Packets
-- ---------------------------------------------------------------------

namespace PredIn

variable {x : PredIn} {cursor : Addr}

theorem slot_even (packet : PacketAt cursor x) (even : Aligned cursor)
    (inside : j < x.extractCount) : Aligned (x.slot j).pc := by
  induction j with
  | zero => exact (packet.begins inside).symm ▸ even
  | succ j ih =>
    rw [packet.follows j inside]
    exact aligned_fallthrough (ih (Nat.lt_of_succ_lt inside)) _

theorem rasTop_even (predicted : ∀ t ∈ x.predicted, Aligned t) (top : x.rasTop = some t) :
    Aligned t := by
  unfold rasTop at top
  split at top
  next =>
    cases top
    exact predicted _ (by simp [PredIn.predicted])
  next => cases top

theorem ctlOf_even (predicted : ∀ t ∈ x.predicted, Aligned t) {s : Slot} (even : Aligned s.pc)
    (ctl : x.ctlOf s = some c) : Aligned c.2 := by
  unfold ctlOf at ctl
  split at ctl
  next =>
    cases ctl
    exact even.add (aligned_immB _)
  next =>
    split at ctl
    next =>
      cases ctl
      exact even.add (aligned_immJ _)
    next =>
      split at ctl
      next =>
        split at ctl
        next =>
          cases ctl
          unfold jalrCtl
          split
          next =>
            cases top : x.rasTop with
            | none => decide
            | some t => exact rasTop_even predicted top
          next => split <;> decide
        next => cases ctl
      next => cases ctl

theorem btbSlot_even (predicted : ∀ t ∈ x.predicted, Aligned t) (target : Aligned h.target)
    (found : x.btbSlot taken h = some p) : Aligned p.target := by
  simp only [btbSlot, Option.bind_eq_bind, Option.bind_eq_some_iff] at found
  obtain ⟨t, chosen, i, -, eq⟩ := found
  cases eq
  unfold btbTarget at chosen
  split at chosen
  next =>
    split at chosen
    next =>
      cases chosen
      exact target
    next => cases chosen
  next =>
    split at chosen
    next =>
      cases chosen
      exact target
    next =>
      split at chosen
      next => exact rasTop_even predicted chosen
      next => cases chosen

theorem btbPick_even (predicted : ∀ t ∈ x.predicted, Aligned t) (found : x.btbPick = some p) :
    Aligned p.target := by
  unfold btbPick at found
  split at found
  next =>
    obtain primary | ⟨-, alt⟩ := Option.or_eq_some_iff.mp found
    · obtain ⟨h, btb, hit⟩ := Option.bind_eq_some_iff.mp primary
      exact btbSlot_even predicted (predicted _ (by simp [PredIn.predicted, btb])) hit
    · obtain ⟨h, btb, hit⟩ := Option.bind_eq_some_iff.mp alt
      exact btbSlot_even predicted (predicted _ (by simp [PredIn.predicted, btb])) hit
  next => cases found

theorem ftqPick_even (predicted : ∀ t ∈ x.predicted, Aligned t) (found : x.ftqPick = some p) :
    Aligned p.target := by
  simp only [ftqPick, ftqPredCtl, Option.bind_eq_bind, Option.bind_eq_some_iff] at found
  obtain ⟨⟨i, q⟩, ⟨q', ftq, j, -, eq⟩, c, -, agreed⟩ := found
  cases eq
  split at agreed
  next =>
    cases agreed
    exact predicted _ (by simp [PredIn.predicted, ftq])
  next => cases agreed

theorem pdCtl_even (predicted : ∀ t ∈ x.predicted, Aligned t)
    (slots : ∀ j < x.extractCount, Aligned (x.slot j).pc) (found : x.pdCtl = some c) :
    Aligned c.target := by
  obtain ⟨i, -, ctl⟩ := List.mem_filterMap.mp (List.mem_of_getElem? found)
  unfold ctlAt at ctl
  split at ctl
  next there =>
    obtain ⟨t, isCtl, rfl⟩ := Option.map_eq_some_iff.mp ctl
    simp only [Bool.and_eq_true, decide_eq_true_eq] at there
    exact ctlOf_even predicted (slots i there.2) isCtl
  next => cases ctl

theorem staticPick_even (predicted : ∀ t ∈ x.predicted, Aligned t)
    (slots : ∀ j < x.extractCount, Aligned (x.slot j).pc) (found : x.staticPick = some p) :
    Aligned p.target := by
  simp only [staticPick, Option.bind_eq_bind, Option.bind_eq_some_iff] at found
  obtain ⟨c, ctl, known⟩ := found
  split at known
  next =>
    cases known
    exact pdCtl_even predicted slots ctl
  next => cases known

theorem tag_even (predicted : ∀ t ∈ x.predicted, Aligned t)
    (slots : ∀ j < x.extractCount, Aligned (x.slot j).pc) (tagged : x.tag = some p) :
    Aligned p.target := by
  obtain either | static := earlier_some (tag_some tagged).2
  · obtain btb | ftq := earlier_some either
    · exact btbPick_even predicted btb
    · exact ftqPick_even predicted ftq
  · exact staticPick_even predicted slots static

variable (packet : PacketAt cursor x) (even : Aligned cursor)
  (predicted : ∀ t ∈ x.predicted, Aligned t)
include packet even predicted

theorem window_even (inside : j < x.finalCount) : EvenUop (x.window.slot j) := by
  have slots := fun k (less : k < x.extractCount) => slot_even packet even less
  have here := slots j (Nat.lt_of_lt_of_le inside (finalCount_width packet))
  refine ⟨window_pc x j ▸ here, ?_, fun taken => ?_, ?_⟩
  · exact (decodeSlice_trapPc (x.slot j).insn (x.slot j).pc (x.slot j).isRvc).symm ▸ here
  · obtain ⟨p, tagged, -, target⟩ := bpOf_taken taken
    rw [window_bp, target]
    exact tag_even predicted slots tagged
  · exact decodeSlice_evenOffset (x.slot j).insn (x.slot j).pc (x.slot j).isRvc

theorem nextPc_even : Aligned (x.nextPc cursor) := by
  have slots := fun k (less : k < x.extractCount) => slot_even packet even less
  unfold nextPc
  split
  next p tagged => exact tag_even predicted slots tagged
  next =>
    split
    next => exact even
    next some_ =>
      refine aligned_fallthrough (slots _ ?_) _
      have width := finalCount_width packet
      omega

end PredIn

/-- The operation's addresses are even, and so is what it goes on with. -/
structure EvenOp (op : PathOp) : Prop where
  uop : EvenUop op.uop
  control : isControl op.uop = true → op.uop.fuType = .bru
  last : Aligned op.last
  outcome : ∀ x, op.resolved = some x → op.uop.fuType = .bru ∧ ∃ regs, x = bruIn op.uop regs

theorem EvenOp.resolved {op : PathOp} (even : EvenOp op) (found : op.resolved = some x) :
    Aligned x.branchTarget ∧ Aligned x.target := by
  obtain ⟨bru, regs, rfl⟩ := even.outcome x found
  exact aligned_target even.uop bru regs

theorem EvenOp.next {op : PathOp} (even : EvenOp op) : Aligned op.next := by
  unfold PathOp.next
  split
  next x found => exact (even.resolved found).2
  next => exact even.last

theorem evenOp_delivered {x : PredIn} (packet : PacketAt cursor x) (even : Aligned cursor)
    (predicted : ∀ t ∈ x.predicted, Aligned t) (mem : op ∈ x.delivered) : EvenOp op := by
  have decoded := PredIn.window_fromDecode packet
  have width := PredIn.finalCount_width packet
  have slot (i : Nat) (inside : i < x.finalCount) : Aligned (x.slot i).next :=
    aligned_fallthrough
      (PredIn.slot_even packet even (Nat.lt_of_lt_of_le inside width)) _
  obtain ⟨p, inside, rfl⟩ := List.mem_map.mp mem
  obtain ⟨i, present, -, eq⟩ | ⟨i, pat, present, -, fuses, eq⟩ :=
    PredIn.opAt_cases packet (List.mem_range.mp inside)
  · rw [eq]
    have marks := Window.slot_marks decoded present
    simp only [marksMatch, Bool.and_eq_true, beq_iff_eq] at marks
    exact ⟨PredIn.window_even packet even predicted present, (isControl_of_marks marks.1).mp,
      slot i present, fun x none => by cases none⟩
  · rw [eq]
    have first := PredIn.window_even packet even predicted (Nat.lt_of_succ_lt present)
    have second := PredIn.window_even packet even predicted present
    have marks := Window.slot_marks decoded (Nat.lt_of_succ_lt present)
    refine ⟨first.fused marks fuses second, ?_, slot (i + 1) present, fun x none => by cases none⟩
    obtain ⟨alu, noBranch, -⟩ := first_of_pair marks fuses
    obtain transfer | sum := fusedUop_cases marks fuses
    · exact fun _ => transfer.unit
    · refine (isControl_of_marks ?_).mp
      rw [sum.branch, noBranch, sum.unit.trans alu]
      rfl

theorem evenOp_fault (even : Aligned pc) : EvenOp (faultOp pc) where
  uop := ⟨even, even, nofun, rfl⟩
  control := nofun
  last := aligned_fallthrough even false
  outcome := nofun

-- ---------------------------------------------------------------------
-- The registers of trap returns
-- ---------------------------------------------------------------------

theorem csrWrite_mepc (s t : CsrFile) (i : CsrIn) :
    (s.csrWrite t i).mepc =
      if i.writeAddr = csrMepc then CsrFile.applyOp i.writeOp s.mepc i.writeData else t.mepc := by
  unfold CsrFile.csrWrite
  simp only [apply_ite CsrFile.mepc, ite_self]
  by_cases here : i.writeAddr = csrMepc
  · rw [here]
    simp +decide only [if_true, if_false]
  · simp [here]

theorem csrWrite_sepc (s t : CsrFile) (i : CsrIn) :
    (s.csrWrite t i).sepc =
      if i.writeAddr = csrSepc then CsrFile.applyOp i.writeOp s.sepc i.writeData else t.sepc := by
  unfold CsrFile.csrWrite
  simp only [apply_ite CsrFile.sepc, ite_self]
  by_cases here : i.writeAddr = csrSepc
  · rw [here]
    simp +decide only [if_true, if_false]
  · simp [here]

theorem csr_next_even {s : CsrFile} {i : CsrIn} (even : Aligned s.mepc ∧ Aligned s.sepc)
    (trap : i.trapValid = true → Aligned i.trapPc)
    (writes : i.writeValid = true →
      (i.writeAddr = csrMepc → Aligned (CsrFile.applyOp i.writeOp s.mepc i.writeData)) ∧
      (i.writeAddr = csrSepc → Aligned (CsrFile.applyOp i.writeOp s.sepc i.writeData))) :
    Aligned (s.next i).mepc ∧ Aligned (s.next i).sepc := by
  unfold CsrFile.next
  dsimp only
  split
  next traps =>
    unfold CsrFile.trapEntry
    split
    next => exact ⟨even.1, trap traps⟩
    next => exact ⟨trap traps, even.2⟩
  next =>
    split
    next => exact even
    next =>
      split
      next => exact even
      next =>
        split
        next valid =>
          obtain ⟨mepc, sepc⟩ := writes valid
          rw [csrWrite_mepc, csrWrite_sepc]
          constructor
          · split
            next here => exact mepc here
            next => exact even.1
          · split
            next here => exact sepc here
            next => exact even.2
        next => exact even

-- ---------------------------------------------------------------------
-- Redirects
-- ---------------------------------------------------------------------

/-- The entries of the commit window hold even addresses. -/
structure EvenHeads (c : CommitIn) : Prop where
  pc : ∀ k < pipeWidth, (c.head k).valid = true → Aligned (c.head k).pc
  trapPc : ∀ k < pipeWidth, (c.head k).valid = true → Aligned (c.head k).trapPc
  target : ∀ k < pipeWidth, c.MayLeave k → (c.head k).hasException = false →
    (c.head k).mispredicts = true → Aligned (c.head k).branchTarget
  returns : Aligned c.mepc ∧ Aligned c.sepc

section

variable {c : CommitIn}

theorem trapVector_even (c : CommitIn) : Aligned c.trapVector := by
  unfold CommitIn.trapVector
  split
  next => exact aligned_vecBase _
  next => exact aligned_vecBase _

theorem irqVector_even (c : CommitIn) : Aligned c.irqVector := by
  unfold CommitIn.irqVector
  split
  next => exact aligned_irqEntry _ _
  next => exact aligned_irqEntry _ _

theorem redirect_of_raises (even : EvenHeads c) (due : c.Due i)
    (asks : (c.head i).asks cause = true) (turn : (c.head i).waits = true → i = 0) :
    Aligned c.flushOut.redirectPc := by
  have pc := even.pc i due.width due.leave.valid
  cases CommitIn.ends_of_due due asks with
  | blocked stuck =>
    obtain ⟨clean, serial, late⟩ := stuck due.leave
    exact absurd (turn (by simp [HeadEntry.waits, clean, serial])) late
  | replays leave replays slot _ _ finds =>
    have eq : c.flushOut = c.fullFlushTo (c.head i).pc := by
      simp [CommitIn.flushOut, finds.replay, slot]
    exact eq ▸ pc
  | traps leave stays exception slot _ _ finds =>
    have eq : c.flushOut = c.fullFlushTo c.trapVector := by
      simp [CommitIn.flushOut, finds.replay, finds.exception]
    exact eq ▸ trapVector_even c
  | serial leave clean serial first _ _ finds =>
    subst first
    have after : Aligned ((c.head 0).pc + 4) := pc.add (by decide)
    have back : Aligned (if (c.head 0).isMret then c.mepc else c.sepc) := by
      split
      next => exact even.returns.1
      next => exact even.returns.2
    unfold CommitIn.flushOut
    rw [finds.replay, finds.exception, finds.mispredict]
    simp only [Bool.false_eq_true, if_false]
    split
    next => exact back
    next =>
      split
      next => exact after
      next =>
        split
        next => exact after
        next =>
          split
          next => exact irqVector_even c
          next => exact (by decide : Aligned (0 : BitVec 64))
  | mispredicts leave clean plain wrong slot _ _ finds =>
    have eq : c.flushOut = c.mispredictFlush := by
      simp [CommitIn.flushOut, finds.replay, finds.exception, finds.mispredict]
    rw [eq]
    have target := even.target i due.width leave clean wrong
    simpa [CommitIn.mispredictFlush, slot, CommitIn.fullFlushTo] using target

theorem redirect_even (even : EvenHeads c) (flush : c.flushOut.valid = true) :
    Aligned c.flushOut.redirectPc := by
  obtain ⟨cause, i, raises⟩ := CommitIn.raises_of_flush flush
  cases raises with
  | entry due asks turn => exact redirect_of_raises even due asks turn
  | interrupt taken =>
    rw [CommitIn.flush_of_interrupt taken]
    exact irqVector_even c

/-- A trap restarts where an entry of the window stands. -/
theorem trapOf_even {s : CsrFile} {x : CoreIn} (even : EvenHeads c)
    (valid : (trapOf s x c).valid = true) : Aligned (trapOf s x c).pc := by
  unfold trapOf at valid ⊢
  split at valid
  next flush =>
    rw [if_pos flush]
    cases slot : trapSlot c with
    | some i =>
      have found := List.find?_some slot
      simp only [Bool.and_eq_true] at found
      have traps : c.Traps i := found
      cases (CommitIn.traps_iff c i).mp traps with
      | entry due => exact even.trapPc i due.width due.leave.valid
    | none =>
      simp only [slot] at valid ⊢
      split at valid
      next taken =>
        rw [if_pos taken]
        simp only [CommitIn.takeInterrupt, Bool.and_eq_true] at taken
        exact even.trapPc 0 (by decide) taken.1.1.1.1.1.2
      next => cases valid
  next => cases valid

end

-- ---------------------------------------------------------------------
-- The invariant
-- ---------------------------------------------------------------------

structure EvenCore (s : FetchCore) : Prop where
  cursor : Aligned s.path.cursor
  ops : ∀ op ∈ s.path.ops, EvenOp op
  targets : ∀ t ∈ s.targets, Aligned t
  fault : ∀ a, s.fault = some a → Aligned a
  returns : Aligned s.csr.mepc ∧ Aligned s.csr.sepc

theorem PathShows.mispredicts_bru {op : PathOp} (shows : PathShows h op) (even : EvenOp op)
    (wrong : h.mispredicts = true) : op.uop.fuType = .bru := by
  refine even.control ?_
  simp only [HeadEntry.mispredicts, HeadEntry.isControl, Bool.and_eq_true] at wrong
  rw [isControl, ← shows.isBranch, ← shows.bpuType]
  exact wrong.1

namespace FetchCore

variable {s : FetchCore} {i : FetchIn}

theorem heads_even (legal : s.Legal i) (even : EvenCore s) :
    EvenHeads (s.pathIn i).commit where
  pc k width valid := by
    obtain ⟨op, here, shows⟩ := legal.path.heads k width valid
    rw [shows.pc]
    exact (even.ops op (List.mem_of_getElem? here)).uop.pc
  trapPc k width valid := by
    obtain ⟨op, here, same⟩ := legal.trapPc k width valid
    have aligned := (even.ops op (List.mem_of_getElem? here)).uop.trapPc
    exact same ▸ aligned
  target k width leave clean wrong := by
    obtain ⟨op, here, shows⟩ := legal.path.heads k width leave.valid
    have aligned := even.ops op (List.mem_of_getElem? here)
    obtain ⟨x, found, target, -⟩ :=
      shows.resolved leave.ready clean (shows.mispredicts_bru aligned wrong)
    rw [target]
    exact (aligned.resolved found).2
  returns := even.returns

theorem predicted_even (legal : s.Legal i) (even : EvenCore s) (deliver : i.deliver = some x) :
    ∀ t ∈ x.predicted, Aligned t :=
  fun t mem => even.targets t (legal.predicted x deliver t mem)

theorem issued_even (legal : s.Legal i) (even : EvenCore s) :
    ∀ op ∈ s.path.issued (s.pathIn i), EvenOp op := by
  intro op mem
  obtain ⟨k, inside, rfl⟩ := List.mem_mapIdx.mp mem
  have here := List.getElem?_eq_getElem inside
  have aligned := even.ops _ (List.getElem_mem inside)
  split
  next regs issue =>
    obtain ⟨other, same, bru, -⟩ := legal.path.issues k regs issue
    rw [← Option.some.inj (here.symm.trans same)] at bru
    exact ⟨aligned.uop, aligned.control, aligned.last,
      fun x found => ⟨bru, regs, (Option.some.inj found).symm⟩⟩
  next => exact aligned

theorem recoveredOps_even (legal : s.Legal i) (even : EvenCore s) :
    ∀ op ∈ s.path.recoveredOps (s.pathIn i) k, EvenOp op := by
  intro op mem
  obtain ⟨j, here⟩ := List.mem_iff_getElem?.mp mem
  rw [PathCore.recoveredOps, List.getElem?_modify] at here
  obtain ⟨before, there, rfl⟩ := Option.map_eq_some_iff.mp here
  have aligned := issued_even legal even before (List.mem_of_mem_take (List.mem_of_getElem? there))
  split
  next => exact ⟨aligned.uop, aligned.control, aligned.last, aligned.outcome⟩
  next => exact aligned

theorem opsNext_even (legal : s.Legal i) (even : EvenCore s) :
    ∀ op ∈ s.path.opsNext (s.pathIn i), EvenOp op := by
  intro op mem
  unfold PathCore.opsNext at mem
  split at mem
  next => cases mem
  next =>
    split at mem
    next k recover => exact recoveredOps_even legal even op (List.mem_of_mem_drop mem)
    next =>
      obtain old | new := List.mem_append.mp mem
      · exact issued_even legal even op (List.mem_of_mem_drop old)
      · change op ∈ (i.deliver.map PredIn.delivered).getD [] at new
        cases deliver : i.deliver with
        | none => simp [deliver] at new
        | some x =>
          rw [deliver] at new
          exact evenOp_delivered (legal.path.packet x deliver) even.cursor
            (predicted_even legal even deliver) new

theorem cursorNext_even (legal : s.Legal i) (even : EvenCore s) :
    Aligned (s.path.cursorNext (s.pathIn i)) := by
  unfold PathCore.cursorNext
  split
  next flush => exact redirect_even (heads_even legal even) flush
  next =>
    split
    next k recover =>
      cases here : s.path.ops[k]? with
      | none => exact even.cursor
      | some op => exact (even.ops op (List.mem_of_getElem? here)).next
    next =>
      split
      next x deliver =>
        exact PredIn.nextPc_even (legal.path.packet x deliver) even.cursor
          (predicted_even legal even deliver)
      next => exact even.cursor

theorem learned_even (legal : s.Legal i) (even : EvenCore s) : ∀ t ∈ s.learned i, Aligned t := by
  intro t mem
  obtain found | pushed := List.mem_append.mp mem
  · obtain ⟨x, outcome, found⟩ := List.mem_flatMap.mp found
    obtain ⟨op, there, resolved⟩ := List.mem_filterMap.mp outcome
    have aligned := (issued_even legal even op there).resolved resolved
    simp only [List.mem_cons, List.not_mem_nil, or_false] at found
    obtain rfl | rfl := found
    · exact aligned.1
    · exact aligned.2
  · cases deliver : i.deliver with
    | none => simp [deliver] at pushed
    | some x =>
      simp only [deliver, Option.map_some, Option.getD_some] at pushed
      obtain ⟨j, inside, rfl⟩ := List.mem_map.mp pushed
      have slot := PredIn.slot_even (legal.path.packet x deliver) even.cursor
        (List.mem_range.mp inside)
      exact aligned_fallthrough slot _

theorem mayAsk_even (legal : s.Legal i) (even : EvenCore s) (ask : s.MayAsk i a) : Aligned a := by
  obtain rfl | known | ⟨x, deliver, rfl⟩ := ask
  · exact even.cursor
  · exact even.targets a known
  · exact PredIn.nextPc_even (legal.path.packet x deliver) even.cursor
      (predicted_even legal even deliver)

theorem lookup_even (legal : s.Legal i) (even : EvenCore s) (found : i.lookupFault = some a) :
    Aligned a := by
  obtain ask | ⟨b, -, rfl⟩ := legal.lookup a found
  · exact mayAsk_even legal even ask
  · rw [aligned_iff, lineAfter, BitVec.getLsbD_append]
    simp

theorem step_even (legal : s.Legal i) (writes : s.WritesEven i) (even : EvenCore s) :
    EvenCore (s.next i) where
  cursor := by
    change Aligned (s.pathNext i).cursor
    unfold pathNext
    dsimp only
    split
    next => exact cursorNext_even legal even
    next => exact cursorNext_even legal even
  ops op mem := by
    change op ∈ (s.pathNext i).ops at mem
    unfold pathNext at mem
    dsimp only at mem
    split at mem
    next =>
      obtain old | new := List.mem_append.mp mem
      · exact opsNext_even legal even op old
      · obtain ⟨a, fault, rfl⟩ := Option.map_eq_some_iff.mp (Option.mem_toList.mp new)
        exact evenOp_fault (even.fault a fault)
    next => exact opsNext_even legal even op mem
  targets t mem := by
    obtain old | new := List.mem_append.mp mem
    · exact even.targets t old
    · obtain rfl | new := List.mem_cons.mp new
      · exact even.cursor
      · exact learned_even legal even t new
  fault a held := by
    simp only [next] at held
    split at held
    next =>
      obtain before | ⟨-, lookup⟩ := Option.or_eq_some_iff.mp held
      · exact even.fault a before
      · exact lookup_even legal even lookup
    next => cases held
  returns := csr_next_even even.returns (trapOf_even (heads_even legal even)) writes

end FetchCore

theorem EvenCore.fetches {s : FetchCore} {i : FetchIn} (even : EvenCore s) (legal : s.Legal i) :
    s.FetchesEven i where
  asks _ ask := FetchCore.mayAsk_even legal even ask
  packet x deliver _ inside :=
    PredIn.slot_even (legal.path.packet x deliver) even.cursor inside
  redirect flush := redirect_even (FetchCore.heads_even legal even) flush
  recovery _ op _ here := (even.ops op (List.mem_of_getElem? here)).next
  vectors := ⟨trapVector_even _, irqVector_even _⟩
  returns := even.returns
  trap := trapOf_even (FetchCore.heads_even legal even)

theorem evenCore_reset : EvenCore fetchCores.reset where
  cursor := by decide +kernel
  ops op mem := absurd mem List.not_mem_nil
  targets t mem := by
    rw [List.mem_singleton.mp mem]
    exact aligned_iff.mpr rfl
  fault a held := by cases held
  returns := ⟨aligned_iff.mpr rfl, aligned_iff.mpr rfl⟩

theorem evenCore_of_reach (reach : fetchCores.Reach FetchCore.WritesEven s) : EvenCore s := by
  exact reach.invariant EvenCore evenCore_reset fun s i _ even legal writes =>
    FetchCore.step_even legal writes even

/-- As long as no write leaves an odd address in `mepc` or `sepc`, fetch is sent to even addresses
only. -/
theorem fetches_even (reach : fetchCores.Reach FetchCore.WritesEven s)
    (legal : fetchCores.legal s i) : s.FetchesEven i :=
  (evenCore_of_reach reach).fetches legal

-- ---------------------------------------------------------------------
-- A return to where a write points
-- ---------------------------------------------------------------------

/-- `csrrw x0, mepc, x1` -/
def writeMepc : BitVec 32 := 0x34109073

def returnM : BitVec 32 := 0x30200073

/-- One instruction nothing is predicted about. -/
def insnAt (pc : Addr) (insn : BitVec 32) : PredIn :=
  { packetAt pc 0 with
    slot := fun j => if j = 0 then ⟨true, insn, false, pc⟩ else ⟨false, 0, false, 0⟩
    btb := none }

theorem insnAt_follows (pc : Addr) (insn : BitVec 32) : PacketAt pc (insnAt pc insn) where
  width := Nat.le_of_ble_eq_true rfl
  valid j _ := by
    cases j with
    | zero => simp [insnAt, packetAt]
    | succ j => simp [insnAt, packetAt]
  begins _ := rfl
  follows j inside := by simp [insnAt, packetAt] at inside
  expanded j inside rvc := by
    obtain rfl : j = 0 := Nat.lt_one_iff.mp inside
    cases rvc

namespace FetchCore

/-- The entry of a CSR write of `data` to `mepc`, or of a return. -/
def entryOf (data : BitVec 64) (op : PathOp) : HeadEntry :=
  { Rename.Core.headOf (PathCore.renamedOf op) true with
    isCsr := op.uop.isCsr
    isMret := op.uop.isMret
    csrAddr := csrMepc
    csrWdata := data
    csrWe := op.uop.isCsr }

/-- What is in flight has completed, and a packet may arrive. -/
def plainCycle (s : FetchCore) (data : BitVec 64) (deliver : Option PredIn) : FetchIn where
  core :=
    { headIdx := 0
      head := fun k => ((s.path.ops[k]?).map (entryOf data)).getD Rename.Core.noHead
      fenceIReady := true
      sfenceVmaReady := true
      lines := ⟨false, false, false, false, false, false⟩ }
  deliver := deliver
  issue _ := none
  recover := none
  lookupFault := none
  inject := false

/-- A CSR operation or a return, which no other unit holds up. -/
def isAlone (op : PathOp) : Bool :=
  op.uop.fuType != .bru && !isControl op.uop &&
    !(op.uop.isFence || op.uop.isFenceI || op.uop.isSfenceVma || op.uop.isSret ||
      op.uop.isEcall || op.uop.isWfi)

theorem legal_plainCycle {s : FetchCore} {data : BitVec 64} {deliver : Option PredIn}
    (alone : s.path.ops.all isAlone = true)
    (packet : ∀ x, deliver = some x → PacketAt s.path.cursor x)
    (predicted : ∀ x, deliver = some x → ∀ t ∈ x.predicted, t ∈ s.targets) :
    s.Legal (s.plainCycle data deliver) where
  path :=
    { heads := by
        intro k _ valid
        change ((s.plainCycle data deliver).core.head k).valid = true at valid
        change ∃ op, s.path.ops[k]? = some op ∧
          PathShows ((s.plainCycle data deliver).core.head k) op
        cases here : s.path.ops[k]? with
        | none => simp [plainCycle, here, Rename.Core.noHead] at valid
        | some op =>
          have kind := List.all_eq_true.mp alone op (List.mem_of_getElem? here)
          simp only [isAlone, isControl, Bool.and_eq_true, bne_iff_ne, ne_eq, Bool.not_eq_true',
            Bool.or_eq_false_iff, bne_eq_false_iff_eq] at kind
          obtain ⟨⟨straight, -, typed⟩, ⟨⟨⟨⟨fence, fenceI⟩, sfence⟩, sret⟩, ecall⟩, wfi⟩ := kind
          refine ⟨op, rfl, ?_⟩
          simp only [plainCycle, here, Option.map_some, Option.getD_some]
          exact ⟨rfl, rfl, typed.symm, rfl, fence.symm, fenceI.symm, sfence.symm, rfl, sret.symm,
            ecall.symm, wfi.symm, (fun replays => by cases replays), fun _ _ bru => absurd bru straight⟩
      issues := fun k regs issue => by cases issue
      recovers := fun k recover => by cases recover
      packet := packet }
  trapPc k _ valid := by
    cases here : s.path.ops[k]? with
    | none => simp [plainCycle, here, Rename.Core.noHead] at valid
    | some op =>
      refine ⟨op, rfl, ?_⟩
      simp only [plainCycle, here, Option.map_some, Option.getD_some]
      rfl
  predicted := predicted
  lookup := fun a fault => by cases fault
  injects := fun inject => by cases inject

/-- Nothing arrives. -/
theorem legal_retireAll {s : FetchCore} (alone : s.path.ops.all isAlone = true) :
    s.Legal (s.plainCycle data none) := by
  refine legal_plainCycle alone ?_ ?_
  · intro x arrives
    cases arrives
  · intro x arrives
    cases arrives

def fetchOne (s : FetchCore) (insn : BitVec 32) : FetchIn :=
  s.plainCycle 0 (some (insnAt s.path.cursor insn))

theorem legal_fetchOne {s : FetchCore} (alone : s.path.ops.all isAlone = true)
    (zero : 0 ∈ s.targets) : s.Legal (s.fetchOne insn) := by
  refine legal_plainCycle alone ?_ ?_
  · rintro x ⟨⟩
    exact insnAt_follows _ _
  · rintro x ⟨⟩ t mem
    rw [show t = 0 by simpa [PredIn.predicted, insnAt, packetAt] using mem]
    exact zero

end FetchCore

/-- The write is in flight, has retired with `data`, and the return is in flight. -/
def writeFetched : FetchCore :=
  fetchCores.next fetchCores.reset (fetchCores.reset.fetchOne writeMepc)

def afterWrite (data : BitVec 64) : FetchCore :=
  fetchCores.next writeFetched (writeFetched.plainCycle data none)

def atReturn (data : BitVec 64) : FetchCore :=
  fetchCores.next (afterWrite data) ((afterWrite data).fetchOne returnM)

theorem reach_atReturn {P : FetchCore → FetchIn → Prop}
    (fetched : P fetchCores.reset (fetchCores.reset.fetchOne writeMepc))
    (retired : P writeFetched (writeFetched.plainCycle data none))
    (again : P (afterWrite data) ((afterWrite data).fetchOne returnM))
    (flushed : (afterWrite data).path.ops.all FetchCore.isAlone = true)
    (zero : 0 ∈ (afterWrite data).targets) : fetchCores.Reach P (atReturn data) := by
  have first : fetchCores.Reach P writeFetched :=
    .cycle .reset (FetchCore.legal_fetchOne rfl (List.mem_singleton.mpr rfl)) fetched
  have second : fetchCores.Reach P (afterWrite data) :=
    .cycle first (FetchCore.legal_retireAll (by decide +kernel)) retired
  exact .cycle second (FetchCore.legal_fetchOne flushed zero) again

theorem fetches_even_returning :
    (atReturn 0x80000100).FetchesEven ((atReturn 0x80000100).plainCycle 0 none) := by
  refine fetches_even (reach_atReturn ?_ ?_ ?_ (by decide +kernel) (by decide +kernel))
    (FetchCore.legal_retireAll (by decide +kernel))
  · exact nofun
  · unfold FetchCore.WritesEven
    decide +kernel
  · exact nofun

/-- The odd address of a write is where fetch goes on behind the return. -/
theorem odd_return_redirects :
    fetchCores.Reachable (atReturn 1) ∧
      fetchCores.legal (atReturn 1) ((atReturn 1).plainCycle 0 none) ∧
      ¬(atReturn 1).FetchesEven ((atReturn 1).plainCycle 0 none) := by
  refine ⟨reach_atReturn trivial trivial trivial (by decide +kernel) (by decide +kernel),
    FetchCore.legal_retireAll (by decide +kernel), fun even => ?_⟩
  have odd : ¬Aligned
      (((atReturn 1).pathIn ((atReturn 1).plainCycle 0 none)).commit.flushOut.redirectPc) := by
    decide +kernel
  exact odd (even.redirect (by decide +kernel))

end Rv64gc.Frontend
