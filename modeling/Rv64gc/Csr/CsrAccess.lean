import Rv64gc.Csr.CsrViews
import Rv64gc.Csr.Traps
import Rv64gc.Mmu.InForce

/-!
# CSR instructions from issue to commit

A CSR instruction waits for the head of the ROB, is checked and reads its register there, and
writes when it commits a few cycles later. Whether it is going to write is judged from the value
of its operand, where the architecture asks for the number of its source register.
-/

namespace Rv64gc.Csr

open Hdl Backend CommitIn Decode Decode.Fields Mmu

-- ---------------------------------------------------------------------
-- Issue and writeback
-- ---------------------------------------------------------------------

/-- `csr_op_e` -/
def csrOpCode : CsrOp → BitVec 2
  | .rw => 0
  | .rs => 1
  | .rc => 2
  | .none => 3

/-- Port 0 of IQ2 with a CSR instruction and its first operand. -/
structure CsrIssue where
  csrAddr : BitVec 12
  csrOp : CsrOp
  useImm : Bool
  imm : Word
  rs1Data : Word

def csrIssue (d : DecodedInsn) (rs1Data : Word) : CsrIssue :=
  ⟨d.csrAddr, d.csrOp, d.useImm, d.imm, rs1Data⟩

namespace CsrIssue

def execWdata (q : CsrIssue) : Word := if q.useImm then q.imm else q.rs1Data

/-- `csr_access_write_intent` -/
def writeIntent (q : CsrIssue) : Bool :=
  q.csrOp != .none && (q.csrOp == .rw || q.execWdata != 0)

/-- `csr_access_illegal` -/
def illegal (s : CsrFile) (q : CsrIssue) : Bool := s.readIllegal q.csrAddr q.writeIntent

end CsrIssue

/-- CDB[3] in the cycle a CSR instruction issues. -/
structure CsrResult where
  data : Word
  csrWe : Bool
  csrAddr : BitVec 12
  csrWdata : Word
  csrOp : BitVec 2
  hasException : Bool
  excCode : BitVec 4

def csrResult (s : CsrFile) (x : CoreIn) (time : Word) (q : CsrIssue) : CsrResult where
  data := s.readData x.lines time q.csrAddr (csrIn s x)
  csrWe := !q.illegal s && q.csrOp != .none && (q.csrOp == .rw || q.execWdata != 0)
  csrAddr := q.csrAddr
  csrWdata := q.execWdata
  csrOp := csrOpCode q.csrOp
  hasException := q.illegal s
  excCode := if q.illegal s then excIllegalInsn else 0

/-- What allocation writes into the entry. An instruction with an exception never issues. -/
def robAlloc (d : DecodedInsn) (e : HeadEntry) : HeadEntry :=
  { e with
    valid := true
    ready := d.hasException
    pc := d.pc
    trapPc := d.trapPc
    hasException := d.hasException
    excCode := d.excCode
    excTval := d.excTval
    isBranch := d.isBranch
    isStore := d.isStore
    isLoad := d.isLoad
    isCsr := d.isCsr
    isFence := d.isFence
    isFenceI := d.isFenceI
    isMret := d.isMret
    isSret := d.isSret
    isSfenceVma := d.isSfenceVma
    isEcall := d.isEcall
    isWfi := d.isWfi
    isFused := d.isFused
    isFpInstr := usesFpState d
    fpFflags := 0
    branchTaken := false
    branchTarget := 0
    branchMispredict := false
    csrAddr := 0
    csrWdata := 0
    csrWe := false
    csrOp := 0 }

/-- What the writeback of the result adds. -/
def robWriteback (w : CsrResult) (e : HeadEntry) : HeadEntry :=
  { e with
    ready := true
    hasException := e.hasException || w.hasException
    excCode := if w.hasException then w.excCode else e.excCode
    excTval := if w.hasException then 0 else e.excTval
    csrAddr := w.csrAddr
    csrWdata := w.csrWdata
    csrWe := w.csrWe
    csrOp := w.csrOp }

/-- The head is not ready, and no trap is taken. -/
inductive Waits : CsrFile → List CoreIn → CsrFile → Prop
  | done : Waits s [] s
  | cycle (unready : (x.head 0).ready = false) (quiet : (csrIn s x).trapValid = false)
      (rest : Waits (privilegeRuns.next s x) xs t) : Waits s (x :: xs) t

-- ---------------------------------------------------------------------
-- The architecture
-- ---------------------------------------------------------------------

def isCsrInsn (insn : BitVec 32) : Bool :=
  opcode insn == opSystem && funct3 insn != f3Priv && funct3 insn != 0b100#3

def archOp (insn : BitVec 32) : CsrOp :=
  let kind := (funct3 insn).extractLsb' 0 2
  if kind = 1 then .rw else if kind = 2 then .rs else .rc

/-- The zero-extended immediate, or the value `v` of the source register. -/
def archOperand (insn : BitVec 32) (v : Word) : Word :=
  if (funct3 insn).getLsbD 2 then (rs1 insn).setWidth 64 else v

/-- A swap always writes; a set or clear does unless its source is `x0` or a zero immediate. -/
def archWrites (insn : BitVec 32) : Bool := archOp insn == .rw || rs1 insn != 0

/-- `mcounteren` hides a counter from the levels below M, `scounteren` from U. -/
def counterDisabled (s : CsrFile) (addr : BitVec 12) : Prop :=
  ∃ bit < 3, addr = csrCycle + BitVec.ofNat 12 bit ∧
    (s.priv = privS ∧ s.mcounteren.getLsbD bit = false ∨
      s.priv = privU ∧ (s.mcounteren.getLsbD bit = false ∨ s.scounteren.getLsbD bit = false))

/-- There is no such CSR, or it may not be accessed from here at all. -/
def Inaccessible (s : CsrFile) (addr : BitVec 12) : Prop :=
  CsrFile.csrView addr = none ∨ s.priv < addr.extractLsb' 8 2 ∨ counterDisabled s addr ∨
    (isFpCsr addr = true ∧ s.fsOff = true)

def readOnlyAddr (addr : BitVec 12) : Bool := addr.extractLsb' 10 2 == 0b11#2

def archIllegal (s : CsrFile) (insn : BitVec 32) : Prop :=
  Inaccessible s (funct12 insn) ∨ (archWrites insn && readOnlyAddr (funct12 insn)) = true

/-- The counters after a cycle in which `n` instructions retire. -/
def CsrFile.tick (s : CsrFile) (n : Nat) : CsrFile :=
  { s with
    mcycle := if s.mcountinhibit.getLsbD 0 then s.mcycle else s.mcycle + 1
    minstret := if s.mcountinhibit.getLsbD 2 then s.minstret else s.minstret + BitVec.ofNat 64 n }

/-- The file after a legal access that read in state `s` and retires in state `t`. -/
def archAccess (view : CsrView) (s t : CsrFile) (insn : BitVec 32) (v : Word) : CsrFile :=
  let t := CsrFile.fpMark (funct12 insn) (t.tick 1)
  if archWrites insn then
    view.put t (CsrFile.applyOp (csrOpCode (archOp insn)) (view.held s) (archOperand insn v))
  else t

/-- The instruction in slot `k` only traps: its destination is not mapped, no CSR is written and no
translation removed. -/
structure TrapsOnly (t : CsrFile) (x : CoreIn) (k : Nat) : Prop where
  trap : (csrIn t x).trapValid = true ∧ (csrIn t x).trapCause = excIllegalInsn.setWidth 64
  retires : ∀ i, (commitIn t x).Retires i ↔ i < k
  enters : privilegeRuns.next t x =
    (t.tick ((List.range k).map fun i => (x.head i).insns).sum).trapEntry (csrIn t x)
  translations : translationTlbInvalidate (commitIn t x) = false

/-- An instruction that read in state `s` and gave `data` to its destination leaves slot `k` in
state `t`. -/
structure CsrRight (insn : BitVec 32) (v time : Word) (s t : CsrFile) (x₀ x : CoreIn) (k : Nat)
    (data : Word) : Prop where
  illegal : (x.head k).hasException = true ∧ (x.head k).excCode = excIllegalInsn ↔
    archIllegal s insn
  faults : archIllegal s insn → TrapsOnly t x k
  performs : ¬archIllegal s insn → ∃ view, CsrFile.csrView (funct12 insn) = some view ∧
    data = view.read s x₀.lines time ∧ (commitIn t x).Retires k ∧ (csrIn t x).trapValid = false ∧
    (privilegeRuns.next t x).shown = (archAccess view s t insn v).shown

/-- The passage of a CSR instruction with `v` in its source register. Rename finds FS as it is
when the instruction is due. Accepted, it issues at the head of the ROB in state `s` and leaves in
state `t`; refused, it waits for its turn in a commit group. -/
inductive CsrRuns (insn : BitVec 32) (v time : Word) :
    CsrFile → CsrFile → CoreIn → CoreIn → Nat → Word → Prop
  | issued (inForce : r.fsOff = s.fsOff)
      (decoded : d = renameDecIn r (decodeSlice insn pc isRvc)) (accepted : d.hasException = false)
      (result : w = csrResult s x₀ time (csrIssue d v)) (waits : Waits s (x₀ :: xs) t)
      (entry : x.head 0 = robWriteback w (robAlloc d e)) : CsrRuns insn v time s t x₀ x 0 w.data
  | refused (inForce : r.fsOff = t.fsOff)
      (decoded : d = renameDecIn r (decodeSlice insn pc isRvc)) (refused : d.hasException = true)
      (entry : x.head k = robAlloc d e) (due : (commitIn t x).Due k) :
      CsrRuns insn v time t t x x k 0

def isSfenceInsn (insn : BitVec 32) : Bool :=
  opcode insn == opSystem && funct3 insn == f3Priv && funct7 insn == f7SfenceVma && rd insn == 0

/-- An SFENCE.VMA that went through an ALU port and finds the store queue drained. -/
structure SfenceRuns (insn : BitVec 32) (t : CsrFile) (x : CoreIn) : Prop where
  sfence : isSfenceInsn insn = true
  entry : ∃ r pc isRvc e,
    x.head 0 = { robAlloc (renameDecIn r (decodeSlice insn pc isRvc)) e with ready := true }
  drained : x.fenceIReady = true ∧ x.sfenceVmaReady = true

structure SfenceRight (t : CsrFile) (x : CoreIn) : Prop where
  illegal : (x.head 0).hasException = true ∧ (x.head 0).excCode = excIllegalInsn ↔ t.priv = privU
  faults : t.priv = privU → TrapsOnly t x 0
  performs : t.priv ≠ privU → (commitIn t x).Retires 0 ∧ (csrIn t x).trapValid = false ∧
    translationTlbInvalidate (commitIn t x) = true

/-- A set or clear from a register other than `x0` that holds zero. -/
def SilentWrite (insn : BitVec 32) (v : Word) : Prop :=
  archWrites insn = true ∧ archOp insn ≠ .rw ∧ archOperand insn v = 0

/-- The access is out of reach anyway; or it is no silent write to a read-only address or a running
counter, and no set or clear of `mcycle` that a later count of it would change. -/
def AccessHolds (s t : CsrFile) (insn : BitVec 32) (v : Word) : Prop :=
  Inaccessible s (funct12 insn) ∨
    (SilentWrite insn v → readOnlyAddr (funct12 insn) = false) ∧
    (SilentWrite insn v → funct12 insn = csrMinstret → s.mcountinhibit.getLsbD 2 = true) ∧
    (funct12 insn = csrMcycle → archOp insn ≠ .rw → archWrites insn = true →
      CsrFile.applyOp (csrOpCode (archOp insn)) s.mcycle (archOperand insn v) =
        if archOperand insn v = 0 then (t.tick 1).mcycle
        else CsrFile.applyOp (csrOpCode (archOp insn)) t.mcycle (archOperand insn v))

-- ---------------------------------------------------------------------
-- What decode makes of a CSR instruction
-- ---------------------------------------------------------------------

variable {insn : BitVec 32} {pc : BitVec 64} {isRvc : Bool} {d : DecodedInsn}

theorem funct3_cases (csr : isCsrInsn insn = true) : funct3 insn = f3Csrrw ∨
    funct3 insn = f3Csrrs ∨ funct3 insn = f3Csrrc ∨ funct3 insn = f3Csrrwi ∨
    funct3 insn = f3Csrrsi ∨ funct3 insn = f3Csrrci := by
  simp only [isCsrInsn, Bool.and_eq_true, bne_iff_ne] at csr
  obtain ⟨⟨-, priv⟩, reserved⟩ := csr
  revert priv reserved
  generalize funct3 insn = f3
  revert f3
  decide

/-- The decoded fields that matter from issue on. -/
structure CsrDecoded (insn : BitVec 32) (d : DecodedInsn) : Prop where
  valid : d.valid = true
  clean : d.hasException = false
  isCsr : d.isCsr = true
  csrAddr : d.csrAddr = funct12 insn
  csrOp : d.csrOp = archOp insn
  operand : ∀ v, (csrIssue d v).execWdata = archOperand insn v
  plain : d.isFence = false ∧ d.isFenceI = false ∧ d.isMret = false ∧ d.isSret = false ∧
    d.isSfenceVma = false ∧ d.isEcall = false ∧ d.isFused = false
  usesFp : usesFpState d = isFpCsr (funct12 insn)

theorem CsrDecoded.suppressRd (h : CsrDecoded insn d) : CsrDecoded insn (suppressRd insn d) := by
  unfold Decode.suppressRd
  dsimp only
  split_ifs <;> exact ⟨h.valid, h.clean, h.isCsr, h.csrAddr, h.csrOp, h.operand, h.plain, h.usesFp⟩

theorem csrDecoded_decodeCsr (kind : funct3 insn = f3Csrrw ∨
    funct3 insn = f3Csrrs ∨ funct3 insn = f3Csrrc ∨ funct3 insn = f3Csrrwi ∨
    funct3 insn = f3Csrrsi ∨ funct3 insn = f3Csrrci) (pc : BitVec 64) (isRvc : Bool) :
    CsrDecoded insn (decodeCsr insn (defaults insn pc isRvc)) := by
  rcases kind with f3 | f3 | f3 | f3 | f3 | f3 <;>
    simp only [decodeCsr, f3] <;>
    exact {
      valid := rfl
      clean := rfl
      isCsr := rfl
      csrAddr := rfl
      csrOp := by simp only [archOp, f3]; rfl
      operand := fun v => by simp only [archOperand, f3]; rfl
      plain := ⟨rfl, rfl, rfl, rfl, rfl, rfl, rfl⟩
      usesFp := rfl }

theorem csrDecoded (csr : isCsrInsn insn = true) (pc : BitVec 64) (isRvc : Bool) :
    CsrDecoded insn (decodeSlice insn pc isRvc) := by
  have kind := funct3_cases csr
  simp only [isCsrInsn, Bool.and_eq_true, bne_iff_ne, beq_iff_eq] at csr
  obtain ⟨⟨system, priv⟩, -⟩ := csr
  have eq : decodeOpcode insn (defaults insn pc isRvc) = decodeCsr insn (defaults insn pc isRvc) := by
    unfold decodeOpcode
    rw [system]
    exact if_neg priv
  unfold decodeSlice
  rw [eq]
  exact (csrDecoded_decodeCsr kind pc isRvc).suppressRd

-- ---------------------------------------------------------------------
-- The check at issue
-- ---------------------------------------------------------------------

variable {s t : CsrFile} {q : CsrIssue}

theorem counterDisabled_iff (s : CsrFile) (addr : BitVec 12) :
    s.csrCounterIllegal addr = true ↔ counterDisabled s addr := by
  have rule (bit : Nat) : (if s.priv = privS then !s.mcounteren.getLsbD bit
      else if s.priv = privU then !s.mcounteren.getLsbD bit || !s.scounteren.getLsbD bit
      else false) = true ↔ s.priv = privS ∧ s.mcounteren.getLsbD bit = false ∨
        s.priv = privU ∧ (s.mcounteren.getLsbD bit = false ∨ s.scounteren.getLsbD bit = false) := by
    have levels : ¬privS = privU := by decide
    by_cases supervisor : s.priv = privS
    · simp [supervisor, levels]
    · by_cases user : s.priv = privU <;> simp [supervisor, user]
  unfold CsrFile.csrCounterIllegal CsrFile.csrCounterBit counterDisabled
  constructor
  · split
    · simp
    · rename_i bit found
      intro disabled
      have rights := (rule bit).mp disabled
      split_ifs at found with cycle time instret
      · obtain rfl := Option.some.inj found
        exact ⟨0, by decide, cycle, rights⟩
      · obtain rfl := Option.some.inj found
        exact ⟨1, by decide, time, rights⟩
      · obtain rfl := Option.some.inj found
        exact ⟨2, by decide, instret, rights⟩
  · rintro ⟨bit, small, rfl, rights⟩
    obtain rfl | rfl | rfl : bit = 0 ∨ bit = 1 ∨ bit = 2 := by omega
    · exact (rule 0).mpr rights
    · exact (rule 1).mpr rights
    · exact (rule 2).mpr rights

theorem readIllegal_iff (s : CsrFile) (addr : BitVec 12) (intent : Bool) :
    s.readIllegal addr intent = true ↔ CsrFile.csrView addr = none ∨
      s.priv < addr.extractLsb' 8 2 ∨ counterDisabled s addr ∨
      (intent && readOnlyAddr addr) = true := by
  have exists_ : (!CsrFile.csrAddrSupported addr) = true ↔ CsrFile.csrView addr = none := by
    rw [CsrFile.csrAddrSupported_eq]
    cases CsrFile.csrView addr <;> simp
  simp only [CsrFile.readIllegal, Bool.or_eq_true, exists_, ← counterDisabled_iff,
    CsrFile.csrPrivIllegal, decide_eq_true_eq, CsrFile.csrReadonlyIllegal, readOnlyAddr]
  tauto

/-- The intent to write is an architectural write that is not silent. -/
theorem writeIntent_iff (dec : CsrDecoded insn d) (zero : rs1 insn = 0 → v = 0) :
    (csrIssue d v).writeIntent = true ↔ archWrites insn = true ∧ ¬SilentWrite insn v := by
  have named : archOp insn ≠ .none := by
    unfold archOp
    dsimp only
    split_ifs <;> exact nofun
  have source : archOperand insn v ≠ 0 → rs1 insn ≠ 0 := by
    intro some none
    refine some ?_
    unfold archOperand
    split
    · rw [none]
      rfl
    · exact zero none
  have op : (csrIssue d v).csrOp = archOp insn := dec.csrOp
  simp only [CsrIssue.writeIntent, op, dec.operand, SilentWrite, archWrites, Bool.and_eq_true,
    Bool.or_eq_true, bne_iff_ne, beq_iff_eq, ne_eq, named, not_false_eq_true, true_and]
  by_cases replaces : archOp insn = .rw
  · simp [replaces]
  · simp only [replaces, false_or, not_false_eq_true, true_and]
    constructor
    · exact fun some => ⟨source some, fun silent => some silent.2⟩
    · rintro ⟨names, loud⟩ none
      exact loud ⟨names, none⟩

-- ---------------------------------------------------------------------
-- Waiting
-- ---------------------------------------------------------------------

variable {x : CoreIn}

theorem count_eq_tick (g : (commitIn s x).Retired r) :
    s.count (csrIn s x) = s.tick ((List.range r).map fun i => (x.head i).insns).sum := by
  rw [CsrFile.count, CsrFile.tick, retiredCount_eq g]

/-- Behind a head that is not ready nothing leaves. -/
theorem commitCount_unready (unready : (x.head 0).ready = false) :
    (commitIn s x).commitCount = 0 := by
  by_contra some
  have leaves := Nat.lt_of_lt_of_le (Nat.pos_of_ne_zero some) (commitCount_le_scan _)
  cases unready.symm.trans ((scanOk (commitIn s x)).ready 0 leaves).2

theorem retired_idle (none : (commitIn s x).commitCount = 0) : (commitIn s x).Retired 0 := by
  obtain ⟨r, g⟩ := exists_retired (commitIn s x)
  rcases g.leaves with ⟨count, -⟩ | ⟨count, -⟩
  · obtain rfl := count.symm.trans none
    exact g
  · omega

theorem next_idle (none : (commitIn s x).commitCount = 0)
    (quiet : (csrIn s x).trapValid = false) : privilegeRuns.next s x = s.tick 0 := by
  have stays (i : Nat) : ((commitIn s x).commitOut i).valid = false := by
    by_contra leaves
    simp only [Bool.not_eq_false, commitOut_valid, none] at leaves
    exact Nat.not_lt_zero i leaves
  have write : (csrIn s x).writeValid = false := by
    simp [csrIn, csrCommitValid, none]
  have mret : (csrIn s x).mretValid = false := by
    simp [csrIn, mretCommit, none]
  have sret : (csrIn s x).sretValid = false := by
    simp [csrIn, sretCommit, none]
  have flags : (csrIn s x).fflagsAccValid = false := by
    simp [csrIn, fpFflagsCommitBits, stays]
  have dirty : (csrIn s x).fpStateDirty = false := by
    simp [csrIn, fpStateDirtyCommit, stays]
  rw [next_plain quiet mret sret, write, count_eq_tick (retired_idle none)]
  simp [CsrFile.accrueFp, flags, dirty]

theorem tick_zero (s : CsrFile) : s.tick 0 = { s with mcycle := (s.tick 0).mcycle } := by
  simp [CsrFile.tick]

/-- Only `mcycle` moves while the head is waited for. -/
theorem Waits.ticks {xs : List CoreIn} (waits : Waits s xs t) : t = { s with mcycle := t.mcycle } := by
  induction waits with
  | done => rfl
  | @cycle x s xs t unready quiet rest ih =>
    rw [next_idle (commitCount_unready unready) quiet, tick_zero] at ih
    exact ih

-- ---------------------------------------------------------------------
-- Refused
-- ---------------------------------------------------------------------

/-- An entry that is due with an illegal instruction only traps. -/
theorem trapsOnly_of_due (due : (commitIn t x).Due k) (exception : (x.head k).hasException = true)
    (code : (x.head k).excCode = excIllegalInsn) (plain : (x.head k).isEcall = false)
    (noFence : (x.head k).isSfenceVma = false) : TrapsOnly t x k := by
  have stays : (x.head k).replays = false := by
    rw [HeadEntry.replays, code]
    exact Bool.and_false _
  have raises : (commitIn t x).Raises .exception k := by
    refine .entry due ?_ fun waits => ?_
    · change (!(x.head k).replays && (x.head k).hasException) = true
      rw [stays, exception]
      rfl
    · change ((x.head k).isSerializing && !(x.head k).hasException) = true at waits
      simp [exception] at waits
  have traps := (traps_iff _ k).mpr raises
  obtain ⟨r, g⟩ := exists_retired (commitIn t x)
  obtain rfl := retired_before_trap traps g
  obtain ⟨valid, cause, -, -⟩ := (trapsOnce _).entered r traps t x
  have trap : (csrIn t x).trapValid = true := valid
  refine ⟨⟨trap, ?_⟩, g.slots, ?_, ?_⟩
  · change (trapOf t x (commitIn t x)).cause = _
    rw [cause]
    change (if (x.head r).isEcall then _ else (x.head r).excCode).setWidth 64 = _
    rw [plain, code]
    rfl
  · have next : privilegeRuns.next t x = (t.count (csrIn t x)).trapEntry (csrIn t x) := by
      simp [privilegeRuns, CsrFile.next, trap]
    rw [next, count_eq_tick g]
  · have noSerial : (x.head 0).isSfenceVma = false ∧ (commitIn t x).csrCommitValid = false := by
      rcases Nat.eq_zero_or_pos r with rfl | later
      · exact ⟨noFence, by simp [csrCommitValid, commitIn, exception]⟩
      · have first := due.passes.plain 0 later
        simp only [HeadEntry.isSerializing, Bool.or_eq_false_iff] at first
        exact ⟨first.1.1.2, by simp [csrCommitValid, first.1.1.1.1.1.1.1]⟩
    have head : ((commitIn t x).head 0).isSfenceVma = false := noSerial.1
    simp [translationTlbInvalidate, sfenceVmaCommit, satpCommitValid, head, noSerial.2]

-- ---------------------------------------------------------------------
-- Retired
-- ---------------------------------------------------------------------

/-- A serializing instruction without an exception that may leave retires alone. -/
theorem retires_alone (leave : (commitIn t x).MayLeave 0) (clean : (x.head 0).hasException = false)
    (serial : (x.head 0).isSerializing = true) :
    (commitIn t x).Retired 1 ∧ (csrIn t x).trapValid = false := by
  have passes : (commitIn t x).Passes 0 := ⟨nofun, nofun, nofun, nofun⟩
  have due : (commitIn t x).Due 0 := ⟨by decide, passes, leave⟩
  have waits : ((commitIn t x).head 0).waits = true := by
    change ((x.head 0).isSerializing && !(x.head 0).hasException) = true
    rw [serial, clean]
    rfl
  have quiet : (commitIn t x).takeInterrupt = false := by
    have atHead := (serializingAtHead_iff (c := commitIn t x) clean).mpr ⟨due, waits⟩
    simp [takeInterrupt, atHead]
  obtain ⟨r, g⟩ := exists_retired (commitIn t x)
  have longest := g.longest quiet
  have some : 1 ≤ r := longest.2 (passes.mayRetire_succ (by decide) leave clean fun _ => rfl)
  obtain rfl := longest.1.alone 0 some serial
  refine ⟨g, ?_⟩
  by_contra trap
  simp only [Bool.not_eq_false, trapValid_iff, quiet, Bool.false_eq_true, false_or] at trap
  obtain ⟨i, traps⟩ := trap
  obtain rfl := retired_before_trap traps g
  cases (traps_iff _ _).mp traps with
  | entry due asks turn =>
    have plain := due.passes.plain 0 (by decide)
    change (x.head 0).isSerializing = false at plain
    rw [serial] at plain
    cases plain

/-- What the file does in the cycle a CSR instruction retires. -/
theorem next_of_csr (g : (commitIn t x).Retired 1) (quiet : (csrIn t x).trapValid = false)
    (csr : (x.head 0).isCsr = true)
    (noReturn : (x.head 0).isMret = false ∧ (x.head 0).isSret = false)
    (noFlags : (x.head 0).fpFflags = 0) (marked : (x.head 0).isFpInstr = isFpCsr addr) :
    privilegeRuns.next t x =
      if (x.head 0).csrWe then
        t.csrWrite (CsrFile.fpMark addr (t.count (csrIn t x))) (csrIn t x)
      else CsrFile.fpMark addr (t.count (csrIn t x)) := by
  have none (i : Nat) : ¬(commitIn t x).Traps i := fun traps => by
    cases quiet.symm.trans ((trapValid_iff t x).mpr (.inr ⟨i, traps⟩))
  have count : (commitIn t x).commitCount = 1 := by
    rcases g.leaves with ⟨count, -⟩ | ⟨-, traps⟩
    · exact count
    · exact absurd traps (none 1)
  have mret : (csrIn t x).mretValid = false := by
    change mretCommit (commitIn t x) = false
    simp [mretCommit, commitIn, noReturn.1]
  have sret : (csrIn t x).sretValid = false := by
    change sretCommit (commitIn t x) = false
    simp [sretCommit, commitIn, noReturn.2]
  have write : (csrIn t x).writeValid = (x.head 0).csrWe := by
    rw [Bool.eq_iff_iff]
    refine g.csr.trans ⟨?_, fun we => ⟨0, by decide, csr, we⟩⟩
    rintro ⟨i, first, -, we⟩
    obtain rfl := Nat.lt_one_iff.mp first
    exact we
  have flags : (csrIn t x).fflagsAccValid = false := by
    change (fpFflagsCommitBits (commitIn t x) != 0) = false
    rw [fpFflagsCommitBits_eq g none]
    change (0 ||| (x.head 0).fpFflags != 0) = false
    rw [noFlags]
    rfl
  have dirty : (csrIn t x).fpStateDirty = isFpCsr addr := by
    change ((List.range pipeWidth).any fun i =>
      ((commitIn t x).commitOut i).valid && (x.head i).isFpInstr) = isFpCsr addr
    rw [← marked, Bool.eq_iff_iff]
    simp only [List.any_eq_true, List.mem_range, Bool.and_eq_true, commitOut_valid, count]
    constructor
    · rintro ⟨i, -, first, fp⟩
      obtain rfl := Nat.lt_one_iff.mp first
      exact fp
    · intro fp
      exact ⟨0, by decide, by decide, fp⟩
  have accrued : (t.count (csrIn t x)).accrueFp (csrIn t x) =
      CsrFile.fpMark addr (t.count (csrIn t x)) := by
    simp only [CsrFile.accrueFp, flags, dirty, CsrFile.fpMark, Bool.false_eq_true, if_false]
    split <;> rfl
  rw [next_plain quiet mret sret, write, accrued]

-- ---------------------------------------------------------------------
-- The value written
-- ---------------------------------------------------------------------

/-- A write is as the architecture has it unless a later count of `mcycle` shows in it. -/
theorem written_iff {i : CsrIn} {view : CsrView} (ticks : t = { s with mcycle := t.mcycle })
    (found : CsrFile.csrView i.writeAddr = some view) (writable : readOnlyAddr i.writeAddr = false)
    (count : t.count i = t.tick 1) :
    (t.csrWrite (CsrFile.fpMark i.writeAddr (t.count i)) i).shown =
        (view.put (CsrFile.fpMark i.writeAddr (t.tick 1))
          (CsrFile.applyOp i.writeOp (view.held s) i.writeData)).shown ↔
      (i.writeAddr = csrMcycle → CsrFile.applyOp i.writeOp s.mcycle i.writeData =
        CsrFile.applyOp i.writeOp t.mcycle i.writeData) := by
  have free : i.writeAddr.extractLsb' 10 2 ≠ 0b11#2 := by
    simpa [readOnlyAddr] using writable
  rw [CsrFile.csrWrite_view t i _ (CsrFile.mem_of_csrView found) rfl free, count]
  dsimp only
  by_cases cycle : i.writeAddr = csrMcycle
  · rw [cycle, CsrFile.csrView_mcycle] at found
    obtain rfl := Option.some.inj found
    simp only [cycle, forall_const]
    constructor
    · intro same
      exact (congrArg CsrFile.mcycle same).symm
    · intro same
      change CsrFile.shown { CsrFile.fpMark csrMcycle (t.tick 1) with
        mcycle := CsrFile.applyOp i.writeOp t.mcycle i.writeData } = _
      rw [← same]
      rfl
  · have user : i.writeAddr ≠ csrCycle := fun h => by
      rw [h] at writable
      cases writable
    have held : view.held t = view.held s := by
      rw [ticks]
      exact CsrFile.held_mcycle s _ _ (CsrFile.mem_of_csrView found) cycle user
    simp only [cycle, held, false_implies]

/-- A write left out is as the architecture has it unless the register counts. -/
theorem silent_iff {i : CsrIn} {view : CsrView} (ticks : t = { s with mcycle := t.mcycle })
    (found : CsrFile.csrView addr = some view) (writable : readOnlyAddr addr = false)
    (count : t.count i = t.tick 1) :
    (CsrFile.fpMark addr (t.tick 1)).shown =
        (view.put (CsrFile.fpMark addr (t.tick 1)) (view.held s)).shown ↔
      (addr = csrMcycle → s.mcycle = (t.tick 1).mcycle) ∧
        (addr = csrMinstret → s.mcountinhibit.getLsbD 2 = true) := by
  by_cases cycle : addr = csrMcycle
  · subst cycle
    rw [CsrFile.csrView_mcycle] at found
    obtain rfl := Option.some.inj found
    have other : csrMcycle ≠ csrMinstret := by decide
    simp only [forall_const, other, false_implies, and_true]
    constructor
    · intro same
      exact (congrArg CsrFile.mcycle same).symm
    · intro same
      change _ = CsrFile.shown { CsrFile.fpMark csrMcycle (t.tick 1) with mcycle := s.mcycle }
      rw [same]
      rfl
  by_cases instret : addr = csrMinstret
  · subst instret
    rw [CsrFile.csrView_minstret] at found
    obtain rfl := Option.some.inj found
    simp only [cycle, false_implies, forall_const, true_and]
    have counted : (t.tick 1).minstret =
        if s.mcountinhibit.getLsbD 2 then s.minstret else s.minstret + 1 := by
      rw [ticks]
      rfl
    constructor
    · intro same
      have kept := congrArg CsrFile.minstret same
      change (t.tick 1).minstret = s.minstret at kept
      rw [counted] at kept
      by_contra running
      rw [if_neg running] at kept
      exact absurd kept (by grind)
    · intro inhibited
      rw [if_pos inhibited] at counted
      change _ = CsrFile.shown { CsrFile.fpMark csrMinstret (t.tick 1) with minstret := s.minstret }
      rw [← counted]
      rfl
  · have user : addr ≠ csrCycle := fun h => by
      rw [h] at writable
      cases writable
    have entry := CsrFile.mem_of_csrView found
    have held : view.held t = view.held s := by
      rw [ticks]
      exact CsrFile.held_mcycle s _ _ entry cycle user
    have same := CsrFile.put_held t i _ entry cycle instret
    simp only [CsrFile.PutsHeld, count, held] at same
    simp only [same, cycle, instret, false_implies, and_self]

-- ---------------------------------------------------------------------
-- Accepted and refused
-- ---------------------------------------------------------------------

variable {r : CsrFile} {x₀ : CoreIn} {w : CsrResult} {e : HeadEntry} {v time : Word}

/-- Rename refuses an access to a floating-point register while the unit is off. -/
theorem renamed_csr (csr : isCsrInsn insn = true) (r : CsrFile) (pc : BitVec 64) (isRvc : Bool) :
    renameDecIn r (decodeSlice insn pc isRvc) =
      if isFpCsr (funct12 insn) && r.fsOff then
        { decodeSlice insn pc isRvc with
          hasException := true, excCode := excIllegalInsn, excTval := 0 }
      else decodeSlice insn pc isRvc := by
  have dec := csrDecoded csr pc isRvc
  have off : ((decodeSlice insn pc isRvc).valid && !(decodeSlice insn pc isRvc).hasException &&
      usesFpState (decodeSlice insn pc isRvc) && r.fsOff) =
      (isFpCsr (funct12 insn) && r.fsOff) := by
    rw [dec.valid, dec.clean, dec.usesFp]
    rfl
  rw [renameDecIn, off]

theorem accepted_csr (csr : isCsrInsn insn = true)
    (decoded : d = renameDecIn r (decodeSlice insn pc isRvc)) (accepted : d.hasException = false) :
    CsrDecoded insn d ∧ ¬(isFpCsr (funct12 insn) = true ∧ r.fsOff = true) := by
  rw [renamed_csr csr] at decoded
  split at decoded
  · rw [decoded] at accepted
    cases accepted
  · rename_i off
    rw [decoded]
    exact ⟨csrDecoded csr pc isRvc, by simpa using off⟩

theorem refused_csr (csr : isCsrInsn insn = true)
    (decoded : d = renameDecIn r (decodeSlice insn pc isRvc)) (refused : d.hasException = true) :
    d.excCode = excIllegalInsn ∧ d.isEcall = false ∧ d.isSfenceVma = false ∧
      isFpCsr (funct12 insn) = true ∧ r.fsOff = true := by
  have dec := csrDecoded csr pc isRvc
  rw [renamed_csr csr] at decoded
  split at decoded
  · rename_i off
    obtain ⟨-, -, -, -, noFence, noEcall, -⟩ := dec.plain
    rw [decoded]
    exact ⟨rfl, noEcall, noFence, by simpa using off⟩
  · rw [decoded, dec.clean] at refused
    cases refused

/-- A refused access traps when it is due. -/
theorem right_of_refused (csr : isCsrInsn insn = true) (inForce : r.fsOff = t.fsOff)
    (decoded : d = renameDecIn r (decodeSlice insn pc isRvc)) (refused : d.hasException = true)
    (entry : x.head k = robAlloc d e) (due : (commitIn t x).Due k) :
    CsrRight insn v time t t x x k data ∧ AccessHolds t t insn v := by
  obtain ⟨code, noEcall, noFence, fp, off⟩ := refused_csr csr decoded refused
  have inaccessible : Inaccessible t (funct12 insn) :=
    .inr (.inr (.inr ⟨fp, inForce ▸ off⟩))
  have exception : (x.head k).hasException = true := by
    rw [entry]
    exact refused
  have illegal : (x.head k).excCode = excIllegalInsn := by
    rw [entry]
    exact code
  refine ⟨⟨?_, fun _ => ?_, fun legal => absurd (.inl inaccessible) legal⟩, .inl inaccessible⟩
  · exact iff_of_true ⟨exception, illegal⟩ (.inl inaccessible)
  · refine trapsOnly_of_due due exception illegal ?_ ?_
    · rw [entry]
      exact noEcall
    · rw [entry]
      exact noFence

/-- A CSR instruction with its result waits for nothing more. -/
theorem mayLeave_of_csr (dec : CsrDecoded insn d)
    (entry : x.head 0 = robWriteback w (robAlloc d e)) : (commitIn t x).MayLeave 0 := by
  obtain ⟨noFence, noFenceI, -, -, noSfence, -, -⟩ := dec.plain
  rw [mayLeave_iff]
  change (!(x.head 0).valid) = false ∧ (!(x.head 0).ready) = false ∧
    ((x.head 0).isFence && _) = false ∧ ((x.head 0).isFenceI && _) = false ∧
    ((x.head 0).isSfenceVma && _) = false
  rw [entry]
  simp [robWriteback, robAlloc, noFence, noFenceI, noSfence]

/-- An access the check at issue turns down traps too. -/
theorem traps_of_issued (dec : CsrDecoded insn d)
    (result : w = csrResult s x₀ time (csrIssue d v)) (entry : x.head 0 = robWriteback w (robAlloc d e))
    (illegal : (csrIssue d v).illegal s = true) :
    (x.head 0).hasException = true ∧ (x.head 0).excCode = excIllegalInsn ∧ TrapsOnly t x 0 := by
  obtain ⟨-, -, -, -, noSfence, noEcall, -⟩ := dec.plain
  have raised : w.hasException = true := by
    rw [result]
    exact illegal
  have exception : (x.head 0).hasException = true := by
    rw [entry]
    simp [robWriteback, raised]
  have code : (x.head 0).excCode = excIllegalInsn := by
    rw [entry]
    simp [robWriteback, result, csrResult, illegal]
  have due : (commitIn t x).Due 0 :=
    ⟨by decide, ⟨nofun, nofun, nofun, nofun⟩, mayLeave_of_csr dec entry⟩
  refine ⟨exception, code, trapsOnly_of_due due exception code ?_ ?_⟩
  · rw [entry]
    exact noEcall
  · rw [entry]
    exact noSfence

theorem applyOp_zero {op : CsrOp} (noSwap : op ≠ .rw) (cur : Word) :
    CsrFile.applyOp (csrOpCode op) cur 0 = cur := by
  cases op with
  | rw => exact absurd rfl noSwap
  | rs => exact BitVec.or_zero
  | rc => exact (congrArg (cur &&& ·) BitVec.not_zero).trans BitVec.and_allOnes
  | none => rfl

/-- What is asked of an accessible register, in the three ways an access can go. -/
theorem holds_of_read (none : archWrites insn = false) : AccessHolds s t insn v := by
  refine .inr ⟨fun silent => ?_, fun silent => ?_, fun _ _ writes => ?_⟩
  · cases none.symm.trans silent.1
  · cases none.symm.trans silent.1
  · cases none.symm.trans writes

theorem holds_iff_of_written (accessible : ¬Inaccessible s (funct12 insn))
    (writes : archWrites insn = true) (loud : ¬SilentWrite insn v) :
    AccessHolds s t insn v ↔ (funct12 insn = csrMcycle →
      CsrFile.applyOp (csrOpCode (archOp insn)) s.mcycle (archOperand insn v) =
        CsrFile.applyOp (csrOpCode (archOp insn)) t.mcycle (archOperand insn v)) := by
  simp only [AccessHolds, accessible, loud, false_implies, true_and, false_or, writes, forall_const]
  by_cases swap : archOp insn = .rw
  · simp [swap, csrOpCode, CsrFile.applyOp]
  · have some : ¬archOperand insn v = 0 := fun zero => loud ⟨writes, swap, zero⟩
    simp only [swap, some, not_false_eq_true, forall_const, if_false, ne_eq]

theorem holds_iff_of_silent (accessible : ¬Inaccessible s (funct12 insn))
    (silent : SilentWrite insn v) (writable : readOnlyAddr (funct12 insn) = false) :
    AccessHolds s t insn v ↔ (funct12 insn = csrMcycle → s.mcycle = (t.tick 1).mcycle) ∧
      (funct12 insn = csrMinstret → s.mcountinhibit.getLsbD 2 = true) := by
  obtain ⟨writes, noSwap, zero⟩ := silent
  simp only [AccessHolds, accessible, false_or, writable, implies_true, true_and, writes,
    SilentWrite, noSwap, zero, ne_eq, not_false_eq_true, and_self, forall_const, if_true,
    applyOp_zero noSwap]
  exact and_comm

/-- The cycle in which an access let through leaves. -/
structure AccessRetires (insn : BitVec 32) (v : Word) (d : DecodedInsn) (t : CsrFile) (x : CoreIn) :
    Prop where
  clean : (x.head 0).hasException = false
  group : (commitIn t x).Retired 1
  quiet : (csrIn t x).trapValid = false
  addr : (csrIn t x).writeAddr = funct12 insn
  op : (csrIn t x).writeOp = csrOpCode (archOp insn)
  operand : (csrIn t x).writeData = archOperand insn v
  count : t.count (csrIn t x) = t.tick 1
  next : privilegeRuns.next t x =
    if (csrIssue d v).writeIntent then
      t.csrWrite (CsrFile.fpMark (funct12 insn) (t.tick 1)) (csrIn t x)
    else CsrFile.fpMark (funct12 insn) (t.tick 1)

theorem retires_of_issued (dec : CsrDecoded insn d)
    (result : w = csrResult s x₀ time (csrIssue d v))
    (entry : x.head 0 = robWriteback w (robAlloc d e))
    (legal : (csrIssue d v).illegal s = false) : AccessRetires insn v d t x := by
  obtain ⟨-, -, noMret, noSret, -, -, noFused⟩ := dec.plain
  have clean : (x.head 0).hasException = false := by
    rw [entry]
    simp [robWriteback, robAlloc, dec.clean, result, csrResult, legal]
  have csr : (x.head 0).isCsr = true := by
    rw [entry]
    exact dec.isCsr
  obtain ⟨g, quiet⟩ := retires_alone (mayLeave_of_csr (t := t) dec entry) clean
    (serializing_of_kind (.inl csr))
  have marked : (x.head 0).isFpInstr = isFpCsr (funct12 insn) := by
    rw [entry]
    exact dec.usesFp
  have noReturn : (x.head 0).isMret = false ∧ (x.head 0).isSret = false := by
    rw [entry]
    exact ⟨noMret, noSret⟩
  have noFlags : (x.head 0).fpFflags = 0 := by
    rw [entry]
    rfl
  have we : (x.head 0).csrWe = (csrIssue d v).writeIntent := by
    rw [entry, result]
    change (!(csrIssue d v).illegal s && _ && _) = _
    rw [legal]
    rfl
  have count : t.count (csrIn t x) = t.tick 1 := by
    have one : (x.head 0).insns = 1 := by
      rw [entry]
      change (if d.isFused then 2 else 1) = 1
      rw [noFused]
      rfl
    rw [count_eq_tick g]
    simp [one]
  refine ⟨clean, g, quiet, ?_, ?_, ?_, count, ?_⟩
  · change (x.head 0).csrAddr = _
    rw [entry, ← dec.csrAddr, result]
    rfl
  · change (x.head 0).csrOp = _
    rw [entry, ← dec.csrOp, result]
    rfl
  · change (x.head 0).csrWdata = _
    rw [entry, ← dec.operand, result]
    rfl
  · rw [next_of_csr g quiet csr noReturn noFlags marked, we, count]

/-- An access let through retires, returns what its register showed and writes it back. -/
theorem performs_of_issued (dec : CsrDecoded insn d) (zero : rs1 insn = 0 → v = 0)
    (result : w = csrResult s x₀ time (csrIssue d v)) (waits : Waits s (x₀ :: xs) t)
    (entry : x.head 0 = robWriteback w (robAlloc d e))
    (legal : (csrIssue d v).illegal s = false) {view : CsrView}
    (found : CsrFile.csrView (funct12 insn) = some view)
    (accessible : ¬Inaccessible s (funct12 insn))
    (writable : archWrites insn = true → readOnlyAddr (funct12 insn) = false) :
    (x.head 0).hasException = false ∧ w.data = view.read s x₀.lines time ∧
      (commitIn t x).Retires 0 ∧ (csrIn t x).trapValid = false ∧
      ((privilegeRuns.next t x).shown = (archAccess view s t insn v).shown ↔
        AccessHolds s t insn v) := by
  have leaves := retires_of_issued (t := t) dec result entry legal
  refine ⟨leaves.clean, ?_, (leaves.group.slots 0).mpr (by decide), leaves.quiet, ?_⟩
  · cases waits with
    | cycle unready noTrap rest =>
      have idle : (csrIn s x₀).writeValid = false := by
        simp [csrIn, csrCommitValid, commitCount_unready (s := s) unready]
      have alone (addr : BitVec 12) : CsrFile.csrBypass addr (csrIn s x₀) = false := by
        simp [CsrFile.csrBypass, idle]
      rw [result, csrResult]
      change s.readData x₀.lines time d.csrAddr (csrIn s x₀) = _
      rw [dec.csrAddr]
      exact CsrFile.readData_view s _ _ _ alone _ (CsrFile.mem_of_csrView found)
  · have addr := leaves.addr
    have ticks := waits.ticks
    have intent := writeIntent_iff dec zero
    rw [leaves.next, archAccess]
    cases writes : (csrIssue d v).writeIntent with
    | true =>
      obtain ⟨arch, loud⟩ := intent.mp writes
      have written := written_iff (i := csrIn t x) ticks (addr ▸ found) (addr ▸ writable arch)
        leaves.count
      rw [addr, leaves.op, leaves.operand, leaves.count] at written
      rw [holds_iff_of_written accessible arch loud, arch]
      exact written
    | false =>
      cases arch : archWrites insn with
      | false => exact iff_of_true rfl (holds_of_read arch)
      | true =>
        have silent : SilentWrite insn v := by
          by_contra loud
          cases writes.symm.trans (intent.mpr ⟨arch, loud⟩)
        rw [holds_iff_of_silent accessible silent (writable arch), silent.2.2,
          applyOp_zero silent.2.1]
        exact silent_iff ticks found (writable arch) leaves.count

theorem illegal_of_inaccessible (dec : CsrDecoded insn d)
    (fpOn : ¬(isFpCsr (funct12 insn) = true ∧ s.fsOff = true))
    (inaccessible : Inaccessible s (funct12 insn)) : (csrIssue d v).illegal s = true := by
  change s.readIllegal d.csrAddr _ = true
  rw [dec.csrAddr]
  refine (readIllegal_iff s _ _).mpr ?_
  rcases inaccessible with none | low | counter | fp
  · exact .inl none
  · exact .inr (.inl low)
  · exact .inr (.inr (.inl counter))
  · exact absurd fp fpOn

/-- What is within reach is refused only as a write to a read-only address. -/
theorem illegal_of_accessible (dec : CsrDecoded insn d)
    (accessible : ¬Inaccessible s (funct12 insn)) : (csrIssue d v).illegal s =
      ((csrIssue d v).writeIntent && readOnlyAddr (funct12 insn)) := by
  change s.readIllegal d.csrAddr _ = _
  rw [dec.csrAddr, Bool.eq_iff_iff, readIllegal_iff]
  refine ⟨?_, fun readOnly => .inr (.inr (.inr readOnly))⟩
  rintro (none | low | counter | readOnly)
  · exact absurd (.inl none) accessible
  · exact absurd (.inr (.inl low)) accessible
  · exact absurd (.inr (.inr (.inl counter))) accessible
  · exact readOnly

theorem right_of_trap (dec : CsrDecoded insn d)
    (result : w = csrResult s x₀ time (csrIssue d v))
    (entry : x.head 0 = robWriteback w (robAlloc d e))
    (illegal : (csrIssue d v).illegal s = true) (arch : archIllegal s insn) :
    CsrRight insn v time s t x₀ x 0 w.data := by
  obtain ⟨exception, code, traps⟩ := traps_of_issued (t := t) dec result entry illegal
  exact ⟨iff_of_true ⟨exception, code⟩ arch, fun _ => traps, fun legal => absurd arch legal⟩

/-- A write to a read-only address is right unless it is silent. -/
theorem readOnly_right_iff (dec : CsrDecoded insn d) (zero : rs1 insn = 0 → v = 0)
    (result : w = csrResult s x₀ time (csrIssue d v))
    (entry : x.head 0 = robWriteback w (robAlloc d e))
    (accessible : ¬Inaccessible s (funct12 insn))
    (forbidden : (archWrites insn && readOnlyAddr (funct12 insn)) = true) :
    CsrRight insn v time s t x₀ x 0 w.data ↔ AccessHolds s t insn v := by
  obtain ⟨writes, readOnly⟩ := Bool.and_eq_true_iff.mp forbidden
  have arch : archIllegal s insn := .inr forbidden
  have rest := illegal_of_accessible (v := v) dec accessible
  have intent := writeIntent_iff dec zero
  by_cases silent : SilentWrite insn v
  · refine iff_of_false (fun right => ?_) ?_
    · have legal : (csrIssue d v).illegal s = false := by
        rw [rest]
        by_contra illegal
        simp only [Bool.not_eq_false, Bool.and_eq_true] at illegal
        exact (intent.mp illegal.1).2 silent
      have clean : (x.head 0).hasException = false := by
        rw [entry]
        simp [robWriteback, robAlloc, dec.clean, result, csrResult, legal]
      cases clean.symm.trans (right.illegal.mpr arch).1
    · rintro (h | ⟨writable, -, -⟩)
      · exact accessible h
      · cases readOnly.symm.trans (writable silent)
  · have illegal : (csrIssue d v).illegal s = true := by
      rw [rest, intent.mpr ⟨writes, silent⟩, readOnly]
      rfl
    refine iff_of_true (right_of_trap dec result entry illegal arch) ?_
    refine .inr ⟨fun h => absurd h silent, fun h => absurd h silent, fun counter => ?_⟩
    rw [counter] at readOnly
    cases readOnly

/-- An issued access is right unless a silent write or a count of `mcycle` comes in between. -/
theorem issued_right_iff (csr : isCsrInsn insn = true) (zero : rs1 insn = 0 → v = 0)
    (inForce : r.fsOff = s.fsOff)
    (decoded : d = renameDecIn r (decodeSlice insn pc isRvc)) (accepted : d.hasException = false)
    (result : w = csrResult s x₀ time (csrIssue d v)) (waits : Waits s (x₀ :: xs) t)
    (entry : x.head 0 = robWriteback w (robAlloc d e)) :
    CsrRight insn v time s t x₀ x 0 w.data ↔ AccessHolds s t insn v := by
  obtain ⟨dec, fpOn⟩ := accepted_csr csr decoded accepted
  rw [inForce] at fpOn
  by_cases inaccessible : Inaccessible s (funct12 insn)
  · have illegal : (csrIssue d v).illegal s = true := illegal_of_inaccessible dec fpOn inaccessible
    exact iff_of_true (right_of_trap dec result entry illegal (.inl inaccessible))
      (.inl inaccessible)
  by_cases forbidden : (archWrites insn && readOnlyAddr (funct12 insn)) = true
  · exact readOnly_right_iff dec zero result entry inaccessible forbidden
  · have arch : ¬archIllegal s insn := by
      rintro (h | h)
      · exact inaccessible h
      · exact forbidden h
    obtain ⟨view, found⟩ : ∃ view, CsrFile.csrView (funct12 insn) = some view := by
      refine Option.ne_none_iff_exists'.mp fun none => inaccessible (.inl none)
    have writable (writes : archWrites insn = true) : readOnlyAddr (funct12 insn) = false := by
      by_contra readOnly
      simp only [Bool.not_eq_false] at readOnly
      exact forbidden (by rw [writes, readOnly]; rfl)
    have legal : (csrIssue d v).illegal s = false := by
      rw [illegal_of_accessible dec inaccessible]
      by_contra illegal
      simp only [Bool.not_eq_false, Bool.and_eq_true] at illegal
      have writes := ((writeIntent_iff dec zero).mp illegal.1).1
      cases illegal.2.symm.trans (writable writes)
    obtain ⟨clean, data, retires, quiet, final⟩ :=
      performs_of_issued dec zero result waits entry legal found inaccessible writable
    rw [← final]
    constructor
    · intro right
      obtain ⟨other, found', -, -, -, same⟩ := right.performs arch
      obtain rfl := Option.some.inj (found.symm.trans found')
      exact same
    · intro same
      refine ⟨iff_of_false (fun h => ?_) arch, fun h => absurd h arch, fun _ => ?_⟩
      · cases clean.symm.trans h.1
      · exact ⟨view, found, data, retires, quiet, same⟩

-- ---------------------------------------------------------------------
-- SFENCE.VMA
-- ---------------------------------------------------------------------

/-- The decoded fields of an SFENCE.VMA. -/
structure SfenceDecoded (d : DecodedInsn) : Prop where
  clean : d.hasException = false
  isSfenceVma : d.isSfenceVma = true
  noFenceI : d.isFenceI = false
  noFp : usesFpState d = false

theorem SfenceDecoded.suppressRd (h : SfenceDecoded d) : SfenceDecoded (suppressRd insn d) := by
  unfold Decode.suppressRd
  dsimp only
  split_ifs <;> exact ⟨h.clean, h.isSfenceVma, h.noFenceI, h.noFp⟩

theorem sfenceDecoded (sfence : isSfenceInsn insn = true) (pc : BitVec 64) (isRvc : Bool) :
    SfenceDecoded (decodeSlice insn pc isRvc) := by
  simp only [isSfenceInsn, Bool.and_eq_true, beq_iff_eq] at sfence
  obtain ⟨⟨⟨system, priv⟩, f7⟩, noRd⟩ := sfence
  have eq : decodeOpcode insn (defaults insn pc isRvc) =
      { defaults insn pc isRvc with fuType := .alu, isFence := true, isSfenceVma := true } := by
    unfold decodeOpcode
    rw [system]
    change decodeSystem insn (defaults insn pc isRvc) = _
    rw [decodeSystem, if_pos priv, if_pos ⟨f7, noRd⟩]
  unfold decodeSlice
  rw [eq]
  exact SfenceDecoded.suppressRd ⟨rfl, rfl, rfl, rfl⟩

/-- An SFENCE.VMA retires and removes the translations at every level. -/
theorem sfence_performs (runs : SfenceRuns insn t x) : (x.head 0).hasException = false ∧
    (commitIn t x).Retires 0 ∧ (csrIn t x).trapValid = false ∧
    translationTlbInvalidate (commitIn t x) = true := by
  obtain ⟨r, pc, isRvc, e, entry⟩ := runs.entry
  obtain ⟨fenceReady, sfenceReady⟩ := runs.drained
  have dec := sfenceDecoded runs.sfence pc isRvc
  have same : renameDecIn r (decodeSlice insn pc isRvc) = decodeSlice insn pc isRvc := by
    simp [renameDecIn, dec.noFp]
  rw [same] at entry
  have clean : (x.head 0).hasException = false := by
    rw [entry]
    exact dec.clean
  have sfence : (x.head 0).isSfenceVma = true := by
    rw [entry]
    exact dec.isSfenceVma
  have leave : (commitIn t x).MayLeave 0 := by
    rw [mayLeave_iff]
    change (!(x.head 0).valid) = false ∧ (!(x.head 0).ready) = false ∧
      ((x.head 0).isFence && !x.fenceIReady) = false ∧
      ((x.head 0).isFenceI && !x.fenceIReady) = false ∧
      ((x.head 0).isSfenceVma && !x.sfenceVmaReady) = false
    rw [entry]
    simp [robAlloc, fenceReady, sfenceReady]
  have serial : (x.head 0).isSerializing = true := by simp [HeadEntry.isSerializing, sfence]
  obtain ⟨g, quiet⟩ := retires_alone leave clean serial
  have leaves := (g.slots 0).mpr (by decide)
  refine ⟨clean, leaves, quiet, ?_⟩
  have some : (commitIn t x).commitCount > 0 := (commitOut_valid _ 0).mp leaves.1
  have atHead : ((commitIn t x).head 0).isSfenceVma = true := sfence
  simp [translationTlbInvalidate, sfenceVmaCommit, some, leaves.1, atHead]

theorem sfence_right_iff (runs : SfenceRuns insn t x) : SfenceRight t x ↔ t.priv ≠ privU := by
  obtain ⟨clean, retires, quiet, removes⟩ := sfence_performs runs
  constructor
  · intro right user
    cases clean.symm.trans (right.illegal.mpr user).1
  · intro above
    refine ⟨iff_of_false (fun h => ?_) above, fun user => absurd user above,
      fun _ => ⟨retires, quiet, removes⟩⟩
    cases clean.symm.trans h.1

-- ---------------------------------------------------------------------
-- Every access
-- ---------------------------------------------------------------------

/-- A CSR instruction does what the architecture says, and an SFENCE.VMA too, exactly where the
conditions hold. -/
theorem csr_access_right_iff (insn : BitVec 32) (t : CsrFile) (x : CoreIn) :
    (∀ v time s x₀ k data, isCsrInsn insn = true → (rs1 insn = 0 → v = 0) →
      CsrRuns insn v time s t x₀ x k data →
        (CsrRight insn v time s t x₀ x k data ↔ AccessHolds s t insn v)) ∧
      (SfenceRuns insn t x → (SfenceRight t x ↔ t.priv ≠ privU)) := by
  refine ⟨?_, fun runs => sfence_right_iff runs⟩
  intro v time s x₀ k data csr zero runs
  cases runs with
  | issued inForce decoded accepted result waits entry =>
    exact issued_right_iff csr zero inForce decoded accepted result waits entry
  | refused inForce decoded refused entry due =>
    obtain ⟨right, holds⟩ := right_of_refused csr inForce decoded refused entry due
    exact iff_of_true right holds

/-- CSRRS x1, cycle, x5. -/
def setCycle : BitVec 32 := 0xC002A0F3

def sfenceVma : BitVec 32 := 0x12000073

/-- The window of an instruction that waits for its result. -/
def waitFor (insn : BitVec 32) : CoreIn :=
  { retireAlone insn with
    head := fun i => { entryOf (decodeSlice insn 0 false) (i == 0) with ready := false } }

/-- The window of an SFENCE.VMA that is done. -/
def sfenceWindow : CoreIn :=
  { retireAlone sfenceVma with
    head := fun i =>
      let d := decodeSlice sfenceVma 0 false
      { robAlloc d (entryOf d true) with ready := true, valid := i == 0 } }

/-- With zero in `x5` the write of a read-only counter goes unnoticed, and user mode may remove
translations. -/
theorem silent_write_of_cycle :
    (∃ x t data, CsrRuns setCycle 0 0 .reset t (waitFor setCycle) x 0 data ∧
      ¬CsrRight setCycle 0 0 .reset t (waitFor setCycle) x 0 data) ∧
    SfenceRuns sfenceVma droppedToUser sfenceWindow ∧ droppedToUser.priv = privU ∧
      ¬SfenceRight droppedToUser sfenceWindow := by
  have user : droppedToUser.priv = privU := by decide +kernel
  refine ⟨?_, ⟨by decide, ?_, ⟨rfl, rfl⟩⟩, user, fun right => ?_⟩
  · let d := decodeSlice setCycle 0 false
    let w := csrResult .reset (waitFor setCycle) 0 (csrIssue d 0)
    let x : CoreIn := { retireAlone setCycle with
      head := fun i => { robWriteback w (robAlloc d (entryOf d true)) with valid := i == 0 } }
    have csr : isCsrInsn setCycle = true := by decide
    have decoded : d = renameDecIn .reset (decodeSlice setCycle 0 false) := by
      rw [renamed_csr csr, if_neg (by decide)]
    have entry : x.head 0 = robWriteback w (robAlloc d (entryOf d true)) := rfl
    have waits : Waits .reset [waitFor setCycle] (privilegeRuns.next .reset (waitFor setCycle)) :=
      .cycle rfl (by decide +kernel) .done
    refine ⟨x, _, _, .issued rfl decoded rfl rfl waits entry, fun right => ?_⟩
    have illegal : archIllegal .reset setCycle := .inr (by decide)
    have raised := (right.illegal.mpr illegal).1
    have clean : (x.head 0).hasException = false := by decide +kernel
    cases clean.symm.trans raised
  · exact ⟨.reset, 0, false, entryOf (decodeSlice sfenceVma 0 false) true, rfl⟩
  · have raised := (right.illegal.mpr user).1
    have clean : (sfenceWindow.head 0).hasException = false := by decide +kernel
    cases clean.symm.trans raised

end Rv64gc.Csr
