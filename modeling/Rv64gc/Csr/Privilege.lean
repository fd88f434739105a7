import Rv64gc.Hdl.Machine
import Rv64gc.Backend.Commit
import Rv64gc.Csr.CsrFile
import Rv64gc.Decode.DecodeSlice

/-!
# Privilege over whole runs

Commit and the CSR file wired together as in the core: the entries at the head of the ROB are the
input of a cycle, the CSR file is the state. A trap return takes the privilege from `mstatus`
without asking where it is executed, so privilege is confined exactly as long as no return
retires below the level it belongs to and MPP never holds the reserved level.
-/

namespace Rv64gc.Csr

open Hdl Backend Decode

-- ---------------------------------------------------------------------
-- The wiring between commit and the CSR file
-- ---------------------------------------------------------------------

structure CoreIn where
  headIdx : RobIdx
  head : Nat → HeadEntry
  fenceIReady : Bool
  sfenceVmaReady : Bool
  lines : IrqLines

def commitIn (s : CsrFile) (x : CoreIn) : CommitIn where
  headIdx := x.headIdx
  head := x.head
  fenceIReady := x.fenceIReady
  sfenceVmaReady := x.sfenceVmaReady
  mtvec := s.mtvec
  stvec := s.stvec
  mepc := s.mepc
  sepc := s.sepc
  privMode := s.priv
  medeleg := s.medeleg
  irqPending := (s.irq x.lines).pending
  irqCause := (s.irq x.lines).cause
  irqToSupervisor := (s.irq x.lines).toSupervisor

/-- The first entry that leaves with an exception. -/
def trapSlot (c : CommitIn) : Option Nat :=
  (List.range pipeWidth).find? fun i => (c.commitOut i).valid && (c.head i).hasException

def ecallCause (priv : BitVec 2) : BitVec 4 :=
  if priv = privU then excEcallU else if priv = privS then excEcallS else excEcallM

structure Trap where
  valid : Bool
  cause : Word
  pc : Word
  val : Word

def trapOf (s : CsrFile) (x : CoreIn) (c : CommitIn) : Trap :=
  if c.flushOut.valid && c.flushOut.fullFlush then
    match trapSlot c with
    | some i =>
      let e := c.head i
      let code := if e.isEcall then ecallCause s.priv else e.excCode
      ⟨true, code.setWidth 64, e.trapPc, e.excTval⟩
    | none =>
      if c.takeInterrupt then ⟨true, (s.irq x.lines).cause, (c.head 0).trapPc, 0⟩
      else ⟨false, 0, 0, 0⟩
  else ⟨false, 0, 0, 0⟩

def mretCommit (c : CommitIn) : Bool :=
  decide (c.commitCount > 0) && (c.head 0).isMret && (c.commitOut 0).valid

def sretCommit (c : CommitIn) : Bool :=
  decide (c.commitCount > 0) && (c.head 0).isSret && (c.commitOut 0).valid

def fpFflagsCommitBits (c : CommitIn) : BitVec 5 :=
  (List.range pipeWidth).foldl
    (fun bits i => if (c.commitOut i).valid then bits ||| (c.head i).fpFflags else bits) 0

def fpStateDirtyCommit (c : CommitIn) : Bool :=
  (List.range pipeWidth).any fun i => (c.commitOut i).valid && (c.head i).isFpInstr

def csrIn (s : CsrFile) (x : CoreIn) : CsrIn :=
  let c := commitIn s x
  let trap := trapOf s x c
  { writeValid := c.csrCommitValid
    writeAddr := (c.head 0).csrAddr
    writeData := (c.head 0).csrWdata
    writeOp := (c.head 0).csrOp
    fflagsAccValid := fpFflagsCommitBits c != 0
    fflagsAccBits := fpFflagsCommitBits c
    fpStateDirty := fpStateDirtyCommit c
    trapValid := trap.valid
    trapCause := trap.cause
    trapPc := trap.pc
    trapVal := trap.val
    trapToSupervisor := c.trapToSupervisor
    mretValid := mretCommit c
    sretValid := sretCommit c
    insnRetiredCount := BitVec.ofNat 4 c.insnRetiredCount }

/-- The entry carries the marks of the decoded instruction. No functional unit reports an exception
for a trap return, so there the exception is decode's as well. -/
structure CarriesMarks (e : HeadEntry) (d : DecodedInsn) : Prop where
  mret : e.isMret = d.isMret
  sret : e.isSret = d.isSret
  clean : isTrapReturn d = true → e.hasException = d.hasException

def privilegeRuns : Machine CsrFile CoreIn where
  reset := .reset
  next s x := s.next (csrIn s x)
  legal _ x := ∀ i, ∃ insn pc isRvc, CarriesMarks (x.head i) (decodeSlice insn pc isRvc)

theorem return_clean (legal : privilegeRuns.legal s x)
    (ret : (x.head i).isMret = true ∨ (x.head i).isSret = true) :
    (x.head i).hasException = false := by
  obtain ⟨insn, pc, isRvc, marks⟩ := legal i
  have ret : isTrapReturn (decodeSlice insn pc isRvc) = true := by
    rw [marks.mret, marks.sret] at ret
    simpa [isTrapReturn] using ret
  rw [marks.clean ret, decodeSlice_return_clean ret]

-- ---------------------------------------------------------------------
-- Privilege in one cycle
-- ---------------------------------------------------------------------

def LegalPriv (priv : BitVec 2) : Prop := priv = privU ∨ priv = privS ∨ priv = privM

/-- Slot `i` leaves with an illegal-instruction exception and a trap is entered for it, so that
nothing the instruction itself would do happens. -/
def RaisesIllegal (s : CsrFile) (x : CoreIn) (i : Nat) : Prop :=
  (x.head i).hasException = true ∧ (x.head i).excCode = excIllegalInsn ∧
    (csrIn s x).trapValid = true

/-- What the architecture asks of one cycle: the privilege stays one of the three levels, rises
only by a trap, and a return executed below its level is illegal. -/
structure Confined (s : CsrFile) (x : CoreIn) : Prop where
  level : LegalPriv (privilegeRuns.next s x).priv
  rises : s.priv < (privilegeRuns.next s x).priv → (csrIn s x).trapValid = true
  mret : ∀ i, ((commitIn s x).commitOut i).valid = true → (x.head i).isMret = true →
    s.priv ≠ privM → RaisesIllegal s x i
  sret : ∀ i, ((commitIn s x).commitOut i).valid = true → (x.head i).isSret = true →
    s.priv = privU → RaisesIllegal s x i

/-- No MRET retires below machine mode or with the reserved level in MPP, no SRET retires in user
mode. -/
def ReturnsPermitted (s : CsrFile) (x : CoreIn) : Prop :=
  (∀ i, ((commitIn s x).commitOut i).valid = true → (x.head i).isMret = true →
    s.priv = privM ∧ s.mpp ≠ 2) ∧
  (∀ i, ((commitIn s x).commitOut i).valid = true → (x.head i).isSret = true → s.priv ≠ privU)

theorem csrWrite_priv (s t : CsrFile) (i : CsrIn) : (s.csrWrite t i).priv = t.priv := by
  unfold CsrFile.csrWrite
  simp only [apply_ite CsrFile.priv, ite_self]

/-- Where the privilege comes from. -/
theorem next_priv (s : CsrFile) (i : CsrIn) :
    (s.next i).priv =
      if i.trapValid then if i.trapToSupervisor then privS else privM
      else if i.mretValid then s.mpp
      else if i.sretValid then if s.spp then privS else privU
      else s.priv := by
  unfold CsrFile.next
  cases i.trapValid with
  | true =>
    simp only [if_true, CsrFile.trapEntry]
    split <;> rfl
  | false =>
    cases i.mretValid with
    | true => rfl
    | false =>
      cases i.sretValid with
      | true => rfl
      | false =>
        cases i.writeValid with
        | true => exact csrWrite_priv _ _ _
        | false => rfl

theorem mretCommit_iff (c : CommitIn) :
    mretCommit c = true ↔ (c.commitOut 0).valid = true ∧ (c.head 0).isMret = true := by
  simp [mretCommit, CommitIn.commitOut_valid]
  tauto

theorem sretCommit_iff (c : CommitIn) :
    sretCommit c = true ↔ (c.commitOut 0).valid = true ∧ (c.head 0).isSret = true := by
  simp [sretCommit, CommitIn.commitOut_valid]
  tauto

/-- A return that leaves without an exception leaves alone, in slot 0. -/
theorem return_alone {c : CommitIn} (leaves : (c.commitOut i).valid = true)
    (ret : (c.head i).isMret = true ∨ (c.head i).isSret = true)
    (clean : (c.head i).hasException = false) :
    i = 0 ∧ trapSlot c = none ∧ c.takeInterrupt = false := by
  have serial : (c.head i).isSerializing = true := by
    rcases ret with h | h <;> simp [HeadEntry.isSerializing, h]
  have inCount := (CommitIn.commitOut_valid c i).mp leaves
  have inScan := Nat.lt_of_lt_of_le inCount c.commitCount_le_scan
  have ok := CommitIn.scanOk c
  obtain rfl := ok.alone i inScan serial clean
  have last : ¬1 < c.scan.count := fun more => by
    have := (ok.clean 0 inScan (.inl more)).2
    rw [serial] at this
    cases this
  refine ⟨rfl, ?_, ?_⟩
  · refine List.find?_eq_none.mpr fun j _ => ?_
    simp only [Bool.and_eq_true, CommitIn.commitOut_valid, not_and, Bool.not_eq_true]
    intro hj
    obtain rfl : j = 0 := by
      have := Nat.lt_of_lt_of_le hj c.commitCount_le_scan
      omega
    exact clean
  · simp only [CommitIn.commitOut, Bool.and_eq_true, Bool.not_eq_true'] at leaves
    exact leaves.2

theorem trapValid_of_return {s : CsrFile} {x : CoreIn}
    (leaves : ((commitIn s x).commitOut i).valid = true)
    (ret : (x.head i).isMret = true ∨ (x.head i).isSret = true)
    (clean : (x.head i).hasException = false) : (csrIn s x).trapValid = false := by
  obtain ⟨-, noTrap, noIrq⟩ := return_alone leaves ret clean
  simp only [csrIn, trapOf, noTrap, noIrq]
  split <;> rfl

theorem legalPriv_or_reserved (priv : BitVec 2) : LegalPriv priv ∨ priv = 2 := by
  unfold LegalPriv
  revert priv
  decide

/-- A cycle confines privilege iff the returns in it are permitted. -/
theorem confined_iff {s : CsrFile} {x : CoreIn} (level : LegalPriv s.priv)
    (legal : privilegeRuns.legal s x) : Confined s x ↔ ReturnsPermitted s x := by
  have next : (privilegeRuns.next s x).priv = _ := next_priv s (csrIn s x)
  constructor
  · intro confined
    refine ⟨fun i leaves ret => ?_, fun i leaves ret user => ?_⟩
    · have clean := return_clean legal (.inl ret)
      have machine : s.priv = privM := by
        by_contra below
        have raises := confined.mret i leaves ret below
        cases clean.symm.trans raises.1
      refine ⟨machine, fun reserved => ?_⟩
      obtain ⟨rfl, -, -⟩ := return_alone leaves (.inl ret) clean
      have mret : (csrIn s x).mretValid = true := (mretCommit_iff _).mpr ⟨leaves, ret⟩
      rw [trapValid_of_return leaves (.inl ret) clean, mret, reserved] at next
      have illegal := confined.level
      rw [next] at illegal
      rcases illegal with h | h | h <;> cases h
    · have raises := confined.sret i leaves ret user
      cases (return_clean legal (.inr ret)).symm.trans raises.1
  · rintro ⟨mrets, srets⟩
    have mret : (csrIn s x).mretValid = true → s.priv = privM ∧ s.mpp ≠ 2 := fun h =>
      mrets 0 ((mretCommit_iff _).mp h).1 ((mretCommit_iff _).mp h).2
    have sret : (csrIn s x).sretValid = true → s.priv ≠ privU := fun h =>
      srets 0 ((sretCommit_iff _).mp h).1 ((sretCommit_iff _).mp h).2
    refine ⟨?_, ?_, ?_, ?_⟩
    · rw [next]
      split
      · split
        · exact .inr (.inl rfl)
        · exact .inr (.inr rfl)
      split
      · rename_i h
        exact (legalPriv_or_reserved _).resolve_right (mret h).2
      split
      · split
        · exact .inr (.inl rfl)
        · exact .inl rfl
      · exact level
    · rw [next]
      intro rises
      by_contra noTrap
      rw [if_neg noTrap] at rises
      split at rises
      · rename_i h
        rw [(mret h).1] at rises
        exact absurd rises (by generalize s.mpp = p; revert p; decide)
      · split at rises
        · rename_i h
          have above := sret h
          split at rises <;> rcases level with h | h | h <;> rw [h] at rises above <;>
            revert rises above <;> decide
        · exact absurd rises (by generalize s.priv = p; revert p; decide)
    · exact fun i leaves ret below => absurd (mrets i leaves ret).1 below
    · exact fun i leaves ret user => absurd user (srets i leaves ret)

/-- While returns are permitted the privilege is one of the three levels, and the next cycle
confines it iff the returns in it are permitted too. -/
theorem privilege_confined (reach : privilegeRuns.Reach ReturnsPermitted s) :
    LegalPriv s.priv ∧
      ∀ x, privilegeRuns.legal s x → (Confined s x ↔ ReturnsPermitted s x) := by
  have level : LegalPriv s.priv := by
    refine reach.invariant (fun s => LegalPriv s.priv) (.inr (.inr rfl)) ?_
    intro s x _ level legal permitted
    exact ((confined_iff level legal).mpr permitted).level
  exact ⟨level, fun x legal => confined_iff level legal⟩

-- ---------------------------------------------------------------------
-- A return from user mode to machine mode
-- ---------------------------------------------------------------------

/-- The head entry of an instruction that needs no functional unit. -/
def entryOf (d : DecodedInsn) (valid : Bool) : HeadEntry where
  valid := valid
  ready := true
  pc := d.pc
  trapPc := d.trapPc
  hasException := d.hasException
  excCode := d.excCode
  excTval := d.excTval
  isBranch := d.isBranch
  bpuType := 0
  isStore := d.isStore
  isLoad := d.isLoad
  isCsr := d.isCsr
  isFence := d.isFence
  isFenceI := d.isFenceI
  isMret := d.isMret
  isSret := d.isSret
  isSfenceVma := d.isSfenceVma
  isEcall := d.isEcall
  isWfi := d.isWfi
  isFused := d.isFused
  isFpInstr := d.isFpOp
  fpFflags := 0
  branchTaken := false
  branchTarget := 0
  branchMispredict := false
  csrAddr := d.csrAddr
  csrWdata := 0
  csrWe := false
  csrOp := 0
  pdst := 0
  oldPdst := 0
  rdArch := d.rdArch
  rdValid := d.rdValid
  rdIsFp := d.rdIsFp
  usesCheckpoint := false
  checkpointId := 0
  bpRasTos := 0
  bpRasTop := 0
  bpRasOp := 0
  bpGhr := 0

/-- The instruction is alone in the ROB. -/
def retireAlone (insn : BitVec 32) : CoreIn where
  headIdx := 0
  head i := entryOf (decodeSlice insn 0 false) (i == 0)
  fenceIReady := true
  sfenceVmaReady := true
  lines := ⟨false, false, false, false, false, false⟩

def ecallInsn : BitVec 32 := 0x00000073
def sretInsn : BitVec 32 := 0x10200073
def mretInsn : BitVec 32 := 0x30200073

theorem legal_retireAlone (s : CsrFile) (insn : BitVec 32) :
    privilegeRuns.legal s (retireAlone insn) :=
  fun _ => ⟨insn, 0, false, rfl, rfl, fun _ => rfl⟩

/-- The machine-mode handler of an ECALL drops to user mode with SRET: MPP still holds M. -/
def droppedToUser : CsrFile :=
  privilegeRuns.run .reset [retireAlone ecallInsn, retireAlone sretInsn]

theorem privilege_confined_mret :
    Confined .reset (retireAlone mretInsn) := by
  refine ((privilege_confined .reset).2 _ (legal_retireAlone _ _)).mpr ⟨?_, ?_⟩
  · intro i leaves mret
    exact ⟨rfl, by decide⟩
  · intro i leaves sret
    cases sret

/-- MRET in user mode leads to machine mode without a trap. -/
theorem mret_in_user_reaches_machine :
    privilegeRuns.Reachable droppedToUser ∧ droppedToUser.priv = privU ∧
      privilegeRuns.legal droppedToUser (retireAlone mretInsn) ∧
      (privilegeRuns.next droppedToUser (retireAlone mretInsn)).priv = privM ∧
      ¬Confined droppedToUser (retireAlone mretInsn) := by
  have user : droppedToUser.priv = privU := by decide +kernel
  have machine : (privilegeRuns.next droppedToUser (retireAlone mretInsn)).priv = privM := by
    decide +kernel
  refine ⟨?_, user, legal_retireAlone _ _, machine, ?_⟩
  · exact Hdl.Machine.Reachable.run .reset ⟨legal_retireAlone _ _, legal_retireAlone _ _, trivial⟩
  · intro confined
    have trap := confined.rises (by rw [user, machine]; decide)
    have none : (csrIn droppedToUser (retireAlone mretInsn)).trapValid = false := by
      decide +kernel
    cases none.symm.trans trap

end Rv64gc.Csr
