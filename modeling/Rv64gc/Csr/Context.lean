import Rv64gc.Csr.RoundingMode

/-!
# The context instructions run in

Privilege, address space and the fields of `mstatus` that decide what an instruction may do change
only in cycles in which commit flushes everything younger. The one field that also moves on its own
is FS, and it never moves away from off.
-/

namespace Rv64gc.Csr

open Hdl Backend CommitIn

-- ---------------------------------------------------------------------
-- What is read from the CSR file
-- ---------------------------------------------------------------------

namespace CsrFile

variable (s : CsrFile)

/-- `satp_vm_enabled`: Sv39 or Sv48. -/
def satpVmEnabled : Bool := s.satp.extractLsb' 60 4 == 8#4 || s.satp.extractLsb' 60 4 == 9#4

def fsOff : Bool := s.fs == 0#2

/-- `csr_data_priv_mode`: machine mode can borrow the privilege it came from. -/
def dataPriv : BitVec 2 := if s.priv = privM ∧ s.mprv = true then s.mpp else s.priv

/-- `data_vm_active` -/
def dataVmActive : Bool := s.satpVmEnabled && s.dataPriv != privM

end CsrFile

/-- What fetch, rename and the data side take from the CSR file. -/
structure Context where
  priv : BitVec 2
  satp : Word
  fsOff : Bool
  dataPriv : BitVec 2
  sum : Bool
  mxr : Bool
deriving DecidableEq

def contextOf (s : CsrFile) : Context := ⟨s.priv, s.satp, s.fsOff, s.dataPriv, s.sum, s.mxr⟩

/-- `sfence_vma_commit` of the core, which does not look for an exception. -/
def sfenceVmaCommit (c : CommitIn) : Bool :=
  decide (c.commitCount > 0) && (c.commitOut 0).valid && (c.head 0).isSfenceVma

/-- `satp_commit_valid` -/
def satpCommitValid (c : CommitIn) : Bool := c.csrCommitValid && (c.head 0).csrAddr == csrSatp

/-- `translation_tlb_invalidate` -/
def translationTlbInvalidate (c : CommitIn) : Bool := sfenceVmaCommit c || satpCommitValid c

/-- `frontend_redirect_priv_c` -/
def frontendRedirectPriv (s : CsrFile) (x : CoreIn) : BitVec 2 :=
  let c := commitIn s x
  if c.flushOut.valid && c.flushOut.fullFlush then
    if (trapOf s x c).valid then if c.trapToSupervisor then privS else privM
    else if mretCommit c then s.mpp
    else if sretCommit c then if s.spp then privS else privU
    else s.priv
  else s.priv

-- ---------------------------------------------------------------------
-- What flushes
-- ---------------------------------------------------------------------

variable {s : CsrFile} {x : CoreIn}

/-- A write of `satp`, `mstatus` or `sstatus` and an SFENCE.VMA flush everything behind them. -/
theorem flush_of_vmSerial (leaves : 0 < (commitIn s x).commitCount)
    (serial : (x.head 0).isSerializing = true)
    (kind : ((x.head 0).changesVmState || (x.head 0).isSfenceVma) = true) :
    (commitIn s x).flushOut.valid = true := by
  cases clean : (x.head 0).hasException with
  | true => exact flushOut_of_exception _ leaves clean
  | false =>
    have due := due_of_leaves (Nat.lt_of_lt_of_le leaves (commitCount_le_scan _)) serial
    have asks : ((commitIn s x).head 0).asks .vmSerial = true := by
      simp only [HeadEntry.asks, commitIn, clean, kind]
      rfl
    exact (flush_of_entry due asks fun _ => rfl).2.1

/-- A write that commits without a flush is to none of the three. -/
theorem quiet_write (quiet : (commitIn s x).flushOut.valid = false)
    (write : (csrIn s x).writeValid = true) :
    (x.head 0).csrAddr ≠ csrSatp ∧ (x.head 0).csrAddr ≠ csrMstatus ∧
      (x.head 0).csrAddr ≠ csrSstatus := by
  have commits : (commitIn s x).csrCommitValid = true := write
  simp only [csrCommitValid, Bool.and_eq_true, decide_eq_true_eq] at commits
  obtain ⟨⟨⟨leaves, csr⟩, we⟩, -⟩ := commits
  change (x.head 0).isCsr = true at csr
  change (x.head 0).csrWe = true at we
  have serial : (x.head 0).isSerializing = true := serializing_of_kind (.inl csr)
  have other : ¬(x.head 0).changesVmState = true := by
    intro kind
    have flush := flush_of_vmSerial leaves serial (by simp [kind])
    cases quiet.symm.trans flush
  simp only [HeadEntry.changesVmState, csr, we, Bool.true_and, Bool.or_eq_true, beq_iff_eq] at other
  tauto

theorem flush_of_invalidate (invalidate : translationTlbInvalidate (commitIn s x) = true) :
    (commitIn s x).flushOut.valid = true := by
  simp only [translationTlbInvalidate, sfenceVmaCommit, satpCommitValid, csrCommitValid,
    Bool.or_eq_true, Bool.and_eq_true, decide_eq_true_eq, beq_iff_eq] at invalidate
  obtain ⟨⟨leaves, -⟩, sfence⟩ | ⟨⟨⟨⟨leaves, csr⟩, we⟩, -⟩, satp⟩ := invalidate
  · change (x.head 0).isSfenceVma = true at sfence
    exact flush_of_vmSerial leaves (by simp [HeadEntry.isSerializing, sfence]) (by simp [sfence])
  · change (x.head 0).isCsr = true at csr
    change (x.head 0).csrWe = true at we
    change (x.head 0).csrAddr = csrSatp at satp
    exact flush_of_vmSerial leaves (serializing_of_kind (.inl csr))
      (by simp [HeadEntry.changesVmState, csr, we, satp])

/-- The register for the privilege of fetch follows the CSR file. -/
theorem frontendRedirectPriv_eq (flush : (commitIn s x).flushOut.valid = true) :
    frontendRedirectPriv s x = (privilegeRuns.next s x).priv := by
  have full := flushOut_full _ flush
  have next : (privilegeRuns.next s x).priv = _ := next_priv s (csrIn s x)
  rw [next]
  unfold frontendRedirectPriv
  simp only [flush, full, Bool.and_self, if_true]
  rfl

-- ---------------------------------------------------------------------
-- What changes without a flush
-- ---------------------------------------------------------------------

/-- The registers FS belongs to. -/
def isFpCsr (addr : BitVec 12) : Bool := addr == csrFflags || addr == csrFrm || addr == csrFcsr

theorem csrWrite_satp (s t : CsrFile) (i : CsrIn) (other : i.writeAddr ≠ csrSatp) :
    (s.csrWrite t i).satp = t.satp := by
  unfold CsrFile.csrWrite
  simp only [apply_ite CsrFile.satp, ite_self, if_neg other]

theorem csrWrite_mstatus (s t : CsrFile) (i : CsrIn) (machine : i.writeAddr ≠ csrMstatus)
    (supervisor : i.writeAddr ≠ csrSstatus) : (s.csrWrite t i).mstatus =
      if isFpCsr i.writeAddr then putField t.mstatus 13 0b11#2 else t.mstatus := by
  unfold CsrFile.csrWrite
  simp only [apply_ite CsrFile.mstatus, ite_self, if_neg machine, if_neg supervisor]
  simp only [isFpCsr, Bool.or_eq_true, beq_iff_eq]
  split_ifs <;> tauto

/-- Two files that differ in FS only, and not in whether it is off, give the same context. -/
theorem contextOf_congr {s t : CsrFile} (priv : t.priv = s.priv) (satp : t.satp = s.satp)
    (mstatus : t.mstatus = s.mstatus ∨
      s.fsOff = false ∧ t.mstatus = putField s.mstatus 13 0b11#2) : contextOf t = contextOf s := by
  have fsOff : t.fsOff = s.fsOff := by
    obtain same | ⟨on, dirty⟩ := mstatus
    · simp [CsrFile.fsOff, CsrFile.fs, same]
    · rw [on, CsrFile.fsOff, CsrFile.fs, dirty, fs_dirty]
      rfl
  have bit (k : Nat) (below : k < 64) (outside : k < 13 ∨ 15 ≤ k) :
      t.mstatus.getLsbD k = s.mstatus.getLsbD k := by
    obtain same | ⟨-, dirty⟩ := mstatus
    · rw [same]
    · rw [dirty, getLsbD_putField _ _ _ _ below]
      exact if_neg (by omega)
  have mpp : t.mpp = s.mpp := by
    refine BitVec.eq_of_getLsbD_eq fun k inside => ?_
    simp only [CsrFile.mpp, BitVec.getLsbD_extractLsb']
    rw [bit (11 + k) (by omega) (by omega)]
  have dataPriv : t.dataPriv = s.dataPriv := by
    unfold CsrFile.dataPriv CsrFile.mprv
    rw [priv, mpp, bit 17 (by decide) (by decide)]
  simp only [contextOf, CsrFile.sum, CsrFile.mxr, priv, satp, fsOff, dataPriv,
    bit 18 (by decide) (by decide), bit 19 (by decide) (by decide)]

/-- Work that turns FS dirty was let through because FS was on. -/
def FpOn (s : CsrFile) (x : CoreIn) : Prop :=
  ∀ i < (commitIn s x).commitCount, (x.head i).hasException = false →
    ((x.head i).isFpInstr || (x.head i).isCsr && isFpCsr (x.head i).csrAddr) = true →
    s.fsOff = false

/-- Without a flush the context stays. -/
theorem contextOf_quiet (quiet : (commitIn s x).flushOut.valid = false) (fpOn : FpOn s x) :
    contextOf (privilegeRuns.next s x) = contextOf s := by
  have clean (i : Nat) (leaves : i < (commitIn s x).commitCount) :
      (x.head i).hasException = false := by
    by_contra exception
    cases quiet.symm.trans (flushOut_of_exception _ leaves (by simpa [commitIn] using exception))
  have accrued : contextOf ((s.count (csrIn s x)).accrueFp (csrIn s x)) = contextOf s := by
    refine contextOf_congr rfl rfl ?_
    cases dirty : (csrIn s x).fpStateDirty with
    | false => exact .inl (by simp [CsrFile.accrueFp, dirty, CsrFile.count])
    | true =>
      obtain ⟨i, -, leaves⟩ := List.any_eq_true.mp (show fpStateDirtyCommit _ = true from dirty)
      simp only [Bool.and_eq_true, commitOut_valid] at leaves
      have on := fpOn i leaves.1 (clean i leaves.1)
        (by simp [show (x.head i).isFpInstr = true from leaves.2])
      exact .inr ⟨on, by simp [CsrFile.accrueFp, dirty, CsrFile.count]⟩
  rw [next_quiet quiet]
  cases write : (csrIn s x).writeValid with
  | false => exact accrued
  | true =>
    obtain ⟨satp, machine, supervisor⟩ := quiet_write quiet write
    rw [if_pos rfl, ← accrued]
    refine contextOf_congr (csrWrite_priv _ _ _) (csrWrite_satp _ _ _ satp) ?_
    rw [csrWrite_mstatus _ _ _ machine supervisor]
    cases fp : isFpCsr (csrIn s x).writeAddr with
    | false => exact .inl rfl
    | true =>
      refine .inr ⟨?_, rfl⟩
      have commits : (commitIn s x).csrCommitValid = true := write
      simp only [csrCommitValid, Bool.and_eq_true, decide_eq_true_eq] at commits
      obtain ⟨⟨⟨leaves, csr⟩, -⟩, -⟩ := commits
      change (x.head 0).isCsr = true at csr
      change isFpCsr (x.head 0).csrAddr = true at fp
      have on := fpOn 0 leaves (clean 0 leaves) (by simp [csr, fp])
      exact (congrArg Context.fsOff accrued).trans on

end Rv64gc.Csr
