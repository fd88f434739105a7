import Rv64gc.Csr.Interrupts
import Rv64gc.Csr.FpState

/-!
# One trap, described three times

Commit picks the vector and the level, the core picks cause, PC and value, and the CSR file
enters the trap. All three follow the same entry or the same interrupt request; the level of an
interrupt is decided by its source first, so a machine-level source stays with machine mode
whatever `mideleg` says.
-/

namespace Rv64gc.Csr

open Hdl Backend CommitIn

-- ---------------------------------------------------------------------
-- What the architecture does
-- ---------------------------------------------------------------------

structure ArchTrap where
  interrupt : Bool
  code : Nat
  pc : Word
  val : Word

namespace ArchTrap

/-- Below machine mode the delegation register of its kind decides. -/
def delegated (s : CsrFile) (t : ArchTrap) : Bool :=
  s.priv != privM && (if t.interrupt then s.mideleg else s.medeleg).getLsbD t.code

/-- The word for `mcause` or `scause`: the interrupt bit and the code. -/
def cause (t : ArchTrap) : Word := BitVec.ofBool t.interrupt ++ BitVec.ofNat 63 t.code

/-- Only interrupts are spread over the table of a vectored base. -/
def vector (t : ArchTrap) (tvec : Word) : Word :=
  let base := tvec.extractLsb' 2 62 ++ 0b00#2
  if t.interrupt && tvec.extractLsb' 0 2 == 0b01#2 then base + BitVec.ofNat 64 (4 * t.code)
  else base

def target (s : CsrFile) (t : ArchTrap) : Word :=
  t.vector (if t.delegated s then s.stvec else s.mtvec)

/-- Entered in supervisor mode: the machine-level registers keep their values. -/
structure EnteredS (t : ArchTrap) (s s' : CsrFile) : Prop where
  priv : s'.priv = privS
  sepc : s'.sepc = t.pc
  scause : s'.scause = t.cause
  stval : s'.stval = t.val
  spp : s'.spp = (s.priv != privU)
  spie : s'.spie = s.sie
  sie : s'.sie = false
  machine : s'.mepc = s.mepc ∧ s'.mcause = s.mcause ∧ s'.mtval = s.mtval
  mstatus : ∀ k, k ≠ 1 → k ≠ 5 → k ≠ 8 → s'.mstatus.getLsbD k = s.mstatus.getLsbD k

/-- Entered in machine mode: the supervisor-level registers keep their values. -/
structure EnteredM (t : ArchTrap) (s s' : CsrFile) : Prop where
  priv : s'.priv = privM
  mepc : s'.mepc = t.pc
  mcause : s'.mcause = t.cause
  mtval : s'.mtval = t.val
  mpp : s'.mpp = s.priv
  mpie : s'.mpie = s.mIe
  mie : s'.mIe = false
  supervisor : s'.sepc = s.sepc ∧ s'.scause = s.scause ∧ s'.stval = s.stval
  mstatus : ∀ k, k ≠ 3 → k ≠ 7 → k ≠ 11 → k ≠ 12 → s'.mstatus.getLsbD k = s.mstatus.getLsbD k

def Entered (t : ArchTrap) (s s' : CsrFile) : Prop :=
  if t.delegated s then t.EnteredS s s' else t.EnteredM s s'

end ArchTrap

/-- The trap of the cycle and how many entries retire before it: the exception of the oldest
entry that cannot retire, or the requested interrupt in front of the oldest entry. -/
inductive TakesTrap (s : CsrFile) (x : CoreIn) : ArchTrap → Nat → Prop
  | exception (raises : (commitIn s x).Raises .exception i) :
      TakesTrap s x ⟨false, (if (x.head i).isEcall then ecallCause s.priv
        else (x.head i).excCode).toNat, (x.head i).trapPc, (x.head i).excTval⟩ i
  | interrupt (taken : (commitIn s x).takeInterrupt = true)
      (source : s.scanStop x.lines = some n) :
      TakesTrap s x ⟨true, n.bit, (x.head 0).trapPc, 0⟩ 0

/-- Redirect, level, CSRs and instruction count all describe trap `t` behind `r` entries. -/
structure TrapRight (s : CsrFile) (x : CoreIn) (t : ArchTrap) (r : Nat) : Prop where
  redirect : (commitIn s x).flushOut.valid = true ∧ (commitIn s x).flushOut.fullFlush = true ∧
    (commitIn s x).flushOut.redirectPc = t.target s
  level : (commitIn s x).trapToSupervisor = t.delegated s
  entered : t.Entered s (privilegeRuns.next s x)
  minstret : (privilegeRuns.next s x).minstret =
    if s.mcountinhibit.getLsbD 2 then s.minstret
    else s.minstret + BitVec.ofNat 64 ((List.range r).map fun i => (x.head i).insns).sum

/-- A machine-level interrupt is not taken below machine mode with its `mideleg` bit set: the
source the request stops at is another one, or an exception is taken in its place. -/
def MachineKeepsItsOwn (s : CsrFile) (x : CoreIn) : Prop :=
  ∀ n, s.scanStop x.lines = some n → n.supervisor = false → s.priv ≠ privM →
    s.delegated n = true → ∃ i, (commitIn s x).Raises .exception i

-- ---------------------------------------------------------------------
-- Vectors
-- ---------------------------------------------------------------------

variable {s : CsrFile} {x : CoreIn}

theorem lowMask : ∀ i : Fin 64, (~~~0b11#64).getLsbD i = decide (2 ≤ i.val) := by
  decide

theorem vecBase_eq (tvec : Word) : vecBase tvec = tvec.extractLsb' 2 62 ++ 0b00#2 := by
  refine BitVec.eq_of_getLsbD_eq fun i hi => ?_
  rw [vecBase, BitVec.getLsbD_and, lowMask ⟨i, hi⟩, BitVec.getLsbD_append,
    BitVec.getLsbD_extractLsb']
  by_cases low : i < 2
  · obtain rfl | rfl : i = 0 ∨ i = 1 := by omega
    · simp
    · simp
  · have width : i - 2 < 62 := by omega
    have back : 2 + (i - 2) = i := by omega
    simp [low, width, back, Nat.le_of_not_lt low]

theorem vector_exception (code : Nat) (pc val tvec : Word) :
    ArchTrap.vector ⟨false, code, pc, val⟩ tvec = vecBase tvec :=
  (vecBase_eq tvec).symm

theorem vector_interrupt (n : IrqSource) (pc val tvec : Word) :
    ArchTrap.vector ⟨true, n.bit, pc, val⟩ tvec = irqEntry tvec (irqCause n.bit) := by
  have offset : ((irqCause n.bit).extractLsb' 0 6).setWidth 64 <<< 2 =
      BitVec.ofNat 64 (4 * n.bit) := by
    cases n <;> rfl
  simp [ArchTrap.vector, irqEntry, vecBase_eq, offset]

theorem cause_interrupt (n : IrqSource) (pc val : Word) :
    ArchTrap.cause ⟨true, n.bit, pc, val⟩ = irqCause n.bit := by
  have same : BitVec.ofBool true ++ BitVec.ofNat 63 n.bit = irqCause n.bit := by
    cases n <;> decide
  exact same

theorem cause_exception (code : BitVec 4) (pc val : Word) :
    ArchTrap.cause ⟨false, code.toNat, pc, val⟩ = code.setWidth 64 := by
  have all : ∀ code : BitVec 4, ArchTrap.cause ⟨false, code.toNat, 0, 0⟩ = code.setWidth 64 := by
    decide
  exact all code

-- ---------------------------------------------------------------------
-- The CSR file
-- ---------------------------------------------------------------------

theorem mpp_putField (ms : Word) (priv : BitVec 2) :
    (putField ms 11 priv).extractLsb' 11 2 = priv := by
  refine BitVec.eq_of_getLsbD_eq fun i hi => ?_
  match i, hi with
  | 0, _ => simp [-BitVec.getLsbD_eq_getElem, getLsbD_putField]
  | 1, _ => simp [-BitVec.getLsbD_eq_getElem, getLsbD_putField]

/-- The file enters the trap it is given, at the level it is given. -/
theorem trapEntry_entered (s : CsrFile) (i : CsrIn) (t : ArchTrap)
    (level : i.trapToSupervisor = t.delegated s) (cause : i.trapCause = t.cause)
    (pc : i.trapPc = t.pc) (val : i.trapVal = t.val) :
    t.Entered s ((s.count i).trapEntry i) := by
  unfold ArchTrap.Entered CsrFile.trapEntry
  rw [← level]
  split
  · exact {
      priv := rfl
      sepc := pc
      scause := cause
      stval := val
      spp := by simp [CsrFile.spp, CsrFile.count, getLsbD_put, -BitVec.getLsbD_eq_getElem]
      spie := by
        simp [CsrFile.spie, CsrFile.sie, CsrFile.count, getLsbD_put, -BitVec.getLsbD_eq_getElem]
      sie := by simp [CsrFile.sie, CsrFile.count, getLsbD_put, -BitVec.getLsbD_eq_getElem]
      machine := ⟨rfl, rfl, rfl⟩
      mstatus := fun k no1 no5 no8 => by
        simp [CsrFile.count, getLsbD_put, no1.symm, no5.symm, no8.symm,
          -BitVec.getLsbD_eq_getElem] }
  · exact {
      priv := rfl
      mepc := pc
      mcause := cause
      mtval := val
      mpp := mpp_putField _ _
      mpie := by
        simp [CsrFile.mpie, CsrFile.mIe, CsrFile.count, getLsbD_put, getLsbD_putField,
          -BitVec.getLsbD_eq_getElem]
      mie := by
        simp [CsrFile.mIe, CsrFile.count, getLsbD_put, getLsbD_putField,
          -BitVec.getLsbD_eq_getElem]
      supervisor := ⟨rfl, rfl, rfl⟩
      mstatus := fun k no3 no7 no11 no12 => by
        by_cases width : k < 64
        · have outside : ¬(11 ≤ k ∧ k < 13) := by omega
          simp [CsrFile.count, getLsbD_put, getLsbD_putField, width, outside, no3.symm, no7.symm,
            -BitVec.getLsbD_eq_getElem]
        · simp [BitVec.getLsbD_of_ge _ k (Nat.le_of_not_lt width)] }

theorem insns_le (head : Nat → HeadEntry) (r : Nat) :
    ((List.range r).map fun i => (head i).insns).sum ≤ 2 * r := by
  induction r with
  | zero => exact Nat.le_refl 0
  | succ r ih =>
    have last : (head r).insns ≤ 2 := by
      unfold HeadEntry.insns
      split <;> decide
    simp only [List.range_succ, List.map_append, List.sum_append, List.map_cons, List.map_nil,
      List.sum_cons, List.sum_nil]
    omega

/-- A group is at most eight instructions, so the four-bit count is exact. -/
theorem insns_lt {c : CommitIn} (g : c.Retired r) :
    ((List.range r).map fun i => (c.head i).insns).sum < 16 := by
  have width : r ≤ pipeWidth := by
    by_contra wide
    have leaves := (g.slots pipeWidth).mpr (Nat.lt_of_not_le wide)
    exact Nat.not_lt_of_le (commitCount_le c) ((commitOut_valid c _).mp leaves.1)
  have total := insns_le c.head r
  have narrow : pipeWidth = 4 := rfl
  omega

/-- The count that reaches the CSR file. -/
theorem retiredCount_eq (g : (commitIn s x).Retired r) :
    (csrIn s x).insnRetiredCount.setWidth 64 =
      BitVec.ofNat 64 ((List.range r).map fun i => (x.head i).insns).sum := by
  have insns : (commitIn s x).insnRetiredCount =
      ((List.range r).map fun i => (x.head i).insns).sum := g.insns
  have small : ((List.range r).map fun i => (x.head i).insns).sum < 2 ^ 4 := insns_lt g
  change (BitVec.ofNat 4 (commitIn s x).insnRetiredCount).setWidth 64 = _
  refine BitVec.eq_of_toNat_eq ?_
  rw [insns, BitVec.toNat_setWidth, BitVec.toNat_ofNat, BitVec.toNat_ofNat,
    Nat.mod_eq_of_lt small]

/-- A trap counts the instructions that retire before it. -/
theorem minstret_of_trap (g : (commitIn s x).Retired r) (trap : (csrIn s x).trapValid = true) :
    (privilegeRuns.next s x).minstret =
      if s.mcountinhibit.getLsbD 2 then s.minstret
      else s.minstret + BitVec.ofNat 64 ((List.range r).map fun i => (x.head i).insns).sum := by
  have next : (privilegeRuns.next s x).minstret = (s.count (csrIn s x)).minstret := by
    simp only [privilegeRuns, CsrFile.next, trap, if_true, CsrFile.trapEntry]
    split <;> rfl
  rw [next, ← retiredCount_eq g]
  rfl

-- ---------------------------------------------------------------------
-- The trap of the cycle
-- ---------------------------------------------------------------------

/-- Commit's outputs for an exception. -/
theorem commit_of_exception {c : CommitIn} (raises : c.Raises .exception i) :
    c.flushOut = c.fullFlushTo (c.vectorFor i) ∧
      c.trapToSupervisor = (c.privMode != privM && c.medeleg.getLsbD
        (if (c.head i).isEcall then ecallCause c.privMode else (c.head i).excCode).toNat) := by
  obtain ⟨due, asks, turn⟩ := raises
  have asked := asks
  simp only [HeadEntry.asks, Bool.and_eq_true, Bool.not_eq_true'] at asked
  cases ends_of_due due asks with
  | traps leave stays exception slot _ _ finds =>
    constructor
    · rw [← trapVector_eq finds.exception slot]
      simp [flushOut, finds.replay, finds.exception]
    · simp [trapToSupervisor, finds.replay, finds.exception, trapDelegated, exceptionDelegated,
        exceptionCauseCode, slot, ecallCause]
  | blocked stuck => cases (stuck due.leave).1.symm.trans asked.2
  | replays _ replays => cases asked.1.symm.trans replays
  | serial _ clean => cases clean.symm.trans asked.2
  | mispredicts _ clean => cases clean.symm.trans asked.2

/-- Commit's level for an interrupt. -/
theorem level_of_interrupt {c : CommitIn} (taken : c.takeInterrupt = true) :
    c.trapToSupervisor = c.irqToSupervisor := by
  have noRedirect := noRedirect_of_interrupt taken
  have held := taken
  simp only [takeInterrupt, Bool.and_eq_true, Bool.not_eq_true'] at held
  simp [trapToSupervisor, held, noRedirect, taken]

/-- The requested level is the source's own where that one is supervisor-level. -/
theorem irq_of_source (stop : s.scanStop x.lines = some n)
    (pending : (s.irq x.lines).pending = true) :
    (s.irq x.lines).cause = irqCause n.bit ∧
      (s.irq x.lines).toSupervisor = (n.supervisor && s.priv != privM && s.delegated n) := by
  rw [CsrFile.irq_eq_scanStop, stop] at pending ⊢
  dsimp only at pending ⊢
  cases level : n.supervisor with
  | false => simp
  | true =>
    simp only [level, if_true] at pending
    refine ⟨CsrFile.sBranch_cause pending, ?_⟩
    simp only [CsrFile.sBranch, CsrFile.delegated, if_true, Bool.true_and] at pending ⊢
    split at pending
    · rename_i own
      rw [if_pos own]
      simp only [Bool.and_eq_true] at own
      rw [own.1.1, own.1.2]
      rfl
    split at pending
    · rename_i other own
      rw [if_neg other, if_pos own]
      simp only [Bool.and_eq_true, Bool.not_eq_true'] at own
      rw [own.1, Bool.and_false]
    · cases pending

theorem trapOf_interrupt (taken : (commitIn s x).takeInterrupt = true) :
    trapOf s x (commitIn s x) = ⟨true, (s.irq x.lines).cause, (x.head 0).trapPc, 0⟩ := by
  have flush := flush_of_interrupt taken
  have noSlot : trapSlot (commitIn s x) = none := by
    refine List.find?_eq_none.mpr fun i _ => ?_
    simp [commitOut, taken]
  unfold trapOf
  rw [flush, noSlot, taken]
  rfl

/-- A trap the core takes has a description, and only one. -/
theorem takesTrap_of_valid (trap : (csrIn s x).trapValid = true) : ∃ t r, TakesTrap s x t r := by
  rcases (trapValid_iff s x).mp trap with taken | ⟨i, traps⟩
  · cases source : s.scanStop x.lines with
    | some n => exact ⟨_, _, .interrupt taken source⟩
    | none =>
      have request := ((takeInterrupt_iff _).mp taken).1
      simp only [commitIn, CsrFile.irq_eq_scanStop, source] at request
      cases request
  · exact ⟨_, _, .exception ((traps_iff _ i).mp traps)⟩

theorem TakesTrap.unique (a : TakesTrap s x t r) (b : TakesTrap s x t' r') : t = t' ∧ r = r' := by
  cases a with
  | exception raises =>
    cases b with
    | exception raises' =>
      have quiet := ((trapsOnce _).noInterrupt _ ((traps_iff _ _).mpr raises))
      obtain rfl := raises.unique raises' quiet
      exact ⟨rfl, rfl⟩
    | interrupt taken =>
      cases ((trapsOnce _).noInterrupt _ ((traps_iff _ _).mpr raises)).symm.trans taken
  | interrupt taken source =>
    cases b with
    | exception raises =>
      cases ((trapsOnce _).noInterrupt _ ((traps_iff _ _).mpr raises)).symm.trans taken
    | interrupt _ source' =>
      obtain rfl := Option.some.inj (source.symm.trans source')
      exact ⟨rfl, rfl⟩

theorem trapRight_of_exception (raises : (commitIn s x).Raises .exception i)
    (trap : (csrIn s x).trapValid = true) (g : (commitIn s x).Retired i)
    (same : t = ⟨false, (if (x.head i).isEcall then ecallCause s.priv
      else (x.head i).excCode).toNat, (x.head i).trapPc, (x.head i).excTval⟩) :
    TrapRight s x t i := by
  obtain ⟨flush, level⟩ := commit_of_exception raises
  obtain ⟨-, cause, pc, val⟩ := (trapsOnce _).entered i ((traps_iff _ i).mpr raises) s x
  have level : (commitIn s x).trapToSupervisor = t.delegated s := by
    rw [level, same]
    rfl
  refine ⟨?_, level, ?_, minstret_of_trap g trap⟩
  · rw [flush]
    refine ⟨rfl, rfl, ?_⟩
    subst same
    simp only [ArchTrap.target, vector_exception]
    exact (apply_ite vecBase _ _ _).symm
  · have next : privilegeRuns.next s x = (s.count (csrIn s x)).trapEntry (csrIn s x) := by
      simp [privilegeRuns, CsrFile.next, trap]
    rw [next]
    refine trapEntry_entered s _ t level ?_ ?_ ?_
    · rw [same, cause_exception]
      exact cause
    · rw [same]
      exact pc
    · rw [same]
      exact val

theorem delegated_interrupt (s : CsrFile) (n : IrqSource) (pc val : Word) :
    ArchTrap.delegated s ⟨true, n.bit, pc, val⟩ = (s.priv != privM && s.delegated n) := rfl

/-- The level of an interrupt is right unless the source is machine-level and delegated. -/
theorem trapRight_of_interrupt (taken : (commitIn s x).takeInterrupt = true)
    (source : s.scanStop x.lines = some n) (trap : (csrIn s x).trapValid = true)
    (same : t = ⟨true, n.bit, (x.head 0).trapPc, 0⟩) :
    TrapRight s x t 0 ↔ ¬(n.supervisor = false ∧ s.priv ≠ privM ∧ s.delegated n = true) := by
  have request : (s.irq x.lines).pending = true := ((takeInterrupt_iff _).mp taken).1
  obtain ⟨cause, toSupervisor⟩ := irq_of_source source request
  have level : (commitIn s x).trapToSupervisor =
      (n.supervisor && s.priv != privM && s.delegated n) :=
    (level_of_interrupt taken).trans toSupervisor
  have wanted : t.delegated s = (s.priv != privM && s.delegated n) := by
    rw [same, delegated_interrupt]
  constructor
  · rintro right ⟨machine, below, delegated⟩
    have agree := right.level
    rw [level, wanted, machine, delegated] at agree
    simp at agree
    exact below agree
  · intro kept
    have agree : (commitIn s x).trapToSupervisor = t.delegated s := by
      rw [level, wanted]
      cases supervisor : n.supervisor with
      | true => rfl
      | false =>
        by_contra differ
        refine kept ⟨supervisor, ?_, ?_⟩ <;> grind
    refine ⟨?_, agree, ?_, minstret_of_trap (retired_of_interrupt taken) trap⟩
    · rw [flush_of_interrupt taken]
      refine ⟨rfl, rfl, ?_⟩
      have irqLevel : (commitIn s x).irqToSupervisor = t.delegated s :=
        (level_of_interrupt taken).symm.trans agree
      have irqWord : (commitIn s x).irqCause = irqCause n.bit := cause
      simp only [fullFlushTo, irqVector, irqLevel, irqWord, ArchTrap.target]
      rw [same]
      simp only [vector_interrupt]
      exact (apply_ite (irqEntry · (irqCause n.bit)) _ _ _).symm
    · have next : privilegeRuns.next s x = (s.count (csrIn s x)).trapEntry (csrIn s x) := by
        simp [privilegeRuns, CsrFile.next, trap]
      have entry := trapOf_interrupt taken
      rw [next]
      refine trapEntry_entered s _ t agree ?_ ?_ ?_
      · rw [same, cause_interrupt, ← cause]
        exact congrArg Trap.cause entry
      · rw [same]
        exact congrArg Trap.pc entry
      · rw [same]
        exact congrArg Trap.val entry

-- ---------------------------------------------------------------------
-- Every cycle with a trap
-- ---------------------------------------------------------------------

/-- A cycle enters a trap iff the architecture takes one there; it is one trap behind the entries
that retire, and everything describes it iff machine mode keeps no interrupt `mideleg` gives
away. -/
theorem trap_right_iff (s : CsrFile) (x : CoreIn) :
    ((csrIn s x).trapValid = true ↔ ∃ t r, TakesTrap s x t r) ∧
      ∀ t r, TakesTrap s x t r →
        (∀ t' r', TakesTrap s x t' r' → t' = t ∧ r' = r) ∧ (commitIn s x).Retired r ∧
          (TrapRight s x t r ↔ MachineKeepsItsOwn s x) := by
  have valid {t r} (takes : TakesTrap s x t r) : (csrIn s x).trapValid = true := by
    refine (trapValid_iff s x).mpr ?_
    cases takes with
    | exception raises => exact .inr ⟨_, (traps_iff _ _).mpr raises⟩
    | interrupt taken => exact .inl taken
  refine ⟨⟨takesTrap_of_valid, fun ⟨_, _, takes⟩ => valid takes⟩, fun t r takes => ?_⟩
  refine ⟨fun t' r' other => other.unique takes, ?_⟩
  have trap := valid takes
  cases takes with
  | exception raises =>
    obtain ⟨r', g⟩ := exists_retired (commitIn s x)
    obtain rfl := retired_before_trap ((traps_iff _ _).mpr raises) g
    have right := trapRight_of_exception raises trap g rfl
    exact ⟨g, iff_of_true right fun _ _ _ _ _ => ⟨_, raises⟩⟩
  | interrupt taken source =>
    refine ⟨retired_of_interrupt taken, (trapRight_of_interrupt taken source trap rfl).trans ?_⟩
    constructor
    · intro kept n stop machine below delegated
      obtain rfl := Option.some.inj (source.symm.trans stop)
      exact absurd ⟨machine, below, delegated⟩ kept
    · rintro kept ⟨machine, below, delegated⟩
      obtain ⟨i, raises⟩ := kept _ source machine below delegated
      cases ((trapsOnce _).noInterrupt i ((traps_iff _ i).mpr raises)).symm.trans taken

/-- Supervisor mode with the machine external interrupt enabled and given away. -/
def delegatedMachineExternal : CsrFile :=
  { CsrFile.reset with
    priv := privS
    mie := 0x800#64
    mideleg := 0x800#64
    mstatus := CsrFile.reset.mstatus ||| 0x2#64 }

/-- An ADDI that does nothing is at the head when the external interrupt line rises. -/
def interruptedNop : CoreIn :=
  { retireAlone 0x00000013 with lines := ⟨false, false, true, false, false, false⟩ }

/-- Machine mode takes the interrupt that `mideleg` gives to the supervisor. -/
theorem machine_takes_delegated_interrupt :
    TakesTrap delegatedMachineExternal interruptedNop ⟨true, 11, 0, 0⟩ 0 ∧
      (commitIn delegatedMachineExternal interruptedNop).trapToSupervisor = false ∧
      ¬TrapRight delegatedMachineExternal interruptedNop ⟨true, 11, 0, 0⟩ 0 := by
  have taken : (commitIn delegatedMachineExternal interruptedNop).takeInterrupt = true := by
    decide +kernel
  have level : (commitIn delegatedMachineExternal interruptedNop).trapToSupervisor = false := by
    decide +kernel
  refine ⟨.interrupt (n := .mExt) taken (by decide +kernel), level, fun right => ?_⟩
  have wanted := right.level
  rw [level] at wanted
  exact absurd wanted (by decide)

end Rv64gc.Csr
