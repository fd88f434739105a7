import Rv64gc.Isa
import Rv64gc.Pkg
import Rv64gc.Hdl.Bits

/-!
# The commit stage

`commit.sv`: up to four entries leave the head of the ROB in a cycle. The scan takes entries in
order until one is missing or unfinished, and stops behind an exception, a mispredicted control
transfer, a trap return or any other serializing instruction. An interrupt is taken instead of
the scanned entries.
-/

namespace Rv64gc.Backend

/-- One entry at the head of the ROB, with its rename buffer data. -/
structure HeadEntry where
  valid : Bool
  ready : Bool
  pc : BitVec 64
  trapPc : BitVec 64
  hasException : Bool
  excCode : BitVec 4
  excTval : BitVec 64
  isBranch : Bool
  bpuType : BitVec 3
  isStore : Bool
  isLoad : Bool
  isCsr : Bool
  isFence : Bool
  isFenceI : Bool
  isMret : Bool
  isSret : Bool
  isSfenceVma : Bool
  isEcall : Bool
  isWfi : Bool
  isFused : Bool
  isFpInstr : Bool
  fpFflags : BitVec 5
  branchTaken : Bool
  branchTarget : BitVec 64
  branchMispredict : Bool
  csrAddr : BitVec 12
  csrWdata : BitVec 64
  csrWe : Bool
  csrOp : BitVec 2
  pdst : PhysReg
  oldPdst : PhysReg
  rdArch : ArchReg
  rdValid : Bool
  rdIsFp : Bool
  usesCheckpoint : Bool
  checkpointId : CkptId
  bpRasTos : BitVec 5
  bpRasTop : BitVec 64
  bpRasOp : BitVec 2
  bpGhr : BitVec ghrBits

/-- What commit reads besides the entries. -/
structure CommitIn where
  headIdx : RobIdx
  head : Nat → HeadEntry
  fenceIReady : Bool
  sfenceVmaReady : Bool
  mtvec : BitVec 64
  stvec : BitVec 64
  mepc : BitVec 64
  sepc : BitVec 64
  privMode : BitVec 2
  medeleg : BitVec 64
  irqPending : Bool
  irqCause : BitVec 64
  irqToSupervisor : Bool

structure Flush where
  valid : Bool
  robIdx : RobIdx
  redirectPc : BitVec 64
  checkpointId : CkptId
  fullFlush : Bool
  rasTos : BitVec 5
  rasTopRestoreValid : Bool
  rasTopRestoreAddr : BitVec 64
  ghrRestoreValid : Bool
  ghrRestoreVal : BitVec ghrBits

/-- `commit_t`: what rename needs of a committed entry. -/
structure CommitSlot where
  valid : Bool
  pdst : PhysReg
  oldPdst : PhysReg
  rdArch : ArchReg
  rdValid : Bool

namespace HeadEntry

/-- Serializing instructions commit alone in slot 0. -/
def isSerializing (e : HeadEntry) : Bool :=
  e.isCsr || e.isFence || e.isFenceI || e.isMret || e.isSret || e.isSfenceVma || e.isEcall ||
    e.isWfi

def isControl (e : HeadEntry) : Bool := e.isBranch || e.bpuType != 0

/-- A load that read stale data: it is fetched again, not committed. -/
def replays (e : HeadEntry) : Bool := e.hasException && e.excCode == excInternalReplay

end HeadEntry

-- ---------------------------------------------------------------------
-- The scan
-- ---------------------------------------------------------------------

structure Scan where
  count : Nat
  foundException : Bool
  excSlot : Nat
  foundMispredict : Bool
  mispSlot : Nat
  foundRet : Bool
  foundReplay : Bool
  replaySlot : Nat
  storeCnt : Nat
  loadCnt : Nat
  retiredInstCount : Nat
  stopped : Bool
  slotCanCommit : Nat → Bool

def Scan.start : Scan where
  count := 0
  foundException := false
  excSlot := 0
  foundMispredict := false
  mispSlot := 0
  foundRet := false
  foundReplay := false
  replaySlot := 0
  storeCnt := 0
  loadCnt := 0
  retiredInstCount := 0
  stopped := false
  slotCanCommit := fun _ => false

def Scan.done (s : Scan) : Bool :=
  s.stopped || s.foundException || s.foundMispredict || s.foundRet || s.foundReplay

def Scan.commits (s : Scan) (i : Nat) : Scan :=
  { s with
    count := s.count + 1
    slotCanCommit := fun k => if k = i then true else s.slotCanCommit k }

namespace CommitIn

/-- The entry retires: it is counted, and ends the scan if it is serializing or mispredicted. -/
def retire (c : CommitIn) (s : Scan) (i : Nat) : Scan :=
  let e := c.head i
  let s := s.commits i
  let s := { s with
    retiredInstCount := s.retiredInstCount + (if e.isFused then 2 else 1)
    storeCnt := if e.isStore then s.storeCnt + 1 else s.storeCnt
    loadCnt := if e.isLoad then s.loadCnt + 1 else s.loadCnt }
  if e.isSerializing then
    { s with stopped := true, foundRet := s.foundRet || e.isMret || e.isSret }
  else if e.isControl && e.branchMispredict then { s with foundMispredict := true, mispSlot := i }
  else if e.isMret || e.isSret then { s with foundRet := true }
  else s

def scanStep (c : CommitIn) (s : Scan) (i : Nat) : Scan :=
  let e := c.head i
  if s.done then s
  else if !e.valid then { s with stopped := true }
  else if !e.ready then { s with stopped := true }
  else if e.isFence && !c.fenceIReady then { s with stopped := true }
  else if e.isFenceI && !c.fenceIReady then { s with stopped := true }
  else if e.isSfenceVma && !c.sfenceVmaReady then { s with stopped := true }
  else if e.replays then { s with foundReplay := true, replaySlot := i }
  -- An exception leaves the ROB with the scanned entries but writes no register.
  else if e.hasException then { s.commits i with foundException := true, excSlot := i }
  else if decide (i > 0) && e.isSerializing then { s with stopped := true }
  else c.retire s i

/-- The scan after the first `n` slots. -/
def scanTo (c : CommitIn) : Nat → Scan
  | 0 => .start
  | n + 1 => c.scanStep (c.scanTo n) n

def scan (c : CommitIn) : Scan := c.scanTo pipeWidth

-- ---------------------------------------------------------------------
-- Interrupts and serializing commits
-- ---------------------------------------------------------------------

def serializingAtHead (c : CommitIn) : Bool :=
  decide (c.scan.count > 0) && (c.head 0).isSerializing

def vmStateCsrCommit (c : CommitIn) : Bool :=
  decide (c.scan.count > 0) && (c.head 0).isCsr && (c.head 0).csrWe && !(c.head 0).hasException &&
    ((c.head 0).csrAddr == csrSatp || (c.head 0).csrAddr == csrMstatus ||
      (c.head 0).csrAddr == csrSstatus)

def sfenceVmaCommit (c : CommitIn) : Bool :=
  decide (c.scan.count > 0) && (c.head 0).isSfenceVma && !(c.head 0).hasException

def fenceCommitRedirect (c : CommitIn) : Bool :=
  decide (c.scan.count > 0) && ((c.head 0).isFence || (c.head 0).isFenceI) &&
    !(c.head 0).isSfenceVma && !(c.head 0).hasException

def vmSerialRedirect (c : CommitIn) : Bool := c.vmStateCsrCommit || c.sfenceVmaCommit

def takeInterrupt (c : CommitIn) : Bool :=
  c.irqPending && (c.head 0).valid && !c.scan.foundException && !c.scan.foundMispredict &&
    !c.scan.foundRet && !c.scan.foundReplay && !c.serializingAtHead

def commitCount (c : CommitIn) : Nat := if c.takeInterrupt then 0 else c.scan.count

def storeCommitCount (c : CommitIn) : Nat := if c.takeInterrupt then 0 else c.scan.storeCnt

def loadCommitCount (c : CommitIn) : Nat := if c.takeInterrupt then 0 else c.scan.loadCnt

def insnRetiredCount (c : CommitIn) : Nat :=
  if c.takeInterrupt then 0 else c.scan.retiredInstCount

-- ---------------------------------------------------------------------
-- Trap vectors
-- ---------------------------------------------------------------------

def vecBase (tvec : BitVec 64) : BitVec 64 := tvec &&& ~~~0b11#64

/-- An ECALL reports the privilege it was made from. -/
def exceptionCauseCode (c : CommitIn) : BitVec 4 :=
  let e := c.head c.scan.excSlot
  if e.isEcall then
    if c.privMode = privU then excEcallU
    else if c.privMode = privS then excEcallS
    else excEcallM
  else e.excCode

def exceptionDelegated (c : CommitIn) : Bool :=
  c.privMode != privM && c.medeleg.getLsbD c.exceptionCauseCode.toNat

def trapDelegated (c : CommitIn) : Bool := c.scan.foundException && c.exceptionDelegated

def trapVector (c : CommitIn) : BitVec 64 :=
  if c.trapDelegated then vecBase c.stvec else vecBase c.mtvec

/-- In vectored mode the cause selects one of the words behind the base. -/
def irqEntry (tvec cause : BitVec 64) : BitVec 64 :=
  if tvec.extractLsb' 0 2 = 0b01#2 then
    vecBase tvec + (cause.extractLsb' 0 6).setWidth 64 <<< 2
  else vecBase tvec

def irqVector (c : CommitIn) : BitVec 64 :=
  if c.irqToSupervisor then irqEntry c.stvec c.irqCause else irqEntry c.mtvec c.irqCause

-- ---------------------------------------------------------------------
-- Flush
-- ---------------------------------------------------------------------

abbrev rasNone : BitVec 2 := 0
abbrev rasPush : BitVec 2 := 1
abbrev rasPop : BitVec 2 := 2

def rasTosAfterBranch (preTos : BitVec 5) (rasOp : BitVec 2) : BitVec 5 :=
  if rasOp = rasPush then
    if preTos = BitVec.ofNat 5 (rasDepth - 1) then 0 else preTos + 1
  else if rasOp = rasPop then
    if preTos = 0 then 0 else preTos - 1
  else preTos

def flushTailIdx (c : CommitIn) : RobIdx :=
  let sum := c.headIdx.toNat + c.commitCount
  if sum ≥ robDepth then BitVec.ofNat robIdxBits (sum - robDepth) else BitVec.ofNat robIdxBits sum

def noFlush (c : CommitIn) : Flush where
  valid := false
  robIdx := c.flushTailIdx
  redirectPc := 0
  checkpointId := 0
  fullFlush := false
  rasTos := 0
  rasTopRestoreValid := false
  rasTopRestoreAddr := 0
  ghrRestoreValid := false
  ghrRestoreVal := 0

def fullFlushTo (c : CommitIn) (pc : BitVec 64) : Flush :=
  { c.noFlush with valid := true, fullFlush := true, redirectPc := pc }

def mispredictFlush (c : CommitIn) : Flush :=
  let e := c.head c.scan.mispSlot
  let restoreTop := e.bpRasOp == rasNone && e.bpRasTos != 0
  { c.fullFlushTo e.branchTarget with
    rasTos := rasTosAfterBranch e.bpRasTos e.bpRasOp
    rasTopRestoreValid := restoreTop
    rasTopRestoreAddr := if restoreTop then e.bpRasTop else 0
    ghrRestoreValid := true
    ghrRestoreVal :=
      if e.isBranch then e.bpGhr <<< 1 ||| (BitVec.ofBool e.branchTaken).setWidth ghrBits
      else e.bpGhr }

def flushOut (c : CommitIn) : Flush :=
  if c.scan.foundReplay then c.fullFlushTo (c.head c.scan.replaySlot).pc
  else if c.scan.foundException then c.fullFlushTo c.trapVector
  else if c.scan.foundMispredict then c.mispredictFlush
  else if c.scan.foundRet then c.fullFlushTo (if (c.head 0).isMret then c.mepc else c.sepc)
  else if c.vmSerialRedirect then c.fullFlushTo ((c.head 0).pc + 4)
  else if c.fenceCommitRedirect then c.fullFlushTo ((c.head 0).pc + 4)
  else if c.takeInterrupt then c.fullFlushTo c.irqVector
  else c.noFlush

def trapToSupervisor (c : CommitIn) : Bool :=
  if c.scan.foundReplay then false
  else if c.scan.foundException then c.trapDelegated
  else if c.scan.foundMispredict || c.scan.foundRet || c.vmSerialRedirect ||
      c.fenceCommitRedirect then false
  else c.takeInterrupt && c.irqToSupervisor

-- ---------------------------------------------------------------------
-- Outputs per entry
-- ---------------------------------------------------------------------

def csrCommitValid (c : CommitIn) : Bool :=
  decide (c.commitCount > 0) && (c.head 0).isCsr && (c.head 0).csrWe && !(c.head 0).hasException

def commitOut (c : CommitIn) (i : Nat) : CommitSlot where
  valid := c.scan.slotCanCommit i && !c.takeInterrupt
  pdst := (c.head i).pdst
  oldPdst := (c.head i).oldPdst
  rdArch := (c.head i).rdArch
  rdValid := c.scan.slotCanCommit i && (c.head i).rdValid && !(c.head i).hasException

def releaseCheckpoint (c : CommitIn) (i : Nat) : Bool :=
  c.scan.slotCanCommit i && (c.head i).usesCheckpoint && !c.takeInterrupt

-- ---------------------------------------------------------------------
-- What the scan finds
-- ---------------------------------------------------------------------

/-- What one slot does to the scan: nothing once it is done; it ends the scan without leaving;
it leaves with an exception; or it retires. -/
inductive StepCase (c : CommitIn) (s t : Scan) (i : Nat) : Prop
  | done (same : t = s) (was : s.done = true)
  | ends (was : s.done = false) (count : t.count = s.count)
      (slots : t.slotCanCommit = s.slotCanCommit) (exc : t.foundException = s.foundException)
      (now : t.done = true)
  | traps (was : s.done = false) (valid : (c.head i).valid = true)
      (ready : (c.head i).ready = true) (exception : (c.head i).hasException = true)
      (commits : t = { s.commits i with foundException := true, excSlot := i })
  | retires (was : s.done = false) (valid : (c.head i).valid = true)
      (ready : (c.head i).ready = true) (clean : (c.head i).hasException = false)
      (first : i = 0 ∨ (c.head i).isSerializing = false) (count : t.count = s.count + 1)
      (slots : t.slotCanCommit = (s.commits i).slotCanCommit)
      (exc : t.foundException = s.foundException)
      (open_ : t.done = false → (c.head i).isSerializing = false)

theorem retire_spec (c : CommitIn) (s : Scan) (i : Nat) :
    (c.retire s i).count = s.count + 1 ∧
      (c.retire s i).slotCanCommit = (s.commits i).slotCanCommit ∧
      (c.retire s i).foundException = s.foundException ∧
      ((c.retire s i).done = false → (c.head i).isSerializing = false) := by
  unfold retire
  dsimp only
  split
  · exact ⟨rfl, rfl, rfl, fun h => by simp [Scan.done] at h⟩
  · rename_i serial
    have none : (c.head i).isSerializing = false := by simpa using serial
    split
    · exact ⟨rfl, rfl, rfl, fun _ => none⟩
    · split <;> exact ⟨rfl, rfl, rfl, fun _ => none⟩

theorem scanStep_cases (c : CommitIn) (s : Scan) (i : Nat) :
    StepCase c s (c.scanStep s i) i := by
  unfold scanStep
  dsimp only
  cases was : s.done with
  | true => exact .done rfl was
  | false =>
    have ends : StepCase c s { s with stopped := true } i :=
      .ends was rfl rfl rfl (by simp [Scan.done])
    simp only [Bool.false_eq_true, if_false]
    cases valid : (c.head i).valid with
    | false => exact ends
    | true =>
      cases ready : (c.head i).ready with
      | false => exact ends
      | true =>
        simp only [Bool.not_true, Bool.false_eq_true, if_false]
        split
        · exact ends
        split
        · exact ends
        split
        · exact ends
        split
        · exact .ends was rfl rfl rfl (by simp [Scan.done])
        cases exception : (c.head i).hasException with
        | true => exact .traps was valid ready exception rfl
        | false =>
          simp only [Bool.false_eq_true, if_false]
          split
          · exact ends
          · rename_i first
            obtain ⟨count, slots, exc, open_⟩ := retire_spec c s i
            refine .retires was valid ready exception ?_ count slots exc open_
            simp only [gt_iff_lt, Bool.and_eq_true, decide_eq_true_eq, not_and,
              Bool.not_eq_true] at first
            exact (Nat.eq_zero_or_pos i).imp id first

/-- What holds of the scan after `n` slots. -/
structure ScanOk (c : CommitIn) (n : Nat) (s : Scan) : Prop where
  slots : ∀ i, s.slotCanCommit i = true ↔ i < s.count
  bound : s.count ≤ n
  reach : s.done = false → s.count = n
  ready : ∀ i < s.count, (c.head i).valid = true ∧ (c.head i).ready = true
  /-- Whatever ends the scan is the last to leave. -/
  clean : ∀ i < s.count, i + 1 < s.count ∨ s.done = false →
    (c.head i).hasException = false ∧ (c.head i).isSerializing = false
  alone : ∀ i < s.count, (c.head i).isSerializing = true → (c.head i).hasException = false → i = 0
  exception : s.foundException = true ↔ ∃ i < s.count, (c.head i).hasException = true

theorem scanOk_start (c : CommitIn) : ScanOk c 0 .start where
  slots i := by simp [Scan.start]
  bound := Nat.le_refl 0
  reach _ := rfl
  ready _ h := absurd h (Nat.not_lt_zero _)
  clean _ h := absurd h (Nat.not_lt_zero _)
  alone _ h := absurd h (Nat.not_lt_zero _)
  exception := by simp [Scan.start]

theorem ScanOk.slots_commits {c : CommitIn} {s : Scan} {n : Nat} (ok : ScanOk c n s)
    (was : s.done = false) (i : Nat) :
    (s.commits n).slotCanCommit i = true ↔ i < s.count + 1 := by
  have full := ok.reach was
  by_cases same : i = n
  · simp [Scan.commits, same, full]
  · simp only [Scan.commits, same, if_false, ok.slots]
    omega

theorem ScanOk.ready_commits {c : CommitIn} {s : Scan} {n : Nat} (ok : ScanOk c n s)
    (was : s.done = false) (valid : (c.head n).valid = true) (ready : (c.head n).ready = true) :
    ∀ i < s.count + 1, (c.head i).valid = true ∧ (c.head i).ready = true := by
  intro i hi
  rcases Nat.lt_succ_iff_lt_or_eq.mp hi with h | rfl
  · exact ok.ready i h
  · exact (ok.reach was).symm ▸ ⟨valid, ready⟩

theorem ScanOk.traps {c : CommitIn} {s : Scan} {n : Nat} (ok : ScanOk c n s) (was : s.done = false)
    (valid : (c.head n).valid = true) (ready : (c.head n).ready = true)
    (exception : (c.head n).hasException = true) :
    ScanOk c (n + 1) { s.commits n with foundException := true, excSlot := n } where
  slots := ok.slots_commits was
  bound := Nat.succ_le_succ ok.bound
  reach h := by simp [Scan.done] at h
  ready := ok.ready_commits was valid ready
  clean i _ more := by
    refine ok.clean i ?_ (.inr was)
    rcases more with h | h
    · exact Nat.succ_lt_succ_iff.mp h
    · simp [Scan.done] at h
  alone i hi serial noException := by
    rcases Nat.lt_succ_iff_lt_or_eq.mp hi with h | rfl
    · exact ok.alone i h serial noException
    · rw [ok.reach was, exception] at noException
      cases noException
  exception := iff_of_true rfl ⟨n, ok.reach was ▸ Nat.lt_succ_self _, exception⟩

theorem ScanOk.retires {c : CommitIn} {s t : Scan} {n : Nat} (ok : ScanOk c n s)
    (was : s.done = false) (valid : (c.head n).valid = true) (ready : (c.head n).ready = true)
    (noException : (c.head n).hasException = false)
    (first : n = 0 ∨ (c.head n).isSerializing = false) (count : t.count = s.count + 1)
    (slots : t.slotCanCommit = (s.commits n).slotCanCommit)
    (exc : t.foundException = s.foundException)
    (open_ : t.done = false → (c.head n).isSerializing = false) : ScanOk c (n + 1) t where
  slots i := by
    rw [slots, count]
    exact ok.slots_commits was i
  bound := by
    rw [count]
    exact Nat.succ_le_succ ok.bound
  reach _ := by rw [count, ok.reach was]
  ready := by
    rw [count]
    exact ok.ready_commits was valid ready
  clean := by
    rw [count]
    intro i hi more
    rcases Nat.lt_succ_iff_lt_or_eq.mp hi with h | rfl
    · exact ok.clean i h (.inr was)
    · rcases more with h | h
      · exact absurd h (Nat.lt_irrefl _)
      · exact (ok.reach was).symm ▸ ⟨noException, open_ h⟩
  alone := by
    rw [count]
    intro i hi serial none
    rcases Nat.lt_succ_iff_lt_or_eq.mp hi with h | rfl
    · exact ok.alone i h serial none
    · rw [ok.reach was] at serial ⊢
      rcases first with h | h
      · exact h
      · rw [serial] at h
        cases h
  exception := by
    rw [exc, count, ok.exception]
    constructor
    · rintro ⟨i, hi, h⟩
      exact ⟨i, Nat.lt_succ_of_lt hi, h⟩
    · rintro ⟨i, hi, h⟩
      rcases Nat.lt_succ_iff_lt_or_eq.mp hi with hi | rfl
      · exact ⟨i, hi, h⟩
      · rw [ok.reach was, noException] at h
        cases h

theorem scanOk_step {c : CommitIn} {s : Scan} {n : Nat} (ok : ScanOk c n s) :
    ScanOk c (n + 1) (c.scanStep s n) := by
  cases scanStep_cases c s n with
  | done same was =>
    rw [same]
    exact { ok with bound := Nat.le_succ_of_le ok.bound, reach := fun h => by simp [was] at h }
  | ends was count slots exc now =>
    constructor
    case slots =>
      rw [slots, count]
      exact ok.slots
    case bound =>
      rw [count]
      exact Nat.le_succ_of_le ok.bound
    case reach =>
      intro h
      simp [now] at h
    case ready =>
      rw [count]
      exact ok.ready
    case clean =>
      rw [count]
      exact fun i hi _ => ok.clean i hi (.inr was)
    case alone =>
      rw [count]
      exact ok.alone
    case exception =>
      rw [exc, count]
      exact ok.exception
  | traps was valid ready exception commits =>
    rw [commits]
    exact ok.traps was valid ready exception
  | retires was valid ready noException first count slots exc open_ =>
    exact ok.retires was valid ready noException first count slots exc open_

theorem scanOk (c : CommitIn) : ScanOk c pipeWidth c.scan := by
  suffices run : ∀ n, ScanOk c n (c.scanTo n) from run pipeWidth
  intro n
  induction n with
  | zero => exact scanOk_start c
  | succ n ih => exact scanOk_step ih

/-- The slots that leave are the first `commitCount`. -/
theorem commitOut_valid (c : CommitIn) (i : Nat) :
    (c.commitOut i).valid = true ↔ i < c.commitCount := by
  unfold commitOut commitCount
  cases c.takeInterrupt with
  | true => simp
  | false => simp [(scanOk c).slots]

theorem commitCount_le (c : CommitIn) : c.commitCount ≤ pipeWidth := by
  unfold commitCount
  split
  · exact Nat.zero_le _
  · exact (scanOk c).bound

theorem commitCount_le_scan (c : CommitIn) : c.commitCount ≤ c.scan.count := by
  unfold commitCount
  split
  · exact Nat.zero_le _
  · exact Nat.le_refl _

/-- Every flush commit asks for is a full one. -/
theorem flushOut_full (c : CommitIn) (flush : c.flushOut.valid = true) :
    c.flushOut.fullFlush = true := by
  unfold flushOut at flush ⊢
  repeat' split
  all_goals first | rfl | skip
  rename_i h1 h2 h3 h4 h5 h6 h7
  simp only [h1, h2, h3, h4, h5, h6, h7, if_false, noFlush, Bool.false_eq_true] at flush

/-- An exception that leaves the ROB flushes everything behind it. -/
theorem flushOut_of_exception (c : CommitIn) (leaves : i < c.commitCount)
    (exception : (c.head i).hasException = true) : c.flushOut.valid = true := by
  have found : c.scan.foundException = true :=
    (scanOk c).exception.mpr ⟨i, Nat.lt_of_lt_of_le leaves c.commitCount_le_scan, exception⟩
  unfold flushOut
  rw [found]
  split <;> rfl

end CommitIn

end Rv64gc.Backend
