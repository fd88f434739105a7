import Mathlib.Order.Bounds.Defs
import Rv64gc.Csr.Privilege
import Rv64gc.Rename.InFlight

/-!
# The group that retires

The window at the head of the ROB says by itself which entries may retire together, and which
entry asks for a flush. The scan finds the largest group that may retire and the one entry that
asks, and every output of commit describes that group and that entry.
-/

namespace Rv64gc.Backend

open Csr Rename Decode Decode.Fields

/-- Why fetch is redirected. -/
inductive Cause where
  | replay
  | exception
  | mispredict
  | trapReturn
  | vmSerial
  | fence
  | interrupt
deriving DecidableEq

namespace HeadEntry

def mispredicts (e : HeadEntry) : Bool := e.isControl && e.branchMispredict

/-- A write of a CSR that younger fetches or memory accesses depend on. -/
def changesVmState (e : HeadEntry) : Bool :=
  e.isCsr && e.csrWe &&
    (e.csrAddr == csrSatp || e.csrAddr == csrMstatus || e.csrAddr == csrSstatus)

/-- How many architectural instructions the entry stands for. -/
def insns (e : HeadEntry) : Nat := if e.isFused then 2 else 1

/-- At most one of the kinds that redirect by themselves. Decode marks SFENCE.VMA a fence too. -/
def OneKind (e : HeadEntry) : Prop :=
  [e.isMret || e.isSret, e.isCsr || e.isSfenceVma,
    (e.isFence || e.isFenceI) && !e.isSfenceVma].count true ≤ 1

/-- A serializing instruction acts in slot 0 only. -/
def waits (e : HeadEntry) : Bool := e.isSerializing && !e.hasException

/-- The entry asks for a flush of that kind. -/
def asks (e : HeadEntry) : Cause → Bool
  | .replay => e.replays
  | .exception => !e.replays && e.hasException
  | .mispredict => !e.hasException && !e.isSerializing && e.mispredicts
  | .trapReturn => !e.hasException && (e.isMret || e.isSret)
  | .vmSerial => !e.hasException && (e.changesVmState || e.isSfenceVma)
  | .fence => !e.hasException && (e.isFence || e.isFenceI) && !e.isSfenceVma
  | .interrupt => false

end HeadEntry

namespace CommitIn

variable (c : CommitIn)

-- ---------------------------------------------------------------------
-- What the window allows
-- ---------------------------------------------------------------------

/-- The entry is there and finished, and what it waits for has drained. -/
structure MayLeave (i : Nat) : Prop where
  valid : (c.head i).valid = true
  ready : (c.head i).ready = true
  fence : (c.head i).isFence = true → c.fenceIReady = true
  fenceI : (c.head i).isFenceI = true → c.fenceIReady = true
  sfenceVma : (c.head i).isSfenceVma = true → c.sfenceVmaReady = true

/-- The first `n` entries may retire in one cycle. -/
structure MayRetire (n : Nat) : Prop where
  width : n ≤ pipeWidth
  leave : ∀ i < n, c.MayLeave i
  clean : ∀ i < n, (c.head i).hasException = false
  alone : ∀ i < n, (c.head i).isSerializing = true → n = 1
  last : ∀ i < n, (c.head i).mispredicts = true → i + 1 = n

/-- The first `n` entries may retire in one cycle and let the next one follow. -/
structure Passes (n : Nat) : Prop where
  leave : ∀ i < n, c.MayLeave i
  clean : ∀ i < n, (c.head i).hasException = false
  plain : ∀ i < n, (c.head i).isSerializing = false
  predicted : ∀ i < n, (c.head i).mispredicts = false

/-- Entry `i` is the one to look at once everything older has retired. -/
structure Due (i : Nat) : Prop where
  width : i < pipeWidth
  passes : c.Passes i
  leave : c.MayLeave i

/-- Fetch is to be redirected for entry `i`. -/
inductive Raises : Cause → Nat → Prop
  | entry (due : c.Due i) (asks : (c.head i).asks cause = true)
      (turn : (c.head i).waits = true → i = 0) : Raises cause i
  | interrupt (taken : c.takeInterrupt = true) : Raises .interrupt 0

/-- The vector for the exception of entry `i`. -/
def vectorFor (i : Nat) : BitVec 64 :=
  let code := if (c.head i).isEcall then ecallCause c.privMode else (c.head i).excCode
  if c.privMode != privM && c.medeleg.getLsbD code.toNat then vecBase c.stvec else vecBase c.mtvec

/-- Where fetch goes on. -/
def targetOf (cause : Cause) (i : Nat) : BitVec 64 :=
  match cause with
  | .replay => (c.head i).pc
  | .exception => c.vectorFor i
  | .mispredict => (c.head i).branchTarget
  | .trapReturn => if (c.head i).isMret then c.mepc else c.sepc
  | .vmSerial | .fence => (c.head i).pc + 4
  | .interrupt => c.irqVector

-- ---------------------------------------------------------------------
-- What the outputs say
-- ---------------------------------------------------------------------

def Retires (i : Nat) : Prop := (c.commitOut i).valid = true ∧ (c.head i).hasException = false

def Traps (i : Nat) : Prop := (c.commitOut i).valid = true ∧ (c.head i).hasException = true

/-- The outputs describe the retirement of the first `r` entries. -/
structure Retired (r : Nat) : Prop where
  longest : c.takeInterrupt = false → IsGreatest {n | c.MayRetire n} r
  interrupted : c.takeInterrupt = true → c.commitCount = 0 ∧ r = 0
  slots : ∀ i, c.Retires i ↔ i < r
  leaves : c.commitCount = r ∧ (∀ i, ¬c.Traps i) ∨ c.commitCount = r + 1 ∧ c.Traps r
  stores : c.storeCommitCount = (List.range r).countP fun i => (c.head i).isStore
  loads : c.loadCommitCount = (List.range r).countP fun i => (c.head i).isLoad
  insns : c.insnRetiredCount = ((List.range r).map fun i => (c.head i).insns).sum
  csr : c.csrCommitValid = true ↔ ∃ i < r, (c.head i).isCsr = true ∧ (c.head i).csrWe = true
  csrSlot : ∀ i < r, (c.head i).isCsr = true → i = 0
  checkpoints : ∀ i, c.releaseCheckpoint i = true ↔
    i < c.commitCount ∧ (c.head i).usesCheckpoint = true
  maps : ∀ x : RenameIn, x.commit = commitWires c → ∀ cls i,
    RenameStage.cratWrEn x cls i = true ↔
      i < r ∧ (c.head i).rdValid = true ∧ RegClass.ofFp (c.head i).rdIsFp = cls

/-- An entry that excepts raises the one trap of the cycle. -/
structure TrapsOnce : Prop where
  raised : ∀ i, c.Traps i ↔ c.Raises .exception i
  once : ∀ i j, c.Traps i → c.Traps j → i = j
  entered : ∀ i, c.Traps i → ∀ s x, (trapOf s x c).valid = true ∧
    (trapOf s x c).cause =
      (if (c.head i).isEcall then ecallCause s.priv else (c.head i).excCode).setWidth 64 ∧
    (trapOf s x c).pc = (c.head i).trapPc ∧ (trapOf s x c).val = (c.head i).excTval
  noInterrupt : ∀ i, c.Traps i → c.takeInterrupt = false
  unmapped : ∀ i, (c.head i).hasException = true → (c.commitOut i).rdValid = false

/-- Fetch is redirected for one entry, to where that entry asks. -/
structure FlushesOnce : Prop where
  flush : c.flushOut.valid = true ↔ ∃ cause i, c.Raises cause i
  one : ∀ cause cause' i j, c.Raises cause i → c.Raises cause' j →
    i = j ∧ ((c.head i).OneKind → cause = cause')
  target : ∀ cause i, c.Raises cause i → (c.head i).OneKind →
    c.flushOut.redirectPc = c.targetOf cause i ∧ c.flushOut.fullFlush = true
  interrupt : c.takeInterrupt = true ↔ c.irqPending = true ∧ (c.head 0).valid = true ∧
    (∀ cause i, cause ≠ .interrupt → ¬c.Raises cause i) ∧
    ¬(c.Due 0 ∧ (c.head 0).waits = true)

-- ---------------------------------------------------------------------
-- How the scan ends
-- ---------------------------------------------------------------------

/-- The scan counts the first `r` entries as retired. -/
structure Tally (s : Scan) (r : Nat) : Prop where
  stores : s.storeCnt = (List.range r).countP fun i => (c.head i).isStore
  loads : s.loadCnt = (List.range r).countP fun i => (c.head i).isLoad
  insns : s.retiredInstCount = ((List.range r).map fun i => (c.head i).insns).sum

/-- What the scan has found. -/
structure Finds (s : Scan) (exception mispredict ret replay : Bool) : Prop where
  exception : s.foundException = exception
  mispredict : s.foundMispredict = mispredict
  ret : s.foundRet = ret
  replay : s.foundReplay = replay

/-- Entry `k` ends the scan. -/
inductive Ends (s : Scan) (k : Nat) : Prop
  | blocked (stuck : c.MayLeave k →
        (c.head k).hasException = false ∧ (c.head k).isSerializing = true ∧ k ≠ 0)
      (count : s.count = k) (tally : c.Tally s k) (finds : Finds s false false false false)
  | replays (leave : c.MayLeave k) (replays : (c.head k).replays = true) (slot : s.replaySlot = k)
      (count : s.count = k) (tally : c.Tally s k) (finds : Finds s false false false true)
  | traps (leave : c.MayLeave k) (stays : (c.head k).replays = false)
      (exception : (c.head k).hasException = true) (slot : s.excSlot = k)
      (count : s.count = k + 1) (tally : c.Tally s k) (finds : Finds s true false false false)
  | serial (leave : c.MayLeave k) (clean : (c.head k).hasException = false)
      (serial : (c.head k).isSerializing = true) (first : k = 0)
      (count : s.count = k + 1) (tally : c.Tally s (k + 1))
      (finds : Finds s false false ((c.head k).isMret || (c.head k).isSret) false)
  | mispredicts (leave : c.MayLeave k) (clean : (c.head k).hasException = false)
      (plain : (c.head k).isSerializing = false) (wrong : (c.head k).mispredicts = true)
      (slot : s.mispSlot = k) (count : s.count = k + 1) (tally : c.Tally s (k + 1))
      (finds : Finds s false true false false)

/-- How the scan stands after `n` slots. -/
inductive Stands (n : Nat) (s : Scan) : Prop
  | goes (on : s.done = false) (passes : c.Passes n) (count : s.count = n) (tally : c.Tally s n)
      (finds : Finds s false false false false)
  | ended (done : s.done = true) (k : Nat) (before : k < n) (passes : c.Passes k)
      (ends : c.Ends s k)

variable {c}

theorem stands_start : c.Stands 0 .start :=
  .goes rfl ⟨nofun, nofun, nofun, nofun⟩ rfl ⟨rfl, rfl, rfl⟩ ⟨rfl, rfl, rfl, rfl⟩

theorem Passes.succ (passes : c.Passes n) (leave : c.MayLeave n)
    (clean : (c.head n).hasException = false) (plain : (c.head n).isSerializing = false)
    (predicted : (c.head n).mispredicts = false) : c.Passes (n + 1) where
  leave i hi := by
    rcases Nat.lt_succ_iff_lt_or_eq.mp hi with h | rfl
    · exact passes.leave i h
    · exact leave
  clean i hi := by
    rcases Nat.lt_succ_iff_lt_or_eq.mp hi with h | rfl
    · exact passes.clean i h
    · exact clean
  plain i hi := by
    rcases Nat.lt_succ_iff_lt_or_eq.mp hi with h | rfl
    · exact passes.plain i h
    · exact plain
  predicted i hi := by
    rcases Nat.lt_succ_iff_lt_or_eq.mp hi with h | rfl
    · exact passes.predicted i h
    · exact predicted

/-- A retiring entry is counted with the others. -/
theorem Tally.retire {t : Scan} (tally : c.Tally s n)
    (stores : t.storeCnt = if (c.head n).isStore then s.storeCnt + 1 else s.storeCnt)
    (loads : t.loadCnt = if (c.head n).isLoad then s.loadCnt + 1 else s.loadCnt)
    (insns : t.retiredInstCount = s.retiredInstCount + (c.head n).insns) :
    c.Tally t (n + 1) where
  stores := by
    rw [stores, tally.stores, List.range_succ, List.countP_append]
    cases store : (c.head n).isStore <;> simp [store]
  loads := by
    rw [loads, tally.loads, List.range_succ, List.countP_append]
    cases load : (c.head n).isLoad <;> simp [load]
  insns := by
    rw [insns, tally.insns, List.range_succ, List.map_append, List.sum_append]
    simp

/-- The cases in which an entry waits, as the scan tests them. -/
theorem mayLeave_iff (c : CommitIn) (n : Nat) :
    c.MayLeave n ↔ (!(c.head n).valid) = false ∧ (!(c.head n).ready) = false ∧
      ((c.head n).isFence && !c.fenceIReady) = false ∧
      ((c.head n).isFenceI && !c.fenceIReady) = false ∧
      ((c.head n).isSfenceVma && !c.sfenceVmaReady) = false := by
  constructor
  · rintro ⟨valid, ready, fence, fenceI, sfenceVma⟩
    simpa [valid, ready] using ⟨fence, fenceI, sfenceVma⟩
  · rintro ⟨valid, ready, fence, fenceI, sfenceVma⟩
    refine ⟨?_, ?_, ?_, ?_, ?_⟩ <;> simp_all

/-- What keeps an entry from leaving ends the scan before anything else is looked at. -/
theorem scanStep_stuck (on : s.done = false) (stuck : ¬c.MayLeave n) :
    c.scanStep s n = { s with stopped := true } := by
  rw [mayLeave_iff] at stuck
  simp only [scanStep, on, Bool.false_eq_true, if_false]
  split
  · rfl
  split
  · rfl
  split
  · rfl
  split
  · rfl
  split
  · rfl
  rename_i h1 h2 h3 h4 h5
  simp only [Bool.not_eq_true] at h1 h2 h3 h4 h5
  exact absurd ⟨h1, h2, h3, h4, h5⟩ stuck

/-- An entry that may leave is replayed, traps, waits for slot 0 or retires. -/
theorem scanStep_leave (on : s.done = false) (leave : c.MayLeave n) :
    c.scanStep s n =
      if (c.head n).replays then { s with foundReplay := true, replaySlot := n }
      else if (c.head n).hasException then
        { s.commits n with foundException := true, excSlot := n }
      else if decide (n > 0) && (c.head n).isSerializing then { s with stopped := true }
      else c.retire s n := by
  obtain ⟨h1, h2, h3, h4, h5⟩ := (mayLeave_iff c n).mp leave
  simp only [scanStep, on, h1, h2, h3, h4, h5, Bool.false_eq_true, if_false]

theorem done_iff (s : Scan) : s.done =
    (s.stopped || s.foundException || s.foundMispredict || s.foundRet || s.foundReplay) := rfl

/-- The scan with entry `i` counted. -/
def counted (c : CommitIn) (s : Scan) (i : Nat) : Scan :=
  { s.commits i with
    retiredInstCount := s.retiredInstCount + (c.head i).insns
    storeCnt := if (c.head i).isStore then s.storeCnt + 1 else s.storeCnt
    loadCnt := if (c.head i).isLoad then s.loadCnt + 1 else s.loadCnt }

theorem retire_eq (c : CommitIn) (s : Scan) (i : Nat) : c.retire s i =
    if (c.head i).isSerializing then
      { c.counted s i with
        stopped := true, foundRet := s.foundRet || (c.head i).isMret || (c.head i).isSret }
    else if (c.head i).mispredicts then
      { c.counted s i with foundMispredict := true, mispSlot := i }
    else if (c.head i).isMret || (c.head i).isSret then { c.counted s i with foundRet := true }
    else c.counted s i := rfl

/-- A retiring entry ends the scan if it is serializing or mispredicted. -/
theorem stands_retire (on : s.done = false) (passes : c.Passes n) (count : s.count = n)
    (tally : c.Tally s n) (finds : Finds s false false false false) (leave : c.MayLeave n)
    (clean : (c.head n).hasException = false) (first : (c.head n).isSerializing = true → n = 0) :
    c.Stands (n + 1) (c.retire s n) := by
  obtain ⟨noExc, noMisp, noRet, noReplay⟩ := finds
  rw [retire_eq]
  cases serial : (c.head n).isSerializing with
  | true =>
    exact .ended (by simp [done_iff]) n n.lt_succ_self passes
      (.serial leave clean serial (first serial) (congrArg (· + 1) count)
        (tally.retire rfl rfl rfl) ⟨noExc, noMisp, by simp [noRet], noReplay⟩)
  | false =>
    have noReturn : ((c.head n).isMret || (c.head n).isSret) = false := by
      simp only [HeadEntry.isSerializing, Bool.or_eq_false_iff] at serial ⊢
      exact ⟨serial.1.1.1.1.2, serial.1.1.1.2⟩
    rw [noReturn]
    cases wrong : (c.head n).mispredicts with
    | true =>
      exact .ended (by simp [done_iff]) n n.lt_succ_self passes
        (.mispredicts leave clean serial wrong rfl (congrArg (· + 1) count)
          (tally.retire rfl rfl rfl) ⟨noExc, rfl, noRet, noReplay⟩)
    | false =>
      exact .goes on (passes.succ leave clean serial wrong) (congrArg (· + 1) count)
        (tally.retire rfl rfl rfl) ⟨noExc, noMisp, noRet, noReplay⟩

theorem stands_step (stands : c.Stands n s) : c.Stands (n + 1) (c.scanStep s n) := by
  cases stands with
  | ended done k before passes ends =>
    have same : c.scanStep s n = s := by
      simp only [scanStep, done, if_true]
    rw [same]
    exact .ended done k (Nat.lt_succ_of_lt before) passes ends
  | goes on passes count tally finds =>
    have keep : ∀ {t : Scan}, t.storeCnt = s.storeCnt → t.loadCnt = s.loadCnt →
        t.retiredInstCount = s.retiredInstCount → c.Tally t n := fun stores loads insns =>
      ⟨stores.trans tally.stores, loads.trans tally.loads, insns.trans tally.insns⟩
    obtain ⟨noExc, noMisp, noRet, noReplay⟩ := finds
    by_cases leave : c.MayLeave n
    · rw [scanStep_leave on leave]
      cases replays : (c.head n).replays with
      | true =>
        exact .ended (by simp [done_iff]) n n.lt_succ_self passes
          (.replays leave replays rfl count (keep rfl rfl rfl) ⟨noExc, noMisp, noRet, rfl⟩)
      | false =>
        cases exception : (c.head n).hasException with
        | true =>
          exact .ended (by simp [done_iff]) n n.lt_succ_self passes
            (.traps leave replays exception rfl (by simp [Scan.commits, count])
              (keep rfl rfl rfl) ⟨rfl, noMisp, noRet, noReplay⟩)
        | false =>
          simp only [Bool.false_eq_true, if_false]
          split
          · rename_i late
            simp only [gt_iff_lt, Bool.and_eq_true, decide_eq_true_eq] at late
            exact .ended (by simp [done_iff]) n n.lt_succ_self passes
              (.blocked (fun _ => ⟨exception, late.2, late.1.ne'⟩) count (keep rfl rfl rfl)
                ⟨noExc, noMisp, noRet, noReplay⟩)
          · rename_i first
            refine stands_retire on passes count tally ⟨noExc, noMisp, noRet, noReplay⟩ leave
              exception fun serial => ?_
            by_contra later
            simp [serial, Nat.pos_iff_ne_zero, later] at first
    · rw [scanStep_stuck on leave]
      exact .ended (by simp [done_iff]) n n.lt_succ_self passes
        (.blocked (fun h => absurd h leave) count (keep rfl rfl rfl)
          ⟨noExc, noMisp, noRet, noReplay⟩)

/-- The scan passes every entry of the window or is ended by one of them. -/
theorem stands (c : CommitIn) : c.Stands pipeWidth c.scan := by
  suffices run : ∀ n, c.Stands n (c.scanTo n) from run pipeWidth
  intro n
  induction n with
  | zero => exact stands_start
  | succ n ih => exact stands_step ih

-- ---------------------------------------------------------------------
-- The entry that asks for a flush
-- ---------------------------------------------------------------------

theorem replays_exception {e : HeadEntry} (replays : e.replays = true) : e.hasException = true := by
  simp only [HeadEntry.replays, Bool.and_eq_true] at replays
  exact replays.1

/-- An entry that asks for a flush lets nothing follow. -/
theorem asks_stops {e : HeadEntry} (asks : e.asks cause = true) :
    e.hasException = true ∨ e.isSerializing = true ∨ e.mispredicts = true := by
  cases cause <;> simp only [HeadEntry.asks, HeadEntry.changesVmState, HeadEntry.isSerializing,
    Bool.and_eq_true, Bool.or_eq_true] at asks ⊢
  case replay => exact .inl (replays_exception asks)
  all_goals tauto

theorem Passes.le_of_asks (passes : c.Passes n) (asks : (c.head i).asks cause = true) :
    n ≤ i := by
  by_contra early
  have early := Nat.lt_of_not_le early
  rcases asks_stops asks with h | h | h
  · cases (passes.clean i early).symm.trans h
  · cases (passes.plain i early).symm.trans h
  · cases (passes.predicted i early).symm.trans h

theorem Raises.unique (a : c.Raises cause i) (b : c.Raises cause' j)
    (quiet : c.takeInterrupt = false) : i = j := by
  cases a with
  | interrupt taken => cases quiet.symm.trans taken
  | entry due asks turn =>
    cases b with
    | interrupt taken => cases quiet.symm.trans taken
    | entry due' asks' turn' =>
      exact Nat.le_antisymm (due.passes.le_of_asks asks') (due'.passes.le_of_asks asks)

theorem asks_unique {e : HeadEntry} (one : e.OneKind) (a : e.asks k = true)
    (b : e.asks j = true) : k = j := by
  cases k <;> cases j <;> first | rfl | skip
  all_goals
    simp only [HeadEntry.asks, HeadEntry.OneKind, HeadEntry.changesVmState, HeadEntry.replays,
      HeadEntry.isSerializing, HeadEntry.mispredicts] at one a b
    grind

/-- The scan is ended by the entry that is to be redirected for. -/
theorem ends_of_due (due : c.Due i) (asks : (c.head i).asks cause = true) : c.Ends c.scan i := by
  cases stands c with
  | goes on passes =>
    exact absurd (passes.le_of_asks asks) (Nat.not_le_of_lt due.width)
  | ended done k before passes ends =>
    rcases Nat.lt_or_eq_of_le (passes.le_of_asks asks) with early | rfl
    · have leave := due.passes.leave k early
      have clean := due.passes.clean k early
      have plain := due.passes.plain k early
      have predicted := due.passes.predicted k early
      cases ends with
      | blocked stuck => cases (stuck leave).2.1.symm.trans plain
      | replays _ replays => cases (replays_exception replays).symm.trans clean
      | traps _ _ exception => cases exception.symm.trans clean
      | serial _ _ serial => cases serial.symm.trans plain
      | mispredicts _ _ _ wrong => cases wrong.symm.trans predicted
    · exact ends

theorem vmSerialRedirect_eq (c : CommitIn) :
    c.vmSerialRedirect = (decide (c.scan.count > 0) && (c.head 0).asks .vmSerial) := by
  simp only [vmSerialRedirect, vmStateCsrCommit, sfenceVmaCommit, HeadEntry.asks,
    HeadEntry.changesVmState]
  cases (c.head 0).hasException <;> simp [Bool.and_or_distrib_left, Bool.and_assoc]

theorem fenceCommitRedirect_eq (c : CommitIn) :
    c.fenceCommitRedirect = (decide (c.scan.count > 0) && (c.head 0).asks .fence) := by
  simp only [fenceCommitRedirect, HeadEntry.asks]
  cases (c.head 0).hasException <;> simp [Bool.and_assoc]

/-- A redirect that names no slot is for the head, which retires. -/
theorem due_of_leaves (some : c.scan.count > 0) (serial : (c.head 0).isSerializing = true) :
    c.Due 0 := by
  cases stands c with
  | goes on passes => cases serial.symm.trans (passes.plain 0 (by decide))
  | ended done k before passes ends =>
    cases k with
    | succ k => cases serial.symm.trans (passes.plain 0 k.succ_pos)
    | zero =>
      refine ⟨by decide, passes, ?_⟩
      cases ends with
      | blocked _ count => exact absurd some (by simp [count])
      | replays leave => exact leave
      | traps leave => exact leave
      | serial leave => exact leave
      | mispredicts leave => exact leave

theorem asks_serial {e : HeadEntry} (asks : e.asks k = true)
    (kind : k = .trapReturn ∨ k = .vmSerial ∨ k = .fence) : e.waits = true := by
  rcases kind with rfl | rfl | rfl <;>
    simp only [HeadEntry.asks, HeadEntry.waits, HeadEntry.changesVmState, HeadEntry.isSerializing,
      Bool.and_eq_true, Bool.or_eq_true, Bool.not_eq_true'] at asks ⊢ <;> tauto

theorem due_of_redirect (some : c.scan.count > 0) (asks : (c.head 0).asks k = true)
    (kind : k = .trapReturn ∨ k = .vmSerial ∨ k = .fence) : c.Raises k 0 := by
  have waits := asks_serial asks kind
  simp only [HeadEntry.waits, Bool.and_eq_true] at waits
  exact .entry (due_of_leaves some waits.1) asks fun _ => rfl

/-- What the scan has found, an entry asks for. -/
theorem raises_of_found (found : c.scan.foundReplay = true ∨ c.scan.foundException = true ∨
    c.scan.foundMispredict = true ∨ c.scan.foundRet = true) :
    ∃ cause i, c.Raises cause i ∧ cause ≠ .interrupt := by
  cases stands c with
  | goes _ _ _ _ finds =>
    simp [finds.exception, finds.mispredict, finds.ret, finds.replay] at found
  | ended done k before passes ends =>
    cases ends with
    | blocked _ _ _ finds =>
      simp [finds.exception, finds.mispredict, finds.ret, finds.replay] at found
    | replays leave replays =>
      exact ⟨.replay, k, .entry ⟨before, passes, leave⟩ replays fun waits => by
        simp [HeadEntry.waits, replays_exception replays] at waits, nofun⟩
    | traps leave stays exception =>
      exact ⟨.exception, k, .entry ⟨before, passes, leave⟩
        (by simp [HeadEntry.asks, stays, exception]) fun waits => by
          simp [HeadEntry.waits, exception] at waits, nofun⟩
    | serial leave clean serial first _ _ finds =>
      refine ⟨.trapReturn, k, .entry ⟨before, passes, leave⟩ ?_ fun _ => first, nofun⟩
      simpa [finds.exception, finds.mispredict, finds.ret, finds.replay, HeadEntry.asks, clean]
        using found
    | mispredicts leave clean plain wrong =>
      exact ⟨.mispredict, k, .entry ⟨before, passes, leave⟩
        (by simp [HeadEntry.asks, clean, plain, wrong]) fun waits => by
          simp [HeadEntry.waits, plain] at waits, nofun⟩

theorem trapVector_eq (found : c.scan.foundException = true) (slot : c.scan.excSlot = i) :
    c.trapVector = c.vectorFor i := by
  simp only [trapVector, trapDelegated, found, exceptionDelegated, exceptionCauseCode, slot,
    Bool.true_and, vectorFor, ecallCause]
  rfl

/-- A serializing entry at the head redirects by its kind. -/
theorem flush_of_serial (count : c.scan.count > 0)
    (finds : Finds c.scan false false ((c.head 0).isMret || (c.head 0).isSret) false)
    (asks : (c.head 0).asks cause = true) (clean : (c.head 0).hasException = false)
    (kind : cause = .trapReturn ∨ cause = .vmSerial ∨ cause = .fence) :
    c.flushOut.valid = true ∧ c.flushOut.fullFlush = true ∧
      ((c.head 0).OneKind → c.flushOut.redirectPc = c.targetOf cause 0) := by
  have ret : c.scan.foundRet = (c.head 0).asks .trapReturn := by
    simp [finds.ret, HeadEntry.asks, clean]
  simp only [flushOut, finds.replay, finds.exception, finds.mispredict, Bool.false_eq_true,
    if_false, ret, vmSerialRedirect_eq, fenceCommitRedirect_eq, count, decide_true, Bool.true_and]
  split
  · rename_i isReturn
    refine ⟨rfl, rfl, fun one => ?_⟩
    rw [asks_unique one asks isReturn]
    rfl
  split
  · rename_i isVm
    refine ⟨rfl, rfl, fun one => ?_⟩
    rw [asks_unique one asks isVm]
    rfl
  split
  · rename_i isFence
    refine ⟨rfl, rfl, fun one => ?_⟩
    rw [asks_unique one asks isFence]
    rfl
  · rename_i noReturn noVm noFence
    rcases kind with rfl | rfl | rfl
    · exact absurd asks noReturn
    · exact absurd asks noVm
    · exact absurd asks noFence

/-- An entry that asks for a flush is the one the scan has found. -/
theorem flush_of_entry (due : c.Due i) (asks : (c.head i).asks cause = true)
    (turn : (c.head i).waits = true → i = 0) :
    c.takeInterrupt = false ∧ c.flushOut.valid = true ∧ c.flushOut.fullFlush = true ∧
      ((c.head i).OneKind → c.flushOut.redirectPc = c.targetOf cause i) := by
  cases ends_of_due due asks with
  | blocked stuck =>
    obtain ⟨clean, serial, late⟩ := stuck due.leave
    exact absurd (turn (by simp [HeadEntry.waits, clean, serial])) late
  | replays leave replays slot _ _ finds =>
    refine ⟨by simp [takeInterrupt, finds.replay], ?_⟩
    have eq : c.flushOut = c.fullFlushTo (c.head i).pc := by simp [flushOut, finds.replay, slot]
    rw [eq]
    refine ⟨rfl, rfl, fun one => ?_⟩
    rw [asks_unique one asks (j := .replay) replays]
    rfl
  | traps leave stays exception slot _ _ finds =>
    refine ⟨by simp [takeInterrupt, finds.exception], ?_⟩
    have eq : c.flushOut = c.fullFlushTo c.trapVector := by
      simp [flushOut, finds.replay, finds.exception]
    rw [eq]
    refine ⟨rfl, rfl, fun one => ?_⟩
    rw [asks_unique one asks (j := .exception) (by simp [HeadEntry.asks, stays, exception])]
    exact trapVector_eq finds.exception slot
  | serial leave clean serial first count _ finds =>
    subst first
    have some : c.scan.count > 0 := count ▸ Nat.succ_pos _
    refine ⟨by simp [takeInterrupt, serializingAtHead, some, serial], ?_⟩
    refine flush_of_serial some finds asks clean ?_
    cases cause <;> simp [HeadEntry.asks, HeadEntry.replays, clean, serial] at asks ⊢
  | mispredicts leave clean plain wrong slot _ _ finds =>
    refine ⟨by simp [takeInterrupt, finds.mispredict], ?_⟩
    have eq : c.flushOut = c.mispredictFlush := by
      simp [flushOut, finds.replay, finds.exception, finds.mispredict]
    rw [eq]
    refine ⟨rfl, rfl, fun one => ?_⟩
    rw [asks_unique one asks (j := .mispredict) (by simp [HeadEntry.asks, clean, plain, wrong])]
    simp [mispredictFlush, slot, fullFlushTo, targetOf]

/-- An interrupt is taken only when no commit redirects. -/
theorem noRedirect_of_interrupt (taken : c.takeInterrupt = true) :
    c.vmSerialRedirect = false ∧ c.fenceCommitRedirect = false := by
  have noRedirect (k : Cause) (kind : k = .trapReturn ∨ k = .vmSerial ∨ k = .fence) :
      (decide (c.scan.count > 0) && (c.head 0).asks k) = false := by
    by_contra redirect
    simp only [Bool.not_eq_false, Bool.and_eq_true, decide_eq_true_eq] at redirect
    cases due_of_redirect redirect.1 redirect.2 kind with
    | entry due asks turn => cases (flush_of_entry due asks turn).1.symm.trans taken
    | interrupt => simp at kind
  constructor
  · exact (vmSerialRedirect_eq c).trans (noRedirect .vmSerial (.inr (.inl rfl)))
  · exact (fenceCommitRedirect_eq c).trans (noRedirect .fence (.inr (.inr rfl)))

theorem flush_of_interrupt (taken : c.takeInterrupt = true) :
    c.flushOut = c.fullFlushTo c.irqVector := by
  obtain ⟨noVm, noFence⟩ := noRedirect_of_interrupt taken
  unfold flushOut
  rw [noVm, noFence, taken]
  simp only [takeInterrupt, Bool.and_eq_true, Bool.not_eq_true'] at taken
  simp [taken]

theorem raises_of_flush (flush : c.flushOut.valid = true) : ∃ cause i, c.Raises cause i := by
  by_cases taken : c.takeInterrupt = true
  · exact ⟨.interrupt, 0, .interrupt taken⟩
  have found (h : c.scan.foundReplay = true ∨ c.scan.foundException = true ∨
      c.scan.foundMispredict = true ∨ c.scan.foundRet = true) : ∃ cause i, c.Raises cause i := by
    obtain ⟨cause, i, raises, -⟩ := raises_of_found h
    exact ⟨cause, i, raises⟩
  unfold flushOut at flush
  split at flush
  · exact found (.inl ‹_›)
  split at flush
  · exact found (.inr (.inl ‹_›))
  split at flush
  · exact found (.inr (.inr (.inl ‹_›)))
  split at flush
  · exact found (.inr (.inr (.inr ‹_›)))
  split at flush
  · rename_i redirect
    simp only [vmSerialRedirect_eq, Bool.and_eq_true, decide_eq_true_eq] at redirect
    exact ⟨_, 0, due_of_redirect redirect.1 redirect.2 (.inr (.inl rfl))⟩
  split at flush
  · rename_i redirect
    simp only [fenceCommitRedirect_eq, Bool.and_eq_true, decide_eq_true_eq] at redirect
    exact ⟨_, 0, due_of_redirect redirect.1 redirect.2 (.inr (.inr rfl))⟩
  · cases flush

/-- A serializing entry that is due leaves. -/
theorem serializingAtHead_iff (clean : (c.head 0).hasException = false) :
    c.serializingAtHead = true ↔ c.Due 0 ∧ (c.head 0).waits = true := by
  simp only [serializingAtHead, HeadEntry.waits, clean, Bool.not_false, Bool.and_true,
    Bool.and_eq_true, decide_eq_true_eq]
  constructor
  · rintro ⟨some, serial⟩
    exact ⟨due_of_leaves some serial, serial⟩
  · rintro ⟨due, serial⟩
    refine ⟨?_, serial⟩
    cases stands c with
    | goes _ passes => cases serial.symm.trans (passes.plain 0 (by decide))
    | ended done k before passes ends =>
      cases k with
      | succ k => cases serial.symm.trans (passes.plain 0 k.succ_pos)
      | zero =>
        cases ends with
        | blocked stuck => exact absurd rfl (stuck due.leave).2.2
        | replays _ replays => cases (replays_exception replays).symm.trans clean
        | traps _ _ exception => cases exception.symm.trans clean
        | serial _ _ _ _ count => exact count ▸ Nat.succ_pos _
        | mispredicts _ _ plain => cases serial.symm.trans plain

theorem takeInterrupt_iff (c : CommitIn) : c.takeInterrupt = true ↔
    c.irqPending = true ∧ (c.head 0).valid = true ∧
      (∀ cause i, cause ≠ .interrupt → ¬c.Raises cause i) ∧
      ¬(c.Due 0 ∧ (c.head 0).waits = true) := by
  constructor
  · intro taken
    have parts := taken
    simp only [takeInterrupt, Bool.and_eq_true, Bool.not_eq_true'] at parts
    refine ⟨parts.1.1.1.1.1.1, parts.1.1.1.1.1.2, ?_, ?_⟩
    · intro cause i other raises
      cases raises with
      | entry due asks turn => cases (flush_of_entry due asks turn).1.symm.trans taken
      | interrupt => exact other rfl
    · rintro ⟨due, waits⟩
      have clean : (c.head 0).hasException = false := by
        simp only [HeadEntry.waits, Bool.and_eq_true, Bool.not_eq_true'] at waits
        exact waits.2
      cases parts.2.symm.trans ((serializingAtHead_iff clean).mpr ⟨due, waits⟩)
  · rintro ⟨pending, valid, none, noSerial⟩
    have noFound : ¬(c.scan.foundReplay = true ∨ c.scan.foundException = true ∨
        c.scan.foundMispredict = true ∨ c.scan.foundRet = true) := fun found => by
      obtain ⟨cause, i, raises, other⟩ := raises_of_found found
      exact none cause i other raises
    simp only [not_or, Bool.not_eq_true] at noFound
    have quiet : c.serializingAtHead = false := by
      by_contra atHead
      simp only [Bool.not_eq_false] at atHead
      have due : c.Due 0 := by
        simp only [serializingAtHead, Bool.and_eq_true, decide_eq_true_eq] at atHead
        exact due_of_leaves atHead.1 atHead.2
      cases clean : (c.head 0).hasException with
      | false => exact noSerial ((serializingAtHead_iff clean).mp atHead)
      | true =>
        have turn : (c.head 0).waits = true → 0 = 0 := fun _ => rfl
        cases stays : (c.head 0).replays with
        | true => exact none .replay 0 nofun (.entry due stays turn)
        | false =>
          exact none .exception 0 nofun
            (.entry due (by simp [HeadEntry.asks, stays, clean]) turn)
    simp [takeInterrupt, pending, valid, noFound, quiet]

theorem flushesOnce (c : CommitIn) : c.FlushesOnce where
  flush := by
    refine ⟨raises_of_flush, ?_⟩
    rintro ⟨cause, i, raises⟩
    cases raises with
    | entry due asks turn => exact (flush_of_entry due asks turn).2.1
    | interrupt taken =>
      rw [flush_of_interrupt taken]
      rfl
  one := by
    intro cause cause' i j a b
    cases a with
    | interrupt taken =>
      cases b with
      | interrupt => exact ⟨rfl, fun _ => rfl⟩
      | entry due asks turn => cases (flush_of_entry due asks turn).1.symm.trans taken
    | entry due asks turn =>
      have quiet := (flush_of_entry due asks turn).1
      obtain rfl := Raises.unique (.entry due asks turn) b quiet
      refine ⟨rfl, fun one => ?_⟩
      cases b with
      | interrupt taken => cases quiet.symm.trans taken
      | entry _ asks' => exact asks_unique one asks asks'
  target := by
    intro cause i raises one
    cases raises with
    | entry due asks turn =>
      obtain ⟨-, -, full, target⟩ := flush_of_entry due asks turn
      exact ⟨target one, full⟩
    | interrupt taken =>
      rw [flush_of_interrupt taken]
      exact ⟨rfl, rfl⟩
  interrupt := takeInterrupt_iff c

-- ---------------------------------------------------------------------
-- The entry that traps
-- ---------------------------------------------------------------------

theorem leaves_iff (c : CommitIn) (i : Nat) :
    (c.commitOut i).valid = true ↔ c.takeInterrupt = false ∧ i < c.scan.count := by
  rw [commitOut_valid, commitCount]
  cases c.takeInterrupt <;> simp

theorem traps_iff (c : CommitIn) (i : Nat) : c.Traps i ↔ c.Raises .exception i := by
  unfold Traps
  rw [leaves_iff]
  constructor
  · rintro ⟨⟨-, inScan⟩, exception⟩
    cases stands c with
    | goes _ passes count =>
      cases (passes.clean i (count ▸ inScan)).symm.trans exception
    | ended done k before passes ends =>
      have late : k ≤ i := by
        by_contra early
        cases (passes.clean i (Nat.lt_of_not_le early)).symm.trans exception
      cases ends with
      | blocked _ count => exact absurd (count ▸ inScan) (Nat.not_lt_of_le late)
      | replays _ _ _ count => exact absurd (count ▸ inScan) (Nat.not_lt_of_le late)
      | traps leave stays _ _ count =>
        obtain rfl := Nat.le_antisymm late (Nat.lt_succ_iff.mp (Nat.lt_of_lt_of_eq inScan count))
        exact .entry ⟨before, passes, leave⟩ (by simp [HeadEntry.asks, stays, exception])
          fun waits => by simp [HeadEntry.waits, exception] at waits
      | serial _ clean _ _ count =>
        obtain rfl := Nat.le_antisymm late (Nat.lt_succ_iff.mp (Nat.lt_of_lt_of_eq inScan count))
        cases clean.symm.trans exception
      | mispredicts _ clean _ _ _ count =>
        obtain rfl := Nat.le_antisymm late (Nat.lt_succ_iff.mp (Nat.lt_of_lt_of_eq inScan count))
        cases clean.symm.trans exception
  · rintro ⟨due, asks, turn⟩
    have quiet := (flush_of_entry due asks turn).1
    have asked := asks
    simp only [HeadEntry.asks, Bool.and_eq_true, Bool.not_eq_true'] at asked
    refine ⟨⟨quiet, ?_⟩, asked.2⟩
    cases ends_of_due due asks with
    | blocked stuck => cases (stuck due.leave).1.symm.trans asked.2
    | replays _ replays => cases asked.1.symm.trans replays
    | traps _ _ _ _ count => exact count ▸ Nat.lt_succ_self _
    | serial _ clean => cases clean.symm.trans asked.2
    | mispredicts _ clean => cases clean.symm.trans asked.2

theorem Traps.unique (a : c.Traps i) (b : c.Traps j) : i = j :=
  Raises.unique ((traps_iff c i).mp a) ((traps_iff c j).mp b) ((leaves_iff c i).mp a.1).1

theorem trapSlot_of_traps (traps : c.Traps i) : trapSlot c = some i := by
  cases slot : trapSlot c with
  | some j =>
    have found := List.find?_some slot
    simp only [Bool.and_eq_true] at found
    rw [Traps.unique traps found]
  | none =>
    have width : i < pipeWidth :=
      Nat.lt_of_lt_of_le ((commitOut_valid c i).mp traps.1) (commitCount_le c)
    have missed := List.find?_eq_none.mp slot i (List.mem_range.mpr width)
    simp [traps.1, traps.2] at missed

theorem trapsOnce (c : CommitIn) : c.TrapsOnce where
  raised := traps_iff c
  once i j a b := Traps.unique a b
  entered i traps s x := by
    have flush : c.flushOut.valid = true :=
      (flushesOnce c).flush.mpr ⟨_, i, (traps_iff c i).mp traps⟩
    simp [trapOf, flush, flushOut_full c flush, trapSlot_of_traps traps]
  noInterrupt i traps := ((leaves_iff c i).mp traps.1).1
  unmapped i exception := by simp [commitOut, exception]

-- ---------------------------------------------------------------------
-- The group
-- ---------------------------------------------------------------------

theorem Passes.mayRetire (passes : c.Passes n) (width : n ≤ pipeWidth) : c.MayRetire n where
  width := width
  leave := passes.leave
  clean := passes.clean
  alone i hi serial := by cases (passes.plain i hi).symm.trans serial
  last i hi wrong := by cases (passes.predicted i hi).symm.trans wrong

/-- An entry that ends the scan may still be the last of the group. -/
theorem Passes.mayRetire_succ (passes : c.Passes n) (width : n < pipeWidth)
    (leave : c.MayLeave n) (clean : (c.head n).hasException = false)
    (turn : (c.head n).isSerializing = true → n = 0) : c.MayRetire (n + 1) where
  width := width
  leave i hi := by
    rcases Nat.lt_succ_iff_lt_or_eq.mp hi with h | rfl
    · exact passes.leave i h
    · exact leave
  clean i hi := by
    rcases Nat.lt_succ_iff_lt_or_eq.mp hi with h | rfl
    · exact passes.clean i h
    · exact clean
  alone i hi serial := by
    rcases Nat.lt_succ_iff_lt_or_eq.mp hi with h | rfl
    · cases (passes.plain i h).symm.trans serial
    · rw [turn serial]
  last i hi wrong := by
    rcases Nat.lt_succ_iff_lt_or_eq.mp hi with h | rfl
    · cases (passes.predicted i h).symm.trans wrong
    · rfl

/-- What the scan retires: a largest group, counted, with at most a trap behind it. -/
structure Group (c : CommitIn) (r : Nat) : Prop where
  longest : IsGreatest {n | c.MayRetire n} r
  tally : c.Tally c.scan r
  count : c.scan.count = r ∧ c.scan.foundException = false ∨
    c.scan.count = r + 1 ∧ (c.head r).hasException = true

theorem group (c : CommitIn) : ∃ r, c.Group r := by
  cases stands c with
  | goes _ passes count tally finds =>
    have may : c.MayRetire pipeWidth := passes.mayRetire (Nat.le_refl _)
    exact ⟨pipeWidth, ⟨may, fun _ other => other.width⟩, tally, .inl ⟨count, finds.exception⟩⟩
  | ended done k before passes ends =>
    have whole : c.MayRetire k := passes.mayRetire (Nat.le_of_lt before)
    cases ends with
    | blocked stuck count tally finds =>
      refine ⟨k, ⟨whole, fun n other => ?_⟩, tally, .inl ⟨count, finds.exception⟩⟩
      by_contra more
      have more := Nat.lt_of_not_le more
      obtain ⟨-, serial, late⟩ := stuck (other.leave k more)
      have := other.alone k more serial
      omega
    | replays _ replays _ count tally finds =>
      refine ⟨k, ⟨whole, fun n other => ?_⟩, tally, .inl ⟨count, finds.exception⟩⟩
      by_contra more
      cases (other.clean k (Nat.lt_of_not_le more)).symm.trans (replays_exception replays)
    | traps _ _ exception _ count tally =>
      refine ⟨k, ⟨whole, fun n other => ?_⟩, tally, .inr ⟨count, exception⟩⟩
      by_contra more
      cases (other.clean k (Nat.lt_of_not_le more)).symm.trans exception
    | serial leave clean serial first count tally finds =>
      refine ⟨k + 1, ⟨passes.mayRetire_succ before leave clean fun _ => first, fun n other => ?_⟩,
        tally, .inl ⟨count, finds.exception⟩⟩
      by_contra more
      have := other.alone k (by omega) serial
      omega
    | mispredicts leave clean plain wrong _ count tally finds =>
      refine ⟨k + 1, ⟨passes.mayRetire_succ before leave clean fun serial => ?_, fun n other => ?_⟩,
        tally, .inl ⟨count, finds.exception⟩⟩
      · cases plain.symm.trans serial
      · by_contra more
        have := other.last k (by omega) wrong
        omega

theorem Group.retires_iff (g : c.Group r) (quiet : c.takeInterrupt = false) (i : Nat) :
    c.Retires i ↔ i < r := by
  unfold Retires
  rw [leaves_iff]
  constructor
  · rintro ⟨⟨-, inScan⟩, clean⟩
    rcases g.count with ⟨count, -⟩ | ⟨count, exception⟩
    · exact count ▸ inScan
    · rcases Nat.lt_succ_iff_lt_or_eq.mp (Nat.lt_of_lt_of_eq inScan count) with h | rfl
      · exact h
      · cases clean.symm.trans exception
  · intro inGroup
    refine ⟨⟨quiet, ?_⟩, g.longest.1.clean i inGroup⟩
    rcases g.count with ⟨count, -⟩ | ⟨count, -⟩ <;> omega

theorem Group.csrCommit_iff (g : c.Group r) (quiet : c.takeInterrupt = false) :
    c.csrCommitValid = true ↔ ∃ i < r, (c.head i).isCsr = true ∧ (c.head i).csrWe = true := by
  have serial {i : Nat} (csr : (c.head i).isCsr = true) : (c.head i).isSerializing = true := by
    simp [HeadEntry.isSerializing, csr]
  have first : 0 < c.commitCount ∧ (c.head 0).hasException = false ↔ 0 < r := by
    rw [← g.retires_iff quiet 0, Retires, commitOut_valid]
  simp only [csrCommitValid, Bool.and_eq_true, decide_eq_true_eq, Bool.not_eq_true', gt_iff_lt]
  constructor
  · rintro ⟨⟨⟨some, csr⟩, we⟩, clean⟩
    exact ⟨0, first.mp ⟨some, clean⟩, csr, we⟩
  · rintro ⟨i, hi, csr, we⟩
    obtain rfl : i = 0 := by
      have := g.longest.1.alone i hi (serial csr)
      omega
    obtain ⟨some, clean⟩ := first.mpr hi
    exact ⟨⟨⟨some, csr⟩, we⟩, clean⟩

/-- The register maps change for the retired entries only. -/
theorem cratWrEn_iff {x : RenameIn} (wires : x.commit = commitWires c) (cls : RegClass) (i : Nat) :
    RenameStage.cratWrEn x cls i = true ↔
      c.Retires i ∧ (c.head i).rdValid = true ∧ RegClass.ofFp (c.head i).rdIsFp = cls := by
  simp only [RenameStage.cratWrEn, wires, commitWires, Retires, Bool.and_eq_true,
    decide_eq_true_eq, beq_iff_eq, ← commitOut_valid]
  simp only [commitOut, Bool.and_eq_true, Bool.not_eq_true']
  tauto

theorem Group.retired (g : c.Group r) (quiet : c.takeInterrupt = false) : c.Retired r where
  longest _ := g.longest
  interrupted taken := by cases quiet.symm.trans taken
  slots := g.retires_iff quiet
  leaves := by
    have all : c.commitCount = c.scan.count := by simp [commitCount, quiet]
    rcases g.count with ⟨count, none⟩ | ⟨count, exception⟩
    · refine .inl ⟨all.trans count, fun i traps => ?_⟩
      have found := (scanOk c).exception.mpr ⟨i, ((leaves_iff c i).mp traps.1).2, traps.2⟩
      cases none.symm.trans found
    · refine .inr ⟨all.trans count, (leaves_iff c r).mpr ⟨quiet, ?_⟩, exception⟩
      exact count ▸ Nat.lt_succ_self r
  stores := by simp [storeCommitCount, quiet, g.tally.stores]
  loads := by simp [loadCommitCount, quiet, g.tally.loads]
  insns := by simp [insnRetiredCount, quiet, g.tally.insns]
  csr := g.csrCommit_iff quiet
  csrSlot i hi csr := by
    have := g.longest.1.alone i hi (by simp [HeadEntry.isSerializing, csr])
    omega
  checkpoints i := by
    rw [← commitOut_valid]
    simp only [releaseCheckpoint, commitOut, Bool.and_eq_true]
    tauto
  maps x wires cls i := by rw [cratWrEn_iff wires, g.retires_iff quiet]

theorem retired_of_interrupt (taken : c.takeInterrupt = true) : c.Retired 0 := by
  have none : c.commitCount = 0 := by simp [commitCount, taken]
  have stays (i : Nat) : ¬(c.commitOut i).valid = true := by
    rw [commitOut_valid, none]
    exact Nat.not_lt_zero i
  constructor
  case longest =>
    intro quiet
    cases quiet.symm.trans taken
  case interrupted => exact fun _ => ⟨none, rfl⟩
  case slots => exact fun i => ⟨fun h => absurd h.1 (stays i), nofun⟩
  case leaves => exact .inl ⟨none, fun i traps => stays i traps.1⟩
  case stores => simp [storeCommitCount, taken]
  case loads => simp [loadCommitCount, taken]
  case insns => simp [insnRetiredCount, taken]
  case csr => simp [csrCommitValid, none]
  case csrSlot => exact nofun
  case checkpoints => simp [releaseCheckpoint, none, taken]
  case maps =>
    intro x wires cls i
    rw [cratWrEn_iff wires]
    exact ⟨fun h => absurd h.1.1 (stays i), nofun⟩

-- ---------------------------------------------------------------------
-- The kinds decode gives
-- ---------------------------------------------------------------------

def kindsOf (d : DecodedInsn) : List Bool :=
  [d.isMret || d.isSret, d.isCsr || d.isSfenceVma, (d.isFence || d.isFenceI) && !d.isSfenceVma]

theorem kindsOf_suppressRd (insn : BitVec 32) (d : DecodedInsn) :
    kindsOf (suppressRd insn d) = kindsOf d := by
  unfold suppressRd
  dsimp only
  split_ifs <;> rfl

theorem kindsOf_decodeOpcode (noSystem : opcode insn ≠ opSystem)
    (noFence : opcode insn ≠ opMiscMem) : kindsOf (decodeOpcode insn d) = kindsOf d := by
  simp only [decodeOpcode, if_neg noSystem, if_neg noFence, apply_ite kindsOf, decodeLui,
    decodeAuipc, decodeJal, decodeJalr, decodeBranch, decodeLoad, decodeStore, decodeAmo,
    decodeLoadFp, decodeStoreFp, decodeOpImm, decodeOp, decodeMuldiv, decodeOpImm32, decodeOp32,
    decodeFp, decodeFma, illegal, fpIntFmt, fpBinary, sameFmt]
  simp only [kindsOf, ite_self]

/-- An instruction is decoded to one kind at most. -/
theorem count_kindsOf (insn : BitVec 32) (pc : BitVec 64) (isRvc : Bool) :
    (kindsOf (decodeSlice insn pc isRvc)).count true ≤ 1 := by
  unfold decodeSlice
  rw [kindsOf_suppressRd]
  by_cases system : opcode insn = opSystem
  · have eq : decodeOpcode insn (defaults insn pc isRvc) =
        decodeSystem insn (defaults insn pc isRvc) := by
      unfold decodeOpcode
      rw [system]
      rfl
    rw [eq]
    simp only [decodeSystem, decodeCsr, illegal]
    split_ifs <;> simp [kindsOf, defaults]
  by_cases fence : opcode insn = opMiscMem
  · have eq : decodeOpcode insn (defaults insn pc isRvc) =
        decodeMiscMem insn (defaults insn pc isRvc) := by
      unfold decodeOpcode
      rw [fence]
      rfl
    rw [eq]
    simp only [decodeMiscMem, illegal]
    split_ifs <;> simp [kindsOf, defaults]
  · rw [kindsOf_decodeOpcode system fence]
    exact (by decide : ([false, false, false].count true ≤ 1))

/-- An entry with the marks of a decoded instruction is of one kind. -/
theorem oneKind_of_decode {e : HeadEntry} {insn : BitVec 32} {pc : BitVec 64} {isRvc : Bool}
    (mret : e.isMret = (decodeSlice insn pc isRvc).isMret)
    (sret : e.isSret = (decodeSlice insn pc isRvc).isSret)
    (csr : e.isCsr = (decodeSlice insn pc isRvc).isCsr)
    (sfenceVma : e.isSfenceVma = (decodeSlice insn pc isRvc).isSfenceVma)
    (fence : e.isFence = (decodeSlice insn pc isRvc).isFence)
    (fenceI : e.isFenceI = (decodeSlice insn pc isRvc).isFenceI) : e.OneKind := by
  have count := count_kindsOf insn pc isRvc
  rwa [kindsOf, ← mret, ← sret, ← csr, ← sfenceVma, ← fence, ← fenceI] at count

-- ---------------------------------------------------------------------
-- Every window
-- ---------------------------------------------------------------------

/-- The outputs describe some retirement. -/
theorem exists_retired (c : CommitIn) : ∃ r, c.Retired r := by
  cases taken : c.takeInterrupt with
  | true => exact ⟨0, retired_of_interrupt taken⟩
  | false =>
    obtain ⟨r, g⟩ := group c
    exact ⟨r, g.retired taken⟩

/-- In every window commit retires the longest group the window allows, raises at most one trap
and redirects fetch for at most one entry, and all its outputs say so. -/
theorem commit_retires_longest (c : CommitIn) :
    ∃ r, c.Retired r ∧ c.TrapsOnce ∧ c.FlushesOnce := by
  cases taken : c.takeInterrupt with
  | true => exact ⟨0, retired_of_interrupt taken, trapsOnce c, flushesOnce c⟩
  | false =>
    obtain ⟨r, g⟩ := group c
    exact ⟨r, g.retired taken, trapsOnce c, flushesOnce c⟩

end CommitIn

end Rv64gc.Backend
