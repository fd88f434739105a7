import Rv64gc.Backend.CommitGroup

/-!
# How a cycle of commit ends

Each cycle the entries that retire are followed by at most one redirect of fetch. What the outputs
of commit say together is one of seven cases.
-/

namespace Rv64gc.Backend

namespace HeadEntry

/-- The entry redirects fetch behind itself when it commits. -/
def refetches (e : HeadEntry) : Bool := e.changesVmState || e.isSfenceVma || e.isFence || e.isFenceI

end HeadEntry

namespace CommitIn

variable (c : CommitIn)

/-- How many entries retire. -/
def retireCount : Nat :=
  if c.scan.foundException && !c.takeInterrupt then c.commitCount - 1 else c.commitCount

/-- A trap, an interrupt or a trap return takes control away from the retired entries. -/
def leavesPath : Bool := c.takeInterrupt || c.scan.foundException || c.scan.foundRet

/-- How a cycle ends: entries pass, and then one entry or an interrupt may redirect fetch. -/
inductive Cycle : Prop
  | interrupt (none : c.commitCount = 0) (retired : c.retireCount = 0) (off : c.leavesPath = true)
      (flush : c.flushOut.valid = true)
  | passes (n : Nat) (passes : c.Passes n) (count : c.commitCount = n) (retired : c.retireCount = n)
      (on : c.leavesPath = false) (flush : c.flushOut.valid = false)
  | replays (k : Nat) (passes : c.Passes k) (leave : c.MayLeave k)
      (replays : (c.head k).replays = true) (width : k < pipeWidth) (retired : c.retireCount = k)
      (on : c.leavesPath = false) (flush : c.flushOut.valid = true)
      (target : c.flushOut.redirectPc = (c.head k).pc)
  | traps (k : Nat) (passes : c.Passes k) (retired : c.retireCount = k)
      (off : c.leavesPath = true) (flush : c.flushOut.valid = true)
  | mispredicts (k : Nat) (passes : c.Passes k) (leave : c.MayLeave k) (width : k < pipeWidth)
      (clean : (c.head k).hasException = false) (wrong : (c.head k).mispredicts = true)
      (retired : c.retireCount = k + 1) (on : c.leavesPath = false)
      (flush : c.flushOut.valid = true)
      (target : c.flushOut.redirectPc = (c.head k).branchTarget)
  | returns (leave : c.MayLeave 0) (clean : (c.head 0).hasException = false)
      (retired : c.retireCount = 1) (off : c.leavesPath = true) (flush : c.flushOut.valid = true)
  | refetches (leave : c.MayLeave 0) (clean : (c.head 0).hasException = false)
      (marks : (c.head 0).refetches = true) (retired : c.retireCount = 1)
      (on : c.leavesPath = false) (flush : c.flushOut.valid = true)
      (target : c.flushOut.redirectPc = (c.head 0).pc + 4)
  | serial (leave : c.MayLeave 0) (clean : (c.head 0).hasException = false)
      (serial : (c.head 0).isSerializing = true) (count : c.commitCount = 1)
      (retired : c.retireCount = 1) (on : c.leavesPath = false) (flush : c.flushOut.valid = false)

variable {c}

theorem retireCount_le (c : CommitIn) : c.retireCount ≤ pipeWidth := by
  have bound := c.commitCount_le
  unfold retireCount
  split
  next => exact Nat.le_trans (Nat.sub_le ..) bound
  next => exact bound

theorem quiet_of_replay (found : c.scan.foundReplay = true) : c.takeInterrupt = false := by
  simp [takeInterrupt, found]

theorem quiet_of_exception (found : c.scan.foundException = true) : c.takeInterrupt = false := by
  simp [takeInterrupt, found]

theorem quiet_of_mispredict (found : c.scan.foundMispredict = true) : c.takeInterrupt = false := by
  simp [takeInterrupt, found]

theorem commitCount_quiet (quiet : c.takeInterrupt = false) : c.commitCount = c.scan.count := by
  simp [commitCount, quiet]

theorem retireCount_quiet (none : c.scan.foundException = false) :
    c.retireCount = c.commitCount := by
  simp [retireCount, none]

/-- Entries that pass redirect nothing by themselves. -/
theorem redirect_of_passes (passes : c.Passes n) (count : c.scan.count = n) :
    c.vmSerialRedirect = false ∧ c.fenceCommitRedirect = false := by
  rw [vmSerialRedirect_eq, fenceCommitRedirect_eq, count]
  cases n with
  | zero => exact ⟨rfl, rfl⟩
  | succ n =>
    have plain (k : Cause) (kind : k = .trapReturn ∨ k = .vmSerial ∨ k = .fence) :
        (c.head 0).asks k = false := by
      by_contra asks
      have waits := asks_serial (by simpa using asks) kind
      simp only [HeadEntry.waits, Bool.and_eq_true] at waits
      cases waits.1.symm.trans (passes.plain 0 n.succ_pos)
    simp [plain .vmSerial (.inr (.inl rfl)), plain .fence (.inr (.inr rfl))]

/-- Nothing but an interrupt redirects for entries that pass. -/
theorem cycle_of_passes (passes : c.Passes n) (count : c.scan.count = n)
    (finds : Finds c.scan false false false false) : c.Cycle := by
  have retired := retireCount_quiet finds.exception
  cases taken : c.takeInterrupt with
  | true =>
    have none : c.commitCount = 0 := by simp [commitCount, taken]
    refine .interrupt none (retired.trans none) (by simp [leavesPath, taken]) ?_
    rw [flush_of_interrupt taken]
    rfl
  | false =>
    have all := (commitCount_quiet taken).trans count
    obtain ⟨noVm, noFence⟩ := redirect_of_passes passes count
    refine .passes n passes all (retired.trans all)
      (by simp [leavesPath, taken, finds.exception, finds.ret]) ?_
    simp [flushOut, finds.replay, finds.exception, finds.mispredict, finds.ret, noVm, noFence,
      taken, noFlush]

/-- A serializing entry redirects by its kind, or not at all. -/
theorem cycle_of_serial (leave : c.MayLeave 0) (clean : (c.head 0).hasException = false)
    (serial : (c.head 0).isSerializing = true) (count : c.scan.count = 1)
    (finds : Finds c.scan false false ((c.head 0).isMret || (c.head 0).isSret) false) :
    c.Cycle := by
  have quiet : c.takeInterrupt = false := by
    simp [takeInterrupt, serializingAtHead, count, serial]
  have one := (commitCount_quiet quiet).trans count
  have retired := (retireCount_quiet finds.exception).trans one
  have flush : c.flushOut =
      if (c.head 0).isMret || (c.head 0).isSret then
        c.fullFlushTo (if (c.head 0).isMret then c.mepc else c.sepc)
      else if (c.head 0).asks .vmSerial then c.fullFlushTo ((c.head 0).pc + 4)
      else if (c.head 0).asks .fence then c.fullFlushTo ((c.head 0).pc + 4)
      else c.noFlush := by
    simp [flushOut, finds.replay, finds.exception, finds.mispredict, finds.ret,
      vmSerialRedirect_eq, fenceCommitRedirect_eq, count, quiet]
  cases ret : (c.head 0).isMret || (c.head 0).isSret with
  | true =>
    exact .returns leave clean retired (by simp [leavesPath, finds.ret, ret])
      (by rw [flush, ret]; rfl)
  | false =>
    have on : c.leavesPath = false := by
      simp [leavesPath, quiet, finds.exception, finds.ret, ret]
    have target (asks : (c.head 0).asks .vmSerial = true ∨ (c.head 0).asks .fence = true) :
        c.flushOut = c.fullFlushTo ((c.head 0).pc + 4) := by
      rw [flush, ret, if_neg Bool.false_ne_true]
      obtain vm | fence := asks
      · rw [if_pos vm]
      · rw [if_pos fence, ite_self]
    by_cases asks : (c.head 0).asks .vmSerial = true ∨ (c.head 0).asks .fence = true
    · refine .refetches leave clean ?_ retired on (by rw [target asks]; rfl) (by rw [target asks]; rfl)
      simp only [HeadEntry.asks, HeadEntry.refetches, Bool.and_eq_true, Bool.or_eq_true] at asks ⊢
      tauto
    · rw [not_or] at asks
      refine .serial leave clean serial one retired on ?_
      rw [flush, ret, if_neg Bool.false_ne_true, if_neg asks.1, if_neg asks.2]
      rfl

theorem cycle (c : CommitIn) : c.Cycle := by
  cases stands c with
  | goes _ passes count _ finds => exact cycle_of_passes passes count finds
  | ended done k before passes ends =>
    cases ends with
    | blocked _ count _ finds => exact cycle_of_passes passes count finds
    | replays leave replays slot count _ finds =>
      have quiet := quiet_of_replay finds.replay
      have flush : c.flushOut = c.fullFlushTo (c.head k).pc := by simp [flushOut, finds.replay, slot]
      refine .replays k passes leave replays before ?_ ?_ (by rw [flush]; rfl) (by rw [flush]; rfl)
      · exact (retireCount_quiet finds.exception).trans ((commitCount_quiet quiet).trans count)
      · simp [leavesPath, quiet, finds.exception, finds.ret]
    | traps leave stays exception slot count _ finds =>
      have quiet := quiet_of_exception finds.exception
      have flush : c.flushOut = c.fullFlushTo c.trapVector := by
        simp [flushOut, finds.replay, finds.exception]
      refine .traps k passes ?_ (by simp [leavesPath, finds.exception]) (by rw [flush]; rfl)
      simp [retireCount, finds.exception, quiet, commitCount_quiet quiet, count]
    | serial leave clean serial first count _ finds =>
      subst first
      exact cycle_of_serial leave clean serial count finds
    | mispredicts leave clean plain wrong slot count _ finds =>
      have quiet := quiet_of_mispredict finds.mispredict
      have flush : c.flushOut = c.mispredictFlush := by
        simp [flushOut, finds.replay, finds.exception, finds.mispredict]
      refine .mispredicts k passes leave before clean wrong ?_ ?_ (by rw [flush]; rfl) ?_
      · exact (retireCount_quiet finds.exception).trans ((commitCount_quiet quiet).trans count)
      · simp [leavesPath, quiet, finds.exception, finds.ret]
      · simp [flush, mispredictFlush, slot, fullFlushTo]

end CommitIn

end Rv64gc.Backend
