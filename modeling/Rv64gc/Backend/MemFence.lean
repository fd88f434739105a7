import Rv64gc.Backend.CommitCycle
import Rv64gc.Backend.ProgramWindow
import Rv64gc.Hdl.Machine

/-!
# Memory fences

`rv64gc_core_top.sv` tracks one fence, from its rename on, by its slot in the reorder buffer. Loads
and store addresses that are further from the head than this slot do not issue.
-/

namespace Rv64gc.Backend

open Hdl

/-- What the tracker sees of an instruction. -/
structure FenceMark where
  isFence : Bool
  isFenceI : Bool
  hasException : Bool
deriving DecidableEq

def FenceMark.orders (m : FenceMark) : Bool := !m.hasException && (m.isFence || m.isFenceI)

/-- `mem_fence_inflight_r` and `mem_fence_rob_idx_r` -/
structure MemFence where
  inflight : Bool
  robIdx : RobIdx
deriving DecidableEq

/-- `commit_out[i].rob_idx`: the reorder buffer moves its own head. -/
def CommitIn.commitRobIdx (_ : CommitIn) (_ : Nat) : RobIdx := 0

structure FenceIn where
  commit : CommitIn
  /-- `bru_flush`, by the place it cuts the program at. -/
  bruFlush : Option Nat
  ren : List (Renamed FenceMark)
  /-- `iq_load_issue_candidate_valid` and the slots. -/
  load : Fin 2 → Option RobIdx
  sta : Option RobIdx

/-- The tracker beside the program. -/
structure FenceRun where
  program : Program FenceMark
  tracker : MemFence

namespace FenceIn

variable (i : FenceIn)

def flushOut : Option FlushTo :=
  if i.commit.flushOut.valid then some .full else i.bruFlush.map .upTo

/-- The first `ren_count_w` instructions. -/
def renInsns : List (Renamed FenceMark) := if i.flushOut.isSome then [] else i.ren

end FenceIn

namespace FenceRun

variable (s : FenceRun) (i : FenceIn)

-- ---------------------------------------------------------------------
-- The tracker
-- ---------------------------------------------------------------------

def memFenceAge : BitVec 8 := robAgeFromHead s.program.head s.tracker.robIdx

/-- `mem_fence_partial_flush_c` -/
def partialFlush : Bool :=
  s.tracker.inflight && match i.flushOut with
    | some (.upTo n) =>
      decide (robAgeFromHead s.program.head (s.program.flushRobTail n) ≤ s.memFenceAge)
    | _ => false

/-- `mem_fence_commit_c` -/
def commits : Bool :=
  s.tracker.inflight && (List.range pipeWidth).any fun k =>
    (i.commit.commitOut k).valid && i.commit.commitRobIdx k == s.tracker.robIdx

/-- `mem_fence_alloc_c` and `mem_fence_alloc_idx_c` -/
def alloc : Option RobIdx :=
  if s.tracker.inflight then none
  else (i.renInsns.findIdx? fun f => f.data.orders).map s.program.allocIdx

def trackerNext : MemFence :=
  if i.flushOut = some .full then ⟨false, 0⟩
  else if s.partialFlush i || s.commits i then ⟨false, 0⟩
  else match s.alloc i with
    | some idx => ⟨true, idx⟩
    | none => s.tracker

/-- `mem_fence_load_issue_suppress[p]` and `mem_fence_sta_issue_suppress[0]`, of the candidate. -/
def suppresses (candidate : RobIdx) : Bool :=
  s.tracker.inflight && decide (s.memFenceAge < robAgeFromHead s.program.head candidate)

/-- What the tracker lets the port issue. -/
def loadIssue (p : Fin 2) : Option RobIdx := (i.load p).filter fun idx => !s.suppresses idx

def staIssue : Option RobIdx := i.sta.filter fun idx => !s.suppresses idx

def next : FenceRun where
  program := s.program.next i.commit.commitCount i.ren i.flushOut
  tracker := s.trackerNext i

/-- Commit sees the instructions at the head. -/
structure Keeps : Prop where
  program : s.program.Keeps i.commit.commitCount i.ren i.flushOut
  marks : ∀ k f, k < pipeWidth → s.program.insns[k]? = some f →
    (i.commit.head k).isFence = f.data.isFence ∧ (i.commit.head k).isFenceI = f.data.isFenceI

end FenceRun

def fenceRuns : Machine FenceRun FenceIn where
  reset := ⟨⟨0, []⟩, ⟨false, 0⟩⟩
  next s i := s.next i
  legal s i := s.Keeps i

namespace FenceRun

/-- The fence is `k` behind the head. -/
def FenceAt (s : FenceRun) (k : Nat) : Prop :=
  ∃ f, s.program.insns[k]? = some f ∧ f.data.orders = true

/-- The instruction retires or is squashed. -/
def Leaves (i : FenceIn) (k : Nat) : Prop :=
  k < i.commit.commitCount ∨ i.flushOut = some .full ∨ ∃ n, i.flushOut = some (.upTo n) ∧ n ≤ k

/-- In a cycle nothing behind a fence issues, and only a fence that leaves is forgotten. -/
structure Orders (s : FenceRun) (i : FenceIn) : Prop where
  load : ∀ k p idx, s.FenceAt k → s.loadIssue i p = some idx → offset s.program.head idx ≤ k
  sta : ∀ k idx, s.FenceAt k → s.staIssue i = some idx → offset s.program.head idx ≤ k
  release : s.tracker.inflight = true → (s.next i).tracker ≠ s.tracker →
    Leaves i (offset s.program.head s.tracker.robIdx)

/-- No instruction retires before a fence in slot 0, and a full reorder buffer with a fence is not cut
behind its last entry. -/
structure Apart (s : FenceRun) (i : FenceIn) : Prop where
  slot : s.tracker.inflight = true → s.tracker.robIdx = 0 → i.flushOut ≠ some .full →
    i.commit.commitCount = 0
  full : s.tracker.inflight = true → i.flushOut ≠ some (.upTo robDepth)

-- ---------------------------------------------------------------------
-- The invariant
-- ---------------------------------------------------------------------

/-- The tracker has the oldest fence. -/
structure Tracks (s : FenceRun) : Prop where
  fits : s.program.insns.length ≤ robDepth
  fence : s.tracker.inflight = true → s.FenceAt (offset s.program.head s.tracker.robIdx)
  first : ∀ k, s.FenceAt k →
    s.tracker.inflight = true ∧ offset s.program.head s.tracker.robIdx ≤ k

variable {s : FenceRun} {i : FenceIn}

theorem suppresses_iff (idx : RobIdx) : s.suppresses idx = true ↔
    s.tracker.inflight = true ∧
      offset s.program.head s.tracker.robIdx < offset s.program.head idx := by
  simp only [suppresses, memFenceAge, Bool.and_eq_true, decide_eq_true_eq, BitVec.lt_def,
    robAgeFromHead_toNat]

/-- What is behind a fence is behind the oldest. -/
theorem issued_before (tracks : s.Tracks) (fence : s.FenceAt k)
    (issued : s.suppresses idx = false) : offset s.program.head idx ≤ k := by
  obtain ⟨active, before⟩ := tracks.first k fence
  have near : ¬ offset s.program.head s.tracker.robIdx < offset s.program.head idx := fun behind =>
    absurd ((suppresses_iff idx).2 ⟨active, behind⟩) (by simp [issued])
  omega

end FenceRun

-- ---------------------------------------------------------------------
-- Commit
-- ---------------------------------------------------------------------

/-- A fence that retires flushes what is behind it. -/
theorem CommitIn.flushOut_of_fence {c : CommitIn} (leaves : k < c.commitCount)
    (fence : (c.head k).isFence = true ∨ (c.head k).isFenceI = true) :
    c.flushOut.valid = true := by
  cases exception : (c.head k).hasException with
  | true => exact c.flushOut_of_exception leaves exception
  | false =>
    have scanned := Nat.lt_of_lt_of_le leaves c.commitCount_le_scan
    have serial : (c.head k).isSerializing = true := by
      rcases fence with h | h <;> simp [HeadEntry.isSerializing, h]
    have first : k = 0 := c.scanOk.alone k scanned serial exception
    subst first
    have some_ : decide (c.scan.count > 0) = true := decide_eq_true scanned
    have redirects : c.vmSerialRedirect = true ∨ c.fenceCommitRedirect = true := by
      cases vma : (c.head 0).isSfenceVma with
      | true =>
        left
        simp [CommitIn.vmSerialRedirect, CommitIn.sfenceVmaCommit, some_, vma, exception]
      | false =>
        right
        rcases fence with h | h <;>
          simp [CommitIn.fenceCommitRedirect, some_, vma, exception, h]
    unfold CommitIn.flushOut
    repeat' split
    all_goals first | rfl | skip
    next none_ other _ => exact absurd redirects (by simp [none_, other])

namespace FenceRun

variable {s : FenceRun} {i : FenceIn}

theorem upTo_of_not_full (partly : i.flushOut ≠ some .full) : i.commit.flushOut.valid = false := by
  by_contra valid
  rw [Bool.not_eq_false] at valid
  exact partly (if_pos valid)

/-- A fence that no full flush drops stays where it is, or is behind the cut. -/
theorem commitCount_le_fence (keeps : s.Keeps i) (partly : i.flushOut ≠ some .full)
    (fence : s.FenceAt k) : i.commit.commitCount ≤ k := by
  obtain ⟨f, here, orders⟩ := fence
  by_contra leaves
  rw [Nat.not_le] at leaves
  obtain ⟨fenceMark, fenceIMark⟩ :=
    keeps.marks k f (Nat.lt_of_lt_of_le leaves i.commit.commitCount_le) here
  simp only [FenceMark.orders, Bool.and_eq_true, Bool.or_eq_true] at orders
  have flush := CommitIn.flushOut_of_fence leaves (by rw [fenceMark, fenceIMark]; exact orders.2)
  cases (upTo_of_not_full partly).symm.trans flush

theorem commits_false (apart : s.Apart i) (partly : i.flushOut ≠ some .full) :
    s.commits i = false := by
  by_contra commits
  simp only [FenceRun.commits, Bool.not_eq_false, Bool.and_eq_true, List.any_eq_true,
    i.commit.commitOut_valid, CommitIn.commitRobIdx, beq_iff_eq] at commits
  obtain ⟨active, k, -, leaves, zero⟩ := commits
  have none_ := apart.slot active zero.symm partly
  omega

/-- The partial flush releases a fence that is behind the cut. -/
theorem partialFlush_iff (apart : s.Apart i) (tracks : s.Tracks) (keeps : s.Keeps i)
    (cut : i.flushOut = some (.upTo n)) : s.partialFlush i = true ↔
      s.tracker.inflight = true ∧ n ≤ offset s.program.head s.tracker.robIdx := by
  simp only [partialFlush, cut, Bool.and_eq_true, decide_eq_true_eq, memFenceAge, BitVec.le_def,
    robAgeFromHead_toNat]
  refine and_congr_right fun active => ?_
  have inside := (keeps.program.cut n cut).2
  have full : n ≠ robDepth := fun size => apart.full active (size ▸ cut)
  have fits := tracks.fits
  have lands : offset s.program.head (s.program.flushRobTail n) = n :=
    offset_slotAt _ (by show n < 128; simp only [robDepth] at full fits; omega)
  rw [lands]

-- ---------------------------------------------------------------------
-- One cycle
-- ---------------------------------------------------------------------

/-- After a partial flush the instructions are those between what retires and the cut. -/
theorem fenceAt_cut (cut : i.flushOut = some (.upTo n)) : (s.next i).FenceAt k ↔
    i.commit.commitCount + k < n ∧ s.FenceAt (i.commit.commitCount + k) := by
  simp only [FenceAt, next, Program.next, cut, List.getElem?_drop, List.getElem?_take]
  split
  next inside => simp only [inside, true_and]
  next outside => simp only [outside, false_and, reduceCtorEq, exists_false]

theorem fenceAt_plain (keeps : s.Keeps i) (quiet : i.flushOut = none) : (s.next i).FenceAt k ↔
    s.FenceAt (i.commit.commitCount + k) ∨
      s.program.insns.length ≤ i.commit.commitCount + k ∧
        ∃ f, i.ren[i.commit.commitCount + k - s.program.insns.length]? = some f ∧
          f.data.orders = true := by
  have inside := keeps.program.inside
  simp only [FenceAt, next, Program.next, quiet]
  by_cases old : i.commit.commitCount + k < s.program.insns.length
  · rw [List.getElem?_append_left (by rw [List.length_drop]; omega), List.getElem?_drop]
    simp only [Nat.not_le.2 old, false_and, or_false]
  · have gone : s.program.insns[i.commit.commitCount + k]? = none :=
      List.getElem?_eq_none (Nat.not_lt.1 old)
    rw [List.getElem?_append_right (by rw [List.length_drop]; omega), List.length_drop, gone,
      show k - (s.program.insns.length - i.commit.commitCount) =
        i.commit.commitCount + k - s.program.insns.length by omega]
    simp only [reduceCtorEq, false_and, exists_false, false_or, Nat.not_lt.1 old, true_and]

theorem tracks_full (flush : i.flushOut = some .full) : (s.next i).Tracks := by
  constructor <;> simp [next, Program.next, flush, trackerNext, FenceAt]

/-- A fence that stays is as much nearer to the head as instructions retire. -/
theorem offset_next (keeps : s.Keeps i) (partly : i.flushOut ≠ some .full)
    (stays : i.commit.commitCount ≤ offset s.program.head idx) :
    offset (s.next i).program.head idx + i.commit.commitCount = offset s.program.head idx := by
  have few : i.commit.commitCount ≤ robDepth := by
    have := keeps.program.retires
    simp only [pipeWidth, robDepth] at this ⊢
    omega
  have head : (s.next i).program.head = slotAt s.program.head i.commit.commitCount := by
    simp only [next, Program.next]
    split
    next full => exact absurd full partly
    next => rfl
    next => rfl
  rw [head, offset_retire idx few stays]
  omega

theorem tracks_cut (keeps : s.Keeps i) (apart : s.Apart i) (tracks : s.Tracks)
    (cut : i.flushOut = some (.upTo n)) : (s.next i).Tracks := by
  have partly : i.flushOut ≠ some .full := by simp [cut]
  have none_ : s.alloc i = none := by
    unfold alloc
    simp [FenceIn.renInsns, cut]
  have kept : (s.next i).tracker = if s.partialFlush i then ⟨false, 0⟩ else s.tracker := by
    simp only [next, trackerNext, if_neg partly, commits_false apart partly, Bool.or_false, none_]
  constructor
  case fits =>
    have fits := tracks.fits
    simp only [next, Program.next, cut, List.length_drop, List.length_take]
    omega
  case fence =>
    intro active
    rw [kept] at active ⊢
    split at active
    next => cases active
    next stays =>
      rw [if_neg stays, fenceAt_cut cut]
      have fence := tracks.fence active
      have before := commitCount_le_fence keeps partly fence
      have moved := offset_next keeps partly before
      rw [partialFlush_iff apart tracks keeps cut, not_and, Nat.not_le] at stays
      rw [Nat.add_comm, moved]
      exact ⟨stays active, fence⟩
  case first =>
    intro k fence
    rw [fenceAt_cut cut] at fence
    obtain ⟨active, oldest⟩ := tracks.first _ fence.2
    have before := commitCount_le_fence keeps partly (tracks.fence active)
    have moved := offset_next keeps partly before
    have stays : ¬ s.partialFlush i = true := by
      rw [partialFlush_iff apart tracks keeps cut]
      omega
    rw [kept, if_neg stays]
    exact ⟨active, by omega⟩

/-- The first fence of a group gets the tracker, if it is free. -/
theorem tracker_plain (apart : s.Apart i) (quiet : i.flushOut = none) : (s.next i).tracker =
    if s.tracker.inflight then s.tracker
    else match i.ren.findIdx? fun f => f.data.orders with
      | some k => ⟨true, s.program.allocIdx k⟩
      | none => s.tracker := by
  have partly : i.flushOut ≠ some .full := by simp [quiet]
  have keep : s.partialFlush i = false := by simp [partialFlush, quiet]
  simp only [next, trackerNext, commits_false apart partly, keep, Bool.or_false,
    Bool.false_eq_true, if_false, alloc, FenceIn.renInsns, quiet, Option.isSome_none]
  cases s.tracker.inflight with
  | true => rfl
  | false => cases i.ren.findIdx? fun f => f.data.orders <;> rfl

theorem offset_allocIdx (keeps : s.Keeps i) (new : k < i.ren.length) :
    offset s.program.head (s.program.allocIdx k) = s.program.insns.length + k := by
  have fits := keeps.program.fits
  rw [Program.allocIdx, Program.tail, slotAt_slotAt]
  exact offset_slotAt _ (by show _ < 128; simp only [robDepth] at fits; omega)

theorem Tracks.inside (tracks : s.Tracks) (keeps : s.Keeps i) (partly : i.flushOut ≠ some .full)
    (active : s.tracker.inflight = true) :
    i.commit.commitCount ≤ offset s.program.head s.tracker.robIdx ∧
      offset s.program.head s.tracker.robIdx < s.program.insns.length := by
  obtain ⟨f, here, orders⟩ := tracks.fence active
  exact ⟨commitCount_le_fence keeps partly ⟨f, here, orders⟩, (List.getElem?_eq_some_iff.1 here).1⟩

/-- What is renamed lies behind all that was there. -/
theorem offset_new (keeps : s.Keeps i) (quiet : i.flushOut = none) (new : k < i.ren.length) :
    offset (s.next i).program.head (s.program.allocIdx k) + i.commit.commitCount =
      s.program.insns.length + k := by
  have inside := keeps.program.inside
  have at_ := offset_allocIdx keeps new
  rw [offset_next keeps (by simp [quiet]) (by omega), at_]

theorem fence_plain (keeps : s.Keeps i) (apart : s.Apart i) (tracks : s.Tracks)
    (quiet : i.flushOut = none) (active : (s.next i).tracker.inflight = true) :
    (s.next i).FenceAt (offset (s.next i).program.head (s.next i).tracker.robIdx) := by
  have partly : i.flushOut ≠ some .full := by simp [quiet]
  have kept := tracker_plain apart quiet
  rw [fenceAt_plain keeps quiet]
  rw [kept] at active ⊢
  cases free : s.tracker.inflight with
  | true =>
    rw [if_pos rfl]
    left
    rw [Nat.add_comm, offset_next keeps partly (tracks.inside keeps partly free).1]
    exact tracks.fence free
  | false =>
    rw [free, if_neg Bool.false_ne_true] at active
    rw [if_neg Bool.false_ne_true]
    cases first : i.ren.findIdx? fun f => f.data.orders with
    | none => rw [first, free] at active; cases active
    | some k =>
      obtain ⟨few, orders, -⟩ := List.findIdx?_eq_some_iff_getElem.1 first
      have place := offset_new keeps quiet few
      right
      refine ⟨by dsimp only; omega, i.ren[k], ?_, orders⟩
      rw [show _ - _ = k by dsimp only; omega]
      exact List.getElem?_eq_getElem few

theorem first_plain (keeps : s.Keeps i) (apart : s.Apart i) (tracks : s.Tracks)
    (quiet : i.flushOut = none) (fence : (s.next i).FenceAt k) :
    (s.next i).tracker.inflight = true ∧
      offset (s.next i).program.head (s.next i).tracker.robIdx ≤ k := by
  have partly : i.flushOut ≠ some .full := by simp [quiet]
  rw [fenceAt_plain keeps quiet] at fence
  rw [tracker_plain apart quiet]
  cases free : s.tracker.inflight with
  | true =>
    rw [if_pos rfl]
    obtain ⟨before, inside⟩ := tracks.inside keeps partly free
    have moved := offset_next keeps partly before
    refine ⟨free, ?_⟩
    rcases fence with old | ⟨behind, -⟩
    · have oldest := (tracks.first _ old).2
      omega
    · omega
  | false =>
    rw [if_neg Bool.false_ne_true]
    rcases fence with old | ⟨behind, f, here, orders⟩
    · cases free.symm.trans (tracks.first _ old).1
    · obtain ⟨few, same⟩ := List.getElem?_eq_some_iff.1 here
      cases first : i.ren.findIdx? fun f => f.data.orders with
      | none =>
        have none_ := List.findIdx?_eq_none_iff.1 first _ (List.getElem_mem few)
        rw [same, orders] at none_
        cases none_
      | some j =>
        obtain ⟨new, _, before⟩ := List.findIdx?_eq_some_iff_getElem.1 first
        have place := offset_new keeps quiet new
        refine ⟨rfl, ?_⟩
        dsimp only
        by_contra late
        have less : i.commit.commitCount + k - s.program.insns.length < j := by omega
        have earlier := before _ less
        rw [same] at earlier
        exact earlier orders

theorem tracks_plain (keeps : s.Keeps i) (apart : s.Apart i) (tracks : s.Tracks)
    (quiet : i.flushOut = none) : (s.next i).Tracks where
  fits := by
    have fits := keeps.program.fits
    have inside := keeps.program.inside
    simp only [next, Program.next, quiet, List.length_append, List.length_drop]
    omega
  fence := fence_plain keeps apart tracks quiet
  first _ fence := first_plain keeps apart tracks quiet fence

theorem tracks_next (keeps : s.Keeps i) (apart : s.Apart i) (tracks : s.Tracks) :
    (s.next i).Tracks := by
  cases flush : i.flushOut with
  | none => exact tracks_plain keeps apart tracks flush
  | some f =>
    cases f with
    | full => exact tracks_full flush
    | upTo n => exact tracks_cut keeps apart tracks flush

/-- The tracker lets a fence go when it leaves. -/
theorem release_leaves (keeps : s.Keeps i) (apart : s.Apart i) (tracks : s.Tracks)
    (active : s.tracker.inflight = true) (changes : (s.next i).tracker ≠ s.tracker) :
    Leaves i (offset s.program.head s.tracker.robIdx) := by
  cases flush : i.flushOut with
  | none =>
    refine absurd ?_ changes
    rw [tracker_plain apart flush, if_pos active]
  | some f =>
    cases f with
    | full => exact .inr (.inl flush)
    | upTo n =>
      refine .inr (.inr ⟨n, flush, ?_⟩)
      by_contra stays
      refine changes ?_
      have partly : i.flushOut ≠ some .full := by simp [flush]
      have keep : s.partialFlush i = false := by
        rw [Bool.eq_false_iff, ne_eq, partialFlush_iff apart tracks keeps flush]
        exact fun h => stays h.2
      simp [next, trackerNext, partly, keep, commits_false apart partly, alloc, active]

/-- As long as nothing retires before a fence in slot 0 and no full reorder buffer is cut behind its
last entry, nothing behind a fence issues until the fence has left. -/
theorem fences_order (reach : fenceRuns.Reach Apart s) (keeps : s.Keeps i) (apart : s.Apart i) :
    s.Orders i := by
  have tracks : s.Tracks := by
    refine reach.invariant Tracks ?_ fun s i _ tracks keeps apart => tracks_next keeps apart tracks
    constructor <;> simp [fenceRuns, FenceAt]
  constructor
  case load =>
    intro k p idx fence issues
    have issued := (Option.filter_eq_some_iff.1 issues).2
    exact issued_before tracks fence (by simpa using issued)
  case sta =>
    intro k idx fence issues
    have issued := (Option.filter_eq_some_iff.1 issues).2
    exact issued_before tracks fence (by simpa using issued)
  case release => exact fun active changes => release_leaves keeps apart tracks active changes

end FenceRun

-- ---------------------------------------------------------------------
-- A fence and a load
-- ---------------------------------------------------------------------

open FenceRun

def headEntry (ready fence : Bool) : HeadEntry :=
  ⟨true, ready, 0, 0, false, 0, 0, false, 0, false, false, false, fence, false, false, false, false,
    false, false, false, false, 0, false, 0, false, 0, 0, false, 0, 0, 0, 0, false, false, false, 0,
    0, 0, 0, 0⟩

/-- The first `n` are finished; one may be a fence. -/
def retiring (n : Nat) (fence : Option Nat) : CommitIn where
  headIdx := 0
  head k := headEntry (k < n) (fence = some k)
  fenceIReady := true
  sfenceVmaReady := true
  mtvec := 0
  stvec := 0
  mepc := 0
  sepc := 0
  privMode := 0
  medeleg := 0
  irqPending := false
  irqCause := 0
  irqToSupervisor := false

def plainInsn : Renamed FenceMark := ⟨false, false, false, true, ⟨false, false, false⟩⟩

def fenceInsn : Renamed FenceMark := ⟨false, false, false, true, ⟨true, false, false⟩⟩

def loadInsn : Renamed FenceMark := ⟨true, false, true, true, ⟨false, false, false⟩⟩

def cycleOf (n : Nat) (fence : Option Nat) (ren : List (Renamed FenceMark)) : FenceIn :=
  ⟨retiring n fence, none, ren, fun _ => none, none⟩

/-- The load in slot 1 could issue. -/
def loadReady : FenceIn :=
  { cycleOf 0 (some 0) [] with load := fun p => if p = 0 then some 1 else none }

/-- `Keeps` without a flush, evaluated. -/
def keepsPlain (s : FenceRun) (i : FenceIn) : Bool :=
  i.flushOut == none && decide (s.program.insns.length + i.ren.length ≤ robDepth) &&
    decide (i.ren.length ≤ pipeWidth) && decide (i.commit.commitCount ≤ s.program.insns.length) &&
      (List.range pipeWidth).all fun k => s.program.insns[k]?.all fun f =>
        (i.commit.head k).isFence == f.data.isFence &&
          (i.commit.head k).isFenceI == f.data.isFenceI

theorem keeps_of_plain (checked : keepsPlain s i = true) : s.Keeps i := by
  simp only [keepsPlain, Bool.and_eq_true, beq_iff_eq, decide_eq_true_eq, List.all_eq_true,
    List.mem_range] at checked
  obtain ⟨⟨⟨⟨quiet, fits⟩, alloc⟩, inside⟩, marks⟩ := checked
  refine ⟨⟨fits, alloc, i.commit.commitCount_le, inside, by simp [quiet]⟩, ?_⟩
  intro k f near here
  have same := marks k near
  rw [here, Option.all_some, Bool.and_eq_true, beq_iff_eq, beq_iff_eq] at same
  exact same

def runKeeps (s : FenceRun) : List FenceIn → Bool
  | [] => true
  | i :: rest => keepsPlain s i && runKeeps (s.next i) rest

theorem legal_of_runKeeps {s : FenceRun} (checked : runKeeps s inputs = true) :
    fenceRuns.Legal s inputs := by
  induction inputs generalizing s with
  | nil => trivial
  | cons i rest ih =>
    obtain ⟨first, others⟩ := Bool.and_eq_true_iff.mp checked
    exact ⟨keeps_of_plain first, ih others⟩

/-- After a fence from reset the load waits. -/
theorem fences_order_first :
    (fenceRuns.next fenceRuns.reset (cycleOf 0 none [fenceInsn, loadInsn])).Orders loadReady := by
  have reach : fenceRuns.Reach Apart
      (fenceRuns.next fenceRuns.reset (cycleOf 0 none [fenceInsn, loadInsn])) :=
    .cycle .reset (keeps_of_plain (by decide +kernel)) ⟨by decide +kernel, by decide +kernel⟩
  exact fences_order reach (keeps_of_plain (by decide +kernel))
    ⟨by decide +kernel, by decide +kernel⟩

/-- One lap of the reorder buffer, then a fence in slot 0 behind the instruction in slot 127, which
retires. -/
def oneLap : List FenceIn :=
  cycleOf 0 none (List.replicate 4 plainInsn) ::
    List.replicate 31 (cycleOf 4 none (List.replicate 4 plainInsn)) ++
      [cycleOf 3 none [fenceInsn, loadInsn], cycleOf 1 (some 1) []]

/-- The retirement in front of the fence releases it. -/
theorem fence_forgotten : fenceRuns.Reachable (fenceRuns.run fenceRuns.reset oneLap) ∧
    (fenceRuns.run fenceRuns.reset oneLap).Keeps loadReady ∧
      ¬ (fenceRuns.run fenceRuns.reset oneLap).Orders loadReady := by
  refine ⟨Machine.Reachable.run .reset (legal_of_runKeeps (by decide +kernel)),
    keeps_of_plain (by decide +kernel), fun orders => ?_⟩
  have head : (fenceRuns.run fenceRuns.reset oneLap).program.insns[0]?.any
      (fun f => f.data.orders) = true := by decide +kernel
  have fence : (fenceRuns.run fenceRuns.reset oneLap).FenceAt 0 := (Option.any_eq_true _ _).1 head
  have issues : (fenceRuns.run fenceRuns.reset oneLap).loadIssue loadReady 0 = some 1 := by
    decide +kernel
  have near := orders.load 0 0 1 fence issues
  exact absurd near (by decide +kernel)

end Rv64gc.Backend
