import Rv64gc.Backend.Rob
import Rv64gc.Hdl.Machine

/-!
# The live window of the reorder buffer

Over whole runs the valid entries are the `count` entries behind the head, and the tail is one
past them. A partial flush keeps this: it leaves the entries before the restored tail that do not
retire in the same cycle. The one exception is a full ring restored to its head pointer, where
the pointers cannot tell the whole ring from nothing.
-/

namespace Rv64gc.Backend

open Hdl

/-- A cycle, with the number of entries a partial flush keeps before the restored tail. The 7-bit
tail alone does not tell 0 from 128. -/
structure RobCycle where
  io : RobIn
  flushAt : Nat

namespace Rob

-- ---------------------------------------------------------------------
-- Runs
-- ---------------------------------------------------------------------

def partialFlushes (x : RobIn) : Bool := x.flushValid && !x.flushFull

/-- Commit takes valid head entries, rename fills free ones, and a partial flush restores a tail
in the live window or one past it. -/
structure Legal (s : Rob) (c : RobCycle) : Prop where
  commit : c.io.commitCount ≤ pipeWidth
  present : ∀ k, k < c.io.commitCount → s.headValid k = true
  alloc : c.io.allocCount ≤ pipeWidth
  free : c.io.allocCount ≤ s.freeCount.toNat
  inWindow : partialFlushes c.io = true → c.flushAt ≤ s.count.toNat
  restored : partialFlushes c.io = true → c.io.flushRobTail = slotAt s.head c.flushAt

def robRuns : Machine Rob RobCycle where
  reset := .reset
  next s c := s.next c.io
  legal s c := s.Legal c

/-- The live entries are the `count` ones behind the head. -/
structure Window (s : Rob) : Prop where
  fits : s.count.toNat ≤ robDepth
  tail : s.tail = slotAt s.head s.count.toNat
  valid : ∀ i, (s.entry i).valid = true ↔ offset s.head i < s.count.toNat

/-- No completion port and no mispredict clear addresses the entry. -/
structure Untouched (s : Rob) (x : RobIn) (i : RobIdx) : Prop where
  cdb : ∀ w, w < cdbWidth → (x.wb w).valid = true → (x.wb w).idx ≠ i
  sta : x.staValid = true → x.staIdx ≠ i
  std : x.stdValid = true → x.stdIdx ≠ i
  load : ∀ w, w < loadPorts → (x.loadWb w).valid = true → (x.loadWb w).idx ≠ i
  sideband : x.sidebandValid = true → x.sidebandIdx ≠ i
  violation : x.violationValid = true → x.violationIdx ≠ i
  clear : s.clearsMispredict x i = false

/-- An entry older than the restored tail that does not retire in the same cycle. -/
def Survives (s : Rob) (c : RobCycle) (i : RobIdx) : Prop :=
  c.io.commitCount ≤ offset s.head i ∧ offset s.head i < c.flushAt

/-- What a partial flush is for: the valid entries are the survivors with their contents, and
head, tail and count describe exactly them. -/
structure FlushRight (s : Rob) (c : RobCycle) : Prop where
  valid : ∀ i, ((s.next c.io).entry i).valid = true ↔ s.Survives c i
  contents : ∀ i, s.Survives c i → s.Untouched c.io i → (s.next c.io).entry i = s.entry i
  tail : (s.next c.io).tail = c.io.flushRobTail
  count : (s.next c.io).count.toNat = c.flushAt - c.io.commitCount
  window : (s.next c.io).Window

/-- A full ring is not restored to its head pointer: neither with all of it squashed, nor with
all of it kept, unless something retires in the same cycle. -/
def FlushTellsApart (s : Rob) (c : RobCycle) : Prop :=
  partialFlushes c.io = true → s.count.toNat = robDepth →
    c.flushAt ≠ 0 ∧ (c.flushAt = robDepth → 0 < c.io.commitCount)

-- ---------------------------------------------------------------------
-- The completion ports
-- ---------------------------------------------------------------------

variable {s : Rob} {c : RobCycle} {x : RobIn} {i : RobIdx}

theorem foldl_keeps {f : β → α → β} (g : β → γ) (same : ∀ b a, g (f b a) = g b) (l : List α)
    (b : β) : g (l.foldl f b) = g b := by
  induction l generalizing b with
  | nil => rfl
  | cons a l ih => exact (ih (f b a)).trans (same b a)

theorem foldl_idle {f : β → α → β} {l : List α} (idle : ∀ b a, a ∈ l → f b a = b) (b : β) :
    l.foldl f b = b := by
  induction l generalizing b with
  | nil => rfl
  | cons a l ih =>
    rw [List.foldl_cons, idle b a List.mem_cons_self]
    exact ih (fun b a member => idle b a (List.mem_cons_of_mem _ member)) b

theorem complete_valid (old : RobEntry) (p : CdbPort) (e : RobEntry) :
    (complete old p e).valid = e.valid := by
  unfold complete
  simp only [apply_ite RobEntry.valid, ite_self]

theorem completeLoad_valid (p : LoadPort) (e : RobEntry) :
    (completeLoad p e).valid = e.valid := by
  unfold completeLoad
  simp only [apply_ite RobEntry.valid, ite_self]

/-- No completion makes an entry valid or invalid. -/
theorem completions_valid (s : Rob) (x : RobIn) (i : RobIdx) (e : RobEntry) :
    (s.completions x i e).valid = e.valid := by
  unfold completions
  simp only [apply_ite RobEntry.valid, completeSta, completeStd, markException, ite_self]
  rw [foldl_keeps RobEntry.valid]
  · simp only [apply_ite RobEntry.valid, ite_self]
    exact foldl_keeps RobEntry.valid
      (fun e w => by simp only [apply_ite RobEntry.valid, complete_valid, ite_self]) _ _
  · intro e w
    simp only [apply_ite RobEntry.valid, completeLoad_valid, ite_self]

theorem completions_untouched (quiet : s.Untouched x i) (e : RobEntry) :
    s.completions x i e = e := by
  have off : ∀ {v : Bool} {j : RobIdx}, (v = true → j ≠ i) → (v && j == i) = false := by
    intro v j apart
    cases v with
    | false => rfl
    | true => simpa using apart rfl
  unfold completions
  simp only [violates, off quiet.sta, off quiet.std, off quiet.violation, Bool.false_eq_true,
    if_false]
  rw [if_neg, foldl_idle, foldl_idle]
  · intro e w member
    rw [off (quiet.cdb w (List.mem_range.mp member))]
    rfl
  · intro e w member
    rw [off (quiet.load w (List.mem_range.mp member))]
    rfl
  · intro fires
    obtain ⟨fire, same⟩ := Bool.and_eq_true_iff.mp fires
    have valid : x.sidebandValid = true := by
      simp only [sidebandFire, Bool.and_eq_true] at fire
      exact fire.1.1.1
    exact quiet.sideband valid (beq_iff_eq.mp same)

-- ---------------------------------------------------------------------
-- Pointers
-- ---------------------------------------------------------------------

theorem retiring_iff (few : x.commitCount ≤ pipeWidth) :
    s.retiring x i = true ↔ offset s.head i < x.commitCount := by
  unfold retiring
  simp only [List.any_eq_true, List.mem_range, Bool.and_eq_true, decide_eq_true_eq, beq_iff_eq,
    headIdx, wrapAdd_eq]
  unfold pipeWidth at few ⊢
  constructor
  · rintro ⟨k, -, less, rfl⟩
    rw [offset_slotAt s.head (by unfold robIdxBits; omega)]
    exact less
  · intro less
    exact ⟨offset s.head i, by omega, less, slotAt_offset s.head i⟩

theorem allocating_none_iff (few : x.allocCount ≤ pipeWidth) :
    s.allocating x i = none ↔ ¬offset s.tail i < x.allocCount := by
  unfold allocating
  rw [List.find?_eq_none]
  simp only [List.mem_range, Bool.and_eq_true, decide_eq_true_eq, beq_iff_eq, allocIdx, wrapAdd_eq]
  unfold pipeWidth at few ⊢
  constructor
  · intro none less
    exact none (offset s.tail i) (by omega) ⟨less, slotAt_offset s.tail i⟩
  · rintro beyond k - ⟨less, rfl⟩
    rw [offset_slotAt s.tail (by unfold robIdxBits; omega)] at beyond
    exact beyond less

theorem rawCount_toNat (s : Rob) (x : RobIn) :
    (s.rawCount x).toNat = offset (s.nextHead x) x.flushRobTail := by
  have hn := (s.nextHead x).isLt
  have ht := x.flushRobTail.isLt
  unfold rawCount
  rw [offset_eq]
  dsimp only
  simp only [BitVec.le_def]
  split <;>
    simp only [BitVec.toNat_add, BitVec.toNat_sub, BitVec.toNat_setWidth, BitVec.toNat_ofNat,
      robIdxBits] at * <;>
    omega

theorem maxValid_toNat (fits : x.commitCount ≤ s.count.toNat) :
    (s.maxValid x).toNat = s.count.toNat - x.commitCount := by
  have hc := s.count.isLt
  unfold maxValid
  rw [BitVec.toNat_sub, BitVec.toNat_ofNat]
  omega

theorem Legal.commit_le (legal : s.Legal c) : c.io.commitCount ≤ s.count.toNat := by
  cases h : c.io.commitCount with
  | zero => exact Nat.zero_le _
  | succ k =>
    have last := legal.present k (by omega)
    simp only [headValid, Bool.and_eq_true, decide_eq_true_eq] at last
    exact last.2

-- ---------------------------------------------------------------------
-- A partial flush
-- ---------------------------------------------------------------------

theorem next_of_partialFlush (flush : partialFlushes x = true) : s.next x = s.partialFlush x := by
  obtain ⟨valid, notFull⟩ := Bool.and_eq_true_iff.mp flush
  rw [Bool.not_eq_true'] at notFull
  simp [next, valid, notFull]

theorem partialFlush_valid (s : Rob) (x : RobIn) (i : RobIdx) :
    ((s.partialFlush x).entry i).valid =
      ((s.entry i).valid && !s.inFlushRange x i && !s.retiring x i) := by
  unfold partialFlush
  simp only [apply_ite RobEntry.valid, completions_valid, ite_self, squash, retire]
  cases s.inFlushRange x i <;> cases s.retiring x i <;> simp

theorem partialFlush_untouched (quiet : s.Untouched x i) (kept : s.inFlushRange x i = false)
    (stays : s.retiring x i = false) : (s.partialFlush x).entry i = s.entry i := by
  simp [partialFlush, kept, stays, quiet.clear, completions_untouched quiet]

theorem inFlushRange_iff (window : s.Window) (legal : s.Legal c)
    (flush : partialFlushes c.io = true) :
    s.inFlushRange c.io i = true ↔ c.flushAt ≤ offset s.head i ∧
      offset s.head i < s.count.toNat ∧ ¬(c.flushAt = 0 ∧ s.count.toNat = robDepth) := by
  unfold inFlushRange
  rw [legal.restored flush, window.tail]
  exact inRange_slotAt s.head i (legal.inWindow flush) window.fits

/-- How many entries the pointers say are left. -/
theorem rawCount_window (window : s.Window) (legal : s.Legal c)
    (flush : partialFlushes c.io = true) :
    (s.rawCount c.io).toNat =
      if c.flushAt = robDepth then if c.io.commitCount = 0 then 0 else robDepth - c.io.commitCount
      else if c.io.commitCount ≤ c.flushAt then c.flushAt - c.io.commitCount
      else robDepth + c.flushAt - c.io.commitCount := by
  have few := legal.commit
  have inWindow := legal.inWindow flush
  have fits := window.fits
  unfold pipeWidth at few
  unfold robDepth at fits ⊢
  rw [rawCount_toNat, nextHead, wrapAdd_eq, legal.restored flush,
    offset_advance _ _ (by unfold robIdxBits; omega)]
  unfold robIdxBits
  by_cases whole : c.flushAt = 128
  · have once : slotAt s.head 128 = s.head := slotAt_size s.head
    have self : offset s.head s.head = 0 := by simp [offset]
    rw [if_pos whole, whole, once, self]
    split <;> split <;> omega
  · have inside : c.flushAt < 2 ^ robIdxBits := by
      unfold robIdxBits
      omega
    have lands := offset_slotAt s.head inside
    rw [if_neg whole]
    split <;> split <;> omega

/-- Where the pointers can tell, head and count describe the survivors. -/
theorem partialFlush_pointers (window : s.Window) (legal : s.Legal c)
    (flush : partialFlushes c.io = true) (apart : s.FlushTellsApart c) :
    (s.partialFlush c.io).head = slotAt s.head (min c.io.commitCount c.flushAt) ∧
      (s.partialFlush c.io).count.toNat = c.flushAt - c.io.commitCount := by
  have commits := legal.commit_le
  have inWindow := legal.inWindow flush
  have fits := window.fits
  have few := legal.commit
  have apart := apart flush
  have raw := rawCount_window window legal flush
  have bound := maxValid_toNat commits
  unfold pipeWidth at few
  unfold robDepth at fits raw apart
  simp only [partialFlush, BitVec.le_def, nextHead, wrapAdd_eq, legal.restored flush]
  by_cases enough : c.io.commitCount ≤ c.flushAt
  · have exact_ : (s.rawCount c.io).toNat = c.flushAt - c.io.commitCount := by
      rw [raw, if_pos enough]
      split
      · split <;> omega
      · rfl
    have below : (s.rawCount c.io).toNat ≤ (s.maxValid c.io).toNat := by omega
    rw [if_pos below, if_pos below, Nat.min_eq_left enough]
    exact ⟨rfl, exact_⟩
  · have above : ¬(s.rawCount c.io).toNat ≤ (s.maxValid c.io).toNat := by
      rw [raw, if_neg (by omega), if_neg enough]
      omega
    rw [if_neg above, if_neg above, Nat.min_eq_right (by omega)]
    refine ⟨rfl, ?_⟩
    show 0 = _
    omega

theorem partialFlush_valid_iff (window : s.Window) (legal : s.Legal c)
    (flush : partialFlushes c.io = true) (apart : s.FlushTellsApart c) :
    ((s.partialFlush c.io).entry i).valid = true ↔ s.Survives c i := by
  have inWindow := legal.inWindow flush
  have apart := apart flush
  rw [partialFlush_valid]
  simp only [Bool.and_eq_true, Bool.not_eq_true', ← Bool.not_eq_true, window.valid,
    inFlushRange_iff window legal flush, retiring_iff legal.commit, Survives]
  omega

theorem partialFlush_window (window : s.Window) (legal : s.Legal c)
    (flush : partialFlushes c.io = true) (apart : s.FlushTellsApart c) :
    (s.partialFlush c.io).Window := by
  obtain ⟨head, count⟩ := partialFlush_pointers window legal flush apart
  have inWindow := legal.inWindow flush
  have fits := window.fits
  refine ⟨?_, ?_, fun i => ?_⟩
  · rw [count]
    omega
  · rw [head, count, slotAt_slotAt]
    exact (legal.restored flush).trans (congrArg _ (by omega))
  · have inRing := offset_lt s.head i
    have few := legal.commit
    unfold pipeWidth at few
    unfold robDepth at fits
    unfold robIdxBits at inRing
    rw [partialFlush_valid_iff window legal flush apart, head, count, Survives,
      offset_advance _ _ (by unfold robIdxBits; omega)]
    unfold robIdxBits
    split <;> omega

/-- A partial flush is right iff the pointers can tell what is left. -/
theorem flushRight_iff (window : s.Window) (legal : s.Legal c)
    (flush : partialFlushes c.io = true) : s.FlushRight c ↔ s.FlushTellsApart c := by
  have inWindow := legal.inWindow flush
  constructor
  · intro right _ full
    have valid := right.valid
    have count := right.count
    rw [next_of_partialFlush flush] at valid count
    constructor
    · intro none
      -- Nothing is squashed: the entry furthest behind the head stays.
      have last := valid (slotAt s.head 127)
      have few := legal.commit
      unfold pipeWidth at few
      rw [partialFlush_valid] at last
      simp only [Bool.and_eq_true, Bool.not_eq_true', ← Bool.not_eq_true, window.valid,
        inFlushRange_iff window legal flush, retiring_iff legal.commit, Survives] at last
      rw [offset_slotAt s.head (by unfold robIdxBits; omega)] at last
      unfold robDepth at full last
      omega
    · intro all
      by_contra idle
      have raw := rawCount_window window legal flush
      rw [if_pos all, if_pos (by omega)] at raw
      unfold robDepth at all
      have kept : (s.partialFlush c.io).count.toNat = 0 := by
        simp only [partialFlush, BitVec.le_def, raw, Nat.zero_le, if_true]
      omega
  · intro apart
    obtain ⟨head, count⟩ := partialFlush_pointers window legal flush apart
    have same := next_of_partialFlush (s := s) flush
    refine ⟨fun i => ?_, fun i survives quiet => ?_, ?_, ?_, ?_⟩
    · rw [same]
      exact partialFlush_valid_iff window legal flush apart
    · obtain ⟨stays, kept⟩ := survives
      rw [same]
      refine partialFlush_untouched quiet ?_ ?_
      · rw [← Bool.not_eq_true, inFlushRange_iff window legal flush]
        omega
      · rw [← Bool.not_eq_true, retiring_iff legal.commit]
        omega
    · rw [same]
      rfl
    · rw [same, count]
    · rw [same]
      exact partialFlush_window window legal flush apart

-- ---------------------------------------------------------------------
-- The other cycles
-- ---------------------------------------------------------------------

theorem normal_valid (s : Rob) (x : RobIn) (i : RobIdx) :
    ((s.normal x).entry i).valid =
      (((s.entry i).valid || (s.allocating x i).isSome) && !s.retiring x i) := by
  unfold normal
  simp only [apply_ite RobEntry.valid, completions_valid, retire]
  cases s.allocating x i <;> cases s.retiring x i <;> simp [allocated]

theorem normal_count (window : s.Window) (legal : s.Legal c) :
    (s.normal c.io).count.toNat = s.count.toNat + c.io.allocCount - c.io.commitCount := by
  have fits := window.fits
  have free := legal.free
  have commits := legal.commit_le
  have few := legal.alloc
  unfold robDepth at fits
  unfold pipeWidth at few
  simp only [freeCount, BitVec.toNat_sub, BitVec.toNat_ofNat] at free
  simp only [normal, BitVec.toNat_sub, BitVec.toNat_add, BitVec.toNat_ofNat]
  omega

theorem normal_window (window : s.Window) (legal : s.Legal c) : (s.normal c.io).Window := by
  have count := normal_count window legal
  have fits := window.fits
  have free := legal.free
  have commits := legal.commit_le
  have few := legal.alloc
  have retires := legal.commit
  unfold robDepth at fits
  unfold pipeWidth at few retires
  simp only [freeCount, BitVec.toNat_sub, BitVec.toNat_ofNat] at free
  have head : (s.normal c.io).head = slotAt s.head c.io.commitCount := wrapAdd_eq _ _
  have tail : (s.normal c.io).tail = slotAt s.head (s.count.toNat + c.io.allocCount) := by
    rw [← slotAt_slotAt, ← window.tail]
    exact wrapAdd_eq _ _
  refine ⟨?_, ?_, fun i => ?_⟩
  · rw [count]
    unfold robDepth
    omega
  · rw [tail, head, count, slotAt_slotAt]
    exact congrArg _ (by omega)
  · have inRing := offset_lt s.head i
    have allocates := allocating_none_iff (s := s) (i := i) legal.alloc
    rw [window.tail, offset_advance _ _ (by unfold robIdxBits; omega)] at allocates
    rw [normal_valid, head, count, offset_advance _ _ (by unfold robIdxBits; omega)]
    simp only [Bool.and_eq_true, Bool.or_eq_true, Bool.not_eq_true', ← Bool.not_eq_true,
      Option.isSome_iff_ne_none, window.valid, retiring_iff legal.commit, ne_eq, allocates]
    unfold robIdxBits at inRing ⊢
    split <;> split <;> omega

theorem next_window (window : s.Window) (legal : s.Legal c) (apart : s.FlushTellsApart c) :
    (s.next c.io).Window := by
  cases flush : partialFlushes c.io with
  | true =>
    rw [next_of_partialFlush flush]
    exact partialFlush_window window legal flush apart
  | false =>
    unfold next
    split
    · exact ⟨Nat.zero_le _, rfl, fun i => ⟨fun h => (Bool.false_ne_true h).elim,
        fun h => absurd h (Nat.not_lt_zero _)⟩⟩
    · rename_i notFull
      split
      · rename_i valid
        simp_all [partialFlushes]
      · exact normal_window window legal

theorem reset_window : Window .reset :=
  ⟨Nat.zero_le _, rfl, fun _ => ⟨fun h => (Bool.false_ne_true h).elim,
    fun h => absurd h (Nat.not_lt_zero _)⟩⟩

/-- While partial flushes can tell a full ring from an empty one, the valid entries are the live
window, and the next partial flush leaves exactly the survivors iff it can tell as well. -/
theorem partial_flush_leaves_survivors (reach : robRuns.Reach FlushTellsApart s) :
    s.Window ∧ ∀ c, s.Legal c → partialFlushes c.io = true →
      (s.FlushRight c ↔ s.FlushTellsApart c) := by
  have window : s.Window := by
    refine reach.invariant Window reset_window ?_
    intro s c _ window legal apart
    exact next_window window legal apart
  exact ⟨window, fun c legal flush => flushRight_iff window legal flush⟩

-- ---------------------------------------------------------------------
-- A full ring
-- ---------------------------------------------------------------------

def idle : RobIn where
  allocCount := 0
  alloc _ := ⟨false, false, 0, 0, 0, 0, false, 0, false, false, false, false, false, false, false,
    false, false, false, false, false⟩
  wb _ := ⟨false, 0, false, 0, false, false, 0, 0, false, false, 0, 0, 0, false, 0⟩
  staValid := false
  staIdx := 0
  stdValid := false
  stdIdx := 0
  loadWb _ := ⟨false, 0, false, 0⟩
  sidebandValid := false
  sidebandIdx := 0
  sidebandCode := 0
  sidebandTval := 0
  violationValid := false
  violationIdx := 0
  commitCount := 0
  flushValid := false
  flushRobTail := 0
  flushFull := false
  flushClearBranchMispredict := false

def allocFour : RobCycle := ⟨{ idle with allocCount := 4 }, 0⟩

/-- The last of the 128 entries is a mispredicted branch: the tail restored is the one after it. -/
def flushAll : RobCycle := ⟨{ idle with flushValid := true }, 128⟩

def filled (n : Nat) : Rob := robRuns.run .reset (List.replicate n allocFour)

theorem filled_succ (n : Nat) : filled (n + 1) = (filled n).next allocFour.io := by
  unfold filled
  rw [List.replicate_succ', Machine.run_append]
  rfl

theorem filled_reach (n : Nat) (fits : n ≤ 32) :
    robRuns.Reach FlushTellsApart (filled n) ∧ (filled n).count.toNat = 4 * n ∧
      (filled n).head = 0 := by
  induction n with
  | zero => exact ⟨.reset, rfl, rfl⟩
  | succ n ih =>
    obtain ⟨reach, count, head⟩ := ih (by omega)
    have window : (filled n).Window :=
      reach.invariant Window reset_window fun _ _ _ window legal apart =>
        next_window window legal apart
    have legal : (filled n).Legal allocFour := by
      refine ⟨by decide, fun k h => absurd h (Nat.not_lt_zero _), by decide, ?_,
        fun h => (Bool.false_ne_true h).elim, fun h => (Bool.false_ne_true h).elim⟩
      simp only [freeCount, BitVec.toNat_sub, count, BitVec.toNat_ofNat, allocFour]
      omega
    have apart : (filled n).FlushTellsApart allocFour := fun h => (Bool.false_ne_true h).elim
    rw [filled_succ]
    refine ⟨reach.cycle legal apart, ?_, ?_⟩
    · show ((filled n).normal allocFour.io).count.toNat = _
      rw [normal_count window legal, count]
      show 4 * n + 4 - 0 = _
      omega
    · show ((filled n).normal allocFour.io).head = _
      show wrapAdd (filled n).head 0 = _
      rw [head]
      decide

theorem legal_flushAll : (filled 32).Legal flushAll := by
  obtain ⟨-, count, head⟩ := filled_reach 32 (by decide)
  refine ⟨by decide, fun k h => absurd h (Nat.not_lt_zero _), by decide, Nat.zero_le _, ?_, ?_⟩
  · intro _
    rw [count]
    decide
  · intro _
    rw [head]
    decide

/-- One entry kept of the four that are there. -/
def flushThree : RobCycle := ⟨{ idle with flushValid := true, flushRobTail := 1 }, 1⟩

theorem partial_flush_leaves_survivors_one : (filled 1).FlushRight flushThree := by
  obtain ⟨reach, count, head⟩ := filled_reach 1 (by decide)
  have legal : (filled 1).Legal flushThree := by
    refine ⟨by decide, fun k h => absurd h (Nat.not_lt_zero _), by decide, Nat.zero_le _, ?_, ?_⟩
    · intro _
      rw [count]
      decide
    · intro _
      rw [head]
      decide
  refine ((partial_flush_leaves_survivors reach).2 flushThree legal rfl).mpr ?_
  intro _ full
  rw [count] at full
  cases full

/-- All 128 entries stay valid, and the count says that none is left. -/
theorem full_ring_lost :
    robRuns.Reachable (filled 32) ∧ (filled 32).Legal flushAll ∧
      ¬(filled 32).FlushRight flushAll ∧ ((filled 32).next flushAll.io).count.toNat = 0 ∧
      ∀ i, (((filled 32).next flushAll.io).entry i).valid = true := by
  obtain ⟨reach, count, -⟩ := filled_reach 32 (by decide)
  have legal := legal_flushAll
  have window := (partial_flush_leaves_survivors reach).1
  refine ⟨reach.reachable, legal, ?_, ?_, fun i => ?_⟩
  · intro right
    have apart := (flushRight_iff window legal rfl).mp right rfl count
    exact absurd (apart.2 rfl) (Nat.lt_irrefl 0)
  · have none : ((filled 32).rawCount flushAll.io).toNat = 0 := rawCount_window window legal rfl
    show ((filled 32).partialFlush flushAll.io).count.toNat = 0
    simp only [partialFlush, BitVec.le_def, none, Nat.zero_le, if_true]
  · show (((filled 32).partialFlush flushAll.io).entry i).valid = true
    have inRing := offset_lt (filled 32).head i
    unfold robIdxBits at inRing
    rw [partialFlush_valid]
    simp only [Bool.and_eq_true, Bool.not_eq_true', ← Bool.not_eq_true, window.valid,
      inFlushRange_iff window legal rfl, retiring_iff legal.commit]
    show (offset _ i < _ ∧ ¬(128 ≤ _ ∧ _)) ∧ ¬_ < 0
    omega

end Rob

end Rv64gc.Backend
