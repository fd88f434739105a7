import Rv64gc.Pkg
import Rv64gc.Hdl.Bits
import Rv64gc.Hdl.Table

/-!
# The free list

`free_list.sv`: one bit per physical register. Four cascaded priority encoders present the lowest
free registers; the bits of those that rename consumes are cleared, the bits of the registers that
commit releases are set. A checkpoint saves the bitmap and the committed bitmap of its cycle.
-/

namespace Rv64gc.Rename

open Hdl

structure FreeList (depth : Nat) where
  freeBitmap : BitVec depth
  committedBitmap : BitVec depth
  committedMap : ArchReg → PhysReg
  ckptBitmap : CkptId → BitVec depth
  ckptCommittedBitmap : CkptId → BitVec depth

structure FreeListIn where
  /-- The requests of the slots that advance; only these leave the list. -/
  allocConsumeCount : Nat
  releaseCount : Nat
  releasePreg : Nat → PhysReg
  commitWrValid : Nat → Bool
  commitArch : Nat → ArchReg
  commitPdst : Nat → PhysReg
  ckptSave : Bool
  ckptSaveId : CkptId
  ckptSaveAllocCount : Nat
  ckptRestore : Bool
  ckptRestoreId : CkptId
  flush : Bool

namespace FreeList

variable {depth : Nat}

/-- The architectural registers are in use, the others free. -/
def initBitmap (depth : Nat) : BitVec depth :=
  BitVec.allOnes depth &&& ~~~(BitVec.allOnes archRegs).setWidth depth

def reset (depth : Nat) : FreeList depth where
  freeBitmap := initBitmap depth
  committedBitmap := initBitmap depth
  committedMap a := a.toNat
  ckptBitmap _ := initBitmap depth
  ckptCommittedBitmap _ := initBitmap depth

variable (protectZero : Bool) (s : FreeList depth) (i : FreeListIn)

-- ---------------------------------------------------------------------
-- Allocation
-- ---------------------------------------------------------------------

/-- The bitmap that encoder `k` sees: the ones before it have taken their bits out. -/
def workBitmap : Nat → BitVec depth
  | 0 => s.freeBitmap
  | k + 1 =>
    match firstSet (workBitmap k) with
    | some b => put (workBitmap k) b false
    | none => workBitmap k

def found (k : Nat) : Option Nat := firstSet (s.workBitmap k)

def foundValid (k : Nat) : Bool := (s.found k).isSome
def foundIdx (k : Nat) : PhysReg := (s.found k).getD 0

def allocPreg (k : Nat) : PhysReg := s.foundIdx k

/-- How many of the `req` registers asked for are there. -/
def allocAvailCount (req : Nat) : Nat :=
  (List.range pipeWidth).foldl
    (fun n k => if s.foundValid k && decide (k < req) then k + 1 else n) 0

def freeCount : Nat := (List.range depth).countP s.freeBitmap.getLsbD

-- ---------------------------------------------------------------------
-- The committed state
-- ---------------------------------------------------------------------

def committedMapNext : ArchReg → PhysReg :=
  writeEach (fun k => i.commitWrValid k && (!protectZero || i.commitArch k != 0))
    i.commitArch i.commitPdst s.committedMap pipeWidth

def committedBitmapNext : BitVec depth :=
  let map := s.committedMapNext protectZero i
  let b := if protectZero then put (BitVec.allOnes depth) 0 false else BitVec.allOnes depth
  putEach (fun a => !protectZero || map (BitVec.ofNat 5 a) != 0)
    (fun a => map (BitVec.ofNat 5 a)) false b archRegs

-- ---------------------------------------------------------------------
-- The cycle
-- ---------------------------------------------------------------------

def releases (k : Nat) : Bool :=
  decide (k < i.releaseCount) && (!protectZero || i.releasePreg k != 0)

/-- Releases, each followed by the commit of the same slot, which is no longer free. -/
def releaseAndCommit (b : BitVec depth) : Nat → BitVec depth
  | 0 => b
  | k + 1 =>
    let b := releaseAndCommit b k
    let b := if releases protectZero i k then put b (i.releasePreg k) true else b
    if i.commitWrValid k && (!protectZero || i.commitPdst k != 0) then
      put b (i.commitPdst k) false
    else b

def ckptSaveBitmapNext : BitVec depth :=
  let b := putEach (fun k => s.foundValid k && decide (k < i.ckptSaveAllocCount)) s.foundIdx false
    s.freeBitmap pipeWidth
  releaseAndCommit protectZero i b pipeWidth

def allocateAndRelease : Nat → BitVec depth
  | 0 => s.freeBitmap
  | k + 1 =>
    let b := allocateAndRelease k
    let b :=
      if s.foundValid k && decide (k < i.allocConsumeCount) then put b (s.foundIdx k) false else b
    if releases protectZero i k then put b (i.releasePreg k) true else b

def next : FreeList depth where
  freeBitmap :=
    if i.flush then s.committedBitmapNext protectZero i
    else if i.ckptRestore then
      s.ckptBitmap i.ckptRestoreId |||
        (s.committedBitmapNext protectZero i &&& ~~~s.ckptCommittedBitmap i.ckptRestoreId)
    else s.allocateAndRelease protectZero i pipeWidth
  committedBitmap := s.committedBitmapNext protectZero i
  committedMap := s.committedMapNext protectZero i
  ckptBitmap c :=
    if i.ckptSave && c == i.ckptSaveId then s.ckptSaveBitmapNext protectZero i
    else s.ckptBitmap c
  ckptCommittedBitmap c :=
    if i.ckptSave && c == i.ckptSaveId then s.committedBitmapNext protectZero i
    else s.ckptCommittedBitmap c

-- ---------------------------------------------------------------------
-- What the encoders present
-- ---------------------------------------------------------------------

variable {protectZero} {s} {i}

/-- The bits before an encoder are the free ones less those found before it. -/
theorem workBitmap_iff : (s.workBitmap k).getLsbD v = true ↔
    s.freeBitmap.getLsbD v = true ∧ ∀ j < k, s.found j ≠ some v := by
  induction k with
  | zero => simp [workBitmap]
  | succ k ih =>
    have split_last : (∀ j < k + 1, s.found j ≠ some v) ↔
        (∀ j < k, s.found j ≠ some v) ∧ s.found k ≠ some v := by
      simp only [Nat.lt_succ_iff_lt_or_eq]
      grind
    rw [split_last, ← and_assoc, ← ih, workBitmap]
    unfold found
    cases first : firstSet (s.workBitmap k) with
    | none => simp
    | some b =>
      have inside := firstSet_some first
      simp only [getLsbD_put, ne_eq, Option.some.injEq]
      by_cases same : b = v
      · subst same
        simp [inside.1]
      · simp [same]

theorem found_free (found : s.found k = some v) : v < depth ∧ s.freeBitmap.getLsbD v = true := by
  obtain ⟨inside, free⟩ := firstSet_some found
  exact ⟨inside, (workBitmap_iff.mp free).1⟩

theorem found_ne (before : j < k) (found : s.found k = some v) : s.found j ≠ some v :=
  (workBitmap_iff.mp (firstSet_some found).2).2 j before

theorem foundValid_of_le (le : j ≤ k) (valid : s.foundValid k = true) : s.foundValid j = true := by
  induction le with
  | refl => exact valid
  | step _ ih =>
    rename_i m _
    apply ih
    obtain ⟨v, found⟩ := Option.isSome_iff_exists.mp valid
    have free := (firstSet_some found).2
    unfold foundValid FreeList.found
    cases first : firstSet (s.workBitmap m) with
    | some w => rfl
    | none =>
      rw [workBitmap, first, firstSet_none first] at free
      cases free

theorem found_foundIdx (valid : s.foundValid k = true) : s.found k = some (s.foundIdx k) := by
  obtain ⟨v, found⟩ := Option.isSome_iff_exists.mp valid
  simp [foundIdx, found]

theorem lt_allocAvailCount (grant : k < s.allocAvailCount req) :
    s.foundValid k = true ∧ k < req := by
  have fold : ∀ n m, k < (List.range n).foldl
      (fun m k => if s.foundValid k && decide (k < req) then k + 1 else m) m →
      k < m ∨ s.foundValid k = true ∧ k < req := by
    intro n
    induction n with
    | zero => exact fun m less => .inl less
    | succ n ih =>
      intro m less
      rw [List.range_succ, List.foldl_append] at less
      simp only [List.foldl_cons, List.foldl_nil] at less
      split at less
      · rename_i last
        rw [Bool.and_eq_true, decide_eq_true_eq] at last
        exact .inr ⟨foundValid_of_le (Nat.le_of_lt_succ less) last.1, by omega⟩
      · exact ih m less
  exact (fold pipeWidth 0 grant).resolve_left (Nat.not_lt_zero k)

-- ---------------------------------------------------------------------
-- What a cycle leaves free
-- ---------------------------------------------------------------------

/-- Every register free after the allocations and releases of the slots before `n` was free and
not consumed, or has been released. -/
theorem free_of_allocateAndRelease (free : (s.allocateAndRelease protectZero i n).getLsbD v = true) :
    (s.freeBitmap.getLsbD v = true ∧ ∀ k < n, k < i.allocConsumeCount → s.found k ≠ some v) ∨
      ∃ r < n, releases protectZero i r = true ∧ i.releasePreg r = v := by
  induction n with
  | zero => exact .inl ⟨free, fun k less => absurd less (Nat.not_lt_zero k)⟩
  | succ n ih =>
    simp only [allocateAndRelease] at free
    by_cases released : releases protectZero i n = true ∧ i.releasePreg n = v
    · exact .inr ⟨n, Nat.lt_succ_self n, released⟩
    · have before : (if s.foundValid n && decide (n < i.allocConsumeCount) then
          put (s.allocateAndRelease protectZero i n) (s.foundIdx n) false
          else s.allocateAndRelease protectZero i n).getLsbD v = true := by
        split at free
        · rename_i releases_n
          rw [getLsbD_put] at free
          rw [if_neg fun both => released ⟨releases_n, both.1⟩] at free
          exact free
        · exact free
      have earlier : (s.allocateAndRelease protectZero i n).getLsbD v = true ∧
          (n < i.allocConsumeCount → s.found n ≠ some v) := by
        split at before
        · rename_i taken
          rw [Bool.and_eq_true, decide_eq_true_eq] at taken
          rw [getLsbD_put, found_foundIdx taken.1] at *
          split at before
          · cases before
          · rename_i other
            refine ⟨before, fun _ same => other ⟨Option.some.inj same, ?_⟩⟩
            exact BitVec.lt_of_getLsbD before
        · rename_i kept
          refine ⟨before, fun consumed same => kept ?_⟩
          simp [foundValid, same, consumed]
      rcases ih earlier.1 with ⟨was, kept⟩ | ⟨r, less, rest⟩
      · refine .inl ⟨was, fun k less consumed => ?_⟩
        rcases Nat.lt_succ_iff_lt_or_eq.mp less with inside | rfl
        · exact kept k inside consumed
        · exact earlier.2 consumed
      · exact .inr ⟨r, Nat.lt_succ_of_lt less, rest⟩

/-- A free bit stays set in a slot that does not consume it. -/
theorem allocateAndRelease_succ (free : (s.allocateAndRelease protectZero i n).getLsbD v = true)
    (kept : n < i.allocConsumeCount → s.found n ≠ some v) :
    (s.allocateAndRelease protectZero i (n + 1)).getLsbD v = true := by
  have inside := BitVec.lt_of_getLsbD free
  have allocated : (if s.foundValid n && decide (n < i.allocConsumeCount) then
      put (s.allocateAndRelease protectZero i n) (s.foundIdx n) false
      else s.allocateAndRelease protectZero i n).getLsbD v = true := by
    split
    · rename_i taken
      rw [Bool.and_eq_true, decide_eq_true_eq] at taken
      rw [getLsbD_put, if_neg]
      · exact free
      · rintro ⟨same, -⟩
        exact kept taken.2 (same ▸ found_foundIdx taken.1)
    · exact free
  simp only [allocateAndRelease]
  split
  · rw [getLsbD_put]
    split
    · rfl
    · exact allocated
  · exact allocated

/-- A register that is free stays free unless it is consumed. -/
theorem allocateAndRelease_of_kept (free : s.freeBitmap.getLsbD v = true)
    (kept : ∀ k < n, k < i.allocConsumeCount → s.found k ≠ some v) :
    (s.allocateAndRelease protectZero i n).getLsbD v = true := by
  induction n with
  | zero => exact free
  | succ n ih =>
    apply allocateAndRelease_succ
    · exact ih fun k less => kept k (Nat.lt_succ_of_lt less)
    · exact kept n (Nat.lt_succ_self n)

/-- A register that is released is free, for no slot consumes it. -/
theorem allocateAndRelease_of_released (used : s.freeBitmap.getLsbD v ≠ true) (inside : v < depth)
    (release : releases protectZero i r = true) (tag : i.releasePreg r = v) (less : r < n) :
    (s.allocateAndRelease protectZero i n).getLsbD v = true := by
  induction n with
  | zero => exact absurd less (Nat.not_lt_zero r)
  | succ n ih =>
    rcases Nat.lt_succ_iff_lt_or_eq.mp less with before | rfl
    · exact allocateAndRelease_succ (ih before) fun _ found => used (found_free found).2
    · simp only [allocateAndRelease, release, if_true, getLsbD_put, tag, inside, and_self]

/-- Registers that stand for a constant: `p0` of the integer file. -/
def Shared (protectZero : Bool) (v : PhysReg) : Prop := protectZero = true ∧ v = 0

instance : Decidable (Shared protectZero v) :=
  inferInstanceAs (Decidable (protectZero = true ∧ v = 0))

theorem releases_iff : releases protectZero i r = true ↔
    r < i.releaseCount ∧ ¬Shared protectZero (i.releasePreg r) := by
  cases protectZero <;> simp [releases, Shared]

/-- Free in the committed state: what the committed map does not hold. -/
theorem committedBitmapNext_iff : (s.committedBitmapNext protectZero i).getLsbD v = true ↔
    v < depth ∧ ¬Shared protectZero v ∧ ∀ a, s.committedMapNext protectZero i a ≠ v := by
  have ones : (BitVec.allOnes depth).getLsbD v = true ↔ v < depth := by
    simp [-BitVec.getLsbD_eq_getElem]
  have start : (if protectZero then put (BitVec.allOnes depth) 0 false
      else BitVec.allOnes depth).getLsbD v = true ↔ v < depth ∧ ¬Shared protectZero v := by
    cases protectZero with
    | false =>
      rw [if_neg Bool.false_ne_true, ones]
      simp [Shared]
    | true =>
      rw [if_pos rfl, getLsbD_put]
      by_cases zero : 0 = v
      · subst zero
        by_cases inside : 0 < depth <;> simp [Shared, inside]
      · rw [if_neg fun both => zero both.1, ones]
        simp [Shared, Ne.symm zero]
  rw [committedBitmapNext, getLsbD_putEach_false, start, and_assoc]
  refine and_congr_right fun _ => and_congr_right fun private_ => ?_
  constructor
  · intro all a same
    have here := all a.toNat a.isLt
    rw [BitVec.ofNat_toNat, BitVec.setWidth_eq] at here
    refine here ?_ same
    cases protectZero with
    | false => rfl
    | true =>
      simp only [Shared, true_and] at private_
      simpa [same] using private_
  · intro all k _ _ same
    exact all _ same

theorem free_of_cycle (le : i.allocConsumeCount ≤ pipeWidth)
    (free : (s.allocateAndRelease protectZero i pipeWidth).getLsbD v = true) :
    (s.workBitmap i.allocConsumeCount).getLsbD v = true ∨
      ∃ r < pipeWidth, releases protectZero i r = true ∧ i.releasePreg r = v := by
  rcases free_of_allocateAndRelease free with ⟨was, kept⟩ | release
  · exact .inl (workBitmap_iff.mpr
      ⟨was, fun j less => kept j (Nat.lt_of_lt_of_le less le) less⟩)
  · exact .inr release

theorem free_of_releaseAndCommit (free : (releaseAndCommit protectZero i b n).getLsbD v = true) :
    b.getLsbD v = true ∨ ∃ r < n, releases protectZero i r = true ∧ i.releasePreg r = v := by
  induction n with
  | zero => exact .inl free
  | succ n ih =>
    simp only [releaseAndCommit] at free
    have before : (if releases protectZero i n then
        put (releaseAndCommit protectZero i b n) (i.releasePreg n) true
        else releaseAndCommit protectZero i b n).getLsbD v = true := by
      split at free
      · rw [getLsbD_put] at free
        split at free
        · cases free
        · exact free
      · exact free
    by_cases here : releases protectZero i n = true ∧ i.releasePreg n = v
    · exact .inr ⟨n, Nat.lt_succ_self n, here⟩
    · have earlier : (releaseAndCommit protectZero i b n).getLsbD v = true := by
        split at before
        · rename_i releases_n
          rw [getLsbD_put, if_neg fun both => here ⟨releases_n, both.1⟩] at before
          exact before
        · exact before
      rcases ih earlier with was | ⟨r, less, rest⟩
      · exact .inl was
      · exact .inr ⟨r, Nat.lt_succ_of_lt less, rest⟩

/-- The bits that are left when the first `n` encoders hand out what they found. -/
theorem free_of_ckptSave (le : i.ckptSaveAllocCount ≤ pipeWidth)
    (free : (s.ckptSaveBitmapNext protectZero i).getLsbD v = true) :
    (s.workBitmap i.ckptSaveAllocCount).getLsbD v = true ∨
      ∃ r < pipeWidth, releases protectZero i r = true ∧ i.releasePreg r = v := by
  rcases free_of_releaseAndCommit free with was | release
  · rw [getLsbD_putEach_false] at was
    refine .inl (workBitmap_iff.mpr ⟨was.1, fun j less found => ?_⟩)
    have valid : s.foundValid j = true := by simp [foundValid, found]
    refine was.2 j (Nat.lt_of_lt_of_le less le) (by simp [valid, less]) ?_
    simp [foundIdx, found]
  · exact .inr release

/-- A free bit stays set unless its register is committed. -/
theorem releaseAndCommit_of_free (free : b.getLsbD v = true)
    (other : ∀ k < n, i.commitWrValid k = true → ¬Shared protectZero (i.commitPdst k) →
      i.commitPdst k ≠ v) : (releaseAndCommit protectZero i b n).getLsbD v = true := by
  induction n with
  | zero => exact free
  | succ n ih =>
    have before := ih fun k less => other k (Nat.lt_succ_of_lt less)
    have released : (if releases protectZero i n then
        put (releaseAndCommit protectZero i b n) (i.releasePreg n) true
        else releaseAndCommit protectZero i b n).getLsbD v = true := by
      split
      · rw [getLsbD_put]
        split
        · rfl
        · exact before
      · exact before
    simp only [releaseAndCommit]
    split
    · rename_i commits
      rw [Bool.and_eq_true, Bool.or_eq_true, Bool.not_eq_true', bne_iff_ne] at commits
      have notShared : ¬Shared protectZero (i.commitPdst n) := by
        rintro ⟨zero, same⟩
        rcases commits.2 with off | nonzero
        · rw [zero] at off
          cases off
        · exact nonzero same
      rw [getLsbD_put, if_neg fun both => other n (Nat.lt_succ_self n) commits.1 notShared both.1]
      exact released
    · exact released

/-- What is free and not handed out before the branch is in the saved bitmap. -/
theorem ckptSave_of_kept (free : (s.workBitmap i.ckptSaveAllocCount).getLsbD v = true)
    (other : ∀ k < pipeWidth, i.commitWrValid k = true → ¬Shared protectZero (i.commitPdst k) →
      i.commitPdst k ≠ v) : (s.ckptSaveBitmapNext protectZero i).getLsbD v = true := by
  obtain ⟨was, kept⟩ := workBitmap_iff.mp free
  refine releaseAndCommit_of_free ?_ other
  rw [getLsbD_putEach_false]
  refine ⟨was, fun k _ handed same => ?_⟩
  rw [Bool.and_eq_true, decide_eq_true_eq] at handed
  exact kept k handed.2 (same ▸ found_foundIdx handed.1)

end FreeList

end Rv64gc.Rename
