import Rv64gc.Rename.HoldQueue

/-!
# Renaming four at once is renaming one at a time

`SeqState.write` renames one instruction: it takes the lowest free register and changes the map.
The bypass network, the request order of the free lists and the cascade of encoders give every
slot what it would get if the slots before it had been renamed one after the other.
-/

namespace Rv64gc.Rename

open Hdl

-- ---------------------------------------------------------------------
-- One instruction at a time
-- ---------------------------------------------------------------------

structure SeqState where
  map : RegClass → ArchReg → PhysReg
  free : (c : RegClass) → BitVec c.depth

structure Tags where
  rs1 : PhysReg
  rs2 : PhysReg
  rs3 : PhysReg
  pdst : PhysReg
  oldPdst : PhysReg

def RenamedInsn.tags (r : RenamedInsn) : Tags :=
  ⟨r.rs1Phys, r.rs2Phys, r.rs3Phys, r.pdst, r.oldPdst⟩

namespace SeqState

def lookup (st : SeqState) (c : RegClass) (a : ArchReg) : PhysReg := c.base + st.map c a

def operand (st : SeqState) (valid isFp : Bool) (a : ArchReg) : PhysReg :=
  if valid then st.lookup (.ofFp isFp) a else 0

/-- The register the destination gets. -/
def grant (st : SeqState) (d : DecodedInsn) : PhysReg :=
  if d.isZeroElim then 0 else (firstSet (st.free d.rdClass)).getD 0

def tags (st : SeqState) (d : DecodedInsn) : Tags where
  rs1 := st.operand d.rs1Valid d.rs1IsFp d.rs1Arch
  rs2 := st.operand d.rs2Valid d.rs2IsFp d.rs2Arch
  rs3 := st.operand d.rs3Valid d.rs3IsFp d.rs3Arch
  pdst := if d.writesRd then d.rdClass.base + st.grant d else 0
  oldPdst := st.lookup d.rdClass d.rdArch

/-- The state after the instruction. -/
def write (st : SeqState) (d : DecodedInsn) : SeqState :=
  if d.writesRd then
    { map := Function.update st.map d.rdClass
        (Function.update (st.map d.rdClass) d.rdArch (st.grant d))
      free :=
        if d.isZeroElim then st.free
        else Function.update st.free d.rdClass (put (st.free d.rdClass) (st.grant d) false) }
  else st

def after (st : SeqState) (batch : List DecodedInsn) : SeqState := batch.foldl write st

theorem write_of_x0 (st : SeqState) (int : d.rdIsFp = false) (x0 : d.rdArch = 0) :
    st.write d = st := by
  simp [write, DecodedInsn.writesRd, int, x0]

end SeqState

namespace RenameStage

variable {s : RenameStage} {x : RenameIn}

def seqState (s : RenameStage) : SeqState where
  map c := (s.rat c).table
  free c := (s.freeList c).freeBitmap

-- ---------------------------------------------------------------------
-- The slots follow it
-- ---------------------------------------------------------------------

/-- The map of class `c` that slot `k` reads. -/
def mapBefore (s : RenameStage) (x : RenameIn) (c : RegClass) (k : Nat) : ArchReg → PhysReg :=
  writeEach (s.ratWrEn x c) (s.ratWrArch x) (s.ratWrPhys x c) (s.rat c).table k

theorem ratRead_eq : s.ratRead x c k a = c.base + s.mapBefore x c k a := by
  rw [ratRead, Rat.read, mapBefore, ← bypass_eq_writeEach]
  rfl

theorem ratWrEn_iff (inside : k < s.advanceCount x) (at_slot : (s.work x)[k]? = some d) :
    s.ratWrEn x c k = (d.writesRd && d.rdClass == c) := by
  simp [ratWrEn, slotCanAdvance_iff.mpr inside, slot, at_slot]

theorem ratWrArch_eq (at_slot : (s.work x)[k]? = some d) : s.ratWrArch x k = d.rdArch := by
  simp [ratWrArch, at_slot]

/-- What a slot that advances writes into its map. -/
theorem ratWrPhys_eq (inside : k < s.advanceCount x) (at_slot : (s.work x)[k]? = some d)
    (writes : d.writesRd = true) : s.ratWrPhys x d.rdClass k =
      if d.isZeroElim then 0
      else (s.freeList d.rdClass).allocPreg (s.pregConsumedBefore x d.rdClass k) := by
  rw [ratWrPhys, ratWrEn_iff inside at_slot, writes, flSlotIdx_eq (Nat.le_of_lt inside)]
  simp [slot, at_slot]

theorem slotNeedsPreg_eq (at_slot : (s.work x)[k]? = some d) :
    s.slotNeedsPreg x c k = (d.needsPreg && d.rdClass == c) := by
  simp [slotNeedsPreg, slot, at_slot]

theorem mapBefore_succ (inside : k < s.advanceCount x) (at_slot : (s.work x)[k]? = some d) :
    s.mapBefore x c (k + 1) =
      if d.writesRd && d.rdClass == c then
        Function.update (s.mapBefore x c k) d.rdArch (s.ratWrPhys x c k)
      else s.mapBefore x c k := by
  simp only [mapBefore, writeEach, ratWrEn_iff inside at_slot, ratWrArch_eq at_slot]

theorem consumed_succ (inside : k < s.advanceCount x) (at_slot : (s.work x)[k]? = some d) :
    s.pregConsumedBefore x c (k + 1) =
      s.pregConsumedBefore x c k + if d.needsPreg && d.rdClass == c then 1 else 0 := by
  rw [pregConsumedBefore_succ, slotCanAdvance_iff.mpr inside, slotNeedsPreg_eq at_slot,
    Bool.true_and]

/-- Renaming the slots before `k` one at a time leads to what slot `k` reads. -/
theorem after_take (le : k ≤ s.advanceCount x) : s.seqState.after ((s.work x).take k) =
    { map := fun c => s.mapBefore x c k
      free := fun c => (s.freeList c).workBitmap (s.pregConsumedBefore x c k) } := by
  induction k with
  | zero => rfl
  | succ k ih =>
    have inside : k < s.advanceCount x := le
    have less := slotCanAdvance_lt (slotCanAdvance_iff.mpr inside)
    obtain ⟨d, at_slot⟩ : ∃ d, (s.work x)[k]? = some d := ⟨_, List.getElem?_eq_getElem less⟩
    rw [List.take_add_one, at_slot, SeqState.after, List.foldl_append]
    have before := ih (Nat.le_of_lt inside)
    rw [SeqState.after] at before
    rw [before]
    simp only [Option.toList_some, List.foldl_cons, List.foldl_nil, SeqState.write,
      mapBefore_succ inside at_slot, consumed_succ inside at_slot]
    cases writes : d.writesRd with
    | false => simp [DecodedInsn.needsPreg, writes]
    | true =>
      have grant : SeqState.grant
          { map := fun c => s.mapBefore x c k
            free := fun c => (s.freeList c).workBitmap (s.pregConsumedBefore x c k) } d =
          s.ratWrPhys x d.rdClass k := by
        rw [ratWrPhys_eq inside at_slot writes]
        rfl
      rw [grant]
      simp only [if_true, SeqState.mk.injEq]
      refine ⟨?_, ?_⟩
      · funext c
        by_cases same : d.rdClass = c
        · subst same
          simp
        · simp [same, Function.update_of_ne (Ne.symm same)]
      · cases zero : d.isZeroElim with
        | true => simp [DecodedInsn.needsPreg, zero]
        | false =>
          have needs : d.needsPreg = true := by simp [DecodedInsn.needsPreg, writes, zero]
          funext c
          by_cases same : d.rdClass = c
          · subst same
            have found := found_of_needsPreg (slotCanAdvance_iff.mpr inside) at_slot needs
            have tag : s.ratWrPhys x d.rdClass k =
                (s.freeList d.rdClass).allocPreg (s.flSlotIdx x d.rdClass k) := by
              rw [ratWrPhys_eq inside at_slot writes, zero, flSlotIdx_eq (Nat.le_of_lt inside)]
              rfl
            rw [FreeList.found] at found
            simp [needs, FreeList.workBitmap, found, tag]
          · simp [same, Function.update_of_ne (Ne.symm same)]

/-- What the RAT is told to write in slots that do not advance is nothing. -/
theorem mapBefore_all : s.mapBefore x c pipeWidth = s.mapBefore x c (s.advanceCount x) := by
  refine writeEach_of_idle (advanceCount_le.trans length_work) fun j after _ => ?_
  have stays : s.slotCanAdvance x j = false := by
    rw [← Bool.not_eq_true, slotCanAdvance_iff]
    exact Nat.not_lt.mpr after
  simp [ratWrEn, stays]

/-- The map as the slots before `k` leave it, in the RAT's own terms. -/
theorem written_eq (le : k ≤ pipeWidth) :
    (s.rat c).written c.protectZero (s.ratIn x c) k = s.mapBefore x c k := by
  refine Eq.trans (writeEach_of_idle le fun j after _ => ?_) (writeEach_congr fun j before => ?_)
  · simp [Nat.not_lt.mpr after]
  · refine ⟨?_, fun _ => ⟨rfl, rfl⟩⟩
    simp only [ratIn, before, decide_true, Bool.true_and]
    cases c with
    | fp => simp [RegClass.protectZero]
    | int =>
      -- A slot that writes an integer register does not write x0.
      cases writes : s.ratWrEn x .int j with
      | false => rfl
      | true =>
        simp only [ratWrEn, Bool.and_eq_true] at writes
        obtain ⟨d, at_slot, rd⟩ := slot_iff.mp writes.2
        simp only [DecodedInsn.writesRd, DecodedInsn.rdClass, Bool.and_eq_true, Bool.or_eq_true,
          bne_iff_ne, beq_iff_eq] at rd
        cases fp : d.rdIsFp with
        | true => simp [fp, RegClass.ofFp] at rd
        | false => simpa [ratWrArch_eq at_slot, fp, RegClass.protectZero] using rd.1.2

theorem mapBefore_zero (held : Rat.ZeroHeld (s.rat .int)) (le : k ≤ pipeWidth) :
    s.mapBefore x .int k 0 = 0 := by
  rw [← written_eq le]
  exact Rat.written_zero held k

-- ---------------------------------------------------------------------
-- Tags
-- ---------------------------------------------------------------------

theorem srcPhys_eq (held : Rat.ZeroHeld (s.rat .int)) (inside : k < s.advanceCount x) :
    s.srcPhys x k valid isFp a =
      (s.seqState.after ((s.work x).take k)).operand valid isFp a := by
  have le : k ≤ pipeWidth := (Nat.le_of_lt inside).trans (advanceCount_le.trans length_work)
  rw [srcPhys, after_take (Nat.le_of_lt inside), ratRead_eq, SeqState.operand, SeqState.lookup,
    readsReg]
  cases valid with
  | false => rfl
  | true =>
    cases isFp with
    | true => rfl
    | false =>
      by_cases x0 : a = 0
      · subst x0
        exact (mapBefore_zero held le).symm.trans (Nat.zero_add _).symm
      · rw [if_pos (by simpa using x0)]
        rfl

theorem tags_renamed (held : Rat.ZeroHeld (s.rat .int)) (inside : k < s.advanceCount x)
    (at_slot : (s.work x)[k]? = some d) :
    (s.renamed x k d).tags = (s.seqState.after ((s.work x).take k)).tags d := by
  have pdst : (s.renamed x k d).pdst =
      ((s.seqState.after ((s.work x).take k)).tags d).pdst := by
    simp only [renamed, SeqState.tags, after_take (Nat.le_of_lt inside)]
    cases writes : d.writesRd with
    | false => rfl
    | true =>
      rw [ratWrPhys_eq inside at_slot writes]
      rfl
  have old : (s.renamed x k d).oldPdst =
      ((s.seqState.after ((s.work x).take k)).tags d).oldPdst := by
    simp only [renamed, SeqState.tags, after_take (Nat.le_of_lt inside), SeqState.lookup,
      Rat.oldPhys]
    rw [← ratRead_eq, ratRead]
    simp [ratIn, ratWrArch_eq at_slot]
  rw [RenamedInsn.tags, pdst, old]
  simp only [renamed, srcPhys_eq held inside]
  rfl

-- ---------------------------------------------------------------------
-- The nearest older writer
-- ---------------------------------------------------------------------

/-- The tag of register `a` in front of place `k`: the destination of the nearest older instruction
of the batch that writes it, or what the RAT holds. -/
def mapped (s : RenameStage) (x : RenameIn) (c : RegClass) (a : ArchReg) (k : Nat) : PhysReg :=
  match ((s.renInsn x).take k).reverse.find? fun r =>
      r.base.writesRd && r.base.rdClass == c && r.base.rdArch == a with
  | some r => r.pdst
  | none => c.base + (s.rat c).table a

theorem mapped_eq (le : k ≤ s.advanceCount x) :
    s.mapped x c a k = c.base + s.mapBefore x c k a := by
  induction k with
  | zero => rfl
  | succ k ih =>
    have inside : k < s.advanceCount x := le
    have less := slotCanAdvance_lt (slotCanAdvance_iff.mpr inside)
    obtain ⟨d, at_slot⟩ : ∃ d, (s.work x)[k]? = some d := ⟨_, List.getElem?_eq_getElem less⟩
    have last : (s.renInsn x)[k]? = some (s.renamed x k d) := by
      rw [getElem?_renInsn, if_pos inside, at_slot]
      rfl
    have base : (s.renamed x k d).base = d := rfl
    rw [mapped, List.take_add_one, last, mapBefore_succ inside at_slot]
    simp only [Option.toList_some, List.reverse_append, List.reverse_singleton,
      List.singleton_append, List.find?_cons, base]
    by_cases writes : (d.writesRd && d.rdClass == c) = true
    · rw [writes]
      by_cases hit : d.rdArch = a
      · obtain ⟨wr, same⟩ := (Bool.and_eq_true _ _).mp writes
        rw [beq_iff_eq] at same
        subst same hit
        simp [renamed, wr]
      · simp only [Bool.true_and, beq_eq_false_iff_ne.mpr hit, if_true,
          Function.update_of_ne (Ne.symm hit)]
        exact ih (Nat.le_of_lt inside)
    · rw [Bool.not_eq_true] at writes
      simp only [writes, Bool.false_and, Bool.false_eq_true, if_false]
      exact ih (Nat.le_of_lt inside)

-- ---------------------------------------------------------------------
-- Every reachable state
-- ---------------------------------------------------------------------

/-- Rename agrees with renaming the batch one instruction at a time. -/
structure SequentialRenaming (s : RenameStage) (x : RenameIn) : Prop where
  inOrder : (s.renInsn x).map (·.base) <+: s.work x
  oneAtATime : ∀ (k : Nat) (r : RenamedInsn), (s.renInsn x)[k]? = some r →
    r.tags = (s.seqState.after ((s.work x).take k)).tags r.base
  sources : ∀ (k : Nat) (r : RenamedInsn), (s.renInsn x)[k]? = some r →
    r.rs1Phys = (if r.base.rs1Valid then
      s.mapped x (.ofFp r.base.rs1IsFp) r.base.rs1Arch k else 0) ∧
    r.rs2Phys = (if r.base.rs2Valid then
      s.mapped x (.ofFp r.base.rs2IsFp) r.base.rs2Arch k else 0) ∧
    r.rs3Phys = (if r.base.rs3Valid then
      s.mapped x (.ofFp r.base.rs3IsFp) r.base.rs3Arch k else 0)
  oldPdst : ∀ (k : Nat) (r : RenamedInsn), (s.renInsn x)[k]? = some r →
    r.oldPdst = s.mapped x r.base.rdClass r.base.rdArch k
  mapAfter : x.flushValid = false → ∀ c a,
    ((s.next x).rat c).table a =
        (s.seqState.after ((s.work x).take (s.renInsn x).length)).map c a ∧
      c.base + ((s.next x).rat c).table a = s.mapped x c a (s.renInsn x).length
  x0 : ∀ st : SeqState, ∀ d ∈ s.work x, d.rdIsFp = false → d.rdArch = 0 → st.write d = st
  x0Kept : ((s.next x).rat .int).table 0 = (s.rat .int).table 0

theorem zeroHeld (reach : renameStage.Reachable s) : Rat.ZeroHeld (s.rat .int) :=
  reach.invariant (fun s => Rat.ZeroHeld (s.rat .int)) Rat.zeroHeld_reset
    fun _ _ _ held _ _ => Rat.zeroHeld_next held

theorem table_next (calm : x.flushValid = false) :
    ((s.next x).rat c).table = s.mapBefore x c (s.advanceCount x) := by
  have table : ((s.next x).rat c).table =
      (s.rat c).written c.protectZero (s.ratIn x c) pipeWidth := by
    simp [next, Rat.next, ratIn, RenameIn.doFlush, RenameIn.doCkptRestore, calm]
  rw [table, written_eq (Nat.le_refl _), mapBefore_all]

theorem sequential_renaming (reach : renameStage.Reachable s) (x : RenameIn) :
    SequentialRenaming s x := by
  have held := zeroHeld reach
  have operand : ∀ {k}, k < s.advanceCount x → ∀ valid isFp a, s.srcPhys x k valid isFp a =
      if valid then s.mapped x (.ofFp isFp) a k else 0 := by
    intro k inside valid isFp a
    rw [srcPhys_eq held inside, SeqState.operand, SeqState.lookup,
      after_take (Nat.le_of_lt inside), mapped_eq (Nat.le_of_lt inside)]
  refine ⟨?_, ?_, ?_, ?_, ?_, ?_, ?_⟩
  · rw [map_base_renInsn]
    exact List.take_prefix _ _
  · intro k r at_place
    obtain ⟨inside, at_slot, same⟩ := renInsn_some at_place
    rw [same]
    exact tags_renamed held inside at_slot
  · intro k r at_place
    obtain ⟨inside, -, same⟩ := renInsn_some at_place
    rw [same]
    exact ⟨operand inside _ _ _, operand inside _ _ _, operand inside _ _ _⟩
  · intro k r at_place
    obtain ⟨inside, at_slot, same⟩ := renInsn_some at_place
    have tags := congrArg Tags.oldPdst (tags_renamed held inside at_slot)
    rw [← same] at tags
    refine tags.trans ?_
    simp only [SeqState.tags, SeqState.lookup, after_take (Nat.le_of_lt inside),
      mapped_eq (Nat.le_of_lt inside)]
  · intro calm c a
    rw [length_renInsn, table_next calm, after_take (Nat.le_refl _), mapped_eq (Nat.le_refl _)]
    exact ⟨rfl, rfl⟩
  · exact fun st d _ int zero => st.write_of_x0 int zero
  · rw [held.table]
    exact (Rat.zeroHeld_next held).table

theorem sequential_renaming_addPair : SequentialRenaming reset (.unblocked
    [Decode.decodeSlice 0x00500093 0 false, Decode.decodeSlice 0x00108133 4 false]) :=
  sequential_renaming .reset _

end RenameStage

end Rv64gc.Rename
