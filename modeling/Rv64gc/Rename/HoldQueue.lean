import Rv64gc.Decode.DecodeSlice
import Rv64gc.Hdl.Machine
import Rv64gc.Rename.Slots

/-!
# Every accepted instruction leaves once, in order

Seen from outside, rename is a queue: the decode packets it takes go in, the renamed instructions
come out, and the holding register is what is left between. `step_conserves` says so for one
cycle, whatever held the slots back; runs follow by induction. `Reserved` lists what an emitted
instruction has been given.
-/

namespace Rv64gc.Rename

open Hdl

/-- Rename on its own, under any inputs. -/
def renameStage : Machine RenameStage RenameIn where
  reset := .reset
  next := RenameStage.next
  legal _ _ := True

def RenameCommit.none : RenameCommit :=
  ⟨0, fun _ => 0, fun _ => false, fun _ => false, fun _ => 0, fun _ => 0, fun _ => false, fun _ => 0⟩

/-- A packet that finds every resource, in a cycle without commits. -/
def RenameReq.unblocked (packet : List DecodedInsn) : RenameReq where
  dec k := packet.getD k (Decode.defaults 0 0 false)
  decCount := packet.length
  robAllocIdx k := BitVec.ofNat robIdxBits k
  robAllocReady := true
  backendAdmissionThrottle := false
  dqFull := false
  lqAllocIdx k := BitVec.ofNat 5 k
  sqAllocIdx k := BitVec.ofNat 5 k
  lqFull := false
  sqFull := false
  pregReadyTable _ := true

def RenameIn.unblocked (packet : List DecodedInsn) : RenameIn :=
  { RenameReq.unblocked packet with
    commit := .none, flushValid := false, flushFull := false, flushCheckpointId := 0 }

namespace RenameStage

/-- Decode keeps its packet while rename stalls. -/
def accepted (s : RenameStage) (x : RenameIn) : List DecodedInsn :=
  if s.stall x then [] else packet x

def emitted (s : RenameStage) (x : RenameIn) : List DecodedInsn := (s.renInsn x).map (·.base)

def acceptedIn (s : RenameStage) : List RenameIn → List DecodedInsn
  | [] => []
  | x :: rest => s.accepted x ++ acceptedIn (s.next x) rest

def emittedIn (s : RenameStage) : List RenameIn → List DecodedInsn
  | [] => []
  | x :: rest => s.emitted x ++ emittedIn (s.next x) rest

variable {s : RenameStage} {x : RenameIn}

-- ---------------------------------------------------------------------
-- One cycle
-- ---------------------------------------------------------------------

theorem length_packet : (packet x).length ≤ pipeWidth := by
  rw [packet, List.length_map]
  exact (List.length_filter_le _ _).trans (List.length_range.le)

theorem length_held : s.held.length ≤ pipeWidth :=
  (List.length_filterMap_le _ _).trans (List.length_range.le)

theorem holdActive_iff : s.holdActive = true ↔ s.held ≠ [] := by
  rw [holdActive, List.any_eq_true, ne_eq, held, List.filterMap_eq_nil_iff]
  constructor
  · rintro ⟨k, member, some_held⟩ all
    rw [all k member] at some_held
    cases some_held
  · intro some_held
    simp only [not_forall] at some_held
    obtain ⟨k, member, occupied⟩ := some_held
    exact ⟨k, member, Option.isSome_iff_ne_none.mpr occupied⟩

theorem work_of_held (active : s.holdActive = true) : s.work x = s.held := by
  simp [work, active, List.take_of_length_le length_held]

theorem work_of_packet (idle : s.holdActive = false) : s.work x = packet x := by
  have none : s.held = [] := by
    by_contra some_held
    rw [holdActive_iff.mpr some_held] at idle
    cases idle
  simp [work, idle, none, List.take_of_length_le length_packet]

theorem anyAdvance_iff : s.anyAdvance x = true ↔ 0 < s.advanceCount x := by
  rw [anyAdvance, List.any_eq_true]
  constructor
  · rintro ⟨k, -, advance⟩
    exact Nat.lt_of_le_of_lt (Nat.zero_le k) (slotCanAdvance_iff.mp advance)
  · intro some_advance
    refine ⟨0, ?_, slotCanAdvance_iff.mpr some_advance⟩
    rw [List.mem_range]
    decide

theorem emitted_eq : s.emitted x = (s.work x).take (s.advanceCount x) := map_base_renInsn

/-- What a cycle without a flush leaves in the holding register. -/
theorem held_next (calm : x.flushValid = false) : (s.next x).held =
    if s.captureNonadvance x then (s.work x).drop (s.advanceCount x) else [] := by
  have slot_next : ∀ p, (s.next x).hold p =
      if s.captureNonadvance x then ((s.work x).drop (s.advanceCount x))[p]? else none := by
    intro p
    simp only [next, holdNext, RenameIn.doFlush, RenameIn.doCkptRestore, calm, Bool.false_and,
      Bool.or_self, Bool.false_eq_true, if_false, packed_left_behind]
    split
    · rw [List.getElem?_drop]
      by_cases inside : p < (s.work x).length - s.advanceCount x
      · rw [List.getElem?_range' inside, Option.bind_some, Nat.one_mul]
      · rw [List.getElem?_eq_none (by simpa using inside), List.getElem?_eq_none (by omega)]
        rfl
    · rfl
  have short : ((s.work x).drop (s.advanceCount x)).length ≤ pipeWidth := by
    rw [List.length_drop]
    exact (Nat.sub_le _ _).trans length_work
  rw [held, funext slot_next]
  split
  · exact filterMap_getElem?_range short
  · simp

/-- A cycle without a flush loses nothing, repeats nothing and keeps the order. -/
theorem step_conserves (calm : x.flushValid = false) :
    s.held ++ s.accepted x = s.emitted x ++ (s.next x).held := by
  rw [held_next calm, emitted_eq, accepted, stall, captureNonadvance]
  cases active : s.holdActive with
  | true => simp [work_of_held active]
  | false =>
    have none : s.held = [] := by
      by_contra some_held
      rw [holdActive_iff.mpr some_held] at active
      cases active
    rw [work_of_packet active, none]
    cases advance : s.anyAdvance x with
    | true => simp
    | false =>
      have zero : s.advanceCount x = 0 := by
        apply Nat.eq_zero_of_not_pos
        intro positive
        rw [anyAdvance_iff.mpr positive] at advance
        cases advance
      cases packet x with
      | nil => simp
      | cons d rest => simp [zero]

-- ---------------------------------------------------------------------
-- What an emitted instruction has been given
-- ---------------------------------------------------------------------

/-- The resources of `r`, emitted in place `k`: its index in the ROB and the queues, the
checkpoint of its branch and its physical register are its own. -/
structure Reserved (s : RenameStage) (x : RenameIn) (k : Nat) (r : RenamedInsn) : Prop where
  rob : x.robAllocReady = true ∧ r.robIdx = x.robAllocIdx k
  dq : x.dqFull = false
  lq : r.base.isLoad = true →
    x.lqFull = false ∧ r.lqIdx = x.lqAllocIdx (((s.emitted x).take k).countP (·.isLoad))
  sq : r.base.isStore = true →
    x.sqFull = false ∧ r.sqIdx = x.sqAllocIdx (((s.emitted x).take k).countP (·.isStore))
  ckpt : r.base.isBranch = true →
    r.usesCheckpoint = true ∧
      (s.checkpoint.occupiedAfterRelease (checkpointIn x true)).getLsbD r.checkpointId = false ∧
      (s.next x).checkpoint.occupied.getLsbD r.checkpointId = true
  oneBranch : r.base.isBranch = true →
    ∀ j other, (s.renInsn x)[j]? = some other → other.base.isBranch = true → j = k
  preg : r.base.needsPreg = true → ∃ v,
    r.pdst = r.base.rdClass.base + v ∧
      (s.freeList r.base.rdClass).freeBitmap.getLsbD v = true ∧
      (((s.next x).freeList r.base.rdClass).freeBitmap.getLsbD v = true →
        ∃ n < releaseCount x r.base.rdClass, releasePreg x r.base.rdClass n = v)
  ownPreg : r.base.needsPreg = true →
    ∀ j other, (s.renInsn x)[j]? = some other → other.base.needsPreg = true →
      other.base.rdClass = r.base.rdClass → other.pdst = r.pdst → j = k

theorem renInsn_some (at_place : (s.renInsn x)[k]? = some r) :
    k < s.advanceCount x ∧ (s.work x)[k]? = some r.base ∧ r = s.renamed x k r.base := by
  rw [getElem?_renInsn] at at_place
  split at at_place
  · rename_i inside
    obtain ⟨d, at_slot, rfl⟩ := Option.map_eq_some_iff.mp at_place
    exact ⟨inside, at_slot, rfl⟩
  · cases at_place

/-- A queue index counts the loads, or the stores, that go before. -/
theorem rank_kind (p : DecodedInsn → Bool) (le : k ≤ s.advanceCount x) :
    rank (fun j => s.slotCanAdvance x j && s.slot x p j) k =
      ((s.emitted x).take k).countP p := by
  rw [emitted_eq, List.take_take, Nat.min_eq_left le]
  induction k with
  | zero => simp
  | succ k ih =>
    have advance := slotCanAdvance_iff.mpr le
    have inside := slotCanAdvance_lt advance
    rw [rank_succ, ih (Nat.le_of_succ_le le), List.take_add_one, List.countP_append,
      List.getElem?_eq_getElem inside]
    simp [advance, slot, List.getElem?_eq_getElem inside, List.countP_singleton]

theorem pdst_of_needsPreg (inside : k < s.advanceCount x) (at_slot : (s.work x)[k]? = some d)
    (needs : d.needsPreg = true) : (s.renamed x k d).pdst =
      d.rdClass.base + (s.freeList d.rdClass).allocPreg (s.flSlotIdx x d.rdClass k) := by
  have advance := slotCanAdvance_iff.mpr inside
  simp only [DecodedInsn.needsPreg, Bool.and_eq_true, Bool.not_eq_true'] at needs
  simp [renamed, needs.1, ratWrPhys, ratWrEn, slot, advance, at_slot, needs.2]

/-- A branch saves into a checkpoint that was free, and holds it from then on. -/
theorem checkpoint_reserved {k : Nat} {r : RenamedInsn} (calm : x.flushValid = false)
    (at_place : (s.renInsn x)[k]? = some r) (branch : r.base.isBranch = true) :
    r.usesCheckpoint = true ∧
      (s.checkpoint.occupiedAfterRelease (checkpointIn x true)).getLsbD r.checkpointId = false ∧
      (s.next x).checkpoint.occupied.getLsbD r.checkpointId = true := by
  obtain ⟨inside, at_slot, same⟩ := renInsn_some at_place
  have advance := slotCanAdvance_iff.mpr inside
  obtain ⟨d, advances⟩ := advances_of_slotCanAdvance advance
  obtain rfl := Option.some.inj (at_slot.symm.trans advances.at_slot)
  have has := advances.resources
  simp only [hasResources, Bool.and_eq_true, Bool.or_eq_true, Bool.not_eq_true'] at has
  obtain ⟨⟨⟨⟨⟨-, -⟩, free⟩, -⟩, -⟩, -⟩ := has
  have avail := (free.resolve_left (by simp [branch])).2
  have found := ckptBranch_of_branch advance (slot_iff.mpr ⟨r.base, at_slot, branch⟩)
  have id : r.checkpointId = s.ckptSaveId x := by
    rw [same]
    simp [renamed, branch, found]
  have saves : s.ckptSaveValid x = true := by
    simp [ckptSaveValid, found, RenameIn.doFlush, RenameIn.doCkptRestore, calm]
  refine ⟨?_, ?_, ?_⟩
  · rw [same]
    simp [renamed, branch, found]
  · rw [id]
    exact CheckpointFile.saveId_free avail
  · rw [id]
    simp only [next, saves]
    refine (CheckpointFile.next_occupied_save (i := checkpointIn x true) ?_ ?_ rfl avail).mpr
      (.inr rfl)
    · simp [checkpointIn, RenameIn.doFlush, calm]
    · simp [checkpointIn, RenameIn.doCkptRestore, calm]

/-- An instruction that writes a register gets one that was free, and consumes it. -/
theorem preg_reserved {k : Nat} {r : RenamedInsn} (calm : x.flushValid = false)
    (at_place : (s.renInsn x)[k]? = some r) (needs : r.base.needsPreg = true) : ∃ v,
      r.pdst = r.base.rdClass.base + v ∧
        (s.freeList r.base.rdClass).freeBitmap.getLsbD v = true ∧
        (((s.next x).freeList r.base.rdClass).freeBitmap.getLsbD v = true →
          ∃ n < releaseCount x r.base.rdClass, releasePreg x r.base.rdClass n = v) := by
  obtain ⟨inside, at_slot, same⟩ := renInsn_some at_place
  have advance := slotCanAdvance_iff.mpr inside
  have found := found_of_needsPreg advance at_slot needs
  refine ⟨_, ?_, (FreeList.found_free found).2, fun free => ?_⟩
  · rw [same]
    exact pdst_of_needsPreg inside at_slot needs
  · simp only [next, FreeList.next, freeListIn, RenameIn.doFlush, RenameIn.doCkptRestore, calm,
      Bool.false_and, Bool.false_eq_true, if_false] at free
    rcases FreeList.free_of_allocateAndRelease free with ⟨-, kept⟩ | ⟨n, -, release, released⟩
    · -- The register is the one the encoder of this slot found, and the slot consumes it.
      have consumed : s.pregConsumedBefore x r.base.rdClass k <
          s.pregConsumedBefore x r.base.rdClass pipeWidth := by
        have wants : s.slotNeedsPreg x r.base.rdClass k = true :=
          slot_iff.mpr ⟨r.base, at_slot, by simp [needs]⟩
        have step := pregConsumedBefore_succ (s := s) (x := x) (c := r.base.rdClass) (k := k)
        rw [advance, wants] at step
        simp only [Bool.and_self, if_true] at step
        have le : k + 1 ≤ pipeWidth :=
          (Nat.succ_le_of_lt inside).trans (advanceCount_le.trans length_work)
        have := pregConsumedBefore_mono (s := s) (x := x) (c := r.base.rdClass) le
        omega
      have bound : s.pregConsumedBefore x r.base.rdClass pipeWidth ≤ pipeWidth := Hdl.rank_le _
      exact absurd found (kept _ (Nat.lt_of_lt_of_le consumed bound) consumed)
    · simp only [FreeList.releases, Bool.and_eq_true, decide_eq_true_eq] at release
      exact ⟨n, release.1, released⟩

/-- A register goes to one place of the group. -/
theorem preg_own {j k : Nat} {r other : RenamedInsn} (at_place : (s.renInsn x)[k]? = some r)
    (needs : r.base.needsPreg = true)
    (at_other : (s.renInsn x)[j]? = some other) (needs_other : other.base.needsPreg = true)
    (class_same : other.base.rdClass = r.base.rdClass) (tag_same : other.pdst = r.pdst) :
    j = k := by
  obtain ⟨inside, at_slot, same⟩ := renInsn_some at_place
  obtain ⟨inside', at_slot', same'⟩ := renInsn_some at_other
  have advance := slotCanAdvance_iff.mpr inside
  have advance' := slotCanAdvance_iff.mpr inside'
  have found := found_of_needsPreg advance at_slot needs
  have found' := found_of_needsPreg advance' at_slot' needs_other
  rw [same, same', pdst_of_needsPreg inside at_slot needs,
    pdst_of_needsPreg inside' at_slot' needs_other, class_same] at tag_same
  rw [class_same] at found'
  rw [Nat.add_left_cancel tag_same] at found'
  have grows : ∀ {i l}, i < l → s.slotCanAdvance x i = true →
      s.slotNeedsPreg x r.base.rdClass i = true →
      s.pregConsumedBefore x r.base.rdClass i < s.pregConsumedBefore x r.base.rdClass l :=
    fun less advance wants => rank_lt (by simp [advance, wants]) less
  rcases Nat.lt_trichotomy j k with less | equal | more
  · have wants : s.slotNeedsPreg x r.base.rdClass j = true :=
      slot_iff.mpr ⟨other.base, at_slot', by simp [needs_other, class_same]⟩
    exact absurd found' (FreeList.found_ne (grows less advance' wants) found)
  · exact equal
  · have wants : s.slotNeedsPreg x r.base.rdClass k = true :=
      slot_iff.mpr ⟨r.base, at_slot, by simp [needs]⟩
    exact absurd found (FreeList.found_ne (grows more advance wants) found')

theorem reserved (calm : x.flushValid = false) (at_place : (s.renInsn x)[k]? = some r) :
    Reserved s x k r := by
  obtain ⟨inside, at_slot, same⟩ := renInsn_some at_place
  have advance := slotCanAdvance_iff.mpr inside
  obtain ⟨d, advances⟩ := advances_of_slotCanAdvance advance
  obtain rfl := Option.some.inj (at_slot.symm.trans advances.at_slot)
  have has := advances.resources
  simp only [hasResources, Bool.and_eq_true, Bool.or_eq_true, Bool.not_eq_true'] at has
  obtain ⟨⟨⟨⟨⟨load, store⟩, -⟩, rob⟩, dq⟩, -⟩ := has
  constructor
  case rob =>
    refine ⟨rob, ?_⟩
    rw [same]
    simp only [renamed, rank_slotCanAdvance (Nat.le_of_lt inside)]
  case dq => exact dq
  case lq =>
    intro kind
    refine ⟨load.resolve_left (by simp [kind]), ?_⟩
    rw [same]
    simp only [renamed, kind, if_true, rank_kind _ (Nat.le_of_lt inside)]
  case sq =>
    intro kind
    refine ⟨store.resolve_left (by simp [kind]), ?_⟩
    rw [same]
    simp only [renamed, kind, if_true, rank_kind _ (Nat.le_of_lt inside)]
  case ckpt => exact checkpoint_reserved calm at_place
  case oneBranch =>
    intro kind j other at_other branch_other
    obtain ⟨inside', at_slot', -⟩ := renInsn_some at_other
    exact branch_unique
      ⟨slotCanAdvance_iff.mpr inside', slot_iff.mpr ⟨other.base, at_slot', branch_other⟩⟩
      ⟨advance, slot_iff.mpr ⟨r.base, at_slot, kind⟩⟩
  case preg => exact preg_reserved calm at_place
  case ownPreg =>
    intro needs j other at_other needs_other class_same tag_same
    exact preg_own at_place needs at_other needs_other class_same tag_same

-- ---------------------------------------------------------------------
-- Runs
-- ---------------------------------------------------------------------

theorem run_conserves (s : RenameStage) (inputs : List RenameIn)
    (calm : ∀ x ∈ inputs, x.flushValid = false) :
    s.held ++ s.acceptedIn inputs = s.emittedIn inputs ++ (renameStage.run s inputs).held := by
  induction inputs generalizing s with
  | nil => simp [acceptedIn, emittedIn, Machine.run]
  | cons x rest ih =>
    have step := step_conserves (s := s) (calm x (by simp))
    have tail := ih (s.next x) fun y member => calm y (by simp [member])
    simp only [acceptedIn, emittedIn, Machine.run]
    rw [← List.append_assoc, step, List.append_assoc, tail, List.append_assoc]
    rfl

/-- In a run without flushes the instructions accepted are the ones emitted, once and in order,
followed by those still held; and whatever is emitted in a cycle has its resources. -/
theorem accepted_emitted_once (s : RenameStage) (inputs : List RenameIn)
    (calm : ∀ x ∈ inputs, x.flushValid = false) :
    s.held ++ s.acceptedIn inputs = s.emittedIn inputs ++ (renameStage.run s inputs).held ∧
      ∀ first x rest, inputs = first ++ x :: rest → ∀ k r,
        ((renameStage.run s first).renInsn x)[k]? = some r →
          Reserved (renameStage.run s first) x k r := by
  refine ⟨run_conserves s inputs calm, ?_⟩
  rintro first x rest rfl k r at_place
  exact reserved (calm x (by simp)) at_place

-- ADDI x1, x0, 5 and ADD x2, x1, x1, then a cycle without a packet.
def addPair : List RenameIn :=
  [.unblocked [Decode.decodeSlice 0x00500093 0 false, Decode.decodeSlice 0x00108133 4 false],
    .unblocked []]

theorem accepted_emitted_once_addPair :
    reset.held ++ reset.acceptedIn addPair =
        reset.emittedIn addPair ++ (renameStage.run reset addPair).held ∧
      ∀ first x rest, addPair = first ++ x :: rest → ∀ k r,
        ((renameStage.run reset first).renInsn x)[k]? = some r →
          Reserved (renameStage.run reset first) x k r := by
  refine accepted_emitted_once reset addPair fun x member => ?_
  simp only [addPair, List.mem_cons, List.not_mem_nil, or_false] at member
  rcases member with rfl | rfl <;> rfl

end RenameStage

end Rv64gc.Rename
