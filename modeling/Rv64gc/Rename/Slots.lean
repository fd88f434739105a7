import Rv64gc.Rename.RenameStage

/-!
# Which slots advance

The slots that advance are the oldest ones: the two passes close at the first slot that is left
behind. So the compaction of the outputs moves nothing, and a slot's place in the request order of
a free list is the number of registers that the slots before it consume.
-/

namespace Rv64gc.Rename.RenameStage

open Hdl

variable {s : RenameStage} {x : RenameIn}

theorem length_work : (s.work x).length ≤ pipeWidth := by
  rw [work, List.length_take]
  exact Nat.min_le_left _ _

theorem slot_iff {p : DecodedInsn → Bool} :
    s.slot x p k = true ↔ ∃ d, (s.work x)[k]? = some d ∧ p d = true := by
  cases at_ : (s.work x)[k]? with
  | none => simp [slot, at_]
  | some d => simp [slot, at_]

theorem workValid_iff : s.workValid x k = true ↔ k < (s.work x).length := by
  simp [workValid]

-- ---------------------------------------------------------------------
-- The slots that advance come first
-- ---------------------------------------------------------------------

theorem inOrderOpen_iff :
    s.inOrderOpen x k = true ↔ ∀ j < k, s.workValid x j = true → s.slotCanAdvance x j = true := by
  induction k with
  | zero => simp [inOrderOpen]
  | succ k ih =>
    have step : s.inOrderOpen x (k + 1) =
        (s.inOrderOpen x k && !(s.workValid x k && !s.slotCanAdvance x k)) := rfl
    simp only [step, Bool.and_eq_true, ih, Nat.lt_succ_iff_lt_or_eq]
    constructor
    · rintro ⟨before, last⟩ j (less | rfl) valid
      · exact before j less valid
      · simpa [valid] using last
    · intro all
      refine ⟨fun j less => all j (.inl less), ?_⟩
      cases valid : s.workValid x k with
      | false => simp
      | true => simp [all k (.inr rfl) valid]

/-- What a slot that advances has. -/
structure Advances (s : RenameStage) (x : RenameIn) (k : Nat) (d : DecodedInsn) : Prop where
  at_slot : (s.work x)[k]? = some d
  resources : s.hasResources x (s.pass1 x k) k d = true
  hasPreg : d.needsPreg = true → s.flSlotIdx x d.rdClass k < s.flAvailCount x d.rdClass
  older : ∀ j < k, s.slotCanAdvance x j = true

theorem advances_of_slotCanAdvance (advance : s.slotCanAdvance x k = true) :
    ∃ d, Advances s x k d := by
  simp only [slotCanAdvance, slotCanAdvanceSp, advancesSp, hasPreg, Bool.and_eq_true] at advance
  obtain ⟨⟨⟨-, resources⟩, opened⟩, preg⟩ := advance
  obtain ⟨d, at_slot, resources⟩ := slot_iff.mp resources
  obtain ⟨e, at_slot', preg⟩ := slot_iff.mp preg
  obtain rfl := Option.some.inj (at_slot.symm.trans at_slot')
  refine ⟨d, at_slot, resources, ?_, ?_⟩
  · intro needs
    simpa [needs] using preg
  · intro j before
    apply inOrderOpen_iff.mp opened j before
    rw [workValid_iff]
    exact Nat.lt_trans before (List.getElem?_eq_some_iff.mp at_slot).1

/-- How many instructions advance. -/
def advanceCount (s : RenameStage) (x : RenameIn) : Nat := rank (s.slotCanAdvance x) pipeWidth

theorem slotCanAdvance_lt (advance : s.slotCanAdvance x k = true) : k < (s.work x).length := by
  obtain ⟨d, advances⟩ := advances_of_slotCanAdvance advance
  exact (List.getElem?_eq_some_iff.mp advances.at_slot).1

theorem slotCanAdvance_iff : s.slotCanAdvance x k = true ↔ k < s.advanceCount x := by
  apply keep_iff_lt_rank
  · intro i j before advance
    obtain ⟨d, advances⟩ := advances_of_slotCanAdvance advance
    exact advances.older i before
  · exact fun i advance => Nat.lt_of_lt_of_le (slotCanAdvance_lt advance) length_work

theorem advanceCount_le : s.advanceCount x ≤ (s.work x).length := by
  cases count : s.advanceCount x with
  | zero => exact Nat.zero_le _
  | succ n =>
    apply slotCanAdvance_lt (k := n)
    simp [slotCanAdvance_iff, count]

theorem rank_slotCanAdvance (le : k ≤ s.advanceCount x) : rank (s.slotCanAdvance x) k = k :=
  rank_of_all fun _ less => slotCanAdvance_iff.mpr (Nat.lt_of_lt_of_le less le)

theorem packed_slotCanAdvance :
    packed (s.slotCanAdvance x) pipeWidth = List.range (s.advanceCount x) :=
  packed_eq_range (fun _ => slotCanAdvance_iff) (advanceCount_le.trans length_work)

/-- The slots left behind are the ones after. -/
theorem packed_left_behind :
    packed (fun k => s.workValid x k && !s.slotCanAdvance x k) pipeWidth =
      List.range' (s.advanceCount x) ((s.work x).length - s.advanceCount x) := by
  apply packed_eq_range'
  · intro k
    rw [Bool.and_eq_true, workValid_iff, Bool.not_eq_true', ← Bool.not_eq_true,
      slotCanAdvance_iff, Nat.not_lt]
    exact And.comm
  · exact length_work

-- ---------------------------------------------------------------------
-- What comes out
-- ---------------------------------------------------------------------

theorem getElem?_renInsn :
    (s.renInsn x)[k]? =
      if k < s.advanceCount x then (s.work x)[k]?.map (s.renamed x k) else none := by
  have all : ∀ n ≤ (s.work x).length,
      ((List.range n).filterMap fun k => (s.work x)[k]?.map (s.renamed x k)) =
        ((s.work x).take n).mapIdx (s.renamed x) := by
    intro n
    induction n with
    | zero => simp
    | succ n ih =>
      intro le
      have at_n : (s.work x)[n]? = some (s.work x)[n] := List.getElem?_eq_getElem (by omega)
      have len : ((s.work x).take n).length = n := List.length_take_of_le (by omega)
      rw [List.range_succ, List.filterMap_append, ih (by omega), List.take_add_one,
        List.mapIdx_append, len, at_n]
      simp [at_n]
  rw [renInsn, packed_slotCanAdvance, all _ advanceCount_le, List.getElem?_mapIdx,
    List.getElem?_take]
  split <;> rfl

theorem length_renInsn : (s.renInsn x).length = s.advanceCount x := by
  apply Nat.le_antisymm
  · apply Nat.le_of_not_lt
    intro less
    have at_end := List.getElem?_eq_getElem less
    rw [getElem?_renInsn, if_neg (Nat.lt_irrefl _)] at at_end
    cases at_end
  · apply Nat.le_of_not_lt
    intro less
    have past := List.getElem?_eq_none (Nat.le_refl (s.renInsn x).length)
    rw [getElem?_renInsn, if_pos less,
      List.getElem?_eq_getElem (Nat.lt_of_lt_of_le less advanceCount_le)] at past
    cases past

theorem map_base_renInsn : (s.renInsn x).map (·.base) = (s.work x).take (s.advanceCount x) := by
  apply List.ext_getElem?
  intro k
  rw [List.getElem?_map, getElem?_renInsn, List.getElem?_take]
  split
  · cases (s.work x)[k]? with
    | none => rfl
    | some d => rfl
  · rfl

-- ---------------------------------------------------------------------
-- The registers the slots get
-- ---------------------------------------------------------------------

theorem pass1_inOrderOpen_sp (advance : s.slotCanAdvance x k = true) :
    s.slotCanAdvanceSp x k = true := by
  simp only [slotCanAdvance, Bool.and_eq_true] at advance
  exact advance.1.1

/-- Up to a slot that advances, requests and consumed registers are the same. -/
theorem flSlotIdx_eq (le : k ≤ s.advanceCount x) :
    s.flSlotIdx x c k = s.pregConsumedBefore x c k := by
  apply rank_congr
  intro j before
  have advance := slotCanAdvance_iff.mpr (Nat.lt_of_lt_of_le before le)
  simp [requests, advance, pass1_inOrderOpen_sp advance]

theorem pregConsumedBefore_mono (le : j ≤ k) :
    s.pregConsumedBefore x c j ≤ s.pregConsumedBefore x c k := rank_mono _ le

theorem pregConsumedBefore_succ : s.pregConsumedBefore x c (k + 1) =
    s.pregConsumedBefore x c k +
      if s.slotCanAdvance x k && s.slotNeedsPreg x c k then 1 else 0 := rank_succ k

/-- Past the slots that advance, nothing is consumed. -/
theorem pregConsumedBefore_all : s.pregConsumedBefore x c pipeWidth =
    s.pregConsumedBefore x c (s.advanceCount x) := by
  have past : ∀ m, s.pregConsumedBefore x c (s.advanceCount x + m) =
      s.pregConsumedBefore x c (s.advanceCount x) := by
    intro m
    induction m with
    | zero => rfl
    | succ m ih =>
      have stays : s.slotCanAdvance x (s.advanceCount x + m) = false := by
        rw [← Bool.not_eq_true, slotCanAdvance_iff]
        omega
      rw [← Nat.add_assoc, pregConsumedBefore_succ, stays, ih]
      rfl
  have le : s.advanceCount x ≤ pipeWidth := advanceCount_le.trans length_work
  have := past (pipeWidth - s.advanceCount x)
  rwa [Nat.add_sub_cancel' le] at this

/-- The register of a slot that advances and needs one: the encoder numbered by the registers
consumed before it has found it. -/
theorem found_of_needsPreg (advance : s.slotCanAdvance x k = true)
    (at_slot : (s.work x)[k]? = some d) (needs : d.needsPreg = true) :
    (s.freeList d.rdClass).found (s.pregConsumedBefore x d.rdClass k) =
      some ((s.freeList d.rdClass).allocPreg (s.flSlotIdx x d.rdClass k)) := by
  obtain ⟨e, advances⟩ := advances_of_slotCanAdvance advance
  obtain rfl := Option.some.inj (at_slot.symm.trans advances.at_slot)
  have grant := FreeList.lt_allocAvailCount (advances.hasPreg needs)
  rw [← flSlotIdx_eq (Nat.le_of_lt (slotCanAdvance_iff.mp advance))]
  exact FreeList.found_foundIdx grant.1

/-- What encoder `j` has found goes to the slot that has consumed `j` registers before it. -/
theorem slot_of_consumed (less : j < s.pregConsumedBefore x c k) :
    ∃ p < k, ∃ d, (s.work x)[p]? = some d ∧ d.needsPreg = true ∧ d.rdClass = c ∧
      s.pregConsumedBefore x c p = j := by
  induction k with
  | zero => exact absurd less (Nat.not_lt_zero j)
  | succ k ih =>
    rw [pregConsumedBefore_succ] at less
    by_cases last : j = s.pregConsumedBefore x c k
    · cases needs : s.slotNeedsPreg x c k with
      | false =>
        rw [needs, Bool.and_false] at less
        exact absurd less (last ▸ Nat.lt_irrefl _)
      | true =>
        obtain ⟨d, at_slot, rest⟩ := slot_iff.mp needs
        rw [Bool.and_eq_true, beq_iff_eq] at rest
        exact ⟨k, Nat.lt_succ_self k, d, at_slot, rest.1, rest.2, last.symm⟩
    · have before : j < s.pregConsumedBefore x c k := by
        split at less
        · exact Nat.lt_of_le_of_ne (Nat.le_of_lt_succ less) last
        · exact less
      obtain ⟨p, inside, rest⟩ := ih before
      exact ⟨p, Nat.lt_succ_of_lt inside, rest⟩

-- ---------------------------------------------------------------------
-- The branch that takes a checkpoint
-- ---------------------------------------------------------------------

theorem ckptBranchBefore_some (found : s.ckptBranchBefore x n = some k) :
    k < n ∧ s.slotCanAdvance x k = true ∧ s.slotNeedsCkpt x k = true := by
  induction n with
  | zero => cases found
  | succ n ih =>
    unfold ckptBranchBefore at found
    split at found
    · rename_i last
      obtain rfl := Option.some.inj found
      exact ⟨Nat.lt_succ_self n, (Bool.and_eq_true _ _).mp last⟩
    · obtain ⟨less, both⟩ := ih found
      exact ⟨Nat.lt_succ_of_lt less, both⟩

/-- After an advancing branch the checkpoint of the cycle is spent. -/
theorem pass1_ckptConsumed (before : j < k) (advance : s.slotCanAdvance x j = true)
    (branch : s.slotNeedsCkpt x j = true) : (s.pass1 x k).ckptConsumed = true := by
  induction before with
  | refl =>
    have sp := pass1_inOrderOpen_sp advance
    simp only [slotCanAdvanceSp] at sp
    simp [pass1, sp, branch]
  | step _ ih => simp [pass1, ih]

/-- At most one branch advances in a cycle. -/
theorem branch_unique (first : s.slotCanAdvance x j = true ∧ s.slotNeedsCkpt x j = true)
    (second : s.slotCanAdvance x k = true ∧ s.slotNeedsCkpt x k = true) : j = k := by
  have one : ∀ {j k}, j < k → s.slotCanAdvance x j = true ∧ s.slotNeedsCkpt x j = true →
      s.slotCanAdvance x k = true ∧ s.slotNeedsCkpt x k = true → False := by
    intro j k before first second
    obtain ⟨d, advances⟩ := advances_of_slotCanAdvance second.1
    obtain ⟨e, at_slot, branch⟩ := slot_iff.mp second.2
    obtain rfl := Option.some.inj (advances.at_slot.symm.trans at_slot)
    have spent := pass1_ckptConsumed before first.1 first.2
    have resources := advances.resources
    simp [hasResources, branch, spent] at resources
  rcases Nat.lt_trichotomy j k with less | same | more
  · exact absurd (one less first second) id
  · exact same
  · exact absurd (one more second first) id

/-- A branch that advances is the one the checkpoint is taken for. -/
theorem ckptBranch_of_branch (advance : s.slotCanAdvance x k = true)
    (branch : s.slotNeedsCkpt x k = true) : s.ckptBranch x = some k := by
  have less : k < pipeWidth := Nat.lt_of_lt_of_le (slotCanAdvance_lt advance) length_work
  have some_found : ∀ n, k < n → ∃ j, s.ckptBranchBefore x n = some j := by
    intro n
    induction n with
    | zero => exact fun less => absurd less (Nat.not_lt_zero k)
    | succ n ih =>
      intro less
      unfold ckptBranchBefore
      split
      · exact ⟨n, rfl⟩
      · rename_i other
        refine ih (Nat.lt_of_le_of_ne (Nat.le_of_lt_succ less) ?_)
        rintro rfl
        exact other (by simp [advance, branch])
  obtain ⟨j, found⟩ := some_found pipeWidth less
  have last := ckptBranchBefore_some found
  rw [ckptBranch, found, branch_unique ⟨last.2.1, last.2.2⟩ ⟨advance, branch⟩]

end Rv64gc.Rename.RenameStage
