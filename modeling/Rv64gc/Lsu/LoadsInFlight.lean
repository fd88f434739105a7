import Rv64gc.Lsu.LoadQueue

/-!
# The load queue in a run

The entries are the loads of the program in the reorder buffer, all of them and in order. A partial
flush keeps those before the cut, unless the cut lies behind a full reorder buffer.
-/

namespace Rv64gc.Lsu

open Hdl Backend

namespace LoadQueue

variable {α : Type} {s : LoadQueue} {w : Program α} {x : LqIn} {n : Nat}
  {alloc : List (Renamed α)}

structure Sound (s : LoadQueue) (w : Program α) : Prop where
  ring : s.ring.Sound
  valid : ∀ j, (s.ring.slot j).valid = true ↔ s.ring.Live j
  listed : Lists w Renamed.isLoad (s.ring.contents.map LqEntry.robIdx)

structure Keeps (s : LoadQueue) (w : Program α) (x : LqIn) (retires : Nat)
    (alloc : List (Renamed α)) : Prop where
  alloc : x.alloc = allocSlots w Renamed.isLoad alloc
  commit : x.commitCount = (w.insns.take retires).countP Renamed.isLoad
  robHead : x.robHead = w.head
  room : x.alloc ≠ [] → s.full = false

/-- What a partial flush that cuts the program at a place is for. -/
structure CutRight (s : LoadQueue) (w : Program α) (x : LqIn) (n cut : Nat) : Prop where
  /-- The older ones stay, but for those that retire. -/
  kept : ∀ j, ((s.next x).ring.slot j).valid = true ↔
    (s.ring.slot j).valid = true ∧ x.commitCount ≤ offset s.ring.head j ∧
      offset w.head (s.ring.slot j).robIdx < cut
  same : ∀ j, ((s.next x).ring.slot j).valid = true →
    (s.next x).ring.slot j = s.fill x j (s.ring.slot j)
  sound : (s.next x).Sound (w.next n [] (some (.upTo cut)))

-- ---------------------------------------------------------------------
-- Fields that stay
-- ---------------------------------------------------------------------

theorem execFill_fields (f : Option ExecFill) (e : LqEntry) :
    (execFill f e).valid = e.valid ∧ (execFill f e).robIdx = e.robIdx := by
  cases f <;> exact ⟨rfl, rfl⟩

theorem resultFill_fields (f : Option ResultFill) (e : LqEntry) :
    (resultFill f e).valid = e.valid ∧ (resultFill f e).robIdx = e.robIdx := by
  cases f <;> exact ⟨rfl, rfl⟩

@[simp] theorem fill_valid (j : LqIdx) (e : LqEntry) : (s.fill x j e).valid = e.valid := by
  simp [fill, execFill_fields, resultFill_fields]

@[simp] theorem fill_robIdx (j : LqIdx) (e : LqEntry) : (s.fill x j e).robIdx = e.robIdx := by
  simp [fill, execFill_fields, resultFill_fields]

theorem updated_robIdx (j : LqIdx) : (s.updated x j).robIdx = (s.ring.slot j).robIdx := by
  simp only [updated, fill_robIdx]
  split <;> rfl

theorem updated_valid (j : LqIdx) : (s.updated x j).valid = true ↔
    (s.ring.slot j).valid = true ∧ x.commitCount ≤ offset s.ring.head j := by
  simp only [updated, fill_valid, decide_eq_true_eq]
  split
  next leaves => exact iff_of_false Bool.false_ne_true (by omega)
  next stays => exact ⟨fun here => ⟨here, by omega⟩, fun here => here.1⟩

theorem Sound.count (sound : s.Sound w) : s.ring.count = w.insns.countP Renamed.isLoad := by
  have same := congrArg List.length sound.listed
  simpa using same

/-- Only loads that are there retire. -/
theorem Sound.commit_le (sound : s.Sound w) (keeps : s.Keeps w x n alloc) :
    x.commitCount ≤ s.ring.count := by
  rw [keeps.commit, sound.count]
  exact (List.take_sublist n w.insns).countP_le

-- ---------------------------------------------------------------------
-- A cycle without a flush
-- ---------------------------------------------------------------------

theorem normal_valid (sound : s.Sound w) (room : s.ring.count + x.alloc.length ≤ 32)
    (le : x.commitCount ≤ s.ring.count) (j : LqIdx) :
    ((s.normal x).ring.slot j).valid = true ↔ (s.normal x).ring.Live j := by
  have ring := sound.ring
  have inside := offset_lt s.ring.head j
  rw [← slotAt_offset s.ring.head j]
  generalize offset s.ring.head j = k at inside
  have live : (s.normal x).ring.Live (slotAt s.ring.head k) ↔
      x.commitCount ≤ k ∧ k < s.ring.count + x.alloc.length := Fifo.turn_live room le inside
  have before : (s.updated x (slotAt s.ring.head k)).valid = true ↔
      k < s.ring.count ∧ x.commitCount ≤ k := by
    rw [updated_valid, sound.valid, Fifo.Live, offset_slotAt _ inside]
  rw [live]
  show (place x.alloc[offset s.ring.tail _]? (s.updated x _)).valid = true ↔ _
  rcases Nat.lt_or_ge k s.ring.count with here | behind
  · rw [Fifo.lookup_old ring _ room here, place, before]
    omega
  · rcases Nat.lt_or_ge k (s.ring.count + x.alloc.length) with new | free
    · have at_ := Fifo.lookup_new (k := k - s.ring.count) ring x.alloc (by omega)
      rw [Nat.add_sub_cancel' behind,
        List.getElem?_eq_getElem (l := x.alloc) (i := k - s.ring.count) (by omega)] at at_
      rw [at_]
      exact iff_of_true rfl ⟨by omega, new⟩
    · rw [Fifo.lookup_free ring _ free inside, place, before]
      omega

theorem normal_robIdx (ring : s.ring.Sound) (room : s.ring.count + x.alloc.length ≤ 32)
    (le : x.commitCount ≤ s.ring.count) :
    (s.normal x).ring.contents.map LqEntry.robIdx =
      (s.ring.contents.map LqEntry.robIdx).drop x.commitCount ++ x.alloc := by
  rw [normal, Fifo.turn_contents LqEntry.robIdx le]
  · congr 1
    apply List.ext_getElem
    · simp
    · intro k inside inside'
      simp only [List.getElem_map, List.getElem_range]
      rw [Fifo.lookup_new ring _ (by omega), List.getElem?_eq_getElem inside']
      rfl
  · intro k _ less
    rw [Fifo.lookup_old ring _ room less]
    exact updated_robIdx _

theorem normal_sound (sound : s.Sound w) (keeps : s.Keeps w x n alloc)
    (program : w.Keeps n alloc none) : (s.normal x).Sound (w.next n alloc none) := by
  have le := sound.commit_le keeps
  have fits := sound.ring.fits
  have room : s.ring.count + x.alloc.length ≤ 32 := by
    have few : x.alloc.length ≤ pipeWidth := by
      rw [keeps.alloc, allocSlots, List.length_map, List.length_findIdxs]
      exact Nat.le_trans List.countP_le_length program.alloc
    by_cases none_ : x.alloc = []
    · simpa [none_] using fits
    · have room := keeps.room none_
      simp only [full, decide_eq_false_iff_not, Nat.not_le] at room
      unfold pipeWidth at few room
      omega
  refine ⟨Fifo.turn_sound sound.ring room le, normal_valid sound room le, ?_⟩
  rw [normal_robIdx sound.ring room le, keeps.alloc, keeps.commit]
  exact sound.listed.cycle program

-- ---------------------------------------------------------------------
-- A flush
-- ---------------------------------------------------------------------

variable {f : FlushIn} {cut : Nat}

/-- The loads of the program before the cut come first. -/
theorem first_older (sound : s.Sound w) (head : x.robHead = w.head) (below : cut < robDepth)
    (tail : f.robTail = w.flushRobTail cut) :
    s.ring.First (s.keepTest x f) ((w.insns.take cut).countP Renamed.isLoad) := by
  have count := sound.count
  have some_ := (List.take_sublist cut w.insns).countP_le (p := Renamed.isLoad)
  refine ⟨by omega, fun k inside => ?_⟩
  have valid := (sound.valid _).mpr (Fifo.live_slotAt sound.ring inside)
  have here : k < (w.insns.findIdxs Renamed.isLoad).length := by
    rw [List.length_findIdxs]
    omega
  have age : offset w.head (s.ring.nth k).robIdx = (w.insns.findIdxs Renamed.isLoad)[k] := by
    have listed := sound.listed
    unfold Backend.Lists at listed
    simp only [← listed, List.getElem_map, Fifo.getElem_contents]
  rw [Fifo.nth] at age
  rw [keepTest, valid, Bool.true_and, head, tail, olderThanTail_iff w _ below, age,
    getElem_findIdxs_lt_iff]

theorem partial_sound (sound : s.Sound w) (keeps : s.Keeps w x n alloc)
    (program : w.Keeps n alloc (some (.upTo cut))) (below : cut < robDepth)
    (tail : f.robTail = w.flushRobTail cut) :
    (s.partialFlush x f).Sound (w.next n alloc (some (.upTo cut))) := by
  have first := first_older sound keeps.robHead below tail
  have order := (program.cut cut rfl).1
  have few : x.commitCount ≤ (w.insns.take cut).countP Renamed.isLoad := by
    rw [keeps.commit]
    exact (List.take_sublist_take_left order).countP_le
  refine ⟨first.sound sound.ring few, fun j => ?_, ?_⟩
  · rw [partialFlush, first.live sound.ring few]
    cases keep : s.ring.scanned x.commitCount (s.keepTest x f) j with
    | false => simp [Fifo.cut_dropped keep, LqEntry.empty]
    | true =>
      rw [Fifo.cut_kept keep, fill_valid]
      simp only [Fifo.scanned, keepTest, Bool.and_eq_true] at keep
      exact iff_of_true keep.2.1 rfl
  · show Lists ⟨slotAt w.head n, (w.insns.take cut).drop n⟩ _ _
    have older := (sound.listed.cut cut).retire (n := n)
      (by rw [List.length_take]; have := (program.cut cut rfl).2; omega)
      (Nat.le_trans program.retires (by decide))
    rw [List.take_take, Nat.min_eq_left order, ← keeps.commit] at older
    rw [partialFlush, first.contents sound.ring few LqEntry.robIdx fun i _ => fill_robIdx i _,
      ← List.drop_take]
    exact older

theorem cutRight (sound : s.Sound w) (keeps : s.Keeps w x n alloc)
    (program : w.Keeps n alloc (some (.upTo cut))) (below : cut < robDepth)
    (flush : x.flush = some f) (part : f.full = false) (tail : f.robTail = w.flushRobTail cut) :
    s.CutRight w x n cut := by
  have next : s.next x = s.partialFlush x f := by simp [LoadQueue.next, flush, part]
  have valid (j : LqIdx) : ((s.next x).ring.slot j).valid = true ↔
      s.ring.scanned x.commitCount (s.keepTest x f) j = true := by
    rw [next, partialFlush]
    cases keep : s.ring.scanned x.commitCount (s.keepTest x f) j with
    | false => simp [Fifo.cut_dropped keep, LqEntry.empty]
    | true =>
      rw [Fifo.cut_kept keep, fill_valid]
      simp only [Fifo.scanned, keepTest, Bool.and_eq_true] at keep
      exact iff_of_true keep.2.1 rfl
  refine ⟨fun j => ?_, fun j here => ?_, ?_⟩
  · have le := sound.commit_le keeps
    have fits := sound.ring.fits
    rw [valid, Fifo.scanned, Bool.and_eq_true, keepTest, Bool.and_eq_true, decide_eq_true_eq,
      keeps.robHead, tail, olderThanTail_iff w _ below, and_left_comm]
    refine and_congr_right fun here => and_congr_left fun _ => ?_
    have live := (sound.valid j).mp here
    unfold Fifo.Live at live
    rw [offset_advance _ _ (by omega)]
    split <;> omega
  · rw [next, partialFlush]
    exact Fifo.cut_kept ((valid j).mp here)
  · rw [next]
    have after := partial_sound sound keeps program below tail
    exact after

theorem full_sound (s : LoadQueue) (w : Program α) :
    s.fullFlush.Sound (w.next n alloc (some .full)) where
  ring := ⟨Nat.zero_le _, (slotAt_zero _).symm⟩
  valid _ := iff_of_false Bool.false_ne_true (Nat.not_lt_zero _)
  listed := rfl

end LoadQueue

end Rv64gc.Lsu
