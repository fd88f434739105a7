import Rv64gc.Lsu.StoreQueue

/-!
# The store queue in a run

From the head on come the stores that have retired and then those of the program in the reorder
buffer, all of them and in order. A partial flush keeps the first and, of the second, the stores
before the cut, unless the cut lies behind a full reorder buffer.
-/

namespace Rv64gc.Lsu

open Hdl Backend

namespace StoreQueue

variable {α : Type} {s : StoreQueue} {w : Program α} {x : SqIn} {c n : Nat}
  {alloc : List (Renamed α)} {flush : Option FlushTo}

-- ---------------------------------------------------------------------
-- The invariant
-- ---------------------------------------------------------------------

/-- The first `c` entries have retired and the others are the stores of the program. -/
structure Split (s : StoreQueue) (w : Program α) (c : Nat) : Prop where
  le : c ≤ s.ring.count
  ptr : s.commitPtr = slotAt s.ring.head c
  committed : ∀ k, k < s.ring.count → ((s.ring.nth k).committed = true ↔ k < c)
  listed : Lists w Renamed.isStore ((s.ring.contents.map SqEntry.robIdx).drop c)

structure Sound (s : StoreQueue) (w : Program α) : Prop where
  ring : s.ring.Sound
  valid : ∀ j, (s.ring.slot j).valid = true ↔ s.ring.Live j
  split : ∃ c, s.Split w c

/-- What the core around the queue keeps to. -/
structure Keeps (s : StoreQueue) (w : Program α) (x : SqIn) (retires : Nat)
    (alloc : List (Renamed α)) : Prop where
  alloc : x.alloc = allocSlots w Renamed.isStore alloc
  commit : x.commitCount = (w.insns.take retires).countP Renamed.isStore
  robHead : x.robHead = w.head
  room : x.alloc ≠ [] → s.full = false

/-- What a partial flush that cuts the program at a place is for. -/
structure CutRight (s : StoreQueue) (w : Program α) (x : SqIn) (n cut : Nat) : Prop where
  /-- The committed and the older ones stay, but for one that drains. -/
  kept : ∀ j, ((s.next x).ring.slot j).valid = true ↔
    (s.ring.slot j).valid = true ∧ ¬(s.drainFire x = true ∧ j = s.ring.head) ∧
      (s.committedAfter x j = true ∨ offset w.head (s.ring.slot j).robIdx < cut)
  /-- They are as they were, but that they commit and are filled in. -/
  same : ∀ j, ((s.next x).ring.slot j).valid = true → (s.next x).ring.slot j =
    s.fill x j { s.ring.slot j with committed := s.committedAfter x j }
  /-- Pointers, count and valid bits describe them. -/
  sound : (s.next x).Sound (w.next n [] (some (.upTo cut)))

theorem reset_split : reset.Split (⟨0, []⟩ : Program α) 0 :=
  ⟨Nat.le_refl 0, rfl, fun _ inside => absurd inside (Nat.not_lt_zero _), rfl⟩

theorem reset_sound : reset.Sound (⟨0, []⟩ : Program α) :=
  ⟨⟨Nat.zero_le _, rfl⟩, fun _ => iff_of_false Bool.false_ne_true (Nat.not_lt_zero _), 0, reset_split⟩

-- ---------------------------------------------------------------------
-- Fields that stay
-- ---------------------------------------------------------------------

@[simp] theorem fill_valid (j : SqIdx) (e : SqEntry) : (s.fill x j e).valid = e.valid := by
  unfold fill
  split <;> split <;> rfl

@[simp] theorem fill_robIdx (j : SqIdx) (e : SqEntry) : (s.fill x j e).robIdx = e.robIdx := by
  unfold fill
  split <;> split <;> rfl

@[simp] theorem fill_committed (j : SqIdx) (e : SqEntry) :
    (s.fill x j e).committed = e.committed := by
  unfold fill
  split <;> split <;> rfl

theorem mark_eq (j : SqIdx) : s.mark x j (s.ring.slot j) =
    { s.ring.slot j with committed := s.committedAfter x j } := by
  unfold mark committedAfter
  split
  next newly => simp [newly]
  next old => simp [old]

theorem updated_robIdx (j : SqIdx) : (s.updated x j).robIdx = (s.ring.slot j).robIdx := by
  simp only [updated, fill_robIdx, mark]
  split <;> split <;> rfl

theorem updated_valid (j : SqIdx) : (s.updated x j).valid =
    ((s.ring.slot j).valid && !(s.drainFire x && j == s.ring.head)) := by
  simp only [updated, fill_valid, mark]
  cases drains : s.drainFire x && j == s.ring.head <;> cases s.newlyCommitted x j <;> simp

theorem updated_committed (j : SqIdx) : (s.updated x j).committed =
    ((s.ring.slot j).committed && !(s.drainFire x && j == s.ring.head) ||
      s.newlyCommitted x j) := by
  simp only [updated, fill_committed, mark]
  cases drains : s.drainFire x && j == s.ring.head <;> cases s.newlyCommitted x j <;> simp

-- ---------------------------------------------------------------------
-- Commit and drain
-- ---------------------------------------------------------------------

theorem Split.length (split : s.Split w c) :
    s.ring.count - c = w.insns.countP Renamed.isStore := by
  have same := congrArg List.length split.listed
  simpa using same

/-- Only stores that are there retire. -/
theorem Split.commit_le (split : s.Split w c) (keeps : s.Keeps w x n alloc) :
    c + x.commitCount ≤ s.ring.count := by
  have some_ := (List.take_sublist n w.insns).countP_le (p := Renamed.isStore)
  have length := split.length
  have le := split.le
  rw [keeps.commit]
  omega

theorem newlyCommitted_iff (ring : s.ring.Sound) (split : s.Split w c)
    (few : c + x.commitCount ≤ s.ring.count) (inside : k < s.ring.count) :
    s.newlyCommitted x (slotAt s.ring.head k) = true ↔ c ≤ k ∧ k < c + x.commitCount := by
  have fits := ring.fits
  have le := split.le
  rw [newlyCommitted, decide_eq_true_eq, split.ptr, offset_advance _ _ (by omega),
    offset_slotAt _ (by omega)]
  split <;> omega

theorem committedAfter_iff (ring : s.ring.Sound) (split : s.Split w c)
    (few : c + x.commitCount ≤ s.ring.count) (inside : k < s.ring.count) :
    s.committedAfter x (slotAt s.ring.head k) = true ↔ k < c + x.commitCount := by
  have old := split.committed k inside
  have new := newlyCommitted_iff ring split few inside
  rw [Fifo.nth] at old
  rw [committedAfter, Bool.or_eq_true, old, new]
  omega

/-- What drains is there and has retired. -/
theorem drained_le (sound : s.Sound w) (split : s.Split w c) : s.drained x ≤ c := by
  unfold drained
  split
  next fires =>
    simp only [drainFire, drainValid, Bool.and_eq_true] at fires
    have live := (sound.valid _).mp fires.1.1.1.1
    simp only [Fifo.Live, offset, BitVec.sub_self, BitVec.toNat_zero] at live
    have first := (split.committed 0 live).mp (by simpa [Fifo.nth] using fires.1.1.1.2)
    omega
  next => omega

theorem drained_head (k : Nat) (ring : s.ring.Sound) (inside : k < s.ring.count) :
    (s.drainFire x = true ∧ slotAt s.ring.head k = s.ring.head) ↔ k < s.drained x := by
  have fits := ring.fits
  have first : slotAt s.ring.head k = s.ring.head ↔ k = 0 := by
    constructor
    · intro same
      have lands := offset_slotAt s.ring.head (k := k) (by omega)
      rw [same] at lands
      simpa [offset] using lands.symm
    · rintro rfl
      exact slotAt_zero _
  rw [first]
  unfold drained
  split
  next fires => simp [fires]
  next idle => simp [idle]

-- ---------------------------------------------------------------------
-- A cycle without a flush
-- ---------------------------------------------------------------------

theorem normal_old (ring : s.ring.Sound) (room : s.ring.count + x.alloc.length ≤ 32)
    (old : k < s.ring.count) :
    (s.normal x).ring.slot (slotAt s.ring.head k) = s.updated x (slotAt s.ring.head k) := by
  show place _ _ = _
  rw [Fifo.lookup_old ring _ room old]
  rfl

theorem normal_new (ring : s.ring.Sound) (room : s.ring.count + x.alloc.length ≤ 32)
    (new : k < x.alloc.length) :
    (s.normal x).ring.slot (slotAt s.ring.head (s.ring.count + k)) =
      place (some x.alloc[k]) (s.updated x (slotAt s.ring.head (s.ring.count + k))) := by
  show place _ _ = _
  rw [Fifo.lookup_new ring _ (by omega), List.getElem?_eq_getElem new]

theorem normal_free (ring : s.ring.Sound) (beyond : s.ring.count + x.alloc.length ≤ k)
    (inside : k < 32) :
    (s.normal x).ring.slot (slotAt s.ring.head k) = s.updated x (slotAt s.ring.head k) := by
  show place _ _ = _
  rw [Fifo.lookup_free ring _ beyond inside]
  rfl

theorem normal_valid (sound : s.Sound w) (room : s.ring.count + x.alloc.length ≤ 32)
    (le : s.drained x ≤ s.ring.count) (j : SqIdx) :
    ((s.normal x).ring.slot j).valid = true ↔ (s.normal x).ring.Live j := by
  have ring := sound.ring
  have inside := offset_lt s.ring.head j
  rw [← slotAt_offset s.ring.head j]
  generalize offset s.ring.head j = k at inside
  have live : (s.normal x).ring.Live (slotAt s.ring.head k) ↔
      s.drained x ≤ k ∧ k < s.ring.count + x.alloc.length := Fifo.turn_live room le inside
  rw [live]
  have old : (s.ring.slot (slotAt s.ring.head k)).valid = true ↔ k < s.ring.count := by
    rw [sound.valid, Fifo.Live, offset_slotAt _ inside]
  have before : (s.updated x (slotAt s.ring.head k)).valid = true ↔
      k < s.ring.count ∧ s.drained x ≤ k := by
    rw [updated_valid, Bool.and_eq_true, old, Bool.not_eq_true', ← Bool.not_eq_true,
      Bool.and_eq_true, beq_iff_eq]
    constructor
    · rintro ⟨here, stays⟩
      exact ⟨here, Nat.le_of_not_lt fun less => stays ((drained_head k ring here).mpr less)⟩
    · rintro ⟨here, stays⟩
      exact ⟨here, fun leaves => Nat.not_lt.mpr stays ((drained_head k ring here).mp leaves)⟩
  rcases Nat.lt_or_ge k s.ring.count with here | behind
  · rw [normal_old ring room here, before]
    omega
  · rcases Nat.lt_or_ge k (s.ring.count + x.alloc.length) with new | free
    · have at_ := normal_new (x := x) (k := k - s.ring.count) ring room (by omega)
      rw [Nat.add_sub_cancel' behind] at at_
      rw [at_]
      exact iff_of_true rfl ⟨by omega, new⟩
    · rw [normal_free ring free inside, before]
      omega


/-- What is drained leaves the front, and the new stores come behind. -/
theorem normal_robIdx (ring : s.ring.Sound) (room : s.ring.count + x.alloc.length ≤ 32)
    (le : s.drained x ≤ s.ring.count) :
    (s.normal x).ring.contents.map SqEntry.robIdx =
      (s.ring.contents.map SqEntry.robIdx).drop (s.drained x) ++ x.alloc := by
  rw [normal, Fifo.turn_contents SqEntry.robIdx le]
  · congr 1
    apply List.ext_getElem
    · simp
    · intro k inside inside'
      simp only [List.getElem_map, List.getElem_range]
      exact congrArg SqEntry.robIdx (normal_new ring room inside')
  · intro k _ less
    exact (congrArg SqEntry.robIdx (normal_old ring room less)).trans (updated_robIdx _)

theorem normal_split (sound : s.Sound w) (split : s.Split w c) (keeps : s.Keeps w x n alloc)
    (program : w.Keeps n alloc none) (room : s.ring.count + x.alloc.length ≤ 32) :
    (s.normal x).Split (w.next n alloc none) (c + x.commitCount - s.drained x) := by
  have ring := sound.ring
  have few := split.commit_le keeps
  have drains := drained_le (x := x) sound split
  have le := split.le
  have fits := ring.fits
  refine ⟨?_, ?_, fun k inside => ?_, ?_⟩
  · show _ ≤ s.ring.count + x.alloc.length - s.drained x
    omega
  · show slotAt s.commitPtr x.commitCount = slotAt (slotAt s.ring.head (s.drained x)) _
    rw [split.ptr, slotAt_slotAt, slotAt_slotAt]
    congr 1
    omega
  · have inside : k < s.ring.count + x.alloc.length - s.drained x := inside
    show ((s.normal x).ring.slot (slotAt (slotAt s.ring.head (s.drained x)) k)).committed = true ↔ _
    rw [slotAt_slotAt]
    rcases Nat.lt_or_ge (s.drained x + k) s.ring.count with old | new
    · have stays : (s.drainFire x && slotAt s.ring.head (s.drained x + k) == s.ring.head) = false := by
        rw [← Bool.not_eq_true, Bool.and_eq_true, beq_iff_eq, drained_head _ ring old]
        omega
      rw [normal_old ring room old, updated_committed, stays, Bool.not_false, Bool.and_true]
      have after := committedAfter_iff ring split few old
      rw [committedAfter] at after
      rw [after]
      omega
    · have at_ := normal_new (x := x) (k := s.drained x + k - s.ring.count) ring room (by omega)
      rw [Nat.add_sub_cancel' new] at at_
      rw [at_]
      exact iff_of_false (by simp [place]) (by omega)
  · have listed := split.listed.cycle program
    rw [← keeps.alloc, ← keeps.commit, List.drop_drop] at listed
    rw [normal_robIdx ring room (by omega), List.drop_append_of_le_length (by simp; omega),
      List.drop_drop]
    convert listed using 3
    omega

/-- Rename waits for the room the new stores need. -/
theorem Keeps.fits (keeps : s.Keeps w x n alloc) (ring : s.ring.Sound)
    (few : alloc.length ≤ pipeWidth) : s.ring.count + x.alloc.length ≤ 32 := by
  have fits := ring.fits
  have less : x.alloc.length ≤ pipeWidth := by
    rw [keeps.alloc, allocSlots, List.length_map, List.length_findIdxs]
    exact Nat.le_trans List.countP_le_length few
  by_cases none_ : x.alloc = []
  · simpa [none_] using fits
  · have room := keeps.room none_
    simp only [full, decide_eq_false_iff_not, Nat.not_le] at room
    unfold pipeWidth at less room
    omega

theorem normal_sound (sound : s.Sound w) (keeps : s.Keeps w x n alloc)
    (program : w.Keeps n alloc none) : (s.normal x).Sound (w.next n alloc none) := by
  obtain ⟨c, split⟩ := sound.split
  have drains := drained_le (x := x) sound split
  have le := split.le
  have room := keeps.fits sound.ring program.alloc
  exact ⟨Fifo.turn_sound sound.ring room (by omega), normal_valid sound room (by omega),
    _, normal_split sound split keeps program room⟩

-- ---------------------------------------------------------------------
-- A flush
-- ---------------------------------------------------------------------

variable {f : FlushIn} {u : Nat}

theorem flushed_slot (keep : s.flushKeep x f j = true) : (s.flushed x f).ring.slot j =
    if f.full then s.mark x j (s.ring.slot j) else s.fill x j (s.mark x j (s.ring.slot j)) :=
  Fifo.cut_kept keep

theorem flushed_dropped (gone : s.flushKeep x f j = false) :
    (s.flushed x f).ring.slot j = .empty :=
  Fifo.cut_dropped gone

theorem flushed_valid (j : SqIdx) :
    ((s.flushed x f).ring.slot j).valid = true ↔ s.flushKeep x f j = true := by
  cases keep : s.flushKeep x f j with
  | false =>
    rw [flushed_dropped keep]
    exact Iff.rfl
  | true =>
    have here : (s.ring.slot j).valid = true := by
      simp only [flushKeep, Fifo.scanned, keepTest, Bool.and_eq_true] at keep
      exact keep.2.1
    rw [flushed_slot keep, mark_eq]
    split <;> simp [here]

theorem flushed_fields (keep : s.flushKeep x f j = true) :
    ((s.flushed x f).ring.slot j).robIdx = (s.ring.slot j).robIdx ∧
      ((s.flushed x f).ring.slot j).committed = s.committedAfter x j := by
  rw [flushed_slot keep, mark_eq]
  split <;> simp

theorem flushed_committed (first : s.ring.First (s.keepTest x f) u) (ring : s.ring.Sound)
    (split : s.Split w c) (few : c + x.commitCount ≤ s.ring.count) (drains : s.drained x ≤ u)
    (inside : k < (s.flushed x f).ring.count) :
    ((s.flushed x f).ring.nth k).committed = true ↔ k < c + x.commitCount - s.drained x := by
  have le := first.le
  have fits := ring.fits
  have inside : k < u - s.drained x := (first.count drains) ▸ inside
  show ((s.flushed x f).ring.slot (slotAt (slotAt s.ring.head (s.drained x)) k)).committed = true ↔ _
  rw [slotAt_slotAt]
  have keep := (first.scanned_iff ring drains (k := s.drained x + k) (by omega)).mpr (by omega)
  rw [(flushed_fields keep).2, committedAfter_iff ring split few (by omega)]
  omega

theorem flushed_robIdx (first : s.ring.First (s.keepTest x f) u) (ring : s.ring.Sound)
    (drains : s.drained x ≤ u) : (s.flushed x f).ring.contents.map SqEntry.robIdx =
      ((s.ring.contents.map SqEntry.robIdx).drop (s.drained x)).take (u - s.drained x) := by
  refine first.contents ring drains SqEntry.robIdx fun i keep => ?_
  have same := (flushed_fields (x := x) (f := f) (j := i) keep).1
  rw [flushed_slot keep] at same
  exact same

-- ---------------------------------------------------------------------
-- A partial flush
-- ---------------------------------------------------------------------

variable {cut : Nat}

/-- The stores of the program before the cut come first. -/
theorem older_iff (split : s.Split w c) (after : c ≤ k) (inside : k < s.ring.count) :
    offset w.head (s.ring.nth k).robIdx < cut ↔
      k < c + (w.insns.take cut).countP Renamed.isStore := by
  have length := split.length
  have here : k - c < (w.insns.findIdxs Renamed.isStore).length := by
    rw [List.length_findIdxs]
    omega
  have age : offset w.head (s.ring.nth k).robIdx = (w.insns.findIdxs Renamed.isStore)[k - c] := by
    have listed := split.listed
    unfold Backend.Lists at listed
    simp only [← listed, List.getElem_map, List.getElem_drop, Fifo.getElem_contents,
      Nat.add_sub_cancel' after]
  rw [age, getElem_findIdxs_lt_iff]
  omega

theorem keepsFirst_upTo (sound : s.Sound w) (split : s.Split w c)
    (keeps : s.Keeps w x n alloc) (order : n ≤ cut) (below : cut < robDepth)
    (part : f.full = false) (tail : f.robTail = w.flushRobTail cut) :
    s.ring.First (s.keepTest x f) (c + (w.insns.take cut).countP Renamed.isStore) := by
  have length := split.length
  have le := split.le
  have some_ := (List.take_sublist cut w.insns).countP_le (p := Renamed.isStore)
  have more : x.commitCount ≤ (w.insns.take cut).countP Renamed.isStore := by
    rw [keeps.commit]
    exact (List.take_sublist_take_left order).countP_le
  refine ⟨by omega, fun k inside => ?_⟩
  have valid := (sound.valid _).mpr (Fifo.live_slotAt sound.ring inside)
  have committed := committedAfter_iff sound.ring split (split.commit_le keeps) inside
  simp only [keepTest, valid, part, Bool.not_false, Bool.true_and, Bool.or_eq_true, committed,
    keeps.robHead, tail, olderThanTail_iff w _ below]
  rcases Nat.lt_or_ge k c with old | new
  · exact iff_of_true (.inl (by omega)) (by omega)
  · have older : offset w.head (s.ring.nth k).robIdx < cut ↔
        k < c + (w.insns.take cut).countP Renamed.isStore := older_iff split new inside
    rw [Fifo.nth] at older
    rw [older]
    omega

theorem partial_split (sound : s.Sound w) (split : s.Split w c) (keeps : s.Keeps w x n alloc)
    (program : w.Keeps n alloc (some (.upTo cut))) (part : f.full = false)
    (first : s.ring.First (s.keepTest x f) (c + (w.insns.take cut).countP Renamed.isStore)) :
    (s.flushed x f).Split (w.next n alloc (some (.upTo cut)))
      (c + x.commitCount - s.drained x) := by
  have ring := sound.ring
  have le := split.le
  have drains := drained_le (x := x) sound split
  have few := split.commit_le keeps
  have order := (program.cut cut rfl).1
  have more : x.commitCount ≤ (w.insns.take cut).countP Renamed.isStore := by
    rw [keeps.commit]
    exact (List.take_sublist_take_left order).countP_le
  refine ⟨?_, ?_, fun k inside => flushed_committed first ring split few (by omega) inside, ?_⟩
  · show _ ≤ (s.ring.cut ..).count
    rw [first.count (by omega)]
    omega
  · show (if f.full then _ else slotAt s.commitPtr x.commitCount) =
      slotAt (slotAt s.ring.head (s.drained x)) _
    rw [part, if_neg Bool.false_ne_true, split.ptr, slotAt_slotAt, slotAt_slotAt]
    congr 1
    omega
  · have older := (split.listed.cut cut).retire (n := n)
      (by rw [List.length_take]; have := (program.cut cut rfl).2; omega)
      (Nat.le_trans program.retires (by decide))
    rw [List.take_take, Nat.min_eq_left order, ← keeps.commit] at older
    show Lists ⟨slotAt w.head n, (w.insns.take cut).drop n⟩ _ _
    rw [flushed_robIdx first ring (by omega)]
    convert older using 1
    rw [List.drop_take, List.drop_take, List.drop_drop, List.drop_drop]
    congr 1
    · omega
    · congr 1
      omega

theorem partial_sound (sound : s.Sound w) (keeps : s.Keeps w x n alloc)
    (program : w.Keeps n alloc (some (.upTo cut))) (below : cut < robDepth)
    (part : f.full = false) (tail : f.robTail = w.flushRobTail cut) :
    (s.flushed x f).Sound (w.next n alloc (some (.upTo cut))) := by
  obtain ⟨c, split⟩ := sound.split
  have drains := drained_le (x := x) sound split
  have first := keepsFirst_upTo sound split keeps (program.cut cut rfl).1 below part tail
  refine ⟨first.sound sound.ring (by omega), fun j => ?_, _,
    partial_split sound split keeps program part first⟩
  rw [flushed_valid]
  exact (first.live sound.ring (by omega) j).symm

theorem cutRight (sound : s.Sound w) (keeps : s.Keeps w x n alloc)
    (program : w.Keeps n alloc (some (.upTo cut))) (below : cut < robDepth)
    (flush : x.flush = some f) (part : f.full = false) (tail : f.robTail = w.flushRobTail cut) :
    s.CutRight w x n cut := by
  have next : s.next x = s.flushed x f := by rw [StoreQueue.next, flush]
  refine ⟨fun j => ?_, fun j => ?_, ?_⟩
  · obtain ⟨c, split⟩ := sound.split
    have fits := sound.ring.fits
    have drains := drained_le (x := x) sound split
    have le := split.le
    rw [next, flushed_valid, flushKeep, Fifo.scanned, Bool.and_eq_true, keepTest, Bool.and_eq_true,
      decide_eq_true_eq, Bool.or_eq_true, part, Bool.not_false, Bool.true_and, keeps.robHead, tail,
      olderThanTail_iff w _ below, and_left_comm]
    refine and_congr_right fun valid => and_congr_left fun _ => ?_
    have live := (sound.valid j).mp valid
    have at_ := drained_head (x := x) (offset s.ring.head j) sound.ring live
    rw [slotAt_offset] at at_
    rw [at_, offset_advance _ _ (by omega)]
    unfold Fifo.Live at live
    split <;> omega
  · rw [next, flushed_valid]
    intro keep
    rw [flushed_slot keep, part, if_neg Bool.false_ne_true, mark_eq]
  · rw [next]
    have after := partial_sound sound keeps program below part tail
    exact after

/-- A full flush leaves the committed stores. -/
theorem keepsFirst_full (sound : s.Sound w) (split : s.Split w c) (keeps : s.Keeps w x n alloc)
    (whole : f.full = true) : s.ring.First (s.keepTest x f) (c + x.commitCount) := by
  have few := split.commit_le keeps
  refine ⟨few, fun k inside => ?_⟩
  have valid := (sound.valid _).mpr (Fifo.live_slotAt sound.ring inside)
  have committed := committedAfter_iff sound.ring split few inside
  simp only [keepTest, valid, whole, Bool.not_true, Bool.false_and, Bool.or_false, Bool.true_and,
    committed]

theorem full_split (sound : s.Sound w) (split : s.Split w c) (keeps : s.Keeps w x n alloc)
    (whole : f.full = true) :
    (s.flushed x f).Split (w.next n alloc (some .full)) (c + x.commitCount - s.drained x) := by
  have ring := sound.ring
  have few := split.commit_le keeps
  have drains := drained_le (x := x) sound split
  have first := keepsFirst_full sound split keeps whole
  refine ⟨?_, ?_, fun k inside => flushed_committed first ring split few (by omega) inside, ?_⟩
  · show _ ≤ (s.ring.cut ..).count
    rw [first.count (by omega)]
  · have count : (s.ring.cut (s.drained x) (s.keepTest x f) (fun j => s.ring.slot j) .empty).count =
        c + x.commitCount - s.drained x := first.count (by omega)
    show (if f.full then slotAt (slotAt s.ring.head (s.drained x))
      (s.ring.scanCount (s.drained x) (s.keepTest x f)) else _) = _
    rw [whole, if_pos rfl]
    exact congrArg _ count
  · show Lists ⟨0, []⟩ _ _
    rw [flushed_robIdx first ring (by omega), List.drop_of_length_le (List.length_take_le _ _)]
    rfl

theorem full_sound (sound : s.Sound w) (keeps : s.Keeps w x n alloc) (whole : f.full = true) :
    (s.flushed x f).Sound (w.next n alloc (some .full)) := by
  obtain ⟨c, split⟩ := sound.split
  have drains := drained_le (x := x) sound split
  have first := keepsFirst_full sound split keeps whole
  refine ⟨first.sound sound.ring (by omega), fun j => ?_, _, full_split sound split keeps whole⟩
  rw [flushed_valid]
  exact (first.live sound.ring (by omega) j).symm

end StoreQueue

end Rv64gc.Lsu
