import Rv64gc.Cache.DcacheLines
import Rv64gc.Hdl.Fifo

/-!
# What becomes of an acknowledged store

A store that hits is written through at once, one that misses is merged into a miss register that
owes its line. When that register is installed the line goes to the write-through queue, and from
the queue to L2. Nothing is ever dirty.
-/

namespace Rv64gc.L1d

open Hdl

namespace Dcache

/-- Where the bytes of a store are kept until L2 has them. -/
inductive Place where
  | entry (m : MshrIdx)
  | queue (k : BitVec 2)
deriving DecidableEq

def wtQueue (s : Dcache) : Fifo 2 Line := ⟨s.wtHead, s.wtTail, s.wtCount, s.wtLine⟩

/-- The line is owed to L2 from the place. -/
def Owes (s : Dcache) (line : Line) : Place → Prop
  | .entry m => (s.mshr m).valid = true ∧ (s.mshr m).nwaWtOwed = true ∧ (s.mshr m).line = line
  | .queue k => s.wtQueue.Live k ∧ s.wtLine k = line

variable (s : Dcache) (i : Inputs)

/-- The slot of the line that is written through in this cycle. -/
def wtSlot : BitVec 2 := if s.wtMergeReady i then s.wtTail - 1 else s.wtTail

/-- Where the acknowledged store goes. -/
def takenAt : Option Place :=
  if s.storeAckMatchesHead i then
    if s.nwaStoreAccept i then ((s.missMerge i s.stLine s.stHit).or s.mshrFree).map .entry
    else some (.queue (s.wtSlot i))
  else none

/-- Where it is after a cycle. -/
def moves : Place → Option Place
  | .entry m => if s.installIdx = some m then some (.queue (s.wtSlot i)) else some (.entry m)
  | .queue k => if s.wtDeqFire i && k == s.wtHead then none else some (.queue k)

/-- Where it is after a run. -/
def placeAfter (en : Bool) (s : Dcache) (p : Place) : List Inputs → Option Place
  | [] => some p
  | i :: rest => (s.moves i p).bind fun q => placeAfter en (s.next i en) q rest

/-- The write-through queue is a queue, and a deferred line is owed. -/
structure Keeps (s : Dcache) : Prop where
  sound : s.wtQueue.Sound
  owed : ∀ m, (s.mshr m).valid = true → (s.mshr m).nwaPending = true → (s.mshr m).nwaWtOwed = true

/-- Nothing is dirty, so nothing is written back. -/
structure Clean (s : Dcache) : Prop where
  tags : ∀ set w, (s.tags set w).dirty = false
  outA : ∀ w, (s.outA w).dirty = false
  outB : ∀ w, (s.outB w).dirty = false
  mshrs : ∀ m, (s.mshr m).writebackPend = false
  l2 : s.l2State ≠ .writeback

variable {s : Dcache} {i : Inputs} {en : Bool} {line : Line} {m : MshrIdx}

-- ---------------------------------------------------------------------
-- The write-through queue
-- ---------------------------------------------------------------------

theorem wtQueue_next : (s.next i en).wtQueue =
    s.wtQueue.turn (if s.wtDeqFire i then 1 else 0) (if s.wtPushFire i then 1 else 0) fun k =>
      if s.wtPushFire i && k == s.wtTail then s.wtEnqLine i else s.wtLine k := by
  simp only [wtQueue, next, Fifo.turn]
  congr 1
  · cases s.wtDeqFire i <;> simp [slotAt]
  · cases s.wtPushFire i <;> simp [slotAt]

theorem count_of_deq (deq : s.wtDeqFire i = true) : s.wtCount ≠ 0 := by
  simp only [wtDeqFire, Bool.and_eq_true, decide_eq_true_eq] at deq
  exact deq.1.2

theorem deq_few : (if s.wtDeqFire i then 1 else 0) ≤ s.wtQueue.count := by
  split
  next deq => exact Nat.one_le_iff_ne_zero.mpr (count_of_deq deq)
  next => exact Nat.zero_le _

/-- The line an install owes has room. -/
theorem wtRoom_of_inst (owes : s.nwaInstWt.isSome = true) : s.wtCount < 4 := by
  unfold nwaInstWt at owes
  split at owes
  next m full =>
    unfold nwaValidateIdx at full
    split at full
    next idle => exact of_decide_eq_true ((Bool.and_eq_true _ _).mp idle).1
    next => cases full
  next =>
    split at owes
    next m done =>
      have picked := firstOf_some done
      simp only [Bool.and_eq_true, Bool.or_eq_true, Bool.not_eq_true'] at picked
      split at owes
      next owed =>
        rcases picked.2 with paid | room
        · cases paid.symm.trans owed
        · exact of_decide_eq_true room
      next => cases owes
    next => cases owes

theorem push_room (push : s.wtPushFire i = true) : s.wtCount < 4 ∨ s.wtDeqFire i = true := by
  simp only [wtPushFire, wtEnqValid, Bool.and_eq_true, Bool.or_eq_true, Bool.not_eq_true'] at push
  obtain ⟨inst | ⟨-, ready⟩, noMerge⟩ := push
  · exact .inl (wtRoom_of_inst inst)
  · simp only [wtEnqReady, noMerge, Bool.false_or, Bool.or_eq_true, decide_eq_true_eq] at ready
    exact ready

/-- The queue never overflows. -/
theorem Keeps.sound_next (keeps : s.Keeps) : (s.next i en).wtQueue.Sound := by
  have fits : s.wtCount ≤ 4 := keeps.sound.fits
  rw [wtQueue_next]
  constructor
  · show s.wtCount + (if s.wtPushFire i then 1 else 0) - (if s.wtDeqFire i then 1 else 0) ≤ 4
    split
    next push =>
      rcases push_room push with room | deq
      · omega
      · rw [if_pos deq]
        omega
    next => omega
  · show slotAt s.wtTail _ = slotAt (slotAt s.wtHead _)
      (s.wtCount + (if s.wtPushFire i then 1 else 0) - if s.wtDeqFire i then 1 else 0)
    have tail : s.wtTail = slotAt s.wtHead s.wtCount := keeps.sound.tail
    have few : (if s.wtDeqFire i then 1 else 0) ≤ s.wtCount := deq_few
    rw [tail, slotAt_slotAt, slotAt_slotAt]
    congr 1
    omega

/-- A line stays in its slot until L2 takes it. -/
theorem Keeps.queue_next (keeps : s.Keeps) (owes : s.Owes line (.queue k))
    (stays : (s.wtDeqFire i && k == s.wtHead) = false) : (s.next i en).Owes line (.queue k) := by
  obtain ⟨live, here⟩ := owes
  have fits : s.wtCount ≤ 4 := keeps.sound.fits
  have tail : s.wtTail = slotAt s.wtHead s.wtCount := keeps.sound.tail
  have live : offset s.wtHead k < s.wtCount := live
  have behind : (if s.wtDeqFire i then 1 else 0) ≤ offset s.wtHead k := by
    split
    next deq =>
      rw [deq, Bool.true_and, beq_eq_false_iff_ne] at stays
      by_contra head
      have zero : offset s.wtHead k = 0 := by omega
      have same := slotAt_offset s.wtHead k
      rw [zero, slotAt_zero] at same
      exact stays same.symm
    next => exact Nat.zero_le _
  constructor
  · rw [wtQueue_next]
    show offset (slotAt s.wtHead (if s.wtDeqFire i then 1 else 0)) k <
      s.wtCount + (if s.wtPushFire i then 1 else 0) - (if s.wtDeqFire i then 1 else 0)
    rw [offset_advance _ _ (by split <;> decide), if_pos behind]
    omega
  · show (if s.wtPushFire i && k == s.wtTail then s.wtEnqLine i else s.wtLine k) = line
    rw [if_neg, here]
    rw [Bool.and_eq_true, beq_iff_eq]
    rintro ⟨push, rfl⟩
    rcases push_room push with room | deq
    · rw [tail, offset_slotAt _ room] at live
      omega
    · rw [if_pos deq, tail] at behind
      by_cases full : s.wtCount = 4
      · rw [full] at behind
        have round : slotAt s.wtHead 4 = s.wtHead := slotAt_size s.wtHead
        rw [round] at behind
        simp [offset] at behind
      · rw [tail, offset_slotAt _ (by omega)] at live
        omega

/-- A line that is written through is in the queue afterwards. -/
theorem Keeps.enq_next (keeps : s.Keeps) (valid : s.wtEnqValid i = true) :
    (s.next i en).Owes (s.wtEnqLine i) (.queue (s.wtSlot i)) := by
  have fits : s.wtCount ≤ 4 := keeps.sound.fits
  have tail : s.wtTail = slotAt s.wtHead s.wtCount := keeps.sound.tail
  unfold wtSlot
  cases merge : s.wtMergeReady i with
  | true =>
    have ready := merge
    simp only [wtMergeReady, Bool.and_eq_true, decide_eq_true_eq, Bool.not_eq_true',
      Bool.and_eq_false_iff, beq_iff_eq, decide_eq_false_iff_not] at ready
    obtain ⟨⟨filled, notLast⟩, same⟩ := ready
    have last : s.wtTail - 1 = slotAt s.wtHead (s.wtCount - 1) := by
      have before : slotAt (slotAt s.wtHead (s.wtCount - 1)) 1 = s.wtTail := by
        rw [slotAt_slotAt, tail, Nat.sub_add_cancel (Nat.one_le_iff_ne_zero.mpr filled)]
      rw [← before]
      exact BitVec.add_sub_cancel _ _
    have place : offset s.wtHead (s.wtTail - 1) = s.wtCount - 1 := by
      rw [last, offset_slotAt _ (by omega)]
    refine keeps.queue_next ⟨?_, same⟩ ?_
    · show offset s.wtHead (s.wtTail - 1) < s.wtCount
      omega
    · rw [Bool.and_eq_false_iff, beq_eq_false_iff_ne]
      refine notLast.imp_right fun notOne head => ?_
      have head : s.wtTail - 1 = s.wtHead := head
      rw [head] at place
      have zero : offset s.wtHead s.wtHead = 0 := by simp [offset]
      omega
  | false =>
    have push : s.wtPushFire i = true := by simp [wtPushFire, valid, merge]
    have few : (if s.wtDeqFire i then 1 else 0) ≤ s.wtCount := deq_few
    constructor
    · rw [wtQueue_next]
      show offset (slotAt s.wtHead (if s.wtDeqFire i then 1 else 0)) s.wtTail <
        s.wtCount + (if s.wtPushFire i then 1 else 0) - (if s.wtDeqFire i then 1 else 0)
      have behind : s.wtTail = slotAt (slotAt s.wtHead (if s.wtDeqFire i then 1 else 0))
          (s.wtCount - if s.wtDeqFire i then 1 else 0) := by
        rw [slotAt_slotAt, tail]
        congr 1
        omega
      have room : s.wtCount - (if s.wtDeqFire i then 1 else 0) < 4 := by
        rcases push_room push with room | deq
        · omega
        · rw [if_pos deq]
          omega
      rw [behind, offset_slotAt _ room, push, if_pos rfl]
      omega
    · show (if s.wtPushFire i && s.wtTail == s.wtTail then s.wtEnqLine i else s.wtLine s.wtTail) = _
      rw [push, beq_self_eq_true]
      rfl

-- ---------------------------------------------------------------------
-- The miss registers
-- ---------------------------------------------------------------------

theorem nextMshr_owed (m : MshrIdx) : (s.nextMshr i m).nwaWtOwed =
    (if s.nwaValidateIdx = some m then false
      else if s.mshrFree = some m then ((s.allocated i (s.mshr m)).getD (s.mshr m)).nwaWtOwed
      else (s.mshr m).nwaWtOwed) := by
  simp only [nextMshr, upgrade, apply_ite Mshr.nwaWtOwed, ite_self]

theorem nextMshr_pending (m : MshrIdx) : (s.nextMshr i m).nwaPending =
    (if s.upgrades i m then false
      else if s.nwaValidateIdx = some m then false
      else if s.mshrFree = some m then ((s.allocated i (s.mshr m)).getD (s.mshr m)).nwaPending
      else (s.mshr m).nwaPending) := by
  simp only [nextMshr, upgrade, apply_ite Mshr.nwaPending, ite_self]

theorem nextMshr_writebackPend (m : MshrIdx) : (s.nextMshr i m).writebackPend =
    (if s.l2State = .writeback ∧ i.l2Ready = true ∧ s.l2Active = m then false
      else if s.mshrFree = some m then ((s.allocated i (s.mshr m)).getD (s.mshr m)).writebackPend
      else (s.mshr m).writebackPend) := by
  simp only [nextMshr, upgrade, apply_ite Mshr.writebackPend, ite_self]

theorem mshrFree_valid (free : s.mshrFree = some m) : (s.mshr m).valid = false := by
  simpa using firstOf_some free

/-- Only a store is deferred, and then it is owed. -/
theorem allocated_owed {old e : Mshr} (new : s.allocated i old = some e) :
    e.nwaWtOwed = e.nwaPending := by
  unfold allocated at new
  split_ifs at new
  all_goals
    obtain ⟨l, -, rfl⟩ := Option.map_eq_some_iff.mp new
    rfl

theorem Keeps.owed_next (keeps : s.Keeps) (m : MshrIdx) (valid : (s.nextMshr i m).valid = true)
    (pending : (s.nextMshr i m).nwaPending = true) : (s.nextMshr i m).nwaWtOwed = true := by
  rw [nextMshr_valid] at valid
  rw [nextMshr_pending] at pending
  rw [nextMshr_owed]
  split_ifs at valid pending with _ full free _
  · rw [if_neg full, if_pos free]
    cases new : s.allocated i (s.mshr m) with
    | some e =>
      rw [new] at pending
      exact (allocated_owed new).trans pending
    | none =>
      rw [new] at valid
      cases (mshrFree_valid free).symm.trans valid
  · rw [if_neg full, if_neg free]
    exact keeps.owed m valid pending

theorem Keeps.next (keeps : s.Keeps) : (s.next i en).Keeps := ⟨keeps.sound_next, keeps.owed_next⟩

theorem Keeps.reset : (reset : Dcache).Keeps where
  sound := ⟨Nat.zero_le _, rfl⟩
  owed _ valid := by cases valid

/-- An entry that is not installed is neither filled nor written in full. -/
theorem ne_of_installIdx_ne (stays : s.installIdx ≠ some m) :
    s.fillDoneIdx ≠ some m ∧ s.nwaValidateIdx ≠ some m := by
  refine ⟨fun done => stays (by rw [installIdx, done]; rfl), fun full => stays ?_⟩
  have idle : s.fillDoneIdx = none := by
    unfold nwaValidateIdx at full
    split at full
    next idle => simpa using ((Bool.and_eq_true _ _).mp idle).2
    next => cases full
  rw [installIdx, idle, full]
  rfl

/-- An entry that is not installed goes on. -/
theorem entry_next (owes : s.Owes line (.entry m)) (stays : s.installIdx ≠ some m) :
    (s.next i en).Owes line (.entry m) := by
  obtain ⟨valid, owed, here⟩ := owes
  obtain ⟨noFill, noValidate⟩ := ne_of_installIdx_ne stays
  have taken : s.mshrFree ≠ some m := fun free => by cases (mshrFree_valid free).symm.trans valid
  refine ⟨?_, ?_, ?_⟩
  · show (s.nextMshr i m).valid = true
    rw [nextMshr_valid, if_neg noFill, if_neg noValidate, if_neg taken, valid]
  · show (s.nextMshr i m).nwaWtOwed = true
    rw [nextMshr_owed, if_neg noValidate, if_neg taken, owed]
  · show (s.nextMshr i m).line = line
    rw [nextMshr_line, if_neg taken, here]

/-- An entry that is installed writes its line through. -/
theorem inst_of_install (install : s.installIdx = some m) (owed : (s.mshr m).nwaWtOwed = true) :
    s.nwaInstWt = some (s.mshr m).line := by
  unfold nwaInstWt
  rcases installIdx_cases install with done | full
  · have idle : s.nwaValidateIdx = none := by simp [nwaValidateIdx, done]
    rw [idle, done]
    exact if_pos owed
  · rw [full]

/-- What is owed stays owed. -/
theorem Keeps.moves_some (keeps : s.Keeps) (owes : s.Owes line p) (moved : s.moves i p = some q) :
    (s.next i en).Owes line q := by
  cases p with
  | entry m =>
    rw [moves] at moved
    split at moved
    next install =>
      obtain rfl := Option.some.inj moved
      have inst := inst_of_install install owes.2.1
      have enq : s.wtEnqLine i = line := by
        unfold wtEnqLine
        rw [inst]
        exact owes.2.2
      rw [← enq]
      exact keeps.enq_next (by simp [wtEnqValid, inst])
    next stays =>
      obtain rfl := Option.some.inj moved
      exact entry_next owes stays
  | queue k =>
    rw [moves] at moved
    split at moved
    next => cases moved
    next stays =>
      obtain rfl := Option.some.inj moved
      exact keeps.queue_next owes (Bool.eq_false_of_not_eq_true stays)

/-- Only L2 takes a line away. -/
theorem leaves_of_moves (owes : s.Owes line p) (left : s.moves i p = none) :
    p = .queue s.wtHead ∧ s.wtDeqFire i = true ∧ s.wtLine s.wtHead = line := by
  cases p with
  | entry m =>
    rw [moves] at left
    split at left <;> cases left
  | queue k =>
    rw [moves] at left
    split at left
    next leaves =>
      simp only [Bool.and_eq_true, beq_iff_eq] at leaves
      obtain ⟨deq, rfl⟩ := leaves
      exact ⟨rfl, deq, owes.2⟩
    next => cases left

-- ---------------------------------------------------------------------
-- The acknowledgement
-- ---------------------------------------------------------------------

/-- A deferred store is in a miss register afterwards. -/
theorem Keeps.deferred (keeps : s.Keeps) (en : Bool) (accept : s.nwaStoreAccept i = true)
    (line_ : s.stLine = some line) :
    ∃ m, (s.missMerge i s.stLine s.stHit).or s.mshrFree = some m ∧
      (s.next i en).Owes line (.entry m) := by
  simp only [nwaStoreAccept, Bool.and_eq_true, Bool.or_eq_true, Bool.not_eq_true',
    Option.isNone_iff_eq_none] at accept
  obtain ⟨⟨⟨⟨plain, miss⟩, quiet⟩, idle⟩, ⟨⟨alloc, noLd0⟩, noLd1⟩ | merges⟩ := accept
  · have room := alloc
    simp only [stCanAllocateMshr, newMiss, line_, Bool.and_eq_true, Option.any_some,
      Option.isNone_iff_eq_none] at room
    obtain ⟨⟨⟨-, fresh⟩, free⟩, -⟩ := room
    obtain ⟨m, free⟩ := Option.isSome_iff_exists.mp free
    have unmerged : s.missMerge i s.stLine s.stHit = none := by simp [missMerge, line_, fresh]
    refine ⟨m, by rw [unmerged, free]; rfl, ?_⟩
    obtain ⟨st, here, rfl⟩ := Option.map_eq_some_iff.mp line_
    have walker : st.isPtw = false := by simpa [here] using plain
    have invalid := mshrFree_valid free
    have noFill : s.fillDoneIdx ≠ some m := fun done => by cases idle.symm.trans done
    have noValidate : s.nwaValidateIdx ≠ some m := fun full => by
      cases (nwaValidateIdx_valid full).symm.trans invalid
    have new : ∃ e, s.allocated i (s.mshr m) = some e ∧ e.valid = true ∧ e.nwaWtOwed = true ∧
        e.line = lineOf st.req.addr := by
      unfold allocated
      rw [noLd0, noLd1, alloc, here]
      exact ⟨_, rfl, rfl, by simp [walker], rfl⟩
    obtain ⟨e, new, valid, owed, there⟩ := new
    refine ⟨?_, ?_, ?_⟩
    · show (s.nextMshr i m).valid = true
      rw [nextMshr_valid, if_neg noFill, if_neg noValidate, if_pos free, new]
      exact valid
    · show (s.nextMshr i m).nwaWtOwed = true
      rw [nextMshr_owed, if_neg noValidate, if_pos free, new]
      exact owed
    · show (s.nextMshr i m).line = _
      rw [nextMshr_line, if_pos free, new]
      exact there
  · cases merge : s.missMerge i s.stLine s.stHit with
    | none =>
      rw [merge] at merges
      cases merges
    | some m =>
      rw [merge] at merges
      simp only [Option.any_some, Bool.and_eq_true, bne_iff_ne] at merges
      obtain ⟨pending, part⟩ := merges
      refine ⟨m, rfl, ?_⟩
      have found : s.mshrMatch line = some m := by
        unfold missMerge at merge
        split at merge
        next => simpa [line_] using merge
        next => cases merge
      have there := lastOf_some found
      simp only [Bool.and_eq_true, beq_iff_eq] at there
      refine entry_next ⟨there.1, keeps.owed m there.1 pending, there.2⟩ fun install => ?_
      rcases installIdx_cases install with done | full
      · cases idle.symm.trans done
      · unfold nwaValidateIdx at full
        split at full
        next =>
          have picked := firstOf_some full
          simp only [Bool.and_eq_true, beq_iff_eq] at picked
          exact part picked.1.2
        next => cases full

/-- An acknowledged store is owed from then on. -/
theorem Keeps.taken (keeps : s.Keeps) (en : Bool) (ack : s.storeAckMatchesHead i = true)
    (line_ : s.stLine = some line) :
    ∃ p, s.takenAt i = some p ∧ (s.next i en).Owes line p := by
  unfold takenAt
  rw [if_pos ack]
  simp only [storeAckMatchesHead, storeAckS1, Bool.and_eq_true, Bool.or_eq_true] at ack
  cases accept : s.nwaStoreAccept i with
  | true =>
    obtain ⟨m, place, owes⟩ := keeps.deferred en accept line_
    exact ⟨.entry m, by rw [if_pos rfl, place]; rfl, owes⟩
  | false =>
    rw [accept] at ack
    obtain ⟨⟨⟨⟨produces, ready⟩, alone⟩ | accepts, -⟩, -⟩ := ack
    · have alone : s.nwaInstWt = none := Option.isNone_iff_eq_none.mp alone
      have enq : s.wtEnqLine i = line := by
        unfold wtEnqLine
        rw [alone]
        dsimp only
        split
        next merges =>
          rw [fillDoneStoreMerge, Bool.and_eq_true] at merges
          obtain ⟨m, done, same⟩ := (Option.any_eq_true _ _).mp merges.2
          rw [beq_iff_eq, line_] at same
          rw [done, Option.map_some, Option.getD_some]
          exact (Option.some.inj same).symm
        next => rw [line_, Option.getD_some]
      refine ⟨.queue (s.wtSlot i), if_neg Bool.false_ne_true, ?_⟩
      rw [← enq]
      exact keeps.enq_next (by simp [wtEnqValid, produces, ready])
    · cases accepts

-- ---------------------------------------------------------------------
-- Dirty lines
-- ---------------------------------------------------------------------

theorem Clean.readOut (clean : s.Clean) (set : SetIndex) (w : Way) :
    (s.readOut set w).dirty = false := by
  rcases readOut_cases set w with old | ⟨m, -, -, -, new⟩
  · rw [old]
    exact clean.tags set w
  · rw [new]

theorem Clean.allocated (clean : s.Clean) {old e : Mshr} (new : s.allocated i old = some e) :
    e.writebackPend = false := by
  have stOut (w : Way) : (s.stOut w).dirty = false := by
    unfold Dcache.stOut
    split
    · exact clean.outB w
    · exact clean.outA w
  unfold Dcache.allocated at new
  split_ifs at new
  all_goals obtain ⟨l, -, rfl⟩ := Option.map_eq_some_iff.mp new
  · exact clean.outA _
  · exact clean.outB _
  · exact stOut _
  · exact clean.outB _

theorem Clean.next (clean : s.Clean) : (s.next i en).Clean where
  tags set w := by
    show (s.nextTags i set w).dirty = false
    unfold nextTags
    split
    · rfl
    · exact clean.readOut set w
  outA w := clean.readOut _ w
  outB w := clean.readOut _ w
  mshrs m := by
    show (s.nextMshr i m).writebackPend = false
    rw [nextMshr_writebackPend]
    split_ifs
    · rfl
    · cases new : s.allocated i (s.mshr m) with
      | none => exact clean.mshrs m
      | some e => exact clean.allocated new
    · exact clean.mshrs m
  l2 := by
    have none_ : s.wbIdx = none := by
      rw [wbIdx, firstOf_none]
      intro m
      rw [clean.mshrs m, Bool.and_false]
    show (s.nextL2 i).1 ≠ .writeback
    unfold nextL2
    rw [none_]
    split
    · split
      · nofun
      · cases s.fillIdx <;> nofun
    next back => exact absurd back clean.l2
    · cases i.l2Ready <;> nofun
    · dsimp only
      split <;> nofun

theorem Clean.reset : (reset : Dcache).Clean where
  tags _ _ := rfl
  outA _ := rfl
  outB _ := rfl
  mshrs _ := rfl
  l2 := nofun

end Dcache

-- ---------------------------------------------------------------------
-- Runs
-- ---------------------------------------------------------------------

/-- An acknowledged store stays in its place, a miss register and then the queue, until L2 takes the
line from just there. -/
theorem acknowledged_store_kept (en : Bool) (s : Dcache) (reach : (dcacheRuns en).Reachable s)
    (i : Inputs) (ack : s.storeAckMatchesHead i = true) (line : Line)
    (line_ : s.stLine = some line) (xs : List Inputs) :
    ∃ p, s.takenAt i = some p ∧
      (∀ q, Dcache.placeAfter en (s.next i en) p xs = some q →
        ((dcacheRuns en).run (s.next i en) xs).Owes line q) ∧
      (Dcache.placeAfter en (s.next i en) p xs = none →
        ∃ before x after, xs = before ++ x :: after ∧
          ∃ t, t = (dcacheRuns en).run (s.next i en) before ∧ t.wtDeqFire x = true ∧
            t.wtLine t.wtHead = line ∧
            Dcache.placeAfter en (s.next i en) p before = some (.queue t.wtHead)) := by
  have keeps : s.Keeps := by
    refine reach.invariant Dcache.Keeps .reset ?_
    intro s i _ keeps _ _
    exact keeps.next
  obtain ⟨p, taken, owes⟩ := keeps.taken en ack line_
  refine ⟨p, taken, ?_⟩
  have start : (s.next i en).Keeps := keeps.next
  generalize s.next i en = t at owes start
  clear taken
  induction xs generalizing t p with
  | nil =>
    refine ⟨fun q same => ?_, nofun⟩
    obtain rfl := Option.some.inj same
    exact owes
  | cons x rest ih =>
    cases moved : t.moves x p with
    | none =>
      obtain ⟨rfl, deq, here⟩ := Dcache.leaves_of_moves owes moved
      refine ⟨fun q same => ?_, fun _ => ⟨[], x, rest, rfl, t, rfl, deq, here, rfl⟩⟩
      simp [Dcache.placeAfter, moved] at same
    | some q =>
      obtain ⟨stays, leaves⟩ := ih q (t.next x en) (start.moves_some owes moved) start.next
      have after (l : List Inputs) : Dcache.placeAfter en t p (x :: l) =
          Dcache.placeAfter en (t.next x en) q l := by
        simp [Dcache.placeAfter, moved]
      refine ⟨fun r same => stays r ((after rest).symm.trans same), fun gone => ?_⟩
      obtain ⟨before, y, later, rfl, u, reached, deq, here, place⟩ :=
        leaves ((after rest).symm.trans gone)
      exact ⟨x :: before, y, later, rfl, u, reached, deq, here, (after before).trans place⟩

/-- A store that misses, while its acknowledgement is waited for -/
def storeIn : Inputs := { Inputs.quiet with store := some ⟨0x4000, 7, 0xFF⟩ }

/-- Its line is in a miss register two cycles later. -/
theorem acknowledged_store_kept_miss :
    ((dcacheRuns false).run .reset [storeIn, storeIn, Inputs.quiet]).Owes 0x100 (.entry 0) := by
  have reach : (dcacheRuns false).Reachable ((dcacheRuns false).run .reset [storeIn]) :=
    Machine.Reachable.run .reset (legal_any _)
  obtain ⟨p, taken, stays, -⟩ := acknowledged_store_kept false _ reach storeIn (by decide +kernel)
    0x100 (by decide +kernel) [Inputs.quiet]
  have place : ((dcacheRuns false).run .reset [storeIn]).takenAt storeIn = some (.entry 0) := by
    decide +kernel
  obtain rfl := Option.some.inj (taken.symm.trans place)
  exact stays (.entry 0) (by decide +kernel)

/-- No line is ever dirty, so L2 is written through the queue only. -/
theorem dcache_never_writes_back (en : Bool) (s : Dcache) (reach : (dcacheRuns en).Reachable s) :
    s.l2State ≠ .writeback ∧ ∀ set w, (s.tags set w).dirty = false := by
  have clean : s.Clean := by
    refine reach.invariant Dcache.Clean .reset ?_
    intro s i _ clean _ _
    exact clean.next
  exact ⟨clean.l2, clean.tags⟩

end Rv64gc.L1d
