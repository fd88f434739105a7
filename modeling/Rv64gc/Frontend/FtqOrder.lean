import Rv64gc.Frontend.Ftq

/-!
# The fetch target queue keeps its order

`FtqOrder` is the queue without a ring: the entries of each state, oldest first. Every entry of a
legal run sits in the slot of its number, and the numbers of the entries waiting for delivery follow
those of the delivered ones. The head of the waiting entries may be delivered before it is written
back and then stands in both lists.
-/

namespace Rv64gc.Frontend

open Hdl

variable {α : Type}

structure FtqOrder (α : Type) where
  /-- Requested, and not written back. -/
  waiting : List (FtqOwner α)
  /-- Delivered, and not committed. -/
  delivered : List (FtqOwner α)
  headDelivered : Bool

namespace FtqOrder

variable (o : FtqOrder α) (i : FtqIn α)

/-- What a cancel leaves. -/
def kept : List (FtqOwner α) := if i.ifuCancelNext then o.waiting.eraseIdx 1 else o.waiting

def deliveredNow : Option (FtqOwner α) :=
  if !i.flush && i.deliveryPush then o.waiting.head? else none

def next (new : Option (FtqOwner α)) : FtqOrder α :=
  if i.flush then ⟨[], [], false⟩
  else
    { waiting := (o.kept i ++ new.toList).drop i.pop.toNat
      delivered := (o.delivered ++ (o.deliveredNow i).toList).drop i.commitPop.toNat
      headDelivered := !i.pop && (o.headDelivered || i.deliveryPush) }

end FtqOrder

/-- `a_runahead_depth_is_bounded`: IFU runs ahead by at most one owner. -/
def Ftq.DepthBounded (f : Ftq α) : Prop := f.countAllocToIfu + f.countIfuToWb ≤ 2

structure FtqRun (α : Type) where
  ftq : Ftq α
  order : FtqOrder α

namespace FtqRun

variable (s : FtqRun α) (i : FtqIn α)

/-- What `ifu` drives. An entry is requested in the cycle it is allocated, and none is allocated
while the queue takes none or in a flush. A cancel replaces the runahead entry, so it comes with an
allocation and with an entry behind the head. Only the head is delivered, once, and it is written
back when it is or has been delivered. -/
structure Drives : Prop where
  requested : i.ifuReqPop = i.enq.isSome
  ready : i.enq.isSome → s.ftq.enqReady i
  quiet : i.flush → i.enq = none
  replaces : i.ifuCancelNext → i.enq.isSome ∧ 1 < s.ftq.countIfuToWb ∧ s.ftq.DepthBounded
  delivers : i.deliveryPush → s.order.waiting ≠ [] ∧ s.order.headDelivered = false
  pops : i.pop → s.order.waiting ≠ [] ∧ (s.order.headDelivered ∨ i.deliveryPush)

instance [DecidableEq α] : Decidable (s.Drives i) :=
  decidable_of_iff (i.ifuReqPop = i.enq.isSome ∧ (i.enq.isSome → s.ftq.enqReady i) ∧
      (i.flush → i.enq = none) ∧
      (i.ifuCancelNext → i.enq.isSome ∧ 1 < s.ftq.countIfuToWb ∧
        s.ftq.countAllocToIfu + s.ftq.countIfuToWb ≤ 2) ∧
      (i.deliveryPush → s.order.waiting ≠ [] ∧ s.order.headDelivered = false) ∧
      (i.pop → s.order.waiting ≠ [] ∧ (s.order.headDelivered ∨ i.deliveryPush)))
    ⟨fun ⟨a, b, c, d, e, f⟩ => ⟨a, b, c, d, e, f⟩, fun ⟨a, b, c, d, e, f⟩ => ⟨a, b, c, d, e, f⟩⟩

def next : FtqRun α := ⟨s.ftq.next i, s.order.next i (s.ftq.enqOwner i)⟩

/-- The queue shows its order. -/
structure InOrder : Prop where
  /-- The writeback owner is the oldest entry neither written back nor cancelled. -/
  writeback : s.ftq.wbOwner i = (s.order.waiting ++ (s.ftq.enqOwner i).toList).head?
  following : s.ftq.nextOwner i = s.order.waiting[1]?
  /-- The commit owner is the oldest delivered entry not committed. -/
  commit : s.ftq.commitOwner i =
    (s.order.delivered ++ (s.order.deliveredNow i).toList).head?
  /-- A new entry gets the slot of no live one. -/
  fresh : ∀ new ∈ s.ftq.enqOwner i, ∀ live ∈ s.order.kept i ++ s.order.delivered,
    new.idx ≠ live.idx
  /-- Every live slot still holds its entry. -/
  holds : ∀ live ∈ s.order.waiting ++ s.order.delivered, s.ftq.stored live.idx = live
  unrequested : s.ftq.countAllocToIfu = 0
  waiting : s.ftq.countIfuToWb = s.order.waiting.length
  delivered : s.ftq.countWbToCommit = s.order.delivered.length

end FtqRun

def ftqRuns [Inhabited α] : Machine (FtqRun α) (FtqIn α) where
  reset := ⟨Ftq.reset, [], [], false⟩
  next := FtqRun.next
  legal := FtqRun.Drives

instance [Inhabited α] [DecidableEq α] (s : FtqRun α) (i : FtqIn α) :
    Decidable (ftqRuns.legal s i) :=
  inferInstanceAs (Decidable (s.Drives i))

-- ---------------------------------------------------------------------
-- Where the entries sit
-- ---------------------------------------------------------------------

theorem Ftq.ptrNext_slotOf (k : Nat) : Ftq.ptrNext (slotOf 24 k) = slotOf 24 (k + 1) := by
  rw [← stepSlot_slotOf]
  unfold Ftq.ptrNext stepSlot
  simp only [Fin.ext_iff]
  rfl

namespace FtqRun

/-- The waiting entries have the numbers from `w` on, the delivered ones those from `c` on. -/
structure Placed (c w : Nat) (s : FtqRun α) : Prop where
  numbers : c + s.order.delivered.length = w + s.order.headDelivered.toNat
  waiting : s.order.waiting.map (·.idx) = window 24 w s.order.waiting.length
  delivered : s.order.delivered.map (·.idx) = window 24 c s.order.delivered.length
  wbPtr : s.ftq.ifuWbPtr = slotOf 24 w
  wrPtr : s.ftq.wrPtr = slotOf 24 (w + s.order.waiting.length)
  commitPtr : s.order.delivered ≠ [] → s.ftq.commitPtr = slotOf 24 c
  head : s.order.headDelivered → s.order.waiting ≠ []
  fits : s.order.waiting.length +
    (s.order.delivered.length - s.order.headDelivered.toNat) ≤ 24
  unrequested : s.ftq.countAllocToIfu = 0
  countWaiting : s.ftq.countIfuToWb = s.order.waiting.length
  countDelivered : s.ftq.countWbToCommit = s.order.delivered.length
  holds : ∀ live ∈ s.order.waiting ++ s.order.delivered, s.ftq.stored live.idx = live

variable {s : FtqRun α} {i : FtqIn α}

/-- A cancel finds the head and the entry it takes back. -/
theorem Drives.cancels (placed : Placed c w s) (drives : s.Drives i) (cancel : i.ifuCancelNext) :
    i.enq.isSome ∧ s.order.waiting.length = 2 := by
  obtain ⟨comes, more, bound⟩ := drives.replaces cancel
  unfold Ftq.DepthBounded at bound
  rw [placed.countWaiting] at more bound
  exact ⟨comes, by omega⟩

theorem Drives.runs (drives : s.Drives i) (comes : i.enq.isSome) : i.flush = false := by
  by_contra flush
  simp [drives.quiet (by simpa using flush)] at comes

theorem placed_reset [Inhabited α] : Placed 0 0 (⟨Ftq.reset, [], [], false⟩ : FtqRun α) where
  numbers := rfl
  waiting := rfl
  delivered := rfl
  wbPtr := rfl
  wrPtr := rfl
  commitPtr := fun some_ => absurd rfl some_
  head := nofun
  fits := by simp
  unrequested := rfl
  countWaiting := rfl
  countDelivered := rfl
  holds := nofun

-- ---------------------------------------------------------------------
-- What fires
-- ---------------------------------------------------------------------

theorem cancelNextFire_eq (placed : Placed c w s) (drives : s.Drives i) :
    s.ftq.cancelNextFire i = i.ifuCancelNext := by
  cases cancels : i.ifuCancelNext with
  | false => simp [Ftq.cancelNextFire, Ftq.cancelNextPossible, cancels]
  | true =>
    obtain ⟨comes, two⟩ := drives.cancels placed cancels
    simp [Ftq.cancelNextFire, Ftq.cancelNextPossible, cancels, comes, drives.runs comes,
      placed.countWaiting, two]

theorem enqFire_eq (drives : s.Drives i) : s.ftq.enqFire i = i.enq.isSome := by
  cases comes : i.enq.isSome with
  | false => simp [Ftq.enqFire, comes]
  | true => simp [Ftq.enqFire, comes, drives.ready comes]

theorem reqPopFromEnq_eq (placed : Placed c w s) (drives : s.Drives i) :
    s.ftq.reqPopFromEnq i = i.enq.isSome := by
  cases comes : i.enq.isSome with
  | false => simp [Ftq.reqPopFromEnq, drives.requested, comes]
  | true =>
    simp [Ftq.reqPopFromEnq, Ftq.ifuOwnerValid, drives.requested, comes, enqFire_eq drives,
      placed.unrequested, drives.runs comes]

theorem reqPopFire_eq (placed : Placed c w s) (drives : s.Drives i) :
    s.ftq.reqPopFire i = i.enq.isSome := by
  simp [Ftq.reqPopFire, Ftq.reqPopExisting, Ftq.ifuOwnerValid, placed.unrequested,
    reqPopFromEnq_eq placed drives]

theorem countWaiting_ne (placed : Placed c w s) (some_ : s.order.waiting ≠ []) :
    s.ftq.countIfuToWb ≠ 0 := by
  rw [placed.countWaiting]
  exact fun none_ => some_ (List.length_eq_zero_iff.mp none_)

theorem wbPopFire_eq (placed : Placed c w s) (drives : s.Drives i) (runs : i.flush = false) :
    s.ftq.wbPopFire i = i.pop := by
  cases pops : i.pop with
  | false => simp [Ftq.wbPopFire, pops]
  | true =>
    have some_ := countWaiting_ne placed (drives.pops pops).1
    simp [Ftq.wbPopFire, pops, runs, some_]

theorem deliveryPushFire_eq (placed : Placed c w s) (drives : s.Drives i) :
    s.ftq.deliveryPushFire i = (!i.flush && i.deliveryPush) := by
  cases delivers : i.deliveryPush with
  | false => simp [Ftq.deliveryPushFire, delivers]
  | true =>
    have some_ := countWaiting_ne placed (drives.delivers delivers).1
    simp [Ftq.deliveryPushFire, delivers, Ftq.wbOwnerValid, some_]

-- ---------------------------------------------------------------------
-- The slots of a cycle
-- ---------------------------------------------------------------------

/-- A cancel leaves the numbers before it. -/
theorem kept_window (placed : Placed c w s) (drives : s.Drives i) :
    (s.order.kept i).map (·.idx) = window 24 w (s.order.kept i).length := by
  have slots := placed.waiting
  unfold FtqOrder.kept
  split
  next cancels =>
    obtain ⟨-, two⟩ := drives.cancels placed cancels
    obtain ⟨first, second, waiting⟩ := List.length_eq_two.mp two
    rw [waiting] at slots ⊢
    injection slots with slot
    simp [window_cons, slot]
  next => exact slots

/-- How many entries are left and how many there were. -/
theorem kept_length (placed : Placed c w s) (drives : s.Drives i) :
    if i.ifuCancelNext then (s.order.kept i).length = 1 ∧ s.order.waiting.length = 2
    else (s.order.kept i).length = s.order.waiting.length := by
  unfold FtqOrder.kept
  split
  next cancels =>
    obtain ⟨-, two⟩ := drives.cancels placed cancels
    exact ⟨by rw [List.length_eraseIdx, two]; rfl, two⟩
  next => rfl

theorem enqIdx_eq (placed : Placed c w s) (drives : s.Drives i) :
    s.ftq.enqIdx i = slotOf 24 (w + (s.order.kept i).length) := by
  have fires := cancelNextFire_eq placed drives
  have lengths := kept_length placed drives
  unfold Ftq.cancelNextFire at fires
  unfold Ftq.enqIdx
  rw [fires]
  split at lengths
  next cancels => rw [if_pos cancels, placed.wbPtr, Ftq.ptrNext_slotOf, lengths.1]
  next stays => rw [if_neg stays, placed.wrPtr, lengths]

/-- The new entry has room within the lap. -/
theorem room (placed : Placed c w s) (drives : s.Drives i) (comes : i.enq.isSome) :
    (s.order.kept i).length + (s.order.delivered.length - s.order.headDelivered.toNat) < 24 := by
  have ready := drives.ready comes
  have lengths := kept_length placed drives
  have fits := placed.fits
  split at lengths
  next => omega
  next stays =>
    have full : ¬24 ≤ s.ftq.totalCount := by
      simpa [Ftq.enqReady, Ftq.full, Ftq.cancelNextPossible, drives.runs comes, stays] using ready
    simp only [Ftq.totalCount, placed.unrequested, placed.countWaiting,
      placed.countDelivered] at full
    omega

theorem kept_ne (placed : Placed c w s) (drives : s.Drives i) (some_ : s.order.waiting ≠ []) :
    s.order.kept i ≠ [] := by
  have lengths := kept_length placed drives
  have waits := List.length_pos_of_ne_nil some_
  apply List.ne_nil_of_length_pos
  split at lengths <;> omega

/-- The slot of the new entry is no live entry's. -/
theorem enqIdx_fresh (placed : Placed c w s) (drives : s.Drives i) (comes : i.enq.isSome)
    (live : o ∈ s.order.kept i ++ s.order.delivered) : s.ftq.enqIdx i ≠ o.idx := by
  have inside := room placed drives comes
  have numbers := placed.numbers
  have head : s.order.headDelivered.toNat ≤ (s.order.kept i).length := by
    cases d : s.order.headDelivered with
    | false => exact Nat.zero_le _
    | true => exact List.length_pos_of_ne_nil (kept_ne placed drives (placed.head d))
  rw [enqIdx_eq placed drives]
  intro same
  rcases List.mem_append.mp live with keeps | waits
  · have among : o.idx ∈ (s.order.kept i).map (·.idx) := List.mem_map_of_mem keeps
    rw [kept_window placed drives, ← same] at among
    exact not_mem_window (by omega) (by omega) among
  · have among : o.idx ∈ s.order.delivered.map (·.idx) := List.mem_map_of_mem waits
    rw [placed.delivered, ← same] at among
    exact not_mem_window (by omega) (by omega) among

-- ---------------------------------------------------------------------
-- What is presented
-- ---------------------------------------------------------------------

/-- The `k`th waiting entry is read from the `k`th slot behind the pointer. -/
theorem stored_waiting (placed : Placed c w s) (inside : k < s.order.waiting.length) :
    s.ftq.stored (slotOf 24 (w + k)) = s.order.waiting[k] := by
  have slots := congrArg (·[k]?) placed.waiting
  simp only [List.getElem?_map, List.getElem?_eq_getElem inside, Option.map_some, window,
    List.getElem?_range' inside, Nat.one_mul, Option.some.injEq] at slots
  rw [← slots]
  exact placed.holds _ (List.mem_append_left _ (List.getElem_mem inside))

theorem stored_head (placed : Placed c w s) (waiting : s.order.waiting = first :: rest) :
    s.ftq.stored s.ftq.ifuWbPtr = first := by
  have law := stored_waiting (k := 0) placed (by simp [waiting])
  simpa [waiting, placed.wbPtr] using law

theorem stored_delivered (placed : Placed c w s) (delivered : s.order.delivered = first :: rest) :
    s.ftq.stored s.ftq.commitPtr = first := by
  have slots := placed.delivered
  rw [delivered] at slots
  injection slots with slot
  rw [placed.commitPtr (by simp [delivered]), ← slot]
  exact placed.holds _ (by simp [delivered])

/-- The entry allocated into an empty queue is its writeback owner at once. -/
theorem wbOwner_eq (placed : Placed c w s) (drives : s.Drives i) :
    s.ftq.wbOwner i = (s.order.waiting ++ (s.ftq.enqOwner i).toList).head? := by
  unfold Ftq.wbOwner Ftq.wbOwnerValid
  rw [reqPopFire_eq placed drives]
  cases waiting : s.order.waiting with
  | cons first rest =>
    have some_ := countWaiting_ne placed (by simp [waiting])
    simp [Ftq.wbOwnerIdx, some_, stored_head placed waiting]
  | nil =>
    have none_ : s.ftq.countIfuToWb = 0 := by simp [placed.countWaiting, waiting]
    cases comes : i.enq with
    | none => simp [none_, Ftq.enqOwner, comes]
    | some e =>
      have runs := drives.runs (by simp [comes])
      have fromEnq : s.ftq.reqPopFromEnq i = true := by
        simp [reqPopFromEnq_eq placed drives, comes]
      simp [none_, Ftq.enqOwner, Ftq.reqPopOwner, Ftq.reqPopIdx, comes, runs, fromEnq]

theorem nextOwner_eq (placed : Placed c w s) (drives : s.Drives i) :
    s.ftq.nextOwner i = s.order.waiting[1]? := by
  have replaces : (s.ftq.cancelNextFire i && !s.ftq.enqReplaceNext i) = false := by
    cases fires : s.ftq.cancelNextFire i with
    | false => rfl
    | true =>
      rw [cancelNextFire_eq placed drives] at fires
      simp [Ftq.enqReplaceNext, enqFire_eq drives, cancelNextFire_eq placed drives, fires,
        (drives.cancels placed fires).1]
  unfold Ftq.nextOwner
  rw [replaces, placed.countWaiting, placed.wbPtr, Ftq.ptrNext_slotOf]
  split
  next more => simp [stored_waiting placed more, List.getElem?_eq_getElem more]
  next few => exact (List.getElem?_eq_none (Nat.le_of_not_lt few)).symm

theorem commitOwner_eq (placed : Placed c w s) (drives : s.Drives i) :
    s.ftq.commitOwner i = (s.order.delivered ++ (s.order.deliveredNow i).toList).head? := by
  unfold Ftq.commitOwner Ftq.commitOwnerValid Ftq.commitOwnerIdx
  rw [deliveryPushFire_eq placed drives, placed.countDelivered]
  cases delivered : s.order.delivered with
  | cons first rest => simp [stored_delivered placed delivered]
  | nil =>
    unfold FtqOrder.deliveredNow
    cases comes : !i.flush && i.deliveryPush with
    | false => simp
    | true =>
      obtain ⟨some_, -⟩ := drives.delivers (by simpa using (Bool.and_eq_true _ _ ▸ comes).2)
      obtain ⟨first, rest, waiting⟩ := List.exists_cons_of_ne_nil some_
      have counted := countWaiting_ne placed some_
      simp [Ftq.wbOwnerIdx, counted, waiting, stored_head placed waiting]

theorem inOrder (placed : Placed c w s) (drives : s.Drives i) : s.InOrder i where
  writeback := wbOwner_eq placed drives
  following := nextOwner_eq placed drives
  commit := commitOwner_eq placed drives
  fresh := by
    intro new comes live keeps
    obtain ⟨e, enq, rfl⟩ := Option.map_eq_some_iff.mp comes
    have comes : i.enq.isSome := by simp [enq]
    simpa [drives.runs comes] using enqIdx_fresh placed drives comes keeps
  holds := placed.holds
  unrequested := placed.unrequested
  waiting := placed.countWaiting
  delivered := placed.countDelivered

-- ---------------------------------------------------------------------
-- A cycle
-- ---------------------------------------------------------------------

/-- The waiting entries and the new one, before the writeback. -/
theorem requested_window (placed : Placed c w s) (drives : s.Drives i) :
    (s.order.kept i ++ (s.ftq.enqOwner i).toList).map (·.idx) =
      window 24 w ((s.order.kept i).length + i.enq.isSome.toNat) := by
  rw [List.map_append, kept_window placed drives]
  cases comes : i.enq with
  | none => simp [Ftq.enqOwner, comes]
  | some e =>
    have slot := enqIdx_eq placed drives
    simp [Ftq.enqOwner, comes, drives.runs, slot, window_concat]

theorem requested_length (i : FtqIn α) :
    (s.order.kept i ++ (s.ftq.enqOwner i).toList).length =
      (s.order.kept i).length + i.enq.isSome.toNat := by
  cases comes : i.enq <;> simp [Ftq.enqOwner, comes]

theorem nextIfuWbPtr_eq (placed : Placed c w s) (drives : s.Drives i) (runs : i.flush = false) :
    s.ftq.nextIfuWbPtr i = slotOf 24 (w + i.pop.toNat) := by
  have slot := enqIdx_eq placed drives
  have lengths := kept_length placed drives
  have pops := drives.pops
  have replaces := drives.cancels placed
  unfold Ftq.nextIfuWbPtr Ftq.reqPopIdx
  rw [wbPopFire_eq placed drives runs, cancelNextFire_eq placed drives,
    reqPopFire_eq placed drives, reqPopFromEnq_eq placed drives, placed.countWaiting, runs,
    placed.wbPtr, slot]
  simp only [Ftq.ptrNext_slotOf]
  cases pop : i.pop with
  | true =>
    have some_ := List.length_pos_of_ne_nil (pops pop).1
    cases cancels : i.ifuCancelNext with
    | true =>
      obtain ⟨comes, two⟩ := replaces cancels
      rw [if_pos cancels] at lengths
      simp [comes, two, lengths.1]
    | false =>
      rw [if_neg (by simp [cancels])] at lengths
      rcases Nat.lt_or_ge 1 s.order.waiting.length with more | few
      · simp [more]
      · have one : s.order.waiting.length = 1 := by omega
        cases i.enq <;> simp [one, lengths]
  | false =>
    cases cancels : i.ifuCancelNext with
    | true => simp
    | false =>
      rw [if_neg (by simp [cancels])] at lengths
      by_cases none_ : s.order.waiting.length = 0
      · cases i.enq.isSome <;> simp [none_, lengths]
      · simp [none_]

theorem nextWrPtr_eq (placed : Placed c w s) (drives : s.Drives i) (runs : i.flush = false) :
    (s.ftq.next i).wrPtr =
      slotOf 24 (w + ((s.order.kept i).length + i.enq.isSome.toNat)) := by
  have lengths := kept_length placed drives
  have replaces := drives.cancels placed
  simp only [Ftq.next, Ftq.enqReplaceNext, runs, enqFire_eq drives, cancelNextFire_eq placed drives,
    placed.wrPtr, Ftq.ptrNext_slotOf]
  cases cancels : i.ifuCancelNext with
  | true =>
    rw [if_pos cancels] at lengths
    simp [lengths, (replaces cancels).1]
  | false =>
    rw [if_neg (by simp [cancels])] at lengths
    cases i.enq.isSome <;> simp [lengths, Nat.add_assoc]

/-- A slot of an entry that stays is not written. -/
theorem stored_next (placed : Placed c w s) (drives : s.Drives i) (runs : i.flush = false)
    (live : o ∈ s.order.kept i ++ s.order.delivered) :
    (s.ftq.next i).stored o.idx = s.ftq.stored o.idx := by
  unfold Ftq.stored Ftq.next Ftq.enqueued
  simp only [runs, enqFire_eq drives, Bool.false_eq_true, if_false]
  cases comes : i.enq with
  | none => rfl
  | some e =>
    have apart : o.idx ≠ s.ftq.enqIdx i :=
      (enqIdx_fresh placed drives (by simp [comes]) live).symm
    simp [Ftq.put, apart]

/-- The new entry is in its slot. -/
theorem stored_new (drives : s.Drives i) (comes : s.ftq.enqOwner i = some new) :
    (s.ftq.next i).stored new.idx = new := by
  obtain ⟨e, enq, rfl⟩ := Option.map_eq_some_iff.mp comes
  have runs := drives.runs (by simp [enq])
  simp [Ftq.stored, Ftq.next, Ftq.enqueued, enqFire_eq drives, runs, enq, Ftq.put]

-- ---------------------------------------------------------------------
-- The delivered entries
-- ---------------------------------------------------------------------

/-- A delivery is of the head, and the head's number is next. -/
theorem deliveredNow_eq (placed : Placed c w s) (drives : s.Drives i) (runs : i.flush = false) :
    if i.deliveryPush then ∃ first rest, s.order.waiting = first :: rest ∧
      first.idx = slotOf 24 w ∧ s.order.deliveredNow i = some first ∧
      c + s.order.delivered.length = w
    else s.order.deliveredNow i = none := by
  have slots := placed.waiting
  have numbers := placed.numbers
  split
  next delivers =>
    obtain ⟨some_, undelivered⟩ := drives.delivers delivers
    obtain ⟨first, rest, waiting⟩ := List.exists_cons_of_ne_nil some_
    rw [waiting] at slots
    injection slots with slot
    refine ⟨first, rest, waiting, slot, ?_, ?_⟩
    · simp [FtqOrder.deliveredNow, delivers, runs, waiting]
    · simpa [undelivered] using numbers
  next stays => simp [FtqOrder.deliveredNow, stays]

theorem delivering_length (placed : Placed c w s) (drives : s.Drives i) (runs : i.flush = false) :
    (s.order.delivered ++ (s.order.deliveredNow i).toList).length =
      s.order.delivered.length + i.deliveryPush.toNat := by
  have law := deliveredNow_eq placed drives runs
  cases delivers : i.deliveryPush with
  | true =>
    obtain ⟨first, rest, -, -, now, -⟩ := if_pos delivers ▸ law
    simp [now]
  | false =>
    rw [if_neg (by simp [delivers])] at law
    simp [law]

theorem delivering_window (placed : Placed c w s) (drives : s.Drives i) (runs : i.flush = false) :
    (s.order.delivered ++ (s.order.deliveredNow i).toList).map (·.idx) =
      window 24 c (s.order.delivered.length + i.deliveryPush.toNat) := by
  have law := deliveredNow_eq placed drives runs
  rw [List.map_append, placed.delivered]
  cases delivers : i.deliveryPush with
  | true =>
    obtain ⟨first, rest, -, slot, now, follows⟩ := if_pos delivers ▸ law
    simp [now, slot, window_concat, follows]
  | false =>
    rw [if_neg (by simp [delivers])] at law
    simp [law]

theorem commitPopFire_eq (placed : Placed c w s) (drives : s.Drives i) (runs : i.flush = false) :
    s.ftq.commitPopFire i =
      (i.commitPop && decide (0 < s.order.delivered.length + i.deliveryPush.toNat)) := by
  unfold Ftq.commitPopFire Ftq.commitOwnerValid
  rw [deliveryPushFire_eq placed drives, placed.countDelivered, runs]
  cases i.deliveryPush with
  | true => simp
  | false => simp [Nat.pos_iff_ne_zero]

theorem nextCommitPtr_eq (placed : Placed c w s) (drives : s.Drives i) (runs : i.flush = false)
    (left : (s.ftq.commitPopFire i).toNat <
      s.order.delivered.length + i.deliveryPush.toNat) :
    s.ftq.nextCommitPtr i = slotOf 24 (c + (s.ftq.commitPopFire i).toNat) := by
  have law := deliveredNow_eq placed drives runs
  have pointer := placed.commitPtr
  unfold Ftq.nextCommitPtr Ftq.wbOwnerIdx
  rw [deliveryPushFire_eq placed drives, placed.countDelivered, runs]
  cases delivered : s.order.delivered with
  | nil =>
    have delivers : i.deliveryPush = true := by
      by_contra stays
      simp [delivered, Bool.not_eq_true _ ▸ stays] at left
    obtain ⟨first, rest, waiting, -, -, follows⟩ := if_pos delivers ▸ law
    have pops : s.ftq.commitPopFire i = false := by
      by_contra fires
      simp [delivered, delivers, fires] at left
    have some_ := countWaiting_ne placed (by simp [waiting])
    rw [delivered] at follows
    simp [pops, delivers, some_, placed.wbPtr, ← follows]
  | cons first rest =>
    rw [pointer (by simp [delivered]), Ftq.ptrNext_slotOf]
    cases pops : s.ftq.commitPopFire i with
    | false => simp
    | true =>
      cases rest with
      | cons second rest => simp
      | nil =>
        have delivers : i.deliveryPush = true := by
          by_contra stays
          simp [delivered, pops, Bool.not_eq_true _ ▸ stays] at left
        obtain ⟨head, rest, waiting, -, -, follows⟩ := if_pos delivers ▸ law
        have some_ := countWaiting_ne placed (by simp [waiting])
        rw [delivered] at follows
        simp [delivers, some_, placed.wbPtr, ← follows]

-- ---------------------------------------------------------------------
-- Runs
-- ---------------------------------------------------------------------

theorem drop_window (start len : Nat) (b : Bool) :
    (window 24 start len).drop b.toNat = window 24 (start + b.toNat) (len - b.toNat) := by
  cases b with
  | false => rfl
  | true => simp [List.drop_one]

theorem placed_flush (drives : s.Drives i) (flush : i.flush = true) :
    Placed 0 0 (s.next i) := by
  have none_ := drives.quiet flush
  constructor <;>
    simp [FtqRun.next, FtqOrder.next, Ftq.next, Ftq.nextIfuWbPtr, Ftq.nextCountAllocToIfu,
      Ftq.nextCountIfuToWb, Ftq.nextCountWbToCommit, Ftq.enqFire, flush, none_, slotOf]

/-- Every waiting entry of the next cycle is one that is kept or the new one. -/
theorem mem_next (placed : Placed c w s) (drives : s.Drives i) (runs : i.flush = false)
    (live : o ∈ (s.next i).order.waiting ++ (s.next i).order.delivered) :
    o ∈ s.order.kept i ++ s.order.delivered ∨ s.ftq.enqOwner i = some o := by
  have law := deliveredNow_eq placed drives runs
  have lengths := kept_length placed drives
  simp only [FtqRun.next, FtqOrder.next, runs, Bool.false_eq_true, if_false] at live
  rcases List.mem_append.mp live with waits | follows
  · rcases List.mem_append.mp (List.mem_of_mem_drop waits) with keeps | comes
    · exact .inl (List.mem_append_left _ keeps)
    · exact .inr (Option.mem_toList.mp comes)
  · rcases List.mem_append.mp (List.mem_of_mem_drop follows) with was | now
    · exact .inl (List.mem_append_right _ was)
    · refine .inl (List.mem_append_left _ ?_)
      cases delivers : i.deliveryPush with
      | false =>
        rw [if_neg (by simp [delivers])] at law
        simp [law] at now
      | true =>
        obtain ⟨first, rest, waiting, -, head, -⟩ := if_pos delivers ▸ law
        have same : o = first := by simpa [head] using now
        unfold FtqOrder.kept
        split <;> simp [waiting, same]

theorem commitPopFire_le (placed : Placed c w s) (drives : s.Drives i) (runs : i.flush = false) :
    (s.ftq.commitPopFire i).toNat ≤ s.order.delivered.length + i.deliveryPush.toNat := by
  rw [commitPopFire_eq placed drives runs]
  cases i.commitPop with
  | false => exact Nat.zero_le _
  | true =>
    by_cases some_ : 0 < s.order.delivered.length + i.deliveryPush.toNat
    · rw [decide_eq_true some_]
      exact some_
    · simp [some_]

theorem delivered_next (placed : Placed c w s) (drives : s.Drives i) (runs : i.flush = false) :
    (s.next i).order.delivered =
      (s.order.delivered ++ (s.order.deliveredNow i).toList).drop
        (s.ftq.commitPopFire i).toNat := by
  have length := delivering_length placed drives runs
  simp only [FtqRun.next, FtqOrder.next, runs, commitPopFire_eq placed drives runs]
  cases i.commitPop with
  | false => rfl
  | true =>
    by_cases some_ : 0 < s.order.delivered.length + i.deliveryPush.toNat
    · simp [some_]
    · have none_ : s.order.delivered ++ (s.order.deliveredNow i).toList = [] :=
        List.length_eq_zero_iff.mp (by omega)
      simp [none_]

theorem waiting_next (runs : i.flush = false) :
    (s.next i).order.waiting =
      (s.order.kept i ++ (s.ftq.enqOwner i).toList).drop i.pop.toNat := by
  simp [FtqRun.next, FtqOrder.next, runs]

theorem pop_le_kept (placed : Placed c w s) (drives : s.Drives i) :
    i.pop.toNat ≤ (s.order.kept i).length := by
  cases pops : i.pop with
  | false => exact Nat.zero_le _
  | true => exact List.length_pos_of_ne_nil (kept_ne placed drives (drives.pops pops).1)

/-- The head is delivered before it is written back, and only once. -/
theorem headDelivered_next (drives : s.Drives i) (runs : i.flush = false) :
    (s.next i).order.headDelivered.toNat + i.pop.toNat =
      s.order.headDelivered.toNat + i.deliveryPush.toNat := by
  have delivers := drives.delivers
  have pops := drives.pops
  simp only [FtqRun.next, FtqOrder.next, runs]
  cases pop : i.pop with
  | false =>
    cases delivery : i.deliveryPush with
    | false => simp
    | true => simp [(delivers delivery).2]
  | true =>
    cases delivery : i.deliveryPush with
    | false =>
      have before : s.order.headDelivered = true := by simpa [delivery] using (pops pop).2
      simp [before]
    | true => simp [(delivers delivery).2]

theorem head_next (placed : Placed c w s) (drives : s.Drives i) (runs : i.flush = false)
    (delivers : (s.next i).order.headDelivered = true) : (s.next i).order.waiting ≠ [] := by
  simp only [FtqRun.next, FtqOrder.next, runs, Bool.false_eq_true, if_false, Bool.and_eq_true,
    Bool.not_eq_true', Bool.or_eq_true] at delivers
  obtain ⟨stays, before⟩ := delivers
  have some_ : s.order.waiting ≠ [] := by
    rcases before with was | now
    · exact placed.head was
    · exact (drives.delivers now).1
  rw [waiting_next runs, stays]
  simp [kept_ne placed drives some_]

theorem mem_waiting_of_kept (keeps : o ∈ s.order.kept i) : o ∈ s.order.waiting := by
  unfold FtqOrder.kept at keeps
  split at keeps
  next => exact List.mem_of_mem_eraseIdx keeps
  next => exact keeps

theorem placed_cycle (placed : Placed c w s) (drives : s.Drives i) (runs : i.flush = false) :
    Placed (c + (s.ftq.commitPopFire i).toNat) (w + i.pop.toNat) (s.next i) := by
  have waiting : (s.next i).order.waiting.length =
      (s.order.kept i).length + i.enq.isSome.toNat - i.pop.toNat := by
    rw [waiting_next runs, List.length_drop, requested_length]
  have delivered : (s.next i).order.delivered.length =
      s.order.delivered.length + i.deliveryPush.toNat - (s.ftq.commitPopFire i).toNat := by
    rw [delivered_next placed drives runs, List.length_drop, delivering_length placed drives runs]
  have few := commitPopFire_le placed drives runs
  have head := headDelivered_next drives runs
  have numbers := placed.numbers
  have kept := pop_le_kept placed drives
  have lengths := kept_length placed drives
  constructor
  case numbers => omega
  case waiting =>
    rw [waiting, waiting_next runs, List.map_drop, requested_window placed drives, drop_window]
  case delivered =>
    rw [delivered, delivered_next placed drives runs, List.map_drop,
      delivering_window placed drives runs, drop_window]
  case wbPtr => exact nextIfuWbPtr_eq placed drives runs
  case wrPtr =>
    rw [waiting]
    refine (nextWrPtr_eq placed drives runs).trans (congrArg _ ?_)
    omega
  case commitPtr =>
    intro some_
    have left := List.length_pos_of_ne_nil some_
    exact nextCommitPtr_eq placed drives runs (by omega)
  case head => exact head_next placed drives runs
  case fits =>
    have room_ : (s.order.kept i).length + i.enq.isSome.toNat +
        (s.order.delivered.length - s.order.headDelivered.toNat) ≤ 24 := by
      have fits := placed.fits
      cases comes : i.enq.isSome with
      | true =>
        have inside := room placed drives comes
        simp only [Bool.toNat_true]
        omega
      | false => split at lengths <;> simp only [Bool.toNat_false] <;> omega
    omega
  case unrequested =>
    simp [FtqRun.next, Ftq.next, Ftq.nextCountAllocToIfu, runs, placed.unrequested,
      enqFire_eq drives, reqPopFire_eq placed drives]
  case countWaiting =>
    rw [waiting]
    simp only [FtqRun.next, Ftq.next, Ftq.nextCountIfuToWb, runs, placed.countWaiting,
      wbPopFire_eq placed drives runs, reqPopFire_eq placed drives,
      cancelNextFire_eq placed drives]
    split at lengths
    next cancels => simp [cancels, lengths]; omega
    next stays => simp [stays, lengths]
  case countDelivered =>
    rw [delivered]
    simp [FtqRun.next, Ftq.next, Ftq.nextCountWbToCommit, runs, placed.countDelivered,
      deliveryPushFire_eq placed drives]
  case holds =>
    intro o live
    rcases mem_next placed drives runs live with stays | comes
    · refine (stored_next placed drives runs stays).trans (placed.holds o ?_)
      rcases List.mem_append.mp stays with keeps | was
      · exact List.mem_append_left _ (mem_waiting_of_kept keeps)
      · exact List.mem_append_right _ was
    · exact stored_new drives comes

/-- In every run the presented owners are the oldest of their states, with the index, epoch and tag
they were allocated with; a new entry takes no live slot, and the counts count. -/
theorem ftq_in_order [Inhabited α] (reach : (ftqRuns (α := α)).Reachable s)
    (drives : (ftqRuns (α := α)).legal s i) : s.InOrder i := by
  have placed : ∃ c w, Placed c w s := by
    refine reach.invariant (fun s => ∃ c w, Placed c w s) ⟨0, 0, placed_reset⟩ ?_
    rintro s i - ⟨c, w, placed⟩ drives -
    cases runs : i.flush with
    | true => exact ⟨0, 0, placed_flush drives runs⟩
    | false => exact ⟨_, _, placed_cycle placed drives runs⟩
  obtain ⟨c, w, placed⟩ := placed
  exact inOrder placed drives

/-- Nothing but the allocation of `e`, and its request. -/
def allocate (e : Nat) : FtqIn Nat := ⟨false, some e, true, false, false, false, false⟩

/-- The runahead entry 11 is replaced by 12 while 10 is delivered, written back and committed. -/
def replaced : List (FtqIn Nat) :=
  [allocate 10, allocate 11,
    { allocate 12 with ifuCancelNext := true, deliveryPush := true, pop := true, commitPop := true }]

theorem ftq_in_order_replaced :
    (ftqRuns.run ftqRuns.reset replaced).InOrder { allocate 13 with deliveryPush := true } := by
  have legal : ftqRuns.Legal ftqRuns.reset replaced := by
    refine ⟨?_, ?_, ?_, trivial⟩ <;> decide +kernel
  have reach : ftqRuns.Reachable (ftqRuns.run ftqRuns.reset replaced) :=
    Machine.Reachable.run .reset legal
  exact ftq_in_order reach (by decide +kernel)

end FtqRun

end Rv64gc.Frontend
