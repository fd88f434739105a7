import Rv64gc.Backend.ProgramWindow
import Rv64gc.Lsu.StoreQueue
import Mathlib.Data.List.FinRange
import Mathlib.Data.List.Perm.Basic

/-!
# The issue queues

`issue_queue.sv`: a table whose entries leave when a port selects them, the oldest ready ones first,
and whose free slots take what dispatch sends. A partial flush invalidates the younger entries and
counts the valid ones anew.
-/

namespace Rv64gc.Backend

open Hdl Lsu

structure IqIn (d : Nat) (α : Type) where
  /-- The entries whose operands are there. -/
  eligible : Fin d → Bool
  /-- Those that port 1 can take; none where the queue has one port. -/
  eligiblePort1 : Fin d → Bool
  suppress0 : Bool
  suppress1 : Bool
  /-- What comes from dispatch and does not issue at once. -/
  enq : List (Waiting α)
  robHead : RobIdx
  flush : Option FlushIn

structure IssueQueue (d : Nat) (α : Type) where
  slot : Fin d → Option (Waiting α)
  count : Nat

namespace IssueQueue

variable {d : Nat} {α : Type} (s : IssueQueue d α) (x : IqIn d α)

def reset : IssueQueue d α := ⟨fun _ => none, 0⟩

-- ---------------------------------------------------------------------
-- Selection
-- ---------------------------------------------------------------------

def entryAge (e : Fin d) : BitVec 8 :=
  robAgeFromHead x.robHead (((s.slot e).map Waiting.robIdx).getD 0)

/-- One entry of the scan for the oldest of those in question. -/
def older (p : Fin d → Bool) (best : Option (Fin d)) (e : Fin d) : Option (Fin d) :=
  if p e then
    match best with
    | some b => if s.entryAge x e < s.entryAge x b then some e else some b
    | none => some e
  else best

def oldest (p : Fin d → Bool) : Option (Fin d) := (List.finRange d).foldl (s.older x p) none

def select0 : Option (Fin d) := s.oldest x fun e => (s.slot e).isSome && x.eligible e

def select1 : Option (Fin d) :=
  s.oldest x fun e => (s.slot e).isSome && x.eligible e && x.eligiblePort1 e &&
    s.select0 x != some e

def issued0 (e : Fin d) : Bool := s.select0 x == some e && !x.suppress0

def issued1 (e : Fin d) : Bool := s.select1 x == some e && !x.suppress1

/-- The entry leaves. -/
def issued (e : Fin d) : Bool := s.issued0 x e || s.issued1 x e

def issuedCount : Nat :=
  (if (s.select0 x).isSome && !x.suppress0 then 1 else 0) +
    if (s.select1 x).isSome && !x.suppress1 then 1 else 0

-- ---------------------------------------------------------------------
-- A cycle
-- ---------------------------------------------------------------------

/-- The slots the new entries can take, with those of the entries that leave. -/
def freeSlots : List (Fin d) := (List.finRange d).filter fun e => !(s.slot e).isSome || s.issued x e

/-- The new entry that a slot takes. -/
def lane (e : Fin d) : Option (Waiting α) :=
  if e ∈ s.freeSlots x then x.enq[(s.freeSlots x).idxOf e]? else none

def laneCount : Nat := min (s.freeSlots x).length x.enq.length

def flushRemove (f : FlushIn) (e : Fin d) : Bool :=
  (s.slot e).any fun w => !olderThanTail x.robHead f.robTail w.robIdx

def stays (e : Fin d) : Bool := (s.slot e).isSome && !s.issued x e

def updated (e : Fin d) : Option (Waiting α) :=
  match s.lane x e with
  | some w => some w
  | none => if s.issued x e then none else s.slot e

def normal : IssueQueue d α where
  slot := s.updated x
  count := s.count - s.issuedCount x + s.laneCount x

/-- `flush_valid_count` -/
def partialFlush (f : FlushIn) : IssueQueue d α where
  slot e := if s.flushRemove x f e then none else s.updated x e
  count := (List.finRange d).countP (fun e => s.stays x e && !s.flushRemove x f e) + s.laneCount x

def next : IssueQueue d α :=
  match x.flush with
  | some f => if f.full then reset else s.partialFlush x f
  | none => s.normal x

-- ---------------------------------------------------------------------
-- Runs
-- ---------------------------------------------------------------------

/-- How many entries are valid. -/
def occupancy : Nat := (List.finRange d).countP fun e => (s.slot e).isSome

structure Sound (s : IssueQueue d α) (w : Program α) : Prop where
  count : s.count = s.occupancy
  has : ∀ e a, s.slot e = some a → w.Has a

/-- What the core around the queue keeps to. -/
structure Keeps (s : IssueQueue d α) (w : Program α) (x : IqIn d α) (retires : Nat)
    (comes : Waiting α → Prop) : Prop where
  robHead : x.robHead = w.head
  enq : ∀ a, a ∈ x.enq → comes a
  /-- What has not been executed does not retire. -/
  waits : ∀ e a, s.slot e = some a → retires ≤ offset w.head a.robIdx

/-- What a partial flush that cuts the program at a place is for. -/
structure CutRight (s : IssueQueue d α) (w : Program α) (x : IqIn d α) (n cut : Nat) : Prop where
  /-- The older entries stay, but for those that issue. -/
  kept : ∀ e a, (s.next x).slot e = some a ↔
    s.slot e = some a ∧ s.issued x e = false ∧ offset w.head a.robIdx < cut
  /-- The count is that of the valid entries. -/
  sound : (s.next x).Sound (w.next n [] (some (.upTo cut)))

-- ---------------------------------------------------------------------
-- Counting
-- ---------------------------------------------------------------------

theorem countP_or {l : List β} {p q : β → Bool} (apart : ∀ b, p b = true → q b = false) :
    l.countP (fun b => p b || q b) = l.countP p + l.countP q := by
  induction l with
  | nil => rfl
  | cons b l ih =>
    simp only [List.countP_cons, ih]
    cases here : p b with
    | false =>
      simp only [Bool.false_or, Bool.false_eq_true, if_false]
      omega
    | true =>
      simp only [Bool.true_or, apart b here, if_true, Bool.false_eq_true, if_false]
      omega

theorem countP_mem_take [DecidableEq β] {l sub : List β} (whole : ∀ b, b ∈ l) (once : l.Nodup)
    (once' : sub.Nodup) : l.countP (fun b => decide (b ∈ sub)) = sub.length := by
  rw [List.countP_eq_length_filter]
  refine List.Perm.length_eq ((List.perm_ext_iff_of_nodup (once.filter _) once').mpr fun b => ?_)
  simp [whole b]

theorem countP_some (o : Option (Fin d)) (c : Bool) :
    (List.finRange d).countP (fun e => o == some e && c) = if o.isSome && c then 1 else 0 := by
  cases o with
  | none => simp
  | some a =>
    cases c with
    | false => simp
    | true =>
      have one := List.count_eq_one_of_mem (List.nodup_finRange d) (List.mem_finRange a)
      rw [List.count] at one
      simp only [Option.isSome_some, Bool.and_true, if_true]
      rw [← one]
      apply List.countP_congr
      intro e _
      rw [beq_iff_eq, beq_iff_eq, Option.some.injEq, eq_comm]

variable {s : IssueQueue d α} {w : Program α} {x : IqIn d α} {n cut : Nat}
  {alloc : List (Renamed α)} {f : FlushIn} {comes : Waiting α → Prop}

theorem older_some {p : Fin d → Bool} {best : Option (Fin d)} {a e : Fin d}
    (good : ∀ b, best = some b → p b = true) (picked : s.older x p best a = some e) :
    p e = true := by
  unfold older at picked
  split at picked
  next passes =>
    split at picked
    next b =>
      split at picked <;> cases picked
      · exact passes
      · exact good _ rfl
    next =>
      cases picked
      exact passes
  next => exact good e picked

theorem foldl_older_some {p : Fin d → Bool} {e : Fin d} (l : List (Fin d))
    (best : Option (Fin d)) (good : ∀ b, best = some b → p b = true)
    (found : l.foldl (s.older x p) best = some e) : p e = true := by
  induction l generalizing best with
  | nil => exact good e found
  | cons a l ih => exact ih _ (fun b picked => older_some good picked) found

theorem oldest_some {p : Fin d → Bool} {e : Fin d} (found : s.oldest x p = some e) : p e = true :=
  foldl_older_some _ none (fun b none_ => by cases none_) found

/-- What leaves is valid, and no entry leaves twice. -/
theorem issued0_valid (leaves : s.issued0 x e = true) : (s.slot e).isSome = true := by
  simp only [issued0, Bool.and_eq_true, beq_iff_eq] at leaves
  have picked := oldest_some leaves.1
  simp only [Bool.and_eq_true] at picked
  exact picked.1

theorem issued1_valid (leaves : s.issued1 x e = true) :
    (s.slot e).isSome = true ∧ s.issued0 x e = false := by
  simp only [issued1, Bool.and_eq_true, beq_iff_eq] at leaves
  have picked := oldest_some leaves.1
  simp only [Bool.and_eq_true, bne_iff_ne] at picked
  obtain ⟨⟨⟨here, -⟩, -⟩, other⟩ := picked
  exact ⟨here, by simp [issued0, other]⟩

theorem issued_valid (leaves : s.issued x e = true) : (s.slot e).isSome = true := by
  rcases Bool.or_eq_true _ _ ▸ leaves with leaves | leaves
  · exact issued0_valid leaves
  · exact (issued1_valid leaves).1

theorem countP_issued : (List.finRange d).countP (s.issued x) = s.issuedCount x := by
  have apart : ∀ e, s.issued0 x e = true → s.issued1 x e = false := by
    intro e first
    by_contra second
    have other := (issued1_valid (by simpa using second)).2
    rw [first] at other
    cases other
  have sum := countP_or (l := List.finRange d) apart
  unfold issued issuedCount
  rw [sum]
  unfold issued0 issued1
  rw [countP_some, countP_some]

theorem occupancy_eq : s.occupancy =
    (List.finRange d).countP (s.stays x) + (List.finRange d).countP (s.issued x) := by
  have apart : ∀ e, s.stays x e = true → s.issued x e = false := by
    intro e here
    simp only [stays, Bool.and_eq_true, Bool.not_eq_true'] at here
    exact here.2
  rw [← countP_or apart, occupancy]
  apply List.countP_congr
  intro e _
  cases leaves : s.issued x e with
  | false => simp [stays, leaves]
  | true => simp [stays, leaves, issued_valid leaves]

theorem lane_isSome (e : Fin d) :
    (s.lane x e).isSome = decide (e ∈ (s.freeSlots x).take x.enq.length) := by
  unfold lane
  split
  next free =>
    rw [Bool.eq_iff_iff, decide_eq_true_eq, List.mem_take_iff_idxOf_lt free]
    simp
  next busy =>
    have away : e ∉ (s.freeSlots x).take x.enq.length := fun on => busy (List.mem_of_mem_take on)
    simp [away]

theorem lane_stays (taken : (s.lane x e).isSome = true) : s.stays x e = false := by
  rw [lane_isSome, decide_eq_true_eq] at taken
  have free := (List.mem_filter.mp (List.mem_of_mem_take taken)).2
  revert free
  unfold stays
  cases (s.slot e).isSome <;> cases s.issued x e <;> simp

theorem countP_lane : (List.finRange d).countP (fun e => (s.lane x e).isSome) = s.laneCount x := by
  have once : (s.freeSlots x).Nodup := (List.nodup_finRange d).filter _
  have count := countP_mem_take (List.mem_finRange (n := d)) (List.nodup_finRange d)
    (once.sublist (List.take_sublist x.enq.length _))
  simp only [lane_isSome, laneCount, count, List.length_take]
  exact Nat.min_comm _ _

theorem updated_isSome (e : Fin d) :
    (s.updated x e).isSome = ((s.lane x e).isSome || s.stays x e) := by
  unfold updated stays
  cases s.lane x e with
  | some a => rfl
  | none => cases s.issued x e <;> simp

theorem updated_cases (here : s.updated x e = some a) :
    a ∈ x.enq ∨ s.slot e = some a ∧ s.issued x e = false := by
  unfold updated at here
  split at here
  next b taken =>
    cases here
    unfold lane at taken
    split at taken
    · exact .inl (List.mem_of_getElem? taken)
    · cases taken
  next =>
    split at here
    · cases here
    next quiet => exact .inr ⟨here, by simpa using quiet⟩

theorem normal_count (count : s.count = s.occupancy) :
    (s.normal x).count = (s.normal x).occupancy := by
  have apart : ∀ e, (s.lane x e).isSome = true → s.stays x e = false := fun e => lane_stays
  have after : (s.normal x).occupancy =
      s.laneCount x + (List.finRange d).countP (s.stays x) := by
    rw [← countP_lane, ← countP_or apart, occupancy]
    apply List.countP_congr
    intro e _
    exact Bool.eq_iff_iff.mp (updated_isSome e)
  have before := occupancy_eq (s := s) (x := x)
  have leaves := countP_issued (s := s) (x := x)
  show s.count - s.issuedCount x + s.laneCount x = _
  rw [after, count]
  omega

theorem normal_sound (sound : s.Sound w) (keeps : s.Keeps w x n comes)
    (program : w.Keeps n alloc none) (new : ∀ a, comes a → w.Has a ∧ n ≤ offset w.head a.robIdx) :
    (s.normal x).Sound (w.next n alloc none) where
  count := normal_count sound.count
  has e a here := by
    rcases updated_cases here with comes | ⟨old, -⟩
    · obtain ⟨has, waits⟩ := new a (keeps.enq a comes)
      exact has.next program waits
    · exact (sound.has e a old).next program (keeps.waits e a old)

/-- With nothing enqueued the older entries stay. -/
theorem partial_slot (head : x.robHead = w.head) (below : cut < robDepth)
    (tail : f.robTail = w.flushRobTail cut) (none_ : x.enq = []) (e : Fin d) (a : Waiting α) :
    (s.partialFlush x f).slot e = some a ↔
      s.slot e = some a ∧ s.issued x e = false ∧ offset w.head a.robIdx < cut := by
  have quiet : s.lane x e = none := by simp [lane, none_]
  have older := olderThanTail_iff w a.robIdx below
  show (if s.flushRemove x f e then none else s.updated x e) = some a ↔ _
  unfold flushRemove updated
  rw [quiet, head, tail]
  cases here : s.slot e with
  | none => simp
  | some b =>
    cases leaves : s.issued x e with
    | true => simp
    | false =>
      simp only [Option.any_some, Bool.false_eq_true, if_false, Option.some.injEq, true_and]
      constructor
      · intro stays
        split at stays
        · cases stays
        next kept =>
          cases stays
          exact ⟨rfl, older.mp (by simpa using kept)⟩
      · rintro ⟨rfl, before⟩
        simp [older.mpr before]

/-- The recount of a partial flush. -/
theorem partial_count (none_ : x.enq = []) :
    (s.partialFlush x f).count = (s.partialFlush x f).occupancy := by
  have lanes : s.laneCount x = 0 := by simp [laneCount, none_]
  have quiet (e : Fin d) : s.lane x e = none := by simp [lane, none_]
  show _ + s.laneCount x = _
  rw [lanes, Nat.add_zero, occupancy]
  apply List.countP_congr
  intro e _
  show _ ↔ (if s.flushRemove x f e then none else s.updated x e).isSome = true
  cases s.flushRemove x f e with
  | true => simp
  | false => simp [updated_isSome, quiet]

theorem cutRight (sound : s.Sound w) (keeps : s.Keeps w x n comes)
    (program : w.Keeps n alloc (some (.upTo cut))) (below : cut < robDepth)
    (flush : x.flush = some f) (part : f.full = false) (tail : f.robTail = w.flushRobTail cut)
    (none_ : x.enq = []) : s.CutRight w x n cut := by
  have next : s.next x = s.partialFlush x f := by simp [IssueQueue.next, flush, part]
  have slot := partial_slot (s := s) keeps.robHead below tail none_
  rw [← next] at slot
  refine ⟨slot, ?_, fun e a here => ?_⟩
  · rw [next]
    exact partial_count none_
  · obtain ⟨old, -, before⟩ := (slot e a).mp here
    have after := (sound.has e a old).cut program (keeps.waits e a old) before
    exact after

theorem reset_sound (w : Program α) : (reset : IssueQueue d α).Sound w where
  count := by simp [reset, occupancy]
  has _ _ here := by cases here

end IssueQueue

end Rv64gc.Backend
