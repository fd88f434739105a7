import Rv64gc.Backend.IssueQueue
import Rv64gc.Hdl.Held
import Rv64gc.Hdl.Machine
import Rv64gc.Hdl.Select

/-!
# What an issue queue issues

An issue queue has one or two ports. Each selects the oldest entry it can; a port that selects none
may take an instruction that comes from dispatch and whose operands are there. The port can be
suppressed, and then what it selected stays. Which operands are there is an input here.
-/

namespace Rv64gc.Backend

open Hdl Lsu

/-- The parameters of an issue queue. -/
structure IqShape (α : Type) where
  /-- `NUM_SELECT` is 2. -/
  twoPorts : Bool
  /-- `SUPPORT_ENQ_ISSUE_BYPASS` and its enable. -/
  bypass : Bool
  /-- `PORT0_ONLY_FU` -/
  port0Only : Waiting α → Bool

structure IqCycle (d : Nat) (α : Type) where
  /-- The slots whose three operands are there. -/
  ready : Fin d → Bool
  enq : List (Waiting α)
  /-- The operands of the lane are there, and its kind may issue at once. -/
  candidate : Nat → Bool
  suppress0 : Bool
  suppress1 : Bool
  robHead : RobIdx
  flush : Option FlushIn

namespace IssueQueue

variable {d : Nat} {α : Type} (s : IssueQueue d α) (p : IqShape α) (c : IqCycle d α)

/-- What the selection sees. -/
def portsIn : IqIn d α where
  eligible := c.ready
  eligiblePort1 e := p.twoPorts && (s.slot e).all fun w => !p.port0Only w
  suppress0 := c.suppress0
  suppress1 := c.suppress1
  enq := c.enq
  robHead := c.robHead
  flush := c.flush

def selected0 : Option (Fin d) := s.select0 (s.portsIn p c)

def selected1 : Option (Fin d) := s.select1 (s.portsIn p c)

/-- `issue_enq_lane` of an idle port. -/
def bypass0 : Option (Fin c.enq.length) :=
  if p.bypass && c.flush.isNone && (s.selected0 p c).isNone && !c.suppress0 then
    firstOf fun q => c.candidate q
  else none

def bypass1 : Option (Fin c.enq.length) :=
  if p.twoPorts && p.bypass && c.flush.isNone && (s.selected1 p c).isNone && !c.suppress1 then
    firstOf fun q => s.bypass0 p c != some q && c.candidate q && !p.port0Only (c.enq.get q)
  else none

def bypassed (q : Fin c.enq.length) : Bool := s.bypass0 p c == some q || s.bypass1 p c == some q

def iqIn : IqIn d α where
  eligible := c.ready
  eligiblePort1 e := p.twoPorts && (s.slot e).all fun w => !p.port0Only w
  suppress0 := c.suppress0
  suppress1 := c.suppress1
  enq := ((List.finRange c.enq.length).filter fun q => !s.bypassed p c q).map c.enq.get
  robHead := c.robHead
  flush := c.flush

/-- What a port issues, of its entry and its lane. -/
def issueOf (suppress : Bool) (entry : Option (Fin d)) (lane : Option (Fin c.enq.length)) :
    Option (Waiting α) :=
  if suppress then none
  else
    match entry with
    | some e => s.slot e
    | none => lane.map c.enq.get

def issue0 : Option (Waiting α) :=
  s.issueOf c c.suppress0 (s.selected0 p c) (s.bypass0 p c)

def issue1 : Option (Waiting α) :=
  s.issueOf c c.suppress1 (s.selected1 p c) (s.bypass1 p c)

/-- The flush squashes the instruction. -/
def squashes (f : FlushIn) (w : Waiting α) : Bool :=
  f.full || decide (offset c.robHead f.robTail ≤ offset c.robHead w.robIdx)

/-- What a flush takes of what does not issue. -/
def squashed : Multiset (Waiting α) :=
  match c.flush with
  | some f =>
    held fun e =>
      if s.stays (s.iqIn p c) e then (s.slot e).filter (squashes c f) else none
  | none => 0

-- ---------------------------------------------------------------------
-- The order
-- ---------------------------------------------------------------------

/-- The entry is valid and its operands are there. -/
def Eligible (e : Fin d) : Prop := (s.slot e).isSome = true ∧ c.ready e = true

/-- What port 1 selects from. -/
def Eligible1 (e : Fin d) : Prop :=
  s.Eligible c e ∧ p.twoPorts = true ∧ (∀ w, s.slot e = some w → p.port0Only w = false) ∧
    s.selected0 p c ≠ some e

/-- How far behind the oldest instruction the entry is. -/
def place (e : Fin d) : Nat := offset c.robHead (((s.slot e).map Waiting.robIdx).getD 0)

/-- The port selects the oldest of those it can take. -/
def Oldest (among : Fin d → Prop) (picked : Option (Fin d)) : Prop :=
  match picked with
  | some e => among e ∧ ∀ e', among e' → s.place c e ≤ s.place c e'
  | none => ∀ e, ¬among e

/-- Each port selects the oldest entry, and what it selects issues unless the port is suppressed. Only
an idle port takes an instruction that comes. -/
structure IssuesInOrder (s : IssueQueue d α) (p : IqShape α) (c : IqCycle d α) : Prop where
  port0 : s.Oldest c (s.Eligible c) (s.selected0 p c)
  port1 : s.Oldest c (s.Eligible1 p c) (s.selected1 p c)
  issue0 : ∀ e, s.selected0 p c = some e →
    s.issue0 p c = if c.suppress0 then none else s.slot e
  issue1 : ∀ e, s.selected1 p c = some e →
    s.issue1 p c = if c.suppress1 then none else s.slot e
  lane0 : s.selected0 p c = none → ∀ w, s.issue0 p c = some w → w ∈ c.enq
  lane1 : s.selected1 p c = none → ∀ w, s.issue1 p c = some w → w ∈ c.enq
  /-- What is eligible and does not issue stays, but for a flush. -/
  stays : c.flush = none → ∀ e w, s.slot e = some w → s.issued (s.iqIn p c) e = false →
    (s.next (s.iqIn p c)).slot e = some w

end IssueQueue

/-- The queue, with all it has taken in and given out. -/
structure IqLedger (d : Nat) (α : Type) where
  queue : IssueQueue d α
  accepted : Multiset (Waiting α)
  issued : Multiset (Waiting α)
  squashed : Multiset (Waiting α)

namespace IqLedger

variable {d : Nat} {α : Type}

def reset : IqLedger d α := ⟨.reset, 0, 0, 0⟩

def next (p : IqShape α) (s : IqLedger d α) (c : IqCycle d α) : IqLedger d α where
  queue := s.queue.next (s.queue.iqIn p c)
  accepted := s.accepted + c.enq
  issued := s.issued + (s.queue.issue0 p c).toList + (s.queue.issue1 p c).toList
  squashed := s.squashed + s.queue.squashed p c

/-- Dispatch sends what there is room for, and nothing in a flush. -/
structure Keeps (s : IqLedger d α) (c : IqCycle d α) : Prop where
  room : s.queue.count + c.enq.length ≤ d
  quiet : c.flush.isSome = true → c.enq = []

/-- Every instruction taken in has issued, was squashed or waits, and is counted in the last case. -/
structure Accounted (s : IqLedger d α) : Prop where
  count : s.queue.count = s.queue.occupancy
  once : s.accepted = s.issued + s.squashed + held s.queue.slot

end IqLedger

def iqRuns (d : Nat) (α : Type) (p : IqShape α) : Machine (IqLedger d α) (IqCycle d α) where
  reset := .reset
  next s c := s.next p c
  legal s c := s.Keeps c

namespace IssueQueue

variable {d : Nat} {α : Type} {s : IssueQueue d α} {p : IqShape α} {c : IqCycle d α}
  {x : IqIn d α}

-- ---------------------------------------------------------------------
-- Selection
-- ---------------------------------------------------------------------

theorem entryAge_le {a b : Fin d} : ¬s.entryAge x b < s.entryAge x a ↔
    offset x.robHead (((s.slot a).map Waiting.robIdx).getD 0) ≤
      offset x.robHead (((s.slot b).map Waiting.robIdx).getD 0) := by
  simp only [entryAge, BitVec.lt_def, robAgeFromHead_toNat, Nat.not_lt]

/-- The scan keeps the older of two. -/
theorem older_le {q : Fin d → Bool} {best : Option (Fin d)} {a : Fin d} :
    (q a = true → ∃ e, s.older x q best a = some e ∧ ¬s.entryAge x a < s.entryAge x e) ∧
    ∀ b, best = some b → ∃ e, s.older x q best a = some e ∧ ¬s.entryAge x b < s.entryAge x e := by
  have self (e : Fin d) : ¬s.entryAge x e < s.entryAge x e := BitVec.lt_irrefl _
  unfold older
  constructor
  · intro passes
    rw [if_pos passes]
    cases best with
    | none => exact ⟨a, rfl, self a⟩
    | some b =>
      by_cases younger : s.entryAge x a < s.entryAge x b
      · exact ⟨a, if_pos younger, self a⟩
      · exact ⟨b, if_neg younger, younger⟩
  · rintro b rfl
    by_cases passes : q a = true
    · rw [if_pos passes]
      by_cases younger : s.entryAge x a < s.entryAge x b
      · exact ⟨a, if_pos younger, BitVec.lt_asymm younger⟩
      · exact ⟨b, if_neg younger, self b⟩
    · rw [if_neg passes]
      exact ⟨b, rfl, self b⟩

theorem entryAge_trans {a b e : Fin d} (first : ¬s.entryAge x b < s.entryAge x a)
    (second : ¬s.entryAge x e < s.entryAge x b) : ¬s.entryAge x e < s.entryAge x a := by
  simp only [BitVec.lt_def, Nat.not_lt] at *
  omega

theorem foldl_older_le {q : Fin d → Bool} (l : List (Fin d)) (best : Option (Fin d)) :
    (∀ a, a ∈ l → q a = true → ∃ e, l.foldl (s.older x q) best = some e ∧
      ¬s.entryAge x a < s.entryAge x e) ∧
    ∀ b, best = some b → ∃ e, l.foldl (s.older x q) best = some e ∧
      ¬s.entryAge x b < s.entryAge x e := by
  induction l generalizing best with
  | nil =>
    constructor
    · intro a on
      cases on
    · rintro b rfl
      exact ⟨b, rfl, BitVec.lt_irrefl _⟩
  | cons a l ih =>
    obtain ⟨later, kept⟩ := ih (s.older x q best a)
    constructor
    · intro b on passes
      rcases List.mem_cons.mp on with rfl | on
      · obtain ⟨e, picked, le⟩ := older_le.1 passes
        obtain ⟨e', picked', le'⟩ := kept e picked
        exact ⟨e', picked', entryAge_trans le' le⟩
      · exact later b on passes
    · intro b here
      obtain ⟨e, picked, le⟩ := older_le.2 b here
      obtain ⟨e', picked', le'⟩ := kept e picked
      exact ⟨e', picked', entryAge_trans le' le⟩

/-- The scan ends with the oldest. -/
theorem oldest_le {q : Fin d → Bool} {a : Fin d} (passes : q a = true) :
    ∃ e, s.oldest x q = some e ∧ ¬s.entryAge x a < s.entryAge x e :=
  (foldl_older_le _ none).1 a (List.mem_finRange a) passes

theorem oldest_right {q : Fin d → Bool} {among : Fin d → Prop} (head : x.robHead = c.robHead)
    (reads : ∀ e, q e = true ↔ among e) : s.Oldest c among (s.oldest x q) := by
  unfold Oldest
  cases found : s.oldest x q with
  | none =>
    intro e on
    obtain ⟨e', picked, -⟩ := oldest_le (s := s) (x := x) ((reads e).mpr on)
    rw [found] at picked
    cases picked
  | some e =>
    refine ⟨(reads e).mp (oldest_some found), fun e' on => ?_⟩
    obtain ⟨e'', picked, le⟩ := oldest_le (s := s) (x := x) ((reads e').mpr on)
    rw [found] at picked
    cases picked
    rw [entryAge_le, head] at le
    exact le

theorem selected0_oldest : s.Oldest c (s.Eligible c) (s.selected0 p c) := by
  refine oldest_right rfl fun e => ?_
  simp [Eligible, portsIn]

theorem selected1_oldest : s.Oldest c (s.Eligible1 p c) (s.selected1 p c) := by
  refine oldest_right rfl fun e => ?_
  simp [Eligible1, Eligible, portsIn, selected0, Option.all_eq_true, and_assoc]

-- ---------------------------------------------------------------------
-- What issues
-- ---------------------------------------------------------------------

theorem lane_quiet {n : Nat} {cond : Bool} {o : Option β} {q : Fin n → Bool}
    (busy : o.isSome = true) (only : cond = true → o.isNone = true) :
    (if cond then firstOf q else none) = none := by
  cases here : cond with
  | false => rfl
  | true =>
    have idle := only here
    cases o <;> simp at busy idle

theorem bypass0_none (busy : (s.selected0 p c).isSome = true) : s.bypass0 p c = none :=
  lane_quiet busy fun all => by
    simp only [Bool.and_eq_true] at all
    exact all.1.2

theorem bypass1_none (busy : (s.selected1 p c).isSome = true) : s.bypass1 p c = none :=
  lane_quiet busy fun all => by
    simp only [Bool.and_eq_true] at all
    exact all.1.2

theorem bypass_apart (q : Fin c.enq.length) (first : s.bypass0 p c = some q) :
    s.bypass1 p c ≠ some q := by
  intro second
  unfold bypass1 at second
  split at second
  · have picked := firstOf_some second
    simp [first] at picked
  · cases second

/-- A port gives out its entry, or its lane. -/
theorem issueOf_toList {suppress : Bool} {entry : Option (Fin d)}
    {lane : Option (Fin c.enq.length)} (busy : entry.isSome = true → lane = none)
    (held_ : suppress = true → lane = none) :
    ((s.issueOf c suppress entry lane).toList : Multiset (Waiting α)) =
      held (fun e => if entry == some e && !suppress then s.slot e else none) +
        held fun q => if lane == some q then some (c.enq.get q) else none := by
  have ofLane := held_pick (fun q => some (c.enq.get q)) lane
  have ofEntry := held_pick s.slot entry
  unfold issueOf
  cases suppress with
  | true =>
    rw [held_ rfl]
    simp [held_none]
  | false =>
    simp only [Bool.not_false, Bool.and_true]
    rw [ofLane, ofEntry]
    cases entry with
    | none => cases lane <;> simp
    | some e =>
      rw [busy rfl]
      simp

/-- The lanes are those that go to a slot and those that issue at once. -/
theorem enq_split : ((s.iqIn p c).enq : Multiset (Waiting α)) +
    (held (fun q => if s.bypass0 p c == some q then some (c.enq.get q) else none) +
      held fun q => if s.bypass1 p c == some q then some (c.enq.get q) else none) = c.enq := by
  show (((List.finRange c.enq.length).filter fun q => !s.bypassed p c q).map c.enq.get :
    Multiset (Waiting α)) + _ = _
  rw [← held_get c.enq, ← held_filter, held_split (fun q => some (c.enq.get q)) (s.bypassed p c),
    add_comm]
  congr 1
  · rw [← add_zero (held fun q => if s.bypassed p c q then _ else _), ← held_none (d := c.enq.length)]
    apply held_add
    intro q
    have apart := bypass_apart (s := s) (p := p) (c := c) q
    unfold bypassed
    cases first : s.bypass0 p c == some q with
    | false => simp
    | true =>
      have other : (s.bypass1 p c == some q) = false := by
        simpa using apart (by simpa using first)
      simp [other]
  · congr 1
    funext q
    cases s.bypassed p c q <;> rfl

/-- The entries that leave. -/
theorem issued_split : held (fun e => if s.issued x e then s.slot e else none) =
    held (fun e => if s.select0 x == some e && !x.suppress0 then s.slot e else none) +
      held fun e => if s.select1 x == some e && !x.suppress1 then s.slot e else none := by
  rw [← add_zero (held fun e => if s.issued x e then _ else _), ← held_none (d := d)]
  apply held_add
  intro e
  show _ = (((if s.issued0 x e then s.slot e else none).toList : List (Waiting α)) :
    Multiset (Waiting α)) + ((if s.issued1 x e then s.slot e else none).toList : List (Waiting α))
  unfold issued
  cases second : s.issued1 x e with
  | false => simp
  | true => simp [(issued1_valid second).2]

/-- What both ports give out is what leaves the table and what never enters it. -/
theorem issue_split : ((s.issue0 p c).toList : Multiset (Waiting α)) + (s.issue1 p c).toList =
    held (fun e => if s.issued (s.iqIn p c) e then s.slot e else none) +
      (held (fun q => if s.bypass0 p c == some q then some (c.enq.get q) else none) +
        held fun q => if s.bypass1 p c == some q then some (c.enq.get q) else none) := by
  have hold0 (on : c.suppress0 = true) : s.bypass0 p c = none := by simp [bypass0, on]
  have hold1 (on : c.suppress1 = true) : s.bypass1 p c = none := by simp [bypass1, on]
  rw [issue0, issue1, issueOf_toList bypass0_none hold0, issueOf_toList bypass1_none hold1,
    issued_split]
  exact add_add_add_comm _ _ _ _

-- ---------------------------------------------------------------------
-- A cycle
-- ---------------------------------------------------------------------

theorem freeSlots_room {n : Nat} (count : s.count = s.occupancy) (room : s.count + n ≤ d) :
    n ≤ (s.freeSlots x).length := by
  have before := occupancy_eq (s := s) (x := x)
  have all := List.length_eq_countP_add_countP (l := List.finRange d) fun e =>
    !(s.slot e).isSome || s.issued x e
  have rest : (List.finRange d).countP (fun e => !(!(s.slot e).isSome || s.issued x e)) =
      (List.finRange d).countP (s.stays x) := by
    apply List.countP_congr
    intro e _
    simp [stays]
  rw [List.length_finRange] at all
  rw [freeSlots, ← List.countP_eq_length_filter]
  simp only [decide_not, Bool.decide_eq_true] at all
  omega

/-- Without a flush a slot keeps its entry or gives it out, and takes what its lane brings. -/
theorem updated_held (room : x.enq.length ≤ (s.freeSlots x).length) :
    held (s.updated x) + held (fun e => if s.issued x e then s.slot e else none) =
      held s.slot + (x.enq : Multiset (Waiting α)) := by
  have once : (s.freeSlots x).Nodup := (List.nodup_finRange d).filter _
  rw [← held_place (s.freeSlots x) x.enq once room]
  apply held_add
  intro e
  show _ = _ + ((s.lane x e).toList : Multiset (Waiting α))
  have quiet := lane_stays (s := s) (x := x) (e := e)
  unfold updated
  cases taken : s.lane x e with
  | none => cases s.issued x e <;> simp
  | some w =>
    have leaves := quiet (by simp [taken])
    unfold stays at leaves
    cases here : s.slot e with
    | none => simp
    | some a =>
      have out : s.issued x e = true := by simpa [here] using leaves
      simp [out, add_comm]

/-- What is there leaves or stays. -/
theorem slot_held : held s.slot = held (fun e => if s.issued x e then s.slot e else none) +
    held fun e => if s.stays x e then s.slot e else none := by
  rw [held_split s.slot (s.issued x)]
  congr 1
  congr 1
  funext e
  unfold stays
  cases s.issued x e <;> cases s.slot e <;> simp

/-- An entry that does not issue is squashed or stays. -/
theorem flush_slot (o : Option (Waiting α)) (out : Bool) {squash young : Waiting α → Bool}
    (same : ∀ w, squash w = young w) :
    ((if o.any young then none else if out then none else o).toList : Multiset (Waiting α)) +
      (if o.isSome && !out then o.filter squash else none).toList =
    ((if o.isSome && !out then o else none).toList : Multiset (Waiting α)) +
      ((none : Option (Waiting α)).toList : Multiset (Waiting α)) := by
  cases o with
  | none => simp
  | some w =>
    cases out with
    | true => simp
    | false => cases here : young w <;> simp [same, here]

/-- A flush takes what does not issue and is not older than its tail. -/
theorem flushed_held (f : FlushIn) (flush : c.flush = some f) (quiet : (s.iqIn p c).enq = []) :
    held (s.next (s.iqIn p c)).slot + s.squashed p c =
      held fun e => if s.stays (s.iqIn p c) e then s.slot e else none := by
  have seen : (s.iqIn p c).flush = some f := flush
  rw [← add_zero (held fun e => if s.stays (s.iqIn p c) e then s.slot e else none),
    ← held_none (d := d)]
  unfold squashed
  rw [flush]
  apply held_add
  intro e
  have bare : s.lane (s.iqIn p c) e = none := by simp [lane, quiet]
  unfold IssueQueue.next
  rw [seen]
  cases whole : f.full with
  | true =>
    simp only [whole, if_true, reset]
    cases s.slot e <;> cases s.stays (s.iqIn p c) e <;> simp [squashes, whole]
  | false =>
    have same (w : Waiting α) :
        squashes c f w = !olderThanTail (s.iqIn p c).robHead f.robTail w.robIdx := by
      simp only [squashes, whole, Bool.false_or, olderThanTail, BitVec.lt_def,
        robAgeFromHead_toNat, ← decide_not, Nat.not_lt]
      rfl
    have kept : s.updated (s.iqIn p c) e = if s.issued (s.iqIn p c) e then none else s.slot e := by
      simp [updated, bare]
    simp only [whole, Bool.false_eq_true, if_false, partialFlush, kept]
    exact flush_slot (s.slot e) _ same

end IssueQueue

namespace IqLedger

variable {d : Nat} {α : Type} {s : IqLedger d α} {p : IqShape α} {c : IqCycle d α}

open IssueQueue

theorem Keeps.roomFor (keeps : s.Keeps c) (sound : s.Accounted) :
    (s.queue.iqIn p c).enq.length ≤ (s.queue.freeSlots (s.queue.iqIn p c)).length := by
  refine Nat.le_trans ?_ (freeSlots_room sound.count keeps.room)
  simpa [iqIn] using List.length_filter_le (fun q => !s.queue.bypassed p c q)
    (List.finRange c.enq.length)

theorem rebalance {issued squashed before enq after out through : Multiset β}
    (moved : after + out = before + enq) :
    issued + squashed + before + (enq + through) =
      issued + (out + through) + (squashed + 0) + after :=
  calc issued + squashed + before + (enq + through)
    _ = issued + squashed + through + (before + enq) := by abel
    _ = issued + squashed + through + (after + out) := by rw [moved]
    _ = issued + (out + through) + (squashed + 0) + after := by abel

theorem Accounted.next (sound : s.Accounted) (keeps : s.Keeps c) : (s.next p c).Accounted := by
  have gives := issue_split (s := s.queue) (p := p) (c := c)
  have comes := enq_split (s := s.queue) (p := p) (c := c)
  cases flush : c.flush with
  | none =>
    have seen : (s.queue.iqIn p c).flush = none := flush
    have normal : s.queue.next (s.queue.iqIn p c) = s.queue.normal (s.queue.iqIn p c) := by
      simp [IssueQueue.next, seen]
    have moved := updated_held (keeps.roomFor (p := p) sound)
    constructor
    · show (s.queue.next _).count = (s.queue.next _).occupancy
      rw [normal]
      exact normal_count sound.count
    · show s.accepted + c.enq = s.issued + _ + _ + (s.squashed + s.queue.squashed p c) +
        held (s.queue.next _).slot
      have none_ : s.queue.squashed p c = 0 := by simp [IssueQueue.squashed, flush]
      rw [normal, none_, sound.once, ← comes, add_assoc s.issued (s.queue.issue0 p c).toList, gives]
      exact rebalance moved
  | some f =>
    have seen : (s.queue.iqIn p c).flush = some f := flush
    have empty : c.enq = [] := keeps.quiet (by simp [flush])
    have quiet : (s.queue.iqIn p c).enq = [] := by
      apply List.eq_nil_of_length_eq_zero
      have few := List.length_filter_le (fun q => !s.queue.bypassed p c q)
        (List.finRange c.enq.length)
      simpa [iqIn, empty] using few
    have parts := slot_held (s := s.queue) (x := s.queue.iqIn p c)
    have cut := flushed_held f flush quiet
    constructor
    · show (s.queue.next _).count = (s.queue.next _).occupancy
      cases whole : f.full with
      | true =>
        have next : s.queue.next (s.queue.iqIn p c) = .reset := by
          simp [IssueQueue.next, seen, whole]
        rw [next]
        exact (reset_sound ⟨0, []⟩).count
      | false =>
        have next : s.queue.next (s.queue.iqIn p c) = s.queue.partialFlush (s.queue.iqIn p c) f := by
          simp [IssueQueue.next, seen, whole]
        rw [next]
        exact partial_count quiet
    · show s.accepted + c.enq = s.issued + _ + _ + (s.squashed + s.queue.squashed p c) +
        held (s.queue.next _).slot
      rw [sound.once, ← comes, quiet, add_assoc s.issued (s.queue.issue0 p c).toList, gives, parts,
        ← cut]
      simp only [Multiset.coe_nil]
      abel

theorem Accounted.reset : (reset : IqLedger d α).Accounted where
  count := (reset_sound ⟨0, []⟩).count
  once := by
    show (0 : Multiset (Waiting α)) = 0 + 0 + held fun _ => none
    rw [held_none]
    rfl

end IqLedger

namespace IssueQueue

variable {d : Nat} {α : Type} {s : IssueQueue d α} {p : IqShape α} {c : IqCycle d α}

theorem issueOf_lane {suppress : Bool} {lane : Option (Fin c.enq.length)}
    (out : s.issueOf c suppress none lane = some w) : w ∈ c.enq := by
  unfold issueOf at out
  cases suppress with
  | true => cases out
  | false =>
    obtain ⟨q, -, rfl⟩ := Option.map_eq_some_iff.mp out
    exact List.get_mem c.enq q

theorem issuesInOrder (s : IssueQueue d α) (p : IqShape α) (c : IqCycle d α) :
    s.IssuesInOrder p c where
  port0 := selected0_oldest
  port1 := selected1_oldest
  issue0 e picked := by rw [issue0, picked]; rfl
  issue1 e picked := by rw [issue1, picked]; rfl
  lane0 idle w out := by
    rw [issue0, idle] at out
    exact issueOf_lane out
  lane1 idle w out := by
    rw [issue1, idle] at out
    exact issueOf_lane out
  stays flush e w here quiet := by
    have seen : (s.iqIn p c).flush = none := flush
    have normal : s.next (s.iqIn p c) = s.normal (s.iqIn p c) := by simp [IssueQueue.next, seen]
    rw [normal]
    show s.updated (s.iqIn p c) e = some w
    have bare : s.lane (s.iqIn p c) e = none := by
      cases taken : s.lane (s.iqIn p c) e with
      | none => rfl
      | some a =>
        have free := lane_stays (s := s) (x := s.iqIn p c) (e := e) (by simp [taken])
        simp [IssueQueue.stays, here, quiet] at free
    simp [updated, bare, quiet, here]

end IssueQueue

/-- In every run each instruction an issue queue takes in issues once, is squashed or waits, the count
is that of the valid entries, and each port selects the oldest entry it can. -/
theorem issue_queue_right {d : Nat} {α : Type} (p : IqShape α) (s : IqLedger d α)
    (reach : (iqRuns d α p).Reachable s) :
    s.Accounted ∧ ∀ c : IqCycle d α, s.queue.IssuesInOrder p c := by
  refine ⟨?_, fun c => s.queue.issuesInOrder p c⟩
  refine reach.invariant IqLedger.Accounted .reset ?_
  intro s c _ sound legal _
  exact sound.next legal

-- ---------------------------------------------------------------------
-- A load that waits for its port
-- ---------------------------------------------------------------------

namespace IqLedger

/-- The load queue's. -/
def loadShape : IqShape Unit := ⟨true, false, fun _ => false⟩

def sends (enq : List (Waiting Unit)) (suppress : Bool) : IqCycle 32 Unit where
  ready _ := true
  enq := enq
  candidate _ := false
  suppress0 := suppress
  suppress1 := suppress
  robHead := 0
  flush := none

def aLoad : Waiting Unit := ⟨0, ⟨true, false, true, true, ()⟩⟩

def oneLoad : IqLedger 32 Unit := (reset : IqLedger 32 Unit).next loadShape (sends [aLoad] false)

theorem oneLoad_reachable : (iqRuns 32 Unit loadShape).Reachable oneLoad :=
  Machine.Reachable.cycle .reset ⟨by decide, fun flush => by cases flush⟩

end IqLedger

theorem issue_queue_right_one : IqLedger.oneLoad.Accounted ∧
    IqLedger.oneLoad.queue.IssuesInOrder IqLedger.loadShape (IqLedger.sends [] true) := by
  have right := issue_queue_right IqLedger.loadShape IqLedger.oneLoad IqLedger.oneLoad_reachable
  exact ⟨right.1, right.2 _⟩

/-- A port that is suppressed issues nothing, with an entry that could issue. -/
theorem suppressed_port_idle : ∃ s, (iqRuns 32 Unit IqLedger.loadShape).Reachable s ∧
    ∃ c : IqCycle 32 Unit, s.Keeps c ∧ (∃ e, s.queue.Eligible c e) ∧
      s.queue.issue0 IqLedger.loadShape c = none :=
  ⟨IqLedger.oneLoad, IqLedger.oneLoad_reachable, IqLedger.sends [] true,
    ⟨by decide +kernel, fun flush => by cases flush⟩, ⟨0, by decide +kernel, rfl⟩, rfl⟩

end Rv64gc.Backend
