import Rv64gc.Frontend.LineFetch
import Rv64gc.Hdl.Machine

/-!
# The packet buffer

`fetch_packet_buffer` holds eight packets and hands out the first one of the owner that is being
committed. It passes a packet through when it is empty, and takes one while it is full when one
leaves in the same cycle. Each owner's packets leave in the order they came.
-/

namespace Rv64gc.Frontend

open Hdl

-- ---------------------------------------------------------------------
-- The packet buffer
-- ---------------------------------------------------------------------

/-- `fetch_packet_t`; only its owner matters to the buffer. -/
structure FetchPacket (α : Type) where
  valid : Bool
  ftq : FtqId
  ownerComplete : Bool
  body : α

structure PacketBuffer (α : Type) where
  mem : Fin 8 → FetchPacket α
  count : Nat

structure PacketIn (α : Type) where
  flush : Bool
  /-- `enq_packet`, when `enq_valid` -/
  enq : Option (FetchPacket α)
  deqReady : Bool
  /-- `owner_*`, when `owner_valid` -/
  owner : Option FtqId

variable {α : Type}

def FetchPacket.zero [Inhabited α] : FetchPacket α := ⟨false, ⟨0, 0, 0⟩, false, default⟩

/-- The packet belongs to the owner. -/
def FetchPacket.of (id : FtqId) (p : FetchPacket α) : Bool := p.valid && p.ftq == id

namespace PacketBuffer

variable (s : PacketBuffer α) (i : PacketIn α)

def ownedBy (p : FetchPacket α) : Bool := i.owner.any fun id => p.of id

/-- `deq_sel_c`, when `deq_match_found_c` -/
def deqSel : Option (Fin 8) := firstOf fun k => decide (k.val < s.count) && ownedBy i (s.mem k)

def full : Bool := decide (s.count = 8)

/-- `deq_packet`, when `deq_valid` -/
def deqPacket : Option (FetchPacket α) :=
  match s.deqSel i with
  | some k => some (s.mem k)
  | none => if s.count ≠ 0 then some (s.mem 0) else i.enq

def deqOwnerComplete : Bool := (s.deqPacket i).any fun p => p.valid && p.ownerComplete

def deqOwnerMatch : Bool := (s.deqPacket i).any (ownedBy i)

def deqStaleOwner : Bool := (s.deqPacket i).any fun p => p.valid && !ownedBy i p

def deqFire : Bool := i.deqReady && s.deqOwnerMatch i

def enqReady : Bool := !s.full || s.deqFire i

/-- The packet that is accepted: `enq_fire`. -/
def accepted : Option (FetchPacket α) := if s.enqReady i then i.enq else none

/-- The packet that leaves: `deq_fire`. -/
def dequeued : Option (FetchPacket α) := if s.deqFire i then s.deqPacket i else none

/-- The registers behind the one that leaves move down by one, and `last` follows them. -/
def shifted (sel : Nat) (last zero : FetchPacket α) (k : Fin 8) : FetchPacket α :=
  if k.val < sel then s.mem k
  else if h : k.val < 7 ∧ k.val < s.count - 1 then s.mem ⟨k.val + 1, by omega⟩
  else if k.val = s.count - 1 then last
  else zero

def next [Inhabited α] : PacketBuffer α :=
  let sel := ((s.deqSel i).map Fin.val).getD 0
  if i.flush then ⟨fun _ => .zero, 0⟩
  else match s.accepted i, s.deqFire i with
    | some p, true =>
      if s.count = 0 then s else { s with mem := s.shifted sel p .zero }
    | none, true => ⟨s.shifted sel .zero .zero, s.count - 1⟩
    | some p, false => ⟨fun k => if k.val = s.count % 8 then p else s.mem k, s.count + 1⟩
    | none, false => s

def reset [Inhabited α] : PacketBuffer α := ⟨fun _ => .zero, 0⟩

/-- The packets in it, oldest first. -/
def contents : List (FetchPacket α) := (List.ofFn s.mem).take s.count

end PacketBuffer

-- ---------------------------------------------------------------------
-- What a cycle does
-- ---------------------------------------------------------------------

namespace PacketBuffer

variable {s : PacketBuffer α} {i : PacketIn α}

theorem length_contents (fits : s.count ≤ 8) : s.contents.length = s.count := by
  rw [contents, List.length_take_of_le]
  rwa [List.length_ofFn]

theorem getElem_contents {k : Nat} (inside : k < s.contents.length) (less : k < 8) :
    s.contents[k] = s.mem ⟨k, less⟩ := by
  simp only [contents, List.getElem_take, List.getElem_ofFn]

/-- The packet that is selected is the first of its owner. -/
theorem deqSel_some (fits : s.count ≤ 8) (found : s.deqSel i = some k) :
    s.contents.findIdx? (ownedBy i) = some k.val ∧ k.val < s.count := by
  have here := firstOf_some found
  simp only [Bool.and_eq_true, decide_eq_true_eq] at here
  refine ⟨?_, here.1⟩
  have length := length_contents fits
  rw [List.findIdx?_eq_some_iff_getElem]
  refine ⟨by omega, ?_, ?_⟩
  · rw [getElem_contents _ k.isLt]
    exact here.2
  · intro j before
    have before_ := firstOf_least found (j := ⟨j, by omega⟩) before
    have less : j < s.count := by omega
    rw [getElem_contents _ (by omega)]
    simpa [less] using before_

theorem deqSel_none (fits : s.count ≤ 8) (none_ : s.deqSel i = none) :
    ∀ p ∈ s.contents, ownedBy i p = false := by
  intro p mem
  obtain ⟨k, inside, rfl⟩ := List.getElem_of_mem mem
  have less : k < s.count := by rwa [length_contents fits] at inside
  have other := firstOf_none.mp none_ ⟨k, by omega⟩
  rw [getElem_contents inside (by omega)]
  simpa [less] using other

/-- A packet that leaves is the first one of its owner in the buffer, or comes in the same cycle to
an empty one. -/
theorem dequeued_cases (fits : s.count ≤ 8) (leaves : s.dequeued i = some p) :
    ownedBy i p = true ∧
      ((∃ k, s.deqSel i = some k ∧ p = s.mem k) ∨
        (s.count = 0 ∧ s.accepted i = some p)) := by
  unfold dequeued at leaves
  split at leaves
  next fires =>
    have matches_ : s.deqOwnerMatch i = true := by
      simp only [deqFire, Bool.and_eq_true] at fires
      exact fires.2
    rw [deqOwnerMatch, leaves, Option.any_some] at matches_
    refine ⟨matches_, ?_⟩
    unfold deqPacket at leaves
    split at leaves
    next k found =>
      cases leaves
      exact .inl ⟨k, found, rfl⟩
    next none_ =>
      split at leaves
      next some_ =>
        cases leaves
        have inside : 0 < s.contents.length := by
          rw [length_contents fits]
          omega
        have other := deqSel_none fits none_ _ (List.getElem_mem inside)
        rw [getElem_contents inside (by decide)] at other
        exact absurd matches_ (by rw [show (0 : Fin 8) = ⟨0, by decide⟩ from rfl, other]; decide)
      next empty =>
        exact .inr ⟨by omega, by simp [accepted, enqReady, fires, leaves]⟩
  next => cases leaves

theorem deqFire_iff (s : PacketBuffer α) (i : PacketIn α) :
    s.deqFire i = true ↔ (s.dequeued i).isSome := by
  constructor
  · intro fires
    have some_ : s.deqOwnerMatch i = true := by
      simp only [deqFire, Bool.and_eq_true] at fires
      exact fires.2
    rw [dequeued, if_pos fires]
    unfold deqOwnerMatch at some_
    cases packet : s.deqPacket i with
    | none => simp [packet] at some_
    | some p => rfl
  · intro some_
    unfold dequeued at some_
    split at some_
    next fires => exact fires
    next => cases some_

/-- Moving down closes the gap. -/
theorem contents_shifted {sel : Nat} (fits : s.count ≤ 8) (inside : sel < s.count)
    (last zero : FetchPacket α) :
    (⟨s.shifted sel last zero, s.count⟩ : PacketBuffer α).contents =
      s.contents.eraseIdx sel ++ [last] := by
  have length := length_contents fits
  have length' := length_contents (s := ⟨s.shifted sel last zero, s.count⟩) fits
  apply List.ext_getElem
  · rw [length', List.length_append, List.length_eraseIdx_of_lt (by omega), length,
      List.length_singleton]
    show s.count = _
    omega
  intro k less less'
  have small : k < s.count := by rwa [length'] at less
  rw [getElem_contents less (by omega)]
  show s.shifted sel last zero ⟨k, _⟩ = _
  unfold shifted
  dsimp only
  by_cases before : k < sel
  · rw [if_pos before, List.getElem_append_left, List.getElem_eraseIdx_of_lt _ before,
      getElem_contents]
    rw [List.length_eraseIdx_of_lt (by omega)]
    omega
  · rw [if_neg before]
    by_cases more : k < s.count - 1
    · rw [dif_pos ⟨by omega, more⟩, List.getElem_append_left,
        List.getElem_eraseIdx_of_ge _ (by omega), getElem_contents]
      rw [List.length_eraseIdx_of_lt (by omega)]
      omega
    · rw [dif_neg (by omega), if_pos (by omega), List.getElem_append_right]
      · simp
      · rw [List.length_eraseIdx_of_lt (by omega)]
        omega

theorem contents_removed {sel : Nat} (fits : s.count ≤ 8) (inside : sel < s.count)
    (zero : FetchPacket α) :
    (⟨s.shifted sel zero zero, s.count - 1⟩ : PacketBuffer α).contents = s.contents.eraseIdx sel := by
  have whole := contents_shifted fits inside zero zero
  have cut : (⟨s.shifted sel zero zero, s.count - 1⟩ : PacketBuffer α).contents =
      (⟨s.shifted sel zero zero, s.count⟩ : PacketBuffer α).contents.take (s.count - 1) := by
    unfold contents
    rw [List.take_take, Nat.min_eq_left (Nat.sub_le _ _)]
  rw [cut, whole]
  refine List.take_left' ?_
  have length := length_contents fits
  rw [List.length_eraseIdx_of_lt (by omega), length]

theorem contents_pushed (room : s.count < 8) (p : FetchPacket α) :
    (⟨fun k => if k.val = s.count % 8 then p else s.mem k, s.count + 1⟩ : PacketBuffer α).contents =
      s.contents ++ [p] := by
  have length := length_contents (Nat.le_of_lt room)
  have length' := length_contents
    (s := ⟨fun k => if k.val = s.count % 8 then p else s.mem k, s.count + 1⟩) room
  apply List.ext_getElem
  · rw [length', List.length_append, length]
    rfl
  intro k less less'
  have small : k < s.count + 1 := by rwa [length'] at less
  rw [getElem_contents less (by omega)]
  dsimp only
  rw [Nat.mod_eq_of_lt room]
  by_cases old : k < s.count
  · rw [if_neg (by omega), List.getElem_append_left (by omega), getElem_contents _ (by omega)]
  · rw [if_pos (by omega), List.getElem_append_right (by omega)]
    simp

/-- What a cycle does to the list. -/
theorem contents_next [Inhabited α] (fits : s.count ≤ 8) (noFlush : i.flush = false) :
    (s.next i).count ≤ 8 ∧
      ((s.count = 0 ∧ (s.next i).contents = s.contents ∧ s.accepted i = s.dequeued i) ∨
        (s.next i).contents =
          (if (s.dequeued i).isSome then s.contents.eraseP (ownedBy i) else s.contents) ++
            (s.accepted i).toList ∧
          ∀ p, s.dequeued i = some p → s.contents.find? (ownedBy i) = some p) := by
  have leaves := deqFire_iff s i
  have length := length_contents fits
  unfold next
  rw [noFlush]
  simp only [Bool.false_eq_true, if_false]
  cases fires : s.deqFire i with
  | false =>
    have stays : s.dequeued i = none := by simp [dequeued, fires]
    cases takes : s.accepted i with
    | none => exact ⟨fits, .inr ⟨by simp [stays], by simp [stays]⟩⟩
    | some p =>
      have room : s.count < 8 := by
        unfold accepted enqReady at takes
        simp only [fires, Bool.or_false] at takes
        split at takes
        next free =>
          have other : s.count ≠ 8 := by simpa [full] using free
          omega
        next => cases takes
      refine ⟨room, .inr ⟨?_, by simp [stays]⟩⟩
      simp [stays, contents_pushed room]
  | true =>
    obtain ⟨p, gone⟩ := Option.isSome_iff_exists.mp (leaves.mp fires)
    obtain ⟨owned, ⟨k, found, rfl⟩ | ⟨empty, arrives⟩⟩ := dequeued_cases fits gone
    · obtain ⟨first, inside⟩ := deqSel_some fits found
      have erased : s.contents.eraseP (ownedBy i) = s.contents.eraseIdx k.val := by
        rw [List.eraseP_eq_eraseIdx, first]
      have head : s.contents.find? (ownedBy i) = some (s.mem k) := by
        rw [List.find?_eq_bind_findIdx?_getElem?, first, Option.bind_some,
          List.getElem?_eq_getElem (by omega), getElem_contents _ k.isLt]
      have only : ∀ p, s.dequeued i = some p → s.contents.find? (ownedBy i) = some p := by
        intro p same
        rw [head, ← gone, same]
      cases takes : s.accepted i with
      | none =>
        refine ⟨by dsimp only; omega, .inr ⟨?_, only⟩⟩
        simp [gone, erased, found, contents_removed fits inside]
      | some p =>
        have some_ : s.count ≠ 0 := by omega
        simp only [if_neg some_]
        refine ⟨fits, .inr ⟨?_, only⟩⟩
        simp only [gone, erased, found, Option.map_some, Option.getD_some, Option.isSome_some,
          if_true, Option.toList_some]
        exact contents_shifted fits inside p .zero
    · simp only [arrives, if_pos empty]
      exact ⟨fits, .inl ⟨empty, trivial, gone.symm⟩⟩

end PacketBuffer

/-- The buffer, and what it has taken and handed out since the last flush. -/
structure PacketRun (α : Type) where
  buffer : PacketBuffer α
  accepted : List (FetchPacket α)
  dequeued : List (FetchPacket α)

def packetRuns [Inhabited α] : Machine (PacketRun α) (PacketIn α) where
  reset := ⟨.reset, [], []⟩
  next s i :=
    if i.flush then ⟨s.buffer.next i, [], []⟩
    else ⟨s.buffer.next i, s.accepted ++ (s.buffer.accepted i).toList,
      s.dequeued ++ (s.buffer.dequeued i).toList⟩
  legal _ _ := True

/-- Each owner's packets leave in the order they came, and the others are still there. -/
structure PacketRun.InOrder (s : PacketRun α) : Prop where
  fits : s.buffer.count ≤ 8
  order : ∀ id, s.accepted.filter (FetchPacket.of id) =
    s.dequeued.filter (FetchPacket.of id) ++ s.buffer.contents.filter (FetchPacket.of id)

namespace PacketRun

open PacketBuffer

/-- The first of an owner leaves. -/
theorem filter_first {l : List (FetchPacket α)} {i : PacketIn α} {p : FetchPacket α}
    (first : l.find? (ownedBy i) = some p) (id : FtqId) :
    l.filter (FetchPacket.of id) = [p].filter (FetchPacket.of id) ++ (l.eraseP (ownedBy i)).filter (FetchPacket.of id) := by
  have owned : ownedBy i p = true := List.find?_some first
  cases owner : i.owner with
  | none => simp [ownedBy, owner] at owned
  | some o =>
    have same : ownedBy i = (FetchPacket.of o : FetchPacket α → Bool) := by
      funext x
      simp [ownedBy, owner]
    rw [same] at first owned ⊢
    by_cases own : id = o
    · subst own
      rw [filter_eraseP_self]
      have head : (l.filter (FetchPacket.of id)).head? = some p := by rw [List.head?_filter, first]
      obtain ⟨rest, kind⟩ := List.head?_eq_some_iff.mp head
      rw [kind]
      simp [owned]
    · have apart : ∀ x : FetchPacket α, x.of o = true → x.of id = false := by
        intro x of
        simp only [FetchPacket.of, Bool.and_eq_true, beq_iff_eq] at of
        simp [FetchPacket.of, of.2, Ne.symm own]
      rw [filter_eraseP_other apart]
      simp [apart p owned]

theorem InOrder.next [Inhabited α] {s : PacketRun α} {i : PacketIn α} (inOrder : s.InOrder) :
    (packetRuns.next s i).InOrder := by
  cases flush : i.flush with
  | true =>
    simp only [packetRuns, flush, if_true]
    exact ⟨by simp [PacketBuffer.next, flush],
      fun id => by simp [PacketBuffer.next, flush, contents]⟩
  | false =>
    simp only [packetRuns, flush, Bool.false_eq_true, if_false]
    obtain ⟨fits, law⟩ := contents_next inOrder.fits flush
    refine ⟨fits, fun id => ?_⟩
    have order := inOrder.order id
    obtain ⟨empty, same, passes⟩ | ⟨after, first⟩ := law
    · have none_ : s.buffer.contents = [] := by
        apply List.eq_nil_of_length_eq_zero
        rw [length_contents inOrder.fits, empty]
      rw [none_] at order same
      simp only [List.filter_append, passes, same, order, List.filter_nil, List.append_nil]
    · rw [after, List.filter_append, List.filter_append, List.filter_append, order]
      cases leaves : s.buffer.dequeued i with
      | none => simp
      | some p =>
        rw [filter_first (first p leaves) id]
        simp

end PacketRun

theorem packets_inOrder [Inhabited α] {s : PacketRun α} (reach : packetRuns.Reachable s) :
    s.InOrder := by
  refine reach.invariant PacketRun.InOrder ?_ fun _ _ _ inOrder _ _ => inOrder.next
  exact ⟨Nat.zero_le _, fun id => by simp [packetRuns, PacketBuffer.reset, PacketBuffer.contents]⟩

/-- A packet is taken when there is room or one leaves, and passes an empty buffer. -/
structure PacketBuffer.Takes (s : PacketBuffer α) : Prop where
  accepts : ∀ i p, i.enq = some p → s.count < 8 ∨ (s.dequeued i).isSome → s.accepted i = some p
  passes : ∀ i p, s.count = 0 → i.enq = some p → ownedBy i p = true → i.deqReady = true →
    s.accepted i = some p ∧ s.dequeued i = some p

theorem packetBuffer_takes (s : PacketBuffer α) : s.Takes where
  accepts i p comes room := by
    have ready : s.enqReady i = true := by
      rw [PacketBuffer.enqReady, PacketBuffer.full, Bool.or_eq_true, (s.deqFire_iff i)]
      refine room.imp (fun few => ?_) id
      simp
      omega
    simp [PacketBuffer.accepted, ready, comes]
  passes i p empty comes owned ready := by
    have none_ : s.deqSel i = none := by
      rw [PacketBuffer.deqSel, firstOf_none]
      simp [empty]
    have packet : s.deqPacket i = some p := by simp [PacketBuffer.deqPacket, none_, empty, comes]
    have fires : s.deqFire i = true := by
      simp [PacketBuffer.deqFire, PacketBuffer.deqOwnerMatch, packet, owned, ready]
    simp [PacketBuffer.accepted, PacketBuffer.enqReady, PacketBuffer.dequeued, fires, comes, packet]

end Rv64gc.Frontend
