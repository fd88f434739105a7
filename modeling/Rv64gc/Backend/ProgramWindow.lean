import Rv64gc.Hdl.Fifo
import Rv64gc.Pkg

/-!
# The program in the reorder buffer

The queues around the reorder buffer know an instruction by its slot. The instructions in flight are
a list, oldest first, that starts at the head pointer, and a partial flush cuts the list at some
place. The queues find the place of a slot by its distance from the head.
-/

namespace Rv64gc.Backend

open Hdl

/-- What leaves rename. -/
structure Renamed (α : Type) where
  isLoad : Bool
  isStore : Bool
  /-- `fu_type` is FU_LOAD, FU_STA or FU_STD. -/
  isMem : Bool
  /-- It was not eliminated and has no exception, so it needs a functional unit. -/
  dispatches : Bool
  data : α

structure Program (α : Type) where
  head : RobIdx
  insns : List (Renamed α)

/-- `flush_out` -/
inductive FlushTo where
  | full
  /-- A partial flush: the instructions before this place stay. -/
  | upTo (n : Nat)
deriving DecidableEq

namespace Program

variable {α : Type} (s : Program α)

def tail : RobIdx := slotAt s.head s.insns.length

/-- The slots of the next instructions. -/
def allocIdx (k : Nat) : RobIdx := slotAt s.tail k

/-- `flush_out.rob_idx` -/
def flushRobTail (n : Nat) : RobIdx := slotAt s.head n

def next (retires : Nat) (alloc : List (Renamed α)) : Option FlushTo → Program α
  | some .full => ⟨0, []⟩
  | some (.upTo n) => ⟨slotAt s.head retires, (s.insns.take n).drop retires⟩
  | none => ⟨slotAt s.head retires, s.insns.drop retires ++ alloc⟩

/-- What commit and rename keep to. -/
structure Keeps (count : Nat) (alloc : List (Renamed α)) (flush : Option FlushTo) : Prop where
  fits : s.insns.length + alloc.length ≤ robDepth
  alloc : alloc.length ≤ pipeWidth
  retires : count ≤ pipeWidth
  inside : count ≤ s.insns.length
  /-- A partial flush keeps what retires in its cycle. -/
  cut : ∀ n, flush = some (.upTo n) → count ≤ n ∧ n ≤ s.insns.length

end Program

-- ---------------------------------------------------------------------
-- Ages
-- ---------------------------------------------------------------------

/-- `rob_age_from_head` -/
def robAgeFromHead (robHead idx : RobIdx) : BitVec 8 :=
  if robHead ≤ idx then idx.setWidth 8 - robHead.setWidth 8
  else 128#8 - robHead.setWidth 8 + idx.setWidth 8

theorem robAgeFromHead_toNat (robHead idx : RobIdx) :
    (robAgeFromHead robHead idx).toNat = offset robHead idx := by
  have hi := idx.isLt
  have hh := robHead.isLt
  unfold robAgeFromHead
  rw [offset_eq]
  simp only [BitVec.le_def]
  split <;>
    simp only [BitVec.toNat_add, BitVec.toNat_sub, BitVec.toNat_setWidth, BitVec.toNat_ofNat,
      robIdxBits] at * <;>
    omega

/-- The comparison all queues make in a partial flush. -/
def olderThanTail (robHead flushRobTail idx : RobIdx) : Bool :=
  robAgeFromHead robHead idx < robAgeFromHead robHead flushRobTail

/-- It says which instructions come before the cut, unless the cut is behind the last of 128. -/
theorem olderThanTail_iff (s : Program α) (idx : RobIdx) (cut : n < robDepth) :
    olderThanTail s.head (s.flushRobTail n) idx = true ↔ offset s.head idx < n := by
  have lands : offset s.head (s.flushRobTail n) = n := offset_slotAt s.head cut
  simp only [olderThanTail, BitVec.lt_def, decide_eq_true_eq, robAgeFromHead_toNat, lands]

/-- There it says that no instruction does. -/
theorem olderThanTail_full (s : Program α) (idx : RobIdx) :
    olderThanTail s.head (s.flushRobTail robDepth) idx = false := by
  have once : s.flushRobTail robDepth = s.head := slotAt_size s.head
  have none_ : offset s.head s.head = 0 := by simp [offset]
  simp only [olderThanTail, BitVec.lt_def, robAgeFromHead_toNat, once, none_, Nat.not_lt_zero,
    decide_false]

-- ---------------------------------------------------------------------
-- Queues of one kind of instruction
-- ---------------------------------------------------------------------

/-- The slots, in order, are those of the instructions of one kind. -/
def Lists (s : Program α) (kind : Renamed α → Bool) (slots : List RobIdx) : Prop :=
  slots.map (offset s.head) = s.insns.findIdxs kind

/-- The slots of the new instructions of a kind: what rename sends to the load or store queue. -/
def allocSlots (s : Program α) (kind : Renamed α → Bool) (alloc : List (Renamed α)) : List RobIdx :=
  (alloc.findIdxs kind).map s.allocIdx

variable {s : Program α} {kind : Renamed α → Bool} {slots : List RobIdx}

/-- Only new instructions of the kind get a slot. -/
theorem any_of_slots {alloc : List (Renamed α)} (new : allocSlots s kind alloc ≠ []) :
    alloc.any kind = true := by
  by_contra none_
  refine new ?_
  have empty : alloc.findIdxs kind = [] := by
    rw [List.findIdxs_eq_nil_iff]
    intro m on
    by_contra here
    exact none_ (List.any_eq_true.mpr ⟨m, on, by simpa using here⟩)
  rw [allocSlots, empty, List.map_nil]

theorem offset_retire (idx : RobIdx) (few : n ≤ robDepth) (stays : n ≤ offset s.head idx) :
    offset (slotAt s.head n) idx = offset s.head idx - n := by
  rw [offset_advance _ _ few, if_pos stays]

/-- As many of a queue leave as instructions of its kind retire. -/
theorem Lists.retire (lists : Lists s kind slots) (inside : n ≤ s.insns.length)
    (few : n ≤ robDepth) :
    Lists ⟨slotAt s.head n, s.insns.drop n⟩ kind (slots.drop ((s.insns.take n).countP kind)) := by
  have rest : (slots.drop ((s.insns.take n).countP kind)).map (offset s.head) =
      ((s.insns.drop n).findIdxs kind).map (· + n) := by
    rw [List.map_drop, lists, findIdxs_drop kind s.insns n inside]
  have moved : (slots.drop ((s.insns.take n).countP kind)).map (offset (slotAt s.head n)) =
      ((slots.drop ((s.insns.take n).countP kind)).map (offset s.head)).map (· - n) := by
    rw [List.map_map]
    refine List.map_congr_left fun idx on => offset_retire idx few ?_
    have here := List.mem_map_of_mem (f := offset s.head) on
    rw [rest] at here
    obtain ⟨k, -, same⟩ := List.mem_map.mp here
    omega
  show (slots.drop _).map (offset (slotAt s.head n)) = _
  rw [moved, rest, List.map_map]
  exact (List.map_congr_left fun k _ => Nat.add_sub_cancel k n).trans (List.map_id _)

theorem Lists.alloc (lists : Lists s kind slots) (fits : s.insns.length + new.length ≤ robDepth) :
    Lists ⟨s.head, s.insns ++ new⟩ kind (slots ++ allocSlots s kind new) := by
  show (slots ++ allocSlots s kind new).map (offset s.head) = (s.insns ++ new).findIdxs kind
  have shifted : new.findIdxs kind (0 + s.insns.length) =
      (new.findIdxs kind).map (· + (0 + s.insns.length)) := List.findIdxs_start
  rw [List.map_append, lists, List.findIdxs_append, shifted, Nat.zero_add]
  congr 1
  rw [allocSlots, List.map_map]
  refine List.map_congr_left fun k on => ?_
  have less := findIdxs_lt on
  simp only [Function.comp_apply, Program.allocIdx, Program.tail, slotAt_slotAt]
  rw [offset_slotAt s.head (by show _ < 128; unfold robDepth at fits; omega)]
  omega

/-- The instructions before the cut are the first of the queue. -/
theorem Lists.cut (lists : Lists s kind slots) (n : Nat) :
    Lists ⟨s.head, s.insns.take n⟩ kind (slots.take ((s.insns.take n).countP kind)) := by
  show (slots.take _).map (offset s.head) = (s.insns.take n).findIdxs kind
  rw [List.map_take, lists, List.findIdxs_take]

theorem allocSlots_retire (s : Program α) (kind : Renamed α → Bool) (alloc : List (Renamed α))
    (inside : n ≤ s.insns.length) :
    allocSlots ⟨slotAt s.head n, s.insns.drop n⟩ kind alloc = allocSlots s kind alloc := by
  rw [allocSlots, allocSlots]
  refine List.map_congr_left fun k _ => ?_
  simp only [Program.allocIdx, Program.tail, slotAt_slotAt, List.length_drop]
  congr 2
  omega

/-- A cycle without a flush. -/
theorem Lists.cycle {alloc : List (Renamed α)} (lists : Lists s kind slots)
    (program : s.Keeps n alloc none) :
    Lists (s.next n alloc none) kind
      (slots.drop ((s.insns.take n).countP kind) ++ allocSlots s kind alloc) := by
  have fits := program.fits
  have rest := lists.retire program.inside (Nat.le_trans program.retires (by decide))
  have room : (s.insns.drop n).length + alloc.length ≤ robDepth := by
    rw [List.length_drop]
    omega
  have more := rest.alloc room
  rw [allocSlots_retire s kind alloc program.inside] at more
  exact more

-- ---------------------------------------------------------------------
-- Instructions on their way to a functional unit
-- ---------------------------------------------------------------------

/-- An instruction with its slot in the reorder buffer. -/
structure Waiting (α : Type) where
  robIdx : RobIdx
  insn : Renamed α

instance [Inhabited α] : Inhabited (Waiting α) := ⟨⟨0, ⟨false, false, false, false, default⟩⟩⟩

/-- The new instructions that need a functional unit. -/
def dispatched (s : Program α) (alloc : List (Renamed α)) : List (Waiting α) :=
  (alloc.zipIdx.filter fun x => x.1.dispatches).map fun x => ⟨s.allocIdx x.2, x.1⟩

/-- It is the instruction of the program with this slot. -/
def Program.Has (s : Program α) (e : Waiting α) : Prop :=
  s.insns[offset s.head e.robIdx]? = some e.insn

namespace Program

variable {e : Waiting α} {alloc : List (Renamed α)} {m : Nat}

theorem Has.inside (has : s.Has e) : offset s.head e.robIdx < s.insns.length :=
  (List.getElem?_eq_some_iff.mp has).1

theorem Has.next (has : s.Has e) (program : s.Keeps n alloc none)
    (waits : n ≤ offset s.head e.robIdx) : (s.next n alloc none).Has e := by
  have inside := has.inside
  show (s.insns.drop n ++ alloc)[offset (slotAt s.head n) e.robIdx]? = _
  rw [offset_retire _ (Nat.le_trans program.retires (by decide)) waits,
    List.getElem?_append_left (by simp only [List.length_drop]; omega), List.getElem?_drop,
    Nat.add_sub_cancel' waits]
  exact has

theorem Has.cut (has : s.Has e) (program : s.Keeps n alloc (some (.upTo m)))
    (waits : n ≤ offset s.head e.robIdx) (older : offset s.head e.robIdx < m) :
    (s.next n alloc (some (.upTo m))).Has e := by
  show ((s.insns.take m).drop n)[offset (slotAt s.head n) e.robIdx]? = _
  rw [offset_retire _ (Nat.le_trans program.retires (by decide)) waits, List.getElem?_drop,
    Nat.add_sub_cancel' waits, List.getElem?_take_of_lt older]
  exact has

/-- A new instruction has its place behind those that are there. -/
theorem has_dispatched (program : s.Keeps n alloc none) (on : e ∈ dispatched s alloc) :
    (s.next n alloc none).Has e := by
  have fits := program.fits
  have inside := program.inside
  obtain ⟨⟨insn, k⟩, member, rfl⟩ := List.mem_map.mp on
  have at_ := List.mem_zipIdx_iff_getElem?.mp (List.mem_filter.mp member).1
  have less := (List.getElem?_eq_some_iff.mp at_).1
  have place : offset (slotAt s.head n) (s.allocIdx k) = s.insns.length - n + k := by
    unfold robDepth at fits
    rw [allocIdx, tail, slotAt_slotAt, offset_advance _ _ (by unfold robIdxBits; omega),
      offset_slotAt _ (by unfold robIdxBits; omega), if_pos (by omega)]
    omega
  show (s.insns.drop n ++ alloc)[offset (slotAt s.head n) (s.allocIdx k)]? = some insn
  rw [place, List.getElem?_append_right (by simp), List.length_drop, Nat.add_sub_cancel_left]
  exact at_

end Program

end Rv64gc.Backend
