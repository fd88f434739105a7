import Rv64gc.Backend.ProgramWindow
import Rv64gc.Lsu.StoreQueue

/-!
# The dispatch queue

`dispatch_queue.sv`: two FIFOs between rename and the issue queues, one for memory instructions and
one for the others. How many leave a cycle depends on the room in the issue queues. A partial flush
packs what stays to the first slots.
-/

namespace Rv64gc.Backend

open Hdl Lsu

structure DqIn (α : Type) where
  enq : List (Waiting α)
  /-- `accepted_int_count` and `actual_deq_mem` -/
  intCount : Nat
  memCount : Nat
  robHead : RobIdx
  flush : Option FlushIn

structure DispatchQueue (α : Type) where
  int : Fifo 5 (Waiting α)
  mem : Fifo 5 (Waiting α)

namespace DispatchQueue

variable {α : Type} [Inhabited α] (s : DispatchQueue α) (x : DqIn α)

def reset : DispatchQueue α := ⟨⟨0, 0, 0, fun _ => default⟩, ⟨0, 0, 0, fun _ => default⟩⟩

/-- Either FIFO may run out of space. -/
def full : Bool := decide (32 < s.int.count + pipeWidth) || decide (32 < s.mem.count + pipeWidth)

/-- What goes to the issue queues: nothing in a flush. -/
def deqInt : List (Waiting α) :=
  if x.flush.isSome then [] else s.int.contents.take x.intCount

def deqMem : List (Waiting α) :=
  if x.flush.isSome then [] else s.mem.contents.take x.memCount

/-- `int_flush_src` and `mem_flush_src`: the entries before the tail. -/
def survives (f : FlushIn) (e : Waiting α) : Bool := olderThanTail x.robHead f.robTail e.robIdx

def partialFlush (f : FlushIn) : DispatchQueue α where
  int := s.int.pack (survives x f) default
  mem := s.mem.pack (survives x f) default

def fullFlush : DispatchQueue α where
  int := { s.int with head := 0, tail := 0, count := 0 }
  mem := { s.mem with head := 0, tail := 0, count := 0 }

def enqInt : List (Waiting α) := x.enq.filter fun e => !e.insn.isMem

def enqMem : List (Waiting α) := x.enq.filter fun e => e.insn.isMem

def normal : DispatchQueue α where
  int := s.int.turn x.intCount (enqInt x).length fun i =>
    ((enqInt x)[offset s.int.tail i]?).getD (s.int.slot i)
  mem := s.mem.turn x.memCount (enqMem x).length fun i =>
    ((enqMem x)[offset s.mem.tail i]?).getD (s.mem.slot i)

def next : DispatchQueue α :=
  match x.flush with
  | some f => if f.full then s.fullFlush else s.partialFlush x f
  | none => s.normal x

-- ---------------------------------------------------------------------
-- Runs
-- ---------------------------------------------------------------------

/-- What waits is part of the program. -/
structure Sound (s : DispatchQueue α) (w : Program α) : Prop where
  int : s.int.Sound
  mem : s.mem.Sound
  intHas : ∀ e, e ∈ s.int.contents → w.Has e
  memHas : ∀ e, e ∈ s.mem.contents → w.Has e

/-- What the core around the queue keeps to. -/
structure Keeps (s : DispatchQueue α) (w : Program α) (x : DqIn α) (retires : Nat)
    (alloc : List (Renamed α)) : Prop where
  enq : x.enq = dispatched w alloc
  robHead : x.robHead = w.head
  intCount : x.intCount ≤ s.int.count
  memCount : x.memCount ≤ s.mem.count
  room : x.enq ≠ [] → s.full = false
  /-- What has not been executed does not retire. -/
  intWaits : ∀ e, e ∈ s.int.contents → retires ≤ offset w.head e.robIdx
  memWaits : ∀ e, e ∈ s.mem.contents → retires ≤ offset w.head e.robIdx

/-- What a partial flush that cuts the program at a place is for. -/
structure CutRight (s : DispatchQueue α) (w : Program α) (x : DqIn α) (n cut : Nat) : Prop where
  /-- The older ones stay, in order. -/
  int : (s.next x).int.contents =
    s.int.contents.filter fun e => decide (offset w.head e.robIdx < cut)
  mem : (s.next x).mem.contents =
    s.mem.contents.filter fun e => decide (offset w.head e.robIdx < cut)
  /-- Nothing goes to the issue queues. -/
  deq : s.deqInt x = [] ∧ s.deqMem x = []
  sound : (s.next x).Sound (w.next n [] (some (.upTo cut)))

variable {s : DispatchQueue α} {w : Program α} {x : DqIn α} {n cut : Nat}
  {alloc : List (Renamed α)} {f : FlushIn}

omit [Inhabited α] in
/-- A queue that is not full has room for all that comes. -/
theorem room_of_full (few : x.enq.length ≤ pipeWidth) (room : x.enq ≠ [] → s.full = false)
    (fits : s.int.count ≤ 32) (fits' : s.mem.count ≤ 32) :
    s.int.count + (enqInt x).length ≤ 32 ∧ s.mem.count + (enqMem x).length ≤ 32 := by
  by_cases none_ : x.enq = []
  · simp only [enqInt, enqMem, none_, List.filter_nil, List.length_nil]
    exact ⟨fits, fits'⟩
  · have room := room none_
    simp only [full, Bool.or_eq_false_iff, decide_eq_false_iff_not, Nat.not_lt] at room
    have ints := List.length_filter_le (fun e : Waiting α => !e.insn.isMem) x.enq
    have mems := List.length_filter_le (fun e : Waiting α => e.insn.isMem) x.enq
    unfold enqInt enqMem
    omega

omit [Inhabited α] in
theorem room (keeps : s.Keeps w x n alloc) (program : w.Keeps n alloc none)
    (sound : s.Sound w) : s.int.count + (enqInt x).length ≤ 32 ∧
      s.mem.count + (enqMem x).length ≤ 32 := by
  have few : x.enq.length ≤ pipeWidth := by
    have some_ := List.length_filter_le (fun x => x.1.dispatches) alloc.zipIdx
    rw [keeps.enq, dispatched, List.length_map]
    rw [List.length_zipIdx] at some_
    exact Nat.le_trans some_ program.alloc
  exact room_of_full few keeps.room sound.int.fits sound.mem.fits

omit [Inhabited α] in
theorem normal_sound (sound : s.Sound w) (keeps : s.Keeps w x n alloc)
    (program : w.Keeps n alloc none) : (s.normal x).Sound (w.next n alloc none) := by
  obtain ⟨roomInt, roomMem⟩ := room keeps program sound
  have new {e : Waiting α} (on : e ∈ x.enq) : (w.next n alloc none).Has e :=
    Program.has_dispatched program (keeps.enq ▸ on)
  refine ⟨Fifo.turn_sound sound.int roomInt keeps.intCount,
    Fifo.turn_sound sound.mem roomMem keeps.memCount, fun e on => ?_, fun e on => ?_⟩
  · rw [normal, Fifo.push_contents sound.int keeps.intCount _ roomInt] at on
    rcases List.mem_append.mp on with old | comes
    · have here := List.mem_of_mem_drop old
      exact (sound.intHas e here).next program (keeps.intWaits e here)
    · exact new (List.mem_filter.mp comes).1
  · rw [normal, Fifo.push_contents sound.mem keeps.memCount _ roomMem] at on
    rcases List.mem_append.mp on with old | comes
    · have here := List.mem_of_mem_drop old
      exact (sound.memHas e here).next program (keeps.memWaits e here)
    · exact new (List.mem_filter.mp comes).1

omit [Inhabited α] in
theorem survives_iff (head : x.robHead = w.head) (below : cut < robDepth)
    (tail : f.robTail = w.flushRobTail cut) :
    survives x f = fun e => decide (offset w.head e.robIdx < cut) := by
  funext e
  have older := olderThanTail_iff w e.robIdx below
  rw [survives, head, tail, Bool.eq_iff_iff, older, decide_eq_true_eq]

theorem cutRight (sound : s.Sound w) (keeps : s.Keeps w x n alloc)
    (program : w.Keeps n alloc (some (.upTo cut))) (below : cut < robDepth)
    (flush : x.flush = some f) (part : f.full = false) (tail : f.robTail = w.flushRobTail cut) :
    s.CutRight w x n cut := by
  have next : s.next x = s.partialFlush x f := by simp [DispatchQueue.next, flush, part]
  have test := survives_iff keeps.robHead below tail
  have int : (s.next x).int.contents =
      s.int.contents.filter fun e => decide (offset w.head e.robIdx < cut) := by
    rw [next, ← test]
    exact Fifo.pack_contents sound.int _ _
  have mem : (s.next x).mem.contents =
      s.mem.contents.filter fun e => decide (offset w.head e.robIdx < cut) := by
    rw [next, ← test]
    exact Fifo.pack_contents sound.mem _ _
  refine ⟨int, mem, by simp [deqInt, deqMem, flush], ?_, ?_, fun e on => ?_, fun e on => ?_⟩
  · rw [next]
    exact Fifo.pack_sound sound.int _ _
  · rw [next]
    exact Fifo.pack_sound sound.mem _ _
  · rw [int] at on
    obtain ⟨here, older⟩ := List.mem_filter.mp on
    have after := (sound.intHas e here).cut program (keeps.intWaits e here) (of_decide_eq_true older)
    exact after
  · rw [mem] at on
    obtain ⟨here, older⟩ := List.mem_filter.mp on
    have after := (sound.memHas e here).cut program (keeps.memWaits e here) (of_decide_eq_true older)
    exact after

omit [Inhabited α] in
theorem full_sound (s : DispatchQueue α) (w : Program α) :
    s.fullFlush.Sound (w.next n alloc (some .full)) where
  int := ⟨Nat.zero_le _, (slotAt_zero _).symm⟩
  mem := ⟨Nat.zero_le _, (slotAt_zero _).symm⟩
  intHas _ on := by cases on
  memHas _ on := by cases on

end DispatchQueue

end Rv64gc.Backend
