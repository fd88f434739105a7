import Rv64gc.Frontend.PredChecker
import Rv64gc.Hdl.Machine
import Rv64gc.Hdl.Ring

/-!
# The TAGE update spill queue

`rv64gc_core_top.sv`, with `TAGE_UPDATE_SPILL_ENABLE`: commit retires up to four conditional branches
a cycle and TAGE learns one. The others wait in a ring, and an update of the execute stage goes
first.
-/

namespace Rv64gc.Backend

open Hdl Frontend

abbrev spillDepth : Nat := 8
abbrev spillPtrBits : Nat := 3

/-- `tusq_entry_t` -/
structure TageUpdate where
  pc : BitVec 64
  taken : Bool
  misp : Bool
  target : BitVec 64
  ghr : BitVec ghrBits
deriving DecidableEq

/-- What the queue sees of a commit slot. -/
structure CommittedSlot where
  valid : Bool
  isBranch : Bool
  bpuType : BitVec 3
  update : TageUpdate

namespace CommittedSlot

variable (s : CommittedSlot)

def conditional : Bool := s.valid && s.isBranch && s.bpuType == btCond

/-- A branch backward, or one that was mispredicted. -/
def always : Bool := decide (s.update.target < s.update.pc) || s.update.misp

end CommittedSlot

structure SpillIn where
  slot : Nat → CommittedSlot
  /-- `exec_bpu_update_valid`, and what the execute stage has for TAGE -/
  exec : Option (Option TageUpdate)

namespace SpillIn

/-- `tusq_batch_c`; `seen` is `tusq_first_seen`. -/
def gather : Bool → List CommittedSlot → List TageUpdate
  | _, [] => []
  | seen, s :: rest =>
    if s.conditional then
      if !seen || s.always then s.update :: gather true rest else gather true rest
    else gather seen rest

def slots (i : SpillIn) : List CommittedSlot := (List.range pipeWidth).map i.slot

def batch (i : SpillIn) : List TageUpdate := gather false i.slots

end SpillIn

structure SpillQueue where
  head : BitVec spillPtrBits
  count : Nat
  mem : BitVec spillPtrBits → TageUpdate

namespace SpillQueue

def reset : SpillQueue := ⟨0, 0, fun _ => ⟨0, false, false, 0, 0⟩⟩

variable (s : SpillQueue) (i : SpillIn)

/-- The oldest first. -/
def contents : List TageUpdate := (List.range s.count).map fun k => s.mem (slotAt s.head k)

def pop : SpillQueue := { s with head := s.head + 1, count := s.count - 1 }

/-- The tail is `count` behind the head; what finds the queue full is dropped. -/
def push (x : TageUpdate) : SpillQueue :=
  if s.count < spillDepth then
    { s with
      count := s.count + 1
      mem := fun k => if k = slotAt s.head s.count then x else s.mem k }
  else s

/-- `tusq_out_c` -/
def out : Option TageUpdate :=
  if i.exec.isSome then none
  else if s.count ≠ 0 then some (s.mem s.head)
  else i.batch[0]?

/-- `tusq_pop_c` -/
def pops : Bool := i.exec.isNone && s.count != 0

/-- `tusq_enq_from_c` -/
def enqFrom : Nat := if i.exec.isNone && s.count == 0 && !i.batch.isEmpty then 1 else 0

def popped : SpillQueue := if s.pops i then s.pop else s

def next : SpillQueue := (i.batch.drop (s.enqFrom i)).foldl push (s.popped i)

/-- `bpu_tage_update` -/
def tageUpdate : Option TageUpdate :=
  match i.exec with
  | some update => update
  | none => s.out i

end SpillQueue

-- ---------------------------------------------------------------------
-- What is to be learned
-- ---------------------------------------------------------------------

/-- The oldest conditional branch that commits, and the younger ones that loop or were
mispredicted. -/
def SpillIn.inScope (i : SpillIn) : List TageUpdate :=
  match i.slots.filter (·.conditional) with
  | [] => []
  | first :: younger => first.update :: (younger.filter (·.always)).map (·.update)

/-- An update, and whether the queue was full when it came. -/
structure Arrival where
  update : TageUpdate
  full : Bool
deriving DecidableEq

/-- The updates come one after the other to a queue with `n` entries. -/
def arrivals : Nat → List TageUpdate → List Arrival
  | _, [] => []
  | n, x :: rest =>
    if n < spillDepth then ⟨x, false⟩ :: arrivals (n + 1) rest else ⟨x, true⟩ :: arrivals n rest

/-- The first one leaves at once when nothing waits. -/
def SpillQueue.arrivals (s : SpillQueue) (i : SpillIn) : List Arrival :=
  (i.batch.take (s.enqFrom i)).map (⟨·, false⟩) ++
    Backend.arrivals (s.popped i).count (i.batch.drop (s.enqFrom i))

structure SpillRun where
  queue : SpillQueue
  committed : List TageUpdate
  arrived : List Arrival
  presented : List TageUpdate

def spillRuns : Machine SpillRun SpillIn where
  reset := ⟨.reset, [], [], []⟩
  next s i := ⟨s.queue.next i, s.committed ++ i.inScope, s.arrived ++ s.queue.arrivals i,
    s.presented ++ (s.queue.out i).toList⟩
  legal _ _ := True

/-- TAGE has been given what is to be learned, in order and once each, up to what waits and what came
while the queue was full. -/
structure SpillRun.InOrder (s : SpillRun) (i : SpillIn) : Prop where
  all : s.arrived.map (·.update) = s.committed
  order : s.presented ++ s.queue.contents = (s.arrived.filter (!·.full)).map (·.update)
  /-- Something is lost only where the queue ends up full. -/
  lost : ∀ a ∈ s.queue.arrivals i, a.full = true → (s.queue.next i).contents.length = spillDepth
  /-- A free port is used. -/
  oldest : i.exec = none → s.queue.tageUpdate i = (s.queue.contents ++ i.inScope).head?
  taken : ∀ update, i.exec = some update → s.queue.tageUpdate i = update ∧ s.queue.out i = none

-- ---------------------------------------------------------------------
-- The batch
-- ---------------------------------------------------------------------

theorem gather_seen (l : List CommittedSlot) :
    SpillIn.gather true l =
      ((l.filter (·.conditional)).filter (·.always)).map (·.update) := by
  induction l with
  | nil => rfl
  | cons s rest ih =>
    cases conditional : s.conditional with
    | true => cases always : s.always <;> simp [SpillIn.gather, conditional, always, ih]
    | false => simp [SpillIn.gather, conditional, ih]

theorem batch_eq (i : SpillIn) : i.batch = i.inScope := by
  unfold SpillIn.batch SpillIn.inScope
  induction i.slots with
  | nil => rfl
  | cons s rest ih =>
    cases conditional : s.conditional with
    | true => simp [SpillIn.gather, conditional, gather_seen]
    | false => simpa [SpillIn.gather, conditional] using ih

-- ---------------------------------------------------------------------
-- The ring
-- ---------------------------------------------------------------------

namespace SpillQueue

variable {s : SpillQueue} {i : SpillIn}

@[simp] theorem length_contents (s : SpillQueue) : s.contents.length = s.count := by
  simp [contents]

theorem slots_apart (head : BitVec spillPtrBits) (less : j < k) (inside : k < spillDepth) :
    slotAt head j ≠ slotAt head k := by
  intro same
  have back := congrArg (offset head) same
  rw [offset_slotAt head (Nat.lt_trans less inside), offset_slotAt head inside] at back
  omega

theorem push_contents (room : s.count < spillDepth) (x : TageUpdate) :
    (s.push x).contents = s.contents ++ [x] := by
  simp only [push, room, if_true, contents, List.range_succ, List.map_append, List.map_cons,
    List.map_nil]
  congr 1
  refine List.map_congr_left fun k mem => ?_
  rw [if_neg (slots_apart s.head (List.mem_range.mp mem) room)]

theorem push_full (full : ¬s.count < spillDepth) (x : TageUpdate) : s.push x = s := by
  simp [push, full]

theorem pop_contents (s : SpillQueue) : s.pop.contents = s.contents.tail := by
  unfold pop contents
  cases s.count with
  | zero => rfl
  | succ n =>
    simp only [Nat.add_sub_cancel, List.range_succ_eq_map, List.map_cons, List.tail_cons,
      List.map_map]
    refine List.map_congr_left fun k _ => ?_
    rw [Function.comp, Nat.succ_eq_one_add, ← slotAt_slotAt]
    rfl

/-- An update is stored, or it finds the queue full. -/
theorem pushes (few : s.count ≤ spillDepth) (l : List TageUpdate) :
    (l.foldl push s).contents =
        s.contents ++ ((Backend.arrivals s.count l).filter (!·.full)).map (·.update) ∧
      (l.foldl push s).count ≤ spillDepth ∧
      ∀ a ∈ Backend.arrivals s.count l, a.full = true → (l.foldl push s).count = spillDepth := by
  induction l generalizing s with
  | nil => exact ⟨by simp [Backend.arrivals], few, by simp [Backend.arrivals]⟩
  | cons x rest ih =>
    rw [List.foldl_cons, Backend.arrivals]
    by_cases room : s.count < spillDepth
    · have more : (s.push x).count = s.count + 1 := by simp [push, room]
      obtain ⟨stored, fits, lost⟩ := ih (s := s.push x) (by omega)
      rw [more] at stored lost
      rw [if_pos room]
      refine ⟨?_, fits, ?_⟩
      · rw [stored, push_contents room]
        simp
      · intro a mem full
        obtain rfl | younger := List.mem_cons.mp mem
        · cases full
        · exact lost a younger full
    · obtain ⟨stored, fits, lost⟩ := ih few
      rw [if_neg room, push_full room]
      refine ⟨by simpa using stored, fits, ?_⟩
      intro a mem full
      obtain rfl | younger := List.mem_cons.mp mem
      · -- a full queue stays full
        have kept : (rest.foldl push s).contents.length ≥ s.contents.length := by
          rw [stored, List.length_append]
          omega
        simp only [length_contents] at kept
        omega
      · exact lost a younger full

theorem arrivals_update (n : Nat) (l : List TageUpdate) :
    (Backend.arrivals n l).map (·.update) = l := by
  induction l generalizing n with
  | nil => rfl
  | cons x rest ih =>
    rw [Backend.arrivals]
    split <;> simp [ih]

theorem contents_cons (some_ : s.count ≠ 0) : s.contents = s.mem s.head :: s.contents.tail := by
  obtain ⟨n, count⟩ := Nat.exists_eq_succ_of_ne_zero some_
  simp [contents, count, List.range_succ_eq_map]

-- ---------------------------------------------------------------------
-- One cycle
-- ---------------------------------------------------------------------

/-- Where the update comes from that a cycle presents. -/
inductive Presents (s : SpillQueue) (i : SpillIn) : Prop where
  | blocked (exec : i.exec.isSome = true) (out : s.out i = none) (popped : s.popped i = s)
      (enqFrom : s.enqFrom i = 0)
  | stored (exec : i.exec = none) (some_ : s.count ≠ 0) (out : s.out i = some (s.mem s.head))
      (popped : s.popped i = s.pop) (enqFrom : s.enqFrom i = 0)
  | through (exec : i.exec = none) (empty : s.count = 0) (out : s.out i = i.batch.head?)
      (popped : s.popped i = s) (enqFrom : i.batch.take (s.enqFrom i) = i.batch.head?.toList)

theorem presents (s : SpillQueue) (i : SpillIn) : Presents s i := by
  cases exec : i.exec with
  | some update =>
    exact .blocked (by simp [exec]) (by simp [out, exec]) (by simp [popped, pops, exec])
      (by simp [enqFrom, exec])
  | none =>
    by_cases empty : s.count = 0
    · refine .through exec empty ?_ (by simp [popped, pops, exec, empty]) ?_
      · simp [out, exec, empty, List.head?_eq_getElem?]
      · cases batch : i.batch <;> simp [enqFrom, exec, empty, batch]
    · exact .stored exec empty (by simp [out, exec, empty]) (by simp [popped, pops, exec, empty])
        (by simp [enqFrom, exec, empty])

theorem popped_few (few : s.count ≤ spillDepth) : (s.popped i).count ≤ spillDepth := by
  unfold popped
  split
  · exact Nat.le_trans (Nat.sub_le ..) few
  · exact few

/-- What is presented leaves from the front, and what arrives comes behind. -/
theorem cycle_order (few : s.count ≤ spillDepth) :
    (s.out i).toList ++ (s.next i).contents =
      s.contents ++ ((s.arrivals i).filter (!·.full)).map (·.update) := by
  obtain ⟨stored, -, -⟩ := pushes (popped_few few (i := i)) (i.batch.drop (s.enqFrom i))
  rw [next, stored, arrivals, List.filter_append, List.map_append]
  cases presents s i with
  | blocked _ out popped enqFrom =>
    rw [out, popped, enqFrom]
    simp
  | stored _ some_ out popped enqFrom =>
    rw [out, popped, enqFrom, pop_contents]
    conv_rhs => rw [contents_cons some_]
    simp
  | through _ empty out popped enqFrom =>
    have none : s.contents = [] := by simp [contents, empty]
    have first : ((i.batch.head?.toList).map (Arrival.mk · false)).filter (!·.full) =
        (i.batch.head?.toList).map (Arrival.mk · false) := by
      cases i.batch.head? <;> rfl
    rw [out, popped, enqFrom, none, first]
    simp [Function.comp_def]

theorem cycle_all (s : SpillQueue) (i : SpillIn) : (s.arrivals i).map (·.update) = i.inScope := by
  rw [arrivals, List.map_append, arrivals_update, List.map_map]
  simp [Function.comp_def, ← batch_eq]

theorem next_few (few : s.count ≤ spillDepth) : (s.next i).count ≤ spillDepth :=
  (pushes (popped_few few) _).2.1

theorem cycle_lost (few : s.count ≤ spillDepth) (mem : a ∈ s.arrivals i) (full : a.full = true) :
    (s.next i).contents.length = spillDepth := by
  obtain ⟨-, -, lost⟩ := pushes (popped_few few (i := i)) (i.batch.drop (s.enqFrom i))
  rw [length_contents]
  obtain through | pushed := List.mem_append.mp mem
  · obtain ⟨x, -, rfl⟩ := List.mem_map.mp through
    cases full
  · exact lost a pushed full

end SpillQueue

-- ---------------------------------------------------------------------
-- Runs
-- ---------------------------------------------------------------------

structure SpillRun.Ordered (s : SpillRun) : Prop where
  few : s.queue.count ≤ spillDepth
  all : s.arrived.map (·.update) = s.committed
  order : s.presented ++ s.queue.contents = (s.arrived.filter (!·.full)).map (·.update)

theorem ordered_of_reach (reach : spillRuns.Reachable s) : s.Ordered := by
  refine reach.invariant SpillRun.Ordered ⟨Nat.zero_le _, rfl, rfl⟩ ?_
  intro s i _ ⟨few, all, order⟩ _ _
  refine ⟨SpillQueue.next_few few, ?_, ?_⟩
  · show (s.arrived ++ s.queue.arrivals i).map (·.update) = s.committed ++ i.inScope
    rw [List.map_append, all, SpillQueue.cycle_all]
  · show s.presented ++ (s.queue.out i).toList ++ (s.queue.next i).contents =
      ((s.arrived ++ s.queue.arrivals i).filter (!·.full)).map (·.update)
    rw [List.append_assoc, SpillQueue.cycle_order few, ← List.append_assoc, order,
      List.filter_append, List.map_append]

/-- TAGE learns in program order, each update once, and misses only what finds the queue full. -/
theorem updates_in_order (reach : spillRuns.Reachable s) (i : SpillIn) : s.InOrder i := by
  obtain ⟨few, all, order⟩ := ordered_of_reach reach
  refine ⟨all, order, fun a mem full => SpillQueue.cycle_lost few mem full, ?_, ?_⟩
  · intro free
    have out : s.queue.tageUpdate i = s.queue.out i := by simp [SpillQueue.tageUpdate, free]
    rw [out]
    cases SpillQueue.presents s.queue i with
    | blocked exec => simp [free] at exec
    | stored _ some_ out =>
      rw [out, SpillQueue.contents_cons some_]
      rfl
    | through _ empty out => simp [out, SpillQueue.contents, empty, batch_eq]
  · intro update taken
    simp [SpillQueue.tageUpdate, SpillQueue.out, taken]

-- ---------------------------------------------------------------------
-- A full queue
-- ---------------------------------------------------------------------

/-- Four branches that loop, at `pc` and the three addresses behind it. -/
def loops (pc : BitVec 64) (exec : Option (Option TageUpdate)) : SpillIn where
  slot k := ⟨true, true, btCond, ⟨pc + BitVec.ofNat 64 k, true, false, 0, 0⟩⟩
  exec := exec

def afterLoops : SpillRun :=
  spillRuns.run spillRuns.reset [loops 0x100 (some none), loops 0x200 (some none), loops 0x300 none]

theorem updates_in_order_full :
    afterLoops.InOrder (loops 0x400 none) ∧
      afterLoops.presented.map (·.pc) = [0x100] ∧
      (afterLoops.arrived.filter (·.full)).map (·.update.pc) = [0x301, 0x302, 0x303] := by
  refine ⟨updates_in_order ?_ _, by decide +kernel, by decide +kernel⟩
  exact Machine.Reachable.run .reset ⟨trivial, trivial, trivial, trivial⟩

end Rv64gc.Backend
