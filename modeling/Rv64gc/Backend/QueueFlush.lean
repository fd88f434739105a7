import Rv64gc.Backend.DispatchQueue
import Rv64gc.Backend.IssueQueue
import Rv64gc.Hdl.Machine
import Rv64gc.Lsu.LoadsInFlight
import Rv64gc.Lsu.StoresInFlight

/-!
# One cut for all queues

Rename fills the reorder buffer, the load and store queues and the dispatch queue at once, dispatch
fills the issue queues, and a partial flush reaches all of them in the same cycle. Each finds the
entries before the cut by their ages. All take the same ones, except when the cut lies behind the
last of 128 instructions: then its pointer is the head, and all take it for the front of the program.
-/

namespace Rv64gc.Backend

open Hdl Lsu

/-- The issue queues. -/
inductive IqName where
  | int0
  | int1
  | int2
  | load
  | sta
  | std
deriving DecidableEq

/-- `IQ_INT_DEPTH` and `IQ_MEM_DEPTH` -/
def IqName.depth : IqName → Nat
  | .int0 | .int1 | .int2 => 24
  | .load | .sta | .std => 32

structure QueuesIn (α : Type) where
  retires : Nat
  alloc : List (Renamed α)
  flush : Option FlushTo
  sta : Option StaFill
  std : Option StdFill
  drainReady : Bool
  exec0 : Option ExecFill
  exec1 : Option ExecFill
  result0 : Option ResultFill
  result1 : Option ResultFill
  intCount : Nat
  memCount : Nat
  /-- `deq_iq_target` of the instructions that are not for memory. -/
  target : Nat → IqName
  /-- The lanes of an issue queue whose instruction issues at once. -/
  bypassed : IqName → Nat → Bool
  eligible : (q : IqName) → Fin q.depth → Bool
  eligiblePort1 : (q : IqName) → Fin q.depth → Bool
  suppress0 : IqName → Bool
  suppress1 : IqName → Bool

structure Queues (α : Type) where
  program : Program α
  stores : StoreQueue
  loads : LoadQueue
  dispatch : DispatchQueue α
  issue : (q : IqName) → IssueQueue q.depth α

namespace Queues

variable {α : Type} [Inhabited α] (s : Queues α) (i : QueuesIn α)

def reset : Queues α := ⟨⟨0, []⟩, .reset, .reset, .reset, fun _ => .reset⟩

/-- What all of them see of a flush. -/
def flushIn : Option FlushIn :=
  i.flush.map fun f =>
    match f with
    | .full => ⟨true, s.program.tail⟩
    | .upTo n => ⟨false, s.program.flushRobTail n⟩

def sqIn : SqIn where
  alloc := allocSlots s.program Renamed.isStore i.alloc
  sta := i.sta
  std := i.std
  commitCount := (s.program.insns.take i.retires).countP Renamed.isStore
  drainReady := i.drainReady
  robHead := s.program.head
  flush := s.flushIn i

def lqIn : LqIn where
  alloc := allocSlots s.program Renamed.isLoad i.alloc
  exec0 := i.exec0
  exec1 := i.exec1
  result0 := i.result0
  result1 := i.result1
  commitCount := (s.program.insns.take i.retires).countP Renamed.isLoad
  robHead := s.program.head
  flush := s.flushIn i

def dqIn : DqIn α where
  enq := dispatched s.program i.alloc
  intCount := i.intCount
  memCount := i.memCount
  robHead := s.program.head
  flush := s.flushIn i

/-- What dispatch sends to an issue queue: stores go to two. -/
def sent : IqName → List (Waiting α)
  | .load => (s.dispatch.deqMem (s.dqIn i)).filter fun e => e.insn.isLoad
  | .sta | .std => (s.dispatch.deqMem (s.dqIn i)).filter fun e => !e.insn.isLoad
  | q => ((s.dispatch.deqInt (s.dqIn i)).zipIdx.filter fun x => i.target x.2 == q).map (·.1)

def iqIn (q : IqName) : IqIn q.depth α where
  eligible := i.eligible q
  eligiblePort1 := i.eligiblePort1 q
  suppress0 := i.suppress0 q
  suppress1 := i.suppress1 q
  enq := ((s.sent i q).zipIdx.filter fun x => !i.bypassed q x.2).map (·.1)
  robHead := s.program.head
  flush := s.flushIn i

def next : Queues α where
  program := s.program.next i.retires i.alloc i.flush
  stores := s.stores.next (s.sqIn i)
  loads := s.loads.next (s.lqIn i)
  dispatch := s.dispatch.next (s.dqIn i)
  issue q := (s.issue q).next (s.iqIn i q)

/-- The instruction has not been executed. -/
def Pending (e : Waiting α) : Prop :=
  e ∈ s.dispatch.int.contents ∨ e ∈ s.dispatch.mem.contents ∨ ∃ q k, (s.issue q).slot k = some e

/-- What rename, commit and dispatch keep to. -/
structure Keeps : Prop where
  program : s.program.Keeps i.retires i.alloc i.flush
  /-- Rename waits for room in the queues that an instruction needs. -/
  storeRoom : i.alloc.any Renamed.isStore = true → s.stores.full = false
  loadRoom : i.alloc.any Renamed.isLoad = true → s.loads.full = false
  dispatchRoom : i.alloc.any Renamed.dispatches = true → s.dispatch.full = false
  intCount : i.intCount ≤ s.dispatch.int.count
  memCount : i.memCount ≤ s.dispatch.mem.count
  executed : ∀ e, s.Pending e → i.retires ≤ offset s.program.head e.robIdx

end Queues

def queueRuns (α : Type) [Inhabited α] : Machine (Queues α) (QueuesIn α) where
  reset := .reset
  next s i := s.next i
  legal s i := s.Keeps i

namespace Queues

variable {α : Type} [Inhabited α]

/-- All queues keep what is older than the cut, and the committed stores, as they were, drop the rest
and what comes in the same cycle, and describe what they keep. -/
structure CutRight (s : Queues α) (i : QueuesIn α) (cut : Nat) : Prop where
  stores : s.stores.CutRight s.program (s.sqIn i) i.retires cut
  loads : s.loads.CutRight s.program (s.lqIn i) i.retires cut
  dispatch : s.dispatch.CutRight s.program (s.dqIn i) i.retires cut
  issue : ∀ q, (s.issue q).CutRight s.program (s.iqIn i q) i.retires cut

/-- A partial flush does not keep all of a full reorder buffer. -/
def TellsApart (_ : Queues α) (i : QueuesIn α) : Prop :=
  ∀ cut, i.flush = some (.upTo cut) → cut < robDepth

variable {s : Queues α} {i : QueuesIn α} {cut : Nat}

-- ---------------------------------------------------------------------
-- The invariant
-- ---------------------------------------------------------------------

/-- Every queue has its part of the program. -/
structure Sound (s : Queues α) : Prop where
  stores : s.stores.Sound s.program
  loads : s.loads.Sound s.program
  dispatch : s.dispatch.Sound s.program
  issue : ∀ q, (s.issue q).Sound s.program

theorem Sound.reset : (reset : Queues α).Sound where
  stores := StoreQueue.reset_sound
  loads := ⟨⟨Nat.zero_le _, rfl⟩, fun _ => iff_of_false Bool.false_ne_true (Nat.not_lt_zero _), rfl⟩
  dispatch := ⟨⟨Nat.zero_le _, rfl⟩, ⟨Nat.zero_le _, rfl⟩, (fun _ on => by cases on),
    (fun _ on => by cases on)⟩
  issue _ := IssueQueue.reset_sound _

omit [Inhabited α] in
theorem Keeps.stores (keeps : s.Keeps i) :
    s.stores.Keeps s.program (s.sqIn i) i.retires i.alloc where
  alloc := rfl
  commit := rfl
  robHead := rfl
  room new := keeps.storeRoom (any_of_slots new)

omit [Inhabited α] in
theorem Keeps.loads (keeps : s.Keeps i) :
    s.loads.Keeps s.program (s.lqIn i) i.retires i.alloc where
  alloc := rfl
  commit := rfl
  robHead := rfl
  room new := keeps.loadRoom (any_of_slots new)

omit [Inhabited α] in
theorem Keeps.dispatch (keeps : s.Keeps i) :
    s.dispatch.Keeps s.program (s.dqIn i) i.retires i.alloc where
  enq := rfl
  robHead := rfl
  intCount := keeps.intCount
  memCount := keeps.memCount
  room new := by
    refine keeps.dispatchRoom ?_
    obtain ⟨e, on⟩ := List.exists_mem_of_ne_nil _ new
    obtain ⟨x, member, -⟩ := List.mem_map.mp on
    obtain ⟨here, goes⟩ := List.mem_filter.mp member
    exact List.any_eq_true.mpr ⟨x.1, List.fst_mem_of_mem_zipIdx here, goes⟩
  intWaits e on := keeps.executed e (.inl on)
  memWaits e on := keeps.executed e (.inr (.inl on))

omit [Inhabited α] in
/-- What dispatch sends comes from its queues. -/
theorem sent_pending {q : IqName} {e : Waiting α} (on : e ∈ s.sent i q) :
    e ∈ s.dispatch.int.contents ∨ e ∈ s.dispatch.mem.contents := by
  have ofMem {e : Waiting α} (on : e ∈ s.dispatch.deqMem (s.dqIn i)) :
      e ∈ s.dispatch.mem.contents := by
    unfold DispatchQueue.deqMem at on
    split at on
    · cases on
    · exact List.mem_of_mem_take on
  have ofInt {q : IqName} {e : Waiting α}
      (on : e ∈ ((s.dispatch.deqInt (s.dqIn i)).zipIdx.filter fun x => i.target x.2 == q).map (·.1)) :
      e ∈ s.dispatch.int.contents := by
    obtain ⟨x, member, rfl⟩ := List.mem_map.mp on
    have here := List.fst_mem_of_mem_zipIdx (List.mem_filter.mp member).1
    unfold DispatchQueue.deqInt at here
    split at here
    · cases here
    · exact List.mem_of_mem_take here
  cases q with
  | int0 => exact .inl (ofInt on)
  | int1 => exact .inl (ofInt on)
  | int2 => exact .inl (ofInt on)
  | load => exact .inr (ofMem (List.mem_filter.mp on).1)
  | sta => exact .inr (ofMem (List.mem_filter.mp on).1)
  | std => exact .inr (ofMem (List.mem_filter.mp on).1)

omit [Inhabited α] in
theorem Keeps.issue (keeps : s.Keeps i) (q : IqName) :
    (s.issue q).Keeps s.program (s.iqIn i q) i.retires fun e =>
      e ∈ s.dispatch.int.contents ∨ e ∈ s.dispatch.mem.contents where
  robHead := rfl
  enq e on := by
    obtain ⟨x, member, rfl⟩ := List.mem_map.mp on
    exact sent_pending (List.fst_mem_of_mem_zipIdx (List.mem_filter.mp member).1)
  waits k e here := keeps.executed e (.inr (.inr ⟨q, k, here⟩))

theorem cut_right (sound : s.Sound) (keeps : s.Keeps i) (flush : i.flush = some (.upTo cut))
    (below : cut < robDepth) : s.CutRight i cut := by
  have program : s.program.Keeps i.retires i.alloc (some (.upTo cut)) := flush ▸ keeps.program
  have seen : s.flushIn i = some ⟨false, s.program.flushRobTail cut⟩ := by simp [flushIn, flush]
  refine ⟨StoreQueue.cutRight sound.stores keeps.stores program below seen rfl rfl,
    LoadQueue.cutRight sound.loads keeps.loads program below seen rfl rfl,
    DispatchQueue.cutRight sound.dispatch keeps.dispatch program below seen rfl rfl, fun q => ?_⟩
  -- Nothing is sent in the cycle of a flush.
  have empty : (s.iqIn i q).enq = [] := by
    have ints : s.dispatch.deqInt (s.dqIn i) = [] := by simp [DispatchQueue.deqInt, dqIn, seen]
    have mems : s.dispatch.deqMem (s.dqIn i) = [] := by simp [DispatchQueue.deqMem, dqIn, seen]
    cases q <;> simp [iqIn, sent, ints, mems]
  exact IssueQueue.cutRight (sound.issue q) (keeps.issue q) program below seen rfl rfl empty

theorem Sound.next (sound : s.Sound) (keeps : s.Keeps i) (apart : s.TellsApart i) :
    (s.next i).Sound := by
  cases flush : i.flush with
  | none =>
    have program : s.program.Keeps i.retires i.alloc none := flush ▸ keeps.program
    have seen : s.flushIn i = none := by simp [flushIn, flush]
    have after : (s.next i).program = s.program.next i.retires i.alloc none := by
      simp [Queues.next, flush]
    refine ⟨?_, ?_, ?_, fun q => ?_⟩ <;> rw [after]
    · have normal : (s.next i).stores = s.stores.normal (s.sqIn i) := by
        simp [Queues.next, StoreQueue.next, sqIn, seen]
      rw [normal]
      exact StoreQueue.normal_sound sound.stores keeps.stores program
    · have normal : (s.next i).loads = s.loads.normal (s.lqIn i) := by
        simp [Queues.next, LoadQueue.next, lqIn, seen]
      rw [normal]
      exact LoadQueue.normal_sound sound.loads keeps.loads program
    · have normal : (s.next i).dispatch = s.dispatch.normal (s.dqIn i) := by
        simp [Queues.next, DispatchQueue.next, dqIn, seen]
      rw [normal]
      exact DispatchQueue.normal_sound sound.dispatch keeps.dispatch program
    · have normal : (s.next i).issue q = (s.issue q).normal (s.iqIn i q) := by
        simp [Queues.next, IssueQueue.next, iqIn, seen]
      rw [normal]
      refine IssueQueue.normal_sound (sound.issue q) (keeps.issue q) program fun e comes => ?_
      rcases comes with on | on
      · exact ⟨sound.dispatch.intHas e on, keeps.executed e (.inl on)⟩
      · exact ⟨sound.dispatch.memHas e on, keeps.executed e (.inr (.inl on))⟩
  | some f =>
    cases f with
    | full =>
      have seen : s.flushIn i = some ⟨true, s.program.tail⟩ := by simp [flushIn, flush]
      have after : (s.next i).program = s.program.next i.retires i.alloc (some .full) := by
        simp [Queues.next, flush]
      refine ⟨?_, ?_, ?_, fun q => ?_⟩ <;> rw [after]
      · have flushed : (s.next i).stores = s.stores.flushed (s.sqIn i) ⟨true, s.program.tail⟩ := by
          simp [Queues.next, StoreQueue.next, sqIn, seen]
        rw [flushed]
        exact StoreQueue.full_sound sound.stores keeps.stores rfl
      · have flushed : (s.next i).loads = s.loads.fullFlush := by
          simp [Queues.next, LoadQueue.next, lqIn, seen]
        rw [flushed]
        exact LoadQueue.full_sound _ _
      · have flushed : (s.next i).dispatch = s.dispatch.fullFlush := by
          simp [Queues.next, DispatchQueue.next, dqIn, seen]
        rw [flushed]
        exact DispatchQueue.full_sound _ _
      · have flushed : (s.next i).issue q = .reset := by
          simp [Queues.next, IssueQueue.next, iqIn, seen]
        rw [flushed]
        exact IssueQueue.reset_sound _
    | upTo cut =>
      have right := cut_right sound keeps flush (apart cut flush)
      have after : (s.next i).program = s.program.next i.retires [] (some (.upTo cut)) := by
        simp [Queues.next, flush, Program.next]
      refine ⟨?_, ?_, ?_, fun q => ?_⟩ <;> rw [after]
      · exact right.stores.sound
      · exact right.loads.sound
      · exact right.dispatch.sound
      · exact (right.issue q).sound

end Queues

/-- In a run whose partial flushes never keep all of a full reorder buffer, each of them leaves in
every queue what is older than the cut. -/
theorem partial_flush_cuts [Inhabited α] (s : Queues α)
    (reach : (queueRuns α).Reach Queues.TellsApart s) (i : QueuesIn α) (cut : Nat)
    (legal : s.Keeps i) (flush : i.flush = some (.upTo cut)) (below : cut < robDepth) :
    s.CutRight i cut := by
  have sound : s.Sound := by
    refine reach.invariant Queues.Sound .reset ?_
    intro s i _ sound legal apart
    exact sound.next legal apart
  exact Queues.cut_right sound legal flush below

-- ---------------------------------------------------------------------
-- A load and instructions that do nothing
-- ---------------------------------------------------------------------

namespace Queues

def aLoad : Renamed Unit := ⟨true, false, true, true, ()⟩

def eliminated : Renamed Unit := ⟨false, false, false, false, ()⟩

/-- Nothing is executed. -/
def holds (alloc : List (Renamed Unit)) (flush : Option FlushTo) : QueuesIn Unit where
  retires := 0
  alloc := alloc
  flush := flush
  sta := none
  std := none
  drainReady := false
  exec0 := none
  exec1 := none
  result0 := none
  result1 := none
  intCount := 0
  memCount := 0
  target _ := .int0
  bypassed _ _ := false
  eligible _ _ := false
  eligiblePort1 _ _ := false
  suppress0 _ := false
  suppress1 _ := false

def loadFirst : List (Renamed Unit) := aLoad :: List.replicate 3 eliminated

/-- What comes until the reorder buffer is full. -/
def fillsUp : List (List (Renamed Unit)) :=
  loadFirst :: List.replicate 31 (List.replicate 4 eliminated)

/-- There is room for what comes. -/
def fitsIn (s : Queues Unit) (alloc : List (Renamed Unit)) : Bool :=
  decide (s.program.insns.length + alloc.length ≤ robDepth) && decide (alloc.length ≤ pipeWidth) &&
    (!alloc.any Renamed.isStore || !s.stores.full) &&
    (!alloc.any Renamed.isLoad || !s.loads.full) &&
    (!alloc.any Renamed.dispatches || !s.dispatch.full)

theorem keeps_holds (s : Queues Unit) (alloc : List (Renamed Unit)) (flush : Option FlushTo)
    (fits : s.fitsIn alloc = true)
    (inside : ∀ n, flush = some (.upTo n) → n ≤ s.program.insns.length) :
    s.Keeps (holds alloc flush) := by
  have same : (holds alloc flush).alloc = alloc := rfl
  simp only [fitsIn, Bool.and_eq_true, decide_eq_true_eq, Bool.or_eq_true, Bool.not_eq_true'] at fits
  obtain ⟨⟨⟨⟨fits, few⟩, stores⟩, loads⟩, dispatch⟩ := fits
  refine ⟨⟨fits, few, Nat.zero_le _, Nat.zero_le _, fun n cut => ⟨Nat.zero_le _, inside n cut⟩⟩,
    fun here => ?_, fun here => ?_, fun here => ?_, Nat.zero_le _, Nat.zero_le _,
    fun _ _ => Nat.zero_le _⟩
  · exact stores.resolve_left (by simpa [same] using here)
  · exact loads.resolve_left (by simpa [same] using here)
  · exact dispatch.resolve_left (by simpa [same] using here)

/-- Every cycle of the list brings what there is room for. -/
def fillRun (s : Queues Unit) : List (List (Renamed Unit)) → Bool
  | [] => true
  | alloc :: rest => s.fitsIn alloc && fillRun (s.next (holds alloc none)) rest

theorem fillRun_reach (s : Queues Unit) (before : (queueRuns Unit).Reach TellsApart s)
    (allocs : List (List (Renamed Unit))) (fits : s.fillRun allocs = true) :
    (queueRuns Unit).Reach TellsApart
      ((queueRuns Unit).run s (allocs.map fun alloc => holds alloc none)) := by
  induction allocs generalizing s with
  | nil => exact before
  | cons alloc rest ih =>
    simp only [fillRun, Bool.and_eq_true] at fits
    have keeps := keeps_holds s alloc none fits.1 (fun _ none_ => by cases none_)
    exact ih _ (before.cycle keeps fun _ none_ => by cases none_) fits.2

end Queues

/-- The load is older than the cut and stays in its queue. -/
theorem partial_flush_cuts_load : ∃ s : Queues Unit,
    s.CutRight (Queues.holds [] (some (.upTo 1))) 1 ∧
      (((s.next (Queues.holds [] (some (.upTo 1)))).loads).ring.slot 0).valid = true := by
  have reach := Queues.fillRun_reach .reset .reset [Queues.loadFirst] (by decide +kernel)
  refine ⟨_, partial_flush_cuts _ reach _ 1 (Queues.keeps_holds _ _ _ (by decide +kernel) ?_) rfl
    (by decide), by decide +kernel⟩
  rintro n same
  cases same
  decide +kernel

/-- The last of 128 instructions flushes what comes after it: the load in front of all of them leaves
its queue. -/
theorem full_window_cut : ∃ s : Queues Unit, (queueRuns Unit).Reachable s ∧
    s.Keeps (Queues.holds [] (some (.upTo 128))) ∧
      ¬ s.CutRight (Queues.holds [] (some (.upTo 128))) 128 := by
  have reach := Queues.fillRun_reach .reset .reset Queues.fillsUp (by decide +kernel)
  refine ⟨_, reach.reachable, Queues.keeps_holds _ _ _ (by decide +kernel) ?_, fun right => ?_⟩
  · rintro n same
    cases same
    decide +kernel
  · have gone : ((((queueRuns Unit).run .reset (Queues.fillsUp.map fun alloc =>
        Queues.holds alloc none)).next (Queues.holds [] (some (.upTo 128)))).loads.ring.slot 0).valid =
          false := by decide +kernel
    have stays := (right.loads.kept 0).mpr (by decide +kernel)
    exact Bool.false_ne_true (gone.symm.trans stays)

end Rv64gc.Backend
