import Rv64gc.Cache.L2Lines
import Rv64gc.Cache.SimMemory

/-!
# The L2 and its memory

The two wired together, as the testbenches do. The memory answers reads in the order it has taken
them, which is all the L2 relies on, so a run of the two is a run of the L2 in front of an array of
lines.
-/

namespace Rv64gc.Cache

open Hdl

/-- The request multiplexer: a victim is written back before anything is read. -/
def L2.memReq (s : L2) : Option MemReq :=
  match s.inState .writeback with
  | some i => (s.mshr i).map fun m => ⟨m.evictAddr, some m.evictData⟩
  | none =>
    if s.respqCanAccept then ((s.inState .pending).bind s.mshr).map fun m => ⟨m.addr, none⟩
    else none

structure L2System (n : Nat) where
  l2 : L2
  memory : SimMemory n

namespace L2System

variable (s : L2System n) (latency : Nat) (x : L2In)

/-- What the L2 gets: the requests of `x`, and what memory drives. -/
def input : L2In := { x with memReqReady := s.memory.ready, memResp := s.memory.resp }

def next : L2System n where
  l2 := s.l2.next (s.input x)
  memory := s.memory.next latency s.l2.memReq

/-- An answer of memory finds room in the response queue. -/
def Roomy : Prop := s.memory.resp.isSome = true → s.l2.respqCanAccept = true

end L2System

/-- The line is in the aligned window of the memory's size. -/
def InWindow (n base : Nat) (l : Line) : Prop := l.toNat / 2 ^ n = base

/-- The requests are for lines of one window: beyond its size the memory wraps around. -/
def l2SystemRuns (latency base : Nat) (mem : BitVec (n + 6) → BitVec 8) :
    Machine (L2System n) L2In where
  reset := ⟨.reset, .reset mem⟩
  next s x := s.next latency x
  legal _ x := ∀ r, L2.arb x = some r → InWindow n base (lineOf r.addr)

/-- The memory as the L2 addresses it. -/
def windowLines (mem : BitVec (n + 6) → BitVec 8) (l : Line) : LineData :=
  (SimMemory.reset mem).line (l.setWidth n)

-- ---------------------------------------------------------------------
-- The lines that the L2 is about
-- ---------------------------------------------------------------------

/-- Every line in a way or an MSHR, and every victim, meets `P`. -/
structure L2.Within (P : Line → Prop) (s : L2) : Prop where
  ways : ∀ set w, (s.way set w).valid = true → P (lineAt set (s.way set w).tag)
  mshrs : ∀ i m, s.mshr i = some m → P (lineOf m.addr)
  victims : ∀ i m, s.mshr i = some m → m.state = .writeback → P (lineOf m.evictAddr)

namespace L2

variable {P : Line → Prop} {s : L2} {x : L2In} {set : SetIndex} {w : Fin l2Ways}

theorem Fills.line (fills : s.Fills x i m set w) :
    lineOf m.addr = lineAt set (s.wayNext x set w).tag := by
  rw [fills.tag, lineOf_eq, fills.at_.1]

theorem Within.ways_next (within : s.Within P) (set : SetIndex) (w : Fin l2Ways)
    (valid : (s.wayNext x set w).valid = true) : P (lineAt set (s.wayNext x set w).tag) := by
  rcases wayNext_cases s x set w with ⟨i, m, data, -, fills, -⟩ | ⟨i, m, -, fills, -⟩ |
    ⟨-, ⟨r, data, -, -, -, -, way⟩ | ⟨way, -⟩⟩
  · exact fills.line ▸ within.mshrs i m fills.mshr
  · exact fills.line ▸ within.mshrs i m fills.mshr
  · rw [way] at valid ⊢
    exact within.ways set w valid
  · rw [way] at valid ⊢
    exact within.ways set w valid

/-- Only an MSHR that has not been written back yet waits to be. -/
theorem state_of_advance (later : (s.advance x i m).state = .writeback) : m.state = .writeback := by
  unfold advance at later
  dsimp only at later
  split at later
  next => split at later <;> cases later
  next =>
    split at later
    next => cases later
    next => exact later

theorem Within.next (within : s.Within P) (requests : ∀ r, arb x = some r → P (lineOf r.addr)) :
    (s.next x).Within P where
  ways := within.ways_next
  mshrs i m here := by
    rcases mshrNext_some here with ⟨old, before, rfl, -⟩ | alloc
    · exact within.mshrs i old before
    · obtain ⟨r, w, fire, -, -, -, -, addr, -⟩ := alloc_some alloc
      rw [addr]
      exact requests r (Option.filter_eq_some_iff.mp fire).1
  victims i m here state := by
    rcases mshrNext_some here with ⟨old, before, rfl, -⟩ | alloc
    · exact within.victims i old before (state_of_advance state)
    · obtain ⟨r, w, -, -, -, -, -, -, -, -, -, -, -, -, evict, -, now⟩ := alloc_some alloc
      rw [evict, lineOf_evict]
      refine within.ways _ w ?_
      rw [state] at now
      split at now
      next needs => exact (Bool.and_eq_true _ _ |>.mp needs).1
      next => split at now <;> cases now

/-- What memory takes is the request of the L2. -/
theorem memReq_eq (s : L2) (x : L2In) : (s.memReq.filter fun _ => x.memReqReady) =
    match s.wbIssue x with
    | some i => (s.mshr i).map fun m => ⟨m.evictAddr, some m.evictData⟩
    | none => ((s.rdIssue x).bind s.mshr).map fun m => ⟨m.addr, none⟩ := by
  have all (r : Option MemReq) : (r.filter fun _ => true) = r := by cases r <;> rfl
  unfold memReq wbIssue rdIssue
  cases ready : x.memReqReady with
  | false => simp
  | true =>
    rw [all]
    cases first : s.inState .writeback with
    | some i => simp
    | none => cases s.respqCanAccept <;> simp

end L2

-- ---------------------------------------------------------------------
-- One cycle
-- ---------------------------------------------------------------------

theorem accepted_eq (s : L2System n) (x : L2In) :
    s.memory.accepted s.l2.memReq = match s.l2.wbIssue (s.input x) with
      | some i => (s.l2.mshr i).map fun m => ⟨m.evictAddr, some m.evictData⟩
      | none => ((s.l2.rdIssue (s.input x)).bind s.l2.mshr).map fun m => ⟨m.addr, none⟩ :=
  L2.memReq_eq s.l2 (s.input x)

/-- The L2 is the same, memory holds the lines of the window, and what is unanswered waits in the
queue or is being answered. -/
structure Simulates (base : Nat) (t : L2Run) (s : L2System n) : Prop where
  l2 : t.l2 = s.l2
  within : s.l2.Within (InWindow n base)
  sound : s.memory.fifo.Sound
  mem : ∀ l, InWindow n base l → t.mem l = s.memory.line (l.setWidth n)
  out : t.out.map Prod.snd =
    s.memory.resp.toList ++ s.memory.fifo.contents.map Prod.fst

namespace Simulates

variable {base latency : Nat} {t : L2Run} {s : L2System n} {x : L2In}

theorem setWidth_inj {l m : Line} (here : InWindow n base l) (there : InWindow n base m)
    (same : l.setWidth n = m.setWidth n) : l = m := by
  have low := congrArg BitVec.toNat same
  rw [BitVec.toNat_setWidth, BitVec.toNat_setWidth] at low
  apply BitVec.eq_of_toNat_eq
  rw [← Nat.div_add_mod l.toNat (2 ^ n), ← Nat.div_add_mod m.toNat (2 ^ n), low]
  unfold InWindow at here there
  rw [here, there]

theorem lineIdx_eq (a : Addr) : (lineIdx a : BitVec n) = (lineOf a).setWidth n := by
  refine BitVec.eq_of_getLsbD_eq fun k inside => ?_
  unfold lineIdx lineOf
  rw [BitVec.getLsbD_extractLsb', BitVec.getLsbD_setWidth, BitVec.getLsbD_extractLsb']
  by_cases wide : k < 58
  · simp [inside, wide]
  · simp [inside, wide, BitVec.getLsbD_of_ge a (6 + k) (by omega)]

/-- Memory answers the oldest read that it has not answered. -/
theorem keeps (simulates : Simulates base t s) : t.Keeps (s.input x) := by
  intro data resp
  have resp : s.memory.resp = some data := resp
  have out := simulates.out
  rw [resp] at out
  obtain ⟨o, rest, outs, rfl, -⟩ := List.map_eq_cons_iff.mp out
  exact ⟨o.1, by rw [outs]; rfl⟩

theorem mem_next (simulates : Simulates base t s) (l : Line) (here : InWindow n base l) :
    (t.next (s.input x)).mem l = (s.next latency x).memory.line (l.setWidth n) := by
  have before := simulates.mem l here
  have write : t.memWrite (s.input x) = ((s.l2.wbIssue (s.input x)).bind s.l2.mshr).map fun m =>
      (lineOf m.evictAddr, m.evictData) := by
    rw [L2Run.memWrite, simulates.l2]
  show ((t.memWrite (s.input x)).elim t.mem fun w => fun l => if l = w.1 then w.2 else t.mem l) l =
    (s.memory.next latency s.l2.memReq).line (l.setWidth n)
  rw [SimMemory.line_next, accepted_eq s x, write]
  cases issue : s.l2.wbIssue (s.input x) with
  | none =>
    cases read : (s.l2.rdIssue (s.input x)).bind s.l2.mshr with
    | none => exact before
    | some m => exact before
  | some i =>
    obtain ⟨m, mshr, state⟩ := L2.wbIssue_some issue
    have victim := simulates.within.victims i m mshr state
    simp only [Option.bind_some, mshr, Option.map_some, Option.elim_some]
    by_cases same : l = lineOf m.evictAddr
    · rw [if_pos same, if_pos (by rw [lineIdx_eq, same])]
    · rw [if_neg same, if_neg, before]
      rw [lineIdx_eq]
      exact fun index => same (setWidth_inj here victim index)

/-- What memory reads is the line of an array of lines. -/
theorem read_eq (simulates : Simulates base t s) (x : L2In) :
    s.memory.acceptRead s.l2.memReq = (t.memRead (s.input x)).map Prod.snd := by
  have read : t.memRead (s.input x) = ((s.l2.rdIssue (s.input x)).bind s.l2.mshr).map fun m =>
      (lineOf m.addr, t.mem (lineOf m.addr)) := by
    rw [L2Run.memRead, simulates.l2]
  rw [SimMemory.acceptRead, accepted_eq s x, read]
  cases issue : s.l2.wbIssue (s.input x) with
  | some i =>
    obtain ⟨m, mshr, -⟩ := L2.wbIssue_some issue
    have idle : s.l2.rdIssue (s.input x) = none := by
      unfold L2.wbIssue at issue
      split at issue
      next => simp [L2.rdIssue, issue]
      next => cases issue
    simp [mshr, idle]
  | none =>
    cases found : (s.l2.rdIssue (s.input x)).bind s.l2.mshr with
    | none => rfl
    | some m =>
      obtain ⟨i, -, mshr⟩ := Option.bind_eq_some_iff.mp found
      have line := simulates.mem _ (simulates.within.mshrs i m mshr)
      simp only [Option.map_some, Option.bind_some, Option.isSome_none, Bool.false_eq_true, if_false]
      rw [line, SimMemory.lineAddr_eq, ← lineIdx_eq]
      rfl

theorem next (simulates : Simulates base t s)
    (requests : ∀ r, L2.arb x = some r → InWindow n base (lineOf r.addr)) :
    Simulates base (t.next (s.input x)) (s.next latency x) where
  l2 := by
    show t.l2.next (s.input x) = s.l2.next (s.input x)
    rw [simulates.l2]
  within := simulates.within.next requests
  sound := SimMemory.sound_next simulates.sound
  mem l here := simulates.mem_next l here
  out := by
    have left : (if (s.input x).memResp.isSome then t.out.tail else t.out).map Prod.snd =
        s.memory.fifo.contents.map Prod.fst := by
      have out := simulates.out
      show (if s.memory.resp.isSome then t.out.tail else t.out).map Prod.snd = _
      cases resp : s.memory.resp with
      | none => rwa [resp] at out
      | some data =>
        rw [resp] at out
        rw [Option.isSome_some, if_pos rfl, List.map_tail, out]
        rfl
    have law := SimMemory.outstanding_next latency s.l2.memReq simulates.sound
    refine Eq.trans ?_ law.symm
    show (_ ++ (t.memRead (s.input x)).toList).map Prod.snd = _
    rw [List.map_append, left, simulates.read_eq x]
    cases t.memRead (s.input x) <;> rfl

theorem reset (base : Nat) (mem : BitVec (n + 6) → BitVec 8) :
    Simulates base (l2Runs (windowLines mem)).reset ⟨.reset, .reset mem⟩ where
  l2 := rfl
  within :=
    { ways := fun set w valid => (Bool.false_ne_true valid).elim
      mshrs := fun i m here => (Option.some_ne_none m here.symm).elim
      victims := fun i m here => (Option.some_ne_none m here.symm).elim }
  sound := ⟨Nat.zero_le _, rfl⟩
  mem l _ := by
    show windowLines mem l = _
    rw [windowLines]
  out := rfl

end Simulates

-- ---------------------------------------------------------------------
-- Runs
-- ---------------------------------------------------------------------

/-- A read that misses, when memory answers it. -/
def fetched : L2System 21 :=
  (((⟨.reset, .reset fun _ => 7⟩ : L2System 21).next 2 (readIn 0x40)).next 2 idleIn).next 2 idleIn

end Rv64gc.Cache
