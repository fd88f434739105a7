import Rv64gc.Frontend.LineFetch
import Rv64gc.Hdl.Machine

/-!
# The duplicate guard

`ifu_duplicate_guard` keeps a packet that has gone to the packet buffer from going there again while
fetch has not moved on: it remembers the last packet that went, and for a few cycles the one that
fetch was redirected away from. `instr_compact` sends what it lets through.
-/

namespace Rv64gc.Frontend

open Hdl

/-- What a packet is made from; no owner when `work_ftq_valid_i` is low. -/
@[ext]
structure FetchWork where
  pc : Addr
  owner : Option FtqId

structure GuardIn where
  redirect : Bool
  bpuRedirect : Bool
  bpuTarget : Addr
  /-- `fe_stall`, which also holds `instr_compact` -/
  stall : Bool
  /-- `frontend_hold || frontend_fetch_halt` -/
  hold : Bool
  packetReady : Bool
  workValid : Bool
  dataValid : Bool
  finalCount : BitVec 3
  bpBranchFound : Bool
  bpTaken : Bool
  subgroupSplit : Bool
  bpTarget : Addr
  /-- `seq_next_pc_i`, when `seq_valid_i` -/
  seqNextPc : Option Addr
  f1Pc : Addr
  work : FetchWork

namespace GuardIn

variable (i : GuardIn)

def hasEmitPayload : Bool := i.workValid && i.dataValid && decide (0#3 < i.finalCount)

/-- Where fetch goes on after the packet. -/
def nextPc : Addr :=
  if i.bpBranchFound && i.bpTaken && !i.subgroupSplit && !i.redirect then i.bpTarget
  else i.seqNextPc.getD i.f1Pc

def turns : Bool := i.bpuRedirect && !i.stall

/-- Where fetch goes on after the cycle. -/
def goesTo : Addr := if i.turns then i.bpuTarget else i.nextPc

end GuardIn

structure DuplicateGuard where
  lastEmitValid : Bool
  lastEmitPc : Addr
  lastEmitNextPc : Addr
  lastEmitOwner : Option FtqId
  replayBlockValid : Bool
  replayBlockPc : Addr
  replayBlockOwner : Option FtqId
  replayBlockAge : BitVec 2

namespace DuplicateGuard

def reset : DuplicateGuard := ⟨false, 0, 0, none, false, 0, none, 0⟩

variable (s : DuplicateGuard) (i : GuardIn)

def lastEmitHit : Bool :=
  s.lastEmitValid && s.lastEmitPc == i.work.pc && s.lastEmitOwner == i.work.owner

def replayBlockOwnerMatch : Bool := s.replayBlockOwner == i.work.owner

def replayBlockHit : Bool :=
  s.replayBlockValid && s.replayBlockPc == i.work.pc && s.replayBlockOwnerMatch i

def duplicateSuppressed : Bool := i.hasEmitPayload && (s.lastEmitHit i || s.replayBlockHit i)

def duplicateNextPc : Addr :=
  if s.lastEmitHit i then s.lastEmitNextPc else i.seqNextPc.getD i.f1Pc

/-- `instr_compact` sends the packet. -/
def willEmit : Bool :=
  i.hasEmitPayload && !s.duplicateSuppressed i && i.packetReady && !i.redirect &&
    !(i.hold || i.stall)

def emitted : DuplicateGuard :=
  if s.willEmit i then
    { s with
      lastEmitValid := true
      lastEmitPc := i.work.pc
      lastEmitOwner := i.work.owner
      lastEmitNextPc := i.nextPc }
  else s

def unblocked : DuplicateGuard := { s with replayBlockValid := false, replayBlockOwner := none }

def next : DuplicateGuard :=
  if i.redirect then
    { s with
      lastEmitValid := false
      lastEmitOwner := none
      replayBlockValid := false
      replayBlockOwner := none
      lastEmitNextPc := 0
      replayBlockPc := 0
      replayBlockAge := 0 }
  else if i.bpuRedirect && !i.stall then
    { lastEmitValid := i.bpuTarget != i.work.pc
      lastEmitPc := i.work.pc
      lastEmitNextPc := i.bpuTarget
      lastEmitOwner := i.work.owner
      replayBlockValid := i.bpuTarget != i.work.pc
      replayBlockPc := i.work.pc
      replayBlockOwner := i.work.owner
      replayBlockAge := 2 }
  else if s.replayBlockValid && !i.stall then
    if s.willEmit i && (i.work.pc != s.replayBlockPc || !s.replayBlockOwnerMatch i) then
      { (s.emitted i).unblocked with replayBlockAge := 0 }
    else if s.replayBlockHit i && i.hasEmitPayload then
      { (s.emitted i).unblocked with replayBlockAge := 0 }
    else if s.replayBlockAge = 0 then (s.emitted i).unblocked
    else { s.emitted i with replayBlockAge := s.replayBlockAge - 1 }
  else s.emitted i

/-- The packet goes to the buffer, or fetch is turned away from it. -/
def passes : Bool :=
  !i.redirect && if i.turns then i.bpuTarget != i.work.pc else s.willEmit i

/-- Nothing goes and nothing is redirected. -/
def idle : Bool := !i.redirect && !i.turns && !s.willEmit i

/-- The packet that went last, with where fetch went on. -/
def last : Option (FetchWork × Addr) :=
  if s.lastEmitValid then some (⟨s.lastEmitPc, s.lastEmitOwner⟩, s.lastEmitNextPc) else none

/-- The packet that is blocked is the one that went last. -/
def Blocks : Prop :=
  s.replayBlockValid = true →
    s.lastEmitValid = true ∧ s.replayBlockPc = s.lastEmitPc ∧ s.replayBlockOwner = s.lastEmitOwner

end DuplicateGuard

def guardRuns : Machine DuplicateGuard GuardIn where
  reset := .reset
  next := .next
  legal _ _ := True

namespace DuplicateGuard

variable {s : DuplicateGuard} {i : GuardIn}

/-- All cycles are idle. -/
def Idle (s : DuplicateGuard) : List GuardIn → Prop
  | [] => True
  | i :: rest => s.idle i = true ∧ (s.next i).Idle rest

theorem Idle.append {first rest : List GuardIn} :
    s.Idle (first ++ rest) ↔ s.Idle first ∧ (guardRuns.run s first).Idle rest := by
  induction first generalizing s with
  | nil => exact ⟨fun idle => ⟨trivial, idle⟩, And.right⟩
  | cons i first ih => exact (and_congr_right fun _ => ih).trans and_assoc.symm

-- ---------------------------------------------------------------------
-- One cycle
-- ---------------------------------------------------------------------

theorem willEmit_not_hit (emits : s.willEmit i = true) :
    s.lastEmitHit i = false ∧ s.replayBlockHit i = false ∧ i.stall = false := by
  simp only [willEmit, duplicateSuppressed, Bool.and_eq_true, Bool.not_eq_true',
    Bool.and_eq_false_iff, Bool.or_eq_false_iff] at emits
  obtain ⟨⟨⟨⟨payload, none_ | ⟨last, replay⟩⟩, -⟩, -⟩, -, going⟩ := emits
  · cases none_.symm.trans payload
  · exact ⟨last, replay, going⟩

theorem last_emitted : (s.emitted i).last =
    if s.willEmit i then some (i.work, i.nextPc) else s.last := by
  unfold emitted
  split <;> rfl

theorem last_next : (s.next i).last =
    if s.idle i then s.last else if s.passes i then some (i.work, i.goesTo) else none := by
  cases redirect : i.redirect with
  | true => simp [next, idle, passes, redirect, last]
  | false =>
    cases turns : i.turns with
    | true =>
      have branch : (i.bpuRedirect && !i.stall) = true := turns
      cases away : i.bpuTarget != i.work.pc <;>
        simp [next, idle, passes, redirect, turns, branch, last, away, GuardIn.goesTo]
    | false =>
      have branch : (i.bpuRedirect && !i.stall) = false := turns
      have kept : (s.next i).last = (s.emitted i).last := by
        unfold next
        rw [redirect, branch]
        simp only [Bool.false_eq_true, if_false]
        split_ifs <;> rfl
      rw [kept, last_emitted]
      cases emits : s.willEmit i <;>
        simp [idle, passes, redirect, turns, emits, GuardIn.goesTo]

theorem emitted_of_not (silent : s.willEmit i = false) : s.emitted i = s := by
  rw [emitted, silent]
  rfl

theorem emitted_replayBlockValid : (s.emitted i).replayBlockValid = s.replayBlockValid := by
  unfold emitted
  split <;> rfl

/-- A packet that is not blocked ends the block. -/
theorem Blocks.next (blocks : s.Blocks) : (s.next i).Blocks := by
  intro valid
  cases redirect : i.redirect with
  | true =>
    rw [DuplicateGuard.next, if_pos redirect] at valid
    cases valid
  | false =>
    have onward : ¬ i.redirect = true := by simp [redirect]
    by_cases turns : (i.bpuRedirect && !i.stall) = true
    · rw [DuplicateGuard.next, if_neg onward, if_pos turns] at valid ⊢
      exact ⟨valid, rfl, rfl⟩
    · rw [DuplicateGuard.next, if_neg onward, if_neg turns] at valid ⊢
      cases emits : s.willEmit i with
      | true =>
        obtain ⟨-, pass, going⟩ := willEmit_not_hit emits
        cases blocked : s.replayBlockValid with
        | true =>
          have new : (i.work.pc != s.replayBlockPc || !s.replayBlockOwnerMatch i) = true := by
            rw [replayBlockHit, blocked, Bool.true_and, Bool.and_eq_false_iff] at pass
            rcases pass with other | other
            · rw [beq_eq_false_iff_ne] at other
              simp [bne_iff_ne, Ne.symm other]
            · simp [other]
          simp [blocked, going, emits, new, unblocked] at valid
        | false =>
          simp [blocked, emitted_replayBlockValid] at valid
      | false =>
        rw [emitted_of_not emits] at valid ⊢
        simp only [emits, Bool.false_and, Bool.false_eq_true, if_false] at valid ⊢
        -- The block is over, or only older.
        split_ifs at valid ⊢
        all_goals first | cases valid | exact blocks valid

theorem Blocks.reset : (reset : DuplicateGuard).Blocks := nofun

theorem blocks_run (xs : List GuardIn) : (guardRuns.run .reset xs).Blocks := by
  induction xs using List.reverseRecOn with
  | nil => exact .reset
  | append_singleton xs x ih =>
    rw [Machine.run_append]
    exact ih.next

/-- The block never decides. -/
theorem Blocks.lastEmitHit (blocks : s.Blocks) (hit : s.replayBlockHit i = true) :
    s.lastEmitHit i = true := by
  simp only [replayBlockHit, replayBlockOwnerMatch, Bool.and_eq_true] at hit
  obtain ⟨valid, pc, owner⟩ := blocks hit.1.1
  simp only [DuplicateGuard.lastEmitHit, Bool.and_eq_true]
  exact ⟨⟨valid, pc ▸ hit.1.2⟩, owner ▸ hit.2⟩

theorem lastEmitHit_iff {a : Addr} : s.lastEmitHit i = true ∧ s.lastEmitNextPc = a ↔
    s.last = some (i.work, a) := by
  unfold DuplicateGuard.lastEmitHit last
  cases s.lastEmitValid with
  | false => simp
  | true => simp [FetchWork.ext_iff, and_assoc]

theorem Blocks.suppressed_iff {a : Addr} (blocks : s.Blocks) :
    s.duplicateSuppressed i = true ∧ s.duplicateNextPc i = a ↔
      i.hasEmitPayload = true ∧ s.last = some (i.work, a) := by
  have hit : (s.lastEmitHit i || s.replayBlockHit i) = s.lastEmitHit i := by
    cases replay : s.replayBlockHit i with
    | false => exact Bool.or_false _
    | true => rw [blocks.lastEmitHit replay]; rfl
  rw [duplicateSuppressed, hit, duplicateNextPc, Bool.and_eq_true, ← lastEmitHit_iff, and_assoc]
  refine and_congr_right fun _ => and_congr_right fun hit => ?_
  rw [if_pos hit]

-- ---------------------------------------------------------------------
-- Runs
-- ---------------------------------------------------------------------

theorem passes_not_idle (passes : s.passes i = true) : s.idle i = false := by
  cases turns : i.turns <;> simp_all [DuplicateGuard.passes, idle]

theorem last_idle {xs : List GuardIn} (quiet : s.Idle xs) : (guardRuns.run s xs).last = s.last := by
  induction xs generalizing s with
  | nil => rfl
  | cons x rest ih =>
    have kept : (s.next x).last = s.last := by rw [last_next, if_pos quiet.1]
    exact (ih quiet.2).trans kept

theorem last_passes (passes : s.passes i = true) : (s.next i).last = some (i.work, i.goesTo) := by
  rw [last_next, passes_not_idle passes, passes]
  rfl

/-- What went last went in some cycle, and the later ones are idle. -/
theorem last_run {w : FetchWork} {a : Addr} (xs : List GuardIn)
    (went : (guardRuns.run .reset xs).last = some (w, a)) :
    ∃ before x after, xs = before ++ x :: after ∧ (guardRuns.run .reset before).passes x = true ∧
      x.work = w ∧ x.goesTo = a ∧ ((guardRuns.run .reset before).next x).Idle after := by
  induction xs using List.reverseRecOn with
  | nil => cases went
  | append_singleton xs y ih =>
    rw [Machine.run_append] at went
    have went : ((guardRuns.run .reset xs).next y).last = some (w, a) := went
    rw [last_next] at went
    split_ifs at went with idle passes
    · obtain ⟨before, x, after, rfl, passes, work, there, quiet⟩ := ih went
      refine ⟨before, x, after ++ [y], List.append_assoc .., passes, work, there, ?_⟩
      refine Idle.append.mpr ⟨quiet, ?_, trivial⟩
      rwa [Machine.run_append] at idle
    · obtain ⟨rfl, rfl⟩ := Prod.ext_iff.mp (Option.some.inj went)
      exact ⟨xs, y, [], rfl, passes, rfl, rfl, trivial⟩

end DuplicateGuard

end Rv64gc.Frontend
