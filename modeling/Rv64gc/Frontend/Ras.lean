import Mathlib.Data.Finset.Max
import Rv64gc.Backend.Commit

/-!
# The return address stack

`ras.sv`: `RAS_DEPTH` addresses and a pointer to the next free slot, which wraps around. Pointer 0
also stands for the empty stack, which gives no address and does not pop.
-/

namespace Rv64gc.Frontend

open Backend.CommitIn (rasNone rasPush rasPop rasTosAfterBranch)

structure Ras where
  stack : Nat → BitVec 64
  tos : BitVec 5

/-- The pointer and the top entry that a mispredicted branch brings back. -/
structure RasRestore where
  tos : BitVec 5
  top : Option (BitVec 64)

structure RasIn where
  clear : Bool
  restore : Option RasRestore
  push : Option (BitVec 64)
  pop : Bool

namespace Ras

def reset : Ras := ⟨fun _ => 0, 0⟩

/-- `top_idx` and `restore_top_idx` -/
def topIdx (tos : BitVec 5) : Nat := if tos = 0 then rasDepth - 1 else tos.toNat - 1

def write (stack : Nat → BitVec 64) (k : Nat) (addr : BitVec 64) : Nat → BitVec 64 :=
  fun j => if j = k then addr else stack j

variable (s : Ras) (i : RasIn)

def popAddr : BitVec 64 := if s.tos = 0 then 0 else s.stack (topIdx s.tos)

def next : Ras :=
  if i.clear then reset
  else match i.restore with
    | some r =>
      { tos := r.tos
        stack := match r.top with
          | some addr => if r.tos ≠ 0 then write s.stack (topIdx r.tos) addr else s.stack
          | none => s.stack }
    | none =>
      match i.push with
      | some addr =>
        { stack := write s.stack s.tos.toNat addr
          tos := if s.tos = BitVec.ofNat 5 (rasDepth - 1) then 0 else s.tos + 1 }
      | none => if i.pop then { s with tos := if s.tos ≠ 0 then s.tos - 1 else s.tos } else s

end Ras

-- ---------------------------------------------------------------------
-- Calls and returns
-- ---------------------------------------------------------------------

/-- What the fetch stage tells the stack in a cycle. -/
inductive CallOp where
  | call (addr : BitVec 64)
  | ret
  | idle
deriving DecidableEq

def CallOp.rasIn : CallOp → RasIn
  | .call addr => ⟨false, none, some addr, false⟩
  | .ret => ⟨false, none, none, true⟩
  | .idle => ⟨false, none, none, false⟩

def CallOp.rasOp : CallOp → BitVec 2
  | .call _ => rasPush
  | .ret => rasPop
  | .idle => rasNone

/-- Commit follows the pointer the same way. -/
theorem next_tos (s : Ras) (op : CallOp) :
    (s.next op.rasIn).tos = rasTosAfterBranch s.tos op.rasOp := by
  cases op with
  | call addr => rfl
  | ret =>
    by_cases empty : s.tos = 0
    · simp [Ras.next, CallOp.rasIn, CallOp.rasOp, rasTosAfterBranch, empty]
    · have there : s.tos ≠ 0#5 := empty
      simp [Ras.next, CallOp.rasIn, CallOp.rasOp, rasTosAfterBranch, there]
  | idle => rfl

/-- A call that has not returned. -/
structure Call where
  addr : BitVec 64
  /-- The most calls that were outstanding above it at any one time. -/
  buried : Nat
deriving DecidableEq

structure CallRun where
  ras : Ras
  /-- The most recent first. -/
  outstanding : List Call

namespace CallRun

def bury (calls : List Call) : List Call :=
  calls.mapIdx fun k c => { c with buried := max c.buried (k + 1) }

def next (s : CallRun) (op : CallOp) : CallRun where
  ras := s.ras.next op.rasIn
  outstanding :=
    match op with
    | .call addr => ⟨addr, 0⟩ :: bury s.outstanding
    | .ret => s.outstanding.tail
    | .idle => s.outstanding

def depth (s : CallRun) : Nat := s.outstanding.length

/-- A return pops the address of its own call, unless `RAS_DEPTH` calls or more have been above
it. -/
def Predicts (s : CallRun) (op : CallOp) : Prop :=
  op = .ret → ∀ c, s.outstanding.head? = some c → c.buried < rasDepth → s.ras.popAddr = c.addr

end CallRun

/-- Where the first `n` cycles of a sequence lead. -/
def callsAfter (ops : List CallOp) (n : Nat) : CallRun := (ops.take n).foldl CallRun.next ⟨.reset, []⟩

def ReturnsPredicted (ops : List CallOp) : Prop :=
  ∀ n op, ops[n]? = some op → (callsAfter ops n).Predicts op

/-- Less than `RAS_DEPTH` calls are outstanding at any time. -/
def Shallow (ops : List CallOp) : Prop := ∀ n, (callsAfter ops n).depth < rasDepth

/-- All calls return, and none to address 0, which the predictors take for no address. -/
structure Completes (ops : List CallOp) : Prop where
  returns : (callsAfter ops ops.length).outstanding = []
  addr : ∀ addr, CallOp.call addr ∈ ops → addr ≠ 0

-- ---------------------------------------------------------------------
-- The pointer
-- ---------------------------------------------------------------------

namespace CallRun

variable {s : CallRun}

theorem call_tos (few : s.ras.tos.toNat < rasDepth) (addr : BitVec 64) :
    (s.next (.call addr)).ras.tos.toNat =
      if s.ras.tos.toNat = rasDepth - 1 then 0 else s.ras.tos.toNat + 1 := by
  show BitVec.toNat (if s.ras.tos = BitVec.ofNat 5 (rasDepth - 1) then _ else _) = _
  by_cases last : s.ras.tos.toNat = rasDepth - 1
  · rw [if_pos last, if_pos (BitVec.eq_of_toNat_eq last)]
    rfl
  · rw [if_neg last, if_neg fun same => last (by rw [same]; rfl), BitVec.toNat_add]
    exact Nat.mod_eq_of_lt (by simp [rasDepth] at few ⊢; omega)

theorem ret_tos (s : CallRun) : (s.next .ret).ras.tos.toNat = s.ras.tos.toNat - 1 := by
  show BitVec.toNat (if s.ras.tos ≠ 0 then s.ras.tos - 1 else s.ras.tos) = _
  by_cases empty : s.ras.tos = 0
  · simp [empty]
  · have some_ : s.ras.tos.toNat ≠ 0 := fun zero => empty (BitVec.eq_of_toNat_eq zero)
    have small := s.ras.tos.isLt
    rw [if_pos empty, BitVec.toNat_sub]
    simp
    omega

@[simp] theorem length_bury (calls : List Call) : (bury calls).length = calls.length := by
  simp [bury]

theorem getElem?_bury (calls : List Call) (k : Nat) :
    (bury calls)[k]? = calls[k]?.map fun c => { c with buried := max c.buried (k + 1) } := by
  simp [bury]

/-- The stack holds the addresses of the `tos` most recent calls. -/
structure Holds (s : CallRun) : Prop where
  few : s.ras.tos.toNat < rasDepth
  inside : s.ras.tos.toNat ≤ s.depth
  addr : ∀ k < s.ras.tos.toNat, ∀ c, s.outstanding[k]? = some c →
    s.ras.stack (s.ras.tos.toNat - 1 - k) = c.addr

theorem Holds.popAddr (holds : s.Holds) (some_ : s.ras.tos.toNat ≠ 0)
    (top : s.outstanding.head? = some c) : s.ras.popAddr = c.addr := by
  have there : ¬s.ras.tos = 0 := fun zero => some_ (by rw [zero]; rfl)
  rw [Ras.popAddr, Ras.topIdx, if_neg there, if_neg there]
  exact holds.addr 0 (by omega) c (List.head?_eq_getElem?.symm.trans top)

theorem holds_next (holds : s.Holds) (op : CallOp) : (s.next op).Holds := by
  obtain ⟨few, inside, addr⟩ := holds
  cases op with
  | call a =>
    have tos := call_tos few a
    constructor
    case few =>
      rw [tos]
      split <;> omega
    case inside =>
      show _ ≤ (_ :: bury s.outstanding).length
      rw [tos, List.length_cons, length_bury]
      have := inside
      unfold depth at this
      split <;> omega
    case addr =>
      intro k less c here
      rw [tos] at less ⊢
      split at less
      next => omega
      next notLast =>
        rw [if_neg notLast]
        show Ras.write s.ras.stack s.ras.tos.toNat a _ = _
        unfold Ras.write
        cases k with
        | zero =>
          rw [if_pos (by omega)]
          obtain rfl := Option.some.inj here
          rfl
        | succ k =>
          rw [if_neg (by omega)]
          obtain ⟨c, there, rfl⟩ := Option.map_eq_some_iff.mp ((getElem?_bury ..).symm.trans here)
          rw [← addr k (by omega) c there]
          congr 1
          omega
  | ret =>
    have tos := ret_tos s
    constructor
    case few => omega
    case inside =>
      show _ ≤ s.outstanding.tail.length
      rw [tos, List.length_tail]
      exact Nat.sub_le_sub_right inside 1
    case addr =>
      intro k less c here
      rw [tos] at less ⊢
      have there : s.outstanding[k + 1]? = some c := List.getElem?_tail.symm.trans here
      rw [← addr (k + 1) (by omega) c there]
      show s.ras.stack _ = s.ras.stack _
      congr 1
      omega
  | idle => exact ⟨few, inside, addr⟩

end CallRun

-- ---------------------------------------------------------------------
-- The cycles of a sequence
-- ---------------------------------------------------------------------

section

variable {ops : List CallOp}

theorem callsAfter_succ (here : ops[n]? = some op) :
    callsAfter ops (n + 1) = (callsAfter ops n).next op := by
  obtain ⟨inside, rfl⟩ := List.getElem?_eq_some_iff.mp here
  rw [callsAfter, List.take_succ_eq_append_getElem inside, List.foldl_append]
  rfl

theorem callsAfter_end (past : ops.length ≤ n) : callsAfter ops n = callsAfter ops ops.length := by
  rw [callsAfter, callsAfter, List.take_length, List.take_of_length_le past]

/-- What the steps of the sequence keep holds from some cycle on. -/
theorem callsAfter_induct (ops : List CallOp) {P : CallRun → Prop} (from_ : P (callsAfter ops m))
    (step : ∀ n op, ops[n]? = some op → P (callsAfter ops n) → P ((callsAfter ops n).next op))
    (n : Nat) (later : m ≤ n) : P (callsAfter ops n) := by
  induction n, later using Nat.le_induction with
  | base => exact from_
  | succ n later holds =>
    cases here : ops[n]? with
    | none =>
      have past := List.getElem?_eq_none_iff.mp here
      rwa [callsAfter_end (Nat.le_succ_of_le past), ← callsAfter_end past]
    | some op =>
      rw [callsAfter_succ here]
      exact step n op here holds

theorem holds_after (ops : List CallOp) (n : Nat) : (callsAfter ops n).Holds := by
  refine callsAfter_induct ops (m := 0) (P := CallRun.Holds) ?_
    (fun n op _ holds => CallRun.holds_next holds op) n (Nat.zero_le n)
  exact ⟨Nat.le_of_ble_eq_true rfl, Nat.zero_le _, fun k less => absurd less (Nat.not_lt_zero k)⟩

-- ---------------------------------------------------------------------
-- Shallow sequences
-- ---------------------------------------------------------------------

/-- As long as the pointer does not wrap, it counts the outstanding calls. -/
theorem tos_of_shallow (shallow : Shallow ops) (n : Nat) :
    (callsAfter ops n).ras.tos.toNat = (callsAfter ops n).depth := by
  refine callsAfter_induct ops (m := 0) (P := fun s => s.ras.tos.toNat = s.depth) rfl ?_ n
    (Nat.zero_le n)
  intro n op here counts
  have few := shallow (n + 1)
  rw [callsAfter_succ here] at few
  cases op with
  | call addr =>
    have deeper : ((callsAfter ops n).next (.call addr)).depth = (callsAfter ops n).depth + 1 := by
      simp [CallRun.depth, CallRun.next]
    rw [deeper] at few ⊢
    rw [CallRun.call_tos (holds_after ops n).few, if_neg (by omega), counts]
  | ret =>
    rw [CallRun.ret_tos, counts]
    exact List.length_tail.symm
  | idle => exact counts

theorem predicted_of_shallow (shallow : Shallow ops) : ReturnsPredicted ops := by
  intro n op here ret c top _
  have counts := tos_of_shallow shallow n
  refine (holds_after ops n).popAddr ?_ top
  rw [counts, CallRun.depth]
  cases outstanding : (callsAfter ops n).outstanding with
  | nil => simp [outstanding] at top
  | cons c rest => simp

-- ---------------------------------------------------------------------
-- Deep sequences
-- ---------------------------------------------------------------------

namespace CallRun

/-- Where at most `most` calls are outstanding at any time, that many bury a call at most. -/
def Bounded (most : Nat) (s : CallRun) : Prop :=
  ∀ k c, s.outstanding[k]? = some c → c.buried + (s.depth - k) ≤ most ∧ c.addr ≠ 0

theorem bounded_next {s : CallRun} (bounded : s.Bounded most) (few : (s.next op).depth ≤ most)
    (addr : ∀ a, op = .call a → a ≠ 0) : (s.next op).Bounded most := by
  intro k c here
  cases op with
  | call a =>
    have deeper : (s.next (.call a)).depth = s.depth + 1 := by simp [depth, next]
    rw [deeper] at few ⊢
    cases k with
    | zero =>
      obtain rfl := Option.some.inj here
      exact ⟨by simpa using few, addr a rfl⟩
    | succ k =>
      obtain ⟨c, there, rfl⟩ := Option.map_eq_some_iff.mp ((getElem?_bury ..).symm.trans here)
      obtain ⟨below, some_⟩ := bounded k c there
      have inside : k < s.depth := (List.getElem?_eq_some_iff.mp there).1
      refine ⟨?_, some_⟩
      show max c.buried (k + 1) + _ ≤ _
      omega
  | ret =>
    have there : s.outstanding[k + 1]? = some c := List.getElem?_tail.symm.trans here
    have shallower : (s.next .ret).depth = s.depth - 1 := List.length_tail
    obtain ⟨below, some_⟩ := bounded (k + 1) c there
    refine ⟨?_, some_⟩
    rw [shallower]
    omega
  | idle => exact bounded k c here

/-- The pointer does not reach down to the call at level `level`. -/
def Lost (level : Nat) (s : CallRun) : Prop := s.ras.tos.toNat + level ≤ s.depth

/-- A lost call never returns: its return would find the pointer at 0. -/
theorem lost_next {s : CallRun} (lost : s.Lost level) (bounded : s.Bounded most)
    (reach : most < level + rasDepth) (some_ : 0 < level) (few : s.ras.tos.toNat < rasDepth)
    (predicts : s.Predicts op) : (s.next op).Lost level := by
  unfold Lost at lost ⊢
  cases op with
  | call a =>
    have deeper : (s.next (.call a)).depth = s.depth + 1 := by simp [depth, next]
    rw [deeper, call_tos few]
    split <;> omega
  | ret =>
    have shallower : (s.next .ret).depth = s.depth - 1 := List.length_tail
    rw [shallower, ret_tos]
    by_contra returns
    have empty : s.ras.tos.toNat = 0 := by omega
    cases outstanding : s.outstanding with
    | nil =>
      simp [depth, outstanding] at lost
      omega
    | cons c rest =>
      obtain ⟨below, addr⟩ := bounded 0 c (by simp [outstanding])
      have popped := predicts rfl c (by simp [outstanding]) (by omega)
      rw [Ras.popAddr, if_pos (BitVec.eq_of_toNat_eq empty)] at popped
      exact addr popped.symm
  | idle => exact lost

end CallRun

/-- The deepest place of a sequence. -/
theorem exists_deepest (ops : List CallOp) :
    ∃ m ≤ ops.length, ∀ n, (callsAfter ops n).depth ≤ (callsAfter ops m).depth := by
  obtain ⟨m, inside, most⟩ := Finset.exists_max_image (Finset.range (ops.length + 1))
    (fun n => (callsAfter ops n).depth) ⟨0, by simp⟩
  refine ⟨m, by simpa [Nat.lt_succ_iff] using inside, fun n => ?_⟩
  by_cases within : n ≤ ops.length
  · exact most n (by simpa [Nat.lt_succ_iff] using within)
  · have same : callsAfter ops n = callsAfter ops ops.length := by
      rw [callsAfter, callsAfter, List.take_length, List.take_of_length_le (by omega)]
    rw [same]
    exact most ops.length (by simp)

theorem shallow_of_predicted (completes : Completes ops) (predicted : ReturnsPredicted ops) :
    Shallow ops := by
  by_contra deep
  obtain ⟨m, inside, most⟩ := exists_deepest ops
  have deepest : rasDepth ≤ (callsAfter ops m).depth := by
    by_contra few
    exact deep fun n => Nat.lt_of_le_of_lt (most n) (Nat.lt_of_not_le few)
  have kept : 0 < (callsAfter ops m).depth - (rasDepth - 1) ∧
      (callsAfter ops m).depth < (callsAfter ops m).depth - (rasDepth - 1) + rasDepth := by
    simp only [rasDepth] at deepest ⊢
    omega
  have bounded (n : Nat) : (callsAfter ops n).Bounded (callsAfter ops m).depth := by
    refine callsAfter_induct ops (m := 0) (P := CallRun.Bounded (callsAfter ops m).depth) ?_ ?_ n
      (Nat.zero_le n)
    · intro k c here
      cases here
    · intro n op here bounded
      refine CallRun.bounded_next bounded (callsAfter_succ here ▸ most (n + 1)) fun a call => ?_
      exact completes.addr a (call ▸ List.mem_of_getElem? here)
  -- of the calls outstanding in the deepest place, the lowest that may not be forgotten is
  have lost : (callsAfter ops ops.length).Lost ((callsAfter ops m).depth - (rasDepth - 1)) := by
    refine callsAfter_induct ops (P := CallRun.Lost ((callsAfter ops m).depth - (rasDepth - 1)))
      ?_ ?_ _ inside
    · have few := (holds_after ops m).few
      unfold CallRun.Lost
      omega
    · intro n op here lost
      exact CallRun.lost_next lost (bounded n) kept.2 kept.1 (holds_after ops n).few
        (predicted n op here)
  have returns : (callsAfter ops ops.length).depth = 0 := by
    rw [CallRun.depth, completes.returns]
    rfl
  unfold CallRun.Lost at lost
  omega

/-- The return address stack predicts the returns exactly of the sequences that stay above its last
level: there the pointer wraps, and the stack forgets all it holds. -/
theorem returns_predicted_iff (ops : List CallOp) :
    (Shallow ops → ReturnsPredicted ops) ∧
      (Completes ops → (ReturnsPredicted ops ↔ Shallow ops)) :=
  ⟨predicted_of_shallow, fun completes =>
    ⟨shallow_of_predicted completes, predicted_of_shallow⟩⟩

end

-- ---------------------------------------------------------------------
-- Too many calls
-- ---------------------------------------------------------------------

/-- `n` nested calls and their returns -/
def nestedCalls (n : Nat) : List CallOp :=
  (List.range n).map (fun k => .call (0x1004 + BitVec.ofNat 64 k)) ++ List.replicate n .ret

theorem returns_predicted_iff_nested : ReturnsPredicted (nestedCalls (rasDepth - 1)) := by
  refine (returns_predicted_iff _).1 fun n => ?_
  have few : ∀ n < 47, (callsAfter (nestedCalls (rasDepth - 1)) n).depth < rasDepth := by
    decide +kernel
  by_cases within : n < 47
  · exact few n within
  · have length : (nestedCalls (rasDepth - 1)).length = 46 := by decide +kernel
    rw [callsAfter_end (by omega), length]
    exact few 46 (by decide)

/-- The return of the innermost of 24 calls finds the stack empty. -/
theorem wrapped_stack_forgets :
    Completes (nestedCalls rasDepth) ∧ ¬ReturnsPredicted (nestedCalls rasDepth) := by
  refine ⟨⟨by decide +kernel, ?_⟩, fun predicted => ?_⟩
  · have calls : ∀ op ∈ nestedCalls rasDepth, op ≠ .call 0 := by decide +kernel
    rintro addr mem rfl
    exact calls _ mem rfl
  · have popped := predicted 24 .ret (by decide +kernel) rfl ⟨0x101b, 0⟩ (by decide +kernel)
      (by decide)
    exact absurd popped (by decide +kernel)

end Rv64gc.Frontend
