import Rv64gc.Backend.QueueFlush
import Rv64gc.Decode.Fusion
import Rv64gc.Hdl.Select

/-!
# Steering

The dispatch queue lets as many instructions go as the issue queues have room for and names the queue
of each. The core counts them once more per issue queue and drops what finds both enqueue ports taken.
-/

namespace Rv64gc.Backend

open Hdl Lsu Decode

/-- What dispatch sees of an instruction. -/
abbrev Uop : Type := Waiting DecodedInsn

instance : Inhabited DecodedInsn := ⟨defaults 0 0 false⟩

/-- The mark by which dispatch sorts is the unit, and those by which it counts agree with it. -/
structure Classed (d : DecodedInsn) : Prop where
  load : d.isLoad = (d.fuType == .load)
  store : d.isStore = (d.fuType == .sta)
  split : d.fuType ≠ .std

/-- `is_mem` -/
def isMem (d : DecodedInsn) : Bool := d.fuType == .load || d.fuType == .sta || d.fuType == .std

/-- A decoded instruction on its way to dispatch. -/
def renamed (d : DecodedInsn) : Renamed DecodedInsn :=
  ⟨d.isLoad, d.isStore, isMem d, !d.hasException, d⟩

/-- The units behind an issue queue: ALU0, ALU1 and the branch units, ALU2 and the multiplier, ALU3,
the divider, the CSRs and the floating-point unit, and the two halves of the load and store unit. -/
def executes (q : IqName) (d : DecodedInsn) : Bool :=
  match q with
  | .int0 => !d.isFpOp && (d.fuType == .alu || d.fuType == .bru)
  | .int1 => !d.isFpOp && (d.fuType == .alu || d.fuType == .mul)
  | .int2 => d.isFpOp || d.fuType == .alu || d.fuType == .div || d.fuType == .csr
  | .load => d.fuType == .load
  | .sta | .std => d.fuType == .sta

-- ---------------------------------------------------------------------
-- What decode sends
-- ---------------------------------------------------------------------

/-- The unit and the marks that go with it. -/
def classOf (d : DecodedInsn) : FuType × Bool × Bool := (d.fuType, d.isLoad, d.isStore)

def goodClass (c : FuType × Bool × Bool) : Bool :=
  c.2.1 == (c.1 == .load) && c.2.2 == (c.1 == .sta) && c.1 != .std

theorem classed_iff {d : DecodedInsn} : Classed d ↔ goodClass (classOf d) = true := by
  simp only [goodClass, classOf, Bool.and_eq_true, beq_iff_eq, bne_iff_ne]
  constructor
  · rintro ⟨load, store, split⟩
    exact ⟨⟨load, store⟩, split⟩
  · rintro ⟨⟨load, store⟩, split⟩
    exact ⟨load, store, split⟩

theorem decodeOpcode_classed (insn : BitVec 32) (pc : BitVec 64) (isRvc : Bool) :
    Classed (decodeOpcode insn (defaults insn pc isRvc)) := by
  rw [classed_iff]
  simp only [decodeOpcode, decodeLui, decodeAuipc, decodeJal, decodeJalr, decodeBranch, decodeLoad,
    decodeStore, decodeAmo, decodeLoadFp, decodeStoreFp, decodeOpImm, decodeOp, decodeMuldiv,
    decodeOpImm32, decodeOp32, decodeMiscMem, decodeSystem, decodeCsr, decodeFp, decodeFma,
    illegal, fpIntFmt, fpBinary, sameFmt, apply_ite classOf, apply_ite goodClass]
  simp [classOf, goodClass, defaults]

theorem decodeSlice_classed (insn : BitVec 32) (pc : BitVec 64) (isRvc : Bool) :
    Classed (decodeSlice insn pc isRvc) := by
  have class_ := decodeOpcode_classed insn pc isRvc
  rw [classed_iff] at class_ ⊢
  have same (d : DecodedInsn) : classOf (suppressRd insn d) = classOf d := by
    unfold suppressRd
    dsimp only
    split_ifs <;> rfl
  rw [decodeSlice, same]
  exact class_

/-- A fused pair is no memory access. -/
theorem fusedUop_classed {a b : DecodedInsn} (first : Classed a) (unit : a.fuType = .alu)
    (p : FusionPattern) : Classed (fusedUop a b p) := by
  obtain ⟨load, store, -⟩ := first
  rw [unit] at load store
  rw [classed_iff]
  have merged : goodClass (classOf (mergeUop a b p)) = true := by
    cases p <;> simp [mergeUop, compareBranch, classOf, goodClass, unit, load, store]
  unfold fusedUop
  simp only [apply_ite classOf, apply_ite goodClass]
  split_ifs <;> exact merged

-- ---------------------------------------------------------------------
-- The room in the issue queues
-- ---------------------------------------------------------------------

/-- How many entries each issue queue has. -/
abbrev Occupancies : Type := IqName → Nat

/-- `deq_iq_target` of an instruction that is not for memory. -/
def intName : Fin 3 → IqName
  | 0 => .int0
  | 1 => .int1
  | 2 => .int2

namespace Occupancies

variable (occ : Occupancies)

/-- `full` of `issue_queue`: there is no room for two. -/
def iqFull (q : Fin 3) : Bool := decide ((intName q).depth - 2 ≤ occ (intName q))

def capMemFree2 (q : IqName) : Nat := min 2 (q.depth - occ q)

def loadCredit : Nat := occ.capMemFree2 .load

def storeCredit : Nat := min (occ.capMemFree2 .sta) (occ.capMemFree2 .std)

-- ---------------------------------------------------------------------
-- Those that are not for memory
-- ---------------------------------------------------------------------

/-- The queue takes one more this cycle. -/
def takes (used : Fin 3 → Nat) (q : Fin 3) : Bool := decide (used q < 2) && !occ.iqFull q

/-- `eff`: IQ0 issues two a cycle, so its entries count half. -/
def eff (used : Fin 3 → Nat) (q : Fin 3) : Nat :=
  let load := occ (intName q) + used q
  if q = 0 then load / 2 else load

/-- One queue of the scan for the least loaded. -/
def lesser (used : Fin 3 → Nat) (best q : Fin 3) : Fin 3 :=
  if occ.takes used q && decide (occ.eff used q < occ.eff used best) then q else best

def leastLoaded (used : Fin 3 → Nat) : Option (Fin 3) :=
  (firstOf (occ.takes used)).map fun best => (List.finRange 3).foldl (occ.lesser used) best

def only (used : Fin 3 → Nat) (q : Fin 3) : Option (Fin 3) :=
  if occ.takes used q then some q else none

/-- The queue for one instruction. -/
def rrTarget (used : Fin 3 → Nat) (d : DecodedInsn) : Option (Fin 3) :=
  if d.isFpOp then occ.only used 2
  else
    match d.fuType with
    | .bru => occ.only used 0
    | .mul => occ.only used 1
    | .div | .csr => occ.only used 2
    | _ => occ.leastLoaded used

/-- The targets of the first instructions, up to one that finds no queue. -/
def rrAssign (used : Fin 3 → Nat) : List Uop → List (Fin 3)
  | [] => []
  | e :: rest =>
    match occ.rrTarget used e.insn.data with
    | some q => q :: rrAssign (fun k => if k = q then used k + 1 else used k) rest
    | none => []

/-- How many memory instructions go, up to one without credit. -/
def memRelease (loads stores : Nat) : List Uop → Nat
  | [] => 0
  | e :: rest =>
    if e.insn.isStore then
      if stores < 2 ∧ stores < occ.storeCredit then memRelease loads (stores + 1) rest + 1 else 0
    else if loads < 2 ∧ loads < occ.loadCredit then memRelease (loads + 1) stores rest + 1
    else 0

end Occupancies

namespace DispatchQueue

variable (s : DispatchQueue DecodedInsn) (occ : Occupancies) (robHead : RobIdx)

def allIntIqFull : Bool := decide (∀ q, occ.iqFull q = true)

def memHeadHasCredit : Bool :=
  match s.mem.contents with
  | [] => false
  | e :: _ =>
    if e.insn.isStore then decide (occ.storeCredit ≠ 0) else decide (occ.loadCredit ≠ 0)

def memHeadOlderThanInt : Bool :=
  match s.int.contents, s.mem.contents with
  | i :: _, m :: _ =>
    s.memHeadHasCredit occ && decide (robAgeFromHead robHead m.robIdx < robAgeFromHead robHead i.robIdx)
  | _, _ => false

/-- An older memory instruction keeps one of the output slots. -/
def memHeadConflict : Bool :=
  s.memHeadOlderThanInt occ robHead && s.memHeadHasCredit occ && !allIntIqFull occ &&
    decide (pipeWidth ≤ s.int.count)

def actualDeqInt : Nat :=
  if allIntIqFull occ then 0
  else min s.int.count (if s.memHeadConflict occ robHead then pipeWidth - 1 else pipeWidth)

def rrTargets : List (Fin 3) :=
  occ.rrAssign (fun _ => 0) (s.int.contents.take (s.actualDeqInt occ robHead))

def acceptedIntCount : Nat := (s.rrTargets occ robHead).length

def actualDeqMem : Nat :=
  occ.memRelease 0 0 (s.mem.contents.take (pipeWidth - s.acceptedIntCount occ robHead))

/-- `deq_data` with `deq_iq_target`; 3 is the memory queues. -/
def deq : List (Uop × Fin 4) :=
  (s.int.contents.take (s.acceptedIntCount occ robHead)).zip
      ((s.rrTargets occ robHead).map Fin.castSucc) ++
    (s.mem.contents.take (s.actualDeqMem occ robHead)).map fun e => (e, 3)

end DispatchQueue

-- ---------------------------------------------------------------------
-- The routing of the core
-- ---------------------------------------------------------------------

/-- The issue queue of an instruction; that of the store data stands with that of the address. -/
def routeOf (x : Uop × Fin 4) : IqName :=
  match x.2 with
  | 0 => .int0
  | 1 => .int1
  | 2 => .int2
  | 3 => if x.1.insn.isLoad then .load else .sta

/-- Stores are split into both store queues. -/
def reaches (q : IqName) (x : Uop × Fin 4) : Bool :=
  routeOf x == if q = .std then .sta else q

/-- What an issue queue is given: the third instruction for one queue is dropped. -/
def routed (deq : List (Uop × Fin 4)) (q : IqName) : List Uop :=
  deq.foldl (fun given x => if reaches q x && decide (given.length < 2) then given ++ [x.1] else given)
    []

-- ---------------------------------------------------------------------
-- Runs
-- ---------------------------------------------------------------------

structure SteerIn where
  enq : List Uop
  occ : Occupancies
  robHead : RobIdx

/-- The dispatch queue, with what rename has put into it and what has left it for the issue queues. -/
structure Steering where
  queue : DispatchQueue DecodedInsn
  intIn : List Uop
  memIn : List Uop
  out : List (Uop × Fin 4)
  given : IqName → List Uop

namespace Steering

variable (s : Steering) (x : SteerIn)

def reset : Steering := ⟨.reset, [], [], [], fun _ => []⟩

/-- A cycle without a flush. -/
def dqIn : DqIn DecodedInsn where
  enq := x.enq
  intCount := s.queue.acceptedIntCount x.occ x.robHead
  memCount := s.queue.actualDeqMem x.occ x.robHead
  robHead := x.robHead
  flush := none

def next : Steering where
  queue := s.queue.next (s.dqIn x)
  intIn := s.intIn ++ DispatchQueue.enqInt (s.dqIn x)
  memIn := s.memIn ++ DispatchQueue.enqMem (s.dqIn x)
  out := s.out ++ s.queue.deq x.occ x.robHead
  given q := s.given q ++ routed (s.queue.deq x.occ x.robHead) q

/-- Rename sends decoded instructions when neither FIFO can run out of space. -/
structure Keeps : Prop where
  decoded : ∀ e, e ∈ x.enq → ∃ d, Classed d ∧ e.insn = renamed d
  width : x.enq.length ≤ pipeWidth
  room : x.enq ≠ [] → s.queue.full = false

/-- Every instruction has left once for a queue whose units execute it, in the order of its class, or
waits; the queues were given exactly those. -/
structure Delivered : Prop where
  int : s.intIn = (s.out.filter fun x => x.2 != 3).map (·.1) ++ s.queue.int.contents
  mem : s.memIn = (s.out.filter fun x => x.2 == 3).map (·.1) ++ s.queue.mem.contents
  executes : ∀ x, x ∈ s.out → ∀ q, reaches q x = true → executes q x.1.insn.data = true
  given : ∀ q, s.given q = (s.out.filter (reaches q)).map (·.1)

/-- What leaves in one cycle fits into each queue and its ports. The first instruction of a class
leaves if there is room for it, unless older ones take all the slots. -/
structure Fits : Prop where
  ports : ∀ q, ((s.queue.deq x.occ x.robHead).filter (reaches q)).length ≤ 2
  room : ∀ q, x.occ q + ((s.queue.deq x.occ x.robHead).filter (reaches q)).length ≤ q.depth
  intMoves : ∀ e rest q, s.queue.int.contents = e :: rest →
    Backend.executes (intName q) e.insn.data = true → x.occ.iqFull q = false →
      0 < s.queue.acceptedIntCount x.occ x.robHead
  memMoves : ∀ e rest, s.queue.mem.contents = e :: rest →
    0 < (if e.insn.isStore then x.occ.storeCredit else x.occ.loadCredit) →
      0 < s.queue.actualDeqMem x.occ x.robHead ∨
        s.queue.acceptedIntCount x.occ x.robHead = pipeWidth ∧
          ∃ e' rest', s.queue.int.contents = e' :: rest' ∧
            offset x.robHead e'.robIdx ≤ offset x.robHead e.robIdx

end Steering

def steeringRuns : Machine Steering SteerIn where
  reset := .reset
  next s x := s.next x
  legal s x := s.Keeps x ∧ ∀ q, x.occ q ≤ q.depth

namespace Occupancies

variable {occ : Occupancies} {used : Fin 3 → Nat}

-- ---------------------------------------------------------------------
-- One instruction
-- ---------------------------------------------------------------------

theorem only_some (found : occ.only used q = some k) : k = q ∧ occ.takes used k = true := by
  unfold only at found
  split at found
  next free =>
    cases found
    exact ⟨rfl, free⟩
  next => cases found

theorem lesser_takes {best : Fin 3} (free : occ.takes used best = true) (q : Fin 3) :
    occ.takes used (occ.lesser used best q) = true := by
  unfold lesser
  split
  next less =>
    rw [Bool.and_eq_true] at less
    exact less.1
  next => exact free

theorem foldl_lesser_takes (l : List (Fin 3)) {best : Fin 3} (free : occ.takes used best = true) :
    occ.takes used (l.foldl (occ.lesser used) best) = true := by
  induction l generalizing best with
  | nil => exact free
  | cons q l ih => exact ih (lesser_takes free q)

theorem leastLoaded_some (found : occ.leastLoaded used = some k) : occ.takes used k = true := by
  obtain ⟨best, first, rfl⟩ := Option.map_eq_some_iff.mp found
  exact foldl_lesser_takes _ (firstOf_some first)

theorem leastLoaded_isSome (free : occ.takes used q = true) :
    (occ.leastLoaded used).isSome = true := by
  unfold leastLoaded
  cases first : firstOf (occ.takes used) with
  | none =>
    have none_ := firstOf_none.mp first q
    rw [free] at none_
    cases none_
  | some best => rfl

/-- The target has room for one more and executes the instruction. -/
theorem rrTarget_some {d : DecodedInsn} (int : isMem d = false)
    (found : occ.rrTarget used d = some q) :
    occ.takes used q = true ∧ executes (intName q) d = true := by
  unfold rrTarget at found
  unfold isMem at int
  split at found
  next fp =>
    obtain ⟨rfl, free⟩ := only_some found
    exact ⟨free, by simp [executes, intName, fp]⟩
  next fp =>
    have fp : d.isFpOp = false := by simpa using fp
    split at found
    next unit =>
      obtain ⟨rfl, free⟩ := only_some found
      exact ⟨free, by simp [executes, intName, fp, unit]⟩
    next unit =>
      obtain ⟨rfl, free⟩ := only_some found
      exact ⟨free, by simp [executes, intName, fp, unit]⟩
    next unit =>
      obtain ⟨rfl, free⟩ := only_some found
      exact ⟨free, by simp [executes, intName, unit]⟩
    next unit =>
      obtain ⟨rfl, free⟩ := only_some found
      exact ⟨free, by simp [executes, intName, unit]⟩
    next bru mul div csr =>
      have alu : d.fuType = .alu := by cases unit : d.fuType <;> simp_all
      refine ⟨leastLoaded_some found, ?_⟩
      match q with
      | 0 => simp [executes, intName, fp, alu]
      | 1 => simp [executes, intName, fp, alu]
      | 2 => simp [executes, intName, alu]

/-- An instruction finds a queue if one that executes it takes it. -/
theorem rrTarget_isSome {d : DecodedInsn} (able : executes (intName q) d = true)
    (free : occ.takes used q = true) : (occ.rrTarget used d).isSome = true := by
  have itself : (occ.only used q).isSome = true := by simp [only, free]
  unfold rrTarget
  cases fp : d.isFpOp with
  | true =>
    match q with
    | 0 => simp [executes, intName, fp] at able
    | 1 => simp [executes, intName, fp] at able
    | 2 => simpa using itself
  | false =>
    rw [if_neg (by simp)]
    match q with
    | 0 => cases unit : d.fuType <;> simp_all [executes, intName, leastLoaded_isSome free]
    | 1 => cases unit : d.fuType <;> simp_all [executes, intName, leastLoaded_isSome free]
    | 2 => cases unit : d.fuType <;> simp_all [executes, intName, leastLoaded_isSome free]

theorem takes_iff : occ.takes used q = true ↔ used q < 2 ∧ occ.iqFull q = false := by
  simp [takes]

-- ---------------------------------------------------------------------
-- The instructions of a cycle
-- ---------------------------------------------------------------------

theorem rrAssign_length (used : Fin 3 → Nat) (l : List Uop) :
    (occ.rrAssign used l).length ≤ l.length := by
  induction l generalizing used with
  | nil => exact Nat.le_refl _
  | cons e rest ih =>
    unfold rrAssign
    split
    · exact Nat.succ_le_succ (ih _)
    · exact Nat.zero_le _

/-- No queue takes more than two. -/
theorem rrAssign_count {l : List Uop} (int : ∀ e, e ∈ l → isMem e.insn.data = false)
    (few : ∀ k, used k ≤ 2) (q : Fin 3) : used q + (occ.rrAssign used l).count q ≤ 2 := by
  induction l generalizing used with
  | nil => exact few q
  | cons e rest ih =>
    unfold rrAssign
    split
    next k found =>
      have free := (takes_iff.mp (rrTarget_some (int e List.mem_cons_self) found).1).1
      have more : ∀ j, (if j = k then used j + 1 else used j) ≤ 2 := by
        intro j
        split
        next same =>
          subst same
          exact free
        next => exact few j
      have rest := ih (fun e on => int e (List.mem_cons_of_mem _ on)) more
      rw [List.count_cons]
      by_cases same : q = k
      · subst same
        simp only [if_true, BEq.rfl] at rest ⊢
        omega
      · have other : (k == q) = false := by simpa using Ne.symm same
        simp only [if_neg same, other, Bool.false_eq_true, if_false] at rest ⊢
        omega
    next =>
      rw [List.count_nil]
      exact few q

/-- Every target has room, and executes its instruction. -/
theorem rrAssign_right {l : List Uop} (int : ∀ e, e ∈ l → isMem e.insn.data = false)
    {x : Uop × Fin 3} (on : x ∈ l.zip (occ.rrAssign used l)) :
    occ.iqFull x.2 = false ∧ executes (intName x.2) x.1.insn.data = true := by
  induction l generalizing used with
  | nil => cases on
  | cons e rest ih =>
    unfold rrAssign at on
    split at on
    next k found =>
      rcases List.mem_cons.mp on with rfl | on
      · obtain ⟨free, able⟩ := rrTarget_some (int e List.mem_cons_self) found
        exact ⟨(takes_iff.mp free).2, able⟩
      · exact ih (fun e on => int e (List.mem_cons_of_mem _ on)) on
    next => cases on

theorem memRelease_length (loads stores : Nat) (l : List Uop) :
    occ.memRelease loads stores l ≤ l.length := by
  induction l generalizing loads stores with
  | nil => exact Nat.le_refl _
  | cons e rest ih =>
    unfold memRelease
    split_ifs
    · exact Nat.succ_le_succ (ih _ _)
    · exact Nat.zero_le _
    · exact Nat.succ_le_succ (ih _ _)
    · exact Nat.zero_le _

/-- No more go than there are credits and ports. -/
theorem memRelease_count (l : List Uop) {loads stores : Nat} (loadsFew : loads ≤ min 2 occ.loadCredit)
    (storesFew : stores ≤ min 2 occ.storeCredit) :
    loads + (l.take (occ.memRelease loads stores l)).countP (fun e => !e.insn.isStore) ≤
        min 2 occ.loadCredit ∧
      stores + (l.take (occ.memRelease loads stores l)).countP (fun e => e.insn.isStore) ≤
        min 2 occ.storeCredit := by
  induction l generalizing loads stores with
  | nil => exact ⟨loadsFew, storesFew⟩
  | cons e rest ih =>
    unfold memRelease
    split_ifs with store free free
    · have after := @ih loads (stores + 1) loadsFew (by omega)
      simp only [List.take_succ_cons, List.countP_cons, store, Bool.not_true, Bool.false_eq_true,
        if_false, if_true]
      omega
    · exact ⟨loadsFew, storesFew⟩
    · have after := @ih (loads + 1) stores (by omega) storesFew
      simp only [List.take_succ_cons, List.countP_cons, store, Bool.not_false, Bool.false_eq_true,
        if_false, if_true]
      omega
    · exact ⟨loadsFew, storesFew⟩

end Occupancies

-- ---------------------------------------------------------------------
-- Routes
-- ---------------------------------------------------------------------

theorem reaches_int (k : Fin 3) (x : Uop × Fin 4) :
    reaches (intName k) x = (x.2 == k.castSucc) := by
  obtain ⟨e, j⟩ := x
  match k, j with
  | 0, 0 => rfl
  | 0, 1 => rfl
  | 0, 2 => rfl
  | 0, 3 => cases here : e.insn.isLoad <;> simp [reaches, routeOf, intName, here]
  | 1, 0 => rfl
  | 1, 1 => rfl
  | 1, 2 => rfl
  | 1, 3 => cases here : e.insn.isLoad <;> simp [reaches, routeOf, intName, here]
  | 2, 0 => rfl
  | 2, 1 => rfl
  | 2, 2 => rfl
  | 2, 3 => cases here : e.insn.isLoad <;> simp [reaches, routeOf, intName, here]

theorem reaches_load (x : Uop × Fin 4) : reaches .load x = (x.2 == 3 && x.1.insn.isLoad) := by
  obtain ⟨e, j⟩ := x
  match j with
  | 0 => rfl
  | 1 => rfl
  | 2 => rfl
  | 3 => cases here : e.insn.isLoad <;> simp [reaches, routeOf, here]

theorem reaches_sta (x : Uop × Fin 4) : reaches .sta x = (x.2 == 3 && !x.1.insn.isLoad) := by
  obtain ⟨e, j⟩ := x
  match j with
  | 0 => rfl
  | 1 => rfl
  | 2 => rfl
  | 3 => cases here : e.insn.isLoad <;> simp [reaches, routeOf, here]

theorem reaches_std (x : Uop × Fin 4) : reaches .std x = (x.2 == 3 && !x.1.insn.isLoad) :=
  reaches_sta x

/-- With no more than two for a queue, none is dropped. -/
theorem routed_all {deq : List (Uop × Fin 4)} {q : IqName}
    (few : (deq.filter (reaches q)).length ≤ 2) : routed deq q = (deq.filter (reaches q)).map (·.1) := by
  have run (given : List Uop) (room : given.length + (deq.filter (reaches q)).length ≤ 2) :
      deq.foldl (fun given x =>
        if reaches q x && decide (given.length < 2) then given ++ [x.1] else given) given =
        given ++ (deq.filter (reaches q)).map (·.1) := by
    clear few
    induction deq generalizing given with
    | nil => simp
    | cons x deq ih =>
      rw [List.foldl_cons]
      cases goes : reaches q x with
      | false =>
        simp only [List.filter_cons, goes, Bool.false_eq_true, if_false] at room ⊢
        exact ih given room
      | true =>
        simp only [List.filter_cons, goes, if_true, List.length_cons] at room
        have free : given.length < 2 := by omega
        simp only [free, decide_true, Bool.and_true, if_true, List.filter_cons, goes]
        rw [ih _ (by simp only [List.length_append, List.length_cons, List.length_nil]; omega)]
        simp
  have all := run [] (by simpa using few)
  simpa [routed] using all

theorem zip_take {l : List β} {ts : List δ} {n : Nat} (on : y ∈ (l.take n).zip ts) : y ∈ l.zip ts := by
  induction l generalizing n ts with
  | nil => simp at on
  | cons a l ih =>
    cases n with
    | zero => simp at on
    | succ n =>
      cases ts with
      | nil => simp at on
      | cons t ts =>
        rcases List.mem_cons.mp on with rfl | on
        · exact List.mem_cons_self
        · exact List.mem_cons_of_mem _ (ih on)

theorem zip_countP_le (p : δ → Bool) (l : List β) (ts : List δ) :
    (l.zip ts).countP (fun x => p x.2) ≤ ts.countP p := by
  induction l generalizing ts with
  | nil => exact Nat.zero_le _
  | cons a l ih =>
    cases ts with
    | nil => exact Nat.le_refl _
    | cons t ts =>
      rw [List.zip_cons_cons, List.countP_cons, List.countP_cons]
      exact Nat.add_le_add_right (ih ts) _

namespace Steering

/-- A decoded instruction with its slot in the reorder buffer. -/
def Decoded (e : Uop) : Prop := ∃ d, Classed d ∧ e.insn = renamed d

theorem Decoded.isMem (decoded : Decoded e) : Backend.isMem e.insn.data = e.insn.isMem := by
  obtain ⟨d, -, same⟩ := decoded
  rw [same]
  rfl

theorem Decoded.load_or_store (decoded : Decoded e) (mem : e.insn.isMem = true) :
    e.insn.isLoad = (e.insn.data.fuType == .load) ∧ (!e.insn.isLoad) = e.insn.isStore ∧
      (e.insn.isLoad = false → e.insn.data.fuType = .sta) := by
  obtain ⟨d, classed, same⟩ := decoded
  have mem' : Backend.isMem d = true := by rw [← mem, same]; rfl
  have load : d.isLoad = (d.fuType == .load) := classed.load
  have store : d.isStore = (d.fuType == .sta) := classed.store
  have split := classed.split
  rw [same]
  show d.isLoad = _ ∧ (!d.isLoad) = d.isStore ∧ (d.isLoad = false → d.fuType = .sta)
  rw [load, store]
  unfold Backend.isMem at mem'
  cases unit : d.fuType <;> simp_all [renamed]

/-- The dispatch queue has its instructions sorted. -/
structure Sorted (s : DispatchQueue DecodedInsn) : Prop where
  int : s.int.Sound
  mem : s.mem.Sound
  intOnly : ∀ e, e ∈ s.int.contents → Decoded e ∧ e.insn.isMem = false
  memOnly : ∀ e, e ∈ s.mem.contents → Decoded e ∧ e.insn.isMem = true

variable {q : DispatchQueue DecodedInsn} {occ : Occupancies} {robHead : RobIdx} {s : Steering}
  {x : SteerIn}

theorem length_contents (f : Fifo 5 Uop) : f.contents.length = f.count := by
  simp [Fifo.contents]

theorem Sorted.notMem (sorted : Sorted q) {n : Nat} (e : Uop) (on : e ∈ q.int.contents.take n) :
    Backend.isMem e.insn.data = false := by
  obtain ⟨decoded, int⟩ := sorted.intOnly e (List.mem_of_mem_take on)
  rw [decoded.isMem, int]

theorem accepted_le_deq : q.acceptedIntCount occ robHead ≤ q.actualDeqInt occ robHead := by
  refine Nat.le_trans (Occupancies.rrAssign_length _ _) ?_
  rw [List.length_take]
  exact Nat.min_le_left _ _

theorem deqInt_le : q.actualDeqInt occ robHead ≤ min q.int.count pipeWidth := by
  unfold DispatchQueue.actualDeqInt
  split_ifs
  · exact Nat.zero_le _
  · exact Nat.le_min.mpr ⟨Nat.min_le_left _ _, Nat.le_trans (Nat.min_le_right _ _) (Nat.sub_le _ _)⟩
  · exact Nat.le_refl _

theorem accepted_le : q.acceptedIntCount occ robHead ≤ q.int.count :=
  Nat.le_trans accepted_le_deq (Nat.le_trans deqInt_le (Nat.min_le_left _ _))

theorem deqMem_le : q.actualDeqMem occ robHead ≤ q.mem.count := by
  refine Nat.le_trans (Occupancies.memRelease_length _ _ _) ?_
  rw [List.length_take, length_contents]
  exact Nat.min_le_right _ _

-- ---------------------------------------------------------------------
-- The two parts of what leaves
-- ---------------------------------------------------------------------

/-- The instructions that are not for memory, with their queues. -/
def intPart (q : DispatchQueue DecodedInsn) (occ : Occupancies) (robHead : RobIdx) :
    List (Uop × Fin 4) :=
  (q.int.contents.take (q.acceptedIntCount occ robHead)).zip
    ((q.rrTargets occ robHead).map Fin.castSucc)

def memPart (q : DispatchQueue DecodedInsn) (occ : Occupancies) (robHead : RobIdx) :
    List (Uop × Fin 4) :=
  (q.mem.contents.take (q.actualDeqMem occ robHead)).map fun e => (e, 3)

theorem intPart_notMem (on : y ∈ intPart q occ robHead) : y.2 ≠ 3 := by
  have target := (List.of_mem_zip on).2
  obtain ⟨k, -, same⟩ := List.mem_map.mp target
  rw [← same]
  exact (Fin.castSucc_lt_last k).ne

theorem memPart_mem (on : y ∈ memPart q occ robHead) : y.2 = 3 := by
  obtain ⟨e, -, rfl⟩ := List.mem_map.mp on
  rfl

theorem intPart_fst : (intPart q occ robHead).map (·.1) =
    q.int.contents.take (q.acceptedIntCount occ robHead) := by
  refine List.map_fst_zip ?_
  rw [List.length_take, List.length_map]
  exact Nat.min_le_left _ _

theorem memPart_fst : (memPart q occ robHead).map (·.1) =
    q.mem.contents.take (q.actualDeqMem occ robHead) := by
  simp [memPart, Function.comp_def]

theorem deq_int : ((q.deq occ robHead).filter fun y => y.2 != 3) = intPart q occ robHead := by
  show (intPart q occ robHead ++ memPart q occ robHead).filter _ = _
  have own : (intPart q occ robHead).filter (fun y => y.2 != 3) = intPart q occ robHead :=
    List.filter_eq_self.mpr fun y on => by simpa using intPart_notMem on
  have other : (memPart q occ robHead).filter (fun y => y.2 != 3) = [] :=
    List.filter_eq_nil_iff.mpr fun y on => by simpa using memPart_mem on
  rw [List.filter_append, own, other, List.append_nil]

theorem deq_mem : ((q.deq occ robHead).filter fun y => y.2 == 3) = memPart q occ robHead := by
  show (intPart q occ robHead ++ memPart q occ robHead).filter _ = _
  have own : (memPart q occ robHead).filter (fun y => y.2 == 3) = memPart q occ robHead :=
    List.filter_eq_self.mpr fun y on => by simpa using memPart_mem on
  have other : (intPart q occ robHead).filter (fun y => y.2 == 3) = [] :=
    List.filter_eq_nil_iff.mpr fun y on => by simpa using intPart_notMem on
  rw [List.filter_append, own, other, List.nil_append]

/-- The instructions come from the places of their targets. -/
theorem intPart_right (sorted : Sorted q) (on : y ∈ intPart q occ robHead) :
    ∃ k, y.2 = Fin.castSucc k ∧ occ.iqFull k = false ∧
      executes (intName k) y.1.insn.data = true := by
  unfold intPart at on
  rw [List.zip_map_right] at on
  obtain ⟨⟨e, k⟩, here, rfl⟩ := List.mem_map.mp on
  have shorter : q.int.contents.take (q.acceptedIntCount occ robHead) =
      (q.int.contents.take (q.actualDeqInt occ robHead)).take (q.acceptedIntCount occ robHead) := by
    rw [List.take_take, Nat.min_eq_left accepted_le_deq]
  rw [shorter] at here
  have on' : (e, k) ∈ (q.int.contents.take (q.actualDeqInt occ robHead)).zip
      (q.rrTargets occ robHead) := zip_take here
  obtain ⟨room, able⟩ := Occupancies.rrAssign_right (fun e on => sorted.notMem e on) on'
  exact ⟨k, rfl, room, able⟩

/-- What a queue gets of the integer side. -/
theorem int_part (k : Fin 3) : (q.deq occ robHead).filter (reaches (intName k)) =
    (intPart q occ robHead).filter fun y => y.2 == k.castSucc := by
  have none_ : (memPart q occ robHead).filter (fun y => y.2 == k.castSucc) = [] := by
    refine List.filter_eq_nil_iff.mpr fun y on => ?_
    rw [memPart_mem on]
    simpa using (Fin.castSucc_lt_last k).ne'
  have parts : q.deq occ robHead = intPart q occ robHead ++ memPart q occ robHead := rfl
  rw [show reaches (intName k) = fun y => y.2 == k.castSucc from funext (reaches_int k), parts,
    List.filter_append, none_, List.append_nil]

theorem int_few (sorted : Sorted q) (k : Fin 3) :
    ((intPart q occ robHead).filter fun y => y.2 == k.castSucc).length ≤ 2 := by
  rw [← List.countP_eq_length_filter]
  have count := zip_countP_le (fun j => j == k.castSucc)
    (q.int.contents.take (q.acceptedIntCount occ robHead))
    ((q.rrTargets occ robHead).map Fin.castSucc)
  have targets : ((q.rrTargets occ robHead).map Fin.castSucc).countP (fun j => j == k.castSucc) =
      (q.rrTargets occ robHead).count k := by
    rw [List.countP_map, List.count]
    apply List.countP_congr
    intro j _
    simp
  have two := @Occupancies.rrAssign_count occ (fun _ => 0)
    (q.int.contents.take (q.actualDeqInt occ robHead)) sorted.notMem (fun _ => Nat.zero_le _) k
  rw [targets] at count
  rw [Nat.zero_add] at two
  exact Nat.le_trans count two

/-- No queue gets more than two, nor more than it has room for. -/
theorem int_fits (sorted : Sorted q) (valid : ∀ q, occ q ≤ q.depth) (k : Fin 3) :
    ((q.deq occ robHead).filter (reaches (intName k))).length ≤ 2 ∧
      occ (intName k) + ((q.deq occ robHead).filter (reaches (intName k))).length ≤
        (intName k).depth := by
  have few := @int_few q occ robHead sorted k
  rw [int_part]
  refine ⟨few, ?_⟩
  cases all : (intPart q occ robHead).filter fun y => y.2 == k.castSucc with
  | nil => exact valid _
  | cons y rest =>
    rw [all] at few
    have on : y ∈ (intPart q occ robHead).filter fun y => y.2 == k.castSucc := by
      rw [all]
      exact List.mem_cons_self
    obtain ⟨on, target⟩ := List.mem_filter.mp on
    obtain ⟨j, at_, room, -⟩ := intPart_right sorted on
    rw [at_] at target
    obtain rfl : j = k := by simpa using target
    have room : ¬(intName j).depth - 2 ≤ occ (intName j) := by
      simpa [Occupancies.iqFull] using room
    omega

/-- What is released of the memory side. -/
def released (q : DispatchQueue DecodedInsn) (occ : Occupancies) (robHead : RobIdx) : List Uop :=
  q.mem.contents.take (q.actualDeqMem occ robHead)

theorem released_mem (p : Uop → Bool) :
    ((q.deq occ robHead).filter fun y => y.2 == 3 && p y.1).length =
      (released q occ robHead).countP p := by
  have both : ((q.deq occ robHead).filter fun y => y.2 == 3 && p y.1) =
      ((q.deq occ robHead).filter fun y => y.2 == 3).filter fun y => p y.1 := by
    rw [List.filter_filter]
    congr 1
    funext y
    exact Bool.and_comm _ _
  rw [both, deq_mem, ← List.countP_eq_length_filter, memPart, List.countP_map]
  rfl

/-- Loads and stores are released up to their credits. -/
theorem released_count (sorted : Sorted q) :
    (released q occ robHead).countP (fun e => e.insn.isLoad) ≤ min 2 occ.loadCredit ∧
      (released q occ robHead).countP (fun e => !e.insn.isLoad) ≤ min 2 occ.storeCredit := by
  have few : q.actualDeqMem occ robHead ≤ pipeWidth - q.acceptedIntCount occ robHead := by
    refine Nat.le_trans (Occupancies.memRelease_length _ _ _) ?_
    rw [List.length_take]
    exact Nat.min_le_left _ _
  have kind (e : Uop) (on : e ∈ released q occ robHead) : (!e.insn.isLoad) = e.insn.isStore := by
    obtain ⟨decoded, mem⟩ := sorted.memOnly e (List.mem_of_mem_take on)
    exact (decoded.load_or_store mem).2.1
  have count := @Occupancies.memRelease_count occ
    (q.mem.contents.take (pipeWidth - q.acceptedIntCount occ robHead)) 0 0 (Nat.zero_le _)
    (Nat.zero_le _)
  have taken : (q.mem.contents.take (pipeWidth - q.acceptedIntCount occ robHead)).take
      (occ.memRelease 0 0 (q.mem.contents.take (pipeWidth - q.acceptedIntCount occ robHead))) =
        released q occ robHead := by
    rw [List.take_take]
    exact congrArg q.mem.contents.take (Nat.min_eq_left few)
  rw [taken, Nat.zero_add, Nat.zero_add] at count
  constructor
  · refine Nat.le_trans (Nat.le_of_eq (List.countP_congr fun e on => ?_)) count.1
    rw [← kind e on, Bool.not_not]
  · refine Nat.le_trans (Nat.le_of_eq (List.countP_congr fun e on => ?_)) count.2
    rw [kind e on]

theorem mem_fits (sorted : Sorted q) (valid : ∀ q, occ q ≤ q.depth) (name : IqName)
    (memory : name = .load ∨ name = .sta ∨ name = .std) :
    ((q.deq occ robHead).filter (reaches name)).length ≤ 2 ∧
      occ name + ((q.deq occ robHead).filter (reaches name)).length ≤ name.depth := by
  have loads := valid .load
  have stas := valid .sta
  have stds := valid .std
  obtain ⟨loadCount, storeCount⟩ := @released_count q occ robHead sorted
  unfold Occupancies.loadCredit Occupancies.capMemFree2 at loadCount
  unfold Occupancies.storeCredit Occupancies.capMemFree2 at storeCount
  rcases memory with rfl | rfl | rfl
  · rw [show reaches .load = fun y => y.2 == 3 && y.1.insn.isLoad from funext reaches_load,
      released_mem fun e => e.insn.isLoad]
    omega
  · rw [show reaches .sta = fun y => y.2 == 3 && !y.1.insn.isLoad from funext reaches_sta,
      released_mem fun e => !e.insn.isLoad]
    omega
  · rw [show reaches .std = fun y => y.2 == 3 && !y.1.insn.isLoad from funext reaches_std,
      released_mem fun e => !e.insn.isLoad]
    omega

-- ---------------------------------------------------------------------
-- Progress
-- ---------------------------------------------------------------------

theorem int_moves {e : Uop} {k : Fin 3} (first : q.int.contents = e :: rest)
    (able : executes (intName k) e.insn.data = true) (room : occ.iqFull k = false) :
    0 < q.acceptedIntCount occ robHead := by
  have some_ : ¬∀ k, occ.iqFull k = true := fun all => by
    have full := all k
    rw [room] at full
    cases full
  have count : q.int.count = rest.length + 1 := by
    rw [← length_contents, first, List.length_cons]
  have goes : ∃ n, q.actualDeqInt occ robHead = n + 1 := by
    unfold DispatchQueue.actualDeqInt DispatchQueue.allIntIqFull
    rw [if_neg (by simpa using some_), count]
    refine Nat.exists_eq_succ_of_ne_zero ?_
    split <;> simp [pipeWidth]
  obtain ⟨n, goes⟩ := goes
  have target : (occ.rrTarget (fun _ => 0) e.insn.data).isSome = true :=
    Occupancies.rrTarget_isSome able (Occupancies.takes_iff.mpr ⟨by omega, room⟩)
  obtain ⟨j, found⟩ := Option.isSome_iff_exists.mp target
  unfold DispatchQueue.acceptedIntCount DispatchQueue.rrTargets
  rw [goes, first, List.take_succ_cons]
  simp [Occupancies.rrAssign, found]

/-- The first memory instruction goes when it has a credit and a lane is left. -/
theorem memRelease_pos {e : Uop}
    (credit : 0 < (if e.insn.isStore then occ.storeCredit else occ.loadCredit)) :
    0 < occ.memRelease 0 0 (e :: rest) := by
  unfold Occupancies.memRelease
  cases store : e.insn.isStore with
  | true =>
    have credit : 0 < occ.storeCredit := by simpa [store] using credit
    simp [credit]
  | false =>
    have credit : 0 < occ.loadCredit := by simpa [store] using credit
    simp [credit]

theorem memHeadHasCredit_of {e : Uop} (first : q.mem.contents = e :: rest)
    (credit : 0 < (if e.insn.isStore then occ.storeCredit else occ.loadCredit)) :
    q.memHeadHasCredit occ = true := by
  unfold DispatchQueue.memHeadHasCredit
  rw [first]
  cases store : e.insn.isStore with
  | true => simpa [store, Nat.pos_iff_ne_zero] using credit
  | false => simpa [store, Nat.pos_iff_ne_zero] using credit

/-- All lanes are the integer side's only when it has room and nothing older waits on the other. -/
theorem calm_of_whole (whole : pipeWidth ≤ q.actualDeqInt occ robHead) :
    DispatchQueue.allIntIqFull occ = false ∧ q.memHeadConflict occ robHead = false := by
  have room : DispatchQueue.allIntIqFull occ = false := by
    cases full : DispatchQueue.allIntIqFull occ with
    | false => rfl
    | true =>
      unfold DispatchQueue.actualDeqInt at whole
      rw [if_pos full] at whole
      cases whole
  refine ⟨room, ?_⟩
  cases conflict : q.memHeadConflict occ robHead with
  | false => rfl
  | true =>
    unfold DispatchQueue.actualDeqInt at whole
    rw [if_neg (by simp [room]), conflict, if_pos rfl] at whole
    have few := Nat.le_trans whole (Nat.min_le_right _ _)
    exact absurd few (by decide)

theorem mem_moves {e : Uop} (first : q.mem.contents = e :: rest)
    (credit : 0 < (if e.insn.isStore then occ.storeCredit else occ.loadCredit)) :
    0 < q.actualDeqMem occ robHead ∨ q.acceptedIntCount occ robHead = pipeWidth ∧
      ∃ e' rest', q.int.contents = e' :: rest' ∧
        offset robHead e'.robIdx ≤ offset robHead e.robIdx := by
  by_cases all : q.acceptedIntCount occ robHead < pipeWidth
  · refine .inl ?_
    obtain ⟨n, more⟩ := Nat.exists_eq_succ_of_ne_zero (Nat.sub_ne_zero_of_lt all)
    unfold DispatchQueue.actualDeqMem
    rw [more, first, List.take_succ_cons]
    exact memRelease_pos credit
  · refine .inr ?_
    have le := Nat.le_trans (@accepted_le_deq q occ robHead) deqInt_le
    have exact_ : q.acceptedIntCount occ robHead = pipeWidth :=
      Nat.le_antisymm (Nat.le_trans le (Nat.min_le_right _ _)) (Nat.not_lt.mp all)
    have enough : pipeWidth ≤ q.int.count := by
      have below := Nat.le_trans le (Nat.min_le_left _ _)
      rwa [exact_] at below
    obtain ⟨room, calm⟩ := calm_of_whole (exact_ ▸ @accepted_le_deq q occ robHead)
    refine ⟨exact_, ?_⟩
    cases ints : q.int.contents with
    | nil =>
      have none_ := length_contents q.int
      rw [ints, List.length_nil] at none_
      rw [← none_] at enough
      cases enough
    | cons e' rest' =>
      refine ⟨e', rest', rfl, ?_⟩
      have able := memHeadHasCredit_of first credit
      have younger : q.memHeadOlderThanInt occ robHead = false := by
        unfold DispatchQueue.memHeadConflict at calm
        simpa [able, room, enough] using calm
      unfold DispatchQueue.memHeadOlderThanInt at younger
      rw [ints, first] at younger
      simpa [able, BitVec.lt_def, robAgeFromHead_toNat] using younger

-- ---------------------------------------------------------------------
-- The invariant
-- ---------------------------------------------------------------------

theorem Keeps.fits (keeps : s.Keeps x) (sorted : Sorted s.queue) :
    s.queue.int.count + (DispatchQueue.enqInt (s.dqIn x)).length ≤ 32 ∧
      s.queue.mem.count + (DispatchQueue.enqMem (s.dqIn x)).length ≤ 32 := by
  have fits := sorted.int.fits
  have fits' := sorted.mem.fits
  exact DispatchQueue.room_of_full keeps.width keeps.room fits fits'

theorem next_int (sorted : Sorted s.queue) (keeps : s.Keeps x) :
    (s.next x).queue.int.contents =
      s.queue.int.contents.drop (s.queue.acceptedIntCount x.occ x.robHead) ++
        DispatchQueue.enqInt (s.dqIn x) :=
  Fifo.push_contents sorted.int accepted_le _ (keeps.fits sorted).1

theorem next_mem (sorted : Sorted s.queue) (keeps : s.Keeps x) :
    (s.next x).queue.mem.contents =
      s.queue.mem.contents.drop (s.queue.actualDeqMem x.occ x.robHead) ++
        DispatchQueue.enqMem (s.dqIn x) :=
  Fifo.push_contents sorted.mem deqMem_le _ (keeps.fits sorted).2

theorem Sorted.next (sorted : Sorted s.queue) (keeps : s.Keeps x) : Sorted (s.next x).queue where
  int := Fifo.turn_sound sorted.int (keeps.fits sorted).1 accepted_le
  mem := Fifo.turn_sound sorted.mem (keeps.fits sorted).2 deqMem_le
  intOnly e on := by
    rw [next_int sorted keeps] at on
    rcases List.mem_append.mp on with old | new
    · exact sorted.intOnly e (List.mem_of_mem_drop old)
    · obtain ⟨here, class_⟩ := List.mem_filter.mp new
      exact ⟨keeps.decoded e here, by simpa using class_⟩
  memOnly e on := by
    rw [next_mem sorted keeps] at on
    rcases List.mem_append.mp on with old | new
    · exact sorted.memOnly e (List.mem_of_mem_drop old)
    · obtain ⟨here, class_⟩ := List.mem_filter.mp new
      exact ⟨keeps.decoded e here, class_⟩

/-- A queue that an instruction reaches executes it. -/
theorem deq_executes (sorted : Sorted q) (on : y ∈ q.deq occ robHead)
    (goes : reaches name y = true) : executes name y.1.insn.data = true := by
  rcases List.mem_append.mp on with int | mem
  · obtain ⟨k, target, -, able⟩ := intPart_right sorted int
    have place (j : Fin 3) (goes : reaches (intName j) y = true) : intName j = intName k := by
      rw [reaches_int, target, beq_iff_eq] at goes
      rw [Fin.castSucc_injective _ goes]
    have same : name = intName k := by
      have other : y.2 ≠ 3 := intPart_notMem int
      cases name with
      | int0 => exact place 0 goes
      | int1 => exact place 1 goes
      | int2 => exact place 2 goes
      | load => simp [reaches_load, other] at goes
      | sta => simp [reaches_sta, other] at goes
      | std => simp [reaches_std, other] at goes
    rw [same]
    exact able
  · have target : y.2 = 3 := memPart_mem mem
    obtain ⟨e, here, rfl⟩ := List.mem_map.mp mem
    obtain ⟨decoded, class_⟩ := sorted.memOnly e (List.mem_of_mem_take here)
    obtain ⟨load, -, store⟩ := decoded.load_or_store class_
    have notInt (k : Fin 3) : reaches (intName k) (e, 3) ≠ true := by
      rw [reaches_int]
      simpa using (Fin.castSucc_lt_last k).ne'
    cases name with
    | int0 => exact absurd goes (notInt 0)
    | int1 => exact absurd goes (notInt 1)
    | int2 => exact absurd goes (notInt 2)
    | load =>
      rw [reaches_load, Bool.and_eq_true, load] at goes
      exact goes.2
    | sta =>
      rw [reaches_sta, Bool.and_eq_true] at goes
      simp [executes, store (by simpa using goes.2)]
    | std =>
      rw [reaches_std, Bool.and_eq_true] at goes
      simp [executes, store (by simpa using goes.2)]

theorem Sorted.fits (sorted : Sorted s.queue) (valid : ∀ q, x.occ q ≤ q.depth) : s.Fits x where
  ports name := by
    cases name with
    | int0 => exact (int_fits sorted valid 0).1
    | int1 => exact (int_fits sorted valid 1).1
    | int2 => exact (int_fits sorted valid 2).1
    | load => exact (mem_fits sorted valid .load (.inl rfl)).1
    | sta => exact (mem_fits sorted valid .sta (.inr (.inl rfl))).1
    | std => exact (mem_fits sorted valid .std (.inr (.inr rfl))).1
  room name := by
    cases name with
    | int0 => exact (int_fits sorted valid 0).2
    | int1 => exact (int_fits sorted valid 1).2
    | int2 => exact (int_fits sorted valid 2).2
    | load => exact (mem_fits sorted valid .load (.inl rfl)).2
    | sta => exact (mem_fits sorted valid .sta (.inr (.inl rfl))).2
    | std => exact (mem_fits sorted valid .std (.inr (.inr rfl))).2
  intMoves _ _ _ first able room := int_moves first able room
  memMoves _ _ first credit := mem_moves first credit

theorem Delivered.next (delivered : s.Delivered) (sorted : Sorted s.queue) (keeps : s.Keeps x)
    (valid : ∀ q, x.occ q ≤ q.depth) : (s.next x).Delivered where
  int := by
    rw [next_int sorted keeps]
    show s.intIn ++ _ = ((s.out ++ _).filter _).map _ ++ _
    rw [List.filter_append, deq_int, List.map_append, intPart_fst, delivered.int]
    simp only [List.append_assoc]
    rw [← List.append_assoc (List.take _ _), List.take_append_drop]
  mem := by
    rw [next_mem sorted keeps]
    show s.memIn ++ _ = ((s.out ++ _).filter _).map _ ++ _
    rw [List.filter_append, deq_mem, List.map_append, memPart_fst, delivered.mem]
    simp only [List.append_assoc]
    rw [← List.append_assoc (List.take _ _), List.take_append_drop]
  executes y on name goes := by
    rcases List.mem_append.mp on with old | new
    · exact delivered.executes y old name goes
    · exact deq_executes sorted new goes
  given name := by
    show s.given name ++ routed _ name = ((s.out ++ _).filter _).map _
    rw [routed_all ((sorted.fits valid).ports name), delivered.given, List.filter_append,
      List.map_append]

theorem Sorted.reset : Sorted (reset : Steering).queue :=
  ⟨⟨Nat.zero_le _, rfl⟩, ⟨Nat.zero_le _, rfl⟩, (fun _ on => by cases on), (fun _ on => by cases on)⟩

theorem Delivered.reset : (reset : Steering).Delivered :=
  ⟨rfl, rfl, (fun _ on => by cases on), fun _ => rfl⟩

end Steering

/-- In every run without a flush each instruction leaves the dispatch queue once and in order, for a
queue that executes it and has room, and the routing drops none. -/
theorem dispatch_delivers (s : Steering) (reach : steeringRuns.Reachable s) :
    s.Delivered ∧ ∀ x, s.Keeps x → (∀ q, x.occ q ≤ q.depth) → s.Fits x := by
  have both : Steering.Sorted s.queue ∧ s.Delivered := by
    refine reach.invariant (fun s => Steering.Sorted s.queue ∧ s.Delivered)
      ⟨.reset, .reset⟩ ?_
    intro s x _ sound legal _
    exact ⟨sound.1.next legal.1, sound.2.next sound.1 legal.1 legal.2⟩
  exact ⟨both.2, fun x _ valid => both.1.fits valid⟩

-- ---------------------------------------------------------------------
-- A load and an addition
-- ---------------------------------------------------------------------

namespace Steering

/-- LD and ADDI. -/
def loadAndAdd : SteerIn where
  enq := [⟨0, renamed (decodeSlice 0x0000b083#32 0 false)⟩,
    ⟨1, renamed (decodeSlice 0x00108093#32 4 false)⟩]
  occ _ := 0
  robHead := 0

theorem loadAndAdd_keeps : (reset : Steering).Keeps loadAndAdd where
  decoded e on := by
    rcases List.mem_cons.mp on with rfl | on
    · exact ⟨_, decodeSlice_classed _ _ _, rfl⟩
    · cases List.mem_singleton.mp on
      exact ⟨_, decodeSlice_classed _ _ _, rfl⟩
  width := by decide
  room _ := rfl

end Steering

theorem dispatch_delivers_two : ((Steering.reset).next Steering.loadAndAdd).Delivered ∧
    ((Steering.reset).next Steering.loadAndAdd).Fits { Steering.loadAndAdd with enq := [] } := by
  have valid (q : IqName) : Steering.loadAndAdd.occ q ≤ q.depth := Nat.zero_le _
  have right := dispatch_delivers _ (Machine.Reachable.cycle (m := steeringRuns) .reset
    ⟨Steering.loadAndAdd_keeps, valid⟩)
  refine ⟨right.1, right.2 _ ⟨fun e on => ?_, Nat.zero_le _, fun some_ => ?_⟩ valid⟩
  · cases on
  · exact absurd rfl some_

end Rv64gc.Backend
