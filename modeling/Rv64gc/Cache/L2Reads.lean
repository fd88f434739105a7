import Mathlib.Algebra.BigOperators.Fin
import Rv64gc.Cache.L2Cache
import Mathlib.Data.List.Forall2
import Mathlib.Data.List.Perm.Basic
import Rv64gc.Hdl.Machine

/-!
# Reads through the L2

The cache in front of a memory that performs its requests in order. Every accepted request is
written down, and so is every response, so that a read can be followed through the hit pipe, the
MSHRs and the response queue.
-/

namespace Rv64gc.Cache

open Hdl

structure L2Run where
  l2 : L2
  mem : Line → LineData
  /-- The reads that memory has performed and not answered, oldest first. -/
  out : List (Line × LineData)
  /-- The accepted requests, oldest first. -/
  asked : List Arb
  answered : List Resp

namespace L2

variable (s : L2) (x : L2In)

/-- The responses of a cycle. -/
def responses : List Resp :=
  [Source.dcache, .ptw, .icache, .prefetch].filterMap fun source => s.resp x source

end L2

namespace L2Run

variable (s : L2Run) (x : L2In)

/-- The writeback that memory takes. -/
def memWrite : Option (Line × LineData) :=
  ((s.l2.wbIssue x).bind s.l2.mshr).map fun m => (lineOf m.evictAddr, m.evictData)

/-- The read that memory takes. -/
def memRead : Option (Line × LineData) :=
  ((s.l2.rdIssue x).bind s.l2.mshr).map fun m => (lineOf m.addr, s.mem (lineOf m.addr))

def next : L2Run where
  l2 := s.l2.next x
  mem := (s.memWrite x).elim s.mem fun w => fun l => if l = w.1 then w.2 else s.mem l
  out := (if x.memResp.isSome then s.out.tail else s.out) ++ (s.memRead x).toList
  asked := s.asked ++ (s.l2.fire x).toList
  answered := s.answered ++ s.l2.responses x

/-- Memory answers the oldest read. -/
def Keeps : Prop := ∀ data, x.memResp = some data → ∃ l, s.out.head? = some (l, data)

end L2Run

def l2Runs (mem : Line → LineData) : Machine L2Run L2In where
  reset := ⟨.reset, mem, [], [], []⟩
  next s x := s.next x
  legal s x := s.Keeps x

-- ---------------------------------------------------------------------
-- What picks an index
-- ---------------------------------------------------------------------

namespace L2

variable {s : L2} {x : L2In}

theorem inState_some {state : MshrState} (first : s.inState state = some i) :
    ∃ m, s.mshr i = some m ∧ m.state = state := by
  have here := firstOf_some first
  obtain ⟨m, mshr, same⟩ := Option.any_eq_true _ _ |>.mp here
  exact ⟨m, mshr, beq_iff_eq.mp same⟩

theorem mshrFree_some (free : s.mshrFree = some i) : s.mshr i = none := by
  simpa using firstOf_some free

theorem wbIssue_some (issue : s.wbIssue x = some i) :
    ∃ m, s.mshr i = some m ∧ m.state = .writeback := by
  unfold wbIssue at issue
  split_ifs at issue
  exact inState_some issue

theorem rdIssue_some (issue : s.rdIssue x = some i) :
    ∃ m, s.mshr i = some m ∧ m.state = .pending := by
  unfold rdIssue at issue
  split_ifs at issue
  exact inState_some issue

theorem capture_some (capture : s.capture x = some (i, m, data)) :
    x.memResp = some data ∧ s.respqCanAccept = true ∧ s.rdOrder.head? = some i ∧
      s.mshr i = some m ∧ m.state = .waitMem := by
  unfold L2.capture at capture
  obtain ⟨d, resp, capture⟩ := Option.bind_eq_some_iff.mp capture
  split_ifs at capture with room
  obtain ⟨e, found, same⟩ := Option.map_eq_some_iff.mp capture
  obtain ⟨rfl, rfl, rfl⟩ : e.1 = i ∧ e.2 = m ∧ d = data := by simpa using same
  unfold mshrResp at found
  obtain ⟨j, head, found⟩ := Option.bind_eq_some_iff.mp found
  obtain ⟨n, here, rfl⟩ := Option.map_eq_some_iff.mp found
  obtain ⟨mshr, waits⟩ := Option.filter_eq_some_iff.mp here
  exact ⟨resp, room, head, mshr, beq_iff_eq.mp waits⟩

theorem alloc_some (alloc : s.alloc x = some (i, m)) :
    ∃ r w, s.fire x = some r ∧ s.hitWay r.addr = none ∧ s.mshrAddrMatch r.addr = false ∧
      s.mshr i = none ∧ s.victimWay (setOf r.addr) = some w ∧ m.addr = r.addr ∧
      m.source = r.source ∧ m.isWriteback = r.wdata.isSome ∧ m.fillWay = w ∧ m.wbMerge = none ∧
      m.id = s.accepted ∧ m.wbData = r.wdata.getD 0 ∧
      m.evictAddr = (s.way (setOf r.addr) w).tag ++ setOf r.addr ++ 0#6 ∧
      m.evictData = (s.way (setOf r.addr) w).data ∧
      m.state = if s.needEvict (setOf r.addr) w then .writeback
        else if r.wdata.isSome then .installWb else .pending := by
  unfold L2.alloc at alloc
  obtain ⟨r, fire, alloc⟩ := Option.bind_eq_some_iff.mp alloc
  by_cases known : (s.hitWay r.addr).isSome || s.mshrAddrMatch r.addr
  · rw [if_pos known] at alloc
    cases alloc
  rw [if_neg known] at alloc
  obtain ⟨k, free, alloc⟩ := Option.bind_eq_some_iff.mp alloc
  obtain ⟨w, victim, same⟩ := Option.map_eq_some_iff.mp alloc
  obtain ⟨rfl, rfl⟩ := Prod.mk.inj same
  simp only [Bool.or_eq_true, not_or, Bool.not_eq_true, Option.isSome_eq_false_iff,
    Option.isNone_iff_eq_none] at known
  exact ⟨r, w, fire, known.1, known.2, mshrFree_some free, victim, rfl, rfl, rfl, rfl, rfl, rfl, rfl,
    rfl, rfl, rfl⟩

theorem mshrAddrMatch_true (known : s.mshrAddrMatch a = true) :
    ∃ i m, s.mshr i = some m ∧ lineOf m.addr = lineOf a := by
  obtain ⟨i, first⟩ := Option.isSome_iff_exists.mp known
  obtain ⟨m, here, same⟩ := Option.any_eq_true _ _ |>.mp (firstOf_some first)
  exact ⟨i, m, here, beq_iff_eq.mp same⟩

/-- A miss that is accepted and not merged takes an MSHR. -/
theorem alloc_of_miss (fire : s.fire x = some r) (miss : s.hitWay r.addr = none)
    (fresh : s.mshrAddrMatch r.addr = false) : ∃ e, s.alloc x = some e := by
  have accept := (Option.filter_eq_some_iff.mp fire).2
  obtain ⟨free, victim⟩ : s.mshrFree.isSome = true ∧ (s.victimWay (setOf r.addr)).isSome = true := by
    simpa [readCanAccept, writeCanAccept, miss, fresh] using accept
  obtain ⟨i, free⟩ := Option.isSome_iff_exists.mp free
  obtain ⟨w, victim⟩ := Option.isSome_iff_exists.mp victim
  unfold alloc
  rw [fire, Option.bind_some, if_neg (by simp [miss, fresh]), free, Option.bind_some, victim]
  exact ⟨_, rfl⟩

/-- An MSHR stays, or it has just been taken. -/
theorem mshrNext_some (later : s.mshrNext x i = some m) :
    (∃ old, s.mshr i = some old ∧ m = s.advance x i old ∧ s.inState .installWb ≠ some i ∧
      (s.capture x).map Prod.fst ≠ some i) ∨ s.alloc x = some (i, m) := by
  unfold mshrNext at later
  split at later
  next => cases later
  next stays =>
    have stays := not_or.mp stays
    have kept (kept : (s.mshr i).map (s.advance x i) = some m) :
        ∃ old, s.mshr i = some old ∧ m = s.advance x i old ∧ s.inState .installWb ≠ some i ∧
          (s.capture x).map Prod.fst ≠ some i := by
      obtain ⟨old, here, rfl⟩ := Option.map_eq_some_iff.mp kept
      exact ⟨old, here, rfl, stays.1, stays.2⟩
    split at later
    next k n alloc =>
      split at later
      next here =>
        obtain rfl := here
        obtain rfl := Option.some.inj later
        exact .inr alloc
      next => exact .inl (kept later)
    next => exact .inl (kept later)

theorem mshrNext_stays (here : s.mshr i = some m) (install : s.inState .installWb ≠ some i)
    (capture : (s.capture x).map Prod.fst ≠ some i) :
    s.mshrNext x i = some (s.advance x i m) := by
  unfold mshrNext
  rw [if_neg (not_or.mpr ⟨install, capture⟩)]
  split
  next k n alloc =>
    obtain ⟨-, -, -, -, -, free, -⟩ := alloc_some alloc
    have other : k ≠ i := by
      rintro rfl
      cases free.symm.trans here
    rw [if_neg other, here]
    rfl
  next => rw [here]; rfl

theorem mshrNext_alloc (alloc : s.alloc x = some (i, m)) : s.mshrNext x i = some m := by
  obtain ⟨-, -, -, -, -, free, -⟩ := alloc_some alloc
  unfold mshrNext
  rw [if_neg, alloc]
  · exact if_pos rfl
  · rintro (install | capture)
    · obtain ⟨n, here, -⟩ := inState_some install
      cases free.symm.trans here
    · obtain ⟨⟨j, n, data⟩, captured, rfl⟩ := Option.map_eq_some_iff.mp capture
      obtain ⟨-, -, -, here, -⟩ := capture_some captured
      cases free.symm.trans here

/-- A new MSHR is for a line that none tracks. -/
theorem alloc_line (alloc : s.alloc x = some (i, m)) (here : s.mshr j = some n) :
    lineOf n.addr ≠ lineOf m.addr := by
  obtain ⟨r, w, -, -, fresh, -, -, addr, -⟩ := alloc_some alloc
  rw [addr]
  intro same
  unfold mshrAddrMatch at fresh
  rw [Option.isSome_eq_false_iff, Option.isNone_iff_eq_none, firstOf_none] at fresh
  simpa [here, same] using fresh j

theorem not_install (here : s.mshr i = some m) (other : m.state ≠ .installWb) :
    s.inState .installWb ≠ some i := by
  intro install
  obtain ⟨n, same, state⟩ := inState_some install
  obtain rfl := Option.some.inj (here.symm.trans same)
  exact other state

theorem not_wbIssue (here : s.mshr i = some m) (other : m.state ≠ .writeback) :
    s.wbIssue x ≠ some i := by
  intro issue
  obtain ⟨n, same, state⟩ := wbIssue_some issue
  obtain rfl := Option.some.inj (here.symm.trans same)
  exact other state

theorem not_rdIssue (here : s.mshr i = some m) (other : m.state ≠ .pending) :
    s.rdIssue x ≠ some i := by
  intro issue
  obtain ⟨n, same, state⟩ := rdIssue_some issue
  obtain rfl := Option.some.inj (here.symm.trans same)
  exact other state

theorem not_capture (here : s.mshr i = some m) (other : m.state ≠ .waitMem) :
    (s.capture x).map Prod.fst ≠ some i := by
  intro capture
  obtain ⟨⟨j, n, data⟩, captured, rfl⟩ := Option.map_eq_some_iff.mp capture
  obtain ⟨-, -, -, same, state⟩ := capture_some captured
  obtain rfl := Option.some.inj (here.symm.trans same)
  exact other state

theorem advance_state_waitMem (here : s.mshr i = some m) (waits : m.state = .waitMem) :
    (s.advance x i m).state = .waitMem := by
  unfold advance
  dsimp only
  rw [if_neg (not_wbIssue here (by simp [waits])), if_neg (not_rdIssue here (by simp [waits])), waits]

end L2

-- ---------------------------------------------------------------------
-- MSHRs and memory
-- ---------------------------------------------------------------------

theorem forall₂_mem {R : α → β → Prop} {l : List α} {u : List β} (all : List.Forall₂ R l u)
    (mem : a ∈ l) : ∃ b ∈ u, R a b := by
  induction all with
  | nil => cases mem
  | cons here _ ih =>
    obtain rfl | later := List.mem_cons.mp mem
    · exact ⟨_, .head _, here⟩
    · obtain ⟨b, mem, holds⟩ := ih later
      exact ⟨b, .tail _ mem, holds⟩

namespace L2Run

/-- Every answer of memory finds room in the response queue. -/
def Roomy (s : L2Run) (x : L2In) : Prop := x.memResp.isSome = true → s.l2.respqCanAccept = true

/-- What memory has been asked is what the MSHRs wait for, in the same order. -/
structure Tracked (s : L2Run) : Prop where
  lines : ∀ i j m n, s.l2.mshr i = some m → s.l2.mshr j = some n →
    lineOf m.addr = lineOf n.addr → i = j
  reads : List.Forall₂ (fun i (o : Line × LineData) => ∃ m, s.l2.mshr i = some m ∧
    m.state = .waitMem ∧ lineOf m.addr = o.1) s.l2.rdOrder s.out
  nodup : s.l2.rdOrder.Nodup
  waits : ∀ i m, s.l2.mshr i = some m → m.state = .waitMem → i ∈ s.l2.rdOrder
  installs : ∀ i m, s.l2.mshr i = some m → m.state = .installWb → m.isWriteback = true
  fetches : ∀ i m, s.l2.mshr i = some m → m.state = .pending ∨ m.state = .waitMem →
    m.isWriteback = false

variable {s : L2Run} {x : L2In}

/-- An answer of memory is for the MSHR that has waited longest, and of its line. -/
theorem capture_of_resp (tracked : Tracked s) (keeps : s.Keeps x) (roomy : s.Roomy x)
    (resp : x.memResp = some data) :
    ∃ i m, s.l2.capture x = some (i, m, data) ∧ s.out.head? = some (lineOf m.addr, data) := by
  obtain ⟨l, head⟩ := keeps data resp
  have reads := tracked.reads
  cases order : s.l2.rdOrder with
  | nil =>
    rw [order] at reads
    rw [List.forall₂_nil_left_iff.mp reads] at head
    cases head
  | cons i rest =>
    cases out : s.out with
    | nil => simp [out] at head
    | cons o others =>
      rw [order, out] at reads
      obtain ⟨⟨m, here, waits, line⟩, -⟩ := List.forall₂_cons.mp reads
      obtain rfl : o = (l, data) := by simpa [out] using head
      refine ⟨i, m, ?_, by simp [line]⟩
      unfold L2.capture L2.mshrResp
      simp [resp, roomy (by simp [resp]), order, here, waits]

theorem waiting_of_mem (tracked : Tracked s) (mem : i ∈ s.l2.rdOrder) :
    ∃ m, s.l2.mshr i = some m ∧ m.state = .waitMem := by
  obtain ⟨-, -, m, here, waits, -⟩ := forall₂_mem tracked.reads mem
  exact ⟨m, here, waits⟩

theorem capture_none (resp : x.memResp = none) : s.l2.capture x = none := by
  simp [L2.capture, resp]

/-- A waiting MSHR whose answer has not come waits on. -/
theorem stays_waiting (here : s.l2.mshr i = some m) (waits : m.state = .waitMem)
    (other : (s.l2.capture x).map Prod.fst ≠ some i) :
    (s.next x).l2.mshr i = some (s.l2.advance x i m) ∧ (s.l2.advance x i m).state = .waitMem :=
  ⟨L2.mshrNext_stays here (L2.not_install here (by simp [waits])) other,
    L2.advance_state_waitMem here waits⟩

/-- The read that memory takes is of an MSHR that waits from now on. -/
theorem memRead_eq (s : L2Run) (x : L2In) :
    List.Forall₂ (fun i (o : Line × LineData) => ∃ m, (s.next x).l2.mshr i = some m ∧
      m.state = .waitMem ∧ lineOf m.addr = o.1) (s.l2.rdIssue x).toList (s.memRead x).toList := by
  unfold memRead
  cases issue : s.l2.rdIssue x with
  | none => exact .nil
  | some i =>
    obtain ⟨m, here, pending⟩ := L2.rdIssue_some issue
    simp only [Option.bind_some, here, Option.map_some, Option.toList_some]
    refine .cons ⟨s.l2.advance x i m, ?_, ?_, rfl⟩ .nil
    · exact L2.mshrNext_stays here (L2.not_install here (by simp [pending]))
        (L2.not_capture here (by simp [pending]))
    · unfold L2.advance
      dsimp only
      rw [if_neg (L2.not_wbIssue here (by simp [pending])), if_pos issue]

theorem reads_next (tracked : Tracked s) (keeps : s.Keeps x) (roomy : s.Roomy x) :
    List.Forall₂ (fun i (o : Line × LineData) => ∃ m, (s.next x).l2.mshr i = some m ∧
      m.state = .waitMem ∧ lineOf m.addr = o.1) (s.next x).l2.rdOrder (s.next x).out := by
  refine List.rel_append ?_ (memRead_eq s x)
  cases resp : x.memResp with
  | none =>
    simp only [capture_none resp, Option.isSome_none, Bool.false_eq_true, if_false]
    refine tracked.reads.imp fun i o held => ?_
    obtain ⟨m, here, waits, line⟩ := held
    obtain ⟨later, state⟩ := stays_waiting (x := x) here waits (by simp [capture_none resp])
    exact ⟨_, later, state, line⟩
  | some data =>
    obtain ⟨i, m, capture, -⟩ := capture_of_resp tracked keeps roomy resp
    obtain ⟨-, -, head, -⟩ := L2.capture_some capture
    have reads := tracked.reads
    have nodup := tracked.nodup
    simp only [capture, Option.isSome_some, if_true]
    cases order : s.l2.rdOrder with
    | nil => simp [order] at head
    | cons j rest =>
      obtain rfl : j = i := by simpa [order] using head
      rw [order] at reads nodup
      obtain ⟨o, others, -, reads, out⟩ := List.forall₂_cons_left_iff.mp reads
      rw [out]
      simp only [List.tail_cons]
      have others_ := (List.forall₂_and_left rest others).mpr
        ⟨fun k mem (same : k = j) => (List.nodup_cons.mp nodup).1 (same ▸ mem), reads⟩
      refine others_.imp fun k o held => ?_
      obtain ⟨other, m, here, waits, line⟩ := held
      obtain ⟨later, state⟩ := stays_waiting (x := x) here waits (by simp [capture, Ne.symm other])
      exact ⟨_, later, state, line⟩

theorem lines_next (tracked : Tracked s) {i j : Fin l2MshrDepth} {m n : Mshr}
    (here : (s.next x).l2.mshr i = some m) (there : (s.next x).l2.mshr j = some n)
    (same : lineOf m.addr = lineOf n.addr) : i = j := by
  obtain ⟨m', mHere, rfl, -⟩ | mAlloc := L2.mshrNext_some here
  · obtain ⟨n', nHere, rfl, -⟩ | nAlloc := L2.mshrNext_some there
    · exact tracked.lines i j m' n' mHere nHere same
    · exact (L2.alloc_line nAlloc mHere same).elim
  · obtain ⟨n', nHere, rfl, -⟩ | nAlloc := L2.mshrNext_some there
    · exact (L2.alloc_line mAlloc nHere same.symm).elim
    · exact congrArg Prod.fst (Option.some.inj (mAlloc.symm.trans nAlloc))

theorem nodup_next (tracked : Tracked s) : (s.next x).l2.rdOrder.Nodup := by
  have rest : (if (s.l2.capture x).isSome then s.l2.rdOrder.tail else s.l2.rdOrder).Nodup := by
    split
    · exact tracked.nodup.tail
    · exact tracked.nodup
  refine rest.append (by cases s.l2.rdIssue x <;> simp) ?_
  intro i waits issued
  have waits : i ∈ s.l2.rdOrder := by
    split at waits
    · exact List.mem_of_mem_tail waits
    · exact waits
  obtain ⟨m, here, pending⟩ := L2.rdIssue_some (by simpa using issued)
  obtain ⟨n, there, waiting⟩ := waiting_of_mem tracked waits
  obtain rfl := Option.some.inj (here.symm.trans there)
  cases pending.symm.trans waiting

/-- Who waits for memory keeps its place in the order until its answer comes. -/
theorem waits_next (tracked : Tracked s) {i : Fin l2MshrDepth} {m : Mshr}
    (here : (s.next x).l2.mshr i = some m) (waits : m.state = .waitMem) :
    i ∈ (s.next x).l2.rdOrder := by
  refine List.mem_append.mpr ?_
  obtain ⟨old, old_, rfl, -, other⟩ | alloc := L2.mshrNext_some here
  · by_cases issued : s.l2.rdIssue x = some i
    · exact .inr (by simp [issued])
    · refine .inl ?_
      have waited : old.state = .waitMem := by
        unfold L2.advance at waits
        dsimp only at waits
        split_ifs at waits
        exact waits
      have mem := tracked.waits i old old_ waited
      split
      next captured =>
        obtain ⟨⟨j, n, data⟩, capture⟩ := Option.isSome_iff_exists.mp captured
        obtain ⟨-, -, head, -⟩ := L2.capture_some capture
        cases order : s.l2.rdOrder with
        | nil => simp [order] at head
        | cons k rest =>
          rw [order] at head mem
          obtain rfl | later := List.mem_cons.mp mem
          · exact absurd (by simpa [capture] using head.symm) other
          · exact later
      next => exact mem
  · obtain ⟨r, w, -, -, -, -, -, -, -, -, -, -, -, -, -, -, state⟩ := L2.alloc_some alloc
    rw [state] at waits
    split_ifs at waits

theorem installs_next (tracked : Tracked s) {i : Fin l2MshrDepth} {m : Mshr}
    (here : (s.next x).l2.mshr i = some m) (state : m.state = .installWb) :
    m.isWriteback = true := by
  obtain ⟨old, old_, rfl, notInstall, -⟩ | alloc := L2.mshrNext_some here
  · unfold L2.advance at state ⊢
    dsimp only at state ⊢
    split_ifs at state with wb isWb rd
    · exact isWb
    · exact tracked.installs i old old_ state
  · obtain ⟨r, w, -, -, -, -, -, -, -, isWriteback, -, -, -, -, -, -, new⟩ := L2.alloc_some alloc
    rw [new] at state
    rw [isWriteback]
    split_ifs at state with evict writes
    exact writes

theorem fetches_next (tracked : Tracked s) {i : Fin l2MshrDepth} {m : Mshr}
    (here : (s.next x).l2.mshr i = some m) (state : m.state = .pending ∨ m.state = .waitMem) :
    m.isWriteback = false := by
  obtain ⟨old, old_, rfl, -, -⟩ | alloc := L2.mshrNext_some here
  · unfold L2.advance at state ⊢
    dsimp only at state ⊢
    split_ifs at state with wb isWb rd
    · simp at state
    · simpa using isWb
    · obtain ⟨n, there, pending⟩ := L2.rdIssue_some rd
      obtain rfl := Option.some.inj (old_.symm.trans there)
      exact tracked.fetches i old old_ (.inl pending)
    · exact tracked.fetches i old old_ state
  · obtain ⟨r, w, -, -, -, -, -, -, -, isWriteback, -, -, -, -, -, -, new⟩ := L2.alloc_some alloc
    rw [new] at state
    rw [isWriteback]
    split_ifs at state with evict writes
    · simp at state
    · simp at state
    · simpa using writes

theorem tracked_next (tracked : Tracked s) (keeps : s.Keeps x) (roomy : s.Roomy x) :
    Tracked (s.next x) where
  lines _ _ _ _ here there same := lines_next tracked here there same
  reads := reads_next tracked keeps roomy
  nodup := nodup_next tracked
  waits _ _ here waits := waits_next tracked here waits
  installs _ _ here state := installs_next tracked here state
  fetches _ _ here state := fetches_next tracked here state

end L2Run

-- ---------------------------------------------------------------------
-- The ledger
-- ---------------------------------------------------------------------

def holds (r : Option Resp) (n : Nat) : Nat := if r.any fun r => r.id == n then 1 else 0

namespace L2

def mshrHolds (m : Option Mshr) (n : Nat) : Nat :=
  if m.any fun m => !m.isWriteback && m.id == n then 1 else 0

variable (s : L2) (x : L2In)

/-- In how many places request `n` waits for its response. -/
def inFlight (n : Nat) : Nat :=
  (∑ k, holds (s.hitPipe k) n) + s.respq.countP (fun r => r.id == n) +
    ∑ i, mshrHolds (s.mshr i) n

variable {s x}

theorem hitPipe_next (n : Nat) :
    (∑ k, holds ((s.next x).hitPipe k) n) + holds s.hitResp n =
      (∑ k, holds (s.hitPipe k) n) + holds (s.hitStart x) n := by
  rw [Fin.sum_univ_succ, Fin.sum_univ_castSucc (fun k => holds (s.hitPipe k) n)]
  simp only [next, Fin.cases_zero, Fin.cases_succ, hitResp]
  omega

theorem countP_toList (r : Option Resp) (n : Nat) :
    r.toList.countP (fun r => r.id == n) = holds r n := by
  cases r with
  | none => rfl
  | some r => simp [holds, List.countP_cons]

def deqResp (s : L2) : Option Resp := s.respqDeq.map s.respq.get

theorem respq_next (n : Nat) :
    (s.next x).respq.countP (fun r => r.id == n) + holds s.deqResp n =
      s.respq.countP (fun r => r.id == n) + holds (s.respqEnq x) n := by
  simp only [next, List.countP_append, countP_toList, deqResp]
  cases s.respqDeq with
  | none => simp [holds]
  | some k =>
    have perm := (List.getElem_cons_eraseIdx_perm k.isLt).countP_eq fun r => r.id == n
    rw [List.countP_cons] at perm
    simp only [Option.elim_some, Option.map_some, holds, Option.any_some]
    simp only [List.get_eq_getElem]
    omega

theorem mshrNext_holds
    (installs : ∀ i m, s.mshr i = some m → m.state = .installWb → m.isWriteback = true)
    (fetches : ∀ i m, s.mshr i = some m → m.state = .waitMem → m.isWriteback = false)
    (i : Fin l2MshrDepth) (n : Nat) :
    mshrHolds (s.mshrNext x i) n +
        (if (s.capture x).map Prod.fst = some i then holds (s.memAnswer x) n else 0) =
      mshrHolds (s.mshr i) n +
        (if (s.alloc x).map Prod.fst = some i then mshrHolds ((s.alloc x).map Prod.snd) n
        else 0) := by
  by_cases captured : (s.capture x).map Prod.fst = some i
  · obtain ⟨⟨j, m, data⟩, capture, rfl⟩ := Option.map_eq_some_iff.mp captured
    obtain ⟨-, -, -, here, waits⟩ := capture_some capture
    have gone : s.mshrNext x j = none := if_pos (.inr captured)
    have other : (s.alloc x).map Prod.fst ≠ some j := by
      intro taken
      obtain ⟨⟨k, m'⟩, alloc, rfl⟩ := Option.map_eq_some_iff.mp taken
      obtain ⟨-, -, -, -, -, free, -⟩ := alloc_some alloc
      cases free.symm.trans here
    dsimp only at here other gone ⊢
    rw [if_pos captured, if_neg other, gone, here]
    simp [mshrHolds, holds, memAnswer, capture, fetches j m here waits]
  · rw [if_neg captured]
    by_cases install : s.inState .installWb = some i
    · obtain ⟨m, here, state⟩ := inState_some install
      have gone : s.mshrNext x i = none := if_pos (.inl install)
      have other : (s.alloc x).map Prod.fst ≠ some i := by
        intro taken
        obtain ⟨⟨k, m'⟩, alloc, rfl⟩ := Option.map_eq_some_iff.mp taken
        obtain ⟨-, -, -, -, -, free, -⟩ := alloc_some alloc
        cases free.symm.trans here
      rw [if_neg other, gone, here]
      simp [mshrHolds, installs i m here state]
    · by_cases allocated : (s.alloc x).map Prod.fst = some i
      · obtain ⟨⟨j, m⟩, alloc, rfl⟩ := Option.map_eq_some_iff.mp allocated
        obtain ⟨-, -, -, -, -, free, -⟩ := alloc_some alloc
        rw [if_pos allocated, mshrNext_alloc alloc, free, alloc]
        simp [mshrHolds]
      · rw [if_neg allocated]
        cases here : s.mshr i with
        | some m =>
          rw [mshrNext_stays here install captured]
          rfl
        | none =>
          cases later : s.mshrNext x i with
          | none => rfl
          | some m =>
            obtain ⟨old, old_, -⟩ | alloc := mshrNext_some later
            · cases here.symm.trans old_
            · exact absurd (by simp [alloc]) allocated

theorem mshr_next
    (installs : ∀ i m, s.mshr i = some m → m.state = .installWb → m.isWriteback = true)
    (fetches : ∀ i m, s.mshr i = some m → m.state = .waitMem → m.isWriteback = false) (n : Nat) :
    (∑ i, mshrHolds ((s.next x).mshr i) n) + holds (s.memAnswer x) n =
      (∑ i, mshrHolds (s.mshr i) n) + mshrHolds ((s.alloc x).map Prod.snd) n := by
  have each := Finset.sum_congr (rfl : (Finset.univ : Finset (Fin l2MshrDepth)) = _)
    fun i _ => mshrNext_holds (x := x) installs fetches i n
  rw [Finset.sum_add_distrib, Finset.sum_add_distrib] at each
  have answered : (∑ i, if (s.capture x).map Prod.fst = some i then holds (s.memAnswer x) n else 0) =
      holds (s.memAnswer x) n := by
    cases capture : s.capture x with
    | none => simp [memAnswer, capture, holds]
    | some c => simp
  have allocated : (∑ i, if (s.alloc x).map Prod.fst = some i then
      mshrHolds ((s.alloc x).map Prod.snd) n else 0) = mshrHolds ((s.alloc x).map Prod.snd) n := by
    cases s.alloc x with
    | none => simp [mshrHolds]
    | some c => simp
  rw [answered, allocated] at each
  exact each

-- ---------------------------------------------------------------------
-- Responses
-- ---------------------------------------------------------------------

theorem holds_filter (r : Option Resp) (n : Nat) :
    holds (r.filter fun r => r.source == .dcache) n + holds (r.filter fun r => r.source == .ptw) n +
        holds (r.filter fun r => r.source == .icache) n +
        holds (r.filter fun r => r.source == .prefetch) n = holds r n := by
  cases r with
  | none => rfl
  | some r =>
    cases source : r.source <;> simp [Option.filter_some, source, holds]

/-- A queued response does not go to the requester of the hit. -/
theorem deqResp_other (deq : s.deqResp = some d) (hit : s.hitResp = some h) :
    d.source ≠ h.source := by
  obtain ⟨k, first, rfl⟩ := Option.map_eq_some_iff.mp deq
  have free := firstOf_some first
  rw [hit] at free
  simpa using free

/-- A fill answers at once only where nothing is queued before it. -/
theorem memDirect_other (direct : s.memDirect x = some r) (deq : s.deqResp = some d) :
    d.source ≠ r.source := by
  obtain ⟨k, -, rfl⟩ := Option.map_eq_some_iff.mp deq
  obtain ⟨-, free⟩ := Option.filter_eq_some_iff.mp direct
  intro same
  simp only [Bool.not_eq_true', List.any_eq_false, beq_iff_eq] at free
  exact free _ (List.getElem_mem k.isLt) same

/-- No two responses are for one requester, but for a hit that makes way and is queued. -/
theorem holds_resp (source : Source) (n : Nat) :
    holds (s.resp x source) n =
      holds ((s.memDirect x).filter fun r => r.source == source) n +
        (if s.hitCollision x then 0 else holds (s.hitResp.filter fun r => r.source == source) n) +
        holds (s.deqResp.filter fun r => r.source == source) n := by
  have other {d h : Resp} {r : Option Resp} (kept : r.filter (fun r => r.source == source) = some h)
      (differs : ∀ h', r = some h' → d.source ≠ h'.source) :
      ((some d).filter fun r => r.source == source) = none := by
    obtain ⟨rfl, here⟩ := Option.filter_eq_some_iff.mp kept
    have differs := differs h rfl
    rw [beq_iff_eq.mp here] at differs
    simp [Option.filter_some, differs]
  have deqNone {h : Resp} {r : Option Resp}
      (kept : r.filter (fun r => r.source == source) = some h)
      (differs : ∀ d h', s.deqResp = some d → r = some h' → d.source ≠ h'.source) :
      (s.deqResp.filter fun r => r.source == source) = none := by
    cases deq : s.deqResp with
    | none => rfl
    | some d => exact other kept fun h' here => differs d h' deq here
  unfold resp
  change holds (Option.or _ (Option.or _ (s.deqResp.filter _))) n = _
  cases direct : (s.memDirect x).filter fun r => r.source == source with
  | some r =>
    have deq := deqNone direct fun d h' deq here => memDirect_other here deq
    obtain ⟨direct, here⟩ := Option.filter_eq_some_iff.mp direct
    rw [deq]
    cases hit : s.hitResp with
    | none => simp [holds]
    | some h =>
      by_cases same : h.source = source
      · have collides : s.hitCollision x = true := by
          simp [hitCollision, hit, direct, beq_iff_eq.mp here, same]
        simp [collides, holds]
      · simp [Option.filter_some, same, holds]
  | none =>
    cases hit : s.hitResp.filter fun r => r.source == source with
    | some h =>
      have deq := deqNone hit fun d h' deq here => deqResp_other deq here
      obtain ⟨hit, here⟩ := Option.filter_eq_some_iff.mp hit
      have apart : s.hitCollision x = false := by
        by_contra collides
        simp only [Bool.not_eq_false, hitCollision, hit, Option.any_some] at collides
        obtain ⟨r, there, same⟩ := Option.any_eq_true _ _ |>.mp collides
        rw [there, Option.filter_some] at direct
        simp [beq_iff_eq.mp same, beq_iff_eq.mp here] at direct
      rw [deq, apart]
      simp [holds]
    | none => cases s.hitCollision x <;> simp [holds]

theorem responses_holds (n : Nat) :
    (s.responses x).countP (fun r => r.id == n) = holds (s.memDirect x) n +
      (if s.hitCollision x then 0 else holds s.hitResp n) + holds s.deqResp n := by
  have each : (s.responses x).countP (fun r => r.id == n) = holds (s.resp x .dcache) n +
      holds (s.resp x .ptw) n + holds (s.resp x .icache) n + holds (s.resp x .prefetch) n := by
    unfold responses
    cases dcache : s.resp x .dcache <;> cases ptw : s.resp x .ptw <;>
      cases icache : s.resp x .icache <;> cases prefetch : s.resp x .prefetch <;>
      simp [dcache, ptw, icache, prefetch, holds, List.countP_cons] <;> omega
  rw [each, holds_resp, holds_resp, holds_resp, holds_resp, ← holds_filter (s.memDirect x) n,
    ← holds_filter s.deqResp n, ← holds_filter s.hitResp n]
  split <;> omega

/-- A response comes of a fill, of the hit pipe or of the queue. -/
theorem responses_source (given : r ∈ s.responses x) :
    s.memAnswer x = some r ∨ s.hitResp = some r ∨ ∃ k, s.respq.get k = r := by
  unfold responses at given
  obtain ⟨source, -, resp⟩ := List.mem_filterMap.mp given
  unfold L2.resp at resp
  obtain direct | ⟨-, resp⟩ := Option.or_eq_some_iff.mp resp
  · have direct := (Option.filter_eq_some_iff.mp direct).1
    exact .inl (Option.filter_eq_some_iff.mp direct).1
  · obtain hit | ⟨-, deq⟩ := Option.or_eq_some_iff.mp resp
    · exact .inr (.inl (Option.filter_eq_some_iff.mp hit).1)
    · obtain ⟨k, -, rfl⟩ := Option.map_eq_some_iff.mp (Option.filter_eq_some_iff.mp deq).1
      exact .inr (.inr ⟨k, rfl⟩)

/-- A response of memory or of the hit pipe is given or queued. -/
theorem given_or_queued (n : Nat) :
    holds (s.respqEnq x) n + holds (s.memDirect x) n +
        (if s.hitCollision x then 0 else holds s.hitResp n) =
      holds (s.memAnswer x) n + holds s.hitResp n := by
  unfold respqEnq
  cases direct : s.memDirect x with
  | none =>
    have apart : s.hitCollision x = false := by simp [hitCollision, direct]
    simp [apart, holds]
  | some r =>
    have answer : s.memAnswer x = some r := (Option.filter_eq_some_iff.mp direct).1
    rw [answer]
    split
    · simp [holds, Nat.add_comm]
    · simp [holds]

def isRead (r : Option Arb) : Bool := r.any fun r => r.wdata.isNone

/-- A read that is accepted enters the hit pipe or an MSHR. -/
theorem entered (n : Nat) :
    holds (s.hitStart x) n + mshrHolds ((s.alloc x).map Prod.snd) n =
      if isRead (s.fire x) ∧ s.accepted = n then 1 else 0 := by
  cases fire : s.fire x with
  | none =>
    have taken : s.alloc x = none := by
      unfold alloc
      rw [fire]
      rfl
    simp [hitStart, taken, fire, isRead, holds, mshrHolds]
  | some r =>
    cases write : r.wdata with
    | some data =>
      cases taken : s.alloc x with
      | none => simp [hitStart, fire, write, isRead, holds, mshrHolds]
      | some e =>
        obtain ⟨r', w, same, -, -, -, -, -, -, isWriteback, -⟩ := alloc_some taken
        obtain rfl := Option.some.inj (same.symm.trans fire)
        simp [hitStart, fire, write, isRead, holds, mshrHolds, isWriteback]
    | none =>
      cases hit : s.hitWay r.addr with
      | some w =>
        have taken : s.alloc x = none := by
          unfold alloc
          rw [fire, Option.bind_some, if_pos (by simp [hit])]
        simp [hitStart, taken, fire, write, hit, isRead, holds, mshrHolds]
      | none =>
        have fresh : s.mshrAddrMatch r.addr = false := by
          have accept := (Option.filter_eq_some_iff.mp fire).2
          simp only [write, Option.isSome_none, Bool.false_eq_true, if_false, readCanAccept, hit,
            Bool.false_or, Bool.and_eq_true, Bool.not_eq_true'] at accept
          exact accept.1.1
        obtain ⟨⟨j, m⟩, taken⟩ := alloc_of_miss fire hit fresh
        obtain ⟨r', -, same, -, -, -, -, -, -, isWriteback, -, -, id, -⟩ := alloc_some taken
        obtain rfl := Option.some.inj (same.symm.trans fire)
        simp [hitStart, taken, fire, write, hit, isWriteback, id, isRead, holds, mshrHolds]

end L2

namespace L2Run

/-- Every accepted read has been answered once, or waits in one place for its response. -/
structure Ledger (s : L2Run) : Prop where
  once : ∀ n, s.answered.countP (fun r => r.id == n) + s.l2.inFlight n =
    if L2.isRead s.asked[n]? then 1 else 0
  count : s.asked.length = s.l2.accepted
  answered : ∀ r ∈ s.answered, s.asked[r.id]? = some ⟨r.addr, none, r.source⟩
  pipe : ∀ k r, s.l2.hitPipe k = some r → s.asked[r.id]? = some ⟨r.addr, none, r.source⟩
  queue : ∀ r ∈ s.l2.respq, s.asked[r.id]? = some ⟨r.addr, none, r.source⟩
  mshr : ∀ i m, s.l2.mshr i = some m → m.isWriteback = false →
    s.asked[m.id]? = some ⟨m.addr, none, m.source⟩
  room : s.l2.respq.length ≤ respqDepth

variable {s : L2Run} {x : L2In}

theorem once_next (tracked : Tracked s) (ledger : Ledger s) (n : Nat) :
    (s.next x).answered.countP (fun r => r.id == n) + (s.next x).l2.inFlight n =
      if L2.isRead (s.next x).asked[n]? then 1 else 0 := by
  have pipe := L2.hitPipe_next (s := s.l2) (x := x) n
  have queue := L2.respq_next (s := s.l2) (x := x) n
  have mshr := L2.mshr_next (s := s.l2) (x := x) tracked.installs
    (fun i m here waits => tracked.fetches i m here (.inr waits)) n
  have given := L2.given_or_queued (s := s.l2) (x := x) n
  have entered := L2.entered (s := s.l2) (x := x) n
  have responses := L2.responses_holds (s := s.l2) (x := x) n
  have once := ledger.once n
  have asked : (if L2.isRead (s.next x).asked[n]? then 1 else 0) =
      (if L2.isRead s.asked[n]? then 1 else 0) +
        if L2.isRead (s.l2.fire x) ∧ s.l2.accepted = n then 1 else 0 := by
    rw [← ledger.count]
    change (if L2.isRead (s.asked ++ (s.l2.fire x).toList)[n]? then 1 else 0) = _
    cases s.l2.fire x with
    | none =>
      simp only [Option.toList_none, List.append_nil, show L2.isRead none = false from rfl,
        Bool.false_eq_true, false_and, if_false, Nat.add_zero]
    | some r =>
      obtain before | rfl | after := Nat.lt_trichotomy n s.asked.length
      · simp [List.getElem?_append_left before, Nat.ne_of_gt before]
      · simp [L2.isRead]
      · simp [L2.isRead, List.getElem?_append_right (Nat.le_of_lt after),
          List.getElem?_eq_none (Nat.le_of_lt after), Nat.ne_of_lt after,
          show ¬ n - s.asked.length = 0 by omega]
  have answered : (s.next x).answered.countP (fun r => r.id == n) =
      s.answered.countP (fun r => r.id == n) +
        (s.l2.responses x).countP (fun r => r.id == n) := List.countP_append
  rw [asked, answered, responses, ← entered, ← once]
  unfold L2.inFlight
  change _ + ((∑ k, holds ((s.l2.next x).hitPipe k) n) +
    (s.l2.next x).respq.countP (fun r => r.id == n) +
      ∑ i, L2.mshrHolds ((s.l2.next x).mshr i) n) = _
  omega

theorem asked_next {n : Nat} (here : s.asked[n]? = some r) : (s.next x).asked[n]? = some r := by
  obtain ⟨inside, -⟩ := List.getElem?_eq_some_iff.mp here
  change (s.asked ++ _)[n]? = some r
  rw [List.getElem?_append_left inside, here]

/-- The number of a request that is accepted. -/
theorem asked_new (ledger : Ledger s) (fire : s.l2.fire x = some r) (reads : r.wdata = none) :
    (s.next x).asked[s.l2.accepted]? = some ⟨r.addr, none, r.source⟩ := by
  change (s.asked ++ (s.l2.fire x).toList)[s.l2.accepted]? = _
  rw [← ledger.count, fire, ← reads]
  simp

/-- The answer of a fill is for the read of its MSHR. -/
theorem memAnswer_asked (tracked : Tracked s) (ledger : Ledger s)
    (answer : s.l2.memAnswer x = some r) : s.asked[r.id]? = some ⟨r.addr, none, r.source⟩ := by
  obtain ⟨⟨i, m, data⟩, capture, rfl⟩ := Option.map_eq_some_iff.mp answer
  obtain ⟨-, -, -, here, waits⟩ := L2.capture_some capture
  exact ledger.mshr i m here (tracked.fetches i m here (.inr waits))

theorem respqEnq_asked (tracked : Tracked s) (ledger : Ledger s)
    (enq : s.l2.respqEnq x = some r) : s.asked[r.id]? = some ⟨r.addr, none, r.source⟩ := by
  unfold L2.respqEnq at enq
  split_ifs at enq
  · exact ledger.pipe _ r enq
  · exact memAnswer_asked tracked ledger enq

theorem responses_asked (tracked : Tracked s) (ledger : Ledger s)
    (given : r ∈ s.l2.responses x) : s.asked[r.id]? = some ⟨r.addr, none, r.source⟩ := by
  obtain fill | hit | ⟨k, rfl⟩ := L2.responses_source given
  · exact memAnswer_asked tracked ledger fill
  · exact ledger.pipe _ r hit
  · exact ledger.queue _ (List.getElem_mem k.isLt)

/-- What is queued finds room. -/
theorem room_next (ledger : Ledger s) : (s.next x).l2.respq.length ≤ respqDepth := by
  change ((s.l2.respqDeq.elim s.l2.respq fun k => s.l2.respq.eraseIdx k) ++
    (s.l2.respqEnq x).toList).length ≤ respqDepth
  have room := ledger.room
  rw [List.length_append]
  cases enq : s.l2.respqEnq x with
  | none =>
    cases s.l2.respqDeq with
    | none => simpa using room
    | some k =>
      simp only [Option.elim_some, List.length_eraseIdx, k.isLt, if_true, Option.toList_none,
        List.length_nil]
      omega
  | some r =>
    have accepts : s.l2.respqCanAccept = true := by
      have answered : ∃ r, s.l2.memAnswer x = some r := by
        unfold L2.respqEnq at enq
        split_ifs at enq with collides
        · obtain ⟨h, -, direct⟩ := Option.any_eq_true _ _ |>.mp collides
          obtain ⟨r, direct, -⟩ := Option.any_eq_true _ _ |>.mp direct
          exact ⟨r, (Option.filter_eq_some_iff.mp direct).1⟩
        · exact ⟨r, enq⟩
      obtain ⟨r, answer⟩ := answered
      obtain ⟨⟨i, m, data⟩, capture, -⟩ := Option.map_eq_some_iff.mp answer
      exact (L2.capture_some capture).2.1
    unfold L2.respqCanAccept at accepts
    cases deq : s.l2.respqDeq with
    | none =>
      simp only [deq, Option.isSome_none, Bool.or_false, bne_iff_ne, ne_eq] at accepts
      simp only [Option.elim_none, Option.toList_some, List.length_singleton]
      omega
    | some k =>
      have inside := k.isLt
      simp only [Option.elim_some, List.length_eraseIdx, k.isLt, if_true, Option.toList_some,
        List.length_singleton]
      omega

theorem ledger_next (tracked : Tracked s) (ledger : Ledger s) : Ledger (s.next x) where
  once := once_next tracked ledger
  count := by
    change (s.asked ++ (s.l2.fire x).toList).length =
      if (s.l2.fire x).isSome then s.l2.accepted + 1 else s.l2.accepted
    rw [List.length_append, ledger.count]
    cases s.l2.fire x <;> rfl
  answered r mem := by
    refine asked_next ?_
    obtain old | new := List.mem_append.mp mem
    · exact ledger.answered r old
    · exact responses_asked tracked ledger new
  pipe k r here := by
    cases k using Fin.cases with
    | zero =>
      change s.l2.hitStart x = some r at here
      unfold L2.hitStart at here
      obtain ⟨req, fire, here⟩ := Option.bind_eq_some_iff.mp here
      cases write : req.wdata with
      | some data => simp [write] at here
      | none =>
        simp only [write, Option.isSome_none, Bool.false_eq_true, if_false] at here
        obtain ⟨w, -, rfl⟩ := Option.map_eq_some_iff.mp here
        exact asked_new ledger fire write
    | succ k => exact asked_next (ledger.pipe k.castSucc r here)
  queue r mem := by
    refine asked_next ?_
    obtain old | new := List.mem_append.mp mem
    · refine ledger.queue r ?_
      cases deq : s.l2.respqDeq with
      | none => simpa [deq] using old
      | some k => exact List.mem_of_mem_eraseIdx (by simpa [deq] using old)
    · exact respqEnq_asked tracked ledger (by simpa using new)
  mshr i m here reads := by
    obtain ⟨old, old_, rfl, -, -⟩ | alloc := L2.mshrNext_some here
    · exact asked_next (ledger.mshr i old old_ reads)
    · obtain ⟨r, w, fire, -, -, -, -, addr, source, isWriteback, -, -, id, -⟩ := L2.alloc_some alloc
      rw [addr, source, id]
      rw [isWriteback] at reads
      exact asked_new ledger fire (by simpa using reads)
  room := room_next ledger

/-- What an answer of memory or a hit carries. -/
structure Delivers (s : L2Run) (x : L2In) : Prop where
  /-- Memory answers the MSHR that asked first, with the line of its read. -/
  fill : ∀ data, x.memResp = some data → ∃ i m, s.l2.rdOrder.head? = some i ∧
    s.l2.capture x = some (i, m, data) ∧ s.out.head? = some (lineOf m.addr, data) ∧
      s.l2.memAnswer x = some ⟨m.addr, s.l2.respDataMerged x m data, m.source, m.id⟩
  hit : ∀ r, s.l2.hitStart x = some r → ∃ w, (s.l2.way (setOf r.addr) w).valid = true ∧
    (s.l2.way (setOf r.addr) w).tag = tagOf r.addr ∧ (s.l2.way (setOf r.addr) w).data = r.data

theorem hitWay_some {s : L2} (hit : s.hitWay a = some w) :
    (s.way (setOf a) w).valid = true ∧ s.reserved (setOf a) w = false ∧
      (s.way (setOf a) w).tag = tagOf a := by
  have here := lastOf_some hit
  simpa [and_assoc] using here

theorem delivers (tracked : Tracked s) (keeps : s.Keeps x) (roomy : s.Roomy x) : s.Delivers x where
  fill data resp := by
    obtain ⟨i, m, capture, head⟩ := capture_of_resp tracked keeps roomy resp
    refine ⟨i, m, (L2.capture_some capture).2.2.1, capture, head, ?_⟩
    simp [L2.memAnswer, capture]
  hit r start := by
    unfold L2.hitStart at start
    obtain ⟨req, -, start⟩ := Option.bind_eq_some_iff.mp start
    split_ifs at start
    obtain ⟨w, hit, rfl⟩ := Option.map_eq_some_iff.mp start
    obtain ⟨valid, -, tag⟩ := hitWay_some hit
    exact ⟨w, valid, tag, rfl⟩

theorem tracked_of_reach {mem : Line → LineData} (reach : (l2Runs mem).Reach Roomy s) : Tracked s := by
  refine reach.invariant Tracked ?_ fun s x _ tracked keeps roomy =>
    tracked_next tracked keeps roomy
  constructor <;> simp [l2Runs, L2.reset]

theorem ledger_of_reach {mem : Line → LineData} (reach : (l2Runs mem).Reach Roomy s) : Ledger s := by
  refine reach.invariant Ledger ?_ fun s x before ledger _ _ =>
    ledger_next (tracked_of_reach before) ledger
  constructor <;> simp [l2Runs, L2.reset, L2.inFlight, L2.isRead, holds, L2.mshrHolds]

end L2Run

-- ---------------------------------------------------------------------
-- A response queue that is full
-- ---------------------------------------------------------------------

open L2Run

def idleIn : L2In where
  dcacheReq := none
  ptwReq := none
  icacheReq := none
  prefetchReq := none
  memReqReady := true
  memResp := none

def readIn (a : Addr) : L2In := { idleIn with dcacheReq := some (a, none) }

def writeIn (a : Addr) (data : LineData) : L2In := { idleIn with dcacheReq := some (a, some data) }

def answerIn : L2In := { idleIn with memResp := some 0 }

abbrev zeroRuns : Machine L2Run L2In := l2Runs fun _ => 0

theorem reach_rest {mem : Line → LineData} {s : L2Run} (reach : (l2Runs mem).Reach Roomy s)
    (rest : ∀ x ∈ inputs, x.memResp = none) :
    (l2Runs mem).Reach Roomy ((l2Runs mem).run s inputs) := by
  induction inputs generalizing s with
  | nil => exact reach
  | cons x others ih =>
    refine ih (reach.cycle (fun data resp => ?_) fun resp => ?_) fun y later => rest y (.tail x later)
    · cases (rest x (.head others)).symm.trans resp
    · simp [rest x (.head others)] at resp

/-- A line is written, five reads of other lines miss, and five reads of that line hit. -/
def crowdInputs : List L2In :=
  [writeIn 0 7, idleIn, readIn 0x40, readIn 0x80, readIn 0xC0, readIn 0x100, readIn 0x140,
    readIn 0, readIn 0, readIn 0, readIn 0, readIn 0, idleIn, idleIn, idleIn]

def crowded : L2Run := zeroRuns.run zeroRuns.reset crowdInputs

/-- Memory answers while the hits come out of the pipe. -/
def full : L2Run := zeroRuns.run crowded [answerIn, answerIn, answerIn, answerIn]

theorem crowded_reach : zeroRuns.Reach Roomy crowded :=
  reach_rest .reset (by simp [crowdInputs, idleIn, readIn, writeIn])

theorem keeps_answer {s : L2Run} (head : s.out.head? = some (l, 0)) : s.Keeps answerIn := by
  intro data resp
  obtain rfl := Option.some.inj resp
  exact ⟨l, head⟩

theorem full_reachable : zeroRuns.Reachable full := by
  refine crowded_reach.reachable.run ⟨?_, ?_, ?_, ?_, trivial⟩
  · exact keeps_answer (l := 1) (by decide +kernel)
  · exact keeps_answer (l := 2) (by decide +kernel)
  · exact keeps_answer (l := 3) (by decide +kernel)
  · exact keeps_answer (l := 4) (by decide +kernel)

/-- A read that misses is answered. -/
def missed : L2Run := zeroRuns.run zeroRuns.reset [readIn 0x40, idleIn]

end Rv64gc.Cache
