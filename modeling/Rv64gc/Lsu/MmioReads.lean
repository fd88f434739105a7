import Rv64gc.Lsu.MmioPort

/-!
# Reads of devices

A load leaves for its device as soon as it issues, and nothing keeps a flush from taking it back
after the device has been read. A read is only what the program did when no flush does so.
-/

namespace Rv64gc.Lsu

open Hdl

-- ---------------------------------------------------------------------
-- The events of a cycle
-- ---------------------------------------------------------------------

namespace MmioPort

variable {s : MmioPort} {i : MmioIn} {l : MmioLoad}

theorem MmioIssue.leaves_eq_some {x : MmioIssue} (leaves : MmioIssue.leaves x = some l) :
    x.load = l := by
  unfold MmioIssue.leaves at leaves
  split at leaves
  · exact Option.some.inj leaves
  · cases leaves

/-- A load takes a free port, in a cycle without a flush, as it issues. -/
theorem loadLaunch_eq_some (launch : s.loadLaunch i = some l) :
    s.available = true ∧ MmioUnit.issues i l := by
  rcases Option.or_eq_some_iff.mp launch with first | ⟨-, second⟩
  · unfold load0Launch at first
    split at first
    · rename_i free
      simp only [Bool.and_eq_true, Option.isNone_iff_eq_none] at free
      obtain ⟨x, on, leaves⟩ := Option.bind_eq_some_iff.mp first
      exact ⟨free.1.1, free.2, .inl ⟨x, on, MmioIssue.leaves_eq_some leaves⟩⟩
    · cases first
  · unfold load1Launch at second
    split at second
    · rename_i free
      simp only [Bool.and_eq_true, Option.isNone_iff_eq_none] at free
      obtain ⟨x, on, leaves⟩ := Option.bind_eq_some_iff.mp second
      exact ⟨free.1.1.1, free.2, .inr ⟨x, on, MmioIssue.leaves_eq_some leaves⟩⟩
    · cases second

theorem launch_load (launch : s.launch i = some (.load l)) :
    s.available = true ∧ MmioUnit.issues i l := by
  unfold MmioPort.launch at launch
  rcases Option.or_eq_some_iff.mp launch with store | ⟨-, load⟩
  · obtain ⟨_, _, same⟩ := Option.map_eq_some_iff.mp store
    cases same
  · obtain ⟨_, load, same⟩ := Option.map_eq_some_iff.mp load
    cases same
    exact loadLaunch_eq_some load

/-- Nothing is launched on a port that is taken. -/
theorem launch_eq_none (taken : s.available = false) : s.launch i = none := by
  simp [launch, storeLaunch, loadLaunch, load0Launch, load1Launch, taken]

theorem available_iff :
    s.available = true ↔ s.reqValid = false ∧ s.waitResp = false ∧ s.respHold = none := by
  simp [available, and_assoc]

theorem accepted_iff {req : MmioReq} :
    s.accepted i = some req ↔ s.reqValid = true ∧ i.ready = true ∧ s.request = req := by
  simp [accepted, and_assoc]

theorem answered_iff {req : MmioReq} {raw : Word} :
    s.answered i = some (req, raw) ↔
      s.waitResp = true ∧ i.resp = some raw ∧ s.request = req := by
  unfold answered
  split <;> simp_all

theorem wbFire_eq_some {x : MmioLoad × Word} (fires : s.wbFire i fwd = some x) :
    s.respHold = some x ∧ i.keeps x.1.robIdx = true := by
  unfold wbFire at fires
  split at fires
  · exact Option.filter_eq_some_iff.mp fires
  · cases fires

end MmioPort

-- ---------------------------------------------------------------------
-- The invariant
-- ---------------------------------------------------------------------

namespace MmioUnit

variable {s : MmioUnit} {i : MmioIn} {l : MmioLoad} {m : MmioLife} {n : Nat}

/-- A load in flight that has left, with how often its device was read. -/
structure Under (s : MmioUnit) (l : MmioLoad) (k : Nat) (m : MmioLife) : Prop where
  life : s.lives l.seq = some m
  load : m.load = l
  inFlight : m.fate = .inFlight
  launched : m.launched = true
  reads : m.reads = k
  unwritten : m.value = none

/-- The port is used for one access at a time, and its registers say how far the access is. -/
structure Tracked (s : MmioUnit) : Prop where
  unforwarded : s.fwd0 = none ∧ s.fwd1 = none
  alone : s.port.reqValid = true → s.port.waitResp = false ∧ s.port.respHold = none
  unanswered : s.port.waitResp = true → s.port.respHold = none
  seqs : ∀ n m, s.lives n = some m → m.load.seq = n
  slots : ∀ n m k m', s.lives n = some m → s.lives k = some m' → m.fate = .inFlight →
    m'.fate = .inFlight → m.load.robIdx = m'.load.robIdx → n = k
  asked : ∀ l, s.port.reqValid = true → s.port.request = .load l → ∃ m, s.Under l 0 m
  waits : ∀ l, s.port.waitResp = true → s.port.request = .load l → ∃ m, s.Under l 1 m
  held : ∀ l raw, s.port.respHold = some (l, raw) →
    ∃ m, s.Under l 1 m ∧ m.answer = some (l.extended raw)
  issued : ∀ n m, s.lives n = some m → m.launched = true → m.issued = true
  unread : ∀ n m, s.lives n = some m → m.launched = false → m.reads = 0
  written : ∀ n m v, s.lives n = some m → m.value = some v → m.reads = 1 ∧ m.answer = some v
  retired : ∀ n m, s.lives n = some m → m.fate = .retired → m.value.isSome = true
  squashed : ∀ n m, s.lives n = some m → m.fate = .squashed → m.reads = 0

theorem Tracked.readOnce (inv : s.Tracked) : s.ReadOnce where
  retired n m life fate := by
    obtain ⟨v, value⟩ := Option.isSome_iff_exists.mp (inv.retired n m life fate)
    have written := inv.written n m v life value
    exact ⟨written.1, v, written.2, value⟩
  squashed := inv.squashed

-- ---------------------------------------------------------------------
-- One life
-- ---------------------------------------------------------------------

theorem lives_next (life : s.lives n = some m) :
    (s.next i).lives n = some (s.nextLife i m) := by
  simp [next, life]

/-- A life of the next cycle goes on or begins. -/
theorem next_lives {m' : MmioLife} (life : (s.next i).lives n = some m') :
    (∃ m, s.lives n = some m ∧ m' = s.nextLife i m) ∨
      s.lives n = none ∧ ∃ l, i.enters n = some l ∧
        m' = ⟨l, false, false, 0, none, none, .inFlight⟩ := by
  unfold next at life
  simp only at life
  split at life
  · rename_i m before
    exact .inl ⟨m, before, (Option.some.inj life).symm⟩
  · rename_i before
    obtain ⟨l, enters, same⟩ := Option.map_eq_some_iff.mp life
    exact .inr ⟨before, l, enters, same.symm⟩

/-- The only load that is written back is the one the port holds. -/
theorem writebacks_eq (inv : s.Tracked) :
    s.writebacks i =
      ((s.port.wbFire i none).map fun x => (x.1.robIdx, x.1.extended x.2)).toList := by
  simp [writebacks, inv.unforwarded.1, inv.unforwarded.2, MmioIn.fwdLeaves]

theorem writebacks_nil (inv : s.Tracked) (empty : s.port.respHold = none) :
    s.writebacks i = [] := by
  rw [writebacks_eq inv]
  simp [MmioPort.wbFire, empty]

theorem Under.unique (under : s.Under l k m) (life : s.lives n = some m')
    (same : m'.load = l) (inv : s.Tracked) : m' = m := by
  have at_ := inv.seqs n m' life
  rw [same] at at_
  rw [← at_, under.life] at life
  exact (Option.some.inj life).symm

/-- A load that is not written back does not retire. -/
theorem Under.not_retires (under : s.Under l k m) (legal : s.Keeps i) :
    i.retires m.load.robIdx = false := by
  by_contra retires
  have some_ := legal.retires _ _ under.life under.inFlight (by simpa using retires)
  rw [under.unwritten] at some_
  cases some_

theorem accepted_under (inv : s.Tracked) (accepted : s.port.accepted i = some (.load l)) :
    ∃ m, s.Under l 0 m := by
  obtain ⟨valid, -, request⟩ := MmioPort.accepted_iff.mp accepted
  exact inv.asked l valid request

theorem answered_under (inv : s.Tracked) (answered : s.port.answered i = some (.load l, raw)) :
    ∃ m, s.Under l 1 m := by
  obtain ⟨waits, -, request⟩ := MmioPort.answered_iff.mp answered
  exact inv.waits l waits request

/-- A load that stays in flight with nothing written back is still under way. -/
theorem Under.next (under : s.Under l k m) (legal : s.Keeps i)
    (kept : i.keeps m.load.robIdx = true) (quiet : (s.writebacks i).lookup m.load.robIdx = none)
    (count : (s.nextLife i m).reads = k') : (s.next i).Under l k' (s.nextLife i m) where
  life := lives_next under.life
  load := under.load
  inFlight := by
    simp [nextLife, under.inFlight, under.not_retires legal, kept]
  launched := by simp [nextLife, under.launched]
  reads := count
  unwritten := by simp [nextLife, under.inFlight, quiet, under.unwritten]

/-- A load past its request is not taken back. -/
theorem Under.kept (under : s.Under l k m) (calm : s.Undisturbed i) (legal : s.Keeps i)
    (past : ¬ (s.port.reqValid = true ∧ i.ready = false)) :
    i.keeps m.load.robIdx = true := by
  by_contra flushed
  obtain ⟨valid, -, waiting⟩ := calm.unread _ _ under.life under.inFlight under.launched
    (by simpa using flushed) (under.not_retires legal)
  exact past ⟨valid, waiting⟩

theorem keeps_of_noFlush (none_ : i.flush = none) (r : RobIdx) : i.keeps r = true := by
  simp [MmioIn.keeps, none_]

-- ---------------------------------------------------------------------
-- The step
-- ---------------------------------------------------------------------

theorem unforwarded_next (inv : s.Tracked) (calm : s.Undisturbed i) :
    (s.next i).fwd0 = none ∧ (s.next i).fwd1 = none := by
  have none_ (load : Option MmioIssue) (on : i.load0 = load ∨ i.load1 = load) :
      i.captured load = none := by
    unfold MmioIn.captured
    split
    · cases load with
      | none => rfl
      | some x => simp [calm.unforwarded x on]
    · rfl
  constructor
  · simp [next, MmioIn.fwdHold0, inv.unforwarded.1, none_ _ (.inl rfl)]
  · simp [next, MmioIn.fwdHold1, inv.unforwarded.2, none_ _ (.inr rfl)]

theorem alone_next (inv : s.Tracked) (valid : (s.next i).port.reqValid = true) :
    (s.next i).port.waitResp = false ∧ (s.next i).port.respHold = none := by
  simp only [next, MmioPort.next, Bool.or_eq_true, Bool.and_eq_true, Bool.not_eq_true'] at valid ⊢
  by_cases launches : (s.port.launch i).isSome = true
  · have free : s.port.available = true := by
      by_contra taken
      rw [MmioPort.launch_eq_none (by simpa using taken)] at launches
      cases launches
    obtain ⟨noReq, noWait, noHold⟩ := MmioPort.available_iff.mp free
    simp [noReq, noWait, noHold, MmioPort.answered]
  · obtain ⟨⟨valid, -⟩, waiting⟩ := valid.resolve_left launches
    obtain ⟨noWait, noHold⟩ := inv.alone valid
    simp [valid, waiting, noWait, noHold, MmioPort.answered]

theorem unanswered_next (inv : s.Tracked) (waits : (s.next i).port.waitResp = true) :
    (s.next i).port.respHold = none := by
  simp only [next, MmioPort.next, Bool.or_eq_true, Bool.and_eq_true,
    Option.isNone_iff_eq_none] at waits ⊢
  have quiet : s.port.answered i = none := by
    rcases waits with ⟨-, quiet⟩ | ⟨valid, -⟩
    · simp [MmioPort.answered, quiet]
    · simp [MmioPort.answered, (inv.alone valid).1]
  have noHold : s.port.respHold = none := by
    rcases waits with ⟨waits, -⟩ | ⟨valid, -⟩
    · exact inv.unanswered waits
    · exact (inv.alone valid).2
  simp [quiet, noHold]

theorem seqs_next (inv : s.Tracked) (legal : s.Keeps i) (life : (s.next i).lives n = some m) :
    m.load.seq = n := by
  rcases next_lives life with ⟨m, before, rfl⟩ | ⟨-, l, enters, rfl⟩
  · exact inv.seqs n m before
  · exact (legal.enters n l enters).1

theorem inFlight_of_next (inFlight : (s.nextLife i m).fate = .inFlight) : m.fate = .inFlight := by
  by_contra ended
  simp [nextLife, ended] at inFlight

theorem slots_next (inv : s.Tracked) (legal : s.Keeps i) {k : Nat} {m' : MmioLife}
    (life : (s.next i).lives n = some m) (life' : (s.next i).lives k = some m')
    (inFlight : m.fate = .inFlight) (inFlight' : m'.fate = .inFlight)
    (same : m.load.robIdx = m'.load.robIdx) : n = k := by
  rcases next_lives life with ⟨m, before, rfl⟩ | ⟨-, l, enters, rfl⟩ <;>
    rcases next_lives life' with ⟨m', before', rfl⟩ | ⟨-, l', enters', rfl⟩
  · exact inv.slots n m k m' before before' (inFlight_of_next inFlight)
      (inFlight_of_next inFlight') same
  · exact absurd same ((legal.enters k l' enters').2.1 n m before (inFlight_of_next inFlight))
  · exact absurd same.symm
      ((legal.enters n l enters).2.1 k m' before' (inFlight_of_next inFlight'))
  · exact (legal.enters k l' enters').2.2 n l enters same

/-- A load that takes the port. -/
theorem asked_of_launch (inv : s.Tracked) (legal : s.Keeps i)
    (launch : s.port.launch i = some (.load l)) : ∃ m, (s.next i).Under l 0 m := by
  obtain ⟨free, issues⟩ := MmioPort.launch_load launch
  obtain ⟨noReq, -, noHold⟩ := MmioPort.available_iff.mp free
  obtain ⟨m, life, rfl, inFlight, unissued⟩ := legal.issues l issues
  have unlaunched : m.launched = false := by
    by_contra launched
    have issued := inv.issued _ _ life (by simpa using launched)
    rw [unissued] at issued
    cases issued
  have reads := inv.unread _ _ life unlaunched
  have unwritten : m.value = none := by
    cases value : m.value with
    | none => rfl
    | some v =>
      have once := (inv.written _ _ v life value).1
      omega
  have stays : i.retires m.load.robIdx = false := by
    by_contra retires
    have some_ := legal.retires _ _ life inFlight (by simpa using retires)
    rw [unwritten] at some_
    cases some_
  exact ⟨s.nextLife i m,
    { life := lives_next life
      load := rfl
      inFlight := by simp [nextLife, inFlight, stays, keeps_of_noFlush issues.1]
      launched := by simp [nextLife, launch]
      reads := by simp [nextLife, MmioPort.accepted, noReq, reads]
      unwritten := by simp [nextLife, inFlight, writebacks_nil inv noHold, unwritten] }⟩

theorem asked_next (inv : s.Tracked) (legal : s.Keeps i)
    (valid : (s.next i).port.reqValid = true) (request : (s.next i).port.request = .load l) :
    ∃ m, (s.next i).Under l 0 m := by
  simp only [next, MmioPort.next, Bool.or_eq_true, Bool.and_eq_true,
    Bool.not_eq_true'] at valid request
  cases launch : s.port.launch i with
  | some req =>
    rw [launch] at request
    cases request
    exact asked_of_launch inv legal launch
  | none =>
    rw [launch] at valid request
    obtain ⟨⟨valid, unflushed⟩, waiting⟩ := valid.resolve_left nofun
    have request : s.port.request = .load l := request
    have noFlush : i.flush = none := by simpa [request, MmioReq.isLoad] using unflushed
    obtain ⟨m, under⟩ := inv.asked l valid request
    refine ⟨s.nextLife i m, under.next legal (keeps_of_noFlush noFlush _) ?_ ?_⟩
    · simp [writebacks_nil inv (inv.alone valid).2]
    · simp [nextLife, MmioPort.accepted, waiting, under.reads]

theorem waits_next (inv : s.Tracked) (legal : s.Keeps i) (calm : s.Undisturbed i)
    (waits : (s.next i).port.waitResp = true) (request : (s.next i).port.request = .load l) :
    ∃ m, (s.next i).Under l 1 m := by
  simp only [next, MmioPort.next, Bool.or_eq_true, Bool.and_eq_true] at waits request
  have taken : s.port.available = false := by
    rcases waits with ⟨waits, -⟩ | ⟨valid, -⟩ <;> simp [MmioPort.available, *]
  rw [MmioPort.launch_eq_none taken, Option.getD_none] at request
  rcases waits with ⟨waits, -⟩ | ⟨valid, ready⟩
  · obtain ⟨m, under⟩ := inv.waits l waits request
    have noReq : s.port.reqValid = false := by
      by_contra valid
      have noWait := (inv.alone (by simpa using valid)).1
      rw [waits] at noWait
      cases noWait
    refine ⟨s.nextLife i m, under.next legal (under.kept calm legal (by simp [noReq])) ?_ ?_⟩
    · simp [writebacks_nil inv (inv.unanswered waits)]
    · simp [nextLife, MmioPort.accepted, noReq, under.reads]
  · obtain ⟨m, under⟩ := inv.asked l valid request
    refine ⟨s.nextLife i m, under.next legal (under.kept calm legal (by simp [ready])) ?_ ?_⟩
    · simp [writebacks_nil inv (inv.alone valid).2]
    · simp [nextLife, MmioPort.accepted, valid, ready, request, under.load, under.reads]

theorem held_next (inv : s.Tracked) (legal : s.Keeps i)
    (held : (s.next i).port.respHold = some (l, raw)) :
    ∃ m, (s.next i).Under l 1 m ∧ m.answer = some (l.extended raw) := by
  -- What the port goes on holding is not written back in this cycle.
  have goesOn (kept : (if (s.port.wbFire i s.fwd0).isSome || i.flush.isSome then none
      else s.port.respHold) = some (l, raw)) :
      ∃ m, (s.next i).Under l 1 m ∧ m.answer = some (l.extended raw) := by
    split at kept
    · cases kept
    · rename_i stays
      simp only [Bool.or_eq_true, not_or, Bool.not_eq_true, Option.isSome_eq_false_iff,
        Option.isNone_iff_eq_none, inv.unforwarded.1] at stays
      obtain ⟨m, under, answer⟩ := inv.held l raw kept
      have noReq : s.port.reqValid = false := by
        by_contra valid
        simp [(inv.alone (by simpa using valid)).2] at kept
      have noWait : s.port.waitResp = false := by
        by_contra waits
        simp [inv.unanswered (by simpa using waits)] at kept
      refine ⟨s.nextLife i m, under.next legal (keeps_of_noFlush stays.2 _) ?_ ?_, ?_⟩
      · simp [writebacks_eq inv, stays.1]
      · simp [nextLife, MmioPort.accepted, noReq, under.reads]
      · simp [nextLife, MmioPort.answered, noWait, answer]
  simp only [next, MmioPort.next] at held
  split at held
  · rename_i l' raw' answered
    split at held
    · rename_i kept
      simp only [Bool.and_eq_true, Option.isNone_iff_eq_none] at kept
      cases held
      obtain ⟨waits, -, -⟩ := MmioPort.answered_iff.mp answered
      have noReq : s.port.reqValid = false := by
        by_contra valid
        simp [(inv.alone (by simpa using valid)).1] at waits
      obtain ⟨m, under⟩ := answered_under inv answered
      refine ⟨s.nextLife i m, under.next legal (keeps_of_noFlush kept.2 _) ?_ ?_, ?_⟩
      · simp [writebacks_nil inv (inv.unanswered waits)]
      · simp [nextLife, MmioPort.accepted, noReq, under.reads]
      · simp [nextLife, answered, under.load]
    · exact goesOn held
  · exact goesOn held

theorem issued_next (inv : s.Tracked) (life : (s.next i).lives n = some m)
    (launched : m.launched = true) : m.issued = true := by
  rcases next_lives life with ⟨m, before, rfl⟩ | ⟨-, l, -, rfl⟩
  · simp only [nextLife, Bool.or_eq_true, beq_iff_eq, decide_eq_true_eq] at launched ⊢
    exact launched.imp (inv.issued n m before) fun launch => (MmioPort.launch_load launch).2
  · cases launched

/-- The device is read only for a load that has left. -/
theorem accepted_life (inv : s.Tracked) (life : s.lives n = some m)
    (accepted : s.port.accepted i = some (.load m.load)) : s.Under m.load 0 m := by
  obtain ⟨m', under⟩ := accepted_under inv accepted
  rw [under.unique life rfl inv] at *
  exact under

theorem answered_life (inv : s.Tracked) (life : s.lives n = some m)
    (answered : s.port.answered i = some (.load m.load, raw)) : s.Under m.load 1 m := by
  obtain ⟨m', under⟩ := answered_under inv answered
  rw [under.unique life rfl inv] at *
  exact under

theorem unread_next (inv : s.Tracked) (life : (s.next i).lives n = some m)
    (unlaunched : m.launched = false) : m.reads = 0 := by
  rcases next_lives life with ⟨m, before, rfl⟩ | ⟨-, l, -, rfl⟩
  · simp only [nextLife, Bool.or_eq_false_iff] at unlaunched ⊢
    split
    · rename_i accepted
      have launched := (accepted_life inv before accepted).launched
      rw [unlaunched.1] at launched
      cases launched
    · exact inv.unread n m before unlaunched.1
  · rfl

/-- The value of a writeback is the answer to the read of the load in that slot. -/
theorem writeback_answer (inv : s.Tracked) (life : s.lives n = some m)
    (inFlight : m.fate = .inFlight) (back : (s.writebacks i).lookup m.load.robIdx = some v) :
    s.Under m.load 1 m ∧ m.answer = some v ∧ s.port.respHold.isSome = true := by
  rw [writebacks_eq inv] at back
  cases fires : s.port.wbFire i none with
  | none =>
    rw [fires] at back
    cases back
  | some x =>
    obtain ⟨l, raw⟩ := x
    have hold := (MmioPort.wbFire_eq_some fires).1
    simp only [fires, Option.map_some, Option.toList_some, List.lookup_cons, List.lookup_nil]
      at back
    split at back
    · rename_i same
      obtain ⟨m', under, answer⟩ := inv.held l raw hold
      have slot : m.load.robIdx = m'.load.robIdx := by rw [under.load]; simpa using same
      have at_ := inv.slots n m l.seq m' life under.life inFlight under.inFlight slot
      rw [at_, under.life] at life
      cases life
      cases back
      rw [under.load]
      exact ⟨under, answer, by simp [hold]⟩
    · cases back

theorem written_next (inv : s.Tracked) (life : (s.next i).lives n = some m)
    (value : m.value = some v) : m.reads = 1 ∧ m.answer = some v := by
  rcases next_lives life with ⟨m, before, rfl⟩ | ⟨-, l, -, rfl⟩
  · -- A load that is written back, in this cycle or before, is not being read or answered.
    have settles (reads : m.reads = 1) (answer : m.answer = some v)
        (quiet : ¬ s.Under m.load 1 m ∨ s.port.waitResp = false) :
        (s.nextLife i m).reads = 1 ∧ (s.nextLife i m).answer = some v := by
      refine ⟨?_, ?_⟩
      · have unread : s.port.accepted i ≠ some (.load m.load) := by
          intro accepted
          have none_ := (accepted_life inv before accepted).reads
          omega
        simp [nextLife, unread, reads]
      · simp only [nextLife]
        split
        · rename_i req raw answered
          split
          · rename_i same
            subst same
            rcases quiet with ended | quiet
            · exact absurd (answered_life inv before answered) ended
            · simp [MmioPort.answered, quiet] at answered
          · exact answer
        · exact answer
    simp only [nextLife] at value
    split at value
    · rename_i inFlight
      rcases Option.or_eq_some_iff.mp value with back | ⟨-, old⟩
      · obtain ⟨under, answer, holds⟩ := writeback_answer inv before inFlight back
        refine settles under.reads answer (.inr ?_)
        by_contra waits
        simp [inv.unanswered (by simpa using waits)] at holds
      · obtain ⟨reads, answer⟩ := inv.written n m v before old
        exact settles reads answer (.inl fun under => by simp [under.unwritten] at old)
    · obtain ⟨reads, answer⟩ := inv.written n m v before value
      exact settles reads answer (.inl fun under => by simp [under.unwritten] at value)
  · cases value

theorem retired_next (inv : s.Tracked) (legal : s.Keeps i)
    (life : (s.next i).lives n = some m) (fate : m.fate = .retired) : m.value.isSome = true := by
  rcases next_lives life with ⟨m, before, rfl⟩ | ⟨-, l, -, rfl⟩
  · simp only [nextLife] at fate ⊢
    split at fate
    · rename_i inFlight
      split at fate
      · rename_i retires
        have value := legal.retires n m before inFlight retires
        simp [inFlight, Option.isSome_or, value]
      · split at fate <;> cases fate
    · rename_i ended
      rw [if_neg ended]
      exact inv.retired n m before fate
  · cases fate

theorem squashed_next (inv : s.Tracked) (calm : s.Undisturbed i)
    (life : (s.next i).lives n = some m) (fate : m.fate = .squashed) : m.reads = 0 := by
  rcases next_lives life with ⟨m, before, rfl⟩ | ⟨-, l, -, rfl⟩
  · have unread : m.reads = 0 ∧ s.port.accepted i ≠ some (.load m.load) := by
      by_cases inFlight : m.fate = .inFlight
      · simp only [nextLife, if_pos inFlight] at fate
        split at fate
        · cases fate
        · rename_i stays
          split at fate
          · cases fate
          · rename_i flushed
            cases launched : m.launched with
            | false =>
              refine ⟨inv.unread n m before launched, fun accepted => ?_⟩
              have left := (accepted_life inv before accepted).launched
              rw [launched] at left
              cases left
            | true =>
              -- Only a load whose request waits is taken back.
              obtain ⟨valid, request, waiting⟩ := calm.unread n m before inFlight launched
                (by simpa using flushed) (by simpa using stays)
              obtain ⟨m', under⟩ := inv.asked m.load valid request
              rw [← under.unique before rfl inv] at under
              refine ⟨under.reads, fun accepted => ?_⟩
              have ready := (MmioPort.accepted_iff.mp accepted).2.1
              rw [waiting] at ready
              cases ready
      · simp only [nextLife, if_neg inFlight] at fate
        exact ⟨inv.squashed n m before fate,
          fun accepted => inFlight (accepted_life inv before accepted).inFlight⟩
    simp [nextLife, unread.1, unread.2]
  · rfl

theorem Tracked.next (inv : s.Tracked) (legal : s.Keeps i) (calm : s.Undisturbed i) :
    (s.next i).Tracked where
  unforwarded := unforwarded_next inv calm
  alone := alone_next inv
  unanswered := unanswered_next inv
  seqs _ _ := seqs_next inv legal
  slots _ _ _ _ := slots_next inv legal
  asked _ := asked_next inv legal
  waits _ := waits_next inv legal calm
  held _ _ := held_next inv legal
  issued _ _ := issued_next inv
  unread _ _ := unread_next inv
  written _ _ _ := written_next inv
  retired _ _ := retired_next inv legal
  squashed _ _ := squashed_next inv calm

theorem Tracked.reset : mmioRuns.reset.Tracked := by
  constructor <;> simp [mmioRuns, MmioPort.reset]

end MmioUnit

-- ---------------------------------------------------------------------
-- Runs
-- ---------------------------------------------------------------------

/-- In a run that forwards no data to a load from a device, and takes back no load that has been
read, devices are read once for each load that retires and for no other. -/
theorem mmio_read_once (s : MmioUnit) (reach : mmioRuns.Reach MmioUnit.Undisturbed s) :
    s.ReadOnce :=
  (reach.invariant MmioUnit.Tracked .reset
    fun _ _ _ inv legal calm => inv.next legal calm).readOnce

-- ---------------------------------------------------------------------
-- Runs of one load
-- ---------------------------------------------------------------------

namespace MmioUnit

variable {s : MmioUnit} {i : MmioIn}

/-- No load but the first of the program is there. -/
def Lone (s : MmioUnit) : Prop := ∀ n, s.lives (n + 1) = none

/-- What `Keeps` asks when the first load is the only one. -/
def loneKeeps (s : MmioUnit) (i : MmioIn) : Bool :=
  ((i.enters 0).all fun l => l.seq == 0 && (s.lives 0).isNone) &&
    ([i.load0, i.load1].all fun x => x.all fun x => i.flush.isSome || x.load.seq == 0 &&
      (s.lives 0).any fun m => m.load == x.load && m.fate == .inFlight && !m.issued) &&
    (s.lives 0).all fun m => m.fate != .inFlight || !i.retires m.load.robIdx || m.value.isSome

theorem Lone.keeps (lone : s.Lone) (alone : ∀ n, i.enters (n + 1) = none)
    (ok : s.loneKeeps i = true) : s.Keeps i := by
  simp only [loneKeeps, Bool.and_eq_true, Option.all_eq_true, List.all_cons, List.all_nil] at ok
  obtain ⟨⟨enters, first, second, -⟩, retires⟩ := ok
  constructor
  · intro n l takes
    cases n with
    | succ n => simp [alone n] at takes
    | zero =>
      have ok := enters l takes
      simp only [beq_iff_eq, Option.isNone_iff_eq_none] at ok
      refine ⟨ok.1, fun k m life => ?_, fun k l' takes' _ => ?_⟩
      · cases k with
        | zero => simp [ok.2] at life
        | succ k => simp [lone k] at life
      · cases k with
        | zero => rfl
        | succ k => simp [alone k] at takes'
  · rintro l ⟨noFlush, on⟩
    have ok : ∃ x : MmioIssue, x.load = l ∧ x.load.seq = 0 ∧ ∃ m, s.lives 0 = some m ∧
        m.load = x.load ∧ m.fate = .inFlight ∧ m.issued = false := by
      rcases on with ⟨x, on, same⟩ | ⟨x, on, same⟩
      · have ok := first x on
        simp [noFlush, Option.any_eq_true] at ok
        exact ⟨x, same, ok.1, ok.2.imp fun m h => ⟨h.1, h.2.1.1, h.2.1.2, h.2.2⟩⟩
      · have ok := second x on
        simp [noFlush, Option.any_eq_true] at ok
        exact ⟨x, same, ok.1, ok.2.imp fun m h => ⟨h.1, h.2.1.1, h.2.1.2, h.2.2⟩⟩
    obtain ⟨x, rfl, zero, m, life, load, inFlight, unissued⟩ := ok
    exact ⟨m, by rw [zero]; exact life, load, inFlight, unissued⟩
  · intro n m life inFlight leaves
    cases n with
    | succ n => simp [lone n] at life
    | zero => simpa [inFlight, leaves] using retires m life

theorem Lone.next (lone : s.Lone) (alone : ∀ n, i.enters (n + 1) = none) : (s.next i).Lone := by
  intro n
  simp [MmioUnit.next, lone n, alone n]

/-- What `Undisturbed` asks when the first load is the only one. -/
def loneCalm (s : MmioUnit) (i : MmioIn) : Bool :=
  ([i.load0, i.load1].all fun x => x.all fun x => x.fwd.isNone) &&
    (s.lives 0).all fun m => m.fate != .inFlight || !m.launched || i.keeps m.load.robIdx ||
      i.retires m.load.robIdx ||
      (s.port.reqValid && s.port.request == .load m.load && !i.ready)

theorem Lone.undisturbed (lone : s.Lone) (ok : s.loneCalm i = true) : s.Undisturbed i := by
  simp only [loneCalm, Bool.and_eq_true, Option.all_eq_true, List.all_cons, List.all_nil,
    Option.isNone_iff_eq_none] at ok
  obtain ⟨⟨first, second, -⟩, unread⟩ := ok
  constructor
  · rintro x (on | on)
    · exact first x on
    · exact second x on
  · intro n m life inFlight launched flushed stays
    cases n with
    | succ n => simp [lone n] at life
    | zero => simpa [inFlight, launched, flushed, stays, and_assoc] using unread m life

/-- Every cycle of the list is legal and meets `ok`. -/
def loneRun (ok : MmioUnit → MmioIn → Bool) (s : MmioUnit) : List MmioIn → Bool
  | [] => true
  | i :: rest => s.loneKeeps i && ok s i && loneRun ok (s.next i) rest

theorem Lone.reach {P : MmioUnit → MmioIn → Prop} (ok : MmioUnit → MmioIn → Bool)
    (holds : ∀ {s i}, s.Lone → ok s i = true → P s i) (lone : s.Lone)
    (before : mmioRuns.Reach P s) {inputs : List MmioIn}
    (alone : ∀ i ∈ inputs, ∀ n, i.enters (n + 1) = none) (legal : loneRun ok s inputs = true) :
    mmioRuns.Reach P (mmioRuns.run s inputs) := by
  induction inputs generalizing s with
  | nil => exact before
  | cons i rest ih =>
    simp only [loneRun, Bool.and_eq_true] at legal
    obtain ⟨⟨keeps, meets⟩, legal⟩ := legal
    have now := alone i (List.mem_cons_self ..)
    exact ih (lone.next now) (before.cycle (lone.keeps now keeps) (holds lone meets))
      (fun i on => alone i (List.mem_cons_of_mem _ on)) legal

end MmioUnit

/-- A cycle in which nothing happens. -/
def mmioIdle : MmioIn where
  robHead := 0
  flush := none
  store := none
  load0 := none
  load1 := none
  ready := false
  resp := none
  wbFree := true
  fwdBlocked0 := false
  fwdBlocked1 := false
  retires _ := false
  enters _ := none

/-- A byte of the UART. -/
def uartLoad : MmioLoad := ⟨0, 0, 0x10000000, memByte, true⟩

def uartEnters : MmioIn :=
  { mmioIdle with enters := fun n => match n with | 0 => some uartLoad | _ + 1 => none }

def uartIssues : MmioIn := { mmioIdle with load0 := some ⟨uartLoad, none⟩ }

def uartTaken : MmioIn := { mmioIdle with ready := true }

/-- The load takes its slot, leaves for the device and is read there. -/
def uartRead : List MmioIn := [uartEnters, uartIssues, uartTaken]

/-- An interrupt is taken before the load retires. -/
def uartInterrupted : List MmioIn := uartRead ++ [{ mmioIdle with flush := some ⟨0, true⟩ }]

/-- An older store to the same address is still in the store queue when the load issues. -/
def uartForwarded : List MmioIn :=
  [uartEnters, { mmioIdle with load0 := some ⟨uartLoad, some 0x41⟩ }, mmioIdle,
    { mmioIdle with retires := fun r => r == 0 }]

/-- A load that is answered, written back and retires. -/
theorem mmio_read_once_retired : ∃ s : MmioUnit, s.ReadOnce ∧
    s.lives 0 = some ⟨uartLoad, true, true, 1, some 0x41, some 0x41, .retired⟩ := by
  refine ⟨mmioRuns.run mmioRuns.reset (uartRead ++ [{ mmioIdle with resp := some 0x41 }, mmioIdle,
    { mmioIdle with retires := fun r => r == 0 }]), mmio_read_once _ ?_, by decide +kernel⟩
  exact MmioUnit.Lone.reach MmioUnit.loneCalm MmioUnit.Lone.undisturbed (fun _ => rfl) .reset
    (by simp [uartRead, uartEnters, uartIssues, uartTaken, mmioIdle]) (by decide +kernel)

/-- An interrupt takes back a load after its device was read, and a load retires with the data of an
older store, its device never read. -/
theorem mmio_read_not_once :
    (∃ s, mmioRuns.Reachable s ∧
      s.lives 0 = some ⟨uartLoad, true, true, 1, none, none, .squashed⟩ ∧ ¬ s.ReadOnce) ∧
    ∃ s, mmioRuns.Reachable s ∧
      s.lives 0 = some ⟨uartLoad, true, false, 0, none, some 0x41, .retired⟩ ∧ ¬ s.ReadOnce := by
  have wrong {s : MmioUnit} {m : MmioLife} (life : s.lives 0 = some m)
      (fails : m.fate = .squashed ∧ m.reads = 1 ∨ m.fate = .retired ∧ m.reads = 0) :
      ¬ s.ReadOnce := by
    intro once
    rcases fails with ⟨fate, reads⟩ | ⟨fate, reads⟩
    · have never := once.squashed 0 m life fate
      omega
    · have read := (once.retired 0 m life fate).1
      omega
  constructor
  · have life : (mmioRuns.run mmioRuns.reset uartInterrupted).lives 0 =
        some ⟨uartLoad, true, true, 1, none, none, .squashed⟩ := by decide +kernel
    refine ⟨_, ?_, life, wrong life (.inl ⟨rfl, rfl⟩)⟩
    exact MmioUnit.Lone.reach (fun _ _ => true) (fun _ _ => trivial) (fun _ => rfl) .reset
      (by simp [uartInterrupted, uartRead, uartEnters, uartIssues, uartTaken, mmioIdle])
      (by decide +kernel)
  · have life : (mmioRuns.run mmioRuns.reset uartForwarded).lives 0 =
        some ⟨uartLoad, true, false, 0, none, some 0x41, .retired⟩ := by decide +kernel
    refine ⟨_, ?_, life, wrong life (.inr ⟨rfl, rfl⟩)⟩
    exact MmioUnit.Lone.reach (fun _ _ => true) (fun _ _ => trivial) (fun _ => rfl) .reset
      (by simp [uartForwarded, uartEnters, mmioIdle]) (by decide +kernel)

end Rv64gc.Lsu
