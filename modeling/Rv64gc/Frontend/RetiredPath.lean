import Rv64gc.Frontend.PredictedPath
import Rv64gc.Rename.InFlight

/-!
# The retired path

The operations in flight lead from the place the program has come to, to the place fetch stands
at: each begins where the one before it made fetch go on. Commit lets an operation pass only when
that is also where the program goes on, and redirects fetch otherwise.
-/

namespace Rv64gc.Frontend

open Hdl Decode Backend Execute

-- ---------------------------------------------------------------------
-- Following the events
-- ---------------------------------------------------------------------

def PathOp.retired (op : PathOp) : PathEvent := .retired op.first op.next

theorem follow_append (pc : Addr) (before after : List PathEvent) :
    follow pc (before ++ after) = (follow pc before).bind fun pc => follow pc after := by
  induction before generalizing pc with
  | nil => rfl
  | cons event before ih =>
    cases event with
    | retired first next =>
      simp only [List.cons_append, follow]
      split
      next => exact ih next
      next => rfl
    | turned target => exact ih target

/-- Operations that go on where fetch went on are followed to the end of their path. -/
theorem follow_retired (path : Path PathOp.first PathOp.cont pc ops cursor)
    (right : ∀ op ∈ ops, op.cont = op.next) : follow pc (ops.map PathOp.retired) = some cursor := by
  induction ops generalizing pc with
  | nil => exact congrArg some path
  | cons op ops ih =>
    obtain ⟨begins, rest⟩ := path
    rw [right op (List.mem_cons_self ..)] at rest
    rw [List.map_cons, PathOp.retired, follow, if_pos begins]
    exact ih rest fun op mem => right op (List.mem_cons_of_mem _ mem)

-- ---------------------------------------------------------------------
-- The invariant
-- ---------------------------------------------------------------------

/-- The program has come to `pc`, and the operations lead from there to `cursor`. -/
structure LeadsFrom (pc : Addr) (ops : List PathOp) (cursor : Addr) : Prop where
  path : Path PathOp.first PathOp.cont pc ops cursor
  whole : ∀ op ∈ ops, Whole op

def OnPath (s : PathCore) : Prop :=
  ∃ pc, follow resetVector s.events = some pc ∧ LeadsFrom pc s.ops s.cursor

namespace LeadsFrom

variable {pc cursor : Addr} {ops more : List PathOp}

theorem nil (pc : Addr) : LeadsFrom pc [] pc := ⟨rfl, by simp⟩

theorem split (leads : LeadsFrom pc ops cursor) (n : Nat) :
    ∃ r, LeadsFrom pc (ops.take n) r ∧ LeadsFrom r (ops.drop n) cursor := by
  obtain ⟨r, before, after⟩ := leads.path.split n
  exact ⟨r, ⟨before, fun op mem => leads.whole op (List.mem_of_mem_take mem)⟩,
    ⟨after, fun op mem => leads.whole op (List.mem_of_mem_drop mem)⟩⟩

theorem append (leads : LeadsFrom pc ops r) (on : LeadsFrom r more cursor) :
    LeadsFrom pc (ops ++ more) cursor where
  path := path_append.mpr ⟨r, leads.path, on.path⟩
  whole op mem := by
    obtain before | after := List.mem_append.mp mem
    · exact leads.whole op before
    · exact on.whole op after

end LeadsFrom

-- ---------------------------------------------------------------------
-- Issue and recovery
-- ---------------------------------------------------------------------

theorem Whole.issue {op : PathOp} (whole : Whole op) (bru : op.uop.fuType = .bru) (regs : Regs) :
    Whole { op with resolved := some (bruIn op.uop regs) } where
  control := whole.control
  transfer := whole.transfer
  straight := whole.straight
  serial := whole.serial
  refetch := whole.refetch
  load := whole.load
  outcome _ found := ⟨bru, regs, (Option.some.inj found).symm⟩
  recovered _ := rfl

theorem Whole.recover {op : PathOp} (whole : Whole op) (resolved : op.resolved = some x) :
    Whole { op with recovered := true } where
  control := whole.control
  transfer := whole.transfer
  straight := whole.straight
  serial := whole.serial
  refetch := whole.refetch
  load := whole.load
  outcome := whole.outcome
  recovered _ := by simp [resolved]

namespace PathCore

variable {s : PathCore} {i : PathIn}

/-- What issue makes of the operation at distance `k`. -/
def issueOp (i : PathIn) (k : Nat) (op : PathOp) : PathOp :=
  match i.issue k with
  | some regs => { op with resolved := some (bruIn op.uop regs) }
  | none => op

theorem issued_drop (n : Nat) :
    (s.issued i).drop n = (s.ops.drop n).mapIdx fun k => issueOp i (n + k) := by
  refine List.ext_getElem? fun k => ?_
  simp only [issued, List.getElem?_drop, List.getElem?_mapIdx]
  rfl

/-- An operation keeps its place when it issues. -/
theorem issueOp_keeps (legal : s.Legal i) (here : s.ops[k]? = some op) (whole : Whole op) :
    (issueOp i k op).first = op.first ∧ (issueOp i k op).cont = op.cont ∧
      Whole (issueOp i k op) := by
  unfold issueOp
  split
  next regs issue =>
    obtain ⟨other, same, bru, fresh⟩ := legal.issues k regs issue
    obtain rfl : op = other := Option.some.inj (here.symm.trans same)
    have notYet : op.recovered = false := by
      by_contra again
      have resolved := whole.recovered (by simpa using again)
      simp [fresh] at resolved
    exact ⟨rfl, by simp [PathOp.cont, notYet], whole.issue bru regs⟩
  next => exact ⟨rfl, rfl, whole⟩

theorem issued_leads (legal : s.Legal i) (leads : LeadsFrom pc (s.ops.drop n) stop) :
    LeadsFrom pc ((s.issued i).drop n) stop := by
  have keeps (k : Nat) (op : PathOp) (here : (s.ops.drop n)[k]? = some op) :
      (issueOp i (n + k) op).first = op.first ∧ (issueOp i (n + k) op).cont = op.cont ∧
        Whole (issueOp i (n + k) op) :=
    issueOp_keeps legal (List.getElem?_drop.symm.trans here)
      (leads.whole op (List.mem_of_getElem? here))
  rw [issued_drop]
  constructor
  case path =>
    exact leads.path.mapIdx fun k op here => ⟨(keeps k op here).1, (keeps k op here).2.1⟩
  case whole =>
    intro op mem
    obtain ⟨k, inside, rfl⟩ := List.mem_mapIdx.mp mem
    exact (keeps k _ (List.getElem?_eq_getElem inside)).2.2

/-- The operations a partial flush leaves end with the branch, and fetch goes on at its target. -/
theorem recovered_leads (legal : s.Legal i) (recover : i.recover = some k)
    (leads : LeadsFrom pc (s.ops.drop n) stop) (before : n ≤ k) :
    ∃ op, s.ops[k]? = some op ∧ LeadsFrom pc ((s.recoveredOps i k).drop n) op.next := by
  obtain ⟨-, -, op, x, here, resolved, -⟩ := legal.recovers k recover
  have notIssued : i.issue k = none := by
    by_contra issue
    obtain ⟨regs, issue⟩ := Option.ne_none_iff_exists'.mp issue
    obtain ⟨other, same, -, fresh⟩ := legal.issues k regs issue
    obtain rfl : op = other := Option.some.inj (here.symm.trans same)
    cases fresh.symm.trans resolved
  have stays : (s.issued i)[k]? = some op := by simp [issued, here, notIssued]
  obtain ⟨inside, found⟩ := List.getElem?_eq_some_iff.mp stays
  have length : ((s.issued i).take k).length = k := List.length_take_of_le (Nat.le_of_lt inside)
  have ops : s.recoveredOps i k = (s.issued i).take k ++ [{ op with recovered := true }] := by
    rw [recoveredOps, List.take_succ_eq_append_getElem inside, found]
    refine List.ext_getElem? fun j => ?_
    grind
  refine ⟨op, here, ?_⟩
  obtain ⟨r, older, younger⟩ := (issued_leads legal leads).split (k - n)
  rw [List.drop_drop, Nat.add_sub_cancel' before, List.drop_eq_getElem_cons inside, found] at younger
  rw [ops, List.drop_append_of_le_length (by rw [length]; exact before), List.drop_take]
  have whole := younger.whole op (List.mem_cons_self ..)
  refine older.append ⟨⟨younger.path.1, rfl⟩, ?_⟩
  intro last mem
  rw [List.mem_singleton.mp mem]
  exact whole.recover resolved

-- ---------------------------------------------------------------------
-- Commit
-- ---------------------------------------------------------------------

/-- What may leave the head of the ROB is an operation in flight. -/
theorem shown (legal : s.Legal i) (leave : i.commit.MayLeave k) (width : k < pipeWidth) :
    ∃ op, s.ops[k]? = some op ∧ PathShows (i.commit.head k) op :=
  legal.heads k width leave.valid

/-- Entries that pass go on where fetch went on. -/
theorem passes_right (legal : s.Legal i) (whole : ∀ op ∈ s.ops, Whole op)
    (passes : i.commit.Passes n) (width : n ≤ pipeWidth) : ∀ op ∈ s.ops.take n, op.cont = op.next := by
  intro op mem
  obtain ⟨k, inside, rfl⟩ := List.mem_take_iff_getElem.mp mem
  have before : k < n := Nat.lt_of_lt_of_le inside (Nat.min_le_left ..)
  have here := List.getElem?_eq_getElem (Nat.lt_of_lt_of_le inside (Nat.min_le_right ..))
  obtain ⟨other, same, shows⟩ :=
    shown legal (passes.leave k before) (Nat.lt_of_lt_of_le before width)
  rw [Option.some.inj (here.symm.trans same)]
  exact shows.cont_eq (whole other (List.mem_of_getElem? same)) (passes.leave k before).ready
    (passes.clean k before) (passes.predicted k before)

/-- Operations that go on where fetch went on retire along the path. -/
theorem retires (leads : LeadsFrom pc s.ops s.cursor)
    (right : ∀ op ∈ s.ops.take n, op.cont = op.next) :
    ∃ r, follow pc ((s.ops.take n).map PathOp.retired) = some r ∧
      LeadsFrom r (s.ops.drop n) s.cursor := by
  obtain ⟨r, older, younger⟩ := leads.split n
  exact ⟨r, follow_retired older.path right, younger⟩

/-- The next one retires on the path too, wherever it goes. -/
theorem retires_last (leads : LeadsFrom pc s.ops s.cursor)
    (right : ∀ op ∈ s.ops.take k, op.cont = op.next) (here : s.ops[k]? = some op) :
    follow pc ((s.ops.take (k + 1)).map PathOp.retired) = some op.next := by
  obtain ⟨r, followed, younger⟩ := retires leads right
  obtain ⟨inside, found⟩ := List.getElem?_eq_some_iff.mp here
  rw [List.drop_eq_getElem_cons inside, found] at younger
  rw [List.take_succ_eq_append_getElem inside, found, List.map_append, follow_append, followed]
  simp [PathOp.retired, follow, younger.path.1]

theorem follow_eventsNext (come : follow resetVector s.events = some pc)
    (followed : follow pc ((s.ops.take i.commit.retireCount).map PathOp.retired) = some r) :
    follow resetVector (s.eventsNext i) =
      some (if i.commit.leavesPath then i.commit.flushOut.redirectPc else r) := by
  have older : follow resetVector
      (s.events ++ (s.ops.take i.commit.retireCount).map PathOp.retired) = some r := by
    rw [follow_append, come]
    exact followed
  have all : s.eventsNext i = s.events ++ (s.ops.take i.commit.retireCount).map PathOp.retired ++
      if i.commit.leavesPath then [.turned i.commit.flushOut.redirectPc] else [] := rfl
  rw [all, follow_append, older]
  cases i.commit.leavesPath <;> rfl

/-- A redirect starts where the program goes on. -/
theorem onPath_of_flush (flush : i.commit.flushOut.valid = true)
    (come : follow resetVector s.events = some pc)
    (followed : follow pc ((s.ops.take i.commit.retireCount).map PathOp.retired) = some r)
    (target : i.commit.leavesPath = false → i.commit.flushOut.redirectPc = r) :
    OnPath (s.next i) := by
  refine ⟨i.commit.flushOut.redirectPc, ?_, ?_⟩
  · refine (follow_eventsNext come followed).trans ?_
    split
    next => rfl
    next on => rw [target (by simpa using on)]
  · simp only [next, opsNext, cursorNext, flush, if_true]
    exact .nil _

/-- Without a redirect fetch goes on behind what is in flight. -/
theorem onPath_of_stay (legal : s.Legal i) (honest : HonestPacket s i)
    (flush : i.commit.flushOut.valid = false) (on : i.commit.leavesPath = false)
    (count : i.commit.commitCount = i.commit.retireCount)
    (come : follow resetVector s.events = some pc) (leads : LeadsFrom pc s.ops s.cursor)
    (right : ∀ op ∈ s.ops.take i.commit.retireCount, op.cont = op.next) : OnPath (s.next i) := by
  obtain ⟨r, followed, younger⟩ := retires leads right
  refine ⟨r, by rw [next, follow_eventsNext come followed, on]; rfl, ?_⟩
  simp only [next, opsNext, cursorNext, flush, Bool.false_eq_true, if_false, count]
  cases recover : i.recover with
  | some k =>
    obtain ⟨-, before, -⟩ := legal.recovers k recover
    obtain ⟨op, here, left⟩ := recovered_leads legal recover younger (count ▸ before)
    simpa [here] using left
  | none =>
    have older := issued_leads legal younger
    cases deliver : i.deliver with
    | none => simpa using older
    | some x =>
      have packet := legal.packet x deliver
      have honest := honest x deliver
      exact older.append
        ⟨PredIn.delivered_path packet honest, PredIn.delivered_whole packet honest⟩

theorem step_onPath (legal : s.Legal i) (honest : HonestPacket s i) (onPath : OnPath s) :
    OnPath (s.next i) := by
  obtain ⟨pc, come, leads⟩ := onPath
  have width : i.commit.retireCount ≤ pipeWidth := i.commit.retireCount_le
  have none : ∀ op ∈ s.ops.take 0, op.cont = op.next := by simp
  cases i.commit.cycle with
  | interrupt _ retired off flush =>
    refine onPath_of_flush flush come (r := pc) (by simp [retired, follow]) ?_
    simp [off]
  | passes n passes count retired on flush =>
    refine onPath_of_stay legal honest flush on (count.trans retired.symm) come leads ?_
    exact passes_right legal leads.whole (retired ▸ passes) width
  | replays k passes leave replays before retired on flush target =>
    obtain ⟨op, here, shows⟩ := shown legal leave before
    obtain ⟨r, followed, younger⟩ :=
      retires leads (passes_right legal leads.whole passes (Nat.le_of_lt before))
    refine onPath_of_flush flush come (retired ▸ followed) fun _ => ?_
    obtain ⟨inside, found⟩ := List.getElem?_eq_some_iff.mp here
    have whole := leads.whole op (List.mem_of_getElem? here)
    rw [List.drop_eq_getElem_cons inside, found] at younger
    rw [target, shows.pc, whole.load (shows.load replays)]
    exact younger.path.1
  | traps k passes retired off flush =>
    obtain ⟨r, followed, -⟩ := retires leads (passes_right legal leads.whole passes (retired ▸ width))
    refine onPath_of_flush flush come (retired ▸ followed) ?_
    simp [off]
  | mispredicts k passes leave before clean wrong retired on flush target =>
    obtain ⟨op, here, shows⟩ := shown legal leave before
    have whole := leads.whole op (List.mem_of_getElem? here)
    have followed := retires_last leads
      (passes_right legal leads.whole passes (Nat.le_of_lt before)) here
    refine onPath_of_flush flush come (retired ▸ followed) fun _ => ?_
    rw [target]
    exact shows.mispredict_target whole leave.ready clean wrong
  | returns leave clean retired off flush =>
    obtain ⟨op, here, -⟩ := shown legal leave (by decide)
    have followed := retires_last leads none here
    refine onPath_of_flush flush come (by rwa [retired]) ?_
    simp [off]
  | refetches leave clean marks retired on flush target =>
    obtain ⟨op, here, shows⟩ := shown legal leave (by decide)
    have followed := retires_last leads none here
    refine onPath_of_flush flush come (by rwa [retired]) fun _ => ?_
    rw [target]
    exact shows.refetch_target (leads.whole op (List.mem_of_getElem? here)) marks
  | serial leave clean serial count retired on flush =>
    refine onPath_of_stay legal honest flush on (count.trans retired.symm) come leads ?_
    obtain ⟨op, here, shows⟩ := shown legal leave (by decide)
    have whole := leads.whole op (List.mem_of_getElem? here)
    have right := shows.cont_eq whole leave.ready clean (shows.serial_right whole serial)
    rw [retired]
    obtain ⟨inside, found⟩ := List.getElem?_eq_some_iff.mp here
    simpa [List.take_succ_eq_append_getElem inside, found] using right

end PathCore

theorem onPath_of_reach (reach : pathCore.Reach HonestPacket s) : OnPath s := by
  refine reach.invariant OnPath ⟨resetVector, rfl, .nil _⟩ ?_
  exact fun s i _ onPath legal honest => PathCore.step_onPath legal honest onPath

/-- As long as the tags the BTB places are honest, the program retires along its own path, whatever
the predictors hold. -/
theorem retires_in_sequence (reach : pathCore.Reach HonestPacket s) : s.Sequential := by
  obtain ⟨pc, come, -⟩ := onPath_of_reach reach
  exact Option.isSome_iff_exists.mpr ⟨pc, come⟩

-- ---------------------------------------------------------------------
-- A jump only the BTB remembers
-- ---------------------------------------------------------------------

/-- `addi x1, x0, 1` -/
def addiSlot (pc : Addr) : Slot := ⟨true, 0x00100093, false, pc⟩

/-- One ADDI, on which the BTB has a jump to `target`. -/
def packetAt (pc target : Addr) : PredIn where
  valid := true
  extractCount := 1
  slot j := if j = 0 then addiSlot pc else { addiSlot 0 with valid := false }
  workPc := pc
  ftq := none
  btb := some ⟨target, btJal, pc.extractLsb' 0 6⟩
  btbAlt := none
  tageTaken := false
  rasTos := 0
  rasPopAddr := 0
  ownerTagePredTaken := false

theorem packetAt_follows (pc target : Addr) : PacketAt pc (packetAt pc target) where
  width := Nat.le_of_ble_eq_true rfl
  valid j _ := by
    cases j with
    | zero => simp [packetAt, addiSlot]
    | succ j => simp [packetAt, addiSlot]
  begins _ := rfl
  follows j inside := by simp [packetAt] at inside
  expanded j inside rvc := by
    obtain rfl : j = 0 := Nat.lt_one_iff.mp inside
    cases rvc

theorem packetAt_honest (tag : (packetAt pc (pc + 4)).tag = some ⟨0, pc + 4, btJal⟩) :
    BtbHonest (packetAt pc (pc + 4)) := by
  intro p tagged _
  obtain rfl := Option.some.inj (tag.symm.trans tagged)
  exact .inr rfl

namespace PathCore

def renamedOf (op : PathOp) : Rename.RenamedInsn :=
  ⟨op.uop, 0, 0, 0, 0, 0, 0, false, false, false, 0, false, 0, 0, false⟩

/-- A packet arrives, and the first `done` operations retire. -/
def plainCycle (s : PathCore) (deliver : Option PredIn) (done : Nat) : PathIn :=
  ⟨Rename.Core.commitOf (s.ops.map renamedOf) done, deliver, fun _ => none, none⟩

/-- The operation is no control transfer and retires like any other. -/
def isPlain (op : PathOp) : Bool :=
  op.uop.fuType != .bru && !isControl op.uop && !serializes op.uop

variable {s : PathCore} {deliver : Option PredIn}

theorem legal_plainCycle (plain : s.ops.all isPlain = true)
    (packet : ∀ x, deliver = some x → PacketAt s.cursor x) :
    s.Legal (s.plainCycle deliver done) where
  heads k _ valid := by
    cases at_ : s.ops[k]? with
    | none => simp [plainCycle, Rename.Core.commitOf, at_, Rename.Core.noHead] at valid
    | some op =>
      have kind := List.all_eq_true.mp plain op (List.mem_of_getElem? at_)
      simp only [isPlain, isControl, serializes, refetches, Bool.and_eq_true, bne_iff_ne, ne_eq,
        Bool.not_eq_true', Bool.or_eq_false_iff, bne_eq_false_iff_eq] at kind
      obtain ⟨⟨straight, -, typed⟩, ⟨⟨⟨⟨⟨⟨csr, fence⟩, fenceI⟩, sfence⟩, mret⟩, sret⟩, ecall⟩, wfi⟩ := kind
      refine ⟨op, rfl, ?_⟩
      simp only [plainCycle, Rename.Core.commitOf, List.getElem?_map, at_, Option.map_some]
      exact ⟨rfl, rfl, typed.symm, csr.symm, fence.symm, fenceI.symm, sfence.symm, mret.symm,
        sret.symm, ecall.symm, wfi.symm, (fun replays => by cases replays),
        fun _ _ bru => absurd bru straight⟩
  issues k regs issue := by cases issue
  recovers k recover := by cases recover
  packet := packet

end PathCore

/-- An ADDI with a remembered jump to `target` is fetched, then the one at `target`, and both
retire. -/
def jumpFetched (target : Addr) : PathCore :=
  pathCore.next pathCore.reset
    (pathCore.reset.plainCycle (some (packetAt resetVector target)) 0)

def bothFetched (target : Addr) : PathCore :=
  pathCore.next (jumpFetched target)
    ((jumpFetched target).plainCycle (some (packetAt target (target + 4))) 0)

def afterJump (target : Addr) : PathCore :=
  pathCore.next (bothFetched target) ((bothFetched target).plainCycle none 2)

theorem reach_afterJump {P : PathCore → PathIn → Prop}
    (holds : ∀ s i, (∀ x, i.deliver = some x →
      x = packetAt resetVector target ∨ x = packetAt target (target + 4)) → P s i)
    (arrives : (jumpFetched target).cursor = target)
    (plain : (jumpFetched target).ops.all PathCore.isPlain = true)
    (plainBoth : (bothFetched target).ops.all PathCore.isPlain = true) :
    pathCore.Reach P (afterJump target) := by
  have first : pathCore.Reach P (jumpFetched target) := by
    refine .cycle .reset (PathCore.legal_plainCycle rfl ?_) (holds _ _ ?_)
    · rintro x ⟨⟩
      exact packetAt_follows _ _
    · rintro x ⟨⟩
      exact .inl rfl
  have second : pathCore.Reach P (bothFetched target) := by
    refine .cycle first (PathCore.legal_plainCycle plain ?_) (holds _ _ ?_)
    · rintro x ⟨⟩
      rw [arrives]
      exact packetAt_follows _ _
    · rintro x ⟨⟩
      exact .inr rfl
  exact .cycle second (PathCore.legal_plainCycle plainBoth nofun) (holds _ _ nofun)

theorem retires_in_sequence_straight : (afterJump (resetVector + 4)).Sequential := by
  refine retires_in_sequence (reach_afterJump ?_ (by decide +kernel) (by decide +kernel)
    (by decide +kernel))
  intro s i deliver x arrives
  obtain rfl | rfl := deliver x arrives
  · exact packetAt_honest (by decide +kernel)
  · exact packetAt_honest (by decide +kernel)

/-- The jump is taken though no instruction jumps. -/
theorem remembered_jump_retires :
    pathCore.Reachable (afterJump 0x80001000) ∧ ¬(afterJump 0x80001000).Sequential := by
  refine ⟨reach_afterJump (fun _ _ _ => trivial) (by decide +kernel) (by decide +kernel)
    (by decide +kernel), ?_⟩
  unfold PathCore.Sequential
  decide +kernel

end Rv64gc.Frontend
