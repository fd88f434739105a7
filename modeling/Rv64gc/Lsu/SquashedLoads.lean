import Rv64gc.Lsu.LoadUnit
import Rv64gc.Lsu.MmioReads

/-!
# Squashed loads

No register holds a load that was squashed: what is in a register, or goes from one to another, in
the cycle of a flush is older than the first slot taken back.
-/

namespace Rv64gc.Lsu

open Hdl Mmu Backend

namespace LoadUnit

variable {s : LoadUnit} {i : LoadIn} {l : MmioLoad} {o : LoadOp}

/-- No flush has taken the load back. -/
def Live (s : LoadUnit) (l : MmioLoad) : Prop :=
  ∃ m, s.lives l.seq = some m ∧ m.robIdx = l.robIdx ∧ m.fate ≠ .squashed

/-- Nor does one of this cycle. -/
structure Stays (s : LoadUnit) (i : LoadIn) (l : MmioLoad) : Prop where
  live : s.Live l
  kept : s.keeps i l.robIdx = true

def Retired (s : LoadUnit) (t : AmoTag) : Prop :=
  ∃ m, s.lives t.seq = some m ∧ m.robIdx = t.robIdx ∧ m.fate = .retired

/-- An atomic has retired or is the oldest instruction. -/
def AtHead (s : LoadUnit) (t : AmoTag) : Prop :=
  s.Retired t ∨
    ∃ m, s.lives t.seq = some m ∧ m.robIdx = t.robIdx ∧ m.fate = .inFlight ∧ t.robIdx = s.robHead

structure Sound (s : LoadUnit) : Prop where
  pipe0 : ∀ x, s.pipe0 = some x → s.Live x.op.load
  pipe1 : ∀ x, s.pipe1 = some x → s.Live x.op.load
  retry0 : ∀ o, s.retry0 = some o → s.Live o.load
  retry1 : ∀ x, s.retry1 = some x → s.Live x.op.load
  split : ∀ x, s.split = some x → s.Live x.load
  hold0 : ∀ x, s.hold0 = some x → s.Live x.1
  hold1 : ∀ x, s.hold1 = some x → s.Live x.1
  fwd0 : ∀ x, s.fwd0 = some x → s.Live x.load
  misalign1 : ∀ l, s.misalign1 = some l → s.Live l
  fwd1 : ∀ x, s.fwd1 = some x → s.Live x.1
  lmb : ∀ j, (s.lmb j).valid = true → s.Live (s.lmb j).load
  reprobe : ∀ j, s.reprobe = some j → s.Live (s.lmb j).load
  /-- The device port waits for a device to take a request or for its answer, not for both. -/
  alone : s.mmio.reqValid = true → s.mmio.waitResp = false
  request : ∀ l, s.mmio.reqValid = true → s.mmio.request = .load l → s.Live l
  waits : ∀ l, s.mmio.waitResp = true → s.mmio.reqDrop = false → s.mmio.request = .load l →
    s.Live l
  answer : ∀ x, s.mmio.respHold = some x → s.Live x.1
  atomic : ∀ a, s.amo.current = some a →
    s.amo.waitLoad = true ∨ s.amo.reprobing = true ∨ s.amo.store.isSome = true → s.AtHead a.tag
  committed : ∀ a st, s.amo.current = some a → s.amo.store = some st → st.committed = true →
    s.Retired a.tag
  wb : ∀ x, s.amo.wb = some x → s.AtHead x.1.tag

theorem Sound.reset : loadRuns.reset.Sound := by
  constructor <;> simp [loadRuns, LoadUnit.reset, MmioPort.reset, AmoUnit.reset]

-- ---------------------------------------------------------------------
-- Flushes
-- ---------------------------------------------------------------------

theorem Live.not_squashed (live : s.Live l) : ¬ s.Squashed l.seq := by
  rintro ⟨m, life, squashed⟩
  obtain ⟨m', life', -, unsquashed⟩ := live
  rw [life] at life'
  cases life'
  exact unsquashed squashed

theorem AtHead.not_squashed {t : AmoTag} (at_ : s.AtHead t) : ¬ s.Squashed t.seq := by
  rintro ⟨m, life, squashed⟩
  rcases at_ with ⟨m', life', -, fate⟩ | ⟨m', life', -, fate, -⟩ <;>
  · rw [life] at life'
    cases life'
    simp [squashed] at fate

theorem keeps_of_calm (calm : i.flush = none) (r : RobIdx) : s.keeps i r = true := by
  simp [keeps, flushIn, calm]

theorem keeps_of_clears {r : RobIdx} (stays : s.clears i (some r) = false) :
    s.keeps i r = true := by
  cases flush : i.flush with
  | none => exact keeps_of_calm flush r
  | some f => simpa [clears, flush] using (Bool.or_eq_false_iff.mp stays).2

theorem not_squashes (legal : s.Keeps i) {r : RobIdx} (kept : s.keeps i r = true) :
    i.squashes s.robHead r = false := by
  cases flush : i.flush with
  | none => simp [LoadIn.squashes, flush]
  | some f =>
    cases f with
    | full => simp [keeps, flushIn, flush] at kept
    | upTo n =>
      have inside : offset s.robHead r < n := by
        have cut := (legal.cut n flush).2
        rcases cut.lt_or_eq with short | rfl
        · have slot : offset s.robHead (slotAt s.robHead n) = n := offset_slotAt _ short
          simpa [keeps, flushIn, flush, slot] using kept
        · exact offset_lt _ _
      simpa [LoadIn.squashes, flush] using inside

theorem next_life (life : s.lives n = some m) :
    (s.next i).lives n = some (s.nextLife i m) := by
  simp [LoadUnit.next, life]

theorem Stays.next (stays : s.Stays i l) (legal : s.Keeps i) : (s.next i).Live l := by
  obtain ⟨⟨m, life, slot, unsquashed⟩, kept⟩ := stays
  refine ⟨_, next_life life, slot, ?_⟩
  have old := not_squashes legal kept
  rw [← slot] at old
  simp only [nextLife, old]
  split
  · split <;> simp
  · exact unsquashed

theorem Live.calm (live : s.Live l) (calm : i.flush = none) : s.Stays i l :=
  ⟨live, keeps_of_calm calm _⟩

theorem Live.stays (live : s.Live l) (stays : s.clears i (some l.robIdx) = false) : s.Stays i l :=
  ⟨live, keeps_of_clears stays⟩

theorem Retired.next {t : AmoTag} (retired : s.Retired t) : (s.next i).Retired t := by
  obtain ⟨m, life, slot, fate⟩ := retired
  exact ⟨_, next_life life, slot, by simp [nextLife, fate]⟩

theorem AtHead.retires {t : AmoTag} (at_ : s.AtHead t)
    (leaves : offset s.robHead t.robIdx < i.commitCount) : (s.next i).Retired t := by
  rcases at_ with retired | ⟨m, life, slot, fate, -⟩
  · exact retired.next
  · exact ⟨_, next_life life, slot, by simp [nextLife, fate, slot, leaves]⟩

theorem AtHead.next {t : AmoTag} (at_ : s.AtHead t) (legal : s.Keeps i)
    (partly : i.fullFlush = false) : (s.next i).AtHead t := by
  by_cases leaves : offset s.robHead t.robIdx < i.commitCount
  · exact .inl (at_.retires leaves)
  rcases at_ with retired | ⟨m, life, slot, fate, head⟩
  · exact .inl retired.next
  have first : offset s.robHead t.robIdx = 0 := by simp [head, offset]
  have none_ : i.commitCount = 0 := by omega
  have old : i.squashes s.robHead t.robIdx = false := by
    cases flush : i.flush with
    | none => simp [LoadIn.squashes, flush]
    | some f =>
      cases f with
      | full => simp [LoadIn.fullFlush, flush] at partly
      | upTo n => simpa [LoadIn.squashes, flush, first] using (legal.cut n flush).1.ne'
  refine .inr ⟨_, next_life life, slot, ?_, ?_⟩
  · simp [nextLife, fate, slot, none_, old]
  · simp [LoadUnit.next, partly, none_, head]

-- ---------------------------------------------------------------------
-- Where a load comes from
-- ---------------------------------------------------------------------

theorem candidate_stays (legal : s.Keeps i) (calm : i.flush = none)
    (candidate : i.load0 = some o ∨ i.load1 = some o) : s.Stays i o.load := by
  obtain ⟨m, life, slot, fate⟩ := legal.issues o candidate
  exact Live.calm ⟨m, life, slot, by simp [fate]⟩ calm

theorem issue0_stays (legal : s.Keeps i) (issue : s.issue0 i = some o) :
    i.flush = none ∧ s.Stays i o.load := by
  obtain ⟨candidate, free⟩ := Option.filter_eq_some_iff.mp issue
  have calm : i.flush = none := by
    by_contra flush
    simp [suppress0, Option.isSome_iff_ne_none.mpr flush] at free
  exact ⟨calm, candidate_stays legal calm (.inl candidate)⟩

theorem issue1_stays (legal : s.Keeps i) (issue : s.issue1 i = some o) :
    i.flush = none ∧ s.Stays i o.load := by
  obtain ⟨candidate, free⟩ := Option.filter_eq_some_iff.mp issue
  have calm : i.flush = none := by
    by_contra flush
    simp [suppress1, Option.isSome_iff_ne_none.mpr flush] at free
  exact ⟨calm, candidate_stays legal calm (.inr candidate)⟩

theorem retryFire0_stays (inv : s.Sound) (fires : s.retryFire0 i = some o) :
    i.flush = none ∧ s.Stays i o.load := by
  unfold retryFire0 at fires
  split at fires
  · rename_i free
    simp only [Bool.and_eq_true, Option.isNone_iff_eq_none] at free
    exact ⟨free.1, (inv.retry0 o fires).calm free.1⟩
  · cases fires

theorem eff1_live (inv : s.Sound) (legal : s.Keeps i) {x : Port1Load}
    (eff : s.eff1 i = some x) : s.Live x.op.load := by
  unfold eff1 at eff
  split at eff
  · cases eff
  split at eff
  · rename_i y retry
    split at eff
    · cases eff
    · cases eff
      exact inv.retry1 y retry
  · obtain ⟨o, issue, eff⟩ := Option.bind_eq_some_iff.mp eff
    obtain ⟨-, eff⟩ := Option.ite_none_left_eq_some.mp eff
    cases eff
    exact (issue1_stays legal issue).2.live

theorem exec1_stays (inv : s.Sound) (legal : s.Keeps i) {x : Port1Load}
    (exec : s.exec1 i = some x) : s.Stays i x.op.load := by
  obtain ⟨eff, kept⟩ := Option.filter_eq_some_iff.mp exec
  exact ⟨eff1_live inv legal eff, kept⟩

theorem cached_stays {p : Option PipeLoad} (live : ∀ x, p = some x → s.Live x.op.load)
    (cached : s.cached i p = some o) : s.Stays i o.load := by
  obtain ⟨x, held, rfl⟩ := Option.map_eq_some_iff.mp cached
  obtain ⟨here, kept⟩ := Option.filter_eq_some_iff.mp held
  simp only [Bool.and_eq_true] at kept
  exact ⟨live x here, kept.1.1⟩

theorem hit0_stays (inv : s.Sound) {x : MmioLoad × Word} (hit : s.hit0 i = some x) :
    s.Stays i x.1 := by
  obtain ⟨o, cached, hit⟩ := Option.bind_eq_some_iff.mp hit
  obtain ⟨data, -, rfl⟩ := Option.map_eq_some_iff.mp hit
  exact cached_stays inv.pipe0 cached

theorem hit1_stays (inv : s.Sound) {x : MmioLoad × Word} (hit : s.hit1 i = some x) :
    s.Stays i x.1 := by
  obtain ⟨o, cached, hit⟩ := Option.bind_eq_some_iff.mp hit
  obtain ⟨data, -, rfl⟩ := Option.map_eq_some_iff.mp hit
  exact cached_stays inv.pipe1 cached

theorem missDetect0_stays (inv : s.Sound) (miss : s.missDetect0 i = some o) :
    s.Stays i o.load := by
  unfold missDetect0 at miss
  split at miss
  · exact cached_stays inv.pipe0 miss
  · cases miss

theorem missDetect1_stays (inv : s.Sound) (miss : s.missDetect1 i = some o) :
    s.Stays i o.load := by
  unfold missDetect1 at miss
  split at miss
  · exact cached_stays inv.pipe1 miss
  · cases miss

/-- A load that port 0 tries again. -/
theorem retried0_stays (inv : s.Sound)
    (again : (s.missRetryReq0 i).or (s.lmbRetryReq0 i) = some o) : s.Stays i o.load := by
  rcases Option.or_eq_some_iff.mp again with full | ⟨-, full⟩
  · exact cached_stays inv.pipe0 (Option.ite_none_right_eq_some.mp full).2
  · exact missDetect0_stays inv (Option.ite_none_right_eq_some.mp full).2

theorem retried1_stays (inv : s.Sound)
    (again : (s.missRetryReq1 i).or (s.lmbRetryReq1 i) = some o) : s.Stays i o.load := by
  rcases Option.or_eq_some_iff.mp again with full | ⟨-, full⟩
  · exact cached_stays inv.pipe1 (Option.ite_none_right_eq_some.mp full).2
  · exact missDetect1_stays inv (Option.ite_none_right_eq_some.mp full).2

/-- The load of a register that a flush leaves there. -/
theorem kept_stays {hold : FwdHold} (live : ∀ x, hold = some x → s.Live x.1)
    {x : MmioLoad × Word} (held : s.kept i hold = some x) : s.Stays i x.1 := by
  obtain ⟨here, kept⟩ := Option.filter_eq_some_iff.mp held
  exact ⟨live x here, kept⟩

theorem pipeHeld_stays {p : Option PipeLoad} (live : ∀ x, p = some x → s.Live x.op.load)
    {x : PipeLoad} (held : s.pipeHeld i p = some x) : s.Stays i x.op.load := by
  obtain ⟨here, kept⟩ := Option.filter_eq_some_iff.mp held
  exact ⟨live x here, kept⟩

theorem lmbLive_stays (inv : s.Sound) {j : Fin 32} (live : s.lmbLive i j = true) :
    s.Stays i (s.lmb j).load := by
  obtain ⟨valid, kept⟩ := (Bool.and_eq_true _ _).mp live
  exact ⟨inv.lmb j valid, kept⟩

-- ---------------------------------------------------------------------
-- The registers of the next cycle
-- ---------------------------------------------------------------------

theorem pipe0_next (inv : s.Sound) (legal : s.Keeps i) {x : PipeLoad}
    (next : s.nextPipe0 i = some x) : s.Stays i x.op.load := by
  unfold nextPipe0 at next
  split at next
  · exact pipeHeld_stays inv.pipe0 next
  · rcases Option.or_eq_some_iff.mp next with retry | ⟨-, new⟩
    · obtain ⟨o, fires, rfl⟩ := Option.map_eq_some_iff.mp retry
      exact (retryFire0_stays inv fires).2
    · obtain ⟨o, issue, rfl⟩ := Option.map_eq_some_iff.mp new
      exact (issue0_stays legal issue).2

theorem pipe1_next (inv : s.Sound) (legal : s.Keeps i) {x : PipeLoad}
    (next : s.nextPipe1 i = some x) : s.Stays i x.op.load := by
  unfold nextPipe1 at next
  split at next
  · rcases Option.or_eq_some_iff.mp next with new | ⟨-, held⟩
    · obtain ⟨y, exec, rfl⟩ := Option.map_eq_some_iff.mp new
      exact exec1_stays inv legal (Option.filter_eq_some_iff.mp exec).1
    · exact pipeHeld_stays inv.pipe1 held
  · rename_i calm
    rw [Option.not_isSome_iff_eq_none] at calm
    obtain ⟨y, eff, rfl⟩ := Option.map_eq_some_iff.mp next
    exact (eff1_live inv legal eff).calm calm

theorem retry0_next (inv : s.Sound) (next : s.nextRetry0 i = some o) : s.Stays i o.load := by
  obtain ⟨stays, next⟩ := Option.ite_none_left_eq_some.mp next
  rcases Option.or_eq_some_iff.mp next with miss | ⟨-, next⟩
  · exact retried0_stays inv (Option.or_eq_some_iff.mpr (.inl miss))
  rcases Option.or_eq_some_iff.mp next with full | ⟨-, next⟩
  · exact missDetect0_stays inv (Option.ite_none_right_eq_some.mp full).2
  · obtain ⟨-, held⟩ := Option.ite_none_left_eq_some.mp next
    exact (inv.retry0 o held).stays (by simpa [held] using stays)

theorem retry1_next (inv : s.Sound) (legal : s.Keeps i) {x : Port1Load}
    (next : s.nextRetry1 i = some x) : s.Stays i x.op.load := by
  obtain ⟨stays, next⟩ := Option.ite_none_left_eq_some.mp next
  split at next
  · rename_i o again
    cases next
    exact retried1_stays inv again
  split at next
  · obtain ⟨o, issue, rfl⟩ := Option.map_eq_some_iff.mp next
    exact (issue1_stays legal issue).2
  · obtain ⟨-, held⟩ := Option.ite_none_left_eq_some.mp next
    exact (inv.retry1 x held).stays (by simpa [held] using stays)

theorem turn_load {x y : SplitLoad} {resp : Option Word} {leaves : Bool}
    (turn : x.turn resp leaves = some y) : y.load = x.load := by
  unfold SplitLoad.turn at turn
  cases state : x.state <;> simp only [state] at turn
  case req0 | req1 => cases turn; rfl
  case wait0 | wait1 => cases resp <;> cases turn <;> rfl
  case wb => cases leaves <;> cases turn; rfl

theorem split_next (inv : s.Sound) (legal : s.Keeps i) {x : SplitLoad}
    (next : s.nextSplit i = some x) : s.Stays i x.load := by
  obtain ⟨stays, next⟩ := Option.ite_none_left_eq_some.mp next
  split at next
  · obtain ⟨o, start, rfl⟩ := Option.map_eq_some_iff.mp next
    exact (issue0_stays legal (Option.filter_eq_some_iff.mp start).1).2
  · rename_i y held
    rw [turn_load next]
    exact (inv.split y held).stays (by simpa [held] using stays)

theorem hold0_next (inv : s.Sound) {x : MmioLoad × Word} (next : s.nextHold0 i = some x) :
    s.Stays i x.1 := by
  obtain ⟨-, next⟩ := Option.ite_none_left_eq_some.mp next
  exact hit0_stays inv (Option.ite_none_right_eq_some.mp next).2

theorem hold1_next (inv : s.Sound) {x : MmioLoad × Word} (next : s.nextHold1 i = some x) :
    s.Stays i x.1 := by
  obtain ⟨-, next⟩ := Option.ite_none_left_eq_some.mp next
  exact hit1_stays inv (Option.ite_none_right_eq_some.mp next).2

theorem fwd0_next (inv : s.Sound) (legal : s.Keeps i) {x : LoadResult}
    (next : s.nextFwd0 i = some x) : s.Stays i x.load := by
  obtain ⟨stays, next⟩ := Option.ite_none_left_eq_some.mp next
  split at next
  · exact (inv.fwd0 x next).stays (by simpa [next] using stays)
  · obtain ⟨-, next⟩ := Option.ite_none_left_eq_some.mp next
    obtain ⟨o, issue, rfl⟩ := Option.map_eq_some_iff.mp next
    exact (issue0_stays legal (Option.filter_eq_some_iff.mp issue).1).2

theorem misalign1_next (legal : s.Keeps i) (next : s.nextMisalign1 i = some l) :
    s.Stays i l := by
  obtain ⟨-, next⟩ := Option.ite_none_left_eq_some.mp next
  obtain ⟨-, next⟩ := Option.ite_none_right_eq_some.mp next
  obtain ⟨o, issue, rfl⟩ := Option.map_eq_some_iff.mp next
  exact (issue1_stays legal (Option.filter_eq_some_iff.mp issue).1).2

theorem fwd1_next (inv : s.Sound) (legal : s.Keeps i) {x : MmioLoad × Word}
    (next : s.nextFwd1 i = some x) : s.Stays i x.1 := by
  obtain ⟨stays, next⟩ := Option.ite_none_left_eq_some.mp next
  split at next
  · obtain ⟨-, held⟩ := Option.ite_none_right_eq_some.mp next
    exact (inv.fwd1 x held).stays (by simpa [held] using stays)
  · obtain ⟨calm, next⟩ := Option.ite_none_left_eq_some.mp next
    rw [Option.not_isSome_iff_eq_none] at calm
    obtain ⟨y, eff, next⟩ := Option.bind_eq_some_iff.mp next
    obtain ⟨raw, -, rfl⟩ := Option.map_eq_some_iff.mp next
    exact (eff1_live inv legal (Option.filter_eq_some_iff.mp eff).1).calm calm

-- ---------------------------------------------------------------------
-- The load miss buffer
-- ---------------------------------------------------------------------

theorem not_live_of_free {k : Nat} {j : Fin 32} (free : (s.lmbFree i)[k]? = some j) :
    s.lmbLive i j = false := by
  simpa [lmbFree] using List.mem_of_getElem? free

theorem alloc0_stays (inv : s.Sound) {j : Fin 32} (alloc : s.lmbAlloc0 i = some (j, o)) :
    s.Stays i o.load ∧ s.lmbLive i j = false := by
  obtain ⟨o', miss, alloc⟩ := Option.bind_eq_some_iff.mp alloc
  obtain ⟨j', free, same⟩ := Option.map_eq_some_iff.mp alloc
  cases same
  exact ⟨missDetect0_stays inv miss, not_live_of_free free⟩

theorem alloc1_stays (inv : s.Sound) {j : Fin 32} (alloc : s.lmbAlloc1 i = some (j, o)) :
    s.Stays i o.load ∧ s.lmbLive i j = false := by
  obtain ⟨o', miss, alloc⟩ := Option.bind_eq_some_iff.mp alloc
  obtain ⟨j', free, same⟩ := Option.map_eq_some_iff.mp alloc
  cases same
  exact ⟨missDetect1_stays inv miss, not_live_of_free free⟩

theorem allocated_load (o : LoadOp) : (s.allocated i o).load = o.load := by
  unfold allocated
  split <;> rfl

/-- What an entry holds after the flush, with the load that takes it. -/
theorem lmbTaken_stays (inv : s.Sound) (j : Fin 32)
    (valid : (s.lmbTaken i j).valid = true) : s.Stays i (s.lmbTaken i j).load := by
  unfold lmbTaken at valid ⊢
  cases alloc1 : (s.lmbAlloc1 i).filter fun x => x.1 == j with
  | some x =>
    obtain ⟨alloc, -⟩ := Option.filter_eq_some_iff.mp alloc1
    simpa [alloc1, allocated_load] using (alloc1_stays inv alloc).1
  | none =>
    cases alloc0 : (s.lmbAlloc0 i).filter fun x => x.1 == j with
    | some x =>
      obtain ⟨alloc, -⟩ := Option.filter_eq_some_iff.mp alloc0
      simpa [alloc0, alloc1, allocated_load] using (alloc0_stays inv alloc).1
    | none =>
      simp only [alloc0, alloc1, Option.elim_none] at valid ⊢
      split at valid
      · simp [emptied] at valid
      · rename_i stays
        rw [if_neg stays]
        refine ⟨inv.lmb j valid, ?_⟩
        cases flush : i.flush with
        | none => exact keeps_of_calm flush _
        | some f => simpa [flush, valid] using stays

/-- The entry that is there stays the same but for being taken away. -/
theorem lmbTaken_load (inv : s.Sound) {j : Fin 32} (live : s.lmbLive i j = true) :
    (s.lmbTaken i j).load = (s.lmb j).load := by
  have alloc0 : (s.lmbAlloc0 i).filter (fun x => x.1 == j) = none := by
    rw [Option.filter_eq_none_iff]
    rintro ⟨k, o⟩ alloc
    have free := (alloc0_stays inv alloc).2
    rintro same
    simp [← eq_of_beq same, free] at live
  have alloc1 : (s.lmbAlloc1 i).filter (fun x => x.1 == j) = none := by
    rw [Option.filter_eq_none_iff]
    rintro ⟨k, o⟩ alloc
    have free := (alloc1_stays inv alloc).2
    rintro same
    simp [← eq_of_beq same, free] at live
  simp only [lmbTaken, alloc0, alloc1, Option.elim_none]
  split <;> rfl

theorem nextLmb_load (j : Fin 32) : (s.nextLmb i j).load =
    if i.fullFlush then (s.lmb j).load else (s.lmbTaken i j).load := by
  unfold nextLmb lmbFilled
  split
  · rfl
  · dsimp only
    repeat' split
    all_goals rfl

theorem valid_of_nextLmb {j : Fin 32} (valid : (s.nextLmb i j).valid = true) :
    i.fullFlush = false ∧ (s.lmbTaken i j).valid = true := by
  unfold nextLmb lmbFilled at valid
  split at valid
  · simp [emptied] at valid
  · rename_i partly
    refine ⟨by simpa using partly, ?_⟩
    dsimp only at valid
    repeat' split at valid
    all_goals first | exact valid | simp [emptied] at valid

theorem lmb_next (inv : s.Sound) {j : Fin 32} (valid : (s.nextLmb i j).valid = true) :
    s.Stays i (s.nextLmb i j).load := by
  obtain ⟨partly, taken⟩ := valid_of_nextLmb valid
  simpa [nextLmb_load, partly] using lmbTaken_stays inv j taken

theorem reprobe_next (inv : s.Sound) {j : Fin 32} (fires : s.reprobeReqFire i = some j) :
    s.Stays i (s.nextLmb i j).load := by
  unfold reprobeReqFire at fires
  split at fires
  · have found := List.find?_some fires
    simp only [Bool.and_eq_true] at found
    rw [nextLmb_load, lmbTaken_load inv found.1, ite_self]
    exact lmbLive_stays inv found.1
  · cases fires

-- ---------------------------------------------------------------------
-- The device port
-- ---------------------------------------------------------------------

theorem flush_mmioIn : (s.mmioIn i).flush = none ↔ i.flush = none := by
  simp [mmioIn, flushIn]

theorem mmioLaunch_stays (inv : s.Sound) (legal : s.Keeps i)
    (launch : s.mmio.launch (s.mmioIn i) = some (.load l)) : i.flush = none ∧ s.Stays i l := by
  obtain ⟨-, calm, ⟨x, on, rfl⟩ | ⟨x, on, rfl⟩⟩ := MmioPort.launch_load launch
  · obtain ⟨o, issue, rfl⟩ := Option.map_eq_some_iff.mp on
    exact issue0_stays legal (Option.filter_eq_some_iff.mp issue).1
  · obtain ⟨y, eff, rfl⟩ := Option.map_eq_some_iff.mp on
    have calm := flush_mmioIn.mp calm
    exact ⟨calm, (eff1_live inv legal (Option.filter_eq_some_iff.mp eff).1).calm calm⟩

theorem launched_free {req : MmioReq} (launch : s.mmio.launch (s.mmioIn i) = some req) :
    s.mmio.reqValid = false ∧ s.mmio.waitResp = false := by
  have free : s.mmio.available = true := by
    by_contra taken
    simp [MmioPort.launch_eq_none (Bool.eq_false_iff.mpr taken)] at launch
  exact ⟨(MmioPort.available_iff.mp free).1, (MmioPort.available_iff.mp free).2.1⟩

theorem alone_next (inv : s.Sound) (valid : (s.next i).mmio.reqValid = true) :
    (s.next i).mmio.waitResp = false := by
  simp only [LoadUnit.next, MmioPort.next] at valid ⊢
  cases launch : s.mmio.launch (s.mmioIn i) with
  | some req => simp [launched_free launch]
  | none =>
    simp only [launch, Option.isSome_none, Bool.false_or, Bool.and_eq_true] at valid
    have waits := inv.alone valid.1.1
    simp [waits, Bool.not_eq_true' _ ▸ valid.2]

theorem request_next (inv : s.Sound) (legal : s.Keeps i)
    (valid : (s.next i).mmio.reqValid = true) (request : (s.next i).mmio.request = .load l) :
    s.Stays i l := by
  simp only [LoadUnit.next, MmioPort.next] at valid request
  cases launch : s.mmio.launch (s.mmioIn i) with
  | some req =>
    obtain rfl : req = .load l := by simpa [launch] using request
    exact (mmioLaunch_stays inv legal launch).2
  | none =>
    have request : s.mmio.request = .load l := by simpa [launch] using request
    simp only [launch, request, MmioReq.isLoad, Option.isSome_none, Bool.false_or, Bool.and_true,
      Bool.and_eq_true, Bool.not_eq_true', Option.isSome_eq_false_iff,
      Option.isNone_iff_eq_none] at valid
    exact (inv.request l valid.1.1 request).calm (flush_mmioIn.mp valid.1.2)

/-- The device answers what was not squashed, unless the answer is dropped. -/
theorem waits_next (inv : s.Sound) (severed : s.Severed i)
    (waits : (s.next i).mmio.waitResp = true) (drop : (s.next i).mmio.reqDrop = false)
    (request : (s.next i).mmio.request = .load l) : s.Stays i l := by
  simp only [LoadUnit.next, MmioPort.next] at waits drop request
  cases launch : s.mmio.launch (s.mmioIn i) with
  | some req => simp [launched_free launch] at waits
  | none =>
    have request : s.mmio.request = .load l := by simpa [launch] using request
    cases valid : s.mmio.reqValid with
    | true =>
      have idle := inv.alone valid
      have ready : (s.mmioIn i).ready = true := by simpa [valid, idle] using waits
      exact ⟨inv.request l valid request,
        severed.request l (MmioPort.accepted_iff.mpr ⟨valid, ready, request⟩)⟩
    | false =>
      simp only [valid, Bool.false_and, Bool.or_false, Bool.and_eq_true,
        Option.isNone_iff_eq_none] at waits
      have silent : s.mmio.answered (s.mmioIn i) = none := by
        simp [MmioPort.answered, waits.2]
      have calm : i.flush = none := by
        by_contra flush
        have flush : (s.mmioIn i).flush ≠ none := mt flush_mmioIn.mp flush
        simp [launch, silent, Option.isSome_iff_ne_none.mpr flush, request, MmioReq.isLoad,
          waits.1] at drop
      have heard : s.mmio.reqDrop = false := by
        simpa [launch, silent, flush_mmioIn.mpr calm] using drop
      exact (inv.waits l waits.1 heard request).calm calm

theorem answer_next (inv : s.Sound) {x : MmioLoad × Word}
    (held : (s.next i).mmio.respHold = some x) : s.Stays i x.1 := by
  simp only [LoadUnit.next, MmioPort.next] at held
  have before (held : (if (s.mmio.wbFire (s.mmioIn i) (s.fwd0.map fun x => (x.load, x.data))).isSome ||
      (s.mmioIn i).flush.isSome then none else s.mmio.respHold) = some x) : s.Stays i x.1 := by
    obtain ⟨stays, held⟩ := Option.ite_none_left_eq_some.mp held
    simp only [Bool.or_eq_true, not_or, Option.not_isSome_iff_eq_none] at stays
    exact (inv.answer x held).calm (flush_mmioIn.mp stays.2)
  split at held
  · rename_i l raw answered
    obtain ⟨waits, -, request⟩ := MmioPort.answered_iff.mp answered
    split at held
    · rename_i new
      simp only [Bool.and_eq_true, Bool.not_eq_true', Option.isNone_iff_eq_none] at new
      cases held
      exact (inv.waits l waits new.1 request).calm (flush_mmioIn.mp new.2)
    · exact before held
  · exact before held

-- ---------------------------------------------------------------------
-- The AMO unit
-- ---------------------------------------------------------------------

theorem amoIssue_atHead (legal : s.Keeps i) {a : AmoInsn} (issue : (s.amoIn i).issue = some a) :
    s.AtHead a.tag ∧ s.amo.store = none := by
  obtain ⟨o, free, amo⟩ := Option.bind_eq_some_iff.mp issue
  obtain ⟨leaves, inside⟩ := Option.filter_eq_some_iff.mp free
  obtain ⟨x, isAmo, rfl⟩ := Option.map_eq_some_iff.mp amo
  obtain ⟨candidate, unsuppressed⟩ := Option.filter_eq_some_iff.mp leaves
  have aligned : o.misaligned = false := by
    simp only [Bool.and_eq_true, Bool.not_eq_true'] at inside
    exact inside.1.1.1
  have head : o.load.robIdx = s.robHead := by
    by_contra other
    simp [suppress0, aligned, isAmo, other] at unsuppressed
  have idle : s.amo.busy = false := by
    by_contra busy
    simp [suppress0, aligned, busy] at unsuppressed
  obtain ⟨m, life, slot, fate⟩ := legal.issues o (.inl candidate)
  refine ⟨.inr ⟨m, life, slot, fate, head⟩, ?_⟩
  simp only [AmoUnit.busy, Bool.or_eq_false_iff, Option.isSome_eq_false_iff,
    Option.isNone_iff_eq_none] at idle
  exact idle.1.2

theorem loadValue_busy {v : Word} (value : s.amo.loadValue (s.amoIn i) = some v) :
    s.amo.waitLoad = true ∨ s.amo.reprobing = true := by
  unfold AmoUnit.loadValue at value
  by_contra idle
  simp only [not_or, Bool.not_eq_true] at idle
  simp [idle] at value

theorem value_atHead (inv : s.Sound) {a : AmoInsn} {v : Word} (current : s.amo.current = some a)
    (value : s.amo.loadValue (s.amoIn i) = some v) : s.AtHead a.tag := by
  apply inv.atomic a current
  rcases loadValue_busy value with waits | again
  · exact .inl waits
  · exact .inr (.inl again)

theorem answered_current : (s.amo.answered (s.amoIn i)).current = s.amo.current := by
  unfold AmoUnit.answered
  dsimp only
  split <;> rfl

/-- The unit is not busier with its atomic than before. -/
theorem answered_atHead (inv : s.Sound) {a : AmoInsn} (current : s.amo.current = some a)
    (busy : (s.amo.answered (s.amoIn i)).waitLoad = true ∨
      (s.amo.answered (s.amoIn i)).reprobing = true ∨
        (s.amo.answered (s.amoIn i)).store.isSome = true) : s.AtHead a.tag := by
  cases value : s.amo.loadValue (s.amoIn i) with
  | some v => exact value_atHead inv current value
  | none =>
    apply inv.atomic a current
    simp only [AmoUnit.answered, value, AmoUnit.drained, AmoUnit.reprobeFire] at busy
    rcases busy with waits | again | store
    · exact .inl waits
    · simp only [Bool.and_eq_true] at again
      exact .inl again.1.2
    · split at store
      · simp at store
      · rw [Option.isSome_map] at store
        exact .inr (.inr store)

/-- The store of the unit may be made: it could be before, or its atomic retires. -/
def Commits (s : LoadUnit) (i : LoadIn) : Prop :=
  ∃ st, s.amo.store = some st ∧
    (st.committed = true ∨ s.amo.storeCommitFire (s.amoIn i) = true)

theorem Commits.retired (commits : s.Commits i) (inv : s.Sound) {a : AmoInsn}
    (current : s.amo.current = some a) : (s.next i).Retired a.tag := by
  obtain ⟨st, store, early | now⟩ := commits
  · exact (inv.committed a st current store early).next
  · have leaves : offset s.robHead a.tag.robIdx < i.commitCount := by
      simp only [AmoUnit.storeCommitFire, amoIn, current, Option.any_some, Bool.and_eq_true,
        decide_eq_true_eq] at now
      exact now.2.2
    exact (inv.atomic a current (.inr (.inr (by rw [store]; rfl)))).retires leaves

theorem commits_of_killed {st : AmoStore}
    (store : (s.amo.killed (s.amoIn i)).store = some st) : s.Commits i := by
  obtain ⟨-, store⟩ := Option.ite_none_left_eq_some.mp store
  split at store
  · rename_i st' held
    obtain ⟨commits, -⟩ := Option.ite_none_right_eq_some.mp store
    exact ⟨st', held, (Bool.or_eq_true_iff.mp commits).symm⟩
  · cases store

theorem commits_of_drained {st : AmoStore}
    (store : (s.amo.drained (s.amoIn i)).store = some st) (committed : st.committed = true) :
    s.Commits i := by
  obtain ⟨-, store⟩ := Option.ite_none_left_eq_some.mp store
  obtain ⟨st', held, rfl⟩ := Option.map_eq_some_iff.mp store
  exact ⟨st', held, Bool.or_eq_true_iff.mp committed⟩

theorem commits_of_answered {st : AmoStore}
    (store : (s.amo.answered (s.amoIn i)).store = some st) (committed : st.committed = true) :
    s.Commits i := by
  unfold AmoUnit.answered at store
  dsimp only at store
  split at store
  · dsimp only at store
    split at store
    · exact commits_of_drained store committed
    · cases store
      cases committed
  · exact commits_of_drained store committed

theorem answered_wb (inv : s.Sound) {x : AmoInsn × Word}
    (wb : (s.amo.answered (s.amoIn i)).wb = some x) : s.AtHead x.1.tag := by
  unfold AmoUnit.answered at wb
  dsimp only at wb
  split at wb
  · rename_i old op value current
    cases wb
    exact value_atHead inv current value
  · exact inv.wb x (Option.ite_none_left_eq_some.mp wb).2

theorem amo_full (full : i.fullFlush = true) :
    (s.next i).amo = s.amo.killed (s.amoIn i) := by
  simp [LoadUnit.next, AmoUnit.next, amoIn, full]

theorem amo_partly (partly : i.fullFlush = false) (unissued : (s.amoIn i).issue = none) :
    (s.next i).amo = s.amo.answered (s.amoIn i) := by
  have partly : (s.amoIn i).fullFlush = false := partly
  simp [LoadUnit.next, AmoUnit.next, partly, unissued]

theorem amo_issue (partly : i.fullFlush = false) {a : AmoInsn}
    (issue : (s.amoIn i).issue = some a) :
    (s.next i).amo.current = some a ∧
      (∀ st, (s.next i).amo.store = some st → st.committed = true →
        (s.amo.answered (s.amoIn i)).store = some st) ∧
      ∀ x, (s.next i).amo.wb = some x →
        x.1 = a ∨ (s.amo.answered (s.amoIn i)).wb = some x := by
  have partly : (s.amoIn i).fullFlush = false := partly
  simp only [LoadUnit.next, AmoUnit.next, partly, issue, Bool.false_eq_true, if_false]
  by_cases sc : a.op = amoSc
  · rw [if_pos sc]
    refine ⟨rfl, ?_, ?_⟩
    · rintro st store committed
      dsimp only at store
      split at store
      · cases store
        cases committed
      · exact store
    · rintro x wb
      cases wb
      exact .inl rfl
  · rw [if_neg sc]
    exact ⟨rfl, fun _ store _ => store, fun _ wb => .inr wb⟩

theorem atomic_next (inv : s.Sound) (legal : s.Keeps i) (severed : s.Severed i) {a : AmoInsn}
    (current : (s.next i).amo.current = some a)
    (busy : (s.next i).amo.waitLoad = true ∨ (s.next i).amo.reprobing = true ∨
      (s.next i).amo.store.isSome = true) : (s.next i).AtHead a.tag := by
  cases full : i.fullFlush with
  | true =>
    rw [amo_full full] at current busy
    rcases busy with waits | again | store
    · cases waits
    · have unasked : (s.amoIn i).reprobe = false := severed.reprobe full
      simp [AmoUnit.killed, AmoUnit.reprobeFire, unasked] at again
    · obtain ⟨st, store⟩ := Option.isSome_iff_exists.mp store
      exact .inl ((commits_of_killed store).retired inv current)
  | false =>
    cases issue : (s.amoIn i).issue with
    | some b =>
      rw [(amo_issue full issue).1] at current
      cases current
      exact (amoIssue_atHead legal issue).1.next legal full
    | none =>
      rw [amo_partly full issue] at current busy
      rw [answered_current] at current
      exact (answered_atHead inv current busy).next legal full

theorem committed_next (inv : s.Sound) (legal : s.Keeps i) {a : AmoInsn} {st : AmoStore}
    (current : (s.next i).amo.current = some a) (store : (s.next i).amo.store = some st)
    (committed : st.committed = true) : (s.next i).Retired a.tag := by
  cases full : i.fullFlush with
  | true =>
    rw [amo_full full] at current store
    exact (commits_of_killed store).retired inv current
  | false =>
    cases issue : (s.amoIn i).issue with
    | some b =>
      -- The unit was idle, so there is no store of an earlier atomic.
      obtain ⟨st', held, -⟩ :=
        commits_of_answered ((amo_issue full issue).2.1 st store committed) committed
      rw [(amoIssue_atHead legal issue).2] at held
      cases held
    | none =>
      rw [amo_partly full issue] at current store
      rw [answered_current] at current
      exact (commits_of_answered store committed).retired inv current

theorem wb_next (inv : s.Sound) (legal : s.Keeps i) {x : AmoInsn × Word}
    (wb : (s.next i).amo.wb = some x) : (s.next i).AtHead x.1.tag := by
  cases full : i.fullFlush with
  | true =>
    rw [amo_full full] at wb
    cases wb
  | false =>
    cases issue : (s.amoIn i).issue with
    | some b =>
      rcases (amo_issue full issue).2.2 x wb with new | before
      · rw [new]
        exact (amoIssue_atHead legal issue).1.next legal full
      · exact (answered_wb inv before).next legal full
    | none =>
      rw [amo_partly full issue] at wb
      exact (answered_wb inv wb).next legal full

-- ---------------------------------------------------------------------
-- Runs
-- ---------------------------------------------------------------------

theorem Sound.next (inv : s.Sound) (legal : s.Keeps i) (severed : s.Severed i) :
    (s.next i).Sound where
  pipe0 _ held := (pipe0_next inv legal held).next legal
  pipe1 _ held := (pipe1_next inv legal held).next legal
  retry0 _ held := (retry0_next inv held).next legal
  retry1 _ held := (retry1_next inv legal held).next legal
  split _ held := (split_next inv legal held).next legal
  hold0 _ held := (hold0_next inv held).next legal
  hold1 _ held := (hold1_next inv held).next legal
  fwd0 _ held := (fwd0_next inv legal held).next legal
  misalign1 _ held := (misalign1_next legal held).next legal
  fwd1 _ held := (fwd1_next inv legal held).next legal
  lmb _ valid := (lmb_next inv valid).next legal
  reprobe _ fires := (reprobe_next inv fires).next legal
  alone valid := alone_next inv valid
  request _ valid request := (request_next inv legal valid request).next legal
  waits _ waits drop request := (waits_next inv severed waits drop request).next legal
  answer _ held := (answer_next inv held).next legal
  atomic _ current busy := atomic_next inv legal severed current busy
  committed _ _ current store committed := committed_next inv legal current store committed
  wb _ held := wb_next inv legal held

theorem lmbWb_live (inv : s.Sound) {x : MmioLoad × Word} (wb : s.lmbWb i = some x) :
    s.Live x.1 := by
  obtain ⟨-, wb⟩ := Option.ite_none_right_eq_some.mp wb
  split at wb
  · rename_i j found
    obtain ⟨f, -, rfl⟩ := Option.map_eq_some_iff.mp wb
    have found := List.find?_some found
    simp only [lmbFillMatch, Bool.and_eq_true] at found
    exact (lmbLive_stays inv found.1.1).live
  · obtain ⟨j, found, rfl⟩ := Option.map_eq_some_iff.mp wb
    have found := List.find?_some found
    simp only [Bool.and_eq_true] at found
    exact (lmbLive_stays inv found.1).live

theorem wbBeforeReprobe_unsquashed (inv : s.Sound) {x : LoadResult}
    (wb : s.wbBeforeReprobe i = some x) : ¬ s.Squashed x.load.seq := by
  rcases Option.or_eq_some_iff.mp wb with hold | ⟨-, wb⟩
  · obtain ⟨y, held, rfl⟩ := Option.map_eq_some_iff.mp hold
    exact (kept_stays inv.hold0 held).live.not_squashed
  rcases Option.or_eq_some_iff.mp wb with amo | ⟨-, wb⟩
  · obtain ⟨y, result, rfl⟩ := Option.map_eq_some_iff.mp amo
    obtain ⟨z, held, rfl⟩ := Option.map_eq_some_iff.mp result
    exact (inv.wb z (Option.filter_eq_some_iff.mp held).1).not_squashed
  rcases Option.or_eq_some_iff.mp wb with hit | ⟨-, wb⟩
  · obtain ⟨y, now, rfl⟩ := Option.map_eq_some_iff.mp hit
    exact (hit0_stays inv now).live.not_squashed
  rcases Option.or_eq_some_iff.mp wb with fwd | ⟨-, wb⟩
  · exact (inv.fwd0 x (Option.filter_eq_some_iff.mp fwd).1).not_squashed
  rcases Option.or_eq_some_iff.mp wb with split | ⟨-, wb⟩
  · obtain ⟨y, fires, rfl⟩ := Option.map_eq_some_iff.mp split
    obtain ⟨-, held⟩ := Option.ite_none_right_eq_some.mp fires
    exact (inv.split y (Option.filter_eq_some_iff.mp held).1).not_squashed
  rcases Option.or_eq_some_iff.mp wb with lmb | ⟨-, mmio⟩
  · obtain ⟨y, entry, rfl⟩ := Option.map_eq_some_iff.mp lmb
    exact (lmbWb_live inv entry).not_squashed
  · obtain ⟨y, result, rfl⟩ := Option.map_eq_some_iff.mp mmio
    obtain ⟨z, fires, rfl⟩ := Option.map_eq_some_iff.mp result
    exact (inv.answer z (MmioPort.wbFire_eq_some fires).1).not_squashed

theorem wb0_unsquashed (inv : s.Sound) {x : LoadResult} (wb : s.wb0 i = some x) :
    ¬ s.Squashed x.load.seq := by
  obtain ⟨-, wb⟩ := Option.ite_none_left_eq_some.mp wb
  rcases Option.or_eq_some_iff.mp wb with before | ⟨-, again⟩
  · exact wbBeforeReprobe_unsquashed inv before
  · obtain ⟨y, answer, rfl⟩ := Option.map_eq_some_iff.mp again
    obtain ⟨j, asked, answer⟩ := Option.bind_eq_some_iff.mp answer
    obtain ⟨data, -, rfl⟩ := Option.map_eq_some_iff.mp answer
    exact (inv.reprobe j asked).not_squashed

theorem wb1_unsquashed (inv : s.Sound) {x : LoadResult} (wb : s.wb1 i = some x) :
    ¬ s.Squashed x.load.seq := by
  obtain ⟨-, wb⟩ := Option.ite_none_left_eq_some.mp wb
  rcases Option.or_eq_some_iff.mp wb with hold | ⟨-, wb⟩
  · obtain ⟨y, held, rfl⟩ := Option.map_eq_some_iff.mp hold
    exact (kept_stays inv.hold1 held).live.not_squashed
  rcases Option.or_eq_some_iff.mp wb with misalign | ⟨-, wb⟩
  · obtain ⟨l, held, rfl⟩ := Option.map_eq_some_iff.mp misalign
    exact (inv.misalign1 l (Option.filter_eq_some_iff.mp held).1).not_squashed
  rcases Option.or_eq_some_iff.mp wb with hit | ⟨-, wb⟩
  · obtain ⟨y, now, rfl⟩ := Option.map_eq_some_iff.mp hit
    exact (hit1_stays inv now).live.not_squashed
  rcases Option.or_eq_some_iff.mp wb with spill | ⟨-, fwd⟩
  · obtain ⟨-, held⟩ := Option.ite_none_right_eq_some.mp spill
    exact (inv.fwd0 x (Option.filter_eq_some_iff.mp held).1).not_squashed
  · obtain ⟨y, held, rfl⟩ := Option.map_eq_some_iff.mp fwd
    exact (kept_stays inv.fwd1 held).live.not_squashed

theorem Sound.writebacks (inv : s.Sound) {x : LoadResult} (on : x ∈ s.writebacks i) :
    ¬ s.Squashed x.load.seq := by
  rcases List.mem_append.mp on with port0 | port1
  · exact wb0_unsquashed inv (Option.mem_toList.mp port0)
  · exact wb1_unsquashed inv (Option.mem_toList.mp port1)

theorem Sound.wakeups (inv : s.Sound) (legal : s.Keeps i) (on : l ∈ s.wakeups i) :
    ¬ s.Squashed l.seq := by
  apply Live.not_squashed
  rcases List.mem_append.mp on with port0 | port1
  · obtain ⟨o, request, rfl⟩ := Option.map_eq_some_iff.mp (Option.mem_toList.mp port0)
    rcases Option.or_eq_some_iff.mp (Option.filter_eq_some_iff.mp request).1 with
      again | ⟨-, new⟩
    · exact (retryFire0_stays inv again).2.live
    · exact (issue0_stays legal (Option.filter_eq_some_iff.mp new).1).2.live
  · obtain ⟨x, exec, rfl⟩ := Option.map_eq_some_iff.mp (Option.mem_toList.mp port1)
    exact (exec1_stays inv legal (Option.filter_eq_some_iff.mp exec).1).live

theorem Sound.stores (inv : s.Sound) {a : AmoInsn} {q : StoreReq}
    (current : s.amo.current = some a) (request : s.amo.storeReq = some q) :
    ¬ s.Squashed a.tag.seq := by
  simp only [AmoUnit.storeReq, current, Option.bind_eq_bind, Option.bind_some,
    Option.bind_eq_some_iff] at request
  obtain ⟨st, store, request⟩ := request
  obtain ⟨committed, -⟩ := Option.ite_none_right_eq_some.mp request
  exact AtHead.not_squashed (.inl (inv.committed a st current store committed))

theorem Sound.silent (inv : s.Sound) (legal : s.Keeps i) : s.Silent i where
  writebacks _ on := inv.writebacks on
  wakeups _ on := inv.wakeups legal on
  stores _ _ current request := inv.stores current request

end LoadUnit

/-- Nothing is heard of a squashed load in a run whose flushes find no request for a load just
taken, by a device or by the data cache again. -/
theorem squashed_loads_silent (s : LoadUnit) (reach : loadRuns.Reach LoadUnit.Severed s)
    (i : LoadIn) (legal : s.Keeps i) : s.Silent i :=
  (reach.invariant LoadUnit.Sound .reset fun _ _ _ inv legal severed =>
    inv.next legal severed).silent legal

-- ---------------------------------------------------------------------
-- A load from a device
-- ---------------------------------------------------------------------

namespace LoadUnit

variable {s : LoadUnit} {i : LoadIn}

/-- What `Keeps` asks, of a cycle without a partial flush. -/
def keepsHere (s : LoadUnit) (i : LoadIn) : Bool :=
  ([i.load0, i.load1].all fun c => c.all fun o => (s.lives o.load.seq).any fun m =>
      m.robIdx == o.load.robIdx && m.fate == .inFlight) &&
    (i.flush.isNone || i.fullFlush)

theorem keeps_of_here (ok : s.keepsHere i = true) : s.Keeps i := by
  simp only [keepsHere, List.all_cons, List.all_nil, Bool.and_true, Bool.and_eq_true,
    Option.all_eq_true, Option.any_eq_true, beq_iff_eq] at ok
  obtain ⟨⟨first, second⟩, flush⟩ := ok
  constructor
  · rintro o (candidate | candidate)
    · exact first o candidate
    · exact second o candidate
  · intro n part
    simp [part, LoadIn.fullFlush] at flush

/-- What `Severed` asks. -/
def severedHere (s : LoadUnit) (i : LoadIn) : Bool :=
  (match s.mmio.accepted (s.mmioIn i) with
    | some (.load l) => s.keeps i l.robIdx
    | _ => true) && (!i.fullFlush || !s.amoReprobeReqFire i)

theorem severed_of_here (ok : s.severedHere i = true) : s.Severed i := by
  obtain ⟨request, reprobe⟩ := (Bool.and_eq_true _ _).mp ok
  constructor
  · intro l accepted
    simpa [accepted] using request
  · intro full
    simpa [full] using reprobe

/-- Every cycle of the list is legal and meets `ok`. -/
def goes (ok : LoadUnit → LoadIn → Bool) (s : LoadUnit) : List LoadIn → Bool
  | [] => true
  | i :: rest => s.keepsHere i && ok s i && goes ok (s.next i) rest

theorem reach_of_goes {P : LoadUnit → LoadIn → Prop} {ok : LoadUnit → LoadIn → Bool}
    (holds : ∀ {s i}, ok s i = true → P s i) {inputs : List LoadIn}
    (before : loadRuns.Reach P s) (run : s.goes ok inputs = true) :
    loadRuns.Reach P (loadRuns.run s inputs) := by
  induction inputs generalizing s with
  | nil => exact before
  | cons i rest ih =>
    simp only [goes, Bool.and_eq_true] at run
    obtain ⟨⟨legal, meets⟩, run⟩ := run
    exact ih (before.cycle (keeps_of_here legal) (holds meets)) run

end LoadUnit

/-- LW of a CLINT register, in the second slot. -/
def timerLoad : LoadOp := ⟨⟨0, 1, 0x0200BFF8, memWord, false⟩, none⟩

def loadIdle : LoadIn where
  flush := none
  commitCount := 0
  loadCommit := false
  load0 := none
  load1 := none
  suppress0 := false
  suppress1 := false
  orderWait0 := false
  orderWait1 := false
  partialWait0 := false
  partialWait1 := false
  fwdHit0 := none
  fwdHit1 := none
  olderStore := false
  csbDeqValid := false
  resp0 := none
  resp1 := none
  missRetry0 := false
  missRetry1 := false
  fill := none
  mmioStore := none
  mmioReady := false
  mmioResp := none
  csbReq := none
  storeAck := false
  enters _ := none

/-- The load takes its slot, issues, and is squashed while its request waits; `ready` says whether
the device takes the request in that cycle. -/
def timerFlushed (ready : Bool) : List LoadIn :=
  [{ loadIdle with enters := fun n => if n = 0 then some 1 else none },
    { loadIdle with load0 := some timerLoad },
    { loadIdle with flush := some .full, mmioReady := ready },
    { loadIdle with mmioResp := some 7 }]

theorem squashed_loads_silent_timer :
    (loadRuns.run .reset (timerFlushed false)).Silent loadIdle ∧
      (loadRuns.run .reset (timerFlushed false)).Squashed 0 :=
  ⟨squashed_loads_silent _
      (LoadUnit.reach_of_goes LoadUnit.severed_of_here .reset (by decide +kernel)) _
      (LoadUnit.keeps_of_here (by decide +kernel)),
    ⟨1, .squashed⟩, by decide +kernel, rfl⟩

/-- A load that was squashed as the device took its request is written back. -/
theorem squashed_load_written_back : ∃ s, loadRuns.Reachable s ∧ s.Keeps loadIdle ∧
    (∃ x ∈ s.writebacks loadIdle, s.Squashed x.load.seq) ∧ ¬ s.Silent loadIdle := by
  have back : (loadRuns.run .reset (timerFlushed true)).writebacks loadIdle =
      [⟨timerLoad.load, 7, false⟩] := by decide +kernel
  have squashed : (loadRuns.run .reset (timerFlushed true)).Squashed 0 :=
    ⟨⟨1, .squashed⟩, by decide +kernel, rfl⟩
  refine ⟨loadRuns.run .reset (timerFlushed true),
    @LoadUnit.reach_of_goes _ _ (fun _ _ => true) (fun _ => trivial) _ .reset (by decide +kernel),
    LoadUnit.keeps_of_here (by decide +kernel), ?_, fun silent => ?_⟩
  · exact ⟨_, by rw [back]; exact List.mem_singleton.mpr rfl, squashed⟩
  · exact silent.writebacks _ (by rw [back]; exact List.mem_singleton.mpr rfl) squashed

end Rv64gc.Lsu
