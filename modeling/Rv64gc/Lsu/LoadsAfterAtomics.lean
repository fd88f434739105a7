import Rv64gc.Lsu.AtomicOrder

/-!
# Loads return what the atomics before them wrote

A load that is younger than an atomic to its bytes leaves the load queue once the update is made, if
the atomic is ready when the load is. From then on neither memory nor a store in front of it has
anything older than the atomic's write for it.
-/

namespace Rv64gc.Lsu

open Hdl Mmu

theorem Span.overlaps_of_covers {x y : Span} (left : x.covers b) (right : y.covers b) :
    x.overlaps y = true := by
  unfold Span.covers at left right
  simp only [Span.overlaps, decide_eq_true_eq]
  omega

namespace OrderRun

variable {s : OrderRun} {i : OrderIn} {n k l a b : Nat}

-- ---------------------------------------------------------------------
-- Lives
-- ---------------------------------------------------------------------

/-- The instruction with this place has retired. -/
def Retired (s : OrderRun) (n : Nat) : Prop :=
  (∃ m, s.lives n = some m ∧ m.fate = .retired) ∨
    ∃ m, s.amo.lives n = some m ∧ m.fate = .retired

/-- An instruction has this place. -/
def Entered (s : OrderRun) (n : Nat) : Prop :=
  (∃ m, s.lives n = some m) ∨ ∃ m, s.amo.lives n = some m

theorem Retired.entered (retired : s.Retired n) : s.Entered n :=
  retired.imp (fun ⟨m, life, _⟩ => ⟨m, life⟩) fun ⟨m, life, _⟩ => ⟨m, life⟩

theorem inFlight_iff : s.inFlight n = true ↔
    (∃ m, s.lives n = some m ∧ m.fate = .inFlight) ∨
      ∃ m, s.amo.lives n = some m ∧ m.fate = .inFlight := by
  simp [inFlight, Option.any_eq_true]

theorem retiresNow_iff : s.retiresNow i n = true ↔
    (∃ m, s.lives n = some m ∧ m.fate = .inFlight ∧ i.retires n = true) ∨
      ∃ m, s.amo.lives n = some m ∧ m.fate = .inFlight ∧ i.amo.retires m.op.tag.robIdx = true := by
  simp [retiresNow, Option.any_eq_true]

theorem waits_iff (amo : AmoRun) (lives : Nat → Option MemLife) : waits amo lives n = true ↔
    (∃ m, amo.lives n = some m ∧ m.fate = .inFlight ∧ m.issued = false) ∨
      ∃ m, lives n = some m ∧ m.fate = .inFlight ∧ m.issued = false ∧ m.isStore = false := by
  simp [waits, Option.any_eq_true, and_assoc]

theorem Fresh.above (fresh : s.Fresh n) (entered : s.Entered k) : k < n := by
  by_contra late
  obtain ⟨mem, amo⟩ := fresh k (by omega)
  rcases entered with ⟨m, life⟩ | ⟨m, life⟩
  · simp [mem] at life
  · simp [amo] at life

theorem next_mem {m' : MemLife} (life : (s.next i).lives n = some m') :
    (∃ m, s.lives n = some m ∧ m' = s.nextLife i n m) ∨
      s.lives n = none ∧ ∃ x, i.enters n = some x ∧ m' = ⟨x.1, x.2, false, none, false, .inFlight⟩ := by
  simp only [next, nextLives] at life
  split at life
  next m before => exact .inl ⟨m, before, (Option.some.inj life).symm⟩
  next before =>
    obtain ⟨x, enters, same⟩ := Option.map_eq_some_iff.mp life
    exact .inr ⟨before, x, enters, same.symm⟩

theorem next_amo {m' : AmoLife} (life : (s.next i).amo.lives n = some m') :
    (∃ m, s.amo.lives n = some m ∧ m' = s.amo.nextLife i.amo m) ∨
      s.amo.lives n = none ∧ ∃ op, i.amo.enters n = some op ∧
        m' = ⟨op, false, false, none, none, [], .inFlight⟩ :=
  AmoRun.next_lives life

theorem mem_ended {m : MemLife} (ended : m.fate ≠ .inFlight) :
    (s.nextLife i n m).fate = m.fate := by
  simp [nextLife, ended]

theorem mem_inFlight {m : MemLife} (inFlight : (s.nextLife i n m).fate = .inFlight) :
    m.fate = .inFlight := by
  by_contra ended
  rw [mem_ended ended] at inFlight
  exact ended inFlight

theorem mem_kept {m : MemLife} (kept : (s.nextLife i n m).fate ≠ .squashed) :
    m.fate ≠ .squashed := by
  intro squashed
  rw [mem_ended (by simp [squashed])] at kept
  exact kept squashed

theorem amo_kept {m : AmoLife} (kept : (s.amo.nextLife i.amo m).fate ≠ .squashed) :
    m.fate ≠ .squashed := by
  intro squashed
  rw [AmoRun.fate_ended (by simp [squashed])] at kept
  exact kept squashed

/-- What is in flight was so before, or takes its place now, behind all others. -/
theorem inFlight_next (legal : s.Keeps i) (inFlight : (s.next i).inFlight n = true) :
    s.inFlight n = true ∨ s.Fresh n := by
  rcases inFlight_iff.mp inFlight with ⟨m', life, inFlight⟩ | ⟨m', life, inFlight⟩
  · rcases next_mem life with ⟨m, before, rfl⟩ | ⟨-, x, enters, -⟩
    · exact .inl (inFlight_iff.mpr (.inl ⟨m, before, mem_inFlight inFlight⟩))
    · exact .inr (legal.enters n (.inl (by simp [enters])))
  · rcases next_amo life with ⟨m, before, rfl⟩ | ⟨-, x, enters, -⟩
    · exact .inl (inFlight_iff.mpr (.inr ⟨m, before, AmoRun.inFlight_of_next inFlight⟩))
    · exact .inr (legal.enters n (.inr (by simp [enters])))

theorem waits_before (legal : s.Keeps i)
    (waiting : waits (s.next i).amo (s.next i).lives n = true) :
    waits s.amo s.lives n = true ∨ s.Fresh n := by
  rcases (waits_iff _ _).mp waiting with ⟨m', life, inFlight, early⟩ | ⟨m', life, inFlight, early, load⟩
  · rcases next_amo life with ⟨m, before, rfl⟩ | ⟨-, x, enters, -⟩
    · simp only [AmoRun.nextLife, Bool.or_eq_false_iff] at early
      exact .inl ((waits_iff _ _).mpr (.inl ⟨m, before, AmoRun.inFlight_of_next inFlight, early.1⟩))
    · exact .inr (legal.enters n (.inr (by simp [enters])))
  · rcases next_mem life with ⟨m, before, rfl⟩ | ⟨-, x, enters, -⟩
    · simp only [nextLife, Bool.or_eq_false_iff] at early load
      exact .inl ((waits_iff _ _).mpr (.inr ⟨m, before, mem_inFlight inFlight, early.1, load⟩))
    · exact .inr (legal.enters n (.inl (by simp [enters])))

theorem entered_of_waits (waiting : waits s.amo s.lives n = true) : s.Entered n :=
  ((waits_iff _ _).mp waiting).symm.imp (fun ⟨m, life, _⟩ => ⟨m, life⟩) fun ⟨m, life, _⟩ => ⟨m, life⟩

/-- An instruction retires in this cycle or has done so before. -/
theorem retired_next (retired : (s.next i).Retired n) : s.Retired n ∨ s.retiresNow i n = true := by
  rcases retired with ⟨m', life, retired⟩ | ⟨m', life, retired⟩
  · rcases next_mem life with ⟨m, before, rfl⟩ | ⟨-, x, -, rfl⟩
    · by_cases inFlight : m.fate = .inFlight
      · refine .inr (retiresNow_iff.mpr (.inl ⟨m, before, inFlight, ?_⟩))
        by_contra stays
        simp only [nextLife, if_pos inFlight, stays, if_false] at retired
        split at retired <;> cases retired
      · rw [mem_ended inFlight] at retired
        exact .inl (.inl ⟨m, before, retired⟩)
    · cases retired
  · rcases next_amo life with ⟨m, before, rfl⟩ | ⟨-, x, -, rfl⟩
    · by_cases inFlight : m.fate = .inFlight
      · refine .inr (retiresNow_iff.mpr (.inr ⟨m, before, inFlight, ?_⟩))
        by_contra stays
        simp only [AmoRun.nextLife, if_pos inFlight, stays, if_false] at retired
        split at retired <;> cases retired
      · rw [AmoRun.fate_ended inFlight] at retired
        exact .inl (.inr ⟨m, before, retired⟩)
    · cases retired

theorem Retired.next (retired : s.Retired n) : (s.next i).Retired n := by
  rcases retired with ⟨m, life, retired⟩ | ⟨m, life, retired⟩
  · refine .inl ⟨s.nextLife i n m, by simp [OrderRun.next, nextLives, life], ?_⟩
    rw [mem_ended (by simp [retired]), retired]
  · refine .inr ⟨s.amo.nextLife i.amo m, AmoRun.lives_next life, ?_⟩
    rw [AmoRun.fate_ended (by simp [retired]), retired]

-- ---------------------------------------------------------------------
-- The load queue
-- ---------------------------------------------------------------------

theorem select0_le (selected : s.select0 i = some k) (on : a ∈ s.queue) (ready : i.ready a = true) :
    k ≤ a :=
  (List.min?_eq_some_iff.mp selected).2 a (List.mem_filter.mpr ⟨on, ready⟩)

theorem select0_isSome (on : a ∈ s.queue) (ready : i.ready a = true) :
    ∃ k, s.select0 i = some k := by
  cases selected : s.select0 i with
  | some k => exact ⟨k, rfl⟩
  | none =>
    have empty := List.min?_eq_none_iff.mp selected
    have here := List.mem_filter.mpr ⟨on, ready⟩
    rw [empty] at here
    cases here

theorem select1_le (selected : s.select1 i = some k) (on : a ∈ s.queue) (ready : i.ready a = true)
    (other : s.select0 i ≠ some a) : k ≤ a :=
  (List.min?_eq_some_iff.mp selected).2 a
    (List.mem_filter.mpr ⟨List.mem_filter.mpr ⟨on, ready⟩, by simpa using other⟩)

theorem select_mem (issues : s.issues i l = true) : l ∈ s.queue := by
  simp only [OrderRun.issues, Bool.and_eq_true, Bool.or_eq_true, beq_iff_eq] at issues
  rcases issues.2 with ⟨selected, -⟩ | ⟨⟨selected, -⟩, -⟩
  · exact (List.mem_filter.mp (List.min?_eq_some_iff.mp selected).1).1
  · exact (List.mem_filter.mp (List.mem_filter.mp (List.min?_eq_some_iff.mp selected).1).1).1

/-- A load that leaves the queue leaves no ready atomic in front of it. -/
theorem not_ready_before (issues : s.issues i l = true) (on : a ∈ s.queue)
    (atomic : (s.amo.lives a).isSome = true) (before : a < l) : i.ready a = false := by
  by_contra ready
  rw [Bool.not_eq_false] at ready
  obtain ⟨k, selected⟩ := select0_isSome on ready
  have first := select0_le selected on ready
  simp only [OrderRun.issues, Bool.and_eq_true, Bool.or_eq_true, beq_iff_eq, selected] at issues
  rcases issues.2 with ⟨same, -⟩ | ⟨⟨second, unblocked⟩, -⟩
  · cases same
    omega
  · by_cases same : k = a
    · simp [isAtomic, same, atomic] at unblocked
    · have after := select1_le second on ready (by simp [selected, same])
      omega

theorem issues_idle (issues : s.issues i l = true) : s.amo.unit.busy = false := by
  simp only [OrderRun.issues, Bool.and_eq_true, Bool.not_eq_true'] at issues
  exact issues.1.1

/-- An atomic issues as the oldest instruction, and the stores to its bytes have left. -/
theorem issueAtomic_gates {op : AmoInsn} (issue : s.issueAtomic i = some op) :
    ∃ n m, s.select0 i = some n ∧ s.amo.lives n = some m ∧ m.op = op ∧
      (∀ k, k < n → s.inFlight k = false) ∧
      ∀ k st b, k < n → s.lives k = some st → st.isStore = true → st.fate ≠ .squashed →
        st.span.covers b → op.span.covers b → st.gone = true := by
  simp only [issueAtomic, Option.bind_eq_bind, Option.bind_eq_some_iff] at issue
  obtain ⟨n, selected, m, life, issue⟩ := issue
  split at issue
  next gates =>
    cases issue
    simp only [Bool.and_eq_true, oldest, List.all_eq_true, List.mem_range, Bool.not_eq_true',
      storeBlocks, List.any_eq_false] at gates
    obtain ⟨⟨⟨-, oldest⟩, stores⟩, -⟩ := gates
    refine ⟨n, m, selected, life, rfl, oldest, ?_⟩
    intro k st b before store isStore kept covers covers'
    have unblocked := stores k before
    by_contra stays
    simp [store, isStore, kept, stays, Span.overlaps_of_covers covers covers'] at unblocked
  next => cases issue

-- ---------------------------------------------------------------------
-- The invariant
-- ---------------------------------------------------------------------

/-- The load and the atomic are about a common byte. -/
def Meets (m : MemLife) (am : AmoLife) : Prop :=
  am.op.op ≠ amoLr ∧ ∃ b, m.span.covers b ∧ am.op.span.covers b

/-- The update is made, if there is one. -/
def Done (am : AmoLife) : Prop := am.issued = true ∧ (am.writes → am.updates ≠ [])

structure InOrder (s : OrderRun) : Prop where
  amo : s.amo.Sound
  apart : ∀ n m, s.lives n = some m → s.amo.lives n = none
  retired : ∀ n k, s.Retired n → s.inFlight k = true → n < k
  queued : ∀ l, l ∈ s.queue → waits s.amo s.lives l = true
  first : ∀ l, l ∈ s.queue → ∀ k, k < l → waits s.amo s.lives k = true → k ∈ s.queue
  oldest : ∀ a am, s.amo.lives a = some am → am.issued = true → ∀ j, j < a → s.inFlight j = false
  current : ∀ a am, s.amo.lives a = some am → am.issued = true →
    ∃ c, s.amo.unit.current = some c ∧ a ≤ c.tag.seq
  holds : ∀ a am, s.amo.lives a = some am → am.issued = true → am.fate = .inFlight → am.writes →
    (s.amo.unit.waitLoad = true ∨ s.amo.unit.store.isSome = true) ∧
      s.amo.unit.current = some am.op
  stores : ∀ a am k st b, s.amo.lives a = some am → am.issued = true → s.lives k = some st →
    k < a → st.isStore = true → st.fate ≠ .squashed → st.span.covers b → am.op.span.covers b →
    st.gone = true
  loads : ∀ l m a am, s.lives l = some m → m.isStore = false → m.issued = true →
    s.amo.lives a = some am → am.fate ≠ .squashed → a < l → Meets m am → Done am
  memory : ∀ b k, s.memory b = some k → s.Retired k ∧ s.Wrote k b
  written : ∀ a am b, s.amo.lives a = some am → am.updates ≠ [] → am.op.span.covers b →
    ∃ k, s.memory b = some k ∧ a ≤ k
  read : ∀ l m, s.lives l = some m → m.read.isSome = true → m.issued = true
  reads : s.ReadsAfterAtomics

theorem InOrder.reset : orderRuns.reset.InOrder := by
  constructor
  case amo => exact AmoRun.Sound.reset
  case retired => simp [orderRuns, Retired]
  all_goals simp [orderRuns, ReadsAfterAtomics]

variable {m : MemLife} {am : AmoLife}

theorem apart_next (inv : s.InOrder) (legal : s.Keeps i) (life : (s.next i).lives n = some m) :
    (s.next i).amo.lives n = none := by
  rcases next_mem life with ⟨m, before, -⟩ | ⟨-, x, enters, -⟩
  · -- It has its place, so no atomic takes that.
    cases life' : (s.next i).amo.lives n with
    | none => rfl
    | some am =>
      rcases next_amo life' with ⟨am, other, -⟩ | ⟨-, op, enters, -⟩
      · simp [inv.apart n m before] at other
      · have fresh := legal.enters n (.inr (by simp [enters]))
        have above := fresh.above (.inl ⟨m, before⟩)
        omega
  · have fresh := legal.enters n (.inl (by simp [enters]))
    have others := legal.apart n (by simp [enters])
    show (s.amo.next i.amo).lives n = none
    simp [AmoRun.next, (fresh n (Nat.le_refl n)).2, others]

theorem not_inFlight_of_retired (inv : s.InOrder) (retired : s.Retired n) :
    s.inFlight n = false := by
  by_contra inFlight
  have before := inv.retired n n retired (by simpa using inFlight)
  omega

theorem not_inFlight_of_retires (inv : s.InOrder) (legal : s.Keeps i)
    (retires : s.retiresNow i n = true) : (s.next i).inFlight n = false := by
  by_contra inFlight
  rw [Bool.not_eq_false, inFlight_iff] at inFlight
  rcases retiresNow_iff.mp retires with ⟨m, before, flying, now⟩ | ⟨m, before, flying, now⟩
  · rcases inFlight with ⟨m', life, inFlight⟩ | ⟨m', life, -⟩
    · simp only [OrderRun.next, nextLives, before, Option.some.injEq] at life
      subst life
      simp [nextLife, flying, now] at inFlight
    · have none_ := apart_next inv legal (m := s.nextLife i n m) (n := n)
        (by simp [OrderRun.next, nextLives, before])
      rw [none_] at life
      cases life
  · rcases inFlight with ⟨m', life, -⟩ | ⟨m', life, inFlight⟩
    · have none_ := apart_next inv legal life
      have after : (s.next i).amo.lives n = some (s.amo.nextLife i.amo m) := AmoRun.lives_next before
      rw [none_] at after
      cases after
    · have after : (s.next i).amo.lives n = some (s.amo.nextLife i.amo m) := AmoRun.lives_next before
      rw [life] at after
      cases after
      rw [AmoRun.fate_retires flying now] at inFlight
      cases inFlight

theorem retired_before (inv : s.InOrder) (legal : s.Keeps i) (retired : (s.next i).Retired n)
    (inFlight : (s.next i).inFlight k = true) : n < k := by
  have entered : s.Entered n := by
    rcases retired_next retired with before | now
    · exact before.entered
    · exact (retiresNow_iff.mp now).imp (fun ⟨m, life, _⟩ => ⟨m, life⟩) fun ⟨m, life, _⟩ => ⟨m, life⟩
  rcases inFlight_next legal inFlight with flying | fresh
  · rcases retired_next retired with before | now
    · exact inv.retired n k before flying
    · by_contra late
      -- Retirement is in order, so the older one retires as well.
      have retires : s.retiresNow i k = true := by
        rcases Nat.lt_or_eq_of_le (Nat.le_of_not_lt late) with older | same
        · exact legal.order n k now older flying
        · rw [same]
          exact now
      rw [not_inFlight_of_retires inv legal retires] at inFlight
      cases inFlight
  · exact fresh.above entered

theorem first_next (inv : s.InOrder) (legal : s.Keeps i) (on : l ∈ (s.next i).queue)
    (before : k < l) (waiting : waits (s.next i).amo (s.next i).lives k = true) :
    k ∈ (s.next i).queue := by
  obtain ⟨source, -⟩ := List.mem_filter.mp on
  refine List.mem_filter.mpr ⟨?_, waiting⟩
  have older (entered : s.Entered l) : waits s.amo s.lives k = true := by
    rcases waits_before legal waiting with waited | fresh
    · exact waited
    · have above := fresh.above entered
      omega
  rcases List.mem_append.mp source with here | comes
  · have waited := older (entered_of_waits (inv.queued l here))
    exact List.mem_append_left _ (inv.first l here k before waited)
  · obtain ⟨waits_, fifo⟩ := legal.enq l comes
    exact List.mem_append.mpr (fifo k before (older (entered_of_waits waits_)))

-- ---------------------------------------------------------------------
-- The atomics
-- ---------------------------------------------------------------------

/-- An atomic that issues in this cycle. -/
theorem issued_now (inv : s.InOrder) (legal : s.Keeps i)
    (issues : AmoRun.issues i.amo am.op.tag.seq = true) (life : s.amo.lives a = some am) :
    i.amo.unit.issue = some am.op ∧ am.fate = .inFlight ∧ am.issued = false ∧
      s.amo.unit.busy = false ∧ (∀ j, j < a → s.inFlight j = false) ∧
      ∀ k st b, k < a → s.lives k = some st → st.isStore = true → st.fate ≠ .squashed →
        st.span.covers b → am.op.span.covers b → st.gone = true := by
  simp only [AmoRun.issues, Option.any_eq_true, beq_iff_eq] at issues
  obtain ⟨op, issue, seq⟩ := issues
  rw [inv.amo.seqs a am life] at seq
  obtain ⟨idle, -, -, -, m, found, same, inFlight, early⟩ := legal.amo.issues op issue
  rw [seq, life] at found
  cases found
  obtain ⟨n, m, -, place, same', oldest, stores⟩ := issueAtomic_gates (legal.issue ▸ issue)
  have here : n = a := by
    rw [← inv.amo.seqs n m place, same', seq]
  subst here
  rw [same]
  exact ⟨issue, inFlight, early, idle, oldest, stores⟩

/-- An issued atomic issues now or has issued before; what it stands for does not change then. -/
theorem issued_cases (issued : (s.amo.nextLife i.amo am).issued = true) :
    AmoRun.issues i.amo am.op.tag.seq = true ∨
      am.issued = true ∧ ((s.amo.nextLife i.amo am).writes ↔ am.writes) := by
  cases issues : AmoRun.issues i.amo am.op.tag.seq with
  | true => exact .inl rfl
  | false =>
    simp only [AmoRun.nextLife, issues, Bool.or_false] at issued
    exact .inr ⟨issued, by simp [AmoLife.writes, AmoRun.nextLife, issues]⟩

theorem oldest_next (inv : s.InOrder) (legal : s.Keeps i)
    (life : (s.next i).amo.lives a = some am) (issued : am.issued = true) (before : n < a) :
    (s.next i).inFlight n = false := by
  rcases next_amo life with ⟨am, place, rfl⟩ | ⟨-, op, -, rfl⟩
  · by_contra inFlight
    rw [Bool.not_eq_false] at inFlight
    rcases inFlight_next legal inFlight with flying | fresh
    · have landed : s.inFlight n = false := by
        rcases issued_cases issued with now | ⟨issued, -⟩
        · exact (issued_now inv legal now place).2.2.2.2.1 n before
        · exact inv.oldest a am place issued n before
      rw [landed] at flying
      cases flying
    · have above := fresh.above (.inr ⟨am, place⟩)
      omega
  · cases issued

theorem current_next (inv : s.InOrder) (legal : s.Keeps i)
    (life : (s.next i).amo.lives a = some am) (issued : am.issued = true) :
    ∃ c, (s.next i).amo.unit.current = some c ∧ a ≤ c.tag.seq := by
  rcases next_amo life with ⟨am, place, rfl⟩ | ⟨-, op, -, rfl⟩
  · cases issue : i.amo.unit.issue with
    | some op =>
      obtain ⟨m, found, same, inFlight, early, -, -, -, -, -, current, -⟩ :=
        AmoRun.unit_issued legal.amo issue
      refine ⟨op, current, ?_⟩
      have flying : s.inFlight op.tag.seq = true :=
        inFlight_iff.mpr (.inr ⟨m, found, inFlight⟩)
      rcases issued_cases issued with now | ⟨issued, -⟩
      · have theirs := (issued_now inv legal now place).1
        rw [issue, Option.some.injEq] at theirs
        rw [theirs, inv.amo.seqs a am place]
      · -- Nothing in flight is older than an atomic that has issued.
        by_contra later
        have landed := inv.oldest a am place issued op.tag.seq (by omega)
        rw [flying] at landed
        cases landed
    | none =>
      have same : (s.next i).amo.unit.current = s.amo.unit.current := AmoRun.current_next issue
      rw [same]
      rcases issued_cases issued with now | ⟨issued, -⟩
      · have theirs := (issued_now inv legal now place).1
        rw [issue] at theirs
        cases theirs
      · exact inv.current a am place issued
  · cases issued

/-- An atomic that is about to write stays in the unit until its store has left. -/
theorem holds_next (inv : s.InOrder) (legal : s.Keeps i)
    (life : (s.next i).amo.lives a = some am) (issued : am.issued = true)
    (inFlight : am.fate = .inFlight) (writes : am.writes) :
    ((s.next i).amo.unit.waitLoad = true ∨ (s.next i).amo.unit.store.isSome = true) ∧
      (s.next i).amo.unit.current = some am.op := by
  rcases next_amo life with ⟨am, place, rfl⟩ | ⟨-, op, -, rfl⟩
  · have before := AmoRun.inFlight_of_next inFlight
    rcases issued_cases issued with now | ⟨issued, stays⟩
    · have issue := (issued_now inv legal now place).1
      obtain ⟨m, found, same, -, -, -, -, -, -, -, current, -, waits_, -, store⟩ :=
        AmoRun.unit_issued legal.amo issue
      refine ⟨?_, current⟩
      by_cases sc : am.op.op = amoSc
      · have reserved := writes.2 sc
        simp only [AmoRun.nextLife, now, if_true] at reserved
        refine .inr ?_
        show (s.amo.next i.amo).unit.store.isSome = true
        simp [store, sc, reserved]
      · refine .inl ?_
        show (s.amo.next i.amo).unit.waitLoad = true
        rw [waits_]
        exact decide_eq_true sc
    · obtain ⟨busy, current⟩ := inv.holds a am place issued before (stays.mp writes)
      have issue : i.amo.unit.issue = none := by
        refine AmoRun.not_issues_busy legal.amo ?_
        rcases busy with waiting | store
        · simp [AmoUnit.busy, waiting]
        · simp [AmoUnit.busy, store]
      have same : (s.next i).amo.unit.current = s.amo.unit.current := AmoRun.current_next issue
      refine ⟨?_, by rw [same, current]; rfl⟩
      have flush : i.amo.unit.fullFlush = false := by
        by_contra flush
        have squashed := legal.amo.squashes.1 (by simpa using flush) am.op.tag.robIdx
        simp only [AmoRun.nextLife, before, if_true, squashed] at inFlight
        split at inFlight <;> cases inFlight
      cases value : s.amo.unit.loadValue i.amo.unit with
      | some v =>
        obtain ⟨op, m, under, -, -, -, -, -, -, -, -, store⟩ :=
          AmoRun.unit_answered inv.amo legal.amo flush value
        have mine : op = am.op := by
          rw [under.current, Option.some.injEq] at current
          exact current
        refine .inr ?_
        show (s.amo.next i.amo).unit.store.isSome = true
        rw [store, mine, if_neg (show am.op.op ≠ amoLr from writes.1)]
        rfl
      | none =>
        have drained : (s.next i).amo.unit = s.amo.unit.drained i.amo.unit :=
          AmoRun.unit_drained flush issue value
        rcases busy with waiting | store
        · exact .inl (by rw [drained]; exact waiting)
        · obtain ⟨st, store⟩ := Option.isSome_iff_exists.mp store
          obtain ⟨b, m, under, -, fate⟩ := inv.amo.stores st store
          -- The store has not retired yet, so nothing is acknowledged for it.
          have early : st.committed = false := by
            by_contra committed
            have same : b = am.op := by
              have at_ := under.current
              rw [current, Option.some.injEq] at at_
              exact at_.symm
            have here := under.life
            rw [same, inv.amo.seqs a am place, place, Option.some.injEq] at here
            rw [← here, before] at fate
            simp [committed] at fate
          have unacked := AmoRun.ackFire_uncommitted (i := i.amo) store early
          refine .inr ?_
          rw [drained]
          simp [AmoUnit.drained, unacked, store]
  · cases issued

theorem stores_next (inv : s.InOrder) (legal : s.Keeps i)
    (life : (s.next i).amo.lives a = some am) (issued : am.issued = true)
    (store : (s.next i).lives k = some m) (before : k < a) (isStore : m.isStore = true)
    (kept : m.fate ≠ .squashed) (covers : m.span.covers b) (covers' : am.op.span.covers b) :
    m.gone = true := by
  rcases next_amo life with ⟨am, place, rfl⟩ | ⟨-, op, -, rfl⟩
  · rcases next_mem store with ⟨m, there, rfl⟩ | ⟨-, x, enters, -⟩
    · have gone : m.gone = true := by
        rcases issued_cases issued with now | ⟨issued, -⟩
        · exact (issued_now inv legal now place).2.2.2.2.2 k m b before there isStore
            (mem_kept kept) covers covers'
        · exact inv.stores a am k m b place issued there before isStore (mem_kept kept) covers covers'
      simp [nextLife, gone]
    · have fresh := legal.enters k (.inl (by simp [enters]))
      have above := fresh.above (.inr ⟨am, place⟩)
      omega
  · cases issued

-- ---------------------------------------------------------------------
-- Memory
-- ---------------------------------------------------------------------

theorem issued_of_rd (inv : s.InOrder) (life : s.amo.lives a = some am) (rd : am.rd.isSome = true) :
    am.issued = true := by
  by_contra early
  have none_ := inv.amo.unissued a am life (by simpa using early)
  simp [none_] at rd

theorem issued_of_updates (inv : s.InOrder) (life : s.amo.lives a = some am)
    (updates : am.updates ≠ []) : am.issued = true := by
  by_cases retired : am.fate = .retired
  · exact issued_of_rd inv life (inv.amo.retired a am life retired).1
  · exact absurd (inv.amo.otherwise a am life retired) updates

/-- The data cache takes the store of the atomic in the unit, which has retired. -/
theorem updates_retired (inv : s.InOrder) (update : s.updates i = some n) :
    ∃ c am q, s.amo.unit.current = some c ∧ c.tag.seq = n ∧ s.amo.lives n = some am ∧
      am.fate = .retired ∧ s.amo.taken i.amo am.op.tag.seq = some q := by
  unfold updates at update
  split at update
  next k q lookup =>
    split at update
    next ack =>
      cases update
      obtain ⟨c, current, seq, request⟩ := inv.amo.ours n q lookup
      obtain ⟨c', st, current', store, committed, -⟩ := AmoRun.storeReq_eq_some request
      obtain ⟨c'', am, under, -, fate⟩ := inv.amo.stores st store
      rw [current] at current'
      cases current'
      have same := under.current
      rw [current] at same
      cases same
      rw [committed, if_pos rfl] at fate
      refine ⟨c, am, q, current, seq, seq ▸ under.life, fate, ?_⟩
      simp [AmoRun.taken, lookup, ack, under.op, seq]
    next => cases update
  next => cases update

theorem updates_of_taken {q : StoreReq} (taken : s.amo.taken i.amo n = some q) :
    s.updates i = some n := by
  rcases lookup : s.amo.lookup with _ | ⟨_ | k, q'⟩
  · simp [AmoRun.taken, lookup] at taken
  · simp [AmoRun.taken, lookup] at taken
  · simp only [AmoRun.taken, lookup] at taken
    split at taken
    next ack =>
      simp only [Bool.and_eq_true, beq_iff_eq] at ack
      simp [updates, lookup, ack.1, ack.2]
    next => cases taken

theorem Wrote.next (wrote : s.Wrote k b)
    (kept : ∀ m, s.lives k = some m → m.fate = .inFlight → i.retires k = false →
      i.squashes k = false) : (s.next i).Wrote k b := by
  rcases wrote with ⟨m, life, isStore, fate, covers⟩ | ⟨m, life, retired, updates, covers⟩
  · refine .inl ⟨s.nextLife i k m, by simp [OrderRun.next, nextLives, life], isStore, ?_, covers⟩
    by_cases inFlight : m.fate = .inFlight
    · cases retires : i.retires k with
      | true => simp [nextLife, inFlight, retires]
      | false => simp [nextLife, inFlight, retires, kept m life inFlight retires]
    · rw [mem_ended inFlight]
      exact fate
  · refine .inr ⟨s.amo.nextLife i.amo m, AmoRun.lives_next life, ?_, ?_, covers⟩
    · rw [AmoRun.fate_ended (by simp [retired]), retired]
    · simp [AmoRun.nextLife, updates]

theorem wrote_of_retired (inv : s.InOrder) (retired : s.Retired k) (wrote : s.Wrote k b) :
    (s.next i).Wrote k b := by
  refine wrote.next fun m life inFlight _ => ?_
  have landed := not_inFlight_of_retired inv retired
  rw [inFlight_iff.mpr (.inl ⟨m, life, inFlight⟩)] at landed
  cases landed

/-- What a younger load has read is not taken back without the load. -/
theorem wrote_of_kept (inv : s.InOrder) (legal : s.Keeps i) (wrote : s.Wrote k b) (before : k < l)
    (life : s.lives l = some m) (kept : (s.nextLife i l m).fate ≠ .squashed) :
    (s.next i).Wrote k b := by
  refine wrote.next fun st store inFlight stays => ?_
  have flying : s.inFlight k = true := inFlight_iff.mpr (.inl ⟨st, store, inFlight⟩)
  by_contra squashes
  have younger := legal.flush.1 k l before (by simpa using squashes)
  cases fate : m.fate with
  | squashed => exact mem_kept kept fate
  | retired =>
    have after := inv.retired l k (.inl ⟨m, life, fate⟩) flying
    omega
  | inFlight =>
    cases retires : i.retires l with
    | false => simp [nextLife, fate, retires, younger] at kept
    | true =>
      have now := retiresNow_iff.mpr (.inl ⟨m, life, fate, retires⟩)
      rcases retiresNow_iff.mp (legal.order l k now before flying) with
        ⟨st', store', -, retires'⟩ | ⟨am, other, -⟩
      · rw [stays] at retires'
        cases retires'
      · rw [inv.apart k st store] at other
        cases other

theorem memory_next (inv : s.InOrder) (legal : s.Keeps i) (byte : (s.next i).memory b = some k) :
    (s.next i).Retired k ∧ (s.next i).Wrote k b := by
  simp only [OrderRun.next, nextMemory] at byte
  split at byte
  next new =>
    obtain ⟨c, am, q, -, -, place, retired, taken⟩ := updates_retired inv byte
    simp only [byte, Option.any_some, place, decide_eq_true_eq] at new
    have ended : s.Retired k := .inr ⟨am, place, retired⟩
    refine ⟨ended.next, .inr ⟨s.amo.nextLife i.amo am, AmoRun.lives_next place, ?_, ?_, new⟩⟩
    · rw [AmoRun.fate_ended (by simp [retired]), retired]
    · simp [AmoRun.nextLife, taken]
  next =>
    split at byte
    next new =>
      obtain ⟨-, m, life, isStore, retired, -⟩ := legal.drain k byte
      simp only [byte, Option.any_some, life, decide_eq_true_eq] at new
      have ended : s.Retired k := .inl ⟨m, life, retired⟩
      have wrote : s.Wrote k b := .inl ⟨m, life, isStore, by simp [retired], new⟩
      exact ⟨ended.next, wrote_of_retired inv ended wrote⟩
    next =>
      obtain ⟨retired, wrote⟩ := inv.memory b k byte
      exact ⟨retired.next, wrote_of_retired inv retired wrote⟩

theorem written_next (inv : s.InOrder) (legal : s.Keeps i)
    (life : (s.next i).amo.lives a = some am) (updates : am.updates ≠ [])
    (covers : am.op.span.covers b) : ∃ k, (s.next i).memory b = some k ∧ a ≤ k := by
  rcases next_amo life with ⟨am, place, rfl⟩ | ⟨-, op, -, rfl⟩
  · have covers : am.op.span.covers b := covers
    simp only [OrderRun.next, nextMemory]
    cases taken : s.amo.taken i.amo am.op.tag.seq with
    | some q =>
      have update := updates_of_taken taken
      rw [inv.amo.seqs a am place] at update
      exact ⟨a, by simp [update, place, covers], Nat.le_refl a⟩
    | none =>
      have updates : am.updates ≠ [] := by simpa [AmoRun.nextLife, taken] using updates
      have issued := issued_of_updates inv place updates
      split
      next new =>
        obtain ⟨n, update, -⟩ := (Option.any_eq_true _ _).mp new
        obtain ⟨c, -, -, current, seq, -⟩ := updates_retired inv update
        obtain ⟨c', current', le⟩ := inv.current a am place issued
        rw [current, Option.some.injEq] at current'
        exact ⟨n, update, by rw [← seq, current']; exact le⟩
      next =>
        split
        next new =>
          obtain ⟨n, drain, there⟩ := (Option.any_eq_true _ _).mp new
          obtain ⟨-, st, store, isStore, retired, stays⟩ := legal.drain n drain
          refine ⟨n, drain, ?_⟩
          by_contra before
          simp only [store, Option.any_some, decide_eq_true_eq] at there
          have gone := inv.stores a am n st b place issued store (by omega) isStore
            (by simp [retired]) there covers
          rw [stays] at gone
          cases gone
        next => exact inv.written a am b place updates covers
  · exact absurd rfl updates

-- ---------------------------------------------------------------------
-- The loads
-- ---------------------------------------------------------------------

theorem want_of_returned {v : Word} (result : am.result = some v) (writes : am.writes) :
    am.want.isSome = true := by
  unfold AmoLife.want
  rw [if_neg writes.1]
  split
  next sc =>
    rw [writes.2 sc]
    rfl
  next notSc =>
    rw [AmoLife.result, if_neg notSc] at result
    obtain ⟨bytes, read, -⟩ := Option.map_eq_some_iff.mp result
    rw [read]
    rfl

/-- With the unit idle, the update of an atomic that has issued is made. -/
theorem done_of_idle (inv : s.InOrder) (life : s.amo.lives a = some am)
    (kept : am.fate ≠ .squashed) (issued : am.issued = true) (idle : s.amo.unit.busy = false) :
    Done am := by
  refine ⟨issued, fun writes none_ => ?_⟩
  simp only [AmoUnit.busy, Bool.or_eq_false_iff] at idle
  obtain ⟨⟨waiting, store⟩, -⟩ := idle
  cases fate : am.fate with
  | squashed => exact kept fate
  | inFlight =>
    rcases (inv.holds a am life issued fate writes).1 with busy | busy
    · simp [waiting] at busy
    · simp [store] at busy
  | retired =>
    obtain ⟨rd, updates⟩ := inv.amo.retired a am life fate
    obtain ⟨v, rd⟩ := Option.isSome_iff_exists.mp rd
    have want := want_of_returned (inv.amo.returned a am v life rd) writes
    obtain ⟨q, want⟩ := Option.isSome_iff_exists.mp want
    rcases updates with made | ⟨-, -, request, -⟩
    · simp [none_, want] at made
    · rw [want] at request
      obtain ⟨-, st, -, held, -⟩ := AmoRun.storeReq_eq_some request
      simp [held] at store

theorem Done.next (done : Done am) (inv : s.InOrder) (legal : s.Keeps i)
    (life : s.amo.lives a = some am) :
    Done (s.amo.nextLife i.amo am) ∧ ((s.amo.nextLife i.amo am).writes ↔ am.writes) := by
  have issued : (s.amo.nextLife i.amo am).issued = true := by
    simp [AmoRun.nextLife, done.1]
  rcases issued_cases issued with now | ⟨-, same⟩
  · have early := (issued_now inv legal now life).2.2.1
    rw [done.1] at early
    cases early
  · refine ⟨⟨issued, fun writes => ?_⟩, same⟩
    have updates := done.2 (same.mp writes)
    simp [AmoRun.nextLife, updates]

/-- A load leaves the queue after the atomics to its bytes. -/
theorem done_of_issues (inv : s.InOrder) (ready : s.AtomicsReady i) (issues : s.issues i l = true)
    (load : s.lives l = some m) (life : s.amo.lives a = some am) (kept : am.fate ≠ .squashed)
    (before : a < l) (meets : Meets m am) : Done am := by
  obtain ⟨notLr, b, covers, covers'⟩ := meets
  have on := select_mem issues
  have away : a ∉ s.queue := by
    intro there
    have early := not_ready_before issues there (by simp [life]) before
    rw [ready l m a am b issues load there life before notLr covers covers'] at early
    cases early
  have issued : am.issued = true := by
    cases fate : am.fate with
    | squashed => exact absurd fate kept
    | retired => exact issued_of_rd inv life (inv.amo.retired a am life fate).1
    | inFlight =>
      by_contra early
      have waiting := (waits_iff s.amo s.lives).mpr
        (.inl ⟨am, life, fate, by simpa using early⟩)
      exact away (inv.first l on a before waiting)
  exact done_of_idle inv life kept issued (issues_idle issues)

/-- The older of two instructions was there before, if the younger one was. -/
theorem amo_before (legal : s.Keeps i) (life : (s.next i).amo.lives a = some am) (before : a < l)
    (entered : s.Entered l) : ∃ old, s.amo.lives a = some old ∧ am = s.amo.nextLife i.amo old := by
  rcases next_amo life with was | ⟨-, op, enters, -⟩
  · exact was
  · have fresh := legal.enters a (.inr (by simp [enters]))
    have above := fresh.above entered
    omega

theorem loads_next (inv : s.InOrder) (legal : s.Keeps i) (calm : s.Ordered i)
    (load : (s.next i).lives l = some m) (isLoad : m.isStore = false) (issued : m.issued = true)
    (life : (s.next i).amo.lives a = some am) (kept : am.fate ≠ .squashed) (before : a < l)
    (meets : Meets m am) : Done am := by
  rcases next_mem load with ⟨m, was, rfl⟩ | ⟨-, x, -, rfl⟩
  · obtain ⟨am, place, rfl⟩ := amo_before legal life before (.inl ⟨m, was⟩)
    have meets : Meets m am := meets
    have done : Done am := by
      simp only [nextLife, Bool.or_eq_true] at issued
      rcases issued with issued | issues
      · exact inv.loads l m a am was isLoad issued place (amo_kept kept) before meets
      · exact done_of_issues inv calm.ready issues was place (amo_kept kept) before meets
    exact (done.next inv legal place).1
  · cases issued

theorem read_next (inv : s.InOrder) (legal : s.Keeps i) (load : (s.next i).lives l = some m)
    (read : m.read.isSome = true) : m.issued = true := by
  rcases next_mem load with ⟨m, was, rfl⟩ | ⟨-, x, -, rfl⟩
  · have issued : m.issued = true := by
      simp only [nextLife, Option.isSome_or, Bool.or_eq_true] at read
      rcases read with read | read
      · exact inv.read l m was read
      · obtain ⟨src, reads⟩ := Option.isSome_iff_exists.mp read
        obtain ⟨m', there, -, issued, -⟩ := legal.reads l src reads
        rw [was] at there
        cases there
        exact issued
    simp [nextLife, issued]
  · cases read

theorem reads_next (inv : s.InOrder) (legal : s.Keeps i) : (s.next i).ReadsAfterAtomics := by
  intro l m src a am b load isLoad read kept life keptA before writes covers covers'
  rcases next_mem load with ⟨m, was, rfl⟩ | ⟨-, x, -, rfl⟩
  · obtain ⟨am, place, rfl⟩ := amo_before legal life before (.inl ⟨m, was⟩)
    have meets : Meets m am := ⟨writes.1, b, covers, covers'⟩
    have done (issued : m.issued = true) : Done am :=
      inv.loads l m a am was isLoad issued place (amo_kept keptA) before meets
    -- It is enough to name the source now: it is not taken back before the load.
    suffices now : ∃ k, src b = some k ∧ a ≤ k ∧ k < l ∧ s.Wrote k b by
      obtain ⟨k, source, after, younger, wrote⟩ := now
      exact ⟨k, source, after, younger, wrote_of_kept inv legal wrote younger was kept⟩
    rcases Option.or_eq_some_iff.mp read with old | ⟨-, new⟩
    · -- It has read before, when the atomic had issued already.
      have issued := done (inv.read l m was (by simp [old]))
      have wrote := (issued.next inv legal place).2.mp writes
      exact inv.reads l m src a am b was isLoad old (mem_kept kept) place (amo_kept keptA) before
        wrote covers covers'
    · obtain ⟨m', there, -, issued, inFlight, source⟩ := legal.reads l src new
      rw [was] at there
      cases there
      have made := done issued
      have updates := made.2 ((made.next inv legal place).2.mp writes)
      rcases source b covers with cache | ⟨k, st, forwarded, older, store, isStore, keptS, stays, on⟩
      · obtain ⟨k, byte, le⟩ := inv.written a am b place updates covers'
        obtain ⟨retired, wrote⟩ := inv.memory b k byte
        have flying : s.inFlight l = true := inFlight_iff.mpr (.inl ⟨m, was, inFlight⟩)
        exact ⟨k, cache.trans byte, le, inv.retired k l retired flying, wrote⟩
      · refine ⟨k, forwarded, ?_, older, .inl ⟨st, store, isStore, keptS, on⟩⟩
        by_contra early
        have gone := inv.stores a am k st b place made.1 store (by omega) isStore keptS on covers'
        rw [stays] at gone
        cases gone
  · cases read

theorem InOrder.next (inv : s.InOrder) (legal : s.Keeps i) (calm : s.Ordered i) :
    (s.next i).InOrder where
  amo := inv.amo.next legal.amo calm.asked
  apart _ _ := apart_next inv legal
  retired _ _ := retired_before inv legal
  queued _ on := (List.mem_filter.mp on).2
  first _ on _ := first_next inv legal on
  oldest _ _ life issued _ := oldest_next inv legal life issued
  current _ _ := current_next inv legal
  holds _ _ := holds_next inv legal
  stores _ _ _ _ _ life issued := stores_next inv legal life issued
  loads _ _ _ _ := loads_next inv legal calm
  memory _ _ := memory_next inv legal
  written _ _ _ := written_next inv legal
  read _ _ := read_next inv legal
  reads := reads_next inv legal

end OrderRun

/-- In a run in which no load leaves the queue before the older AMOs and SCs to its bytes are ready,
every load returns, in each byte, the write of the last of them or of a store in between. -/
theorem loads_after_atomics (s : OrderRun) (reach : orderRuns.Reach OrderRun.Ordered s) :
    s.ReadsAfterAtomics :=
  (reach.invariant OrderRun.InOrder .reset fun _ _ _ inv legal calm => inv.next legal calm).reads

-- ---------------------------------------------------------------------
-- Runs of an atomic and a load
-- ---------------------------------------------------------------------

namespace OrderRun

variable {s : OrderRun} {i : OrderIn}

/-- The first instruction of the program is an atomic, the second a load; there are no others. -/
structure Pair (s : OrderRun) : Prop where
  lone : s.amo.Lone
  first : s.lives 0 = none
  others : ∀ n, s.lives (n + 2) = none

/-- A cycle without other instructions and without a flush. -/
structure Quiet (i : OrderIn) : Prop where
  plain : AmoRun.Plain i.amo
  first : i.enters 0 = none
  others : ∀ n, i.enters (n + 2) = none
  reads : ∀ n, n ≠ 1 → i.reads n = none
  drain : i.drain = none
  squashes : ∀ n, i.squashes n = false
  flush : i.amo.unit.fullFlush = false

/-- What `Keeps` asks of a quiet cycle when there are only the two. -/
def pairKeeps (s : OrderRun) (i : OrderIn) : Bool :=
  s.amo.loneKeeps i.amo && i.amo.unit.issue == s.issueAtomic i &&
    ((i.enters 1).isNone && (i.amo.enters 0).isNone || (s.lives 1).isNone && (s.amo.lives 0).isNone) &&
    (!s.retiresNow i 1 || !s.inFlight 0 || s.retiresNow i 0) &&
    (i.enq.all fun n => waits s.amo s.lives n && (List.range n).all fun k =>
      !waits s.amo s.lives k || s.queue.contains k || i.enq.contains k) &&
    ((i.reads 1).all fun src => (s.lives 1).any fun m => !m.isStore && m.issued &&
      m.fate == .inFlight && (List.range m.span.size).all fun d =>
        src (m.span.first + d) == s.memory (m.span.first + d))

/-- No atomic is in the queue without its operands when a younger load leaves it. -/
def pairOrdered (s : OrderRun) (i : OrderIn) : Bool :=
  decide (s.amo.Asked i.amo) && s.queue.all fun l => !s.issues i l || s.queue.all fun a =>
    !decide (a < l) || i.ready a

theorem Pair.keeps (pair : s.Pair) (quiet : Quiet i) (ok : s.pairKeeps i = true) : s.Keeps i := by
  simp only [pairKeeps, Bool.and_eq_true, beq_iff_eq] at ok
  obtain ⟨⟨⟨⟨⟨amo, issue⟩, enters⟩, order⟩, enq⟩, reads⟩ := ok
  have flying {n} (inFlight : s.inFlight n = true) : n = 0 ∨ n = 1 := by
    match n with
    | 0 => exact .inl rfl
    | 1 => exact .inr rfl
    | n + 2 => simp [OrderRun.inFlight, pair.others n, pair.lone (n + 1)] at inFlight
  have retiring {n} (retires : s.retiresNow i n = true) : n = 0 ∨ n = 1 := by
    match n with
    | 0 => exact .inl rfl
    | 1 => exact .inr rfl
    | n + 2 => simp [OrderRun.retiresNow, pair.others n, pair.lone (n + 1)] at retires
  have empty (none_ : (s.lives 1).isNone = true ∧ (s.amo.lives 0).isNone = true) (n : Nat) :
      s.Fresh n := by
    intro k _
    match k with
    | 0 => exact ⟨pair.first, by simpa using none_.2⟩
    | 1 => exact ⟨by simpa using none_.1, pair.lone 0⟩
    | k + 2 => exact ⟨pair.others k, pair.lone (k + 1)⟩
  constructor
  case amo => exact pair.lone.keeps quiet.plain amo
  case issue => exact issue
  case enters =>
    intro n takes
    rcases Bool.or_eq_true _ _ ▸ enters with idle | none_
    · simp only [Bool.and_eq_true, Option.isNone_iff_eq_none] at idle
      match n with
      | 0 => simp [quiet.first, idle.2] at takes
      | 1 => simp [idle.1, quiet.plain.enters 0] at takes
      | n + 2 => simp [quiet.others n, quiet.plain.enters (n + 1)] at takes
    · exact empty (by simpa using none_) n
  case apart =>
    intro n takes
    match n with
    | 0 => simp [quiet.first] at takes
    | 1 => exact quiet.plain.enters 0
    | n + 2 => exact quiet.plain.enters (n + 1)
  case order =>
    intro n k retires before inFlight
    rcases retiring retires with rfl | rfl
    · omega
    · rcases flying inFlight with rfl | rfl
      · simpa [retires, inFlight] using order
      · omega
  case flush =>
    refine ⟨fun k n _ back => ?_, fun n m _ _ => ?_⟩
    · rw [quiet.squashes k] at back
      cases back
    · rw [quiet.plain.squashes, quiet.squashes, quiet.flush]
  case enq =>
    intro n comes
    have ok := List.all_eq_true.mp enq n comes
    simp only [Bool.and_eq_true, List.all_eq_true, List.mem_range, Bool.or_eq_true,
      Bool.not_eq_true', List.contains_iff_mem] at ok
    refine ⟨ok.1, fun k before waiting => ?_⟩
    rcases ok.2 k before with (idle | here) | comes'
    · rw [waiting] at idle
      cases idle
    · exact .inl here
    · exact .inr comes'
  case reads =>
    intro n src read
    by_cases one : n = 1
    · subst one
      simp only [read, Option.all_some, Option.any_eq_true, Bool.and_eq_true, Bool.not_eq_true',
        beq_iff_eq, List.all_eq_true, List.mem_range] at reads
      obtain ⟨m, life, ⟨⟨isLoad, issued⟩, inFlight⟩, bytes⟩ := reads
      refine ⟨m, life, isLoad, issued, inFlight, fun b covers => .inl ?_⟩
      have byte := bytes (b - m.span.first) (by unfold Span.covers at covers; omega)
      rwa [Nat.add_sub_cancel' covers.1] at byte
    · rw [quiet.reads n one] at read
      cases read
  case drain =>
    intro n drains
    rw [quiet.drain] at drains
    cases drains

theorem Pair.next (pair : s.Pair) (quiet : Quiet i) : (s.next i).Pair where
  lone := pair.lone.next quiet.plain
  first := by simp [OrderRun.next, nextLives, pair.first, quiet.first]
  others n := by simp [OrderRun.next, nextLives, pair.others n, quiet.others n]

theorem ordered_of_pair (ok : s.pairOrdered i = true) : s.Ordered i := by
  simp only [pairOrdered, Bool.and_eq_true, decide_eq_true_eq, List.all_eq_true, Bool.or_eq_true,
    Bool.not_eq_true'] at ok
  refine ⟨ok.1, fun l m a am b issues _ there _ before _ _ _ => ?_⟩
  rcases ok.2 l (select_mem issues) with stays | ready
  · rw [issues] at stays
    cases stays
  · simpa [before] using ready a there

/-- Every cycle of the list is legal and meets `ok`. -/
def pairRun (ok : OrderRun → OrderIn → Bool) (s : OrderRun) : List OrderIn → Bool
  | [] => true
  | i :: rest => s.pairKeeps i && ok s i && pairRun ok (s.next i) rest

theorem Pair.reach {P : OrderRun → OrderIn → Prop} (ok : OrderRun → OrderIn → Bool)
    (holds : ∀ {s i}, ok s i = true → P s i) (pair : s.Pair) (before : orderRuns.Reach P s)
    {inputs : List OrderIn} (quiet : ∀ i ∈ inputs, Quiet i)
    (legal : pairRun ok s inputs = true) : orderRuns.Reach P (orderRuns.run s inputs) := by
  induction inputs generalizing s with
  | nil => exact before
  | cons i rest ih =>
    simp only [pairRun, Bool.and_eq_true] at legal
    obtain ⟨⟨keeps, meets⟩, legal⟩ := legal
    have now := quiet i (List.mem_cons_self ..)
    exact ih (pair.next now) (before.cycle (pair.keeps now keeps) (holds meets))
      (fun i on => quiet i (List.mem_cons_of_mem _ on)) legal

end OrderRun

/-- LW from the word that `addOne` updates. -/
def wordLoad : Span := ⟨0x80001000, 4⟩

def orderIdle (amo : AmoRunIn) : OrderIn where
  amo := amo
  ready _ := false
  suppress0 := false
  suppress1 := false
  enq := []
  reads _ := none
  drain := none
  leaves _ := false
  retires _ := false
  squashes _ := false
  enters _ := none

def pairEnters : OrderIn :=
  { orderIdle addEnters with enters := fun n => if n = 1 then some (false, wordLoad) else none }

def pairQueued : OrderIn := { orderIdle addIdle with enq := [0, 1] }

def loadReady : OrderIn := { orderIdle addIdle with ready := fun n => n == 1 }

/-- The load gets its bytes. -/
def loadReads (src : Option Nat) : OrderIn :=
  { orderIdle addIdle with reads := fun n => if n = 1 then some fun _ => src else none }

def loadRetires : OrderIn := { orderIdle addIdle with retires := fun n => n == 1 }

/-- From the issue of the atomic until the data cache has its store. -/
def addRuns : List OrderIn :=
  [{ orderIdle addIssues with ready := fun n => n == 0 },
    orderIdle { addIdle with unit := { addIdle.unit with answer := some 41 } },
    orderIdle { addIdle with unit := { addIdle.unit with wbLeaves := true }, wbDrains := true },
    orderIdle addRetires, orderIdle addIdle, orderIdle addAcked]

/-- The load waits for the atomic. -/
def loadFollows : List OrderIn :=
  [pairEnters, pairQueued] ++ addRuns ++ [loadReady, loadReads (some 0), loadRetires]

/-- The load has its operands before the atomic. -/
def loadOvertakes : List OrderIn :=
  [pairEnters, pairQueued, loadReady, loadReads none] ++ addRuns ++ [loadRetires]

theorem quiet_cycles : ∀ i ∈ loadFollows ++ loadOvertakes, OrderRun.Quiet i := by
  intro i on
  simp only [loadFollows, loadOvertakes, addRuns, List.cons_append, List.nil_append, List.mem_cons,
    List.not_mem_nil, or_false] at on
  rcases on with h | h | h | h | h | h | h | h | h | h | h | h | h | h | h | h | h | h | h | h | h | h <;>
    subst h <;>
    refine ⟨⟨fun _ => rfl, fun _ => rfl, rfl, rfl⟩, rfl, fun _ => rfl, fun n other => ?_, rfl,
      fun _ => rfl, rfl⟩ <;>
    first | rfl | exact if_neg other

theorem pair_reset : orderRuns.reset.Pair := ⟨fun _ => rfl, rfl, fun _ => rfl⟩

theorem loads_after_atomics_follows : ∃ s : OrderRun, s.ReadsAfterAtomics ∧
    (s.lives 1).map MemLife.fate = some .retired ∧
      ((s.lives 1).bind MemLife.read).map (· 0x80001000) = some (some 0) := by
  refine ⟨orderRuns.run orderRuns.reset loadFollows, loads_after_atomics _ ?_, by decide +kernel,
    by decide +kernel⟩
  exact OrderRun.Pair.reach OrderRun.pairOrdered OrderRun.ordered_of_pair pair_reset .reset
    (fun i on => quiet_cycles i (List.mem_append_left _ on)) (by decide +kernel)

/-- A load whose operands are ready before those of the atomic returns what was there before it. -/
theorem load_overtakes_atomic : ∃ s : OrderRun, orderRuns.Reachable s ∧ ¬ s.ReadsAfterAtomics := by
  refine ⟨orderRuns.run orderRuns.reset loadOvertakes, ?_, fun ordered => ?_⟩
  · exact OrderRun.Pair.reach (fun _ _ => true) (fun _ => trivial) pair_reset .reset
      (fun i on => quiet_cycles i (List.mem_append_right _ on)) (by decide +kernel)
  · have load : ((orderRuns.run orderRuns.reset loadOvertakes).lives 1).map (fun m =>
        (m.isStore, m.fate, m.span, m.read.map (· 0x80001000))) =
          some (false, .retired, wordLoad, some none) := by decide +kernel
    have atomic : ((orderRuns.run orderRuns.reset loadOvertakes).amo.lives 0).map (fun m =>
        (m.op, m.fate)) = some (addOne, .retired) := by decide +kernel
    obtain ⟨m, life, here⟩ := Option.map_eq_some_iff.mp load
    obtain ⟨am, place, there⟩ := Option.map_eq_some_iff.mp atomic
    simp only [Prod.mk.injEq, Option.map_eq_some_iff] at here there
    obtain ⟨isLoad, fate, span, src, read, source⟩ := here
    obtain ⟨op, fateA⟩ := there
    have writes : am.writes := by
      rw [AmoLife.writes, op]
      exact ⟨by decide, fun sc => absurd sc (by decide)⟩
    obtain ⟨k, writer, -⟩ := ordered 1 m src 0 am 0x80001000 life isLoad read (by simp [fate]) place
      (by simp [fateA]) (by decide) writes (by rw [span]; decide) (by rw [op]; decide)
    rw [source] at writer
    cases writer

end Rv64gc.Lsu
