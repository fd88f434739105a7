import Rv64gc.Lsu.AmoRuns

/-!
# One update for each atomic

An atomic reads when it is the oldest instruction, and its store waits until it retires. Memory is
updated once for each that retires and for no other, unless the answer to a re-probe comes to an
atomic that no longer waits for it.
-/

namespace Rv64gc.Lsu

open Hdl Mmu

-- ---------------------------------------------------------------------
-- The operations
-- ---------------------------------------------------------------------

theorem ofInt_min (a b : BitVec w) :
    BitVec.ofInt w (min a.toInt b.toInt) = if a.slt b then a else b := by
  by_cases less : a.toInt < b.toInt
  · simp [BitVec.slt, less, Int.min_eq_left (Int.le_of_lt less)]
  · simp [BitVec.slt, less, Int.min_eq_right (Int.not_lt.mp less)]

theorem ofInt_max (a b : BitVec w) :
    BitVec.ofInt w (max a.toInt b.toInt) = if b.slt a then a else b := by
  by_cases less : b.toInt < a.toInt
  · simp [BitVec.slt, less, Int.max_eq_left (Int.le_of_lt less)]
  · simp [BitVec.slt, less, Int.max_eq_right (Int.not_lt.mp less)]

theorem ofNat_min (a b : BitVec w) :
    BitVec.ofNat w (min a.toNat b.toNat) = if a < b then a else b := by
  by_cases less : a.toNat < b.toNat
  · simp [BitVec.lt_def, less, Nat.min_eq_left (Nat.le_of_lt less)]
  · simp [BitVec.lt_def, less, Nat.min_eq_right (Nat.not_lt.mp less)]

theorem ofNat_max (a b : BitVec w) :
    BitVec.ofNat w (max a.toNat b.toNat) = if b < a then a else b := by
  by_cases less : b.toNat < a.toNat
  · simp [BitVec.lt_def, less, Nat.max_eq_left (Nat.le_of_lt less)]
  · simp [BitVec.lt_def, less, Nat.max_eq_right (Nat.not_lt.mp less)]

/-- The unit computes the operations of the manual. -/
theorem amoNew_eq (op : BitVec 5) (old rs2 : BitVec w) :
    amoNew op old rs2 = atomicOp op old rs2 := by
  unfold amoNew atomicOp
  rw [ofInt_min, ofInt_max, ofNat_min, ofNat_max]
  have sum : old + rs2 = BitVec.ofNat w (old.toNat + rs2.toNat) := by
    simp [BitVec.ofNat_add]
  rw [sum]

theorem setWidth_extracted (a : AmoOp Tag) (bytes : Word) :
    (a.extracted bytes).setWidth 32 = bytes.setWidth 32 := by
  unfold AmoOp.extracted
  split
  · apply BitVec.eq_of_getLsbD_eq
    intro i low
    simp [BitVec.getLsbD_signExtend, low]
    omega
  · rfl

/-- The store after an answered read is the update with the new value. -/
theorem storeData_eq (a : AmoOp Tag) (bytes : Word) :
    (⟨a.addr, amoStoreData a.size a.op (a.extracted bytes) a.rs2, amoStoreMask a.size⟩ : StoreReq) =
      a.update (atomicOp a.op (bytes.setWidth 32) (a.rs2.setWidth 32))
        (atomicOp a.op bytes a.rs2) := by
  unfold AmoOp.update amoStoreData amoStoreMask
  rw [setWidth_extracted, amoNew_eq, amoNew_eq]
  by_cases word : a.size = memWord
  · simp [word]
  · have dword : a.size ≠ 2#2 := word
    simp [dword, AmoOp.extracted]

theorem scData_eq (a : AmoOp Tag) :
    (⟨a.addr, scStoreData a.size a.rs2, amoStoreMask a.size⟩ : StoreReq) =
      a.update (a.rs2.setWidth 32) a.rs2 := by
  unfold AmoOp.update scStoreData amoStoreMask
  split <;> rfl

-- ---------------------------------------------------------------------
-- The invariant
-- ---------------------------------------------------------------------

namespace AmoRun

variable {s : AmoRun} {i : AmoRunIn} {a : AmoInsn} {m : AmoLife} {n : Nat}

/-- The atomic the unit works on. -/
structure Under (s : AmoRun) (a : AmoInsn) (m : AmoLife) : Prop where
  current : s.unit.current = some a
  life : s.lives a.tag.seq = some m
  op : m.op = a
  issued : m.issued = true
  updates : m.updates = []

/-- The request for an atomic that has retired is on the store port. -/
def Pending (s : AmoRun) (m : AmoLife) : Prop :=
  m.updates = [] ∧ m.want.isSome = true ∧ s.unit.storeReq = m.want ∧ s.unit.current = some m.op

structure Sound (s : AmoRun) : Prop where
  seqs : ∀ n m, s.lives n = some m → m.op.tag.seq = n
  slots : ∀ n m k m', s.lives n = some m → s.lives k = some m' → m.fate = .inFlight →
    m'.fate = .inFlight → m.op.tag.robIdx = m'.op.tag.robIdx → n = k
  asked : s.unit.reprobing = true → s.unit.waitLoad = true
  waits : s.unit.waitLoad = true → s.unit.store = none ∧ s.unit.wb = none ∧
    ∃ a m, s.Under a m ∧ m.fate = .inFlight ∧ m.rd = none ∧ a.op ≠ amoSc
  stores : ∀ st, s.unit.store = some st → ∃ a m, s.Under a m ∧
    m.want = some ⟨a.addr, st.data, st.mask⟩ ∧
    m.fate = if st.committed then .retired else .inFlight
  wb : ∀ a v, s.unit.wb = some (a, v) → ∃ m, s.Under a m ∧ m.fate = .inFlight ∧ m.rd = none ∧
    m.result = some v ∧ (m.want.isSome = true → s.unit.store.isSome = true)
  unissued : ∀ n m, s.lives n = some m → m.issued = false → m.rd = none
  returned : ∀ n m v, s.lives n = some m → m.rd = some v → m.result = some v
  ready : ∀ n m, s.lives n = some m → m.fate = .inFlight → m.rd.isSome = true →
    m.want.isSome = true → s.unit.store.isSome = true ∧ s.unit.current = some m.op
  retired : ∀ n m, s.lives n = some m → m.fate = .retired →
    m.rd.isSome = true ∧ (m.updates = m.want.toList ∨ s.Pending m)
  otherwise : ∀ n m, s.lives n = some m → m.fate ≠ .retired → m.updates = []
  ours : ∀ n q, s.lookup = some (some n, q) →
    ∃ a, s.unit.current = some a ∧ a.tag.seq = n ∧ s.unit.storeReq = some q
  theirs : ∀ a st q, s.lookup = some (none, q) → s.unit.current = some a →
    s.unit.store = some st → st.committed = true → q.addr ≠ a.addr

theorem Sound.updatesOnce (inv : s.Sound) : s.UpdatesOnce where
  retired n m life fate := by
    obtain ⟨rd, updates⟩ := inv.retired n m life fate
    obtain ⟨v, rd⟩ := Option.isSome_iff_exists.mp rd
    have result := inv.returned n m v life rd
    exact ⟨by simp [result], by rw [rd, result], updates⟩
  otherwise := inv.otherwise

theorem Sound.reset : amoRuns.reset.Sound := by
  constructor <;> simp [amoRuns, AmoUnit.reset]

-- ---------------------------------------------------------------------
-- Events of a cycle
-- ---------------------------------------------------------------------

theorem storeReq_eq_some {q : StoreReq} (request : s.unit.storeReq = some q) :
    ∃ a st, s.unit.current = some a ∧ s.unit.store = some st ∧ st.committed = true ∧
      q = ⟨a.addr, st.data, st.mask⟩ := by
  simp only [AmoUnit.storeReq, Option.bind_eq_bind, Option.bind_eq_some_iff] at request
  obtain ⟨a, current, st, store, request⟩ := request
  split at request
  next committed => exact ⟨a, st, current, store, committed, (Option.some.inj request).symm⟩
  next => cases request

theorem storeReq_of (current : s.unit.current = some a) (store : s.unit.store = some st)
    (committed : st.committed = true) :
    s.unit.storeReq = some ⟨a.addr, st.data, st.mask⟩ := by
  simp [AmoUnit.storeReq, current, store, committed]

theorem Under.unique {b : AmoInsn} {m' : AmoLife} (under : s.Under a m) (other : s.Under b m') :
    a = b ∧ m = m' := by
  have same := Option.some.inj (under.current.symm.trans other.current)
  subst same
  exact ⟨rfl, Option.some.inj (under.life.symm.trans other.life)⟩

/-- A store that has not retired is on no port. -/
theorem uncommitted (inv : s.Sound) (store : s.unit.store = some st) (under : s.Under a m)
    (inFlight : m.fate = .inFlight) : st.committed = false := by
  obtain ⟨b, m', under', -, fate⟩ := inv.stores st store
  obtain ⟨-, rfl⟩ := under.unique under'
  by_contra committed
  rw [inFlight, if_pos (by simpa using committed)] at fate
  cases fate

theorem storeReq_none (store : s.unit.store = some st) (early : st.committed = false) :
    s.unit.storeReq = none := by
  cases request : s.unit.storeReq with
  | none => rfl
  | some q =>
    obtain ⟨-, st', -, store', committed, -⟩ := storeReq_eq_some request
    cases store.symm.trans store'
    rw [early] at committed
    cases committed

/-- A read is answered only while it waits. -/
theorem waits_of_value (inv : s.Sound) (value : s.unit.loadValue i.unit = some v) :
    s.unit.waitLoad = true := by
  unfold AmoUnit.loadValue at value
  cases reprobing : s.unit.reprobing with
  | true => exact inv.asked reprobing
  | false =>
    cases wait : s.unit.waitLoad with
    | true => rfl
    | false => simp [reprobing, wait] at value

theorem answers_waits (inv : s.Sound) (answers : s.answers i n = true) :
    s.unit.waitLoad = true ∧ ∃ a, s.unit.current = some a ∧ a.tag.seq = n := by
  simp only [AmoRun.answers, Bool.and_eq_true, Option.any_eq_true, beq_iff_eq,
    Option.isSome_iff_exists] at answers
  obtain ⟨⟨-, v, value⟩, a, current, same⟩ := answers
  exact ⟨waits_of_value inv value, a, current, same⟩

theorem issues_life (legal : s.Keeps i) (life : s.lives n = some m)
    (issues : issues i n = true) : s.unit.busy = false ∧ m.fate = .inFlight ∧ m.issued = false := by
  simp only [AmoRun.issues, Option.any_eq_true, beq_iff_eq] at issues
  obtain ⟨a, issue, rfl⟩ := issues
  obtain ⟨idle, -, -, -, m', life', -, inFlight, unissued⟩ := legal.issues a issue
  cases life.symm.trans life'
  exact ⟨idle, inFlight, unissued⟩

/-- The data cache takes for an atomic only the request on the port. -/
theorem taken_request (inv : s.Sound) (taken : s.taken i n = some q) :
    i.unit.storeAck = true ∧ s.unit.storeReq = some q ∧
      ∃ a, s.unit.current = some a ∧ a.tag.seq = n := by
  unfold AmoRun.taken at taken
  split at taken
  next k q' lookup =>
    split at taken
    next now =>
      simp only [Bool.and_eq_true, beq_iff_eq] at now
      obtain ⟨ack, rfl⟩ := now
      cases taken
      obtain ⟨a, current, same, request⟩ := inv.ours _ _ lookup
      exact ⟨ack, request, a, current, same⟩
    next => cases taken
  next => cases taken

/-- An acknowledged request of the unit was its own. -/
theorem taken_of_ack (inv : s.Sound) (legal : s.Keeps i) (ack : i.unit.storeAck = true)
    (request : s.unit.storeReq = some q) (current : s.unit.current = some a) :
    s.taken i a.tag.seq = some q := by
  obtain ⟨o, q', lookup, presented⟩ := legal.acks ack
  have same : q' = q := by
    simp only [AmoUnit.dcacheStoreReq, request, Option.some_or] at presented
    exact (Option.some.inj presented).symm
  subst same
  cases o with
  | some k =>
    obtain ⟨b, current', rfl, -⟩ := inv.ours k _ lookup
    cases current.symm.trans current'
    simp [AmoRun.taken, lookup, ack]
  | none =>
    obtain ⟨b, st, current', store, committed, shape⟩ := storeReq_eq_some request
    cases current.symm.trans current'
    have apart := inv.theirs a st _ lookup current store committed
    rw [shape] at apart
    exact absurd rfl apart

/-- What is taken is the update of an atomic that has retired. -/
theorem taken_retired (inv : s.Sound) (life : s.lives n = some m)
    (taken : s.taken i m.op.tag.seq = some q) :
    m.fate = .retired ∧ m.updates = [] ∧ m.want = some q := by
  obtain ⟨-, request, a, current, same⟩ := taken_request inv taken
  obtain ⟨b, st, current', store, committed, rfl⟩ := storeReq_eq_some request
  cases current.symm.trans current'
  obtain ⟨b, m', under, want, fate⟩ := inv.stores st store
  cases current.symm.trans under.current
  have here := under.life
  rw [same, inv.seqs n m life, life] at here
  cases here
  exact ⟨by rw [fate, if_pos committed], under.updates, want⟩

theorem taken_none (inv : s.Sound) (life : s.lives n = some m)
    (early : m.fate ≠ .retired) : s.taken i m.op.tag.seq = none := by
  cases taken : s.taken i m.op.tag.seq with
  | none => rfl
  | some q => exact absurd (taken_retired inv life taken).1 early

theorem writeback_under (inv : s.Sound) (life : s.lives n = some m)
    (inFlight : m.fate = .inFlight) (back : s.writeback i m.op.tag.robIdx = some v) :
    i.wbDrains = true ∧ s.unit.wb = some (m.op, v) ∧ s.Under m.op m ∧ m.result = some v ∧
      (m.want.isSome = true → s.unit.store.isSome = true) := by
  unfold AmoRun.writeback at back
  split at back
  next drains =>
    simp only [Option.map_eq_some_iff, Option.filter_eq_some_iff, beq_iff_eq] at back
    obtain ⟨⟨a, v'⟩, ⟨wb, slot⟩, rfl⟩ := back
    obtain ⟨m', under, inFlight', -, result, stored⟩ := inv.wb a v' wb
    have at_ := inv.slots n m a.tag.seq m' life under.life inFlight inFlight'
      (by rw [under.op]; exact slot.symm)
    rw [at_, under.life] at life
    cases life
    have op := under.op
    subst op
    exact ⟨drains, wb, under, result, stored⟩
  next => cases back

-- ---------------------------------------------------------------------
-- The lives
-- ---------------------------------------------------------------------

theorem lives_next (life : s.lives n = some m) : (s.next i).lives n = some (s.nextLife i m) := by
  simp [next, life]

theorem next_lives {m' : AmoLife} (life : (s.next i).lives n = some m') :
    (∃ m, s.lives n = some m ∧ m' = s.nextLife i m) ∨
      s.lives n = none ∧ ∃ a, i.enters n = some a ∧
        m' = ⟨a, false, false, none, none, [], .inFlight⟩ := by
  unfold next at life
  simp only at life
  split at life
  · rename_i m before
    exact .inl ⟨m, before, (Option.some.inj life).symm⟩
  · rename_i before
    obtain ⟨a, enters, same⟩ := Option.map_eq_some_iff.mp life
    exact .inr ⟨before, a, enters, same.symm⟩

/-- What an atomic asks for is settled when it issues and when its read is answered. -/
theorem want_next (unissued : issues i m.op.tag.seq = false)
    (unanswered : s.answers i m.op.tag.seq = false) :
    (s.nextLife i m).want = m.want ∧ (s.nextLife i m).result = m.result := by
  simp [nextLife, AmoLife.want, AmoLife.result, unissued, unanswered]

theorem fate_retires (inFlight : m.fate = .inFlight)
    (retires : i.retires m.op.tag.robIdx = true) : (s.nextLife i m).fate = .retired := by
  simp [nextLife, inFlight, retires]

theorem fate_stays (inFlight : m.fate = .inFlight) (stays : i.retires m.op.tag.robIdx = false)
    (kept : i.squashes m.op.tag.robIdx = false) : (s.nextLife i m).fate = .inFlight := by
  simp [nextLife, inFlight, stays, kept]

theorem fate_ended (ended : m.fate ≠ .inFlight) : (s.nextLife i m).fate = m.fate := by
  simp [nextLife, ended]

theorem inFlight_of_next (inFlight : (s.nextLife i m).fate = .inFlight) : m.fate = .inFlight := by
  by_contra ended
  rw [fate_ended ended] at inFlight
  exact ended inFlight

theorem not_retires (legal : s.Keeps i) (life : s.lives n = some m)
    (inFlight : m.fate = .inFlight) (unreturned : m.rd = none) :
    i.retires m.op.tag.robIdx = false := by
  by_contra retires
  have some_ := (legal.retires n m life inFlight (by simpa using retires)).1
  rw [unreturned] at some_
  cases some_

theorem updates_next (inv : s.Sound) (life : s.lives n = some m)
    (early : m.fate ≠ .retired) : (s.nextLife i m).updates = m.updates := by
  simp [nextLife, taken_none inv life early]

/-- The atomic the unit works on, in the next cycle. -/
theorem Under.next (under : s.Under a m) (inv : s.Sound)
    (early : m.fate ≠ .retired ∨ i.unit.storeAck = false)
    (current : (s.unit.next i.unit).current = some a) :
    (s.next i).Under a (s.nextLife i m) where
  current := current
  life := lives_next under.life
  op := under.op
  issued := by simp [nextLife, under.issued]
  updates := by
    rcases early with early | quiet
    · rw [updates_next inv under.life early, under.updates]
    · have none_ : s.taken i m.op.tag.seq = none := by
        unfold AmoRun.taken
        split
        · simp [quiet]
        · rfl
      simp [nextLife, none_, under.updates]

/-- An issued atomic does not issue again. -/
theorem Under.not_issues (under : s.Under a m) (legal : s.Keeps i) :
    AmoRun.issues i m.op.tag.seq = false := by
  by_contra issues
  have life := under.life
  rw [← under.op] at life
  have unissued := (issues_life legal life (by simpa using issues)).2.2
  rw [under.issued] at unissued
  cases unissued

theorem not_answers (inv : s.Sound) (idle : s.unit.waitLoad = false) (n : Nat) :
    s.answers i n = false := by
  by_contra answers
  have waits := (answers_waits inv (by simpa using answers)).1
  rw [idle] at waits
  cases waits

/-- While a value or a store of the unit is on its way no read is. -/
theorem not_waits_of_wb (inv : s.Sound) (wb : s.unit.wb.isSome = true) :
    s.unit.waitLoad = false := by
  by_contra waits
  have none_ := (inv.waits (by simpa using waits)).2.1
  rw [none_] at wb
  cases wb

theorem not_waits_of_store (inv : s.Sound) (store : s.unit.store.isSome = true) :
    s.unit.waitLoad = false := by
  by_contra waits
  have none_ := (inv.waits (by simpa using waits)).1
  rw [none_] at store
  cases store

/-- An atomic that is written back neither issues nor is answered. -/
theorem settled (inv : s.Sound) (legal : s.Keeps i) (life : s.lives n = some m)
    (rd : m.rd.isSome = true) :
    (s.nextLife i m).want = m.want ∧ (s.nextLife i m).result = m.result := by
  refine want_next ?_ ?_
  · by_contra issues
    rw [inv.seqs n m life] at issues
    have early := (issues_life legal life (by simpa using issues)).2.2
    rw [inv.unissued n m life early] at rd
    cases rd
  · by_contra answers
    obtain ⟨waits, a, current, same⟩ := answers_waits inv (by simpa using answers)
    obtain ⟨-, -, b, m', under, -, none_, -⟩ := inv.waits waits
    cases current.symm.trans under.current
    have here := under.life
    rw [same, inv.seqs n m life, life] at here
    cases here
    rw [none_] at rd
    cases rd

theorem settled_of_writeback (inv : s.Sound) (legal : s.Keeps i) (under : s.Under m.op m)
    (wb : s.unit.wb = some (m.op, v)) :
    (s.nextLife i m).want = m.want ∧ (s.nextLife i m).result = m.result :=
  want_next (under.not_issues legal) (not_answers inv (not_waits_of_wb inv (by rw [wb]; rfl)) _)

theorem returned_next (inv : s.Sound) (legal : s.Keeps i) (life : (s.next i).lives n = some m)
    (rd : m.rd = some v) : m.result = some v := by
  rcases next_lives life with ⟨m, before, rfl⟩ | ⟨-, a, -, rfl⟩
  · have old (rd : m.rd = some v) : (s.nextLife i m).result = some v := by
      rw [(settled inv legal before (by rw [rd]; rfl)).2]
      exact inv.returned n m v before rd
    simp only [nextLife] at rd
    split at rd
    · rename_i inFlight
      rcases Option.or_eq_some_iff.mp rd with back | ⟨-, rd⟩
      · obtain ⟨-, wb, under, result, -⟩ := writeback_under inv before inFlight back
        rw [(settled_of_writeback inv legal under wb).2, result]
      · exact old rd
    · exact old rd
  · cases rd

theorem otherwise_next (inv : s.Sound) (life : (s.next i).lives n = some m)
    (fate : m.fate ≠ .retired) : m.updates = [] := by
  rcases next_lives life with ⟨m, before, rfl⟩ | ⟨-, a, -, rfl⟩
  · have early : m.fate ≠ .retired := by
      intro retired
      rw [fate_ended (by simp [retired])] at fate
      exact fate retired
    rw [updates_next inv before early]
    exact inv.otherwise n m before early
  · rfl

theorem unissued_next (inv : s.Sound) (life : (s.next i).lives n = some m)
    (early : m.issued = false) : m.rd = none := by
  rcases next_lives life with ⟨m, before, rfl⟩ | ⟨-, a, -, rfl⟩
  · simp only [nextLife, Bool.or_eq_false_iff] at early
    have rd := inv.unissued n m before early.1
    simp only [nextLife]
    split
    · rename_i inFlight
      cases back : s.writeback i m.op.tag.robIdx with
      | none => simpa using rd
      | some v =>
        have issued := (writeback_under inv before inFlight back).2.2.1.issued
        rw [early.1] at issued
        cases issued
    · exact rd
  · rfl

theorem seqs_next (inv : s.Sound) (legal : s.Keeps i) (life : (s.next i).lives n = some m) :
    m.op.tag.seq = n := by
  rcases next_lives life with ⟨m, before, rfl⟩ | ⟨-, a, enters, rfl⟩
  · exact inv.seqs n m before
  · exact (legal.enters n a enters).1

theorem slots_next (inv : s.Sound) (legal : s.Keeps i) {k : Nat} {m' : AmoLife}
    (life : (s.next i).lives n = some m) (life' : (s.next i).lives k = some m')
    (inFlight : m.fate = .inFlight) (inFlight' : m'.fate = .inFlight)
    (same : m.op.tag.robIdx = m'.op.tag.robIdx) : n = k := by
  rcases next_lives life with ⟨m, before, rfl⟩ | ⟨-, a, enters, rfl⟩ <;>
    rcases next_lives life' with ⟨m', before', rfl⟩ | ⟨-, b, enters', rfl⟩
  · exact inv.slots n m k m' before before' (inFlight_of_next inFlight)
      (inFlight_of_next inFlight') same
  · exact absurd same ((legal.enters k b enters').2.1 n m before (inFlight_of_next inFlight))
  · exact absurd same.symm
      ((legal.enters n a enters).2.1 k m' before' (inFlight_of_next inFlight'))
  · exact (legal.enters k b enters').2.2 n a enters same

-- ---------------------------------------------------------------------
-- The unit
-- ---------------------------------------------------------------------

/-- A store commits in the cycle in which its atomic retires. -/
theorem commits_iff (legal : s.Keeps i) (under : s.Under a m) (inFlight : m.fate = .inFlight)
    (store : s.unit.store = some st) :
    s.unit.storeCommitFire i.unit = i.retires m.op.tag.robIdx := by
  have life := under.life
  rw [← under.op] at life
  simp only [AmoUnit.storeCommitFire, store, Option.isSome_some, Bool.true_and,
    legal.unitRetires, under.current, Option.any_some]
  rw [under.op]
  cases retires : i.retires a.tag.robIdx with
  | false => simp
  | true =>
    have loads := (legal.retires _ m life inFlight (by rw [under.op]; exact retires)).2
    simp [loads]

/-- A store that is not on the port is not acknowledged. -/
theorem ackFire_uncommitted (store : s.unit.store = some st) (early : st.committed = false) :
    s.unit.storeAckFire i.unit = false := by
  simp [AmoUnit.storeAckFire, storeReq_none store early]

theorem unit_killed (flush : i.unit.fullFlush = true) :
    (s.next i).unit = s.unit.killed i.unit := by
  simp [next, AmoUnit.next, flush]

/-- A cycle in which nothing issues and no read is answered. -/
theorem unit_drained (flush : i.unit.fullFlush = false) (unissued : i.unit.issue = none)
    (unanswered : s.unit.loadValue i.unit = none) :
    (s.next i).unit = s.unit.drained i.unit := by
  simp [next, AmoUnit.next, flush, unissued, AmoUnit.answered, unanswered]

/-- An atomic issues only when the unit is free, and busy it stays with its own. -/
theorem not_issues_busy (legal : s.Keeps i) (busy : s.unit.busy = true) : i.unit.issue = none := by
  cases issue : i.unit.issue with
  | none => rfl
  | some a =>
    have idle := (legal.issues a issue).1
    rw [busy] at idle
    cases idle

theorem current_next (unissued : i.unit.issue = none) :
    (s.unit.next i.unit).current = s.unit.current := by
  unfold AmoUnit.next
  split
  · rfl
  · rw [unissued]
    simp only [AmoUnit.answered]
    split <;> rfl

/-- A read that is answered. -/
theorem unit_answered (inv : s.Sound) (legal : s.Keeps i) (flush : i.unit.fullFlush = false)
    (value : s.unit.loadValue i.unit = some v) :
    ∃ a m, s.Under a m ∧ m.fate = .inFlight ∧ m.rd = none ∧ a.op ≠ amoSc ∧
      i.unit.issue = none ∧ v = a.extracted i.mem ∧ (s.next i).unit.waitLoad = false ∧
      (s.next i).unit.reprobing = s.unit.reprobeFire i.unit ∧
      (s.next i).unit.wb = some (a, v) ∧
      (s.next i).unit.store = if a.op = amoLr then none
        else some ⟨false, amoStoreData a.size a.op v a.rs2, amoStoreMask a.size⟩ := by
  have waits := waits_of_value inv value
  obtain ⟨store, -, a, m, under, inFlight, rd, notSc⟩ := inv.waits waits
  have unissued := not_issues_busy legal (i := i) (by simp [AmoUnit.busy, waits])
  refine ⟨a, m, under, inFlight, rd, notSc, unissued, legal.answers a v under.current value, ?_⟩
  simp [next, AmoUnit.next, flush, unissued, AmoUnit.answered, value, under.current,
    AmoUnit.drained, store]

/-- An atomic that issues finds the unit empty. -/
theorem unit_issued (legal : s.Keeps i) (issue : i.unit.issue = some a) :
    ∃ m, s.lives a.tag.seq = some m ∧ m.op = a ∧ m.fate = .inFlight ∧ m.issued = false ∧
      i.unit.fullFlush = false ∧ s.unit.waitLoad = false ∧ s.unit.store = none ∧
      s.unit.wb = none ∧ s.unit.loadValue i.unit = none ∧
      (s.next i).unit.current = some a ∧ (s.next i).unit.reprobing = false ∧
      (s.next i).unit.waitLoad = decide (a.op ≠ amoSc) ∧
      (s.next i).unit.wb = (if a.op = amoSc then some (a, if s.unit.scSuccess a then 0 else 1)
        else none) ∧
      (s.next i).unit.store = if a.op = amoSc ∧ s.unit.scSuccess a = true then
        some ⟨false, scStoreData a.size a.rs2, amoStoreMask a.size⟩ else none := by
  obtain ⟨idle, quiet, flush, -, m, life, op, inFlight, unissued⟩ := legal.issues a issue
  simp only [AmoUnit.busy, Bool.or_eq_false_iff, Option.isSome_eq_false_iff,
    Option.isNone_iff_eq_none] at idle
  obtain ⟨⟨wait, store⟩, wb⟩ := idle
  have value : s.unit.loadValue i.unit = none := by simp [AmoUnit.loadValue, wait, quiet]
  refine ⟨m, life, op, inFlight, unissued, flush, wait, store, wb, value, ?_⟩
  by_cases sc : a.op = amoSc
  · simp [next, AmoUnit.next, flush, issue, sc, AmoUnit.answered, value, AmoUnit.drained, wait,
      store, AmoUnit.reprobeFire]
  · have other : a.op ≠ 3#5 := sc
    simp [next, AmoUnit.next, flush, issue, other, AmoUnit.answered, value, AmoUnit.drained, store,
      wb, AmoUnit.reprobeFire, wait]

theorem not_squashed (legal : s.Keeps i) (flush : i.unit.fullFlush = false)
    (under : s.Under a m) (inFlight : m.fate = .inFlight) :
    i.squashes m.op.tag.robIdx = false :=
  legal.squashes.2 flush _ m under.life inFlight under.issued

/-- A store in the next cycle is one that has just come up or one that goes on. -/
theorem store_next (inv : s.Sound) (legal : s.Keeps i)
    (store' : (s.next i).unit.store = some st') :
    (∃ st, s.unit.store = some st ∧ s.unit.storeAckFire i.unit = false ∧
        i.unit.issue = none ∧ s.unit.loadValue i.unit = none ∧
        st'.data = st.data ∧ st'.mask = st.mask ∧
        st'.committed = (st.committed || s.unit.storeCommitFire i.unit) ∧
        (i.unit.fullFlush = true → st'.committed = true)) ∨
      st'.committed = false ∧ i.unit.fullFlush = false ∧
        ((∃ v, s.unit.loadValue i.unit = some v) ∨ ∃ a, i.unit.issue = some a) := by
  cases flush : i.unit.fullFlush with
  | true =>
    rw [unit_killed flush] at store'
    simp only [AmoUnit.killed] at store'
    split at store'
    · cases store'
    · rename_i unacked
      cases store : s.unit.store with
      | none => simp [store] at store'
      | some st =>
        rw [store] at store'
        have busy := not_issues_busy legal (i := i) (by simp [AmoUnit.busy, store])
        have value : s.unit.loadValue i.unit = none := by
          cases value : s.unit.loadValue i.unit with
          | none => rfl
          | some v =>
            have idle := not_waits_of_store inv (by rw [store]; rfl)
            rw [waits_of_value inv value] at idle
            cases idle
        simp only at store'
        split at store'
        · rename_i commits
          cases store'
          refine .inl ⟨st, rfl, by simpa using unacked, busy, value, rfl, rfl, ?_, fun _ => rfl⟩
          simp only [Bool.or_eq_true] at commits
          rcases commits with fires | committed
          · simp [fires]
          · simp [committed]
        · cases store'
  | false =>
    cases issue : i.unit.issue with
    | some a =>
      obtain ⟨m, -, -, -, -, -, -, -, -, -, -, -, -, -, shape⟩ := unit_issued legal issue
      rw [shape] at store'
      split at store'
      · cases store'
        exact .inr ⟨rfl, rfl, .inr ⟨a, rfl⟩⟩
      · cases store'
    | none =>
      cases value : s.unit.loadValue i.unit with
      | some v =>
        obtain ⟨a, m, -, -, -, -, -, -, -, -, -, shape⟩ := unit_answered inv legal flush value
        rw [shape] at store'
        split at store'
        · cases store'
        · cases store'
          exact .inr ⟨rfl, rfl, .inl ⟨v, rfl⟩⟩
      | none =>
        rw [unit_drained flush issue value] at store'
        simp only [AmoUnit.drained] at store'
        split at store'
        · cases store'
        · rename_i unacked
          obtain ⟨st, store, rfl⟩ := Option.map_eq_some_iff.mp store'
          exact .inl ⟨st, store, by simpa using unacked, rfl, rfl, rfl, rfl, rfl, nofun⟩

/-- A store that is not acknowledged stays, unless a full flush comes before its atomic retires. -/
theorem store_stays (inv : s.Sound) (legal : s.Keeps i) (store : s.unit.store = some st)
    (unacked : s.unit.storeAckFire i.unit = false)
    (kept : i.unit.fullFlush = false ∨ st.committed = true ∨ s.unit.storeCommitFire i.unit = true) :
    (s.next i).unit.store =
      some ⟨st.committed || s.unit.storeCommitFire i.unit, st.data, st.mask⟩ := by
  have busy := not_issues_busy legal (i := i) (by simp [AmoUnit.busy, store])
  have idle := not_waits_of_store inv (by rw [store]; rfl)
  cases flush : i.unit.fullFlush with
  | true =>
    rw [unit_killed flush]
    have commits : (s.unit.storeCommitFire i.unit || st.committed) = true := by
      rcases kept with kept | kept | kept
      · rw [flush] at kept
        cases kept
      · simp [kept]
      · simp [kept]
    simp [AmoUnit.killed, unacked, store, commits, Bool.or_comm st.committed]
  | false =>
    have value : s.unit.loadValue i.unit = none := by
      cases value : s.unit.loadValue i.unit with
      | none => rfl
      | some v =>
        rw [waits_of_value inv value] at idle
        cases idle
    rw [unit_drained flush busy value]
    simp [AmoUnit.drained, unacked, store]

-- ---------------------------------------------------------------------
-- The step
-- ---------------------------------------------------------------------

theorem not_issues_of_none (unissued : i.unit.issue = none) (n : Nat) :
    AmoRun.issues i n = false := by
  simp [AmoRun.issues, unissued]

theorem not_answers_of_none (value : s.unit.loadValue i.unit = none) (n : Nat) :
    s.answers i n = false := by
  simp [AmoRun.answers, value]

theorem asked_next (inv : s.Sound) (legal : s.Keeps i) (calm : s.Asked i)
    (reprobing : (s.next i).unit.reprobing = true) : (s.next i).unit.waitLoad = true := by
  have fires : s.unit.reprobeFire i.unit = true := by
    cases flush : i.unit.fullFlush with
    | true => rwa [unit_killed flush] at reprobing
    | false =>
      cases issue : i.unit.issue with
      | some a =>
        obtain ⟨m, -, -, -, -, -, -, -, -, -, -, quiet, -⟩ := unit_issued legal issue
        rw [quiet] at reprobing
        cases reprobing
      | none =>
        cases value : s.unit.loadValue i.unit with
        | some v =>
          obtain ⟨a, m, -, -, -, -, -, -, -, fires, -⟩ := unit_answered inv legal flush value
          rwa [fires] at reprobing
        | none => rwa [unit_drained flush issue value] at reprobing
  obtain ⟨flush, value⟩ := calm fires
  have waits : s.unit.waitLoad = true := by
    simp only [AmoUnit.reprobeFire, Bool.and_eq_true] at fires
    exact fires.1.2
  have unissued := not_issues_busy legal (i := i) (by simp [AmoUnit.busy, waits])
  rw [unit_drained flush unissued value]
  exact waits

theorem waits_next (inv : s.Sound) (legal : s.Keeps i)
    (waits : (s.next i).unit.waitLoad = true) :
    (s.next i).unit.store = none ∧ (s.next i).unit.wb = none ∧
      ∃ a m, (s.next i).Under a m ∧ m.fate = .inFlight ∧ m.rd = none ∧ a.op ≠ amoSc := by
  cases flush : i.unit.fullFlush with
  | true =>
    rw [unit_killed flush] at waits
    cases waits
  | false =>
    cases issue : i.unit.issue with
    | some a =>
      obtain ⟨m, life, op, inFlight, early, -, -, -, wb, -, current, -, wait, wb', store'⟩ :=
        unit_issued legal issue
      rw [wait] at waits
      have notSc : a.op ≠ amoSc := by simpa using waits
      have rd := inv.unissued _ m life early
      have stays := not_retires legal life inFlight rd
      have noBack : s.writeback i m.op.tag.robIdx = none := by simp [AmoRun.writeback, wb]
      refine ⟨by rw [store', if_neg (fun both => notSc both.1)], by rw [wb', if_neg notSc], a,
        s.nextLife i m, ?_, ?_, ?_, notSc⟩
      · exact
          { current := current
            life := lives_next life
            op := op
            issued := by simp [nextLife, AmoRun.issues, issue, op]
            updates := by
              rw [updates_next inv life (by simp [inFlight])]
              exact inv.otherwise _ m life (by simp [inFlight]) }
      · exact fate_stays inFlight stays ((legal.issues a issue).2.2.2.1 _)
      · simp [nextLife, inFlight, noBack, rd]
    | none =>
      cases value : s.unit.loadValue i.unit with
      | some v =>
        obtain ⟨a, m, -, -, -, -, -, -, idle, -⟩ := unit_answered inv legal flush value
        rw [idle] at waits
        cases waits
      | none =>
        rw [unit_drained flush issue value] at waits ⊢
        obtain ⟨store, wb, a, m, under, inFlight, rd, notSc⟩ := inv.waits waits
        have life := under.life
        have stays := not_retires legal life inFlight rd
        have noBack : s.writeback i m.op.tag.robIdx = none := by simp [AmoRun.writeback, wb]
        refine ⟨by simp [AmoUnit.drained, store], by simp [AmoUnit.drained, wb], a,
          s.nextLife i m, under.next inv (.inl (by simp [inFlight])) ?_, ?_, ?_, notSc⟩
        · rw [current_next issue, under.current]
        · exact fate_stays inFlight stays (not_squashed legal flush under inFlight)
        · simp [nextLife, inFlight, noBack, rd]

/-- An atomic issues and leaves its read out. -/
theorem issued_next (inv : s.Sound) (legal : s.Keeps i) (issue : i.unit.issue = some a) :
    ∃ m, s.lives a.tag.seq = some m ∧ m.op = a ∧ (s.next i).Under a (s.nextLife i m) ∧
      (s.nextLife i m).fate = .inFlight ∧ (s.nextLife i m).rd = none ∧
      (s.nextLife i m).reserved = s.unit.scSuccess a := by
  obtain ⟨m, life, op, inFlight, early, -, -, -, wb, -, current, -⟩ := unit_issued legal issue
  have rd := inv.unissued _ m life early
  have stays := not_retires legal life inFlight rd
  have noBack : s.writeback i m.op.tag.robIdx = none := by simp [AmoRun.writeback, wb]
  have issues : AmoRun.issues i m.op.tag.seq = true := by simp [AmoRun.issues, issue, op]
  refine ⟨m, life, op, ?_, ?_, ?_, ?_⟩
  · exact
      { current := current
        life := lives_next life
        op := op
        issued := by simp [nextLife, issues]
        updates := by
          rw [updates_next inv life (by simp [inFlight])]
          exact inv.otherwise _ m life (by simp [inFlight]) }
  · exact fate_stays inFlight stays ((legal.issues a issue).2.2.2.1 _)
  · simp [nextLife, inFlight, noBack, rd]
  · rw [← op]
    simp [nextLife, issues]

/-- The read of an atomic is answered. -/
theorem answered_next (inv : s.Sound) (legal : s.Keeps i) (flush : i.unit.fullFlush = false)
    (value : s.unit.loadValue i.unit = some v) :
    ∃ a m, (s.next i).Under a (s.nextLife i m) ∧ m.op = a ∧
      (s.nextLife i m).fate = .inFlight ∧ (s.nextLife i m).rd = none ∧ a.op ≠ amoSc ∧
      (s.nextLife i m).read = some i.mem ∧ v = a.extracted i.mem := by
  obtain ⟨a, m, under, inFlight, rd, notSc, issue, bytes, -⟩ :=
    unit_answered inv legal flush value
  have op := under.op
  have life := under.life
  have stays := not_retires legal life inFlight rd
  have wb := (inv.waits (waits_of_value inv value)).2.1
  have noBack : s.writeback i m.op.tag.robIdx = none := by simp [AmoRun.writeback, wb]
  have answers : s.answers i m.op.tag.seq = true := by
    simp [AmoRun.answers, flush, value, under.current, op]
  refine ⟨a, m, under.next inv (.inl (by simp [inFlight])) ?_, op, ?_, ?_, notSc, ?_, bytes⟩
  · rw [current_next issue, under.current]
  · exact fate_stays inFlight stays (not_squashed legal flush under inFlight)
  · simp [nextLife, inFlight, noBack, rd]
  · simp [nextLife, answers]

theorem want_answered (notSc : m.op.op ≠ amoSc) (read : m.read = some bytes) :
    m.want = if m.op.op = amoLr then none
      else some ⟨m.op.addr, amoStoreData m.op.size m.op.op (m.op.extracted bytes) m.op.rs2,
        amoStoreMask m.op.size⟩ := by
  unfold AmoLife.want
  rw [if_neg notSc, read, Option.map_some, storeData_eq]

theorem stores_next (inv : s.Sound) (legal : s.Keeps i)
    (store' : (s.next i).unit.store = some st') :
    ∃ a m, (s.next i).Under a m ∧ m.want = some ⟨a.addr, st'.data, st'.mask⟩ ∧
      m.fate = if st'.committed then .retired else .inFlight := by
  rcases store_next inv legal store' with
    ⟨st, store, unacked, issue, value, data, mask, committed, flushed⟩ | ⟨new, flush, ⟨v, value⟩ | ⟨a, issue⟩⟩
  · obtain ⟨a, m, under, want, fate⟩ := inv.stores st store
    have life := under.life
    have op := under.op
    -- It goes on: its atomic has retired, retires now or stays in flight.
    have quiet : m.fate ≠ .retired ∨ i.unit.storeAck = false := by
      cases early : st.committed with
      | false => exact .inl (by rw [fate, early]; simp)
      | true =>
        refine .inr ?_
        have request := storeReq_of under.current store early
        simpa [AmoUnit.storeAckFire, request] using unacked
    refine ⟨a, s.nextLife i m, under.next inv quiet ?_, ?_, ?_⟩
    · rw [current_next issue, under.current]
    · rw [(want_next (not_issues_of_none issue _) (not_answers_of_none value _)).1, want, data, mask]
    · cases early : st.committed with
      | true =>
        rw [early, if_pos rfl] at fate
        rw [fate_ended (by simp [fate]), fate, committed, early, Bool.true_or, if_pos rfl]
      | false =>
        rw [early, if_neg Bool.false_ne_true] at fate
        have commits := commits_iff legal under fate store
        rw [committed, early, Bool.false_or, commits]
        cases retires : i.retires m.op.tag.robIdx with
        | true => exact fate_retires fate retires
        | false =>
          cases flush : i.unit.fullFlush with
          | true =>
            have gone := flushed flush
            rw [committed, early, commits, retires] at gone
            cases gone
          | false => exact fate_stays fate retires (not_squashed legal flush under fate)
  · obtain ⟨a, m, under, op, inFlight, -, notSc, read, bytes⟩ :=
      answered_next inv legal flush value
    obtain ⟨b, _, under', -, -, -, -, -, -, -, -, shape⟩ := unit_answered inv legal flush value
    have same : b = a := by
      have issue := not_issues_busy legal (i := i)
        (by simp [AmoUnit.busy, waits_of_value inv value])
      have current := under.current
      have kept : (s.next i).unit.current = s.unit.current := current_next issue
      rw [kept] at current
      exact Option.some.inj (under'.current.symm.trans current)
    subst same
    rw [shape] at store'
    split at store'
    · cases store'
    · rename_i store
      cases store'
      subst op
      refine ⟨_, s.nextLife i m, under, ?_, inFlight⟩
      rw [want_answered (by exact notSc) read, if_neg (by exact store), bytes]
      rfl
  · obtain ⟨m, -, op, under, inFlight, -, reserved⟩ := issued_next inv legal issue
    obtain ⟨-, -, -, -, -, -, -, -, -, -, -, -, -, -, shape⟩ := unit_issued legal issue
    rw [shape] at store'
    split at store'
    · rename_i success
      cases store'
      subst op
      refine ⟨_, s.nextLife i m, under, ?_, inFlight⟩
      have sc : (s.nextLife i m).op.op = amoSc := success.1
      have same : (s.nextLife i m).op = m.op := rfl
      rw [AmoLife.want, sc, if_neg (by decide), if_pos rfl, reserved, success.2, if_pos rfl, same,
        scData_eq]
    · cases store'

theorem wb_next (inv : s.Sound) (legal : s.Keeps i) (wb' : (s.next i).unit.wb = some (a, v)) :
    ∃ m, (s.next i).Under a m ∧ m.fate = .inFlight ∧ m.rd = none ∧ m.result = some v ∧
      (m.want.isSome = true → (s.next i).unit.store.isSome = true) := by
  cases flush : i.unit.fullFlush with
  | true =>
    rw [unit_killed flush] at wb'
    cases wb'
  | false =>
    cases issue : i.unit.issue with
    | some b =>
      obtain ⟨m, -, op, under, inFlight, rd, reserved⟩ := issued_next inv legal issue
      obtain ⟨-, -, -, -, -, -, -, -, -, -, -, -, -, shape, store⟩ := unit_issued legal issue
      rw [shape] at wb'
      split at wb'
      · rename_i sc
        cases wb'
        subst op
        have same : (s.nextLife i m).op = m.op := rfl
        refine ⟨s.nextLife i m, under, inFlight, rd, ?_, fun wants => ?_⟩
        · rw [AmoLife.result, same, sc, if_pos rfl, reserved]
        · rw [AmoLife.want, same, sc, if_neg (by decide), if_pos rfl, reserved] at wants
          split at wants
          · rename_i success
            rw [store, if_pos ⟨sc, success⟩]
            rfl
          · cases wants
      · cases wb'
    | none =>
      cases value : s.unit.loadValue i.unit with
      | some old =>
        obtain ⟨b, m, under, op, inFlight, rd, notSc, read, bytes⟩ :=
          answered_next inv legal flush value
        obtain ⟨c, _, under', -, -, -, -, -, -, -, wb, store⟩ :=
          unit_answered inv legal flush value
        have same : c = b := by
          have kept : (s.next i).unit.current = s.unit.current := current_next issue
          have current := under.current
          rw [kept] at current
          exact Option.some.inj (under'.current.symm.trans current)
        subst same
        cases wb.symm.trans wb'
        subst op
        refine ⟨s.nextLife i m, under, inFlight, rd, ?_, fun wants => ?_⟩
        · rw [AmoLife.result, if_neg (by exact notSc), read, bytes]
          rfl
        · rw [want_answered (by exact notSc) read] at wants
          split at wants
          · cases wants
          · rename_i store_
            rw [store, if_neg (by exact store_)]
            rfl
      | none =>
        rw [unit_drained flush issue value] at wb'
        simp only [AmoUnit.drained] at wb'
        split at wb'
        · cases wb'
        · rename_i stays_
          obtain ⟨m, under, inFlight, rd, result, stored⟩ := inv.wb a v wb'
          have life := under.life
          have stays := not_retires legal life inFlight rd
          have noBack : s.writeback i m.op.tag.robIdx = none := by
            cases drains : i.wbDrains with
            | false => simp [AmoRun.writeback, drains]
            | true => exact absurd (legal.drains drains).1 stays_
          have settled := want_next (not_issues_of_none issue m.op.tag.seq)
            (not_answers_of_none value m.op.tag.seq)
          refine ⟨s.nextLife i m, under.next inv (.inl (by simp [inFlight])) ?_, ?_, ?_, ?_, ?_⟩
          · rw [current_next issue, under.current]
          · exact fate_stays inFlight stays (not_squashed legal flush under inFlight)
          · simp [nextLife, inFlight, noBack, rd]
          · rw [settled.2, result]
          · intro wants
            rw [settled.1] at wants
            obtain ⟨st, store⟩ := Option.isSome_iff_exists.mp (stored wants)
            have early := uncommitted inv store under inFlight
            rw [store_stays inv legal store (ackFire_uncommitted store early) (.inl flush)]
            rfl

/-- The store of an atomic that is written back but has not retired. -/
theorem store_of_returned (inv : s.Sound) (legal : s.Keeps i) (life : s.lives n = some m)
    (inFlight : m.fate = .inFlight) (rd : (s.nextLife i m).rd.isSome = true)
    (wants : (s.nextLife i m).want.isSome = true) :
    ∃ st, s.unit.store = some st ∧ st.committed = false ∧ s.Under m.op m ∧
      (s.nextLife i m).want = m.want ∧ m.want = some ⟨m.op.addr, st.data, st.mask⟩ := by
  have found : s.unit.store.isSome = true ∧ s.unit.current = some m.op ∧
      (s.nextLife i m).want = m.want := by
    simp only [nextLife, if_pos inFlight] at rd
    cases back : s.writeback i m.op.tag.robIdx with
    | some v =>
      obtain ⟨-, wb, under, -, stored⟩ := writeback_under inv life inFlight back
      have same := (settled_of_writeback inv legal under wb).1
      rw [same] at wants
      exact ⟨stored wants, under.current, same⟩
    | none =>
      rw [back, Option.none_or] at rd
      have same := (settled inv legal life rd).1
      rw [same] at wants
      exact ⟨(inv.ready n m life inFlight rd wants).1, (inv.ready n m life inFlight rd wants).2, same⟩
  obtain ⟨stored, current, same⟩ := found
  obtain ⟨st, store⟩ := Option.isSome_iff_exists.mp stored
  obtain ⟨a, m', under, want, fate⟩ := inv.stores st store
  cases current.symm.trans under.current
  have here := under.life
  rw [inv.seqs n m life, life] at here
  cases here
  exact ⟨st, store, uncommitted inv store under inFlight, under, same, want⟩

theorem ready_next (inv : s.Sound) (legal : s.Keeps i) (life : (s.next i).lives n = some m)
    (inFlight : m.fate = .inFlight) (rd : m.rd.isSome = true) (wants : m.want.isSome = true) :
    (s.next i).unit.store.isSome = true ∧ (s.next i).unit.current = some m.op := by
  rcases next_lives life with ⟨m, before, rfl⟩ | ⟨-, a, -, rfl⟩
  · have early := inFlight_of_next inFlight
    obtain ⟨st, store, uncommitted, under, -⟩ := store_of_returned inv legal before early rd wants
    have issue := not_issues_busy legal (i := i) (by simp [AmoUnit.busy, store])
    have flush : i.unit.fullFlush = false := by
      by_contra flush
      have gone := legal.squashes.1 (by simpa using flush) m.op.tag.robIdx
      simp only [nextLife, if_pos early, gone, if_true] at inFlight
      split at inFlight <;> cases inFlight
    rw [store_stays inv legal store (ackFire_uncommitted store uncommitted) (.inl flush)]
    exact ⟨rfl, (current_next issue).trans under.current⟩
  · cases rd

/-- A store on the port goes on being there until it is acknowledged. -/
theorem storeReq_next (inv : s.Sound) (legal : s.Keeps i) (request : s.unit.storeReq = some q)
    (quiet : i.unit.storeAck = false) :
    (s.next i).unit.storeReq = some q ∧ (s.next i).unit.current = s.unit.current := by
  obtain ⟨a, st, current, store, committed, rfl⟩ := storeReq_eq_some request
  have issue := not_issues_busy legal (i := i) (by simp [AmoUnit.busy, store])
  have kept : (s.next i).unit.current = s.unit.current := current_next issue
  have unacked : s.unit.storeAckFire i.unit = false := by simp [AmoUnit.storeAckFire, quiet]
  have store' := store_stays inv legal store unacked (.inr (.inl committed))
  refine ⟨?_, kept⟩
  rw [storeReq_of (kept.trans current) store' (by simp [committed])]

theorem retired_next (inv : s.Sound) (legal : s.Keeps i) (life : (s.next i).lives n = some m)
    (fate : m.fate = .retired) :
    m.rd.isSome = true ∧ (m.updates = m.want.toList ∨ (s.next i).Pending m) := by
  rcases next_lives life with ⟨m, before, rfl⟩ | ⟨-, a, -, rfl⟩
  · by_cases inFlight : m.fate = .inFlight
    · -- It retires now.
      have retires : i.retires m.op.tag.robIdx = true := by
        by_contra stays
        simp only [nextLife, if_pos inFlight, stays, if_false] at fate
        split at fate <;> cases fate
      have rd := (legal.retires n m before inFlight retires).1
      have rd' : (s.nextLife i m).rd.isSome = true := by
        simp [nextLife, inFlight, Option.isSome_or, rd]
      have early : m.fate ≠ .retired := by simp [inFlight]
      have updates : (s.nextLife i m).updates = [] := by
        rw [updates_next inv before early]
        exact inv.otherwise n m before early
      refine ⟨rd', ?_⟩
      cases wants : (s.nextLife i m).want with
      | none => exact .inl updates
      | some q =>
        refine .inr ⟨updates, by rw [wants]; rfl, ?_⟩
        obtain ⟨st, store, early, under, same, want⟩ :=
          store_of_returned inv legal before inFlight rd' (by rw [wants]; rfl)
        have commits := commits_iff legal under inFlight store
        rw [retires] at commits
        have issue := not_issues_busy legal (i := i) (by simp [AmoUnit.busy, store])
        have kept : (s.next i).unit.current = some m.op := by
          rw [← under.current]
          exact current_next issue
        have store' := store_stays inv legal store (ackFire_uncommitted store early)
          (.inr (.inr commits))
        refine ⟨?_, kept⟩
        rw [storeReq_of kept store' (by simp [commits]), same, want]
    · -- It has retired before.
      have ended := fate_ended (i := i) (s := s) inFlight
      rw [ended] at fate
      obtain ⟨rd, updates⟩ := inv.retired n m before fate
      have same := (settled inv legal before rd).1
      have rd' : (s.nextLife i m).rd.isSome = true := by simp [nextLife, inFlight, rd]
      refine ⟨rd', ?_⟩
      cases taken : s.taken i m.op.tag.seq with
      | some q =>
        obtain ⟨-, none_, want⟩ := taken_retired inv before taken
        exact .inl (by rw [same, want]; simp [nextLife, none_, taken])
      | none =>
        have stay : (s.nextLife i m).updates = m.updates := by simp [nextLife, taken]
        rcases updates with updates | ⟨none_, wants, request, current⟩
        · exact .inl (by rw [stay, same, updates])
        · obtain ⟨q, want⟩ := Option.isSome_iff_exists.mp wants
          rw [want] at request
          have quiet : i.unit.storeAck = false := by
            by_contra ack
            have took := taken_of_ack inv legal (by simpa using ack) request current
            rw [taken] at took
            cases took
          obtain ⟨request', current'⟩ := storeReq_next inv legal request quiet
          exact .inr ⟨by rw [stay, none_], by rw [same, want]; rfl, by rw [same, want, request'],
            by rw [current', current]; rfl⟩
  · cases fate

theorem ours_next (inv : s.Sound) (legal : s.Keeps i)
    (lookup : (s.next i).lookup = some (some n, q)) :
    ∃ a, (s.next i).unit.current = some a ∧ a.tag.seq = n ∧ (s.next i).unit.storeReq = some q := by
  simp only [next, nextLookup] at lookup
  split at lookup
  · split at lookup
    · split at lookup
      · simp at lookup
      · cases lookup
    · rename_i quiet
      unfold presented at lookup
      split at lookup
      · rename_i q' a request current
        cases lookup
        obtain ⟨request', current'⟩ := storeReq_next inv legal request (by simpa using quiet)
        exact ⟨a, by rw [current', current], rfl, request'⟩
      · simp at lookup
  · cases lookup

theorem theirs_next (inv : s.Sound) (legal : s.Keeps i)
    (lookup : (s.next i).lookup = some (none, q)) (current' : (s.next i).unit.current = some a)
    (store' : (s.next i).unit.store = some st') (committed : st'.committed = true) :
    q.addr ≠ a.addr := by
  rcases store_next inv legal store' with
    ⟨st, store, unacked, issue, -, -, -, -, -⟩ | ⟨new, -, -⟩
  · have current : s.unit.current = some a := by
      rw [← current']
      exact (current_next issue).symm
    simp only [next, nextLookup] at lookup
    -- The store was not on the port, so it had not retired.
    have early (request : s.unit.storeReq = none) : st.committed = false := by
      by_contra committed
      have shown := storeReq_of current store (by simpa using committed)
      rw [request] at shown
      cases shown
    split at lookup
    · split at lookup
      · split at lookup
        · rename_i idle
          obtain ⟨q', next, same⟩ := Option.map_eq_some_iff.mp lookup
          cases same
          exact legal.apart a st q current store (early (by simpa using idle)) (.inr next)
        · cases lookup
      · unfold presented at lookup
        split at lookup
        · cases lookup
        · rename_i idle
          obtain ⟨q', csb, same⟩ := Option.map_eq_some_iff.mp lookup
          cases same
          have request : s.unit.storeReq = none := by
            cases request : s.unit.storeReq with
            | none => rfl
            | some r => exact absurd current (idle r a request)
          exact legal.apart a st q current store (early request) (.inl csb)
    · cases lookup
  · rw [new] at committed
    cases committed

theorem Sound.next (inv : s.Sound) (legal : s.Keeps i) (calm : s.Asked i) : (s.next i).Sound where
  seqs _ _ := seqs_next inv legal
  slots _ _ _ _ := slots_next inv legal
  asked := asked_next inv legal calm
  waits := waits_next inv legal
  stores _ := stores_next inv legal
  wb _ _ := wb_next inv legal
  unissued _ _ := unissued_next inv
  returned _ _ _ := returned_next inv legal
  ready _ _ := ready_next inv legal
  retired _ _ := retired_next inv legal
  otherwise _ _ := otherwise_next inv
  ours _ _ := ours_next inv legal
  theirs _ _ _ := theirs_next inv legal

end AmoRun

-- ---------------------------------------------------------------------
-- Runs
-- ---------------------------------------------------------------------

namespace AmoRun

variable {s : AmoRun} {i : AmoRunIn}

/-- No atomic but the first of the program is there. -/
def Lone (s : AmoRun) : Prop := ∀ n, s.lives (n + 1) = none

/-- A cycle without other stores whose flush takes back all or nothing. -/
structure Plain (i : AmoRunIn) : Prop where
  enters : ∀ n, i.enters (n + 1) = none
  squashes : ∀ r, i.squashes r = i.unit.fullFlush
  csb : i.unit.csbReq = none
  next : i.nextReq = none

/-- What `Keeps` asks of a plain cycle when the first atomic is the only one. -/
def loneKeeps (s : AmoRun) (i : AmoRunIn) : Bool :=
  ((i.enters 0).all fun a => a.tag.seq == 0 && (s.lives 0).isNone) &&
    (i.unit.issue.all fun a => !s.unit.busy && !s.unit.reprobing && !i.unit.fullFlush &&
      a.tag.seq == 0 && (s.lives 0).any fun m => m.op == a && m.fate == .inFlight && !m.issued) &&
    ((s.lives 0).all fun m => m.fate != .inFlight || !i.retires m.op.tag.robIdx ||
      m.rd.isSome && i.loads) &&
    (i.unit.retires == (i.loads && s.unit.current.any fun a => i.retires a.tag.robIdx)) &&
    (!i.wbDrains || i.unit.wbLeaves && !i.unit.fullFlush) &&
    (s.unit.current.all fun a => (s.unit.loadValue i.unit).all fun v => v == a.extracted i.mem) &&
    (!i.unit.storeAck || s.lookup.any fun x => s.unit.dcacheStoreReq i.unit == some x.2)

theorem Lone.keeps (lone : s.Lone) (plain : Plain i) (ok : s.loneKeeps i = true) : s.Keeps i := by
  simp only [loneKeeps, Bool.and_eq_true, Option.all_eq_true] at ok
  obtain ⟨⟨⟨⟨⟨⟨enters, issues⟩, retires⟩, unitRetires⟩, drains⟩, answers⟩, acks⟩ := ok
  have only {k m} (life : s.lives k = some m) : k = 0 := by
    cases k with
    | zero => rfl
    | succ k => simp [lone k] at life
  have first {k a} (takes : i.enters k = some a) : k = 0 := by
    cases k with
    | zero => rfl
    | succ k => simp [plain.enters k] at takes
  constructor
  case enters =>
    intro n a takes
    cases first takes
    have ok := enters a takes
    simp only [beq_iff_eq, Option.isNone_iff_eq_none] at ok
    refine ⟨ok.1, fun k m life => ?_, fun k b takes' _ => first takes'⟩
    cases only life
    simp [ok.2] at life
  case issues =>
    intro a issue
    have ok := issues a issue
    simp only [Bool.not_eq_true', beq_iff_eq, Option.any_eq_true, Bool.and_eq_true] at ok
    obtain ⟨⟨⟨⟨idle, quiet⟩, flush⟩, zero⟩, m, life, ⟨op, inFlight⟩, early⟩ := ok
    exact ⟨idle, quiet, flush, fun r => (plain.squashes r).trans flush, m, by rw [zero, life],
      op, inFlight, early⟩
  case retires =>
    intro n m life inFlight leaves
    cases only life
    simpa [inFlight, leaves] using retires m life
  case unitRetires => simpa using unitRetires
  case squashes =>
    exact ⟨fun flush r => (plain.squashes r).trans flush,
      fun flush n m _ _ _ => (plain.squashes _).trans flush⟩
  case drains =>
    intro drains_
    simpa [drains_] using drains
  case answers =>
    intro a v current value
    simpa using answers a current v value
  case acks =>
    intro ack
    simp only [ack, Bool.not_true, Bool.false_or, Option.any_eq_true, beq_iff_eq] at acks
    obtain ⟨⟨o, q⟩, lookup, request⟩ := acks
    exact ⟨o, q, lookup, request⟩
  case apart =>
    rintro a st q - - - (other | other)
    · simp [plain.csb] at other
    · simp [plain.next] at other

theorem Lone.next (lone : s.Lone) (plain : Plain i) : (s.next i).Lone := by
  intro n
  simp [AmoRun.next, lone n, plain.enters n]

/-- Every cycle of the list is legal and meets `ok`. -/
def loneRun (ok : AmoRun → AmoRunIn → Bool) (s : AmoRun) : List AmoRunIn → Bool
  | [] => true
  | i :: rest => s.loneKeeps i && ok s i && loneRun ok (s.next i) rest

theorem Lone.reach {P : AmoRun → AmoRunIn → Prop} (ok : AmoRun → AmoRunIn → Bool)
    (holds : ∀ {s i}, ok s i = true → P s i) (lone : s.Lone) (before : amoRuns.Reach P s)
    {inputs : List AmoRunIn} (plain : ∀ i ∈ inputs, Plain i)
    (legal : loneRun ok s inputs = true) : amoRuns.Reach P (amoRuns.run s inputs) := by
  induction inputs generalizing s with
  | nil => exact before
  | cons i rest ih =>
    simp only [loneRun, Bool.and_eq_true] at legal
    obtain ⟨⟨keeps, meets⟩, legal⟩ := legal
    have now := plain i (List.mem_cons_self ..)
    exact ih (lone.next now) (before.cycle (lone.keeps now keeps) (holds meets))
      (fun i on => plain i (List.mem_cons_of_mem _ on)) legal

instance (s : AmoRun) (i : AmoRunIn) : Decidable (s.Asked i) :=
  inferInstanceAs (Decidable (_ → _))

end AmoRun

/-- AMOADD.W of 1. -/
def addOne : AmoInsn := ⟨amoAdd, memWord, 0x80001000, 1, ⟨0, 0⟩⟩

def addIdle : AmoRunIn where
  unit := ⟨none, none, false, none, false, false, false, false, none⟩
  mem := 41
  wbDrains := false
  grant := true
  nextReq := none
  retires _ := false
  loads := false
  squashes _ := false
  enters _ := none

def addEnters : AmoRunIn :=
  { addIdle with enters := fun n => match n with | 0 => some addOne | _ + 1 => none }

def addIssues : AmoRunIn := { addIdle with unit := { addIdle.unit with issue := some addOne } }

/-- What is in the first slot retires. -/
def addRetires : AmoRunIn :=
  { addIdle with
    unit := { addIdle.unit with retires := true }
    retires := fun r => r == 0
    loads := true }

def addAcked : AmoRunIn := { addIdle with unit := { addIdle.unit with storeAck := true } }

/-- The read is answered, the value written back, and the store taken after the atomic retires. -/
def addCycles : List AmoRunIn :=
  [addEnters, addIssues, { addIdle with unit := { addIdle.unit with answer := some 41 } },
    { addIdle with unit := { addIdle.unit with wbLeaves := true }, wbDrains := true }, addRetires,
    addIdle, addAcked]

/-- An interrupt arrives in the cycle of the re-probe; later a load retires from the same slot. -/
def addFlushed : List AmoRunIn :=
  [addEnters, addIssues,
    { addIdle with
      unit := { addIdle.unit with reprobe := true, fullFlush := true }
      squashes := fun _ => true },
    { addIdle with unit := { addIdle.unit with reprobeResp := some 41 } }, addRetires, addIdle,
    addAcked]

theorem plain_addCycles : ∀ i ∈ addCycles ++ addFlushed, AmoRun.Plain i := by
  intro i on
  simp only [addCycles, addFlushed, List.cons_append, List.nil_append, List.mem_cons,
    List.not_mem_nil, or_false] at on
  rcases on with h | h | h | h | h | h | h | h | h | h | h | h | h | h <;> subst h <;>
    exact ⟨fun _ => rfl, fun _ => rfl, rfl, rfl⟩

end Rv64gc.Lsu
