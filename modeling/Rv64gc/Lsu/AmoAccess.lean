import Rv64gc.Lsu.AmoUnit

/-!
# Permissions of atomic accesses

An atomic goes through load port 0, and so does its translation: the lookup, the walk it asks for
and the causes that are reported are those of a load. Stores are looked up as stores.
-/

namespace Rv64gc.Lsu

open Hdl Mmu

/-- An atomic on load port 0, with what its issue depends on. -/
structure Atomic where
  op : BitVec 5
  size : BitVec 2
  /-- `load_eff_addr` -/
  addr : Va
  rs2 : Word
  vmActive : Bool
  priv : BitVec 2
  asid : Asid
  sum : Bool
  mxr : Bool
  dtlb : Tlb dtlbDepth
  dirtyWbReady : Bool
  /-- A store address wants the lookup, and it is of an older instruction. -/
  staValid : Bool
  staOlder : Bool
  /-- `flush_in.valid` -/
  flush : Bool
  /-- What holds back every issue on the port. -/
  portBusy : Bool
  /-- What holds back an atomic alone: it is not the oldest instruction, or older accesses are under
  way. -/
  notYet : Bool
  /-- The walk for the access ends with a page fault. -/
  walkFault : Bool

namespace Atomic

variable (x : Atomic)

/-- `load_addr_misaligned`: only atomics have to be aligned. -/
def misaligned : Bool :=
  if x.size = memHalf then x.addr.getLsbD 0
  else if x.size = memWord then x.addr.extractLsb' 0 2 != 0
  else if x.size = memDword then x.addr.extractLsb' 0 3 != 0
  else false

/-- `dtlb_lookup_sel_store` -/
def lookupSelStore : Bool := x.staValid && !x.flush && (x.misaligned || x.staOlder)

/-- `dtlb_lookup_sel_load0` -/
def lookupSelLoad0 : Bool := !x.lookupSelStore && !x.misaligned && !x.flush

/-- The lookup of this access; `dtlb_lookup_is_store` says which port has it. -/
def lookup : DataLookup := ⟨x.addr, x.lookupSelStore, x.priv, x.asid, x.sum, x.mxr⟩

/-- The same access as a store would look it up. -/
def asStore : DataLookup := { x.lookup with isStore := true }

/-- `perm_fault_code` -/
def faultCode : BitVec 4 := if x.lookup.isStore then excStorePageFault else excLoadPageFault

/-- What becomes of the access in a cycle. -/
inductive Outcome where
  | waits
  /-- It completes with an exception. -/
  | misaligned (cause : BitVec 4)
  /-- The lookup or the walk reports a page fault. -/
  | faults (cause : BitVec 4)
  | issues (addr : Pa)
deriving DecidableEq

def issueAt (addr : Pa) : Outcome := if x.portBusy || x.notYet then .waits else .issues addr

/-- A misaligned access takes the way of a forwarded load, with an exception. -/
def outcome : Outcome :=
  if x.flush then .waits
  else if x.misaligned then if x.portBusy then .waits else .misaligned excLoadMisalign
  else if !x.vmActive then x.issueAt x.addr
  else if !x.lookupSelLoad0 then .waits
  else match x.dtlb.find x.addr x.asid with
    | none => if x.walkFault then .faults x.faultCode else .waits
    | some (_, t) =>
      if t.dataFault x.lookup then .faults x.faultCode
      else match x.dtlb.dataPa x.lookup x.dirtyWbReady with
        | some addr => x.issueAt addr
        | none => .waits

/-- What the AMO unit gets. -/
def issued : Option (AmoOp Atomic) :=
  match x.outcome with
  | .issues addr => some ⟨x.op, x.size, addr, x.rs2, x⟩
  | _ => none

-- ---------------------------------------------------------------------
-- What the architecture asks
-- ---------------------------------------------------------------------

/-- The access may write: it is not translated, or its page can be stored to and is dirty, by now
or by this access. -/
def MayWrite : Prop :=
  x.vmActive = true → ∃ k t, x.dtlb.find x.addr x.asid = some (k, t) ∧
    t.dataFault x.asStore = false ∧
      (t.d = true ∨ (x.dtlb.dirtyUpgradeNow (some x.lookup) x.dirtyWbReady).isSome = true)

/-- An access that goes on may write, and one that does not reports the cause of a store. -/
def Checked : Prop :=
  match x.outcome with
  | .waits => True
  | .misaligned cause => cause = excStoreMisalign
  | .faults cause => cause = excStorePageFault
  | .issues _ => x.MayWrite

/-- Unless it waits, the access is aligned; where it is translated its walk succeeds, its page can
be loaded from, and when it issues the page can be stored to and is dirty already. -/
def StorablePage : Prop :=
  x.flush = true ∨
    (x.misaligned = true → x.portBusy = true) ∧
      (x.misaligned = false → x.vmActive = true → (x.staValid && x.staOlder) = false →
        match x.dtlb.find x.addr x.asid with
        | none => x.walkFault = false
        | some (_, t) => t.dataFault { x.asStore with isStore := false } = false ∧
            (x.portBusy = true ∨ x.notYet = true ∨ t.dataFault x.asStore = false ∧ t.d = true))

end Atomic

-- ---------------------------------------------------------------------
-- Atomics in a run
-- ---------------------------------------------------------------------

/-- One cycle: the access on the port, and what the AMO unit sees. -/
structure AmoCycle where
  access : Option Atomic
  unit : AmoIn Atomic

def atomicRuns : Machine (AmoUnit Atomic) AmoCycle where
  reset := .reset
  next s i := s.next i.unit
  legal s i := i.unit.issue = i.access.bind Atomic.issued ∧
    -- `load_issue_suppress[0]` has `amo_busy`; a re-probe outlives its atomic only in the cycle after
    -- a full flush, when the issue queues are empty.
    ∀ x, i.access = some x → s.busy = true ∨ s.reprobing = true → x.notYet = true

/-- Every access that reaches the data cache as a store may write, and the accesses of the cycle are
checked. LR is no store. -/
structure Permitted (s : AmoUnit Atomic) (i : AmoCycle) : Prop where
  writes : s.storeReq.isSome = true → ∃ a, s.current = some a ∧ a.tag.MayWrite
  checked : ∀ x, i.access = some x → x.op ≠ amoLr → x.Checked

/-- The accesses of the cycle find pages that can be stored to. -/
def StorablePages (_ : AmoUnit Atomic) (i : AmoCycle) : Prop :=
  ∀ x, i.access = some x → x.op ≠ amoLr → x.StorablePage

-- ---------------------------------------------------------------------
-- One access
-- ---------------------------------------------------------------------

namespace Atomic

variable {x : Atomic}

/-- The lookup of an atomic is a load's. -/
theorem lookup_load (selected : x.lookupSelLoad0 = true) : x.lookup.isStore = false := by
  simp only [lookupSelLoad0, Bool.and_eq_true, Bool.not_eq_true'] at selected
  exact selected.1.1

theorem no_upgrade (load : x.lookup.isStore = false) :
    x.dtlb.dirtyUpgradeReq x.lookup = none := by
  simp [Tlb.dirtyUpgradeReq, load]

theorem asLoad_eq (load : x.lookup.isStore = false) :
    { x.asStore with isStore := false } = x.lookup := by
  simp only [asStore, ← load]

/-- A load marks no page, so a page has to be dirty already. -/
theorem mayWrite_iff (active : x.vmActive = true) (selected : x.lookupSelLoad0 = true)
    (found : x.dtlb.find x.addr x.asid = some (k, t)) :
    x.MayWrite ↔ t.dataFault x.asStore = false ∧ t.d = true := by
  have none : x.dtlb.dirtyUpgradeNow (some x.lookup) x.dirtyWbReady = none := by
    unfold Tlb.dirtyUpgradeNow
    split
    next => exact no_upgrade (lookup_load selected)
    next => rfl
  constructor
  · intro may
    obtain ⟨k', t', again, stores, dirty⟩ := may active
    cases found.symm.trans again
    simpa [none, stores] using dirty
  · rintro ⟨stores, dirty⟩ -
    exact ⟨k, t, found, stores, .inl dirty⟩

theorem dataPa_load (load : x.lookup.isStore = false)
    (found : x.dtlb.find x.addr x.asid = some (k, t)) (loads : t.dataFault x.lookup = false) :
    x.dtlb.dataPa x.lookup x.dirtyWbReady = some (t.pa x.addr) := by
  have here : x.dtlb.find x.lookup.va x.lookup.asid = some (k, t) := found
  simp [Tlb.dataPa, here, no_upgrade load, loads]
  rfl

/-- Issue asks for nothing but the turn. -/
theorem checked_issueAt (x : Atomic) (addr : Pa) :
    (match x.issueAt addr with
      | .waits => True
      | .misaligned cause => cause = excStoreMisalign
      | .faults cause => cause = excStorePageFault
      | .issues _ => x.MayWrite) ↔ (x.portBusy = true ∨ x.notYet = true ∨ x.MayWrite) := by
  unfold issueAt
  cases x.portBusy <;> cases x.notYet <;> simp

theorem checked_iff (x : Atomic) : x.Checked ↔ x.StorablePage := by
  unfold Checked StorablePage outcome
  cases flush : x.flush with
  | true => simp
  | false =>
    cases mis : x.misaligned with
    | true =>
      cases x.portBusy <;> simp +decide
    | false =>
      cases active : x.vmActive with
      | false =>
        have free : x.MayWrite := fun on => by simp [active] at on
        simpa [free] using checked_issueAt x x.addr
      | true =>
        cases older : x.staValid && x.staOlder with
        | true => simp [lookupSelLoad0, lookupSelStore, older, flush, mis]
        | false =>
          have selected : x.lookupSelLoad0 = true := by
            simp [lookupSelLoad0, lookupSelStore, older, flush, mis]
          have load := lookup_load selected
          have code : x.faultCode = excLoadPageFault := by simp [faultCode, load]
          rw [selected, asLoad_eq load, code]
          cases found : x.dtlb.find x.addr x.asid with
          | none => cases x.walkFault <;> simp +decide
          | some e =>
            obtain ⟨k, t⟩ := e
            cases loads : t.dataFault x.lookup with
            | true => simp +decide [loads]
            | false =>
              have may := mayWrite_iff active selected found
              have issue := checked_issueAt x (t.pa x.addr)
              simpa [dataPa_load load found loads, loads, may] using issue

/-- What issues has been checked. -/
theorem mayWrite_of_issued {a : AmoOp Atomic} (checked : x.op ≠ amoLr → x.Checked)
    (issued : x.issued = some a) : a.op = amoLr ∨ a.tag.MayWrite := by
  unfold Atomic.issued at issued
  unfold Checked at checked
  split at issued
  next addr issues =>
    rw [issues] at checked
    cases issued
    exact or_iff_not_imp_left.mpr checked
  next => cases issued

theorem not_issues (held : x.notYet = true) (addr : Pa) : x.outcome ≠ .issues addr := by
  have waits (a : Pa) : x.issueAt a = .waits := by simp [issueAt, held]
  unfold outcome
  simp only [waits]
  repeat' split
  all_goals exact Outcome.noConfusion

/-- Nothing issues while the unit is busy. -/
theorem issued_ready {a : AmoOp Atomic} (issued : x.issued = some a) : x.notYet = false := by
  unfold Atomic.issued at issued
  split at issued
  next addr issues => exact Bool.eq_false_iff.mpr fun held => not_issues held addr issues
  next => cases issued

end Atomic

-- ---------------------------------------------------------------------
-- Every run
-- ---------------------------------------------------------------------

namespace AmoUnit

variable {s : AmoUnit Atomic} {i : AmoCycle}

/-- What the unit works on may write, and LR has no store. -/
structure Authorised (s : AmoUnit Atomic) : Prop where
  reads : s.waitLoad = true ∨ s.reprobing = true →
    ∃ a, s.current = some a ∧ (a.op = amoLr ∨ a.tag.MayWrite)
  stores : s.store.isSome = true → ∃ a, s.current = some a ∧ a.tag.MayWrite

/-- Only a read under way is asked for again. -/
theorem waits_of_reprobe (fires : s.reprobeFire x = true) : s.waitLoad = true := by
  simp only [reprobeFire, Bool.and_eq_true] at fires
  exact fires.1.2

theorem authorised_killed (inv : Authorised s) : Authorised (s.killed x) where
  reads wait := inv.reads (.inl (waits_of_reprobe (wait.resolve_left nofun)))
  stores pending := by
    refine inv.stores ?_
    unfold killed at pending
    dsimp only at pending
    split at pending
    next => cases pending
    next =>
      split at pending
      next st found => simp [found]
      next => cases pending

theorem authorised_drained (inv : Authorised s) : Authorised (s.drained x) where
  reads wait := inv.reads (.inl (wait.elim id waits_of_reprobe))
  stores pending := by
    refine inv.stores ?_
    unfold drained at pending
    dsimp only at pending
    split at pending
    next => cases pending
    next => simpa using pending

theorem waits_of_value (value : s.loadValue x = some old) :
    s.waitLoad = true ∨ s.reprobing = true := by
  unfold loadValue at value
  cases reprobing : s.reprobing with
  | true => exact .inr rfl
  | false =>
    cases wait : s.waitLoad with
    | true => exact .inl rfl
    | false => simp [reprobing, wait] at value

/-- The answered read becomes a store, unless it was LR. -/
theorem authorised_answered (inv : Authorised s) : Authorised (s.answered x) := by
  unfold answered
  dsimp only
  split
  next old a answer current =>
    obtain ⟨b, same, may⟩ := inv.reads (waits_of_value answer)
    cases current.symm.trans same
    constructor
    case reads => exact fun _ => ⟨a, current, may⟩
    case stores =>
      intro pending
      by_cases lr : a.op = amoLr
      · refine (authorised_drained (x := x) inv).stores ?_
        simpa [lr] using pending
      · exact ⟨a, current, may.resolve_left lr⟩
  next => exact authorised_drained inv

theorem not_busy (legal : atomicRuns.legal s i) (issue : i.unit.issue = some a) :
    s.busy = false ∧ s.reprobing = false := by
  rw [legal.1] at issue
  obtain ⟨x, access, issued⟩ := Option.bind_eq_some_iff.mp issue
  have ready := Atomic.issued_ready issued
  constructor
  · by_contra busy
    have held := legal.2 x access (.inl (by simpa using busy))
    rw [ready] at held
    cases held
  · by_contra busy
    have held := legal.2 x access (.inr (by simpa using busy))
    rw [ready] at held
    cases held

/-- With nothing under way nothing is answered. -/
theorem answered_idle (idle : s.busy = false) (quiet : s.reprobing = false) :
    (s.answered x).waitLoad = false ∧ (s.answered x).reprobing = false ∧
      (s.answered x).store = none := by
  simp only [busy, Bool.or_eq_false_iff, Option.isSome_eq_false_iff, Option.isNone_iff_eq_none]
    at idle
  obtain ⟨⟨wait, store⟩, -⟩ := idle
  have unanswered : s.loadValue x = none := by simp [loadValue, wait, quiet]
  simp [answered, unanswered, drained, store, wait, reprobeFire]

theorem authorised_next (inv : Authorised s) (legal : atomicRuns.legal s i)
    (pages : StorablePages s i) : Authorised (s.next i.unit) := by
  unfold next
  split
  next => exact authorised_killed inv
  dsimp only
  split
  next a issue =>
    obtain ⟨idle, quiet⟩ := not_busy legal issue
    obtain ⟨wait, quiet, store⟩ := answered_idle (x := i.unit) idle quiet
    have may : a.op = amoLr ∨ a.tag.MayWrite := by
      rw [legal.1] at issue
      obtain ⟨x, access, issued⟩ := Option.bind_eq_some_iff.mp issue
      refine Atomic.mayWrite_of_issued (fun store => ?_) issued
      exact (Atomic.checked_iff x).mpr (pages x access store)
    split
    next sc =>
      constructor
      case reads => simp [wait, quiet]
      case stores =>
        rintro -
        exact ⟨a, rfl, may.resolve_left (by simp [sc])⟩
    next =>
      constructor
      case reads => exact fun _ => ⟨a, rfl, may⟩
      case stores => simp [store]
  next => exact authorised_answered inv

end AmoUnit

/-- As long as atomics find pages that can be stored to, none writes without permission and none
reports another cause than a store would. -/
theorem atomics_permitted (reach : atomicRuns.Reach StorablePages s) :
    Permitted s i ↔ StorablePages s i := by
  have inv : AmoUnit.Authorised s := by
    refine reach.invariant AmoUnit.Authorised ⟨fun wait => ?_, fun pending => ?_⟩ ?_
    · rcases wait with wait | wait <;> cases wait
    · cases pending
    exact fun s i _ inv legal pages => AmoUnit.authorised_next inv legal pages
  constructor
  · intro permitted x access store
    exact (Atomic.checked_iff x).mp (permitted.checked x access store)
  · intro pages
    constructor
    case writes =>
      intro pending
      refine inv.stores ?_
      simp only [AmoUnit.storeReq, Option.isSome_iff_exists, Option.bind_eq_bind,
        Option.bind_eq_some_iff] at pending
      obtain ⟨-, -, -, st, found, -⟩ := pending
      simp [found]
    case checked => exact fun x access store => (Atomic.checked_iff x).mpr (pages x access store)

/-- The page at 0x1000 with these permissions, alone in the TLB. -/
def onePage (perm : BitVec 8) : Tlb dtlbDepth :=
  Tlb.reset.next false (some ⟨1, 0x80001, 0, 0, perm, 0⟩)

/-- AMOADD.W at an address, in user mode. -/
def addAt (addr : Va) (perm : BitVec 8) : Atomic where
  op := amoAdd
  size := memWord
  addr := addr
  rs2 := 1
  vmActive := true
  priv := privU
  asid := 0
  sum := false
  mxr := false
  dtlb := onePage perm
  dirtyWbReady := true
  staValid := false
  staOlder := false
  flush := false
  portBusy := false
  notYet := false
  walkFault := false

def idleAmo : AmoIn Atomic := ⟨none, none, false, none, false, false, false, false, none⟩

def present (x : Atomic) : AmoCycle := ⟨some x, { idleAmo with issue := x.issued }⟩

/-- The atomic issues, its read is answered with 41, and it retires. -/
def amoAddCycles (x : Atomic) : List AmoCycle :=
  [present x, ⟨none, { idleAmo with answer := some 41 }⟩,
    ⟨none, { idleAmo with wbLeaves := true, retires := true }⟩]

/-- A cycle without an access is legal in every state. -/
theorem legal_quiet {s : AmoUnit Atomic} {i : AmoIn Atomic} (quiet : i.issue = none) :
    atomicRuns.legal s ⟨none, i⟩ := by
  refine ⟨quiet, ?_⟩
  intro x access
  cases access

theorem legal_amoAdd (x : Atomic) : atomicRuns.Legal .reset (amoAddCycles x) := by
  refine ⟨⟨rfl, ?_⟩, legal_quiet rfl, legal_quiet rfl, trivial⟩
  intro _ _ busy
  rcases busy with busy | busy <;> cases busy

/-- Valid, readable, writable, user, accessed and dirty. -/
theorem atomics_permitted_dirty :
    Permitted (atomicRuns.next .reset (present (addAt 0x1000 0b11010111))) ⟨none, idleAmo⟩ := by
  have pages : StorablePages .reset (present (addAt 0x1000 0b11010111)) := by
    rintro x ⟨⟩ -
    exact (Atomic.checked_iff _).mp fun _ => ⟨0, ⟨1, 0x80001, 0, 0, 0b11010111, 0⟩, by decide⟩
  have idle (s : AmoUnit Atomic) : StorablePages s ⟨none, idleAmo⟩ := by
    rintro x ⟨⟩
  have legal := (legal_amoAdd (addAt 0x1000 0b11010111)).1
  exact (atomics_permitted (Machine.Reach.cycle .reset legal pages)).mpr (idle _)

/-- A page that can only be read is written; a misaligned access and one to a page of the supervisor
report the causes of loads. -/
theorem read_only_page_written :
    (∃ s, atomicRuns.Reachable s ∧ s.storeReq = some ⟨0x80001000, 42, 0x0F⟩ ∧
      ∃ a, s.current = some a ∧ a.op = amoAdd ∧ ¬a.tag.MayWrite) ∧
      (addAt 0x1002 0b11010111).outcome = .misaligned excLoadMisalign ∧
      (addAt 0x1000 0b11000111).outcome = .faults excLoadPageFault := by
  refine ⟨⟨_, Machine.Reachable.run .reset (legal_amoAdd (addAt 0x1000 0b01010011)), ?_, ?_⟩, ?_⟩
  · decide +kernel
  · refine ⟨⟨amoAdd, memWord, 0x80001000, 1, addAt 0x1000 0b01010011⟩, rfl, rfl, fun may => ?_⟩
    obtain ⟨k, t, found, stores, -⟩ := may rfl
    have here : (addAt 0x1000 0b01010011).dtlb.find 0x1000 0 =
        some (0, ⟨1, 0x80001, 0, 0, 0b01010011, 0⟩) := by decide +kernel
    cases here.symm.trans found
    exact absurd stores (by decide)
  · decide +kernel

end Rv64gc.Lsu
