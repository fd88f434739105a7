import Rv64gc.Mmu.Translations

/-!
# Accessed and dirty bits

The hardware writes page tables in two ways. A walk sets A in its leaf, and D for a store, before it
fills the TLB; a store that hits a clean page leaves a mark, which the walker writes from what the
DTLB holds.
-/

namespace Rv64gc.Mmu

open Hdl

/-- A leaf after an access. -/
def AccessKind.mark (kind : AccessKind) (pte : Pte) : Pte :=
  pte ||| 0x40 ||| if kind = .store then 0x80 else 0

/-- An access and the address space that it was made in. -/
structure Origin where
  access : Access
  satp : BitVec 64

/-- The leaf of the access is at `pa`, and allows it. -/
structure Origin.Allowed (o : Origin) (mem : Pa → Pte) (pa : Pa) : Prop where
  leaf : ∃ leaf, walk mem o.access.va (startLevel o.satp) (satpPpn o.satp) = some leaf ∧
    leaf.addr = pa
  permitted : o.access.permitted (mem pa) = true

structure UpdateRun where
  run : MmuRun
  /-- The access that the walk is for. -/
  walkFor : Access
  /-- The store that left the mark. -/
  markFor : Origin

structure UpdateIn where
  mmu : MmuIn
  fetchPriv : BitVec 2

namespace UpdateRun

variable (s : UpdateRun) (i : UpdateIn)

def walkForNext : Access :=
  if s.run.ptw.state = .idle then
    match s.run.dtlbReq i.mmu, i.mmu.data, i.mmu.itlbReq with
    | some _, some a, _ => a
    | none, _, some va => ⟨.fetch, va, i.fetchPriv, false, false⟩
    | _, _, _ => s.walkFor
  else s.walkFor

def markForNext : Origin :=
  match (s.run.ptwIn i.mmu).dirtyWb, i.mmu.data with
  | some _, some a => ⟨a, s.run.satp⟩
  | _, _ => s.markFor

def next : UpdateRun := ⟨s.run.next i.mmu, s.walkForNext i, s.markForNext i⟩

/-- For whom the walker writes. -/
def updater : Origin :=
  if s.run.ptw.adWbReturnFill then ⟨s.walkFor, s.run.satp⟩ else s.markFor

/-- The tables are left alone and read as they are, a walk meets no leaf that refuses its access,
and a page that is marked dirty has no bits that the DTLB does not keep. -/
structure Careful : Prop where
  fixed : i.mmu.store = none
  fresh : ∀ r, i.mmu.l2Resp = some r → ∀ a, a.extractLsb' 6 58 = r.addr.extractLsb' 6 58 →
    a.extractLsb' 0 3 = 0 → MmuRun.respWord r a = s.run.mem a
  allowed : ∀ pte, s.run.ptw.state = .wait → s.run.ptw.pteResp (s.run.ptwIn i.mmu) = some pte →
    Ptw.pteLeaf pte = true → s.run.ptw.pteAdUpdateNeeded pte = true →
      s.walkFor.permitted pte = true
  kept : ∀ e, s.run.dtlb.dirtyUpgradeNow (s.run.lookup i.mmu) s.run.ptw.dirtyWbReady = some e →
    (s.run.mem e.2.ptePa).extractLsb' 54 10 = 0 ∧ (s.run.mem e.2.ptePa).extractLsb' 8 2 = 0

end UpdateRun

def updateRuns (mem : Pa → Pte) : Machine UpdateRun UpdateIn where
  reset := ⟨(mmuRuns mem).reset, ⟨.load, 0, 0, false, false⟩, ⟨⟨.store, 0, 0, false, false⟩, 0⟩⟩
  next s i := s.next i
  legal s i := s.run.Keeps i.mmu

-- ---------------------------------------------------------------------
-- Marks
-- ---------------------------------------------------------------------

theorem fill_eq_mark {w : Ptw} {kind : AccessKind} (isStore : w.walkIsStore = (kind == .store))
    (pte : Pte) : w.pteFill pte = kind.mark pte := by
  unfold Ptw.pteFill AccessKind.mark
  rw [isStore]
  simp only [beq_iff_eq]

/-- A store sets all that any access sets. -/
theorem mark_mark (kind : AccessKind) (pte : Pte) :
    AccessKind.store.mark (kind.mark pte) = AccessKind.store.mark pte := by
  cases kind <;> simp [AccessKind.mark, BitVec.or_assoc]

theorem Origin.Allowed.same {o : Origin} {mem mem' : Pa → Pte} (allowed : o.Allowed mem pa)
    (same : ∀ a, SamePte (mem' a) (mem a)) : o.Allowed mem' pa where
  leaf := by
    rw [walk_same same]
    exact allowed.leaf
  permitted := by
    rw [(same pa).permitted]
    exact allowed.permitted

/-- What the DTLB keeps of a leaf is all of it, when the other bits are zero. -/
theorem rebuilt {mem : Pa → Pte} {t : Translation} (found : MmuRun.Found mem satp t va leaf)
    (high : (mem leaf.addr).extractLsb' 54 10 = 0) (low : (mem leaf.addr).extractLsb' 8 2 = 0) :
    0#10 ++ t.ppn ++ 0#2 ++ (t.perm ||| 0x80#8) = AccessKind.store.mark (mem leaf.addr) := by
  have zero {n len : Nat} (part : (mem leaf.addr).extractLsb' n len = 0) (k : Nat)
      (from_ : n ≤ k) (below : k < n + len) : (mem leaf.addr).getLsbD k = false := by
    have bit := congrArg (·.getLsbD (k - n)) part
    simpa [BitVec.getLsbD_extractLsb', show k - n < len by omega, Nat.add_sub_cancel' from_,
      -BitVec.getLsbD_eq_getElem] using bit
  have ppn (k : Nat) (from_ : 10 ≤ k) (below : k < 54) :
      t.ppn.getLsbD (k - 10) = (mem leaf.addr).getLsbD k := by
    rw [found.ppn, Ptw.ptePpn, BitVec.getLsbD_extractLsb']
    simp [show k - 10 < 44 by omega, Nat.add_sub_cancel' from_, -BitVec.getLsbD_eq_getElem]
  have a : t.perm.getLsbD 6 = true := found.a
  have bit6 : ∀ k < 64, BitVec.getLsbD 0x40#64 k = decide (k = 6) := by decide
  have bit7 : ∀ k < 64, BitVec.getLsbD 0x80#64 k = decide (k = 7) := by decide
  have flag7 : ∀ k < 8, BitVec.getLsbD 0x80#8 k = decide (k = 7) := by decide
  unfold AccessKind.mark
  refine BitVec.eq_of_getLsbD_eq fun k inside => ?_
  simp only [BitVec.getLsbD_append, BitVec.getLsbD_or, if_true]
  rw [show BitVec.getLsbD 64 k = decide (k = 6) from bit6 k inside,
    show BitVec.getLsbD 128 k = decide (k = 7) from bit7 k inside]
  by_cases flag : k < 8
  · rw [if_pos flag, flag7 k flag]
    by_cases kept : k < 6
    · rw [found.perm kept]
      simp [show k ≠ 6 by omega]
    · obtain rfl | rfl : k = 6 ∨ k = 7 := by omega
      · simp [a]
      · simp
  · rw [if_neg flag]
    simp only [show k ≠ 6 by omega, show k ≠ 7 by omega, decide_false, Bool.or_false]
    by_cases rsw : k < 10
    · rw [if_pos (by omega), zero low k (by omega) (by omega)]
      simp
    · rw [if_neg (by omega)]
      by_cases page : k < 54
      · rw [if_pos (by omega), ← ppn k (by omega) page]
        rfl
      · rw [if_neg (by omega), zero high k (by omega) inside]
        simp

-- ---------------------------------------------------------------------
-- The invariant
-- ---------------------------------------------------------------------

namespace UpdateRun

/-- What is to be written is for an access that its leaf allows. -/
structure Planned (s : UpdateRun) : Prop where
  walk : s.run.ptw.state ≠ .idle →
    (s.run.ptw.state = .adWriteback → s.run.ptw.adWbReturnFill = true) →
      s.walkFor.va = s.run.ptw.walkVa ∧ s.run.ptw.walkIsStore = (s.walkFor.kind == .store)
  write : s.run.ptw.state = .adWriteback → s.run.ptw.adWbReturnFill = true →
    s.run.ptw.adWbPa = s.run.ptw.pteAddr ∧
      s.run.ptw.adWbValue = s.walkFor.kind.mark (s.run.mem s.run.ptw.pteAddr) ∧
      s.walkFor.permitted (s.run.mem s.run.ptw.pteAddr) = true
  again : s.run.ptw.state = .adWriteback → s.run.ptw.adWbReturnFill = false →
    s.run.ptw.dirtyWb = some (s.run.ptw.adWbPa, s.run.ptw.adWbValue)
  mark : ∀ pa v, s.run.ptw.dirtyWb = some (pa, v) →
    s.markFor.Allowed s.run.mem pa ∧ s.markFor.access.kind = .store ∧
      v = s.markFor.access.kind.mark (s.run.mem pa)

variable {s : UpdateRun} {i : UpdateIn}

/-- What the walker writes is right for the access that it writes for. -/
theorem writes_right (consistent : MmuRun.Consistent s.run) (planned : Planned s)
    (writes : s.run.writes i.mmu = some (pa, v)) :
    s.updater.Allowed s.run.mem pa ∧ v = s.updater.access.kind.mark (s.run.mem pa) := by
  unfold MmuRun.writes at writes
  split_ifs at writes with takes
  obtain ⟨rfl, rfl⟩ := Prod.mk.inj (Option.some.inj writes)
  unfold updater
  cases fills : s.run.ptw.adWbReturnFill with
  | true =>
    obtain ⟨here, value, permitted⟩ := planned.write takes.1 fills
    obtain ⟨va, -⟩ := planned.walk (by simp [takes.1]) fun _ => fills
    obtain ⟨found, -, -⟩ := consistent.walked.found (.inr ⟨takes.1, fills⟩)
    rw [here]
    exact ⟨⟨⟨_, va ▸ found, rfl⟩, permitted⟩, value⟩
  | false =>
    obtain ⟨allowed, -, value⟩ := planned.mark _ _ (planned.again takes.1 fills)
    exact ⟨allowed, value⟩

-- ---------------------------------------------------------------------
-- One cycle
-- ---------------------------------------------------------------------

theorem mem_next (fixed : i.mmu.store = none) :
    (s.next i).run.mem = (s.run.writes i.mmu).elim s.run.mem fun w => writeWord s.run.mem w.1 w.2 := by
  simp [next, MmuRun.next, fixed]

/-- The walk begins for the access that missed. -/
theorem dtlbReq_access (req : s.run.dtlbReq i.mmu = some r) :
    ∃ a, i.mmu.data = some a ∧ r.va = a.va ∧ r.isStore = (a.kind == .store) := by
  unfold MmuRun.dtlbReq MmuRun.lookup at req
  obtain ⟨l, lookup, req⟩ := Option.bind_eq_some_iff.mp req
  split at lookup
  next => cases lookup
  next =>
    obtain ⟨a, data, rfl⟩ := Option.map_eq_some_iff.mp lookup
    refine ⟨a, data, ?_⟩
    split at req
    next =>
      split at req
      next =>
        obtain rfl := Option.some.inj req
        exact ⟨rfl, rfl⟩
      next => cases req
    next =>
      obtain rfl := Option.some.inj req
      exact ⟨rfl, rfl⟩

/-- A walk under way stays with its address. -/
theorem walk_keeps (w : Ptw) (x : PtwIn) (busy : w.state ≠ .idle) :
    (w.walk x).walkVa = w.walkVa ∧ (w.walk x).walkIsStore = w.walkIsStore := by
  cases Ptw.walk_cases w x with
  | stays same =>
    rw [same]
    exact ⟨rfl, rfl⟩
  | marks pa value idle => exact absurd idle busy
  | begins va robIdx isStore isItlb idle => exact absurd idle busy
  | asks req accepted same =>
    rw [same]
    exact ⟨rfl, rfl⟩
  | answered pte wait resp same =>
    rw [same]
    unfold Ptw.step
    dsimp only
    split_ifs <;> exact ⟨rfl, rfl⟩
  | acked writes ack same =>
    rw [same]
    exact ⟨rfl, rfl⟩
  | ends last same =>
    rw [same]
    exact ⟨rfl, rfl⟩

theorem walkFor_next (planned : Planned s)
    (busy : (s.run.ptw.walk (s.run.ptwIn i.mmu)).state ≠ .idle)
    (fills : (s.run.ptw.walk (s.run.ptwIn i.mmu)).state = .adWriteback →
      (s.run.ptw.walk (s.run.ptwIn i.mmu)).adWbReturnFill = true) :
    (s.walkForNext i).va = (s.run.ptw.walk (s.run.ptwIn i.mmu)).walkVa ∧
      (s.run.ptw.walk (s.run.ptwIn i.mmu)).walkIsStore =
        ((s.walkForNext i).kind == .store) := by
  unfold walkForNext
  by_cases idle : s.run.ptw.state = .idle
  · rw [if_pos idle]
    unfold Ptw.walk at busy fills ⊢
    simp only [idle] at busy fills ⊢
    split at busy
    next => exact absurd idle busy
    next fresh =>
      rw [if_neg fresh] at fills ⊢
      split at busy
      next mark =>
        simp only [mark] at fills
        exact absurd (fills trivial) (by decide)
      next r none_ req =>
        obtain ⟨a, data, va, isStore⟩ := dtlbReq_access req
        simp only [show s.run.dtlbReq i.mmu = some r from req, data]
        exact ⟨va.symm, isStore⟩
      next va none_ noData req =>
        simp only [show s.run.dtlbReq i.mmu = none from noData,
          show i.mmu.itlbReq = some va from req]
        exact ⟨rfl, rfl⟩
      next => exact absurd idle busy
  · rw [if_neg idle]
    obtain ⟨va, isStore⟩ := walk_keeps s.run.ptw (s.run.ptwIn i.mmu) idle
    rw [va, isStore]
    refine planned.walk idle fun writes => ?_
    by_contra mark
    cases ack : i.mmu.dcacheStoreAck with
    | true =>
      refine busy ?_
      unfold Ptw.walk
      simp [writes, mark, show (s.run.ptwIn i.mmu).dcacheStoreAck = true from ack]
    | false =>
      have stays : s.run.ptw.walk (s.run.ptwIn i.mmu) = s.run.ptw := by
        unfold Ptw.walk
        simp [writes, show (s.run.ptwIn i.mmu).dcacheStoreAck = false from ack]
      rw [stays] at fills
      exact mark (fills writes)

/-- A write under way has not reached memory. -/
theorem no_write (writes : (s.run.ptw.walk (s.run.ptwIn i.mmu)).state = .adWriteback) :
    s.run.writes i.mmu = none := by
  unfold MmuRun.writes
  refine if_neg fun takes => ?_
  obtain ⟨idle, -⟩ | ⟨waits, -⟩ | ⟨-, ack, -⟩ := Ptw.walk_writes writes
  · cases idle.symm.trans takes.1
  · cases waits.symm.trans takes.1
  · cases takes.2.symm.trans ack

theorem writing_next (consistent : MmuRun.Consistent s.run) (planned : Planned s)
    (careful : s.Careful i)
    (writes : (s.run.ptw.walk (s.run.ptwIn i.mmu)).state = .adWriteback)
    (fills : (s.run.ptw.walk (s.run.ptwIn i.mmu)).adWbReturnFill = true) :
    (s.run.ptw.walk (s.run.ptwIn i.mmu)).adWbPa = (s.run.ptw.walk (s.run.ptwIn i.mmu)).pteAddr ∧
      (s.run.ptw.walk (s.run.ptwIn i.mmu)).adWbValue = (s.walkForNext i).kind.mark
        (s.run.mem (s.run.ptw.walk (s.run.ptwIn i.mmu)).pteAddr) ∧
      (s.walkForNext i).permitted
        (s.run.mem (s.run.ptw.walk (s.run.ptwIn i.mmu)).pteAddr) = true := by
  obtain ⟨-, -, mark⟩ | ⟨waits, pte, resp, leaf, needed, pa, addr, value, -⟩ | ⟨writing, -, same⟩ :=
    Ptw.walk_writes writes
  · cases mark.symm.trans fills
  · have keeps : s.walkForNext i = s.walkFor := if_neg (by simp [waits])
    have read : pte = s.run.mem s.run.ptw.pteAddr := by
      unfold Ptw.pteResp at resp
      obtain ⟨r, out, rfl⟩ := Option.map_eq_some_iff.mp resp
      obtain ⟨answer, line⟩ := Option.filter_eq_some_iff.mp out
      refine careful.fresh r answer _ (beq_iff_eq.mp line).symm ?_
      rw [consistent.walked.addr waits]
      exact MmuRun.pteAddrAt_aligned s.run.ptw
    obtain ⟨-, isStore⟩ := planned.walk (by simp [waits]) (by simp [waits])
    rw [keeps, pa, addr, value, ← read]
    exact ⟨rfl, fill_eq_mark isStore pte, careful.allowed pte waits resp leaf needed⟩
  · have keeps : s.walkForNext i = s.walkFor := if_neg (by simp [writing])
    rw [same] at fills
    rw [keeps, same]
    exact planned.write writing fills

/-- A store that hits a clean page leaves a mark for itself. -/
theorem marked_next (consistent : MmuRun.Consistent s.run) (careful : s.Careful i)
    (new : (s.run.ptwIn i.mmu).dirtyWb = some (pa, v)) :
    (s.markForNext i).Allowed s.run.mem pa ∧ (s.markForNext i).access.kind = .store ∧
      v = (s.markForNext i).access.kind.mark (s.run.mem pa) := by
  have mark := new
  change s.run.dtlb.dirtyWb (s.run.lookup i.mmu) s.run.ptw.dirtyWbReady = some (pa, v) at mark
  unfold Tlb.dirtyWb at mark
  obtain ⟨e, upgrade, same⟩ := Option.map_eq_some_iff.mp mark
  obtain ⟨rfl, rfl⟩ := Prod.mk.inj same
  obtain ⟨high, low⟩ := careful.kept e upgrade
  obtain ⟨a, data, hit, store, allows⟩ : ∃ a, i.mmu.data = some a ∧
      s.run.dtlb.find a.va (satpAsid s.run.satp) = some e ∧ a.kind = .store ∧
      e.2.dataFault (s.run.dataLookup a) = false := by
    unfold Tlb.dirtyUpgradeNow at upgrade
    split_ifs at upgrade
    obtain ⟨l, lookup, req⟩ := Option.bind_eq_some_iff.mp upgrade
    unfold MmuRun.lookup at lookup
    split_ifs at lookup
    obtain ⟨a, data, rfl⟩ := Option.map_eq_some_iff.mp lookup
    obtain ⟨hit, allowed⟩ := Option.filter_eq_some_iff.mp req
    simp only [Bool.and_eq_true, Bool.not_eq_true'] at allowed
    exact ⟨a, data, hit, beq_iff_eq.mp allowed.1.1.1, allowed.2⟩
  obtain ⟨va, leaf, found, walks⟩ := MmuRun.hit_found consistent.dtlb hit
  have for_ : s.markForNext i = ⟨a, s.run.satp⟩ := by
    unfold markForNext
    rw [new, data]
  rw [found.ptePa] at high low
  rw [found.dataFault a (by simp [store]) s.run, Bool.not_eq_false'] at allows
  rw [for_, found.ptePa]
  exact ⟨⟨⟨leaf, walks, rfl⟩, allows⟩, store, by rw [store, rebuilt found high low]⟩

/-- No write takes away what a store would set. -/
theorem mark_kept (consistent : MmuRun.Consistent s.run) (planned : Planned s)
    (careful : s.Careful i) (pa : Pa) :
    AccessKind.store.mark (s.run.mem pa) = AccessKind.store.mark ((s.next i).run.mem pa) := by
  rw [mem_next careful.fixed]
  cases writes : s.run.writes i.mmu with
  | none => rfl
  | some w =>
    obtain ⟨-, value⟩ := writes_right consistent planned writes
    simp only [Option.elim_some, writeWord]
    split
    next here => rw [value, mark_mark, here]
    next => rfl

/-- The mark that waits is what its store would set. -/
theorem mark_next (consistent : MmuRun.Consistent s.run) (planned : Planned s)
    (careful : s.Careful i) (pending : (s.next i).run.ptw.dirtyWb = some (pa, v)) :
    (s.markForNext i).Allowed s.run.mem pa ∧ (s.markForNext i).access.kind = .store ∧
      v = (s.markForNext i).access.kind.mark (s.run.mem pa) := by
  change (s.run.ptw.next (s.run.ptwIn i.mmu)).dirtyWb = _ at pending
  rw [Ptw.dirtyWb_next] at pending
  split at pending
  next => cases pending
  next =>
    obtain old | ⟨-, new⟩ := Option.or_eq_some_iff.mp pending
    · have none_ : (s.run.ptwIn i.mmu).dirtyWb = none := by
        simp [MmuRun.ptwIn, Tlb.dirtyWb, Tlb.dirtyUpgradeNow, Ptw.dirtyWbReady, old]
      have keeps : s.markForNext i = s.markFor := by simp [markForNext, none_]
      rw [keeps]
      exact planned.mark pa v old
    · exact marked_next consistent careful new

theorem planned_next (consistent : MmuRun.Consistent s.run) (planned : Planned s)
    (careful : s.Careful i) : Planned (s.next i) := by
  have same (a : Pa) : SamePte ((s.next i).run.mem a) (s.run.mem a) :=
    MmuRun.mem_next consistent.written careful.fixed a
  constructor
  case walk =>
    intro busy fills
    have ptw : (s.next i).run.ptw = _ := Ptw.next_of_busy busy
    rw [ptw] at busy fills ⊢
    exact walkFor_next planned busy fills
  case write =>
    intro writes fills
    have ptw : (s.next i).run.ptw = _ := Ptw.next_of_busy fun idle => by cases idle.symm.trans writes
    rw [ptw] at writes fills ⊢
    have kept : (s.next i).run.mem = s.run.mem := by
      rw [mem_next careful.fixed, no_write writes]
      rfl
    rw [kept]
    exact writing_next consistent planned careful writes fills
  case again =>
    exact Ptw.mark_of_writes planned.again
  case mark =>
    intro pa v pending
    obtain ⟨allowed, store, value⟩ := mark_next consistent planned careful pending
    refine ⟨allowed.same same, store, ?_⟩
    change v = (s.markForNext i).access.kind.mark _
    rw [store] at value ⊢
    rw [value]
    exact mark_kept consistent planned careful pa

theorem invariant_of_reach (reach : (updateRuns mem).Reach Careful s) :
    MmuRun.Consistent s.run ∧ Planned s := by
  refine reach.invariant (fun s => MmuRun.Consistent s.run ∧ Planned s) ?_
    fun s i _ holds keeps careful =>
      ⟨MmuRun.consistent_next holds.1 keeps careful.fixed, planned_next holds.1 holds.2 careful⟩
  refine ⟨MmuRun.consistent_of_reach (.reset (m := mmuRuns mem)), ?_⟩
  constructor <;> simp [updateRuns, mmuRuns, Ptw.reset]

/-- In a careful run a cycle changes memory only by setting A, and D for a store, in the leaf of an
access that the leaf allows. -/
theorem updates_right (reach : (updateRuns mem).Reach Careful s) (careful : s.Careful i) :
    (s.next i).run.mem = s.run.mem ∨
      ∃ pa, s.updater.Allowed s.run.mem pa ∧ (s.next i).run.mem =
        writeWord s.run.mem pa (s.updater.access.kind.mark (s.run.mem pa)) := by
  obtain ⟨consistent, planned⟩ := invariant_of_reach reach
  rw [mem_next careful.fixed]
  cases writes : s.run.writes i.mmu with
  | none => exact .inl rfl
  | some w =>
    obtain ⟨allowed, value⟩ := writes_right consistent planned writes
    refine .inr ⟨w.1, allowed, ?_⟩
    rw [← value]
    rfl

end UpdateRun

-- ---------------------------------------------------------------------
-- A page of the supervisor
-- ---------------------------------------------------------------------

open UpdateRun

def restUpdate (mmu : MmuIn) : UpdateIn := ⟨mmu, privU⟩

def readAs (priv : BitVec 2) : Access := ⟨.load, 0, priv, false, false⟩

/-- A load is walked for, whose leaf has no A yet. -/
def asks (priv : BitVec 2) (leaf : Pte) : UpdateRun :=
  (updateRuns (rootOf leaf)).run (updateRuns (rootOf leaf)).reset
    [restUpdate { restIn with satpWrite := some 0x8000000000000001 },
     restUpdate { restIn with data := some (readAs priv) }]

def waits (priv : BitVec 2) (leaf : Pte) : UpdateRun :=
  (updateRuns (rootOf leaf)).next (asks priv leaf) (restUpdate { restIn with l2ReqAccepted := true })

def marks (priv : BitVec 2) (leaf : Pte) : UpdateRun :=
  (updateRuns (rootOf leaf)).next (waits priv leaf)
    (restUpdate { restIn with l2Resp := some ⟨0x1000, leaf.setWidth 512⟩ })

def acked : UpdateIn := restUpdate { restIn with dcacheStoreAck := true }

theorem mem_rest {s : UpdateRun} {i : UpdateIn} (store : i.mmu.store = none)
    (ack : i.mmu.dcacheStoreAck = false) : (s.next i).run.mem = s.run.mem := by
  rw [mem_next store]
  simp [MmuRun.writes, ack]

theorem mem_waits (priv : BitVec 2) (leaf : Pte) : (waits priv leaf).run.mem = rootOf leaf := by
  have asked : (asks priv leaf).run.mem = rootOf leaf := (mem_rest rfl rfl).trans (mem_rest rfl rfl)
  exact (mem_rest rfl rfl).trans asked

theorem careful_quiet {s : UpdateRun} {i : UpdateIn} (store : i.mmu.store = none)
    (resp : i.mmu.l2Resp = none) (data : ∀ a, i.mmu.data = some a → a.kind = .load) :
    s.Careful i where
  fixed := store
  fresh := by simp [resp]
  allowed := by simp [Ptw.pteResp, MmuRun.ptwIn, resp]
  kept := by
    intro e upgrade
    unfold Tlb.dirtyUpgradeNow at upgrade
    split_ifs at upgrade
    obtain ⟨l, lookup, req⟩ := Option.bind_eq_some_iff.mp upgrade
    unfold MmuRun.lookup at lookup
    split_ifs at lookup
    obtain ⟨a, here, rfl⟩ := Option.map_eq_some_iff.mp lookup
    have load : (AccessKind.load == AccessKind.store) = false := rfl
    obtain ⟨-, allowed⟩ := Option.filter_eq_some_iff.mp req
    simp [MmuRun.dataLookup, data a here, load] at allowed

/-- What the L2 may do in these runs. -/
theorem keeps_rest {s : UpdateRun} {mmu : MmuIn} (accepts : mmu.l2ReqAccepted = false)
    (resp : mmu.l2Resp = none) : s.run.Keeps (restUpdate mmu).mmu := keeps_quiet accepts resp

theorem asks_reach (priv : BitVec 2) (leaf : Pte) :
    (updateRuns (rootOf leaf)).Reach Careful (asks priv leaf) := by
  refine .cycle (.cycle .reset ?_ ?_) ?_ ?_
  · exact keeps_rest rfl rfl
  · exact careful_quiet rfl rfl (by simp [restUpdate, restIn])
  · exact keeps_rest rfl rfl
  · exact careful_quiet rfl rfl (by simp [restUpdate, readAs])

theorem waits_reach {priv : BitVec 2} {leaf : Pte}
    (asked : (asks priv leaf).run.ptw.l2ReqValid = true) :
    (updateRuns (rootOf leaf)).Reach Careful (waits priv leaf) := by
  refine (asks_reach priv leaf).cycle ?_ ?_
  · exact ⟨fun _ => asked, by simp [restUpdate, restIn], by simp [restUpdate, restIn]⟩
  · exact careful_quiet rfl rfl (by simp [restUpdate, restIn])

/-- The L2 answers with the line of the root. -/
theorem waits_keeps {priv : BitVec 2} {leaf : Pte}
    (sent : (waits priv leaf).run.sent = some 0x1000) :
    (waits priv leaf).run.Keeps
      (restUpdate { restIn with l2Resp := some ⟨0x1000, leaf.setWidth 512⟩ }).mmu := by
  refine ⟨by simp [restUpdate, restIn], fun r resp => ?_, fun r resp a line aligned => ?_⟩
  · obtain rfl := Option.some.inj resp
    rw [sent]
  · obtain rfl := Option.some.inj resp
    rw [root_line leaf a line aligned, mem_waits]
    exact .refl _

theorem careful_marks : (waits privS 0x07).Careful
    (restUpdate { restIn with l2Resp := some ⟨0x1000, (0x07 : Pte).setWidth 512⟩ }) where
  fixed := rfl
  fresh r resp a line aligned := by
    obtain rfl := Option.some.inj resp
    rw [root_line 0x07 a line aligned, mem_waits]
  allowed pte _ resp _ _ := by
    have word : (waits privS 0x07).run.ptw.pteResp ((waits privS 0x07).run.ptwIn
        (restUpdate { restIn with l2Resp := some ⟨0x1000, (0x07 : Pte).setWidth 512⟩ }).mmu) =
          some 0x07 := by decide +kernel
    obtain rfl := Option.some.inj (word.symm.trans resp)
    decide +kernel
  kept e upgrade := by
    simp [Tlb.dirtyUpgradeNow, MmuRun.lookup, restUpdate, restIn] at upgrade

theorem marks_reach : (updateRuns (rootOf 0x07)).Reach Careful (marks privS 0x07) :=
  (waits_reach (by decide +kernel)).cycle (waits_keeps (by decide +kernel)) careful_marks

/-- The supervisor's own load sets A. -/
theorem updates_right_load :
    ((marks privS 0x07).next acked).run.mem = (marks privS 0x07).run.mem ∨
      ∃ pa, (marks privS 0x07).updater.Allowed (marks privS 0x07).run.mem pa ∧
        ((marks privS 0x07).next acked).run.mem = writeWord (marks privS 0x07).run.mem pa
          ((marks privS 0x07).updater.access.kind.mark ((marks privS 0x07).run.mem pa)) :=
  updates_right marks_reach (careful_quiet rfl rfl (by simp [acked, restUpdate, restIn]))

/-- A load of the user sets A in a page of the supervisor, and faults. -/
theorem refused_load_marks : ∃ s, (updateRuns (rootOf 0x07)).Reachable s ∧ s.run.Keeps acked.mmu ∧
    s.updater.access = readAs privU ∧ s.run.mem 0x1000 = 0x07 ∧
    (s.next acked).run.mem 0x1000 = 0x47 ∧
    reference s.run.mem s.run.satp (readAs privU) = .error excLoadPageFault := by
  refine ⟨marks privU 0x07, ?_, keeps_rest rfl rfl, ?_, ?_, ?_, ?_⟩
  · have waits := (@waits_reach privU 0x07 (by decide +kernel)).reachable
    exact waits.cycle (waits_keeps (by decide +kernel))
  · rfl
  · decide +kernel
  · decide +kernel
  · decide +kernel

end Rv64gc.Mmu
