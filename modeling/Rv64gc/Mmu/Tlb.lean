import Rv64gc.Hdl.Select
import Rv64gc.Isa

/-!
# Translation lookaside buffers

`itlb.sv` and `dtlb.sv`: fully associative, filled round robin by the page-table walker. They differ
in the permissions they check, and in that a store marks its page dirty.
-/

namespace Rv64gc.Mmu

open Hdl

abbrev Va := BitVec 64
abbrev Pa := BitVec 64
abbrev Vpn := BitVec 36
abbrev Ppn := BitVec 44
abbrev Asid := BitVec 16

abbrev itlbDepth : Nat := 16
abbrev dtlbDepth : Nat := 32

/-- What the walker writes into an entry. -/
structure Translation where
  vpn : Vpn
  ppn : Ppn
  asid : Asid
  pageSize : BitVec 2
  perm : BitVec 8
  /-- Where the leaf is in memory; the ITLB does not keep it. -/
  ptePa : Pa
deriving DecidableEq

namespace Translation

variable (t : Translation)

def v : Bool := t.perm.getLsbD 0
def r : Bool := t.perm.getLsbD 1
def w : Bool := t.perm.getLsbD 2
def x : Bool := t.perm.getLsbD 3
def u : Bool := t.perm.getLsbD 4
def g : Bool := t.perm.getLsbD 5
def a : Bool := t.perm.getLsbD 6
def d : Bool := t.perm.getLsbD 7

def vpnMatch (va : Va) : Bool :=
  let vpn : Vpn := va.extractLsb' 12 36
  if t.pageSize = 3 then vpn.extractLsb' 27 9 == t.vpn.extractLsb' 27 9
  else if t.pageSize = 2 then vpn.extractLsb' 18 18 == t.vpn.extractLsb' 18 18
  else if t.pageSize = 1 then vpn.extractLsb' 9 27 == t.vpn.extractLsb' 9 27
  else vpn == t.vpn

def translates (va : Va) (asid : Asid) : Bool := t.vpnMatch va && (t.g || t.asid == asid)

/-- `pa_assembled` -/
def pa (va : Va) : Pa :=
  if t.pageSize = 3 then 0#8 ++ t.ppn.extractLsb' 27 17 ++ va.extractLsb' 0 39
  else if t.pageSize = 2 then 0#8 ++ t.ppn.extractLsb' 18 26 ++ va.extractLsb' 0 30
  else if t.pageSize = 1 then 0#8 ++ t.ppn.extractLsb' 9 35 ++ va.extractLsb' 0 21
  else 0#8 ++ t.ppn ++ va.extractLsb' 0 12

/-- `perm_fault` of the ITLB -/
def fetchFault (priv : BitVec 2) : Bool :=
  !t.v || !t.x || if t.u then priv == privS else priv == privU

end Translation

/-- A data access as the DTLB sees it. -/
structure DataLookup where
  va : Va
  isStore : Bool
  priv : BitVec 2
  asid : Asid
  sum : Bool
  mxr : Bool

/-- `perm_fault` of the DTLB -/
def Translation.dataFault (t : Translation) (l : DataLookup) : Bool :=
  !t.v || !t.a || l.isStore && !t.w || !l.isStore && !t.r && !(l.mxr && t.x) ||
    if t.u then l.priv == privS && !l.sum else l.priv == privU

structure Tlb (n : Nat) where
  entry : Fin n → Option Translation
  rrPtr : Fin n

namespace Tlb

variable {n : Nat} [NeZero n]

def reset : Tlb n := ⟨fun _ => none, 0⟩

variable (s : Tlb n)

/-- `match_found` and `match_idx` -/
def lookup (va : Va) (asid : Asid) : Option (Fin n) :=
  firstOf fun i => (s.entry i).any fun t => t.translates va asid

/-- The translation that is hit. -/
def find (va : Va) (asid : Asid) : Option (Fin n × Translation) := do
  let i ← s.lookup va asid
  let t ← s.entry i
  return (i, t)

/-- An invalidation drops the fill of its cycle. -/
def next (invAll : Bool) (fill : Option Translation) : Tlb n :=
  if invAll then { s with entry := fun _ => none }
  else match fill with
    | some t => ⟨fun i => if i = s.rrPtr then some t else s.entry i, s.rrPtr + 1⟩
    | none => s

/-- The physical address of a fetch, on a hit without a fault. -/
def fetchPa (va : Va) (asid : Asid) (priv : BitVec 2) : Option Pa := do
  let (_, t) ← s.find va asid
  if t.fetchFault priv then none else some (t.pa va)

/-- `dirty_upgrade_req` -/
def dirtyUpgradeReq (l : DataLookup) : Option (Fin n × Translation) :=
  (s.find l.va l.asid).filter fun e => l.isStore && !e.2.d && e.2.v && !e.2.dataFault l

/-- The physical address of a data access; a store that has to mark its page dirty waits until the
walker takes the mark. -/
def dataPa (l : DataLookup) (dirtyWbReady : Bool) : Option Pa := do
  let (_, t) ← s.find l.va l.asid
  if t.dataFault l || (s.dirtyUpgradeReq l).isSome && !dirtyWbReady then none else some (t.pa l.va)

/-- `dirty_upgrade_now` -/
def dirtyUpgradeNow (l : Option DataLookup) (dirtyWbReady : Bool) :
    Option (Fin n × Translation) :=
  if dirtyWbReady then l.bind s.dirtyUpgradeReq else none

/-- `dirty_wb_pte_pa` and `dirty_wb_pte_value` -/
def dirtyWb (l : Option DataLookup) (dirtyWbReady : Bool) : Option (Pa × BitVec 64) :=
  (s.dirtyUpgradeNow l dirtyWbReady).map fun e =>
    (e.2.ptePa, 0#10 ++ e.2.ppn ++ 0#2 ++ (e.2.perm ||| 0x80#8))

/-- The mark is set in whatever the entry holds after the cycle. -/
def dataNext (l : Option DataLookup) (dirtyWbReady invAll : Bool) (fill : Option Translation) :
    Tlb n :=
  let t := s.next invAll fill
  match s.dirtyUpgradeNow l dirtyWbReady with
  | some (k, _) =>
    { t with entry := fun i =>
        if i = k then (t.entry i).map fun e => { e with perm := e.perm ||| 0x80#8 } else t.entry i }
  | none => t

-- ---------------------------------------------------------------------
-- Which entries there are
-- ---------------------------------------------------------------------

variable {s}

theorem find_some {s : Tlb m} {e : Fin m × Translation} (found : s.find va asid = some e) :
    s.entry e.1 = some e.2 := by
  simp only [find, Option.bind_eq_bind, Option.pure_def] at found
  obtain ⟨k, -, found⟩ := Option.bind_eq_some_iff.mp found
  obtain ⟨t, here, same⟩ := Option.bind_eq_some_iff.mp found
  obtain rfl := Option.some.inj same
  exact here

theorem find_match {s : Tlb m} {e : Fin m × Translation} (found : s.find va asid = some e) :
    e.2.vpnMatch va = true := by
  simp only [find, Option.bind_eq_bind, Option.pure_def] at found
  obtain ⟨k, first, found⟩ := Option.bind_eq_some_iff.mp found
  obtain ⟨t, here, same⟩ := Option.bind_eq_some_iff.mp found
  obtain rfl := Option.some.inj same
  have translates := firstOf_some first
  simp only [here, Option.any_some, Translation.translates, Bool.and_eq_true] at translates
  exact translates.1

theorem dataPa_eq {s : Tlb m} (found : s.find l.va l.asid = some e)
    (translated : s.dataPa l ready = some pa) : pa = e.2.pa l.va := by
  unfold dataPa at translated
  rw [found] at translated
  simp only [Option.bind_eq_bind, Option.bind_some] at translated
  split at translated
  · cases translated
  · exact (Option.some.inj translated).symm

theorem next_entry (present : (s.next invAll fill).entry k = some t) :
    invAll = false ∧ (fill.isSome = true ∧ k = s.rrPtr ∨
      ¬(fill.isSome = true ∧ k = s.rrPtr) ∧ s.entry k = some t) := by
  unfold next at present
  split at present
  next => cases present
  next keep =>
    refine ⟨by simpa using keep, ?_⟩
    cases fill with
    | none => exact .inr ⟨by simp, present⟩
    | some filled =>
      by_cases here : k = s.rrPtr
      · exact .inl ⟨rfl, here⟩
      · exact .inr ⟨by simp [here], by simpa [here] using present⟩

/-- A mark creates no entry. -/
theorem dataNext_entry (present : (s.dataNext l ready invAll fill).entry k = some t) :
    ∃ t', (s.next invAll fill).entry k = some t' := by
  unfold dataNext at present
  dsimp only at present
  split at present
  next =>
    dsimp only at present
    split at present
    next =>
      obtain ⟨t', here, -⟩ := Option.map_eq_some_iff.mp present
      exact ⟨t', here⟩
    next => exact ⟨t, present⟩
  next => exact ⟨t, present⟩

end Tlb

end Rv64gc.Mmu
