import Mathlib.Data.List.MinMax
import Mathlib.Data.List.FinRange
import Mathlib.Order.WellFounded
import Rv64gc.Lsu.LoadQueue
import Rv64gc.Lsu.AccessMask

/-!
# The ordering check

`load_queue.sv`: when a store gets its address, the loads after it that have already read are looked
through for one that overlaps it, and the oldest such load is named. Two accesses overlap by masks of
eight bits inside one doubleword, which is not where every access lies.
-/

namespace Rv64gc.Lsu

open Hdl Backend

/-- `st_addr`, `st_size` and `st_rob_idx` -/
structure StoreAddr where
  addr : BitVec 64
  size : BitVec 2
  robIdx : RobIdx
deriving DecidableEq

namespace LoadQueue

variable (s : LoadQueue) (robHead : RobIdx) (x : StoreAddr)

/-- `addr_overlap` -/
def addrOverlap (e : LqEntry) : Bool :=
  sameDword e.addr x.addr &&
    accessMask e.addr e.size &&& accessMask x.addr x.size != 0

/-- A load after the store that has already executed. -/
def younger (e : LqEntry) : Bool :=
  e.valid && e.executed && robAgeFromHead robHead x.robIdx < robAgeFromHead robHead e.robIdx

/-- `viol_mask` -/
def violMask (j : LqIdx) : Bool :=
  younger robHead x (s.ring.slot j) && addrOverlap x (s.ring.slot j)

def violAge (j : LqIdx) : Nat := (robAgeFromHead robHead (s.ring.slot j).robIdx).toNat

/-- `ordering_violation` and `violation_rob_idx`: the first of the oldest marked entries. -/
def orderingViolation : Option RobIdx :=
  ((((List.finRange 32).map BitVec.ofFin).filter (s.violMask robHead x)).argmin
    (s.violAge robHead)).map fun j => (s.ring.slot j).robIdx

-- ---------------------------------------------------------------------
-- What it should say
-- ---------------------------------------------------------------------

/-- The load and the store have a byte in common. -/
def Overlap (e : LqEntry) : Prop :=
  ∃ i < accessBytes e.size, ∃ k < accessBytes x.size,
    e.addr + BitVec.ofNat 64 i = x.addr + BitVec.ofNat 64 k

/-- The load is after the store and has executed. -/
def After (e : LqEntry) : Prop :=
  e.valid = true ∧ e.executed = true ∧ offset robHead x.robIdx < offset robHead e.robIdx

/-- The load read a byte that the store writes. -/
def Stale (e : LqEntry) : Prop := After robHead x e ∧ Overlap x e

/-- A violation is reported if a load is stale, and names the oldest one. -/
def ChecksRight : Prop :=
  match s.orderingViolation robHead x with
  | none => ∀ j, ¬Stale robHead x (s.ring.slot j)
  | some r => ∃ j, Stale robHead x (s.ring.slot j) ∧ (s.ring.slot j).robIdx = r ∧
      ∀ k, Stale robHead x (s.ring.slot k) → offset robHead r ≤ offset robHead (s.ring.slot k).robIdx

variable {s : LoadQueue} {robHead : RobIdx} {x : StoreAddr} {e : LqEntry}

theorem younger_iff : younger robHead x e = true ↔ After robHead x e := by
  unfold younger After
  simp only [Bool.and_eq_true, decide_eq_true_eq, BitVec.lt_def, robAgeFromHead_toNat, and_assoc]

/-- What is reported, in terms of the masks. -/
theorem reported_none (silent : s.orderingViolation robHead x = none) (j : LqIdx) :
    s.violMask robHead x j = false := by
  rw [orderingViolation, Option.map_eq_none_iff, List.argmin_eq_none, List.filter_eq_nil_iff]
    at silent
  have out := silent j (List.mem_map.mpr ⟨j.toFin, List.mem_finRange _, rfl⟩)
  simpa using out

theorem reported_some (reported : s.orderingViolation robHead x = some r) :
    ∃ j, s.violMask robHead x j = true ∧ (s.ring.slot j).robIdx = r ∧
      ∀ k, s.violMask robHead x k = true →
        offset robHead r ≤ offset robHead (s.ring.slot k).robIdx := by
  obtain ⟨j, least, rfl⟩ := Option.map_eq_some_iff.mp reported
  have on := List.argmin_mem least
  refine ⟨j, (List.mem_filter.mp on).2, rfl, fun k marked => ?_⟩
  have there : k ∈ ((List.finRange 32).map BitVec.ofFin).filter (s.violMask robHead x) :=
    List.mem_filter.mpr ⟨List.mem_map.mpr ⟨k.toFin, List.mem_finRange _, rfl⟩, marked⟩
  have older := List.le_of_mem_argmin there least
  unfold violAge at older
  rwa [robAgeFromHead_toNat, robAgeFromHead_toNat] at older

theorem violMask_iff : s.violMask robHead x j = true ↔
    After robHead x (s.ring.slot j) ∧ addrOverlap x (s.ring.slot j) = true := by
  rw [violMask, Bool.and_eq_true, younger_iff]

theorem addrOverlap_iff (load : crossDword e.addr e.size = false)
    (store : crossDword x.addr x.size = false) : addrOverlap x e = true ↔ Overlap x e := by
  have loadMask (k : Nat) (few : k < 8) := accessMask_within load few
  have storeMask (k : Nat) (few : k < 8) := accessMask_within store few
  have fits : ¬8 < e.addr.toNat % 8 + accessBytes e.size := by
    rw [← crossDword_iff, load]
    exact Bool.false_ne_true
  have fits' : ¬8 < x.addr.toNat % 8 + accessBytes x.size := by
    rw [← crossDword_iff, store]
    exact Bool.false_ne_true
  unfold addrOverlap
  rw [Bool.and_eq_true, sameDword_iff, masks_meet]
  unfold Overlap
  constructor
  · rintro ⟨same, k, few, first, second⟩
    rw [loadMask k few, decide_eq_true_eq] at first
    rw [storeMask k few, decide_eq_true_eq] at second
    refine ⟨k - e.addr.toNat % 8, by omega, k - x.addr.toNat % 8, by omega, ?_⟩
    apply BitVec.eq_of_toNat_eq
    simp only [BitVec.toNat_add, BitVec.toNat_ofNat]
    omega
  · rintro ⟨i, first, k, second, same⟩
    have value := congrArg BitVec.toNat same
    simp only [BitVec.toNat_add, BitVec.toNat_ofNat] at value
    have small := e.addr.isLt
    have small' := x.addr.isLt
    have here : e.addr.toNat + i = x.addr.toNat + k := by omega
    refine ⟨by omega, e.addr.toNat % 8 + i, by omega, ?_, ?_⟩
    · rw [loadMask _ (by omega)]
      exact decide_eq_true ⟨by omega, by omega⟩
    · rw [storeMask _ (by omega)]
      exact decide_eq_true ⟨by omega, by omega⟩

/-- An executed load after the store that overlaps it by a byte or by the masks. -/
def Near (s : LoadQueue) (robHead : RobIdx) (x : StoreAddr) (j : LqIdx) : Prop :=
  Stale robHead x (s.ring.slot j) ∨ s.violMask robHead x j = true

/-- The oldest load that is near the store overlaps it by a byte and by the masks. -/
def FirstAgrees (s : LoadQueue) (robHead : RobIdx) (x : StoreAddr) : Prop :=
  ∀ j, s.Near robHead x j →
    (∀ k, s.Near robHead x k →
      offset robHead (s.ring.slot j).robIdx ≤ offset robHead (s.ring.slot k).robIdx) →
    (∃ k, Stale robHead x (s.ring.slot k) ∧ (s.ring.slot k).robIdx = (s.ring.slot j).robIdx) ∧
      ∃ k, s.violMask robHead x k = true ∧ (s.ring.slot k).robIdx = (s.ring.slot j).robIdx

theorem first_near (near : s.Near robHead x j) :
    ∃ j, s.Near robHead x j ∧ ∀ k, s.Near robHead x k →
      offset robHead (s.ring.slot j).robIdx ≤ offset robHead (s.ring.slot k).robIdx := by
  obtain ⟨j, there, least⟩ :=
    (measure fun j => offset robHead (s.ring.slot j).robIdx).wf.has_min
      {j | s.Near robHead x j} ⟨j, near⟩
  exact ⟨j, there, fun k near => Nat.le_of_not_lt (least k near)⟩

/-- So it is where the store and the loads lie each in one doubleword. -/
theorem checksRight_within (store : crossDword x.addr x.size = false)
    (loads : ∀ j, After robHead x (s.ring.slot j) →
      crossDword (s.ring.slot j).addr (s.ring.slot j).size = false) : s.ChecksRight robHead x := by
  have marked_iff (j : LqIdx) : s.violMask robHead x j = true ↔ Stale robHead x (s.ring.slot j) := by
    rw [violMask_iff]
    exact and_congr_right fun after => addrOverlap_iff (loads j after) store
  unfold ChecksRight
  cases reported : s.orderingViolation robHead x with
  | none =>
    intro j stale
    have marked := (marked_iff j).mpr stale
    rw [reported_none reported j] at marked
    cases marked
  | some r =>
    obtain ⟨j, marked, named, oldest⟩ := reported_some reported
    exact ⟨j, (marked_iff j).mp marked, named, fun k stale => oldest k ((marked_iff k).mpr stale)⟩

end LoadQueue

end Rv64gc.Lsu
