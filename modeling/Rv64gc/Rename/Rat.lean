import Rv64gc.Pkg
import Rv64gc.Hdl.Table

/-!
# The register alias table

`rat.sv`: the speculative map, the committed map and one copy of the map per checkpoint. There is
one instance for the integer registers, in which `x0` is never written, and one for the
floating-point registers.
-/

namespace Rv64gc.Rename

open Hdl

structure Rat where
  table : ArchReg → PhysReg
  committed : ArchReg → PhysReg
  ckpt : CkptId → ArchReg → PhysReg

structure RatIn where
  wrEn : Nat → Bool
  wrArch : Nat → ArchReg
  wrPhys : Nat → PhysReg
  commitWrEn : Nat → Bool
  commitArch : Nat → ArchReg
  commitPhys : Nat → PhysReg
  ckptSave : Bool
  ckptSaveId : CkptId
  /-- The slot of the branch whose checkpoint is taken. -/
  ckptSaveSlot : Nat
  ckptRestore : Bool
  ckptRestoreId : CkptId
  flush : Bool

namespace Rat

/-- Architectural register `a` is held in physical register `a`. -/
def identity (a : ArchReg) : PhysReg := a.toNat

def reset : Rat := ⟨identity, identity, fun _ => identity⟩

variable (protectZero : Bool) (s : Rat) (i : RatIn)

/-- A source of slot `k`: the latest write of an earlier slot, or the table. -/
def read (k : Nat) (arch : ArchReg) : PhysReg :=
  bypass i.wrEn i.wrArch i.wrPhys (s.table arch) arch k

def oldPhys (k : Nat) : PhysReg := s.read i k (i.wrArch k)

/-- The writes of the slots before `slots`. -/
def written (slots : Nat) : ArchReg → PhysReg :=
  writeEach (fun k => decide (k < slots) && i.wrEn k && (!protectZero || i.wrArch k != 0))
    i.wrArch i.wrPhys s.table pipeWidth

def committedNext : ArchReg → PhysReg :=
  writeEach (fun k => i.commitWrEn k && (!protectZero || i.commitArch k != 0))
    i.commitArch i.commitPhys s.committed pipeWidth

def next : Rat where
  table :=
    -- Commits of the flushing cycle are part of the map that is restored.
    if i.flush then s.committedNext protectZero i
    else if i.ckptRestore then s.ckpt i.ckptRestoreId
    else s.written protectZero i pipeWidth
  committed := s.committedNext protectZero i
  ckpt c :=
    if i.ckptSave && c == i.ckptSaveId then s.written protectZero i i.ckptSaveSlot else s.ckpt c

-- ---------------------------------------------------------------------
-- The map of x0
-- ---------------------------------------------------------------------

/-- Every copy of the map holds `x0` in `p0`. -/
structure ZeroHeld (s : Rat) : Prop where
  table : s.table 0 = 0
  committed : s.committed 0 = 0
  ckpt : ∀ c, s.ckpt c 0 = 0

theorem zeroHeld_reset : ZeroHeld .reset := ⟨rfl, rfl, fun _ => rfl⟩

variable {s} {i}

theorem written_zero (held : ZeroHeld s) (slots : Nat) : s.written true i slots 0 = 0 := by
  refine (writeEach_of_none fun k _ on => ?_).trans held.table
  simp only [Bool.not_true, Bool.false_or, Bool.and_eq_true, bne_iff_ne] at on
  exact on.2

theorem committedNext_zero (held : ZeroHeld s) : s.committedNext true i 0 = 0 := by
  refine (writeEach_of_none fun k _ on => ?_).trans held.committed
  simp only [Bool.not_true, Bool.false_or, Bool.and_eq_true, bne_iff_ne] at on
  exact on.2

theorem zeroHeld_next (held : ZeroHeld s) : ZeroHeld (s.next true i) := by
  refine ⟨?_, committedNext_zero held, fun c => ?_⟩
  · simp only [next]
    split
    · exact committedNext_zero held
    split
    · exact held.ckpt _
    · exact written_zero held _
  · simp only [next]
    split
    · exact written_zero held _
    · exact held.ckpt c

end Rat

end Rv64gc.Rename
