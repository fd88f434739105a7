import Mathlib.Data.Nat.Basic
import Rv64gc.Hdl.Index

/-!
# Core parameters

The sizes `rv64gc_pkg` fixes for the blocks modelled here.
-/

namespace Rv64gc

/-- Slots per stage: decode, rename, dispatch and commit are all this wide. -/
abbrev pipeWidth : Nat := 4

abbrev archRegs : Nat := 32

abbrev intPrfDepth : Nat := 160
abbrev fpPrfDepth : Nat := 96

/-- Floating-point physical tags start above the integer ones. -/
abbrev fpPhysBase : Nat := intPrfDepth

abbrev intFreeListDepth : Nat := intPrfDepth - archRegs
abbrev fpFreeListDepth : Nat := fpPrfDepth - archRegs

abbrev robDepth : Nat := 128
abbrev robIdxBits : Nat := 7

abbrev numCheckpoints : Nat := 64
abbrev checkpointBits : Nat := 6

abbrev rasDepth : Nat := 24
abbrev ghrBits : Nat := 64

-- ---------------------------------------------------------------------
-- Names of registers and checkpoints
-- ---------------------------------------------------------------------

abbrev ArchReg := BitVec 5

/-- A physical register tag; no tag the core makes exceeds 8 bits. -/
abbrev PhysReg := Nat

abbrev CkptId := Fin numCheckpoints
abbrev RobIdx := BitVec robIdxBits

end Rv64gc
