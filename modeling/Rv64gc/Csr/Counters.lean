import Rv64gc.Csr.Context
import Rv64gc.Csr.Traps

/-!
# The counters over a run

`mcycle` counts the cycles and `minstret` the instructions that retire: a fused pair counts for two,
an instruction that traps for none. Each stands still in the cycles it is inhibited in.
-/

namespace Rv64gc.Csr

open Hdl Backend CommitIn

-- ---------------------------------------------------------------------
-- What is counted
-- ---------------------------------------------------------------------

/-- The instructions of the entries that leave without an exception. -/
def retiredInsns (s : CsrFile) (x : CoreIn) : Nat :=
  (((List.range pipeWidth).filter fun i =>
    ((commitIn s x).commitOut i).valid && !(x.head i).hasException).map fun i => (x.head i).insns).sum

/-- The cycles of a run that `mcycle` is not inhibited in. -/
def cyclesIn (s : CsrFile) : List CoreIn → Nat
  | [] => 0
  | x :: rest => (if s.mcountinhibit.getLsbD 0 then 0 else 1) + cyclesIn (privilegeRuns.next s x) rest

/-- The instructions that retire in the cycles of a run that `minstret` is not inhibited in. -/
def retiredIn (s : CsrFile) : List CoreIn → Nat
  | [] => 0
  | x :: rest => (if s.mcountinhibit.getLsbD 2 then 0 else retiredInsns s x) +
      retiredIn (privilegeRuns.next s x) rest

/-- No counter is written. -/
def Untouched (s : CsrFile) (x : CoreIn) : Prop :=
  (csrIn s x).writeValid = true →
    (csrIn s x).writeAddr ∉ [csrMcycle, csrCycle, csrMinstret, csrInstret]

def UntouchedIn (s : CsrFile) : List CoreIn → Prop
  | [] => True
  | x :: rest => Untouched s x ∧ UntouchedIn (privilegeRuns.next s x) rest

variable {s : CsrFile} {x : CoreIn}

-- ---------------------------------------------------------------------
-- One cycle
-- ---------------------------------------------------------------------

/-- The entries that retire are the first `r`. -/
theorem retiredInsns_eq (g : (commitIn s x).Retired r) :
    retiredInsns s x = ((List.range r).map fun i => (x.head i).insns).sum := by
  have width : r ≤ pipeWidth := by
    by_contra wide
    have leaves := (g.slots pipeWidth).mpr (Nat.lt_of_not_le wide)
    exact Nat.not_lt_of_le (commitCount_le _) ((commitOut_valid _ _).mp leaves.1)
  have slot (i : Nat) :
      (((commitIn s x).commitOut i).valid && !(x.head i).hasException) = decide (i < r) := by
    rw [Bool.eq_iff_iff, Bool.and_eq_true, Bool.not_eq_true', decide_eq_true_eq]
    exact g.slots i
  have first : (List.range pipeWidth).filter (fun i => decide (i < r)) = List.range r := by
    have cut : pipeWidth = r + (pipeWidth - r) := by omega
    rw [cut, List.range_add, List.filter_append, List.filter_eq_self.mpr, List.filter_eq_nil_iff.mpr,
      List.append_nil]
    · intro i inside
      obtain ⟨k, -, rfl⟩ := List.mem_map.mp inside
      simp
    · intro i inside
      exact decide_eq_true (List.mem_range.mp inside)
  unfold retiredInsns
  simp only [slot, first]

/-- What commit counts are the instructions of the entries that retire. -/
theorem retired_count (s : CsrFile) (x : CoreIn) :
    (csrIn s x).insnRetiredCount.setWidth 64 = BitVec.ofNat 64 (retiredInsns s x) := by
  obtain ⟨r, g⟩ := exists_retired (commitIn s x)
  rw [retiredCount_eq g, retiredInsns_eq g]

theorem csrWrite_counters (s t : CsrFile) (i : CsrIn)
    (apart : i.writeAddr ∉ [csrMcycle, csrCycle, csrMinstret, csrInstret]) :
    (s.csrWrite t i).mcycle = t.mcycle ∧ (s.csrWrite t i).minstret = t.minstret := by
  simp only [List.mem_cons, List.not_mem_nil, or_false, not_or] at apart
  obtain ⟨mcycle, cycle, minstret, instret⟩ := apart
  unfold CsrFile.csrWrite
  constructor
  · simp only [apply_ite CsrFile.mcycle, ite_self, decide_eq_false mcycle, decide_eq_false cycle,
      Bool.or_false, Bool.false_eq_true, if_false]
  · simp only [apply_ite CsrFile.minstret, ite_self, decide_eq_false minstret,
      decide_eq_false instret, Bool.or_false, Bool.false_eq_true, if_false]

/-- Traps, returns and writes elsewhere leave the counts of the cycle. -/
theorem next_counters (untouched : Untouched s x) :
    (privilegeRuns.next s x).mcycle = (s.count (csrIn s x)).mcycle ∧
      (privilegeRuns.next s x).minstret = (s.count (csrIn s x)).minstret := by
  cases trap : (csrIn s x).trapValid with
  | true =>
    simp only [privilegeRuns, CsrFile.next, trap, if_true, CsrFile.trapEntry]
    split <;> exact ⟨rfl, rfl⟩
  | false =>
    cases mret : (csrIn s x).mretValid with
    | true =>
      simp only [privilegeRuns, CsrFile.next, trap, mret, Bool.false_eq_true, if_false, if_true]
      exact ⟨rfl, rfl⟩
    | false =>
      cases sret : (csrIn s x).sretValid with
      | true =>
        simp only [privilegeRuns, CsrFile.next, trap, mret, sret, Bool.false_eq_true, if_false,
          if_true]
        exact ⟨rfl, rfl⟩
      | false =>
        rw [next_plain trap mret sret]
        split
        next writes => exact csrWrite_counters _ _ _ (untouched writes)
        next => exact ⟨rfl, rfl⟩

theorem mcycle_next (untouched : Untouched s x) : (privilegeRuns.next s x).mcycle =
    s.mcycle + BitVec.ofNat 64 (if s.mcountinhibit.getLsbD 0 then 0 else 1) := by
  rw [(next_counters untouched).1]
  simp only [CsrFile.count]
  split <;> simp

theorem minstret_next (untouched : Untouched s x) : (privilegeRuns.next s x).minstret =
    s.minstret + BitVec.ofNat 64 (if s.mcountinhibit.getLsbD 2 then 0 else retiredInsns s x) := by
  rw [(next_counters untouched).2]
  simp only [CsrFile.count, retired_count]
  split <;> simp

-- ---------------------------------------------------------------------
-- Runs
-- ---------------------------------------------------------------------

/-- While no counter is written both are exact, modulo 2^64. -/
theorem counters_exact (s : CsrFile) (xs : List CoreIn) (untouched : UntouchedIn s xs) :
    (privilegeRuns.run s xs).mcycle = s.mcycle + BitVec.ofNat 64 (cyclesIn s xs) ∧
      (privilegeRuns.run s xs).minstret = s.minstret + BitVec.ofNat 64 (retiredIn s xs) := by
  induction xs generalizing s with
  | nil => simp [Machine.run, cyclesIn, retiredIn]
  | cons x rest ih =>
    obtain ⟨here, later⟩ := untouched
    obtain ⟨cycles, insns⟩ := ih (privilegeRuns.next s x) later
    rw [mcycle_next here] at cycles
    rw [minstret_next here] at insns
    constructor
    · rw [Machine.run, cycles, cyclesIn, BitVec.ofNat_add, BitVec.add_assoc]
    · rw [Machine.run, insns, retiredIn, BitVec.ofNat_add, BitVec.add_assoc]

/-- A NOP retires, the ECALL after it traps. -/
theorem counters_exact_ecall :
    (privilegeRuns.run .reset [retireAlone 0x00000013, retireAlone ecallInsn]).mcycle = 2 ∧
      (privilegeRuns.run .reset [retireAlone 0x00000013, retireAlone ecallInsn]).minstret = 1 := by
  have untouched : UntouchedIn .reset [retireAlone 0x00000013, retireAlone ecallInsn] := by
    refine ⟨fun writes => ?_, fun writes => ?_, trivial⟩
    · exact absurd writes (by decide +kernel)
    · exact absurd writes (by decide +kernel)
  obtain ⟨cycles, insns⟩ := counters_exact _ _ untouched
  rw [cycles, insns]
  exact ⟨by decide +kernel, by decide +kernel⟩

end Rv64gc.Csr
