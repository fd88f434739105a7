import Rv64gc.Decode.Fusion

/-!
# Exceptions through fusion

A slot with an exception has to reach rename as itself, behind everything older. The patterns look
at the operation fields only, and an illegal instruction keeps those, so a slot survives exactly
when the pair chosen for it, if any, is free of exceptions.
-/

namespace Rv64gc.Decode

open Hdl

namespace Window

/-- Output `p` is slot `j` with its PC and its exception, is no fused operation, stands for that
slot alone, is the only one to stand for it, and comes after the outputs of all older slots. -/
structure KeepsException (w : Window) (j p : Nat) : Prop where
  emitted : p < w.decCountOut
  same : w.decOut p = w.slot j
  unfused : (w.decOut p).isFused = false
  alone : w.origin p = [j]
  only : ∀ q, j ∈ w.origin q → q = p
  older : ∀ i, i < j → ∃ q, q < p ∧ i ∈ w.origin q

/-- No exception in either slot of a chosen pair. -/
def PairsClean (w : Window) : Prop :=
  w.ChosenPairs fun a b => a.hasException = false ∧ b.hasException = false

variable {w : Window}

/-- Which slot an output that stands for `j` starts at. -/
theorem mem_origin (member : j ∈ w.origin q) :
    (w.kept[q]? = some j) ∨ ∃ k, j = k + 1 ∧ w.starts k = true ∧ w.kept[q]? = some k := by
  cases kept : w.kept[q]? with
  | none => simp [origin, kept] at member
  | some i =>
    rw [origin_eq kept] at member
    split at member
    · rename_i starts
      rcases List.mem_cons.mp member with rfl | member
      · exact .inl rfl
      · exact .inr ⟨i, List.mem_singleton.mp member, starts, rfl⟩
    · exact .inl (congrArg some (List.mem_singleton.mp member).symm)

theorem kept_spec (kept : w.kept[q]? = some i) :
    i < pipeWidth ∧ w.consumed i = false ∧ rank (fun i => !w.consumed i) i = q := by
  obtain ⟨inside, stays, lands⟩ := getElem?_packed_iff.mp kept
  exact ⟨inside, by simpa using stays, lands⟩

/-- A slot outside all fused pairs is emitted as it is. -/
theorem keepsException (decoded : w.FromDecode) (inside : j < w.count)
    (first : w.starts j = false) (second : w.consumed j = false) :
    w.KeepsException j (rank (fun i => !w.consumed i) j) := by
  have few := decoded.fits
  have kept := kept_rank (w := w) (show j < pipeWidth by omega) second
  have same : w.decOut (rank (fun i => !w.consumed i) j) = w.slot j := by
    simp [decOut, kept, emit, first]
  refine ⟨rank_lt_decCountOut decoded inside second, same, ?_, ?_, ?_, ?_⟩
  · rw [same]
    exact slot_isFused decoded inside
  · rw [origin_eq kept, first]
    rfl
  · intro q member
    rcases mem_origin member with at_ | ⟨k, rfl, starts, -⟩
    · exact (kept_spec at_).2.2.symm
    · exact absurd (second.symm.trans starts) Bool.false_ne_true
  · intro i before
    obtain ⟨q, most, member, less⟩ := covered decoded (Nat.lt_trans before inside)
    refine ⟨q, ?_, member⟩
    cases consumed : w.consumed i with
    | true => exact Nat.lt_of_lt_of_le (less consumed) (rank_mono _ (Nat.le_of_lt before))
    | false => exact Nat.lt_of_le_of_lt most (rank_lt (by simp [consumed]) before)

/-- A slot that an output keeps is in no fused pair. -/
theorem not_paired (keeps : w.KeepsException j p) :
    w.starts j = false ∧ w.consumed j = false := by
  have member : j ∈ w.origin p := keeps.alone ▸ List.mem_singleton_self j
  rcases mem_origin member with kept | ⟨k, rfl, starts, kept⟩
  · refine ⟨?_, (kept_spec kept).2.1⟩
    have alone := keeps.alone
    rw [origin_eq kept] at alone
    cases starts : w.starts j with
    | false => rfl
    | true => simp [starts] at alone
  · have alone := keeps.alone
    rw [origin_eq kept, if_pos starts] at alone
    simp at alone

/-- Fusion keeps every exception of a decoded window iff the pairs it chooses are free of them. -/
theorem fusion_keeps_exceptions (decoded : w.FromDecode) :
    (∀ j, j < w.count → (w.slot j).hasException = true → ∃ p, w.KeepsException j p) ↔
      w.PairsClean := by
  unfold PairsClean
  rw [chosenPairs_iff]
  constructor
  · intro keeps k starts
    have inside := starts_inside decoded starts
    constructor
    · cases exc : (w.slot k).hasException with
      | false => rfl
      | true =>
        obtain ⟨p, kept⟩ := keeps k (Nat.lt_of_succ_lt inside) exc
        exact absurd ((not_paired kept).1.symm.trans starts) Bool.false_ne_true
    · cases exc : (w.slot (k + 1)).hasException with
      | false => rfl
      | true =>
        obtain ⟨p, kept⟩ := keeps (k + 1) inside exc
        exact absurd ((not_paired kept).2.symm.trans starts) Bool.false_ne_true
  · intro clean j inside exc
    have first : w.starts j = false := by
      cases starts : w.starts j with
      | false => rfl
      | true => exact absurd ((clean j starts).1.symm.trans exc) Bool.false_ne_true
    have second : w.consumed j = false := by
      cases j with
      | zero => rfl
      | succ k =>
        cases starts : w.consumed (k + 1) with
        | false => rfl
        | true => exact absurd ((clean k starts).2.symm.trans exc) Bool.false_ne_true
    exact ⟨_, keepsException decoded inside first second⟩

-- ---------------------------------------------------------------------
-- An illegal JALR behind an AUIPC
-- ---------------------------------------------------------------------

def auipcX1 : BitVec 32 := 0x00000097
/-- The JALR opcode with funct3 = 1, which does not exist. -/
def illegalJalrX1 : BitVec 32 := 0x000090E7

theorem fusion_keeps_exceptions_lone :
    ∃ p, (decodedWindow [illegalJalrX1]).KeepsException 0 p := by
  have decoded := fromDecode_decodedWindow [illegalJalrX1] (by decide)
  refine (fusion_keeps_exceptions decoded).mpr ?_ 0 (by decide) (by decide)
  exact ⟨fun h => absurd h (by decide), fun _ h => absurd h (by decide),
    fun _ h => absurd h (by decide)⟩

/-- The illegal instruction is fused away: the only output is a jump without an exception. -/
theorem fusion_drops_illegal_jalr :
    (decodedWindow [auipcX1, illegalJalrX1]).FromDecode ∧
      ((decodedWindow [auipcX1, illegalJalrX1]).slot 1).hasException = true ∧
      (∀ p, ¬(decodedWindow [auipcX1, illegalJalrX1]).KeepsException 1 p) ∧
      (decodedWindow [auipcX1, illegalJalrX1]).decCountOut = 1 ∧
      ((decodedWindow [auipcX1, illegalJalrX1]).decOut 0).hasException = false := by
  have pair : (decodedWindow [auipcX1, illegalJalrX1]).consumed 1 = true := by decide
  refine ⟨fromDecode_decodedWindow _ (by decide), by decide, fun p keeps => ?_, by decide, by decide⟩
  exact absurd ((not_paired keeps).2.symm.trans pair) Bool.false_ne_true

end Window

end Rv64gc.Decode
