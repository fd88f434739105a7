import Mathlib.Order.Monotone.Basic
import Rv64gc.Hdl.Machine

/-!
# Progress

What happens in the end, in a run without an end. A rank that no cycle raises, and that cannot stay
where it is for ever, leads to the goal.
-/

namespace Rv64gc.Hdl

variable {State Input : Type}

/-- An endless run from some state on, of legal cycles. -/
structure Machine.Trace (m : Machine State Input) (start : State) (state : Nat → State)
    (input : Nat → Input) : Prop where
  start : state 0 = start
  legal : ∀ n, m.legal (state n) (input n)
  next : ∀ n, state (n + 1) = m.next (state n) (input n)

namespace Machine.Trace

variable {m : Machine State Input} {start : State} {state : Nat → State} {input : Nat → Input}

/-- Each of its states is one of the runs that reach the first. -/
theorem reachable (trace : m.Trace start state input) (reach : m.Reachable start) (n : Nat) :
    m.Reachable (state n) := by
  induction n with
  | zero => exact trace.start ▸ reach
  | succ n ih =>
    rw [trace.next n]
    exact ih.cycle (trace.legal n)

end Machine.Trace

/-- While a rank only falls, it comes to rest. -/
theorem exists_rest (rank : Nat → Nat) (falls : ∀ n, rank (n + 1) ≤ rank n) (n : Nat) :
    ∃ m, n ≤ m ∧ ∀ k, m ≤ k → rank k = rank m := by
  induction low : rank n using Nat.strongRecOn generalizing n with
  | ind r ih =>
    by_cases rests : ∀ k, n ≤ k → rank k = rank n
    · exact ⟨n, Nat.le_refl n, rests⟩
    · simp only [not_forall] at rests
      obtain ⟨k, later, moves⟩ := rests
      have lower : rank k ≤ rank n := antitone_nat_of_succ_le falls later
      obtain ⟨m, from_, rest⟩ := ih (rank k) (by omega) k rfl
      exact ⟨m, Nat.le_trans later from_, rest⟩

/-- A rank that falls until the goal, and does not rest before it, leads to the goal. -/
theorem leads_to {P : Nat → Prop} (rank : Nat → Nat)
    (falls : ∀ n, ¬ P n → rank (n + 1) ≤ rank n)
    (restless : ∀ n, (∀ k, n ≤ k → ¬ P k) → ∃ k, n ≤ k ∧ rank (k + 1) ≠ rank k) (n : Nat) :
    ∃ m, n ≤ m ∧ P m := by
  by_contra never
  simp only [not_exists, not_and] at never
  obtain ⟨m, from_, rest⟩ := exists_rest (fun k => rank (n + k))
    (fun k => falls (n + k) (never (n + k) (Nat.le_add_right n k))) 0
  obtain ⟨k, later, moves⟩ :=
    restless (n + m) fun k later => never k (Nat.le_trans (Nat.le_add_right n m) later)
  have here := rest (k - n) (by omega)
  have there := rest (k + 1 - n) (by omega)
  simp only [show n + (k - n) = k by omega, show n + (k + 1 - n) = k + 1 by omega] at here there
  exact moves (there.trans here.symm)

end Rv64gc.Hdl
