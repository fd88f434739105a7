import Mathlib.Logic.Basic
import Rv64gc.Hdl.Index

/-!
# Synchronous machines

A clocked block has a reset state and a next-state function of its state and the inputs of one
cycle. The environment drives the legal inputs only. Everything proved about runs goes through
`Reach.invariant`: an invariant holds at reset and every legal cycle keeps it.
-/

namespace Rv64gc.Hdl

/-- A clocked block with the inputs its environment may drive in each state. -/
structure Machine (State Input : Type) where
  reset : State
  next : State → Input → State
  legal : State → Input → Prop

namespace Machine

variable {State Input : Type} {m : Machine State Input} {P Q : State → Input → Prop}

/-- The states of the runs whose cycles are all legal and all meet `P`. -/
inductive Reach (m : Machine State Input) (P : State → Input → Prop) : State → Prop
  | reset : Reach m P m.reset
  | cycle : Reach m P s → m.legal s i → P s i → Reach m P (m.next s i)

/-- The states of all legal runs. -/
def Reachable (m : Machine State Input) : State → Prop :=
  m.Reach fun _ _ => True

theorem Reach.invariant (Inv : State → Prop) (reset : Inv m.reset)
    (cycle : ∀ s i, m.Reach P s → Inv s → m.legal s i → P s i → Inv (m.next s i))
    (reach : m.Reach P s) : Inv s := by
  induction reach with
  | reset => exact reset
  | cycle before legal holds ih => exact cycle _ _ before ih legal holds

theorem Reach.mono (imp : ∀ s i, P s i → Q s i) (reach : m.Reach P s) : m.Reach Q s := by
  induction reach with
  | reset => exact .reset
  | cycle _ legal holds ih => exact .cycle ih legal (imp _ _ holds)

theorem Reach.reachable (reach : m.Reach P s) : m.Reachable s :=
  reach.mono fun _ _ _ => trivial

theorem Reachable.cycle (reach : m.Reachable s) (legal : m.legal s i) : m.Reachable (m.next s i) :=
  Reach.cycle reach legal trivial

/-- The state a list of inputs leads to. -/
def run (m : Machine State Input) (s : State) : List Input → State
  | [] => s
  | i :: rest => m.run (m.next s i) rest

theorem run_append (m : Machine State Input) (s : State) (first rest : List Input) :
    m.run s (first ++ rest) = m.run (m.run s first) rest := by
  induction first generalizing s with
  | nil => rfl
  | cons i first ih => exact ih (m.next s i)

/-- Every cycle of the list is legal in the state it finds. -/
def Legal (m : Machine State Input) (s : State) : List Input → Prop
  | [] => True
  | i :: rest => m.legal s i ∧ m.Legal (m.next s i) rest

theorem Reachable.run (reach : m.Reachable s) (legal : m.Legal s inputs) :
    m.Reachable (m.run s inputs) := by
  induction inputs generalizing s with
  | nil => exact reach
  | cons i rest ih => exact ih (reach.cycle legal.1) legal.2

end Machine

end Rv64gc.Hdl
