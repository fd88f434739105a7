import Rv64gc.Csr.CsrFile

/-!
# Which interrupt is requested

The privileged architecture takes the first interrupt, in the order MEI, MSI, MTI, SEI, SSI, STI,
that is pending, enabled in `mie` and takeable where it is delegated to. The CSR file scans the
same order but decides at the first source its scan stops at, whether or not that one is
takeable.
-/

namespace Rv64gc.Csr

open Hdl

-- ---------------------------------------------------------------------
-- The architecture's choice
-- ---------------------------------------------------------------------

inductive IrqSource where
  | mExt | mSoft | mTimer | sExt | sSoft | sTimer
deriving DecidableEq

namespace IrqSource

def bit : IrqSource → Nat
  | mExt => irqMExt
  | mSoft => irqMSoft
  | mTimer => irqMTimer
  | sExt => irqSExt
  | sSoft => irqSSoft
  | sTimer => irqSTimer

def supervisor : IrqSource → Bool
  | mExt | mSoft | mTimer => false
  | sExt | sSoft | sTimer => true

/-- Highest first. -/
def priority : List IrqSource := [mExt, mSoft, mTimer, sExt, sSoft, sTimer]

theorem mem_priority (n : IrqSource) : n ∈ priority := by
  cases n <;> decide

theorem irqCause_inj {m n : IrqSource} (same : irqCause m.bit = irqCause n.bit) : m = n := by
  cases m <;> cases n <;> first | rfl | exact absurd same (by decide)

end IrqSource

namespace CsrFile

/-- Pending and enabled. -/
def Asserted (s : CsrFile) (l : IrqLines) (n : IrqSource) : Bool :=
  (s.mipEff l).getLsbD n.bit && s.mie.getLsbD n.bit

def delegated (s : CsrFile) (n : IrqSource) : Bool := s.mideleg.getLsbD n.bit

/-- Not delegated: below machine mode, or MIE. Delegated: user mode, or supervisor mode with
SIE. -/
def takeable (s : CsrFile) (n : IrqSource) : Bool :=
  if s.delegated n then s.priv == privU || (s.priv == privS && s.sie)
  else s.priv != privM || s.mIe

def deliverable (s : CsrFile) (l : IrqLines) (n : IrqSource) : Bool :=
  s.Asserted l n && s.takeable n

def highest (s : CsrFile) (l : IrqLines) : Option IrqSource :=
  IrqSource.priority.find? (s.deliverable l)

/-- The request is raised iff some interrupt can be delivered, and names the highest one. -/
def IrqRight (s : CsrFile) (l : IrqLines) : Prop :=
  ((s.irq l).pending = true ↔ ∃ n, s.deliverable l n = true) ∧
    ((s.irq l).pending = true → ∃ n, s.highest l = some n ∧ (s.irq l).cause = irqCause n.bit)

-- ---------------------------------------------------------------------
-- The source the scan stops at
-- ---------------------------------------------------------------------

/-- Machine-level sources are passed over where machine mode masks them; the first
supervisor-level one that is pending and enabled always ends the scan. -/
def scanStop (s : CsrFile) (l : IrqLines) : Option IrqSource :=
  IrqSource.priority.find? fun n => s.Asserted l n && (n.supervisor || s.mTakes)

/-- The source the scan stops at is takeable; or it is a supervisor-level one, nothing at all is
deliverable, and the privilege is not the reserved value 2 with SIE set and that source
delegated. -/
def HidesNothing (s : CsrFile) (l : IrqLines) : Prop :=
  ∀ c, s.scanStop l = some c →
    s.takeable c = true ∨
      c.supervisor = true ∧ (∀ n, s.deliverable l n = false) ∧
        ¬(s.priv = 2 ∧ s.sie = true ∧ s.delegated c = true)

variable {s : CsrFile} {l : IrqLines} {c n : IrqSource}

theorem irq_eq_scanStop (s : CsrFile) (l : IrqLines) :
    s.irq l =
      match s.scanStop l with
      | none => .none
      | some c => if c.supervisor then s.sBranch c.bit else ⟨true, irqCause c.bit, false⟩ := by
  simp only [irq, scanStop, IrqSource.priority, List.find?_cons, List.find?_nil, Asserted,
    IrqSource.bit, IrqSource.supervisor, Bool.false_or, Bool.true_or, Bool.and_true]
  generalize ((s.mipEff l).getLsbD irqMExt && s.mie.getLsbD irqMExt && s.mTakes) = mExt
  generalize ((s.mipEff l).getLsbD irqMSoft && s.mie.getLsbD irqMSoft && s.mTakes) = mSoft
  generalize ((s.mipEff l).getLsbD irqMTimer && s.mie.getLsbD irqMTimer && s.mTakes) = mTimer
  generalize ((s.mipEff l).getLsbD irqSExt && s.mie.getLsbD irqSExt) = sExt
  generalize ((s.mipEff l).getLsbD irqSSoft && s.mie.getLsbD irqSSoft) = sSoft
  generalize ((s.mipEff l).getLsbD irqSTimer && s.mie.getLsbD irqSTimer) = sTimer
  cases mExt with
  | true => rfl
  | false =>
    cases mSoft with
    | true => rfl
    | false =>
      cases mTimer with
      | true => rfl
      | false =>
        cases sExt with
        | true => rfl
        | false =>
          cases sSoft with
          | true => rfl
          | false => cases sTimer <;> rfl

/-- Where machine mode masks interrupts nothing is takeable. -/
theorem mTakes_of_takeable (takes : s.takeable n = true) : s.mTakes = true := by
  unfold takeable at takes
  unfold mTakes
  cases h : s.delegated n with
  | true =>
    simp only [h, if_true, Bool.or_eq_true, Bool.and_eq_true, beq_iff_eq] at takes
    rcases takes with user | ⟨supervisor, -⟩
    · rw [user]
      exact Bool.true_or _
    · rw [supervisor]
      exact Bool.true_or _
  | false => simpa [h] using takes

theorem scanned_of_deliverable (delivers : s.deliverable l n = true) :
    (s.Asserted l n && (n.supervisor || s.mTakes)) = true := by
  obtain ⟨asserted, takes⟩ := Bool.and_eq_true_iff.mp delivers
  simp [asserted, mTakes_of_takeable takes]

/-- The supervisor branch raises its source where it is takeable, and in one more case. -/
theorem sBranch_pending (s : CsrFile) (c : IrqSource) :
    (s.sBranch c.bit).pending = true ↔
      s.takeable c = true ∨ (s.priv = 2 ∧ s.sie = true ∧ s.delegated c = true) := by
  unfold sBranch takeable mTakes delegated
  rw [apply_ite Irq.pending, apply_ite Irq.pending]
  dsimp only [Irq.none]
  generalize s.priv = priv
  generalize s.sie = sie
  generalize s.mIe = mIe
  generalize s.mideleg.getLsbD c.bit = delegated
  revert priv sie mIe delegated
  decide

theorem sBranch_cause (raised : (s.sBranch c.bit).pending = true) :
    (s.sBranch c.bit).cause = irqCause c.bit := by
  unfold sBranch at raised ⊢
  split
  · rfl
  · split
    · rfl
    · rename_i h1 h2
      rw [if_neg h1, if_neg h2] at raised
      exact absurd raised Bool.false_ne_true

theorem highest_of_scanStop (stop : s.scanStop l = some c) (takes : s.takeable c = true) :
    s.deliverable l c = true ∧ s.highest l = some c := by
  obtain ⟨scanned, before, after, split, passed⟩ := List.find?_eq_some_iff_append.mp stop
  have delivers : s.deliverable l c = true := by
    unfold deliverable
    rw [takes, (Bool.and_eq_true_iff.mp scanned).1]
    rfl
  refine ⟨delivers, List.find?_eq_some_iff_append.mpr ⟨delivers, before, after, split, ?_⟩⟩
  intro m member
  have notScanned := passed m member
  cases h : s.deliverable l m with
  | true => rw [scanned_of_deliverable h] at notScanned; exact notScanned
  | false => rfl

theorem deliverable_of_highest (top : s.highest l = some n) : s.deliverable l n = true :=
  List.find?_some top

-- ---------------------------------------------------------------------
-- When the request is right
-- ---------------------------------------------------------------------

/-- The source the scan stops at is raised: then it has to be takeable. -/
theorem irqRight_of_raised (stop : s.scanStop l = some c) (raised : (s.irq l).pending = true)
    (cause : (s.irq l).cause = irqCause c.bit) : s.IrqRight l ↔ s.takeable c = true := by
  constructor
  · rintro ⟨-, names⟩
    obtain ⟨n, top, same⟩ := names raised
    obtain rfl := IrqSource.irqCause_inj (cause.symm.trans same)
    exact (Bool.and_eq_true_iff.mp (deliverable_of_highest top)).2
  · intro takes
    obtain ⟨delivers, top⟩ := highest_of_scanStop stop takes
    exact ⟨⟨fun _ => ⟨c, delivers⟩, fun _ => raised⟩, fun _ => ⟨c, top, cause⟩⟩

theorem irqRight_of_idle (idle : (s.irq l).pending = false) :
    s.IrqRight l ↔ ∀ n, s.deliverable l n = false := by
  simp [IrqRight, idle]

/-- The request is right exactly where the scan hides nothing. -/
theorem irq_right_iff (s : CsrFile) (l : IrqLines) : s.IrqRight l ↔ s.HidesNothing l := by
  have scan := irq_eq_scanStop s l
  unfold HidesNothing
  cases stop : s.scanStop l with
  | none =>
    rw [stop] at scan
    have idle : (s.irq l).pending = false := congrArg Irq.pending scan
    rw [irqRight_of_idle idle]
    refine iff_of_true (fun n => ?_) fun c h => by cases h
    cases h : s.deliverable l n with
    | false => rfl
    | true =>
      have passed := List.find?_eq_none.mp stop n n.mem_priority
      exact absurd (scanned_of_deliverable h) passed
  | some c =>
    rw [stop] at scan
    simp only [Option.some.injEq, forall_eq']
    cases level : c.supervisor with
    | false =>
      simp only [level, Bool.false_eq_true, if_false] at scan
      rw [irqRight_of_raised stop (by rw [scan]) (by rw [scan])]
      simp
    | true =>
      simp only [level, if_true] at scan
      have raises := sBranch_pending s c
      rw [← scan] at raises
      cases raised : (s.irq l).pending with
      | true =>
        have cause := sBranch_cause (scan ▸ raised)
        rw [irqRight_of_raised stop raised (by rw [scan]; exact cause)]
        have reserved := raises.mp raised
        constructor
        · exact .inl
        · rintro (takes | ⟨-, -, notReserved⟩)
          · exact takes
          · exact reserved.resolve_right notReserved
      | false =>
        rw [irqRight_of_idle raised]
        have quiet : ¬(s.takeable c = true ∨ _) := fun h =>
          Bool.false_ne_true (raised.symm.trans (raises.mpr h))
        obtain ⟨passes, notReserved⟩ := not_or.mp quiet
        constructor
        · exact fun none => .inr ⟨rfl, none, notReserved⟩
        · rintro (takes | ⟨-, none, -⟩)
          · exact absurd takes passes
          · exact none

/-- Supervisor mode with SIE clear: a delegated external interrupt and a software interrupt left
to machine mode are both pending and enabled. -/
def maskedExternal : CsrFile :=
  { CsrFile.reset with
    priv := privS
    mie := 0x202#64
    mip := 0x202#64
    mideleg := 0x200#64 }

/-- The masked external interrupt hides the software interrupt that machine mode could take. -/
theorem masked_interrupt_hides_takeable :
    ¬maskedExternal.IrqRight ⟨false, false, false, false, false, false⟩ := by
  rintro ⟨raised, -⟩
  have delivers : maskedExternal.deliverable ⟨false, false, false, false, false, false⟩ .sSoft =
      true := by decide
  exact absurd (raised.mpr ⟨.sSoft, delivers⟩) (by decide)

end CsrFile

end Rv64gc.Csr
