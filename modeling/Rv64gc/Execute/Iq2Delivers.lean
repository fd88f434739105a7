import Rv64gc.Execute.Iq2Squash

/-!
# What CDB[3] delivers

An operation of IQ2 that has issued is broadcast once, or is on its way. Only ALU3 and the CSR file
take the port without waiting, and they issue when it is free. It is not when an operation that FPnew
does not know leaves the request register, and with pipelined issue nothing sees that.
-/

namespace Rv64gc.Execute

open Hdl

/-- Up to the first flush everything that has issued has been broadcast once or is on its way. In any
cycle one of the FPU, ALU3 and the divider has the port, nothing completes over a division that is
held, and an operation that FPnew does not know leaves alone. -/
structure Iq2Run.Delivers (pipelined : Bool) (fpnew : FpnewFn) (s : Iq2Run) (i : Iq2In) :
    Prop where
  conserved : s.calm = true → s.sent + s.waiting fpnew = s.issued
  fpu : (s.port.fpuLive fpnew i).isSome = true →
    s.port.alu3Issue pipelined fpnew i = none ∧ s.port.divEff pipelined fpnew i = none
  alu : ∀ c, s.port.alu3Issue pipelined fpnew i = some c →
    s.port.cdb pipelined fpnew i = some (c.broadcast fpnew) ∧
      s.port.divEff pipelined fpnew i = none
  held : s.port.divHold.isSome = true → s.port.divValidLive i = none
  unsupported : s.port.fpuUnsupported i = true →
    ∀ b, s.port.cdb pipelined fpnew i = some b → b = s.port.fpuReq.broadcast fpnew
  answers : ∀ x, i.fpnewOut = some x → i.flush = none →
    s.port.cdb pipelined fpnew i = some (x.broadcast fpnew)

/-- With pipelined issue, no operation of ALU3 or the CSR file comes in the cycle in which one leaves
the request register that FPnew does not know, unless something else holds it back. -/
def Iq2Run.Clear (pipelined : Bool) (s : Iq2Run) (i : Iq2In) : Prop :=
  pipelined = true → s.port.fpuReqValid = true → s.port.fpuReq.isFmv = false →
    s.port.fpuReq.fpnewUnsupported = true → i.fpnewOut = none →
    ∀ c, i.candidate = some c → c.isNow = true →
      (c.isCsr = true ∧ i.notHead = true) ∨ s.port.divider.validOut = true ∨
        s.port.divHold.isSome = true

namespace Iq2Run

variable {pipelined : Bool} {fpnew : FpnewFn} {s : Iq2Run} {i : Iq2In}

-- ---------------------------------------------------------------------
-- The port
-- ---------------------------------------------------------------------

/-- What suppresses the issue keeps ALU3 and the CSR file from an operation that FPnew does not know
only in the cycles that are clear. -/
theorem alu3_alone (clear : Clear pipelined s i)
    (now : s.port.alu3Issue pipelined fpnew i = some c) : s.port.fpuUnsupported i = false := by
  obtain ⟨issued, isNow⟩ := Iq2Port.alu3_issued now
  obtain ⟨-, quiet, held⟩ := Iq2Port.alu3_quiet now
  cases unsupported : s.port.fpuUnsupported i with
  | false => rfl
  | true =>
    obtain ⟨valid, fmv, known, out⟩ := Iq2Port.fpuUnsupported_iff.1 unsupported
    obtain ⟨piped, -⟩ := Iq2Port.issued_ready issued valid
    have candidate := (Iq2Port.issued_free issued).1
    rcases clear piped valid fmv known out c candidate isNow with ⟨csr, notHead⟩ | fresh | held'
    · exact absurd notHead (by simp [Iq2Port.issued_csr issued csr])
    · exact absurd fresh (by simp [quiet])
    · exact absurd held' (by simp [held])

theorem fpuLive_none (clear : Clear pipelined s i)
    (now : s.port.alu3Issue pipelined fpnew i = some c) : s.port.fpuLive fpnew i = none := by
  cases live : s.port.fpuLive fpnew i with
  | none => rfl
  | some out =>
    rcases Iq2Port.fpuLive_busy (i := i) (by rw [live]; rfl) with unsupported | busy
    · exact absurd unsupported (by simp [alu3_alone clear now])
    · exact absurd busy (by simp [(Iq2Port.alu3_quiet now).1])

theorem cdb_alu (clear : Clear pipelined s i)
    (now : s.port.alu3Issue pipelined fpnew i = some c) :
    s.port.cdb pipelined fpnew i = some (c.broadcast fpnew) ∧
      s.port.divEff pipelined fpnew i = none := by
  have isNow := (Iq2Port.alu3_issued now).2
  refine ⟨?_, Iq2Port.divEff_free (by simp [Iq2Port.divPortBusy, now])⟩
  rw [Iq2Port.cdb, fpuLive_none clear now, Iq2Port.cdbHasException, alu3_alone clear now, now]
  cases c with
  | alu tag value port => rfl
  | csr tag value illegal port => simp [Iq2Op.broadcast]
  | div => cases isNow
  | fp => cases isNow

/-- ALU3 and the others give what they have, and only one of them has something. -/
theorem cdb_parts (clear : Clear pipelined s i) :
    one (s.port.cdb pipelined fpnew i) =
      one ((s.port.alu3Issue pipelined fpnew i).map (Iq2Op.broadcast fpnew)) +
        one (s.port.late pipelined fpnew i) := by
  cases now : s.port.alu3Issue pipelined fpnew i with
  | some c => simp [(cdb_alu clear now).1, Iq2Port.late, fpuLive_none clear now, now]
  | none => simp [Iq2Port.late, now]

theorem issue_parts :
    one ((s.port.issue pipelined fpnew i).map (Iq2Op.broadcast fpnew)) =
      one ((s.port.alu3Issue pipelined fpnew i).map (Iq2Op.broadcast fpnew)) +
        one ((s.port.lateIssue pipelined fpnew i).map (Iq2Op.broadcast fpnew)) := by
  unfold Iq2Port.alu3Issue Iq2Port.lateIssue
  cases s.port.issue pipelined fpnew i with
  | none => rfl
  | some c => cases now : c.isNow <;> simp [now, Option.filter]

/-- What is broadcast has left; what issues is broadcast or on its way. -/
theorem cycle_conserves (calm : i.flush = none) (sound : s.Sound)
    (legal : (iq2Runs pipelined fpnew).legal s i) (clear : Clear pipelined s i) :
    one (s.port.cdb pipelined fpnew i) + (s.next pipelined fpnew i).waiting fpnew =
      s.waiting fpnew + one ((s.port.issue pipelined fpnew i).map (Iq2Op.broadcast fpnew)) := by
  have part : i.fullFlush = false := by simp [Iq2In.fullFlush, calm]
  have cycle := cycle_survivors part (apart_calm pipelined fpnew s calm) sound legal
  rw [Multiset.filter_eq_self.2 fun b _ => by simp [Iq2In.spares, Iq2In.partlyClears, calm]]
    at cycle
  calc one (s.port.cdb pipelined fpnew i) + (s.next pipelined fpnew i).waiting fpnew
    _ = one ((s.port.alu3Issue pipelined fpnew i).map (Iq2Op.broadcast fpnew)) +
        ((s.next pipelined fpnew i).waiting fpnew + one (s.port.late pipelined fpnew i)) := by
      rw [cdb_parts clear]
      ac_rfl
    _ = _ := by
      rw [cycle, issue_parts]
      ac_rfl

theorem conserved_of_reach (reach : (iq2Runs pipelined fpnew).Reach (Clear pipelined) s) :
    s.Sound ∧ (s.calm = true → s.sent + s.waiting fpnew = s.issued) := by
  refine reach.invariant (fun s => s.Sound ∧ (s.calm = true → s.sent + s.waiting fpnew = s.issued))
    ⟨sound_reset, fun _ => rfl⟩ ?_
  intro s i _ ⟨sound, conserved⟩ legal clear
  refine ⟨sound.next, ?_⟩
  intro still
  obtain ⟨calm, noFlush⟩ : s.calm = true ∧ i.flush = none := by
    simpa [iq2Runs, next] using still
  have cycle := cycle_conserves noFlush sound legal clear
  show s.sent + one (s.port.cdb pipelined fpnew i) + (s.next pipelined fpnew i).waiting fpnew =
    s.issued + _
  rw [add_assoc, cycle, ← add_assoc, conserved calm]

/-- In a clear cycle the port loses nothing and mixes nothing. -/
theorem port_delivers (reach : (iq2Runs pipelined fpnew).Reach (Clear pipelined) s)
    (legal : (iq2Runs pipelined fpnew).legal s i) (clear : Clear pipelined s i) :
    s.Delivers pipelined fpnew i := by
  obtain ⟨⟨settled, plain, -⟩, conserved⟩ := conserved_of_reach reach
  constructor
  case conserved => exact conserved
  case fpu =>
    intro live
    refine ⟨?_, Iq2Port.divEff_none pipelined live⟩
    cases now : s.port.alu3Issue pipelined fpnew i with
    | none => rfl
    | some c => exact absurd live (by simp [fpuLive_none clear now])
  case alu => exact fun c now => cdb_alu clear now
  case held => exact settled.live
  case unsupported =>
    intro unsupported b cdb
    obtain ⟨-, fmv, known, -⟩ := Iq2Port.fpuUnsupported_iff.1 unsupported
    have none : s.port.alu3Issue pipelined fpnew i = none := by
      cases now : s.port.alu3Issue pipelined fpnew i with
      | none => rfl
      | some c => exact absurd unsupported (by simp [alu3_alone clear now])
    have eff : s.port.divEff pipelined fpnew i = Option.none :=
      Iq2Port.divEff_free (by simp [Iq2Port.divPortBusy, unsupported])
    rw [Iq2Port.cdb_other none, eff, Iq2Port.fpuCast, Iq2Port.fpuLive, unsupported,
      if_pos rfl] at cdb
    split at cdb
    · cases cdb
    · simp only [Option.map_some, Option.map_none, Option.or_none, Option.some.injEq] at cdb
      simp [← cdb, FpOp.broadcast, fmv, known]
  case answers =>
    intro x out calm
    have fpnewOut := plain_atFpnew plain x (legal x out)
    have fpuOut : s.port.fpuOut fpnew i = some (x.tag, fpnew x) := by
      simp [Iq2Port.fpuOut, out]
    have unsupported : s.port.fpuUnsupported i = false := by simp [Iq2Port.fpuUnsupported, out]
    have none : s.port.alu3Issue pipelined fpnew i = none := by
      cases now : s.port.alu3Issue pipelined fpnew i with
      | none => rfl
      | some c => exact absurd (Iq2Port.alu3_quiet now).1 (by simp [fpuOut])
    have spared : i.partlyClears x.tag.robIdx = false := by simp [Iq2In.partlyClears, calm]
    rw [Iq2Port.cdb_other none, Iq2Port.fpuCast, Iq2Port.fpuLive, unsupported, fpuOut]
    simp [FpOp.broadcast, fpnewOut.1, fpnewOut.2, Option.filter, spared]

end Iq2Run

-- ---------------------------------------------------------------------
-- An addition and what comes behind it
-- ---------------------------------------------------------------------

/-- FADD.S with a rounding mode. -/
def addWith (rm : BitVec 3) : FpOp :=
  ⟨⟨3, 40⟩, ⟨.s, .s, .i32, rm, .fma, .add, false, .sgnj, .wFromX⟩, rm, 0, 0, 0⟩

def comes (c : Iq2Op) : Iq2In := ⟨none, some c, false, true, none⟩

def aluBehind : Iq2Op := .alu ⟨4, 41⟩ 7 .none

/-- The addition has issued. -/
def afterAdd (rm : BitVec 3) : Iq2Run :=
  (iq2Runs true idleFpnew).next (iq2Runs true idleFpnew).reset
    (comes (.fp (addWith rm)))

theorem port_delivers_rounded :
    (afterAdd 0).Delivers true idleFpnew (comes aluBehind) ∧
      (afterAdd 0).port.cdb true idleFpnew (comes aluBehind) =
        some ⟨⟨4, 41⟩, 7, false, 0, .none⟩ := by
  refine ⟨Iq2Run.port_delivers (.cycle .reset ?_ ?_) ?_ ?_, by decide +kernel⟩
  · intro x out
    exact nomatch out
  · intro _ valid
    exact nomatch valid
  · intro x out
    exact nomatch out
  · intro _ _ _ known
    exact absurd known (by decide)

/-- The dynamic rounding mode while `frm` has none: ALU3 issues, and only the addition answers. -/
theorem alu3_lost : ¬ ∀ pipelined fpnew s i, (iq2Runs pipelined fpnew).Reachable s →
    (iq2Runs pipelined fpnew).legal s i → s.Delivers pipelined fpnew i := by
  intro delivers
  have reach : (iq2Runs true idleFpnew).Reachable (afterAdd 7) :=
    Machine.Reach.cycle .reset (fun _ out => nomatch out) trivial
  have delivered := delivers true _ _ (comes aluBehind) reach (fun _ out => nomatch out)
  have now : (afterAdd 7).port.alu3Issue true idleFpnew (comes aluBehind) =
    some aluBehind := by decide +kernel
  have cdb : (afterAdd 7).port.cdb true idleFpnew (comes aluBehind) =
    some ⟨⟨3, 40⟩, 0, true, 0, .none⟩ := by decide +kernel
  have own := (delivered.alu aluBehind now).1
  rw [cdb] at own
  exact absurd own (by decide)

end Rv64gc.Execute
