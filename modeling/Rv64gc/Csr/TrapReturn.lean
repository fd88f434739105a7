import Rv64gc.Csr.Context
import Rv64gc.Csr.Traps

/-!
# A trap and the way back

Each level has one place to save what it interrupts: a PC, an interrupt enable and a privilege. The
entry of a trap fills the place of its level and leaves the other alone, a return empties it again.
So a supervisor handler may be interrupted by machine handlers, and what was interrupted first goes
on as it was when the last handler has returned.
-/

namespace Rv64gc.Csr

open Hdl Backend CommitIn

-- ---------------------------------------------------------------------
-- Handlers
-- ---------------------------------------------------------------------

inductive Level where
  | machine
  | supervisor
deriving DecidableEq

/-- The PC a level has saved. -/
def CsrFile.epc (s : CsrFile) : Level → Word
  | .machine => s.mepc
  | .supervisor => s.sepc

/-- The bits of `mstatus` a level saves to: MPIE and MPP, or SPIE and SPP. -/
def Level.savedBits : Level → List Nat
  | .machine => [7, 11, 12]
  | .supervisor => [5, 8]

/-- A trap to the level is taken. -/
def Level.Enters (l : Level) (s : CsrFile) (x : CoreIn) : Prop :=
  (csrIn s x).trapValid = true ∧ (csrIn s x).trapToSupervisor = decide (l = .supervisor)

/-- The return instruction of the level retires. -/
structure Level.Returns (l : Level) (s : CsrFile) (x : CoreIn) : Prop where
  legal : privilegeRuns.legal s x
  leaves : ((commitIn s x).commitOut 0).valid = true
  mret : (x.head 0).isMret = decide (l = .machine)
  sret : (x.head 0).isSret = decide (l = .supervisor)

/-- No trap, no return, and no write to `mstatus` or a saved PC. -/
structure Undisturbed (s : CsrFile) (x : CoreIn) : Prop where
  trap : (csrIn s x).trapValid = false
  mret : (csrIn s x).mretValid = false
  sret : (csrIn s x).sretValid = false
  apart : (csrIn s x).writeValid = true →
    (csrIn s x).writeAddr ∉ [csrMstatus, csrSstatus, csrMepc, csrSepc]

/-- What runs: a handler, or the program that traps. -/
inductive Depth where
  | handler (l : Level)
  | program
deriving DecidableEq

/-- A machine handler is not interrupted, a supervisor handler by machine handlers only. -/
def Depth.Opens : Depth → Level → Prop
  | .handler .machine, _ => False
  | .handler .supervisor, l => l = .machine
  | .program, _ => True

/-- A run in which every trap returns, with the traps that its depth is open to. -/
inductive Nested : Depth → CsrFile → CsrFile → Prop
  | nil : Nested d s s
  | cycle (undisturbed : Undisturbed s x) (rest : Nested d (privilegeRuns.next s x) t) :
      Nested d s t
  | visit (opens : d.Opens l) (enters : l.Enters s x)
      (handler : Nested (.handler l) (privilegeRuns.next s x) u) (returns : l.Returns u y)
      (rest : Nested d (privilegeRuns.next u y) t) : Nested d s t

-- ---------------------------------------------------------------------
-- What is kept
-- ---------------------------------------------------------------------

/-- The privilege and the two interrupt enables. -/
structure Live (s t : CsrFile) : Prop where
  priv : t.priv = s.priv
  mIe : t.mIe = s.mIe
  sie : t.sie = s.sie

/-- The place of a level. -/
structure Saved (l : Level) (s t : CsrFile) : Prop where
  epc : t.epc l = s.epc l
  bits : ∀ k ∈ l.savedBits, t.mstatus.getLsbD k = s.mstatus.getLsbD k

/-- What a run at the depth leaves as it was. -/
structure Keeps (d : Depth) (s t : CsrFile) : Prop where
  live : Live s t
  saved : ∀ l, ¬d.Opens l → Saved l s t

variable {s t u : CsrFile} {x y : CoreIn} {l l' : Level} {d : Depth}

theorem Live.trans (first : Live s t) (then_ : Live t u) : Live s u where
  priv := then_.priv.trans first.priv
  mIe := then_.mIe.trans first.mIe
  sie := then_.sie.trans first.sie

theorem Saved.trans (first : Saved l s t) (then_ : Saved l t u) : Saved l s u where
  epc := then_.epc.trans first.epc
  bits k on := (then_.bits k on).trans (first.bits k on)

-- ---------------------------------------------------------------------
-- One cycle
-- ---------------------------------------------------------------------

/-- An undisturbed cycle changes FS at most. -/
theorem Undisturbed.mstatus (quiet : Undisturbed s x) {k : Nat} (width : k < 64)
    (fs : ¬(13 ≤ k ∧ k < 13 + 2)) :
    (privilegeRuns.next s x).mstatus.getLsbD k = s.mstatus.getLsbD k := by
  have dirty (ms : Word) : (putField ms 13 0b11#2).getLsbD k = ms.getLsbD k := by
    rw [getLsbD_putField _ _ _ _ width, if_neg fs]
  have accrued : (((s.count (csrIn s x)).accrueFp (csrIn s x)).mstatus).getLsbD k =
      s.mstatus.getLsbD k := by
    simp only [CsrFile.accrueFp, CsrFile.count]
    split
    · exact dirty _
    · rfl
  rw [next_plain quiet.trap quiet.mret quiet.sret]
  split
  next writes =>
    have apart := quiet.apart writes
    simp only [List.mem_cons, List.not_mem_nil, or_false, not_or] at apart
    rw [csrWrite_mstatus _ _ _ apart.1 apart.2.1]
    split
    · rw [dirty, accrued]
    · exact accrued
  next => exact accrued

theorem csrWrite_epc (s t : CsrFile) (i : CsrIn) (machine : i.writeAddr ≠ csrMepc)
    (supervisor : i.writeAddr ≠ csrSepc) : (s.csrWrite t i).epc l = t.epc l := by
  unfold CsrFile.csrWrite
  cases l with
  | machine => simp only [CsrFile.epc, apply_ite CsrFile.mepc, ite_self, if_neg machine]
  | supervisor => simp only [CsrFile.epc, apply_ite CsrFile.sepc, ite_self, if_neg supervisor]

theorem Undisturbed.epc (quiet : Undisturbed s x) (l : Level) :
    (privilegeRuns.next s x).epc l = s.epc l := by
  have accrued : ((s.count (csrIn s x)).accrueFp (csrIn s x)).epc l = s.epc l := by
    cases l <;> rfl
  rw [next_plain quiet.trap quiet.mret quiet.sret]
  split
  next writes =>
    have apart := quiet.apart writes
    simp only [List.mem_cons, List.not_mem_nil, or_false, not_or] at apart
    rw [csrWrite_epc _ _ _ apart.2.2.1 apart.2.2.2, accrued]
  next => exact accrued

theorem savedBits_range (on : k ∈ l.savedBits) : k < 64 ∧ ¬(13 ≤ k ∧ k < 13 + 2) := by
  cases l <;> simp only [Level.savedBits, List.mem_cons, List.not_mem_nil, or_false] at on <;> omega

theorem Undisturbed.keeps (quiet : Undisturbed s x) : Keeps d s (privilegeRuns.next s x) where
  live :=
    { priv := by
        show (s.next (csrIn s x)).priv = s.priv
        rw [next_priv, quiet.trap, quiet.mret, quiet.sret]
        rfl
      mIe := quiet.mstatus (by decide) (by decide)
      sie := quiet.mstatus (by decide) (by decide) }
  saved l _ :=
    { epc := quiet.epc l
      bits := fun k on => quiet.mstatus (savedBits_range on).1 (savedBits_range on).2 }

/-- The file behind the entry of a trap -/
theorem Level.Enters.next (enters : l.Enters s x) :
    privilegeRuns.next s x = (s.count (csrIn s x)).trapEntry (csrIn s x) := by
  simp [privilegeRuns, CsrFile.next, enters.1]

/-- A trap to supervisor mode comes from below machine mode. -/
theorem below_machine (enters : Level.supervisor.Enters s x) : s.priv ≠ privM := by
  obtain ⟨t, r, takes⟩ := takesTrap_of_valid enters.1
  have low : (commitIn s x).trapToSupervisor = true := enters.2
  cases takes with
  | exception raises =>
    rw [(commit_of_exception raises).2] at low
    simp only [Bool.and_eq_true, bne_iff_ne] at low
    exact low.1
  | interrupt taken source =>
    rw [level_of_interrupt taken] at low
    have pending : (s.irq x.lines).pending = true := ((takeInterrupt_iff _).mp taken).1
    have level : (s.irq x.lines).toSupervisor = true := low
    rw [(irq_of_source source pending).2] at level
    simp only [Bool.and_eq_true, bne_iff_ne] at level
    exact level.1.2

/-- The file behind a return -/
theorem Level.Returns.next (returns : l.Returns s x) :
    privilegeRuns.next s x =
      if l = .machine then (s.count (csrIn s x)).mret else (s.count (csrIn s x)).sret := by
  have ret : (x.head 0).isMret = true ∨ (x.head 0).isSret = true := by
    rw [returns.mret, returns.sret]
    cases l <;> simp
  have noTrap := trapValid_of_return returns.leaves ret (return_clean returns.legal ret)
  have mret : (csrIn s x).mretValid = decide (l = .machine) := by
    rw [← returns.mret, Bool.eq_iff_iff]
    exact (mretCommit_iff _).trans (and_iff_right returns.leaves)
  have sret : (csrIn s x).sretValid = decide (l = .supervisor) := by
    rw [← returns.sret, Bool.eq_iff_iff]
    exact (sretCommit_iff _).trans (and_iff_right returns.leaves)
  show s.next (csrIn s x) = _
  unfold CsrFile.next
  rw [noTrap, mret, sret]
  cases l <;> rfl

-- ---------------------------------------------------------------------
-- One visit of a handler
-- ---------------------------------------------------------------------

/-- The bits of `mstatus` behind an entry to machine mode. -/
theorem machine_entry_bit (enters : Level.machine.Enters s x) {k : Nat} (width : k < 64) :
    (privilegeRuns.next s x).mstatus.getLsbD k =
      if k = 3 then false else if k = 7 then s.mIe
      else if 11 ≤ k ∧ k < 13 then s.priv.getLsbD (k - 11) else s.mstatus.getLsbD k := by
  have high : (csrIn s x).trapToSupervisor = false := enters.2
  rw [enters.next]
  simp only [CsrFile.trapEntry, high, Bool.false_eq_true, if_false]
  rw [getLsbD_putField _ _ _ _ width, getLsbD_put, getLsbD_put]
  simp only [CsrFile.count, CsrFile.mIe, width, and_true]
  split_ifs <;> first | rfl | omega

theorem supervisor_entry_bit (enters : Level.supervisor.Enters s x) {k : Nat} (width : k < 64) :
    (privilegeRuns.next s x).mstatus.getLsbD k =
      if k = 1 then false else if k = 5 then s.sie
      else if k = 8 then s.priv != privU else s.mstatus.getLsbD k := by
  have low : (csrIn s x).trapToSupervisor = true := enters.2
  rw [enters.next]
  simp only [CsrFile.trapEntry, low, if_true]
  rw [getLsbD_put, getLsbD_put, getLsbD_put]
  simp only [CsrFile.count, CsrFile.sie, width, and_true]
  split_ifs <;> first | rfl | omega

theorem entry_epc (enters : l.Enters s x) (l' : Level) : (privilegeRuns.next s x).epc l' =
    if l' = l then (csrIn s x).trapPc else s.epc l' := by
  have level : (csrIn s x).trapToSupervisor = decide (l = .supervisor) := enters.2
  rw [enters.next]
  cases l <;> cases l' <;> simp [CsrFile.trapEntry, CsrFile.epc, CsrFile.count, level]

theorem entry_priv (enters : l.Enters s x) : (privilegeRuns.next s x).priv =
    if l = .machine then privM else privS := by
  have level : (csrIn s x).trapToSupervisor = decide (l = .supervisor) := enters.2
  rw [enters.next]
  cases l <;> simp [CsrFile.trapEntry, level]

/-- The bits of `mstatus` behind an MRET, MPRV and FS apart. -/
theorem mret_bit (returns : Level.machine.Returns u y) {k : Nat} (width : k < 64) (mprv : k ≠ 17) :
    (privilegeRuns.next u y).mstatus.getLsbD k =
      if k = 3 then u.mpie else if k = 7 then true
      else if 11 ≤ k ∧ k < 13 then privU.getLsbD (k - 11) else u.mstatus.getLsbD k := by
  rw [returns.next, if_pos rfl]
  have off (ms : Word) : (put ms 17 false).getLsbD k = ms.getLsbD k := by
    rw [getLsbD_put, if_neg fun same => mprv same.1.symm]
  have stacked (ms : Word) (b : Bool) : (if b then put ms 17 false else ms).getLsbD k =
      ms.getLsbD k := by
    cases b
    · rfl
    · exact off ms
  simp only [CsrFile.mret]
  rw [getLsbD_putField _ _ _ _ width, stacked, getLsbD_put, getLsbD_put]
  simp only [CsrFile.count, CsrFile.mpie, width, and_true]
  split_ifs <;> first | rfl | omega

theorem sret_bit (returns : Level.supervisor.Returns u y) {k : Nat} (width : k < 64)
    (mprv : k ≠ 17) : (privilegeRuns.next u y).mstatus.getLsbD k =
      if k = 1 then u.spie else if k = 5 then true else if k = 8 then false
      else u.mstatus.getLsbD k := by
  rw [returns.next, if_neg nofun]
  simp only [CsrFile.sret]
  rw [getLsbD_put, getLsbD_put, getLsbD_put, getLsbD_put]
  simp only [CsrFile.count, CsrFile.spie, width, and_true]
  split_ifs <;> first | rfl | omega

theorem return_epc (returns : l.Returns u y) (l' : Level) :
    (privilegeRuns.next u y).epc l' = u.epc l' := by
  rw [returns.next]
  cases l <;> cases l' <;> rfl

/-- A machine handler gives back what it was entered with. -/
theorem machine_visit (enters : Level.machine.Enters s x)
    (handler : Keeps (.handler .machine) (privilegeRuns.next s x) u)
    (returns : Level.machine.Returns u y) : Live s (privilegeRuns.next u y) := by
  have kept := (handler.saved .machine id).bits
  have saved {k : Nat} (on : k ∈ Level.machine.savedBits) :
      u.mstatus.getLsbD k = (privilegeRuns.next s x).mstatus.getLsbD k := kept k on
  constructor
  case mIe =>
    calc (privilegeRuns.next u y).mstatus.getLsbD 3 = u.mstatus.getLsbD 7 :=
          mret_bit returns (by decide) (by decide)
      _ = (privilegeRuns.next s x).mstatus.getLsbD 7 := saved (by decide)
      _ = s.mIe := machine_entry_bit enters (by decide)
  case sie =>
    calc (privilegeRuns.next u y).mstatus.getLsbD 1 = u.mstatus.getLsbD 1 :=
          mret_bit returns (by decide) (by decide)
      _ = (privilegeRuns.next s x).mstatus.getLsbD 1 := handler.live.sie
      _ = s.mstatus.getLsbD 1 := machine_entry_bit enters (by decide)
  case priv =>
    have back : (privilegeRuns.next u y).priv = u.mpp := by
      rw [returns.next, if_pos rfl]
      rfl
    rw [back]
    refine BitVec.eq_of_getLsbD_eq fun k inside => ?_
    have bit : u.mstatus.getLsbD (11 + k) = s.priv.getLsbD k := by
      have on : 11 + k ∈ Level.machine.savedBits := by
        obtain rfl | rfl : k = 0 ∨ k = 1 := by omega
        all_goals decide
      rw [saved on, machine_entry_bit enters (by omega), if_neg (by omega), if_neg (by omega),
        if_pos (by omega), Nat.add_sub_cancel_left]
    rw [CsrFile.mpp, BitVec.getLsbD_extractLsb', decide_eq_true inside, Bool.true_and]
    exact bit

/-- A supervisor handler does too, whatever machine handlers it was interrupted by. -/
theorem supervisor_visit (level : LegalPriv s.priv) (enters : Level.supervisor.Enters s x)
    (handler : Keeps (.handler .supervisor) (privilegeRuns.next s x) u)
    (returns : Level.supervisor.Returns u y) : Live s (privilegeRuns.next u y) := by
  have kept := (handler.saved .supervisor nofun).bits
  have saved {k : Nat} (on : k ∈ Level.supervisor.savedBits) :
      u.mstatus.getLsbD k = (privilegeRuns.next s x).mstatus.getLsbD k := kept k on
  constructor
  case mIe =>
    calc (privilegeRuns.next u y).mstatus.getLsbD 3 = u.mstatus.getLsbD 3 :=
          sret_bit returns (by decide) (by decide)
      _ = (privilegeRuns.next s x).mstatus.getLsbD 3 := handler.live.mIe
      _ = s.mstatus.getLsbD 3 := supervisor_entry_bit enters (by decide)
  case sie =>
    calc (privilegeRuns.next u y).mstatus.getLsbD 1 = u.mstatus.getLsbD 5 :=
          sret_bit returns (by decide) (by decide)
      _ = (privilegeRuns.next s x).mstatus.getLsbD 5 := saved (by decide)
      _ = s.sie := supervisor_entry_bit enters (by decide)
  case priv =>
    have back : (privilegeRuns.next u y).priv = if u.spp then privS else privU := by
      rw [returns.next, if_neg nofun]
      rfl
    have spp : u.spp = (s.priv != privU) :=
      (saved (by decide)).trans (supervisor_entry_bit enters (by decide))
    rw [back, spp]
    rcases level with user | supervisor | machine
    · rw [user]; rfl
    · rw [supervisor]; rfl
    · exact absurd machine (below_machine enters)

/-- A machine handler leaves the place of the supervisor level alone. -/
theorem machine_visit_saved (enters : Level.machine.Enters s x)
    (handler : Keeps (.handler .machine) (privilegeRuns.next s x) u)
    (returns : Level.machine.Returns u y) : Saved .supervisor s (privilegeRuns.next u y) where
  epc := by
    rw [return_epc returns, (handler.saved .supervisor id).epc, entry_epc enters, if_neg nofun]
  bits k on := by
    have apart : k < 64 ∧ k ≠ 17 ∧ k ≠ 3 ∧ k ≠ 7 ∧ ¬(11 ≤ k ∧ k < 13) := by
      simp only [Level.savedBits, List.mem_cons, List.not_mem_nil, or_false] at on
      omega
    obtain ⟨width, mprv, mie, mpie, mpp⟩ := apart
    rw [mret_bit returns width mprv, if_neg mie, if_neg mpie, if_neg mpp,
      (handler.saved .supervisor id).bits k on, machine_entry_bit enters width, if_neg mie,
      if_neg mpie, if_neg mpp]

-- ---------------------------------------------------------------------
-- Runs
-- ---------------------------------------------------------------------

theorem entry_legalPriv (enters : l.Enters s x) : LegalPriv (privilegeRuns.next s x).priv := by
  rw [entry_priv enters]
  cases l with
  | machine => exact .inr (.inr rfl)
  | supervisor => exact .inr (.inl rfl)

/-- In a run in which every trap returns, the place of a level it is not open to is never touched. -/
theorem Nested.keeps (run : Nested d s t) (level : LegalPriv s.priv) : Keeps d s t := by
  induction run with
  | nil => exact ⟨⟨rfl, rfl, rfl⟩, fun _ _ => ⟨rfl, fun _ _ => rfl⟩⟩
  | @cycle s x d t undisturbed rest ih =>
    have step : Keeps d s (privilegeRuns.next s x) := undisturbed.keeps
    have after := ih (step.live.priv ▸ level)
    exact ⟨step.live.trans after.live,
      fun l closed => (step.saved l closed).trans (after.saved l closed)⟩
  | @visit l s x u y d t opens enters handler returns rest inside ih =>
    have kept := inside (entry_legalPriv enters)
    cases l with
    | machine =>
      have live := machine_visit enters kept returns
      have after := ih (live.priv ▸ level)
      refine ⟨live.trans after.live, fun l closed => ?_⟩
      cases l with
      | machine => exact absurd opens closed
      | supervisor => exact (machine_visit_saved enters kept returns).trans (after.saved _ closed)
    | supervisor =>
      have live := supervisor_visit level enters kept returns
      have after := ih (live.priv ▸ level)
      refine ⟨live.trans after.live, fun l closed => ?_⟩
      -- Only the program is interrupted by a supervisor handler, and it saves nothing itself.
      rcases d with l' | _
      · cases l' with
        | machine => cases opens
        | supervisor => cases opens
      · exact absurd trivial closed

/-- A return redirects to the PC of its level. -/
theorem return_redirect (returns : l.Returns u y) :
    (commitIn u y).flushOut = (commitIn u y).fullFlushTo (u.epc l) := by
  have ret : (y.head 0).isMret = true ∨ (y.head 0).isSret = true := by
    rw [returns.mret, returns.sret]
    cases l <;> simp
  have clean : ((commitIn u y).head 0).hasException = false := return_clean returns.legal ret
  have asks : ((commitIn u y).head 0).asks .trapReturn = true := by
    rcases ret with mret | sret
    · simp [HeadEntry.asks, clean, show ((commitIn u y).head 0).isMret = true from mret]
    · simp [HeadEntry.asks, clean, show ((commitIn u y).head 0).isSret = true from sret]
  have serial := asks_serial asks (.inl rfl)
  simp only [HeadEntry.waits, Bool.and_eq_true] at serial
  have leaves := (commitOut_valid _ 0).mp returns.leaves
  have due : (commitIn u y).Due 0 :=
    due_of_leaves (Nat.lt_of_lt_of_le leaves (commitIn u y).commitCount_le_scan) serial.1
  cases ends_of_due due asks with
  | serial _ _ _ _ _ _ finds =>
    have found : (commitIn u y).scan.foundRet = true := by
      rw [finds.ret]
      exact (Bool.or_eq_true _ _).mpr ret
    have pc : (if ((commitIn u y).head 0).isMret then (commitIn u y).mepc
        else (commitIn u y).sepc) = u.epc l := by
      show (if (y.head 0).isMret = true then u.mepc else u.sepc) = _
      rw [returns.mret]
      cases l <;> rfl
    simp only [flushOut, finds.replay, finds.exception, finds.mispredict, Bool.false_eq_true,
      if_false, found, if_true, pc]
  | blocked stuck => exact absurd rfl (stuck due.leave).2.2
  | replays _ replays => cases (replays_exception replays).symm.trans clean
  | traps _ _ exception => cases exception.symm.trans clean
  | mispredicts _ _ plain => cases plain.symm.trans serial.1

/-- What a trap interrupts goes on when its handler returns, at the same PC and with the same
privilege and interrupt enables, whatever traps the handler has taken and returned from. -/
theorem trap_visit_resumes (l : Level) (s u : CsrFile) (x y : CoreIn) (level : LegalPriv s.priv)
    (enters : l.Enters s x) (handler : Nested (.handler l) (privilegeRuns.next s x) u)
    (returns : l.Returns u y) :
    (commitIn u y).flushOut.valid = true ∧ (commitIn u y).flushOut.fullFlush = true ∧
      (commitIn u y).flushOut.redirectPc = (csrIn s x).trapPc ∧
      Live s (privilegeRuns.next u y) := by
  have kept := handler.keeps (entry_legalPriv enters)
  have closed : ¬(Depth.handler l).Opens l := by cases l <;> nofun
  have pc : u.epc l = (csrIn s x).trapPc := by
    rw [(kept.saved l closed).epc, entry_epc enters, if_pos rfl]
  have live : Live s (privilegeRuns.next u y) := by
    cases l with
    | machine => exact machine_visit enters kept returns
    | supervisor => exact supervisor_visit level enters kept returns
  rw [return_redirect returns]
  exact ⟨rfl, rfl, pc, live⟩

/-- Supervisor mode with its own environment calls delegated to it -/
def delegating : CsrFile := { CsrFile.reset with priv := privS, medeleg := 1#64 <<< 9 }

def enteredBy (s : CsrFile) (insn : BitVec 32) : CsrFile := privilegeRuns.next s (retireAlone insn)

/-- An ECALL whose handler meets an illegal instruction -/
theorem trap_visit_resumes_ecall :
    (commitIn (enteredBy (enteredBy (enteredBy delegating ecallInsn) 0) mretInsn)
      (retireAlone sretInsn)).flushOut.redirectPc =
        (csrIn delegating (retireAlone ecallInsn)).trapPc := by
  have inner : Nested (.handler .supervisor) (enteredBy delegating ecallInsn)
      (enteredBy (enteredBy (enteredBy delegating ecallInsn) 0) mretInsn) := by
    refine .visit (l := .machine) (x := retireAlone 0) (y := retireAlone mretInsn) rfl ?_ .nil ?_ .nil
    · exact ⟨by decide +kernel, by decide +kernel⟩
    · exact ⟨legal_retireAlone _ _, by decide +kernel, rfl, rfl⟩
  refine (trap_visit_resumes .supervisor delegating _ (retireAlone ecallInsn) _ (.inr (.inl rfl))
    ?_ inner ?_).2.2.1
  · exact ⟨by decide +kernel, by decide +kernel⟩
  · exact ⟨legal_retireAlone _ _, by decide +kernel, rfl, rfl⟩

end Rv64gc.Csr
