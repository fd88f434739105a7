import Rv64gc.Csr.CsrAccess

/-!
# Supervisor code and the machine-level state

CSR instructions of supervisor and user mode reach `mstatus`, `mie` and `mip` through masks only:
the writable bits of `sstatus` and the delegated interrupts. Everything else of machine mode keeps
its value through any number of them, taken together with the traps to supervisor mode they raise.
-/

namespace Rv64gc.Csr

open Hdl Backend CommitIn Decode Decode.Fields Mmu

/-- A bit of `mstatus` that `sstatus` does not write. Bit 63 only summarises others. -/
def mstatusOwn (k : Nat) : Prop := CsrFile.sstatusWmask.getLsbD k = false ∧ k ≠ 63

/-- What machine mode finds after `cycles` cycles in which `retired` instructions left: its
counters have counted, and the rest is unchanged. -/
structure MachineKept (s s' : CsrFile) (cycles retired : Nat) : Prop where
  mstatus : ∀ k, mstatusOwn k → s'.shown.mstatus.getLsbD k = s.shown.mstatus.getLsbD k
  mie : s'.mie &&& ~~~s.mideleg = s.mie &&& ~~~s.mideleg
  mip : s'.mip &&& ~~~s.mideleg = s.mip &&& ~~~s.mideleg
  delegation : s'.medeleg = s.medeleg ∧ s'.mideleg = s.mideleg
  trap : s'.mtvec = s.mtvec ∧ s'.mepc = s.mepc ∧ s'.mcause = s.mcause ∧ s'.mtval = s.mtval
  mscratch : s'.mscratch = s.mscratch
  enables : s'.mcounteren = s.mcounteren ∧ s'.mcountinhibit = s.mcountinhibit
  pmp : s'.pmpcfg0 = s.pmpcfg0 ∧ s'.pmpaddr0 = s.pmpaddr0
  tcontrol : s'.tcontrol = s.tcontrol
  mcycle : s'.mcycle =
    if s.mcountinhibit.getLsbD 0 then s.mcycle else s.mcycle + BitVec.ofNat 64 cycles
  minstret : s'.minstret =
    if s.mcountinhibit.getLsbD 2 then s.minstret else s.minstret + BitVec.ofNat 64 retired

/-- A cycle below machine mode in which nothing leaves the ROB, or a CSR instruction does, if only
with a trap to supervisor mode. -/
inductive SupervisorCycle (t : CsrFile) (x : CoreIn) : Prop
  | waits (none : (commitIn t x).commitCount = 0) (quiet : (csrIn t x).trapValid = false)
  | leaves (below : t.priv = privS ∨ t.priv = privU) (csr : isCsrInsn insn = true)
      (zero : rs1 insn = 0 → v = 0) (runs : CsrRuns insn v time s t x₀ x k data)
      (stays : (privilegeRuns.next t x).priv ≠ privM)

/-- Any number of such cycles, with the number of them and of the instructions that retire. -/
inductive SupervisorRun (s : CsrFile) : CsrFile → Nat → Nat → Prop
  | start : SupervisorRun s s 0 0
  | cycle (run : SupervisorRun s t c n) (next : SupervisorCycle t x) :
      SupervisorRun s (privilegeRuns.next t x) (c + 1) (n + (csrIn t x).insnRetiredCount.toNat)

-- ---------------------------------------------------------------------
-- What keeps the machine-level state
-- ---------------------------------------------------------------------

variable {s t u : CsrFile} {x : CoreIn}

/-- A counter that stands still or takes `a` steps and then `b`. -/
theorem count_add (inhibit : Bool) (v : Word) (a b : Nat) :
    (if inhibit then (if inhibit then v else v + BitVec.ofNat 64 a)
      else (if inhibit then v else v + BitVec.ofNat 64 a) + BitVec.ofNat 64 b) =
      if inhibit then v else v + BitVec.ofNat 64 (a + b) := by
  cases inhibit with
  | true => rfl
  | false => simp only [Bool.false_eq_true, if_false, BitVec.ofNat_add, BitVec.add_assoc]

/-- The file with the registers below machine mode, and those it shares, taken from `t`. -/
def CsrFile.sharedFrom (u t : CsrFile) : CsrFile :=
  { u with
    mstatus := t.mstatus
    mie := t.mie
    mip := t.mip
    stvec := t.stvec
    scounteren := t.scounteren
    senvcfg := t.senvcfg
    sscratch := t.sscratch
    sepc := t.sepc
    scause := t.scause
    stval := t.stval
    satp := t.satp
    priv := t.priv
    fflags := t.fflags
    frm := t.frm }

namespace MachineKept

theorem of_shared (rest : u.sharedFrom t = t)
    (mstatus : ∀ k, mstatusOwn k → u.shown.mstatus.getLsbD k = t.shown.mstatus.getLsbD k)
    (mie : u.mie &&& ~~~t.mideleg = t.mie &&& ~~~t.mideleg)
    (mip : u.mip &&& ~~~t.mideleg = t.mip &&& ~~~t.mideleg) : MachineKept t u 0 0 := by
  have field {α : Type} (f : CsrFile → α) : f (u.sharedFrom t) = f t := congrArg f rest
  have mcycle : u.mcycle = t.mcycle := field CsrFile.mcycle
  have minstret : u.minstret = t.minstret := field CsrFile.minstret
  exact {
    mstatus, mie, mip
    delegation := ⟨field CsrFile.medeleg, field CsrFile.mideleg⟩
    trap := ⟨field CsrFile.mtvec, field CsrFile.mepc, field CsrFile.mcause, field CsrFile.mtval⟩
    mscratch := field CsrFile.mscratch
    enables := ⟨field CsrFile.mcounteren, field CsrFile.mcountinhibit⟩
    pmp := ⟨field CsrFile.pmpcfg0, field CsrFile.pmpaddr0⟩
    tcontrol := field CsrFile.tcontrol
    mcycle := by simp [mcycle]
    minstret := by simp [minstret] }

/-- Registers that machine mode does not share may change freely. -/
theorem of_private (rest : u.sharedFrom t = t)
    (same : u.mstatus = t.mstatus ∧ u.mie = t.mie ∧ u.mip = t.mip) : MachineKept t u 0 0 := by
  obtain ⟨mstatus, mie, mip⟩ := same
  refine of_shared rest (fun k _ => ?_) (by rw [mie]) (by rw [mip])
  simp only [CsrFile.shown, mstatus]

theorem refl (s : CsrFile) : MachineKept s s 0 0 := of_private rfl ⟨rfl, rfl, rfl⟩

theorem trans (first : MachineKept s t c n) (rest : MachineKept t u c' n') :
    MachineKept s u (c + c') (n + n') where
  mstatus k own := (rest.mstatus k own).trans (first.mstatus k own)
  mie := by
    have later := rest.mie
    rw [first.delegation.2] at later
    exact later.trans first.mie
  mip := by
    have later := rest.mip
    rw [first.delegation.2] at later
    exact later.trans first.mip
  delegation := ⟨rest.delegation.1.trans first.delegation.1,
    rest.delegation.2.trans first.delegation.2⟩
  trap := ⟨rest.trap.1.trans first.trap.1, rest.trap.2.1.trans first.trap.2.1,
    rest.trap.2.2.1.trans first.trap.2.2.1, rest.trap.2.2.2.trans first.trap.2.2.2⟩
  mscratch := rest.mscratch.trans first.mscratch
  enables := ⟨rest.enables.1.trans first.enables.1, rest.enables.2.trans first.enables.2⟩
  pmp := ⟨rest.pmp.1.trans first.pmp.1, rest.pmp.2.trans first.pmp.2⟩
  tcontrol := rest.tcontrol.trans first.tcontrol
  mcycle := by
    rw [rest.mcycle, first.mcycle, first.enables.2]
    exact count_add _ _ _ _
  minstret := by
    rw [rest.minstret, first.minstret, first.enables.2]
    exact count_add _ _ _ _

theorem tick (s : CsrFile) (n : Nat) : MachineKept s (s.tick n) 1 n :=
  ⟨fun _ _ => rfl, rfl, rfl, ⟨rfl, rfl⟩, ⟨rfl, rfl, rfl, rfl⟩, rfl, ⟨rfl, rfl⟩, ⟨rfl, rfl⟩, rfl,
    rfl, rfl⟩

/-- Only what the registers show matters. -/
theorem of_shown (kept : MachineKept s t c n) (same : u.shown = t.shown) :
    MachineKept s u c n := by
  have field {α : Type} (f : CsrFile → α) (plain : ∀ s, f s.shown = f s) : f u = f t := by
    rw [← plain u, ← plain t, same]
  refine ⟨fun k own => ?_, ?_, ?_, ?_, ?_, ?_, ?_, ?_, ?_, ?_, ?_⟩
  · rw [same]
    exact kept.mstatus k own
  · rw [field CsrFile.mie fun _ => rfl]
    exact kept.mie
  · rw [field CsrFile.mip fun _ => rfl]
    exact kept.mip
  · rw [field CsrFile.medeleg fun _ => rfl, field CsrFile.mideleg fun _ => rfl]
    exact kept.delegation
  · rw [field CsrFile.mtvec fun _ => rfl, field CsrFile.mepc fun _ => rfl,
      field CsrFile.mcause fun _ => rfl, field CsrFile.mtval fun _ => rfl]
    exact kept.trap
  · rw [field CsrFile.mscratch fun _ => rfl]
    exact kept.mscratch
  · rw [field CsrFile.mcounteren fun _ => rfl, field CsrFile.mcountinhibit fun _ => rfl]
    exact kept.enables
  · rw [field CsrFile.pmpcfg0 fun _ => rfl, field CsrFile.pmpaddr0 fun _ => rfl]
    exact kept.pmp
  · rw [field CsrFile.tcontrol fun _ => rfl]
    exact kept.tcontrol
  · rw [field CsrFile.mcycle fun _ => rfl]
    exact kept.mcycle
  · rw [field CsrFile.minstret fun _ => rfl]
    exact kept.minstret

end MachineKept

-- ---------------------------------------------------------------------
-- The views of supervisor and user mode
-- ---------------------------------------------------------------------

/-- Normalising decides bit 63 and the fixed fields only. -/
theorem normMstatus_bit {a b : Word} (plain : k ≠ 63) (same : a.getLsbD k = b.getLsbD k) :
    (CsrFile.normMstatus a).getLsbD k = (CsrFile.normMstatus b).getLsbD k := by
  by_cases width : k < 64
  · have last : ¬(63 = k ∧ k < 64) := by omega
    simp only [CsrFile.normMstatus, getLsbD_put, last, if_false, getLsbD_putField _ _ _ _ width,
      same]
  · rw [BitVec.getLsbD_of_ge _ k (by omega), BitVec.getLsbD_of_ge _ k (by omega)]

theorem merge_outside (mask old v : Word) :
    CsrFile.merge mask old v &&& ~~~mask = old &&& ~~~mask := by
  refine BitVec.eq_of_getLsbD_eq fun k hk => ?_
  simp only [CsrFile.merge, BitVec.getLsbD_and, BitVec.getLsbD_or, BitVec.getLsbD_not]
  cases mask.getLsbD k <;> simp

/-- A write of `sstatus` keeps the other bits of `mstatus`. -/
theorem kept_of_sstatus (t : CsrFile) (v : Word) : MachineKept t
    { t with mstatus := CsrFile.normMstatus (CsrFile.merge CsrFile.sstatusWmask t.mstatus v) }
    0 0 := by
  refine .of_shared rfl (fun k own => ?_) rfl rfl
  simp only [CsrFile.shown, CsrFile.normMstatus_idem]
  refine normMstatus_bit own.2 ?_
  simp only [CsrFile.merge, BitVec.getLsbD_or, BitVec.getLsbD_and, BitVec.getLsbD_not, own.1]
  by_cases width : k < 64
  · simp [width]
  · simp [BitVec.getLsbD_of_ge t.mstatus k (by omega)]

theorem kept_of_sie (t : CsrFile) (v : Word) :
    MachineKept t { t with mie := CsrFile.merge t.mideleg t.mie v } 0 0 :=
  .of_shared rfl (fun _ _ => rfl) (merge_outside _ _ _) rfl

theorem kept_of_sip (t : CsrFile) (v : Word) :
    MachineKept t { t with mip := CsrFile.merge t.mideleg t.mip v } 0 0 :=
  .of_shared rfl (fun _ _ => rfl) rfl (merge_outside _ _ _)

theorem kept_of_satp (t : CsrFile) (v : Word) : MachineKept t
    (let mode := v.extractLsb' 60 4
      if mode == 0#4 || mode == 8#4 || mode == 9#4 then { t with satp := v } else t) 0 0 := by
  dsimp only
  split
  · exact .of_private rfl ⟨rfl, rfl, rfl⟩
  · exact .refl t

/-- No register that supervisor mode may write reaches further. -/
theorem kept_of_put (t : CsrFile) (v : Word) : ∀ p ∈ CsrFile.csrViews,
    p.1.extractLsb' 8 2 ≤ privS → p.1.extractLsb' 10 2 ≠ 0b11#2 →
      MachineKept t (p.2.put t v) 0 0 := by
  simp only [CsrFile.csrViews, List.forall_mem_cons, List.not_mem_nil, false_implies, implies_true,
    and_true]
  repeat' apply And.intro
  all_goals
    intro low writable
    first
    | exact .of_private rfl ⟨rfl, rfl, rfl⟩
    | exact absurd rfl writable
    | exact absurd low (by decide)
    | exact kept_of_sstatus t v
    | exact kept_of_sie t v
    | exact kept_of_sip t v
    | exact kept_of_satp t v

/-- A change of `mstatus` inside the writable bits. -/
theorem kept_of_mstatus {ms : Word} (inside : ∀ k < 64, CsrFile.sstatusWmask.getLsbD k = false →
    ms.getLsbD k = t.mstatus.getLsbD k) : MachineKept t { t with mstatus := ms } 0 0 := by
  refine .of_shared rfl (fun k own => normMstatus_bit own.2 ?_) rfl rfl
  by_cases width : k < 64
  · exact inside k width own.1
  · exact (BitVec.getLsbD_of_ge ms k (by omega)).trans
      (BitVec.getLsbD_of_ge t.mstatus k (by omega)).symm

theorem kept_of_fpMark (addr : BitVec 12) (t : CsrFile) :
    MachineKept t (CsrFile.fpMark addr t) 0 0 := by
  unfold CsrFile.fpMark
  split
  · refine kept_of_mstatus fun k width outside => ?_
    have apart : ¬(13 ≤ k ∧ k < 13 + 2) := by
      rintro ⟨low, high⟩
      obtain rfl | rfl : k = 13 ∨ k = 14 := by omega
      all_goals cases outside
    rw [getLsbD_putField _ _ _ _ width, if_neg apart]
  · exact .refl t

theorem kept_of_trapEntry {i : CsrIn} (low : i.trapToSupervisor = true) (t : CsrFile) :
    MachineKept t (t.trapEntry i) 0 0 := by
  let ms := put (put (put t.mstatus 8 (t.priv != privU)) 5 t.sie) 1 false
  have stacked : MachineKept t { t with mstatus := ms } 0 0 := by
    refine kept_of_mstatus fun k width outside => ?_
    have apart : 8 ≠ k ∧ 5 ≠ k ∧ 1 ≠ k := by
      refine ⟨?_, ?_, ?_⟩ <;> (rintro rfl; cases outside)
    simp only [ms, getLsbD_put, apart.1, apart.2.1, apart.2.2, false_and, if_false]
  have entered : MachineKept { t with mstatus := ms } (t.trapEntry i) 0 0 := by
    simp only [CsrFile.trapEntry, low, if_true]
    exact .of_private rfl ⟨rfl, rfl, rfl⟩
  exact stacked.trans entered

-- ---------------------------------------------------------------------
-- One instruction and any number of them
-- ---------------------------------------------------------------------

theorem count_eq (t : CsrFile) (i : CsrIn) : t.count i = t.tick i.insnRetiredCount.toNat := by
  simp [CsrFile.count, CsrFile.tick]

theorem kept_of_count (t : CsrFile) (i : CsrIn) :
    MachineKept t (t.count i) 1 i.insnRetiredCount.toNat := by
  rw [count_eq]
  exact .tick _ _

theorem kept_of_trap (only : TrapsOnly t x k) (stays : (privilegeRuns.next t x).priv ≠ privM) :
    MachineKept t (privilegeRuns.next t x) 1 (csrIn t x).insnRetiredCount.toNat := by
  have trap := only.trap.1
  have next : privilegeRuns.next t x = (t.count (csrIn t x)).trapEntry (csrIn t x) := by
    simp [privilegeRuns, CsrFile.next, trap]
  have low : (csrIn t x).trapToSupervisor = true := by
    by_contra machine
    refine stays ?_
    rw [next, CsrFile.trapEntry, if_neg machine]
  rw [next]
  exact (kept_of_count t _).trans (kept_of_trapEntry low _)

/-- An access let through at a privilege up to supervisor mode writes through a view of it. -/
theorem kept_of_access (leaves : AccessRetires insn v d t x)
    (low : (funct12 insn).extractLsb' 8 2 ≤ privS) (found : CsrFile.csrView (funct12 insn) ≠ none)
    (writable : (csrIssue d v).writeIntent = true → readOnlyAddr (funct12 insn) = false) :
    MachineKept t (privilegeRuns.next t x) 1 (csrIn t x).insnRetiredCount.toNat := by
  obtain ⟨view, found⟩ := Option.ne_none_iff_exists'.mp found
  have counted := kept_of_count t (csrIn t x)
  have marked := counted.trans (kept_of_fpMark (funct12 insn) _)
  rw [leaves.next, ← leaves.count]
  split
  · rename_i writes
    have free : (funct12 insn).extractLsb' 10 2 ≠ 0b11#2 := by
      simpa [readOnlyAddr] using writable writes
    have member := CsrFile.mem_of_csrView found
    have put := kept_of_put (CsrFile.fpMark (funct12 insn) (t.count (csrIn t x)))
      (CsrFile.applyOp (csrIn t x).writeOp (view.held t) (csrIn t x).writeData) _ member low free
    have asked : (csrIn t x).writeAddr.extractLsb' 10 2 ≠ 0b11#2 := by
      rw [leaves.addr]
      exact free
    have written := CsrFile.csrWrite_view t (csrIn t x) _ member leaves.addr asked
    exact (marked.trans put).of_shown written
  · exact marked

/-- A cycle keeps the machine-level state. -/
theorem kept_of_cycle (cycle : SupervisorCycle t x) :
    MachineKept t (privilegeRuns.next t x) 1 (csrIn t x).insnRetiredCount.toNat := by
  cases cycle with
  | waits none quiet =>
    have idle := next_idle none quiet
    have counted := kept_of_count t (csrIn t x)
    rw [count_eq_tick (retired_idle none)] at counted
    rw [idle]
    exact counted
  | @leaves insn v time s x₀ k data below csr zero runs stays =>
    cases runs with
    | @issued d r pc isRvc w s x₀ xs t e x inForce decoded accepted result waits entry =>
      obtain ⟨dec, -⟩ := accepted_csr csr decoded accepted
      cases legal : (csrIssue d v).illegal s with
      | true =>
        obtain ⟨-, -, traps⟩ := traps_of_issued (t := t) dec result entry legal
        exact kept_of_trap traps stays
      | false =>
        have check := readIllegal_iff s (funct12 insn) (csrIssue d v).writeIntent
        have addr : (csrIssue d v).csrAddr = funct12 insn := dec.csrAddr
        rw [← addr] at check
        change (csrIssue d v).illegal s = true ↔ _ at check
        simp only [addr, legal, Bool.false_eq_true, false_iff, not_or, BitVec.not_lt] at check
        obtain ⟨found, low, -, writable⟩ := check
        have same : t.priv = s.priv := by rw [waits.ticks]
        have supervisor : s.priv ≤ privS := by
          rcases below with priv | priv <;> rw [← same, priv] <;> decide
        refine kept_of_access (retires_of_issued dec result entry legal)
          (BitVec.le_trans low supervisor) found fun writes => ?_
        simpa [writes] using writable
    | refused inForce decoded refused entry due =>
      obtain ⟨right, -⟩ : CsrRight insn v time t t x x _ 0 ∧ AccessHolds t t insn v :=
        right_of_refused csr inForce decoded refused entry due
      obtain ⟨code, -⟩ := refused_csr csr decoded refused
      refine kept_of_trap (right.faults (right.illegal.mp ⟨?_, ?_⟩)) stays
      · rw [entry]
        exact refused
      · rw [entry]
        exact code

/-- However many CSR instructions supervisor and user code executes, and whatever they write,
machine mode finds its state unchanged, and its counters counting. -/
theorem machine_kept_of_run (run : SupervisorRun s t c n) : MachineKept s t c n := by
  induction run with
  | start => exact .refl s
  | cycle run next ih => exact ih.trans (kept_of_cycle next)

-- ---------------------------------------------------------------------
-- The supervisor timer
-- ---------------------------------------------------------------------

/-- The window of an access by `insn`, with `v` in its source register, that has its result. -/
def accessWindow (s : CsrFile) (insn : BitVec 32) (v : Word) : CoreIn :=
  let d := decodeSlice insn 0 false
  let w := csrResult s (waitFor insn) 0 (csrIssue d v)
  { retireAlone insn with
    head := fun i => { robWriteback w (robAlloc d (entryOf d true)) with valid := i == 0 } }

theorem accessWindow_head (s : CsrFile) (insn : BitVec 32) (v : Word) :
    (accessWindow s insn v).head 0 =
      robWriteback (csrResult s (waitFor insn) 0 (csrIssue (decodeSlice insn 0 false) v))
        (robAlloc (decodeSlice insn 0 false) (entryOf (decodeSlice insn 0 false) true)) := by
  unfold accessWindow
  rfl

/-- Machine mode delegates the supervisor timer, raises it and leaves for supervisor mode. -/
def supervisorTimer : CsrFile :=
  let csrwMideleg : BitVec 32 := 0x30329073
  let csrwMip : BitVec 32 := 0x34429073
  let csrwMstatus : BitVec 32 := 0x30029073
  privilegeRuns.run .reset [accessWindow .reset csrwMideleg 0x20, accessWindow .reset csrwMip 0x20,
    accessWindow .reset csrwMstatus 0x800, retireAlone mretInsn]

/-- CSRC sip, x5, with which its handler clears the timer. -/
def clearSip : BitVec 32 := 0x1442B073

theorem legal_accessWindow (s r : CsrFile) (insn : BitVec 32) (v : Word)
    (csr : isCsrInsn insn = true) : privilegeRuns.legal s (accessWindow r insn v) := by
  have dec := csrDecoded csr 0 false
  obtain ⟨-, -, noMret, noSret, -⟩ := dec.plain
  refine fun _ => ⟨insn, 0, false, rfl, rfl, fun ret => ?_⟩
  rw [isTrapReturn, noMret, noSret] at ret
  cases ret

theorem supervisorTimer_reachable : privilegeRuns.Reachable supervisorTimer :=
  Hdl.Machine.Reachable.run .reset ⟨legal_accessWindow _ _ _ _ (by decide),
    legal_accessWindow _ _ _ _ (by decide), legal_accessWindow _ _ _ _ (by decide),
    legal_retireAlone _ _, trivial⟩

/-- The handler's access, a cycle after it issued. -/
def timerCleared : CsrFile :=
  let waited := privilegeRuns.next supervisorTimer (waitFor clearSip)
  privilegeRuns.next waited (accessWindow supervisorTimer clearSip 0x20)

theorem timerCleared_run : SupervisorRun supervisorTimer timerCleared 2 1 := by
  let waited := privilegeRuns.next supervisorTimer (waitFor clearSip)
  let x := accessWindow supervisorTimer clearSip 0x20
  have quiet : (csrIn supervisorTimer (waitFor clearSip)).trapValid = false := by decide +kernel
  have csr : isCsrInsn clearSip = true := by decide
  have waits : Waits supervisorTimer [waitFor clearSip] waited := .cycle rfl quiet .done
  have decoded : decodeSlice clearSip 0 false =
      renameDecIn supervisorTimer (decodeSlice clearSip 0 false) := by
    rw [renamed_csr csr, if_neg (by decide)]
  have clean := (csrDecoded csr 0 false).clean
  have runs : CsrRuns clearSip 0x20 0 supervisorTimer waited (waitFor clearSip) x 0 _ :=
    .issued rfl decoded clean rfl waits (accessWindow_head _ _ _)
  have none : (csrIn supervisorTimer (waitFor clearSip)).insnRetiredCount.toNat = 0 := by
    decide +kernel
  have one : (csrIn waited x).insnRetiredCount.toNat = 1 := by decide +kernel
  have first := SupervisorRun.cycle .start (.waits (commitCount_unready rfl) quiet)
  have stays : (privilegeRuns.next waited x).priv ≠ privM := by decide +kernel
  have level : waited.priv = privS := by decide +kernel
  have run := first.cycle (.leaves (.inl level) csr (by decide) runs stays)
  rw [none, one] at run
  exact run

theorem timerCleared_kept : MachineKept supervisorTimer timerCleared 2 1 :=
  machine_kept_of_run timerCleared_run

/-- Supervisor mode may clear its timer, and any other pending interrupt delegated to it. -/
theorem supervisor_clears_timer :
    privilegeRuns.Reachable supervisorTimer ∧
      (∃ c n, SupervisorRun supervisorTimer timerCleared c n) ∧
      supervisorTimer.priv = privS ∧ supervisorTimer.mip.getLsbD irqSTimer = true ∧
      timerCleared.mip.getLsbD irqSTimer = false :=
  ⟨supervisorTimer_reachable, ⟨2, 1, timerCleared_run⟩, by decide +kernel, by decide +kernel,
    by decide +kernel⟩

end Rv64gc.Csr
