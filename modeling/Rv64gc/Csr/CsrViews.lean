import Rv64gc.Csr.Context

/-!
# CSRs as views of the file

What an address shows, what a set or clear starts from, and what a write puts back, one view per
register. The write path of the file computes mask and operation for each address anew; it is the
view's `put` of the operation on what the view holds.
-/

namespace Rv64gc.Csr

open Hdl

structure CsrView where
  /-- What a read returns. -/
  read : CsrFile → IrqLines → Word → Word
  /-- What a set or clear starts from: without the interrupt lines. -/
  held : CsrFile → Word
  put : CsrFile → Word → CsrFile

namespace CsrView

/-- A register that shows what it holds. -/
def register (held : CsrFile → Word) (put : CsrFile → Word → CsrFile) : CsrView :=
  ⟨fun s _ _ => held s, held, put⟩

def readOnly (read : CsrFile → Word → Word) : CsrView :=
  ⟨fun s _ t => read s t, fun s => read s 0, fun s _ => s⟩

end CsrView

namespace CsrFile

/-- The bits of `old` inside the mask replaced by those of `new`. -/
def merge (mask old new : Word) : Word := (old &&& ~~~mask) ||| (new &&& mask)

/-- The registers there are. -/
def csrViews : List (BitVec 12 × CsrView) := [
  (csrFflags, .register (fun s => s.fflags.setWidth 64)
    fun s v => { s with fflags := v.extractLsb' 0 5 }),
  (csrFrm, .register (fun s => s.frm.setWidth 64)
    fun s v => { s with frm := v.extractLsb' 0 3 }),
  (csrFcsr, .register (fun s => (s.frm ++ s.fflags).setWidth 64)
    fun s v => { s with fflags := v.extractLsb' 0 5, frm := v.extractLsb' 5 3 }),
  (csrSstatus, .register (fun s => normMstatus s.mstatus &&& sstatusMask)
    fun s v => { s with mstatus := normMstatus (merge sstatusWmask s.mstatus v) }),
  (csrSie, .register (fun s => s.mie &&& s.mideleg)
    fun s v => { s with mie := merge s.mideleg s.mie v }),
  (csrStvec, .register stvec fun s v => { s with stvec := v }),
  (csrScounteren, .register scounteren fun s v => { s with scounteren := v }),
  (csrSenvcfg, .register senvcfg fun s v => { s with senvcfg := v }),
  (csrSscratch, .register sscratch fun s v => { s with sscratch := v }),
  (csrSepc, .register sepc fun s v => { s with sepc := v }),
  (csrScause, .register scause fun s v => { s with scause := v }),
  (csrStval, .register stval fun s v => { s with stval := v }),
  (csrSip, ⟨fun s l _ => s.mipEff l &&& s.mideleg, fun s => s.mip &&& s.mideleg,
    fun s v => { s with mip := merge s.mideleg s.mip v }⟩),
  -- A write with a mode other than Bare, Sv39 and Sv48 has no effect.
  (csrSatp, .register satp fun s v =>
    let mode := v.extractLsb' 60 4
    if mode == 0#4 || mode == 8#4 || mode == 9#4 then { s with satp := v } else s),
  (csrMstatus, .register (fun s => normMstatus s.mstatus)
    fun s v => { s with mstatus := normMstatus v }),
  (csrMisa, .readOnly fun _ _ => misaVal),
  (csrMedeleg, .register medeleg fun s v => { s with medeleg := v }),
  (csrMideleg, .register mideleg fun s v => { s with mideleg := v }),
  (csrMie, .register mie fun s v => { s with mie := v }),
  (csrMtvec, .register mtvec fun s v => { s with mtvec := v }),
  (csrMcounteren, .register mcounteren fun s v => { s with mcounteren := v }),
  (csrMcountinhibit, .register mcountinhibit fun s v => { s with mcountinhibit := v }),
  (csrMscratch, .register mscratch fun s v => { s with mscratch := v }),
  (csrMepc, .register mepc fun s v => { s with mepc := v }),
  (csrMcause, .register mcause fun s v => { s with mcause := v }),
  (csrMtval, .register mtval fun s v => { s with mtval := v }),
  (csrMip, ⟨fun s l _ => s.mipEff l, mip, fun s v => { s with mip := v }⟩),
  (csrPmpcfg0, .register pmpcfg0 fun s v => { s with pmpcfg0 := v }),
  (csrPmpaddr0, .register pmpaddr0 fun s v => { s with pmpaddr0 := v }),
  (csrTselect, .readOnly fun _ _ => 0),
  (csrTdata1, .readOnly fun _ _ => 0),
  (csrTdata2, .readOnly fun _ _ => 0),
  (csrTcontrol, .register tcontrol fun s v => { s with tcontrol := v }),
  (csrMvendorid, .readOnly fun _ _ => 0),
  (csrMarchid, .readOnly fun _ _ => 0),
  (csrMimpid, .readOnly fun _ _ => 0),
  (csrMhartid, .readOnly fun _ _ => 0),
  (csrMcycle, .register mcycle fun s v => { s with mcycle := v }),
  (csrMinstret, .register minstret fun s v => { s with minstret := v }),
  (csrCycle, .readOnly fun s _ => s.mcycle),
  (csrTime, .readOnly fun _ t => t),
  (csrInstret, .readOnly fun s _ => s.minstret)]

def csrView (addr : BitVec 12) : Option CsrView := csrViews.lookup addr

/-- What the registers show: `mstatus` always reads with its fixed and derived fields. -/
def shown (s : CsrFile) : CsrFile := { s with mstatus := normMstatus s.mstatus }

-- ---------------------------------------------------------------------
-- The table and the code
-- ---------------------------------------------------------------------

theorem lookup_isSome (l : List (BitVec 12 × CsrView)) (addr : BitVec 12) :
    (l.lookup addr).isSome = (l.map Prod.fst).contains addr := by
  induction l with
  | nil => rfl
  | cons p l ih =>
    obtain ⟨key, view⟩ := p
    simp only [List.lookup_cons, List.map_cons, List.contains_cons]
    cases addr == key with
    | true => rfl
    | false => exact ih

theorem csrAddrSupported_eq (addr : BitVec 12) :
    csrAddrSupported addr = (csrView addr).isSome :=
  (lookup_isSome csrViews addr).symm

theorem mem_of_csrView {v : CsrView} (view : csrView addr = some v) : (addr, v) ∈ csrViews := by
  obtain ⟨before, after, split, -⟩ := List.lookup_eq_some_iff.mp view
  rw [split]
  simp

/-- Retiring an access to a floating-point register marks FS, written or not. -/
def fpMark (addr : BitVec 12) (s : CsrFile) : CsrFile :=
  if isFpCsr addr then { s with mstatus := putField s.mstatus 13 0b11#2 } else s

/-- The write of the register puts back the operation on what its view holds. -/
def PutsBack (s : CsrFile) (i : CsrIn) (p : BitVec 12 × CsrView) : Prop :=
  i.writeAddr = p.1 → i.writeAddr.extractLsb' 10 2 ≠ 0b11#2 →
    (s.csrWrite (fpMark p.1 (s.count i)) i).shown =
      (p.2.put (fpMark p.1 (s.count i)) (applyOp i.writeOp (p.2.held s) i.writeData)).shown

variable {s : CsrFile} {i : CsrIn}

/-- Two words that agree outside the fixed and the derived fields normalise to the same. -/
theorem normMstatus_congr {a b : Word}
    (same : ∀ k < 63, (k < 32 ∨ 36 ≤ k) → a.getLsbD k = b.getLsbD k) :
    normMstatus a = normMstatus b := by
  have field (lo : Nat) (low : lo + 2 ≤ 32) : a.extractLsb' lo 2 = b.extractLsb' lo 2 := by
    refine BitVec.eq_of_getLsbD_eq fun k hk => ?_
    rw [BitVec.getLsbD_extractLsb', BitVec.getLsbD_extractLsb', same _ (by omega) (by omega)]
  have kept (ms : Word) (lo : Nat) (low : lo + 2 ≤ 32) :
      (putField (putField ms 34 0b10#2) 32 0b10#2).extractLsb' lo 2 = ms.extractLsb' lo 2 := by
    refine BitVec.eq_of_getLsbD_eq fun k hk => ?_
    rw [BitVec.getLsbD_extractLsb', BitVec.getLsbD_extractLsb',
      getLsbD_putField _ _ _ _ (by omega), getLsbD_putField _ _ _ _ (by omega),
      if_neg (by omega), if_neg (by omega)]
  refine BitVec.eq_of_getLsbD_eq fun k hk => ?_
  simp only [normMstatus, getLsbD_put, kept _ 13 (by decide), kept _ 15 (by decide),
    field 13 (by decide), field 15 (by decide)]
  by_cases last : 63 = k
  · simp [last, hk]
  simp only [last, false_and, if_false, getLsbD_putField _ _ _ _ hk]
  split
  · rfl
  split
  · rfl
  · exact same k (by omega) (by omega)

theorem normMstatus_kept (ms : Word) (below : k < 63) (free : k < 32 ∨ 36 ≤ k) :
    (normMstatus ms).getLsbD k = ms.getLsbD k := by
  have last : ¬(63 = k ∧ k < 64) := by omega
  have width : k < 64 := by omega
  have fixed : ¬(34 ≤ k ∧ k < 34 + 2) ∧ ¬(32 ≤ k ∧ k < 32 + 2) := by omega
  simp only [normMstatus, getLsbD_put, last, if_false, getLsbD_putField _ _ _ _ width, fixed]

/-- The operations work bit by bit. -/
theorem applyOp_congr {a b c d : Word} (op : BitVec 2) (cur : a.getLsbD k = b.getLsbD k)
    (data : c.getLsbD k = d.getLsbD k) :
    (applyOp op a c).getLsbD k = (applyOp op b d).getLsbD k := by
  unfold applyOp
  split
  · exact data
  split
  · simp only [BitVec.getLsbD_or, cur, data]
  split
  · simp only [BitVec.getLsbD_and, BitVec.getLsbD_not, cur, data]
  · exact cur

theorem merge_congr {mask old a b : Word}
    (inside : mask.getLsbD k = true → a.getLsbD k = b.getLsbD k) :
    (merge mask old a).getLsbD k = (merge mask old b).getLsbD k := by
  simp only [merge, BitVec.getLsbD_or, BitVec.getLsbD_and]
  cases within : mask.getLsbD k with
  | false => simp
  | true => rw [inside within]

/-- Inside a mask an operation may start from the masked register. -/
theorem merge_applyOp (mask old data : Word) (op : BitVec 2) :
    merge mask old (applyOp op (old &&& mask) data) = merge mask old (applyOp op old data) := by
  refine BitVec.eq_of_getLsbD_eq fun k _ => merge_congr fun within => applyOp_congr op ?_ rfl
  rw [BitVec.getLsbD_and, within, Bool.and_true]

-- ---------------------------------------------------------------------
-- Write and view, register by register
-- ---------------------------------------------------------------------

theorem dirty_idem (ms : Word) (v : BitVec 2) : putField (putField ms 13 v) 13 v =
    putField ms 13 v := by
  refine BitVec.eq_of_getLsbD_eq fun k hk => ?_
  simp only [getLsbD_putField _ _ _ _ hk]
  split <;> rfl

theorem marked (fp : isFpCsr addr = true) :
    putField (fpMark addr s).mstatus 13 0b11#2 = (fpMark addr s).mstatus := by
  simp only [fpMark, fp, if_true]
  exact dirty_idem s.mstatus _

theorem putsBack_fflags (s : CsrFile) (i : CsrIn) : PutsBack s i (csrFflags, .register
    (fun s => s.fflags.setWidth 64) fun s v => { s with fflags := v.extractLsb' 0 5 }) := by
  intro addr _
  have mark : putField (fpMark csrFflags (s.count i)).mstatus 13 0b11#2 = _ := marked rfl
  simp only [csrWrite, addr, if_true, mark]
  rfl

theorem putsBack_frm (s : CsrFile) (i : CsrIn) : PutsBack s i (csrFrm, .register
    (fun s => s.frm.setWidth 64) fun s v => { s with frm := v.extractLsb' 0 3 }) := by
  intro addr _
  have other : ¬csrFrm = csrFflags := by decide
  have mark : putField (fpMark csrFrm (s.count i)).mstatus 13 0b11#2 = _ := marked rfl
  simp only [csrWrite, addr, if_true, if_neg other, mark]
  rfl

theorem putsBack_fcsr (s : CsrFile) (i : CsrIn) : PutsBack s i (csrFcsr, .register
    (fun s => (s.frm ++ s.fflags).setWidth 64)
    fun s v => { s with fflags := v.extractLsb' 0 5, frm := v.extractLsb' 5 3 }) := by
  intro addr _
  have other : ¬csrFcsr = csrFflags ∧ ¬csrFcsr = csrFrm := by decide
  have mark : putField (fpMark csrFcsr (s.count i)).mstatus 13 0b11#2 = _ := marked rfl
  simp only [csrWrite, addr, if_true, if_neg other.1, if_neg other.2, mark]
  rfl

theorem putsBack_sie (s : CsrFile) (i : CsrIn) : PutsBack s i (csrSie, .register
    (fun s => s.mie &&& s.mideleg) fun s v => { s with mie := merge s.mideleg s.mie v }) := by
  intro addr _
  have write : s.csrWrite (fpMark csrSie (s.count i)) i =
      { s.count i with mie := merge s.mideleg s.mie (applyOp i.writeOp s.mie i.writeData) } := by
    simp only [csrWrite, addr]
    rfl
  rw [write, ← merge_applyOp]
  rfl

theorem putsBack_sip (s : CsrFile) (i : CsrIn) : PutsBack s i (csrSip,
    ⟨fun s l _ => s.mipEff l &&& s.mideleg, fun s => s.mip &&& s.mideleg,
      fun s v => { s with mip := merge s.mideleg s.mip v }⟩) := by
  intro addr _
  have write : s.csrWrite (fpMark csrSip (s.count i)) i =
      { s.count i with mip := merge s.mideleg s.mip (applyOp i.writeOp s.mip i.writeData) } := by
    simp only [csrWrite, addr]
    rfl
  rw [write, ← merge_applyOp]
  rfl

theorem putsBack_mstatus (s : CsrFile) (i : CsrIn) : PutsBack s i (csrMstatus, .register
    (fun s => normMstatus s.mstatus) fun s v => { s with mstatus := normMstatus v }) := by
  intro addr _
  have write : s.csrWrite (fpMark csrMstatus (s.count i)) i =
      { s.count i with mstatus := normMstatus (applyOp i.writeOp s.mstatus i.writeData) } := by
    simp only [csrWrite, addr]
    rfl
  have same : normMstatus (applyOp i.writeOp s.mstatus i.writeData) =
      normMstatus (applyOp i.writeOp (normMstatus s.mstatus) i.writeData) :=
    normMstatus_congr fun k below free =>
      applyOp_congr _ (normMstatus_kept s.mstatus below free).symm rfl
  rw [write, same]
  rfl

theorem wmask_in_mask : ∀ k : Fin 64, sstatusWmask.getLsbD k = true →
    sstatusMask.getLsbD k = true := by
  decide

theorem putsBack_sstatus (s : CsrFile) (i : CsrIn) : PutsBack s i (csrSstatus, .register
    (fun s => normMstatus s.mstatus &&& sstatusMask)
    fun s v => { s with mstatus := normMstatus (merge sstatusWmask s.mstatus v) }) := by
  intro addr _
  have write : s.csrWrite (fpMark csrSstatus (s.count i)) i =
      { s.count i with mstatus := normMstatus (s.sstatusApplied i.writeOp i.writeData) } := by
    simp only [csrWrite, addr]
    rfl
  have same : normMstatus (s.sstatusApplied i.writeOp i.writeData) =
      normMstatus (merge sstatusWmask s.mstatus
        (applyOp i.writeOp (normMstatus s.mstatus &&& sstatusMask) i.writeData)) := by
    refine normMstatus_congr fun k below free => merge_congr fun within => applyOp_congr _ ?_ ?_
    · have shown := wmask_in_mask ⟨k, by omega⟩ within
      rw [BitVec.getLsbD_and, BitVec.getLsbD_and, within, shown,
        normMstatus_kept s.mstatus below free]
    · rw [BitVec.getLsbD_and, within, Bool.and_true]
  rw [write, same]
  rfl

theorem csrWrite_view (s : CsrFile) (i : CsrIn) : ∀ p ∈ csrViews, PutsBack s i p := by
  simp only [csrViews, List.forall_mem_cons, List.not_mem_nil, false_implies, implies_true, and_true]
  refine ⟨putsBack_fflags s i, putsBack_frm s i, putsBack_fcsr s i, putsBack_sstatus s i,
    putsBack_sie s i, ?_⟩
  repeat' apply And.intro
  all_goals first | exact putsBack_sip s i | exact putsBack_mstatus s i | skip
  -- The registers written whole, those a write passes over, and the counters with read-only
  -- addresses, which only the write path takes for writable.
  all_goals
    intro addr writable
    first
    | (unfold csrWrite; rw [addr]; rfl)
    | (rw [addr] at writable; exact absurd rfl writable)

/-- A read shows the view, unless it meets a write. -/
theorem readData_view (s : CsrFile) (l : IrqLines) (time : Word) (i : CsrIn)
    (alone : ∀ addr, csrBypass addr i = false) :
    ∀ p ∈ csrViews, s.readData l time p.1 i = p.2.read s l time := by
  simp only [csrViews, List.forall_mem_cons, List.not_mem_nil, false_implies, implies_true, and_true]
  repeat' apply And.intro
  all_goals
    unfold readData
    rw [alone]
    rfl

-- ---------------------------------------------------------------------
-- Putting back what is held
-- ---------------------------------------------------------------------

theorem merge_self (mask old : Word) : merge mask old old = old := by
  refine BitVec.eq_of_getLsbD_eq fun k hk => ?_
  simp only [merge, BitVec.getLsbD_or, BitVec.getLsbD_and, BitVec.getLsbD_not, hk, decide_true,
    Bool.true_and]
  cases mask.getLsbD k <;> cases old.getLsbD k <;> rfl

theorem merge_masked (mask old : Word) : merge mask old (old &&& mask) = old := by
  have inside : merge mask old (old &&& mask) = merge mask old old := by
    refine BitVec.eq_of_getLsbD_eq fun k _ => merge_congr fun within => ?_
    rw [BitVec.getLsbD_and, within, Bool.and_true]
  rw [inside, merge_self]

theorem normMstatus_idem (ms : Word) : normMstatus (normMstatus ms) = normMstatus ms :=
  normMstatus_congr fun _ below free => normMstatus_kept ms below free

/-- Writing a register with what it holds changes nothing. -/
def PutsHeld (s : CsrFile) (i : CsrIn) (p : BitVec 12 × CsrView) : Prop :=
  (p.2.put (fpMark p.1 (s.count i)) (p.2.held s)).shown = (fpMark p.1 (s.count i)).shown

theorem extract_setWidth (v : BitVec n) (fits : lo + w ≤ 64) :
    (v.setWidth 64).extractLsb' lo w = v.extractLsb' lo w := by
  refine BitVec.eq_of_getLsbD_eq fun k hk => ?_
  have width : lo + k < 64 := by omega
  rw [BitVec.getLsbD_extractLsb', BitVec.getLsbD_extractLsb', BitVec.getLsbD_setWidth]
  simp [width]

theorem putsHeld_fflags (s : CsrFile) (i : CsrIn) : PutsHeld s i (csrFflags, .register
    (fun s => s.fflags.setWidth 64) fun s v => { s with fflags := v.extractLsb' 0 5 }) := by
  have same : (s.fflags.setWidth 64).extractLsb' 0 5 = s.fflags := by
    rw [extract_setWidth _ (by decide)]
    exact BitVec.extractLsb'_eq_self
  simp only [PutsHeld, CsrView.register, same]
  rfl

theorem putsHeld_frm (s : CsrFile) (i : CsrIn) : PutsHeld s i (csrFrm, .register
    (fun s => s.frm.setWidth 64) fun s v => { s with frm := v.extractLsb' 0 3 }) := by
  have same : (s.frm.setWidth 64).extractLsb' 0 3 = s.frm := by
    rw [extract_setWidth _ (by decide)]
    exact BitVec.extractLsb'_eq_self
  simp only [PutsHeld, CsrView.register, same]
  rfl

theorem putsHeld_fcsr (s : CsrFile) (i : CsrIn) : PutsHeld s i (csrFcsr, .register
    (fun s => (s.frm ++ s.fflags).setWidth 64)
    fun s v => { s with fflags := v.extractLsb' 0 5, frm := v.extractLsb' 5 3 }) := by
  have low : ((s.frm ++ s.fflags).setWidth 64).extractLsb' 0 5 = s.fflags := by
    rw [extract_setWidth _ (by decide)]
    refine BitVec.eq_of_getLsbD_eq fun k hk => ?_
    rw [BitVec.getLsbD_extractLsb', BitVec.getLsbD_append]
    simp [-BitVec.getLsbD_eq_getElem, hk]
  have high : ((s.frm ++ s.fflags).setWidth 64).extractLsb' 5 3 = s.frm := by
    rw [extract_setWidth _ (by decide)]
    refine BitVec.eq_of_getLsbD_eq fun k hk => ?_
    rw [BitVec.getLsbD_extractLsb', BitVec.getLsbD_append]
    simp [-BitVec.getLsbD_eq_getElem, hk]
  simp only [PutsHeld, CsrView.register, low, high]
  rfl

theorem putsHeld_sstatus (s : CsrFile) (i : CsrIn) : PutsHeld s i (csrSstatus, .register
    (fun s => normMstatus s.mstatus &&& sstatusMask)
    fun s v => { s with mstatus := normMstatus (merge sstatusWmask s.mstatus v) }) := by
  have same : normMstatus (merge sstatusWmask s.mstatus (normMstatus s.mstatus &&& sstatusMask)) =
      normMstatus s.mstatus := by
    refine normMstatus_congr fun k below free => ?_
    refine Eq.trans (merge_congr fun within => ?_)
      (congrArg (·.getLsbD k) (merge_self sstatusWmask s.mstatus))
    have shown := wmask_in_mask ⟨k, by omega⟩ within
    rw [BitVec.getLsbD_and, shown, Bool.and_true, normMstatus_kept s.mstatus below free]
  simp only [PutsHeld, CsrView.register, shown, fpMark, isFpCsr, CsrFile.count]
  exact congrArg (fun ms => { s.count i with mstatus := normMstatus ms }) same |>.trans
    (congrArg (fun ms => { s.count i with mstatus := ms }) (normMstatus_idem _))

theorem putsHeld_sie (s : CsrFile) (i : CsrIn) : PutsHeld s i (csrSie, .register
    (fun s => s.mie &&& s.mideleg) fun s v => { s with mie := merge s.mideleg s.mie v }) :=
  congrArg (fun mie => ({ s.count i with mie := mie } : CsrFile).shown)
    (merge_masked s.mideleg s.mie)

theorem putsHeld_sip (s : CsrFile) (i : CsrIn) : PutsHeld s i (csrSip,
    ⟨fun s l _ => s.mipEff l &&& s.mideleg, fun s => s.mip &&& s.mideleg,
      fun s v => { s with mip := merge s.mideleg s.mip v }⟩) :=
  congrArg (fun mip => ({ s.count i with mip := mip } : CsrFile).shown)
    (merge_masked s.mideleg s.mip)

theorem putsHeld_mstatus (s : CsrFile) (i : CsrIn) : PutsHeld s i (csrMstatus, .register
    (fun s => normMstatus s.mstatus) fun s v => { s with mstatus := normMstatus v }) :=
  congrArg (fun ms => ({ s.count i with mstatus := ms } : CsrFile))
    ((congrArg normMstatus (normMstatus_idem s.mstatus)).trans (normMstatus_idem s.mstatus))

theorem putsHeld_satp (s : CsrFile) (i : CsrIn) : PutsHeld s i (csrSatp, .register satp fun s v =>
    let mode := v.extractLsb' 60 4
    if mode == 0#4 || mode == 8#4 || mode == 9#4 then { s with satp := v } else s) := by
  simp only [PutsHeld, CsrView.register]
  split <;> rfl

/-- Of all registers only the counters would stand still. -/
theorem put_held (s : CsrFile) (i : CsrIn) :
    ∀ p ∈ csrViews, p.1 ≠ csrMcycle → p.1 ≠ csrMinstret → PutsHeld s i p := by
  simp only [csrViews, List.forall_mem_cons, List.not_mem_nil, false_implies, implies_true, and_true]
  refine ⟨fun _ _ => putsHeld_fflags s i, fun _ _ => putsHeld_frm s i,
    fun _ _ => putsHeld_fcsr s i, fun _ _ => putsHeld_sstatus s i, fun _ _ => putsHeld_sie s i,
    ?_, ?_, ?_, ?_, ?_, ?_, ?_, fun _ _ => putsHeld_sip s i, fun _ _ => putsHeld_satp s i,
    fun _ _ => putsHeld_mstatus s i, ?_⟩
  rotate_right
  · repeat' apply And.intro
    all_goals intro cycle instret
    all_goals first
      | exact absurd rfl cycle
      | exact absurd rfl instret
      | rfl
  all_goals exact fun _ _ => rfl

-- ---------------------------------------------------------------------
-- The counters
-- ---------------------------------------------------------------------

theorem csrView_mcycle :
    csrView csrMcycle = some (.register mcycle fun s v => { s with mcycle := v }) := rfl

theorem csrView_minstret :
    csrView csrMinstret = some (.register minstret fun s v => { s with minstret := v }) := rfl

/-- What a register holds does not depend on `mcycle`, unless it is that counter. -/
theorem held_mcycle (s : CsrFile) (c : Word) : ∀ p ∈ csrViews, p.1 ≠ csrMcycle → p.1 ≠ csrCycle →
    p.2.held { s with mcycle := c } = p.2.held s := by
  simp only [csrViews, List.forall_mem_cons, List.not_mem_nil, false_implies, implies_true, and_true]
  repeat' apply And.intro
  all_goals first
    | trivial
    | exact fun _ _ => rfl
    | exact fun cycle _ => absurd rfl cycle
    | exact fun _ cycle => absurd rfl cycle

end CsrFile

end Rv64gc.Csr
