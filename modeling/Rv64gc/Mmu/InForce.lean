import Rv64gc.Csr.Context
import Rv64gc.Mmu.Ptw

/-!
# The context in force

An instruction meets the CSR file in three places: fetch reads its privilege and address space,
rename asks whether the floating-point unit is on, and the data side translates and checks what it
accesses. All three run ahead of commit. Every instruction keeps a record of what it met, and every
translation a record of how many invalidations came before the walk it stems from.
-/

namespace Rv64gc.Mmu

open Hdl Csr Backend Decode

-- ---------------------------------------------------------------------
-- What an instruction met
-- ---------------------------------------------------------------------

/-- A line was looked up for fetch; `since` counts the invalidations before the walk that the
translation came from, if the address was translated. -/
structure FetchTag where
  priv : BitVec 2
  satp : Csr.Word
  since : Option Nat
deriving DecidableEq

/-- A data address was translated and checked. -/
structure AccessTag where
  priv : BitVec 2
  satp : Csr.Word
  sum : Bool
  mxr : Bool
  since : Option Nat
deriving DecidableEq

structure CtxOp where
  uop : DecodedInsn
  fetched : List FetchTag
  /-- `csr_mstatus_fs` was off when the instruction was renamed. -/
  fsOff : Bool
  accesses : List AccessTag

/-- `uses_fp_state` -/
def usesFpState (d : DecodedInsn) : Bool :=
  d.isFpOp || d.rs1IsFp || d.rs2IsFp || d.rs3IsFp || d.rdIsFp || d.isCsr && isFpCsr d.csrAddr

/-- Rename turns an instruction that needs the floating-point unit into an illegal one while the
unit is off. -/
def renameDecIn (csr : CsrFile) (d : DecodedInsn) : DecodedInsn :=
  if d.valid && !d.hasException && usesFpState d && csr.fsOff then
    { d with hasException := true, excCode := excIllegalInsn, excTval := 0 }
  else d

def renamedOp (csr : CsrFile) (d : DecodedInsn) (fetched : List FetchTag) : CtxOp :=
  ⟨renameDecIn csr d, fetched, csr.fsOff, []⟩

-- ---------------------------------------------------------------------
-- The core
-- ---------------------------------------------------------------------

/-- How many invalidations came before the walk behind each entry, before the walk under way and
before the page-table read that the L2 has not answered yet. -/
structure Since where
  itlb : Fin itlbDepth → Nat
  dtlb : Fin dtlbDepth → Nat
  walk : Nat
  sent : Option (Pa × Nat)

structure CtxCore where
  csr : CsrFile
  /-- `frontend_fetch_priv_r` -/
  fetchPriv : BitVec 2
  itlb : Tlb itlbDepth
  dtlb : Tlb dtlbDepth
  ptw : Ptw
  /-- The invalidations so far. -/
  epoch : Nat
  since : Since
  /-- The lines fetched since the last redirect. -/
  fetched : List FetchTag
  ops : List CtxOp

/-- One cycle: the window commit looks at, the branch that recovers, the line that is looked up,
the packet that is renamed with the lines it was cut from, the access in the data pipe, and the
walker's side of the memory. -/
structure CtxIn where
  window : CoreIn
  recover : Option Nat
  fetch : Option Va
  renamed : List (DecodedInsn × List FetchTag)
  access : Option (Nat × Va × Bool)
  dtlbReq : Option DtlbReq
  itlbReq : Option Va
  l2ReqAccepted : Bool
  l2Resp : Option L2Resp
  dcacheStoreAck : Bool

namespace CtxCore

variable (s : CtxCore) (i : CtxIn)

def commit : CommitIn := commitIn s.csr i.window

/-- `flush_out.valid`, which redirects fetch as well. -/
def flushes : Bool := (s.commit i).flushOut.valid || i.recover.isSome

def asid : Asid := satpAsid s.csr.satp

/-- `instr_vm_active` -/
def instrVmActive : Bool := s.csr.satpVmEnabled && s.fetchPriv != privM

/-- The line is fetched with its physical address, or not at all. -/
def fetchTag : Option FetchTag :=
  if s.flushes i then none
  else match i.fetch with
    | none => none
    | some va =>
      if s.instrVmActive then
        match s.itlb.find va s.asid with
        | some (k, t) =>
          if t.fetchFault s.fetchPriv then none
          else some ⟨s.fetchPriv, s.csr.satp, some (s.since.itlb k)⟩
        | none => none
      else some ⟨s.fetchPriv, s.csr.satp, none⟩

def dataLookup (va : Va) (isStore : Bool) : DataLookup :=
  ⟨va, isStore, s.csr.dataPriv, s.asid, s.csr.sum, s.csr.mxr⟩

/-- What the DTLB is asked. -/
def dtlbLookup : Option DataLookup :=
  if s.flushes i || !s.csr.dataVmActive then none
  else i.access.map fun a => s.dataLookup a.2.1 a.2.2

/-- The access goes on with its physical address, or is tried again later. -/
def accessTag (va : Va) (isStore : Bool) : Option AccessTag :=
  if s.flushes i then none
  else
    let tag := AccessTag.mk s.csr.dataPriv s.csr.satp s.csr.sum s.csr.mxr
    if s.csr.dataVmActive then
      if (s.dtlb.dataPa (s.dataLookup va isStore) s.ptw.dirtyWbReady).isSome then
        (s.dtlb.find va s.asid).map fun e => tag (some (s.since.dtlb e.1))
      else none
    else some (tag none)

def accessedOps : List CtxOp :=
  match i.access with
  | some (k, va, isStore) =>
    s.ops.modify k fun op => { op with accesses := (s.accessTag i va isStore).toList ++ op.accesses }
  | none => s.ops

def opsNext : List CtxOp :=
  if (s.commit i).flushOut.valid then []
  else match i.recover with
    | some k => ((s.accessedOps i).take (k + 1)).drop (s.commit i).commitCount
    | none => (s.accessedOps i).drop (s.commit i).commitCount ++
        i.renamed.map fun r => renamedOp s.csr r.1 r.2

def fetchedNext : List FetchTag :=
  if s.flushes i then [] else (s.fetchTag i).toList ++ s.fetched

def invalidates : Bool := translationTlbInvalidate (s.commit i)

def ptwIn : PtwIn where
  satp := s.csr.satp
  dtlbReq := i.dtlbReq
  itlbReq := i.itlbReq
  dirtyWb := s.dtlb.dirtyWb (s.dtlbLookup i) s.ptw.dirtyWbReady
  l2ReqAccepted := i.l2ReqAccepted
  l2Resp := i.l2Resp
  dcacheStoreAck := i.dcacheStoreAck
  flush := s.flushes i
  translationFlush := s.invalidates i

/-- A walk counts from the cycle it starts in, and from the oldest entry it has read. -/
def walkSince : Nat :=
  if s.ptw.state = .idle then s.epoch
  else match i.l2Resp, s.since.sent with
    | some _, some (_, e) => min s.since.walk e
    | _, _ => s.since.walk

def sentNext : Option (Pa × Nat) :=
  if i.l2ReqAccepted then some (s.ptw.l2ReqAddr, s.epoch)
  else if i.l2Resp.isSome then none
  else s.since.sent

def filledAt {n : Nat} (since : Fin n → Nat) (at_ : Fin n) (fill : Option Translation) :
    Fin n → Nat :=
  fun k => if fill.isSome ∧ k = at_ then s.since.walk else since k

def sinceNext : Since where
  itlb := s.filledAt s.since.itlb s.itlb.rrPtr (s.ptw.fillFor true)
  dtlb := s.filledAt s.since.dtlb s.dtlb.rrPtr (s.ptw.fillFor false)
  walk := s.walkSince i
  sent := s.sentNext i

def next : CtxCore where
  csr := privilegeRuns.next s.csr i.window
  fetchPriv := if s.flushes i then frontendRedirectPriv s.csr i.window else s.csr.priv
  itlb := s.itlb.next (s.invalidates i) (s.ptw.fillFor true)
  dtlb := s.dtlb.dataNext (s.dtlbLookup i) s.ptw.dirtyWbReady (s.invalidates i)
    (s.ptw.fillFor false)
  ptw := s.ptw.next (s.ptwIn i)
  epoch := if s.invalidates i then s.epoch + 1 else s.epoch
  since := s.sinceNext i
  fetched := s.fetchedNext i
  ops := s.opsNext i

end CtxCore

/-- The entry at the head shows the instruction. -/
structure CtxShows (h : HeadEntry) (op : CtxOp) : Prop where
  isCsr : h.isCsr = op.uop.isCsr
  csrAddr : h.csrAddr = op.uop.csrAddr
  isFpInstr : h.isFpInstr = usesFpState op.uop
  exception : op.uop.hasException = true → h.hasException = true

namespace CtxCore

variable (s : CtxCore) (i : CtxIn)

/-- The heads of the ROB are the oldest instructions in flight, an instruction is cut from lines
fetched since the last redirect, and the L2 takes the walker's requests and answers each once. -/
structure Legal : Prop where
  heads : ∀ k < pipeWidth, (i.window.head k).valid = true →
    ∃ op, s.ops[k]? = some op ∧ CtxShows (i.window.head k) op
  renamed : ∀ r ∈ i.renamed, r.1.valid = true ∧ ∀ f ∈ r.2, f ∈ s.fetched
  accepts : i.l2ReqAccepted = true → s.ptw.l2ReqValid = true
  answers : ∀ r, i.l2Resp = some r → ∃ e, s.since.sent = some (r.addr, e)

/-- The CSR file at entry `k` of a commit group: the older entries have turned FS dirty. -/
def csrAt (k : Nat) : CsrFile :=
  if (List.range k).any fun j => (i.window.head j).isFpInstr then
    { s.csr with mstatus := putField s.csr.mstatus 13 0b11#2 }
  else s.csr

end CtxCore

/-- The instruction was fetched, renamed and accessed memory in context `c`, through translations
that no later invalidation has removed. -/
structure InForce (c : Context) (epoch : Nat) (op : CtxOp) : Prop where
  fetched : ∀ f ∈ op.fetched, f.priv = c.priv ∧ f.satp = c.satp ∧ ∀ e, f.since = some e → e = epoch
  fsOff : op.fsOff = c.fsOff
  accesses : ∀ a ∈ op.accesses, a.priv = c.dataPriv ∧ a.satp = c.satp ∧ a.sum = c.sum ∧
    a.mxr = c.mxr ∧ ∀ e, a.since = some e → e = epoch

def ctxCore : Machine CtxCore CtxIn where
  reset := ⟨.reset, privM, .reset, .reset, .reset, 0, ⟨fun _ => 0, fun _ => 0, 0, none⟩, [], []⟩
  next := CtxCore.next
  legal := CtxCore.Legal

-- ---------------------------------------------------------------------
-- The invariant
-- ---------------------------------------------------------------------

/-- What needs the floating-point unit and was let through met it on. -/
def FpChecked (op : CtxOp) : Prop :=
  op.fsOff = true → usesFpState op.uop = true → op.uop.hasException = true

/-- Nothing in flight stems from before the last change of the context or the last invalidation. -/
structure UpToDate (s : CtxCore) : Prop where
  fetchPriv : s.fetchPriv = s.csr.priv
  reads : s.ptw.Reads (s.since.sent.map Prod.fst)
  answer : ∀ pa e, s.since.sent = some (pa, e) → s.ptw.state = .wait → e = s.epoch
  walk : s.ptw.state ≠ .idle → s.since.walk = s.epoch
  itlb : ∀ k t, s.itlb.entry k = some t → s.since.itlb k = s.epoch
  dtlb : ∀ k t, s.dtlb.entry k = some t → s.since.dtlb k = s.epoch
  fetched : ∀ f ∈ s.fetched, f.priv = s.csr.priv ∧ f.satp = s.csr.satp ∧
    ∀ e, f.since = some e → e = s.epoch
  ops : ∀ op ∈ s.ops, InForce (contextOf s.csr) s.epoch op ∧ FpChecked op

@[simp] theorem usesFpState_renameDecIn (csr : CsrFile) (d : DecodedInsn) :
    usesFpState (renameDecIn csr d) = usesFpState d := by
  unfold renameDecIn
  split <;> rfl

theorem fpChecked_renamed (csr : CsrFile) (valid : d.valid = true) (fetched : List FetchTag) :
    FpChecked (renamedOp csr d fetched) := by
  intro off uses
  change csr.fsOff = true at off
  change usesFpState (renameDecIn csr d) = true at uses
  rw [usesFpState_renameDecIn] at uses
  change (renameDecIn csr d).hasException = true
  unfold renameDecIn
  cases exception : d.hasException <;> simp [valid, uses, off, exception]

namespace CtxCore

variable {s : CtxCore} {i : CtxIn}

theorem flush_of_invalidates (invalidates : s.invalidates i = true) :
    (s.commit i).flushOut.valid = true :=
  flush_of_invalidate invalidates

/-- Without a flush of commit the context and the count of invalidations stay. -/
theorem epoch_quiet (quiet : (s.commit i).flushOut.valid = false) :
    s.invalidates i = false ∧ (s.next i).epoch = s.epoch := by
  have keeps : s.invalidates i = false := by
    by_contra invalidates
    cases quiet.symm.trans (flush_of_invalidates (by simpa using invalidates))
  exact ⟨keeps, by simp [next, keeps]⟩

/-- What retires without an exception was let through by rename. -/
theorem fpOn (upToDate : UpToDate s) (legal : s.Legal i) : FpOn s.csr i.window := by
  intro k leaves clean work
  have inScan := Nat.lt_of_lt_of_le leaves (CommitIn.commitCount_le_scan _)
  obtain ⟨valid, -⟩ := (CommitIn.scanOk (s.commit i)).ready k inScan
  obtain ⟨op, here, shows⟩ :=
    legal.heads k (Nat.lt_of_lt_of_le leaves (CommitIn.commitCount_le _)) valid
  obtain ⟨inForce, checked⟩ := upToDate.ops op (List.mem_of_getElem? here)
  have uses : usesFpState op.uop = true := by
    rw [Bool.or_eq_true, shows.isFpInstr, shows.isCsr, shows.csrAddr] at work
    obtain uses | csr := work
    · exact uses
    · simp [usesFpState, csr]
  by_contra off
  have off : op.fsOff = true := by
    rw [inForce.fsOff]
    simpa [contextOf] using off
  cases clean.symm.trans (shows.exception (checked off uses))

-- ---------------------------------------------------------------------
-- The walker and the TLBs
-- ---------------------------------------------------------------------

theorem sentNext_read (s : CtxCore) (i : CtxIn) :
    (s.sentNext i).map Prod.fst = s.ptw.sentNext (s.ptwIn i) (s.since.sent.map Prod.fst) := by
  unfold sentNext Ptw.sentNext
  change _ = if i.l2ReqAccepted then _ else if i.l2Resp.isSome then _ else _
  cases i.l2ReqAccepted with
  | true => rfl
  | false =>
    cases i.l2Resp with
    | some r => rfl
    | none => rfl

theorem reads_next (upToDate : UpToDate s) (legal : s.Legal i) :
    (s.next i).ptw.Reads ((s.next i).since.sent.map Prod.fst) := by
  change (s.ptw.next (s.ptwIn i)).Reads ((s.sentNext i).map Prod.fst)
  rw [sentNext_read]
  refine upToDate.reads.next legal.accepts fun r resp => ?_
  obtain ⟨e, sent⟩ := legal.answers r resp
  simp [sent]

/-- A walk goes on only in a cycle without an invalidation. -/
theorem walk_quiet (walks : (s.next i).ptw.state ≠ .idle) :
    (s.ptwIn i).flushes = false ∧ (s.next i).epoch = s.epoch := by
  have quiet : (s.ptwIn i).flushes = false := Ptw.quiet_of_busy walks
  have keeps : s.invalidates i = false := (Bool.or_eq_false_iff.mp quiet).2
  exact ⟨quiet, by simp [next, keeps]⟩

/-- An answer is to a read since the last invalidation, unless its walk was dropped. -/
theorem answer_fresh (upToDate : UpToDate s) (sent : s.since.sent = some (pa, e))
    (walks : s.ptw.state ≠ .idle) : e = s.epoch := by
  obtain waits | stale := upToDate.reads.out pa (by simp [sent])
  · exact upToDate.answer pa e sent waits
  · exact absurd (upToDate.reads.stale stale) walks

theorem answer_next (upToDate : UpToDate s) (sent : (s.next i).since.sent = some (pa, e))
    (waits : (s.next i).ptw.state = .wait) : e = (s.next i).epoch := by
  obtain ⟨quiet, epoch⟩ := walk_quiet (s := s) (i := i) (by simp [waits])
  rw [epoch]
  change s.sentNext i = some (pa, e) at sent
  change (s.ptw.next (s.ptwIn i)).state = .wait at waits
  rw [Ptw.next_state quiet] at waits
  unfold sentNext at sent
  split at sent
  next => exact (congrArg Prod.snd (Option.some.inj sent)).symm
  next idle =>
    split at sent
    next => cases sent
    next =>
      obtain ⟨-, accepted, -⟩ | ⟨state, -, -⟩ := Ptw.walk_waits waits
      · exact absurd accepted idle
      · exact upToDate.answer pa e sent state

theorem walk_next (upToDate : UpToDate s) (walks : (s.next i).ptw.state ≠ .idle) :
    (s.next i).since.walk = (s.next i).epoch := by
  obtain ⟨-, epoch⟩ := walk_quiet walks
  rw [epoch]
  change s.walkSince i = s.epoch
  unfold walkSince
  split
  next => rfl
  next walking =>
    have since := upToDate.walk walking
    split
    next pa e sent =>
      rw [since, answer_fresh upToDate sent walking, Nat.min_self]
    next => exact since

theorem filled_fresh (upToDate : UpToDate s) (fill : (s.ptw.fillFor forItlb).isSome = true) :
    s.since.walk = s.epoch := by
  refine upToDate.walk fun idle => ?_
  simp [Ptw.fillFor, idle] at fill

theorem itlb_next (upToDate : UpToDate s) (present : (s.next i).itlb.entry k = some t) :
    (s.next i).since.itlb k = (s.next i).epoch := by
  obtain ⟨keeps, cases⟩ := Tlb.next_entry present
  have epoch : (s.next i).epoch = s.epoch := by simp [next, keeps]
  rw [epoch]
  change s.filledAt s.since.itlb s.itlb.rrPtr (s.ptw.fillFor true) k = s.epoch
  unfold filledAt
  obtain ⟨fill, here⟩ | ⟨other, old⟩ := cases
  · rw [if_pos ⟨fill, here⟩]
    exact filled_fresh upToDate fill
  · rw [if_neg other]
    exact upToDate.itlb k t old

theorem dtlb_next (upToDate : UpToDate s) (present : (s.next i).dtlb.entry k = some t) :
    (s.next i).since.dtlb k = (s.next i).epoch := by
  obtain ⟨t', present⟩ := Tlb.dataNext_entry present
  obtain ⟨keeps, cases⟩ := Tlb.next_entry present
  have epoch : (s.next i).epoch = s.epoch := by simp [next, keeps]
  rw [epoch]
  change s.filledAt s.since.dtlb s.dtlb.rrPtr (s.ptw.fillFor false) k = s.epoch
  unfold filledAt
  obtain ⟨fill, here⟩ | ⟨other, old⟩ := cases
  · rw [if_pos ⟨fill, here⟩]
    exact filled_fresh upToDate fill
  · rw [if_neg other]
    exact upToDate.dtlb k t' old

-- ---------------------------------------------------------------------
-- What is looked up
-- ---------------------------------------------------------------------

theorem fetchTag_inForce (upToDate : UpToDate s) (fetch : s.fetchTag i = some f) :
    f.priv = s.csr.priv ∧ f.satp = s.csr.satp ∧ ∀ e, f.since = some e → e = s.epoch := by
  unfold fetchTag at fetch
  split at fetch
  next => cases fetch
  next =>
    split at fetch
    next => cases fetch
    next =>
      split at fetch
      next =>
        split at fetch
        next k t found =>
          split at fetch
          next => cases fetch
          next =>
            obtain rfl := Option.some.inj fetch
            refine ⟨upToDate.fetchPriv, rfl, fun e since => ?_⟩
            rw [← Option.some.inj since]
            exact upToDate.itlb k t (Tlb.find_some found)
        next => cases fetch
      next =>
        obtain rfl := Option.some.inj fetch
        exact ⟨upToDate.fetchPriv, rfl, nofun⟩

theorem accessTag_inForce (upToDate : UpToDate s) (access : s.accessTag i va isStore = some a) :
    a.priv = s.csr.dataPriv ∧ a.satp = s.csr.satp ∧ a.sum = s.csr.sum ∧ a.mxr = s.csr.mxr ∧
      ∀ e, a.since = some e → e = s.epoch := by
  unfold accessTag at access
  split at access
  next => cases access
  next =>
    dsimp only at access
    split at access
    next =>
      split at access
      next =>
        obtain ⟨e, found, rfl⟩ := Option.map_eq_some_iff.mp access
        refine ⟨rfl, rfl, rfl, rfl, fun since same => ?_⟩
        rw [← Option.some.inj same]
        exact upToDate.dtlb e.1 e.2 (Tlb.find_some found)
      next => cases access
    next =>
      obtain rfl := Option.some.inj access
      exact ⟨rfl, rfl, rfl, rfl, nofun⟩

theorem accessed_upToDate (upToDate : UpToDate s) :
    ∀ op ∈ s.accessedOps i, InForce (contextOf s.csr) s.epoch op ∧ FpChecked op := by
  intro op mem
  unfold accessedOps at mem
  split at mem
  next k va isStore access =>
    obtain ⟨j, here⟩ := List.getElem?_of_mem mem
    rw [List.getElem?_modify] at here
    obtain ⟨old, was, rfl⟩ := Option.map_eq_some_iff.mp here
    obtain ⟨inForce, checked⟩ := upToDate.ops old (List.mem_of_getElem? was)
    split
    next =>
      refine ⟨⟨inForce.fetched, inForce.fsOff, fun a mem => ?_⟩, checked⟩
      obtain fresh | before := List.mem_append.mp mem
      · exact accessTag_inForce upToDate (by simpa using fresh)
      · exact inForce.accesses a before
    next => exact ⟨inForce, checked⟩
  next => exact upToDate.ops op mem

theorem fetched_next (upToDate : UpToDate s) (context : contextOf (s.next i).csr = contextOf s.csr)
    (epoch : (s.next i).epoch = s.epoch) (mem : f ∈ s.fetchedNext i) :
    f.priv = (s.next i).csr.priv ∧ f.satp = (s.next i).csr.satp ∧
      ∀ e, f.since = some e → e = (s.next i).epoch := by
  have priv : (s.next i).csr.priv = s.csr.priv := congrArg Context.priv context
  have satp : (s.next i).csr.satp = s.csr.satp := congrArg Context.satp context
  rw [priv, satp, epoch]
  unfold fetchedNext at mem
  split at mem
  next => cases mem
  next =>
    obtain fresh | before := List.mem_append.mp mem
    · exact fetchTag_inForce upToDate (by simpa using fresh)
    · exact upToDate.fetched f before

theorem renamed_inForce (upToDate : UpToDate s) (legal : s.Legal i) (mem : r ∈ i.renamed) :
    InForce (contextOf s.csr) s.epoch (renamedOp s.csr r.1 r.2) where
  fetched f tag := upToDate.fetched f ((legal.renamed r mem).2 f tag)
  fsOff := rfl
  accesses := by simp [renamedOp]

theorem ops_quiet (upToDate : UpToDate s) (legal : s.Legal i)
    (quiet : (s.commit i).flushOut.valid = false) :
    ∀ op ∈ s.opsNext i, InForce (contextOf s.csr) s.epoch op ∧ FpChecked op := by
  intro op mem
  have accessed := accessed_upToDate (i := i) upToDate
  simp only [opsNext, quiet, Bool.false_eq_true, if_false] at mem
  split at mem
  next => exact accessed op (List.mem_of_mem_take (List.mem_of_mem_drop mem))
  next =>
    obtain older | new := List.mem_append.mp mem
    · exact accessed op (List.mem_of_mem_drop older)
    · obtain ⟨r, arrives, rfl⟩ := List.mem_map.mp new
      exact ⟨renamed_inForce upToDate legal arrives,
        fpChecked_renamed s.csr (legal.renamed r arrives).1 r.2⟩

-- ---------------------------------------------------------------------
-- One cycle
-- ---------------------------------------------------------------------

theorem fetchPriv_next (context : (s.commit i).flushOut.valid = false →
    contextOf (s.next i).csr = contextOf s.csr) : (s.next i).fetchPriv = (s.next i).csr.priv := by
  change (if s.flushes i then frontendRedirectPriv s.csr i.window else s.csr.priv) = _
  cases flush : (s.commit i).flushOut.valid with
  | true =>
    rw [if_pos (by simp [flushes, flush])]
    exact frontendRedirectPriv_eq flush
  | false =>
    have priv : (s.next i).csr.priv = s.csr.priv := congrArg Context.priv (context flush)
    have same : frontendRedirectPriv s.csr i.window = s.csr.priv := by
      simp [frontendRedirectPriv, show (commitIn s.csr i.window).flushOut.valid = false from flush]
    rw [same, ite_self, priv]

theorem upToDate_next (upToDate : UpToDate s) (legal : s.Legal i) : UpToDate (s.next i) := by
  have context (quiet : (s.commit i).flushOut.valid = false) :
      contextOf (s.next i).csr = contextOf s.csr :=
    contextOf_quiet quiet (fpOn upToDate legal)
  constructor
  case fetchPriv => exact fetchPriv_next context
  case reads => exact reads_next upToDate legal
  case answer => exact fun _ _ => answer_next upToDate
  case walk => exact walk_next upToDate
  case itlb => exact fun _ _ => itlb_next upToDate
  case dtlb => exact fun _ _ => dtlb_next upToDate
  case fetched =>
    intro f mem
    change f ∈ s.fetchedNext i at mem
    cases flush : (s.commit i).flushOut.valid with
    | true => simp [fetchedNext, flushes, flush] at mem
    | false => exact fetched_next upToDate (context flush) (epoch_quiet flush).2 mem
  case ops =>
    intro op mem
    change op ∈ s.opsNext i at mem
    cases flush : (s.commit i).flushOut.valid with
    | true => simp [opsNext, flush] at mem
    | false =>
      rw [context flush, (epoch_quiet flush).2]
      exact ops_quiet upToDate legal flush op mem

/-- Turning FS dirty on the way to entry `k` leaves the context as it is. -/
theorem contextOf_csrAt (upToDate : UpToDate s) (legal : s.Legal i)
    (retires : (s.commit i).Retires k) : contextOf (s.csrAt i k) = contextOf s.csr := by
  unfold csrAt
  split
  next some =>
    obtain ⟨j, mem, fp⟩ := List.any_eq_true.mp some
    have before := List.mem_range.mp mem
    have leaves := (CommitIn.commitOut_valid _ _).mp retires.1
    have clean : (i.window.head j).hasException = false := by
      have inScan := Nat.lt_of_lt_of_le leaves (CommitIn.commitCount_le_scan _)
      exact ((CommitIn.scanOk (s.commit i)).clean j (by omega) (.inl (by omega))).1
    have on := fpOn upToDate legal j (Nat.lt_trans before leaves) clean (by simp [fp])
    exact contextOf_congr rfl rfl (.inr ⟨on, rfl⟩)
  next => rfl

end CtxCore

theorem upToDate_of_reach (reach : ctxCore.Reachable s) : UpToDate s := by
  refine reach.invariant UpToDate ?_ fun s i _ upToDate legal _ =>
    CtxCore.upToDate_next upToDate legal
  constructor
  case reads => exact ⟨by simp [ctxCore, Ptw.reset], by simp [ctxCore], by simp [ctxCore, Ptw.reset]⟩
  all_goals simp [ctxCore, Ptw.reset, Tlb.reset, CsrFile.reset]

/-- lw x1, 0(x0) -/
def loadInsn : BitVec 32 := 0x00002083

def quietIn : CtxIn where
  window := { retireAlone loadInsn with head := fun _ => entryOf (decodeSlice loadInsn 0 false) false }
  recover := none
  fetch := none
  renamed := []
  access := none
  dtlbReq := none
  itlbReq := none
  l2ReqAccepted := false
  l2Resp := none
  dcacheStoreAck := false

/-- The load is fetched, renamed and accesses memory. -/
def loadInputs : List CtxIn :=
  [{ quietIn with fetch := some 0 },
   { quietIn with renamed := [(decodeSlice loadInsn 0 false, [⟨privM, 0, none⟩])] },
   { quietIn with access := some (0, 0, false) }]

def retireLoad : CtxIn := { quietIn with window := retireAlone loadInsn }

/-- Nothing is at the head of the ROB and the walker rests. -/
theorem legal_quiet {s : CtxCore} {i : CtxIn} (window : i.window = quietIn.window)
    (renamed : ∀ r ∈ i.renamed, r.1.valid = true ∧ ∀ f ∈ r.2, f ∈ s.fetched)
    (accepts : i.l2ReqAccepted = false) (answers : i.l2Resp = none) : s.Legal i where
  heads k _ valid := by
    rw [window] at valid
    cases valid
  renamed := renamed
  accepts := by simp [accepts]
  answers := by simp [answers]

theorem legal_load : ctxCore.Legal ctxCore.reset loadInputs := by
  refine ⟨legal_quiet rfl ?_ rfl rfl, legal_quiet rfl ?_ rfl rfl, legal_quiet rfl ?_ rfl rfl,
    trivial⟩
  · simp [quietIn]
  · intro r mem
    obtain rfl := List.mem_singleton.mp mem
    refine ⟨by decide +kernel, fun f tag => ?_⟩
    obtain rfl := List.mem_singleton.mp tag
    exact .head _
  · simp [quietIn]

/-- The load in flight. -/
def loadOp : CtxOp :=
  { renamedOp .reset (decodeSlice loadInsn 0 false) [⟨privM, 0, none⟩] with
    accesses := [⟨privM, 0, false, false, none⟩] }

end Rv64gc.Mmu
