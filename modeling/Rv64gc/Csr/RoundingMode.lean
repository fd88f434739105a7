import Rv64gc.Csr.FpState

/-!
# The dynamic rounding mode

An FP instruction takes its rounding mode from the committed `frm` in the cycle it is issued. A
write of `frm` takes effect when it commits, and only the write itself waits for the head of the
ROB: nothing holds back the FP instructions behind it. So the mode is right exactly as long as
none is issued past a write that is still to change it.
-/

namespace Rv64gc.Csr

open Hdl Backend CommitIn Decode Decode.Fields

-- ---------------------------------------------------------------------
-- The instructions in flight
-- ---------------------------------------------------------------------

abbrev rmDyn : BitVec 3 := 7

/-- `fpu_issue_rm`: a dynamic mode is read from `frm`, where 5 to 7 stay dynamic. -/
def fpuIssueRm (rm frm : BitVec 3) : BitVec 3 :=
  if rm = rmDyn then if frm < 5 then frm else rmDyn else rm

/-- An instruction in flight: what it will write to a CSR, and the mode it was issued with. -/
structure Op where
  isFpOp : Bool
  rm : BitVec 3
  isCsr : Bool
  csrWe : Bool
  csrAddr : BitVec 12
  csrOp : BitVec 2
  csrWdata : Word
  issued : Bool
  /-- `fpu_req_rm_r` of the request the instruction became. -/
  latchedRm : Option (BitVec 3)
deriving DecidableEq

namespace Op

def issueWith (frm : BitVec 3) (op : Op) : Op :=
  { op with
    issued := true
    latchedRm := if op.isFpOp then some (fpuIssueRm op.rm frm) else none }

/-- `frm` after the instruction. -/
def writeFrm (frm : BitVec 3) (op : Op) : BitVec 3 :=
  if op.isCsr && op.csrWe then
    if op.csrAddr = csrFrm then CsrFile.applyOp op.csrOp frm (op.csrWdata.extractLsb' 0 3)
    else if op.csrAddr = csrFcsr then CsrFile.applyOp op.csrOp frm (op.csrWdata.extractLsb' 5 3)
    else frm
  else frm

end Op

/-- `frm` after the instructions, oldest first. -/
def frmAfter (frm : BitVec 3) (ops : List Op) : BitVec 3 := ops.foldl Op.writeFrm frm

structure FpCore where
  csr : CsrFile
  ops : List Op

/-- One cycle: the window commit looks at, what is renamed, and the instruction that issues and
the branch that recovers, by their distance from the head of the ROB. -/
structure FpIn where
  window : CoreIn
  renamed : List Op
  issue : Option Nat
  recover : Option Nat

/-- The entry at the head shows the instruction. -/
structure Shows (h : HeadEntry) (op : Op) : Prop where
  isCsr : h.isCsr = op.isCsr
  issued : h.ready = true → op.issued = true
  csrWe : h.ready = true → h.csrWe = op.csrWe
  write : h.ready = true → op.csrWe = true →
    h.csrAddr = op.csrAddr ∧ h.csrOp = op.csrOp ∧ h.csrWdata = op.csrWdata

namespace FpCore

variable (s : FpCore) (i : FpIn)

def commit : CommitIn := commitIn s.csr i.window

def issuedOps : List Op :=
  match i.issue with
  | some k => s.ops.modify k (Op.issueWith s.csr.frm)
  | none => s.ops

def opsNext : List Op :=
  if (s.commit i).flushOut.valid then []
  else match i.recover with
    | some k => ((s.issuedOps i).take (k + 1)).drop (s.commit i).commitCount
    | none => (s.issuedOps i).drop (s.commit i).commitCount ++ i.renamed

def next : FpCore := ⟨privilegeRuns.next s.csr i.window, s.opsNext i⟩

/-- The heads of the ROB are the oldest instructions in flight, instructions issue once and in any
order, a CSR access at the head of the ROB only, and what is renamed has not issued. -/
structure Legal : Prop where
  heads : ∀ k < pipeWidth, (i.window.head k).valid = true →
    ∃ op, s.ops[k]? = some op ∧ Shows (i.window.head k) op
  issues : ∀ k, i.issue = some k →
    ∃ op, s.ops[k]? = some op ∧ op.issued = false ∧ (op.isCsr = true → k = 0)
  renamed : ∀ op ∈ i.renamed, op.issued = false ∧ op.latchedRm = none

end FpCore

def fpCore : Machine FpCore FpIn where
  reset := ⟨.reset, []⟩
  next := FpCore.next
  legal := FpCore.Legal

-- ---------------------------------------------------------------------
-- The mode an instruction should have
-- ---------------------------------------------------------------------

/-- Every FP instruction was issued with the mode its place in the program gives it: the youngest
older write of `frm` decides. -/
def RightMode (s : FpCore) : Prop :=
  ∀ k op m, s.ops[k]? = some op → op.latchedRm = some m →
    m = fpuIssueRm op.rm (frmAfter s.csr.frm (s.ops.take k))

/-- An FP instruction that issues and survives the cycle is not dynamic, or the older writes of
`frm` still in flight leave the mode as it is. -/
def NoPendingMode (s : FpCore) (i : FpIn) : Prop :=
  ∀ k op, i.issue = some k → s.ops[k]? = some op → op.isFpOp = true → op.rm = rmDyn →
    (s.commit i).flushOut.valid = false → (∀ b, i.recover = some b → k ≤ b) →
    fpuIssueRm rmDyn (frmAfter s.csr.frm (s.ops.take k)) = fpuIssueRm rmDyn s.csr.frm

theorem frmAfter_append (frm : BitVec 3) (first rest : List Op) :
    frmAfter frm (first ++ rest) = frmAfter (frmAfter frm first) rest :=
  List.foldl_append

@[simp] theorem writeFrm_issueWith (frm f : BitVec 3) (op : Op) :
    (op.issueWith f).writeFrm frm = op.writeFrm frm := rfl

/-- Issuing changes no write. -/
theorem frmAfter_take_modify (frm f : BitVec 3) (ops : List Op) (k n : Nat) :
    frmAfter frm ((ops.modify k (Op.issueWith f)).take n) = frmAfter frm (ops.take n) := by
  induction ops generalizing frm k n with
  | nil => simp
  | cons op rest ih =>
    cases n with
    | zero => rfl
    | succ n =>
      cases k with
      | zero => rfl
      | succ k =>
        rw [List.modify_succ_cons]
        exact ih (op.writeFrm frm) k n

theorem fpuIssueRm_static {rm : BitVec 3} (static : rm ≠ rmDyn) (a b : BitVec 3) :
    fpuIssueRm rm a = fpuIssueRm rm b := by
  simp only [fpuIssueRm, if_neg static]

-- ---------------------------------------------------------------------
-- The committed mode
-- ---------------------------------------------------------------------

theorem csrWrite_frm (s t : CsrFile) (i : CsrIn) : (s.csrWrite t i).frm =
    if i.writeAddr = csrFrm then (s.csrOpFrm i).extractLsb' 0 3
    else if i.writeAddr = csrFcsr then (s.csrOpFcsr i).extractLsb' 5 3
    else t.frm := by
  unfold CsrFile.csrWrite
  simp only [apply_ite CsrFile.frm, ite_self]
  split
  · rename_i isFflags
    rw [isFflags]
    rfl
  · rfl

/-- CSRRW, CSRRS and CSRRC act bit by bit. -/
theorem extract_applyOp (op : BitVec 2) (cur data : BitVec n) (fits : lo + w ≤ n) :
    (CsrFile.applyOp op cur data).extractLsb' lo w =
      CsrFile.applyOp op (cur.extractLsb' lo w) (data.extractLsb' lo w) := by
  unfold CsrFile.applyOp
  split
  · rfl
  split
  · exact BitVec.extractLsb'_or
  split
  · ext j hj
    have inside : lo + j < n := by omega
    simp [inside]
  · rfl

theorem csrWrite_frm_op (s t : CsrFile) (i : CsrIn) (keep : t.frm = s.frm) (op : Op)
    (write : (op.isCsr && op.csrWe) = true) (addr : i.writeAddr = op.csrAddr)
    (kind : i.writeOp = op.csrOp) (data : i.writeData = op.csrWdata) :
    (s.csrWrite t i).frm = op.writeFrm s.frm := by
  have low : (s.frm.setWidth 64).extractLsb' 0 3 = s.frm := by
    generalize s.frm = f
    revert f
    decide
  have high : ((s.frm ++ s.fflags).setWidth 64).extractLsb' 5 3 = s.frm := by
    generalize s.frm = f
    generalize s.fflags = g
    revert f g
    decide
  rw [csrWrite_frm, CsrFile.csrOpFrm, CsrFile.csrOpFcsr, extract_applyOp _ _ _ (by decide),
    extract_applyOp _ _ _ (by decide), low, high, addr, kind, data, keep, Op.writeFrm, if_pos write]

theorem accrued_frm (s : CsrFile) (i : CsrIn) : ((s.count i).accrueFp i).frm = s.frm := rfl

/-- In a cycle without a flush nothing but a CSR write that commits and the floating-point work of
the retired entries changes the CSR file. -/
theorem next_quiet {s : CsrFile} {x : CoreIn} (quiet : (commitIn s x).flushOut.valid = false) :
    privilegeRuns.next s x =
      if (csrIn s x).writeValid then
        s.csrWrite ((s.count (csrIn s x)).accrueFp (csrIn s x)) (csrIn s x)
      else (s.count (csrIn s x)).accrueFp (csrIn s x) := by
  have noTrap : (csrIn s x).trapValid = false := by
    simp [csrIn, trapOf, quiet]
  have noRet (ret : ((x.head 0).isMret || (x.head 0).isSret) = true) :
      ¬((commitIn s x).commitOut 0).valid = true := by
    intro leaves
    have leaves := (commitOut_valid _ 0).mp leaves
    have serial := serializing_of_kind (.inr ret)
    cases clean : (x.head 0).hasException with
    | true => cases quiet.symm.trans (flushOut_of_exception _ leaves clean)
    | false =>
      have due := due_of_leaves (Nat.lt_of_lt_of_le leaves (commitCount_le_scan _)) serial
      have asks : ((commitIn s x).head 0).asks .trapReturn = true := by
        simp only [HeadEntry.asks, commitIn, clean, ret]
        rfl
      cases quiet.symm.trans (flush_of_entry due asks fun _ => rfl).2.1
  have noMret : (csrIn s x).mretValid = false := by
    by_contra mret
    simp only [Bool.not_eq_false] at mret
    obtain ⟨leaves, isMret⟩ := (mretCommit_iff _).mp mret
    exact noRet (by rw [show (x.head 0).isMret = true from isMret]; rfl) leaves
  have noSret : (csrIn s x).sretValid = false := by
    by_contra sret
    simp only [Bool.not_eq_false] at sret
    obtain ⟨leaves, isSret⟩ := (sretCommit_iff _).mp sret
    exact noRet (by rw [show (x.head 0).isSret = true from isSret]; exact Bool.or_true _) leaves
  exact next_plain noTrap noMret noSret

theorem next_frm {s : CsrFile} {x : CoreIn} (quiet : (commitIn s x).flushOut.valid = false) :
    (privilegeRuns.next s x).frm =
      if (csrIn s x).writeValid then
        (s.csrWrite ((s.count (csrIn s x)).accrueFp (csrIn s x)) (csrIn s x)).frm
      else s.frm := by
  rw [next_quiet quiet]
  cases (csrIn s x).writeValid <;> rfl

theorem frmAfter_of_none {ops : List Op} (none : ∀ op ∈ ops, (op.isCsr && op.csrWe) = false)
    (frm : BitVec 3) : frmAfter frm ops = frm := by
  induction ops with
  | nil => rfl
  | cons op rest ih =>
    have same : op.writeFrm frm = frm := by
      simp [Op.writeFrm, none op List.mem_cons_self]
    have tail := ih fun other member => none other (List.mem_cons_of_mem _ member)
    exact (congrArg (frmAfter · rest) same).trans tail

/-- An entry that leaves shows an instruction that has issued. -/
theorem shows_of_leaves {s : FpCore} {i : FpIn} (legal : s.Legal i) {k : Nat}
    (leaves : k < (s.commit i).commitCount) :
    ∃ op, s.ops[k]? = some op ∧ Shows (i.window.head k) op ∧ (i.window.head k).ready = true := by
  have inScan := Nat.lt_of_lt_of_le leaves (commitCount_le_scan _)
  obtain ⟨valid, ready⟩ := (scanOk (s.commit i)).ready k inScan
  obtain ⟨op, there, shows⟩ :=
    legal.heads k (Nat.lt_of_lt_of_le leaves (commitCount_le _)) valid
  exact ⟨op, there, shows, ready⟩

/-- The committed `frm` moves on by the instructions that commit. -/
theorem frm_committed {s : FpCore} {i : FpIn} (legal : s.Legal i)
    (quiet : (s.commit i).flushOut.valid = false) :
    (s.next i).csr.frm = frmAfter s.csr.frm (s.ops.take (s.commit i).commitCount) := by
  have noIrq : (s.commit i).takeInterrupt = false := by
    by_contra taken
    simp only [Bool.not_eq_false] at taken
    rw [flush_of_interrupt taken] at quiet
    cases quiet
  obtain ⟨r, g⟩ := group (s.commit i)
  have g := g.retired noIrq
  have all : (s.commit i).commitCount = r := by
    rcases g.leaves with ⟨count, -⟩ | ⟨count, traps⟩
    · exact count
    · have leaves := (commitOut_valid _ r).mp traps.1
      cases quiet.symm.trans (flushOut_of_exception _ leaves traps.2)
  rw [FpCore.next, next_frm quiet, all]
  cases write : (csrIn s.csr i.window).writeValid with
  | true =>
    obtain ⟨k, some, csr, we⟩ := g.csr.mp write
    obtain rfl := g.csrSlot k some csr
    have one := alone_of_serializing g some (serializing_of_kind (.inl csr))
    subst one
    obtain ⟨op, there, shows, ready⟩ := shows_of_leaves legal (all ▸ some)
    have isCsr : op.isCsr = true := shows.isCsr.symm.trans csr
    have csrWe : op.csrWe = true := (shows.csrWe ready).symm.trans we
    obtain ⟨addr, kind, data⟩ := shows.write ready csrWe
    obtain ⟨rest, eq⟩ : ∃ rest, s.ops = op :: rest := by
      cases ops : s.ops with
      | nil => simp [ops] at there
      | cons first rest =>
        simp only [ops, List.getElem?_cons_zero, Option.some.injEq] at there
        exact ⟨rest, by rw [there]⟩
    rw [eq, if_pos rfl, csrWrite_frm_op _ _ _ (accrued_frm _ _) op (by rw [isCsr, csrWe]; rfl) addr
      kind data]
    rfl
  | false =>
    rw [if_neg Bool.false_ne_true, frmAfter_of_none]
    intro op member
    obtain ⟨k, inTake, there⟩ := List.mem_iff_getElem.mp member
    have hk : k < r := by
      rw [List.length_take] at inTake
      exact Nat.lt_of_lt_of_le inTake (Nat.min_le_left _ _)
    obtain ⟨op', there', shows, ready⟩ := shows_of_leaves legal (all ▸ hk)
    obtain rfl : op = op' := by
      have inOps : k < s.ops.length := by
        rw [List.length_take] at inTake
        exact Nat.lt_of_lt_of_le inTake (Nat.min_le_right _ _)
      rw [List.getElem_take] at there
      rw [List.getElem?_eq_getElem inOps, there] at there'
      exact Option.some.inj there'
    by_contra writes
    simp only [Bool.not_eq_false, Bool.and_eq_true] at writes
    have csr : (i.window.head k).isCsr = true := shows.isCsr.trans writes.1
    have we : (i.window.head k).csrWe = true := (shows.csrWe ready).trans writes.2
    cases write.symm.trans (g.csr.mpr ⟨k, hk, csr, we⟩)

-- ---------------------------------------------------------------------
-- One cycle
-- ---------------------------------------------------------------------

variable {s : FpCore} {i : FpIn}

/-- The cycle keeps instruction `k` in flight. -/
def Survives (s : FpCore) (i : FpIn) (k : Nat) : Prop :=
  (s.commit i).flushOut.valid = false ∧ (s.commit i).commitCount ≤ k ∧
    ∀ b, i.recover = some b → k ≤ b

theorem length_issuedOps (s : FpCore) (i : FpIn) : (s.issuedOps i).length = s.ops.length := by
  unfold FpCore.issuedOps
  split
  · exact List.length_modify _ _ _
  · rfl

theorem frmAfter_take_issuedOps (s : FpCore) (i : FpIn) (frm : BitVec 3) (n : Nat) :
    frmAfter frm ((s.issuedOps i).take n) = frmAfter frm (s.ops.take n) := by
  unfold FpCore.issuedOps
  split
  · exact frmAfter_take_modify frm _ _ _ n
  · rfl

/-- The instruction moves up by what commits. -/
theorem opsNext_survives (survives : Survives s i k) (inOps : k < s.ops.length) :
    (s.opsNext i)[k - (s.commit i).commitCount]? = (s.issuedOps i)[k]? ∧
      (s.opsNext i).take (k - (s.commit i).commitCount) =
        ((s.issuedOps i).drop (s.commit i).commitCount).take (k - (s.commit i).commitCount) := by
  obtain ⟨quiet, past, kept⟩ := survives
  obtain ⟨d, rfl⟩ := Nat.exists_eq_add_of_le past
  have long := length_issuedOps s i
  rw [Nat.add_sub_cancel_left]
  unfold FpCore.opsNext
  rw [if_neg (by rw [quiet]; exact Bool.false_ne_true)]
  cases recover : i.recover with
  | some b =>
    have inside : (s.commit i).commitCount + d < b + 1 := Nat.lt_succ_of_le (kept b recover)
    constructor
    · simp only [List.getElem?_drop, List.getElem?_take_of_lt inside]
    · simp only [List.drop_take, List.take_take]
      rw [Nat.min_eq_left (by omega)]
  | none =>
    have inDrop : d < ((s.issuedOps i).drop (s.commit i).commitCount).length := by
      rw [List.length_drop, long]
      omega
    constructor
    · simp only [List.getElem?_append_left inDrop, List.getElem?_drop]
    · simp only [List.take_append_of_le_length (Nat.le_of_lt inDrop)]

/-- What is in flight afterwards was in flight before or is new. -/
theorem survives_of_opsNext (there : (s.opsNext i)[k]? = some op) :
    (Survives s i ((s.commit i).commitCount + k) ∧
      (s.commit i).commitCount + k < s.ops.length) ∨ op ∈ i.renamed := by
  have long := length_issuedOps s i
  unfold FpCore.opsNext at there
  split at there
  · simp at there
  rename_i flush
  have quiet : (s.commit i).flushOut.valid = false := by simpa using flush
  cases recover : i.recover with
  | some b =>
    simp only [recover, List.getElem?_drop] at there
    have inside : (s.commit i).commitCount + k < b + 1 := by
      by_contra outside
      rw [List.getElem?_take_eq_none (Nat.le_of_not_lt outside)] at there
      cases there
    rw [List.getElem?_take_of_lt inside] at there
    obtain ⟨inOps, -⟩ := List.getElem?_eq_some_iff.mp there
    refine .inl ⟨⟨quiet, Nat.le_add_right _ _, fun b' h => ?_⟩, long ▸ inOps⟩
    cases recover.symm.trans h
    exact Nat.le_of_lt_succ inside
  | none =>
    simp only [recover] at there
    by_cases inDrop : k < ((s.issuedOps i).drop (s.commit i).commitCount).length
    · refine .inl ⟨⟨quiet, Nat.le_add_right _ _, fun b h => ?_⟩, ?_⟩
      · cases recover.symm.trans h
      · rw [List.length_drop, long] at inDrop
        omega
    · rw [List.getElem?_append_right (Nat.le_of_not_lt inDrop)] at there
      exact .inr (List.mem_of_getElem? there)

/-- The mode a surviving instruction should have does not change. -/
theorem frmAfter_survives (legal : s.Legal i) (survives : Survives s i k)
    (inOps : k < s.ops.length) :
    frmAfter (s.next i).csr.frm ((s.opsNext i).take (k - (s.commit i).commitCount)) =
      frmAfter s.csr.frm (s.ops.take k) := by
  rw [(opsNext_survives survives inOps).2, frm_committed legal survives.1,
    ← frmAfter_take_issuedOps s i, ← frmAfter_append, ← List.take_add,
    Nat.add_sub_cancel' survives.2.1, frmAfter_take_issuedOps]

theorem issuedOps_issue (issue : i.issue = some k) (there : s.ops[k]? = some op) :
    (s.issuedOps i)[k]? = some (op.issueWith s.csr.frm) := by
  simp [FpCore.issuedOps, issue, there]

theorem issuedOps_other (other : i.issue ≠ some k) : (s.issuedOps i)[k]? = s.ops[k]? := by
  unfold FpCore.issuedOps
  split
  · rename_i j issue
    have differs : j ≠ k := fun h => other (h ▸ issue)
    exact List.getElem?_modify_ne _ _ differs
  · rfl

theorem lt_length_of_getElem? {ops : List Op} (there : ops[k]? = some op) : k < ops.length :=
  (List.getElem?_eq_some_iff.mp there).1

theorem noPendingMode_of_next (legal : s.Legal i) (next : RightMode (s.next i)) :
    NoPendingMode s i := by
  intro k op issue there isFp dyn quiet kept
  have past : (s.commit i).commitCount ≤ k := by
    by_contra leaves
    obtain ⟨op', there', shows, ready⟩ := shows_of_leaves legal (Nat.lt_of_not_le leaves)
    obtain ⟨op'', there'', waiting, -⟩ := legal.issues k issue
    obtain rfl : op' = op'' := Option.some.inj (there'.symm.trans there'')
    cases waiting.symm.trans (shows.issued ready)
  have inOps := lt_length_of_getElem? there
  have survives : Survives s i k := ⟨quiet, past, kept⟩
  have moved := (opsNext_survives survives inOps).1.trans (issuedOps_issue issue there)
  have mode := next _ _ (fpuIssueRm rmDyn s.csr.frm) moved (by simp [Op.issueWith, isFp, dyn])
  have place : frmAfter (s.next i).csr.frm ((s.next i).ops.take (k - (s.commit i).commitCount)) =
      frmAfter s.csr.frm (s.ops.take k) := frmAfter_survives legal survives inOps
  have asked : (op.issueWith s.csr.frm).rm = rmDyn := dyn
  rw [place, asked] at mode
  exact mode.symm

theorem rightMode_next (legal : s.Legal i) (right : RightMode s) (cond : NoPendingMode s i) :
    RightMode (s.next i) := by
  intro k op m there latched
  rcases survives_of_opsNext there with ⟨survives, inOps⟩ | new
  · have place := frmAfter_survives legal survives inOps
    have moved := (opsNext_survives survives inOps).1
    rw [Nat.add_sub_cancel_left] at place moved
    have before : (s.issuedOps i)[(s.commit i).commitCount + k]? = some op := moved.symm.trans there
    rw [show (s.next i).ops = s.opsNext i from rfl, place]
    by_cases issue : i.issue = some ((s.commit i).commitCount + k)
    · obtain ⟨op', there', -⟩ := legal.issues _ issue
      obtain rfl := Option.some.inj ((issuedOps_issue issue there').symm.trans before)
      simp only [Op.issueWith] at latched ⊢
      cases isFp : op'.isFpOp with
      | false => simp [isFp] at latched
      | true =>
        simp only [isFp, if_true, Option.some.injEq] at latched
        rw [← latched]
        by_cases dyn : op'.rm = rmDyn
        · rw [dyn]
          exact (cond _ op' issue there' isFp dyn survives.1 survives.2.2).symm
        · exact fpuIssueRm_static dyn _ _
    · exact right _ op m ((issuedOps_other issue).symm.trans before) latched
  · cases (legal.renamed op new).2.symm.trans latched

/-- `csrrwi x0, frm, 1`: round towards zero. -/
def setRtzInsn : BitVec 32 := 0x0020d073
def fpAddDynInsn : BitVec 32 := 0x003170d3

/-- The instruction as it is renamed, with the CSR write it is going to make. -/
def opOf (insn : BitVec 32) : Op :=
  let d := decodeSlice insn 0 false
  { isFpOp := d.isFpOp
    rm := d.fp.rm
    isCsr := d.isCsr
    csrWe := d.isCsr
    csrAddr := d.csrAddr
    csrOp := 0
    csrWdata := d.imm
    issued := false
    latchedRm := none }

/-- `count` entries are in the ROB. The first has finished if `done` says so. -/
def rtzWindow (count : Nat) (done : Bool) : CoreIn where
  headIdx := 0
  head k :=
    let op := opOf (if k = 0 then setRtzInsn else fpAddDynInsn)
    { entryOf (decodeSlice (if k = 0 then setRtzInsn else fpAddDynInsn) 0 false)
        (decide (k < count)) with
      ready := k == 0 && done
      csrWe := op.csrWe
      csrAddr := op.csrAddr
      csrOp := op.csrOp
      csrWdata := op.csrWdata }
  fenceIReady := true
  sfenceVmaReady := true
  lines := ⟨false, false, false, false, false, false⟩

def renameRtz : FpIn := ⟨rtzWindow 0 false, [opOf setRtzInsn, opOf fpAddDynInsn], none, none⟩
def issueWrite : FpIn := ⟨rtzWindow 2 false, [], some 0, none⟩
def issueAdd : FpIn := ⟨rtzWindow 2 false, [], some 1, none⟩
def commitWrite : FpIn := ⟨rtzWindow 2 true, [], none, none⟩
def issueAddAfter : FpIn := ⟨rtzWindow 0 false, [], some 0, none⟩

theorem shows_opOf (k count : Nat) (done : Bool) (op : Op)
    (same : op.isCsr = (opOf (if k = 0 then setRtzInsn else fpAddDynInsn)).isCsr)
    (waits : (k == 0 && done) = false) : Shows ((rtzWindow count done).head k) op := by
  have wait : ((rtzWindow count done).head k).ready = false := waits
  refine ⟨same.symm, ?_, ?_, ?_⟩ <;> intro ready <;> cases wait.symm.trans ready

theorem legal_renameRtz : fpCore.legal fpCore.reset renameRtz where
  heads k _ valid := by cases valid
  issues k issue := by cases issue
  renamed op member := by
    rcases List.mem_cons.mp member with rfl | member
    · exact ⟨rfl, rfl⟩
    · rw [List.mem_singleton.mp member]
      exact ⟨rfl, rfl⟩

/-- Two instructions are in flight and nothing has finished, or only the first has. -/
theorem legal_two {s : FpCore} {a b : Op} {issue : Option Nat} (ops : s.ops = [a, b])
    (aCsr : a.isCsr = true) (bCsr : b.isCsr = false)
    (finished : done = true → a = (opOf setRtzInsn).issueWith 0)
    (issues : ∀ k, issue = some k → ∃ op, s.ops[k]? = some op ∧ op.issued = false ∧
      (op.isCsr = true → k = 0)) :
    fpCore.legal s ⟨rtzWindow 2 done, [], issue, none⟩ where
  heads k _ valid := by
    have inside : k < 2 := of_decide_eq_true valid
    match k, inside with
    | 1, _ => exact ⟨b, by rw [ops]; rfl, shows_opOf 1 2 done b bCsr rfl⟩
    | 0, _ =>
      refine ⟨a, by rw [ops]; rfl, ?_⟩
      cases done with
      | false => exact shows_opOf 0 2 false a aCsr rfl
      | true =>
        rw [finished rfl]
        exact ⟨rfl, fun _ => rfl, fun _ => rfl, fun _ _ => ⟨rfl, rfl, rfl⟩⟩
  issues := issues
  renamed := nofun

def renamedRtz : FpCore := fpCore.next fpCore.reset renameRtz
def issuedRtz : FpCore := fpCore.next renamedRtz issueWrite
def committedRtz : FpCore := fpCore.next issuedRtz commitWrite

theorem ops_renamedRtz : renamedRtz.ops = [opOf setRtzInsn, opOf fpAddDynInsn] := by
  decide +kernel

theorem ops_issuedRtz :
    issuedRtz.ops = [(opOf setRtzInsn).issueWith 0, opOf fpAddDynInsn] := by
  decide +kernel

theorem ops_committedRtz : committedRtz.ops = [opOf fpAddDynInsn] := by decide +kernel

theorem legal_issueWrite : fpCore.legal renamedRtz issueWrite := by
  refine legal_two ops_renamedRtz rfl rfl nofun ?_
  rintro k ⟨⟩
  exact ⟨_, by rw [ops_renamedRtz]; rfl, rfl, fun _ => rfl⟩

theorem reach_issuedRtz : fpCore.Reach NoPendingMode issuedRtz := by
  refine .cycle (.cycle .reset legal_renameRtz nofun) legal_issueWrite ?_
  rintro k op ⟨⟩ there isFp
  rw [ops_renamedRtz] at there
  cases there
  cases isFp

/-- The addition behind the write is issued before the write commits, and rounds to nearest. -/
def addedTooEarly : FpCore := fpCore.next issuedRtz issueAdd

end Rv64gc.Csr
