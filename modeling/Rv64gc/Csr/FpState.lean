import Rv64gc.Backend.CommitGroup

/-!
# Accrued floating-point state

The flags and the dirty mark of a retiring group reach the CSR file together with the trap that
may end the group. The file handles the trap first and then takes nothing else, so the group's
floating-point work is recorded exactly when no trap follows it or there is nothing new to record.
-/

namespace Rv64gc.Csr

open Hdl Backend CommitIn Decode Decode.Fields

-- ---------------------------------------------------------------------
-- What a retiring instruction does to the floating-point state
-- ---------------------------------------------------------------------

def writesCsr (e : HeadEntry) (addr : BitVec 12) : Bool := e.isCsr && e.csrWe && e.csrAddr == addr

/-- The flags after the entry: a CSR write replaces them, anything else adds its own. -/
def flagsAfter (s : CsrFile) (flags : BitVec 5) (e : HeadEntry) : BitVec 5 :=
  if writesCsr e csrFflags then
    (CsrFile.applyOp e.csrOp (flags.setWidth 64) e.csrWdata).extractLsb' 0 5
  else if writesCsr e csrFcsr then
    (CsrFile.applyOp e.csrOp ((s.frm ++ flags).setWidth 64) e.csrWdata).extractLsb' 0 5
  else flags ||| e.fpFflags

/-- The entry wrote a floating-point register or raised a flag. -/
def touchesFp (e : HeadEntry) : Bool := e.rdValid && e.rdIsFp || e.fpFflags != 0

/-- What the architecture asks of one cycle. -/
structure FpAccrued (s : CsrFile) (x : CoreIn) : Prop where
  flags : (privilegeRuns.next s x).fflags =
    (List.range pipeWidth).foldl
      (fun flags i =>
        if ((commitIn s x).commitOut i).valid && !(x.head i).hasException then
          flagsAfter s flags (x.head i)
        else flags)
      s.fflags
  dirty : ∀ i, (commitIn s x).Retires i → touchesFp (x.head i) = true →
    (privilegeRuns.next s x).fs = 0b11#2

/-- Allocation marks every instruction with a floating-point operand, and only the FPU reports
flags. Neither is ever a serializing instruction. -/
structure FpMarks (e : HeadEntry) : Prop where
  kind : e.OneKind
  marked : touchesFp e = true → e.isFpInstr = true ∧ e.isSerializing = false

/-- No trap follows floating-point work that is not recorded yet. -/
def RecordedBeforeTrap (s : CsrFile) (x : CoreIn) : Prop :=
  ∀ i, (commitIn s x).Raises .exception i → ∀ j < i,
    s.fflags ||| (x.head j).fpFflags = s.fflags ∧ (touchesFp (x.head j) = true → s.fs = 0b11#2)

-- ---------------------------------------------------------------------
-- The marks of an allocated instruction
-- ---------------------------------------------------------------------

/-- What allocation copies from the instruction, and what the FPU may add. -/
structure Allocated (e : HeadEntry) (d : DecodedInsn) : Prop where
  rdIsFp : e.rdIsFp = d.rdIsFp
  isCsr : e.isCsr = d.isCsr
  isFence : e.isFence = d.isFence
  isFenceI : e.isFenceI = d.isFenceI
  isMret : e.isMret = d.isMret
  isSret : e.isSret = d.isSret
  isSfenceVma : e.isSfenceVma = d.isSfenceVma
  isEcall : e.isEcall = d.isEcall
  isWfi : e.isWfi = d.isWfi
  isFpInstr : e.isFpInstr = (d.isFpOp || d.rs1IsFp || d.rs2IsFp || d.rs3IsFp || d.rdIsFp ||
    d.isCsr && (d.csrAddr == csrFflags || d.csrAddr == csrFrm || d.csrAddr == csrFcsr))
  flags : e.fpFflags ≠ 0 → d.isFpOp = true

def isSerial (d : DecodedInsn) : Bool :=
  d.isCsr || d.isFence || d.isFenceI || d.isMret || d.isSret || d.isSfenceVma || d.isEcall ||
    d.isWfi

def isFpWork (d : DecodedInsn) : Bool := d.isFpOp || d.rdIsFp

theorem isSerial_suppressRd (insn : BitVec 32) (d : DecodedInsn) :
    isSerial (suppressRd insn d) = isSerial d := by
  unfold suppressRd
  dsimp only
  split_ifs <;> rfl

theorem isFpWork_suppressRd (insn : BitVec 32) (d : DecodedInsn) :
    isFpWork (suppressRd insn d) = isFpWork d := by
  unfold suppressRd
  dsimp only
  split_ifs <;> rfl

theorem isSerial_decodeOpcode (noSystem : opcode insn ≠ opSystem)
    (noFence : opcode insn ≠ opMiscMem) : isSerial (decodeOpcode insn d) = isSerial d := by
  simp only [decodeOpcode, if_neg noSystem, if_neg noFence, apply_ite isSerial, decodeLui,
    decodeAuipc, decodeJal, decodeJalr, decodeBranch, decodeLoad, decodeStore, decodeAmo,
    decodeLoadFp, decodeStoreFp, decodeOpImm, decodeOp, decodeMuldiv, decodeOpImm32, decodeOp32,
    decodeFp, decodeFma, illegal, fpIntFmt, fpBinary, sameFmt]
  simp only [isSerial, ite_self]

/-- Serializing instructions have nothing to do with the floating-point unit. -/
theorem decodeSlice_fp_plain (work : isFpWork (decodeSlice insn pc isRvc) = true) :
    isSerial (decodeSlice insn pc isRvc) = false := by
  unfold decodeSlice at work ⊢
  rw [isFpWork_suppressRd] at work
  rw [isSerial_suppressRd]
  by_cases system : opcode insn = opSystem
  · have eq : decodeOpcode insn (defaults insn pc isRvc) =
        decodeSystem insn (defaults insn pc isRvc) := by
      unfold decodeOpcode
      rw [system]
      rfl
    simp only [eq, decodeSystem, decodeCsr, illegal, apply_ite isFpWork] at work
    simp [isFpWork, defaults] at work
  by_cases fence : opcode insn = opMiscMem
  · have eq : decodeOpcode insn (defaults insn pc isRvc) =
        decodeMiscMem insn (defaults insn pc isRvc) := by
      unfold decodeOpcode
      rw [fence]
      rfl
    simp only [eq, decodeMiscMem, illegal, apply_ite isFpWork] at work
    simp [isFpWork, defaults] at work
  · rw [isSerial_decodeOpcode system fence]
    rfl

theorem fpMarks_of_allocated {e : HeadEntry}
    (alloc : Allocated e (decodeSlice insn pc isRvc)) : FpMarks e where
  kind := oneKind_of_decode alloc.isMret alloc.isSret alloc.isCsr alloc.isSfenceVma alloc.isFence
    alloc.isFenceI
  marked touches := by
    have work : isFpWork (decodeSlice insn pc isRvc) = true := by
      simp only [touchesFp, Bool.or_eq_true, Bool.and_eq_true, bne_iff_ne, ne_eq] at touches
      simp only [isFpWork, Bool.or_eq_true]
      rcases touches with ⟨-, written⟩ | flagged
      · exact .inr (alloc.rdIsFp ▸ written)
      · exact .inl (alloc.flags flagged)
    constructor
    · rw [alloc.isFpInstr]
      simp only [isFpWork, Bool.or_eq_true] at work ⊢
      tauto
    · have plain := decodeSlice_fp_plain work
      rwa [isSerial, ← alloc.isCsr, ← alloc.isFence, ← alloc.isFenceI, ← alloc.isMret,
        ← alloc.isSret, ← alloc.isSfenceVma, ← alloc.isEcall, ← alloc.isWfi] at plain

-- ---------------------------------------------------------------------
-- Folding the slots
-- ---------------------------------------------------------------------

theorem foldl_guard (f : α → Nat → α) (z : α) (p : Nat → Bool) (first : ∀ i, p i = true ↔ i < r)
    (width : r ≤ n) :
    (List.range n).foldl (fun a i => if p i then f a i else a) z = (List.range r).foldl f z := by
  induction n, width using Nat.le_induction with
  | base =>
    refine List.foldl_ext _ _ _ fun a i member => ?_
    rw [if_pos ((first i).mpr (List.mem_range.mp member))]
  | succ n width ih =>
    have past : ¬p n = true := fun h => Nat.not_lt_of_le width ((first n).mp h)
    rw [List.range_succ, List.foldl_append, ih]
    exact if_neg past

theorem or_absorbs {z a g : BitVec n} (above : z ||| a = a) (same : a ||| g = z) :
    a = z ∧ z ||| g = z := by
  have eq : a = z := by
    rw [← same]
    ext i hi
    have h1 := congrArg (·.getLsbD i) above
    have h2 := congrArg (·.getLsbD i) same
    simp only [BitVec.getLsbD_or] at h1 h2
    simp only [BitVec.getElem_or, BitVec.getLsbD_eq_getElem hi] at h1 h2 ⊢
    grind
  exact ⟨eq, eq ▸ same⟩

theorem foldl_or_absorbs (g : Nat → BitVec n) (z : BitVec n) (r : Nat) :
    z ||| (List.range r).foldl (fun a i => a ||| g i) z =
      (List.range r).foldl (fun a i => a ||| g i) z := by
  induction r with
  | zero => exact BitVec.or_self
  | succ r ih =>
    simp only [List.range_succ, List.foldl_append, List.foldl_cons, List.foldl_nil]
    rw [← BitVec.or_assoc, ih]

/-- Nothing new is added iff every flag was there. -/
theorem foldl_or_eq_iff (g : Nat → BitVec n) (z : BitVec n) (r : Nat) :
    (List.range r).foldl (fun a i => a ||| g i) z = z ↔ ∀ j < r, z ||| g j = z := by
  induction r with
  | zero => simp
  | succ r ih =>
    simp only [List.range_succ, List.foldl_append, List.foldl_cons, List.foldl_nil]
    constructor
    · intro same
      obtain ⟨before, last⟩ := or_absorbs (foldl_or_absorbs g z r) same
      intro j hj
      rcases Nat.lt_succ_iff_lt_or_eq.mp hj with h | rfl
      · exact ih.mp before j h
      · exact last
    · intro there
      rw [ih.mpr fun j hj => there j (Nat.lt_succ_of_lt hj)]
      exact there r (Nat.lt_succ_self r)

theorem or_foldl (g : Nat → BitVec n) (z : BitVec n) (r : Nat) :
    z ||| (List.range r).foldl (fun a i => a ||| g i) 0 =
      (List.range r).foldl (fun a i => a ||| g i) z := by
  induction r with
  | zero => exact BitVec.or_zero
  | succ r ih =>
    simp only [List.range_succ, List.foldl_append, List.foldl_cons, List.foldl_nil]
    rw [← ih, BitVec.or_assoc]

-- ---------------------------------------------------------------------
-- One cycle
-- ---------------------------------------------------------------------

variable {s : CsrFile} {x : CoreIn}

theorem next_fflags (s : CsrFile) (i : CsrIn) (quiet : i.trapValid = true ∨ i.mretValid = true ∨
    i.sretValid = true) : (s.next i).fflags = s.fflags := by
  unfold CsrFile.next
  cases trap : i.trapValid with
  | true =>
    simp only [if_true, CsrFile.trapEntry]
    split <;> rfl
  | false =>
    cases mret : i.mretValid with
    | true => rfl
    | false =>
      cases sret : i.sretValid with
      | true => rfl
      | false => simp [trap, mret, sret] at quiet

theorem fs_eq_iff {s t : CsrFile} : s.fs = t.fs ↔
    s.mstatus.getLsbD 13 = t.mstatus.getLsbD 13 ∧ s.mstatus.getLsbD 14 = t.mstatus.getLsbD 14 := by
  constructor
  · intro same
    exact ⟨by simpa [CsrFile.fs] using congrArg (·.getLsbD 0) same,
      by simpa [CsrFile.fs] using congrArg (·.getLsbD 1) same⟩
  · rintro ⟨low, high⟩
    refine BitVec.eq_of_getLsbD_eq fun i hi => ?_
    match i, hi with
    | 0, _ => simpa [CsrFile.fs] using low
    | 1, _ => simpa [CsrFile.fs] using high

/-- A trap leaves FS alone. -/
theorem trapEntry_fs (s : CsrFile) (i : CsrIn) : (s.trapEntry i).fs = s.fs := by
  unfold CsrFile.trapEntry
  split
  · exact fs_eq_iff.mpr ⟨by simp [-BitVec.getLsbD_eq_getElem, getLsbD_put],
      by simp [-BitVec.getLsbD_eq_getElem, getLsbD_put]⟩
  · exact fs_eq_iff.mpr ⟨by simp [-BitVec.getLsbD_eq_getElem, getLsbD_put, getLsbD_putField],
      by simp [-BitVec.getLsbD_eq_getElem, getLsbD_put, getLsbD_putField]⟩

theorem fs_dirty (ms : Word) : (putField ms 13 0b11#2).extractLsb' 13 2 = 0b11#2 := by
  refine BitVec.eq_of_getLsbD_eq fun i hi => ?_
  match i, hi with
  | 0, _ => simp [-BitVec.getLsbD_eq_getElem, getLsbD_putField]
  | 1, _ => simp [-BitVec.getLsbD_eq_getElem, getLsbD_putField]

theorem trapValid_iff (s : CsrFile) (x : CoreIn) : (csrIn s x).trapValid = true ↔
    (commitIn s x).takeInterrupt = true ∨ ∃ i, (commitIn s x).Traps i := by
  simp only [csrIn, trapOf]
  constructor
  · split
    · cases slot : trapSlot (commitIn s x) with
      | some i =>
        have found := List.find?_some slot
        simp only [Bool.and_eq_true] at found
        exact fun _ => .inr ⟨i, found⟩
      | none =>
        cases taken : (commitIn s x).takeInterrupt with
        | true => exact fun _ => .inl rfl
        | false => simp
    · simp
  · have full (cause : Cause) (i : Nat) (raises : (commitIn s x).Raises cause i) :
        ((commitIn s x).flushOut.valid && (commitIn s x).flushOut.fullFlush) = true := by
      have flush := (flushesOnce _).flush.mpr ⟨cause, i, raises⟩
      rw [flush, flushOut_full _ flush]
      rfl
    rintro (taken | ⟨i, traps⟩)
    · rw [if_pos (full _ _ (.interrupt taken)), taken]
      cases trapSlot (commitIn s x) <;> rfl
    · rw [if_pos (full _ _ ((traps_iff _ i).mp traps)), trapSlot_of_traps traps]

/-- The retiring entries in order. -/
theorem foldl_retires {c : CommitIn} (g : c.Retired r) (f : BitVec 5 → Nat → BitVec 5)
    (z : BitVec 5) :
    (List.range pipeWidth).foldl
        (fun a i => if (c.commitOut i).valid && !(c.head i).hasException then f a i else a) z =
      (List.range r).foldl f z := by
  have first (i : Nat) : ((c.commitOut i).valid && !(c.head i).hasException) = true ↔ i < r := by
    rw [← g.slots i, Retires, Bool.and_eq_true, Bool.not_eq_true']
  refine foldl_guard f z _ first ?_
  by_contra wide
  have leaves := (g.slots pipeWidth).mpr (Nat.lt_of_not_le wide)
  exact absurd ((commitOut_valid c _).mp leaves.1) (Nat.not_lt_of_le (commitCount_le c))

/-- Without a CSR write the flags of the entries add up. -/
theorem foldl_flagsAfter (s : CsrFile) (head : Nat → HeadEntry) (z : BitVec 5)
    (none : ∀ j < r, ((head j).isCsr && (head j).csrWe) = false) :
    (List.range r).foldl (fun flags i => flagsAfter s flags (head i)) z =
      (List.range r).foldl (fun flags i => flags ||| (head i).fpFflags) z := by
  refine List.foldl_ext _ _ _ fun flags i member => ?_
  simp [flagsAfter, writesCsr, none i (List.mem_range.mp member)]

-- ---------------------------------------------------------------------
-- A group followed by a trap
-- ---------------------------------------------------------------------

theorem next_of_trap (trap : (csrIn s x).trapValid = true) :
    (privilegeRuns.next s x).fflags = s.fflags ∧ (privilegeRuns.next s x).fs = s.fs := by
  refine ⟨next_fflags s _ (.inl trap), ?_⟩
  have eq : privilegeRuns.next s x = (s.count (csrIn s x)).trapEntry (csrIn s x) := by
    simp [privilegeRuns, CsrFile.next, trap]
  rw [eq, trapEntry_fs]
  rfl

/-- The trap keeps the old state, so the group must have nothing to add. -/
theorem fpAccrued_of_trap (g : (commitIn s x).Retired r) (trap : (csrIn s x).trapValid = true)
    (plain : ∀ j < r, (x.head j).isSerializing = false) :
    FpAccrued s x ↔ ∀ j < r, s.fflags ||| (x.head j).fpFflags = s.fflags ∧
      (touchesFp (x.head j) = true → s.fs = 0b11#2) := by
  obtain ⟨fflags, fs⟩ := next_of_trap trap
  have noCsr : ∀ j < r, ((x.head j).isCsr && (x.head j).csrWe) = false := by
    intro j hj
    have serial := plain j hj
    simp only [HeadEntry.isSerializing, Bool.or_eq_false_iff] at serial
    simp [serial]
  have fold : (List.range pipeWidth).foldl (fun flags i =>
      if ((commitIn s x).commitOut i).valid && !(x.head i).hasException then
        flagsAfter s flags (x.head i) else flags) s.fflags =
      (List.range r).foldl (fun flags i => flags ||| (x.head i).fpFflags) s.fflags :=
    (foldl_retires g _ _).trans (foldl_flagsAfter s x.head _ noCsr)
  constructor
  · rintro ⟨flags, dirty⟩ j hj
    rw [fflags, fold] at flags
    refine ⟨(foldl_or_eq_iff _ _ r).mp flags.symm j hj, fun touches => ?_⟩
    rw [← fs]
    exact dirty j ((g.slots j).mpr hj) touches
  · intro recorded
    refine ⟨?_, fun i retires touches => ?_⟩
    · rw [fflags, fold]
      exact ((foldl_or_eq_iff _ _ r).mpr fun j hj => (recorded j hj).1).symm
    · rw [fs]
      exact (recorded i ((g.slots i).mp retires)).2 touches

/-- The trap is raised by the first entry that does not retire. -/
theorem retired_before_trap (traps : (commitIn s x).Traps i) (g : (commitIn s x).Retired r) :
    r = i := by
  rcases g.leaves with ⟨-, none⟩ | ⟨-, last⟩
  · exact absurd traps (none i)
  · exact Traps.unique last traps

-- ---------------------------------------------------------------------
-- A group without a trap
-- ---------------------------------------------------------------------

theorem serializing_of_kind {e : HeadEntry}
    (kind : e.isCsr = true ∨ (e.isMret || e.isSret) = true) : e.isSerializing = true := by
  rcases kind with h | h <;> simp only [HeadEntry.isSerializing, Bool.or_eq_true] at h ⊢ <;> tauto

/-- A serializing entry has no floating-point work of its own. -/
theorem FpMarks.quiet {e : HeadEntry} (marks : FpMarks e) (serial : e.isSerializing = true) :
    touchesFp e = false ∧ e.fpFflags = 0 := by
  have none : touchesFp e = false := by
    by_contra touches
    simp only [Bool.not_eq_false] at touches
    cases (marks.marked touches).2.symm.trans serial
  refine ⟨none, ?_⟩
  simp only [touchesFp, Bool.or_eq_false_iff, bne_eq_false_iff_eq] at none
  exact none.2

/-- A serializing entry that retires is the whole group. -/
theorem alone_of_serializing {c : CommitIn} (g : c.Retired r) (some : 0 < r)
    (serial : (c.head 0).isSerializing = true) : r = 1 := by
  have quiet : c.takeInterrupt = false := by
    by_contra taken
    simp only [Bool.not_eq_false] at taken
    exact absurd (g.interrupted taken).2 some.ne'
  exact (g.longest quiet).1.alone 0 some serial

theorem fpAccrued_of_return (marks : FpMarks (x.head 0)) (g : (commitIn s x).Retired r)
    (some : 0 < r)
    (ret : ((x.head 0).isMret || (x.head 0).isSret) = true)
    (valid : (csrIn s x).mretValid = true ∨ (csrIn s x).sretValid = true) : FpAccrued s x := by
  have serial := serializing_of_kind (.inr ret)
  obtain ⟨none, noFlags⟩ := marks.quiet serial
  obtain rfl := alone_of_serializing g some serial
  have noCsr : (x.head 0).isCsr = false := by
    have kind := marks.kind
    cases csr : (x.head 0).isCsr with
    | false => rfl
    | true => simp [HeadEntry.OneKind, ret, csr] at kind
  refine ⟨?_, fun i retires touches => ?_⟩
  · rw [show (privilegeRuns.next s x).fflags = s.fflags from next_fflags s _ (.inr valid)]
    refine Eq.symm ((foldl_retires g _ _).trans ?_)
    simp [flagsAfter, writesCsr, noCsr, noFlags]
  · obtain rfl := Nat.lt_one_iff.mp ((g.slots i).mp retires)
    cases none.symm.trans touches

theorem fpFflagsCommitBits_eq {c : CommitIn} (g : c.Retired r) (none : ∀ i, ¬c.Traps i) :
    fpFflagsCommitBits c = (List.range r).foldl (fun bits i => bits ||| (c.head i).fpFflags) 0 := by
  rw [← foldl_retires g]
  refine List.foldl_ext _ _ _ fun bits i _ => ?_
  cases valid : (c.commitOut i).valid with
  | false => simp
  | true =>
    have clean : (c.head i).hasException = false := by
      by_contra exception
      simp only [Bool.not_eq_false] at exception
      exact none i ⟨valid, exception⟩
    simp [clean]

theorem accrueFp_fflags (s : CsrFile) (i : CsrIn)
    (valid : i.fflagsAccValid = (i.fflagsAccBits != 0)) :
    (s.accrueFp i).fflags = s.fflags ||| i.fflagsAccBits := by
  simp only [CsrFile.accrueFp, valid]
  split
  · rfl
  · rename_i none
    simp only [bne_iff_ne, ne_eq, not_not] at none
    rw [none]
    exact BitVec.or_zero.symm

theorem csrWrite_fflags (s t : CsrFile) (i : CsrIn) : (s.csrWrite t i).fflags =
    if i.writeAddr = csrFflags then (s.csrOpFflags i).extractLsb' 0 5
    else if i.writeAddr = csrFrm then t.fflags
    else if i.writeAddr = csrFcsr then (s.csrOpFcsr i).extractLsb' 0 5
    else t.fflags := by
  unfold CsrFile.csrWrite
  simp only [apply_ite CsrFile.fflags, ite_self]

theorem next_plain (noTrap : (csrIn s x).trapValid = false)
    (noMret : (csrIn s x).mretValid = false) (noSret : (csrIn s x).sretValid = false) :
    privilegeRuns.next s x =
      if (csrIn s x).writeValid then
        s.csrWrite ((s.count (csrIn s x)).accrueFp (csrIn s x)) (csrIn s x)
      else (s.count (csrIn s x)).accrueFp (csrIn s x) := by
  simp [privilegeRuns, CsrFile.next, noTrap, noMret, noSret]

theorem accrued_fflags (s : CsrFile) (x : CoreIn) :
    ((s.count (csrIn s x)).accrueFp (csrIn s x)).fflags =
      s.fflags ||| fpFflagsCommitBits (commitIn s x) :=
  accrueFp_fflags _ _ rfl

theorem fpAccrued_of_csr (marks : FpMarks (x.head 0)) (g : (commitIn s x).Retired r)
    (none : ∀ i, ¬(commitIn s x).Traps i)
    (next : privilegeRuns.next s x =
      s.csrWrite ((s.count (csrIn s x)).accrueFp (csrIn s x)) (csrIn s x))
    (some : 0 < r) (csr : (x.head 0).isCsr = true) (we : (x.head 0).csrWe = true) :
    FpAccrued s x := by
  have serial := serializing_of_kind (.inl csr)
  obtain ⟨noTouch, noFlags⟩ := marks.quiet serial
  obtain rfl := alone_of_serializing g some serial
  have bits : fpFflagsCommitBits (commitIn s x) = 0 := by
    rw [fpFflagsCommitBits_eq g none]
    exact (BitVec.zero_or).trans noFlags
  refine ⟨?_, fun i retires touches => ?_⟩
  · refine Eq.trans ?_ (foldl_retires g _ _).symm
    have same : s.fflags ||| 0 = s.fflags := BitVec.or_zero
    rw [next, csrWrite_fflags, accrued_fflags, bits, same]
    simp only [List.range_one, List.foldl_cons, List.foldl_nil, flagsAfter, writesCsr, csr, we,
      noFlags, same, Bool.true_and, beq_iff_eq]
    split
    · rename_i isFflags
      exact (if_pos (show (x.head 0).csrAddr = csrFflags from isFflags)).symm
    split
    · rename_i isFrm
      rw [show (x.head 0).csrAddr = csrFrm from isFrm]
      rfl
    · rename_i noFflags _
      exact (if_neg (show (x.head 0).csrAddr ≠ csrFflags from noFflags)).symm
  · obtain rfl := Nat.lt_one_iff.mp ((g.slots i).mp retires)
    cases noTouch.symm.trans touches

theorem fpAccrued_of_plain (marks : ∀ i, FpMarks (x.head i)) (g : (commitIn s x).Retired r)
    (none : ∀ i, ¬(commitIn s x).Traps i)
    (next : privilegeRuns.next s x = (s.count (csrIn s x)).accrueFp (csrIn s x))
    (noWrite : ∀ j < r, ((x.head j).isCsr && (x.head j).csrWe) = false) : FpAccrued s x := by
  refine ⟨?_, fun i retires touches => ?_⟩
  · refine Eq.trans ?_ ((foldl_retires g _ _).trans (foldl_flagsAfter s x.head _ noWrite)).symm
    rw [next, accrued_fflags, fpFflagsCommitBits_eq g none]
    exact or_foldl _ _ r
  · have dirty : (csrIn s x).fpStateDirty = true := by
      have width : i < pipeWidth :=
        Nat.lt_of_lt_of_le ((commitOut_valid _ i).mp retires.1) (commitCount_le _)
      refine List.any_eq_true.mpr ⟨i, List.mem_range.mpr width, ?_⟩
      rw [retires.1, Bool.true_and]
      exact ((marks i).marked touches).1
    rw [next]
    simp only [CsrFile.fs, CsrFile.accrueFp, dirty, if_true]
    exact fs_dirty _

-- ---------------------------------------------------------------------
-- Every group
-- ---------------------------------------------------------------------

theorem fpAccrued_iff_of_marks (s : CsrFile) (x : CoreIn) (marks : ∀ i, FpMarks (x.head i)) :
    FpAccrued s x ↔ RecordedBeforeTrap s x := by
  obtain ⟨r, g⟩ : ∃ r, (commitIn s x).Retired r := by
    cases taken : (commitIn s x).takeInterrupt with
    | true => exact ⟨0, retired_of_interrupt taken⟩
    | false =>
      obtain ⟨r, g⟩ := group (commitIn s x)
      exact ⟨r, g.retired taken⟩
  by_cases traps : ∃ i, (commitIn s x).Traps i
  · obtain ⟨i, traps⟩ := traps
    obtain rfl := retired_before_trap traps g
    have raises := (traps_iff _ r).mp traps
    have plain : ∀ j < r, (x.head j).isSerializing = false := by
      cases raises with
      | entry due => exact due.passes.plain
    rw [fpAccrued_of_trap g ((trapValid_iff s x).mpr (.inr ⟨r, traps⟩)) plain]
    constructor
    · intro recorded i raises'
      rw [Traps.unique ((traps_iff _ i).mpr raises') traps]
      exact recorded
    · exact fun recorded => recorded r raises
  · have none : ∀ i, ¬(commitIn s x).Traps i := not_exists.mp traps
    refine iff_of_true ?_ fun i raises => absurd ((traps_iff _ i).mpr raises) (none i)
    cases taken : (commitIn s x).takeInterrupt with
    | true =>
      obtain rfl := (g.interrupted taken).2
      exact (fpAccrued_of_trap g ((trapValid_iff s x).mpr (.inl taken)) nofun).mpr nofun
    | false =>
      have noTrap : (csrIn s x).trapValid = false := by
        by_contra trap
        simp only [Bool.not_eq_false] at trap
        rcases (trapValid_iff s x).mp trap with h | h
        · cases taken.symm.trans h
        · exact traps h
      have first (leaves : ((commitIn s x).commitOut 0).valid = true) : 0 < r := by
        refine (g.slots 0).mp ⟨leaves, ?_⟩
        by_contra exception
        simp only [Bool.not_eq_false] at exception
        exact none 0 ⟨leaves, exception⟩
      cases mret : (csrIn s x).mretValid with
      | true =>
        obtain ⟨leaves, isMret⟩ := (mretCommit_iff _).mp mret
        exact fpAccrued_of_return (marks 0) g (first leaves)
          (by rw [show (x.head 0).isMret = true from isMret]; rfl) (.inl mret)
      | false =>
        cases sret : (csrIn s x).sretValid with
        | true =>
          obtain ⟨leaves, isSret⟩ := (sretCommit_iff _).mp sret
          exact fpAccrued_of_return (marks 0) g (first leaves)
            (by rw [show (x.head 0).isSret = true from isSret]; exact Bool.or_true _) (.inr sret)
        | false =>
          have next := next_plain noTrap mret sret
          cases write : (csrIn s x).writeValid with
          | true =>
            rw [write, if_pos rfl] at next
            obtain ⟨i, some, csr, we⟩ := g.csr.mp write
            obtain rfl := g.csrSlot i some csr
            exact fpAccrued_of_csr (marks 0) g none next some csr we
          | false =>
            rw [write, if_neg Bool.false_ne_true] at next
            refine fpAccrued_of_plain marks g none next fun j hj => ?_
            by_contra writes
            simp only [Bool.not_eq_false, Bool.and_eq_true] at writes
            cases write.symm.trans (g.csr.mpr ⟨j, hj, writes⟩)

/-- Every entry holds an instruction as allocation wrote it. -/
def AllocatedWindow (x : CoreIn) : Prop :=
  ∀ i, ∃ insn pc isRvc, Allocated (x.head i) (decodeSlice insn pc isRvc)

/-- The floating-point state of a group is recorded iff no trap follows work that is new. -/
theorem fpAccrued_iff (s : CsrFile) (x : CoreIn) (alloc : AllocatedWindow x) :
    FpAccrued s x ↔ RecordedBeforeTrap s x := by
  refine fpAccrued_iff_of_marks s x fun i => ?_
  obtain ⟨insn, pc, isRvc, alloc⟩ := alloc i
  exact fpMarks_of_allocated alloc

-- ---------------------------------------------------------------------
-- A flag lost to the trap behind it
-- ---------------------------------------------------------------------

def fpAddInsn : BitVec 32 := 0x003100d3

/-- FS is Initial: floating-point instructions may run and nothing is dirty. -/
def fsInitial : CsrFile := { CsrFile.reset with mstatus := putField CsrFile.reset.mstatus 13 0b01#2 }

/-- An inexact addition at the head, and `second` behind it. -/
def addThen (second : BitVec 32) : CoreIn where
  headIdx := 0
  head i :=
    if i = 0 then
      { entryOf (decodeSlice fpAddInsn 0 false) true with fpFflags := 1 }
    else entryOf (decodeSlice second 4 false) (i == 1)
  fenceIReady := true
  sfenceVmaReady := true
  lines := ⟨false, false, false, false, false, false⟩

def nopInsn : BitVec 32 := 0x00000013

theorem allocated_addThen {second : BitVec 32}
    (alone : Allocated (entryOf (decodeSlice second 4 false) true) (decodeSlice second 4 false)) :
    AllocatedWindow (addThen second) := by
  intro i
  by_cases first : i = 0
  · subst first
    exact ⟨fpAddInsn, 0, false, rfl, rfl, rfl, rfl, rfl, rfl, rfl, rfl, rfl, rfl, fun _ => rfl⟩
  · rw [show (addThen second).head i = entryOf (decodeSlice second 4 false) (i == 1) from
      if_neg first]
    exact ⟨second, 4, false, alone.rdIsFp, alone.isCsr, alone.isFence, alone.isFenceI,
      alone.isMret, alone.isSret, alone.isSfenceVma, alone.isEcall, alone.isWfi, alone.isFpInstr,
      alone.flags⟩

theorem allocated_addThen_nop : AllocatedWindow (addThen nopInsn) :=
  allocated_addThen ⟨rfl, rfl, rfl, rfl, rfl, rfl, rfl, rfl, rfl, rfl, fun h => absurd rfl h⟩

theorem allocated_addThen_ecall : AllocatedWindow (addThen ecallInsn) :=
  allocated_addThen ⟨rfl, rfl, rfl, rfl, rfl, rfl, rfl, rfl, rfl, rfl, fun h => absurd rfl h⟩

theorem fpAccrued_iff_addThen : FpAccrued fsInitial (addThen nopInsn) := by
  refine (fpAccrued_iff _ _ allocated_addThen_nop).mpr fun i raises => ?_
  cases raises with
  | entry due asks =>
    by_cases first : i = 0
    · subst first
      cases asks
    · rw [show (commitIn fsInitial (addThen nopInsn)).head i =
        entryOf (decodeSlice nopInsn 4 false) (i == 1) from if_neg first] at asks
      cases asks

/-- The inexact flag of the addition and the dirty mark are lost to the ECALL behind it. -/
theorem flag_lost_before_ecall :
    AllocatedWindow (addThen ecallInsn) ∧
      ((commitIn fsInitial (addThen ecallInsn)).commitOut 0).valid = true ∧
      (privilegeRuns.next fsInitial (addThen ecallInsn)).fflags = 0 ∧
      ¬FpAccrued fsInitial (addThen ecallInsn) := by
  refine ⟨allocated_addThen_ecall, by decide +kernel, by decide +kernel, fun accrued => ?_⟩
  exact absurd accrued.flags (by decide +kernel)

end Rv64gc.Csr
