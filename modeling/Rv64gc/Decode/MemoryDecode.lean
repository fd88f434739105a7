import Rv64gc.Decode.IntegerDecode

/-!
# Decoding control transfer, memory and system instructions

Too much is accepted in two places: atomic operations that are reserved, and privileged
instructions with register fields that are not zero.
-/

namespace Rv64gc.Decode

open Fields Execute

variable {insn : BitVec 32} {pc : Word} {isRvc : Bool}

-- ---------------------------------------------------------------------
-- Control transfer
-- ---------------------------------------------------------------------

theorem right_jal : Right (suppressRd insn (decodeJal insn (defaults insn pc isRvc)))
    (some (.jal (rd insn) (immJ insn))) :=
  Meant.means ⟨rfl, rfl, rfl, rfl, fun _ => ⟨rfl, rfl, rfl⟩⟩

theorem right_jalr : Right (suppressRd insn (decodeJalr insn (defaults insn pc isRvc)))
    (if funct3 insn = 0 then some (.jalr (rd insn) (rs1 insn) (immI insn)) else none) := by
  unfold decodeJalr
  extract_lets e
  by_cases zero : funct3 insn = 0
  · rw [if_pos zero, if_pos zero]
    have target (regs : Regs) : (bruIn e regs).target =
        (xreg regs (rs1 insn) + immI insn) &&& ~~~1#64 :=
      congrArg (fun a => (a + immI insn) &&& ~~~1#64) (srcValue_xreg regs (rs1 insn))
    exact Meant.means ⟨rfl, rfl, rfl, rfl, fun regs => ⟨rfl, target regs, rfl⟩⟩
  · rw [if_neg zero, if_neg zero]
    exact right_illegal insn e

/-- The comparison of a conditional branch. -/
def BrOp.holds : BrOp → Word → Word → Bool
  | .eq => fun a b => a == b
  | .ne => fun a b => a != b
  | .lt => BitVec.slt
  | .ge => fun a b => !a.slt b
  | .ltu => BitVec.ult
  | .geu => fun a b => !a.ult b
  | .jal | .jalr => fun _ _ => true

theorem stdTaken_holds (x : BruIn) : x.stdTaken = BrOp.holds x.op x.a x.b := by
  unfold BruIn.stdTaken BrOp.holds
  cases x.op <;> simp [BitVec.sle_eq_not_slt, BitVec.ule_eq_not_ult]

theorem target_conditional {x : BruIn} (notJump : x.isJump = false) :
    x.target = x.pc + if x.taken then x.imm else if x.isRvc then 2 else 4 := by
  have notJalr : x.op ≠ .jalr := fun jalr => by simp [BruIn.isJump, jalr] at notJump
  rw [BruIn.target_branch notJump, BruIn.branchTarget, if_neg notJalr, BruIn.fallthrough]
  exact (apply_ite (x.pc + ·) _ _ _).symm

theorem right_branch : Right (suppressRd insn (decodeBranch insn (defaults insn pc isRvc)))
    (Insn.ofBranch insn) := by
  unfold decodeBranch Insn.ofBranch
  extract_lets e cond
  have branch (op : BrOp) (plain : op ≠ .jal ∧ op ≠ .jalr) :
      Right (suppressRd insn { e with brOp := op }) (some (cond (BrOp.holds op))) := by
    have notJump (regs : Regs) : (bruIn { e with brOp := op } regs).isJump = false := by
      cases op <;> first | rfl | exact absurd rfl plain.1 | exact absurd rfl plain.2
    have taken (regs : Regs) : (bruIn { e with brOp := op } regs).taken =
        BrOp.holds op (xreg regs (rs1 insn)) (xreg regs (rs2 insn)) := by
      rw [BruIn.taken_branch (notJump regs)]
      refine (stdTaken_holds _).trans ?_
      exact congrArg₂ (BrOp.holds op) (srcValue_xreg regs _) (srcValue_xreg regs _)
    refine Meant.means ⟨rfl, rfl, rfl, fun f => by simp [sources, operand, e, defaults], ?_⟩
    intro regs
    refine ⟨taken regs, ?_⟩
    rw [target_conditional (notJump regs), taken regs]
    rfl
  have bad := right_illegal insn e
  rcases f3_cases (funct3 insn) with f3 | f3 | f3 | f3 | f3 | f3 | f3 | f3 <;> rw [f3]
  · exact branch .eq (by decide)
  · exact branch .ne (by decide)
  · exact bad
  · exact bad
  · exact branch .lt (by decide)
  · exact branch .ge (by decide)
  · exact branch .ltu (by decide)
  · exact branch .geu (by decide)

-- ---------------------------------------------------------------------
-- Memory
-- ---------------------------------------------------------------------

theorem right_load : Right (suppressRd insn (decodeLoad insn (defaults insn pc isRvc)))
    (Insn.ofLoad insn) := by
  unfold decodeLoad Insn.ofLoad
  extract_lets e load
  have access (size : MemSize) (unsigned : Bool) :
      Right (suppressRd insn { e with memSize := size, isUnsigned := unsigned })
        (some (load size unsigned)) :=
    Meant.means ⟨rfl, rfl, rfl, rfl, rfl, rfl, fun _ _ => rfl⟩
  have bad := right_illegal insn e
  rcases f3_cases (funct3 insn) with f3 | f3 | f3 | f3 | f3 | f3 | f3 | f3 <;> rw [f3]
  · exact access .byte false
  · exact access .half false
  · exact access .word false
  · exact access .dword false
  · exact access .byte true
  · exact access .half true
  · exact access .word true
  · exact bad

theorem right_store : Right (suppressRd insn (decodeStore insn (defaults insn pc isRvc)))
    (Insn.ofStore insn) := by
  unfold decodeStore Insn.ofStore
  extract_lets e store
  have access (size : MemSize) :
      Right (suppressRd insn { e with memSize := size }) (some (store size)) :=
    Meant.means ⟨rfl, rfl, rfl, rfl, rfl, rfl⟩
  have bad := right_illegal insn e
  rcases f3_cases (funct3 insn) with f3 | f3 | f3 | f3 | f3 | f3 | f3 | f3 <;> rw [f3]
  · exact access .byte
  · exact access .half
  · exact access .word
  · exact access .dword
  all_goals exact bad

theorem right_loadFp : Right (suppressRd insn (decodeLoadFp insn (defaults insn pc isRvc)))
    (Insn.ofLoadFp insn) := by
  unfold decodeLoadFp Insn.ofLoadFp
  extract_lets e src load
  have access (size : MemSize) (unsigned : Bool) (fp : FpInfo) :
      Right (suppressRd insn { e with memSize := size, isUnsigned := unsigned, fp := fp })
        (some (load size)) :=
    Meant.means ⟨rfl, rfl, rfl, rfl, rfl, rfl, nofun⟩
  have bad := right_illegal insn e
  rcases f3_cases (funct3 insn) with f3 | f3 | f3 | f3 | f3 | f3 | f3 | f3 <;> rw [f3]
  · exact bad
  · exact bad
  · exact access .word true { e.fp with fmt := .s, dstFmt := .s }
  · exact access .dword false { e.fp with fmt := .d, dstFmt := .d }
  all_goals exact bad

theorem right_storeFp : Right (suppressRd insn (decodeStoreFp insn (defaults insn pc isRvc)))
    (Insn.ofStoreFp insn) := by
  unfold decodeStoreFp Insn.ofStoreFp
  extract_lets e src store
  have access (size : MemSize) (fp : FpInfo) :
      Right (suppressRd insn { e with memSize := size, fp := fp }) (some (store size)) :=
    Meant.means ⟨rfl, rfl, rfl, rfl, rfl, rfl⟩
  have bad := right_illegal insn e
  rcases f3_cases (funct3 insn) with f3 | f3 | f3 | f3 | f3 | f3 | f3 | f3 <;> rw [f3]
  · exact bad
  · exact bad
  · exact access .word { e.fp with fmt := .s, dstFmt := .s }
  · exact access .dword { e.fp with fmt := .d, dstFmt := .d }
  all_goals exact bad

/-- Decode looks at neither the operation nor the missing operand of LR. -/
def ReservedAmo (insn : BitVec 32) : Prop :=
  (funct3 insn = 0b010#3 ∨ funct3 insn = 0b011#3) ∧
    (Insn.amoOps.lookup (rs3 insn) = none ∨ rs3 insn = amoLr ∧ rs2 insn ≠ 0)

theorem amoOps_code (found : Insn.amoOps.lookup f5 = some op) : op.code = f5 := by
  have all : ∀ f5, (Insn.amoOps.lookup f5).all fun op => op.code == f5 :=
    Hdl.forall_bits (by decide)
  have row := all f5
  rw [found] at row
  exact eq_of_beq row

theorem code_lr (op : AmoOp) : (op.code != amoLr) = !decide (op = .lr) := by
  cases op <;> rfl

theorem right_amo (regular : ¬ReservedAmo insn) :
    Right (suppressRd insn (decodeAmo insn (defaults insn pc isRvc))) (Insn.ofAmo insn) := by
  unfold decodeAmo Insn.ofAmo
  extract_lets e access
  have bad := right_illegal insn e
  have done (op : AmoOp) (size : MemSize) (code : op.code = rs3 insn) :
      Right (suppressRd insn (access { e with memSize := size }))
        (some (.amo op size (insn.getLsbD 26) (insn.getLsbD 25) (rd insn) (rs1 insn)
          (rs2 insn))) := by
    refine Meant.means ⟨rfl, rfl, rfl, ?_, rfl, rfl, code.symm, rfl, rfl⟩
    have second : operand (rs3 insn != amoLr) false (rs2 insn) =
        if op = .lr then none else some (.x (rs2 insn)) := by
      rw [← code, code_lr]
      by_cases lr : op = .lr <;> simp [operand, lr]
    exact congrArg (fun s => [some (.x (rs1 insn)), s, none]) second
  cases found : Insn.amoOps.lookup (rs3 insn) with
  | none =>
    have narrow : funct3 insn ≠ 0b010#3 := fun f3 => regular ⟨.inl f3, .inl found⟩
    have wide : funct3 insn ≠ 0b011#3 := fun f3 => regular ⟨.inr f3, .inl found⟩
    rw [if_neg narrow, if_neg wide]
    exact bad
  | some op =>
    have code := amoOps_code found
    have sized (f3 : funct3 insn = 0b010#3 ∨ funct3 insn = 0b011#3) :
        ¬(op = .lr ∧ rs2 insn ≠ 0) := fun lr =>
      regular ⟨f3, .inr ⟨by rw [← code, lr.1]; rfl, lr.2⟩⟩
    clear_value access
    rcases f3_cases (funct3 insn) with f3 | f3 | f3 | f3 | f3 | f3 | f3 | f3 <;> rw [f3] at sized ⊢
    · exact bad
    · exact bad
    · have lr := sized (.inl rfl)
      simp only [Option.bind_eq_bind, Option.bind_some, List.lookup_cons, if_neg lr]
      exact done op .word code
    · have lr := sized (.inr rfl)
      simp only [Option.bind_eq_bind, Option.bind_some, List.lookup_cons, if_neg lr]
      exact done op .dword code
    all_goals exact bad

-- ---------------------------------------------------------------------
-- Fences and system instructions
-- ---------------------------------------------------------------------

theorem right_miscMem : Right (suppressRd insn (decodeMiscMem insn (defaults insn pc isRvc)))
    (Insn.ofMiscMem insn) := by
  unfold decodeMiscMem Insn.ofMiscMem
  have bad := right_illegal insn (defaults insn pc isRvc)
  rcases f3_cases (funct3 insn) with f3 | f3 | f3 | f3 | f3 | f3 | f3 | f3 <;> rw [f3]
  · exact Meant.means ⟨rfl, rfl, rfl, rfl⟩
  · exact Meant.means ⟨rfl, rfl, rfl, rfl⟩
  all_goals exact bad

theorem right_csr : Right (suppressRd insn (decodeCsr insn (defaults insn pc isRvc)))
    (if funct3 insn = f3Priv then none else Insn.ofSystem insn) := by
  unfold decodeCsr Insn.ofSystem
  extract_lets e reg uimm reg' uimm'
  have register (op : CsrOp) : Right (suppressRd insn (reg op)) (some (reg' op)) :=
    Meant.means ⟨rfl, rfl, rfl, rfl, rfl, rfl, rfl⟩
  have immediate (op : CsrOp) : Right (suppressRd insn (uimm op)) (some (uimm' op)) :=
    Meant.means ⟨rfl, rfl, rfl, rfl, rfl, rfl, rfl, rfl⟩
  have bad := right_illegal insn e
  rcases f3_cases (funct3 insn) with f3 | f3 | f3 | f3 | f3 | f3 | f3 | f3 <;> rw [f3]
  · exact bad
  · exact register .rw
  · exact register .rs
  · exact register .rc
  · exact bad
  · exact immediate .rw
  · exact immediate .rs
  · exact immediate .rc

def privileged : List (BitVec 12) := [f12Ecall, f12Ebreak, f12Mret, f12Sret, f12Wfi]

/-- Decode does not look at the register fields of the privileged instructions. -/
def StrayFields (insn : BitVec 32) : Prop :=
  funct3 insn = f3Priv ∧ funct12 insn ∈ privileged ∧ ¬(rd insn = 0 ∧ rs1 insn = 0)

theorem privileged_not_sfence (known : funct12 insn ∈ privileged) : funct7 insn ≠ f7SfenceVma := by
  intro sfence
  have upper := congrArg (BitVec.extractLsb' 5 7) (funct12_join insn)
  rw [BitVec.extractLsb'_append_eq_left, sfence] at upper
  simp only [privileged, List.mem_cons, List.not_mem_nil, or_false] at known
  rcases known with ecall | ebreak | mret | sret | wfi
  · rw [ecall] at upper
    exact absurd upper (by decide)
  · rw [ebreak] at upper
    exact absurd upper (by decide)
  · rw [mret] at upper
    exact absurd upper (by decide)
  · rw [sret] at upper
    exact absurd upper (by decide)
  · rw [wfi] at upper
    exact absurd upper (by decide)

theorem privileged_means (priv : funct3 insn = f3Priv) (known : funct12 insn ∈ privileged) :
    ∃ i, [(0x000#12, Insn.ecall), (0x001, .ebreak), (0x302, .mret), (0x102, .sret),
        (0x105, .wfi)].lookup (funct12 insn) = some i ∧
      Means (suppressRd insn (decodeSystem insn (defaults insn pc isRvc))) i := by
  unfold decodeSystem
  rw [if_pos priv, if_neg fun sfence => privileged_not_sfence known sfence.1]
  simp only [privileged, List.mem_cons, List.not_mem_nil, or_false] at known
  rcases known with ecall | ebreak | mret | sret | wfi
  · rw [ecall]
    exact ⟨_, rfl, Meant.means ⟨rfl, rfl, rfl, rfl, rfl⟩⟩
  · rw [ebreak]
    exact ⟨_, rfl, Meant.means ⟨rfl, rfl, rfl, rfl, rfl⟩⟩
  · rw [mret]
    exact ⟨_, rfl, Meant.means ⟨rfl, rfl, rfl, rfl⟩⟩
  · rw [sret]
    exact ⟨_, rfl, Meant.means ⟨rfl, rfl, rfl, rfl⟩⟩
  · rw [wfi]
    exact ⟨_, rfl, Meant.means ⟨rfl, rfl, rfl, rfl⟩⟩

theorem right_system (regular : ¬StrayFields insn) :
    Right (suppressRd insn (decodeSystem insn (defaults insn pc isRvc))) (Insn.ofSystem insn) := by
  by_cases priv : funct3 insn = f3Priv
  · unfold Insn.ofSystem
    rw [if_pos priv]
    by_cases sfence : funct7 insn = f7SfenceVma ∧ rd insn = 0
    · unfold decodeSystem
      rw [if_pos priv, if_pos sfence, if_pos sfence]
      exact Meant.means ⟨rfl, rfl, rfl, rfl⟩
    rw [if_neg sfence]
    by_cases known : funct12 insn ∈ privileged
    · have clean : rd insn = 0 ∧ rs1 insn = 0 := not_not.mp fun stray =>
        regular ⟨priv, known, stray⟩
      obtain ⟨i, row, means⟩ := privileged_means priv known
      rw [if_pos clean, row]
      exact means
    · simp only [privileged, List.mem_cons, List.not_mem_nil, or_false, not_or] at known
      obtain ⟨ecall, ebreak, mret, sret, wfi⟩ := known
      have nothing : [(0x000#12, Insn.ecall), (0x001, .ebreak), (0x302, .mret), (0x102, .sret),
          (0x105, .wfi)].lookup (funct12 insn) = none := by
        simp only [List.lookup_eq_none_iff, List.forall_mem_cons, bne_iff_ne]
        exact ⟨ecall, ebreak, mret, sret, wfi, List.forall_mem_nil _⟩
      unfold decodeSystem
      rw [if_pos priv, if_neg sfence, if_neg ecall, if_neg ebreak, if_neg mret, if_neg sret,
        if_neg wfi, nothing, ite_self]
      exact right_illegal insn _
  · unfold decodeSystem
    have csr : Right (suppressRd insn (decodeCsr insn (defaults insn pc isRvc))) _ := right_csr
    rw [if_neg priv] at csr ⊢
    exact csr

end Rv64gc.Decode
