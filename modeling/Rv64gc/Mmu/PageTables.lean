import Rv64gc.Mmu.Ptw

/-!
# Address translation

What an address means, as the manual says: the page table is walked from its root to a leaf, and the
leaf allows the access or refuses it. Beside the manual's walk stands one that passes over reserved
bits, as the hardware does.
-/

namespace Rv64gc.Mmu

abbrev Pte := BitVec 64

inductive AccessKind where
  | fetch
  | load
  | store
deriving DecidableEq

structure Access where
  kind : AccessKind
  va : Va
  priv : BitVec 2
  sum : Bool
  mxr : Bool

/-- The page fault of the access. -/
def AccessKind.cause : AccessKind → BitVec 4
  | .fetch => excInsnPageFault
  | .load => excLoadPageFault
  | .store => excStorePageFault

/-- Where a walk ends. -/
structure Leaf where
  level : Nat
  addr : Pa
deriving DecidableEq

-- ---------------------------------------------------------------------
-- The walk
-- ---------------------------------------------------------------------

def entryAddr (va : Va) (level : Nat) (ppn : Ppn) : Pa :=
  0#8 ++ ppn ++ va.extractLsb' (12 + 9 * level) 9 ++ 0#3

/-- A leaf above the last level maps a page as large as its table would. -/
def misaligned (level : Nat) (ppn : Ppn) : Bool := decide (ppn.toNat % 2 ^ (9 * level) ≠ 0)

/-- Bits without a meaning yet: the ten highest, and A, D and U in a pointer to a table. -/
def reserved (pte : Pte) : Bool :=
  pte.extractLsb' 54 10 != 0 ||
    !Ptw.pteLeaf pte && (pte.extractLsb' 6 2 != 0 || pte.getLsbD 4)

variable (mem : Pa → Pte) (va : Va)

/-- The walk of the manual. -/
def refWalk : Nat → Ppn → Option Leaf
  | level, ppn =>
    let addr := entryAddr va level ppn
    let pte := mem addr
    if !pte.getLsbD 0 || !pte.getLsbD 1 && pte.getLsbD 2 || reserved pte then none
    else if pte.getLsbD 1 || pte.getLsbD 3 then
      if misaligned level (Ptw.ptePpn pte) then none else some ⟨level, addr⟩
    else match level with
      | 0 => none
      | level + 1 => refWalk level (Ptw.ptePpn pte)

/-- The walk that passes over reserved bits. -/
def walk : Nat → Ppn → Option Leaf
  | level, ppn =>
    let addr := entryAddr va level ppn
    let pte := mem addr
    if Ptw.pteInvalid pte then none
    else if Ptw.pteLeaf pte then
      if misaligned level (Ptw.ptePpn pte) then none else some ⟨level, addr⟩
    else match level with
      | 0 => none
      | level + 1 => walk level (Ptw.ptePpn pte)

/-- No entry on the way has a reserved bit set. -/
def unreserved : Nat → Ppn → Bool
  | level, ppn =>
    let pte := mem (entryAddr va level ppn)
    !reserved pte &&
      (Ptw.pteInvalid pte || Ptw.pteLeaf pte || match level with
        | 0 => true
        | level + 1 => unreserved level (Ptw.ptePpn pte))

-- ---------------------------------------------------------------------
-- The translation
-- ---------------------------------------------------------------------

def startLevel (satp : BitVec 64) : Nat := if satpSv48 satp then 3 else 2

def vaBits (satp : BitVec 64) : Nat := if satpSv48 satp then 48 else 39

/-- The address is the sign extension of its lower bits. -/
def signExtended (n : Nat) (va : Va) : Bool := (va.setWidth n).signExtend 64 == va

/-- The leaf allows the access. -/
def Access.permitted (a : Access) (pte : Pte) : Bool :=
  (match a.kind with
    | .fetch => pte.getLsbD 3
    | .load => pte.getLsbD 1 || a.mxr && pte.getLsbD 3
    | .store => pte.getLsbD 2) &&
    if pte.getLsbD 4 then a.priv != privS || a.kind != .fetch && a.sum else a.priv != privU

/-- The page number comes from the leaf, but for the parts that are in the page. -/
def Leaf.pa (leaf : Leaf) (pte : Pte) (va : Va) : Pa :=
  BitVec.ofNat 64 ((Ptw.ptePpn pte).toNat / 2 ^ (9 * leaf.level) * 2 ^ (12 + 9 * leaf.level) +
    va.toNat % 2 ^ (12 + 9 * leaf.level))

/-- What a leaf makes of an access. -/
def Access.through (a : Access) (mem : Pa → Pte) : Option Leaf → Except (BitVec 4) Pa
  | some leaf =>
    if a.permitted (mem leaf.addr) then .ok (leaf.pa (mem leaf.addr) a.va) else .error a.kind.cause
  | none => .error a.kind.cause

/-- The translation of the manual. -/
def reference (satp : BitVec 64) (a : Access) : Except (BitVec 4) Pa :=
  if signExtended (vaBits satp) a.va then
    a.through mem (refWalk mem a.va (startLevel satp) (satpPpn satp))
  else .error a.kind.cause

/-- The access is refused by its leaf, or its address is canonical and no entry on its walk has a
reserved bit set. -/
def Plain (satp : BitVec 64) (a : Access) : Prop :=
  ∀ leaf, walk mem a.va (startLevel satp) (satpPpn satp) = some leaf →
    a.permitted (mem leaf.addr) = true →
      signExtended (vaBits satp) a.va = true ∧
        unreserved mem a.va (startLevel satp) (satpPpn satp) = true

-- ---------------------------------------------------------------------
-- The two walks
-- ---------------------------------------------------------------------

variable {mem va}

theorem pteInvalid_eq (pte : Pte) :
    (!pte.getLsbD 0 || !pte.getLsbD 1 && pte.getLsbD 2) = Ptw.pteInvalid pte := by
  simp only [Ptw.pteInvalid, Bool.and_comm]

theorem refWalk_eq (level : Nat) (ppn : Ppn) :
    refWalk mem va level ppn = if unreserved mem va level ppn then walk mem va level ppn else none := by
  induction level generalizing ppn with
  | zero =>
    unfold refWalk unreserved walk
    simp only [pteInvalid_eq, ← Ptw.pteLeaf.eq_1]
    cases reserved (mem (entryAddr va 0 ppn)) with
    | true => simp
    | false => simp
  | succ level ih =>
    unfold refWalk unreserved walk
    simp only [pteInvalid_eq, ← Ptw.pteLeaf.eq_1, ih]
    cases reserved (mem (entryAddr va (level + 1) ppn)) with
    | true => simp
    | false =>
      cases Ptw.pteInvalid (mem (entryAddr va (level + 1) ppn)) with
      | true => simp
      | false =>
        cases Ptw.pteLeaf (mem (entryAddr va (level + 1) ppn)) with
        | true => simp
        | false => simp

theorem walk_eq (level : Nat) (ppn : Ppn) :
    walk mem va level ppn =
      if Ptw.pteInvalid (mem (entryAddr va level ppn)) then none
      else if Ptw.pteLeaf (mem (entryAddr va level ppn)) then
        if misaligned level (Ptw.ptePpn (mem (entryAddr va level ppn))) then none
        else some ⟨level, entryAddr va level ppn⟩
      else if level = 0 then none
      else walk mem va (level - 1) (Ptw.ptePpn (mem (entryAddr va level ppn))) := by
  cases level with
  | zero => rfl
  | succ level => rfl

/-- A walk ends at an aligned leaf. -/
theorem walk_leaf {level : Nat} {ppn : Ppn} (ends : walk mem va level ppn = some leaf) :
    Ptw.pteInvalid (mem leaf.addr) = false ∧ Ptw.pteLeaf (mem leaf.addr) = true := by
  induction level generalizing ppn with
  | zero =>
    rw [walk_eq, if_pos rfl] at ends
    split_ifs at ends with invalid isLeaf
    obtain rfl := Option.some.inj ends
    exact ⟨by simpa using invalid, isLeaf⟩
  | succ level ih =>
    rw [walk_eq] at ends
    split_ifs at ends with invalid isLeaf
    · obtain rfl := Option.some.inj ends
      exact ⟨by simpa using invalid, isLeaf⟩
    · exact ih ends

theorem walk_level {level : Nat} {ppn : Ppn} (ends : walk mem va level ppn = some leaf) :
    leaf.level ≤ level := by
  induction level generalizing ppn with
  | zero =>
    unfold walk at ends
    simp only at ends
    split_ifs at ends
    obtain rfl := Option.some.inj ends
    exact Nat.le_refl 0
  | succ level ih =>
    unfold walk at ends
    simp only at ends
    split_ifs at ends
    · obtain rfl := Option.some.inj ends
      exact Nat.le_refl _
    · exact Nat.le_succ_of_le (ih ends)

theorem entryAddr_congr {va' : Va} {level : Nat}
    (same : va'.extractLsb' (12 + 9 * level) 9 = va.extractLsb' (12 + 9 * level) 9) (ppn : Ppn) :
    entryAddr va' level ppn = entryAddr va level ppn := by
  unfold entryAddr
  rw [same]

/-- A walk depends on the parts of the address above its page only. -/
theorem walk_congr_va {va' : Va} {level : Nat} {ppn : Ppn}
    (ends : walk mem va level ppn = some leaf)
    (same : ∀ k, leaf.level ≤ k → k ≤ level →
      va'.extractLsb' (12 + 9 * k) 9 = va.extractLsb' (12 + 9 * k) 9) :
    walk mem va' level ppn = some leaf := by
  have here := entryAddr_congr (same level (walk_level ends) (Nat.le_refl level)) ppn
  induction level generalizing ppn with
  | zero =>
    unfold walk at ends ⊢
    simp only [here]
    exact ends
  | succ level ih =>
    unfold walk at ends ⊢
    simp only [here] at ends ⊢
    split_ifs at ends ⊢
    · exact ends
    · exact ih ends (fun k from_ upTo => same k from_ (Nat.le_succ_of_le upTo))
        (entryAddr_congr (same level (walk_level ends) (Nat.le_succ level)) _)

-- ---------------------------------------------------------------------
-- Tables that differ in A and D only
-- ---------------------------------------------------------------------

/-- The entries agree in all that the hardware looks at, but for A and D. -/
structure SamePte (p q : Pte) : Prop where
  flags : p.extractLsb' 0 6 = q.extractLsb' 0 6
  ppn : Ptw.ptePpn p = Ptw.ptePpn q

namespace SamePte

variable {p q r : Pte}

theorem refl (p : Pte) : SamePte p p := ⟨rfl, rfl⟩

theorem symm (same : SamePte p q) : SamePte q p := ⟨same.flags.symm, same.ppn.symm⟩

theorem trans (first : SamePte p q) (second : SamePte q r) : SamePte p r :=
  ⟨first.flags.trans second.flags, first.ppn.trans second.ppn⟩

theorem bit (same : SamePte p q) (n : Nat) (low : n < 6) : p.getLsbD n = q.getLsbD n := by
  have flag := congrArg (·.getLsbD n) same.flags
  simpa [BitVec.getLsbD_extractLsb', low] using flag

theorem invalid (same : SamePte p q) : Ptw.pteInvalid p = Ptw.pteInvalid q := by
  simp only [Ptw.pteInvalid, same.bit 0 (by decide), same.bit 1 (by decide),
    same.bit 2 (by decide)]

theorem leaf (same : SamePte p q) : Ptw.pteLeaf p = Ptw.pteLeaf q := by
  simp only [Ptw.pteLeaf, same.bit 1 (by decide), same.bit 3 (by decide)]

theorem permitted (same : SamePte p q) (a : Access) : a.permitted p = a.permitted q := by
  simp only [Access.permitted, same.bit 1 (by decide), same.bit 2 (by decide),
    same.bit 3 (by decide), same.bit 4 (by decide)]

theorem pa (same : SamePte p q) (leaf : Leaf) (va : Va) : leaf.pa p va = leaf.pa q va := by
  simp [Leaf.pa, same.ppn]

end SamePte

theorem walk_same {mem' : Pa → Pte} (same : ∀ a, SamePte (mem' a) (mem a)) (level : Nat)
    (ppn : Ppn) : walk mem' va level ppn = walk mem va level ppn := by
  induction level generalizing ppn with
  | zero =>
    unfold walk
    simp only [(same _).invalid, (same _).leaf, (same _).ppn]
  | succ level ih =>
    unfold walk
    simp only [(same _).invalid, (same _).leaf, (same _).ppn, ih]

-- ---------------------------------------------------------------------
-- When reserved bits do not matter
-- ---------------------------------------------------------------------

/-- Passing over reserved bits and the upper part of the address is right on plain accesses only. -/
theorem through_eq_reference_iff (satp : BitVec 64) (a : Access) :
    a.through mem (walk mem a.va (startLevel satp) (satpPpn satp)) = reference mem satp a ↔
      Plain mem satp a := by
  unfold reference Plain
  rw [refWalk_eq]
  cases ends : walk mem a.va (startLevel satp) (satpPpn satp) with
  | none => simp [Access.through]
  | some leaf =>
    cases allows : a.permitted (mem leaf.addr) with
    | false => 
      cases signExtended (vaBits satp) a.va <;>
        cases unreserved mem a.va (startLevel satp) (satpPpn satp) <;>
        simp [Access.through, allows]
    | true =>
      cases signExtended (vaBits satp) a.va <;>
        cases unreserved mem a.va (startLevel satp) (satpPpn satp) <;>
        simp [Access.through, allows]

/-- Where even that walk finds no leaf, there is a page fault. -/
theorem reference_of_lost {satp : BitVec 64} {a : Access}
    (lost : signExtended (vaBits satp) a.va = false ∨
      walk mem a.va (startLevel satp) (satpPpn satp) = none) :
    reference mem satp a = .error a.kind.cause := by
  unfold reference
  rw [refWalk_eq]
  obtain far | none_ := lost
  · simp [far]
  · simp [none_, Access.through]

end Rv64gc.Mmu
