import Rv64gc.Decode.DecodeSlice
import Rv64gc.Hdl.Compact

/-!
# Macro-op fusion

`fusion_detector.sv`: of the four decoded slots, adjacent ones that match a pattern become one
micro-operation. Pairs are chosen from the left and do not overlap. The slots that remain are
packed to the front.
-/

namespace Rv64gc.Decode

open Hdl

/-- What decode hands over in one cycle. Slots beyond the count hold stale data. -/
structure Window where
  slot : Nat → DecodedInsn
  count : Nat

-- ---------------------------------------------------------------------
-- Classification
-- ---------------------------------------------------------------------

def isLui (d : DecodedInsn) : Bool := d.fuType == .alu && d.aluOp == .lui
def isAuipc (d : DecodedInsn) : Bool := d.fuType == .alu && d.aluOp == .pass2 && d.useImm
def isAddi (d : DecodedInsn) : Bool := d.fuType == .alu && d.aluOp == .add && d.useImm
def isJalr (d : DecodedInsn) : Bool := d.fuType == .bru && d.brOp == .jalr
def isSlt (d : DecodedInsn) : Bool := d.fuType == .alu && d.aluOp == .slt && !d.useImm
def isSltu (d : DecodedInsn) : Bool := d.fuType == .alu && d.aluOp == .sltu && !d.useImm
def isSlti (d : DecodedInsn) : Bool := d.fuType == .alu && d.aluOp == .slt && d.useImm
def isSltiu (d : DecodedInsn) : Bool := d.fuType == .alu && d.aluOp == .sltu && d.useImm
def isBne (d : DecodedInsn) : Bool := d.fuType == .bru && d.brOp == .ne
def isBeq (d : DecodedInsn) : Bool := d.fuType == .bru && d.brOp == .eq

/-- ADDIW with immediate 0. -/
def isSextw (d : DecodedInsn) : Bool :=
  d.fuType == .alu && d.aluOp == .add && d.useImm && d.isWOp && d.imm == 0

def sameLine (a b : DecodedInsn) : Bool := a.pc.extractLsb' 6 58 == b.pc.extractLsb' 6 58

-- ---------------------------------------------------------------------
-- Patterns
-- ---------------------------------------------------------------------

inductive FusionPattern where
  | luiAddi | auipcJalr | auipcAddi
  | sltBne | sltuBne | sltBeq | sltuBeq | sltiBne | sltiBeq | sltiuBne | sltiuBeq
  | sextwBne | sextwBeq
deriving DecidableEq

/-- The second instruction reads the first one's result and overwrites it. -/
def overwrites (a b : DecodedInsn) : Bool := a.rdArch == b.rs1Arch && a.rdArch == b.rdArch

/-- The second instruction compares the first one's result with x0. -/
def testsZero (a b : DecodedInsn) : Bool := a.rdArch == b.rs1Arch && b.rs2Arch == 0

def FusionPattern.holds (a b : DecodedInsn) : FusionPattern → Bool
  | .luiAddi => isLui a && isAddi b && overwrites a b
  | .auipcJalr => isAuipc a && isJalr b && overwrites a b
  | .auipcAddi => isAuipc a && isAddi b && overwrites a b
  | .sltBne => isSlt a && isBne b && testsZero a b
  | .sltuBne => isSltu a && isBne b && testsZero a b
  | .sltBeq => isSlt a && isBeq b && testsZero a b
  | .sltuBeq => isSltu a && isBeq b && testsZero a b
  | .sltiBne => isSlti a && isBne b && testsZero a b
  | .sltiBeq => isSlti a && isBeq b && testsZero a b
  | .sltiuBne => isSltiu a && isBne b && testsZero a b
  | .sltiuBeq => isSltiu a && isBeq b && testsZero a b
  | .sextwBne => isSextw a && isBne b && testsZero a b
  | .sextwBeq => isSextw a && isBeq b && testsZero a b

/-- The patterns in the order of the else-if chain. -/
def FusionPattern.order : List FusionPattern :=
  [.luiAddi, .auipcJalr, .auipcAddi, .sltBne, .sltuBne, .sltBeq, .sltuBeq, .sltiBne, .sltiBeq,
    .sltiuBne, .sltiuBeq, .sextwBne, .sextwBeq]

/-- The pattern of two adjacent slots; the exception marks are not looked at. -/
def fusionPattern (a b : DecodedInsn) : Option FusionPattern :=
  if a.valid && b.valid && sameLine a b && a.rdArch != 0 then
    FusionPattern.order.find? fun p => p.holds a b
  else none

theorem fusionPattern_valid (fuses : fusionPattern a b = some p) :
    a.valid = true ∧ b.valid = true ∧ a.rdArch ≠ 0 := by
  unfold fusionPattern at fuses
  by_cases guard : (a.valid && b.valid && sameLine a b && a.rdArch != 0) = true
  · simp only [Bool.and_eq_true, bne_iff_ne, ne_eq] at guard
    exact ⟨guard.1.1.1, guard.1.1.2, guard.2⟩
  · rw [if_neg guard] at fuses
    cases fuses

theorem fusionPattern_holds (fuses : fusionPattern a b = some p) : p.holds a b = true := by
  unfold fusionPattern at fuses
  split at fuses
  · exact List.find?_some fuses
  · cases fuses

def signExtend32 (v : BitVec 64) : BitVec 64 := (v.setWidth 32).signExtend 64

/-- LUI+ADDI is the plain sum, LUI+ADDIW the low 32 bits of it, sign-extended. -/
def luiAddImm (a b : DecodedInsn) : BitVec 64 :=
  if b.isWOp then signExtend32 (a.imm + b.imm) else a.imm + b.imm

def compareBranch (a b : DecodedInsn) (op : BrOp) (fusedImm : BitVec 32) (type : BitVec 3) :
    DecodedInsn :=
  { a with
    fuType := .bru, brOp := op, isBranch := true, rdValid := false, imm := b.imm
    fusedImm := fusedImm, isFused := true, fusionType := type }

/-- The merged micro-operation as its pattern builds it. -/
def mergeUop (a b : DecodedInsn) : FusionPattern → DecodedInsn
  | .luiAddi => { a with
      imm := luiAddImm a b, isWOp := false, fusedImm := b.imm.setWidth 32, isFused := true
      fusionType := 0 }
  | .auipcJalr => { a with
      fuType := .bru, brOp := .jalr, isBranch := true, isJalr := true, rdArch := b.rdArch
      rdValid := b.rdValid, imm := a.imm + b.imm, fusedImm := b.imm.setWidth 32, useImm := true
      isFused := true, fusionType := 0 }
  -- The sum is not narrowed when the second instruction is ADDIW.
  | .auipcAddi => { a with
      imm := a.imm + b.imm, fusedImm := b.imm.setWidth 32, isFused := true, fusionType := 0 }
  | .sltBne => compareBranch a b .ne (b.imm.setWidth 32) 0
  | .sltuBne => compareBranch a b .ne (b.imm.setWidth 32) 1
  | .sltBeq => compareBranch a b .eq (b.imm.setWidth 32) 2
  | .sltuBeq => compareBranch a b .eq (b.imm.setWidth 32) 3
  | .sltiBne => compareBranch a b .ne (a.imm.setWidth 32) 4
  | .sltiBeq => compareBranch a b .eq (a.imm.setWidth 32) 4
  | .sltiuBne => compareBranch a b .ne (a.imm.setWidth 32) 5
  | .sltiuBeq => compareBranch a b .eq (a.imm.setWidth 32) 5
  | .sextwBne => compareBranch a b .ne a.fusedImm 6
  | .sextwBeq => compareBranch a b .eq a.fusedImm 7

/-- A merged control transfer takes place at the second slot, and traps at the first. -/
def fusedUop (a b : DecodedInsn) (p : FusionPattern) : DecodedInsn :=
  let u := mergeUop a b p
  if u.fuType = .bru then
    let u := { u with bp := b.bp, pc := b.pc, trapPc := a.trapPc, isRvc := b.isRvc }
    -- The BRU adds nothing but the operand to the immediate of a JALR.
    if isAuipc a && isJalr b && overwrites a b then { u with imm := a.pc + a.imm + b.imm }
    else { u with rdValid := a.rdValid }
  else u

-- ---------------------------------------------------------------------
-- Selection and packing
-- ---------------------------------------------------------------------

namespace Window

/-- Pair (k, k + 1) matches a pattern. -/
def fits (w : Window) (k : Nat) : Bool := (fusionPattern (w.slot k) (w.slot (k + 1))).isSome

/-- Pair (k, k + 1) fuses unless slot k already went into the pair before it. -/
def fusable (w : Window) : Nat → Bool
  | 0 => w.fits 0
  | k + 1 => !w.fusable k && w.fits (k + 1)

def numFusePairs : Nat := pipeWidth - 1

/-- Slot i starts a fused pair. -/
def starts (w : Window) (i : Nat) : Bool := decide (i < numFusePairs) && w.fusable i

/-- Slot i is the second of a fused pair. -/
def consumed (w : Window) : Nat → Bool
  | 0 => false
  | i + 1 => w.starts i

def numFused (w : Window) : Nat := rank w.fusable numFusePairs

def decCountOut (w : Window) : Nat :=
  if w.numFused ≤ w.count then w.count - w.numFused else 0

/-- The micro-operation that slot i leaves with. -/
def emit (w : Window) (i : Nat) : DecodedInsn :=
  if w.starts i then
    match fusionPattern (w.slot i) (w.slot (i + 1)) with
    | some p => fusedUop (w.slot i) (w.slot (i + 1)) p
    | none => w.slot i
  else w.slot i

/-- The slots that are not consumed, in order. -/
def kept (w : Window) : List Nat := packed (fun i => !w.consumed i) pipeWidth

def decOut (w : Window) (j : Nat) : DecodedInsn :=
  match w.kept[j]? with
  | some i => w.emit i
  | none => { w.slot 0 with valid := false }

def inputs (w : Window) : List DecodedInsn := (List.range w.count).map w.slot
def outputs (w : Window) : List DecodedInsn := (List.range w.decCountOut).map w.decOut

-- ---------------------------------------------------------------------
-- What the outputs stand for
-- ---------------------------------------------------------------------

/-- The window as decode fills it. -/
structure FromDecode (w : Window) : Prop where
  fits : w.count ≤ pipeWidth
  decoded : ∀ j, j < w.count → ∃ insn pc isRvc bp,
    w.slot j = { decodeSlice insn pc isRvc with bp := bp, valid := true }
  stale : ∀ j, w.count ≤ j → (w.slot j).valid = false

/-- The input slots that output j stands for. -/
def origin (w : Window) (j : Nat) : List Nat :=
  match w.kept[j]? with
  | some i => if w.starts i then [i, i + 1] else [i]
  | none => []

/-- `P` holds of the pairs that match and are chosen: the first one, the second where the first
does not match, the third where the second is not chosen. -/
structure ChosenPairs (w : Window) (P : DecodedInsn → DecodedInsn → Prop) : Prop where
  first : w.fits 0 = true → P (w.slot 0) (w.slot 1)
  second : w.fits 0 = false → w.fits 1 = true → P (w.slot 1) (w.slot 2)
  third : (w.fits 0 = true ∨ w.fits 1 = false) → w.fits 2 = true → P (w.slot 2) (w.slot 3)

variable {w : Window}

theorem chosenPairs_iff {P : DecodedInsn → DecodedInsn → Prop} :
    w.ChosenPairs P ↔ ∀ k, w.starts k = true → P (w.slot k) (w.slot (k + 1)) := by
  constructor
  · intro pairs k starts
    obtain ⟨inside, fusable⟩ := Bool.and_eq_true_iff.mp starts
    match k, inside with
    | 0, _ => exact pairs.first fusable
    | 1, _ =>
      obtain ⟨before, here⟩ := Bool.and_eq_true_iff.mp fusable
      exact pairs.second (by simpa [Window.fusable] using before) here
    | 2, _ =>
      obtain ⟨before, here⟩ := Bool.and_eq_true_iff.mp fusable
      refine pairs.third ?_ here
      simpa [Window.fusable] using before
    | k + 3, inside => cases inside
  · intro pairs
    refine ⟨fun here => pairs 0 here, fun before here => pairs 1 ?_, fun before here => pairs 2 ?_⟩
    · simp [starts, Window.fusable, numFusePairs, pipeWidth, before, here]
    · rcases before with h | h <;> simp [starts, Window.fusable, numFusePairs, pipeWidth, h, here]

theorem slot_isFused (decoded : w.FromDecode) (inside : j < w.count) :
    (w.slot j).isFused = false := by
  obtain ⟨insn, pc, isRvc, bp, same⟩ := decoded.decoded j inside
  rw [same]
  exact decodeSlice_isFused insn pc isRvc

theorem fits_iff : w.fits k = true ↔ ∃ p, fusionPattern (w.slot k) (w.slot (k + 1)) = some p :=
  Option.isSome_iff_exists

theorem fusable_fits (fusable : w.fusable k = true) : w.fits k = true := by
  cases k with
  | zero => exact fusable
  | succ k => exact (Bool.and_eq_true_iff.mp fusable).2

/-- A fused pair lies among the slots that are there. -/
theorem starts_inside (decoded : w.FromDecode) (starts : w.starts k = true) :
    k + 1 < w.count := by
  obtain ⟨-, fusable⟩ := Bool.and_eq_true_iff.mp starts
  obtain ⟨p, fuses⟩ := fits_iff.mp (fusable_fits fusable)
  have second := (fusionPattern_valid fuses).2.1
  by_contra beyond
  have stale := decoded.stale (k + 1) (Nat.le_of_not_lt beyond)
  rw [stale] at second
  cases second

/-- Pairs do not overlap. -/
theorem consumed_not_starts (consumed : w.consumed i = true) : w.starts i = false := by
  cases i with
  | zero => cases consumed
  | succ k =>
    obtain ⟨-, before⟩ := Bool.and_eq_true_iff.mp consumed
    have blocked : w.fusable (k + 1) = false := by
      show (!w.fusable k && w.fits (k + 1)) = false
      rw [before]
      rfl
    unfold starts
    rw [blocked, Bool.and_false]

theorem starts_not_consumed (starts : w.starts i = true) : w.consumed i = false := by
  cases consumed : w.consumed i with
  | false => rfl
  | true =>
    rw [consumed_not_starts consumed] at starts
    cases starts

/-- The count of the outputs is the number of slots that stay. -/
theorem decCountOut_eq (decoded : w.FromDecode) :
    w.decCountOut = rank (fun i => !w.consumed i) w.count := by
  have few := decoded.fits
  have whole : rank w.consumed 4 = w.numFused := by
    simp [rank_succ, numFused, consumed, starts, numFusePairs, pipeWidth]
  have inside : rank w.consumed w.count = rank w.consumed 4 := by
    have later : ∀ n, w.count ≤ n → rank w.consumed n = rank w.consumed w.count := by
      intro n above
      induction above with
      | refl => rfl
      | step above ih =>
        rename_i n
        rw [rank_succ, ih, if_neg, Nat.add_zero]
        intro consumed
        cases n with
        | zero => cases consumed
        | succ k =>
          have := starts_inside decoded consumed
          have : w.count ≤ k + 1 := above
          omega
    exact (later 4 few).symm
  have both := rank_add_rank_not w.consumed w.count
  unfold decCountOut
  split <;> omega

/-- Output `p` is the slot that lands there. -/
theorem kept_rank (inside : i < pipeWidth) (stays : w.consumed i = false) :
    w.kept[rank (fun i => !w.consumed i) i]? = some i :=
  getElem?_packed_iff.mpr ⟨inside, by simp [stays], rfl⟩

theorem origin_eq (kept : w.kept[q]? = some i) :
    w.origin q = if w.starts i then [i, i + 1] else [i] := by
  unfold origin
  rw [kept]

theorem rank_lt_decCountOut (decoded : w.FromDecode) (inside : i < w.count)
    (stays : w.consumed i = false) : rank (fun i => !w.consumed i) i < w.decCountOut := by
  rw [decCountOut_eq decoded]
  exact rank_lt (by simp [stays]) inside

/-- Every slot that is there is covered by an output, and older slots by earlier outputs. -/
theorem covered (decoded : w.FromDecode) (inside : i < w.count) :
    ∃ q, q ≤ rank (fun i => !w.consumed i) i ∧ i ∈ w.origin q ∧
      (w.consumed i = true → q < rank (fun i => !w.consumed i) i) := by
  have few := decoded.fits
  cases consumed : w.consumed i with
  | false =>
    refine ⟨_, Nat.le_refl _, ?_, fun h => by cases h⟩
    unfold origin
    rw [kept_rank (by omega) consumed]
    dsimp only
    split <;> simp
  | true =>
    cases i with
    | zero => cases consumed
    | succ k =>
      have starts : w.starts k = true := consumed
      have first := starts_not_consumed starts
      have stays : (!w.consumed k) = true := by simp [first]
      have before : rank (fun i => !w.consumed i) k < rank (fun i => !w.consumed i) (k + 1) :=
        rank_lt stays (Nat.lt_succ_self k)
      refine ⟨_, Nat.le_of_lt before, ?_, fun _ => before⟩
      unfold origin
      rw [kept_rank (by omega) first]
      simp [starts]

-- ---------------------------------------------------------------------
-- Windows of given instructions
-- ---------------------------------------------------------------------

/-- The instructions follow each other from address 0. -/
def decodedWindow (insns : List (BitVec 32)) : Window where
  slot j :=
    match insns[j]? with
    | some insn =>
      { decodeSlice insn (BitVec.ofNat 64 (4 * j)) false with bp := .none, valid := true }
    | none => { decodeSlice 0 0 false with valid := false }
  count := insns.length

theorem fromDecode_decodedWindow (insns : List (BitVec 32)) (few : insns.length ≤ pipeWidth) :
    (decodedWindow insns).FromDecode := by
  refine ⟨few, fun j inside => ?_, fun j beyond => ?_⟩
  · refine ⟨insns[j], BitVec.ofNat 64 (4 * j), false, .none, ?_⟩
    have at_ : insns[j]? = some insns[j] := List.getElem?_eq_getElem inside
    simp only [decodedWindow, at_]
  · have none : insns[j]? = none := List.getElem?_eq_none beyond
    simp [decodedWindow, none]

end Window

end Rv64gc.Decode
