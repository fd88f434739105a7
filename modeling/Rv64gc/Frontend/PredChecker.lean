import Rv64gc.Decode.DecodeSlice
import Rv64gc.Frontend.Icache
import Rv64gc.Hdl.Path

/-!
# Predicted control transfers

`predecode` finds the first two control transfers among the extracted slots, and `pred_checker`
chooses one slot after which fetch goes on elsewhere: from the BTB, from the fetch target's own
conditional, or from the predecoded instruction. `instr_compact` tags that slot as taken.
-/

namespace Rv64gc.Frontend

open Hdl Decode Decode.Fields

abbrev btCond : BitVec 3 := 0
abbrev btJal : BitVec 3 := 1
abbrev btJalr : BitVec 3 := 2
abbrev btCall : BitVec 3 := 3
abbrev btRet : BitVec 3 := 4

/-- An extracted instruction, expanded when it is compressed. -/
structure Slot where
  valid : Bool
  insn : BitVec 32
  isRvc : Bool
  pc : Addr

def fallthrough (pc : Addr) (isRvc : Bool) : Addr := pc + if isRvc then 2 else 4

def Slot.next (s : Slot) : Addr := fallthrough s.pc s.isRvc

/-- A predecoded control transfer. -/
structure Ctl where
  slot : Fin pipeWidth
  type : BitVec 3
  pc : Addr
  target : Addr

/-- The fetch target's prediction of its conditional. -/
structure FtqPred where
  blockPc : Addr
  predCtlTaken : Bool
  predCtlOffset : BitVec 6
  predCtlType : BitVec 3
  predCtlTarget : Addr

structure BtbHit where
  target : Addr
  type : BitVec 3
  offset : BitVec 6

structure PredIn where
  valid : Bool
  extractCount : Nat
  slot : Nat → Slot
  workPc : Addr
  /-- The entry of the fetch target, when it predicts a control transfer. -/
  ftq : Option FtqPred
  btb : Option BtbHit
  btbAlt : Option BtbHit
  tageTaken : Bool
  rasTos : BitVec 5
  rasPopAddr : Addr
  ownerTagePredTaken : Bool

/-- The slot that ends the packet, and where fetch goes on. -/
structure Pick where
  slot : Fin pipeWidth
  target : Addr
  type : BitVec 3
deriving DecidableEq

def isLinkReg (r : ArchReg) : Bool := r == 1 || r == 5

namespace PredIn

variable (x : PredIn)

-- ---------------------------------------------------------------------
-- Predecode
-- ---------------------------------------------------------------------

/-- The top of the RAS, when it has one. -/
def rasTop : Option Addr := if x.rasTos ≠ 0 ∧ x.rasPopAddr ≠ 0 then some x.rasPopAddr else none

def jalrCtl (s : Slot) : BitVec 3 × Addr :=
  if rd s.insn = 0 ∧ isLinkReg (rs1 s.insn) ∧ funct12 s.insn = 0 then (btRet, x.rasTop.getD 0)
  else if isLinkReg (rd s.insn) then (btCall, 0)
  else (btJalr, 0)

/-- Type and target of the slot's instruction, when it is a control transfer. -/
def ctlOf (s : Slot) : Option (BitVec 3 × Addr) :=
  if opcode s.insn = opBranch then some (btCond, s.pc + immB s.insn)
  else if opcode s.insn = opJal then
    some (if isLinkReg (rd s.insn) then btCall else btJal, s.pc + immJ s.insn)
  else if opcode s.insn = opJalr then
    if funct3 s.insn = 0 then some (x.jalrCtl s) else none
  else none

def ctlAt (i : Fin pipeWidth) : Option Ctl :=
  if x.valid && (x.slot i).valid && decide (i < x.extractCount) then
    (x.ctlOf (x.slot i)).map fun c => ⟨i, c.1, (x.slot i).pc, c.2⟩
  else none

def ctls : List Ctl := (List.finRange pipeWidth).filterMap x.ctlAt

/-- `pd_ctl_*` -/
def pdCtl : Option Ctl := x.ctls[0]?

/-- `second_ctl_*` -/
def secondCtl : Option Ctl := x.ctls[1]?

/-- `owner_cond_pred_found` -/
def ownerCondPredFound : Bool :=
  x.pdCtl.any fun c => c.type == btCond && x.ownerTagePredTaken

-- ---------------------------------------------------------------------
-- The fetch target's prediction
-- ---------------------------------------------------------------------

/-- The slot at an offset of the line that `base` lies in. -/
def slotAt (base : Addr) (offset : BitVec 6) : Option (Fin pipeWidth) :=
  lastOf fun i => (x.slot i).valid && lineOf (x.slot i).pc == lineOf base &&
    (x.slot i).pc.extractLsb' 0 6 == offset

/-- `ftq_pred_ctl_*`, when the predicted instruction is among the slots. -/
def ftqPredCtl : Option (Fin pipeWidth × FtqPred) := do
  let p ← x.ftq
  let i ← x.slotAt p.blockPc p.predCtlOffset
  return (i, p)

/-- `pd_pred_mismatch` -/
def pdPredMismatch : Bool :=
  match x.pdCtl, x.ftqPredCtl with
  | none, none => false
  | some c, some (i, p) =>
    if c.slot ≠ i ∨ c.type ≠ p.predCtlType then true
    else if c.type = btCond ∨ c.type = btJal ∨ c.type = btRet then c.target != p.predCtlTarget
    else false
  | _, _ => true

-- ---------------------------------------------------------------------
-- BTB prediction select
-- ---------------------------------------------------------------------

/-- The target of a BTB entry that is predicted taken; `taken` decides a conditional. -/
def btbTarget (taken : Bool) (h : BtbHit) : Option Addr :=
  if h.type = btCond then if taken then some h.target else none
  else if h.type = btJal ∨ h.type = btJalr ∨ h.type = btCall then some h.target
  else if h.type = btRet then x.rasTop
  else none

/-- The slot is found by its address alone: nothing looks at the instruction in it. -/
def btbSlot (taken : Bool) (h : BtbHit) : Option Pick := do
  let target ← x.btbTarget taken h
  let i ← x.slotAt x.workPc h.offset
  return ⟨i, target, h.type⟩

/-- `btb_pred_*`: the alternative entry is never a conditional. -/
def btbPick : Option Pick :=
  if x.valid then
    (x.btb.bind (x.btbSlot x.tageTaken)).or (x.btbAlt.bind (x.btbSlot false))
  else none

-- ---------------------------------------------------------------------
-- Final prediction select
-- ---------------------------------------------------------------------

/-- A conditional that the fetch target and the predecoded instruction agree on. -/
def ftqPick : Option Pick := do
  let (i, p) ← x.ftqPredCtl
  let c ← x.pdCtl
  if p.predCtlTaken ∧ p.predCtlType = btCond ∧ c.type = btCond ∧ c.slot = i ∧
      c.target = p.predCtlTarget then
    some ⟨i, p.predCtlTarget, btCond⟩
  else none

/-- A jump or a return whose target is known without the BTB. -/
def staticPick : Option Pick := do
  let c ← x.pdCtl
  if x.valid ∧ (c.type = btJal ∨ c.type = btCall ∨ c.type = btRet) ∧ c.target ≠ 0 then
    some ⟨c.slot, c.target, c.type⟩
  else none

/-- The earlier of the two slots, the one already chosen when they are the same. -/
def earlier (chosen other : Option Pick) : Option Pick :=
  match chosen, other with
  | some p, some q => if q.slot < p.slot then some q else some p
  | none, other => other
  | chosen, none => chosen

/-- `bp_*`, when a taken prediction is found. -/
def bpPick : Option Pick := earlier (earlier x.btbPick x.ftqPick) x.staticPick

-- ---------------------------------------------------------------------
-- The packet
-- ---------------------------------------------------------------------

/-- The prediction is for slot `i`. -/
def picksCond (i : Fin pipeWidth) : Bool := x.bpPick.any fun p => p.type == btCond && p.slot == i

/-- `subgroup_split_slot`, when the packet is cut before a control transfer. -/
def splitSlot : Option (Fin pipeWidth) :=
  match x.pdCtl with
  | none => none
  | some c =>
    let second := x.secondCtl.filter fun d =>
      x.valid && c.type == btCond && !x.bpPick.any fun p => p.slot ≤ d.slot
    match second with
    | some d => some d.slot
    | none =>
      if x.valid && c.type == btCond && c.slot != 0 then
        let cut :=
          if c.slot = 1 then
            !x.picksCond c.slot &&
              (x.ownerCondPredFound || (c.target != 0 && decide (c.target < c.pc)))
          else if c.slot = 3 ∧ x.ftqPredCtl.any fun f => f.2.predCtlType == btCond && f.1 == c.slot then
            !x.picksCond c.slot
          else if x.ownerCondPredFound then
            x.ftqPredCtl.all (fun f => c.slot < f.1) || x.pdPredMismatch
          else false
        if cut then some c.slot else none
      else none

/-- `final_count` -/
def finalCount : Nat :=
  match x.splitSlot, x.bpPick with
  | some i, _ => i
  | none, some p => p.slot + 1
  | none, none => x.extractCount

/-- The slot `instr_compact` tags, and its target. -/
def tag : Option Pick := if x.splitSlot.isSome then none else x.bpPick

-- ---------------------------------------------------------------------
-- Which slot is tagged
-- ---------------------------------------------------------------------

variable {x : PredIn}

theorem ctlAt_some (found : x.ctlAt i = some c) :
    c.slot = i ∧ i < x.extractCount ∧ (x.slot i).valid = true ∧
      ∃ t, x.ctlOf (x.slot i) = some t := by
  unfold ctlAt at found
  split at found
  next there =>
    obtain ⟨t, ctl, rfl⟩ := Option.map_eq_some_iff.mp found
    simp only [Bool.and_eq_true, decide_eq_true_eq] at there
    exact ⟨rfl, there.2, there.1.2, t, ctl⟩
  next => cases found

/-- The predecoded control transfer is one, in a slot that is there. -/
theorem pdCtl_some (found : x.pdCtl = some c) :
    c.slot < x.extractCount ∧ ∃ t, x.ctlOf (x.slot c.slot) = some t := by
  obtain ⟨i, -, ctl⟩ := List.mem_filterMap.mp (List.mem_of_getElem? found)
  obtain ⟨rfl, inside, -, t, isCtl⟩ := ctlAt_some ctl
  exact ⟨inside, t, isCtl⟩

theorem slotAt_some {offset : BitVec 6} (found : x.slotAt base offset = some i) : (x.slot i).valid = true := by
  have hit := lastOf_some found
  simp only [Bool.and_eq_true] at hit
  exact hit.1.1

theorem btbSlot_some (found : x.btbSlot taken h = some p) : (x.slot p.slot).valid = true := by
  simp only [btbSlot, Option.bind_eq_bind, Option.bind_eq_some_iff] at found
  obtain ⟨target, -, i, slot, eq⟩ := found
  cases eq
  exact slotAt_some slot

theorem btbPick_some (found : x.btbPick = some p) : (x.slot p.slot).valid = true := by
  unfold btbPick at found
  split at found
  · obtain primary | ⟨-, alt⟩ := Option.or_eq_some_iff.mp found
    · obtain ⟨h, -, hit⟩ := Option.bind_eq_some_iff.mp primary
      exact btbSlot_some hit
    · obtain ⟨h, -, hit⟩ := Option.bind_eq_some_iff.mp alt
      exact btbSlot_some hit
  · cases found

/-- The choices that do not come from the BTB are for the predecoded instruction. -/
theorem ftqPick_some (found : x.ftqPick = some p) : ∃ c, x.pdCtl = some c ∧ c.slot = p.slot := by
  simp only [ftqPick, Option.bind_eq_bind, Option.bind_eq_some_iff] at found
  obtain ⟨⟨i, q⟩, -, c, ctl, agreed⟩ := found
  split at agreed
  next same =>
    cases agreed
    exact ⟨c, ctl, same.2.2.2.1⟩
  next => cases agreed

theorem staticPick_some (found : x.staticPick = some p) :
    ∃ c, x.pdCtl = some c ∧ c.slot = p.slot := by
  simp only [staticPick, Option.bind_eq_bind, Option.bind_eq_some_iff] at found
  obtain ⟨c, ctl, known⟩ := found
  split at known
  next =>
    cases known
    exact ⟨c, ctl, rfl⟩
  next => cases known

theorem earlier_some (found : earlier a b = some p) : a = some p ∨ b = some p := by
  unfold earlier at found
  split at found
  next q r =>
    split at found
    · exact .inr found
    · exact .inl found
  next => exact .inr found
  next => exact .inl found

theorem bpPick_some (found : x.bpPick = some p) :
    x.btbPick = some p ∨ ∃ c, x.pdCtl = some c ∧ c.slot = p.slot := by
  obtain either | static := earlier_some found
  · obtain btb | ftq := earlier_some either
    · exact .inl btb
    · exact .inr (ftqPick_some ftq)
  · exact .inr (staticPick_some static)

theorem tag_some (tagged : x.tag = some p) : x.splitSlot = none ∧ x.bpPick = some p := by
  unfold tag at tagged
  split at tagged
  next => cases tagged
  next whole => exact ⟨by simpa using whole, tagged⟩

/-- A tagged slot is the last one of its packet. -/
theorem finalCount_of_tag (tagged : x.tag = some p) : x.finalCount = p.slot + 1 := by
  obtain ⟨whole, picked⟩ := tag_some tagged
  simp [finalCount, whole, picked]

theorem secondCtl_some (found : x.secondCtl = some c) : c.slot < x.extractCount := by
  obtain ⟨i, -, ctl⟩ := List.mem_filterMap.mp (List.mem_of_getElem? found)
  obtain ⟨rfl, inside, -⟩ := ctlAt_some ctl
  exact inside

theorem splitSlot_some (cut : x.splitSlot = some i) : i < x.extractCount := by
  unfold splitSlot at cut
  split at cut
  next => cases cut
  next c ctl =>
    dsimp only at cut
    split at cut
    next d second =>
      cases cut
      exact secondCtl_some (Option.filter_eq_some_iff.mp second).1
    next =>
      split at cut
      next =>
        obtain ⟨-, eq⟩ := Option.ite_none_right_eq_some.mp cut
        cases eq
        exact (pdCtl_some ctl).1
      next => cases cut

theorem secondCtl_pos (found : x.secondCtl = some c) : c.slot.val ≠ 0 := by
  have sorted : x.ctls.Pairwise fun a b => a.slot < b.slot := by
    refine List.pairwise_filterMap.mpr ((List.pairwise_lt_finRange pipeWidth).imp ?_)
    intro i j less a first b second
    rw [(ctlAt_some first).1, (ctlAt_some second).1]
    exact less
  obtain ⟨two, rfl⟩ := List.getElem?_eq_some_iff.mp found
  have less := List.pairwise_iff_getElem.mp sorted 0 1 (by omega) two (by decide)
  have less' : (x.ctls[0]).slot.val < (x.ctls[1]).slot.val := less
  omega

theorem splitSlot_pos (cut : x.splitSlot = some i) : i.val ≠ 0 := by
  unfold splitSlot at cut
  split at cut
  next => cases cut
  next c ctl =>
    dsimp only at cut
    split at cut
    next d second =>
      cases cut
      exact secondCtl_pos (Option.filter_eq_some_iff.mp second).1
    next =>
      split at cut
      next there =>
        obtain ⟨-, eq⟩ := Option.ite_none_right_eq_some.mp cut
        cases eq
        simp only [Bool.and_eq_true, bne_iff_ne] at there
        exact Fin.val_ne_of_ne there.2
      next => cases cut

/-- A packet keeps one of the extracted slots at least. -/
theorem finalCount_ne_zero (some_ : x.extractCount ≠ 0) : x.finalCount ≠ 0 := by
  unfold finalCount
  split
  next i _ _ cut => exact splitSlot_pos cut
  next => exact Nat.succ_ne_zero _
  next => exact some_

/-- A packet holds no more than was extracted. -/
theorem finalCount_le (valid : ∀ j < pipeWidth, (x.slot j).valid = true → j < x.extractCount) :
    x.finalCount ≤ x.extractCount := by
  unfold finalCount
  split
  next i _ _ cut => exact Nat.le_of_lt (splitSlot_some cut)
  next p _ picked =>
    obtain btb | ⟨c, ctl, same⟩ := bpPick_some picked
    · exact valid _ p.slot.isLt (btbPick_some btb)
    · exact same ▸ (pdCtl_some ctl).1
  next => exact Nat.le_refl _

end PredIn

end Rv64gc.Frontend
