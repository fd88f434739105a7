import Rv64gc.Cache.L2Reads

/-!
# Lines of the L2

Where a line is: in one way that no MSHR has reserved, in one MSHR, or in neither. A clean line is
what memory holds, so that its victim needs no writeback.
-/

namespace Rv64gc.Cache

open Hdl

def lineAt (set : SetIndex) (tag : Tag) : Line := tag ++ set

theorem lineOf_eq (a : Addr) : lineOf a = lineAt (setOf a) (tagOf a) := by
  unfold lineOf lineAt setOf tagOf
  refine BitVec.eq_of_getLsbD_eq fun k inside => ?_
  rw [BitVec.getLsbD_append]
  simp only [BitVec.getLsbD_extractLsb', inside, decide_true, Bool.true_and]
  by_cases low : k < 10
  · simp [low]
  · simp [low, show k - 10 < 48 by omega, show 16 + (k - 10) = 6 + k by omega]

theorem lineOf_evict (set : SetIndex) (tag : Tag) : lineOf (tag ++ set ++ 0#6) = lineAt set tag := by
  unfold lineOf lineAt
  refine BitVec.eq_of_getLsbD_eq fun k inside => ?_
  rw [BitVec.getLsbD_extractLsb', BitVec.getLsbD_append (x := tag ++ set)]
  simp [inside, show ¬ 6 + k < 6 by omega, -BitVec.getLsbD_eq_getElem]

theorem lineAt_inj {set set' : SetIndex} {tag tag' : Tag} (same : lineAt set tag = lineAt set' tag') :
    set = set' ∧ tag = tag' := by
  unfold lineAt at same
  constructor
  · refine BitVec.eq_of_getLsbD_eq fun k inside => ?_
    have bit : (tag ++ set).getLsbD k = (tag' ++ set').getLsbD k := congrArg (·.getLsbD k) same
    rw [BitVec.getLsbD_append, BitVec.getLsbD_append, if_pos inside, if_pos inside] at bit
    exact bit
  · refine BitVec.eq_of_getLsbD_eq fun k inside => ?_
    have bit : (tag ++ set).getLsbD (10 + k) = (tag' ++ set').getLsbD (10 + k) :=
      congrArg (·.getLsbD (10 + k)) same
    rw [BitVec.getLsbD_append, BitVec.getLsbD_append, if_neg (by omega), if_neg (by omega),
      Nat.add_sub_cancel_left] at bit
    exact bit

namespace L2

variable {s : L2} {x : L2In} {set : SetIndex} {w : Fin l2Ways}

theorem reserved_iff : s.reserved set w = true ↔
    ∃ i m, s.mshr i = some m ∧ setOf m.addr = set ∧ m.fillWay = w := by
  unfold reserved
  rw [← Bool.not_eq_false, Option.isSome_eq_false_iff, Option.isNone_iff_eq_none, firstOf_none]
  simp only [not_forall, Bool.not_eq_false]
  constructor
  · rintro ⟨i, here⟩
    obtain ⟨m, mshr, same⟩ := Option.any_eq_true _ _ |>.mp here
    exact ⟨i, m, mshr, by simpa using same⟩
  · rintro ⟨i, m, mshr, set, way⟩
    exact ⟨i, by simp [mshr, set, way]⟩

theorem hitWay_none (miss : s.hitWay a = none) (w : Fin l2Ways)
    (valid : (s.way (setOf a) w).valid = true) (free : s.reserved (setOf a) w = false) :
    (s.way (setOf a) w).tag ≠ tagOf a := by
  have none_ := lastOf_none.mp miss w
  simpa [valid, free] using none_

theorem victimWay_some (victim : s.victimWay set = some w) : s.reserved set w = false := by
  unfold victimWay at victim
  obtain first | ⟨-, other⟩ := Option.or_eq_some_iff.mp victim
  · have free := firstOf_some first
    simp only [Bool.and_eq_true, Bool.not_eq_true'] at free
    exact free.2
  · obtain ⟨off, first, rfl⟩ := Option.map_eq_some_iff.mp other
    simpa using firstOf_some first

/-- The way holds a line that lookups find. -/
structure Held (s : L2) (set : SetIndex) (w : Fin l2Ways) : Prop where
  valid : (s.way set w).valid = true
  free : s.reserved set w = false

/-- The MSHR fills the way in this cycle and is free afterwards. -/
structure Fills (s : L2) (x : L2In) (i : Fin l2MshrDepth) (m : Mshr) (set : SetIndex)
    (w : Fin l2Ways) : Prop where
  mshr : s.mshr i = some m
  at_ : setOf m.addr = set ∧ m.fillWay = w
  goes : s.inState .installWb = some i ∨ (s.capture x).map Prod.fst = some i
  tag : (s.wayNext x set w).tag = tagOf m.addr

theorem install_some (install : s.install = some m) :
    ∃ i, s.inState .installWb = some i ∧ s.mshr i = some m ∧ m.state = .installWb := by
  obtain ⟨i, first, here⟩ := Option.bind_eq_some_iff.mp install
  obtain ⟨n, same, state⟩ := inState_some first
  obtain rfl := Option.some.inj (same.symm.trans here)
  exact ⟨i, first, here, state⟩

/-- How a way comes by its next contents. -/
theorem wayNext_cases (s : L2) (x : L2In) (set : SetIndex) (w : Fin l2Ways) :
    (∃ i m data, s.capture x = some (i, m, data) ∧ s.Fills x i m set w ∧
      s.wayNext x set w = ⟨true, m.wbMerge.isSome, tagOf m.addr, s.respDataMerged x m data⟩) ∨
    (∃ i m, s.inState .installWb = some i ∧ s.Fills x i m set w ∧
      s.wayNext x set w = ⟨true, true, tagOf m.addr, m.wbMerge.getD m.wbData⟩) ∨
    ((∀ i m, s.mshr i = some m → setOf m.addr = set → m.fillWay = w →
        s.inState .installWb ≠ some i ∧ (s.capture x).map Prod.fst ≠ some i) ∧
      ((∃ r data, s.fire x = some r ∧ r.wdata = some data ∧ setOf r.addr = set ∧
          s.hitWay r.addr = some w ∧
          s.wayNext x set w = { s.way set w with dirty := true, data := data }) ∨
        s.wayNext x set w = s.way set w ∧ ∀ r, s.fire x = some r → r.wdata.isSome = true →
          setOf r.addr = set → s.hitWay r.addr ≠ some w)) := by
  have here (m : Mshr) : (setOf m.addr == set && m.fillWay == w) = true ↔
      setOf m.addr = set ∧ m.fillWay = w := by simp
  cases filled : (s.capture x).filter fun c => setOf c.2.1.addr == set && c.2.1.fillWay == w with
  | some c =>
    obtain ⟨i, m, data⟩ := c
    obtain ⟨capture, at_⟩ := Option.filter_eq_some_iff.mp filled
    have way : s.wayNext x set w =
        ⟨true, m.wbMerge.isSome, tagOf m.addr, s.respDataMerged x m data⟩ := by
      unfold wayNext
      rw [filled]
    obtain ⟨-, -, -, mshr, -⟩ := capture_some capture
    refine .inl ⟨i, m, data, capture, ⟨mshr, (here m).mp at_, .inr (by simp [capture]), ?_⟩, way⟩
    rw [way]
  | none =>
    refine .inr ?_
    have notCaptured (i : Fin l2MshrDepth) (m : Mshr) (mshr : s.mshr i = some m)
        (at_ : setOf m.addr = set ∧ m.fillWay = w) : (s.capture x).map Prod.fst ≠ some i := by
      intro captured
      obtain ⟨⟨j, n, data⟩, capture, rfl⟩ := Option.map_eq_some_iff.mp captured
      obtain ⟨-, -, -, same, -⟩ := capture_some capture
      obtain rfl := Option.some.inj (same.symm.trans mshr)
      rw [capture, Option.filter_some, if_pos ((here n).mpr at_)] at filled
      cases filled
    cases installed : s.install.filter fun m => setOf m.addr == set && m.fillWay == w with
    | some m =>
      obtain ⟨install, at_⟩ := Option.filter_eq_some_iff.mp installed
      obtain ⟨i, first, mshr, -⟩ := install_some install
      have way : s.wayNext x set w = ⟨true, true, tagOf m.addr, m.wbMerge.getD m.wbData⟩ := by
        unfold wayNext
        rw [filled, installed]
      refine .inl ⟨i, m, first, ⟨mshr, (here m).mp at_, .inl first, ?_⟩, way⟩
      rw [way]
    | none =>
      refine .inr ⟨fun i m mshr sameSet sameWay =>
        ⟨fun first => ?_, notCaptured i m mshr ⟨sameSet, sameWay⟩⟩, ?_⟩
      · have install : s.install = some m := by simp [L2.install, first, mshr]
        rw [install, Option.filter_some, if_pos ((here m).mpr ⟨sameSet, sameWay⟩)] at installed
        cases installed
      · cases hit : (s.fire x).filter fun r =>
            setOf r.addr == set && s.hitWay r.addr == some w with
        | none =>
          have way : s.wayNext x set w = s.way set w := by
            unfold wayNext
            rw [filled, installed, hit]
          refine .inr ⟨way, fun r fire write sameSet sameWay => ?_⟩
          rw [fire, Option.filter_some, if_pos (by simp [sameSet, sameWay])] at hit
          cases hit
        | some r =>
          obtain ⟨fire, at_⟩ := Option.filter_eq_some_iff.mp hit
          obtain ⟨addr, wdata, source⟩ := r
          simp only [Bool.and_eq_true, beq_iff_eq] at at_
          cases wdata with
          | some data =>
            refine .inl ⟨_, data, fire, rfl, at_.1, at_.2, ?_⟩
            unfold wayNext
            rw [filled, installed, hit]
          | none =>
            have way : s.wayNext x set w = s.way set w := by
              unfold wayNext
              rw [filled, installed, hit]
            refine .inr ⟨way, fun r' fire' write _ _ => ?_⟩
            obtain rfl := Option.some.inj (fire.symm.trans fire')
            cases write

theorem held_unfilled (held : (s.next x).Held set w)
    (stay : ∀ i m, s.mshr i = some m → setOf m.addr = set → m.fillWay = w →
      s.inState .installWb ≠ some i ∧ (s.capture x).map Prod.fst ≠ some i)
    (valid : (s.wayNext x set w).valid = (s.way set w).valid) : s.Held set w := by
  refine ⟨valid ▸ held.valid, ?_⟩
  by_contra reserved
  obtain ⟨i, m, mshr, sameSet, sameWay⟩ := reserved_iff.mp (by simpa using reserved)
  obtain ⟨install, capture⟩ := stay i m mshr sameSet sameWay
  have later : (s.next x).reserved set w = true :=
    reserved_iff.mpr ⟨i, s.advance x i m, mshrNext_stays mshr install capture, sameSet, sameWay⟩
  cases held.free.symm.trans later

/-- A way that lookups find after a cycle was filled in it, or was found before. -/
theorem held_next (held : (s.next x).Held set w) :
    (∃ i m, s.Fills x i m set w) ∨
      s.Held set w ∧ ((s.next x).way set w).tag = (s.way set w).tag := by
  obtain ⟨i, m, data, -, fills, -⟩ | ⟨i, m, -, fills, -⟩ | ⟨stay, unfilled⟩ :=
    wayNext_cases s x set w
  · exact .inl ⟨i, m, fills⟩
  · exact .inl ⟨i, m, fills⟩
  · refine .inr ?_
    have same : (s.wayNext x set w).valid = (s.way set w).valid ∧
        (s.wayNext x set w).tag = (s.way set w).tag := by
      obtain ⟨r, data, -, -, -, -, way⟩ | ⟨way, -⟩ := unfilled
      · rw [way]
        exact ⟨rfl, rfl⟩
      · rw [way]
        exact ⟨rfl, rfl⟩
    exact ⟨held_unfilled held stay same.1, same.2⟩

end L2

namespace L2Run

/-- A line is in one place. -/
structure Lined (s : L2) : Prop where
  unique : ∀ set w w', s.Held set w → s.Held set w' → (s.way set w).tag = (s.way set w').tag → w = w'
  apart : ∀ i m w, s.mshr i = some m → s.Held (setOf m.addr) w →
    (s.way (setOf m.addr) w).tag ≠ tagOf m.addr
  ways : ∀ i j m n, s.mshr i = some m → s.mshr j = some n → setOf m.addr = setOf n.addr →
    m.fillWay = n.fillWay → i = j

variable {s : L2Run} {x : L2In} {set : SetIndex} {w : Fin l2Ways}

/-- MSHRs that fill the same line are one. -/
theorem fills_inj (tracked : Tracked s) (first : s.l2.Fills x i m set w)
    (second : s.l2.mshr j = some n) (line : lineOf m.addr = lineOf n.addr) : i = j :=
  tracked.lines i j m n first.mshr second line

theorem lined_next (tracked : Tracked s) (lined : Lined s.l2) : Lined (s.next x).l2 where
  unique set w w' held held' same := by
    obtain ⟨i, m, fills⟩ | ⟨old, tag⟩ := L2.held_next held
    · have tag : tagOf m.addr = ((s.next x).l2.way set w').tag := fills.tag.symm.trans same
      obtain ⟨sameSet, sameWay⟩ := fills.at_
      obtain ⟨j, n, fills'⟩ | ⟨old', tag'⟩ := L2.held_next held'
      · have line : lineOf m.addr = lineOf n.addr := by
          rw [lineOf_eq, lineOf_eq, sameSet, fills'.at_.1, tag]
          exact congrArg _ fills'.tag
        obtain rfl := fills_inj tracked fills fills'.mshr line
        obtain rfl := Option.some.inj (fills.mshr.symm.trans fills'.mshr)
        exact sameWay.symm.trans fills'.at_.2
      · subst sameSet
        exact absurd (tag'.symm.trans tag.symm) (lined.apart i m w' fills.mshr old')
    · obtain ⟨j, n, fills'⟩ | ⟨old', tag'⟩ := L2.held_next held'
      · obtain ⟨sameSet, sameWay⟩ := fills'.at_
        subst sameSet
        exact absurd (tag.symm.trans (same.trans fills'.tag)) (lined.apart j n w fills'.mshr old)
      · exact lined.unique set w w' old old' (tag.symm.trans (same.trans tag'))
  apart i m w here held := by
    intro same
    obtain ⟨m, old, rfl, install, capture⟩ | alloc := L2.mshrNext_some here
    · obtain ⟨j, n, fills⟩ | ⟨held, tag⟩ := L2.held_next held
      · have line : lineOf n.addr = lineOf m.addr := by
          rw [lineOf_eq, lineOf_eq, fills.at_.1, ← fills.tag]
          exact congrArg _ same
        obtain rfl := fills_inj tracked fills old line
        exact fills.goes.elim install capture
      · exact lined.apart i m w old held (tag.symm.trans same)
    · obtain ⟨j, n, fills⟩ | ⟨held, tag⟩ := L2.held_next held
      · refine L2.alloc_line alloc fills.mshr ?_
        rw [lineOf_eq, lineOf_eq, fills.at_.1, ← fills.tag]
        exact congrArg _ same
      · obtain ⟨r, -, -, miss, -, -, -, addr, -⟩ := L2.alloc_some alloc
        rw [addr] at held tag same
        exact L2.hitWay_none miss w held.valid held.free (tag.symm.trans same)
  ways i j m n here there sameSet sameWay := by
    have apart {k : Fin l2MshrDepth} {e : Mshr} {l : Fin l2MshrDepth} {o : Mshr}
        (alloc : s.l2.alloc x = some (k, e)) (old : s.l2.mshr l = some o)
        (set : setOf o.addr = setOf e.addr) (way : o.fillWay = e.fillWay) : False := by
      obtain ⟨r, w, -, -, -, -, victim, addr, -, -, fillWay, -⟩ := L2.alloc_some alloc
      have free := L2.victimWay_some victim
      rw [addr] at set
      have reserved := L2.reserved_iff.mpr ⟨l, o, old, set, way.trans fillWay⟩
      cases free.symm.trans reserved
    obtain ⟨m, old, rfl, -⟩ | alloc := L2.mshrNext_some here
    · obtain ⟨n, old', rfl, -⟩ | alloc' := L2.mshrNext_some there
      · exact lined.ways i j m n old old' sameSet sameWay
      · exact (apart alloc' old sameSet sameWay).elim
    · obtain ⟨n, old', rfl, -⟩ | alloc' := L2.mshrNext_some there
      · exact (apart alloc old' sameSet.symm sameWay.symm).elim
      · exact congrArg Prod.fst (Option.some.inj (alloc.symm.trans alloc'))

-- ---------------------------------------------------------------------
-- Clean lines
-- ---------------------------------------------------------------------

/-- No writeback of the line is in flight. -/
def Quiet (s : L2Run) (l : Line) : Prop :=
  ∀ i m, s.l2.mshr i = some m → m.state = .writeback → lineOf m.evictAddr ≠ l

/-- Memory holds the data, and will. -/
structure Backs (s : L2Run) (l : Line) (data : LineData) : Prop where
  mem : data = s.mem l
  quiet : s.Quiet l

/-- A line that comes from memory while a write of it is accepted has merged a write before. -/
def Marked (s : L2Run) (x : L2In) : Prop :=
  ∀ i m data, s.l2.capture x = some (i, m, data) → m.wbMerge = none → s.l2.wbMergeNow x m = none

/-- No write is accepted to a line of which a clean copy waits to be overwritten. -/
def Unshadowed (s : L2Run) (x : L2In) : Prop :=
  ∀ r, s.l2.fire x = some r → r.wdata.isSome = true → ∀ w,
    (s.l2.way (setOf r.addr) w).valid = true → s.l2.reserved (setOf r.addr) w = true →
      (s.l2.way (setOf r.addr) w).tag = tagOf r.addr → (s.l2.way (setOf r.addr) w).dirty = true

structure Careful (s : L2Run) (x : L2In) : Prop where
  roomy : s.Roomy x
  marked : s.Marked x
  unshadowed : s.Unshadowed x

/-- What a way holds is in memory too, and nothing newer is anywhere. -/
structure Stale (s : L2Run) (set : SetIndex) (w : Fin l2Ways) : Prop where
  backs : s.Backs (lineAt set (s.l2.way set w).tag) (s.l2.way set w).data
  copies : ∀ w', s.l2.Held set w' → (s.l2.way set w').tag = (s.l2.way set w).tag →
    (s.l2.way set w').dirty = false
  mshrs : ∀ i m, s.l2.mshr i = some m → lineOf m.addr = lineAt set (s.l2.way set w).tag →
    m.isWriteback = false ∧ m.wbMerge = none

structure Backed (s : L2Run) : Prop where
  clean : ∀ set w, s.l2.Held set w → (s.l2.way set w).dirty = false →
    s.Backs (lineAt set (s.l2.way set w).tag) (s.l2.way set w).data
  out : ∀ o ∈ s.out, s.Backs o.1 o.2

/-- What waits to be overwritten is still right. -/
def Shadowed (s : L2Run) : Prop :=
  ∀ set w, (s.l2.way set w).valid = true → s.l2.reserved set w = true →
    (s.l2.way set w).dirty = false → s.Stale set w

/-- The victim of a new writeback is a dirty line that lookups find. -/
theorem alloc_evict (alloc : s.l2.alloc x = some (k, m)) (evicts : m.state = .writeback) :
    ∃ w, s.l2.Held (setOf m.addr) w ∧ (s.l2.way (setOf m.addr) w).dirty = true ∧
      lineOf m.evictAddr = lineAt (setOf m.addr) (s.l2.way (setOf m.addr) w).tag ∧
      m.fillWay = w := by
  obtain ⟨r, w, -, -, -, -, victim, addr, -, -, fillWay, -, -, -, evictAddr, -, state⟩ :=
    L2.alloc_some alloc
  rw [state] at evicts
  have dirty : s.l2.needEvict (setOf r.addr) w = true := by
    by_contra clean
    rw [if_neg clean] at evicts
    split at evicts <;> cases evicts
  unfold L2.needEvict at dirty
  obtain ⟨valid, dirty⟩ := Bool.and_eq_true_iff.mp dirty
  rw [addr, evictAddr]
  exact ⟨w, ⟨valid, L2.victimWay_some victim⟩, dirty, lineOf_evict _ _, fillWay⟩

theorem mem_quiet (quiet : s.Quiet l) : (s.next x).mem l = s.mem l := by
  change (s.memWrite x).elim s.mem (fun w => fun l => if l = w.1 then w.2 else s.mem l) l = s.mem l
  cases write : s.memWrite x with
  | none => rfl
  | some w =>
    obtain ⟨m, issue, rfl⟩ := Option.map_eq_some_iff.mp write
    obtain ⟨i, issue, here⟩ := Option.bind_eq_some_iff.mp issue
    obtain ⟨n, same, writeback⟩ := L2.wbIssue_some issue
    obtain rfl := Option.some.inj (same.symm.trans here)
    exact if_neg (Ne.symm (quiet i n here writeback))

theorem backs_next (backs : s.Backs l data)
    (kept : ∀ k m, s.l2.alloc x = some (k, m) → m.state = .writeback → lineOf m.evictAddr ≠ l) :
    (s.next x).Backs l data where
  mem := by rw [mem_quiet backs.quiet, backs.mem]
  quiet i m here writeback := by
    obtain ⟨m, old, rfl, -⟩ | alloc := L2.mshrNext_some here
    · refine backs.quiet i m old ?_
      unfold L2.advance at writeback
      dsimp only at writeback
      split_ifs at writeback
      exact writeback
    · exact kept i m alloc writeback

/-- A line that an MSHR is for is no victim. -/
theorem not_victim (lined : Lined s.l2) (here : s.l2.mshr i = some n)
    (alloc : s.l2.alloc x = some (k, m)) (evicts : m.state = .writeback) :
    lineOf m.evictAddr ≠ lineOf n.addr := by
  obtain ⟨w, held, -, line, -⟩ := alloc_evict alloc evicts
  rw [line, lineOf_eq]
  intro same
  obtain ⟨sameSet, sameTag⟩ := lineAt_inj same
  rw [sameSet] at held sameTag
  exact lined.apart i n w here held sameTag

theorem out_next (tracked : Tracked s) (lined : Lined s.l2) (backed : Backed s) :
    ∀ o ∈ (s.next x).out, (s.next x).Backs o.1 o.2 := by
  intro o mem
  obtain old | new := List.mem_append.mp mem
  · have old : o ∈ s.out := by
      split at old
      · exact List.mem_of_mem_tail old
      · exact old
    refine backs_next (backed.out o old) fun k m alloc evicts => ?_
    obtain ⟨i, -, n, here, -, line⟩ := forall₂_mem tracked.reads.flip old
    rw [← line]
    exact not_victim lined here alloc evicts
  · obtain ⟨m, issue, rfl⟩ := Option.map_eq_some_iff.mp (Option.mem_toList.mp new)
    obtain ⟨i, issue, here⟩ := Option.bind_eq_some_iff.mp issue
    refine backs_next ⟨rfl, fun j n there writeback => ?_⟩ fun k n alloc evicts =>
      not_victim lined here alloc evicts
    unfold L2.rdIssue at issue
    split_ifs at issue with idle
    simp only [Bool.and_eq_true, Option.isNone_iff_eq_none] at idle
    have none_ := firstOf_none.mp idle.2 j
    simp [there, writeback] at none_

theorem fills_line (fills : s.l2.Fills x i m set w) : lineOf m.addr = lineAt set (tagOf m.addr) := by
  rw [lineOf_eq, fills.at_.1]

/-- A new MSHR reserves its way. -/
theorem alloc_reserves (alloc : s.l2.alloc x = some (k, m)) :
    (s.next x).l2.reserved (setOf m.addr) m.fillWay = true :=
  L2.reserved_iff.mpr ⟨k, m, L2.mshrNext_alloc alloc, rfl, rfl⟩

theorem clean_next (tracked : Tracked s) (lined : Lined s.l2) (backed : Backed s)
    (keeps : s.Keeps x) (roomy : s.Roomy x) (marked : s.Marked x)
    (held : (s.next x).l2.Held set w)
    (clean : ((s.next x).l2.way set w).dirty = false) :
    (s.next x).Backs (lineAt set ((s.next x).l2.way set w).tag) ((s.next x).l2.way set w).data := by
  change (s.l2.wayNext x set w).dirty = false at clean
  change (s.next x).Backs (lineAt set (s.l2.wayNext x set w).tag) (s.l2.wayNext x set w).data
  obtain ⟨i, m, data, capture, fills, way⟩ | ⟨i, m, -, -, way⟩ | ⟨stay, unfilled⟩ :=
    L2.wayNext_cases s.l2 x set w
  · rw [way] at clean ⊢
    have merge : m.wbMerge = none := by simpa using clean
    have plain : s.l2.respDataMerged x m data = data := by
      simp [L2.respDataMerged, marked i m data capture merge, merge]
    obtain ⟨resp, -⟩ := L2.capture_some capture
    obtain ⟨j, n, same, head⟩ := capture_of_resp tracked keeps roomy resp
    obtain ⟨rfl, rfl⟩ : j = i ∧ n = m := by
      simpa using Option.some.inj (same.symm.trans capture)
    have backs := backed.out _ (List.mem_of_head? head)
    dsimp only
    rw [plain, ← fills_line fills]
    exact backs_next backs fun k e alloc evicts => not_victim lined fills.mshr alloc evicts
  · rw [way] at clean
    cases clean
  · obtain ⟨r, data, -, -, -, -, way⟩ | ⟨way, -⟩ := unfilled
    · rw [way] at clean
      cases clean
    · have old : s.l2.Held set w := L2.held_unfilled held stay (by rw [way])
      rw [way] at clean ⊢
      refine backs_next (backed.clean set w old clean) fun k m alloc evicts same => ?_
      obtain ⟨w', victim, -, line, fillWay⟩ := alloc_evict alloc evicts
      obtain ⟨sameSet, sameTag⟩ := lineAt_inj (line.symm.trans same)
      have reserves := alloc_reserves alloc
      rw [sameSet] at victim sameTag reserves
      rw [fillWay, lined.unique set w' w victim old sameTag] at reserves
      cases held.free.symm.trans reserves

/-- A way that is filled is no longer reserved. -/
theorem fills_free (lined : Lined s.l2) (fills : s.l2.Fills x i m set w) :
    (s.next x).l2.reserved set w = false := by
  by_contra reserved
  obtain ⟨j, n, here, sameSet, sameWay⟩ := L2.reserved_iff.mp (by simpa using reserved)
  obtain ⟨n, old, rfl, install, capture⟩ | alloc := L2.mshrNext_some here
  · obtain rfl := lined.ways i j m n fills.mshr old (fills.at_.1.trans sameSet.symm)
      (fills.at_.2.trans sameWay.symm)
    exact fills.goes.elim install capture
  · obtain ⟨r, w', -, -, -, -, victim, addr, -, -, fillWay, -⟩ := L2.alloc_some alloc
    have free := L2.victimWay_some victim
    rw [← addr, sameSet, ← fillWay, sameWay] at free
    have taken := L2.reserved_iff.mpr ⟨i, m, fills.mshr, fills.at_.1, fills.at_.2⟩
    cases free.symm.trans taken

/-- Without a write to the line, what was stale stays so. -/
theorem stale_stays (tracked : Tracked s) (stale : s.Stale set w)
    (readOnly : ∀ r, s.l2.fire x = some r → lineOf r.addr = lineAt set (s.l2.way set w).tag →
      r.wdata = none)
    (way : (s.next x).l2.way set w = s.l2.way set w) : (s.next x).Stale set w := by
  constructor
  case backs =>
    rw [way]
    refine backs_next stale.backs fun k m alloc evicts same => ?_
    obtain ⟨w', victim, dirty, line, -⟩ := alloc_evict alloc evicts
    obtain ⟨sameSet, sameTag⟩ := lineAt_inj (line.symm.trans same)
    rw [sameSet] at victim dirty sameTag
    cases dirty.symm.trans (stale.copies w' victim sameTag)
  case copies =>
    intro w' held same
    rw [way] at same
    change (s.l2.wayNext x set w').tag = _ at same
    change (s.l2.wayNext x set w').dirty = false
    obtain ⟨i, m, data, -, fills, way'⟩ | ⟨i, m, first, fills, way'⟩ | ⟨stay, unfilled⟩ :=
      L2.wayNext_cases s.l2 x set w'
    · rw [way'] at same ⊢
      have merge := (stale.mshrs i m fills.mshr (by rw [fills_line fills, ← same])).2
      simp [merge]
    · rw [way'] at same
      have reads := (stale.mshrs i m fills.mshr (by rw [fills_line fills, ← same])).1
      obtain ⟨n, here, state⟩ := L2.inState_some first
      obtain rfl := Option.some.inj (here.symm.trans fills.mshr)
      cases reads.symm.trans (tracked.installs i n here state)
    · obtain ⟨r, data, fire, write, sameSet, hit, way'⟩ | ⟨way', -⟩ := unfilled
      · rw [way'] at same
        obtain ⟨-, -, tag⟩ := hitWay_some hit
        rw [sameSet] at tag
        have reads := readOnly r fire (by rw [lineOf_eq, sameSet, ← tag, ← same])
        cases reads.symm.trans write
      · rw [way'] at same ⊢
        exact stale.copies w' (L2.held_unfilled held stay (by rw [way'])) same
  case mshrs =>
    intro i m here line
    rw [way] at line
    obtain ⟨m, old, rfl, -⟩ | alloc := L2.mshrNext_some here
    · obtain ⟨reads, merge⟩ := stale.mshrs i m old line
      refine ⟨reads, ?_⟩
      have none_ : s.l2.wbMergeNow x m = none := by
        unfold L2.wbMergeNow
        cases fire : s.l2.fire x with
        | none => rfl
        | some r =>
          rw [Option.bind_some]
          split
          next same => exact readOnly r fire (same.trans line)
          next => rfl
      simp [L2.advance, none_, merge]
    · obtain ⟨r, -, fire, -, -, -, -, addr, -, isWriteback, -, merge, -⟩ := L2.alloc_some alloc
      refine ⟨?_, merge⟩
      rw [isWriteback, readOnly r fire (addr ▸ line)]
      rfl

theorem stale_next (tracked : Tracked s) (lined : Lined s.l2) (backed : Backed s)
    (shadowed : Shadowed s) (unshadowed : s.Unshadowed x) (valid : ((s.next x).l2.way set w).valid = true)
    (reserved : (s.next x).l2.reserved set w = true)
    (clean : ((s.next x).l2.way set w).dirty = false) : (s.next x).Stale set w := by
  obtain ⟨i, m, data, -, fills, -⟩ | ⟨i, m, -, fills, -⟩ | ⟨stay, unfilled⟩ :=
    L2.wayNext_cases s.l2 x set w
  · cases reserved.symm.trans (fills_free lined fills)
  · cases reserved.symm.trans (fills_free lined fills)
  · obtain ⟨r, data, -, -, -, -, way⟩ | ⟨way, -⟩ := unfilled
    · change (s.l2.wayNext x set w).dirty = false at clean
      rw [way] at clean
      cases clean
    · change (s.l2.wayNext x set w).dirty = false at clean
      change (s.l2.wayNext x set w).valid = true at valid
      rw [way] at clean valid
      cases before : s.l2.reserved set w with
      | true =>
        refine stale_stays tracked (shadowed set w valid before clean) (fun r fire line => ?_) way
        by_contra write
        obtain ⟨sameSet, sameTag⟩ := lineAt_inj ((lineOf_eq r.addr).symm.trans line)
        have dirty := unshadowed r fire (Option.isSome_iff_ne_none.mpr write) w
        rw [sameSet] at dirty
        cases clean.symm.trans (dirty valid before sameTag.symm)
      | false =>
        -- the line was found up to now, and its way has just been taken for another
        have held : s.l2.Held set w := ⟨valid, before⟩
        obtain ⟨k, m, here, sameSet, sameWay⟩ := L2.reserved_iff.mp reserved
        obtain ⟨m, old, rfl, -⟩ | alloc := L2.mshrNext_some here
        · cases before.symm.trans (L2.reserved_iff.mpr ⟨k, m, old, sameSet, sameWay⟩)
        · refine stale_stays tracked ⟨backed.clean set w held clean, fun w' held' same => ?_,
            fun i n there line => ?_⟩ (fun r fire line => ?_) way
          · rw [lined.unique set w' w held' held same, clean]
          · obtain ⟨sameSet', sameTag⟩ := lineAt_inj ((lineOf_eq n.addr).symm.trans line)
            rw [← sameSet'] at held sameTag
            exact absurd sameTag.symm (lined.apart i n w there held)
          · obtain ⟨r', -, fire', miss, -⟩ := L2.alloc_some alloc
            obtain rfl := Option.some.inj (fire'.symm.trans fire)
            obtain ⟨sameSet', sameTag⟩ := lineAt_inj ((lineOf_eq r'.addr).symm.trans line)
            rw [← sameSet'] at held sameTag
            exact absurd sameTag.symm (L2.hitWay_none miss w held.valid held.free)

theorem backed_next (tracked : Tracked s) (lined : Lined s.l2) (backed : Backed s)
    (keeps : s.Keeps x) (roomy : s.Roomy x) (marked : s.Marked x) : Backed (s.next x) where
  clean _ _ := clean_next tracked lined backed keeps roomy marked
  out := out_next tracked lined backed

theorem lined_reset {mem : Line → LineData} : Lined (l2Runs mem).reset.l2 where
  unique _ _ _ held := nomatch held.valid
  apart _ _ _ here := nomatch here
  ways _ _ _ _ here := nomatch here

theorem backed_reset {mem : Line → LineData} : Backed (l2Runs mem).reset where
  clean _ _ held := nomatch held.valid
  out _ mem := nomatch mem

theorem shadowed_of_reach {mem : Line → LineData} (reach : (l2Runs mem).Reach Careful s) :
    Tracked s ∧ Lined s.l2 ∧ Backed s ∧ Shadowed s := by
  refine reach.invariant (fun s => Tracked s ∧ Lined s.l2 ∧ Backed s ∧ Shadowed s)
    ⟨tracked_of_reach .reset, lined_reset, backed_reset, fun _ _ valid => nomatch valid⟩ ?_
  intro s x _ ⟨tracked, lined, backed, shadowed⟩ keeps careful
  exact ⟨tracked_next tracked keeps careful.roomy, lined_next tracked lined,
    backed_next tracked lined backed keeps careful.roomy careful.marked,
    fun _ _ => stale_next tracked lined backed shadowed careful.unshadowed⟩

/-- While no write slips past the dirty bit, what is valid and clean is in memory, and no writeback
of it is in flight. -/
theorem clean_lines_backed {mem : Line → LineData} (reach : (l2Runs mem).Reach Careful s) :
    ∀ set w, (s.l2.way set w).valid = true → (s.l2.way set w).dirty = false →
      s.Backs (lineAt set (s.l2.way set w).tag) (s.l2.way set w).data := by
  intro set w valid clean
  obtain ⟨-, -, backed, shadowed⟩ := shadowed_of_reach reach
  cases reserved : s.l2.reserved set w with
  | false => exact backed.clean set w ⟨valid, reserved⟩ clean
  | true => exact (shadowed set w valid reserved clean).backs

end L2Run

-- ---------------------------------------------------------------------
-- A write as its line arrives
-- ---------------------------------------------------------------------

open L2Run

theorem wbMergeNow_read {s : L2} {x : L2In} (reads : ∀ r, L2.arb x = some r → r.wdata = none)
    (m : Mshr) : s.wbMergeNow x m = none := by
  unfold L2.wbMergeNow
  cases accepted : s.fire x with
  | none => rfl
  | some r =>
    rw [Option.bind_some]
    split
    next => exact reads r (Option.filter_eq_some_iff.mp accepted).1
    next => rfl

theorem careful_read {s : L2Run} {x : L2In} (roomy : s.Roomy x)
    (reads : ∀ r, L2.arb x = some r → r.wdata = none) : s.Careful x where
  roomy := roomy
  marked i m data _ _ := wbMergeNow_read reads m
  unshadowed r fire write := by
    rw [reads r (Option.filter_eq_some_iff.mp fire).1] at write
    cases write

theorem missed_careful : zeroRuns.Reach Careful missed := by
  refine .cycle (.cycle .reset ?_ ?_) ?_ ?_
  · intro data resp
    cases resp
  · exact careful_read (fun resp => by cases resp) (by simp [L2.arb, readIn, idleIn])
  · intro data resp
    cases resp
  · exact careful_read (fun resp => by cases resp) (by simp [L2.arb, idleIn])

/-- The line of a read that missed is clean and in memory. -/
theorem clean_lines_backed_miss : (missed.next answerIn).Backs
    (lineAt 1 ((missed.next answerIn).l2.way 1 0).tag) ((missed.next answerIn).l2.way 1 0).data := by
  refine clean_lines_backed (missed_careful.cycle (keeps_answer (l := 1) ?_)
    (careful_read (fun _ => ?_) ?_)) 1 0 ?_ ?_
  · decide +kernel
  · decide +kernel
  · simp [L2.arb, answerIn, idleIn]
  · decide +kernel
  · decide +kernel

/-- A write meets the answer of memory, and its line is clean. -/
theorem write_left_clean : ∃ s, zeroRuns.Reachable s ∧ (s.l2.way 1 0).valid = true ∧
    (s.l2.way 1 0).dirty = false ∧ lineAt 1 (s.l2.way 1 0).tag = 1 ∧ (s.l2.way 1 0).data = 7 ∧
      s.mem 1 = 0 := by
  refine ⟨missed.next { writeIn 0x40 7 with memResp := some 0 }, ?_, ?_, ?_, ?_, ?_, ?_⟩
  · refine missed_careful.reachable.cycle fun data resp => ?_
    obtain rfl := Option.some.inj resp
    exact ⟨1, by decide +kernel⟩
  · decide +kernel
  · decide +kernel
  · decide +kernel
  · decide +kernel
  · decide +kernel

end Rv64gc.Cache
