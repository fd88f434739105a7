import Rv64gc.Cache.L2Lines

/-!
# The L2 as flat memory

Behind its requesters the L2 and memory are one array of lines, which the accepted writes change in
the order of their acceptance. A line is read from its way, its MSHR, a writeback in flight or
memory, whichever is newest.
-/

namespace Rv64gc.Cache

open Hdl

/-- An accepted request on the array of lines. -/
def Arb.write (r : Arb) (v : Line → LineData) : Line → LineData :=
  fun l => if lineOf r.addr = l then r.wdata.getD (v l) else v l

/-- The array after the requests. -/
def flat (mem : Line → LineData) (asked : List Arb) : Line → LineData :=
  asked.foldl (fun v r => r.write v) mem

namespace L2Run

variable (s : L2Run) (x : L2In)

/-- The writeback of the line that is in flight. -/
def evicted (l : Line) : Option Mshr :=
  (firstOf fun i => (s.l2.mshr i).any fun m =>
    m.state == .writeback && lineOf m.evictAddr == l).bind s.l2.mshr

/-- Memory, when the writebacks in flight have been performed. -/
def settled (l : Line) : LineData := (s.evicted l).elim (s.mem l) fun m => m.evictData

def tracking (l : Line) : Option Mshr :=
  (firstOf fun i => (s.l2.mshr i).any fun m => lineOf m.addr == l).bind s.l2.mshr

/-- What the L2 and memory hold for an address. -/
def current (a : Addr) : LineData :=
  match s.l2.hitWay a with
  | some w => (s.l2.way (setOf a) w).data
  | none => match s.tracking (lineOf a) with
    | some m => m.wbMerge.getD (if m.isWriteback then m.wbData else s.settled (lineOf a))
    | none => s.settled (lineOf a)

/-- No dirty line is evicted while an earlier writeback of it is in flight. -/
def Ordered : Prop :=
  ∀ k m, s.l2.alloc x = some (k, m) → m.state = .writeback → s.Quiet (lineOf m.evictAddr)

/-- No write merges into a writeback that is installed in the same cycle. -/
def Settled : Prop := ∀ m, s.l2.install = some m → s.l2.wbMergeNow x m = none

structure Flows : Prop where
  roomy : s.Roomy x
  marked : s.Marked x
  ordered : s.Ordered x
  settled : s.Settled x

/-- The line is in neither a way nor a write that waits in an MSHR. -/
structure Below (l : Line) : Prop where
  ways : ∀ set w, s.l2.Held set w → lineAt set (s.l2.way set w).tag ≠ l
  mshrs : ∀ i m, s.l2.mshr i = some m → lineOf m.addr = l → m.isWriteback = false ∧ m.wbMerge = none

/-- `v` is what the L2 and memory hold. -/
structure Holds (v : Line → LineData) : Prop where
  held : ∀ set w, s.l2.Held set w →
    (s.l2.way set w).data = v (lineAt set (s.l2.way set w).tag)
  merged : ∀ i m data, s.l2.mshr i = some m → m.wbMerge = some data → data = v (lineOf m.addr)
  written : ∀ i m, s.l2.mshr i = some m → m.isWriteback = true → m.wbMerge = none →
    m.wbData = v (lineOf m.addr)
  evicted : ∀ l, s.Below l → ∀ i m, s.l2.mshr i = some m → m.state = .writeback →
    lineOf m.evictAddr = l → m.evictData = v l
  mem : ∀ l, s.Below l → s.Quiet l → s.mem l = v l

variable {s x} {v : Line → LineData} {set : SetIndex} {w : Fin l2Ways}

/-- The array after a cycle. -/
def written (s : L2Run) (x : L2In) (v : Line → LineData) : Line → LineData :=
  (s.l2.fire x).elim v fun r => r.write v

/-- What merges into an MSHR is the new value of its line, and nothing else is. -/
theorem written_merge (s : L2Run) (x : L2In) (v : Line → LineData) (m : Mshr) :
    s.written x v (lineOf m.addr) = (s.l2.wbMergeNow x m).getD (v (lineOf m.addr)) := by
  unfold written L2.wbMergeNow
  cases s.l2.fire x with
  | none => rfl
  | some r =>
    simp only [Option.elim_some, Option.bind_some, Arb.write]
    split <;> rfl

theorem written_other (other : ∀ r, s.l2.fire x = some r → r.wdata.isSome = true →
    lineOf r.addr ≠ l) : s.written x v l = v l := by
  unfold written
  cases fire : s.l2.fire x with
  | none => rfl
  | some r =>
    simp only [Option.elim_some, Arb.write]
    split
    next here =>
      cases write : r.wdata with
      | none => rfl
      | some data => exact absurd here (other r fire (by simp [write]))
    next => rfl

/-- A line that an MSHR fetches is below. -/
theorem below_fetch (tracked : Tracked s) (lined : Lined s.l2) (here : s.l2.mshr i = some m)
    (reads : m.isWriteback = false) (merge : m.wbMerge = none) : s.Below (lineOf m.addr) where
  ways set w held same := by
    obtain ⟨rfl, tag⟩ := lineAt_inj (same.trans (lineOf_eq m.addr))
    exact lined.apart i m w here held tag
  mshrs j n there line := by
    obtain rfl := tracked.lines j i n m there here line
    obtain rfl := Option.some.inj (there.symm.trans here)
    exact ⟨reads, merge⟩

/-- What is filled is the newest value of the line. -/
theorem fill_flat (tracked : Tracked s) (lined : Lined s.l2) (backed : Backed s)
    (keeps : s.Keeps x) (flows : s.Flows x) (holds : s.Holds v)
    (capture : s.l2.capture x = some (i, m, data)) :
    s.l2.respDataMerged x m data = s.written x v (lineOf m.addr) := by
  obtain ⟨resp, -, -, here, waits⟩ := L2.capture_some capture
  rw [written_merge]
  unfold L2.respDataMerged
  cases now : s.l2.wbMergeNow x m with
  | some new => rfl
  | none =>
    cases merge : m.wbMerge with
    | some old => exact holds.merged i m old here merge
    | none =>
      obtain ⟨j, n, same, head⟩ := capture_of_resp tracked keeps flows.roomy resp
      obtain ⟨rfl, rfl⟩ : j = i ∧ n = m := by
        simpa using Option.some.inj (same.symm.trans capture)
      have backs := backed.out _ (List.mem_of_head? head)
      have below := below_fetch tracked lined here (tracked.fetches j n here (.inr waits)) merge
      exact backs.mem.trans (holds.mem _ below backs.quiet)

theorem held_flat (tracked : Tracked s) (lined : Lined s.l2) (backed : Backed s)
    (keeps : s.Keeps x) (flows : s.Flows x) (holds : s.Holds v) (held : (s.next x).l2.Held set w) :
    ((s.next x).l2.way set w).data =
      s.written x v (lineAt set ((s.next x).l2.way set w).tag) := by
  change (s.l2.wayNext x set w).data = s.written x v (lineAt set (s.l2.wayNext x set w).tag)
  obtain ⟨i, m, data, capture, fills, way⟩ | ⟨i, m, first, fills, way⟩ | ⟨stay, unfilled⟩ :=
    L2.wayNext_cases s.l2 x set w
  · rw [way]
    dsimp only
    rw [← fills_line fills]
    exact fill_flat tracked lined backed keeps flows holds capture
  · rw [way]
    dsimp only
    have install : s.l2.install = some m := by simp [L2.install, first, fills.mshr]
    rw [← fills_line fills, written_merge, flows.settled m install]
    obtain ⟨n, here, state⟩ := L2.inState_some first
    obtain rfl := Option.some.inj (here.symm.trans fills.mshr)
    cases merge : n.wbMerge with
    | some data => exact holds.merged i n data here merge
    | none => exact holds.written i n here (tracked.installs i n here state) merge
  · obtain ⟨r, data, fire, write, sameSet, hit, way⟩ | ⟨way, other⟩ := unfilled
    · rw [way]
      obtain ⟨-, -, tag⟩ := hitWay_some hit
      have line : lineOf r.addr = lineAt set (s.l2.way set w).tag := by
        rw [lineOf_eq, ← tag, sameSet]
      unfold written Arb.write
      simp [fire, line, write]
    · rw [way]
      have old : s.l2.Held set w := L2.held_unfilled held stay (by rw [way])
      rw [holds.held set w old, written_other fun r fire write line => ?_]
      obtain ⟨sameSet, sameTag⟩ := lineAt_inj ((lineOf_eq r.addr).symm.trans line)
      subst sameSet
      cases hit : s.l2.hitWay r.addr with
      | none => exact L2.hitWay_none hit w old.valid old.free sameTag.symm
      | some w' =>
        obtain ⟨valid, free, tag⟩ := hitWay_some hit
        obtain rfl := lined.unique _ w' w ⟨valid, free⟩ old (tag.trans sameTag)
        exact other r fire write rfl hit

theorem merged_next (holds : s.Holds v) (here : (s.next x).l2.mshr i = some m)
    (merge : m.wbMerge = some data) : data = s.written x v (lineOf m.addr) := by
  obtain ⟨m, old, rfl, -⟩ | alloc := L2.mshrNext_some here
  · change (s.l2.wbMergeNow x m).or m.wbMerge = some data at merge
    change data = s.written x v (lineOf m.addr)
    rw [written_merge]
    cases now : s.l2.wbMergeNow x m with
    | some new =>
      rw [now] at merge
      exact (Option.some.inj merge).symm
    | none =>
      rw [now, Option.none_or] at merge
      exact holds.merged i m data old merge
  · obtain ⟨-, -, -, -, -, -, -, -, -, -, -, none_, -⟩ := L2.alloc_some alloc
    cases none_.symm.trans merge

theorem written_next (holds : s.Holds v) (here : (s.next x).l2.mshr i = some m)
    (writes : m.isWriteback = true) (merge : m.wbMerge = none) :
    m.wbData = s.written x v (lineOf m.addr) := by
  obtain ⟨m, old, rfl, -⟩ | alloc := L2.mshrNext_some here
  · change (s.l2.wbMergeNow x m).or m.wbMerge = none at merge
    obtain ⟨now, before⟩ := Option.or_eq_none_iff.mp merge
    change m.wbData = s.written x v (lineOf m.addr)
    rw [written_merge, now]
    exact holds.written i m old writes before
  · obtain ⟨r, -, fire, -, -, -, -, addr, -, isWriteback, -, -, -, wbData, -⟩ := L2.alloc_some alloc
    rw [isWriteback] at writes
    obtain ⟨data, write⟩ := Option.isSome_iff_exists.mp writes
    unfold written Arb.write
    simp [fire, addr, wbData, write]

/-- What an MSHR was for is found when it goes. -/
theorem held_of_goes (lined : Lined s.l2) (here : s.l2.mshr i = some m)
    (goes : s.l2.inState .installWb = some i ∨ (s.l2.capture x).map Prod.fst = some i) :
    (s.next x).l2.Held (setOf m.addr) m.fillWay ∧
      ((s.next x).l2.way (setOf m.addr) m.fillWay).tag = tagOf m.addr := by
  have filled {j : Fin l2MshrDepth} {n : Mshr}
      (fills : s.l2.Fills x j n (setOf m.addr) m.fillWay)
      (valid : (s.l2.wayNext x (setOf m.addr) m.fillWay).valid = true) :
      (s.next x).l2.Held (setOf m.addr) m.fillWay ∧
        ((s.next x).l2.way (setOf m.addr) m.fillWay).tag = tagOf m.addr := by
    obtain rfl := lined.ways j i n m fills.mshr here fills.at_.1 fills.at_.2
    obtain rfl := Option.some.inj (fills.mshr.symm.trans here)
    exact ⟨⟨valid, fills_free lined fills⟩, fills.tag⟩
  obtain ⟨j, n, data, -, fills, way⟩ | ⟨j, n, -, fills, way⟩ | ⟨stay, -⟩ :=
    L2.wayNext_cases s.l2 x (setOf m.addr) m.fillWay
  · exact filled fills (by rw [way])
  · exact filled fills (by rw [way])
  · obtain ⟨install, capture⟩ := stay i m here rfl rfl
    exact (goes.elim install capture).elim

/-- A line that is found stays so, unless its way is taken. -/
theorem held_stays (held : s.l2.Held set w)
    (kept : ∀ k m, s.l2.alloc x = some (k, m) → ¬(setOf m.addr = set ∧ m.fillWay = w)) :
    (s.next x).l2.Held set w ∧ ((s.next x).l2.way set w).tag = (s.l2.way set w).tag := by
  have taken {i : Fin l2MshrDepth} {m : Mshr} (here : s.l2.mshr i = some m)
      (at_ : setOf m.addr = set ∧ m.fillWay = w) : False := by
    cases held.free.symm.trans (L2.reserved_iff.mpr ⟨i, m, here, at_⟩)
  have same : (s.l2.wayNext x set w).valid = (s.l2.way set w).valid ∧
      (s.l2.wayNext x set w).tag = (s.l2.way set w).tag := by
    obtain ⟨i, m, data, -, fills, -⟩ | ⟨i, m, -, fills, -⟩ | ⟨-, unfilled⟩ :=
      L2.wayNext_cases s.l2 x set w
    · exact (taken fills.mshr fills.at_).elim
    · exact (taken fills.mshr fills.at_).elim
    · obtain ⟨r, data, -, -, -, -, way⟩ | ⟨way, -⟩ := unfilled
      · rw [way]
        exact ⟨rfl, rfl⟩
      · rw [way]
        exact ⟨rfl, rfl⟩
  refine ⟨⟨same.1.trans held.valid, ?_⟩, same.2⟩
  by_contra reserved
  obtain ⟨i, m, here, at_⟩ := L2.reserved_iff.mp (by simpa using reserved)
  obtain ⟨m, old, rfl, -⟩ | alloc := L2.mshrNext_some here
  · exact taken old at_
  · exact kept i m alloc at_

/-- A line that is below after a cycle was not written in it. -/
theorem below_unwritten (lined : Lined s.l2) (below : (s.next x).Below l) :
    s.written x v l = v l := by
  refine written_other fun r fire write line => ?_
  cases hit : s.l2.hitWay r.addr with
  | some w =>
    obtain ⟨valid, free, tag⟩ := hitWay_some hit
    obtain ⟨held, same⟩ := held_stays (x := x) ⟨valid, free⟩ fun k m alloc _ => by
      obtain ⟨r', -, fire', miss, -⟩ := L2.alloc_some alloc
      obtain rfl := Option.some.inj (fire'.symm.trans fire)
      cases miss.symm.trans hit
    exact below.ways _ _ held (by rw [same, tag, ← lineOf_eq, line])
  | none =>
    cases known : s.l2.mshrAddrMatch r.addr with
    | true =>
      obtain ⟨i, m, here, same⟩ := L2.mshrAddrMatch_true known
      have same : lineOf m.addr = l := same.trans line
      by_cases goes : s.l2.inState .installWb = some i ∨ (s.l2.capture x).map Prod.fst = some i
      · obtain ⟨held, tag⟩ := held_of_goes lined here goes
        exact below.ways _ _ held (by rw [tag, ← lineOf_eq, same])
      · obtain ⟨install, capture⟩ := not_or.mp goes
        have merge := (below.mshrs i _ (L2.mshrNext_stays here install capture) same).2
        obtain ⟨data, data_⟩ := Option.isSome_iff_exists.mp write
        simp [L2.advance, L2.wbMergeNow, fire, line, same, data_] at merge
    | false =>
      obtain ⟨⟨k, m⟩, alloc⟩ := L2.alloc_of_miss fire hit known
      obtain ⟨r', -, fire', -, -, -, -, addr, -, isWriteback, -⟩ := L2.alloc_some alloc
      obtain rfl := Option.some.inj (fire'.symm.trans fire)
      have reads := (below.mshrs k m (L2.mshrNext_alloc alloc) (by rw [addr, line])).1
      rw [isWriteback, write] at reads
      cases reads

theorem below_before (lined : Lined s.l2) (below : (s.next x).Below l)
    (ways : ∀ set w, s.l2.Held set w → lineAt set (s.l2.way set w).tag ≠ l) : s.Below l where
  ways := ways
  mshrs i m here line := by
    by_cases goes : s.l2.inState .installWb = some i ∨ (s.l2.capture x).map Prod.fst = some i
    · obtain ⟨held, tag⟩ := held_of_goes lined here goes
      exact absurd (by rw [tag, ← lineOf_eq, line]) (below.ways _ _ held)
    · obtain ⟨install, capture⟩ := not_or.mp goes
      obtain ⟨reads, merge⟩ := below.mshrs i _ (L2.mshrNext_stays here install capture) line
      exact ⟨reads, (Option.or_eq_none_iff.mp merge).2⟩

/-- What a new MSHR takes along of its victim. -/
theorem alloc_victim (alloc : s.l2.alloc x = some (k, m)) :
    m.evictData = (s.l2.way (setOf m.addr) m.fillWay).data ∧
      lineOf m.evictAddr = lineAt (setOf m.addr) (s.l2.way (setOf m.addr) m.fillWay).tag ∧
        (m.state = .writeback ↔ s.l2.needEvict (setOf m.addr) m.fillWay = true) := by
  obtain ⟨r, w, -, -, -, -, -, addr, -, -, fillWay, -, -, -, evictAddr, evictData, state⟩ :=
    L2.alloc_some alloc
  rw [addr, fillWay, evictAddr, evictData, state]
  refine ⟨rfl, lineOf_evict _ _, ?_⟩
  cases s.l2.needEvict (setOf r.addr) w with
  | true => simp
  | false => cases r.wdata <;> simp

/-- A line that was found and is below now has just been evicted. -/
theorem evicted_now (held : s.l2.Held set w) (line : lineAt set (s.l2.way set w).tag = l)
    (below : (s.next x).Below l) :
    ∃ k m, s.l2.alloc x = some (k, m) ∧ lineOf m.evictAddr = l ∧
      m.evictData = (s.l2.way set w).data ∧
        (m.state = .writeback ↔ (s.l2.way set w).dirty = true) := by
  by_contra none_
  obtain ⟨held', tag⟩ := held_stays (x := x) held fun k m alloc at_ => none_ ⟨k, m, alloc, by
    obtain ⟨data, evict, state⟩ := alloc_victim alloc
    rw [at_.1, at_.2] at data evict state
    refine ⟨evict.trans line, data, state.trans ?_⟩
    simp [L2.needEvict, held.valid]⟩
  exact below.ways set w held' (by rw [tag, line])

/-- A writeback in flight is performed, or it is in flight afterwards. -/
theorem writeback_next (here : s.l2.mshr i = some m) (writeback : m.state = .writeback) :
    (s.next x).l2.mshr i = some (s.l2.advance x i m) ∧ (s.l2.advance x i m).state = .writeback ∨
      s.memWrite x = some (lineOf m.evictAddr, m.evictData) := by
  by_cases issue : s.l2.wbIssue x = some i
  · right
    simp [memWrite, issue, here]
  · left
    refine ⟨L2.mshrNext_stays here (L2.not_install here (by simp [writeback]))
      (L2.not_capture here (by simp [writeback])), ?_⟩
    unfold L2.advance
    dsimp only
    rw [if_neg issue, if_neg (L2.not_rdIssue here (by simp [writeback])), writeback]

theorem evicted_next (lined : Lined s.l2) (backed : Backed s) (flows : s.Flows x)
    (holds : s.Holds v) (below : (s.next x).Below l) (here : (s.next x).l2.mshr i = some m)
    (writeback : m.state = .writeback) (line : lineOf m.evictAddr = l) :
    m.evictData = s.written x v l := by
  rw [below_unwritten lined below]
  obtain ⟨m, old, rfl, -⟩ | alloc := L2.mshrNext_some here
  · have before : m.state = .writeback := by
      unfold L2.advance at writeback
      dsimp only at writeback
      split_ifs at writeback
      exact writeback
    refine holds.evicted l (below_before lined below fun set w held same => ?_) i m old before line
    -- the line would be evicted twice
    obtain ⟨k, n, alloc, evict, -, state⟩ := evicted_now held same below
    cases dirty : (s.l2.way set w).dirty with
    | true => exact flows.ordered k n alloc (state.mpr dirty) i m old before (line.trans evict.symm)
    | false => exact (backed.clean set w held dirty).quiet i m old before (line.trans same.symm)
  · obtain ⟨w, held, -, evict, fillWay⟩ := alloc_evict alloc writeback
    obtain ⟨data, -, -⟩ := alloc_victim alloc
    rw [data, fillWay, holds.held _ w held, ← evict, line]

theorem mem_flat (lined : Lined s.l2) (backed : Backed s) (holds : s.Holds v)
    (below : (s.next x).Below l) (quiet : (s.next x).Quiet l) :
    (s.next x).mem l = s.written x v l := by
  rw [below_unwritten lined below]
  by_cases found : ∃ set w, s.l2.Held set w ∧ lineAt set (s.l2.way set w).tag = l
  · obtain ⟨set, w, held, line⟩ := found
    obtain ⟨k, m, alloc, evict, -, state⟩ := evicted_now held line below
    have clean : (s.l2.way set w).dirty = false := by
      by_contra dirty
      exact quiet k m (L2.mshrNext_alloc alloc) (state.mpr (by simpa using dirty)) evict
    have backs := backed.clean set w held clean
    rw [line] at backs
    rw [mem_quiet backs.quiet, ← backs.mem, holds.held set w held, line]
  · have before := below_before lined below fun set w held line => found ⟨set, w, held, line⟩
    by_cases rests : s.Quiet l
    · rw [mem_quiet rests, holds.mem l before rests]
    · unfold Quiet at rests
      simp only [not_forall, not_not] at rests
      obtain ⟨i, m, here, writeback, line⟩ := rests
      obtain ⟨later, state⟩ | write := writeback_next (x := x) here writeback
      · exact (quiet i _ later state line).elim
      · change (s.memWrite x).elim s.mem (fun w => fun l => if l = w.1 then w.2 else s.mem l) l = v l
        rw [write]
        simp only [Option.elim_some, line, if_true]
        exact holds.evicted l before i m here writeback line

theorem holds_next (tracked : Tracked s) (lined : Lined s.l2) (backed : Backed s)
    (keeps : s.Keeps x) (flows : s.Flows x) (holds : s.Holds v) :
    (s.next x).Holds (s.written x v) where
  held _ _ := held_flat tracked lined backed keeps flows holds
  merged _ _ _ := merged_next holds
  written _ _ := written_next holds
  evicted _ below _ _ := evicted_next lined backed flows holds below
  mem _ := mem_flat lined backed holds

-- ---------------------------------------------------------------------
-- Reads of the array
-- ---------------------------------------------------------------------

theorem settled_flat (holds : s.Holds v) (below : s.Below l) : s.settled l = v l := by
  unfold settled evicted
  cases first : firstOf fun i => (s.l2.mshr i).any fun m =>
      m.state == .writeback && lineOf m.evictAddr == l with
  | some i =>
    obtain ⟨m, here, same⟩ := Option.any_eq_true _ _ |>.mp (firstOf_some first)
    simp only [Bool.and_eq_true, beq_iff_eq] at same
    simp only [Option.bind_some, here, Option.elim_some]
    exact holds.evicted l below i m here same.1 same.2
  | none =>
    refine holds.mem l below fun i m here writeback line => ?_
    have other := firstOf_none.mp first i
    simp [here, writeback, line] at other

theorem current_flat (tracked : Tracked s) (lined : Lined s.l2) (holds : s.Holds v) (a : Addr) :
    s.current a = v (lineOf a) := by
  unfold current
  cases hit : s.l2.hitWay a with
  | some w =>
    obtain ⟨valid, free, tag⟩ := hitWay_some hit
    dsimp only
    rw [holds.held _ w ⟨valid, free⟩, tag, ← lineOf_eq]
  | none =>
    have ways (set : SetIndex) (w : Fin l2Ways) (held : s.l2.Held set w) :
        lineAt set (s.l2.way set w).tag ≠ lineOf a := by
      intro same
      obtain ⟨rfl, tag⟩ := lineAt_inj (same.trans (lineOf_eq a))
      exact L2.hitWay_none hit w held.valid held.free tag
    unfold tracking
    cases first : firstOf fun i => (s.l2.mshr i).any fun m => lineOf m.addr == lineOf a with
    | some i =>
      obtain ⟨m, here, same⟩ := Option.any_eq_true _ _ |>.mp (firstOf_some first)
      have line : lineOf m.addr = lineOf a := beq_iff_eq.mp same
      simp only [Option.bind_some, here]
      cases merge : m.wbMerge with
      | some data => exact line ▸ holds.merged i m data here merge
      | none =>
        cases writes : m.isWriteback with
        | true => exact line ▸ holds.written i m here writes merge
        | false => exact settled_flat holds (line ▸ below_fetch tracked lined here writes merge)
    | none =>
      refine settled_flat holds ⟨ways, fun i m here line => ?_⟩
      have other := firstOf_none.mp first i
      simp [here, line] at other

/-- The data is what the array held when some number of requests had been accepted, the read's own
place in their order being no later. -/
def Fits (mem : Line → LineData) (asked : List Arb) (r : Resp) : Prop :=
  ∃ k, r.id ≤ k ∧ k ≤ asked.length ∧ r.data = flat mem (asked.take k) (lineOf r.addr)

theorem Fits.later {mem : Line → LineData} {asked : List Arb} (fits : Fits mem asked r) (more : List Arb) :
    Fits mem (asked ++ more) r := by
  obtain ⟨k, after, inside, data⟩ := fits
  refine ⟨k, after, ?_, ?_⟩
  · rw [List.length_append]
    omega
  · rw [List.take_append_of_le_length inside, data]

theorem fits_now {mem : Line → LineData} {asked : List Arb} (before : r.id ≤ asked.length)
    (data : r.data = flat mem asked (lineOf r.addr)) : Fits mem asked r :=
  ⟨asked.length, before, Nat.le_refl _, by rw [List.take_length, data]⟩

structure Fitting (mem : Line → LineData) (s : L2Run) : Prop where
  pipe : ∀ k r, s.l2.hitPipe k = some r → Fits mem s.asked r
  queue : ∀ r ∈ s.l2.respq, Fits mem s.asked r
  answered : ∀ r ∈ s.answered, Fits mem s.asked r

theorem flat_next (mem : Line → LineData) (s : L2Run) (x : L2In) :
    flat mem (s.next x).asked = s.written x (flat mem s.asked) := by
  change flat mem (s.asked ++ (s.l2.fire x).toList) = _
  unfold flat written
  rw [List.foldl_append]
  cases s.l2.fire x with
  | none => rfl
  | some r => rfl

/-- A hit returns what the array holds. -/
theorem hit_flat (holds : s.Holds v) (hit : s.l2.hitStart x = some r) :
    r.data = v (lineOf r.addr) := by
  unfold L2.hitStart at hit
  obtain ⟨req, -, start⟩ := Option.bind_eq_some_iff.mp hit
  split_ifs at start
  obtain ⟨w, way, rfl⟩ := Option.map_eq_some_iff.mp start
  obtain ⟨valid, free, tag⟩ := hitWay_some way
  dsimp only
  rw [holds.held _ w ⟨valid, free⟩, tag, ← lineOf_eq]

theorem memAnswer_fits {mem : Line → LineData} (tracked : Tracked s) (lined : Lined s.l2)
    (backed : Backed s) (ledger : Ledger s) (keeps : s.Keeps x) (flows : s.Flows x)
    (holds : s.Holds (flat mem s.asked)) (answer : s.l2.memAnswer x = some r) :
    Fits mem (s.next x).asked r := by
  have asked := asked_next (x := x) (memAnswer_asked tracked ledger answer)
  obtain ⟨inside, -⟩ := List.getElem?_eq_some_iff.mp asked
  refine fits_now (Nat.le_of_lt inside) ?_
  obtain ⟨⟨i, m, data⟩, capture, rfl⟩ := Option.map_eq_some_iff.mp answer
  rw [flat_next]
  exact fill_flat tracked lined backed keeps flows holds capture

theorem fitting_next {mem : Line → LineData} (tracked : Tracked s) (lined : Lined s.l2)
    (backed : Backed s) (ledger : Ledger s) (keeps : s.Keeps x) (flows : s.Flows x)
    (holds : s.Holds (flat mem s.asked)) (fitting : Fitting mem s) : Fitting mem (s.next x) := by
  have fill {r : Resp} (answer : s.l2.memAnswer x = some r) : Fits mem (s.next x).asked r :=
    memAnswer_fits tracked lined backed ledger keeps flows holds answer
  constructor
  case pipe =>
    intro k r here
    cases k using Fin.cases with
    | zero =>
      change s.l2.hitStart x = some r at here
      have data := hit_flat holds here
      refine Fits.later (fits_now ?_ data) _
      unfold L2.hitStart at here
      obtain ⟨req, -, start⟩ := Option.bind_eq_some_iff.mp here
      split_ifs at start
      obtain ⟨w, -, rfl⟩ := Option.map_eq_some_iff.mp start
      exact Nat.le_of_eq ledger.count.symm
    | succ k => exact (fitting.pipe k.castSucc r here).later _
  case queue =>
    intro r mem_
    obtain old | new := List.mem_append.mp mem_
    · refine (fitting.queue r ?_).later _
      cases deq : s.l2.respqDeq with
      | none => simpa [deq] using old
      | some k => exact List.mem_of_mem_eraseIdx (by simpa [deq] using old)
    · have enq : s.l2.respqEnq x = some r := by simpa using new
      unfold L2.respqEnq at enq
      split_ifs at enq
      · exact (fitting.pipe _ r enq).later _
      · exact fill enq
  case answered =>
    intro r mem_
    obtain old | new := List.mem_append.mp mem_
    · exact (fitting.answered r old).later _
    · obtain direct | hit | ⟨k, rfl⟩ := L2.responses_source new
      · exact fill direct
      · exact (fitting.pipe _ r hit).later _
      · exact (fitting.queue _ (List.getElem_mem k.isLt)).later _

/-- All that is known of a run in which nothing is dropped. -/
structure Flat (mem : Line → LineData) (s : L2Run) : Prop where
  tracked : Tracked s
  lined : Lined s.l2
  backed : Backed s
  ledger : Ledger s
  holds : s.Holds (flat mem s.asked)
  fitting : Fitting mem s

theorem flat_reset (mem : Line → LineData) : Flat mem (l2Runs mem).reset where
  tracked := tracked_of_reach .reset
  lined := lined_reset
  backed := backed_reset
  ledger := ledger_of_reach .reset
  holds := by
    constructor
    · exact fun _ _ held => nomatch held.valid
    · exact fun _ _ _ here => nomatch here
    · exact fun _ _ here => nomatch here
    · exact fun _ _ _ _ here => nomatch here
    · exact fun _ _ _ => rfl
  fitting := ⟨fun _ _ here => (nomatch here), fun _ here => (nomatch here),
    fun _ here => (nomatch here)⟩

theorem flat_of_reach {mem : Line → LineData} (reach : (l2Runs mem).Reach Flows s) :
    Flat mem s := by
  refine reach.invariant (Flat mem) (flat_reset mem) fun s x _ flat_ keeps flows => ?_
  obtain ⟨tracked, lined, backed, ledger, holds, fitting⟩ := flat_
  exact {
    tracked := tracked_next tracked keeps flows.roomy
    lined := lined_next tracked lined
    backed := backed_next tracked lined backed keeps flows.roomy flows.marked
    ledger := ledger_next tracked ledger
    holds := flat_next mem s x ▸ holds_next tracked lined backed keeps flows holds
    fitting := fitting_next tracked lined backed ledger keeps flows holds fitting }

end L2Run

-- ---------------------------------------------------------------------
-- A write while its line is fetched
-- ---------------------------------------------------------------------

open L2Run

/-- A line is fetched for the I-cache and written by the D-cache before memory answers. -/
def overtaken : L2Run :=
  zeroRuns.run zeroRuns.reset [{ idleIn with icacheReq := some 0x40 }, idleIn, writeIn 0x40 7]

theorem overtaken_reach : zeroRuns.Reach Roomy overtaken :=
  reach_rest .reset (by simp [idleIn, writeIn])

/-- Two writes of a line, the second as the first is installed. -/
def dropped : L2Run := zeroRuns.run zeroRuns.reset [writeIn 0x40 7, writeIn 0x40 9]

theorem flows_read {s : L2Run} {x : L2In} (roomy : s.Roomy x)
    (reads : ∀ r, L2.arb x = some r → r.wdata = none)
    (keeps : (s.l2.alloc x).map (fun e => e.2.state) ≠ some .writeback) : s.Flows x where
  roomy := roomy
  marked i m data _ _ := wbMergeNow_read reads m
  ordered k m alloc evicts := absurd (by simp [alloc, evicts]) keeps
  settled m _ := wbMergeNow_read reads m

end Rv64gc.Cache
