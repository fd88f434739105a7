import Rv64gc.Mmu.Translations

/-!
# Dirty entries of the DTLB

A store that hits a clean page marks the entry at once and leaves the write of D to the walker. The
mark goes to the entry that the lookup of the cycle found, and a fill of the same cycle may put
another translation there.
-/

namespace Rv64gc.Mmu

open Hdl

-- ---------------------------------------------------------------------
-- The DTLB
-- ---------------------------------------------------------------------

namespace Tlb

variable {n : Nat} [NeZero n]

/-- A mark that meets no fill is one of the translation that was hit. -/
theorem dataNext_cases {s : Tlb n}
    (apart : ∀ e, s.dirtyUpgradeNow l ready = some e → fill.isSome = true → e.1 ≠ s.rrPtr)
    (present : (s.dataNext l ready invAll fill).entry k = some t) :
    fill = some t ∨ s.entry k = some t ∨
      ∃ e, s.dirtyUpgradeNow l ready = some (k, e) ∧ t = { e with perm := e.perm ||| 0x80#8 } := by
  have plain (t : Translation) (here : (s.next invAll fill).entry k = some t) :
      fill = some t ∧ k = s.rrPtr ∨ s.entry k = some t := by
    obtain ⟨keep, ⟨filled, rfl⟩ | ⟨-, old⟩⟩ := next_entry here
    · obtain ⟨f, rfl⟩ := Option.isSome_iff_exists.mp filled
      rw [next, keep] at here
      exact .inl ⟨by simpa using here, rfl⟩
    · exact .inr old
  unfold dataNext at present
  dsimp only at present
  split at present
  next j e upgrade =>
    dsimp only at present
    split at present
    next here =>
      subst here
      obtain ⟨t', here, rfl⟩ := Option.map_eq_some_iff.mp present
      obtain ⟨filled, ptr⟩ | old := plain t' here
      · exact absurd ptr (apart _ upgrade (by simp [filled]))
      · have hit : s.entry k = some e := by
          unfold dirtyUpgradeNow at upgrade
          split_ifs at upgrade
          obtain ⟨l', -, req⟩ := Option.bind_eq_some_iff.mp upgrade
          exact find_some (Option.filter_eq_some_iff.mp req).1
        obtain rfl := Option.some.inj (hit.symm.trans old)
        exact .inr (.inr ⟨e, upgrade, rfl⟩)
    next => exact (plain t present).imp And.left .inl
  next => exact (plain t present).imp And.left .inl

/-- A fill that meets no mark is what the entry holds. -/
theorem dataNext_fill {s : Tlb n}
    (apart : ∀ e, s.dirtyUpgradeNow l ready = some e → e.1 ≠ s.rrPtr) :
    (s.dataNext l ready false (some t)).entry s.rrPtr = some t := by
  unfold dataNext
  dsimp only
  split
  next j e upgrade =>
    have other : s.rrPtr ≠ j := (apart _ upgrade).symm
    simp [next, other]
  next => simp [next]

end Tlb

-- ---------------------------------------------------------------------
-- Runs
-- ---------------------------------------------------------------------

namespace MmuRun

variable (s : MmuRun) (i : MmuIn)

/-- D in memory -/
def dirtyAt (pa : Pa) : Prop := (s.mem pa).getLsbD 7 = true

/-- The leaf that an entry was filled from has D in memory, or the walker is about to set it. -/
def Backed (t : Translation) : Prop :=
  s.dirtyAt t.ptePa ∨ ∃ v, s.ptw.dirtyWb = some (t.ptePa, v) ∧ v.getLsbD 7 = true

/-- The L2 shows no D that memory does not have, and the program changes no D. -/
structure Shows : Prop where
  shown : ∀ pte, s.ptw.state = .wait → s.ptw.pteResp (s.ptwIn i) = some pte →
    pte.getLsbD 7 = true → s.dirtyAt s.ptw.pteAddr
  store : ∀ pa v, i.store = some (pa, v) → v.getLsbD 7 = (s.mem pa).getLsbD 7

/-- The entry that is marked is not the one that is filled, and a leaf that is to be written again
is read with the D it has. -/
structure Apart : Prop where
  mark : ∀ e, s.dtlb.dirtyUpgradeNow (s.lookup i) s.ptw.dirtyWbReady = some e →
    (s.ptw.fillFor false).isSome = true → e.1 ≠ s.dtlb.rrPtr
  read : ∀ pte, s.ptw.state = .wait → s.ptw.pteResp (s.ptwIn i) = some pte →
    s.ptw.pteAdUpdateNeeded pte = true → s.dirtyAt s.ptw.pteAddr →
      (s.ptw.pteFill pte).getLsbD 7 = true

end MmuRun

def dirtyRuns (mem : Pa → Pte) : Machine MmuRun MmuIn where
  reset := (mmuRuns mem).reset
  next s i := s.next i
  legal s i := s.Shows i

namespace MmuRun

-- ---------------------------------------------------------------------
-- The invariant
-- ---------------------------------------------------------------------

variable {s : MmuRun} {i : MmuIn}

structure Traced (s : MmuRun) : Prop where
  entry : ∀ k t, s.dtlb.entry k = some t → t.d = true → s.Backed t
  mark : ∀ pa v, s.ptw.dirtyWb = some (pa, v) → v.getLsbD 7 = true
  again : s.ptw.state = .adWriteback → s.ptw.adWbReturnFill = false →
    s.ptw.dirtyWb = some (s.ptw.adWbPa, s.ptw.adWbValue)
  write : s.ptw.state = .adWriteback → s.ptw.adWbReturnFill = true →
    s.ptw.adWbPa = s.ptw.pteAddr ∧ s.ptw.adWbValue = s.ptw.pte ∧
      (s.dirtyAt s.ptw.pteAddr → s.ptw.pte.getLsbD 7 = true)
  fill : s.ptw.state = .fill → s.ptw.pte.getLsbD 7 = true → s.dirtyAt s.ptw.pteAddr

/-- The walker writes no D away. -/
theorem writes_dirty (traced : s.Traced) (writes : s.writes i = some (pa, v))
    (before : s.dirtyAt pa) : v.getLsbD 7 = true := by
  unfold MmuRun.writes at writes
  split_ifs at writes with takes
  obtain ⟨rfl, rfl⟩ := Prod.mk.inj (Option.some.inj writes)
  cases fills : s.ptw.adWbReturnFill with
  | true =>
    obtain ⟨addr, value, kept⟩ := traced.write takes.1 fills
    rw [value]
    exact kept (addr ▸ before)
  | false => exact traced.mark _ _ (traced.again takes.1 fills)

theorem dirtyAt_store (shows_ : s.Shows i) (pa : Pa) :
    ((i.store.elim s.mem fun w => writeWord s.mem w.1 w.2) pa).getLsbD 7 =
      (s.mem pa).getLsbD 7 := by
  cases store : i.store with
  | none => rfl
  | some w =>
    simp only [Option.elim_some, writeWord]
    split
    next here => rw [here, shows_.store w.1 w.2 store]
    next => rfl

theorem dirtyAt_of_rest (shows_ : s.Shows i) (rest : s.writes i = none) :
    (s.next i).dirtyAt pa ↔ s.dirtyAt pa := by
  unfold dirtyAt
  rw [← dirtyAt_store shows_]
  simp only [next, rest, Option.elim_none]

theorem dirtyAt_of_write (writes : s.writes i = some (pa, v)) :
    (s.next i).dirtyAt pa ↔ v.getLsbD 7 = true := by
  simp only [dirtyAt, next, writes, Option.elim_some, writeWord, if_true]

theorem dirtyAt_next (traced : s.Traced) (shows_ : s.Shows i) (before : s.dirtyAt pa) :
    (s.next i).dirtyAt pa := by
  cases writes : s.writes i with
  | none => exact (dirtyAt_of_rest shows_ writes).2 before
  | some w =>
    by_cases here : w.1 = pa
    · subst here
      exact (dirtyAt_of_write writes).2 (writes_dirty traced writes before)
    · unfold dirtyAt at before ⊢
      rw [← dirtyAt_store shows_] at before
      simpa [next, writes, writeWord, Ne.symm here] using before

-- ---------------------------------------------------------------------
-- The mark that waits
-- ---------------------------------------------------------------------

/-- A mark leaves its register when it is written. -/
theorem writes_of_marked (traced : s.Traced) (marked : s.ptw.marked (s.ptwIn i) = true) :
    s.ptw.dirtyWb = some (s.ptw.adWbPa, s.ptw.adWbValue) ∧
      s.writes i = some (s.ptw.adWbPa, s.ptw.adWbValue) := by
  simp only [Ptw.marked, Bool.and_eq_true, beq_iff_eq, Bool.not_eq_true'] at marked
  obtain ⟨⟨⟨-, writes⟩, ack⟩, quiet⟩ := marked
  exact ⟨traced.again writes quiet, if_pos ⟨writes, ack⟩⟩

theorem Backed.next {t : Translation} (backed : s.Backed t) (traced : s.Traced)
    (shows_ : s.Shows i) : (s.next i).Backed t := by
  rcases backed with set_ | ⟨v, pending, dirty⟩
  · exact .inl (dirtyAt_next traced shows_ set_)
  · cases marked : s.ptw.marked (s.ptwIn i) with
    | true =>
      obtain ⟨mark, writes⟩ := writes_of_marked traced marked
      obtain ⟨pa, value⟩ := Prod.mk.inj (Option.some.inj (pending.symm.trans mark))
      left
      rw [pa, dirtyAt_of_write writes, ← value]
      exact dirty
    | false =>
      right
      exact ⟨v, by simp [ptw_next, Ptw.dirtyWb_next, marked, pending], dirty⟩

theorem new_mark (new : (s.ptwIn i).dirtyWb = some (pa, v)) : v.getLsbD 7 = true := by
  change s.dtlb.dirtyWb (s.lookup i) s.ptw.dirtyWbReady = some (pa, v) at new
  obtain ⟨e, -, same⟩ := Option.map_eq_some_iff.mp new
  obtain ⟨-, rfl⟩ := Prod.mk.inj same
  refine BitVec.getLsbD_append.trans ?_
  simp [-BitVec.getLsbD_eq_getElem]

theorem mark_next (traced : s.Traced) (pending : (s.next i).ptw.dirtyWb = some (pa, v)) :
    v.getLsbD 7 = true := by
  rw [ptw_next, Ptw.dirtyWb_next] at pending
  split at pending
  next => cases pending
  next =>
    obtain old | ⟨-, new⟩ := Option.or_eq_some_iff.mp pending
    · exact traced.mark pa v old
    · exact new_mark new

/-- An entry is marked when the walker takes the mark. -/
theorem upgraded_backed (traced : s.Traced)
    (upgrade : s.dtlb.dirtyUpgradeNow (s.lookup i) s.ptw.dirtyWbReady = some (k, t)) :
    (s.next i).Backed { t with perm := t.perm ||| 0x80#8 } := by
  have free : s.ptw.dirtyWb = none := by
    unfold Tlb.dirtyUpgradeNow at upgrade
    split_ifs at upgrade with ready
    simpa [Ptw.dirtyWbReady] using ready
  have new : (s.ptwIn i).dirtyWb = some (t.ptePa, 0#10 ++ t.ppn ++ 0#2 ++ (t.perm ||| 0x80#8)) := by
    change s.dtlb.dirtyWb (s.lookup i) s.ptw.dirtyWbReady = _
    rw [Tlb.dirtyWb, upgrade]
    rfl
  refine .inr ⟨_, ?_, new_mark new⟩
  rw [ptw_next, Ptw.dirtyWb_next, if_neg, free, new]
  · rfl
  · intro marked
    cases free.symm.trans (writes_of_marked traced marked).1

-- ---------------------------------------------------------------------
-- The walk
-- ---------------------------------------------------------------------

theorem kept_of_not_needed {w : Ptw} (enough : w.pteAdUpdateNeeded pte = false) :
    (w.pteFill pte).getLsbD 7 = pte.getLsbD 7 := by
  have same : (w.pteFill pte).extractLsb' 6 2 = pte.extractLsb' 6 2 := by
    simpa [Ptw.pteAdUpdateNeeded] using enough
  have bit := congrArg (·.getLsbD 1) same
  simpa [BitVec.getLsbD_extractLsb', -BitVec.getLsbD_eq_getElem] using bit

theorem fill_next (traced : s.Traced) (shows_ : s.Shows i)
    (fills : (s.next i).ptw.state = .fill) (dirty : (s.next i).ptw.pte.getLsbD 7 = true) :
    (s.next i).dirtyAt (s.next i).ptw.pteAddr := by
  have ptw : (s.next i).ptw = _ := Ptw.next_of_busy fun idle => by cases idle.symm.trans fills
  rw [ptw] at fills dirty ⊢
  dsimp only at fills dirty ⊢
  obtain ⟨waits, pte, resp, enough, addr, value⟩ | ⟨writes, ret, ack, addr, value⟩ :=
    Ptw.walk_fills fills
  · rw [value, kept_of_not_needed enough] at dirty
    rw [addr]
    exact dirtyAt_next traced shows_ (shows_.shown pte waits resp dirty)
  · obtain ⟨pa, word, -⟩ := traced.write writes ret
    have taken : s.writes i = some (s.ptw.pteAddr, s.ptw.pte) := by
      rw [← pa, ← word]
      exact if_pos ⟨writes, ack⟩
    rw [addr, dirtyAt_of_write taken, ← value]
    exact dirty

theorem write_next (traced : s.Traced) (shows_ : s.Shows i) (apart : s.Apart i)
    (writes : (s.next i).ptw.state = .adWriteback) (ret : (s.next i).ptw.adWbReturnFill = true) :
    (s.next i).ptw.adWbPa = (s.next i).ptw.pteAddr ∧
      (s.next i).ptw.adWbValue = (s.next i).ptw.pte ∧
      ((s.next i).dirtyAt (s.next i).ptw.pteAddr → (s.next i).ptw.pte.getLsbD 7 = true) := by
  have ptw : (s.next i).ptw = _ := Ptw.next_of_busy fun idle => by cases idle.symm.trans writes
  rw [ptw] at writes ret ⊢
  dsimp only at writes ret ⊢
  obtain ⟨-, -, mark⟩ | ⟨waits, pte, resp, -, needed, pa, addr, value, -⟩ | ⟨writing, ack, same⟩ :=
    Ptw.walk_writes writes
  · cases mark.symm.trans ret
  · have read : (s.ptw.walk (s.ptwIn i)).pte = s.ptw.pteFill pte := by
      unfold Ptw.walk
      simp only [waits, resp, Ptw.step]
      split_ifs <;> rfl
    have rest : s.writes i = none := if_neg (by simp [waits])
    rw [pa, addr, value, read, dirtyAt_of_rest shows_ rest]
    exact ⟨rfl, rfl, apart.read pte waits resp needed⟩
  · have rest : s.writes i = none := if_neg fun takes => by cases takes.2.symm.trans ack
    rw [same] at ret ⊢
    rw [dirtyAt_of_rest shows_ rest]
    exact traced.write writing ret

theorem entry_next (traced : s.Traced) (shows_ : s.Shows i) (apart : s.Apart i)
    (present : (s.next i).dtlb.entry k = some t) (dirty : t.d = true) : (s.next i).Backed t := by
  obtain filled | old | ⟨e, upgrade, rfl⟩ := Tlb.dataNext_cases apart.mark present
  · unfold Ptw.fillFor at filled
    split_ifs at filled with fills
    obtain rfl := Option.some.inj filled
    have set_ : s.ptw.pte.getLsbD 7 = true := by
      simpa [Translation.d, -BitVec.getLsbD_eq_getElem] using dirty
    exact .inl (dirtyAt_next traced shows_ (traced.fill fills.1 set_))
  · exact (traced.entry k t old dirty).next traced shows_
  · exact upgraded_backed traced upgrade

theorem traced_next (traced : s.Traced) (shows_ : s.Shows i) (apart : s.Apart i) :
    (s.next i).Traced where
  entry _ _ present dirty := entry_next traced shows_ apart present dirty
  mark _ _ pending := mark_next traced pending
  again := Ptw.mark_of_writes traced.again
  write writes ret := write_next traced shows_ apart writes ret
  fill fills dirty := fill_next traced shows_ fills dirty

/-- As long as no fill meets a mark in one entry and no leaf is read without the D it has, an entry
is dirty only if its leaf is or the walker is to make it so, and a filled entry is not marked. -/
theorem dirty_entries_backed {mem : Pa → Pte} (reach : (dirtyRuns mem).Reach Apart s) :
    (∀ k t, s.dtlb.entry k = some t → t.d = true → s.Backed t) ∧
      ∀ i t, s.Apart i → invalidates i = false → s.ptw.fillFor false = some t →
        (s.next i).dtlb.entry s.dtlb.rrPtr = some t := by
  have traced : s.Traced := by
    refine reach.invariant Traced ?_ fun s i _ traced shows_ apart => traced_next traced shows_ apart
    constructor <;> simp [dirtyRuns, mmuRuns, Tlb.reset, Ptw.reset]
  refine ⟨traced.entry, fun i t apart keep fills => ?_⟩
  simp only [next, keep, fills]
  exact Tlb.dataNext_fill fun e upgrade => apart.mark e upgrade (by simp [fills])

end MmuRun

-- ---------------------------------------------------------------------
-- Clean pages of 1G
-- ---------------------------------------------------------------------

open MmuRun

/-- Every entry is a leaf with V, R, W and A. -/
def cleanTables : Pa → Pte := fun _ => 0x47

def cleanLine : BitVec 512 := (0x47 : Pte).replicate 8

def accessPage (n : Nat) (kind : AccessKind) : Access :=
  ⟨kind, BitVec.ofNat 64 (n * 2 ^ 30), privS, false, false⟩

/-- A load misses and its page is walked for; the last cycle fills. -/
def walkPage (n : Nat) (filling : MmuIn) : List MmuIn :=
  [{ restIn with data := some (accessPage n .load) }, { restIn with l2ReqAccepted := true },
   { restIn with l2Resp := some ⟨BitVec.ofNat 64 (0x1000 + 8 * n), cleanLine⟩ }, filling]

def startSv39 : MmuIn := { restIn with satpWrite := some 0x8000000000000001 }

def storeZero : MmuIn := { restIn with data := some (accessPage 0 .store) }

def afterCycles (inputs : List MmuIn) : MmuRun :=
  (dirtyRuns cleanTables).run (dirtyRuns cleanTables).reset inputs

/-- What the L2 answers is what the tables hold. -/
def cleanIn (i : MmuIn) : Bool :=
  i.store.isNone && i.l2Resp.all fun r => r.data == cleanLine

theorem shows_clean (s : MmuRun) (clean : cleanIn i = true) : s.Shows i := by
  simp only [cleanIn, Bool.and_eq_true, Option.isNone_iff_eq_none] at clean
  obtain ⟨store, answer⟩ := clean
  constructor
  case shown =>
    intro pte _ resp dirty
    have words : ∀ k : BitVec 3,
        (cleanLine.extractLsb' (64 * k.toNat) 64).getLsbD 7 = false := by
      decide +kernel
    obtain ⟨r, out, rfl⟩ := Option.map_eq_some_iff.mp resp
    have here : i.l2Resp = some r := (Option.filter_eq_some_iff.mp out).1
    rw [here] at answer
    rw [Ptw.pteOf, eq_of_beq answer, words] at dirty
    cases dirty
  case store => simp [store]

theorem legal_clean (s : MmuRun) (inputs : List MmuIn) (clean : inputs.all cleanIn = true) :
    (dirtyRuns cleanTables).Legal s inputs := by
  induction inputs generalizing s with
  | nil => trivial
  | cons i rest ih =>
    obtain ⟨first, others⟩ := Bool.and_eq_true_iff.mp clean
    exact ⟨shows_clean s first, ih _ others⟩

theorem apart_of_checks {s : MmuRun} {i : MmuIn}
    (mark : (s.dtlb.dirtyUpgradeNow (s.lookup i) s.ptw.dirtyWbReady).isNone ||
      (s.ptw.fillFor false).isNone)
    (read : s.ptw.state != .wait || !(s.mem s.ptw.pteAddr).getLsbD 7) : s.Apart i := by
  constructor
  case mark =>
    intro e upgrade fills
    rw [upgrade] at mark
    simp [Option.isSome_iff_ne_none.mp fills] at mark
  case read =>
    intro pte waits _ _ dirty
    rw [dirtyAt] at dirty
    rw [waits, dirty] at read
    cases read

def pageZero : Translation := ⟨0, 0, 0, 2, 0xc7, 0x1000⟩

/-- A page is filled, and then a store marks it. -/
theorem dirty_entries_backed_marked :
    (afterCycles (startSv39 :: walkPage 0 restIn ++ [storeZero])).Backed pageZero := by
  have reach : (dirtyRuns cleanTables).Reach Apart
      (afterCycles (startSv39 :: walkPage 0 restIn ++ [storeZero])) := by
    refine .cycle (.cycle (.cycle (.cycle (.cycle (.cycle .reset ?_ ?_) ?_ ?_) ?_ ?_) ?_ ?_) ?_ ?_)
      ?_ ?_
    all_goals first
      | exact shows_clean _ (by decide +kernel)
      | exact apart_of_checks (by decide +kernel) (by decide +kernel)
  exact (dirty_entries_backed reach).1 0 pageZero (by decide +kernel) (by decide)

/-- Once 32 pages have filled the DTLB, the next fill replaces the first of them in the cycle in
which a store marks it. -/
def markedAsReplaced : MmuRun :=
  afterCycles (startSv39 :: (List.range 32).flatMap (walkPage · restIn) ++ walkPage 32 storeZero)

def pageReplacing : Translation := ⟨0x800000, 0, 0, 2, 0xc7, 0x1100⟩

theorem marked_as_replaced : (dirtyRuns cleanTables).Reachable markedAsReplaced ∧
    markedAsReplaced.dtlb.entry 0 = some pageReplacing ∧ pageReplacing.d = true ∧
      ¬ markedAsReplaced.Backed pageReplacing := by
  refine ⟨Machine.Reachable.run .reset (legal_clean _ _ (by decide +kernel)), by decide +kernel,
    rfl, ?_⟩
  rintro (set_ | ⟨v, pending, -⟩)
  · have clean : (markedAsReplaced.mem pageReplacing.ptePa).getLsbD 7 = false := by decide +kernel
    cases set_.symm.trans clean
  · have other : markedAsReplaced.ptw.dirtyWb.map Prod.fst = some 0x1000 := by decide +kernel
    rw [pending] at other
    exact absurd (Option.some.inj other) (show (0x1100 : Pa) ≠ 0x1000 by decide)

end Rv64gc.Mmu
