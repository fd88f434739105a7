import Rv64gc.Frontend.Btb

/-!
# What the branch target buffer remembers

Each set remembers the eight branches that came last to it, and a lookup finds the next of these.
-/

namespace Rv64gc.Frontend

open Hdl

/-- A branch with the target and the type it is remembered with. -/
abbrev Branch := Addr × Addr × BitVec 3

def BtbUpdate.branch (u : BtbUpdate) : Branch := (u.pc, u.target, u.type)

/-- The branches recorded since the last flush, in their order. -/
def recorded (inputs : List BtbIn) : List BtbUpdate :=
  inputs.foldl (fun us x => if x.flush then [] else us ++ x.update.toList) []

/-- The last eight of a set. -/
def remembered (inputs : List BtbIn) (i : BitVec 8) : List Branch :=
  Recent.puts 8 [] (((recorded inputs).filter fun u => btbIdx u.pc = i).map BtbUpdate.branch)

def sameLine (a b : Addr) : Prop := a.extractLsb' 6 58 = b.extractLsb' 6 58

/-- The next branch of the line among these, of the kinds asked for. -/
def Nearest (l : List Branch) (kind : BitVec 3 → Bool) (pc : Addr) (h : BtbHit) : Prop :=
  ∃ b, (b, h.target, h.type) ∈ l ∧ sameLine b pc ∧ btbOff pc ≤ btbOff b ∧ kind h.type = true ∧
    h.offset = btbOff b ∧
    ∀ c ∈ l, sameLine c.1 pc → btbOff pc ≤ btbOff c.1 → kind c.2.2 = true → btbOff b ≤ btbOff c.1

-- ---------------------------------------------------------------------
-- Addresses
-- ---------------------------------------------------------------------

def btbPc (t : BitVec 50) (i : BitVec 8) (o : BitVec 6) : Addr := t ++ i ++ o

theorem btbPc_eq_iff {t : BitVec 50} {i : BitVec 8} {o : BitVec 6} {pc : Addr} :
    btbPc t i o = pc ↔ t = btbTag pc ∧ i = btbIdx pc ∧ o = btbOff pc := by
  have whole : btbPc (btbTag pc) (btbIdx pc) (btbOff pc) = pc := by
    apply BitVec.eq_of_getLsbD_eq
    intro j inside
    simp only [btbPc, btbTag, btbIdx, btbOff, BitVec.getLsbD_append, BitVec.getLsbD_extractLsb']
    by_cases low : j < 6
    · simp [low]
    · by_cases middle : j < 14
      · have here : j - 6 < 8 := by omega
        simp [low, here]
        congr 1
        omega
      · have here : ¬ j - 6 < 8 := by omega
        have there : j - 6 - 8 < 50 := by omega
        simp [low, here, there]
        congr 1
        omega
  constructor
  · rintro rfl
    refine ⟨?_, ?_, ?_⟩ <;> apply BitVec.eq_of_getLsbD_eq <;> intro j inside
    · simp only [btbPc, btbTag, BitVec.getLsbD_append, BitVec.getLsbD_extractLsb']
      have a : ¬ 14 + j < 6 := by omega
      have b : ¬ 14 + j - 6 < 8 := by omega
      simp [inside, a, b]
      congr 1
      omega
    · simp only [btbPc, btbIdx, BitVec.getLsbD_append, BitVec.getLsbD_extractLsb']
      have a : ¬ 6 + j < 6 := by omega
      simp [inside, a]
    · simp only [btbPc, btbOff, BitVec.getLsbD_append, BitVec.getLsbD_extractLsb']
      simp [inside]
  · rintro ⟨rfl, rfl, rfl⟩
    exact whole

theorem addr_ext {a b : Addr} (tag : btbTag a = btbTag b) (idx : btbIdx a = btbIdx b)
    (off : btbOff a = btbOff b) : a = b :=
  (btbPc_eq_iff.mpr ⟨rfl, rfl, rfl⟩ : btbPc (btbTag a) (btbIdx a) (btbOff a) = a).symm.trans
    (btbPc_eq_iff.mpr ⟨tag, idx, off⟩)

theorem sameLine_iff {a b : Addr} : sameLine a b ↔ btbTag a = btbTag b ∧ btbIdx a = btbIdx b := by
  constructor
  · intro same
    constructor <;> apply BitVec.eq_of_getLsbD_eq <;> intro j inside
    · have bit := congrArg (·.getLsbD (8 + j)) same
      have a : 8 + j < 58 := by omega
      simpa [btbTag, BitVec.getLsbD_extractLsb', inside, a, ← Nat.add_assoc] using bit
    · have bit := congrArg (·.getLsbD j) same
      have a : j < 58 := by omega
      simpa [btbIdx, BitVec.getLsbD_extractLsb', inside, a] using bit
  · rintro ⟨tag, idx⟩
    apply BitVec.eq_of_getLsbD_eq
    intro j inside
    by_cases low : j < 8
    · have bit := congrArg (·.getLsbD j) idx
      simpa [btbIdx, BitVec.getLsbD_extractLsb', inside, low] using bit
    · have bit := congrArg (·.getLsbD (j - 8)) tag
      have a : j - 8 < 50 := by omega
      have b : 14 + (j - 8) = 6 + j := by omega
      simpa [btbTag, BitVec.getLsbD_extractLsb', inside, a, b] using bit

-- ---------------------------------------------------------------------
-- A set
-- ---------------------------------------------------------------------

/-- How many branches came to the set after the one in a way. -/
def age (rr w : Fin 8) : Nat := (rr - 1 - w).val

theorem age_lt_iff : ∀ rr w : Fin 8, age rr w < rr.val ↔ w < rr := by decide

theorem age_inj : ∀ rr w w' : Fin 8, age rr w = age rr w' → w = w' := by decide

theorem age_onto : ∀ rr k : Fin 8, ∃ w, age rr w = k.val := by decide

theorem age_next : ∀ rr w : Fin 8, age (rr + 1) w = if w = rr then 0 else age rr w + 1 := by decide

theorem age_last : ∀ rr w : Fin 8, w ≠ rr → age rr w < 7 := by decide

/-- The branch in a way of set `i`. -/
def BtbEntry.held (i : BitVec 8) (e : BtbEntry) : Option Branch :=
  if e.valid then some (btbPc e.tag i e.boff, e.target, e.type) else none

theorem BtbEntry.held_some {i : BitVec 8} {e : BtbEntry} {b : Branch} (holds : e.held i = some b) :
    e.valid = true ∧ btbPc e.tag i e.boff = b.1 ∧ e.target = b.2.1 ∧ e.type = b.2.2 := by
  unfold BtbEntry.held at holds
  split at holds
  next valid =>
    cases holds
    exact ⟨valid, rfl, rfl, rfl⟩
  next => cases holds

/-- The ways hold these branches, the last one that came just before the next victim. -/
structure BtbSet.Holds (i : BitVec 8) (s : BtbSet) (l : List Branch) : Prop where
  few : l.length ≤ 8
  filling : l.length < 8 → s.victimRr.val = l.length
  ways : ∀ w, (s.ways w).held i = l[age s.victimRr w]?
  distinct : (Recent.keys l).Nodup

namespace BtbSet

variable {i : BitVec 8} {s : BtbSet} {l : List Branch} {u : BtbUpdate}

theorem Holds.valid_iff (holds : s.Holds i l) (w : Fin 8) :
    (s.ways w).valid = true ↔ age s.victimRr w < l.length := by
  have way := holds.ways w
  constructor
  · intro valid
    rw [BtbEntry.held, if_pos valid] at way
    exact (List.getElem?_eq_some_iff.mp way.symm).1
  · intro inside
    rw [List.getElem?_eq_getElem inside] at way
    exact (BtbEntry.held_some way).1

/-- The free way that is picked is the one whose turn it is anyway. -/
theorem Holds.victimWay (holds : s.Holds i l) : s.victimWay = s.victimRr := by
  unfold BtbSet.victimWay
  rcases Nat.lt_or_ge l.length 8 with less | full
  · have rr := holds.filling less
    have valid : ∀ w, (s.ways w).valid = true ↔ w < s.victimRr := fun w => by
      rw [holds.valid_iff, ← rr, age_lt_iff]
    cases found : firstOf fun w => !(s.ways w).valid with
    | none =>
      have all := firstOf_none.mp found s.victimRr
      exact absurd ((valid _).mp (by simpa using all)) (lt_irrefl _)
    | some w =>
      rw [Option.getD_some]
      have free : ¬ w < s.victimRr := by
        rw [← valid]
        simpa using firstOf_some found
      refine le_antisymm (not_lt.mp fun after => ?_) (not_lt.mp free)
      have held := firstOf_least found after
      exact absurd ((valid _).mp (by simpa using held)) (lt_irrefl _)
  · have all : firstOf (fun w => !(s.ways w).valid) = none := firstOf_none.mpr fun w => by
      rw [(holds.valid_iff w).mpr (by have := (s.victimRr - 1 - w).isLt; unfold age; omega)]
      rfl
    rw [all]
    rfl

theorem Holds.mem (holds : s.Holds i l) {b : Branch} : b ∈ l ↔ ∃ w, (s.ways w).held i = some b := by
  constructor
  · intro on
    obtain ⟨k, inside, rfl⟩ := List.mem_iff_getElem.mp on
    have few := holds.few
    obtain ⟨w, here⟩ := age_onto s.victimRr ⟨k, by omega⟩
    refine ⟨w, ?_⟩
    rw [holds.ways, here]
    exact List.getElem?_eq_getElem inside
  · rintro ⟨w, held⟩
    rw [holds.ways] at held
    exact List.mem_of_getElem? held

/-- A way hits when it holds the branch. -/
theorem updHit_iff (w : Fin 8) (here : btbIdx u.pc = i) :
    ((s.ways w).valid && (s.ways w).tag == btbTag u.pc && (s.ways w).boff == btbOff u.pc) = true ↔
      ∃ b, (s.ways w).held i = some b ∧ b.1 = u.pc := by
  simp only [Bool.and_eq_true, beq_iff_eq]
  constructor
  · rintro ⟨⟨valid, tag⟩, boff⟩
    refine ⟨_, if_pos valid, ?_⟩
    exact btbPc_eq_iff.mpr ⟨tag, here.symm, boff⟩
  · rintro ⟨b, held, same⟩
    obtain ⟨valid, pc, -⟩ := BtbEntry.held_some held
    obtain ⟨tag, -, boff⟩ := btbPc_eq_iff.mp (pc.trans same)
    exact ⟨⟨valid, tag⟩, boff⟩

/-- A branch that is held changes in its way. -/
theorem Holds.update_hit {hit : Fin 8} (holds : s.Holds i l) (here : btbIdx u.pc = i)
    (found : s.updHit u = some hit) : (s.update u).Holds i (Recent.put 8 u.branch l) := by
  obtain ⟨b, held, same⟩ := (updHit_iff hit here).mp (lastOf_some found)
  have place : l[age s.victimRr hit]? = some b := by rw [← holds.ways, held]
  have known : u.branch.1 ∈ Recent.keys l :=
    List.mem_map.mpr ⟨b, List.mem_of_getElem? place, same⟩
  have put : Recent.put 8 u.branch l =
      l.map fun e => if e.1 = u.branch.1 then u.branch else e := if_pos known
  refine ⟨Recent.length_put _ holds.few, ?_, fun w => ?_, Recent.nodup_put _ holds.distinct⟩
  · rw [put, List.length_map]
    simpa only [BtbSet.update, found] using holds.filling
  · simp only [BtbSet.update, found, put, List.getElem?_map, ← holds.ways]
    by_cases this : w = hit
    · subst this
      obtain ⟨valid, pc, -⟩ := BtbEntry.held_some held
      obtain ⟨tag, -, boff⟩ := btbPc_eq_iff.mp (pc.trans same)
      have own : btbPc (btbTag u.pc) i (btbOff u.pc) = u.pc := btbPc_eq_iff.mpr ⟨rfl, here.symm, rfl⟩
      have same : b.1 = u.branch.1 := same
      rw [held, Option.map_some, if_pos same, if_pos rfl, BtbEntry.held, if_pos valid]
      show some (btbPc (s.ways w).tag i (btbOff u.pc), _, _) = _
      rw [tag, own]
      rfl
    · rw [if_neg this]
      cases other : (s.ways w).held i with
      | none => rfl
      | some c =>
        have apart : c.1 ≠ u.branch.1 := by
          intro equal
          have first : l[age s.victimRr w]? = some c := by rw [← holds.ways, other]
          have index : (Recent.keys l)[age s.victimRr w]? = (Recent.keys l)[age s.victimRr hit]? := by
            rw [Recent.keys, List.getElem?_map, List.getElem?_map, first, place]
            exact congrArg some (equal.trans same.symm)
          have inside : age s.victimRr w < (Recent.keys l).length := by
            rw [Recent.keys, List.length_map]
            exact (List.getElem?_eq_some_iff.mp first).1
          exact this (age_inj _ _ _ ((List.getElem?_inj inside holds.distinct).mp index))
        rw [Option.map_some, if_neg apart]

/-- A new one takes the way whose turn it is. -/
theorem Holds.update_new (holds : s.Holds i l) (here : btbIdx u.pc = i)
    (missed : s.updHit u = none) : (s.update u).Holds i (Recent.put 8 u.branch l) := by
  have new : u.branch.1 ∉ Recent.keys l := by
    intro on
    obtain ⟨b, on, same⟩ := List.mem_map.mp on
    obtain ⟨w, held⟩ := holds.mem.mp on
    have hit := (updHit_iff w here).mpr ⟨b, held, same⟩
    exact absurd hit (by rw [lastOf_none.mp missed w]; exact Bool.false_ne_true)
  have put : Recent.put 8 u.branch l = (u.branch :: l).take 8 := if_neg new
  have few := holds.few
  have own : btbPc (btbTag u.pc) i (btbOff u.pc) = u.pc := btbPc_eq_iff.mpr ⟨rfl, here.symm, rfl⟩
  refine ⟨Recent.length_put _ holds.few, fun less => ?_, fun w => ?_,
    Recent.nodup_put _ holds.distinct⟩
  · rw [put, List.length_take, List.length_cons] at less ⊢
    have rr := holds.filling (by omega)
    have below : s.victimRr.val + 1 < 8 := by omega
    simp only [BtbSet.update, missed, holds.victimWay]
    rw [Fin.val_add, ← rr]
    show (s.victimRr.val + 1) % 8 = _
    omega
  · simp only [BtbSet.update, missed, holds.victimWay, put, age_next]
    by_cases this : w = s.victimRr
    · rw [if_pos this, if_pos this, BtbEntry.held, if_pos rfl]
      show some (btbPc (btbTag u.pc) i (btbOff u.pc), _, _) = _
      rw [own]
      rfl
    · rw [if_neg this, if_neg this, holds.ways, List.getElem?_take_of_lt, List.getElem?_cons_succ]
      have := age_last _ _ this
      omega

theorem Holds.update (holds : s.Holds i l) (here : btbIdx u.pc = i) :
    (s.update u).Holds i (Recent.put 8 u.branch l) := by
  cases hit : s.updHit u with
  | some w => exact holds.update_hit here hit
  | none => exact holds.update_new here hit

theorem holds_empty (free : ∀ w, (s.ways w).valid = false) (first : s.victimRr = 0) :
    s.Holds i [] where
  few := Nat.zero_le 8
  filling _ := by rw [first]; rfl
  ways w := by rw [BtbEntry.held, free w]; rfl
  distinct := List.nodup_nil

/-- A lookup finds the next branch the set holds. -/
theorem Holds.nearest (holds : s.Holds i l) {pc : Addr} (here : btbIdx pc = i)
    (kind : BitVec 3 → Bool) {sel : Fin 8 → Bool}
    (selects : ∀ w, sel w = (s.ahead pc w && kind (s.ways w).type)) (h : BtbHit) :
    s.nearest sel = some h ↔ Nearest l kind pc h := by
  -- A way is looked at when it holds a branch of the kind in the line, not before the place.
  have seen : ∀ w, sel w = true ↔ ∃ b, (s.ways w).held i = some b ∧ sameLine b.1 pc ∧
      btbOff pc ≤ btbOff b.1 ∧ kind b.2.2 = true := by
    intro w
    rw [selects]
    simp only [ahead, Bool.and_eq_true, beq_iff_eq, decide_eq_true_eq]
    constructor
    · rintro ⟨⟨⟨valid, tag⟩, far⟩, fits⟩
      have split := btbPc_eq_iff.mp (rfl : btbPc (s.ways w).tag i (s.ways w).boff = _)
      refine ⟨_, if_pos valid, sameLine_iff.mpr ⟨?_, ?_⟩, ?_, fits⟩
      · rw [← split.1, tag]
      · rw [← split.2.1, here]
      · rwa [← split.2.2]
    · rintro ⟨b, held, line, far, fits⟩
      obtain ⟨valid, pc', -, btype⟩ := BtbEntry.held_some held
      obtain ⟨tag, -, boff⟩ := btbPc_eq_iff.mp pc'
      exact ⟨⟨⟨valid, tag.trans (sameLine_iff.mp line).1⟩, boff ▸ far⟩, btype ▸ fits⟩
  have off : ∀ w b, (s.ways w).held i = some b → (s.ways w).boff = btbOff b.1 := fun w b held =>
    (btbPc_eq_iff.mp (BtbEntry.held_some held).2.1).2.2
  constructor
  · intro found
    obtain ⟨w, least, rfl⟩ := Option.map_eq_some_iff.mp found
    obtain ⟨picked, smallest⟩ := leastOf_some least
    obtain ⟨b, held, line, far, fits⟩ := (seen w).mp picked
    obtain ⟨-, -, target, btype⟩ := BtbEntry.held_some held
    refine ⟨b.1, ?_, line, far, ?_, off w b held, fun c on line' far' fits' => ?_⟩
    · refine holds.mem.mpr ⟨w, held.trans ?_⟩
      rw [hitAt, target, btype]
    · show kind (s.ways w).type = true
      rw [btype]
      exact fits
    · obtain ⟨w', held'⟩ := holds.mem.mp on
      have le := smallest w' ((seen w').mpr ⟨c, held', line', far', fits'⟩)
      rw [off w b held, off w' c held'] at le
      exact le
  · rintro ⟨b, on, line, far, fits, offset, smallest⟩
    obtain ⟨w, held⟩ := holds.mem.mp on
    have picked := (seen w).mpr ⟨_, held, line, far, fits⟩
    cases least : leastOf sel fun w => (s.ways w).boff.toNat with
    | none => cases picked.symm.trans (leastOf_none least w)
    | some w' =>
      obtain ⟨picked', smallest'⟩ := leastOf_some least
      obtain ⟨c, held', line', far', fits'⟩ := (seen w').mp picked'
      have le := smallest' w picked
      rw [off w _ held, off w' c held'] at le
      have ge := smallest c (holds.mem.mpr ⟨w', held'⟩) line' far' fits'
      -- Two branches of the line at one offset are one.
      have tags := sameLine_iff.mp line
      have tags' := sameLine_iff.mp line'
      have same : c.1 = b := addr_ext (tags'.1.trans tags.1.symm) (tags'.2.trans tags.2.symm)
        (BitVec.le_antisymm le ge)
      have one : c = (b, h.target, h.type) :=
        List.inj_on_of_nodup_map holds.distinct (holds.mem.mpr ⟨w', held'⟩) on same
      obtain ⟨-, -, target, btype⟩ := BtbEntry.held_some held'
      rw [BtbSet.nearest, least, Option.map_some, hitAt, target, btype, off w' c held', one, ← offset]

end BtbSet

-- ---------------------------------------------------------------------
-- A run
-- ---------------------------------------------------------------------

theorem recorded_concat (inputs : List BtbIn) (x : BtbIn) :
    recorded (inputs ++ [x]) = if x.flush then [] else recorded inputs ++ x.update.toList := by
  simp [recorded]

theorem remembered_concat (inputs : List BtbIn) (x : BtbIn) (i : BitVec 8) :
    remembered (inputs ++ [x]) i =
      if x.flush then []
      else match x.update with
        | some u =>
          if btbIdx u.pc = i then Recent.put 8 u.branch (remembered inputs i) else remembered inputs i
        | none => remembered inputs i := by
  rw [remembered, recorded_concat]
  cases flushes : x.flush with
  | true => rfl
  | false =>
    cases update : x.update with
    | none => simp [remembered]
    | some u =>
      by_cases here : btbIdx u.pc = i <;> simp [remembered, here, Recent.puts_concat]

/-- Every set holds the last eight branches that came to it. -/
theorem Btb.holds_run (inputs : List BtbIn) (i : BitVec 8) :
    (btbs.run .reset inputs i).Holds i (remembered inputs i) := by
  induction inputs using List.reverseRecOn with
  | nil => exact BtbSet.holds_empty (fun _ => rfl) rfl
  | append_singleton inputs x ih =>
    rw [Machine.run_append, remembered_concat]
    show (Btb.next (btbs.run .reset inputs) x i).Holds i _
    unfold Btb.next
    cases flushes : x.flush with
    | true => exact BtbSet.holds_empty (fun _ => rfl) rfl
    | false =>
      cases update : x.update with
      | none => exact ih
      | some u =>
        by_cases here : btbIdx u.pc = i
        · simp only [Bool.false_eq_true, if_false, here, if_true]
          exact ih.update here
        · simp only [Bool.false_eq_true, if_false, here, Ne.symm here]
          exact ih

theorem btb_nearest (inputs : List BtbIn) (pc : Addr) (h : BtbHit) :
    (btbs.run .reset inputs).hit pc = some h ↔
      Nearest (remembered inputs (btbIdx pc)) (fun _ => true) pc h :=
  (Btb.holds_run inputs (btbIdx pc)).nearest rfl (fun _ => true)
    (fun _ => (Bool.and_true _).symm) h

theorem btb_nearest_alt (inputs : List BtbIn) (pc : Addr) (h : BtbHit) :
    (btbs.run .reset inputs).altHit pc = some h ↔
      Nearest (remembered inputs (btbIdx pc)) (· != btCond) pc h :=
  (Btb.holds_run inputs (btbIdx pc)).nearest rfl (· != btCond) (fun _ => rfl) h

def lastUpdate (us : List BtbUpdate) (pc : Addr) : Option BtbUpdate :=
  us.reverse.find? fun u => u.pc == pc

/-- The updates that come to the set of a branch are all of its updates. -/
theorem lookup_branch (us : List BtbUpdate) (pc : Addr) :
    ((us.filter fun u => btbIdx u.pc = btbIdx pc).map BtbUpdate.branch).reverse.lookup pc =
      (lastUpdate us pc).map fun u => (u.target, u.type) := by
  rw [lastUpdate, ← List.map_reverse, ← List.filter_reverse]
  induction us.reverse with
  | nil => rfl
  | cons u us ih =>
    by_cases same : u.pc = pc
    · simp [same, BtbUpdate.branch]
    · rw [List.find?_cons_of_neg (by simpa using same), ← ih]
      by_cases here : btbIdx u.pc = btbIdx pc
      · rw [List.filter_cons_of_pos (by simpa using here), List.map_cons, BtbUpdate.branch,
          List.lookup_cons, beq_false_of_ne (Ne.symm same)]
      · rw [List.filter_cons_of_neg (by simpa using here)]

theorem lastUpdate_pc {us : List BtbUpdate} {pc : Addr} {u : BtbUpdate}
    (last : lastUpdate us pc = some u) : u.pc = pc := by
  simpa using List.find?_some last

/-- A lookup answers with the target and the type its branch was last recorded with. -/
theorem btb_recalls_last_update (inputs : List BtbIn) (pc : Addr) (h : BtbHit)
    (hits : (btbs.run .reset inputs).hit pc = some h) :
    ∃ u, lastUpdate (recorded inputs) u.pc = some u ∧ sameLine u.pc pc ∧ btbOff u.pc = h.offset ∧
      u.target = h.target ∧ u.type = h.type := by
  obtain ⟨b, on, line, -, -, offset, -⟩ := (btb_nearest inputs pc h).mp hits
  have last := Recent.lookup_of_mem_puts _ on
  rw [← (sameLine_iff.mp line).2, lookup_branch] at last
  obtain ⟨u, last, same⟩ := Option.map_eq_some_iff.mp last
  obtain rfl := lastUpdate_pc last
  rw [Prod.mk.injEq] at same
  exact ⟨u, last, line, offset.symm, same⟩

theorem recorded_append (before after : List BtbIn) (calm : ∀ x ∈ after, x.flush = false) :
    recorded (before ++ after) = recorded before ++ recorded after := by
  induction after using List.reverseRecOn with
  | nil => simp [recorded]
  | append_singleton after x ih =>
    have stays := calm x (List.mem_append_right _ List.mem_cons_self)
    rw [← List.append_assoc, recorded_concat, recorded_concat, stays,
      ih fun y on => calm y (List.mem_append_left _ on)]
    exact List.append_assoc ..

/-- A branch that is held is the next one at its own place. -/
theorem Btb.hit_of_mem (inputs : List BtbIn) {pc target : Addr} {btype : BitVec 3}
    (on : (pc, target, btype) ∈ remembered inputs (btbIdx pc)) :
    (btbs.run .reset inputs).hit pc = some ⟨target, btype, btbOff pc⟩ :=
  (btb_nearest inputs pc _).mpr ⟨pc, on, rfl, BitVec.le_refl _, rfl, rfl, fun _ _ _ far _ => far⟩

/-- A branch that comes new is found until eight others have come to its set, with the target and the
type it was last recorded with. -/
theorem btb_keeps_recent (before after : List BtbIn) (u : BtbUpdate)
    (new : ∀ h, (btbs.run .reset before).hit u.pc = some h → h.offset ≠ btbOff u.pc)
    (calm : ∀ x ∈ after, x.flush = false)
    (few : (((recorded after).filter fun v => btbIdx v.pc = btbIdx u.pc ∧ v.pc ≠ u.pc).map
      BtbUpdate.pc).toFinset.card < 8) :
    ∃ w, lastUpdate (u :: recorded after) u.pc = some w ∧
      (btbs.run .reset (before ++ ⟨false, some u⟩ :: after)).hit u.pc =
        some ⟨w.target, w.type, btbOff u.pc⟩ := by
  let come := (recorded after).filter fun v => btbIdx v.pc = btbIdx u.pc
  have absent : u.pc ∉ Recent.keys (remembered before (btbIdx u.pc)) := by
    intro on
    obtain ⟨⟨pc, target, btype⟩, on, same⟩ := List.mem_map.mp on
    obtain rfl : pc = u.pc := same
    exact new _ (Btb.hit_of_mem before on) rfl
  have others : ((Recent.keys (come.map BtbUpdate.branch)).filter (· ≠ u.pc)).toFinset.card < 8 := by
    refine lt_of_eq_of_lt (congrArg (fun l : List Addr => l.toFinset.card) ?_) few
    rw [Recent.keys, List.map_map, List.filter_map, List.filter_filter]
    refine congrArg (List.map BtbUpdate.pc) (List.filter_congr fun v _ => ?_)
    by_cases same : v.pc = u.pc <;> by_cases here : btbIdx v.pc = btbIdx u.pc <;>
      simp [BtbUpdate.branch, same, here]
  have distinct := (Btb.holds_run before (btbIdx u.pc)).distinct
  obtain ⟨w, last, on⟩ := Recent.mem_puts_of_few (v := (u.target, u.type))
    (come.map BtbUpdate.branch) absent distinct others
  have whole : remembered (before ++ ⟨false, some u⟩ :: after) (btbIdx u.pc) =
      Recent.puts 8 (remembered before (btbIdx u.pc)) (u.branch :: come.map BtbUpdate.branch) := by
    rw [List.append_cons, remembered, recorded_append _ _ calm, recorded_concat]
    simp [remembered, Recent.puts, come]
  have found := lookup_branch (u :: recorded after) u.pc
  rw [List.filter_cons_of_pos (by simp), List.map_cons, List.reverse_cons] at found
  obtain ⟨v, latest, same⟩ := Option.map_eq_some_iff.mp (found.symm.trans last)
  refine ⟨v, latest, Btb.hit_of_mem _ ?_⟩
  rw [whole]
  rw [← same] at on
  exact on

-- ---------------------------------------------------------------------
-- A jump
-- ---------------------------------------------------------------------

def jumpAt (pc target : Addr) : BtbIn := ⟨false, some ⟨pc, target, 1⟩⟩

/-- A jump is found with its target. -/
theorem btb_recalls_last_update_jump : ∃ u, lastUpdate
    (recorded [jumpAt 0x80000010 0x80000100, jumpAt 0x80000010 0x80000200]) u.pc = some u ∧
      sameLine u.pc 0x80000004 ∧ btbOff u.pc = 0x10 ∧ u.target = 0x80000200 ∧ u.type = 1 :=
  btb_recalls_last_update _ 0x80000004 ⟨0x80000200, 1, 0x10⟩ (by decide +kernel)

/-- And after another jump that lies in the same set. -/
theorem btb_keeps_recent_jump : ∃ w,
    lastUpdate (⟨0x80000010, 0x80000100, 1⟩ :: recorded [jumpAt 0x80004010 0x80000300]) 0x80000010 =
      some w ∧
      (btbs.run .reset ([] ++ jumpAt 0x80000010 0x80000100 :: [jumpAt 0x80004010 0x80000300])).hit
        0x80000010 = some ⟨w.target, w.type, 0x10⟩ :=
  btb_keeps_recent [] [jumpAt 0x80004010 0x80000300] ⟨0x80000010, 0x80000100, 1⟩
    (fun h hits => by cases hits) (by decide) (by decide +kernel)

end Rv64gc.Frontend
