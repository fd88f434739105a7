import Rv64gc.Cache.Dcache

/-!
# One place for a line

A line is in one way of its set or in one miss register, never in two. What keeps it so is that a
lookup sees every line of its set: the tags it compares are those of the current state.
-/

namespace Rv64gc.L1d

open Hdl

namespace Dcache

/-- The tags that were read have all lines of the set. -/
def Covers (s : Dcache) (out : Way → TagEntry) (set : SetIndex) : Prop :=
  ∀ w, (s.tags set w).valid = true → (out w).valid = true ∧ (out w).tag = (s.tags set w).tag

/-- The line is in no way. -/
def Absent (s : Dcache) (line : Line) : Prop :=
  ∀ w, (s.tags (indexOf line) w).valid = true → (s.tags (indexOf line) w).tag ≠ tagOf line

/-- No miss register tracks the line. -/
def Untracked (s : Dcache) (line : Line) : Prop :=
  ∀ m, (s.mshr m).valid = true → (s.mshr m).line ≠ line

structure Sound (s : Dcache) : Prop where
  ways : ∀ set w w', (s.tags set w).valid = true → (s.tags set w').valid = true →
    (s.tags set w).tag = (s.tags set w').tag → w = w'
  mshrs : ∀ m m', (s.mshr m).valid = true → (s.mshr m').valid = true →
    (s.mshr m).line = (s.mshr m').line → m = m'
  absent : ∀ m, (s.mshr m).valid = true → s.Absent (s.mshr m).line
  ld0 : ∀ l, s.ld0Line = some l → s.Covers s.outA (indexOf l)
  ld1 : ∀ l, s.ld1Line = some l → s.Covers s.outB (indexOf l)
  st : ∀ l, s.stLine = some l → s.Covers s.stOut (indexOf l)
  pf : ∀ l, s.pf = some l → s.Covers s.outB (indexOf l)

variable {s : Dcache} {i : Inputs} {en : Bool}

-- ---------------------------------------------------------------------
-- Lookups
-- ---------------------------------------------------------------------

theorem line_ext {l l' : Line} (index : indexOf l = indexOf l') (tag : tagOf l = tagOf l') :
    l = l' := by
  have split (l : Line) : l = (tagOf l ++ indexOf l).cast (by decide) := by
    unfold tagOf indexOf
    ext k inside
    simp only [BitVec.getElem_cast, BitVec.getElem_append, BitVec.getElem_extractLsb']
    split
    · simp [BitVec.getLsbD_eq_getElem inside]
    next high =>
      rw [show 8 + (k - 8) = k by omega, BitVec.getLsbD_eq_getElem inside]
  rw [split l, split l', index, tag]

theorem wayHit_none {out : Way → TagEntry} {line : Line} (miss : wayHit out line = none) (w : Way)
    (valid : (out w).valid = true) : (out w).tag ≠ tagOf line := by
  have no := lastOf_none.mp miss w
  simpa [valid] using no

theorem mshrMatch_none {line : Line} (miss : s.mshrMatch line = none) : s.Untracked line := by
  intro m valid
  have no := lastOf_none.mp miss m
  simpa [valid] using no

/-- A miss is a line that is nowhere. -/
theorem newMiss_nowhere {line : Option Line} {out : Way → TagEntry}
    (covers : ∀ l, line = some l → s.Covers out (indexOf l))
    (miss : s.newMiss i line (line.bind (wayHit out)) = true) :
    ∃ l, line = some l ∧ s.Absent l ∧ s.Untracked l := by
  simp only [newMiss, Bool.and_eq_true] at miss
  obtain ⟨⟨-, noHit⟩, noMatch⟩ := miss
  cases line with
  | none => simp at noMatch
  | some l =>
    refine ⟨l, rfl, fun w valid same => ?_, ?_⟩
    · obtain ⟨seen, tag⟩ := covers l rfl w valid
      have missed : wayHit out l = none := by simpa using noHit
      exact wayHit_none missed w seen (tag.trans same)
    · exact mshrMatch_none (by simpa using noMatch)

-- ---------------------------------------------------------------------
-- Installs
-- ---------------------------------------------------------------------

theorem fillDoneIdx_valid (done : s.fillDoneIdx = some m) : (s.mshr m).valid = true := by
  have picked := firstOf_some done
  simp only [Bool.and_eq_true] at picked
  exact picked.1.1

theorem nwaValidateIdx_valid (full : s.nwaValidateIdx = some m) : (s.mshr m).valid = true := by
  unfold nwaValidateIdx at full
  split at full
  · have picked := firstOf_some full
    simp only [Bool.and_eq_true] at picked
    exact picked.1.1.1
  · cases full

theorem installIdx_cases (install : s.installIdx = some m) :
    s.fillDoneIdx = some m ∨ s.nwaValidateIdx = some m := by
  unfold installIdx at install
  cases done : s.fillDoneIdx with
  | none =>
    rw [done] at install
    exact .inr install
  | some m' =>
    rw [done] at install
    exact .inl install

theorem installIdx_ne (noFill : s.fillDoneIdx ≠ some m) (noValidate : s.nwaValidateIdx ≠ some m) :
    s.installIdx ≠ some m := by
  intro install
  rcases installIdx_cases install with done | full
  · exact noFill done
  · exact noValidate full

theorem installIdx_valid (install : s.installIdx = some m) : (s.mshr m).valid = true := by
  rcases installIdx_cases install with done | full
  · exact fillDoneIdx_valid done
  · exact nwaValidateIdx_valid full

/-- What a set holds after a write. -/
theorem readOut_cases (set : SetIndex) (w : Way) :
    s.readOut set w = s.tags set w ∨
      ∃ m, s.installIdx = some m ∧ set = indexOf (s.mshr m).line ∧ w = (s.mshr m).victim ∧
        s.readOut set w = ⟨true, false, tagOf (s.mshr m).line⟩ := by
  unfold readOut tagWrite
  cases install : s.installIdx with
  | none => exact .inl rfl
  | some m =>
    by_cases here : indexOf (s.mshr m).line = set ∧ (s.mshr m).victim = w
    · refine .inr ⟨m, rfl, here.1.symm, here.2.symm, ?_⟩
      simp [here]
    · refine .inl ?_
      simp [here]

theorem nextTags_valid {set : SetIndex} {w : Way} (valid : (s.nextTags i set w).valid = true) :
    s.nextTags i set w = s.readOut set w := by
  unfold nextTags at valid ⊢
  cases inv : i.invalidateAll with
  | false => rfl
  | true =>
    rw [inv] at valid
    cases valid

/-- A valid entry was there, or its line is installed. -/
theorem nextTags_cases {set : SetIndex} {w : Way} (valid : (s.nextTags i set w).valid = true) :
    s.nextTags i set w = s.tags set w ∨
      ∃ m, s.installIdx = some m ∧ set = indexOf (s.mshr m).line ∧ w = (s.mshr m).victim ∧
        s.nextTags i set w = ⟨true, false, tagOf (s.mshr m).line⟩ := by
  rw [nextTags_valid valid]
  exact readOut_cases set w

-- ---------------------------------------------------------------------
-- The miss registers
-- ---------------------------------------------------------------------

/-- The free entry takes a line that is nowhere. -/
theorem allocated_nowhere (sound : s.Sound) {old e : Mshr} (new : s.allocated i old = some e) :
    s.Absent e.line ∧ s.Untracked e.line := by
  unfold allocated at new
  split_ifs at new with load0 load1 store prefetch
  · simp only [ld0MissAllocSel, Bool.and_eq_true] at load0
    obtain ⟨l, line, nowhere⟩ := newMiss_nowhere sound.ld0 load0.1
    rw [line] at new
    cases new
    exact nowhere
  · simp only [ld1MissAllocSel, Bool.and_eq_true] at load1
    obtain ⟨l, line, nowhere⟩ := newMiss_nowhere sound.ld1 load1.1.2
    rw [line] at new
    cases new
    exact nowhere
  · simp only [stCanAllocateMshr, Bool.and_eq_true] at store
    obtain ⟨l, line, nowhere⟩ := newMiss_nowhere sound.st store.1.1
    obtain ⟨st, here, rfl⟩ := Option.map_eq_some_iff.mp line
    rw [here] at new
    cases new
    exact nowhere
  · simp only [pfFillAllocSel, Bool.and_eq_true] at prefetch
    obtain ⟨l, line, nowhere⟩ := newMiss_nowhere sound.pf prefetch.1.1.1.1.1.1
    rw [line] at new
    cases new
    exact nowhere

theorem nextMshr_line (m : MshrIdx) : (s.nextMshr i m).line =
    (if s.mshrFree = some m then ((s.allocated i (s.mshr m)).getD (s.mshr m)).line
      else (s.mshr m).line) := by
  simp only [nextMshr, upgrade, apply_ite Mshr.line, ite_self]

theorem nextMshr_valid (m : MshrIdx) : (s.nextMshr i m).valid =
    (if s.fillDoneIdx = some m then false
      else if s.nwaValidateIdx = some m then false
      else if s.mshrFree = some m then ((s.allocated i (s.mshr m)).getD (s.mshr m)).valid
      else (s.mshr m).valid) := by
  simp only [nextMshr, upgrade, apply_ite Mshr.valid, ite_self]

/-- A valid entry goes on with its line, or is new. -/
theorem nextMshr_cases {m : MshrIdx} (valid : (s.nextMshr i m).valid = true) :
    (s.mshr m).valid = true ∧ (s.nextMshr i m).line = (s.mshr m).line ∧ s.installIdx ≠ some m ∨
      s.mshrFree = some m ∧
        ∃ e, s.allocated i (s.mshr m) = some e ∧ (s.nextMshr i m).line = e.line := by
  rw [nextMshr_line]
  rw [nextMshr_valid] at valid
  split_ifs at valid with done full free
  · rw [if_pos free]
    cases new : s.allocated i (s.mshr m) with
    | some e => exact .inr ⟨free, e, rfl, rfl⟩
    | none =>
      rw [new] at valid
      exact .inl ⟨valid, rfl, installIdx_ne done full⟩
  · rw [if_neg free]
    exact .inl ⟨valid, rfl, installIdx_ne done full⟩

-- ---------------------------------------------------------------------
-- The invariant
-- ---------------------------------------------------------------------

theorem covers_next {set : SetIndex} :
    (s.next i en).Covers (s.readOut set) set := by
  intro w valid
  have same : s.nextTags i set w = s.readOut set w := nextTags_valid valid
  have valid : (s.nextTags i set w).valid = true := valid
  show _ ∧ _ = (s.nextTags i set w).tag
  rw [same] at valid ⊢
  exact ⟨valid, rfl⟩

theorem Sound.next_ways (sound : s.Sound) (set : SetIndex) (w w' : Way)
    (valid : (s.nextTags i set w).valid = true) (valid' : (s.nextTags i set w').valid = true)
    (same : (s.nextTags i set w).tag = (s.nextTags i set w').tag) : w = w' := by
  rcases nextTags_cases valid with old | ⟨m, install, place, way, new⟩
  · rcases nextTags_cases valid' with old' | ⟨m, install, place, way, new⟩
    · rw [old] at valid same
      rw [old'] at valid' same
      exact sound.ways set w w' valid valid' same
    · rw [old] at valid same
      rw [new] at same
      have away := sound.absent m (installIdx_valid install) w
      rw [← place] at away
      exact absurd same (away valid)
  · rcases nextTags_cases valid' with old' | ⟨m', install', place', way', new'⟩
    · rw [old'] at valid' same
      rw [new] at same
      have away := sound.absent m (installIdx_valid install) w'
      rw [← place] at away
      exact absurd same.symm (away valid')
    · rw [install] at install'
      cases install'
      exact way.trans way'.symm

theorem Sound.next_mshrs (sound : s.Sound) (m m' : MshrIdx)
    (valid : (s.nextMshr i m).valid = true) (valid' : (s.nextMshr i m').valid = true)
    (same : (s.nextMshr i m).line = (s.nextMshr i m').line) : m = m' := by
  rcases nextMshr_cases valid with ⟨old, line, -⟩ | ⟨free, e, new, line⟩
  · rcases nextMshr_cases valid' with ⟨old', line', -⟩ | ⟨-, e', new', line'⟩
    · exact sound.mshrs m m' old old' (line.symm.trans (same.trans line'))
    · have away := (allocated_nowhere sound new').2 m old
      exact absurd (line.symm.trans (same.trans line')) away
  · rcases nextMshr_cases valid' with ⟨old', line', -⟩ | ⟨free', -⟩
    · have away := (allocated_nowhere sound new).2 m' old'
      exact absurd (line'.symm.trans (same.symm.trans line)) away
    · rw [free] at free'
      exact Option.some.inj free'

theorem Sound.next_absent (sound : s.Sound) (m : MshrIdx)
    (valid : (s.nextMshr i m).valid = true) : (s.next i en).Absent (s.nextMshr i m).line := by
  intro w present same
  have present : (s.nextTags i (indexOf (s.nextMshr i m).line) w).valid = true := present
  have same : (s.nextTags i (indexOf (s.nextMshr i m).line) w).tag = tagOf (s.nextMshr i m).line :=
    same
  rcases nextTags_cases present with kept | ⟨m', install, place, -, written⟩
  · rw [kept] at present same
    rcases nextMshr_cases valid with ⟨old, line, -⟩ | ⟨-, e, new, line⟩
    · rw [line] at present same
      exact sound.absent m old w present same
    · rw [line] at present same
      exact (allocated_nowhere sound new).1 w present same
  · -- The line that is installed is another one.
    rw [written] at same
    have one : (s.mshr m').line = (s.nextMshr i m).line := line_ext place.symm same
    rcases nextMshr_cases valid with ⟨old, line, stays⟩ | ⟨-, e, new, line⟩
    · have here := sound.mshrs m' m (installIdx_valid install) old (one.trans line)
      exact stays (here ▸ install)
    · exact (allocated_nowhere sound new).2 m' (installIdx_valid install) (one.trans line)

theorem next_ld0 {l : Line} (line : (s.next i en).ld0Line = some l) : s.raddrA i = indexOf l := by
  obtain ⟨a, here, rfl⟩ := Option.map_eq_some_iff.mp line
  have here : i.load0 = some a := here
  simp [raddrA, here]

theorem next_ld1 {l : Line} (line : (s.next i en).ld1Line = some l) :
    s.raddrB i en = indexOf l := by
  obtain ⟨a, here, rfl⟩ := Option.map_eq_some_iff.mp line
  have here : i.load1 = some a := here
  simp [raddrB, here]

/-- A store is looked up through the port that reads its set. -/
theorem next_st {l : Line} (line : (s.next i en).stLine = some l) :
    ∃ set, (s.next i en).stOut = s.readOut set ∧ set = indexOf l := by
  obtain ⟨st, here, rfl⟩ := Option.map_eq_some_iff.mp line
  have there : (if (s.grantA i || s.grantB i) && (s.s0StBypass i || !s.storeAckMatchesHead i) then
      (s.s0Store i).map fun req => (⟨req, i.storeIsPtw && !s.s0StBypass i, s.grantB i⟩ : StoreS1)
    else none) = some st := here
  split at there
  next granted =>
    obtain ⟨req, looked, rfl⟩ := Option.map_eq_some_iff.mp there
    unfold stOut
    rw [here]
    cases portB : s.grantB i with
    | true =>
      refine ⟨s.raddrB i en, by simp [Dcache.next], ?_⟩
      have idle := portB
      simp only [grantB, Bool.and_eq_true, Option.isNone_iff_eq_none] at idle
      simp [raddrB, idle.2, portB, looked]
    | false =>
      have portA : s.grantA i = true := by
        rw [portB, Bool.or_false, Bool.and_eq_true] at granted
        exact granted.1
      refine ⟨s.raddrA i, by simp [Dcache.next], ?_⟩
      simp only [grantA, Bool.and_eq_true, Option.isNone_iff_eq_none] at portA
      simp [raddrA, portA.2, looked]
  next => cases there

theorem next_pf {l : Line} (line : (s.next i en).pf = some l) : s.raddrB i en = indexOf l := by
  have probe : s.pfProbe i en = some l := line
  have granted := probe
  unfold pfProbe at granted
  split at granted
  next idle =>
    simp only [Bool.and_eq_true, Option.isNone_iff_eq_none, Bool.not_eq_true'] at idle
    simp [raddrB, idle.1.2, idle.2, probe]
  next => cases granted

theorem Sound.next (sound : s.Sound) : (s.next i en).Sound where
  ways := sound.next_ways
  mshrs := sound.next_mshrs
  absent := sound.next_absent
  ld0 l line := by
    rw [← next_ld0 line]
    exact covers_next
  ld1 l line := by
    rw [← next_ld1 line]
    exact covers_next
  st l line := by
    obtain ⟨set, out, rfl⟩ := next_st line
    rw [out]
    exact covers_next
  pf l line := by
    rw [← next_pf line]
    exact covers_next

theorem Sound.reset : (reset : Dcache).Sound where
  ways _ _ _ valid := by cases valid
  mshrs _ _ valid := by cases valid
  absent _ valid := by cases valid
  ld0 _ line := by cases line
  ld1 _ line := by cases line
  st _ line := by cases line
  pf _ line := by cases line

/-- A store hit that is acknowledged as a line is installed is one to this line. -/
theorem ack_install (install : s.installIdx = some m) (hit : s.stHit.isSome = true)
    (ack : s.storeAckS1 i = true) : s.stLine = some (s.mshr m).line := by
  have notDeferred : s.nwaStoreAccept i = false := by
    cases here : s.stHit with
    | none => simp [here] at hit
    | some w => simp [nwaStoreAccept, here]
  simp only [storeAckS1, notDeferred, Bool.or_false, Bool.and_eq_true, storeProducesWt,
    Bool.or_eq_true] at ack
  obtain ⟨⟨⟨-, merges | ⟨⟨⟨noFill, noValidate⟩, -⟩, -⟩⟩, -⟩, -⟩ := ack
  · unfold fillDoneStoreMerge at merges
    unfold installIdx at install
    cases done : s.fillDoneIdx with
    | none => simp [done] at merges
    | some m' =>
      rw [done] at install merges
      cases install
      rw [Bool.and_eq_true] at merges
      simpa using merges.2
  · unfold installIdx at install
    rw [Option.isNone_iff_eq_none] at noFill noValidate
    rw [noFill, noValidate] at install
    cases install

end Dcache

/-- In every reachable state a line is in one way or one miss register, what is installed is not
there yet, and a store hit that is acknowledged in the cycle of an install is to the same line. -/
theorem dcache_lines_unique (en : Bool) (s : Dcache) (reach : (dcacheRuns en).Reachable s) :
    (∀ set w w', (s.tags set w).valid = true → (s.tags set w').valid = true →
      (s.tags set w).tag = (s.tags set w').tag → w = w') ∧
    (∀ m m', (s.mshr m).valid = true → (s.mshr m').valid = true →
      (s.mshr m).line = (s.mshr m').line → m = m') ∧
    (∀ m, s.installIdx = some m → s.Absent (s.mshr m).line) ∧
    ∀ i m, s.installIdx = some m → s.stHit.isSome = true → s.storeAckS1 i = true →
      s.stLine = some (s.mshr m).line := by
  have sound : s.Sound := by
    refine reach.invariant Dcache.Sound .reset ?_
    intro s i _ sound _ _
    exact sound.next
  refine ⟨sound.ways, sound.mshrs, fun m install => ?_, fun i m => Dcache.ack_install⟩
  exact sound.absent m (Dcache.installIdx_valid install)

-- ---------------------------------------------------------------------
-- A load hit on a line that is being replaced
-- ---------------------------------------------------------------------

namespace Inputs

/-- A cycle with L2 ready. -/
def quiet : Inputs := ⟨none, none, none, false, none, true, none, none, false⟩

def load (addr : BitVec 64) : Inputs := { quiet with load0 := some addr }

def answer (line : Line) : Inputs := { quiet with l2Resp := some line }

/-- Two misses in one set, both with way 1 for their victim, and a load of the first line as the
second one arrives. -/
def replaces : List Inputs :=
  [load 0x4000, load 0x8000, quiet, quiet, answer 0x100, quiet, quiet,
    { load 0x4000 with l2Resp := some 0x200 }]

end Inputs

theorem legal_any {s : Dcache} (inputs : List Inputs) : (dcacheRuns en).Legal s inputs := by
  induction inputs generalizing s with
  | nil => trivial
  | cons i rest ih => exact ⟨trivial, ih⟩

theorem dcache_lines_unique_one :
    ((dcacheRuns false).run .reset Inputs.replaces).Absent
      (((dcacheRuns false).run .reset Inputs.replaces).mshr 1).line := by
  have reach : (dcacheRuns false).Reachable ((dcacheRuns false).run .reset Inputs.replaces) :=
    Machine.Reachable.run .reset (legal_any _)
  exact (dcache_lines_unique false _ reach).2.2.1 1 (by decide +kernel)

/-- A load hits the way that the install of the same cycle overwrites. -/
theorem load_hit_replaced : ∃ s, (dcacheRuns false).Reachable s ∧ ∃ m,
    s.installIdx = some m ∧ s.ld0Line.map indexOf = some (indexOf (s.mshr m).line) ∧
      s.ld0Hit = some (s.mshr m).victim ∧ s.ld0Line ≠ some (s.mshr m).line := by
  refine ⟨(dcacheRuns false).run .reset Inputs.replaces, Machine.Reachable.run .reset (legal_any _),
    1, ?_, ?_, ?_, ?_⟩ <;> decide +kernel

end Rv64gc.L1d
