import Rv64gc.Frontend.Icache
import Rv64gc.Hdl.Machine

/-!
# Lines of the instruction cache

Which line every answer carries, how long a miss is tracked, and when a set holds a line once. The
tag RAM is read before it is written, so a request that is looked up while its own line is being
installed misses, and the line is fetched again into another way.
-/

namespace Rv64gc.Frontend

open Hdl

/-- A tag and a set make a line. -/
theorem tag_set_line (a : Addr) : tagOf a ++ setOf a = lineOf a := by
  apply BitVec.eq_of_getLsbD_eq
  intro k inside
  simp only [tagOf, setOf, lineOf, BitVec.getLsbD_append, BitVec.getLsbD_extractLsb']
  split
  · simp [show k < 58 by omega]
    omega
  · simp [show k < 58 by omega, show k - 6 < 52 by omega, show 12 + (k - 6) = 6 + k by omega]

theorem lineOf_eq {a b : Addr} (set : setOf a = setOf b) (tag : tagOf a = tagOf b) :
    lineOf a = lineOf b := by
  rw [← tag_set_line a, ← tag_set_line b, set, tag]

namespace Icache

variable {α : Type} (Carries : BitVec 58 → α → Prop) (s : Icache α) (i : IcacheIn α)

-- ---------------------------------------------------------------------
-- Runs
-- ---------------------------------------------------------------------

/-- A request is indexed inside its page, and the L2 answers with a line of the address it
names. When it answers, and whether it was asked, is left open. -/
structure Drives : Prop where
  index : i.reqValid = true → setOf i.reqAddr = setOf i.reqPa
  fill : ∀ f, i.fillResp = some f → Carries (lineOf f.addr) f.data

def icacheRuns [Inhabited α] : Machine (Icache α) (IcacheIn α) where
  reset := .reset
  next := Icache.next
  legal _ i := Drives Carries i

/-- A valid way of the set holds the line. -/
def HoldsLine (line : BitVec 58) : Prop :=
  ∃ set way, s.validArr set way = true ∧ s.tagArr set way ++ set = line

/-- The miss register waits for the line. -/
def Tracks (m : Fin 2) (line : BitVec 58) : Prop :=
  (s.mshr m).valid = true ∧ lineOf (s.mshr m).addr = line

/-- The request looked up in this cycle is for the line the cycle installs. -/
def LooksUpInstalled : Prop :=
  i.reqValid = true ∧ i.invalidateAll = false ∧
    ∃ e, s.install i = some e ∧ lineOf e.addr = lineOf i.reqPa

/-- What every run keeps. -/
structure Sound : Prop where
  ways : ∀ set way, s.validArr set way = true →
    Carries (s.tagArr set way ++ set) (s.dataArr way set)
  read : s.s1Valid = true → ∀ way, s.validOut way = true →
    Carries (s.tagOut way ++ setOf s.s1Addr) (s.rdata way)
  index : s.s1Valid = true → setOf s.s1Addr = setOf s.s1Pa
  /-- An answer is installed as it arrives: none is ever stored. -/
  idle : ∀ m, (s.mshr m).valid = true → (s.mshr m).fillDone = false
  apart : ∀ m n line, s.Tracks m line → s.Tracks n line → m = n

/-- No line is there twice. -/
structure Once : Prop where
  ways : ∀ set v w, s.validArr set v = true → s.validArr set w = true →
    s.tagArr set v = s.tagArr set w → v = w
  tracked : ∀ m line, s.Tracks m line → ¬s.HoldsLine line
  missed : s.s1Valid = true → s.hitWay = none → ¬s.HoldsLine (lineOf s.s1Pa)

variable {Carries} {s : Icache α} {i : IcacheIn α} {m n : Fin 2} {line : BitVec 58}

-- ---------------------------------------------------------------------
-- One cycle
-- ---------------------------------------------------------------------

/-- The answer a cycle installs is for the register it frees. -/
theorem install_cases (idle : ∀ m, (s.mshr m).valid = true → (s.mshr m).fillDone = false)
    (writes : s.install i = some e) :
    ∃ k f, i.fillResp = some f ∧ s.scInstall i = some (k, f) ∧ s.Tracks k (lineOf e.addr) ∧
      lineOf f.addr = lineOf e.addr ∧ e.data = f.data := by
  unfold install at writes
  split at writes
  next k f sc =>
    cases writes
    obtain ⟨arrives, awaited⟩ := scInstall_cases sc
    simp only [awaits, Bool.and_eq_true, beq_iff_eq] at awaited
    exact ⟨k, f, arrives, sc, ⟨awaited.1.1, rfl⟩, awaited.2, rfl⟩
  next =>
    obtain ⟨k, first, rfl⟩ := Option.map_eq_some_iff.mp writes
    have found := firstOf_some first
    simp only [Bool.and_eq_true] at found
    simp [idle k found.1] at found

/-- A register in use after the cycle was in use before it, and its line has not come, or it takes
the request of stage 1. -/
theorem mshrNext_valid (valid : (s.mshrNext i m).valid = true) :
    i.invalidateAll = false ∧
      (((s.mshr m).valid = true ∧ (s.mshrNext i m).addr = (s.mshr m).addr ∧
          ∀ f, s.scInstall i ≠ some (m, f)) ∨
        ((s.mshrNext i m).addr = s.s1Pa ∧ s.allocates i = true ∧ s.freeIdx = some m)) := by
  cases fence : i.invalidateAll with
  | true => simp [mshrNext, fence] at valid
  | false =>
    refine ⟨rfl, ?_⟩
    unfold mshrNext at *
    simp only [fence, Bool.false_eq_true, if_false] at valid ⊢
    cases takes : s.allocates i && s.freeIdx == some m with
    | true =>
      refine .inr ⟨?_, by simpa using takes⟩
      simp only [if_true]
      split
      all_goals repeat' split
      all_goals rfl
    | false =>
      left
      simp only [takes, Bool.false_eq_true, if_false] at valid ⊢
      grind

theorem tracks_next (tracked : (s.next i).Tracks m line) :
    i.invalidateAll = false ∧
      ((s.Tracks m line ∧ ∀ f, s.scInstall i ≠ some (m, f)) ∨
        (line = lineOf s.s1Pa ∧ s.s1Valid = true ∧ s.hitWay = none ∧ s.addrMatch = false ∧
          s.freeIdx = some m)) := by
  obtain ⟨valid, rfl⟩ := tracked
  obtain ⟨keeps, ⟨old, same, waits⟩ | ⟨new, takes, free⟩⟩ := mshrNext_valid valid
  · exact ⟨keeps, .inl ⟨⟨old, congrArg lineOf same.symm⟩, waits⟩⟩
  · simp only [allocates, Bool.and_eq_true, Bool.not_eq_true', Option.isNone_iff_eq_none] at takes
    obtain ⟨⟨⟨looks, misses⟩, -⟩, new'⟩ := takes
    exact ⟨keeps, .inr ⟨congrArg lineOf new, looks, misses, new', free⟩⟩

theorem tracks_new (addrMatch : s.addrMatch = false) : ¬s.Tracks m (lineOf s.s1Pa) := by
  rintro ⟨valid, same⟩
  simp only [Icache.addrMatch, List.any_eq_false] at addrMatch
  have none_ := addrMatch m (List.mem_finRange m)
  simp [valid, same] at none_

theorem idle_next (idle : ∀ m, (s.mshr m).valid = true → (s.mshr m).fillDone = false) (m : Fin 2)
    (valid : ((s.next i).mshr m).valid = true) : ((s.next i).mshr m).fillDone = false := by
  cases done : ((s.next i).mshr m).fillDone with
  | false => rfl
  | true =>
    exfalso
    have awaited : ∀ f, i.fillResp = some f → s.awaits f m = true →
        ∃ k, s.scInstall i = some (k, f) := by
      intro f arrives waits
      cases last : lastOf (s.awaits f) with
      | none => exact absurd (lastOf_none.mp last m) (by simp [waits])
      | some k => exact ⟨k, by simp [scInstall, arrives, last]⟩
    have before := idle m
    simp only [Icache.next, mshrNext] at valid done
    grind

/-- The ways hold what they held and the line that is installed. -/
theorem holdsLine_next (holds : (s.next i).HoldsLine line) :
    i.invalidateAll = false ∧
      (s.HoldsLine line ∨ ∃ e, s.install i = some e ∧ lineOf e.addr = line) := by
  obtain ⟨set, way, valid, rfl⟩ := holds
  simp only [Icache.next, validArrNext, tagArrNext] at *
  cases fence : i.invalidateAll with
  | true => simp [fence] at valid
  | false =>
    refine ⟨rfl, ?_⟩
    simp only [fence, Bool.false_eq_true, if_false] at valid ⊢
    cases writes : s.install i with
    | none => exact .inl ⟨set, way, by simpa [writes] using valid, by simp⟩
    | some e =>
      by_cases there : set = setOf e.addr ∧ way = e.victim
      · exact .inr ⟨e, rfl, by simp [there, tag_set_line]⟩
      · exact .inl ⟨set, way, by simpa [writes, there] using valid, by simp [there]⟩

theorem holdsLine_installed (keeps : i.invalidateAll = false) (writes : s.install i = some e) :
    (s.next i).HoldsLine (lineOf e.addr) := by
  refine ⟨setOf e.addr, e.victim, ?_, ?_⟩
  · simp [Icache.next, validArrNext, keeps, writes]
  · simp [Icache.next, tagArrNext, keeps, writes, tag_set_line]

-- ---------------------------------------------------------------------
-- What every run keeps
-- ---------------------------------------------------------------------

theorem sound_reset [Inhabited α] : (reset : Icache α).Sound Carries where
  ways := nofun
  read := nofun
  index := nofun
  idle := nofun
  apart := nofun

theorem Sound.next (sound : s.Sound Carries) (drives : Drives Carries i) :
    (s.next i).Sound Carries where
  ways set way valid := by
    simp only [Icache.next, validArrNext, tagArrNext, dataArrNext] at valid ⊢
    cases fence : i.invalidateAll with
    | true => simp [fence] at valid
    | false =>
      simp only [fence, Bool.false_eq_true, if_false] at valid ⊢
      cases writes : s.install i with
      | none => exact sound.ways set way (by simpa [writes] using valid)
      | some e =>
        by_cases there : set = setOf e.addr ∧ way = e.victim
        · obtain ⟨k, f, arrives, -, -, same, data⟩ := install_cases sound.idle writes
          have carries := drives.fill f arrives
          simpa [there, tag_set_line, same, data] using carries
        · simpa [there] using sound.ways set way (by simpa [writes, there] using valid)
  read _ way valid := sound.ways _ way valid
  index valid := drives.index valid
  idle := idle_next sound.idle
  apart m n line trackedM trackedN := by
    obtain ⟨-, oldM⟩ := tracks_next trackedM
    obtain ⟨-, oldN⟩ := tracks_next trackedN
    obtain ⟨oldM, -⟩ | ⟨rfl, -, -, newM, firstM⟩ := oldM
    · obtain ⟨oldN, -⟩ | ⟨rfl, -, -, newN, -⟩ := oldN
      · exact sound.apart m n line oldM oldN
      · exact absurd oldM (tracks_new newN)
    · obtain ⟨oldN, -⟩ | ⟨-, -, -, -, firstN⟩ := oldN
      · exact absurd oldN (tracks_new newM)
      · exact Option.some.inj (firstM.symm.trans firstN)

/-- What a cycle finds and does about misses and answers. -/
structure Serves [Inhabited α] (Carries : BitVec 58 → α → Prop) (s : Icache α) : Prop where
  /-- An answer is for the request of stage 1, with a line of its physical address. -/
  answers : ∀ i r, Drives Carries i → s.resp i = some r →
    s.s1Valid = true ∧ Carries (lineOf s.s1Pa) r.data
  apart : ∀ m n line, s.Tracks m line → s.Tracks n line → m = n
  /-- A miss has a register or takes a free one. -/
  taken : ∀ i, s.s1Valid = true → s.hitWay = none → i.invalidateAll = false →
    (∃ m, (s.mshr m).valid = false) →
    ∃ m, s.Tracks m (lineOf s.s1Pa) ∨ (s.next i).Tracks m (lineOf s.s1Pa)
  /-- The register is kept over any cycles without the line's answer and without FENCE.I. -/
  kept : ∀ inputs m line, s.Tracks m line →
    (∀ i ∈ inputs, i.invalidateAll = false ∧ ∀ f, i.fillResp = some f → lineOf f.addr ≠ line) →
    ((icacheRuns Carries).run s inputs).Tracks m line
  /-- The answer is installed, and a request for the line that is in stage 1 gets it. -/
  arrives : ∀ i m f, s.Tracks m (lineOf f.addr) → i.fillResp = some f → i.invalidateAll = false →
    (s.next i).HoldsLine (lineOf f.addr) ∧
      ((s.mshr m).reqSent = true → s.s1Valid = true → lineOf s.s1Pa = lineOf f.addr →
        s.resp i = some ⟨f.data, false⟩)

theorem Sound.answers (sound : s.Sound Carries) (drives : Drives Carries i)
    (answer : s.resp i = some r) : s.s1Valid = true ∧ Carries (lineOf s.s1Pa) r.data := by
  unfold Icache.resp at answer
  split at answer
  next d fwd =>
    cases answer
    obtain ⟨f, arrives, forwarded, rfl⟩ | ⟨m, valid, done, rfl⟩ := mshrFwd_cases fwd
    · simp only [forwards, Bool.and_eq_true, beq_iff_eq] at forwarded
      have carries := drives.fill f arrives
      rw [forwarded.2] at carries
      exact ⟨forwarded.1.1, carries⟩
    · simp [sound.idle m valid] at done
  next =>
    split at answer
    next looked =>
      obtain ⟨w, hit, rfl⟩ := Option.map_eq_some_iff.mp answer
      simp only [Bool.and_eq_true] at looked
      have found := lastOf_some hit
      simp only [Bool.and_eq_true, beq_iff_eq] at found
      have carries := sound.read looked.1 w found.1
      rw [found.2, sound.index looked.1, tag_set_line] at carries
      exact ⟨looked.1, carries⟩
    next => cases answer

/-- A register goes on until its line is installed. -/
theorem Tracks.next (tracked : s.Tracks m line) (keeps : i.invalidateAll = false)
    (idle : ∀ m, (s.mshr m).valid = true → (s.mshr m).fillDone = false)
    (waits : ∀ f, i.fillResp = some f → lineOf f.addr ≠ line) : (s.next i).Tracks m line := by
  obtain ⟨valid, rfl⟩ := tracked
  have busy : (s.freeIdx == some m) = false := by
    cases free : s.freeIdx with
    | none => rfl
    | some k =>
      have found := firstOf_some free
      by_cases same : k = m
      · simp [same, valid] at found
      · simpa using same
  have other : ∀ k f, s.scInstall i = some (k, f) → k ≠ m := by
    rintro k f sc rfl
    obtain ⟨arrives, awaited⟩ := scInstall_cases sc
    simp only [awaits, Bool.and_eq_true, beq_iff_eq] at awaited
    exact waits f arrives awaited.2
  have notStored : s.installIdx ≠ some m := by
    intro first
    have found := firstOf_some first
    simp only [Bool.and_eq_true] at found
    simp [idle m found.1] at found
  simp only [Icache.next, Tracks, mshrNext, keeps, busy, Bool.and_false, Bool.false_eq_true,
    if_false]
  grind

theorem Tracks.run [Inhabited α] (tracked : s.Tracks m line)
    (idle : ∀ m, (s.mshr m).valid = true → (s.mshr m).fillDone = false)
    (inputs : List (IcacheIn α))
    (waits : ∀ i ∈ inputs,
      i.invalidateAll = false ∧ ∀ f, i.fillResp = some f → lineOf f.addr ≠ line) :
    ((icacheRuns Carries).run s inputs).Tracks m line := by
  induction inputs generalizing s with
  | nil => exact tracked
  | cons i rest ih =>
    obtain ⟨keeps, none_⟩ := waits i List.mem_cons_self
    exact ih (tracked.next keeps idle none_) (idle_next idle)
      fun j on => waits j (List.mem_cons_of_mem i on)

theorem Sound.taken (looks : s.s1Valid = true) (misses : s.hitWay = none)
    (keeps : i.invalidateAll = false) (free : ∃ m, (s.mshr m).valid = false) :
    ∃ m, s.Tracks m (lineOf s.s1Pa) ∨ (s.next i).Tracks m (lineOf s.s1Pa) := by
  cases has : s.addrMatch with
  | true =>
    simp only [addrMatch, List.any_eq_true, Bool.and_eq_true, beq_iff_eq] at has
    obtain ⟨m, -, valid, same⟩ := has
    exact ⟨m, .inl ⟨valid, same⟩⟩
  | false =>
    cases first : s.freeIdx with
    | none =>
      obtain ⟨m, invalid⟩ := free
      have busy := firstOf_none.mp first m
      simp [invalid] at busy
    | some k =>
      have unused : (s.mshr k).valid = false := by simpa using firstOf_some first
      have notAwaited : ∀ m f, s.scInstall i = some (m, f) → m ≠ k := by
        rintro m f sc rfl
        simpa [awaits, unused] using (scInstall_cases sc).2
      have notStored : s.installIdx ≠ some k := by
        intro stored
        simpa [unused] using firstOf_some stored
      have takes : s.allocates i = true := by simp [allocates, looks, misses, keeps, has]
      refine ⟨k, .inr ?_⟩
      simp only [Icache.next, Tracks, mshrNext, keeps, takes, first]
      grind

theorem Sound.arrives (sound : s.Sound Carries) (tracked : s.Tracks m (lineOf f.addr))
    (arrives : i.fillResp = some f) (keeps : i.invalidateAll = false) :
    (s.next i).HoldsLine (lineOf f.addr) ∧
      ((s.mshr m).reqSent = true → s.s1Valid = true → lineOf s.s1Pa = lineOf f.addr →
        s.resp i = some ⟨f.data, false⟩) := by
  obtain ⟨valid, same⟩ := tracked
  have awaited : s.awaits f m = true := by
    simp [awaits, valid, sound.idle m valid, same]
  obtain ⟨e, writes, -⟩ := install_arriving arrives awaited
  obtain ⟨k, f', arrives', -, -, line, -⟩ := install_cases sound.idle writes
  cases arrives.symm.trans arrives'
  constructor
  · rw [line]
    exact holdsLine_installed keeps writes
  · intro sent looks here
    apply resp_arriving arrives
    simp only [forwards, looks, here, Bool.true_and, beq_self_eq_true, Bool.and_true,
      List.any_eq_true, Bool.and_eq_true]
    exact ⟨m, List.mem_finRange m, valid, sent⟩

-- ---------------------------------------------------------------------
-- One way for a line
-- ---------------------------------------------------------------------

theorem once_reset [Inhabited α] : (reset : Icache α).Once where
  ways := nofun
  tracked := by
    rintro m line ⟨valid, -⟩
    cases valid
  missed := nofun

/-- A line that is installed was in no way before. -/
theorem Once.new (once : s.Once) (sound : s.Sound Carries) (writes : s.install i = some e) :
    ¬s.HoldsLine (lineOf e.addr) := by
  obtain ⟨k, -, -, -, tracked, -, -⟩ := install_cases sound.idle writes
  exact once.tracked k _ tracked

theorem Once.next (once : s.Once) (sound : s.Sound Carries) (drives : Drives Carries i)
    (apart : ¬s.LooksUpInstalled i) : (s.next i).Once where
  ways set v w validV validW same := by
    simp only [Icache.next, validArrNext, tagArrNext] at validV validW same
    cases fence : i.invalidateAll with
    | true => simp [fence] at validV
    | false =>
      simp only [fence, Bool.false_eq_true, if_false] at validV validW same
      cases writes : s.install i with
      | none =>
        simp only [writes] at validV validW same
        exact once.ways set v w validV validW same
      | some e =>
        have new := once.new sound writes
        simp only [writes] at validV validW same
        by_cases thereV : set = setOf e.addr ∧ v = e.victim
        · by_cases thereW : set = setOf e.addr ∧ w = e.victim
          · rw [thereV.2, thereW.2]
          · rw [if_neg thereW] at validW
            rw [if_pos thereV, if_neg thereW] at same
            refine absurd ⟨set, w, validW, ?_⟩ new
            rw [← same, thereV.1, tag_set_line]
        · rw [if_neg thereV] at validV
          by_cases thereW : set = setOf e.addr ∧ w = e.victim
          · rw [if_neg thereV, if_pos thereW] at same
            refine absurd ⟨set, v, validV, ?_⟩ new
            rw [same, thereW.1, tag_set_line]
          · rw [if_neg thereW] at validW
            rw [if_neg thereV, if_neg thereW] at same
            exact once.ways set v w validV validW same
  tracked m line tracked holds := by
    obtain ⟨-, old⟩ := tracks_next tracked
    obtain ⟨keeps, held | ⟨e, writes, rfl⟩⟩ := holdsLine_next holds
    · obtain ⟨before, -⟩ | ⟨rfl, looks, misses, -, -⟩ := old
      · exact once.tracked m line before held
      · exact once.missed looks misses held
    · obtain ⟨k, f, -, sc, freed, -, -⟩ := install_cases sound.idle writes
      obtain ⟨before, waits⟩ | ⟨same, -, -, new, -⟩ := old
      · cases sound.apart m k _ before freed
        exact waits f sc
      · rw [same] at freed
        exact tracks_new new freed
  missed looks misses holds := by
    obtain ⟨keeps, held | ⟨e, writes, same⟩⟩ := holdsLine_next holds
    · obtain ⟨set, way, valid, line⟩ := held
      rw [← tag_set_line] at line
      obtain ⟨tag, index⟩ := append_inj line
      have way_ := lastOf_none.mp misses way
      simp only [Icache.next] at tag index way_
      rw [drives.index looks, ← index, valid, tag] at way_
      simp at way_
    · exact apart ⟨looks, keeps, e, writes, same⟩

-- ---------------------------------------------------------------------
-- Over runs
-- ---------------------------------------------------------------------

variable [Inhabited α]

theorem sound_of_reach {P : Icache α → IcacheIn α → Prop}
    (reach : (icacheRuns Carries).Reach P s) : s.Sound Carries :=
  reach.invariant (fun s => s.Sound Carries) sound_reset fun _ _ _ sound drives _ =>
    sound.next drives

theorem once_of_reach (reach : (icacheRuns Carries).Reach (fun s i => ¬s.LooksUpInstalled i) s) :
    s.Once :=
  reach.invariant (fun s => s.Once) once_reset fun _ _ before once drives apart =>
    once.next (sound_of_reach before) drives apart

/-- Answers carry the line of their request, a miss is tracked once and until the L2 answers it,
and as long as no request is looked up while its line is being installed no set holds a line
twice. -/
theorem serves_lines (Carries : BitVec 58 → α → Prop) :
    (∀ s, (icacheRuns Carries).Reachable s → s.Serves Carries) ∧
      ∀ s, (icacheRuns Carries).Reach (fun s i => ¬s.LooksUpInstalled i) s → s.Once := by
  constructor
  · intro s reach
    have sound := sound_of_reach reach
    exact {
      answers := fun i r => sound.answers
      apart := sound.apart
      taken := fun i => Sound.taken
      kept := fun inputs m line tracked => tracked.run sound.idle inputs
      arrives := fun i m f => sound.arrives }
  · exact fun s => once_of_reach

-- ---------------------------------------------------------------------
-- A miss nobody waits for, and a line fetched twice
-- ---------------------------------------------------------------------

end Icache

namespace IcacheIn

/-- A cycle without a request. -/
def quiet : IcacheIn (BitVec 58) := ⟨false, 0, 0, false, none, false⟩

def request : IcacheIn (BitVec 58) := { quiet with reqValid := true }

def accepted : IcacheIn (BitVec 58) := { quiet with fillReqAccepted := true }

/-- The L2 answers for line 0. -/
def answer : IcacheIn (BitVec 58) := { quiet with fillResp := some ⟨0, 0⟩ }

/-- The requester has gone when the answer comes. -/
def leaves : List (IcacheIn (BitVec 58)) := [request, quiet, accepted, answer]

/-- The requester asks for the line once more as it is installed. -/
def repeats : List (IcacheIn (BitVec 58)) :=
  [request, quiet, accepted, { answer with reqValid := true }, quiet, accepted, answer]

theorem drives_own {i : IcacheIn (BitVec 58)} (bare : i.reqPa = i.reqAddr)
    (own : ∀ f, i.fillResp = some f → lineOf f.addr = f.data) : Icache.Drives Eq i where
  index _ := by rw [bare]
  fill := own

theorem legal_own {s : Icache (BitVec 58)} (inputs : List (IcacheIn (BitVec 58)))
    (own : ∀ i ∈ inputs, i.reqPa = i.reqAddr ∧ (i.fillResp = none ∨ i.fillResp = some ⟨0, 0⟩)) :
    (Icache.icacheRuns Eq).Legal s inputs := by
  induction inputs generalizing s with
  | nil => trivial
  | cons i rest ih =>
    obtain ⟨bare, fills⟩ := own i List.mem_cons_self
    refine ⟨drives_own bare ?_, ih fun j on => own j (List.mem_cons_of_mem i on)⟩
    rintro f arrives
    obtain nothing | line := fills
    · cases nothing.symm.trans arrives
    · cases line.symm.trans arrives
      decide

end IcacheIn

namespace Icache

/-- The state of a cache whose data are the names of its lines. -/
def after (inputs : List (IcacheIn (BitVec 58))) : Icache (BitVec 58) :=
  (icacheRuns Eq).run reset inputs

/-- A miss that got a register is never answered and leaves none, and a line is in two ways. -/
theorem miss_unanswered_line_twice :
    ((icacheRuns Eq).Reachable (after IcacheIn.leaves) ∧
      (after (IcacheIn.leaves.take 2)).Tracks 0 0 ∧
      (∀ k : Fin 4, ((after (IcacheIn.leaves.take k)).resp (IcacheIn.leaves.get k)).isNone) ∧
      ∀ m, ((after IcacheIn.leaves).mshr m).valid = false) ∧
    (icacheRuns Eq).Reachable (after IcacheIn.repeats) ∧
      (after IcacheIn.repeats).validArr 0 0 = true ∧
      (after IcacheIn.repeats).validArr 0 4 = true ∧
      (after IcacheIn.repeats).tagArr 0 0 = (after IcacheIn.repeats).tagArr 0 4 := by
  refine ⟨⟨Machine.Reachable.run .reset (IcacheIn.legal_own _ ?_), ?_, ?_, ?_⟩,
    Machine.Reachable.run .reset (IcacheIn.legal_own _ ?_), ?_, ?_, ?_⟩
  · simp [IcacheIn.leaves, IcacheIn.request, IcacheIn.quiet, IcacheIn.accepted, IcacheIn.answer]
  · exact ⟨by decide +kernel, by decide +kernel⟩
  · decide +kernel
  · decide +kernel
  · simp [IcacheIn.repeats, IcacheIn.request, IcacheIn.quiet, IcacheIn.accepted, IcacheIn.answer]
  · decide +kernel
  · decide +kernel
  · decide +kernel

end Icache

end Rv64gc.Frontend
