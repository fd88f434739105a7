import Rv64gc.Backend.Operands

/-!
# Operands arrive

What is read through the bypass network is what has been written, and a source is ready for good as soon
as it can be read: a register that waits for its value is not handed out again, has one writer, and
wakes its readers early only when a load writes it.
-/

namespace Rv64gc.Backend

open Hdl Lsu

namespace Wakeup

variable {d : Nat} {early : Bool} {s : Wakeup d} {x : WakeupIn d} {t : PhysTag}

-- ---------------------------------------------------------------------
-- Registers
-- ---------------------------------------------------------------------

theorem brings_iff {l : Lane} : l.brings t = true ↔ l.good = true ∧ l.tag ≠ 0 ∧ l.tag = t := by
  simp [Lane.brings, and_assoc]

theorem result_isSome (lanes : List Nat) :
    (result x lanes t).isSome = lanes.any fun n => (Results.live x.results n).brings t := by
  rw [result, Option.isSome_map, List.isSome_find?]

theorem loadWbHit_eq : Results.loadWbHit x.results t = (result x [4, 5] t).isSome := by
  rw [result_isSome]
  simp [Results.loadWbHit]

/-- The lane that brings a result is the only one. -/
theorem Keeps.result_eq (keeps : s.Keeps x) {lanes : List Nat} (below : ∀ n ∈ lanes, n < 6) {n : Nat}
    (on : n ∈ lanes) (brings : (Results.live x.results n).brings t = true) :
    result x lanes t = some ((Results.live x.results n).dataFor t) := by
  unfold result
  cases found : lanes.find? fun n => (Results.live x.results n).brings t with
  | none => exact absurd brings (List.find?_eq_none.mp found n on)
  | some m =>
    have brings' : (Results.live x.results m).brings t = true := by simpa using List.find?_some found
    have same := keeps.once t m n (below m (List.mem_of_find?_eq_some found)) (below n on) brings' brings
    rw [same]
    rfl

theorem visible_isSome :
    (s.visible x t).isSome = ((s.value t).isSome || Results.loadWbHit x.results t) := by
  rw [visible, loadWbHit_eq]
  cases result x [4, 5] t <;> cases s.value t <;> rfl

theorem nextValue_isSome : (s.nextValue x t).isSome =
    ((List.range 6).any (fun n => (Results.live x.results n).brings t) ||
      (s.value t).isSome && !Results.handsOut x.results t) := by
  rw [nextValue, ← result_isSome]
  cases result x (List.range 6) t <;> cases Results.handsOut x.results t <;> simp

theorem any_lanes : (List.range 6).any (fun n => (Results.live x.results n).brings t) =
    ((List.range 4).any (fun n => (Results.live x.results n).brings t) ||
      Results.loadWbHit x.results t) := by
  simp [List.range_succ, Results.loadWbHit, Bool.or_assoc]

theorem handsOut_zero : Results.handsOut x.results 0 = false := by
  rw [Results.handsOut, List.any_eq_false]
  rintro r -
  simp

theorem loads_next (keep : Results.handsOut x.results t = false) :
    (s.next early x).loads t = s.loads t := by
  have none_ : x.results.renames.find? (fun r => r.1 != 0 && r.1 == t) = none := by
    rw [List.find?_eq_none]
    rw [Results.handsOut, List.any_eq_false] at keep
    exact keep
  show Option.getD (Option.map _ (x.results.renames.find? _)) _ = _
  rw [none_]
  rfl

/-- What has come over the bus is announced. -/
theorem cdbHit_next (flush : x.results.fullFlush = false) (n : Nat) (less : n < 4)
    (brings : (Results.live x.results n).brings t = true) :
    (s.next early x).results.cdbHit t = true := by
  obtain ⟨good, -, tag⟩ := brings_iff.mp brings
  refine List.any_eq_true.mpr ⟨n, List.mem_range.mpr less, ?_⟩
  show ((if x.results.fullFlush then (⟨false, false, 0, 0, false⟩ : Lane) else _).good && _) = true
  rw [flush]
  simp only [Bool.false_eq_true, if_false, good, Bool.true_and, beq_iff_eq]
  show (if x.results.fullFlush then (⟨false, false, 0, 0, false⟩ : Lane) else _).tag = t
  rw [flush]
  exact tag

-- ---------------------------------------------------------------------
-- The invariant
-- ---------------------------------------------------------------------

/-- A source that waits for a register. -/
structure Waits (s : Wakeup d) (t : PhysTag) (c : Source) : Prop where
  tag : c.tag = t
  written : c.ready = true → c.spec = false → (s.value t).isSome = true
  announced : (s.value t).isSome = true →
    c.ready = true ∧ c.spec = false ∨ s.results.cdbHit t = true
  early : c.spec = true → c.ready = true ∧ s.loads t = true
  named : (s.value t).isSome = true ∨ s.results.pregReadyTable t = false

structure Sound (s : Wakeup d) : Prop where
  zero : s.value 0 = some 0 ∧ s.loads 0 = false
  prf : ∀ t v, s.value t = some v → t ≠ 0 → t < fpPhysBase → s.results.prf t = v
  fpPrf : ∀ t v, s.value t = some v → fpPhysBase ≤ t → s.results.fpPrf (fpAddr t) = v
  table : ∀ t, (s.value t).isSome = true → s.results.pregReadyTable t = true
  /-- What the bus announces has been written, and not by a load. -/
  bus : ∀ t n, n < 4 → (s.results.cdbR n).brings t = true →
    s.value t = some ((s.results.cdbR n).dataFor t) ∧ s.loads t = false
  used : ∀ e w k, s.queue.slot e = some w → (w.insn.data k).used = true →
    s.Waits (w.insn.data k).tag (s.src e k)
  unused : ∀ e w k, s.queue.slot e = some w → (w.insn.data k).used = false →
    (s.src e k).ready = true ∧ (s.src e k).spec = false

theorem Sound.reset : (reset : Wakeup d).Sound where
  zero := ⟨rfl, rfl⟩
  prf t v here other := by
    simp only [Wakeup.reset, if_neg other] at here
    cases here
  fpPrf t v here fp := by
    have other : t ≠ 0 := by
      rintro rfl
      exact absurd fp (by decide)
    simp only [Wakeup.reset, if_neg other] at here
    cases here
  table _ _ := rfl
  bus t n _ brings := by cases (brings_iff.mp brings).1
  used e w k here := by cases here
  unused e w k here := by cases here

theorem Sound.cdbHit (sound : s.Sound) (hit : s.results.cdbHit t = true) :
    (s.value t).isSome = true ∧ s.loads t = false := by
  by_cases zero : t = 0
  · rw [zero, sound.zero.1]
    exact ⟨rfl, sound.zero.2⟩
  · obtain ⟨n, on, here⟩ := List.any_eq_true.mp hit
    rw [Bool.and_eq_true, beq_iff_eq] at here
    have brings : (s.results.cdbR n).brings t = true :=
      brings_iff.mpr ⟨here.1, here.2 ▸ zero, here.2⟩
    have bus := sound.bus t n (List.mem_range.mp on) brings
    rw [bus.1]
    exact ⟨rfl, bus.2⟩

theorem specMatch (keeps : s.Keeps x) (wakes : (s.wakes x t).specMatch = true) :
    s.loads t = true ∧ (s.value t).isSome = false ∧ Results.loadWbHit x.results t = false ∧
      Results.handsOut x.results t = false := by
  have on : t ∈ x.specWk := by simpa [Wakeup.wakes] using wakes
  obtain ⟨loads, hidden, keep⟩ := keeps.spec t on
  have hidden : (s.visible x t).isSome = false := by rw [hidden]; rfl
  rw [visible_isSome, Bool.or_eq_false_iff] at hidden
  exact ⟨loads, hidden.1, hidden.2, keep⟩

/-- A resident source in a cycle. -/
theorem Waits.settled {c : Source} (waits : s.Waits t c) (sound : s.Sound) (keeps : s.Keeps x) :
    c.Settled (s.wakes x t) (s.value t).isSome where
  written := waits.written
  announced := waits.announced
  early spec := (waits.early spec).1
  bus hit := by
    obtain ⟨written, bus⟩ := sound.cdbHit hit
    refine ⟨written, ?_⟩
    rw [← Bool.not_eq_true]
    exact fun spec => by cases (waits.early spec).2.symm.trans bus
  table table := by
    have comb : s.results.pregReadyTable t = true := by
      simp only [Wakeup.wakes, Results.pregReadyTableComb, Bool.and_eq_true] at table
      exact table.1
    rcases waits.named with written | busy
    · exact written
    · cases comb.symm.trans busy
  wakes wakes := by
    obtain ⟨-, unwritten, quiet, -⟩ := specMatch keeps wakes
    exact ⟨unwritten, quiet⟩

theorem Sound.table_handsOut (sound : s.Sound) (written : (s.value t).isSome = true) :
    s.results.pregReadyTableComb x.results t = !Results.handsOut x.results t := by
  rw [Results.pregReadyTableComb, sound.table t written, Bool.true_and]

/-- What is not in after the cycle is still marked as to come. -/
theorem table_next (flush : x.results.fullFlush = false) (sound : s.Sound)
    (missing : (s.nextValue x t).isSome = false)
    (named : s.results.pregReadyTableComb x.results t = false ∨ (s.value t).isSome = true) :
    (s.next early x).results.pregReadyTable t = false := by
  rw [nextValue_isSome, Bool.or_eq_false_iff] at missing
  have other : t ≠ 0 := by
    rintro rfl
    rw [sound.zero.1, handsOut_zero] at missing
    cases missing.2
  have comb : s.results.pregReadyTableComb x.results t = false := by
    rcases named with comb | written
    · exact comb
    · rw [sound.table_handsOut written]
      simpa [written] using missing.2
  show (if x.results.fullFlush then true else _) = false
  rw [flush]
  simp only [Bool.false_eq_true, if_false, missing.1, comb, Bool.or_false, beq_eq_false_iff_ne]
  exact other

/-- What is brought for a register comes over the bus, is brought by a load, or was in before. -/
theorem nextValue_cases (flush : x.results.fullFlush = false)
    (written : (s.nextValue x t).isSome = true) :
    (s.next early x).results.cdbHit t = true ∨
      ((s.value t).isSome && !Results.handsOut x.results t || Results.loadWbHit x.results t) = true := by
  rw [nextValue_isSome, any_lanes, Bool.or_eq_true, Bool.or_eq_true] at written
  rcases written with (bus | load) | before
  · obtain ⟨n, on, brings⟩ := List.any_eq_true.mp bus
    exact .inl (cdbHit_next flush n (List.mem_range.mp on) brings)
  · exact .inr (by rw [load, Bool.or_true])
  · exact .inr (by rw [before, Bool.true_or])

/-- What a source has to be after a cycle to wait. -/
theorem waits_of {c : Source} (sound : s.Sound) (flush : x.results.fullFlush = false) (tag : c.tag = t)
    (ready : c.ready = true ∧ c.spec = false ↔
      ((s.value t).isSome && !Results.handsOut x.results t || Results.loadWbHit x.results t) = true)
    (spec : c.spec = true → c.ready = true ∧ s.loads t = true ∧ Results.handsOut x.results t = false)
    (named : s.results.pregReadyTableComb x.results t = false ∨ (s.value t).isSome = true) :
    (s.next early x).Waits t c where
  tag := tag
  written is final := by
    have here := ready.mp ⟨is, final⟩
    show (s.nextValue x t).isSome = true
    rw [nextValue_isSome, any_lanes]
    rcases Bool.or_eq_true_iff.mp here with before | load
    · rw [before, Bool.or_true]
    · rw [load, Bool.or_true, Bool.true_or]
  announced written := by
    rcases nextValue_cases flush written with hit | here
    · exact .inr hit
    · exact .inl (ready.mpr here)
  early is := by
    obtain ⟨here, loads, keep⟩ := spec is
    exact ⟨here, (loads_next keep).trans loads⟩
  named := by
    cases written : (s.nextValue x t).isSome with
    | true => exact .inl written
    | false => exact .inr (table_next flush sound written named)

/-- A source that stays waits on. -/
theorem Waits.next {c : Source} (waits : s.Waits t c) (sound : s.Sound) (keeps : s.Keeps x)
    (flush : x.results.fullFlush = false) (kept : Results.handsOut x.results t = false) :
    (s.next early x).Waits t (c.woken early (s.wakes x t)) := by
  have settled := waits.settled sound keeps
  refine waits_of sound flush waits.tag ?_ (fun spec => ?_) ?_
  · rw [kept, Bool.not_false, Bool.and_true]
    exact settled.woken early
  · obtain ⟨is, before | wakes⟩ := settled.woken_spec spec
    · exact ⟨is, (waits.early before).2, kept⟩
    · exact ⟨is, (specMatch keeps wakes).1, kept⟩
  · rcases waits.named with before | busy
    · exact .inr before
    · exact .inl (by rw [Results.pregReadyTableComb, busy, Bool.false_and])

/-- A new source waits. -/
theorem waits_entered {o : NewSource} (sound : s.Sound) (keeps : s.Keeps x)
    (flush : x.results.fullFlush = false)
    (sent : o.rsReady = true →
      (s.value o.tag).isSome = true ∧ Results.handsOut x.results o.tag = false)
    (named : (s.value o.tag).isSome = true ∨
      s.results.pregReadyTableComb x.results o.tag = false) :
    (s.next early x).Waits o.tag (o.entered (s.wakes x o.tag)) := by
  let kept := (s.value o.tag).isSome && !Results.handsOut x.results o.tag
  have table : (s.wakes x o.tag).table = kept := by
    show s.results.pregReadyTableComb x.results o.tag = kept
    cases written : (s.value o.tag).isSome with
    | false =>
      rw [written] at named
      simpa [kept, written] using named
    | true => rw [sound.table_handsOut written, ← Bool.true_and (!_), ← written]
  have sent : o.rsReady = true → kept = true := by
    intro ready
    simp [kept, sent ready]
  have hit : (s.wakes x o.tag).cdbHit = true → kept = true := by
    intro hit
    have stays : Results.handsOut x.results o.tag = false := by
      rw [← Bool.not_eq_true]
      exact fun out => by cases hit.symm.trans (keeps.unwritten _ out).1
    simp [kept, (sound.cdbHit hit).1, stays]
  have is : o.enqReady (s.wakes x o.tag) = (kept || (s.wakes x o.tag).loadWbHit) := by
    unfold NewSource.enqReady
    rw [table]
    cases a : o.rsReady <;> cases b : (s.wakes x o.tag).cdbHit <;> simp_all
  refine waits_of sound flush rfl (NewSource.entered_ready is) (fun spec => ?_) named.symm
  obtain ⟨here, wakes⟩ := NewSource.entered_spec spec
  obtain ⟨loads, -, -, keep⟩ := specMatch keeps wakes
  exact ⟨here, loads, keep⟩

-- ---------------------------------------------------------------------
-- A cycle
-- ---------------------------------------------------------------------

theorem Keeps.brings_next (keeps : s.Keeps x) {n : Nat} (less : n < 6)
    (brings : (Results.live x.results n).brings t = true) :
    s.nextValue x t = some ((Results.live x.results n).dataFor t) := by
  have result : result x (List.range 6) t = some _ :=
    keeps.result_eq (fun m on => List.mem_range.mp on) (List.mem_range.mpr less) brings
  rw [nextValue, result]
  rfl

/-- Nothing comes: what was in stays. -/
theorem value_of_nextValue {v : BitVec 64} (here : s.nextValue x t = some v)
    (quiet : (List.range 6).any (fun n => (Results.live x.results n).brings t) = false) :
    s.value t = some v := by
  have none_ : result x (List.range 6) t = none := by
    rw [← Option.not_isSome_iff_eq_none, result_isSome, quiet]
    exact Bool.false_ne_true
  rw [nextValue, none_, Option.none_or] at here
  split at here
  · cases here
  · exact here

/-- The register file holds what has been written. -/
theorem prf_next (sound : s.Sound) (keeps : s.Keeps x) {v : BitVec 64} (here : s.nextValue x t = some v)
    (other : t ≠ 0) (int : t < fpPhysBase) : (s.next early x).results.prf t = v := by
  refine writeEach_of_agree ?_ ?_
  · intro n less on tag
    simp only [Results.prfWen, Bool.and_eq_true] at on
    have brings : (Results.live x.results n).brings t = true :=
      brings_iff.mpr ⟨on.1.1, tag ▸ other, tag⟩
    have same := (keeps.brings_next less brings).symm.trans here
    rw [Lane.dataFor, if_pos int] at same
    exact Option.some.inj same
  · cases come : (List.range 6).any fun n => (Results.live x.results n).brings t with
    | true =>
      obtain ⟨n, on, brings⟩ := List.any_eq_true.mp come
      obtain ⟨good, nonzero, tag⟩ := brings_iff.mp brings
      refine .inr ⟨n, List.mem_range.mp on, ?_, tag⟩
      rw [← tag] at int
      simpa [Results.prfWen, good] using ⟨nonzero, int⟩
    | false => exact .inl (sound.prf t v (value_of_nextValue here come) other int)

theorem fpAddr_toNat {t : PhysTag} (fp : fpPhysBase ≤ t) : (fpAddr t).toNat = t.toNat - 160 := by
  have base : BitVec.toNat (160 : PhysTag) = 160 := rfl
  rw [BitVec.le_def, base] at fp
  rw [fpAddr, BitVec.toNat_setWidth, BitVec.toNat_sub, base]
  have := t.isLt
  omega

theorem fpAddr_inj {t t' : PhysTag} (fp : fpPhysBase ≤ t) (fp' : fpPhysBase ≤ t')
    (same : fpAddr t = fpAddr t') : t = t' := by
  have value := congrArg BitVec.toNat same
  rw [fpAddr_toNat fp, fpAddr_toNat fp'] at value
  have low : 160 ≤ t.toNat := fp
  have low' : 160 ≤ t'.toNat := fp'
  apply BitVec.eq_of_toNat_eq
  omega

/-- Every floating-point register is in the file. -/
theorem fpAddr_lt {t : PhysTag} (fp : fpPhysBase ≤ t) : fpAddr t < fpPrfDepth := by
  have depth : BitVec.toNat fpPrfDepth = 96 := rfl
  rw [BitVec.lt_def, fpAddr_toNat fp, depth]
  have := t.isLt
  omega

/-- So does the one of the floating-point registers. -/
theorem fpPrf_next (sound : s.Sound) (keeps : s.Keeps x) {v : BitVec 64}
    (here : s.nextValue x t = some v) (fp : fpPhysBase ≤ t) :
    (s.next early x).results.fpPrf (fpAddr t) = v := by
  have int : ¬ t < fpPhysBase := BitVec.not_lt.mpr fp
  refine writeEach_of_agree ?_ ?_
  · intro n less on addr
    simp only [Results.fpPrfWen, Bool.and_eq_true, decide_eq_true_eq] at on
    obtain ⟨⟨good, fp'⟩, -⟩ := on
    have tag := fpAddr_inj fp' fp addr
    have nonzero : (Results.live x.results (3 + n)).tag ≠ 0 := by
      intro zero
      rw [zero] at fp'
      exact absurd fp' (by decide)
    have same := (keeps.brings_next (by omega) (brings_iff.mpr ⟨good, nonzero, tag⟩)).symm.trans here
    rw [Lane.dataFor, if_neg int] at same
    exact Option.some.inj same
  · cases come : (List.range 6).any fun n => (Results.live x.results n).brings t with
    | true =>
      obtain ⟨n, on, brings⟩ := List.any_eq_true.mp come
      obtain ⟨good, -, tag⟩ := brings_iff.mp brings
      have less := List.mem_range.mp on
      have last : 3 ≤ n := by
        by_contra first
        exact int (keeps.lanes t n (by omega) brings)
      have same : 3 + (n - 3) = n := by omega
      refine .inr ⟨n - 3, by omega, ?_, by rw [same, tag]⟩
      rw [Results.fpPrfWen, same, good, tag, decide_eq_true fp, decide_eq_true (fpAddr_lt fp)]
      rfl
    | false => exact .inl (sound.fpPrf t v (value_of_nextValue here come) fp)

theorem bus_next (keeps : s.Keeps x) {n : Nat} (less : n < 4)
    (brings : ((s.next early x).results.cdbR n).brings t = true) :
    (s.next early x).value t = some (((s.next early x).results.cdbR n).dataFor t) ∧
      (s.next early x).loads t = false := by
  have lane : (s.next early x).results.cdbR n =
      if x.results.fullFlush then ⟨false, false, 0, 0, false⟩ else Results.live x.results n := rfl
  rw [lane] at brings ⊢
  split at brings
  · cases (brings_iff.mp brings).1
  next flush =>
    rw [if_neg flush]
    have keep : Results.handsOut x.results t = false := by
      rw [← Bool.not_eq_true]
      exact fun out => by cases brings.symm.trans ((keeps.unwritten t out).2 n (by omega))
    exact ⟨keeps.brings_next (by omega) brings,
      (loads_next keep).trans ((keeps.bus t n (by omega) brings).trans (decide_eq_false (by omega)))⟩

/-- Who is in the queue after a cycle. -/
theorem slot_next {e : Fin d} {w : Waiting (SrcName → NewSource)} (keeps : s.Keeps x)
    (here : (s.next early x).queue.slot e = some w) :
    x.results.fullFlush = false ∧
      (w ∈ x.enq ∧ (∀ k, s.nextSrc early x e k =
          (w.insn.data k).entered (s.wakes x (w.insn.data k).tag)) ∨
        s.queue.slot e = some w ∧
          ∀ k, s.nextSrc early x e k = (s.src e k).woken early (s.wakes x (s.src e k).tag)) := by
  have updated : s.queue.updated (s.queueIn early x) e = some w ∧ x.results.fullFlush = false ∧
      ∀ f, x.flush = some f → f.full = false ∧
        s.queue.flushRemove (s.queueIn early x) f e = false := by
    have here : (s.queue.next (s.queueIn early x)).slot e = some w := here
    rw [keeps.flush]
    unfold IssueQueue.next at here
    have flush : (s.queueIn early x).flush = x.flush := rfl
    rw [flush] at here
    cases flushes : x.flush with
    | none =>
      rw [flushes] at here
      exact ⟨here, rfl, fun f is => by cases is⟩
    | some f =>
      rw [flushes] at here
      cases full : f.full with
      | true =>
        simp only [full, if_true] at here
        cases here
      | false =>
        simp only [full, Bool.false_eq_true, if_false, IssueQueue.partialFlush] at here
        split at here
        · cases here
        next stays =>
          refine ⟨here, by simp [full], ?_⟩
          rintro g ⟨⟩
          exact ⟨full, by simpa using stays⟩
  obtain ⟨updated, flush, survives⟩ := updated
  refine ⟨flush, ?_⟩
  -- A flush leaves the sources of what stays alone.
  have plain : ∀ k, s.nextSrc early x e k = s.updatedSrc early x e k := by
    intro k
    unfold nextSrc
    cases flushes : x.flush with
    | none => rfl
    | some f =>
      obtain ⟨part, stays⟩ := survives f flushes
      simp only [part, stays, Bool.false_eq_true, if_false]
  unfold IssueQueue.updated at updated
  cases lane : s.queue.lane (s.queueIn early x) e with
  | some v =>
    rw [lane] at updated
    cases updated
    refine .inl ⟨?_, fun k => by rw [plain, updatedSrc, lane]⟩
    unfold IssueQueue.lane at lane
    split at lane
    · exact List.mem_of_getElem? lane
    · cases lane
  | none =>
    rw [lane] at updated
    simp only at updated
    split at updated
    · cases updated
    next quiet =>
      refine .inr ⟨updated, fun k => ?_⟩
      rw [plain, updatedSrc, lane]
      simp [quiet, updated]

theorem Sound.next (sound : s.Sound) (keeps : s.Keeps x) : (s.next early x).Sound where
  zero := by
    refine ⟨?_, (loads_next handsOut_zero).trans sound.zero.2⟩
    have none_ : result x (List.range 6) 0 = none := by
      rw [← Option.not_isSome_iff_eq_none, result_isSome, Bool.not_eq_true, List.any_eq_false]
      intro n _ brings
      exact (brings_iff.mp brings).2.1 (brings_iff.mp brings).2.2
    show s.nextValue x 0 = some 0
    rw [nextValue, none_, handsOut_zero, Option.none_or]
    exact sound.zero.1
  prf t v here other int := prf_next sound keeps here other int
  fpPrf t v here fp := fpPrf_next sound keeps here fp
  table t written := by
    show (if x.results.fullFlush then true else _) = true
    split
    · rfl
    · have written : (s.nextValue x t).isSome = true := written
      rw [nextValue_isSome, Bool.or_eq_true] at written
      rcases written with come | before
      · rw [come, Bool.or_true, Bool.true_or]
      · rw [Bool.and_eq_true] at before
        rw [sound.table_handsOut before.1, before.2, Bool.or_true]
  bus t n less brings := bus_next keeps less brings
  used e w k here used := by
    obtain ⟨flush, ⟨on, src⟩ | ⟨before, src⟩⟩ := slot_next keeps here
    · show Waits _ _ (s.nextSrc early x e k)
      rw [src]
      have sent := keeps.enq w on k
      rw [if_pos used] at sent
      exact waits_entered sound keeps flush sent.1 sent.2
    · show Waits _ _ (s.nextSrc early x e k)
      have waits := sound.used e w k before used
      rw [src, waits.tag]
      exact waits.next sound keeps flush (keeps.unread e w k before used)
  unused e w k here unused := by
    obtain ⟨flush, ⟨on, src⟩ | ⟨before, src⟩⟩ := slot_next keeps here
    · show (s.nextSrc early x e k).ready = true ∧ (s.nextSrc early x e k).spec = false
      have sent := keeps.enq w on k
      rw [unused] at sent
      rw [src]
      have is : (w.insn.data k).enqReady (s.wakes x (w.insn.data k).tag) = true := by
        rw [NewSource.enqReady, (by simpa using sent : (w.insn.data k).rsReady = true)]
        rfl
      simp [NewSource.entered, NewSource.enqSpecWakeup, is]
    · show (s.nextSrc early x e k).ready = true ∧ (s.nextSrc early x e k).spec = false
      obtain ⟨ready, final⟩ := sound.unused e w k before unused
      rw [src]
      simp [Source.woken, Source.nextReady, Source.nextSpec, Source.doSpec, Source.cancelled, ready,
        final]

-- ---------------------------------------------------------------------
-- Reading
-- ---------------------------------------------------------------------

/-- Whatever the lanes carry for a register is what can be read of it. -/
theorem Sound.bypassed (sound : s.Sound) (keeps : s.Keeps x) {v : BitVec 64}
    (here : s.visible x t = some v) {n : Nat} (less : n < 6)
    (on : ((s.results.bypassLane x.results n).good && (s.results.bypassLane x.results n).tag != 0) = true)
    (tag : (s.results.bypassLane x.results n).tag = t) :
    (s.results.bypassLane x.results n).dataFor t = v := by
  rw [Bool.and_eq_true, bne_iff_ne] at on
  have brings : (s.results.bypassLane x.results n).brings t = true :=
    brings_iff.mpr ⟨on.1, on.2, tag⟩
  have loads : ∀ m, m = 4 ∨ m = 5 → (Results.live x.results m).brings t = true →
      (Results.live x.results m).dataFor t = v := by
    intro m which brings
    have result : result x [4, 5] t = some _ :=
      keeps.result_eq (by decide) (by simpa using which) brings
    rw [visible, result] at here
    exact Option.some.inj here
  unfold Results.bypassLane at brings ⊢
  split
  next bus =>
    rw [if_pos bus] at brings
    obtain ⟨value, notLoad⟩ := sound.bus t n bus brings
    have quiet : result x [4, 5] t = none := by
      rw [← Option.not_isSome_iff_eq_none, result_isSome, Bool.not_eq_true, List.any_eq_false]
      intro m on brings
      have last : 4 ≤ m ∧ m < 6 := by
        rcases List.mem_cons.mp on with rfl | on
        · omega
        · rw [List.mem_singleton.mp on]
          omega
      have load := keeps.bus t m last.2 brings
      rw [notLoad, decide_eq_true last.1] at load
      cases load
    rw [visible, quiet, Option.none_or, value] at here
    exact Option.some.inj here
  next other =>
    rw [if_neg other] at brings
    exact loads n (by omega) brings

/-- What can be read is in the file, or a lane carries it. -/
theorem somewhere {v : BitVec 64} (here : s.visible x t = some v) :
    s.value t = some v ∨ t ≠ 0 ∧ ∃ n < 6, ((s.results.bypassLane x.results n).good &&
      (s.results.bypassLane x.results n).tag != 0) = true ∧
        (s.results.bypassLane x.results n).tag = t := by
  cases load : result x [4, 5] t with
  | none =>
    rw [visible, load, Option.none_or] at here
    exact .inl here
  | some u =>
    have come : (result x [4, 5] t).isSome = true := by rw [load]; rfl
    rw [result_isSome] at come
    obtain ⟨n, on, brings⟩ := List.any_eq_true.mp come
    obtain ⟨good, nonzero, tag⟩ := brings_iff.mp brings
    have last : ¬ n < 4 ∧ n < 6 := by
      rcases List.mem_cons.mp on with rfl | on
      · omega
      · rw [List.mem_singleton.mp on]
        omega
    refine .inr ⟨tag ▸ nonzero, n, last.2, ?_, ?_⟩
    · rw [Results.bypassLane, if_neg last.1, good, Bool.true_and, bne_iff_ne]
      exact nonzero
    · rw [Results.bypassLane, if_neg last.1]
      exact tag

theorem Sound.operand (sound : s.Sound) (keeps : s.Keeps x) {v : BitVec 64}
    (here : s.visible x t = some v) (int : t < fpPhysBase) : s.results.operand x.results t = v := by
  refine bypass_of_agree (fun n less on tag => ?_) ?_
  · have same := sound.bypassed keeps here less on tag
    rwa [Lane.dataFor, if_pos int] at same
  · rcases somewhere here with value | ⟨-, lane⟩
    · left
      by_cases zero : t = 0
      · rw [if_pos zero]
        rw [zero, sound.zero.1] at value
        exact Option.some.inj value
      · rw [if_neg zero]
        exact sound.prf t v value zero int
    · exact .inr lane

theorem Sound.fpOperand (sound : s.Sound) (keeps : s.Keeps x) {v : BitVec 64}
    (here : s.visible x t = some v) (fp : fpPhysBase ≤ t) : s.results.fpOperand x.results t = v := by
  have int : ¬ t < fpPhysBase := BitVec.not_lt.mpr fp
  refine bypass_of_agree (fun n less on tag => ?_) ?_
  · have same := sound.bypassed keeps here less on tag
    rwa [Lane.dataFor, if_neg int] at same
  · exact (somewhere here).imp (sound.fpPrf t v · fp) And.right

theorem Sound.ready_iff (sound : s.Sound) (keeps : s.Keeps x) (early : Bool) {e : Fin d}
    {w : Waiting (SrcName → NewSource)} (here : s.queue.slot e = some w) (k : SrcName)
    (used : (w.insn.data k).used = true) :
    (s.nextReady early x e k && !s.nextSpec x e k) = (s.visible x (w.insn.data k).tag).isSome := by
  have waits := sound.used e w k here used
  rw [visible_isSome]
  unfold nextReady nextSpec
  rw [waits.tag]
  exact (waits.settled sound keeps).next early

end Wakeup

namespace Wakeup

def idle : WakeupIn 4 :=
  ⟨⟨fun _ => ⟨false, false, 0, 0, false⟩, [], false⟩, [], [], fun _ => true, false, false, [], 0, none⟩

/-- It reads register 33. -/
def consumer : Waiting (SrcName → NewSource) :=
  ⟨0, false, false, false, true, fun k => if k = .rs1 then ⟨33, false, true⟩ else ⟨0, true, false⟩⟩

/-- Register 33 is handed out and its reader comes. -/
def comes : WakeupIn 4 :=
  { idle with results := { idle.results with renames := [(33, false)] }, enq := [consumer] }

/-- Its value comes over the bus. -/
def brought : WakeupIn 4 :=
  { idle with results := { idle.results with
      lane := fun n => if n = 0 then ⟨true, false, 33, 7, false⟩ else ⟨false, false, 0, 0, false⟩ } }

def afterBus : Wakeup 4 := (reset.next false comes).next false brought

theorem keeps_idle (s : Wakeup 4) : s.Keeps idle where
  flush := rfl
  once t n m _ _ brings := by cases brings
  unwritten t out := by cases out
  unread _ _ _ _ _ := rfl
  lanes t n _ brings := by cases brings
  bus t n _ brings := by cases brings
  spec t on := by cases on
  enq w on := by cases on

theorem keeps_comes : (reset : Wakeup 4).Keeps comes where
  flush := rfl
  once t n m _ _ brings := by cases brings
  unwritten t _ := by
    refine ⟨?_, fun _ _ => rfl⟩
    simp [Results.cdbHit, Wakeup.reset, Results.reset, Lane.good]
  unread e w k here := by cases here
  lanes t n _ brings := by cases brings
  bus t n _ brings := by cases brings
  spec t on := by cases on
  enq w on k := by
    obtain rfl := List.mem_singleton.mp on
    cases k <;> decide

theorem brought_brings {t : PhysTag} {n : Nat} (brings : (Results.live brought.results n).brings t = true) :
    n = 0 ∧ t = 33 := by
  obtain ⟨good, -, tag⟩ := brings_iff.mp brings
  by_cases first : n = 0
  · subst first
    exact ⟨rfl, tag.symm⟩
  · simp [Results.live, brought, first, Lane.good] at good

theorem keeps_brought : ((reset : Wakeup 4).next false comes).Keeps brought where
  flush := rfl
  once t n m _ _ brings brings' := by rw [(brought_brings brings).1, (brought_brings brings').1]
  unwritten t out := by cases out
  unread _ _ _ _ _ := rfl
  lanes t n _ brings := by
    rw [(brought_brings brings).2]
    decide
  bus t n _ brings := by
    rw [(brought_brings brings).1, (brought_brings brings).2]
    decide
  spec t on := by cases on
  enq w on := by cases on

end Wakeup

end Rv64gc.Backend
