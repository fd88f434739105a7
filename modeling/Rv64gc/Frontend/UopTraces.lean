import Mathlib.Data.List.Basic
import Rv64gc.Decode.DecodeSlice
import Rv64gc.Frontend.UopCache

/-!
# The traces of the uop cache

An entry is a trace of what the decoder has delivered: every operation is where the one before it is
predicted to go. The builder compares PCs to see that, but keeps the PC it expects when it installs one
build and starts another, and an entry is looked for in other ways only by the lookup of the cycle.
-/

namespace Rv64gc.Frontend

open Hdl Decode

-- ---------------------------------------------------------------------
-- Runs
-- ---------------------------------------------------------------------

/-- The operations follow each other from the PC on, as they are predicted. -/
def Contiguous (head : BitVec 64) : List DecodedInsn → Prop
  | [] => True
  | op :: rest => op.pc = head ∧ Contiguous (nextPc op) rest

/-- The operations are a trace of what the decoder has delivered, from the PC with the set and tag. -/
def Traces (seen : List DecodedInsn) (set : UocIndex) (tag : UocTag) (ops : List DecodedInsn) :
    Prop :=
  ∃ head, pcIndex head = set ∧ pcTag head = tag ∧ ops ≠ [] ∧ Contiguous head ops ∧
    ∀ op ∈ ops, op ∈ seen

/-- The cache with the operations that the decoder has delivered behind the last invalidation. -/
structure UocRun where
  cache : UopCache
  seen : List DecodedInsn

def uocRuns (policy : UocPolicy) : Machine UocRun UopIn where
  reset := ⟨.reset, []⟩
  next s i := ⟨s.cache.next policy i, if i.invalidate then [] else s.seen ++ i.fused⟩
  legal _ i := i.fused.length ≤ pipeWidth

/-- Every valid entry is a trace from its PC, no two ways of a set are for the same PC, and what is
replayed is a trace from the PC that was looked up. -/
structure UocRun.Holds (policy : UocPolicy) (s : UocRun) (i : UopIn) : Prop where
  entries : ∀ set w, s.cache.valid set w = true →
    Traces s.seen set (s.cache.tag set w) (s.cache.data set w)
  single : ∀ set w w', s.cache.valid set w = true → s.cache.valid set w' = true →
    s.cache.tag set w = s.cache.tag set w' → w = w'
  replay : s.cache.active policy i = true →
    Traces s.seen (pcIndex s.cache.lookupPc) (pcTag s.cache.lookupPc) (s.cache.uocInsn policy i)

/-- The operations that come into one entry with room for so many follow each other. -/
def Joins (room : Nat) : List DecodedInsn → Prop
  | op :: op' :: rest =>
    room ≤ 1 ∨ opSealsAfter op = true ∨ (op'.pc = nextPc op ∧ Joins (room - 1) (op' :: rest))
  | _ => True

/-- A group does not come where the build before an empty one would have gone on, its operations follow
each other, and what is filled is not in another way. -/
structure UopCache.Fits (policy : UocPolicy) (s : UopCache) (i : UopIn) : Prop where
  head : s.fillFeed policy i = true → s.build.valid = true → s.build.ops = [] →
    ∀ op, i.fused.head? = some op → op.pc = s.build.next → s.build.head = s.build.next
  joins : s.fillFeed policy i = true → ∀ op, i.fused.head? = some op →
    (s.build.restart op.pc).2 = none →
    Joins (uocPerEntry - (s.build.restart op.pc).1.ops.length) i.fused
  fresh : ∀ x, s.doFill policy i = some x → ∀ w, w ≠ s.victimWay x →
    s.valid (pcIndex x.head) w = true → s.tag (pcIndex x.head) w ≠ pcTag x.head

-- ---------------------------------------------------------------------
-- The builder
-- ---------------------------------------------------------------------

/-- Where the operations lead. -/
def endPc (head : BitVec 64) (ops : List DecodedInsn) : BitVec 64 :=
  ops.foldl (fun _ op => nextPc op) head

@[simp] theorem endPc_append (head : BitVec 64) (ops : List DecodedInsn) (op : DecodedInsn) :
    endPc head (ops ++ [op]) = nextPc op := by
  simp [endPc]

theorem contiguous_append (head : BitVec 64) (ops : List DecodedInsn) (op : DecodedInsn) :
    Contiguous head (ops ++ [op]) ↔ Contiguous head ops ∧ op.pc = endPc head ops := by
  induction ops generalizing head with
  | nil => simp [Contiguous, endPc]
  | cons first rest ih =>
    show first.pc = head ∧ Contiguous (nextPc first) (rest ++ [op]) ↔
      (first.pc = head ∧ Contiguous (nextPc first) rest) ∧ op.pc = endPc (nextPc first) rest
    rw [ih, and_assoc]

theorem Traces.mono {set : UocIndex} (sub : ∀ op ∈ seen, op ∈ seen') (traces : Traces seen set tag ops) :
    Traces seen' set tag ops := by
  obtain ⟨head, index, tag, some_, contiguous, here⟩ := traces
  exact ⟨head, index, tag, some_, contiguous, fun op on => sub op (here op on)⟩

/-- A build is a trace that goes on at the PC the builder expects. -/
structure TraceBuild.Builds (seen : List DecodedInsn) (b : TraceBuild) : Prop where
  short : b.ops.length < uocPerEntry
  contiguous : Contiguous b.head b.ops
  next : b.ops ≠ [] → endPc b.head b.ops = b.next
  seen : ∀ op ∈ b.ops, op ∈ seen

/-- What is installed is a trace. -/
def Sealed.Ok (seen : List DecodedInsn) (t : Sealed) : Prop :=
  Traces seen (pcIndex t.head) (pcTag t.head) t.ops

namespace TraceBuild

variable {seen : List DecodedInsn} {b : TraceBuild}

theorem Builds.mono (sub : ∀ op ∈ seen, op ∈ seen') (builds : b.Builds seen) : b.Builds seen' :=
  { builds with seen := fun op on => sub op (builds.seen op on) }

/-- Nothing is in the build. -/
theorem builds_nil (empty : b.ops = []) : b.Builds seen := by
  constructor
  case short => simp [empty]
  case contiguous => simp [empty, Contiguous]
  case next => exact fun some_ => absurd empty some_
  case seen => simp [empty]

theorem foldl_sealed (b : TraceBuild) (t : Sealed) (group : List DecodedInsn) :
    group.foldl append (b, some t) = (b, some t) := by
  induction group with
  | nil => rfl
  | cons op rest ih => exact ih

/-- An operation that comes where the build leads. -/
theorem append_ok (builds : b.Builds seen) (follows : op.pc = endPc b.head b.ops)
    (here : op ∈ seen) (open_ : (append (b, none) op).2 = none) :
    (append (b, none) op).1 = { b with ops := b.ops ++ [op], next := nextPc op } ∧
      (append (b, none) op).1.Builds seen ∧ opSealsAfter op = false := by
  unfold append at open_ ⊢
  simp only at open_ ⊢
  split at open_
  next => cases open_
  next stays =>
    rw [if_neg stays]
    simp only [Bool.or_eq_true, beq_iff_eq, not_or, Bool.not_eq_true, List.length_append,
      List.length_singleton] at stays
    refine ⟨rfl, ?_, stays.2⟩
    constructor
    case short =>
      have short := builds.short
      have more := stays.1
      simp only [List.length_append, List.length_singleton]
      omega
    case contiguous => exact (contiguous_append ..).2 ⟨builds.contiguous, follows⟩
    case next => exact fun _ => endPc_append ..
    case seen =>
      intro op' on
      rcases List.mem_append.mp on with before | now
      · exact builds.seen op' before
      · rw [List.mem_singleton.mp now]
        exact here

/-- An operation that closes the build. -/
theorem append_sealed (builds : b.Builds seen) (follows : op.pc = endPc b.head b.ops)
    (here : op ∈ seen) (closed : (append (b, none) op).2 = some t) :
    (append (b, none) op).1.ops = [] ∧ t.Ok seen := by
  unfold append at closed ⊢
  simp only at closed ⊢
  split at closed
  next ends =>
    rw [if_pos ends]
    refine ⟨rfl, ?_⟩
    cases closed
    refine ⟨b.head, rfl, rfl, by simp, (contiguous_append ..).2 ⟨builds.contiguous, follows⟩, ?_⟩
    intro op' on
    rcases List.mem_append.mp on with before | now
    · exact builds.seen op' before
    · rw [List.mem_singleton.mp now]
      exact here
  next => cases closed

/-- A group that begins where the build leads. -/
theorem foldl_ok (group : List DecodedInsn) (builds : b.Builds seen)
    (follows : ∀ op, group.head? = some op → op.pc = endPc b.head b.ops)
    (joins : Joins (uocPerEntry - b.ops.length) group) (here : ∀ op ∈ group, op ∈ seen) :
    (group.foldl append (b, none)).1.Builds seen ∧
      ∀ t, (group.foldl append (b, none)).2 = some t → t.Ok seen := by
  induction group generalizing b with
  | nil => exact ⟨builds, fun t none => nomatch none⟩
  | cons op rest ih =>
    have first := follows op rfl
    have on := here op List.mem_cons_self
    rw [List.foldl_cons]
    cases closed : (append (b, none) op).2 with
    | some t =>
      obtain ⟨empty, ok⟩ := append_sealed builds first on closed
      have same : append (b, none) op = ((append (b, none) op).1, some t) :=
        Prod.ext rfl closed
      rw [same, foldl_sealed]
      refine ⟨builds_nil empty, ?_⟩
      intro t' is
      cases is
      exact ok
    | none =>
      obtain ⟨next, builds', seals⟩ := append_ok builds first on closed
      have same : append (b, none) op = ((append (b, none) op).1, none) :=
        Prod.ext rfl closed
      rw [same]
      have room : ¬ uocPerEntry - b.ops.length ≤ 1 := by
        have short := builds'.short
        rw [next] at short
        simp only [List.length_append, List.length_singleton] at short
        omega
      have goesOn : ∀ op', rest.head? = some op' →
          op'.pc = nextPc op ∧ Joins (uocPerEntry - b.ops.length - 1) rest := by
        intro op' is
        cases rest with
        | nil => cases is
        | cons op'' rest =>
          cases is
          rcases joins with full | seals' | goesOn
          · exact absurd full room
          · exact absurd seals' (by simp [seals])
          · exact goesOn
      refine ih builds' ?_ ?_ fun op' in_ => here op' (List.mem_cons_of_mem op in_)
      · intro op' is
        rw [next]
        simpa using (goesOn op' is).1
      · cases rest with
        | nil => trivial
        | cons op' rest =>
          have joins' := (goesOn op' rfl).2
          rw [next]
          simpa [Nat.sub_sub] using joins'

theorem restart_new (other : ¬ (b.valid && pc == b.next) = true) :
    b.restart pc = ({ b with ops := [], head := pc, valid := true },
      if b.valid && !b.ops.isEmpty then some ⟨b.head, b.ops⟩ else none) := if_neg other

/-- What the builder keeps in a cycle that feeds it. -/
theorem accumulate_ok (builds : b.Builds seen) (here : ∀ op ∈ group, op ∈ seen)
    (head : b.valid = true → b.ops = [] → ∀ op, group.head? = some op → op.pc = b.next →
      b.head = b.next)
    (joins : ∀ op, group.head? = some op → (b.restart op.pc).2 = none →
      Joins (uocPerEntry - (b.restart op.pc).1.ops.length) group) :
    (b.accumulate group).1.Builds seen ∧ ∀ t, (b.accumulate group).2 = some t → t.Ok seen := by
  cases group with
  | nil => exact ⟨builds, fun t none => nomatch none⟩
  | cons op rest =>
    have joins := joins op rfl
    have fed : b.accumulate (op :: rest) = (op :: rest).foldl append (b.restart op.pc) := rfl
    rw [fed]
    by_cases goesOn : (b.valid && op.pc == b.next) = true
    · have same : b.restart op.pc = (b, none) := if_pos goesOn
      rw [same] at joins ⊢
      simp only [Bool.and_eq_true, beq_iff_eq] at goesOn
      refine foldl_ok _ builds ?_ (joins rfl) here
      intro op' is
      cases is
      by_cases empty : b.ops = []
      · rw [empty, goesOn.2, ← head goesOn.1 empty op rfl goesOn.2]
        rfl
      · rw [builds.next empty, goesOn.2]
    · have same := restart_new goesOn
      by_cases installs : (b.valid && !b.ops.isEmpty) = true
      · rw [same, if_pos installs, foldl_sealed]
        refine ⟨builds_nil rfl, ?_⟩
        intro t is
        cases is
        simp only [Bool.and_eq_true, Bool.not_eq_true', List.isEmpty_eq_false_iff] at installs
        exact ⟨b.head, rfl, rfl, installs.2, builds.contiguous, builds.seen⟩
      · rw [same, if_neg installs] at joins ⊢
        refine foldl_ok _ (builds_nil rfl) ?_ (joins rfl) here
        intro op' is
        cases is
        rfl

end TraceBuild

-- ---------------------------------------------------------------------
-- The cache
-- ---------------------------------------------------------------------

namespace UopCache

variable {policy : UocPolicy} {s : UopCache} {i : UopIn} {seen seen' : List DecodedInsn}

/-- What the arrays and the read registers hold, and the build. -/
structure Sound (seen : List DecodedInsn) (s : UopCache) : Prop where
  build : s.build.Builds seen
  entries : ∀ set w, s.valid set w = true → Traces seen set (s.tag set w) (s.data set w)
  single : ∀ set w w', s.valid set w = true → s.valid set w' = true →
    s.tag set w = s.tag set w' → w = w'
  reads : s.lookupValid = true → ∀ w, s.validOut w = true →
    Traces seen (pcIndex s.lookupPc) (s.tagOut w) (s.rdata w)

theorem hitWay_hits (hit : s.hit = true) : s.hitWayOh s.hitWay = true := by
  simp only [UopCache.hit, Bool.and_eq_true, List.any_eq_true] at hit
  obtain ⟨-, w, on, hits⟩ := hit
  have some_ : (List.finRange 8).filter s.hitWayOh ≠ [] :=
    List.ne_nil_of_mem (List.mem_filter.mpr ⟨on, hits⟩)
  have last := List.getLast_mem some_
  rw [hitWay, List.getLast?_eq_some_getLast some_, Option.getD_some]
  exact (List.mem_filter.mp last).2

theorem Sound.replay (sound : s.Sound seen) (active : s.active policy i = true) :
    Traces seen (pcIndex s.lookupPc) (pcTag s.lookupPc) (s.uocInsn policy i) := by
  have hit : s.hit = true := by
    simp only [UopCache.active, Bool.and_eq_true] at active
    exact active.1.1.1
  have way := hitWay_hits hit
  simp only [hitWayOh, Bool.and_eq_true, beq_iff_eq] at way
  have valid : s.lookupValid = true := by
    simp only [UopCache.hit, Bool.and_eq_true] at hit
    exact hit.1
  rw [uocInsn, if_pos active, hitData, ← way.2]
  exact sound.reads valid _ way.1

/-- The builder keeps a trace, and what it gives to the arrays is one. -/
theorem built_ok (sound : s.Sound seen) (fits : s.Fits policy i)
    (sub : ∀ op ∈ seen, op ∈ seen') (here : ∀ op ∈ i.fused, op ∈ seen') :
    (s.built policy i).1.Builds seen' ∧ ∀ t, (s.built policy i).2 = some t → t.Ok seen' := by
  unfold built
  split
  · exact ⟨TraceBuild.builds_nil rfl, fun t none => by cases none⟩
  split
  next feeds =>
    exact TraceBuild.accumulate_ok (sound.build.mono sub) here (fits.head feeds) (fits.joins feeds)
  next => exact ⟨sound.build.mono sub, fun t none => by cases none⟩

theorem doFill_sealed (fill : s.doFill policy i = some x) : (s.built policy i).2 = some x :=
  (Option.filter_eq_some_iff.mp fill).1

theorem filled_entries (entries : ∀ set w, s.valid set w = true →
    Traces seen set (s.tag set w) (s.data set w)) (ok : x.Ok seen) :
    ∀ set w, (s.filled x).valid set w = true →
      Traces seen set ((s.filled x).tag set w) ((s.filled x).data set w) := by
  intro set w valid
  unfold filled at valid ⊢
  by_cases here : set = pcIndex x.head ∧ w = s.victimWay x
  · simp only [if_pos here]
    rw [here.1]
    exact ok
  · simp only [if_neg here] at valid ⊢
    exact entries set w valid

theorem filled_single (single : ∀ set w w', s.valid set w = true → s.valid set w' = true →
    s.tag set w = s.tag set w' → w = w')
    (fresh : ∀ w, w ≠ s.victimWay x → s.valid (pcIndex x.head) w = true →
      s.tag (pcIndex x.head) w ≠ pcTag x.head) :
    ∀ set w w', (s.filled x).valid set w = true → (s.filled x).valid set w' = true →
      (s.filled x).tag set w = (s.filled x).tag set w' → w = w' := by
  intro set w w' valid valid' same
  unfold filled at valid valid' same
  by_cases index : set = pcIndex x.head
  · subst index
    by_cases first : w = s.victimWay x <;> by_cases second : w' = s.victimWay x
    · exact first.trans second.symm
    · simp only [first, second, and_true, and_false, if_true, if_false] at valid' same
      exact absurd same.symm (fresh w' second valid')
    · simp only [first, second, and_true, and_false, if_true, if_false] at valid same
      exact absurd same (fresh w first valid)
    · simp only [first, second, and_false, if_false] at valid valid' same
      exact single _ w w' valid valid' same
  · simp only [index, false_and, if_false] at valid valid' same
    exact single set w w' valid valid' same

/-- A cycle without an invalidation. -/
theorem sound_next (sound : s.Sound seen) (fits : s.Fits policy i)
    (calm : i.invalidate = false) : (s.next policy i).Sound (seen ++ i.fused) := by
  have sub : ∀ op ∈ seen, op ∈ seen ++ i.fused := fun op on => List.mem_append_left _ on
  have here : ∀ op ∈ i.fused, op ∈ seen ++ i.fused := fun op on => List.mem_append_right _ on
  obtain ⟨build, ok⟩ := built_ok sound fits sub here
  have before : ∀ set w, s.valid set w = true →
      Traces (seen ++ i.fused) set (s.tag set w) (s.data set w) :=
    fun set w valid => (sound.entries set w valid).mono sub
  have arrays : (∀ set w, (s.arrays policy i).valid set w = true →
      Traces (seen ++ i.fused) set ((s.arrays policy i).tag set w)
        ((s.arrays policy i).data set w)) ∧
      ∀ set w w', (s.arrays policy i).valid set w = true →
        (s.arrays policy i).valid set w' = true →
        (s.arrays policy i).tag set w = (s.arrays policy i).tag set w' → w = w' := by
    unfold UopCache.arrays
    cases fill : s.doFill policy i with
    | none => exact ⟨before, sound.single⟩
    | some x =>
      exact ⟨filled_entries before (ok x (doFill_sealed fill)),
        filled_single sound.single (fits.fresh x fill)⟩
  constructor
  case build => exact build
  case entries =>
    intro set w valid
    simp only [next, calm, Bool.not_false, Bool.true_and] at valid
    exact arrays.1 set w valid
  case single =>
    intro set w w' valid valid' same
    simp only [next, calm, Bool.not_false, Bool.true_and] at valid valid'
    exact arrays.2 set w w' valid valid' same
  case reads => exact fun _ w valid => before _ w valid

/-- An invalidation leaves nothing. -/
theorem sound_invalidated (invalidate : i.invalidate = true) :
    (s.next policy i).Sound [] := by
  constructor
  case build =>
    have empty : (s.next policy i).build.ops = [] := by
      simp [next, built, invalidate]
    exact TraceBuild.builds_nil empty
  case entries => exact fun set w valid => absurd valid (by simp [next, invalidate])
  case single => exact fun set w w' valid => absurd valid (by simp [next, invalidate])
  case reads => exact fun valid => absurd valid (by simp [next, invalidate])

end UopCache

/-- While every group and every fill fits, the cache holds one trace for a PC, and replays it. -/
theorem traces_contiguous
    (reach : (uocRuns policy).Reach (fun s i => s.cache.Fits policy i) s) (i : UopIn) :
    s.Holds policy i := by
  have sound : s.cache.Sound s.seen := by
    refine reach.invariant (fun s => s.cache.Sound s.seen) ?_ ?_
    · constructor
      case build => exact TraceBuild.builds_nil rfl
      case entries => exact fun set w valid => by cases valid
      case single => exact fun set w w' valid => by cases valid
      case reads => exact fun valid => by cases valid
    · intro s i _ sound _ fits
      show (s.cache.next policy i).Sound (if i.invalidate then [] else s.seen ++ i.fused)
      cases calm : i.invalidate with
      | true => exact UopCache.sound_invalidated calm
      | false => exact UopCache.sound_next sound fits calm
  exact ⟨sound.entries, sound.single, sound.replay⟩

-- ---------------------------------------------------------------------
-- A group that stays
-- ---------------------------------------------------------------------

/-- ADDI x10, x10, 1 at the PC. -/
def addiAt (pc : BitVec 64) : DecodedInsn := decodeSlice 0x00150513 pc false

def deliver (group : List DecodedInsn) : UopIn := ⟨group, none, false, false⟩

/-- A synthesized cache. -/
def noPlusargs : UocPolicy := ⟨false, false⟩

def fourFrom (pc : BitVec 64) : List DecodedInsn :=
  [addiAt pc, addiAt (pc + 4), addiAt (pc + 8), addiAt (pc + 12)]

theorem four_fit : (fourFrom pc).length ≤ pipeWidth := Nat.le_refl 4

theorem traces_contiguous_four :
    ((uocRuns noPlusargs).next (uocRuns noPlusargs).reset
      (deliver (fourFrom 0x80000000))).Holds noPlusargs (deliver []) := by
  refine traces_contiguous (.cycle .reset ?_ ?_) (deliver [])
  · exact four_fit
  constructor
  case head => exact fun _ valid => by cases valid
  case joins =>
    intro _ op first _
    cases first
    exact .inr (.inr ⟨by decide, .inr (.inr ⟨by decide, .inr (.inr ⟨by decide, trivial⟩)⟩)⟩)
  case fresh => exact fun x _ w _ valid => by cases valid

/-- The group at 0x80000000 stays for a second cycle. -/
def afterStall : UocRun :=
  (uocRuns noPlusargs).run (uocRuns noPlusargs).reset
    [deliver [addiAt 0x80000000], deliver [addiAt 0x80000000], deliver (fourFrom 0x80000004)]

theorem reach_afterStall : (uocRuns noPlusargs).Reachable afterStall :=
  Machine.Reachable.run .reset ⟨Nat.le_add_left 1 3, Nat.le_add_left 1 3, four_fit, trivial⟩

/-- What was in the build and what comes behind the group are both installed for 0x80000000. -/
theorem trace_misplaced :
    (¬ ∀ s, (uocRuns noPlusargs).Reachable s → ∀ set w, s.cache.valid set w = true →
      Traces s.seen set (s.cache.tag set w) (s.cache.data set w)) ∧
    ¬ ∀ s, (uocRuns noPlusargs).Reachable s → ∀ set w w', s.cache.valid set w = true →
      s.cache.valid set w' = true → s.cache.tag set w = s.cache.tag set w' → w = w' := by
  constructor
  · intro entries
    obtain ⟨head, index, -, -, contiguous, -⟩ :=
      entries afterStall reach_afterStall 0 4 (by decide +kernel)
    have first : (afterStall.cache.data 0 4).head?.map (·.pc) = some 0x80000004 := by
      decide +kernel
    cases ops : afterStall.cache.data 0 4 with
    | nil =>
      rw [ops] at first
      cases first
    | cons op rest =>
      rw [ops] at contiguous first
      have pc : op.pc = 0x80000004 := Option.some.inj first
      rw [← contiguous.1, pc] at index
      exact absurd index (by decide)
  · intro single
    have same := single afterStall reach_afterStall 0 0 4 (by decide +kernel) (by decide +kernel)
      (by decide +kernel)
    exact absurd same (by decide)

end Rv64gc.Frontend
