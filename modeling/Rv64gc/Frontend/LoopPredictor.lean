import Rv64gc.Hdl.Bits
import Rv64gc.Hdl.Machine
import Rv64gc.Hdl.Streak
import Rv64gc.Frontend.Icache

/-!
# The loop predictor

`tage_sc_l.sv`: an entry counts how often a backward branch was taken since it last fell through,
once for the branches that have committed and once for those that have been predicted. When the
branch has left its loop at the same count often enough, the entry predicts the next exit.
-/

namespace Rv64gc.Frontend

open Hdl

structure LoopUpdate where
  pc : Addr
  target : Addr
  taken : Bool
  mispredict : Bool
deriving DecidableEq

structure LoopIn where
  flush : Bool
  update : Option LoopUpdate
  specPc : Addr
  specTarget : Addr
  /-- `spec_update_valid` with `spec_taken` -/
  spec : Option Bool
  /-- `loop_spec_update_valid` with `loop_spec_taken` -/
  loopSpec : Option Bool
deriving DecidableEq

structure LoopEntry where
  valid : Bool
  tag : BitVec 12
  count : BitVec 14
  specCount : BitVec 14
  limit : BitVec 14
  conf : BitVec 2
  bypassConf : BitVec 2
  dir : Bool
deriving DecidableEq

/-- `loop_idx_hash` -/
def loopIdx (pc : Addr) : BitVec 6 :=
  pc.extractLsb' 2 6 ^^^ pc.extractLsb' 8 6 ^^^ pc.extractLsb' 14 6

def loopTag (pc : Addr) : BitVec 12 := pc.extractLsb' 2 12

namespace LoopEntry

def empty : LoopEntry := ⟨false, 0, 0, 0, 0, 0, 0, false⟩

variable (e : LoopEntry)

/-- `upd_loop_hit && upd_loop_backward`, and the same for `spec_` -/
def hits (pc target : Addr) : Bool := e.valid && e.tag == loopTag pc && decide (target < pc)

/-- `loop_bypass_conf` after an exit that was expected -/
def nextBypass (mispredict : Bool) : BitVec 2 :=
  if e.conf = 3 then
    if mispredict then if e.bypassConf = 3 then e.bypassConf else e.bypassConf + 1
    else if e.bypassConf = 0 then e.bypassConf else e.bypassConf - 1
  else e.bypassConf

/-- What an exit teaches: the same count once more, or another one. -/
def exit (mispredict : Bool) : LoopEntry :=
  if e.count = e.limit then
    { e with
      conf := if e.conf = 3 then e.conf else e.conf + 1
      bypassConf := e.nextBypass mispredict }
  else { e with limit := e.count, conf := 0, bypassConf := 0 }

/-- The committed branch; a flush takes the committed count over. With
`LOOP_SPEC_COMMIT_NOCLOBBER_ENABLE` an exit leaves the other count alone. -/
def update (flush : Bool) (u : LoopUpdate) : LoopEntry :=
  if e.hits u.pc u.target then
    if u.taken then
      { e with count := e.count + 1, specCount := if flush then e.count + 1 else e.specCount }
    else
      { e.exit u.mispredict with
        count := 0, specCount := if flush then 0 else e.specCount, dir := false }
  else if u.taken && decide (u.target < u.pc) then ⟨true, loopTag u.pc, 1, 1, 0, 0, 0, true⟩
  else { e with specCount := if flush then e.count else e.specCount }

def commit (flush : Bool) (u : Option LoopUpdate) : LoopEntry :=
  match u with
  | some u => e.update flush u
  | none => { e with specCount := if flush then e.count else e.specCount }

/-- The predicted branch, whose write comes last. -/
def next (x : LoopIn) (i : BitVec 6) : LoopEntry :=
  let committed := e.commit x.flush (x.update.filter fun u => loopIdx u.pc = i)
  match x.spec with
  | some taken =>
    if !x.flush && decide (loopIdx x.specPc = i) && e.hits x.specPc x.specTarget then
      { committed with specCount := if taken then e.specCount + 1 else 0 }
    else committed
  | none => committed

end LoopEntry

abbrev Loops := BitVec 6 → LoopEntry

namespace Loops

def reset : Loops := fun _ => .empty

variable (s : Loops) (x : LoopIn) (pc : Addr)

def next : Loops := fun i => (s i).next x i

/-- The prediction of this cycle that the lookup already counts. -/
def bypass : Option Bool :=
  x.loopSpec.filter fun _ =>
    (s (loopIdx x.specPc)).hits x.specPc x.specTarget &&
      decide (2 ≤ (s (loopIdx x.specPc)).bypassConf) && decide (loopIdx x.specPc = loopIdx pc)

/-- `loop_lookup_count`, without `LOOP_SPEC_COUNT_EXACT_ENABLE` -/
def lookupCount : BitVec 14 :=
  match s.bypass x pc with
  | some taken => if taken then (s (loopIdx pc)).specCount + 1 else 0
  | none => (s (loopIdx pc)).specCount

/-- `loop_override`: the loop ends here. -/
def override : Bool :=
  (s (loopIdx pc)).valid && (s (loopIdx pc)).tag == loopTag pc && (s (loopIdx pc)).conf == 3 &&
    !decide (s.lookupCount x pc < (s (loopIdx pc)).limit)

end Loops

def loops : Machine Loops LoopIn := ⟨.reset, Loops.next, fun _ _ => True⟩

-- ---------------------------------------------------------------------
-- A loop
-- ---------------------------------------------------------------------

/-- The trip counts of the loops that are over, and how often the branch has been taken since. -/
def walk (outcomes : List Bool) : List (BitVec 14) × BitVec 14 :=
  outcomes.foldl (fun s taken => if taken then (s.1, s.2 + 1) else (s.1 ++ [s.2], 0)) ([], 0)

def trips (outcomes : List Bool) : List (BitVec 14) := (walk outcomes).1

def stretch (outcomes : List Bool) : BitVec 14 := (walk outcomes).2

theorem walk_concat (outcomes : List Bool) (taken : Bool) :
    walk (outcomes ++ [taken]) =
      if taken then (trips outcomes, stretch outcomes + 1)
      else (trips outcomes ++ [stretch outcomes], 0) :=
  List.foldl_concat ..

theorem trips_concat (outcomes : List Bool) (taken : Bool) :
    trips (outcomes ++ [taken]) =
      if taken then trips outcomes else trips outcomes ++ [stretch outcomes] := by
  rw [trips, walk_concat]
  cases taken <;> rfl

theorem stretch_concat (outcomes : List Bool) (taken : Bool) :
    stretch (outcomes ++ [taken]) = if taken then stretch outcomes + 1 else 0 := by
  rw [stretch, walk_concat]
  cases taken <;> rfl

structure LoopBranch where
  pc : Addr
  target : Addr
  backward : target < pc

/-- No other branch comes to the entry. -/
structure LoopIn.Alone (x : LoopIn) (b : LoopBranch) : Prop where
  update : ∀ u, x.update = some u → loopIdx u.pc = loopIdx b.pc → u.pc = b.pc ∧ u.target = b.target
  spec : x.spec.isSome ∨ x.loopSpec.isSome → loopIdx x.specPc = loopIdx b.pc →
    x.specPc = b.pc ∧ x.specTarget = b.target

/-- What has committed since the branch was first taken; and what had committed at the last flush,
with what has been predicted since. -/
structure LoopHistory where
  committed : List Bool
  stream : List Bool

namespace LoopHistory

variable (b : LoopBranch) (h : LoopHistory) (x : LoopIn)

def outcome : Option Bool := (x.update.filter fun u => u.pc = b.pc).map LoopUpdate.taken

def guess : Option Bool := x.spec.filter fun _ => x.specPc = b.pc

def nextCommitted : List Bool :=
  if h.committed.isEmpty then (outcome b x).toList.filter id
  else h.committed ++ (outcome b x).toList

def next : LoopHistory :=
  { committed := h.nextCommitted b x
    stream :=
      if x.flush || h.committed.isEmpty then h.nextCommitted b x
      else h.stream ++ (guess b x).toList }

def of (inputs : List LoopIn) : LoopHistory := inputs.foldl (next b) ⟨[], []⟩

end LoopHistory

/-- The entry of the branch is what its history makes of it. -/
structure LoopEntry.Holds (e : LoopEntry) (b : LoopBranch) (h : LoopHistory) : Prop where
  valid : e.valid = !h.committed.isEmpty
  tag : e.valid = true → e.tag = loopTag b.pc
  count : e.valid = true → e.count = stretch h.committed
  spec : e.valid = true → e.specCount = stretch h.stream
  learned : e.valid = true →
    (e.limit, e.conf.toNat) = (trips h.committed).foldl (learn 3) (0, 0)

section Steps

variable {e : LoopEntry} {b : LoopBranch} {h : LoopHistory} {x : LoopIn}

/-- A valid entry is hit by the branch and by nothing else that comes to it. -/
theorem LoopEntry.Holds.hits (holds : e.Holds b h) : e.hits b.pc b.target = e.valid := by
  cases valid : e.valid with
  | true => simp [LoopEntry.hits, valid, holds.tag valid, b.backward]
  | false => simp [LoopEntry.hits, valid]

theorem conf_next (c : BitVec 2) : (if c = 3 then c else c + 1).toNat = min 3 (c.toNat + 1) := by
  revert c
  decide

/-- An exit teaches the entry its count. -/
theorem LoopEntry.Holds.exit (holds : e.Holds b h) (valid : e.valid = true) (mispredict : Bool) :
    ((e.exit mispredict).limit, (e.exit mispredict).conf.toNat) =
      (trips (h.committed ++ [false])).foldl (learn 3) (0, 0) := by
  have count := holds.count valid
  have learned := holds.learned valid
  rw [trips_concat, if_neg Bool.false_ne_true, List.foldl_append, ← learned, ← count]
  unfold LoopEntry.exit
  by_cases same : e.count = e.limit
  · simpa [same, learn] using conf_next e.conf
  · simp [same, learn]

theorem LoopEntry.Holds.empty_iff (holds : e.Holds b h) : e.valid = false ↔ h.committed = [] := by
  rw [holds.valid, Bool.not_eq_false', List.isEmpty_iff]

/-- The branch itself commits. -/
theorem LoopEntry.Holds.update (holds : e.Holds b h) (flush : Bool) (u : LoopUpdate)
    (pc : u.pc = b.pc) (target : u.target = b.target) :
    (e.update flush u).Holds b
      ⟨if h.committed.isEmpty then [u.taken].filter id else h.committed ++ [u.taken],
        if flush || h.committed.isEmpty then
          if h.committed.isEmpty then [u.taken].filter id else h.committed ++ [u.taken]
        else h.stream⟩ := by
  have hits := holds.hits
  unfold LoopEntry.update
  rw [pc, target, hits]
  cases valid : e.valid with
  | true =>
    have some_ : h.committed.isEmpty = false := by simpa [valid] using holds.valid
    have count := holds.count valid
    simp only [some_, Bool.or_false, Bool.false_eq_true, if_false, if_true]
    cases taken : u.taken with
    | true =>
      refine ⟨by simp, fun _ => holds.tag valid, fun _ => ?_, fun _ => ?_, fun _ => ?_⟩
      · simp [stretch_concat, count]
      · cases flush with
        | true => simp [stretch_concat, count]
        | false => exact holds.spec valid
      · rw [trips_concat]
        exact holds.learned valid
    | false =>
      have kept : (e.exit u.mispredict).valid = e.valid ∧ (e.exit u.mispredict).tag = e.tag := by
        unfold LoopEntry.exit
        split <;> exact ⟨rfl, rfl⟩
      refine ⟨by simp [kept, valid], fun _ => kept.2.trans (holds.tag valid), fun _ => ?_,
        fun _ => ?_, fun _ => holds.exit valid u.mispredict⟩
      · simp [stretch_concat]
      · cases flush with
        | true => simp [stretch_concat]
        | false => exact holds.spec valid
  | false =>
    have none_ := holds.empty_iff.1 valid
    simp only [none_, b.backward, decide_true, Bool.and_true, List.isEmpty_nil, Bool.or_true,
      if_true, Bool.false_eq_true, if_false]
    cases taken : u.taken with
    | true =>
      refine ⟨rfl, fun _ => rfl, fun _ => ?_, fun _ => ?_, fun _ => ?_⟩
      · exact (show stretch [true] = 1 by decide).symm
      · exact (show stretch [true] = 1 by decide).symm
      · rfl
    | false =>
      rw [if_neg Bool.false_ne_true]
      exact ⟨rfl, nofun, nofun, nofun, nofun⟩

/-- Nothing commits here. -/
theorem LoopEntry.Holds.keep (holds : e.Holds b h) (flush : Bool) :
    { e with specCount := if flush then e.count else e.specCount }.Holds b
      ⟨h.committed, if flush || h.committed.isEmpty then h.committed else h.stream⟩ := by
  refine ⟨holds.valid, holds.tag, holds.count, fun valid => ?_, holds.learned⟩
  have some_ : h.committed.isEmpty = false := by simpa [show e.valid = true from valid] using holds.valid
  cases flush with
  | true => exact holds.count valid
  | false =>
    rw [some_]
    exact holds.spec valid

theorem LoopEntry.Holds.commit (holds : e.Holds b h) (alone : x.Alone b) :
    (e.commit x.flush (x.update.filter fun u => loopIdx u.pc = loopIdx b.pc)).Holds b
      ⟨h.nextCommitted b x,
        if x.flush || h.committed.isEmpty then h.nextCommitted b x else h.stream⟩ := by
  have quiet (none_ : LoopHistory.outcome b x = none) : h.nextCommitted b x = h.committed := by
    rw [LoopHistory.nextCommitted, none_]
    cases h.committed <;> simp
  cases updates : x.update with
  | none =>
    rw [quiet (by simp [LoopHistory.outcome, updates])]
    exact holds.keep x.flush
  | some u =>
    by_cases here : loopIdx u.pc = loopIdx b.pc
    · obtain ⟨pc, target⟩ := alone.update u updates here
      have outcome : LoopHistory.outcome b x = some u.taken := by
        simp [LoopHistory.outcome, updates, pc]
      rw [Option.filter_some_pos (by simpa using here), LoopHistory.nextCommitted, outcome]
      exact holds.update x.flush u pc target
    · have other : u.pc ≠ b.pc := fun same => here (congrArg loopIdx same)
      rw [Option.filter_some_neg (by simpa using here),
        quiet (by simp [LoopHistory.outcome, updates, other])]
      exact holds.keep x.flush

theorem LoopEntry.Holds.next (holds : e.Holds b h) (alone : x.Alone b) :
    (e.next x (loopIdx b.pc)).Holds b (h.next b x) := by
  have commits := holds.commit alone
  unfold LoopEntry.next LoopHistory.next
  cases spec : x.spec with
  | none => simpa [LoopHistory.guess, spec] using commits
  | some taken =>
    by_cases here : loopIdx x.specPc = loopIdx b.pc
    · obtain ⟨pc, target⟩ := alone.spec (.inl (by simp [spec])) here
      have guess : LoopHistory.guess b x = some taken := by simp [LoopHistory.guess, spec, pc]
      rw [guess, pc, target, holds.hits]
      cases flush : x.flush with
      | true => simpa [flush] using commits
      | false =>
        cases valid : e.valid with
        | false => simpa [flush, holds.empty_iff.1 valid] using commits
        | true =>
          have some_ : h.committed.isEmpty = false := by simpa [valid] using holds.valid
          rw [flush, some_] at commits
          simp only [some_, decide_true, Bool.not_false, Bool.and_true, Bool.or_false, if_true,
            Bool.false_eq_true, if_false]
          refine ⟨commits.valid, commits.tag, commits.count, fun _ => ?_, commits.learned⟩
          rw [Option.toList_some, stretch_concat, ← holds.spec valid]
    · have other : x.specPc ≠ b.pc := fun same => here (congrArg loopIdx same)
      simpa [LoopHistory.guess, spec, here, other] using commits

end Steps

theorem holds_run (b : LoopBranch) (inputs : List LoopIn) (alone : ∀ x ∈ inputs, x.Alone b) :
    (loops.run .reset inputs (loopIdx b.pc)).Holds b (.of b inputs) := by
  induction inputs using List.reverseRecOn with
  | nil => exact ⟨rfl, nofun, nofun, nofun, nofun⟩
  | append_singleton inputs x ih =>
    rw [Machine.run_append, LoopHistory.of, List.foldl_concat]
    exact (ih fun y on => alone y (List.mem_append_left _ on)).next
      (alone x (List.mem_append_right _ List.mem_cons_self))

-- ---------------------------------------------------------------------
-- Predicted exits
-- ---------------------------------------------------------------------

/-- The branches a lookup counts: what has been predicted, and this cycle's prediction where the
bypass is on. -/
def seenStream (b : LoopBranch) (inputs : List LoopIn) (x : LoopIn) : List Bool :=
  (LoopHistory.of b inputs).stream ++ ((loops.run .reset inputs).bypass x b.pc).toList

theorem LoopEntry.Holds.lookupCount {s : Loops} {b : LoopBranch} {h : LoopHistory}
    (holds : (s (loopIdx b.pc)).Holds b h) (valid : (s (loopIdx b.pc)).valid = true) (x : LoopIn) :
    s.lookupCount x b.pc = stretch (h.stream ++ (s.bypass x b.pc).toList) := by
  unfold Loops.lookupCount
  cases s.bypass x b.pc with
  | none => simpa using holds.spec valid
  | some taken => rw [Option.toList_some, stretch_concat, ← holds.spec valid]

theorem conf_full (c : BitVec 2) : c = 3 ↔ c.toNat = 3 := by
  revert c
  decide

theorem LoopEntry.Holds.override_iff {s : Loops} {b : LoopBranch} {h : LoopHistory}
    (holds : (s (loopIdx b.pc)).Holds b h) (x : LoopIn) :
    s.override x b.pc = true ↔
      ∃ n, List.replicate 4 n <:+ 0 :: trips h.committed ∧
        n ≤ stretch (h.stream ++ (s.bypass x b.pc).toList) := by
  have learnt := learnt_foldl 3 0 (trips h.committed)
  unfold Loops.override
  cases valid : (s (loopIdx b.pc)).valid with
  | false =>
    rw [holds.empty_iff.1 valid]
    refine iff_of_false (by simp) ?_
    rintro ⟨n, four, -⟩
    have short := four.length_le
    simp [trips, walk] at short
  | true =>
    have sure := sure_iff learnt
    rw [← holds.learned valid] at sure
    rw [holds.lookupCount valid, holds.tag valid, beq_self_eq_true, Bool.true_and, Bool.true_and,
      Bool.and_eq_true, beq_iff_eq, conf_full, Bool.not_eq_true', decide_eq_false_iff_not,
      BitVec.not_lt]
    constructor
    · rintro ⟨conf, reached⟩
      exact ⟨_, (sure _).1 (by rw [conf]), reached⟩
    · rintro ⟨n, four, reached⟩
      obtain ⟨limit, conf⟩ := Prod.mk.inj ((sure n).2 four)
      exact ⟨conf, limit ▸ reached⟩

def lessonBranch : LoopBranch := ⟨0x80000010, 0x80000000, by decide⟩

/-- Nothing but a commit of the branch. -/
def lesson (taken : Bool) : LoopIn :=
  ⟨false, some ⟨0x80000010, 0x80000000, taken, false⟩, 0, 0, none, none⟩

theorem alone_lesson (taken : Bool) : (lesson taken).Alone lessonBranch where
  update := fun _ updates _ => by cases updates; exact ⟨rfl, rfl⟩
  spec := fun asked _ => by simp [lesson] at asked

def lessons : List LoopIn :=
  [lesson true, lesson false, lesson true, lesson false, lesson true, lesson false, lesson true,
    lesson false]

theorem alone_lessons : ∀ x ∈ lessons, x.Alone lessonBranch := by
  intro x on
  simp only [lessons, List.mem_cons, List.not_mem_nil, or_false] at on
  rcases on with rfl | rfl | rfl | rfl | rfl | rfl | rfl | rfl <;> exact alone_lesson _

/-- Loops of `n` rounds, each left once. -/
def rounds (n : BitVec 14) (m : Nat) : List Bool :=
  (List.replicate m (List.replicate n.toNat true ++ [false])).flatten

theorem walk_rounds (n : BitVec 14) (m k : Nat) :
    walk (rounds n m ++ List.replicate k true) = (List.replicate m n, BitVec.ofNat 14 k) := by
  have taken (s : List (BitVec 14) × BitVec 14) (k : Nat) :
      (List.replicate k true).foldl
          (fun s taken => if taken then (s.1, s.2 + 1) else (s.1 ++ [s.2], 0)) s =
        (s.1, s.2 + BitVec.ofNat 14 k) := by
    induction k with
    | zero => simp
    | succ k ih =>
      rw [List.replicate_succ', List.foldl_concat, ih]
      simp [BitVec.ofNat_add, BitVec.add_assoc]
  have whole (m : Nat) : walk (rounds n m) = (List.replicate m n, 0) := by
    induction m with
    | zero => rfl
    | succ m ih =>
      unfold walk at ih
      rw [walk, rounds, List.replicate_succ', List.flatten_concat, ← rounds, ← List.append_assoc,
        List.foldl_concat, List.foldl_append, ih, taken]
      simp [List.replicate_succ']
  have before := whole m
  unfold walk at before
  rw [walk, List.foldl_append, before, taken]
  simp

/-- A loop that has always been left after `n` rounds: a lookup ends it in the `n`-th round of the
next ones, and not before. -/
theorem constant_loop_exits (b : LoopBranch) (inputs : List LoopIn)
    (alone : ∀ x ∈ inputs, x.Alone b) (x : LoopIn) {n : BitVec 14} {m k j i : Nat} (often : 4 ≤ m)
    (left : (LoopHistory.of b inputs).committed = rounds n m ++ List.replicate k true)
    (seen : seenStream b inputs x = rounds n j ++ List.replicate i true) (within : i ≤ n.toNat) :
    (loops.run .reset inputs).override x b.pc = true ↔ i = n.toNat := by
  have learned : trips (LoopHistory.of b inputs).committed = List.replicate m n := by
    rw [left, trips, walk_rounds]
  have reached : stretch (seenStream b inputs x) = BitVec.ofNat 14 i := by
    rw [seen, stretch, walk_rounds]
  have small : i % 2 ^ 14 = i := Nat.mod_eq_of_lt (lt_of_le_of_lt within n.isLt)
  rw [(holds_run b inputs alone).override_iff x, ← seenStream, learned, reached]
  have four : List.replicate 4 n <:+ 0 :: List.replicate m n := by
    obtain ⟨d, rfl⟩ := Nat.exists_eq_add_of_le often
    rw [Nat.add_comm, ← List.replicate_append_replicate]
    exact (List.suffix_append _ _).trans (List.suffix_cons _ _)
  constructor
  · rintro ⟨v, suffix, least⟩
    have same : v = n := by
      obtain ⟨d, rfl⟩ := Nat.exists_eq_add_of_le often
      have more : 4 + d = 3 + d + 1 := by omega
      rw [more, List.replicate_succ' (n := 3 + d), ← List.cons_append,
        replicate_suffix_concat (k := 3)] at suffix
      exact suffix.1
    rw [same, BitVec.le_def, BitVec.toNat_ofNat, small] at least
    exact Nat.le_antisymm within least
  · intro all
    refine ⟨n, four, ?_⟩
    rw [BitVec.le_def, BitVec.toNat_ofNat, small, all]

/-- After these four loops the branch is in the first round of a fifth. -/
theorem constant_loop_exits_lessons :
    (loops.run .reset lessons).override (lesson true) lessonBranch.pc = true :=
  (constant_loop_exits lessonBranch lessons alone_lessons (lesson true) (n := 1) (m := 4) (k := 0)
    (j := 0) (i := 1) (by decide) (by decide) (by decide) (by decide)).2 (by decide)

end Rv64gc.Frontend
