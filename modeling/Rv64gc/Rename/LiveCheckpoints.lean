import Rv64gc.Rename.Checkpoint

/-!
# Live checkpoints over whole runs

What the checkpoint file is for: a list of the live checkpoints, oldest first, each with the
number of saves that came before its own. A commit takes checkpoints off the list, a restore
keeps those saved before the restored one, a full flush empties it.

The file tells older from younger by the difference of two 7-bit save numbers, while the count
of saves keeps growing over squashed branches. `WithinReach` says when the difference is right.
-/

namespace Rv64gc.Rename

open Hdl

-- ---------------------------------------------------------------------
-- The list of live checkpoints
-- ---------------------------------------------------------------------

structure LiveCkpts where
  /-- Slot and save number, oldest first. -/
  live : List (CkptId × Nat)
  saves : Nat
deriving DecidableEq

instance (i : CheckpointIn) (k : CkptId) : Decidable (i.Releases k) :=
  inferInstanceAs (Decidable (∃ j < pipeWidth, i.releaseValid j = true ∧ i.releaseId j = k))

namespace LiveCkpts

def afterRelease (a : LiveCkpts) (i : CheckpointIn) : List (CkptId × Nat) :=
  a.live.filter fun e => !decide (i.Releases e.1)

/-- The live checkpoints saved before the one restored. -/
def older (a : LiveCkpts) (i : CheckpointIn) : List (CkptId × Nat) :=
  (a.afterRelease i).filter fun e =>
    (a.afterRelease i).any fun r => r.1 == i.restoreId && decide (e.2 < r.2)

/-- One cycle, given the slot that a save takes, if one does. -/
def next (a : LiveCkpts) (i : CheckpointIn) (saved : Option CkptId) : LiveCkpts :=
  if i.flush then ⟨[], 0⟩
  else if i.restoreValid then ⟨a.older i, a.saves⟩
  else
    match saved with
    | some id => ⟨a.afterRelease i ++ [(id, a.saves)], a.saves + 1⟩
    | none => ⟨a.afterRelease i, a.saves⟩

end LiveCkpts

/-- The file next to the list of what is live, driven as rename drives it: no save in a cycle
that flushes or restores, and only a live checkpoint is restored. -/
def checkpointRuns : Machine (CheckpointFile × LiveCkpts) CheckpointIn where
  reset := (.reset, ⟨[], 0⟩)
  next := fun (file, a) i =>
    (file.next i,
      a.next i (if i.saveValid && file.saveAvail i then some (file.saveId i) else none))
  legal := fun (_, a) i =>
    (i.saveValid = true → i.flush = false ∧ i.restoreValid = false) ∧
      (i.restoreValid = true → ∃ n, (i.restoreId, n) ∈ a.afterRelease i)

/-- At a restore of the checkpoint with save number `n`, each live one saved before it is 1 to 63
saves back modulo 128, and each one saved after it is not 65 to 127 saves ahead modulo 128. -/
def WithinReach (st : CheckpointFile × LiveCkpts) (i : CheckpointIn) : Prop :=
  i.restoreValid = true → i.flush = false →
    ∀ n, (i.restoreId, n) ∈ st.2.afterRelease i → ∀ k m, (k, m) ∈ st.2.afterRelease i →
      (m < n → 0 < (n - m) % 128 ∧ (n - m) % 128 < 64) ∧ (n < m → (m - n) % 128 ≤ 64)

-- ---------------------------------------------------------------------
-- The file follows the list
-- ---------------------------------------------------------------------

/-- The slots in use are the live ones, their save numbers kept modulo 128. -/
structure Tracks (file : CheckpointFile) (a : LiveCkpts) : Prop where
  occupied : ∀ k : CkptId, file.occupied.getLsbD k = true ↔ ∃ n, (k, n) ∈ a.live
  seq : ∀ k n, (k, n) ∈ a.live → file.slotSeq k = BitVec.ofNat ckptSeqBits n
  nextSeq : file.nextSeq = BitVec.ofNat ckptSeqBits a.saves
  bound : ∀ k n, (k, n) ∈ a.live → n < a.saves
  functional : ∀ k m n, (k, m) ∈ a.live → (k, n) ∈ a.live → m = n
  injective : ∀ j k n, (j, n) ∈ a.live → (k, n) ∈ a.live → j = k

theorem mem_afterRelease {a : LiveCkpts} {i : CheckpointIn} {k : CkptId} {n : Nat} :
    (k, n) ∈ a.afterRelease i ↔ (k, n) ∈ a.live ∧ ¬i.Releases k := by
  simp [LiveCkpts.afterRelease]

theorem afterRelease_of_none {a : LiveCkpts} {i : CheckpointIn} (none : ∀ k, ¬i.Releases k) :
    a.afterRelease i = a.live := by
  simp [LiveCkpts.afterRelease, none]

theorem mem_older {a : LiveCkpts} {i : CheckpointIn} {k : CkptId} {m : Nat} :
    (k, m) ∈ a.older i ↔
      (k, m) ∈ a.afterRelease i ∧ ∃ n, (i.restoreId, n) ∈ a.afterRelease i ∧ m < n := by
  simp only [LiveCkpts.older, List.mem_filter, List.any_eq_true, Bool.and_eq_true, beq_iff_eq,
    decide_eq_true_eq]
  constructor
  · rintro ⟨member, ⟨id, n⟩, restored, rfl, lt⟩
    exact ⟨member, n, restored, lt⟩
  · rintro ⟨member, n, restored, lt⟩
    exact ⟨member, (i.restoreId, n), restored, rfl, lt⟩

/-- The 7-bit comparison of two save numbers is right unless they are too far apart. -/
theorem seq_compare (m n : Nat) :
    (BitVec.ofNat ckptSeqBits n - BitVec.ofNat ckptSeqBits m != 0 &&
        decide ((BitVec.ofNat ckptSeqBits n - BitVec.ofNat ckptSeqBits m).toNat <
          numCheckpoints)) = true ↔
      if m < n then 0 < (n - m) % 128 ∧ (n - m) % 128 < 64 else 64 < (m - n) % 128 := by
  have nonzero : BitVec.ofNat ckptSeqBits n - BitVec.ofNat ckptSeqBits m ≠ 0 ↔
      (BitVec.ofNat ckptSeqBits n - BitVec.ofNat ckptSeqBits m).toNat ≠ 0 := by
    rw [ne_eq, ne_eq, BitVec.toNat_eq]
    rfl
  rw [Bool.and_eq_true, bne_iff_ne, nonzero, decide_eq_true_eq, BitVec.toNat_sub]
  simp only [ckptSeqBits, checkpointBits, numCheckpoints, BitVec.toNat_ofNat]
  split_ifs with h <;> omega

namespace Tracks

variable {file : CheckpointFile} {a : LiveCkpts} {i : CheckpointIn}

theorem occupiedAfterRelease (tracks : Tracks file a) (k : CkptId) :
    (file.occupiedAfterRelease i).getLsbD k = true ↔ ∃ n, (k, n) ∈ a.afterRelease i := by
  rw [CheckpointFile.occupiedAfterRelease_iff, tracks.occupied]
  simp only [mem_afterRelease, exists_and_right]

/-- Whether a restore keeps a live slot, in terms of the two save numbers. -/
theorem restoreKeep_iff (tracks : Tracks file a) (restored : (i.restoreId, n) ∈ a.afterRelease i)
    (member : (k, m) ∈ a.afterRelease i) :
    file.restoreKeep i k = true ↔
      if m < n then 0 < (n - m) % 128 ∧ (n - m) % 128 < 64 else 64 < (m - n) % 128 := by
  have busy := (tracks.occupiedAfterRelease k).mpr ⟨m, member⟩
  rw [CheckpointFile.restoreKeep, busy, Bool.true_and, CheckpointFile.restoreSeqDelta,
    tracks.seq _ _ (mem_afterRelease.mp restored).1, tracks.seq _ _ (mem_afterRelease.mp member).1]
  exact seq_compare m n

/-- A restore keeps exactly the slots saved before the restored one iff the save numbers of the
live ones are within reach of each other. -/
theorem restore_exact_iff (tracks : Tracks file a) (flush : i.flush = false)
    (restore : i.restoreValid = true) (restored : (i.restoreId, n) ∈ a.afterRelease i) :
    (∀ k : CkptId, (file.next i).occupied.getLsbD k = true ↔ ∃ m, (k, m) ∈ a.older i) ↔
      WithinReach (file, a) i := by
  simp only [CheckpointFile.next_occupied_restore flush restore]
  have unique : ∀ n', (i.restoreId, n') ∈ a.afterRelease i → n' = n := fun n' h =>
    tracks.functional _ _ _ (mem_afterRelease.mp h).1 (mem_afterRelease.mp restored).1
  have older_iff : ∀ k m, (k, m) ∈ a.afterRelease i → ((∃ m, (k, m) ∈ a.older i) ↔ m < n) := by
    intro k m member
    constructor
    · rintro ⟨m', h⟩
      obtain ⟨member', n', h', lt⟩ := mem_older.mp h
      rw [unique n' h'] at lt
      rwa [tracks.functional _ _ _ (mem_afterRelease.mp member).1 (mem_afterRelease.mp member').1]
    · exact fun lt => ⟨m, mem_older.mpr ⟨member, n, restored, lt⟩⟩
  constructor
  · intro exact _ _ n' restored' k m member
    rw [unique n' restored']
    have keep := (tracks.restoreKeep_iff restored member).symm.trans
      ((exact k).trans (older_iff k m member))
    constructor
    · intro lt
      simpa [lt] using keep.mpr lt
    · intro gt
      have away := mt keep.mp (Nat.not_lt_of_gt gt)
      simpa [Nat.not_lt_of_gt gt] using away
  · intro within k
    by_cases live : ∃ m, (k, m) ∈ a.afterRelease i
    · obtain ⟨m, member⟩ := live
      rw [older_iff k m member, tracks.restoreKeep_iff restored member]
      obtain ⟨below, above⟩ := within restore flush n restored k m member
      by_cases lt : m < n
      · simp [lt, below lt]
      · have near : ¬64 < (m - n) % 128 := by
          rcases Nat.lt_or_eq_of_le (Nat.le_of_not_lt lt) with gt | rfl
          · exact Nat.not_lt_of_ge (above gt)
          · simp
        simp [lt, near]
    · have free : file.restoreKeep i k = false := by
        have : (file.occupiedAfterRelease i).getLsbD k = false := by
          rw [← Bool.not_eq_true, tracks.occupiedAfterRelease]
          exact live
        simp [CheckpointFile.restoreKeep, this, -BitVec.getLsbD_eq_getElem]
      constructor
      · intro h
        rw [free] at h
        exact absurd h Bool.false_ne_true
      · rintro ⟨m, h⟩
        exact absurd ⟨m, (mem_older.mp h).1⟩ live

/-- Taking checkpoints off the list keeps everything but the occupancy for free. -/
theorem shrink (tracks : Tracks file a) (sub : ∀ e ∈ live, e ∈ a.live)
    (occupied : ∀ k : CkptId, (file.next i).occupied.getLsbD k = true ↔ ∃ n, (k, n) ∈ live)
    (seq : (file.next i).slotSeq = file.slotSeq) (nextSeq : (file.next i).nextSeq = file.nextSeq) :
    Tracks (file.next i) ⟨live, a.saves⟩ where
  occupied := occupied
  seq k n h := by rw [seq]; exact tracks.seq k n (sub _ h)
  nextSeq := nextSeq.trans tracks.nextSeq
  bound k n h := tracks.bound k n (sub _ h)
  functional k m n h h' := tracks.functional k m n (sub _ h) (sub _ h')
  injective j k n h h' := tracks.injective j k n (sub _ h) (sub _ h')

theorem empty (free : ∀ k : CkptId, file.occupied.getLsbD k = false) (zero : file.nextSeq = 0) :
    Tracks file ⟨[], 0⟩ where
  occupied k := by simp only [free, Bool.false_eq_true, List.not_mem_nil, exists_false]
  seq _ _ h := by cases h
  nextSeq := zero
  bound _ _ h := by cases h
  functional _ _ _ h := by cases h
  injective _ _ _ h := by cases h

/-- A slot handed out by a save is not on the list. -/
theorem saveId_not_live (tracks : Tracks file a) (avail : file.saveAvail i = true) (n : Nat) :
    (file.saveId i, n) ∉ a.afterRelease i := by
  intro member
  have busy := (tracks.occupiedAfterRelease _).mpr ⟨n, member⟩
  rw [CheckpointFile.saveId_free avail] at busy
  exact Bool.false_ne_true busy

theorem save (tracks : Tracks file a) (flush : i.flush = false) (restore : i.restoreValid = false)
    (saveValid : i.saveValid = true) (avail : file.saveAvail i = true) :
    Tracks (file.next i) ⟨a.afterRelease i ++ [(file.saveId i, a.saves)], a.saves + 1⟩ := by
  have old : ∀ {k n}, (k, n) ∈ a.afterRelease i → (k, n) ∈ a.live ∧ k ≠ file.saveId i := by
    intro k n h
    refine ⟨(mem_afterRelease.mp h).1, ?_⟩
    rintro rfl
    exact tracks.saveId_not_live avail n h
  refine ⟨?_, ?_, ?_, ?_, ?_, ?_⟩
  · intro k
    rw [CheckpointFile.next_occupied_save flush restore saveValid avail,
      tracks.occupiedAfterRelease]
    simp only [List.mem_append, List.mem_singleton, Prod.mk.injEq]
    constructor
    · rintro (⟨n, h⟩ | rfl)
      · exact ⟨n, .inl h⟩
      · exact ⟨a.saves, .inr ⟨rfl, rfl⟩⟩
    · rintro ⟨n, h | ⟨rfl, -⟩⟩
      · exact .inl ⟨n, h⟩
      · exact .inr rfl
  · intro k n h
    simp only [CheckpointFile.next, saveValid, avail, Bool.and_self, Bool.true_and, beq_iff_eq]
    rcases List.mem_append.mp h with h | h
    · rw [if_neg (old h).2]
      exact tracks.seq k n (old h).1
    · obtain ⟨rfl, rfl⟩ := Prod.mk.inj (List.mem_singleton.mp h)
      rw [if_pos rfl, tracks.nextSeq]
  · simp only [CheckpointFile.next, flush, restore, saveValid, avail, tracks.nextSeq,
      Bool.and_self, if_true, Bool.false_eq_true, if_false]
    exact (BitVec.ofNat_add _ _).symm
  · intro k n h
    rcases List.mem_append.mp h with h | h
    · exact Nat.lt_succ_of_lt (tracks.bound k n (old h).1)
    · obtain ⟨rfl, rfl⟩ := Prod.mk.inj (List.mem_singleton.mp h)
      exact Nat.lt_succ_self _
  · intro k m n h h'
    rcases List.mem_append.mp h with h | h <;> rcases List.mem_append.mp h' with h' | h'
    · exact tracks.functional k m n (old h).1 (old h').1
    · exact absurd (Prod.mk.inj (List.mem_singleton.mp h')).1 (old h).2
    · exact absurd (Prod.mk.inj (List.mem_singleton.mp h)).1 (old h').2
    · exact (Prod.mk.inj (List.mem_singleton.mp h)).2.trans
        (Prod.mk.inj (List.mem_singleton.mp h')).2.symm
  · intro j k n h h'
    rcases List.mem_append.mp h with h | h <;> rcases List.mem_append.mp h' with h' | h'
    · exact tracks.injective j k n (old h).1 (old h').1
    · have lt := tracks.bound j n (old h).1
      exact absurd (Prod.mk.inj (List.mem_singleton.mp h')).2 (Nat.ne_of_lt lt)
    · have lt := tracks.bound k n (old h').1
      exact absurd (Prod.mk.inj (List.mem_singleton.mp h)).2 (Nat.ne_of_lt lt)
    · exact (Prod.mk.inj (List.mem_singleton.mp h)).1.trans
        (Prod.mk.inj (List.mem_singleton.mp h')).1.symm

/-- One cycle within reach keeps the file in step with the list. -/
theorem next {st : CheckpointFile × LiveCkpts} (tracks : Tracks st.1 st.2)
    (legal : checkpointRuns.legal st i) (within : WithinReach st i) :
    Tracks (checkpointRuns.next st i).1 (checkpointRuns.next st i).2 := by
  obtain ⟨file, a⟩ := st
  obtain ⟨saveGated, restoreLive⟩ := legal
  have quiet : (i.saveValid && file.saveAvail i) = false →
      (file.next i).slotSeq = file.slotSeq := fun h => by
    simp only [CheckpointFile.next, h, Bool.false_and, Bool.false_eq_true, if_false]
  show Tracks (file.next i) (a.next i _)
  cases flush : i.flush with
  | true =>
    simp only [LiveCkpts.next, flush, if_true]
    exact .empty (fun k => CheckpointFile.next_occupied_flush flush)
      (by simp [CheckpointFile.next, flush])
  | false =>
    cases restore : i.restoreValid with
    | true =>
      have saveValid : i.saveValid = false := by
        by_contra h
        exact Bool.false_ne_true ((saveGated (by simpa using h)).2.symm.trans restore)
      obtain ⟨n, restored⟩ := restoreLive restore
      have exact := (tracks.restore_exact_iff flush restore restored).mpr within
      simp only [LiveCkpts.next, flush, restore, Bool.false_eq_true, if_false, if_true]
      refine tracks.shrink ?_ exact (quiet (by simp [saveValid])) ?_
      · exact fun e h => (mem_afterRelease.mp (mem_older.mp h).1).1
      · simp [CheckpointFile.next, flush, restore]
    | false =>
      cases saved : i.saveValid && file.saveAvail i with
      | true =>
        obtain ⟨saveValid, avail⟩ := Bool.and_eq_true_iff.mp saved
        simp only [LiveCkpts.next, flush, restore, Bool.false_eq_true, if_false, if_true]
        exact tracks.save flush restore saveValid avail
      | false =>
        simp only [LiveCkpts.next, flush, restore, Bool.false_eq_true, if_false]
        refine tracks.shrink (fun e h => (mem_afterRelease.mp h).1) (fun k => ?_) (quiet saved) ?_
        · rw [CheckpointFile.next_occupied_idle flush restore saved, tracks.occupiedAfterRelease]
        · simp only [CheckpointFile.next, flush, restore, saved, Bool.false_eq_true, if_false]

end Tracks

-- ---------------------------------------------------------------------
-- Whole runs
-- ---------------------------------------------------------------------

theorem tracks_of_reach (reach : checkpointRuns.Reach WithinReach st) : Tracks st.1 st.2 :=
  reach.invariant (fun st => Tracks st.1 st.2) (.empty (fun _ => BitVec.getLsbD_zero) rfl)
    fun _ _ _ tracks legal within => tracks.next legal within

-- ---------------------------------------------------------------------
-- Squashed saves outrun the save number
-- ---------------------------------------------------------------------

def saveIn : CheckpointIn where
  saveValid := true
  restoreValid := false
  restoreId := 0
  releaseValid := fun _ => false
  releaseId := fun _ => 0
  flush := false

def restoreIn (id : CkptId) : CheckpointIn :=
  { saveIn with saveValid := false, restoreValid := true, restoreId := id }

/-- A branch takes slot 0 and stays unresolved; `n` younger branches then take slot 1, one after
the other, each of them mispredicted. -/
def squashedSaves (n : Nat) : CheckpointFile × LiveCkpts :=
  checkpointRuns.run checkpointRuns.reset
    (saveIn :: (List.replicate n [saveIn, restoreIn 1]).flatten)

theorem squashedSaves_succ (n : Nat) :
    squashedSaves (n + 1) =
      checkpointRuns.next (checkpointRuns.next (squashedSaves n) saveIn) (restoreIn 1) := by
  simp [squashedSaves, Machine.run_append, Machine.run, List.replicate_succ']

theorem saveIn_releases (k : CkptId) : ¬saveIn.Releases k :=
  fun ⟨_, _, h, _⟩ => Bool.false_ne_true h

theorem restoreIn_releases (id k : CkptId) : ¬(restoreIn id).Releases k :=
  fun ⟨_, _, h, _⟩ => Bool.false_ne_true h

/-- With only slot 0 in use a save takes slot 1. -/
theorem next_saveIn (tracks : Tracks file ⟨[(0, 0)], q⟩) :
    checkpointRuns.next (file, ⟨[(0, 0)], q⟩) saveIn =
      (file.next saveIn, ⟨[(0, 0), (1, q)], q + 1⟩) := by
  have only : ∀ k : CkptId, (file.occupiedAfterRelease saveIn).getLsbD k = true ↔ k = 0 := by
    intro k
    rw [tracks.occupiedAfterRelease, afterRelease_of_none saveIn_releases]
    simp
  have busy := (only 0).mpr rfl
  have free : ¬(file.occupiedAfterRelease saveIn).getLsbD (1 : CkptId) = true := by
    rw [only]
    decide
  have avail : file.saveAvail saveIn = true := by
    rw [CheckpointFile.saveAvail, bne_iff_ne]
    intro full
    rw [full] at free
    exact free (by decide)
  have id : file.saveId saveIn = 1 := by
    rw [CheckpointFile.saveId, List.finRange_succ, List.finRange_succ]
    simp only [List.map_cons, List.foldr_cons, busy, if_true]
    exact if_neg free
  show (file.next saveIn, LiveCkpts.next _ _ (if _ && file.saveAvail saveIn then some _ else none)) = _
  rw [avail, id]
  show (file.next saveIn, LiveCkpts.mk (LiveCkpts.afterRelease _ saveIn ++ [(1, q)]) (q + 1)) = _
  rw [afterRelease_of_none saveIn_releases]
  rfl

/-- The mispredicted younger branch leaves slot 0 alone on the list. -/
theorem next_restoreIn (positive : 0 < q) :
    checkpointRuns.next (file, ⟨[(0, 0), (1, q)], q + 1⟩) (restoreIn 1) =
      (file.next (restoreIn 1), ⟨[(0, 0)], q + 1⟩) := by
  show (file.next (restoreIn 1), LiveCkpts.mk (LiveCkpts.older _ (restoreIn 1)) (q + 1)) = _
  rw [LiveCkpts.older, afterRelease_of_none (restoreIn_releases 1)]
  simp [restoreIn, positive]

theorem legal_saveIn : checkpointRuns.legal st saveIn :=
  ⟨fun _ => ⟨rfl, rfl⟩, fun h => absurd h Bool.false_ne_true⟩

theorem legal_restoreIn : checkpointRuns.legal (file, ⟨[(0, 0), (1, q)], q + 1⟩) (restoreIn 1) := by
  refine ⟨fun h => absurd h Bool.false_ne_true, fun _ => ⟨q, ?_⟩⟩
  rw [afterRelease_of_none (restoreIn_releases 1)]
  exact List.mem_cons_of_mem _ (List.mem_singleton_self _)

theorem withinReach_restoreIn (positive : 0 < q) :
    WithinReach (file, ⟨[(0, 0), (1, q)], q + 1⟩) (restoreIn 1) ↔ 0 < q % 128 ∧ q % 128 < 64 := by
  rw [WithinReach, afterRelease_of_none (restoreIn_releases 1)]
  constructor
  · intro within
    exact (within rfl rfl q (by simp [restoreIn]) 0 0 (by simp)).1 positive
  · rintro near - - n restored k m member
    obtain rfl : n = q := by
      rcases List.mem_cons.mp restored with h | h
      · exact absurd (Prod.mk.inj h).1 (by decide)
      · exact (Prod.mk.inj (List.mem_singleton.mp h)).2
    rcases List.mem_cons.mp member with h | h
    · obtain ⟨rfl, rfl⟩ := Prod.mk.inj h
      exact ⟨fun _ => near, fun h => absurd h (Nat.not_lt_zero _)⟩
    · obtain ⟨rfl, rfl⟩ := Prod.mk.inj (List.mem_singleton.mp h)
      exact ⟨fun h => absurd h (Nat.lt_irrefl _), fun h => absurd h (Nat.lt_irrefl _)⟩

/-- The first 63 mispredicted branches do no harm. -/
theorem squashedSaves_within (n : Nat) (few : n < 64) :
    checkpointRuns.Reach WithinReach (squashedSaves n) ∧ (squashedSaves n).2 = ⟨[(0, 0)], n + 1⟩ := by
  have vacuous : ∀ st, WithinReach st saveIn := fun _ h => absurd h Bool.false_ne_true
  induction n with
  | zero =>
    refine ⟨.cycle .reset legal_saveIn (vacuous _), ?_⟩
    decide +kernel
  | succ n ih =>
    obtain ⟨reach, live⟩ := ih (Nat.lt_of_succ_lt few)
    have tracks := tracks_of_reach reach
    rw [squashedSaves_succ]
    generalize squashedSaves n = st at reach live tracks
    obtain ⟨file, a⟩ := st
    obtain rfl : a = ⟨[(0, 0)], n + 1⟩ := live
    have saved := Machine.Reach.cycle reach legal_saveIn (vacuous _)
    rw [next_saveIn tracks] at saved ⊢
    have near : 0 < (n + 1) % 128 ∧ (n + 1) % 128 < 64 := by omega
    have restored := saved.cycle legal_restoreIn
      ((withinReach_restoreIn n.succ_pos).mpr near)
    rw [next_restoreIn n.succ_pos] at restored ⊢
    exact ⟨restored, rfl⟩

-- ---------------------------------------------------------------------
-- Exact restores
-- ---------------------------------------------------------------------

/-- As long as every restore is within reach, the slots in use are exactly the live checkpoints,
no save hands out a live one, and the next restore keeps exactly the ones saved before the
restored one iff it is within reach too. -/
theorem restore_keeps_exactly_older (reach : checkpointRuns.Reach WithinReach st) :
    (∀ k : CkptId, st.1.occupied.getLsbD k = true ↔ ∃ n, (k, n) ∈ st.2.live) ∧
    (∀ i, i.saveValid = true → st.1.saveAvail i = true →
      ∀ n, (st.1.saveId i, n) ∉ st.2.afterRelease i) ∧
    ∀ i, checkpointRuns.legal st i → i.restoreValid = true → i.flush = false →
      ((∀ k : CkptId, (st.1.next i).occupied.getLsbD k = true ↔ ∃ m, (k, m) ∈ st.2.older i) ↔
        WithinReach st i) := by
  have tracks := tracks_of_reach reach
  refine ⟨tracks.occupied, fun i _ avail n => tracks.saveId_not_live avail n, ?_⟩
  intro i legal restore flush
  obtain ⟨n, restored⟩ := legal.2 restore
  exact tracks.restore_exact_iff flush restore restored

theorem restore_keeps_exactly_older_first : (squashedSaves 1).1.occupied.getLsbD 0 = true := by
  obtain ⟨reach, live⟩ := squashedSaves_within 1 (by decide)
  refine ((restore_keeps_exactly_older reach).1 0).mpr ⟨0, ?_⟩
  rw [live]
  exact List.mem_singleton_self _

/-- The 64th drops the older checkpoint: slot 0 is still live and no longer in use. -/
theorem squashed_saves_drop_checkpoint :
    checkpointRuns.Reachable (squashedSaves 64) ∧ (0, 0) ∈ (squashedSaves 64).2.live ∧
      (squashedSaves 64).1.occupied.getLsbD 0 = false := by
  obtain ⟨reach, live⟩ := squashedSaves_within 63 (by decide)
  have tracks := tracks_of_reach reach
  rw [squashedSaves_succ]
  generalize squashedSaves 63 = st at reach live tracks
  obtain ⟨file, a⟩ := st
  obtain rfl : a = ⟨[(0, 0)], 64⟩ := live
  have saved := reach.cycle legal_saveIn fun h => absurd h Bool.false_ne_true
  rw [next_saveIn tracks] at saved ⊢
  have dropped : (file.next saveIn).restoreKeep (restoreIn 1) 0 = false := by
    have live := afterRelease_of_none (restoreIn_releases 1) (a := ⟨[(0, 0), (1, 64)], 65⟩)
    rw [← Bool.not_eq_true, (tracks_of_reach saved).restoreKeep_iff (n := 64) (m := 0)]
    · decide
    · rw [live]
      exact List.mem_cons_of_mem _ (List.mem_singleton_self _)
    · rw [live]
      exact List.mem_cons_self
  refine ⟨?_, ?_, ?_⟩
  · exact saved.reachable.cycle legal_restoreIn
  · rw [next_restoreIn (by decide)]
    exact List.mem_singleton_self _
  · exact (CheckpointFile.next_occupied_restore rfl rfl).trans dropped

end Rv64gc.Rename
