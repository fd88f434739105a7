import Mathlib.Data.Fintype.Card
import Mathlib.Data.Fintype.Fin
import Rv64gc.Cache.DcacheStores

/-!
# How long a store is deferred

A deferred line waits for stores to write it in full. An entry that has waited for 64 cycles goes on
as a fill, one entry a cycle and the first one first. The others are at most fifteen, and one that
goes on is not back in time, so none waits for more than 80 cycles and no count wraps around.
-/

namespace Rv64gc.L1d

open Hdl

namespace Dcache

/-- The entry waits for stores to its line. -/
def Deferred (s : Dcache) (m : MshrIdx) : Prop :=
  (s.mshr m).valid = true ∧ (s.mshr m).nwaPending = true

/-- The cycles that the entry has waited for. -/
def waited (s : Dcache) (m : MshrIdx) : Nat := (s.mshr m).nwaIdleCnt.toNat

instance (s : Dcache) (m : MshrIdx) : Decidable (s.Deferred m) :=
  inferInstanceAs (Decidable (_ ∧ _))

/-- The entries that may go before it. -/
def ahead (s : Dcache) (m : MshrIdx) : Finset MshrIdx :=
  Finset.univ.filter fun k => k < m ∧ s.Deferred k ∧ s.waited m - 64 ≤ s.waited k

/-- Each cycle an entry has waited for its turn, one that was ahead has gone. -/
def Timely (s : Dcache) : Prop :=
  ∀ m, s.Deferred m → 64 ≤ s.waited m → (s.ahead m).card + (s.waited m - 64) ≤ m.val

variable {s : Dcache} {i : Inputs} {en : Bool} {m k : MshrIdx}

theorem Timely.waited_le (timely : s.Timely) (deferred : s.Deferred m) : s.waited m ≤ 79 := by
  by_cases turn : 64 ≤ s.waited m
  · have := timely m deferred turn
    have := m.isLt
    omega
  · omega

theorem idleUpgrade_some (first : s.idleUpgrade = some k) : s.Deferred k ∧ 64 ≤ s.waited k := by
  have picked := firstOf_some first
  simp only [Bool.and_eq_true, decide_eq_true_eq, BitVec.le_def] at picked
  exact ⟨picked.1, picked.2⟩

/-- Whose turn it is comes first. -/
theorem idleUpgrade_le (deferred : s.Deferred m) (turn : 64 ≤ s.waited m) :
    ∃ k, s.idleUpgrade = some k ∧ k ≤ m := by
  have here : ((s.mshr m).valid && (s.mshr m).nwaPending &&
      decide (64#7 ≤ (s.mshr m).nwaIdleCnt)) = true := by
    rw [deferred.1, deferred.2]
    exact decide_eq_true turn
  cases first : s.idleUpgrade with
  | none =>
    have no := firstOf_none.mp first m
    cases here.symm.trans no
  | some k =>
    refine ⟨k, rfl, ?_⟩
    by_contra behind
    have no := firstOf_least first (Nat.lt_of_not_le behind)
    cases here.symm.trans no

-- ---------------------------------------------------------------------
-- One cycle
-- ---------------------------------------------------------------------

theorem nextMshr_idleCnt (m : MshrIdx) : (s.nextMshr i m).nwaIdleCnt =
    (if (s.mshr m).valid && (s.mshr m).nwaPending && s.idleUpgrade != some m then
      (s.mshr m).nwaIdleCnt + 1
    else if s.mshrFree = some m then ((s.allocated i (s.mshr m)).getD (s.mshr m)).nwaIdleCnt
    else (s.mshr m).nwaIdleCnt) := by
  simp only [nextMshr, upgrade, apply_ite Mshr.nwaIdleCnt, ite_self]

theorem allocated_idleCnt {old e : Mshr} (new : s.allocated i old = some e)
    (pending : e.nwaPending = true) : e.nwaIdleCnt = 0 := by
  unfold allocated at new
  split_ifs at new
  all_goals
    obtain ⟨l, -, rfl⟩ := Option.map_eq_some_iff.mp new
    first | rfl | cases pending

theorem succ_toNat (c : BitVec 7) (small : c.toNat ≤ 79) : (c + 1).toNat = c.toNat + 1 := by
  rw [BitVec.toNat_add]
  exact Nat.mod_eq_of_lt (by show c.toNat + 1 < 128; omega)

/-- A deferred entry has waited for one cycle more, or is new. -/
theorem Timely.deferred_next (timely : s.Timely) (deferred : (s.next i en).Deferred m) :
    s.Deferred m ∧ s.idleUpgrade ≠ some m ∧ (s.next i en).waited m = s.waited m + 1 ∨
      s.mshrFree = some m ∧ (s.next i en).waited m = 0 := by
  obtain ⟨valid, pending⟩ := deferred
  have valid : (s.nextMshr i m).valid = true := valid
  have pending : (s.nextMshr i m).nwaPending = true := pending
  have count : (s.next i en).waited m = (s.nextMshr i m).nwaIdleCnt.toNat := rfl
  rw [nextMshr_valid] at valid
  rw [nextMshr_pending] at pending
  rw [count, nextMshr_idleCnt]
  split_ifs at valid with _ full free
  · split_ifs at pending
    have invalid := mshrFree_valid free
    rw [invalid]
    refine .inr ⟨free, ?_⟩
    simp only [Bool.false_and, Bool.false_eq_true, if_false, free, if_true]
    cases new : s.allocated i (s.mshr m) with
    | none =>
      rw [new] at valid
      cases invalid.symm.trans valid
    | some e =>
      rw [new] at pending
      rw [Option.getD_some, allocated_idleCnt new pending]
      rfl
  · split_ifs at pending with upgraded
    have later : s.idleUpgrade ≠ some m := by
      intro now
      simp [upgrades, now] at upgraded
    have small := timely.waited_le ⟨valid, pending⟩
    refine .inl ⟨⟨valid, pending⟩, later, ?_⟩
    rw [valid, pending, bne_iff_ne.mpr later]
    exact succ_toNat _ small

theorem card_below (m : MshrIdx) (l : Finset MshrIdx) (below : ∀ k ∈ l, k < m) :
    l.card ≤ m.val := by
  have sub : l ⊆ Finset.Iio m := fun k on => Finset.mem_Iio.mpr (below k on)
  exact (Finset.card_le_card sub).trans_eq (Fin.card_Iio m)

theorem Timely.next (timely : s.Timely) : (s.next i en).Timely := by
  intro m deferred turn
  rcases timely.deferred_next deferred with ⟨before, later, more⟩ | ⟨-, new⟩
  · rw [more] at turn ⊢
    by_cases first : s.waited m = 63
    · have below := card_below m ((s.next i en).ahead m) fun k on => (Finset.mem_filter.mp on).2.1
      omega
    · have turn : 64 ≤ s.waited m := by omega
      have small := timely.waited_le before
      obtain ⟨k, chosen, le⟩ := idleUpgrade_le before turn
      obtain ⟨goes, due⟩ := idleUpgrade_some chosen
      have lt : k < m := lt_of_le_of_ne le fun same => later (same ▸ chosen)
      have here : k ∈ s.ahead m :=
        Finset.mem_filter.mpr ⟨Finset.mem_univ k, lt, goes, by omega⟩
      have sub : (s.next i en).ahead m ⊆ (s.ahead m).erase k := by
        intro j on
        obtain ⟨-, under, still, near⟩ := Finset.mem_filter.mp on
        rw [more] at near
        rcases timely.deferred_next still with ⟨was, other, one⟩ | ⟨-, new⟩
        · refine Finset.mem_erase.mpr ⟨fun same => other (same ▸ chosen), ?_⟩
          exact Finset.mem_filter.mpr ⟨Finset.mem_univ j, under, was, by omega⟩
        · omega
      have fewer := Finset.card_le_card sub
      rw [Finset.card_erase_of_mem here] at fewer
      have some_ := Finset.card_pos.mpr ⟨k, here⟩
      have kept := timely m before turn
      omega
  · omega

theorem Timely.reset : (reset : Dcache).Timely := by
  intro m deferred
  cases deferred.1

/-- What is neither upgraded nor installed waits on. -/
theorem deferred_stays (deferred : s.Deferred m) (waits : s.upgrades i m = false)
    (stays : s.installIdx ≠ some m) : (s.next i en).Deferred m := by
  obtain ⟨noFill, noValidate⟩ := ne_of_installIdx_ne stays
  have taken : s.mshrFree ≠ some m := fun free => by
    cases (mshrFree_valid free).symm.trans deferred.1
  constructor
  · show (s.nextMshr i m).valid = true
    rw [nextMshr_valid, if_neg noFill, if_neg noValidate, if_neg taken, deferred.1]
  · show (s.nextMshr i m).nwaPending = true
    rw [nextMshr_pending, waits, if_neg Bool.false_ne_true, if_neg noValidate, if_neg taken,
      deferred.2]

/-- Its count is at least as far as the cycles gone by, and never beyond 79. -/
theorem Timely.leaves (n : Nat) (xs : List Inputs) (timely : s.Timely) (deferred : s.Deferred m)
    (late : 80 ≤ s.waited m + n) (enough : n ≤ xs.length) :
    ∃ before x after, xs = before ++ x :: after ∧ before.length < n ∧
      (((dcacheRuns en).run s before).upgrades x m = true ∨
        ((dcacheRuns en).run s before).installIdx = some m) := by
  induction n generalizing s xs with
  | zero =>
    have := timely.waited_le deferred
    omega
  | succ n ih =>
    cases xs with
    | nil => cases enough
    | cons x rest =>
      by_cases leaves : s.upgrades x m = true ∨ s.installIdx = some m
      · exact ⟨[], x, rest, rfl, Nat.succ_pos n, leaves⟩
      · obtain ⟨waits, stays⟩ := not_or.mp leaves
        have after : (s.next x en).Deferred m :=
          deferred_stays deferred (Bool.eq_false_of_not_eq_true waits) stays
        have more : (s.next x en).waited m = s.waited m + 1 := by
          rcases timely.deferred_next after with ⟨-, -, more⟩ | ⟨free, -⟩
          · exact more
          · cases (mshrFree_valid free).symm.trans deferred.1
        obtain ⟨before, y, later, rfl, early, leaves⟩ :=
          ih rest timely.next after (by omega) (Nat.le_of_succ_le_succ enough)
        exact ⟨x :: before, y, later, rfl, Nat.succ_lt_succ early, leaves⟩

end Dcache

/-- A deferred line is installed, or goes on as a fill, within 80 cycles. -/
theorem deferral_bounded (en : Bool) (s : Dcache) (reach : (dcacheRuns en).Reachable s)
    (m : MshrIdx) (deferred : s.Deferred m) (xs : List Inputs) (long : 80 ≤ xs.length) :
    ∃ before x after, xs = before ++ x :: after ∧ before.length < 80 ∧
      (((dcacheRuns en).run s before).upgrades x m = true ∨
        ((dcacheRuns en).run s before).installIdx = some m) := by
  have timely : s.Timely := by
    refine reach.invariant Dcache.Timely .reset ?_
    intro s i _ timely _ _
    exact timely.next
  exact timely.leaves 80 xs deferred (Nat.le_add_left _ _) long

/-- Two bytes of a line are deferred at reset, and the line goes on as a fill. -/
theorem deferral_bounded_two :
    ∃ before x after, List.replicate 80 Inputs.quiet = before ++ x :: after ∧ before.length < 80 ∧
      (((dcacheRuns false).run ((dcacheRuns false).run .reset [storeIn, storeIn]) before).upgrades
          x 0 = true ∨
        ((dcacheRuns false).run ((dcacheRuns false).run .reset [storeIn, storeIn])
          before).installIdx = some 0) :=
  deferral_bounded false _ (Machine.Reachable.run .reset (legal_any _)) 0 (by decide +kernel) _
    (by decide)

end Rv64gc.L1d
