import Mathlib.Data.Finset.Card
import Mathlib.Data.List.Nodup
import Rv64gc.Hdl.Index

/-!
# A store of the last few

A store of at most `n` keys with their values, the last one that came first. A key that is in stays
in its place when its value changes; a new one takes the place of the one that came first.
-/

namespace Rv64gc.Hdl.Recent

variable {K V : Type} [DecidableEq K] {n : Nat} {k k' : K} {v v' : V} {l : List (K × V)}

def keys (l : List (K × V)) : List K := l.map Prod.fst

def put (n : Nat) (u : K × V) (l : List (K × V)) : List (K × V) :=
  if u.1 ∈ keys l then l.map fun e => if e.1 = u.1 then u else e else (u :: l).take n

def puts (n : Nat) (l : List (K × V)) (us : List (K × V)) : List (K × V) :=
  us.foldl (fun l u => put n u l) l

-- ---------------------------------------------------------------------
-- One key
-- ---------------------------------------------------------------------

theorem keys_replace (u : K × V) (l : List (K × V)) :
    keys (l.map fun e => if e.1 = u.1 then u else e) = keys l := by
  rw [keys, List.map_map]
  refine List.map_congr_left fun e _ => ?_
  by_cases same : e.1 = u.1 <;> simp [same]

theorem keys_put (u : K × V) :
    keys (put n u l) = if u.1 ∈ keys l then keys l else (u.1 :: keys l).take n := by
  unfold put
  split
  next => exact keys_replace u l
  next => rw [keys, List.map_take]; rfl

theorem nodup_put (u : K × V) (distinct : (keys l).Nodup) : (keys (put n u l)).Nodup := by
  rw [keys_put]
  split
  next => exact distinct
  next new => exact (List.nodup_cons.mpr ⟨new, distinct⟩).sublist (List.take_sublist _ _)

theorem length_put (u : K × V) (few : l.length ≤ n) : (put n u l).length ≤ n := by
  unfold put
  split
  next => rwa [List.length_map]
  next => exact List.length_take_le _ _

/-- A store holds what was put last. -/
theorem eq_or_mem_of_mem_put {u e : K × V} (holds : e ∈ put n u l) :
    e = u ∨ e.1 ≠ u.1 ∧ e ∈ l := by
  unfold put at holds
  split at holds
  next =>
    obtain ⟨d, on, rfl⟩ := List.mem_map.mp holds
    by_cases same : d.1 = u.1
    · exact .inl (if_pos same)
    · rw [if_neg same]
      exact .inr ⟨same, on⟩
  next new =>
    rcases List.mem_cons.mp (List.mem_of_mem_take holds) with rfl | on
    · exact .inl rfl
    · exact .inr ⟨fun same => new (same ▸ List.mem_map_of_mem on), on⟩

-- ---------------------------------------------------------------------
-- A run
-- ---------------------------------------------------------------------

theorem puts_concat (us : List (K × V)) (u : K × V) :
    puts n l (us ++ [u]) = put n u (puts n l us) := by
  simp [puts]

theorem nodup_puts (us : List (K × V)) (distinct : (keys l).Nodup) :
    (keys (puts n l us)).Nodup := by
  induction us using List.reverseRecOn with
  | nil => exact distinct
  | append_singleton us u ih => rw [puts_concat]; exact nodup_put u ih

/-- The value of a key is the last that came with it. -/
theorem lookup_of_mem_puts (us : List (K × V)) (holds : (k, v) ∈ puts n [] us) :
    us.reverse.lookup k = some v := by
  induction us using List.reverseRecOn with
  | nil => cases holds
  | append_singleton us u ih =>
    rw [puts_concat] at holds
    rw [List.reverse_concat, List.lookup_cons]
    rcases eq_or_mem_of_mem_put holds with rfl | ⟨other, before⟩
    · rw [BEq.rfl]
    · rw [beq_false_of_ne other]
      exact ih before

/-- A key that came new stays as long as fewer than `n` others come, and its value is the last that
came with it. -/
theorem mem_puts_of_few (us : List (K × V)) (new : k ∉ keys l) (distinct : (keys l).Nodup)
    (few : ((keys us).filter (· ≠ k)).toFinset.card < n) :
    ∃ w, (us.reverse ++ [(k, v)]).lookup k = some w ∧ (k, w) ∈ puts n l ((k, v) :: us) := by
  -- What came after it lies before it.
  suffices ∃ newer w older, puts n l ((k, v) :: us) = newer ++ (k, w) :: older ∧
      (∀ a ∈ keys newer, a ∈ (keys us).filter (· ≠ k)) ∧
      (us.reverse ++ [(k, v)]).lookup k = some w by
    obtain ⟨newer, w, older, place, -, last⟩ := this
    exact ⟨w, last, place ▸ List.mem_append_right newer List.mem_cons_self⟩
  induction us using List.reverseRecOn with
  | nil =>
    have room : 0 < n := Nat.zero_lt_of_lt few
    obtain ⟨m, rfl⟩ := Nat.exists_eq_succ_of_ne_zero room.ne'
    refine ⟨[], v, l.take m, ?_, fun a on => (List.not_mem_nil on).elim, by simp⟩
    show put _ (k, v) l = _
    rw [put, if_neg new]
    rfl
  | append_singleton us u ih =>
    have sub : (keys us).filter (· ≠ k) ⊆ (keys (us ++ [u])).filter (· ≠ k) := by
      intro a on
      simp only [keys, List.map_append, List.filter_append, List.mem_append]
      exact .inl on
    obtain ⟨newer, w, older, place, inside, last⟩ := ih ((Finset.card_le_card
      (fun a on => List.mem_toFinset.mpr (sub (List.mem_toFinset.mp on)))).trans_lt few)
    have step : puts n l ((k, v) :: (us ++ [u])) = put n u (newer ++ (k, w) :: older) := by
      rw [← List.cons_append, puts_concat, place]
    have apart : (keys (newer ++ (k, w) :: older)).Nodup := by
      rw [← place]
      exact nodup_puts _ distinct
    have lookup : ((us ++ [u]).reverse ++ [(k, v)]).lookup k =
        if k = u.1 then some u.2 else some w := by
      rw [List.reverse_concat, List.cons_append, List.lookup_cons, last]
      by_cases same : k = u.1
      · rw [if_pos same, beq_iff_eq.mpr same]
      · rw [if_neg same, beq_false_of_ne same]
    by_cases held : u.1 ∈ keys (newer ++ (k, w) :: older)
    · -- Its value changes in its place.
      refine ⟨newer.map fun e => if e.1 = u.1 then u else e, if k = u.1 then u.2 else w,
        older.map fun e => if e.1 = u.1 then u else e, ?_, ?_, ?_⟩
      · rw [step, put, if_pos held, List.map_append, List.map_cons]
        by_cases same : k = u.1 <;> simp [same]
      · rw [keys_replace]
        exact fun a on => sub (inside a on)
      · rw [lookup]
        split <;> rfl
    · -- It comes new, and what is newer than `k` is still less than a full store.
      have other : u.1 ≠ k := by
        rintro rfl
        exact held (List.mem_map.mpr ⟨(_, w), by simp, rfl⟩)
      have within : ∀ a ∈ keys (u :: newer), a ∈ (keys (us ++ [u])).filter (· ≠ k) := by
        intro a on
        rcases List.mem_cons.mp on with rfl | on
        · simp [keys, other]
        · exact sub (inside a on)
      have once : (keys (u :: newer)).Nodup := by
        refine List.nodup_cons.mpr ⟨fun on => held ?_, ?_⟩
        · rw [keys, List.map_append]
          exact List.mem_append_left _ on
        · rw [keys, List.map_append] at apart
          exact apart.of_append_left
      have short : (u :: newer).length < n := by
        have count : (keys (u :: newer)).toFinset.card = (u :: newer).length := by
          rw [List.toFinset_card_of_nodup once, keys, List.length_map]
        rw [← count]
        exact (Finset.card_le_card fun a on =>
          List.mem_toFinset.mpr (within a (List.mem_toFinset.mp on))).trans_lt few
      refine ⟨u :: newer, w, older.take (n - (u :: newer).length - 1), ?_, within, ?_⟩
      · rw [step, put, if_neg held, ← List.cons_append, List.take_append,
          List.take_of_length_le short.le]
        obtain ⟨m, more⟩ := Nat.exists_eq_succ_of_ne_zero (Nat.sub_ne_zero_of_lt short)
        rw [more]
        rfl
      · rw [lookup, if_neg other.symm]

end Rv64gc.Hdl.Recent
