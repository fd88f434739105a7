import Mathlib.Data.List.Basic

/-!
# Delay lines

What is put into a delay line comes out `latency` cycles later. Instead of a shift register a queue
will do, if every entry is kept with the cycle it is due: one entry at most is due in a cycle, and
it is the head.
-/

namespace Rv64gc.Hdl.Delay

variable {α : Type}

/-- What was put in, oldest first, with the cycle it is due. The cycles are given last first. -/
def dated (latency : Nat) : List (Option α) → List (α × Nat)
  | [] => []
  | new :: before =>
    dated latency before ++ (new.map fun a => (a, before.length + latency)).toList

/-- What is due after the cycles given. -/
def waiting (latency : Nat) (ins : List (Option α)) : List (α × Nat) :=
  (dated latency ins).filter fun e => ins.length < e.2

/-- What comes out behind the cycles given. -/
def out (latency : Nat) (ins : List (Option α)) : Option α := (ins[latency - 1]?).join

variable {latency : Nat} {ins : List (Option α)} {a : α}

theorem mem_dated {m : Nat} : (a, m) ∈ dated latency ins ↔
    ∃ j, ins[j]? = some (some a) ∧ m + j + 1 = ins.length + latency := by
  induction ins with
  | nil => simp [dated]
  | cons new before ih =>
    simp only [dated, List.mem_append, ih, List.length_cons]
    constructor
    · rintro (⟨j, there, due⟩ | now)
      · exact ⟨j + 1, there, by omega⟩
      · obtain ⟨b, rfl, same⟩ := Option.map_eq_some_iff.mp (Option.mem_toList.mp now)
        obtain ⟨rfl, rfl⟩ := Prod.mk.inj same
        exact ⟨0, rfl, by omega⟩
    · rintro ⟨j, there, due⟩
      cases j with
      | zero =>
        obtain rfl : new = some a := by simpa using there
        refine .inr ?_
        obtain rfl : m = before.length + latency := by omega
        simp
      | succ j => exact .inl ⟨j, there, by omega⟩

/-- No two are due in the same cycle. -/
theorem dated_sorted (latency : Nat) (ins : List (Option α)) :
    (dated latency ins).Pairwise fun e f => e.2 < f.2 := by
  induction ins with
  | nil => exact .nil
  | cons new before ih =>
    refine List.pairwise_append.mpr ⟨ih, by cases new <;> simp, fun e old f now => ?_⟩
    obtain ⟨j, -, due⟩ := mem_dated.mp (show (e.1, e.2) ∈ _ from old)
    obtain ⟨b, -, rfl⟩ := Option.map_eq_some_iff.mp (Option.mem_toList.mp now)
    show e.2 < before.length + latency
    omega

theorem waiting_sorted (latency : Nat) (ins : List (Option α)) :
    (waiting latency ins).Pairwise fun e f => e.2 < f.2 :=
  (dated_sorted latency ins).sublist List.filter_sublist

theorem lt_of_mem_waiting {e : α × Nat} (on : e ∈ waiting latency ins) : ins.length < e.2 :=
  of_decide_eq_true (List.mem_filter.mp on).2

/-- How late an entry may be due -/
theorem due_lt {e : α × Nat} (on : e ∈ waiting latency ins) : e.2 < ins.length + latency := by
  obtain ⟨j, -, due⟩ := mem_dated.mp (show (e.1, e.2) ∈ _ from (List.mem_filter.mp on).1)
  omega

/-- What is due in the next cycle is the head. -/
theorem head_of_due (on : (a, ins.length + 1) ∈ waiting latency ins) :
    (waiting latency ins).head? = some (a, ins.length + 1) := by
  have sorted := waiting_sorted latency ins
  cases queue : waiting latency ins with
  | nil => rw [queue] at on; cases on
  | cons e rest =>
    rw [queue] at on sorted
    rcases List.mem_cons.mp on with rfl | later
    · rfl
    · have before := (List.pairwise_cons.mp sorted).1 _ later
      have after : ins.length < e.2 := lt_of_mem_waiting (queue ▸ List.mem_cons_self)
      dsimp only at before
      omega

/-- The head comes out in the cycle it is due. -/
theorem out_cons (new : Option α) (long : 1 < latency) : out latency (new :: ins) =
    ((waiting latency ins).head?.filter fun e => e.2 = ins.length + 1).map Prod.fst := by
  obtain ⟨k, rfl⟩ : ∃ k, latency = k + 2 := ⟨latency - 2, by omega⟩
  have stage : out (k + 2) (new :: ins) = (ins[k]?).join := rfl
  rw [stage]
  refine Option.ext fun b => ?_
  simp only [Option.join_eq_some_iff, Option.map_eq_some_iff, Option.filter_eq_some_iff,
    decide_eq_true_eq]
  constructor
  · intro there
    have dated : (b, ins.length + 1) ∈ dated (k + 2) ins := mem_dated.mpr ⟨k, there, by omega⟩
    have on : (b, ins.length + 1) ∈ waiting (k + 2) ins :=
      List.mem_filter.mpr ⟨dated, decide_eq_true (Nat.lt_succ_self _)⟩
    exact ⟨_, ⟨head_of_due on, rfl⟩, rfl⟩
  · rintro ⟨⟨c, m⟩, ⟨head, due⟩, rfl⟩
    obtain rfl : m = ins.length + 1 := due
    have on := List.mem_of_mem_head? head
    obtain ⟨j, there, place⟩ := mem_dated.mp (List.mem_filter.mp on).1
    obtain rfl : j = k := by omega
    exact there

/-- The queue loses its head in the cycle it is due, and gets what is put in. -/
theorem waiting_cons (new : Option α) (long : 1 < latency) : waiting latency (new :: ins) =
    (waiting latency ins).drop
        (if (waiting latency ins).head?.any fun e => e.2 = ins.length + 1 then 1 else 0) ++
      (new.map fun a => (a, ins.length + latency)).toList := by
  have sorted := waiting_sorted latency ins
  have kept : (dated latency ins).filter (fun e => ins.length + 1 < e.2) =
      (waiting latency ins).filter fun e => ins.length + 1 < e.2 := by
    rw [waiting, List.filter_filter]
    refine List.filter_congr fun e _ => ?_
    rw [Bool.eq_iff_iff]
    simp only [decide_eq_true_eq, Bool.and_eq_true]
    omega
  have fresh : ((new.map fun a => (a, ins.length + latency)).toList).filter
      (fun e => ins.length + 1 < e.2) = (new.map fun a => (a, ins.length + latency)).toList := by
    refine List.filter_eq_self.mpr fun e on => ?_
    obtain ⟨b, -, rfl⟩ := Option.map_eq_some_iff.mp (Option.mem_toList.mp on)
    exact decide_eq_true (by show ins.length + 1 < ins.length + latency; omega)
  have parts : waiting latency (new :: ins) =
      (dated latency ins).filter (fun e => ins.length + 1 < e.2) ++
        ((new.map fun a => (a, ins.length + latency)).toList).filter
          (fun e => ins.length + 1 < e.2) := List.filter_append _ _
  rw [parts, kept, fresh]
  congr 1
  cases queue : waiting latency ins with
  | nil => rfl
  | cons e rest =>
    rw [queue] at sorted
    obtain ⟨first, -⟩ := List.pairwise_cons.mp sorted
    have after : ins.length < e.2 := lt_of_mem_waiting (queue ▸ List.mem_cons_self)
    have later : rest.filter (fun e => ins.length + 1 < e.2) = rest :=
      List.filter_eq_self.mpr fun f on => decide_eq_true (by have := first f on; omega)
    by_cases due : e.2 = ins.length + 1
    · simp [due, later]
    · simp [due, later, show ins.length + 1 < e.2 by omega]

/-- A delay of one cycle needs no queue. -/
theorem waiting_one (ins : List (Option α)) : waiting 1 ins = [] := by
  refine List.eq_nil_iff_forall_not_mem.mpr fun e on => ?_
  have after := lt_of_mem_waiting on
  have before := due_lt on
  omega

end Rv64gc.Hdl.Delay
