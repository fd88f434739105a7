import Rv64gc.Hdl.Compact
import Rv64gc.Hdl.Ring

/-!
# Queues in a ring

A queue keeps its entries in the `count` slots from the head on. What it contains is a list, and
whatever a cycle does at the two ends shows as `drop`, `take` and `++` of that list.
-/

namespace Rv64gc.Hdl

/-- Counting an initial run. -/
theorem countP_range_initial {keep : Nat → Bool} {m n : Nat}
    (initial : ∀ k, k < n → (keep k = true ↔ k < m)) (bound : m ≤ n) :
    (List.range n).countP keep = m := by
  have same : (List.range n).countP keep = (List.range n).countP fun k => decide (k < m) := by
    apply List.countP_congr
    intro k on
    simp [initial k (List.mem_range.mp on)]
  have run : packed (fun k => decide (k < m)) n = List.range m := packed_eq_range (by simp) bound
  rw [same, List.countP_eq_length_filter]
  show (packed (fun k => decide (k < m)) n).length = m
  rw [run, List.length_range]

/-- A ring with its pointers and the number of slots in use. -/
structure Fifo (w : Nat) (α : Type) where
  head : BitVec w
  tail : BitVec w
  count : Nat
  slot : BitVec w → α

namespace Fifo

variable {f g : Fifo w α}

/-- The entry with `k` others before it. -/
def nth (f : Fifo w α) (k : Nat) : α := f.slot (slotAt f.head k)

def contents (f : Fifo w α) : List α := (List.range f.count).map f.nth

/-- The slot is in use. -/
def Live (f : Fifo w α) (i : BitVec w) : Prop := offset f.head i < f.count

/-- The pointers and the count fit. -/
structure Sound (f : Fifo w α) : Prop where
  fits : f.count ≤ 2 ^ w
  tail : f.tail = slotAt f.head f.count

@[simp] theorem length_contents (f : Fifo w α) : f.contents.length = f.count := by
  simp [contents]

@[simp] theorem getElem_contents (inside : k < f.contents.length) : f.contents[k] = f.nth k := by
  simp [contents]

theorem live_slotAt (sound : f.Sound) (inside : k < f.count) : f.Live (slotAt f.head k) := by
  rw [Live, offset_slotAt f.head (Nat.lt_of_lt_of_le inside sound.fits)]
  exact inside

/-- The entries from `n` on, `m` of them, stay and others come behind them. -/
theorem map_contents (p : α → β) (head : g.head = slotAt f.head n) (some_ : n + m ≤ f.count)
    (more : m ≤ g.count)
    (stays : ∀ k, n ≤ k → k < n + m →
      p (g.slot (slotAt f.head k)) = p (f.slot (slotAt f.head k))) :
    g.contents.map p = ((f.contents.map p).drop n).take m ++
      (List.range (g.count - m)).map fun k => p (g.slot (slotAt f.head (n + m + k))) := by
  apply List.ext_getElem
  · simp
    omega
  intro k inside inside'
  simp only [List.length_map, length_contents] at inside
  simp only [List.getElem_map, getElem_contents, nth, head, slotAt_slotAt]
  by_cases old : k < m
  · rw [List.getElem_append_left (by simp; omega)]
    simp only [List.getElem_take, List.getElem_drop, List.getElem_map, getElem_contents, nth]
    exact stays (n + k) (by omega) (by omega)
  · have many : min m (f.count - n) = m := by omega
    rw [List.getElem_append_right (by simp; omega)]
    simp only [List.length_take, List.length_drop, List.length_map, length_contents, many,
      List.getElem_map, List.getElem_range]
    congr 3
    omega

-- ---------------------------------------------------------------------
-- Turning the ring
-- ---------------------------------------------------------------------

/-- `n` entries leave at the head and `a` come at the tail. -/
def turn (f : Fifo w α) (n a : Nat) (slot : BitVec w → α) : Fifo w α where
  head := slotAt f.head n
  tail := slotAt f.tail a
  count := f.count + a - n
  slot := slot

variable {n a : Nat} {slot : BitVec w → α}

theorem turn_sound (sound : f.Sound) (room : f.count + a ≤ 2 ^ w) (few : n ≤ f.count) :
    (f.turn n a slot).Sound where
  fits := by
    show f.count + a - n ≤ 2 ^ w
    omega
  tail := by
    show slotAt f.tail a = slotAt (slotAt f.head n) (f.count + a - n)
    rw [sound.tail, slotAt_slotAt, slotAt_slotAt]
    congr 1
    omega

theorem turn_live (room : f.count + a ≤ 2 ^ w) (few : n ≤ f.count) (inside : k < 2 ^ w) :
    (f.turn n a slot).Live (slotAt f.head k) ↔ n ≤ k ∧ k < f.count + a := by
  show offset (slotAt f.head n) (slotAt f.head k) < f.count + a - n ↔ _
  rw [offset_advance _ _ (by omega), offset_slotAt _ inside]
  split <;> omega

theorem turn_contents (p : α → β) (few : n ≤ f.count)
    (stays : ∀ k, n ≤ k → k < f.count → p (slot (slotAt f.head k)) = p (f.nth k)) :
    (f.turn n a slot).contents.map p = (f.contents.map p).drop n ++
      (List.range a).map fun k => p (slot (slotAt f.head (f.count + k))) := by
  have all : ((f.contents.map p).drop n).take (f.count - n) = (f.contents.map p).drop n :=
    List.take_of_length_le (by simp)
  have count : (f.turn n a slot).count - (f.count - n) = a := by
    show f.count + a - n - (f.count - n) = a
    omega
  rw [map_contents (f := f) (n := n) (m := f.count - n) p rfl (by omega)
    (by show _ ≤ f.count + a - n; omega), all, count]
  · congr 1
    refine List.map_congr_left fun k _ => ?_
    rw [show n + (f.count - n) + k = f.count + k by omega]
    rfl
  · intro k above below
    exact stays k above (by omega)

/-- The new entries are written behind the others. -/
theorem lookup_new (sound : f.Sound) (l : List β) (inside : f.count + k < 2 ^ w) :
    l[offset f.tail (slotAt f.head (f.count + k))]? = l[k]? := by
  rw [sound.tail, offset_advance _ _ sound.fits, offset_slotAt _ inside, if_pos (by omega),
    Nat.add_sub_cancel_left]

theorem lookup_old (sound : f.Sound) (l : List β) (room : f.count + l.length ≤ 2 ^ w)
    (old : k < f.count) : l[offset f.tail (slotAt f.head k)]? = none := by
  rw [sound.tail, offset_advance _ _ sound.fits, offset_slotAt _ (by have := sound.fits; omega),
    if_neg (by omega), List.getElem?_eq_none (by omega)]

theorem lookup_free (sound : f.Sound) (l : List β) (free : f.count + l.length ≤ k)
    (inside : k < 2 ^ w) : l[offset f.tail (slotAt f.head k)]? = none := by
  rw [sound.tail, offset_advance _ _ sound.fits, offset_slotAt _ inside, if_pos (by omega),
    List.getElem?_eq_none (by omega)]

-- ---------------------------------------------------------------------
-- Cutting the queue
-- ---------------------------------------------------------------------

/-- A slot from the `n`th entry on that passes a test. -/
def scanned (f : Fifo w α) (n : Nat) (test : BitVec w → Bool) (i : BitVec w) : Bool :=
  decide (offset (slotAt f.head n) i < f.count - n) && test i

/-- How many slots do. -/
def scanCount (f : Fifo w α) (n : Nat) (test : BitVec w → Bool) : Nat :=
  (List.range (f.count - n)).countP fun k => test (slotAt (slotAt f.head n) k)

/-- The first `n` entries leave and the others stay if they pass. The pointers go by the number
alone. -/
def cut (f : Fifo w α) (n : Nat) (test : BitVec w → Bool) (kept : BitVec w → α) (empty : α) :
    Fifo w α where
  head := slotAt f.head n
  tail := slotAt (slotAt f.head n) (f.scanCount n test)
  count := f.scanCount n test
  slot i := if f.scanned n test i then kept i else empty

/-- The entries before the `u`th pass. -/
structure First (f : Fifo w α) (test : BitVec w → Bool) (u : Nat) : Prop where
  le : u ≤ f.count
  test : ∀ k, k < f.count → (test (slotAt f.head k) = true ↔ k < u)

variable {test : BitVec w → Bool} {kept : BitVec w → α} {empty : α} {u : Nat}

theorem cut_kept (keep : f.scanned n test i = true) :
    (f.cut n test kept empty).slot i = kept i := by
  simp [cut, keep]

theorem cut_dropped (gone : f.scanned n test i = false) :
    (f.cut n test kept empty).slot i = empty := by
  simp [cut, gone]

theorem First.count (first : f.First test u) (few : n ≤ u) :
    (f.cut n test kept empty).count = u - n := by
  have le := first.le
  refine countP_range_initial (fun k inside => ?_) (by omega)
  rw [slotAt_slotAt, first.test _ (by omega)]
  omega

theorem First.scanned_iff (first : f.First test u) (sound : f.Sound) (few : n ≤ u)
    (inside : k < 2 ^ w) : f.scanned n test (slotAt f.head k) = true ↔ n ≤ k ∧ k < u := by
  have le := first.le
  have fits := sound.fits
  rw [scanned, Bool.and_eq_true, decide_eq_true_eq, offset_advance _ _ (by omega),
    offset_slotAt _ inside]
  constructor
  · rintro ⟨here, passes⟩
    split at here
    · exact ⟨by assumption, (first.test k (by omega)).mp passes⟩
    · omega
  · rintro ⟨above, below⟩
    rw [if_pos above]
    exact ⟨by omega, (first.test k (by omega)).mpr below⟩

theorem First.sound (first : f.First test u) (sound : f.Sound) (few : n ≤ u) :
    (f.cut n test kept empty).Sound where
  fits := by
    have le := first.le
    have fits := sound.fits
    rw [first.count few]
    omega
  tail := rfl

theorem First.live (first : f.First test u) (sound : f.Sound) (few : n ≤ u) (i : BitVec w) :
    (f.cut n test kept empty).Live i ↔ f.scanned n test i = true := by
  have le := first.le
  have fits := sound.fits
  have inside := offset_lt f.head i
  rw [← slotAt_offset f.head i]
  generalize offset f.head i = k at inside
  rw [first.scanned_iff sound few inside, Live, first.count few]
  show offset (slotAt f.head n) _ < _ ↔ _
  rw [offset_advance _ _ (by omega), offset_slotAt _ inside]
  split <;> omega

theorem First.contents (first : f.First test u) (sound : f.Sound) (few : n ≤ u) (p : α → β)
    (same : ∀ i, f.scanned n test i = true → p (kept i) = p (f.slot i)) :
    (f.cut n test kept empty).contents.map p = ((f.contents.map p).drop n).take (u - n) := by
  have le := first.le
  have fits := sound.fits
  have count : (f.cut n test kept empty).count = u - n := first.count few
  rw [map_contents (f := f) (n := n) (m := u - n) p rfl (by omega) (by omega), count, Nat.sub_self,
    List.range_zero, List.map_nil, List.append_nil]
  intro k above below
  have keep := (first.scanned_iff sound few (k := k) (by omega)).mpr (by omega)
  show p (if f.scanned n test (slotAt f.head k) then _ else _) = _
  rw [keep, if_pos rfl]
  exact same _ keep

-- ---------------------------------------------------------------------
-- Packing the queue
-- ---------------------------------------------------------------------

/-- The entries that pass move to the first slots. -/
def pack (f : Fifo w α) (test : α → Bool) (empty : α) : Fifo w α where
  head := 0
  tail := BitVec.ofNat w (f.contents.countP test)
  count := f.contents.countP test
  slot i := ((f.contents.filter test)[i.toNat]?).getD empty

theorem pack_sound (sound : f.Sound) (test : α → Bool) (empty : α) :
    (f.pack test empty).Sound where
  fits := by
    have few : f.contents.countP test ≤ f.contents.length := List.countP_le_length
    rw [length_contents] at few
    exact Nat.le_trans few sound.fits
  tail := by
    show BitVec.ofNat w _ = slotAt 0 _
    simp [slotAt, pack]

theorem pack_contents (sound : f.Sound) (test : α → Bool) (empty : α) :
    (f.pack test empty).contents = f.contents.filter test := by
  have fits := (pack_sound sound test empty).fits
  have length : (f.contents.filter test).length = f.contents.countP test :=
    List.countP_eq_length_filter.symm
  apply List.ext_getElem
  · rw [length_contents, length]
    rfl
  intro k inside inside'
  rw [length_contents] at inside
  have small : (slotAt (0 : BitVec w) k).toNat = k := by
    have less : k < 2 ^ w := Nat.lt_of_lt_of_le inside fits
    simp [slotAt, Nat.mod_eq_of_lt less]
  rw [getElem_contents]
  show ((f.contents.filter test)[(slotAt (0 : BitVec w) k).toNat]?).getD empty = _
  rw [small, List.getElem?_eq_getElem inside', Option.getD_some]

/-- New entries are written as they come. -/
theorem push_contents (sound : f.Sound) (few : n ≤ f.count) (new : List α)
    (room : f.count + new.length ≤ 2 ^ w) :
    (f.turn n new.length fun i => (new[offset f.tail i]?).getD (f.slot i)).contents =
      f.contents.drop n ++ new := by
  let slot := fun i => (new[offset f.tail i]?).getD (f.slot i)
  have stays : ∀ k, n ≤ k → k < f.count → id (slot (slotAt f.head k)) = id (f.nth k) := by
    intro k _ less
    show (new[offset f.tail (slotAt f.head k)]?).getD _ = _
    rw [lookup_old sound new room less]
    rfl
  have law := turn_contents (a := new.length) id few stays
  rw [List.map_id, List.map_id] at law
  rw [law]
  congr 1
  apply List.ext_getElem
  · simp
  intro k inside inside'
  simp only [List.getElem_map, List.getElem_range, id, slot]
  rw [lookup_new sound new (by omega), List.getElem?_eq_getElem inside', Option.getD_some]

end Fifo

-- ---------------------------------------------------------------------
-- Places of a kind
-- ---------------------------------------------------------------------

variable {p : α → Bool} {l : List α}

/-- Past the first `n`, the places of a kind are those of the rest. -/
theorem findIdxs_drop (p : α → Bool) (l : List α) (n : Nat) (inside : n ≤ l.length) :
    (l.findIdxs p).drop ((l.take n).countP p) = ((l.drop n).findIdxs p).map (· + n) := by
  have length : (l.take n).length = n := List.length_take_of_le inside
  have split : l.findIdxs p = (l.take n).findIdxs p ++ (l.drop n).findIdxs p n := by
    conv_lhs => rw [← List.take_append_drop n l, List.findIdxs_append, length, Nat.zero_add]
  rw [split, List.drop_left' (by rw [List.length_findIdxs]), List.findIdxs_start]

theorem findIdxs_lt {k : Nat} (on : k ∈ l.findIdxs p) : k < l.length := by
  have := List.lt_add_of_mem_findIdxs k on
  omega

/-- The places of a kind that lie before `n` come first. -/
theorem getElem_findIdxs_lt_iff (p : α → Bool) (l : List α) (n : Nat)
    (inside : k < (l.findIdxs p).length) :
    (l.findIdxs p)[k] < n ↔ k < (l.take n).countP p := by
  have split : l.findIdxs p = (l.take n).findIdxs p ++ (l.drop n).findIdxs p (l.take n).length := by
    conv_lhs => rw [← List.take_append_drop n l, List.findIdxs_append, Nat.zero_add]
  simp only [split]
  by_cases first : k < (l.take n).countP p
  · rw [List.getElem_append_left (by rwa [List.length_findIdxs])]
    have before := findIdxs_lt (List.getElem_mem (l := (l.take n).findIdxs p) (n := k)
      (by rwa [List.length_findIdxs]))
    simp only [List.length_take] at before
    exact iff_of_true (by omega) first
  · rw [List.getElem_append_right (by rw [List.length_findIdxs]; omega)]
    refine iff_of_false (fun less => ?_) first
    have inside' := inside
    rw [split, List.length_append, List.length_findIdxs, List.length_findIdxs] at inside'
    have above := List.ge_of_mem_findIdxs _ (List.getElem_mem
      (l := (l.drop n).findIdxs p (l.take n).length) (n := k - ((l.take n).findIdxs p).length)
      (by rw [List.length_findIdxs, List.length_findIdxs]; omega))
    by_cases short : n ≤ l.length
    · have full := List.length_take_of_le short
      omega
    · rw [List.drop_of_length_le (by omega)] at inside'
      simp at inside'
      omega

end Rv64gc.Hdl
