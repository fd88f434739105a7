import Rv64gc.Lsu.StoreBuffer
import Rv64gc.Lsu.StoresInFlight

/-!
# Address and data in the store queue

The address and the data of a store come from two issue queues, each in its own time, and a store
retires after both. What the entry holds is what the store writes.
-/

namespace Rv64gc.Lsu

open Hdl Backend

/-- What is filled in is what the store writes. -/
structure SqEntry.Fits (e : SqEntry) (o : StoreOp) : Prop where
  addr : e.addrValid = true → e.addr = o.addr ∧ e.size = o.size
  data : e.dataValid = true → e.data = o.data ∧ e.byteMask = o.byteMask

/-- What drains. -/
def SqEntry.op (e : SqEntry) : StoreOp := ⟨e.addr, e.data, e.byteMask, e.size⟩

theorem SqEntry.Fits.op {e : SqEntry} {o : StoreOp} (fits : e.Fits o) (addr : e.addrValid = true)
    (data : e.dataValid = true) : e.op = o := by
  obtain ⟨addr, size⟩ := fits.addr addr
  obtain ⟨data, mask⟩ := fits.data data
  simp [SqEntry.op, addr, size, data, mask]

/-- The stores of a list of instructions. -/
def storesOf (insns : List (Renamed StoreOp)) : List StoreOp :=
  (insns.filter Renamed.isStore).map Renamed.data

@[simp] theorem storesOf_append (l m : List (Renamed StoreOp)) :
    storesOf (l ++ m) = storesOf l ++ storesOf m := by
  simp [storesOf]

@[simp] theorem length_storesOf (l : List (Renamed StoreOp)) :
    (storesOf l).length = l.countP Renamed.isStore := by
  simp [storesOf, List.countP_eq_length_filter]

theorem storesOf_take (l : List (Renamed StoreOp)) (n : Nat) :
    storesOf (l.take n) <+: storesOf l :=
  (( List.take_prefix n l).filter _).map _

/-- What the queue sees of a flush. -/
def flushInOf (w : Program StoreOp) : Option FlushTo → Option FlushIn
  | none => none
  | some .full => some ⟨true, w.tail⟩
  | some (.upTo cut) => some ⟨false, w.flushRobTail cut⟩

-- ---------------------------------------------------------------------
-- The two halves of a store
-- ---------------------------------------------------------------------

/-- `store_addr_done_r` and `store_data_done_r`, at once with the issue: the register the
writebacks go through delays them by a cycle. -/
structure Done where
  addr : RobIdx → Bool
  data : RobIdx → Bool

/-- The instruction in the slot stays in the reorder buffer. -/
def stays (w : Program StoreOp) (retires : Nat) (flush : Option FlushTo) (r : RobIdx) : Bool :=
  decide (retires ≤ offset w.head r) &&
    match flush with
    | none => true
    | some .full => false
    | some (.upTo cut) => decide (offset w.head r < cut)

/-- The slot is one of those that new instructions take. -/
def taken (w : Program StoreOp) (alloc : List (Renamed StoreOp)) (r : RobIdx) : Bool :=
  (List.range alloc.length).any fun k => w.allocIdx k == r

def Done.next (d : Done) (w : Program StoreOp) (x : SqIn) (retires : Nat)
    (alloc : List (Renamed StoreOp)) (flush : Option FlushTo) : Done where
  addr r := stays w retires flush r &&
    (x.sta.any (fun f => f.robIdx == r) || d.addr r && !taken w alloc r)
  data r := stays w retires flush r &&
    (x.std.any (fun f => f.robIdx == r) || d.data r && !taken w alloc r)

namespace StoreQueue

/-- The slot of the queue that rename gave to a store. -/
structure Given (s : StoreQueue) (w : Program StoreOp) (idx : SqIdx) (r : RobIdx) (o : StoreOp) :
    Prop where
  insn : ∃ m, w.insns[offset w.head r]? = some m ∧ m.isStore = true ∧ m.data = o
  valid : (s.ring.slot idx).valid = true
  uncommitted : (s.ring.slot idx).committed = false
  robIdx : (s.ring.slot idx).robIdx = r

/-- The store address and store data instructions that issue are those of stores in flight, and a
store retires after both. -/
structure Fills (s : StoreQueue) (w : Program StoreOp) (x : SqIn) (d : Done) (retires : Nat) :
    Prop where
  sta : ∀ f, x.sta = some f → ∃ o, s.Given w f.idx f.robIdx o ∧ f.addr = o.addr ∧ f.size = o.size
  std : ∀ f, x.std = some f → ∃ o, s.Given w f.idx f.robIdx o ∧ f.data = o.data ∧
    f.byteMask = o.byteMask
  done : ∀ k m, k < retires → w.insns[k]? = some m → m.isStore = true →
    d.addr (slotAt w.head k) = true ∧ d.data (slotAt w.head k) = true

/-- `pend` are the stores in front that have retired. -/
structure Filled (s : StoreQueue) (w : Program StoreOp) (d : Done) (pend : List StoreOp) :
    Prop where
  split : s.Split w pend.length
  fits : ∀ k o, (pend ++ storesOf w.insns)[k]? = some o → (s.ring.nth k).Fits o
  ready : ∀ k, k < pend.length → (s.ring.nth k).addrValid = true ∧ (s.ring.nth k).dataValid = true
  addr : ∀ k, pend.length ≤ k → k < s.ring.count → d.addr (s.ring.nth k).robIdx = true →
    (s.ring.nth k).addrValid = true
  data : ∀ k, pend.length ≤ k → k < s.ring.count → d.data (s.ring.nth k).robIdx = true →
    (s.ring.nth k).dataValid = true

variable {s : StoreQueue} {w : Program StoreOp} {x : SqIn} {d : Done} {pend : List StoreOp}
  {n : Nat} {alloc : List (Renamed StoreOp)} {flush : Option FlushTo}

-- ---------------------------------------------------------------------
-- The places of the stores in flight
-- ---------------------------------------------------------------------

/-- The age of an entry that has not retired is the place of its store. -/
theorem age_eq {c : Nat} (split : s.Split w c) (after : c ≤ k)
    (here : k - c < (w.insns.findIdxs Renamed.isStore).length) :
    offset w.head (s.ring.nth k).robIdx = (w.insns.findIdxs Renamed.isStore)[k - c] := by
  have listed := split.listed
  unfold Backend.Lists at listed
  simp only [← listed, List.getElem_map, List.getElem_drop, Fifo.getElem_contents,
    Nat.add_sub_cancel' after]

theorem place_inside {c : Nat} (split : s.Split w c) (after : c ≤ k) (inside : k < s.ring.count) :
    k - c < (w.insns.findIdxs Renamed.isStore).length := by
  have length := split.length
  rw [List.length_findIdxs]
  omega

/-- The store of an entry is the instruction in its slot of the reorder buffer. -/
theorem op_of_insn (split : s.Split w pend.length) (after : pend.length ≤ k)
    (inside : k < s.ring.count) {m : Renamed StoreOp}
    (insn : w.insns[offset w.head (s.ring.nth k).robIdx]? = some m) :
    (pend ++ storesOf w.insns)[k]? = some m.data := by
  have here := place_inside split after inside
  rw [age_eq split after here] at insn
  have some_ : k - pend.length < (w.insns.filter Renamed.isStore).length := by
    rwa [List.length_findIdxs, List.countP_eq_length_filter] at here
  rw [List.getElem?_append_right after, storesOf, List.getElem?_map,
    List.getElem?_eq_getElem some_, List.getElem_filter_eq_getElem_getElem_findIdxs some_]
  obtain ⟨less, same⟩ := List.getElem?_eq_some_iff.mp insn
  rw [same]
  rfl

/-- No two entries that have not retired are for the same slot. -/
theorem same_entry {c k k' : Nat} (split : s.Split w c) (after : c ≤ k) (inside : k < s.ring.count)
    (after' : c ≤ k') (inside' : k' < s.ring.count)
    (same : (s.ring.nth k).robIdx = (s.ring.nth k').robIdx) : k = k' := by
  have here := place_inside split after inside
  have here' := place_inside split after' inside'
  have ages := congrArg (offset w.head) same
  rw [age_eq split after here, age_eq split after' here',
    List.Nodup.getElem_inj_iff List.nodup_findIdxs] at ages
  omega

theorem Given.place (given : s.Given w idx r o) (sound : s.Sound w)
    (split : s.Split w pend.length) : ∃ k, pend.length ≤ k ∧ k < s.ring.count ∧
      slotAt s.ring.head k = idx ∧ (s.ring.nth k).robIdx = r ∧
        (pend ++ storesOf w.insns)[k]? = some o := by
  obtain ⟨m, insn, -, rfl⟩ := given.insn
  have inside : offset s.ring.head idx < s.ring.count := (sound.valid _).mp given.valid
  have at_ := slotAt_offset s.ring.head idx
  have nth : s.ring.nth (offset s.ring.head idx) = s.ring.slot idx := by rw [Fifo.nth, at_]
  have after : pend.length ≤ offset s.ring.head idx := by
    by_contra before
    have committed := (split.committed _ inside).mpr (Nat.lt_of_not_le before)
    rw [nth, given.uncommitted] at committed
    cases committed
  have slot : (s.ring.nth (offset s.ring.head idx)).robIdx = r := by rw [nth, given.robIdx]
  refine ⟨_, after, inside, at_, slot, op_of_insn split after inside ?_⟩
  rw [slot]
  exact insn

-- ---------------------------------------------------------------------
-- An entry that stays
-- ---------------------------------------------------------------------

theorem fill_addrValid (j : SqIdx) (e : SqEntry) :
    (s.fill x j e).addrValid = ((s.staAccept x j).isSome || e.addrValid) := by
  unfold fill
  cases s.staAccept x j <;> cases s.stdAccept x j <;> simp

theorem fill_dataValid (j : SqIdx) (e : SqEntry) :
    (s.fill x j e).dataValid = ((s.stdAccept x j).isSome || e.dataValid) := by
  unfold fill
  cases s.staAccept x j <;> cases s.stdAccept x j <;> simp

theorem staAccept_some {j : SqIdx} {f : StaFill} (accepts : s.staAccept x j = some f) :
    x.sta = some f ∧ f.idx = j := by
  simp only [staAccept, Option.filter_eq_some_iff, Bool.and_eq_true, beq_iff_eq] at accepts
  exact ⟨accepts.1, accepts.2.1.1⟩

theorem stdAccept_some {j : SqIdx} {f : StdFill} (accepts : s.stdAccept x j = some f) :
    x.std = some f ∧ f.idx = j := by
  simp only [stdAccept, Option.filter_eq_some_iff, Bool.and_eq_true, beq_iff_eq] at accepts
  exact ⟨accepts.1, accepts.2.1.1⟩

/-- Address and data as they were or as they come in. -/
structure Carries (s : StoreQueue) (x : SqIn) (j : SqIdx) (e : SqEntry) (filled : Bool) :
    Prop where
  robIdx : e.robIdx = (s.ring.slot j).robIdx
  addrValid : e.addrValid = (filled && (s.staAccept x j).isSome || (s.ring.slot j).addrValid)
  dataValid : e.dataValid = (filled && (s.stdAccept x j).isSome || (s.ring.slot j).dataValid)
  fits : ∀ o, (s.ring.slot j).Fits o →
    (∀ f, s.staAccept x j = some f → f.addr = o.addr ∧ f.size = o.size) →
    (∀ f, s.stdAccept x j = some f → f.data = o.data ∧ f.byteMask = o.byteMask) → e.Fits o

theorem carries_fill {j : SqIdx} {e : SqEntry} (carries : s.Carries x j e false) :
    s.Carries x j (s.fill x j e) true where
  robIdx := (fill_robIdx j e).trans carries.robIdx
  addrValid := by rw [fill_addrValid, carries.addrValid, Bool.true_and, Bool.false_and, Bool.false_or]
  dataValid := by rw [fill_dataValid, carries.dataValid, Bool.true_and, Bool.false_and, Bool.false_or]
  fits o fits sta std := by
    have before := carries.fits o fits sta std
    have addr := before.addr
    have data := before.data
    unfold fill
    cases newAddr : s.staAccept x j with
    | none =>
      cases newData : s.stdAccept x j with
      | none => exact before
      | some g => exact ⟨addr, fun _ => std g newData⟩
    | some f =>
      cases newData : s.stdAccept x j with
      | none => exact ⟨fun _ => sta f newAddr, data⟩
      | some g => exact ⟨fun _ => sta f newAddr, fun _ => std g newData⟩

theorem carries_mark (j : SqIdx) (e : SqEntry) (carries : s.Carries x j e false) :
    s.Carries x j (s.mark x j e) false := by
  unfold mark
  split
  · exact ⟨carries.robIdx, carries.addrValid, carries.dataValid, fun o fits sta std =>
      ⟨(carries.fits o fits sta std).addr, (carries.fits o fits sta std).data⟩⟩
  · exact carries

theorem carries_self (j : SqIdx) : s.Carries x j (s.ring.slot j) false :=
  ⟨rfl, by simp, by simp, fun _ fits _ _ => fits⟩

theorem carries_updated (j : SqIdx) : s.Carries x j (s.updated x j) true := by
  unfold updated
  apply carries_fill
  apply carries_mark
  split
  · have self := carries_self (s := s) (x := x) j
    exact ⟨self.robIdx, self.addrValid, self.dataValid, fun o fits _ _ => ⟨fits.addr, fits.data⟩⟩
  · exact carries_self j

-- ---------------------------------------------------------------------
-- A cycle
-- ---------------------------------------------------------------------

/-- What the rest of the core keeps to in a cycle. -/
structure Around (s : StoreQueue) (w : Program StoreOp) (x : SqIn) (n : Nat)
    (alloc : List (Renamed StoreOp)) (flush : Option FlushTo) : Prop where
  keeps : s.Keeps w x n alloc
  program : w.Keeps n alloc flush
  sees : x.flush = flushInOf w flush
  apart : ∀ cut, flush = some (.upTo cut) → cut < robDepth

theorem next_sound (sound : s.Sound w) (around : s.Around w x n alloc flush) :
    (s.next x).Sound (w.next n alloc flush) := by
  have flushes := around.sees
  cases flush with
  | none =>
    rw [StoreQueue.next, flushes]
    exact normal_sound sound around.keeps around.program
  | some kind =>
    rw [StoreQueue.next, flushes]
    cases kind with
    | full => exact full_sound sound around.keeps rfl
    | upTo cut => exact partial_sound sound around.keeps around.program (around.apart cut rfl) rfl rfl

theorem next_split {c : Nat} (sound : s.Sound w) (split : s.Split w c)
    (around : s.Around w x n alloc flush) :
    (s.next x).Split (w.next n alloc flush) (c + x.commitCount - s.drained x) := by
  have flushes := around.sees
  cases flush with
  | none =>
    rw [StoreQueue.next, flushes]
    exact normal_split sound split around.keeps around.program
      (around.keeps.fits sound.ring around.program.alloc)
  | some kind =>
    rw [StoreQueue.next, flushes]
    cases kind with
    | full => exact full_split sound split around.keeps rfl
    | upTo cut =>
      exact partial_split sound split around.keeps around.program rfl
        (keepsFirst_upTo sound split around.keeps (around.program.cut cut rfl).1
          (around.apart cut rfl) rfl rfl)

/-- A flush keeps entries of the front. -/
theorem carries_flushed {f : FlushIn} {u : Nat} (sound : s.Sound w)
    (first : s.ring.First (s.keepTest x f) u) (drains : s.drained x ≤ u)
    (inside : k < (s.flushed x f).ring.count) :
    s.drained x + k < s.ring.count ∧ s.Carries x (slotAt s.ring.head (s.drained x + k))
      ((s.flushed x f).ring.nth k) (!f.full) := by
  have fits := sound.ring.fits
  have le := first.le
  have less : k < u - s.drained x := (first.count drains) ▸ inside
  refine ⟨by omega, ?_⟩
  have keep := (first.scanned_iff sound.ring drains (k := s.drained x + k) (by omega)).mpr (by omega)
  show s.Carries x _ ((s.flushed x f).ring.slot (slotAt (slotAt s.ring.head (s.drained x)) k)) _
  rw [slotAt_slotAt, flushed_slot keep]
  have marked := carries_mark (x := x) _ _
    (carries_self (s := s) (x := x) (slotAt s.ring.head (s.drained x + k)))
  cases f.full with
  | true => exact marked
  | false => exact carries_fill marked

/-- Every entry was there before or is a new one. -/
theorem carried (sound : s.Sound w) (split : s.Split w pend.length)
    (around : s.Around w x n alloc flush) (inside : k < (s.next x).ring.count) :
    (s.drained x + k < s.ring.count ∧ s.Carries x (slotAt s.ring.head (s.drained x + k))
      ((s.next x).ring.nth k) (flush != some .full)) ∨
    (s.ring.count ≤ s.drained x + k ∧ flush = none ∧ ((s.next x).ring.nth k).robIdx ∈ x.alloc ∧
      ((s.next x).ring.nth k).addrValid = false ∧ ((s.next x).ring.nth k).dataValid = false) := by
  have flushes := around.sees
  have drains := drained_le (x := x) sound split
  have few := split.commit_le around.keeps
  cases flush with
  | none =>
    rw [StoreQueue.next, flushes] at inside ⊢
    have room := around.keeps.fits sound.ring around.program.alloc
    have inside : k < s.ring.count + x.alloc.length - s.drained x := inside
    show (_ ∧ s.Carries x _ ((s.normal x).ring.slot (slotAt (slotAt s.ring.head _) k)) _) ∨
      (_ ∧ _ ∧ ((s.normal x).ring.slot (slotAt (slotAt s.ring.head _) k)).robIdx ∈ _ ∧
        ((s.normal x).ring.slot (slotAt (slotAt s.ring.head _) k)).addrValid = false ∧
        ((s.normal x).ring.slot (slotAt (slotAt s.ring.head _) k)).dataValid = false)
    rw [slotAt_slotAt]
    rcases Nat.lt_or_ge (s.drained x + k) s.ring.count with old | new
    · refine .inl ⟨old, ?_⟩
      rw [normal_old sound.ring room old]
      exact carries_updated _
    · have at_ := normal_new (x := x) (k := s.drained x + k - s.ring.count) sound.ring room (by omega)
      rw [Nat.add_sub_cancel' new] at at_
      rw [at_]
      exact .inr ⟨new, rfl, List.getElem_mem _, rfl, rfl⟩
  | some kind =>
    rw [StoreQueue.next, flushes] at inside ⊢
    cases kind with
    | full =>
      exact .inl (carries_flushed sound (keepsFirst_full sound split around.keeps rfl) (by omega)
        inside)
    | upTo cut =>
      exact .inl (carries_flushed sound (keepsFirst_upTo sound split around.keeps
        (around.program.cut cut rfl).1 (around.apart cut rfl) rfl rfl) (by omega) inside)

/-- The stores that have retired after the cycle, but for one that drains. -/
def pendNext (s : StoreQueue) (w : Program StoreOp) (x : SqIn) (n : Nat) (pend : List StoreOp) :
    List StoreOp :=
  (pend ++ storesOf (w.insns.take n)).drop (s.drained x)

theorem length_pendNext (keeps : s.Keeps w x n alloc) :
    (s.pendNext w x n pend).length = pend.length + x.commitCount - s.drained x := by
  simp [pendNext, keeps.commit]

theorem storesOf_split (l : List (Renamed StoreOp)) (n : Nat) :
    storesOf l = storesOf (l.take n) ++ storesOf (l.drop n) := by
  rw [← storesOf_append, List.take_append_drop]

/-- What was there stays in its order. -/
theorem ops_kept (program : w.Keeps n alloc flush) (drains : s.drained x ≤ pend.length)
    (old : s.drained x + k < (pend ++ storesOf w.insns).length)
    (here : (s.pendNext w x n pend ++ storesOf (w.next n alloc flush).insns)[k]? = some o) :
    (pend ++ storesOf w.insns)[s.drained x + k]? = some o := by
  have front : ∀ l, l <+: pend ++ storesOf w.insns →
      (l.drop (s.drained x))[k]? = some o → (pend ++ storesOf w.insns)[s.drained x + k]? = some o := by
    rintro l ⟨t, whole⟩ here
    rw [List.getElem?_drop] at here
    obtain ⟨inside, -⟩ := List.getElem?_eq_some_iff.mp here
    rw [← whole, List.getElem?_append_left inside]
    exact here
  have taken : ∀ m, pend ++ storesOf (w.insns.take m) <+: pend ++ storesOf w.insns := fun m =>
    ( List.prefix_append_right_inj _).mpr (storesOf_take w.insns m)
  have joins : ∀ l, s.pendNext w x n pend ++ storesOf l =
      (pend ++ (storesOf (w.insns.take n) ++ storesOf l)).drop (s.drained x) := by
    intro l
    have few : s.drained x ≤ (pend ++ storesOf (w.insns.take n)).length := by
      rw [List.length_append]
      omega
    rw [pendNext, ← List.append_assoc]
    exact (List.drop_append_of_le_length few).symm
  cases flush with
  | none =>
    have all : (w.next n alloc none).insns = w.insns.drop n ++ alloc := rfl
    rw [all, joins, storesOf_append, ← List.append_assoc (storesOf _), ← storesOf_split,
      ← List.append_assoc, List.getElem?_drop, List.getElem?_append_left old] at here
    exact here
  | some kind =>
    cases kind with
    | full =>
      have none_ : (w.next n alloc (some .full)).insns = [] := rfl
      rw [none_, joins] at here
      refine front _ (taken n) ?_
      simpa [storesOf] using here
    | upTo cut =>
      have order := (program.cut cut rfl).1
      have rest : (w.next n alloc (some (.upTo cut))).insns = (w.insns.take cut).drop n := rfl
      have both : storesOf (w.insns.take n) ++ storesOf ((w.insns.take cut).drop n) =
          storesOf (w.insns.take cut) := by
        have first := storesOf_split (w.insns.take cut) n
        rw [List.take_take, Nat.min_eq_left order] at first
        exact first.symm
      rw [rest, joins, both] at here
      exact front _ (taken cut) here

/-- Who has sent an address after the cycle. -/
theorem addr_next {r : RobIdx} (sent : (d.next w x n alloc flush).addr r = true) :
    stays w n flush r = true ∧
      ((∃ f, x.sta = some f ∧ f.robIdx = r) ∨ d.addr r = true ∧ taken w alloc r = false) := by
  simpa [Done.next, Option.any_eq_true] using sent

theorem data_next {r : RobIdx} (sent : (d.next w x n alloc flush).data r = true) :
    stays w n flush r = true ∧
      ((∃ f, x.std = some f ∧ f.robIdx = r) ∨ d.data r = true ∧ taken w alloc r = false) := by
  simpa [Done.next, Option.any_eq_true] using sent

theorem taken_of_alloc {r : RobIdx} (new : r ∈ allocSlots w Renamed.isStore alloc) :
    taken w alloc r = true := by
  obtain ⟨k, on, rfl⟩ := List.mem_map.mp new
  exact List.any_eq_true.mpr ⟨k, List.mem_range.mpr (findIdxs_lt on), beq_self_eq_true _⟩

/-- A new slot is not one of an instruction in flight. -/
theorem not_given_of_alloc (program : w.Keeps n alloc flush)
    (new : r ∈ allocSlots w Renamed.isStore alloc) : ¬s.Given w idx r o := by
  intro given
  obtain ⟨m, insn, -⟩ := given.insn
  obtain ⟨inside, -⟩ := List.getElem?_eq_some_iff.mp insn
  obtain ⟨k, on, rfl⟩ := List.mem_map.mp new
  have less := findIdxs_lt on
  have fits := program.fits
  unfold robDepth at fits
  rw [Program.allocIdx, Program.tail, slotAt_slotAt,
    offset_slotAt _ (by unfold robIdxBits; omega)] at inside
  omega

/-- A store that issues its address fills its entry. -/
theorem staAccept_of_given {f : StaFill} (issues : x.sta = some f) (given : s.Given w f.idx r o)
    (slot : f.robIdx = r) : s.staAccept x f.idx = some f := by
  simp [staAccept, issues, given.valid, given.robIdx, slot]

theorem stdAccept_of_given {f : StdFill} (issues : x.std = some f) (given : s.Given w f.idx r o)
    (slot : f.robIdx = r) : s.stdAccept x f.idx = some f := by
  simp [stdAccept, issues, given.valid, given.robIdx, slot]

/-- The entry a fill is for is the one with its slot. -/
theorem given_here {idx : SqIdx} (given : s.Given w idx (s.ring.nth k).robIdx o) (sound : s.Sound w)
    (split : s.Split w pend.length) (after : pend.length ≤ k) (inside : k < s.ring.count) :
    slotAt s.ring.head k = idx := by
  obtain ⟨k', after', inside', at_, slot, -⟩ := given.place sound split
  have same := same_entry split after inside after' inside' slot.symm
  rw [same]
  exact at_

/-- What comes in for an entry is what its store writes. -/
theorem sta_right {f : StaFill} (fills : s.Fills w x d n) (sound : s.Sound w)
    (split : s.Split w pend.length) (inside : k < s.ring.count)
    (op : (pend ++ storesOf w.insns)[k]? = some o)
    (accepts : s.staAccept x (slotAt s.ring.head k) = some f) : f.addr = o.addr ∧ f.size = o.size := by
  have fits := sound.ring.fits
  obtain ⟨issues, idx⟩ := staAccept_some accepts
  obtain ⟨o', given, right⟩ := fills.sta f issues
  obtain ⟨k', -, inside', at_, -, op'⟩ := given.place sound split
  have same := congrArg (offset s.ring.head) (at_.trans idx)
  rw [offset_slotAt _ (by omega), offset_slotAt _ (by omega)] at same
  subst same
  cases op.symm.trans op'
  exact right

theorem std_right {f : StdFill} (fills : s.Fills w x d n) (sound : s.Sound w)
    (split : s.Split w pend.length) (inside : k < s.ring.count)
    (op : (pend ++ storesOf w.insns)[k]? = some o)
    (accepts : s.stdAccept x (slotAt s.ring.head k) = some f) :
    f.data = o.data ∧ f.byteMask = o.byteMask := by
  have fits := sound.ring.fits
  obtain ⟨issues, idx⟩ := stdAccept_some accepts
  obtain ⟨o', given, right⟩ := fills.std f issues
  obtain ⟨k', -, inside', at_, -, op'⟩ := given.place sound split
  have same := congrArg (offset s.ring.head) (at_.trans idx)
  rw [offset_slotAt _ (by omega), offset_slotAt _ (by omega)] at same
  subst same
  cases op.symm.trans op'
  exact right

/-- A store that retires has both. -/
theorem ready_of_retires (filled : s.Filled w d pend) (fills : s.Fills w x d n)
    (keeps : s.Keeps w x n alloc) (inside : k < s.ring.count)
    (retires : k < pend.length + x.commitCount) :
    (s.ring.nth k).addrValid = true ∧ (s.ring.nth k).dataValid = true := by
  rcases Nat.lt_or_ge k pend.length with before | after
  · exact filled.ready k before
  · have here := place_inside filled.split after inside
    have age := age_eq filled.split after here
    have first : (w.insns.findIdxs Renamed.isStore)[k - pend.length] < n := by
      rw [getElem_findIdxs_lt_iff, ← keeps.commit]
      omega
    have less := findIdxs_lt (List.getElem_mem here)
    have store := List.getElem_getElem_findIdxs here
    obtain ⟨addr, data⟩ := fills.done _ _ first (List.getElem?_eq_getElem less) store
    rw [← age, slotAt_offset] at addr data
    exact ⟨filled.addr k after inside addr, filled.data k after inside data⟩

theorem Filled.next (filled : s.Filled w d pend) (sound : s.Sound w)
    (around : s.Around w x n alloc flush) (fills : s.Fills w x d n) :
    (s.next x).Filled (w.next n alloc flush) (d.next w x n alloc flush)
      (s.pendNext w x n pend) := by
  have split := filled.split
  have drains := drained_le (x := x) sound split
  have few := split.commit_le around.keeps
  have total : (pend ++ storesOf w.insns).length = s.ring.count := by
    have length := split.length
    have le := split.le
    rw [List.length_append, length_storesOf]
    omega
  have length : (s.pendNext w x n pend).length = pend.length + x.commitCount - s.drained x :=
    length_pendNext around.keeps
  have split' : (s.next x).Split (w.next n alloc flush) (s.pendNext w x n pend).length := by
    rw [length]
    exact next_split sound split around
  have total' : (s.pendNext w x n pend ++ storesOf (w.next n alloc flush).insns).length =
      (s.next x).ring.count := by
    have rest := split'.length
    have le := split'.le
    rw [List.length_append, length_storesOf]
    omega
  have unflushed : ∀ k, (s.pendNext w x n pend).length ≤ k → k < (s.next x).ring.count →
      (flush != some .full) = true := by
    intro k after inside
    rw [bne_iff_ne]
    rintro rfl
    have none_ : storesOf (w.next n alloc (some .full)).insns = [] := rfl
    rw [none_, List.append_nil] at total'
    omega
  refine ⟨split', fun k o here => ?_, fun k before => ?_, fun k after inside sent => ?_,
    fun k after inside sent => ?_⟩
  · have inside : k < (s.next x).ring.count := by
      rw [← total']
      exact (List.getElem?_eq_some_iff.mp here).1
    rcases carried sound split around inside with ⟨old, carries⟩ | ⟨-, -, -, addr, data⟩
    · have op := ops_kept around.program drains (by omega) here
      exact carries.fits o (filled.fits _ o op)
        (fun f accepts => sta_right fills sound split old op accepts)
        (fun f accepts => std_right fills sound split old op accepts)
    · exact ⟨fun valid => absurd (addr.symm.trans valid) Bool.false_ne_true,
        fun valid => absurd (data.symm.trans valid) Bool.false_ne_true⟩
  · have inside := Nat.lt_of_lt_of_le before split'.le
    rw [length] at before
    rcases carried sound split around inside with ⟨old, carries⟩ | ⟨new, -⟩
    · have ready := ready_of_retires filled fills around.keeps old (by omega)
      rw [carries.addrValid, carries.dataValid]
      simp only [Fifo.nth] at ready
      simp [ready]
    · omega
  · rcases carried sound split around inside with ⟨old, carries⟩ | ⟨-, -, new, -, -⟩
    · rw [carries.addrValid, unflushed k after inside, Bool.true_and, Bool.or_eq_true]
      rw [carries.robIdx] at sent
      have late : pend.length ≤ s.drained x + k := by omega
      obtain ⟨-, ⟨f, issues, slot⟩ | ⟨before, -⟩⟩ := addr_next sent
      · obtain ⟨o, given, -⟩ := fills.sta f issues
        have at_ := given_here (slot ▸ given) sound split late old
        rw [at_, staAccept_of_given issues given rfl]
        exact .inl rfl
      · exact .inr (filled.addr _ late old before)
    · rw [around.keeps.alloc] at new
      obtain ⟨-, ⟨f, issues, slot⟩ | ⟨-, fresh⟩⟩ := addr_next sent
      · obtain ⟨o, given, -⟩ := fills.sta f issues
        exact absurd (slot ▸ given) (not_given_of_alloc around.program new)
      · exact absurd (fresh.symm.trans (taken_of_alloc new)) Bool.false_ne_true
  · rcases carried sound split around inside with ⟨old, carries⟩ | ⟨-, -, new, -, -⟩
    · rw [carries.dataValid, unflushed k after inside, Bool.true_and, Bool.or_eq_true]
      rw [carries.robIdx] at sent
      have late : pend.length ≤ s.drained x + k := by omega
      obtain ⟨-, ⟨f, issues, slot⟩ | ⟨before, -⟩⟩ := data_next sent
      · obtain ⟨o, given, -⟩ := fills.std f issues
        have at_ := given_here (slot ▸ given) sound split late old
        rw [at_, stdAccept_of_given issues given rfl]
        exact .inl rfl
      · exact .inr (filled.data _ late old before)
    · rw [around.keeps.alloc] at new
      obtain ⟨-, ⟨f, issues, slot⟩ | ⟨-, fresh⟩⟩ := data_next sent
      · obtain ⟨o, given, -⟩ := fills.std f issues
        exact absurd (slot ▸ given) (not_given_of_alloc around.program new)
      · exact absurd (fresh.symm.trans (taken_of_alloc new)) Bool.false_ne_true

end StoreQueue

end Rv64gc.Lsu
