import Rv64gc.Lsu.Forwarding

/-!
# What the forwarding ports answer

The ports of the committed store buffer keep the law. Those of the store queue keep it unless a byte
is taken for one of a misaligned doubleword that starts behind it.
-/

namespace Rv64gc.Lsu

open Hdl

variable {ranged : Bool} {sources : List Source} {q : LoadReq} {e : Source} {b k : Nat}

-- ---------------------------------------------------------------------
-- Ranges
-- ---------------------------------------------------------------------

theorem lastAddr_toNat {addr : BitVec 64} {size : BitVec 2}
    (fits : addr.toNat + accessBytes size ≤ 2 ^ 64) :
    (lastAddr addr size).toNat = addr.toNat + accessBytes size - 1 := by
  obtain ⟨some_, few⟩ := accessBytes_pos size
  unfold lastAddr
  have one : (1 : BitVec 64).toNat = 1 := rfl
  rw [BitVec.toNat_sub, BitVec.toNat_add, BitVec.toNat_ofNat, one]
  omega

theorem rangeOverlap_iff (wrap : NoWrap sources q) (on : e ∈ sources) :
    e.rangeOverlap q = true ↔ e.older = true ∧ e.addrValid = true ∧
      e.addr.toNat < q.addr.toNat + accessBytes q.size ∧
      q.addr.toNat < e.addr.toNat + accessBytes e.size := by
  obtain ⟨some_, -⟩ := accessBytes_pos q.size
  obtain ⟨some', -⟩ := accessBytes_pos e.size
  unfold Source.rangeOverlap
  simp only [Bool.and_eq_true, decide_eq_true_eq, and_assoc, BitVec.le_def]
  refine and_congr_right fun _ => and_congr_right fun known => ?_
  rw [lastAddr_toNat wrap.1, lastAddr_toNat (wrap.2 e on known)]
  omega

theorem byteAddr_toNat (wrap : NoWrap sources q) (inside : k < accessBytes q.size) :
    (q.byteAddr k).toNat = q.addr.toNat + k := by
  have fits := wrap.1
  unfold LoadReq.byteAddr
  rw [BitVec.toNat_add, BitVec.toNat_ofNat]
  omega

theorem has_iff (wrap : NoWrap sources q) (on : e ∈ sources) (known : e.addrValid = true)
    (inside : k < accessBytes q.size) :
    e.has (q.byteAddr k) = true ↔ e.addr.toNat ≤ q.addr.toNat + k ∧
      q.addr.toNat + k < e.addr.toNat + accessBytes e.size := by
  have fits := wrap.1
  have fits' := wrap.2 e on known
  have small := e.addr.isLt
  unfold Source.has
  rw [decide_eq_true_eq, BitVec.toNat_sub, byteAddr_toNat wrap inside]
  omega

theorem crosses_of (overlap : e.rangeOverlap q = true) :
    e.crosses q = false ↔ crossDword e.addr e.size = false ∧ crossDword q.addr q.size = false ∧
      e.addr.toNat / 8 = q.addr.toNat / 8 := by
  have parts := overlap
  unfold Source.rangeOverlap at parts
  simp only [Bool.and_eq_true, decide_eq_true_eq] at parts
  unfold Source.crosses Source.addrMatch
  rw [overlap, parts.1.1.1, parts.1.1.2]
  simp only [Bool.true_and, Bool.or_eq_false_iff, Bool.not_eq_false', sameDword_iff, and_assoc]

-- ---------------------------------------------------------------------
-- What is noticed
-- ---------------------------------------------------------------------

/-- A store that takes part in the scan of some byte shows in the answer. -/
theorem noticed (on : e ∈ sources) (few : b < 8) (part : e.marked ranged q b = true) :
    (scan ranged sources q).hit = true ∨ (scan ranged sources q).incomplete = true ∨
      (scan ranged sources q).wait = true := by
  have result := @lane_result ranged q b sources
  cases first : sources.find? (Source.marked ranged q b) with
  | none => exact absurd part (by simpa using List.find?_eq_none.mp first e on)
  | some e' =>
    rw [first] at result
    dsimp only at result
    have lane : b ∈ List.range 8 := List.mem_range.mpr few
    split at result
    · cases hit : (scan ranged sources q).hit with
      | true => exact .inl rfl
      | false =>
        refine .inr (.inl ?_)
        have covered : (List.range 8).any (fun b =>
            (sources.foldl (fun l e => e.step q ranged b l) Lane.start).cover) = true :=
          List.any_eq_true.mpr ⟨b, lane, by rw [result]⟩
        have incomplete : (scan ranged sources q).incomplete =
            ((List.range 8).any (fun b =>
              (sources.foldl (fun l e => e.step q ranged b l) Lane.start).cover) &&
              !(scan ranged sources q).hit || sources.any (Source.crosses · q)) := rfl
        rw [incomplete, covered, hit]
        rfl
    · exact .inr (.inr (List.any_eq_true.mpr ⟨b, lane, result⟩))

theorem blocked (on : e ∈ sources) (crosses : e.crosses q = true) :
    (scan ranged sources q).incomplete = true := by
  have block : sources.any (Source.crosses · q) = true := List.any_eq_true.mpr ⟨e, on, crosses⟩
  unfold scan
  dsimp only
  rw [block, Bool.or_true]

/-- The mask of the load is not empty. -/
theorem mask_offset (addr : BitVec 64) (size : BitVec 2) :
    (accessMask addr size).getLsbD (addr.toNat % 8) = true := by
  obtain ⟨some_, -⟩ := accessBytes_pos size
  rw [accessMask_bit (Nat.mod_lt _ (by decide))]
  exact decide_eq_true (.inr ⟨Nat.le_refl _, by omega⟩)

/-- A byte that a store has is marked, unless something crosses. -/
theorem marked_of_has (wrap : NoWrap sources q) (on : e ∈ sources) (inside : k < accessBytes q.size)
    (mayHave : e.mayHave (q.byteAddr k) = true) (free : e.crosses q = false)
    (within : crossDword q.addr q.size = false) :
    e.marked ranged q (q.addr.toNat % 8 + k) = true := by
  have room : ¬8 < q.addr.toNat % 8 + accessBytes q.size := by
    rw [← crossDword_iff, within]
    exact Bool.false_ne_true
  have mask : (accessMask q.addr q.size).getLsbD (q.addr.toNat % 8 + k) = true := by
    rw [accessMask_within within (by omega)]
    exact decide_eq_true ⟨by omega, by omega⟩
  unfold Source.mayHave at mayHave
  unfold Source.marked
  obtain ⟨older, has⟩ := Bool.and_eq_true_iff.mp mayHave
  cases known : e.addrValid with
  | false =>
    rw [older]
    exact mask
  | true =>
    rw [known, Bool.not_true, Bool.false_or, has_iff wrap on known inside] at has
    have overlap : e.rangeOverlap q = true :=
      (rangeOverlap_iff wrap on).mpr ⟨older, known, by omega, by omega⟩
    obtain ⟨aligned, -, same⟩ := (crosses_of overlap).mp free
    have store : (accessMask e.addr e.size).getLsbD (q.addr.toNat % 8 + k) = true := by
      rw [accessMask_within aligned (by omega)]
      exact decide_eq_true ⟨by omega, by omega⟩
    have match_ : e.addrMatch q = true := by
      unfold Source.addrMatch
      rw [older, known, sameDword_iff.mpr same]
      rfl
    simp [Source.overlap, match_, overlap, store, mask]

theorem scan_found (wrap : NoWrap sources q) (on : e ∈ sources) (inside : k < accessBytes q.size)
    (mayHave : e.mayHave (q.byteAddr k) = true) :
    (scan ranged sources q).hit = true ∨ (scan ranged sources q).incomplete = true ∨
      (scan ranged sources q).wait = true := by
  cases free : e.crosses q with
  | true => exact .inr (.inl (blocked on free))
  | false =>
    obtain ⟨older, has⟩ := Bool.and_eq_true_iff.mp mayHave
    cases known : e.addrValid with
    | false =>
      refine noticed on (Nat.mod_lt q.addr.toNat (by decide)) ?_
      unfold Source.marked
      rw [older, known]
      exact mask_offset q.addr q.size
    | true =>
      have there := has
      rw [known, Bool.not_true, Bool.false_or, has_iff wrap on known inside] at there
      have overlap : e.rangeOverlap q = true :=
        (rangeOverlap_iff wrap on).mpr ⟨older, known, by omega, by omega⟩
      obtain ⟨-, within, -⟩ := (crosses_of overlap).mp free
      have room : ¬8 < q.addr.toNat % 8 + accessBytes q.size := by
        rw [← crossDword_iff, within]
        exact Bool.false_ne_true
      exact noticed on (by omega) (marked_of_has wrap on inside mayHave free within)

-- ---------------------------------------------------------------------
-- A hit without wait
-- ---------------------------------------------------------------------

/-- Every byte of the mask finds a store with address and data first, and nothing crosses. -/
structure Clean (ranged : Bool) (sources : List Source) (q : LoadReq) : Prop where
  first : ∀ b < 8, (accessMask q.addr q.size).getLsbD b = true →
    ∃ e, sources.find? (Source.marked ranged q b) = some e ∧ e.addrValid = true ∧ e.dataReady = true
  free : ∀ e ∈ sources, e.crosses q = false

theorem marked_mask (part : e.marked ranged q b = true) :
    (accessMask q.addr q.size).getLsbD b = true := by
  unfold Source.marked at part
  split at part
  · exact part
  · exact (Bool.and_eq_true_iff.mp part).2

theorem lane_empty (mask : (accessMask q.addr q.size).getLsbD b = false) :
    sources.foldl (fun l e => e.step q ranged b l) Lane.start = Lane.start := by
  have result := @lane_result ranged q b sources
  have none_ : sources.find? (Source.marked ranged q b) = none := by
    rw [List.find?_eq_none]
    intro e _ part
    rw [marked_mask part] at mask
    cases mask
  rw [none_] at result
  exact result

theorem lane_first (first : sources.find? (Source.marked ranged q b) = some e)
    (known : e.addrValid = true) (ready : e.dataReady = true) :
    sources.foldl (fun l e => e.step q ranged b l) Lane.start =
      ⟨true, false, false,
        if dwordOffset e.addr ≤ b then byteOf e.data (b - dwordOffset e.addr) else 0⟩ := by
  have result := @lane_result ranged q b sources
  rw [first] at result
  dsimp only at result
  rwa [if_pos (by rw [known, ready]; rfl)] at result

theorem clean_of_hit (hit : (scan ranged sources q).hit = true)
    (ready : (scan ranged sources q).wait = false) : Clean ranged sources q := by
  obtain ⟨free, covers⟩ := Bool.and_eq_true_iff.mp hit
  have free : sources.any (Source.crosses · q) = false := by simpa using free
  have covers := List.all_eq_true.mp covers
  have waits := List.any_eq_false.mp (show (List.range 8).any (fun b =>
    (sources.foldl (fun l e => e.step q ranged b l) Lane.start).waitAddr ||
      (sources.foldl (fun l e => e.step q ranged b l) Lane.start).waitData) = false from ready)
  refine ⟨fun b few mask => ?_, fun e on => ?_⟩
  · have lane := List.mem_range.mpr few
    have cover := covers b lane
    have calm := waits b lane
    dsimp only at cover
    rw [mask, beq_iff_eq] at cover
    have result := @lane_result ranged q b sources
    cases first : sources.find? (Source.marked ranged q b) with
    | none =>
      rw [first] at result
      rw [result] at cover
      cases cover
    | some e =>
      rw [first] at result
      dsimp only at result
      split at result
      next known =>
        obtain ⟨known, ready⟩ := Bool.and_eq_true_iff.mp known
        exact ⟨e, rfl, known, ready⟩
      next => exact absurd result calm
  · simpa using List.any_eq_false.mp free e on

theorem hit_of_clean (clean : Clean ranged sources q) :
    (scan ranged sources q).hit = true ∧ (scan ranged sources q).wait = false := by
  have lanes : ∀ b < 8,
      (sources.foldl (fun l e => e.step q ranged b l) Lane.start).cover =
          (accessMask q.addr q.size).getLsbD b ∧
        ((sources.foldl (fun l e => e.step q ranged b l) Lane.start).waitAddr ||
          (sources.foldl (fun l e => e.step q ranged b l) Lane.start).waitData) = false := by
    intro b few
    cases mask : (accessMask q.addr q.size).getLsbD b with
    | false =>
      rw [lane_empty mask]
      exact ⟨rfl, rfl⟩
    | true =>
      obtain ⟨e, first, known, ready⟩ := clean.first b few mask
      rw [lane_first first known ready]
      exact ⟨rfl, rfl⟩
  have free : sources.any (Source.crosses · q) = false :=
    List.any_eq_false.mpr fun e on => by simp [clean.free e on]
  constructor
  · have covers : (List.range 8).all (fun b =>
        (sources.foldl (fun l e => e.step q ranged b l) Lane.start).cover ==
          (accessMask q.addr q.size).getLsbD b) = true :=
      List.all_eq_true.mpr fun b lane => beq_iff_eq.mpr (lanes b (List.mem_range.mp lane)).1
    unfold scan
    dsimp only
    rw [free, covers]
    rfl
  · exact List.any_eq_false.mpr fun b lane => by simp [(lanes b (List.mem_range.mp lane)).2]

/-- A store that takes part in the scan of a byte does not end before it. -/
theorem extent_of_marked (part : e.marked ranged q b = true) (known : e.addrValid = true)
    (few : b < 8) :
    e.older = true ∧ e.addr.toNat / 8 = q.addr.toNat / 8 ∧
      b < e.addr.toNat % 8 + accessBytes e.size := by
  unfold Source.marked at part
  rw [known, Bool.not_true, Bool.and_false, if_neg Bool.false_ne_true] at part
  simp only [Source.overlap, Source.addrMatch, Bool.and_eq_true, sameDword_iff] at part
  obtain ⟨⟨⟨⟨⟨older, -⟩, same⟩, -⟩, mask⟩, -⟩ := part
  rw [accessMask_bit few, decide_eq_true_eq] at mask
  refine ⟨older, same, mask.elim ?_ And.right⟩
  intro size
  rw [size]
  have eight : accessBytes 3 = 8 := rfl
  omega

/-- A load that hits does not cross a doubleword. -/
theorem within_of_clean (wrap : NoWrap sources q) (clean : Clean ranged sources q) :
    crossDword q.addr q.size = false := by
  by_contra crossing
  rw [Bool.not_eq_false] at crossing
  have beyond := crossDword_iff.mp crossing
  have off : q.addr.toNat % 8 < 8 := Nat.mod_lt _ (by decide)
  have mask : (accessMask q.addr q.size).getLsbD 7 = true := by
    rw [accessMask_bit (by decide)]
    exact decide_eq_true (.inr ⟨by omega, by omega⟩)
  obtain ⟨e, first, known, -⟩ := clean.first 7 (by decide) mask
  have on := List.mem_of_find?_eq_some first
  obtain ⟨older, same, extent⟩ :=
    extent_of_marked (List.find?_some first) known (by decide)
  have overlap : e.rangeOverlap q = true :=
    (rangeOverlap_iff wrap on).mpr ⟨older, known, by omega, by omega⟩
  have open_ := ((crosses_of overlap).mp (clean.free e on)).2.1
  rw [crossing] at open_
  cases open_

/-- The first store that takes part in the scan of a byte it has is the newest one with the byte. -/
theorem newestByte_first (wrap : NoWrap sources q) (clean : Clean ranged sources q)
    (inside : k < accessBytes q.size)
    (first : sources.find? (Source.marked ranged q (q.addr.toNat % 8 + k)) = some e)
    (known : e.addrValid = true) (ready : e.dataReady = true)
    (behind : e.addr.toNat % 8 ≤ q.addr.toNat % 8 + k) :
    newestByte sources (q.byteAddr k) =
      some (byteOf e.data (q.addr.toNat % 8 + k - e.addr.toNat % 8)) := by
  have within := within_of_clean wrap clean
  have room : ¬8 < q.addr.toNat % 8 + accessBytes q.size := by
    rw [← crossDword_iff, within]
    exact Bool.false_ne_true
  have on := List.mem_of_find?_eq_some first
  obtain ⟨part, before, after, split, others⟩ := List.find?_eq_some_iff_append.mp first
  obtain ⟨older, same, extent⟩ := extent_of_marked part known (by omega)
  have has : e.mayHave (q.byteAddr k) = true := by
    unfold Source.mayHave
    rw [older, (has_iff wrap on known inside).mpr ⟨by omega, by omega⟩, Bool.or_true]
    rfl
  have newest : sources.find? (Source.mayHave · (q.byteAddr k)) = some e := by
    refine List.find?_eq_some_iff_append.mpr ⟨has, before, after, split, fun x ahead => ?_⟩
    have on : x ∈ sources := split ▸ List.mem_append_left _ ahead
    have unmarked := others x ahead
    rw [Bool.not_eq_true'] at unmarked ⊢
    by_contra has
    rw [Bool.not_eq_false] at has
    rw [marked_of_has wrap on inside has (clean.free x on) within] at unmarked
    cases unmarked
  have place : (q.byteAddr k - e.addr).toNat = q.addr.toNat % 8 + k - e.addr.toNat % 8 := by
    have fits := wrap.1
    have small := e.addr.isLt
    rw [BitVec.toNat_sub, byteAddr_toNat wrap inside]
    omega
  unfold newestByte
  rw [newest, Option.bind_some, Source.byteAt, known, ready, place]
  rfl

/-- The byte of the answer. -/
theorem data_first (first : sources.find? (Source.marked ranged q b) = some e)
    (known : e.addrValid = true) (ready : e.dataReady = true) :
    (scan ranged sources q).data b =
      if dwordOffset e.addr ≤ b then byteOf e.data (b - dwordOffset e.addr) else 0 := by
  have lane := lane_first first known ready
  show (sources.foldl (fun l e => e.step q ranged b l) Lane.start).byte = _
  rw [lane]

/-- If the load hits, no byte of it is taken for one of a store that starts behind it, unless the
right byte happens to be zero. -/
def Unobscured (ranged : Bool) (sources : List Source) (q : LoadReq) : Prop :=
  Clean ranged sources q → ∀ k < accessBytes q.size, ∀ e,
    sources.find? (Source.marked ranged q (dwordOffset q.addr + k)) = some e →
    dwordOffset q.addr + k < dwordOffset e.addr → newestByte sources (q.byteAddr k) = some 0

/-- A scan keeps the law just if no store obscures a byte. -/
theorem scan_law_iff (wrap : NoWrap sources q) :
    Law sources q (scan ranged sources q) ↔ Unobscured ranged sources q := by
  have byte (clean : Clean ranged sources q) (k : Nat) (inside : k < accessBytes q.size) :
      ∃ e, sources.find? (Source.marked ranged q (dwordOffset q.addr + k)) = some e ∧
        e.addrValid = true ∧ e.dataReady = true ∧
        dwordOffset (q.byteAddr k) = dwordOffset q.addr + k := by
    have within := within_of_clean wrap clean
    have room : ¬8 < q.addr.toNat % 8 + accessBytes q.size := by
      rw [← crossDword_iff, within]
      exact Bool.false_ne_true
    have mask : (accessMask q.addr q.size).getLsbD (dwordOffset q.addr + k) = true := by
      rw [dwordOffset_eq, accessMask_within within (by omega)]
      exact decide_eq_true ⟨by omega, by omega⟩
    rw [dwordOffset_eq] at mask
    obtain ⟨e, first, known, ready⟩ := clean.first _ (by omega) mask
    refine ⟨e, by rwa [dwordOffset_eq], known, ready, ?_⟩
    rw [dwordOffset_eq, dwordOffset_eq, byteAddr_toNat wrap inside]
    omega
  constructor
  · intro law clean k inside e first ahead
    obtain ⟨e', first', known, ready, place⟩ := byte clean k inside
    obtain rfl : e' = e := Option.some.inj (first'.symm.trans first)
    obtain ⟨hit, calm⟩ := hit_of_clean clean
    rw [law.merge hit calm k inside, place, data_first first known ready,
      if_neg (Nat.not_le_of_lt ahead)]
  · intro clear
    refine ⟨fun hit calm k inside => ?_, fun ⟨e, on, k, inside, has⟩ =>
      scan_found wrap on inside has⟩
    have clean := clean_of_hit hit calm
    obtain ⟨e, first, known, ready, place⟩ := byte clean k inside
    rw [place, data_first first known ready]
    split
    next behind =>
      rw [dwordOffset_eq] at first
      rw [dwordOffset_eq, dwordOffset_eq] at behind
      rw [newestByte_first wrap clean inside first known ready behind, dwordOffset_eq,
        dwordOffset_eq]
    next ahead => exact clear clean k inside e first (Nat.lt_of_not_le ahead)

/-- Where the ranges are compared, a store that takes part has the byte. -/
theorem unobscured_ranged : Unobscured true sources q := by
  intro clean k inside e first ahead
  have on := List.mem_of_find?_eq_some first
  have part := List.find?_some first
  have mask := marked_mask part
  have few : dwordOffset q.addr + k < 8 := BitVec.lt_of_getLsbD mask
  obtain ⟨e', first', known, -⟩ := clean.first _ few mask
  obtain rfl : e' = e := Option.some.inj (first'.symm.trans first)
  unfold Source.marked at part
  rw [known, Bool.not_true, Bool.and_false, if_neg Bool.false_ne_true] at part
  simp only [Source.overlap, Bool.not_true, Bool.false_or, Bool.and_eq_true] at part
  obtain ⟨⟨⟨-, overlap⟩, store⟩, -⟩ := part
  rw [accessMask_within ((crosses_of overlap).mp (clean.free e' on)).1 few, decide_eq_true_eq,
    ← dwordOffset_eq] at store
  exact absurd store.1 (Nat.not_le_of_lt ahead)

-- ---------------------------------------------------------------------
-- The ports
-- ---------------------------------------------------------------------

/-- Both ports of the store queue keep the law just if no byte of the load is obscured by a store
that starts behind it; the buffer keeps it always. -/
theorem ports_keep_law (s : StoreQueue) (x : SqIn) (csb : StoreBuffer) (y : CsbIn) (q : LoadReq)
    (queueWrap : NoWrap (s.sources x q) q) (bufferWrap : NoWrap (csb.sources y) q) :
    (Law (s.sources x q) q (s.fwdLookup x q) ↔ Unobscured false (s.sources x q) q) ∧
      (Law (s.sources x q) q (s.waitLookup x q) ↔ Unobscured false (s.sources x q) q) ∧
      Law (csb.sources y) q (csb.fwdLookup y q) :=
  ⟨scan_law_iff queueWrap, scan_law_iff queueWrap, (scan_law_iff bufferWrap).mpr unobscured_ranged⟩

/-- A store queue after its first store. -/
def oneStore (addr : BitVec 64) (size : BitVec 2) (data : Word) (mask : BitVec 8) : StoreQueue :=
  (StoreQueue.reset.next ⟨[3], none, none, 0, false, 3, none⟩).next
    ⟨[], some ⟨0, 3, addr, size⟩, some ⟨0, 3, data, mask⟩, 0, false, 3, none⟩

def quiet : SqIn := ⟨[], none, none, 0, false, 3, none⟩

/-- A load of a half word from a stored word, while a byte before it enters the buffer. -/
theorem ports_keep_law_half :
    let s := oneStore 0x80000004 memWord 0x11223344 0x0F
    let csb := StoreBuffer.reset
    let y : CsbIn := ⟨some ⟨0x80000005, 0x55, 0x01, memByte⟩, false, false, false, false, false⟩
    let q : LoadReq := ⟨0x80000006, memHalf, 5⟩
    (Law (s.sources quiet q) q (s.fwdLookup quiet q) ↔ Unobscured false (s.sources quiet q) q) ∧
      (Law (s.sources quiet q) q (s.waitLookup quiet q) ↔
        Unobscured false (s.sources quiet q) q) ∧
      Law (csb.sources y) q (csb.fwdLookup y q) :=
  ports_keep_law _ _ _ _ _ ⟨by decide, by decide +kernel⟩ ⟨by decide, by decide +kernel⟩

/-- A doubleword is stored across the boundary at 8; the byte at 0 is then loaded as a hit. -/
theorem byte_before_store :
    let s := oneStore 0x80000004 3 0x1122334455667788 0xFF
    let q : LoadReq := ⟨0x80000000, memByte, 5⟩
    ¬Law (s.sources quiet q) q (s.fwdLookup quiet q) := by
  intro s q law
  have merge := law.merge (by decide +kernel) (by decide +kernel) 0 (by decide)
  have none_ : newestByte (s.sources quiet q) (q.byteAddr 0) = none := by decide +kernel
  rw [none_] at merge
  cases merge

end Rv64gc.Lsu
