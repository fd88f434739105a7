import Rv64gc.Lsu.AccessMask
import Rv64gc.Lsu.StoreQueue

/-!
# Forwarding from stores

`store_queue.sv` and `committed_store_buffer.sv`: a load looks through the stores before it, the
newest first, and takes each byte from the first one that has it. Two ports of the store queue and
two of the buffer do so. What a port says is compared with the bytes of the stores.
-/

namespace Rv64gc.Lsu

open Hdl Backend

/-- `fwd_req_*` and `wait_req_*` -/
structure LoadReq where
  addr : BitVec 64
  size : BitVec 2
  robIdx : RobIdx
deriving DecidableEq

/-- A store as a scan sees it. -/
structure Source where
  /-- `store_is_older`; in the buffer, that the entry is valid -/
  older : Bool
  addrValid : Bool
  addr : BitVec 64
  size : BitVec 2
  dataReady : Bool
  data : Word

/-- One byte of the masks and of the data. -/
structure Lane where
  cover : Bool
  waitAddr : Bool
  waitData : Bool
  byte : BitVec 8
deriving DecidableEq

def Lane.start : Lane := ⟨false, false, false, 0⟩

/-- `fwd_req_last_addr`, `scan_last_addr` -/
def lastAddr (addr : BitVec 64) (size : BitVec 2) : BitVec 64 :=
  addr + BitVec.ofNat 64 (accessBytes size) - 1

def byteOf (data : Word) (k : Nat) : BitVec 8 := data.extractLsb' (8 * k) 8

namespace Source

variable (e : Source) (q : LoadReq)

/-- `addr_match` -/
def addrMatch : Bool := e.older && e.addrValid && sameDword e.addr q.addr

/-- `range_overlap` -/
def rangeOverlap : Bool :=
  e.older && e.addrValid && decide (e.addr ≤ lastAddr q.addr q.size) &&
    decide (q.addr ≤ lastAddr e.addr e.size)

/-- The store blocks forwarding. -/
def crosses : Bool :=
  e.rangeOverlap q &&
    (crossDword e.addr e.size || crossDword q.addr q.size || !e.addrMatch q)

/-- A byte of `overlap_mask`. The buffer looks at the ranges before the masks, the queue does not. -/
def overlap (ranged : Bool) (b : Nat) : Bool :=
  e.addrMatch q && (!ranged || e.rangeOverlap q) &&
    (accessMask e.addr e.size).getLsbD b && (accessMask q.addr q.size).getLsbD b

/-- What a step of the scan does with one byte. -/
def step (ranged : Bool) (b : Nat) (l : Lane) : Lane :=
  let uncovered :=
    (if e.older && !e.addrValid then (accessMask q.addr q.size).getLsbD b
      else e.overlap q ranged b) && !l.cover
  if e.older && !e.addrValid then { l with waitAddr := l.waitAddr || uncovered }
  else if e.dataReady then
    { l with
      cover := l.cover || uncovered
      byte :=
        if uncovered && decide (dwordOffset e.addr ≤ b) then byteOf e.data (b - dwordOffset e.addr)
        else l.byte }
  else { l with waitData := l.waitData || uncovered }

end Source

/-- What a port answers. -/
structure Lookup where
  hit : Bool
  incomplete : Bool
  wait : Bool
  waitAddrUnknown : Bool
  waitDataMissing : Bool
  /-- The bytes of the doubleword. -/
  data : Nat → BitVec 8

/-- A scan of the stores in this order. -/
def scan (ranged : Bool) (sources : List Source) (q : LoadReq) : Lookup :=
  let lane (b : Nat) : Lane := sources.foldl (fun l e => e.step q ranged b l) .start
  let mask (b : Nat) : Bool := (accessMask q.addr q.size).getLsbD b
  let crossBlock := sources.any (Source.crosses · q)
  let lanes := List.range 8
  let hit := !crossBlock && lanes.all fun b => (lane b).cover == mask b
  { hit := hit
    incomplete := lanes.any (fun b => (lane b).cover) && !hit || crossBlock
    wait := lanes.any fun b => (lane b).waitAddr || (lane b).waitData
    waitAddrUnknown := lanes.any fun b => (lane b).waitAddr
    waitDataMissing := lanes.any fun b => (lane b).waitData
    data := fun b => (lane b).byte }

-- ---------------------------------------------------------------------
-- The ports
-- ---------------------------------------------------------------------

/-- Of a ring the slots in use, the newest first. -/
def newestFirst (f : Fifo w α) : List (BitVec w) :=
  (List.range f.count).map fun step => f.tail - BitVec.ofNat w step - 1

namespace StoreQueue

variable (s : StoreQueue) (x : SqIn) (q : LoadReq)

/-- An entry with the address and the data that come in the same cycle. -/
def source (j : SqIdx) : Source :=
  let e := s.ring.slot j
  { older := e.valid && (e.committed ||
      robAgeFromHead x.robHead e.robIdx < robAgeFromHead x.robHead q.robIdx)
    addrValid := e.addrValid || (s.staAccept x j).isSome
    addr := match s.staAccept x j with | some f => f.addr | none => e.addr
    size := match s.staAccept x j with | some f => f.size | none => e.size
    dataReady := e.dataValid || (s.stdAccept x j).isSome
    data := match s.stdAccept x j with | some f => f.data | none => e.data }

def sources : List Source := (newestFirst s.ring).map (s.source x q)

/-- `fwd_hit`, `fwd_partial`, `fwd_wait` and `fwd_data` -/
def fwdLookup : Lookup := scan false (s.sources x q) q

/-- `wait_fwd_hit`, `wait_partial`, `wait_wait` and `wait_data` -/
def waitLookup : Lookup := scan false (s.sources x q) q

end StoreQueue

namespace StoreBuffer

variable (s : StoreBuffer) (x : CsbIn) (q : LoadReq)

def source (valid : Bool) (o : StoreOp) : Source := ⟨valid, true, o.addr, o.size, true, o.data⟩

/-- The store that is enqueued in the same cycle is the newest. -/
def sources : List Source :=
  (s.enqueued x).toList.map (source true) ++
    (newestFirst s.ring).map fun j => source (s.ring.slot j).valid (s.ring.slot j).op

/-- `fwd_hit`, `fwd_partial` and `fwd_data`, of either port -/
def fwdLookup : Lookup := scan true (s.sources x) q

end StoreBuffer

-- ---------------------------------------------------------------------
-- What they should answer
-- ---------------------------------------------------------------------

namespace Source

/-- The store has the byte. -/
def has (e : Source) (a : BitVec 64) : Bool := decide ((a - e.addr).toNat < accessBytes e.size)

/-- The store is before the load and has the byte, or may have it. -/
def mayHave (e : Source) (a : BitVec 64) : Bool := e.older && (!e.addrValid || e.has a)

/-- The byte of a store that has its address and its data. -/
def byteAt (e : Source) (a : BitVec 64) : Option (BitVec 8) :=
  if e.addrValid && e.dataReady then some (byteOf e.data (a - e.addr).toNat) else none

end Source

/-- The byte of the newest store that has it, if that is known. -/
def newestByte (sources : List Source) (a : BitVec 64) : Option (BitVec 8) :=
  (sources.find? (Source.mayHave · a)).bind (Source.byteAt · a)

/-- The address of a byte of the load. -/
def LoadReq.byteAddr (q : LoadReq) (k : Nat) : BitVec 64 := q.addr + BitVec.ofNat 64 k

/-- A hit without wait gives every byte of the load from the newest store that has it, and the port
does not miss a store that has a byte, or may have it. -/
structure Law (sources : List Source) (q : LoadReq) (out : Lookup) : Prop where
  merge : out.hit = true → out.wait = false → ∀ k < accessBytes q.size,
    newestByte sources (q.byteAddr k) = some (out.data (dwordOffset (q.byteAddr k)))
  found : (∃ e ∈ sources, ∃ k < accessBytes q.size, e.mayHave (q.byteAddr k) = true) →
    out.hit = true ∨ out.incomplete = true ∨ out.wait = true

/-- Neither the load nor a store reaches over the end of the address space. -/
def NoWrap (sources : List Source) (q : LoadReq) : Prop :=
  q.addr.toNat + accessBytes q.size ≤ 2 ^ 64 ∧
    ∀ e ∈ sources, e.addrValid = true → e.addr.toNat + accessBytes e.size ≤ 2 ^ 64

-- ---------------------------------------------------------------------
-- One byte of the scan
-- ---------------------------------------------------------------------

variable {ranged : Bool} {sources : List Source} {q : LoadReq} {e : Source} {b k : Nat}

namespace Source

/-- The store takes part in the scan of a byte. -/
def marked (ranged : Bool) (q : LoadReq) (b : Nat) (e : Source) : Bool :=
  if e.older && !e.addrValid then (accessMask q.addr q.size).getLsbD b else e.overlap q ranged b

theorem step_covered {l : Lane} (covered : l.cover = true) : e.step q ranged b l = l := by
  unfold step
  simp only [covered, Bool.not_true, Bool.and_false, Bool.or_false, Bool.false_and,
    Bool.false_eq_true, if_false]
  obtain ⟨c, a, d, v⟩ := l
  obtain rfl : c = true := covered
  split <;> [rfl; split <;> rfl]

theorem step_unmarked {l : Lane} (unmarked : e.marked ranged q b = false) :
    e.step q ranged b l = l := by
  unfold marked at unmarked
  unfold step
  simp only [unmarked, Bool.false_and, Bool.or_false, Bool.false_eq_true, if_false]
  split <;> [rfl; split <;> rfl]

theorem step_waits {l : Lane} (waits : (l.waitAddr || l.waitData) = true) :
    ((e.step q ranged b l).waitAddr || (e.step q ranged b l).waitData) = true := by
  unfold step
  dsimp only
  split
  · grind
  · split <;> grind

end Source

theorem lane_covered (sources : List Source) {l : Lane} (covered : l.cover = true) :
    sources.foldl (fun l e => e.step q ranged b l) l = l := by
  induction sources with
  | nil => rfl
  | cons e rest ih => rw [List.foldl_cons, Source.step_covered covered, ih]

theorem lane_waits (sources : List Source) {l : Lane} (waits : (l.waitAddr || l.waitData) = true) :
    ((sources.foldl (fun l e => e.step q ranged b l) l).waitAddr ||
      (sources.foldl (fun l e => e.step q ranged b l) l).waitData) = true := by
  induction sources generalizing l with
  | nil => exact waits
  | cons e rest ih => exact ih (Source.step_waits waits)

/-- What becomes of a byte is decided by the first store that takes part. -/
theorem lane_result (sources : List Source) :
    match sources.find? (Source.marked ranged q b) with
    | none => sources.foldl (fun l e => e.step q ranged b l) Lane.start = Lane.start
    | some e =>
      if e.addrValid && e.dataReady then
        sources.foldl (fun l e => e.step q ranged b l) Lane.start =
          ⟨true, false, false,
            if dwordOffset e.addr ≤ b then byteOf e.data (b - dwordOffset e.addr) else 0⟩
      else
        ((sources.foldl (fun l e => e.step q ranged b l) Lane.start).waitAddr ||
          (sources.foldl (fun l e => e.step q ranged b l) Lane.start).waitData) = true := by
  induction sources with
  | nil => rfl
  | cons e rest ih =>
    rw [List.find?_cons]
    cases part : e.marked ranged q b with
    | false =>
      rw [List.foldl_cons, Source.step_unmarked part]
      exact ih
    | true =>
      dsimp only
      rw [List.foldl_cons]
      unfold Source.marked at part
      cases known : e.addrValid with
      | false =>
        have older : e.older = true := by
          by_contra out
          simp [out, known, Source.overlap, Source.addrMatch] at part
        refine lane_waits rest ?_
        simp only [older, known, Bool.not_false, Bool.and_self, if_true] at part
        simp [Source.step, Lane.start, older, known, part]
      | true =>
        simp only [known, Bool.not_true, Bool.and_false, Bool.false_eq_true, if_false] at part
        cases ready : e.dataReady with
        | true =>
          have stepped : e.step q ranged b Lane.start = ⟨true, false, false,
              if dwordOffset e.addr ≤ b then byteOf e.data (b - dwordOffset e.addr) else 0⟩ := by
            simp [Source.step, Lane.start, known, ready, part]
          rw [stepped]
          exact lane_covered rest rfl
        | false =>
          refine lane_waits rest ?_
          simp [Source.step, Lane.start, known, ready, part]

end Rv64gc.Lsu
