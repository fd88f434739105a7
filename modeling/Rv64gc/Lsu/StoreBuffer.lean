import Rv64gc.Hdl.Bits
import Rv64gc.Hdl.Fifo
import Rv64gc.Lsu.AmoUnit

/-!
# The committed store buffer

`committed_store_buffer.sv` and its drain in `lsu.sv`: a ring of 32 committed stores. The oldest one
goes to a device or to the data cache, and to the cache in two requests when it crosses a line.
-/

namespace Rv64gc.Lsu

open Hdl Mmu

-- ---------------------------------------------------------------------
-- What a store asks for
-- ---------------------------------------------------------------------

/-- What a store writes. -/
structure StoreOp where
  addr : Pa
  data : Word
  byteMask : BitVec 8
  size : BitVec 2
deriving DecidableEq

abbrev clintBase : Pa := 0x02000000
abbrev clintSize : Pa := 0x00010000
abbrev plicBase : Pa := 0x0C000000
abbrev plicSize : Pa := 0x04000000
abbrev uartBase : Pa := 0x10000000
abbrev uartSize : Pa := 0x00000100

/-- `csb_deq_mmio` -/
def isMmio (addr : Pa) : Bool :=
  (decide (clintBase ≤ addr) && decide (addr < clintBase + clintSize)) ||
  (decide (plicBase ≤ addr) && decide (addr < plicBase + plicSize)) ||
  (decide (uartBase ≤ addr) && decide (addr < uartBase + uartSize))

namespace StoreOp

variable (o : StoreOp)

def sizeBytes : Nat :=
  if o.size = memByte then 1 else if o.size = memHalf then 2 else if o.size = memWord then 4 else 8

/-- The place of the first byte in its line. -/
def lineOffset : Nat := (o.addr.extractLsb' 0 6).toNat

/-- `csb_deq_cross_line` -/
def crossLine : Bool := decide (64 < o.lineOffset + o.sizeBytes)

/-- `csb_split_first_bytes` -/
def firstBytes : Nat := if o.crossLine then 64 - o.lineOffset else o.sizeBytes

/-- The lowest bytes, this many. -/
def lowMask (n : Nat) : BitVec 8 := tabulate fun b => decide (b.val < n)

/-- The part of a line-crossing store in its first line. -/
def first : StoreReq := ⟨o.addr, o.data, lowMask o.firstBytes⟩

/-- The part in the line behind it. -/
def second : StoreReq where
  addr := (o.addr.extractLsb' 6 58 + 1) ++ 0#6
  data := o.data >>> (o.firstBytes * 8)
  mask := lowMask (o.sizeBytes - o.firstBytes)

def whole : StoreReq := ⟨o.addr, o.data, o.byteMask⟩

end StoreOp

-- ---------------------------------------------------------------------
-- The bytes of the two parts
-- ---------------------------------------------------------------------

/-- The bytes a request writes, with their addresses. -/
def StoreReq.bytes (q : StoreReq) : List (Pa × BitVec 8) :=
  (List.range 8).filterMap fun k =>
    if q.mask.getLsbD k then some (q.addr + BitVec.ofNat 64 k, q.data.extractLsb' (8 * k) 8) else none

theorem getLsbD_lowMask {n k : Nat} (inside : k < 8) :
    (StoreOp.lowMask n).getLsbD k = decide (k < n) :=
  getLsbD_tabulate (fun b : Fin 8 => decide (b.val < n)) ⟨k, inside⟩

theorem StoreReq.bytes_of_lowMask {q : StoreReq} {n : Nat} (mask : q.mask = StoreOp.lowMask n)
    (few : n ≤ 8) : q.bytes = (List.range n).map fun k =>
      (q.addr + BitVec.ofNat 64 k, q.data.extractLsb' (8 * k) 8) := by
  have split : List.range 8 = List.range n ++ (List.range (8 - n)).map (n + ·) := by
    rw [← List.range_add, Nat.add_sub_cancel' few]
  rw [bytes, split, List.filterMap_append]
  have front : ∀ k ∈ List.range n, (if q.mask.getLsbD k then
      some (q.addr + BitVec.ofNat 64 k, q.data.extractLsb' (8 * k) 8) else none) =
        some (q.addr + BitVec.ofNat 64 k, q.data.extractLsb' (8 * k) 8) := by
    intro k on
    have less := List.mem_range.mp on
    rw [mask, getLsbD_lowMask (by omega), decide_eq_true less, if_pos rfl]
  have back : ((List.range (8 - n)).map (n + ·)).filterMap (fun k => if q.mask.getLsbD k then
      some (q.addr + BitVec.ofNat 64 k, q.data.extractLsb' (8 * k) 8) else none) = [] := by
    rw [List.filterMap_eq_nil_iff]
    intro k on
    obtain ⟨j, inside, rfl⟩ := List.mem_map.mp on
    have less := List.mem_range.mp inside
    rw [mask, getLsbD_lowMask (by omega), decide_eq_false (by omega), if_neg Bool.false_ne_true]
  rw [back, List.append_nil, List.filterMap_congr front]
  exact congrFun List.filterMap_eq_map' _

/-- The next line starts behind the bytes of this one. -/
theorem next_line (addr : Pa) :
    (addr.extractLsb' 6 58 + 1) ++ (0#6) = addr + BitVec.ofNat 64 (64 - addr.toNat % 64) := by
  have small := addr.isLt
  have start : ((addr.extractLsb' 6 58 + 1) ++ (0#6)).toNat =
      (addr.extractLsb' 6 58 + 1).toNat * 64 := by
    rw [BitVec.toNat_append]
    simp [Nat.shiftLeft_eq]
  apply BitVec.eq_of_toNat_eq
  rw [start]
  simp only [BitVec.toNat_add, BitVec.ofNat_eq_ofNat, BitVec.toNat_ofNat, BitVec.extractLsb'_toNat,
    Nat.shiftRight_eq_div_pow]
  omega

namespace StoreOp

variable {o : StoreOp}

theorem sizeBytes_le (o : StoreOp) : o.sizeBytes ≤ 8 := by
  unfold sizeBytes
  split
  · decide
  · split
    · decide
    · split <;> decide

/-- The second part starts where the first ends. -/
theorem second_addr (crosses : o.crossLine = true) :
    o.second.addr = o.addr + BitVec.ofNat 64 o.firstBytes := by
  have first : o.firstBytes = 64 - o.addr.toNat % 64 := by
    simp [firstBytes, crosses, lineOffset, BitVec.extractLsb'_toNat]
  rw [first]
  exact next_line o.addr

/-- The two parts of a store write its bytes, each once. -/
theorem bytes_of_parts (crosses : o.crossLine = true) (mask : o.byteMask = lowMask o.sizeBytes) :
    o.whole.bytes = o.first.bytes ++ o.second.bytes := by
  have size := sizeBytes_le o
  have some_ : o.firstBytes ≤ o.sizeBytes := by
    have past := crosses
    simp only [crossLine, decide_eq_true_eq] at past
    rw [firstBytes, crosses, if_pos rfl]
    omega
  rw [StoreReq.bytes_of_lowMask (q := o.whole) mask size,
    StoreReq.bytes_of_lowMask (q := o.first) rfl (by omega),
    StoreReq.bytes_of_lowMask (q := o.second) rfl (by omega), second_addr crosses]
  have split : List.range o.sizeBytes =
      List.range o.firstBytes ++ (List.range (o.sizeBytes - o.firstBytes)).map (o.firstBytes + ·) := by
    rw [← List.range_add, Nat.add_sub_cancel' some_]
  rw [split, List.map_append, List.map_map]
  congr 1
  refine List.map_congr_left fun k _ => ?_
  have data : o.second.data.extractLsb' (8 * k) 8 =
      o.data.extractLsb' (8 * (o.firstBytes + k)) 8 := by
    apply BitVec.eq_of_getLsbD_eq
    intro b inside
    simp only [second, BitVec.getLsbD_extractLsb', BitVec.getLsbD_ushiftRight]
    congr 2
    omega
  simp only [Function.comp_apply, whole, data, BitVec.ofNat_add, BitVec.add_assoc]

end StoreOp

/-- A write that has arrived where it belongs. -/
inductive Delivery where
  | dcache (q : StoreReq)
  | device (q : StoreReq)
deriving DecidableEq

/-- What has to arrive for a store, in order. -/
def StoreOp.deliveries (o : StoreOp) : List Delivery :=
  if isMmio o.addr then [.device o.whole]
  else if o.crossLine then [.dcache o.first, .dcache o.second]
  else [.dcache o.whole]

-- ---------------------------------------------------------------------
-- The buffer
-- ---------------------------------------------------------------------

structure CsbEntry where
  valid : Bool
  op : StoreOp

structure StoreBuffer where
  ring : Fifo 5 CsbEntry
  splitActive : Bool
  /-- `split_store_addr_r`, `split_store_data_r` and `split_store_mask_r` -/
  split : StoreReq

structure CsbIn where
  /-- `sq_drain_entry`, when it is valid -/
  enq : Option StoreOp
  /-- `dcache_store_ack`, for what the load/store unit requests -/
  ack : Bool
  /-- `amo_store_valid_r` -/
  amoValid : Bool
  /-- `amo_store_committed_r` -/
  amoCommitted : Bool
  /-- `mmio_store_resp_fire_r` -/
  mmioDone : Bool
  flush : Bool

/-- `amo_store_req_valid`: an atomic has the port. -/
def CsbIn.amoReq (x : CsbIn) : Bool := x.amoValid && x.amoCommitted

namespace StoreBuffer

variable (s : StoreBuffer) (x : CsbIn)

def reset : StoreBuffer := ⟨⟨0, 0, 0, fun _ => ⟨false, 0, 0, 0, 0⟩⟩, false, 0, 0, 0⟩

def enqReady : Bool := decide (s.ring.count < 32)

def head : CsbEntry := s.ring.slot s.ring.head

def deqValid : Bool := decide (s.ring.count ≠ 0) && s.head.valid

def splitStart : Bool :=
  s.deqValid && !isMmio s.head.op.addr && s.head.op.crossLine && !s.splitActive

/-- `csb_normal_store_req_valid` -/
def normalReq : Bool :=
  s.deqValid && !isMmio s.head.op.addr && !s.head.op.crossLine && !s.splitActive

/-- What the buffer requests of the data cache, unless an atomic has the port. -/
def request : Option StoreReq :=
  if s.splitActive then some s.split
  else if s.splitStart then some s.head.op.first
  else if s.normalReq then some s.head.op.whole
  else none

/-- The store a device has to take. -/
def deviceStore : Option StoreReq :=
  if s.deqValid && isMmio s.head.op.addr then some s.head.op.whole else none

def firstAck : Bool := s.splitStart && !x.amoValid && x.ack

def secondAck : Bool := s.splitActive && !x.amoValid && x.ack

def csbStoreAck : Bool :=
  if s.head.op.crossLine || s.splitActive then s.secondAck x else x.ack

def deqAck : Bool :=
  if isMmio s.head.op.addr then x.mmioDone else if x.amoValid then false else s.csbStoreAck x

def deqFire : Bool := s.deqValid && s.deqAck x

/-- The request of the buffer the data cache takes. -/
def taken : Option StoreReq := if x.ack && !x.amoReq then s.request else none

def enqueued : Option StoreOp := if s.enqReady then x.enq else none

def nextSlot (j : BitVec 5) : CsbEntry :=
  let e := s.ring.slot j
  let e := if s.deqFire x && j == s.ring.head then { e with valid := false } else e
  match s.enqueued x with
  | some o => if j == s.ring.tail then ⟨true, o⟩ else e
  | none => e

def dequeued : Nat := if s.deqFire x then 1 else 0

def next : StoreBuffer where
  ring := s.ring.turn (s.dequeued x) (s.enqueued x).toList.length (s.nextSlot x)
  splitActive :=
    if x.flush then false
    else if s.secondAck x then false
    else if s.firstAck x then true
    else s.splitActive
  split :=
    if !x.flush && !s.secondAck x && s.firstAck x then s.head.op.second else s.split

/-- The stores in it, oldest first. -/
def ops : List StoreOp := s.ring.contents.map CsbEntry.op

-- ---------------------------------------------------------------------
-- The ring
-- ---------------------------------------------------------------------

structure Sound : Prop where
  ring : s.ring.Sound
  valid : ∀ j, (s.ring.slot j).valid = true ↔ s.ring.Live j
  split : s.splitActive = true → ∃ o rest, s.ops = o :: rest ∧ isMmio o.addr = false ∧
    o.crossLine = true ∧ s.split = o.second

variable {s : StoreBuffer} {x : CsbIn}

theorem Sound.reset : reset.Sound where
  ring := ⟨Nat.zero_le _, rfl⟩
  valid _ := iff_of_false Bool.false_ne_true (Nat.not_lt_zero _)
  split active := absurd active Bool.false_ne_true

theorem deqValid_iff (sound : s.Sound) : s.deqValid = true ↔ 0 < s.ring.count := by
  rw [deqValid, head, Bool.and_eq_true, sound.valid, decide_eq_true_eq, Fifo.Live]
  simp only [offset, BitVec.sub_self, BitVec.toNat_zero]
  omega

theorem ops_head (holds : 0 < s.ring.count) : ∃ rest, s.ops = s.head.op :: rest := by
  have length : s.ops.length = s.ring.count := by simp [ops]
  cases list : s.ops with
  | nil =>
    rw [list] at length
    simp at length
    omega
  | cons o rest =>
    have first : s.ops[0]? = some o := by rw [list]; rfl
    rw [ops, List.getElem?_map, List.getElem?_eq_getElem (by simpa using holds),
      Fifo.getElem_contents, Fifo.nth, slotAt_zero] at first
    cases first
    exact ⟨rest, rfl⟩

theorem ops_nil (empty : ¬0 < s.ring.count) : s.ops = [] := by
  apply List.eq_nil_of_length_eq_zero
  simp [ops]
  omega

/-- Half a store has been taken only of one that crosses lines. -/
theorem split_head (sound : s.Sound) (active : s.splitActive = true) :
    0 < s.ring.count ∧ isMmio s.head.op.addr = false ∧ s.head.op.crossLine = true ∧
      s.split = s.head.op.second := by
  obtain ⟨o, rest, list, cached, crosses, same⟩ := sound.split active
  have holds : 0 < s.ring.count := by
    by_contra empty
    rw [ops_nil empty] at list
    cases list
  obtain ⟨rest', list'⟩ := ops_head holds
  obtain ⟨rfl, -⟩ := List.cons.inj (list.symm.trans list')
  exact ⟨holds, cached, crosses, same⟩

theorem splitActive_of_whole (sound : s.Sound)
    (whole : isMmio s.head.op.addr = true ∨ s.head.op.crossLine = false) :
    s.splitActive = false := by
  by_contra active
  obtain ⟨-, cached, crosses, -⟩ := split_head sound (by simpa using active)
  simp [cached, crosses] at whole

theorem dequeued_le (sound : s.Sound) : s.dequeued x ≤ s.ring.count := by
  unfold dequeued
  split
  next fires =>
    rw [deqFire, Bool.and_eq_true, deqValid_iff sound] at fires
    exact fires.1
  next => exact Nat.zero_le _

theorem enqueued_room (sound : s.Sound) :
    s.ring.count + (s.enqueued x).toList.length ≤ 2 ^ 5 := by
  have fits := sound.ring.fits
  unfold enqueued
  split
  next ready =>
    rw [enqReady, decide_eq_true_eq] at ready
    cases x.enq <;> simp <;> omega
  next => simpa using fits

/-- Only the slot at the tail gets another store. -/
theorem nextSlot_op (sound : s.Sound) (k : Nat) (inside : k < s.ring.count) :
    (s.nextSlot x (slotAt s.ring.head k)).op = (s.ring.slot (slotAt s.ring.head k)).op := by
  have fits := sound.ring.fits
  have room := enqueued_room (x := x) sound
  unfold nextSlot
  cases new : s.enqueued x with
  | none => dsimp only; split <;> rfl
  | some o =>
    rw [new] at room
    simp only [Option.toList_some, List.length_singleton] at room
    have other : (slotAt s.ring.head k == s.ring.tail) = false := by
      rw [beq_eq_false_iff_ne, sound.ring.tail]
      intro same
      have offsets := congrArg (offset s.ring.head) same
      rw [offset_slotAt _ (by omega), offset_slotAt _ (by omega)] at offsets
      omega
    dsimp only
    rw [other, if_neg Bool.false_ne_true]
    split <;> rfl

theorem ops_next (sound : s.Sound) :
    (s.next x).ops = s.ops.drop (s.dequeued x) ++ (s.enqueued x).toList := by
  have le := dequeued_le (x := x) sound
  show (s.ring.turn _ _ (s.nextSlot x)).contents.map CsbEntry.op = _
  rw [Fifo.turn_contents CsbEntry.op le fun k _ inside => nextSlot_op sound k inside]
  congr 1
  cases new : s.enqueued x with
  | none => rfl
  | some o =>
    simp only [Option.toList_some, List.length_singleton, List.range_one, List.map_cons,
      List.map_nil, Nat.add_zero, nextSlot, new, ← sound.ring.tail, beq_self_eq_true, if_true]

theorem nextSlot_valid (sound : s.Sound) (inside : k < 2 ^ 5) :
    (s.nextSlot x (slotAt s.ring.head k)).valid = true ↔
      s.dequeued x ≤ k ∧ k < s.ring.count + (s.enqueued x).toList.length := by
  have fits := sound.ring.fits
  have room := enqueued_room (x := x) sound
  have old : (s.ring.slot (slotAt s.ring.head k)).valid = true ↔ k < s.ring.count := by
    rw [sound.valid, Fifo.Live, offset_slotAt _ inside]
  have first : slotAt s.ring.head k = s.ring.head ↔ k = 0 := by
    constructor
    · intro same
      have lands := offset_slotAt s.ring.head inside
      rw [same] at lands
      simpa [offset] using lands.symm
    · rintro rfl
      exact slotAt_zero _
  have stays : (if (s.deqFire x && slotAt s.ring.head k == s.ring.head) = true then
      { s.ring.slot (slotAt s.ring.head k) with valid := false }
      else s.ring.slot (slotAt s.ring.head k)).valid = true ↔
        s.dequeued x ≤ k ∧ k < s.ring.count := by
    simp only [Bool.and_eq_true, beq_iff_eq, first, dequeued]
    split
    next leaves =>
      rw [if_pos leaves.1, leaves.2]
      exact iff_of_false Bool.false_ne_true fun none_ => Nat.not_lt_zero _ none_.1
    next here =>
      rw [old]
      split
      next fires =>
        have later : k ≠ 0 := fun zero => here ⟨fires, zero⟩
        omega
      next => omega
  unfold nextSlot
  cases new : s.enqueued x with
  | none => simpa using stays
  | some o =>
    rw [new] at room
    simp only [Option.toList_some, List.length_singleton] at room ⊢
    have le := dequeued_le (x := x) sound
    have last : (slotAt s.ring.head k == s.ring.tail) = true ↔ k = s.ring.count := by
      rw [beq_iff_eq, sound.ring.tail]
      constructor
      · intro same
        have offsets := congrArg (offset s.ring.head) same
        rwa [offset_slotAt _ inside, offset_slotAt _ (by omega)] at offsets
      · rintro rfl
        rfl
    split
    next tail =>
      have at_ := last.mp tail
      exact iff_of_true rfl (by omega)
    next other =>
      have before : k ≠ s.ring.count := fun same => other (last.mpr same)
      rw [stays]
      omega

-- ---------------------------------------------------------------------
-- What leaves
-- ---------------------------------------------------------------------

/-- What a cycle must not do: take the port from half a store, or answer the buffer while an atomic
that has not committed holds the port. -/
structure Undisturbed (s : StoreBuffer) (x : CsbIn) : Prop where
  split : x.flush = true → s.firstAck x = false ∧ (s.splitActive = true → s.secondAck x = true)
  port : x.amoValid = true → x.amoCommitted = false → x.ack = true → s.request = none

theorem deqFire_of_split (holds : s.head.op.crossLine = true)
    (cached : isMmio s.head.op.addr = false) : s.deqFire x = true → s.secondAck x = true := by
  intro fires
  rw [deqFire, deqAck, csbStoreAck, cached, holds, Bool.true_or, if_pos rfl] at fires
  simp only [Bool.false_eq_true, if_false, Bool.and_eq_true] at fires
  split at fires
  · exact absurd fires.2 Bool.false_ne_true
  · exact fires.2

theorem Sound.next (sound : s.Sound) : (s.next x).Sound where
  ring := Fifo.turn_sound sound.ring (enqueued_room sound) (dequeued_le sound)
  valid j := by
    have inside := offset_lt s.ring.head j
    rw [← slotAt_offset s.ring.head j]
    generalize offset s.ring.head j = k at inside
    exact (nextSlot_valid sound inside).trans
      (Fifo.turn_live (enqueued_room sound) (dequeued_le sound) inside).symm
  split active := by
    have stays : ∀ o rest, s.ops = o :: rest → s.dequeued x = 0 →
        ∃ rest', (s.next x).ops = o :: rest' := by
      intro o rest list none_
      exact ⟨rest ++ (s.enqueued x).toList, by rw [ops_next sound, none_, list]; rfl⟩
    simp only [StoreBuffer.next] at active ⊢
    split at active
    · cases active
    · next calm =>
      split at active
      · cases active
      · next waits =>
        have kept : s.head.op.crossLine = true → isMmio s.head.op.addr = false →
            s.dequeued x = 0 := fun crosses cached =>
          if_neg fun fires => waits (deqFire_of_split crosses cached fires)
        split at active
        next acked =>
          have start := acked
          simp only [firstAck, splitStart, Bool.and_eq_true, Bool.not_eq_true'] at start
          obtain ⟨⟨⟨⟨⟨valid, cached⟩, crosses⟩, -⟩, -⟩, -⟩ := start
          obtain ⟨rest, list⟩ := ops_head ((deqValid_iff sound).mp valid)
          obtain ⟨rest', list'⟩ := stays _ _ list (kept crosses cached)
          refine ⟨_, rest', list', cached, crosses, ?_⟩
          simp [calm, waits, acked]
        next idle =>
          obtain ⟨holds, cached, crosses, same⟩ := split_head sound active
          obtain ⟨rest, list⟩ := ops_head holds
          obtain ⟨rest', list'⟩ := stays _ _ list (kept crosses cached)
          refine ⟨_, rest', list', cached, crosses, ?_⟩
          simp [idle, same]

/-- How much has arrived for the oldest store; `took` when a device has it. -/
def progress (s : StoreBuffer) (took : Bool) : Nat := if s.splitActive || took then 1 else 0

/-- What a device does in a cycle for the oldest store: it takes it once and answers after that. -/
structure DeviceStep (s : StoreBuffer) (x : CsbIn) (took : Bool) (dev : Option StoreReq)
    (took' : Bool) : Prop where
  idle : s.deviceStore = none → took = false ∧ dev = none ∧ took' = false
  done : x.mmioDone = true → s.deviceStore.isSome = true → took = true
  once : took = true → dev = none
  takes : ∀ q, dev = some q → s.deviceStore = some q
  took' : s.deviceStore.isSome = true → took' = (!x.mmioDone && (took || dev.isSome))

variable {took took' : Bool} {dev : Option StoreReq}

/-- What arrives in a cycle. -/
def arrivals (s : StoreBuffer) (x : CsbIn) (dev : Option StoreReq) : List Delivery :=
  (s.taken x).toList.map .dcache ++ dev.toList.map .device

/-- What had arrived of the oldest store and what arrives now is all of what leaves and what has
arrived of the next one. -/
def Conserves (s : StoreBuffer) (x : CsbIn) (took : Bool) (dev : Option StoreReq) (took' : Bool) :
    Prop :=
  (s.ops.flatMap StoreOp.deliveries).take (s.progress took) ++ s.arrivals x dev =
    (s.ops.take (s.dequeued x)).flatMap StoreOp.deliveries ++
      ((s.next x).ops.flatMap StoreOp.deliveries).take ((s.next x).progress took')

theorem conserves_empty (sound : s.Sound) (device : s.DeviceStep x took dev took')
    (empty : ¬0 < s.ring.count) : s.Conserves x took dev took' := by
  have invalid : s.deqValid = false := by rw [← Bool.not_eq_true, deqValid_iff sound]; exact empty
  have inactive : s.splitActive = false := by
    rw [← Bool.not_eq_true]
    exact fun active => empty (split_head sound active).1
  obtain ⟨rfl, rfl, rfl⟩ := device.idle (by simp [deviceStore, invalid])
  simp [Conserves, arrivals, taken, request, splitStart, normalReq, dequeued, deqFire, progress,
    next, firstAck, secondAck, invalid, inactive]

/-- The data cache answers what the buffer requests when the buffer sees the answer. -/
theorem acknowledged (calm : s.Undisturbed x) {q : StoreReq} (asks : s.request = some q) :
    (x.ack && !x.amoReq) = (!x.amoValid && x.ack) := by
  have port := calm.port
  rw [asks] at port
  simp only [reduceCtorEq, imp_false, Bool.not_eq_true] at port
  unfold CsbIn.amoReq
  cases valid : x.amoValid with
  | false => simp
  | true =>
    cases committed : x.amoCommitted with
    | false => simp [port valid committed]
    | true => simp

theorem conserves_device (sound : s.Sound) (device : s.DeviceStep x took dev took')
    (holds : 0 < s.ring.count) (mmio : isMmio s.head.op.addr = true) :
    s.Conserves x took dev took' := by
  have valid := (deqValid_iff sound).mpr holds
  obtain ⟨rest, list⟩ := ops_head holds
  have after := ops_next (x := x) sound
  have inactive := splitActive_of_whole sound (.inl mmio)
  have asks : s.deviceStore = some s.head.op.whole := by simp [deviceStore, valid, mmio]
  have none_ : s.taken x = none := by
    simp [taken, request, splitStart, normalReq, inactive, mmio]
  have idle : (s.next x).splitActive = false := by
    simp [next, firstAck, secondAck, splitStart, inactive, mmio]
  have leaves : s.dequeued x = if x.mmioDone then 1 else 0 := by
    simp [dequeued, deqFire, deqAck, valid, mmio]
  have whole : s.head.op.deliveries = [.device s.head.op.whole] := by
    simp [StoreOp.deliveries, mmio]
  have next_ := device.took' (by simp [asks])
  have done := device.done
  have takes := device.takes
  rw [asks] at done takes
  rw [list, leaves] at after
  unfold Conserves
  rw [list]
  simp only [arrivals, none_, progress, inactive, idle, leaves, next_, after]
  cases took with
  | true =>
    rw [device.once rfl]
    cases x.mmioDone <;> simp [whole]
  | false =>
    have waits : x.mmioDone = false := by
      cases here : x.mmioDone with
      | false => rfl
      | true => exact absurd (done here rfl) Bool.false_ne_true
    rw [waits]
    cases dev with
    | none => simp
    | some q =>
      cases takes q rfl
      simp [whole]

theorem conserves_whole (sound : s.Sound) (calm : s.Undisturbed x)
    (device : s.DeviceStep x took dev took') (holds : 0 < s.ring.count)
    (cached : isMmio s.head.op.addr = false) (one : s.head.op.crossLine = false) :
    s.Conserves x took dev took' := by
  have valid := (deqValid_iff sound).mpr holds
  obtain ⟨rest, list⟩ := ops_head holds
  have after := ops_next (x := x) sound
  obtain ⟨rfl, rfl, rfl⟩ := device.idle (by simp [deviceStore, cached])
  have inactive := splitActive_of_whole sound (.inr one)
  have asks : s.request = some s.head.op.whole := by
    simp [request, splitStart, normalReq, inactive, valid, cached, one]
  have idle : (s.next x).splitActive = false := by
    simp [next, firstAck, secondAck, splitStart, inactive, one]
  have leaves : s.dequeued x = if !x.amoValid && x.ack then 1 else 0 := by
    cases port : x.amoValid <;>
      simp [dequeued, deqFire, deqAck, csbStoreAck, valid, cached, one, inactive, port]
  have whole : s.head.op.deliveries = [.dcache s.head.op.whole] := by
    simp [StoreOp.deliveries, cached, one]
  rw [list, leaves] at after
  unfold Conserves
  rw [list]
  simp only [arrivals, taken, acknowledged calm asks, asks, progress, inactive, idle, leaves, after]
  cases !x.amoValid && x.ack <;> simp [whole]

/-- A store that crosses lines leaves with its second half. -/
theorem dequeued_split (valid : s.deqValid = true) (cached : isMmio s.head.op.addr = false)
    (crosses : s.head.op.crossLine = true) : s.dequeued x = if s.secondAck x then 1 else 0 := by
  cases port : x.amoValid <;>
    simp [dequeued, deqFire, deqAck, csbStoreAck, secondAck, valid, cached, crosses, port]

theorem conserves_first (sound : s.Sound) (calm : s.Undisturbed x)
    (device : s.DeviceStep x took dev took') (holds : 0 < s.ring.count)
    (cached : isMmio s.head.op.addr = false) (crosses : s.head.op.crossLine = true)
    (inactive : s.splitActive = false) : s.Conserves x took dev took' := by
  have valid := (deqValid_iff sound).mpr holds
  obtain ⟨rest, list⟩ := ops_head holds
  have after := ops_next (x := x) sound
  obtain ⟨rfl, rfl, rfl⟩ := device.idle (by simp [deviceStore, cached])
  have leaves := dequeued_split (x := x) valid cached crosses
  have parts : s.head.op.deliveries = [.dcache s.head.op.first, .dcache s.head.op.second] := by
    simp [StoreOp.deliveries, cached, crosses]
  have asks : s.request = some s.head.op.first := by
    simp [request, splitStart, inactive, valid, cached, crosses]
  have second : s.secondAck x = false := by simp [secondAck, inactive]
  have first : s.firstAck x = (!x.amoValid && x.ack) := by
    simp [firstAck, splitStart, inactive, valid, cached, crosses]
  have half : (s.next x).splitActive = (!x.amoValid && x.ack) := by
    rw [← first]
    cases away : x.flush with
    | false => simp [next, away, second, inactive]
    | true => simp [next, away, (calm.split away).1]
  rw [list, leaves, second] at after
  unfold Conserves
  rw [list]
  simp only [arrivals, taken, acknowledged calm asks, asks, progress, inactive, half, leaves, second,
    after]
  cases !x.amoValid && x.ack <;> simp [parts]

theorem conserves_second (sound : s.Sound) (calm : s.Undisturbed x)
    (device : s.DeviceStep x took dev took') (active : s.splitActive = true) :
    s.Conserves x took dev took' := by
  obtain ⟨holds, cached, crosses, same⟩ := split_head sound active
  have valid := (deqValid_iff sound).mpr holds
  obtain ⟨rest, list⟩ := ops_head holds
  have after := ops_next (x := x) sound
  obtain ⟨rfl, rfl, rfl⟩ := device.idle (by simp [deviceStore, cached])
  have leaves := dequeued_split (x := x) valid cached crosses
  have parts : s.head.op.deliveries = [.dcache s.head.op.first, .dcache s.head.op.second] := by
    simp [StoreOp.deliveries, cached, crosses]
  have asks : s.request = some s.head.op.second := by simp [request, active, same]
  have second : s.secondAck x = (!x.amoValid && x.ack) := by simp [secondAck, active]
  have half : (s.next x).splitActive = !(!x.amoValid && x.ack) := by
    rw [← second]
    cases away : x.flush with
    | false => cases here : s.secondAck x <;> simp [next, firstAck, splitStart, away, here, active]
    | true => simp [next, away, (calm.split away).2 active]
  rw [list, leaves, second] at after
  unfold Conserves
  rw [list]
  simp only [arrivals, taken, acknowledged calm asks, asks, progress, active, half, leaves, second,
    after]
  cases !x.amoValid && x.ack <;> simp [parts]

theorem conserves (sound : s.Sound) (calm : s.Undisturbed x)
    (device : s.DeviceStep x took dev took') : s.Conserves x took dev took' := by
  by_cases holds : 0 < s.ring.count
  · cases mmio : isMmio s.head.op.addr with
    | true => exact conserves_device sound device holds mmio
    | false =>
      cases crosses : s.head.op.crossLine with
      | false => exact conserves_whole sound calm device holds mmio crosses
      | true =>
        cases active : s.splitActive with
        | false => exact conserves_first sound calm device holds mmio crosses active
        | true => exact conserves_second sound calm device active
  · exact conserves_empty sound device holds

/-- The store a device has to take is the oldest until the device answers. -/
theorem deviceStore_next {q : StoreReq} (sound : s.Sound) (asks : s.deviceStore = some q)
    (waits : x.mmioDone = false) : (s.next x).deviceStore = some q := by
  unfold deviceStore at asks
  split at asks
  · next device =>
    simp only [Bool.and_eq_true] at device
    have holds := (deqValid_iff sound).mp device.1
    obtain ⟨rest, list⟩ := ops_head holds
    have none_ : s.dequeued x = 0 := by simp [dequeued, deqFire, deqAck, device.2, waits]
    have after := ops_next (x := x) sound
    rw [list, none_, List.drop_zero] at after
    have holds' : 0 < (s.next x).ring.count := by
      by_contra empty
      rw [ops_nil empty] at after
      cases after
    obtain ⟨rest', list'⟩ := ops_head holds'
    have same : (s.next x).head.op = s.head.op := by
      rw [list'] at after
      exact (List.cons.inj after).1
    rw [deviceStore, (deqValid_iff sound.next).mpr holds', same, device.2]
    exact asks
  · cases asks

theorem ops_of_deviceStore {q : StoreReq} (sound : s.Sound) (asks : s.deviceStore = some q) :
    s.ops ≠ [] := by
  intro none_
  unfold deviceStore at asks
  split at asks
  · next device =>
    simp only [Bool.and_eq_true] at device
    obtain ⟨rest, list⟩ := ops_head ((deqValid_iff sound).mp device.1)
    rw [none_] at list
    cases list
  · cases asks

end StoreBuffer

end Rv64gc.Lsu
