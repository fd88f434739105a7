import Rv64gc.Hdl.Machine
import Rv64gc.Lsu.MmioPort
import Rv64gc.Lsu.StoresFilled

/-!
# What becomes of a store that retires

The store queue drains into the committed store buffer, and that into the data cache or a device.
The writes that arrive are those of the stores that have retired, in program order, up to what the
two still hold, unless half a line-crossing store is forgotten in a flush, a write is answered while
an uncommitted atomic holds the port, or a flush behind a full reorder buffer takes older stores.
-/

namespace Rv64gc.Lsu

open Hdl Backend

-- ---------------------------------------------------------------------
-- A store on the device port
-- ---------------------------------------------------------------------

namespace MmioPort

/-- The device has taken a store and has not been heard of by the buffer. -/
def took (p : MmioPort) : Bool := !p.request.isLoad && (p.waitResp || p.storeRespFire)

/-- The store a device takes. -/
def takes (p : MmioPort) (i : MmioIn) : Option StoreReq :=
  match p.accepted i with
  | some (.store q) => some q
  | _ => none

/-- The port is busy with one request; a store on it is the oldest of the buffer. -/
structure Serves (p : MmioPort) (oldest : Option StoreReq) : Prop where
  alone : p.storeRespFire = true →
    p.reqValid = false ∧ p.waitResp = false ∧ p.request.isLoad = false
  apart : p.reqValid = true → p.waitResp = false
  store : ∀ q, p.request = .store q → p.reqValid = true ∨ p.waitResp = true ∨ p.storeRespFire = true →
    oldest = some q

variable {p : MmioPort} {i : MmioIn} {fwd : FwdHold} {oldest : Option StoreReq}

theorem takes_eq_some {q : StoreReq} (takes : p.takes i = some q) :
    p.reqValid = true ∧ i.ready = true ∧ p.request = .store q := by
  unfold MmioPort.takes accepted at takes
  cases valid : p.reqValid <;> cases ready : i.ready <;> simp [valid, ready] at takes
  cases request : p.request with
  | load l => simp [request] at takes
  | store r =>
    simp only [request, Option.some.injEq] at takes
    exact ⟨rfl, rfl, by rw [takes]⟩

/-- While the port is in use nothing takes it. -/
theorem launch_none (busy : p.available = false) : p.launch i = none := by
  simp [launch, loadLaunch, storeLaunch, load0Launch, load1Launch, busy]

theorem launch_store {q : StoreReq} (launches : p.launch i = some (.store q)) :
    i.store = some q ∧ p.storeRespFire = false ∧ p.reqValid = false ∧ p.waitResp = false := by
  unfold launch at launches
  cases stored : p.storeLaunch i with
  | none => simp [stored] at launches
  | some r =>
    simp only [stored, Option.map_some, Option.some_or, Option.some.injEq,
      MmioReq.store.injEq] at launches
    subst launches
    unfold storeLaunch at stored
    split at stored
    next free =>
      simp only [available, Bool.and_eq_true, Bool.not_eq_true'] at free
      exact ⟨stored, free.2, free.1.1.1, free.1.1.2⟩
    next => cases stored

theorem free_of_launch {r : MmioReq} (launches : p.launch i = some r) :
    p.reqValid = false ∧ p.waitResp = false := by
  have free : p.available = true := by
    cases here : p.available with
    | true => rfl
    | false => rw [launch_none here] at launches; cases launches
  simp only [available, Bool.and_eq_true, Bool.not_eq_true'] at free
  exact free.1

/-- An answer to a store comes to a request that was taken. -/
theorem fire_next (fires : (p.next i fwd).storeRespFire = true) :
    p.waitResp = true ∧ i.resp.isSome = true ∧ p.request.isLoad = false := by
  unfold MmioPort.next answered at fires
  cases waits : p.waitResp <;> cases resp : i.resp <;> simp [waits, resp] at fires
  exact ⟨rfl, rfl, fires⟩

theorem request_next (idle : p.launch i = none) : (p.next i fwd).request = p.request := by
  simp [MmioPort.next, idle]

theorem Serves.next (serves : p.Serves oldest) (asked : i.store = oldest) {oldest' : Option StoreReq}
    (stays : ∀ q, oldest = some q → p.storeRespFire = false → oldest' = some q) :
    (p.next i fwd).Serves oldest' where
  alone fires := by
    obtain ⟨waits, answers, stored⟩ := fire_next fires
    have free : p.reqValid = false := by
      cases valid : p.reqValid with
      | false => rfl
      | true => exact absurd (serves.apart valid) (by simp [waits])
    have idle : p.launch i = none := launch_none (by simp [available, waits])
    obtain ⟨r, resp⟩ := Option.isSome_iff_exists.mp answers
    refine ⟨?_, ?_, ?_⟩
    · simp [MmioPort.next, idle, free]
    · simp [MmioPort.next, free, resp]
    · rw [request_next idle]
      exact stored
  apart valid := by
    cases launches : p.launch i with
    | some r =>
      obtain ⟨free, quiet⟩ := free_of_launch launches
      simp [MmioPort.next, free, quiet]
    | none =>
      simp only [MmioPort.next, launches, Option.isSome_none, Bool.false_or, Bool.and_eq_true,
        Bool.not_eq_true'] at valid
      simp [MmioPort.next, valid.2, serves.apart valid.1.1]
  store q stored busy := by
    cases launches : p.launch i with
    | some r =>
      simp only [MmioPort.next, launches, Option.getD_some] at stored
      subst stored
      obtain ⟨asks, quiet, -⟩ := launch_store launches
      exact stays q (asked.symm.trans asks) quiet
    | none =>
      rw [request_next launches] at stored
      have before : p.reqValid = true ∨ p.waitResp = true := by
        rcases busy with valid | waits | fires
        · simp only [MmioPort.next, launches, Option.isSome_none, Bool.false_or, Bool.and_eq_true,
            Bool.not_eq_true'] at valid
          exact .inl valid.1.1
        · simp only [MmioPort.next, Bool.or_eq_true, Bool.and_eq_true] at waits
          exact waits.symm.imp And.left And.left
        · exact .inr (fire_next fires).1
      refine stays q (serves.store q stored (before.imp_right .inl)) ?_
      cases fire : p.storeRespFire with
      | false => rfl
      | true =>
        obtain ⟨free, quiet, -⟩ := serves.alone fire
        rcases before with valid | waits
        · exact absurd valid (by simp [free])
        · exact absurd waits (by simp [quiet])

/-- The device has a store after the cycle when it has had or takes one and does not answer. -/
theorem took_next (serves : p.Serves oldest) :
    (p.next i fwd).took = (!p.storeRespFire && (p.took || (p.takes i).isSome)) := by
  have once := serves.alone
  cases launches : p.launch i with
  | some r =>
    obtain ⟨free, quiet⟩ := free_of_launch launches
    have waits : (p.next i fwd).waitResp = false := by simp [MmioPort.next, free, quiet]
    have fires : (p.next i fwd).storeRespFire = false := by
      simp [MmioPort.next, answered, quiet]
    cases fire : p.storeRespFire <;> simp [took, takes, accepted, free, quiet, waits, fires, fire]
  | none =>
    rw [took, request_next launches]
    have waits : (p.next i fwd).waitResp =
        (p.waitResp && i.resp.isNone || p.reqValid && i.ready) := by simp [MmioPort.next]
    have fires : (p.next i fwd).storeRespFire =
        (p.waitResp && i.resp.isSome && !p.request.isLoad) := by
      cases waits : p.waitResp <;> cases resp : i.resp <;>
        simp [MmioPort.next, answered, waits, resp]
    rw [waits, fires]
    cases request : p.request with
    | load l => simp [took, takes, accepted, request, MmioReq.isLoad]
    | store q =>
      cases fire : p.storeRespFire with
      | true =>
        obtain ⟨free, quiet, -⟩ := once fire
        simp [free, quiet]
      | false =>
        cases valid : p.reqValid <;> cases quiet : p.waitResp <;> cases ready : i.ready <;>
          cases resp : i.resp <;>
          simp [took, takes, accepted, request, MmioReq.isLoad, valid, quiet, ready, fire]

theorem busy_of_took (takes : p.took = true) :
    ∃ q, p.request = .store q ∧ (p.waitResp = true ∨ p.storeRespFire = true) := by
  simp only [took, Bool.and_eq_true, Bool.or_eq_true] at takes
  cases request : p.request with
  | load l => simp [request, MmioReq.isLoad] at takes
  | store q => exact ⟨q, rfl, takes.2⟩

theorem Serves.of_took (serves : p.Serves oldest) (takes : p.took = true) :
    ∃ q, oldest = some q := by
  obtain ⟨q, request, busy⟩ := busy_of_took takes
  exact ⟨q, serves.store q request (.inr busy)⟩

theorem Serves.of_takes {q : StoreReq} (serves : p.Serves oldest) (takes : p.takes i = some q) :
    oldest = some q := by
  obtain ⟨valid, -, request⟩ := takes_eq_some takes
  exact serves.store q request (.inl valid)

/-- What the buffer sees of the device. -/
theorem Serves.deviceStep {b : StoreBuffer} {x : CsbIn} (serves : p.Serves b.deviceStore)
    (heard : x.mmioDone = p.storeRespFire) :
    b.DeviceStep x p.took (p.takes i) (p.next i fwd).took where
  idle none_ := by
    have before : p.took = false := by
      rw [← Bool.not_eq_true]
      intro takes
      obtain ⟨q, some_⟩ := serves.of_took takes
      rw [none_] at some_
      cases some_
    have now : p.takes i = none := by
      cases takes : p.takes i with
      | none => rfl
      | some q =>
        have some_ := serves.of_takes takes
        rw [none_] at some_
        cases some_
    refine ⟨before, now, ?_⟩
    rw [took_next serves, before, now]
    simp
  done fires _ := by
    rw [heard] at fires
    simp [took, fires, (serves.alone fires).2.2]
  once takes := by
    obtain ⟨-, -, busy⟩ := busy_of_took takes
    have free : p.reqValid = false := by
      rcases busy with waits | fires
      · cases valid : p.reqValid with
        | false => rfl
        | true => exact absurd waits (by simp [serves.apart valid])
      · exact (serves.alone fires).1
    simp [MmioPort.takes, accepted, free]
  takes _ takes := serves.of_takes takes
  took' _ := by rw [took_next serves, heard]

end MmioPort

-- ---------------------------------------------------------------------
-- The way of the stores
-- ---------------------------------------------------------------------

structure StorePathIn where
  retires : Nat
  alloc : List (Renamed StoreOp)
  flush : Option FlushTo
  sta : Option StaFill
  std : Option StdFill
  ack : Bool
  amoValid : Bool
  amoCommitted : Bool
  device : MmioIn
  fwd : FwdHold

structure StorePath where
  program : Program StoreOp
  done : Done
  queue : StoreQueue
  buffer : StoreBuffer
  port : MmioPort
  /-- The stores that have retired, in program order. -/
  retired : List StoreOp
  /-- The writes that have arrived, in their order. -/
  delivered : List Delivery

namespace StorePath

variable (s : StorePath) (i : StorePathIn)

def reset : StorePath := ⟨⟨0, []⟩, ⟨fun _ => false, fun _ => false⟩, .reset, .reset, .reset, [], []⟩

def queueIn : SqIn where
  alloc := allocSlots s.program Renamed.isStore i.alloc
  sta := i.sta
  std := i.std
  commitCount := (s.program.insns.take i.retires).countP Renamed.isStore
  drainReady := s.buffer.enqReady
  robHead := s.program.head
  flush := flushInOf s.program i.flush

/-- `sq_drain_entry` -/
def drainEntry : Option StoreOp :=
  if s.queue.drainValid then some (s.queue.ring.slot s.queue.ring.head).op else none

def bufferIn : CsbIn where
  enq := s.drainEntry
  ack := i.ack
  amoValid := i.amoValid
  amoCommitted := i.amoCommitted
  mmioDone := s.port.storeRespFire
  flush := i.flush.isSome

def portIn : MmioIn :=
  { i.device with
    robHead := s.program.head
    store := s.buffer.deviceStore
    flush := (flushInOf s.program i.flush).map fun f => ⟨f.robTail, f.full⟩ }

def next : StorePath where
  program := s.program.next i.retires i.alloc i.flush
  done := s.done.next s.program (s.queueIn i) i.retires i.alloc i.flush
  queue := s.queue.next (s.queueIn i)
  buffer := s.buffer.next (s.bufferIn i)
  port := s.port.next (s.portIn i) i.fwd
  retired := s.retired ++ storesOf (s.program.insns.take i.retires)
  delivered := s.delivered ++ s.buffer.arrivals (s.bufferIn i) (s.port.takes (s.portIn i))

/-- What rename, the issue queues and commit keep to. -/
structure Keeps : Prop where
  program : s.program.Keeps i.retires i.alloc i.flush
  room : i.alloc.any Renamed.isStore = true → s.queue.full = false
  fills : s.queue.Fills s.program (s.queueIn i) s.done i.retires

/-- What the cycle must not do for every store to arrive once. -/
structure Undisturbed : Prop where
  apart : ∀ cut, i.flush = some (.upTo cut) → cut < robDepth
  buffer : s.buffer.Undisturbed (s.bufferIn i)

/-- The retired stores that have not drained. -/
def committedOps : List StoreOp :=
  (s.queue.ring.contents.filter SqEntry.committed).map SqEntry.op

/-- What is still to arrive. -/
def outstanding : List Delivery :=
  ((s.buffer.ops ++ s.committedOps).flatMap StoreOp.deliveries).drop
    (s.buffer.progress s.port.took)

/-- The store queue from its head on: the entries up to the commit pointer and those up to the
tail. -/
structure Pointers (q : StoreQueue) (c : Nat) : Prop where
  commit : q.commitPtr = slotAt q.ring.head c
  tail : q.ring.tail = slotAt q.ring.head q.ring.count
  order : c ≤ q.ring.count ∧ q.ring.count ≤ 32
  entries : ∀ k, k < q.ring.count →
    (q.ring.nth k).valid = true ∧ ((q.ring.nth k).committed = true ↔ k < c)
  ready : ∀ k, k < c → (q.ring.nth k).addrValid = true ∧ (q.ring.nth k).dataValid = true

/-- What has arrived and what is still to arrive are the writes of the stores that have retired, in
program order. -/
structure DeliversOnce : Prop where
  delivered : s.retired.flatMap StoreOp.deliveries = s.delivered ++ s.outstanding
  pointers : ∃ c, Pointers s.queue c

-- ---------------------------------------------------------------------
-- The invariant
-- ---------------------------------------------------------------------

/-- `finished` are the stores that have left the buffer, `pend` those that have not reached it. -/
structure Sound (finished pend : List StoreOp) : Prop where
  queue : s.queue.Sound s.program
  filled : s.queue.Filled s.program s.done pend
  buffer : s.buffer.Sound
  port : s.port.Serves s.buffer.deviceStore
  retired : s.retired = finished ++ s.buffer.ops ++ pend
  delivered : s.delivered = finished.flatMap StoreOp.deliveries ++
    (s.buffer.ops.flatMap StoreOp.deliveries).take (s.buffer.progress s.port.took)

variable {s : StorePath} {i : StorePathIn} {finished pend : List StoreOp}

theorem Sound.reset : reset.Sound [] [] where
  queue := StoreQueue.reset_sound
  filled := by
    refine ⟨StoreQueue.reset_split, fun k o here => ?_,
      fun k before => absurd before (Nat.not_lt_zero k),
      fun k _ inside => absurd inside (Nat.not_lt_zero k),
      fun k _ inside => absurd inside (Nat.not_lt_zero k)⟩
    simp [StorePath.reset, storesOf] at here
  buffer := .reset
  port := by
    refine ⟨fun fires => ?_, fun valid => ?_, fun q _ busy => ?_⟩
    · cases fires
    · cases valid
    · rcases busy with valid | waits | fires
      · cases valid
      · cases waits
      · cases fires
  retired := rfl
  delivered := rfl

theorem deliveries_ne_nil (o : StoreOp) : o.deliveries ≠ [] := by
  unfold StoreOp.deliveries
  split
  · exact List.cons_ne_nil _ _
  · split <;> exact List.cons_ne_nil _ _

/-- Only a write of the oldest store can have arrived. -/
theorem Sound.progress_le (sound : s.Sound finished pend) :
    s.buffer.progress s.port.took ≤ (s.buffer.ops.flatMap StoreOp.deliveries).length := by
  unfold StoreBuffer.progress
  split
  next some_ =>
    have holds : s.buffer.ops ≠ [] := by
      rw [Bool.or_eq_true] at some_
      rcases some_ with active | takes
      · obtain ⟨o, rest, list, -⟩ := sound.buffer.split active
        rw [list]
        exact List.cons_ne_nil _ _
      · obtain ⟨q, asks⟩ := sound.port.of_took takes
        exact StoreBuffer.ops_of_deviceStore sound.buffer asks
    obtain ⟨o, rest, list⟩ := List.exists_cons_of_ne_nil holds
    have first := List.length_pos_of_ne_nil (deliveries_ne_nil o)
    rw [list, List.flatMap_cons, List.length_append]
    omega
  next => exact Nat.zero_le _

/-- The entries that have retired are the first of the queue. -/
theorem Sound.committedOps (sound : s.Sound finished pend) : s.committedOps = pend := by
  have filled := sound.filled
  have le := filled.split.le
  have split : s.queue.ring.contents.filter SqEntry.committed =
      s.queue.ring.contents.take pend.length := by
    conv_lhs => rw [← List.take_append_drop pend.length s.queue.ring.contents, List.filter_append]
    have front : (s.queue.ring.contents.take pend.length).filter SqEntry.committed =
        s.queue.ring.contents.take pend.length := by
      rw [List.filter_eq_self]
      intro e on
      obtain ⟨k, inside, rfl⟩ := List.getElem_of_mem on
      rw [List.length_take, Fifo.length_contents] at inside
      rw [List.getElem_take, Fifo.getElem_contents]
      exact (filled.split.committed k (by omega)).mpr (by omega)
    have back : (s.queue.ring.contents.drop pend.length).filter SqEntry.committed = [] := by
      rw [List.filter_eq_nil_iff]
      intro e on
      obtain ⟨k, inside, rfl⟩ := List.getElem_of_mem on
      rw [List.length_drop, Fifo.length_contents] at inside
      rw [List.getElem_drop, Fifo.getElem_contents, filled.split.committed _ (by omega)]
      omega
    rw [front, back, List.append_nil]
  rw [StorePath.committedOps, split]
  apply List.ext_getElem
  · rw [List.length_map, List.length_take, Fifo.length_contents]
    omega
  · intro k inside inside'
    rw [List.getElem_map, List.getElem_take, Fifo.getElem_contents]
    have ready := filled.ready k inside'
    refine (filled.fits k _ ?_).op ready.1 ready.2
    rw [List.getElem?_append_left inside', List.getElem?_eq_getElem inside']

theorem Sound.deliversOnce (sound : s.Sound finished pend) : s.DeliversOnce where
  delivered := by
    have few := sound.progress_le
    rw [outstanding, sound.committedOps, sound.retired, sound.delivered, List.flatMap_append,
      List.flatMap_append, List.flatMap_append, List.append_assoc, List.append_assoc,
      List.drop_append_of_le_length few, ← List.append_assoc (List.take _ _),
      List.take_append_drop]
  pointers := by
    have queue := sound.queue
    have split := sound.filled.split
    refine ⟨pend.length, split.ptr, queue.ring.tail, ⟨split.le, queue.ring.fits⟩,
      fun k inside => ⟨?_, split.committed k inside⟩, sound.filled.ready⟩
    exact (queue.valid _).mpr (Fifo.live_slotAt queue.ring inside)

-- ---------------------------------------------------------------------
-- A cycle
-- ---------------------------------------------------------------------

theorem Keeps.queue (keeps : s.Keeps i) :
    s.queue.Keeps s.program (s.queueIn i) i.retires i.alloc where
  alloc := rfl
  commit := rfl
  robHead := rfl
  room new := keeps.room (any_of_slots new)

/-- What drains is the first store that has retired. -/
theorem Sound.drains (sound : s.Sound finished pend) (more : List StoreOp) :
    (s.buffer.enqueued (s.bufferIn i)).toList =
      (pend ++ more).take (s.queue.drained (s.queueIn i)) := by
  have le := StoreQueue.drained_le (x := s.queueIn i) sound.queue sound.filled.split
  have fire : s.queue.drainFire (s.queueIn i) = (s.queue.drainValid && s.buffer.enqReady) := rfl
  have enq : s.buffer.enqueued (s.bufferIn i) =
      if s.buffer.enqReady then s.drainEntry else none := rfl
  unfold StoreQueue.drained at le ⊢
  rw [enq, drainEntry]
  cases ready : s.buffer.enqReady with
  | false => simp [fire, ready]
  | true =>
    cases valid : s.queue.drainValid with
    | false => simp [fire, valid]
    | true =>
      simp only [fire, ready, valid, Bool.and_self, if_true] at le ⊢
      cases pend with
      | nil => simp at le
      | cons o rest =>
        have both := sound.filled.ready 0 (Nat.zero_lt_succ _)
        have fits := sound.filled.fits 0 o rfl
        rw [Fifo.nth, slotAt_zero] at both fits
        rw [fits.op both.1 both.2]
        rfl

theorem Sound.next (sound : s.Sound finished pend) (keeps : s.Keeps i) (calm : s.Undisturbed i) :
    (s.next i).Sound (finished ++ s.buffer.ops.take (s.buffer.dequeued (s.bufferIn i)))
      (s.queue.pendNext s.program (s.queueIn i) i.retires pend) where
  queue := StoreQueue.next_sound sound.queue ⟨keeps.queue, keeps.program, rfl, calm.apart⟩
  filled := sound.filled.next sound.queue ⟨keeps.queue, keeps.program, rfl, calm.apart⟩ keeps.fills
  buffer := sound.buffer.next
  port := sound.port.next rfl fun _ asks quiet =>
    StoreBuffer.deviceStore_next sound.buffer asks quiet
  retired := by
    have drains := sound.drains (i := i) (storesOf (s.program.insns.take i.retires))
    have after := StoreBuffer.ops_next (x := s.bufferIn i) sound.buffer
    show s.retired ++ storesOf _ = _ ++ (s.buffer.next (s.bufferIn i)).ops ++ _
    rw [sound.retired, after, drains, StoreQueue.pendNext]
    simp only [List.append_assoc]
    congr 1
    rw [List.take_append_drop, ← List.append_assoc (List.take _ _), List.take_append_drop]
  delivered := by
    have device : s.buffer.DeviceStep (s.bufferIn i) s.port.took (s.port.takes (s.portIn i))
        (s.port.next (s.portIn i) i.fwd).took := sound.port.deviceStep rfl
    have step : _ = _ := StoreBuffer.conserves sound.buffer calm.buffer device
    show s.delivered ++ s.buffer.arrivals _ _ = _
    rw [sound.delivered, List.append_assoc, step, List.flatMap_append, List.append_assoc]
    rfl

end StorePath

def storePaths : Machine StorePath StorePathIn := ⟨.reset, StorePath.next, StorePath.Keeps⟩

/-- In every run that keeps half-sent stores and the port to themselves, the writes of the retired
stores arrive once and in program order, no other store writes, and the pointers of the store queue
describe it. -/
theorem stores_delivered_once (s : StorePath)
    (reach : storePaths.Reach StorePath.Undisturbed s) : s.DeliversOnce := by
  have sound : ∃ finished pend, s.Sound finished pend := by
    refine reach.invariant (fun s => ∃ finished pend, s.Sound finished pend) ⟨[], [], .reset⟩ ?_
    rintro s i - ⟨finished, pend, sound⟩ keeps calm
    exact ⟨_, _, sound.next keeps calm⟩
  obtain ⟨finished, pend, sound⟩ := sound
  exact sound.deliversOnce

namespace StorePath

-- ---------------------------------------------------------------------
-- A line-crossing store
-- ---------------------------------------------------------------------

def quiet : StorePathIn where
  retires := 0
  alloc := []
  flush := none
  sta := none
  std := none
  ack := false
  amoValid := false
  amoCommitted := false
  device := ⟨0, none, none, none, none, false, none, false, false, false, fun _ => false, fun _ => none⟩
  fwd := none

/-- A store of eight bytes, four of them in the next line. -/
def crossing : StoreOp := ⟨0x8000003C, 0x1122334455667788, 0xFF, memDword⟩

def storeAndBranch : List (Renamed StoreOp) :=
  [⟨false, true, true, true, crossing⟩, ⟨false, false, false, true, ⟨0, 0, 0, 0⟩⟩]

/-- The store comes with a branch, gets its address and data, retires and drains, and its first half
arrives. -/
def halfSent : List StorePathIn :=
  [{ quiet with alloc := storeAndBranch },
    { quiet with sta := some ⟨0, 0, crossing.addr, crossing.size⟩,
                 std := some ⟨0, 0, crossing.data, crossing.byteMask⟩ },
    { quiet with retires := 1 },
    quiet,
    { quiet with ack := true }]

/-- A cycle in which no store retires or issues. -/
theorem keeps_quiet {s : StorePath} {i : StorePathIn} (program : s.program.Keeps i.retires i.alloc i.flush)
    (room : i.alloc.any Renamed.isStore = true → s.queue.full = false) (retires : i.retires = 0)
    (sta : i.sta = none) (std : i.std = none) : s.Keeps i where
  program := program
  room := room
  fills := by
    refine ⟨fun f issues => ?_, fun f issues => ?_, fun k m less => ?_⟩
    · exact absurd (sta.symm.trans issues) nofun
    · exact absurd (std.symm.trans issues) nofun
    · omega

theorem legal_halfSent : storePaths.Legal .reset halfSent := by
  refine ⟨?_, ?_, ?_, ?_, ?_, trivial⟩
  · exact keeps_quiet ⟨by decide, by decide, by decide, by decide, nofun⟩ (fun _ => by decide) rfl rfl rfl
  · refine ⟨⟨by decide, by decide, by decide, by decide, nofun⟩, fun _ => by decide, ?_, ?_,
      fun k m less => absurd less (Nat.not_lt_zero k)⟩
    · rintro f issues
      cases issues
      exact ⟨crossing, ⟨⟨_, rfl, rfl, rfl⟩, by decide, by decide, by decide⟩, rfl, rfl⟩
    · rintro f issues
      cases issues
      exact ⟨crossing, ⟨⟨_, rfl, rfl, rfl⟩, by decide, by decide, by decide⟩, rfl, rfl⟩
  · refine ⟨⟨by decide, by decide, by decide, by decide, nofun⟩, fun _ => by decide, ?_, ?_, ?_⟩
    · exact nofun
    · exact nofun
    · rintro k m less - -
      obtain rfl : k = 0 := Nat.lt_one_iff.mp less
      exact ⟨by decide, by decide⟩
  · exact keeps_quiet ⟨by decide, by decide, by decide, by decide, nofun⟩ (fun _ => by decide) rfl rfl rfl
  · exact keeps_quiet ⟨by decide, by decide, by decide, by decide, nofun⟩ (fun _ => by decide) rfl rfl rfl

/-- The run meets the condition. -/
theorem reach_halfSent : storePaths.Reach Undisturbed (storePaths.run .reset halfSent) := by
  have legal := legal_halfSent
  refine .cycle (.cycle (.cycle (.cycle (.cycle .reset legal.1 ?_) legal.2.1 ?_)
    legal.2.2.1 ?_) legal.2.2.2.1 ?_) legal.2.2.2.2.1 ?_ <;>
  exact ⟨nofun, nofun, nofun⟩

end StorePath

/-- Both halves arrive. -/
theorem stores_delivered_once_crossing : ∃ s : StorePath, s.DeliversOnce ∧
    s.delivered = StorePath.crossing.deliveries := by
  have reach := StorePath.reach_halfSent.cycle (i := { StorePath.quiet with ack := true })
    (StorePath.keeps_quiet ⟨by decide +kernel, by decide, by decide, by decide, nofun⟩ nofun rfl rfl rfl)
    ⟨nofun, nofun, nofun⟩
  exact ⟨_, stores_delivered_once _ reach, by decide +kernel⟩

/-- The branch behind the store flushes what comes after it before the second half has arrived: the
first half arrives again. -/
theorem half_store_sent_again : ∃ s : StorePath, storePaths.Reachable s ∧
    s.delivered = [.dcache StorePath.crossing.first, .dcache StorePath.crossing.first] ∧
      ¬s.DeliversOnce := by
  have reach := StorePath.reach_halfSent.reachable
  have flushed := reach.cycle (i := { StorePath.quiet with flush := some (.upTo 1) })
    (StorePath.keeps_quiet ⟨by decide +kernel, by decide, by decide, by decide, fun n cut => by
      cases cut
      decide +kernel⟩ nofun rfl rfl rfl)
  have again := flushed.cycle (i := { StorePath.quiet with ack := true })
    (StorePath.keeps_quiet ⟨by decide +kernel, by decide, by decide, by decide, nofun⟩ nofun rfl rfl rfl)
  refine ⟨_, again, by decide +kernel, fun once => absurd once.delivered (by decide +kernel)⟩

end Rv64gc.Lsu
