import Rv64gc.Hdl.Bits
import Rv64gc.Hdl.Delay
import Rv64gc.Hdl.Fifo
import Rv64gc.Hdl.Machine
import Rv64gc.Cache.L2Cache

/-!
# The memory behind the L2

`sim_memory.sv`: a request is performed when it is accepted. What a read has found waits in a queue
with the cycle it is due, and nothing is accepted while the queue is full. The memory is an array of
lines with a delay line behind it.
-/

namespace Rv64gc.Cache

open Hdl

/-- A request of the L2; a write has data. -/
structure MemReq where
  addr : Addr
  wdata : Option LineData

/-- `ADDR_BITS` is `n + 6`. -/
structure SimMemory (n : Nat) where
  mem : BitVec (n + 6) → BitVec 8
  /-- `fifo_data` and `fifo_due` -/
  fifo : Fifo 6 (LineData × BitVec 64)
  cycle : BitVec 64
  respValid : Bool
  respData : LineData

namespace SimMemory

def reset (mem : BitVec (n + 6) → BitVec 8) : SimMemory n where
  mem := mem
  fifo := ⟨0, 0, 0, fun _ => (0, 0)⟩
  cycle := 0
  respValid := false
  respData := 0

variable (latency : Nat) (s : SimMemory n) (req : Option MemReq)

/-- `mem_req_ready` -/
def ready : Bool := decide (s.fifo.count < 64)

def accepted : Option MemReq := req.filter fun _ => s.ready

/-- `mem_line_addr` -/
def lineAddr (a : Addr) : BitVec (n + 6) := a.setWidth (n + 6) &&& (BitVec.allOnes n ++ 0#6)

/-- `rd_line` -/
def rdLine (base : BitVec (n + 6)) : LineData :=
  tabulate fun k : Fin 512 => (s.mem (base + BitVec.ofNat _ (k / 8))).getLsbD (k % 8)

/-- `accept_read`, with the line. -/
def acceptRead : Option LineData :=
  (s.accepted req).bind fun r => if r.wdata.isSome then none else some (s.rdLine (lineAddr r.addr))

def popHead : Bool :=
  s.fifo.count != 0 && decide ((s.fifo.slot s.fifo.head).2 ≤ s.cycle + 1)

/-- With a latency of one the queue is not used. -/
def popThru : Bool := s.fifo.count == 0 && (s.acceptRead req).isSome && latency == 1

def popData : LineData :=
  if s.popHead then (s.fifo.slot s.fifo.head).1 else (s.acceptRead req).getD 0

/-- `push`, with the entry. -/
def push : List (LineData × BitVec 64) :=
  if s.popThru latency req then []
  else ((s.acceptRead req).map fun line => (line, s.cycle + BitVec.ofNat 64 latency)).toList

/-- The bytes of an accepted write. -/
def memNext : BitVec (n + 6) → BitVec 8 :=
  match s.accepted req with
  | some ⟨a, some data⟩ => fun b =>
    let i := (b - lineAddr a).toNat
    if i < 64 then data.extractLsb' (i * 8) 8 else s.mem b
  | _ => s.mem

def next : SimMemory n where
  mem := s.memNext req
  fifo := s.fifo.turn (if s.popHead then 1 else 0) (s.push latency req).length fun i =>
    ((s.push latency req)[offset s.fifo.tail i]?).getD (s.fifo.slot i)
  cycle := s.cycle + 1
  respValid := s.popHead || s.popThru latency req
  respData := if s.popHead || s.popThru latency req then s.popData req else s.respData

/-- `mem_resp_valid` and `mem_resp_data` -/
def resp : Option LineData := if s.respValid then some s.respData else none

/-- The line with index `l`. -/
def line (l : BitVec n) : LineData := s.rdLine (l ++ 0#6)

end SimMemory

def simMemoryRuns (latency : Nat) (mem : BitVec (n + 6) → BitVec 8) :
    Machine (SimMemory n) (Option MemReq) where
  reset := .reset mem
  next s req := s.next latency req
  legal _ _ := True

-- ---------------------------------------------------------------------
-- What it is for
-- ---------------------------------------------------------------------

def lineIdx (a : Addr) : BitVec n := a.extractLsb' 6 n

/-- An array of lines, and what was read in the cycles before, the last first. -/
structure DelayedMemory (n : Nat) where
  lines : BitVec n → LineData
  reads : List (Option LineData)

namespace DelayedMemory

variable (latency : Nat) (a : DelayedMemory n) (req : Option MemReq)

/-- Fewer than 64 reads are not answered. -/
def ready : Bool := decide ((Delay.waiting latency a.reads).length < 64)

def accepted : Option MemReq := req.filter fun _ => a.ready latency

def read : Option LineData :=
  (a.accepted latency req).bind fun r => if r.wdata.isSome then none else some (a.lines (lineIdx r.addr))

def linesNext (l : BitVec n) : LineData :=
  match a.accepted latency req with
  | some ⟨x, some data⟩ => if l = lineIdx x then data else a.lines l
  | _ => a.lines l

def next : DelayedMemory n := ⟨a.linesNext latency req, a.read latency req :: a.reads⟩

/-- What was read `latency` cycles ago. -/
def answer : Option LineData := Delay.out latency a.reads

end DelayedMemory

def delayedRuns (latency : Nat) (lines : BitVec n → LineData) :
    Machine (DelayedMemory n) (Option MemReq) where
  reset := ⟨lines, []⟩
  next a req := a.next latency req
  legal _ _ := True

/-- The queue is what waits in the delay line. -/
structure Delays (latency : Nat) (s : SimMemory n) (a : DelayedMemory n) : Prop where
  lines : ∀ l, s.line l = a.lines l
  sound : s.fifo.Sound
  queue : s.fifo.contents = (Delay.waiting latency a.reads).map fun e => (e.1, BitVec.ofNat 64 e.2)
  cycle : s.cycle = BitVec.ofNat 64 a.reads.length
  resp : s.resp = a.answer latency

-- ---------------------------------------------------------------------
-- Lines of bytes
-- ---------------------------------------------------------------------

namespace SimMemory

variable {latency : Nat} {s : SimMemory n} {req : Option MemReq}

theorem lineAddr_eq (a : Addr) : lineAddr a = (lineIdx a : BitVec n) ++ 0#6 := by
  refine BitVec.eq_of_getLsbD_eq fun k inside => ?_
  unfold lineAddr lineIdx
  rw [BitVec.getLsbD_and, BitVec.getLsbD_append, BitVec.getLsbD_append]
  by_cases low : k < 6
  · simp [low]
  · have place : 6 + (k - 6) = k := by omega
    have narrow : k - 6 < n := by omega
    simp [low, place, narrow, inside]

theorem toNat_line (l : BitVec n) (i : Nat) (byte : i < 64) :
    (l ++ 0#6 + BitVec.ofNat (n + 6) i).toNat = 64 * l.toNat + i := by
  have small := l.isLt
  have width : 2 ^ (n + 6) = 64 * 2 ^ n := by rw [Nat.pow_add]; omega
  rw [BitVec.toNat_add, BitVec.toNat_ofNat, BitVec.toNat_append, width]
  have base : l.toNat <<< 6 ||| (0#6).toNat = 64 * l.toNat := by
    rw [BitVec.toNat_zero, Nat.or_zero, Nat.shiftLeft_eq, Nat.mul_comm]
  rw [base, Nat.mod_eq_of_lt (show i < 64 * 2 ^ n by omega), Nat.mod_eq_of_lt (by omega)]

/-- How far a byte of one line is behind the first byte of another. -/
theorem byte_of_line (l m : BitVec n) (i : Nat) (byte : i < 64) :
    (l ++ 0#6 + BitVec.ofNat (n + 6) i - (m ++ 0#6)).toNat < 64 ↔ l = m := by
  have small := l.isLt
  have small' := m.isLt
  have width : 2 ^ (n + 6) = 64 * 2 ^ n := by rw [Nat.pow_add]; omega
  have base : (m ++ 0#6).toNat = 64 * m.toNat := by
    have zero := toNat_line m 0 (by decide)
    simpa using zero
  rw [BitVec.toNat_sub, toNat_line l i byte, base, width]
  constructor
  · intro near
    apply BitVec.eq_of_toNat_eq
    rcases Nat.lt_trichotomy l.toNat m.toNat with before | same | behind
    · rw [Nat.mod_eq_of_lt (by omega)] at near
      omega
    · exact same
    · rw [show 64 * 2 ^ n - 64 * m.toNat + (64 * l.toNat + i) =
          64 * (l.toNat - m.toNat) + i + 64 * 2 ^ n by omega, Nat.add_mod_right,
        Nat.mod_eq_of_lt (by omega)] at near
      omega
  · rintro rfl
    rw [show 64 * 2 ^ n - 64 * l.toNat + (64 * l.toNat + i) = i + 64 * 2 ^ n by omega,
      Nat.add_mod_right, Nat.mod_eq_of_lt (by omega)]
    exact byte

theorem memNext_write (accepted : s.accepted req = some ⟨a, some data⟩) (b : BitVec (n + 6)) :
    s.memNext req b = if (b - lineAddr a).toNat < 64 then
      data.extractLsb' ((b - lineAddr a).toNat * 8) 8 else s.mem b := by
  unfold memNext
  rw [accepted]

theorem memNext_other (other : ∀ a data, s.accepted req ≠ some ⟨a, some data⟩) :
    s.memNext req = s.mem := by
  unfold memNext
  split
  next a data accepted => exact absurd accepted (other a data)
  next => rfl

/-- A write changes its line. -/
theorem line_next (s : SimMemory n) (latency : Nat) (req : Option MemReq) (l : BitVec n) :
    (s.next latency req).line l = match s.accepted req with
      | some ⟨a, some data⟩ => if l = lineIdx a then data else s.line l
      | _ => s.line l := by
  have bytes : (s.next latency req).line l = tabulate fun k : Fin 512 =>
      (s.memNext req (l ++ 0#6 + BitVec.ofNat _ (k / 8))).getLsbD (k % 8) := rfl
  rw [bytes]
  split
  next a data accepted =>
    by_cases same : l = lineIdx a
    · rw [if_pos same]
      refine BitVec.eq_of_getLsbD_eq fun k inside => ?_
      have near : (l ++ 0#6 + BitVec.ofNat (n + 6) (k / 8) - lineAddr a).toNat = k / 8 := by
        have width : 2 ^ (n + 6) = 64 * 2 ^ n := by rw [Nat.pow_add]; omega
        have some_ := Nat.two_pow_pos n
        rw [lineAddr_eq, ← same, BitVec.add_comm, BitVec.add_sub_cancel, BitVec.toNat_ofNat,
          Nat.mod_eq_of_lt (by omega)]
      rw [getLsbD_tabulate _ ⟨k, inside⟩, memNext_write accepted, near, if_pos (by omega),
        BitVec.getLsbD_extractLsb', Nat.div_add_mod', decide_eq_true (Nat.mod_lt k (by decide)),
        Bool.true_and]
    · rw [if_neg same, line, rdLine]
      congr 1
      funext k
      have far : ¬(l ++ 0#6 + BitVec.ofNat (n + 6) (k / 8) - lineAddr a).toNat < 64 := by
        rw [lineAddr_eq, byte_of_line l _ _ (by omega)]
        exact same
      rw [memNext_write accepted, if_neg far]
  next other =>
    rw [memNext_other other]
    rfl

-- ---------------------------------------------------------------------
-- The queue
-- ---------------------------------------------------------------------

theorem head_contents (f : Fifo w α) :
    f.contents.head? = if f.count = 0 then none else some (f.slot f.head) := by
  unfold Fifo.contents
  split
  next empty => rw [empty]; rfl
  next filled =>
    obtain ⟨m, count⟩ := Nat.exists_eq_succ_of_ne_zero filled
    rw [count, List.range_succ_eq_map]
    simp [Fifo.nth]

theorem count_of_popHead (pop : s.popHead = true) : s.fifo.count ≠ 0 := by
  simp only [popHead, Bool.and_eq_true, bne_iff_ne] at pop
  exact pop.1

/-- What is pushed has room. -/
theorem push_room (s : SimMemory n) (latency : Nat) (req : Option MemReq)
    (fits : s.fifo.count ≤ 64) : s.fifo.count + (s.push latency req).length ≤ 64 := by
  unfold push
  split
  · exact fits
  · cases read : s.acceptRead req with
    | none => exact fits
    | some line =>
      obtain ⟨r, accepted, -⟩ := Option.bind_eq_some_iff.mp read
      have ready := (Option.filter_eq_some_iff.mp accepted).2
      have free : s.fifo.count < 64 := of_decide_eq_true ready
      simp only [Option.map_some, Option.toList_some, List.length_singleton]
      omega

theorem sound_next (sound : s.fifo.Sound) : (s.next latency req).fifo.Sound := by
  refine Fifo.turn_sound sound (push_room s latency req sound.fits) ?_
  cases pop : s.popHead with
  | false => exact Nat.zero_le _
  | true => exact Nat.one_le_iff_ne_zero.mpr (count_of_popHead pop)

theorem contents_next (sound : s.fifo.Sound) : (s.next latency req).fifo.contents =
    s.fifo.contents.drop (if s.popHead then 1 else 0) ++ s.push latency req := by
  refine Fifo.push_contents sound ?_ _ (push_room s latency req sound.fits)
  cases pop : s.popHead with
  | false => exact Nat.zero_le _
  | true => exact Nat.one_le_iff_ne_zero.mpr (count_of_popHead pop)

theorem popThru_of_popHead (pop : s.popHead = true) : s.popThru latency req = false := by
  simp [popThru, count_of_popHead pop]

/-- What is pushed or goes through is what is read. -/
theorem push_lines (thru : s.popThru latency req = false) :
    (s.push latency req).map Prod.fst = (s.acceptRead req).toList := by
  unfold push
  rw [thru]
  cases s.acceptRead req <;> rfl

/-- Reads leave in the order they come in. -/
theorem outstanding_next (latency : Nat) (req : Option MemReq) (sound : s.fifo.Sound) :
    (s.next latency req).resp.toList ++ (s.next latency req).fifo.contents.map Prod.fst =
      s.fifo.contents.map Prod.fst ++ (s.acceptRead req).toList := by
  rw [contents_next sound, List.map_append]
  cases pop : s.popHead with
  | true =>
    have thru : s.popThru latency req = false := popThru_of_popHead pop
    have resp : (s.next latency req).resp = some (s.fifo.slot s.fifo.head).1 := by
      simp [SimMemory.resp, next, pop, popData]
    have head := head_contents s.fifo
    rw [if_neg (count_of_popHead pop)] at head
    obtain ⟨rest, contents⟩ := List.head?_eq_some_iff.mp head
    rw [resp, push_lines thru, contents]
    rfl
  | false =>
    cases thru : s.popThru latency req with
    | false =>
      have resp : (s.next latency req).resp = none := by
        simp [SimMemory.resp, next, pop, thru]
      rw [resp, push_lines thru]
      rfl
    | true =>
      have resp : (s.next latency req).resp = some ((s.acceptRead req).getD 0) := by
        simp [SimMemory.resp, next, pop, thru, popData]
      have push : s.push latency req = [] := if_pos thru
      simp only [popThru, Bool.and_eq_true, beq_iff_eq] at thru
      obtain ⟨⟨empty, taken⟩, -⟩ := thru
      obtain ⟨line, read⟩ := Option.isSome_iff_exists.mp taken
      have contents : s.fifo.contents = [] := by
        rw [← List.length_eq_zero_iff, Fifo.length_contents, empty]
      rw [resp, push, contents, read]
      rfl

end SimMemory

-- ---------------------------------------------------------------------
-- The delay
-- ---------------------------------------------------------------------

namespace Delays

open SimMemory

variable {latency : Nat} {s : SimMemory n} {a : DelayedMemory n} {req : Option MemReq}

theorem ready (delays : Delays latency s a) : s.ready = a.ready latency := by
  have length := congrArg List.length delays.queue
  rw [Fifo.length_contents, List.length_map] at length
  rw [SimMemory.ready, DelayedMemory.ready, length]

theorem accepted (delays : Delays latency s a) (req : Option MemReq) :
    s.accepted req = a.accepted latency req := by
  rw [SimMemory.accepted, DelayedMemory.accepted, delays.ready]

theorem read (delays : Delays latency s a) (req : Option MemReq) :
    s.acceptRead req = a.read latency req := by
  unfold acceptRead DelayedMemory.read
  rw [delays.accepted req]
  congr 1
  funext r
  rw [lineAddr_eq, ← delays.lines]
  rfl

theorem head_eq (delays : Delays latency s a)
    (queue : (Delay.waiting latency a.reads).head? = some e) :
    s.fifo.count ≠ 0 ∧ s.fifo.slot s.fifo.head = (e.1, BitVec.ofNat 64 e.2) := by
  have head := congrArg List.head? delays.queue
  rw [head_contents, List.head?_map, queue] at head
  split at head
  next => cases head
  next filled => exact ⟨filled, Option.some.inj head⟩

/-- The head is taken in the cycle before it is due. -/
theorem popHead_eq (delays : Delays latency s a) (small : a.reads.length + latency < 2 ^ 64) :
    s.popHead = (Delay.waiting latency a.reads).head?.any fun e => e.2 = a.reads.length + 1 := by
  cases queue : (Delay.waiting latency a.reads).head? with
  | none =>
    have count := congrArg List.length delays.queue
    rw [Fifo.length_contents, List.head?_eq_none_iff.mp queue] at count
    have empty : s.fifo.count = 0 := count
    simp [popHead, empty]
  | some e =>
    obtain ⟨filled, entry⟩ := delays.head_eq queue
    have on := List.mem_of_mem_head? queue
    have after := Delay.lt_of_mem_waiting on
    have before := Delay.due_lt on
    have due : (BitVec.ofNat 64 e.2).toNat = e.2 := by
      rw [BitVec.toNat_ofNat, Nat.mod_eq_of_lt (by omega)]
    have now : (s.cycle + 1).toNat = a.reads.length + 1 := by
      rw [delays.cycle, BitVec.toNat_add, BitVec.toNat_ofNat, show (1 : BitVec 64).toNat = 1 from rfl,
        Nat.mod_eq_of_lt (show a.reads.length < 2 ^ 64 by omega), Nat.mod_eq_of_lt (by omega)]
    unfold popHead
    rw [entry, Bool.eq_iff_iff]
    simp only [Option.any_some, Bool.and_eq_true, bne_iff_ne, ne_eq, filled, not_false_eq_true,
      true_and, decide_eq_true_eq, BitVec.le_def, due, now]
    omega

/-- With a latency of one a read is answered in the next cycle. -/
theorem push_one (delays : Delays 1 s a) (req : Option MemReq) :
    s.popThru 1 req = (s.acceptRead req).isSome ∧ s.push 1 req = [] := by
  have count := congrArg List.length delays.queue
  rw [Fifo.length_contents, Delay.waiting_one] at count
  have empty : s.fifo.count = 0 := count
  have thru : s.popThru 1 req = (s.acceptRead req).isSome := by simp [popThru, empty]
  refine ⟨thru, ?_⟩
  unfold push
  rw [thru]
  cases s.acceptRead req <;> rfl

theorem popThru_long (s : SimMemory n) (req : Option MemReq) (long : 1 < latency) :
    s.popThru latency req = false := by
  simp [popThru, show latency ≠ 1 by omega]

theorem push_long (delays : Delays latency s a) (req : Option MemReq) (long : 1 < latency) :
    s.push latency req = ((a.read latency req).map fun line =>
      (line, a.reads.length + latency)).toList.map fun e => (e.1, BitVec.ofNat 64 e.2) := by
  unfold push
  rw [popThru_long s req long, delays.cycle, ← BitVec.ofNat_add, delays.read]
  cases a.read latency req <;> rfl

theorem queue_next (delays : Delays latency s a) (positive : 1 ≤ latency)
    (small : a.reads.length + latency < 2 ^ 64) : (s.next latency req).fifo.contents =
      (Delay.waiting latency (a.next latency req).reads).map fun e => (e.1, BitVec.ofNat 64 e.2) := by
  rw [contents_next delays.sound, delays.queue, delays.popHead_eq small]
  show _ = (Delay.waiting latency (a.read latency req :: a.reads)).map _
  rcases Nat.eq_or_lt_of_le positive with rfl | long
  · rw [Delay.waiting_one, Delay.waiting_one, (delays.push_one req).2]
    rfl
  · rw [Delay.waiting_cons _ long, List.map_append, List.map_drop, delays.push_long req long]

theorem resp_next (delays : Delays latency s a) (positive : 1 ≤ latency)
    (small : a.reads.length + latency < 2 ^ 64) :
    (s.next latency req).resp = (a.next latency req).answer latency := by
  have pop := delays.popHead_eq small
  show _ = Delay.out latency (a.read latency req :: a.reads)
  rcases Nat.eq_or_lt_of_le positive with rfl | long
  · rw [Delay.waiting_one] at pop
    have idle : s.popHead = false := pop
    have thru := (delays.push_one req).1
    have here : Delay.out 1 (a.read 1 req :: a.reads) = a.read 1 req := rfl
    rw [here, ← delays.read]
    cases read : s.acceptRead req <;>
      simp [SimMemory.resp, SimMemory.next, idle, thru, popData, read]
  · rw [Delay.out_cons _ long]
    have thru := popThru_long s req long
    cases queue : (Delay.waiting latency a.reads).head? with
    | none =>
      rw [queue] at pop
      have idle : s.popHead = false := pop
      simp [SimMemory.resp, SimMemory.next, idle, thru]
    | some e =>
      obtain ⟨line, due⟩ := e
      obtain ⟨-, entry⟩ := delays.head_eq queue
      rw [queue] at pop
      by_cases here : due = a.reads.length + 1
      · have now : s.popHead = true := by simpa [here] using pop
        simp [SimMemory.resp, SimMemory.next, now, popData, entry, here]
      · have idle : s.popHead = false := by simpa [here] using pop
        simp [SimMemory.resp, SimMemory.next, idle, thru, here]

theorem next (delays : Delays latency s a) (positive : 1 ≤ latency)
    (small : a.reads.length + latency < 2 ^ 64) :
    Delays latency (s.next latency req) (a.next latency req) where
  lines l := by
    rw [line_next, delays.accepted]
    show _ = a.linesNext latency req l
    unfold DelayedMemory.linesNext
    split
    next => rw [delays.lines]
    next => exact delays.lines l
  sound := sound_next delays.sound
  cycle := by
    show s.cycle + 1 = BitVec.ofNat 64 (a.reads.length + 1)
    rw [delays.cycle, BitVec.ofNat_add]
    rfl
  queue := delays.queue_next positive small
  resp := delays.resp_next positive small

theorem reset (latency : Nat) (mem : BitVec (n + 6) → BitVec 8) :
    Delays latency (.reset mem) ⟨(SimMemory.reset mem).line, []⟩ where
  lines _ := rfl
  sound := ⟨Nat.zero_le _, rfl⟩
  queue := rfl
  cycle := rfl
  resp := rfl

end Delays

/-- Until the count of cycles wraps around, the memory accepts what the array of lines accepts,
answers each read exactly `latency` cycles later with what the line held when it was accepted, and
answers nothing else. -/
theorem sim_memory_delays (latency : Nat) (positive : 1 ≤ latency)
    (mem : BitVec (n + 6) → BitVec 8) (reqs : List (Option MemReq))
    (short : reqs.length + latency ≤ 2 ^ 64) :
    let s := (simMemoryRuns latency mem).run (.reset mem) reqs
    let a := (delayedRuns latency (SimMemory.reset mem).line).run ⟨(SimMemory.reset mem).line, []⟩ reqs
    s.ready = a.ready latency ∧ s.resp = a.answer latency ∧ ∀ l, s.line l = a.lines l := by
  have run (reqs : List (Option MemReq)) : ∀ s a, Delays latency s a →
      a.reads.length + reqs.length + latency ≤ 2 ^ 64 →
      Delays latency ((simMemoryRuns latency mem).run s reqs)
        ((delayedRuns latency (SimMemory.reset mem).line).run a reqs) := by
    induction reqs with
    | nil => exact fun s a delays _ => delays
    | cons req rest ih =>
      intro s a delays short
      rw [List.length_cons] at short
      refine ih _ _ (delays.next positive (by omega)) ?_
      show a.reads.length + 1 + rest.length + latency ≤ 2 ^ 64
      omega
  have delays := run reqs _ _ (.reset latency mem) (by
    show 0 + reqs.length + latency ≤ 2 ^ 64
    omega)
  exact ⟨delays.ready, delays.resp, delays.lines⟩

/-- The line comes three cycles after its read. -/
theorem sim_memory_delays_three :
    ((simMemoryRuns 3 fun _ : BitVec (0 + 6) => 7#8).run (.reset fun _ => 7#8)
      [some ⟨0, none⟩, none, none]).resp = some ((SimMemory.reset fun _ => 7#8).line (0 : BitVec 0)) := by
  refine (sim_memory_delays 3 (by decide) (fun _ : BitVec (0 + 6) => 7#8)
    [some ⟨0, none⟩, none, none] (by decide)).2.1.trans ?_
  rfl

end Rv64gc.Cache
