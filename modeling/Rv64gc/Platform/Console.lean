import Rv64gc.Platform.MmioPlatform

/-!
# What the program prints

The stores of the program on their way to the devices, up to the byte on the serial line.
-/

namespace Rv64gc.Platform

open Hdl Lsu Mmu

/-- The writes among what has arrived that go to a device. -/
def deviceStores (ds : List Delivery) : List StoreReq :=
  ds.filterMap fun d => match d with
    | .device q => some q
    | .dcache _ => none

-- ---------------------------------------------------------------------
-- The serial line
-- ---------------------------------------------------------------------

namespace Uart

variable {s : Uart} {x : UartReq}

theorem write_dlab :
    (s.write x).dlab = if x.addr.toNat = 3 then x.wdata.getLsbD 7 else s.dlab := by
  unfold write
  split
  next zero =>
    have three : ¬ x.addr.toNat = 3 := by omega
    rw [if_neg three]
    split <;> rfl
  next one =>
    have three : ¬ x.addr.toNat = 3 := by omega
    rw [if_neg three]
    split <;> rfl
  next two => rw [if_neg (by omega)]; rfl
  next three => rw [if_pos three]; rfl
  next four => rw [if_neg (by omega)]; rfl
  next seven => rw [if_neg (by omega)]; rfl
  next three _ _ => rw [if_neg three]

theorem write_sends (quiet : s.txValid = false) :
    (s.write x).sends = if x.addr.toNat = 0 ∧ s.dlab = false then [x.wdata] else [] := by
  have silent : s.sends = [] := by rw [sends, if_neg (by simp [quiet])]
  unfold write
  split
  next zero =>
    cases divisor : s.dlab with
    | true => rw [if_pos rfl, if_neg (by simp)]; exact silent
    | false => rw [if_neg Bool.false_ne_true, if_pos ⟨zero, rfl⟩]; rfl
  next one =>
    have zero : ¬ (x.addr.toNat = 0 ∧ s.dlab = false) := by omega
    rw [if_neg zero]
    split <;> exact silent
  next two => rw [if_neg (by omega)]; exact silent
  next three => rw [if_neg (by omega)]; exact silent
  next four => rw [if_neg (by omega)]; exact silent
  next seven => rw [if_neg (by omega)]; exact silent
  next zero _ _ _ _ _ => rw [if_neg fun both => zero both.1]; exact silent

end Uart

-- ---------------------------------------------------------------------
-- What the stores say
-- ---------------------------------------------------------------------

/-- What stores to the devices come to, one after the other: what has been printed, whether the next
byte is one to print, and when and what the timer interrupts. -/
structure Devices where
  printed : List (BitVec 8)
  dlab : Bool
  mtimecmp : Word
  msip : Bool
deriving DecidableEq

namespace Devices

def reset : Devices := ⟨[], false, 0xFFFFFFFFFFFFFFFF, false⟩

def store (d : Devices) (q : StoreReq) : Devices :=
  if inUart q.addr then
    if (q.addr.extractLsb' 0 3).toNat = 0 then
      if d.dlab then d else { d with printed := d.printed ++ [q.data.extractLsb' 0 8] }
    else if (q.addr.extractLsb' 0 3).toNat = 3 then { d with dlab := q.data.getLsbD 7 }
    else d
  else if inClint q.addr then
    let x : ClintReq := ⟨true, q.addr.extractLsb' 0 16, q.data, q.mask⟩
    match clintReg x.addr with
    | some .msip => { d with msip := if q.mask.getLsbD 0 then q.data.getLsbD 0 else d.msip }
    | some .mtimecmp => { d with mtimecmp := writeBytes x d.mtimecmp 8 }
    | _ => d
  else d

/-- The platform holds what the stores have come to; the last byte may still be on its way out. -/
structure Shown (d : Devices) (p : MmioPlatform) (printed : List (BitVec 8)) : Prop where
  printed : printed ++ p.uart.sends = d.printed
  dlab : p.uart.dlab = d.dlab
  mtimecmp : p.clint.mtimecmp = d.mtimecmp
  msip : p.clint.msip = d.msip

variable {d : Devices} {p : MmioPlatform} {x : Option PlatformReq} {printed : List (BitVec 8)}

/-- Nothing is taken, or a read. -/
theorem Shown.idle (shown : d.Shown p printed) (reads : ∀ y, p.fires x = some y → y.we = false) :
    d.Shown (p.next x) (printed ++ p.uart.sends) := by
  have uart : (p.next x).uart = { p.uart with txValid := false } := by
    show p.uart.next _ = _
    cases fires : p.fires x with
    | none => rfl
    | some y =>
      have quiet : y.uart.we = false := reads y fires
      cases here : inUart y.addr <;> simp [Uart.next, Option.filter_some, here, quiet]
  have clint : ∀ reg,
      Clint.writeTo (((p.fires x).filter fun y => inClint y.addr).map PlatformReq.clint) reg = none := by
    intro reg
    cases fires : p.fires x with
    | none => rfl
    | some y =>
      have quiet : y.clint.we = false := reads y fires
      cases here : inClint y.addr <;> simp [Clint.writeTo, Option.filter_some, here, quiet]
  refine ⟨?_, ?_, ?_, ?_⟩
  · rw [uart, shown.printed]
    exact List.append_nil _
  · rw [uart]
    exact shown.dlab
  · show (Clint.writeTo _ _).elim p.clint.mtimecmp _ = _
    rw [clint]
    exact shown.mtimecmp
  · show (Clint.writeTo _ _).elim p.clint.msip _ = _
    rw [clint]
    exact shown.msip

theorem inClint_of_inUart {addr : Pa} (here : inUart addr = true) : inClint addr = false := by
  simp only [inUart, Bool.and_eq_true, decide_eq_true_eq, BitVec.le_def] at here
  have low : 0x10000000 ≤ addr.toNat := here.1
  simp only [inClint, Bool.and_eq_false_iff, decide_eq_false_iff_not, BitVec.lt_def]
  right
  show ¬ addr.toNat < 0x02010000
  omega

/-- A store to the serial line. -/
theorem Shown.uart {q : StoreReq} (shown : d.Shown p printed)
    (fires : p.fires x = some (platformReq (.store q))) (here : inUart q.addr = true) :
    (d.store q).Shown (p.next x) (printed ++ p.uart.sends) := by
  have away := inClint_of_inUart here
  have clint : (p.next x).clint = p.clint.next none := by
    show p.clint.next (((p.fires x).filter _).map _) = _
    rw [fires]
    simp [Option.filter_some, platformReq, away]
  have uart : (p.next x).uart =
      Uart.write { p.uart with txValid := false } (platformReq (.store q)).uart := by
    show p.uart.next (((p.fires x).filter _).map _) = _
    rw [fires]
    simp [Uart.next, Option.filter_some, platformReq, PlatformReq.uart, here]
  have divisor : Uart.dlab { p.uart with txValid := false } = d.dlab := shown.dlab
  have dlab : (p.next x).uart.dlab =
      if (q.addr.extractLsb' 0 3).toNat = 3 then q.data.getLsbD 7 else d.dlab := by
    rw [uart, Uart.write_dlab, divisor]
    simp [platformReq, PlatformReq.uart]
  have sends : (p.next x).uart.sends =
      if (q.addr.extractLsb' 0 3).toNat = 0 ∧ d.dlab = false then [q.data.extractLsb' 0 8] else [] := by
    rw [uart, Uart.write_sends rfl, divisor]
    rfl
  have store : d.store q = ⟨d.printed ++ (p.next x).uart.sends, (p.next x).uart.dlab, d.mtimecmp,
      d.msip⟩ := by
    rw [Devices.store, if_pos here, dlab, sends]
    by_cases zero : (q.addr.extractLsb' 0 3).toNat = 0
    · have three : ¬ (q.addr.extractLsb' 0 3).toNat = 3 := by omega
      rw [if_pos zero, if_neg three]
      cases held : d.dlab with
      | true => rw [if_pos rfl, if_neg (by simp), List.append_nil, ← held]
      | false => rw [if_neg Bool.false_ne_true, if_pos ⟨zero, rfl⟩]
    · have other : ¬ ((q.addr.extractLsb' 0 3).toNat = 0 ∧ d.dlab = false) := fun both => zero both.1
      rw [if_neg zero, if_neg other, List.append_nil]
      by_cases three : (q.addr.extractLsb' 0 3).toNat = 3
      · rw [if_pos three, if_pos three]
      · rw [if_neg three, if_neg three]
  rw [store]
  refine ⟨by rw [shown.printed], rfl, ?_, ?_⟩
  · rw [clint]
    exact shown.mtimecmp
  · rw [clint]
    exact shown.msip

/-- A store anywhere else. -/
theorem Shown.other {q : StoreReq} (shown : d.Shown p printed)
    (fires : p.fires x = some (platformReq (.store q))) (away : inUart q.addr = false) :
    (d.store q).Shown (p.next x) (printed ++ p.uart.sends) := by
  have uart : (p.next x).uart = { p.uart with txValid := false } := by
    show p.uart.next (((p.fires x).filter _).map _) = _
    rw [fires]
    simp [Uart.next, Option.filter_some, platformReq, away]
  have clint : (p.next x).clint = p.clint.next (if inClint q.addr then
      some ⟨true, q.addr.extractLsb' 0 16, q.data, q.mask⟩ else none) := by
    show p.clint.next (((p.fires x).filter _).map _) = _
    rw [fires]
    cases here : inClint q.addr <;> simp [Option.filter_some, platformReq, PlatformReq.clint, here]
  have store : d.store q = ⟨d.printed, d.dlab, (p.next x).clint.mtimecmp, (p.next x).clint.msip⟩ := by
    rw [Devices.store, if_neg (by simp [away]), clint]
    cases here : inClint q.addr with
    | false => 
      have mtimecmp := shown.mtimecmp
      have msip := shown.msip
      simp [Clint.next, Clint.writeTo, mtimecmp, msip]
    | true =>
      have mtimecmp := shown.mtimecmp
      have msip := shown.msip
      rcases reg : clintReg (q.addr.extractLsb' 0 16) with _ | _ | _ | _ <;>
        simp [Clint.next, Clint.writeTo, Option.filter_some, reg, mtimecmp, msip]
  rw [store]
  refine ⟨?_, ?_, rfl, rfl⟩
  · rw [uart, shown.printed]
    exact List.append_nil _
  · rw [uart]
    exact shown.dlab

/-- A cycle of the port. -/
theorem Shown.next {port : MmioPort} {i : MmioIn} (shown : d.Shown p printed)
    (ready : i.ready = p.reqReady) :
    ((port.takes i).toList.foldl Devices.store d).Shown (p.next (portReq port))
      (printed ++ p.uart.sends) := by
  have fires : p.fires (portReq port) = (port.accepted i).map platformReq := by
    rw [MmioPort.accepted, ready]
    cases valid : port.reqValid <;> cases free : p.reqReady <;>
      simp [MmioPlatform.fires, portReq, valid, free]
  rcases taken : port.accepted i with _ | l | q
  · rw [taken] at fires
    rw [MmioPort.takes, taken]
    exact shown.idle fun y is => by cases fires.symm.trans is
  · rw [taken] at fires
    rw [MmioPort.takes, taken]
    refine shown.idle fun y is => ?_
    cases fires.symm.trans is
    rfl
  · rw [taken] at fires
    rw [MmioPort.takes, taken]
    cases here : inUart q.addr with
    | true => exact shown.uart fires here
    | false => exact shown.other fires here

end Devices

-- ---------------------------------------------------------------------
-- The core and the devices
-- ---------------------------------------------------------------------

/-- The way of the stores with the devices at its end. -/
structure SocRun where
  path : StorePath
  platform : MmioPlatform
  /-- The bytes the serial line has sent. -/
  printed : List (BitVec 8)

namespace SocRun

variable (s : SocRun) (i : StorePathIn)

def reset : SocRun := ⟨.reset, .reset, []⟩

/-- The devices answer, not the environment. -/
def pathIn : StorePathIn :=
  { i with device := { i.device with ready := s.platform.reqReady, resp := s.platform.resp } }

def next : SocRun where
  path := s.path.next (s.pathIn i)
  platform := s.platform.next (portReq s.path.port)
  printed := s.printed ++ s.platform.uart.sends

/-- What the stores that have arrived come to. -/
def devices : Devices := (deviceStores s.path.delivered).foldl Devices.store .reset

/-- The stores that have arrived are the first of those that have retired, and the devices show what
these come to. -/
structure InOrder : Prop where
  arrived : s.path.retired.flatMap StoreOp.deliveries = s.path.delivered ++ s.path.outstanding
  shown : s.devices.Shown s.platform s.printed

end SocRun

def socRuns : Machine SocRun StorePathIn :=
  ⟨.reset, SocRun.next, fun s i => s.path.Keeps (s.pathIn i)⟩

namespace SocRun

variable {s : SocRun} {i : StorePathIn}

theorem deviceStores_arrivals (b : StoreBuffer) (x : CsbIn) (dev : Option StoreReq) :
    deviceStores (b.arrivals x dev) = dev.toList := by
  cases taken : b.taken x <;> cases dev <;> simp [deviceStores, StoreBuffer.arrivals, taken]

theorem devices_next : (s.next i).devices =
    (s.path.port.takes (s.path.portIn (s.pathIn i))).toList.foldl Devices.store s.devices := by
  have arrives : (s.next i).path.delivered = s.path.delivered ++
      s.path.buffer.arrivals (s.path.bufferIn (s.pathIn i))
        (s.path.port.takes (s.path.portIn (s.pathIn i))) := rfl
  have split : deviceStores (s.next i).path.delivered = deviceStores s.path.delivered ++
      (s.path.port.takes (s.path.portIn (s.pathIn i))).toList := by
    rw [arrives, deviceStores, List.filterMap_append]
    exact congrArg _ (deviceStores_arrivals _ _ _)
  rw [devices, split, List.foldl_append]
  rfl

theorem shown_next (shown : s.devices.Shown s.platform s.printed) :
    (s.next i).devices.Shown (s.next i).platform (s.next i).printed := by
  rw [devices_next]
  exact shown.next rfl

end SocRun

namespace SocRun

/-- A store of a byte to the serial line. -/
def letter : StoreOp := ⟨uartBase, 0x48, 0x01, memByte⟩

/-- The store comes, gets its address and data, retires, drains and takes the port. -/
def letterSent : List StorePathIn :=
  [{ StorePath.quiet with alloc := [⟨false, true, true, true, letter⟩] },
    { StorePath.quiet with sta := some ⟨0, 0, letter.addr, letter.size⟩,
                           std := some ⟨0, 0, letter.data, letter.byteMask⟩ },
    { StorePath.quiet with retires := 1 },
    StorePath.quiet,
    StorePath.quiet]

theorem reach_letterSent : socRuns.Reach (fun s i => s.path.Undisturbed (s.pathIn i))
    (socRuns.run .reset letterSent) := by
  have legal : socRuns.Legal .reset letterSent := by
    refine ⟨?_, ?_, ?_, ?_, ?_, trivial⟩
    · exact StorePath.keeps_quiet ⟨by decide, by decide, by decide, by decide, nofun⟩
        (fun _ => by decide) rfl rfl rfl
    · refine ⟨⟨by decide, by decide, by decide, by decide, nofun⟩, fun _ => by decide, ?_, ?_,
        fun k m less => absurd less (Nat.not_lt_zero k)⟩
      · rintro f issues
        cases issues
        exact ⟨letter, ⟨⟨_, rfl, rfl, rfl⟩, by decide, by decide, by decide⟩, rfl, rfl⟩
      · rintro f issues
        cases issues
        exact ⟨letter, ⟨⟨_, rfl, rfl, rfl⟩, by decide, by decide, by decide⟩, rfl, rfl⟩
    · refine ⟨⟨by decide, by decide, by decide, by decide, nofun⟩, fun _ => by decide, ?_, ?_, ?_⟩
      · intro f issues
        cases issues
      · intro f issues
        cases issues
      · rintro k m less - -
        obtain rfl : k = 0 := Nat.lt_one_iff.mp less
        exact ⟨by decide, by decide⟩
    · exact StorePath.keeps_quiet ⟨by decide, by decide, by decide, by decide, nofun⟩
        (fun _ => by decide) rfl rfl rfl
    · exact StorePath.keeps_quiet ⟨by decide, by decide, by decide, by decide, nofun⟩
        (fun _ => by decide) rfl rfl rfl
  refine .cycle (.cycle (.cycle (.cycle (.cycle .reset legal.1 ?_) legal.2.1 ?_)
    legal.2.2.1 ?_) legal.2.2.2.1 ?_) legal.2.2.2.2.1 ?_ <;>
  exact ⟨nofun, nofun, nofun⟩

end SocRun

end Rv64gc.Platform
