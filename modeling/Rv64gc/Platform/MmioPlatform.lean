import Rv64gc.Lsu.StoreDelivery
import Rv64gc.Platform.Clint

/-!
# The devices

`mmio_platform.sv` and `uart_16550.sv`: a serial line and the timer behind the port of the core. The
port is answered in the cycle after it asks, and what is printed is what the program stored to the
serial line.
-/

namespace Rv64gc.Platform

open Hdl Lsu Mmu

-- ---------------------------------------------------------------------
-- The serial line
-- ---------------------------------------------------------------------

structure UartReq where
  we : Bool
  addr : BitVec 3
  wdata : BitVec 8
deriving DecidableEq

structure Uart where
  ier : BitVec 8
  lcr : BitVec 8
  mcr : BitVec 8
  scr : BitVec 8
  dll : BitVec 8
  dlm : BitVec 8
  fcr : BitVec 8
  txValid : Bool
  txData : BitVec 8
deriving DecidableEq

namespace Uart

def reset : Uart := ⟨0, 0, 0, 0, 1, 0, 0, false, 0⟩

variable (s : Uart)

/-- `dlab_w`: the divisor is in the place of the first two registers. -/
def dlab : Bool := s.lcr.getLsbD 7

abbrev lsr : BitVec 8 := 0x60
abbrev msr : BitVec 8 := 0x00
abbrev iir : BitVec 8 := 0x01

/-- `resp_rdata_o` -/
def respRdata (x : UartReq) : BitVec 8 :=
  if x.we then 0
  else match x.addr.toNat with
    | 0 => if s.dlab then s.dll else 0
    | 1 => if s.dlab then s.dlm else s.ier
    | 2 => iir
    | 3 => s.lcr
    | 4 => s.mcr
    | 5 => lsr
    | 6 => msr
    | _ => s.scr

def write (x : UartReq) : Uart :=
  match x.addr.toNat with
  | 0 => if s.dlab then { s with dll := x.wdata } else { s with txValid := true, txData := x.wdata }
  | 1 => if s.dlab then { s with dlm := x.wdata } else { s with ier := x.wdata }
  | 2 => { s with fcr := x.wdata }
  | 3 => { s with lcr := x.wdata }
  | 4 => { s with mcr := x.wdata }
  | 7 => { s with scr := x.wdata }
  | _ => s

def next (x : Option UartReq) : Uart :=
  (x.filter UartReq.we).elim { s with txValid := false } fun x => write { s with txValid := false } x

/-- The byte it sends in this cycle. -/
def sends : List (BitVec 8) := if s.txValid then [s.txData] else []

end Uart

-- ---------------------------------------------------------------------
-- The platform
-- ---------------------------------------------------------------------

/-- A request; its size is not looked at. -/
structure PlatformReq where
  we : Bool
  addr : Pa
  wdata : Word
  wmask : BitVec 8
deriving DecidableEq

/-- `in_uart_w` -/
def inUart (addr : Pa) : Bool := decide (uartBase ≤ addr) && decide (addr < uartBase + uartSize)

/-- `in_clint_w` -/
def inClint (addr : Pa) : Bool := decide (clintBase ≤ addr) && decide (addr < clintBase + clintSize)

def PlatformReq.uart (x : PlatformReq) : UartReq :=
  ⟨x.we, x.addr.extractLsb' 0 3, x.wdata.extractLsb' 0 8⟩

def PlatformReq.clint (x : PlatformReq) : ClintReq :=
  ⟨x.we, x.addr.extractLsb' 0 16, x.wdata, x.wmask⟩

/-- `CLINT_MTIME_DIV_P` -/
abbrev clintMtimeDiv : Nat := 100

structure MmioPlatform where
  respValid : Bool
  respData : Word
  uart : Uart
  clint : Clint clintMtimeDiv

namespace MmioPlatform

def reset : MmioPlatform := ⟨false, 0, .reset, .reset⟩

variable (s : MmioPlatform) (x : Option PlatformReq)

def reqReady : Bool := !s.respValid

/-- The request it takes. -/
def fires : Option PlatformReq := if s.reqReady then x else none

/-- What the device has for a request. -/
def reads (x : PlatformReq) : Word :=
  if inUart x.addr then (s.uart.respRdata x.uart).setWidth 64
  else if inClint x.addr then s.clint.respRdata x.clint
  else 0

def next : MmioPlatform where
  respValid := (s.fires x).isSome
  respData := (s.fires x).elim s.respData s.reads
  uart := s.uart.next (((s.fires x).filter fun x => inUart x.addr).map PlatformReq.uart)
  clint := s.clint.next (((s.fires x).filter fun x => inClint x.addr).map PlatformReq.clint)

/-- `resp_data_o`, when `resp_valid_o` -/
def resp : Option Word := if s.respValid then some s.respData else none

end MmioPlatform

/-- `data_mmio_req_we`, `data_mmio_req_addr`, `data_mmio_req_wdata` and `data_mmio_req_wmask` -/
def platformReq : MmioReq → PlatformReq
  | .load l => ⟨false, l.addr, 0, 0⟩
  | .store q => ⟨true, q.addr, q.data, q.mask⟩

/-- What the core asks for. -/
def portReq (p : MmioPort) : Option PlatformReq :=
  if p.reqValid then some (platformReq p.request) else none

-- ---------------------------------------------------------------------
-- The port and the platform
-- ---------------------------------------------------------------------

/-- The port with the devices behind it. -/
structure PortRun where
  port : MmioPort
  platform : MmioPlatform

namespace PortRun

variable (s : PortRun) (i : MmioIn)

def reset : PortRun := ⟨.reset, .reset⟩

/-- What the port sees of the platform. -/
def portIn : MmioIn := { i with ready := s.platform.reqReady, resp := s.platform.resp }

def next (fwd : FwdHold) : PortRun where
  port := s.port.next (s.portIn i) fwd
  platform := s.platform.next (portReq s.port)

end PortRun

/-- The rest of the core asks for what it wants, and flushes when it wants. -/
def portRuns : Machine PortRun (MmioIn × FwdHold) :=
  ⟨.reset, fun s x => s.next x.1 x.2, fun _ _ => True⟩

namespace PortRun

variable {s : PortRun} {i : MmioIn} {fwd : FwdHold}

/-- The platform answers when the port waits, and the port waits for what it asked. -/
structure Lockstep (s : PortRun) : Prop where
  answers : s.platform.respValid = s.port.waitResp
  apart : s.port.reqValid = true → s.port.waitResp = false

theorem waits_next : (s.port.next (s.portIn i) fwd).waitResp =
    (s.port.waitResp && !s.platform.respValid || s.port.reqValid && !s.platform.respValid) := by
  show (_ && (s.platform.resp).isNone || _) = _
  cases valid : s.platform.respValid <;> simp [portIn, MmioPlatform.resp, MmioPlatform.reqReady, valid]

theorem Lockstep.next (lock : s.Lockstep) : (s.next i fwd).Lockstep where
  answers := by
    have apart := lock.apart
    have same := lock.answers
    show (s.platform.fires (portReq s.port)).isSome = (s.port.next (s.portIn i) fwd).waitResp
    rw [waits_next, same, Bool.and_not_self, Bool.false_or]
    cases valid : s.port.reqValid <;> cases waits : s.port.waitResp <;>
      simp [MmioPlatform.fires, MmioPlatform.reqReady, portReq, valid, same, waits]
  apart valid := by
    show (s.port.next (s.portIn i) fwd).waitResp = false
    rw [waits_next, lock.answers, Bool.and_not_self, Bool.false_or]
    cases launches : s.port.launch (s.portIn i) with
    | some r => rw [(MmioPort.free_of_launch launches).1, Bool.false_and]
    | none =>
      have stays : s.port.reqValid = true ∧ (s.portIn i).ready = false := by
        have valid : (s.port.next (s.portIn i) fwd).reqValid = true := valid
        simp only [MmioPort.next, launches, Option.isSome_none, Bool.false_or, Bool.and_eq_true,
          Bool.not_eq_true'] at valid
        exact ⟨valid.1.1, valid.2⟩
      have ready : s.platform.respValid = true := by simpa [portIn, MmioPlatform.reqReady] using stays.2
      rw [← lock.answers, ready, Bool.not_true, Bool.and_false]

theorem lockstep_of_reachable (reach : portRuns.Reachable s) : s.Lockstep :=
  reach.invariant Lockstep ⟨rfl, fun valid => by cases valid⟩ fun _ _ _ lock _ _ => lock.next

/-- A request is taken in the cycle in which it comes to the port. -/
theorem Lockstep.accepted (lock : s.Lockstep) : s.port.accepted (s.portIn i) =
    if s.port.reqValid then some s.port.request else none := by
  cases valid : s.port.reqValid with
  | false => simp [MmioPort.accepted, valid]
  | true =>
    have free : s.platform.respValid = false := lock.answers.trans (lock.apart valid)
    simp [MmioPort.accepted, portIn, MmioPlatform.reqReady, valid, free]

end PortRun

/-- However the core issues, stores and flushes, the request on the port is taken at once, and what
the port is answered in the next cycle is that request and no other, with what its register held in
the cycle in which it was taken. -/
theorem device_answers_next_cycle {s : PortRun} (reach : portRuns.Reachable s) (i : MmioIn)
    (fwd : FwdHold) (i' : MmioIn) :
    s.port.accepted (s.portIn i) = (if s.port.reqValid then some s.port.request else none) ∧
      (s.next i fwd).port.answered ((s.next i fwd).portIn i') =
        (s.port.accepted (s.portIn i)).map fun r => (r, s.platform.reads (platformReq r)) := by
  have lock := PortRun.lockstep_of_reachable reach
  have after : (s.next i fwd).Lockstep := lock.next
  refine ⟨lock.accepted, ?_⟩
  rw [lock.accepted]
  have answers : (s.next i fwd).platform.respValid =
      (s.platform.fires (portReq s.port)).isSome := rfl
  cases valid : s.port.reqValid with
  | false =>
    have waits : (s.next i fwd).port.waitResp = false := by
      rw [← after.answers, answers]
      simp [MmioPlatform.fires, portReq, valid]
    simp [MmioPort.answered, waits]
  | true =>
    have free : s.platform.respValid = false := lock.answers.trans (lock.apart valid)
    have fires : s.platform.fires (portReq s.port) = some (platformReq s.port.request) := by
      simp [MmioPlatform.fires, MmioPlatform.reqReady, portReq, valid, free]
    have waits : (s.next i fwd).port.waitResp = true := by
      rw [← after.answers, answers, fires]
      rfl
    have request : (s.next i fwd).port.request = s.port.request :=
      MmioPort.request_next (MmioPort.launch_none (by simp [MmioPort.available, valid]))
    have data : (s.next i fwd).platform.resp =
        some (s.platform.reads (platformReq s.port.request)) := by
      show (if (s.platform.fires (portReq s.port)).isSome then
        some ((s.platform.fires (portReq s.port)).elim _ _) else none) = _
      rw [fires]
      rfl
    have seen : ((s.next i fwd).portIn i').resp = (s.next i fwd).platform.resp := rfl
    simp [MmioPort.answered, waits, request, seen, data]

/-- A load of the line status. -/
def statusLoad : MmioLoad := ⟨0, 0, uartBase + 5, memByte, true⟩

/-- The load has issued. -/
def statusAsked : PortRun :=
  PortRun.reset.next ⟨0, none, none, some ⟨statusLoad, none⟩, none, false, none, true, false, false,
    fun _ => false, fun _ => none⟩ none

/-- The line is always free. -/
theorem device_answers_next_cycle_status : ∃ i i' : MmioIn,
    (statusAsked.next i none).port.answered ((statusAsked.next i none).portIn i') =
      some (.load statusLoad, 0x60) := by
  have reach : portRuns.Reachable statusAsked :=
    Machine.Reachable.cycle (m := portRuns) (i := (_, none)) .reset trivial
  let i : MmioIn := ⟨0, none, none, none, none, false, none, true, false, false, fun _ => false,
    fun _ => none⟩
  refine ⟨i, i, (device_answers_next_cycle reach i none i).2.trans ?_⟩
  rw [(device_answers_next_cycle reach i none i).1]
  decide +kernel

end Rv64gc.Platform
