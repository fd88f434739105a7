import Rv64gc.Isa
import Rv64gc.Hdl.Bits

/-!
# The CSR file

`csr_file.sv`: the machine and supervisor CSRs, trap entry and return, the counters and the
interrupt request. Every write and every trap goes through `next`; in a cycle with a trap the
return is ignored, in a cycle with a return the CSR write is.
-/

namespace Rv64gc.Csr

open Hdl

abbrev Word := BitVec 64

structure CsrFile where
  mstatus : Word
  mtvec : Word
  stvec : Word
  mepc : Word
  sepc : Word
  mcause : Word
  scause : Word
  mtval : Word
  stval : Word
  mscratch : Word
  sscratch : Word
  medeleg : Word
  mideleg : Word
  mie : Word
  /-- The bits software writes; the interrupt lines come on top. -/
  mip : Word
  mcounteren : Word
  scounteren : Word
  senvcfg : Word
  mcountinhibit : Word
  mcycle : Word
  minstret : Word
  pmpcfg0 : Word
  pmpaddr0 : Word
  satp : Word
  tcontrol : Word
  priv : BitVec 2
  fflags : BitVec 5
  frm : BitVec 3
deriving DecidableEq

/-- The interrupt lines from outside the core. -/
structure IrqLines where
  mtip : Bool
  msip : Bool
  meip : Bool
  stip : Bool
  ssip : Bool
  seip : Bool

/-- The interrupt request to commit. -/
structure Irq where
  pending : Bool
  cause : Word
  toSupervisor : Bool
deriving DecidableEq

def Irq.none : Irq := ⟨false, 0, false⟩

def irqCause (n : Nat) : Word := 0x8000000000000000#64 ||| BitVec.ofNat 64 n

/-- What commit drives into the file in one cycle. -/
structure CsrIn where
  writeValid : Bool
  writeAddr : BitVec 12
  writeData : Word
  writeOp : BitVec 2
  fflagsAccValid : Bool
  fflagsAccBits : BitVec 5
  fpStateDirty : Bool
  trapValid : Bool
  trapCause : Word
  trapPc : Word
  trapVal : Word
  trapToSupervisor : Bool
  mretValid : Bool
  sretValid : Bool
  insnRetiredCount : BitVec 4

namespace CsrFile

/-- Reset enters machine mode with 64-bit supervisor and user modes. -/
def reset : CsrFile where
  mstatus := (0x2#64 <<< 34) ||| (0x2#64 <<< 32)
  mtvec := 0
  stvec := 0
  mepc := 0
  sepc := 0
  mcause := 0
  scause := 0
  mtval := 0
  stval := 0
  mscratch := 0
  sscratch := 0
  medeleg := 0
  mideleg := 0
  mie := 0
  mip := 0
  mcounteren := 0
  scounteren := 0
  senvcfg := 0
  mcountinhibit := 0
  mcycle := 0
  minstret := 0
  pmpcfg0 := 0
  pmpaddr0 := 0
  satp := 0
  tcontrol := 0
  priv := privM
  fflags := 0
  frm := 0

-- ---------------------------------------------------------------------
-- Fields of mstatus
-- ---------------------------------------------------------------------

def sie (s : CsrFile) : Bool := s.mstatus.getLsbD 1
def mIe (s : CsrFile) : Bool := s.mstatus.getLsbD 3
def spie (s : CsrFile) : Bool := s.mstatus.getLsbD 5
def mpie (s : CsrFile) : Bool := s.mstatus.getLsbD 7
def spp (s : CsrFile) : Bool := s.mstatus.getLsbD 8
def mpp (s : CsrFile) : BitVec 2 := s.mstatus.extractLsb' 11 2
def fs (s : CsrFile) : BitVec 2 := s.mstatus.extractLsb' 13 2
def mprv (s : CsrFile) : Bool := s.mstatus.getLsbD 17
def sum (s : CsrFile) : Bool := s.mstatus.getLsbD 18
def mxr (s : CsrFile) : Bool := s.mstatus.getLsbD 19

def sstatusMask : Word :=
  (0x1#64 <<< 63) ||| (0x3#64 <<< 32) ||| (0x1#64 <<< 19) ||| (0x1#64 <<< 18) |||
  (0x3#64 <<< 15) ||| (0x3#64 <<< 13) ||| (0x1#64 <<< 8) ||| (0x1#64 <<< 6) |||
  (0x1#64 <<< 5) ||| (0x1#64 <<< 1)

def sstatusWmask : Word :=
  (0x3#64 <<< 32) ||| (0x1#64 <<< 19) ||| (0x1#64 <<< 18) ||| (0x3#64 <<< 15) |||
  (0x3#64 <<< 13) ||| (0x1#64 <<< 8) ||| (0x1#64 <<< 6) ||| (0x1#64 <<< 5) |||
  (0x1#64 <<< 1)

/-- RV64 with the A, C, D, F, I, M, S and U letters. -/
def misaVal : Word :=
  (0x2#64 <<< 62) ||| (0x1#64 <<< 0) ||| (0x1#64 <<< 2) ||| (0x1#64 <<< 3) |||
  (0x1#64 <<< 5) ||| (0x1#64 <<< 8) ||| (0x1#64 <<< 12) ||| (0x1#64 <<< 18) |||
  (0x1#64 <<< 20)

/-- SXL and UXL are fixed to 64 bits, SD summarises FS and XS. -/
def normMstatus (ms : Word) : Word :=
  let ms := putField ms 34 0b10#2
  let ms := putField ms 32 0b10#2
  put ms 63 (ms.extractLsb' 13 2 == 0b11#2 || ms.extractLsb' 15 2 == 0b11#2)

-- ---------------------------------------------------------------------
-- Interrupt request
-- ---------------------------------------------------------------------

/-- `mip` with the lines: the machine ones replace the bit, the supervisor ones add to it. -/
def mipEff (s : CsrFile) (l : IrqLines) : Word :=
  let mip := put s.mip irqMTimer l.mtip
  let mip := put mip irqMSoft l.msip
  let mip := put mip irqMExt l.meip
  let mip := put mip irqSTimer (s.mip.getLsbD irqSTimer || l.stip)
  let mip := put mip irqSSoft (s.mip.getLsbD irqSSoft || l.ssip)
  put mip irqSExt (s.mip.getLsbD irqSExt || l.seip)

/-- A machine-level source is taken below machine mode or with MIE set. -/
def mTakes (s : CsrFile) : Bool := s.priv != privM || s.mIe

/-- The branch for a supervisor-level source that is pending and enabled. -/
def sBranch (s : CsrFile) (n : Nat) : Irq :=
  if s.mideleg.getLsbD n && s.priv != privM && (s.priv == privU || s.sie) then
    ⟨true, irqCause n, true⟩
  else if !s.mideleg.getLsbD n && s.mTakes then ⟨true, irqCause n, false⟩
  else .none

def irq (s : CsrFile) (l : IrqLines) : Irq :=
  let mip := s.mipEff l
  if mip.getLsbD irqMExt && s.mie.getLsbD irqMExt && s.mTakes then
    ⟨true, irqCause irqMExt, false⟩
  else if mip.getLsbD irqMSoft && s.mie.getLsbD irqMSoft && s.mTakes then
    ⟨true, irqCause irqMSoft, false⟩
  else if mip.getLsbD irqMTimer && s.mie.getLsbD irqMTimer && s.mTakes then
    ⟨true, irqCause irqMTimer, false⟩
  else if mip.getLsbD irqSExt && s.mie.getLsbD irqSExt then s.sBranch irqSExt
  else if mip.getLsbD irqSSoft && s.mie.getLsbD irqSSoft then s.sBranch irqSSoft
  else if mip.getLsbD irqSTimer && s.mie.getLsbD irqSTimer then s.sBranch irqSTimer
  else .none

-- ---------------------------------------------------------------------
-- CSR access
-- ---------------------------------------------------------------------

/-- The result of CSRRW, CSRRS or CSRRC on the current value. -/
def applyOp (op : BitVec 2) (cur data : BitVec n) : BitVec n :=
  if op = 0 then data else if op = 1 then cur ||| data else if op = 2 then cur &&& ~~~data else cur

def sstatusApplied (s : CsrFile) (op : BitVec 2) (data : Word) : Word :=
  (s.mstatus &&& ~~~sstatusWmask) |||
    (applyOp op (s.mstatus &&& sstatusWmask) (data &&& sstatusWmask) &&& sstatusWmask)

def csrOpFflags (s : CsrFile) (i : CsrIn) : Word :=
  applyOp i.writeOp (s.fflags.setWidth 64) i.writeData

def csrOpFrm (s : CsrFile) (i : CsrIn) : Word :=
  applyOp i.writeOp (s.frm.setWidth 64) i.writeData

def csrOpFcsr (s : CsrFile) (i : CsrIn) : Word :=
  applyOp i.writeOp ((s.frm ++ s.fflags).setWidth 64) i.writeData

def csrOpSatp (s : CsrFile) (i : CsrIn) : Word :=
  applyOp i.writeOp s.satp i.writeData

/-- Bare, Sv39 and Sv48 are the modes accepted. -/
def csrOpSatpLegal (s : CsrFile) (i : CsrIn) : Bool :=
  let mode := (s.csrOpSatp i).extractLsb' 60 4
  mode == 0#4 || mode == 8#4 || mode == 9#4

def csrAddrSupported (addr : BitVec 12) : Bool :=
  [csrFflags, csrFrm, csrFcsr, csrSstatus, csrSie, csrStvec, csrScounteren, csrSenvcfg,
    csrSscratch, csrSepc, csrScause, csrStval, csrSip, csrSatp, csrMstatus, csrMisa, csrMedeleg,
    csrMideleg, csrMie, csrMtvec, csrMcounteren, csrMcountinhibit, csrMscratch, csrMepc,
    csrMcause, csrMtval, csrMip, csrPmpcfg0, csrPmpaddr0, csrTselect, csrTdata1, csrTdata2,
    csrTcontrol, csrMvendorid, csrMarchid, csrMimpid, csrMhartid, csrMcycle, csrMinstret,
    csrCycle, csrTime, csrInstret].contains addr

def csrPrivIllegal (s : CsrFile) (addr : BitVec 12) : Bool :=
  decide (s.priv < addr.extractLsb' 8 2)

def csrReadonlyIllegal (addr : BitVec 12) (writeIntent : Bool) : Bool :=
  writeIntent && addr.extractLsb' 10 2 == 0b11#2

/-- The enable bit of a user counter, if the address is one. -/
def csrCounterBit (addr : BitVec 12) : Option Nat :=
  if addr = csrCycle then some 0 else if addr = csrTime then some 1
  else if addr = csrInstret then some 2 else .none

def csrCounterIllegal (s : CsrFile) (addr : BitVec 12) : Bool :=
  match csrCounterBit addr with
  | .none => false
  | some bit =>
    if s.priv = privS then !s.mcounteren.getLsbD bit
    else if s.priv = privU then !s.mcounteren.getLsbD bit || !s.scounteren.getLsbD bit
    else false

def readIllegal (s : CsrFile) (addr : BitVec 12) (writeIntent : Bool) : Bool :=
  !csrAddrSupported addr || s.csrPrivIllegal addr || csrReadonlyIllegal addr writeIntent ||
    s.csrCounterIllegal addr

/-- A read in the cycle of a write to the same register sees the new value. -/
def csrBypass (addr : BitVec 12) (i : CsrIn) : Bool :=
  i.writeValid && !i.trapValid && !i.mretValid && !i.sretValid && i.writeAddr == addr

def readData (s : CsrFile) (l : IrqLines) (timeVal : Word) (addr : BitVec 12) (i : CsrIn) : Word :=
  let bypass := csrBypass addr i
  let view (cur : Word) : Word := if bypass then applyOp i.writeOp cur i.writeData else cur
  if addr = csrFflags then
    if bypass then ((s.csrOpFflags i).extractLsb' 0 5).setWidth 64 else s.fflags.setWidth 64
  else if addr = csrFrm then
    if bypass then ((s.csrOpFrm i).extractLsb' 0 3).setWidth 64 else s.frm.setWidth 64
  else if addr = csrFcsr then
    if bypass then ((s.csrOpFcsr i).extractLsb' 0 8).setWidth 64
    else (s.frm ++ s.fflags).setWidth 64
  else if addr = csrSstatus then
    (if bypass then normMstatus (s.sstatusApplied i.writeOp i.writeData)
      else normMstatus s.mstatus) &&& sstatusMask
  else if addr = csrSie then view s.mie &&& s.mideleg
  else if addr = csrStvec then view s.stvec
  else if addr = csrScounteren then view s.scounteren
  else if addr = csrSenvcfg then view s.senvcfg
  else if addr = csrSscratch then view s.sscratch
  else if addr = csrSepc then view s.sepc
  else if addr = csrScause then view s.scause
  else if addr = csrStval then view s.stval
  else if addr = csrSip then view (s.mipEff l) &&& s.mideleg
  else if addr = csrSatp then
    if bypass && s.csrOpSatpLegal i then s.csrOpSatp i else s.satp
  else if addr = csrMstatus then normMstatus (view s.mstatus)
  else if addr = csrMisa then misaVal
  else if addr = csrMedeleg then view s.medeleg
  else if addr = csrMideleg then view s.mideleg
  else if addr = csrMie then view s.mie
  else if addr = csrMtvec then view s.mtvec
  else if addr = csrMcounteren then view s.mcounteren
  else if addr = csrMcountinhibit then view s.mcountinhibit
  else if addr = csrMscratch then view s.mscratch
  else if addr = csrMepc then view s.mepc
  else if addr = csrMcause then view s.mcause
  else if addr = csrMtval then view s.mtval
  else if addr = csrMip then view (s.mipEff l)
  else if addr = csrPmpcfg0 then view s.pmpcfg0
  else if addr = csrPmpaddr0 then view s.pmpaddr0
  else if addr = csrTcontrol then view s.tcontrol
  else if addr = csrMcycle then s.mcycle
  else if addr = csrMinstret then s.minstret
  else if addr = csrCycle then s.mcycle
  else if addr = csrTime then timeVal
  else if addr = csrInstret then s.minstret
  -- The trigger and the identification registers read as zero.
  else 0

-- ---------------------------------------------------------------------
-- One cycle
-- ---------------------------------------------------------------------

/-- The counters run in every cycle unless inhibited. -/
def count (s : CsrFile) (i : CsrIn) : CsrFile :=
  { s with
    mcycle := if s.mcountinhibit.getLsbD 0 then s.mcycle else s.mcycle + 1
    minstret := if s.mcountinhibit.getLsbD 2 then s.minstret
      else s.minstret + i.insnRetiredCount.setWidth 64 }

def trapEntry (s : CsrFile) (i : CsrIn) : CsrFile :=
  if i.trapToSupervisor then
    { s with
      sepc := i.trapPc
      scause := i.trapCause
      stval := i.trapVal
      mstatus := put (put (put s.mstatus 8 (s.priv != privU)) 5 s.sie) 1 false
      priv := privS }
  else
    { s with
      mepc := i.trapPc
      mcause := i.trapCause
      mtval := i.trapVal
      mstatus := putField (put (put s.mstatus 7 s.mIe) 3 false) 11 s.priv
      priv := privM }

def mret (s : CsrFile) : CsrFile :=
  let ms := put (put s.mstatus 3 s.mpie) 7 true
  let ms := if s.mpp != privM then put ms 17 false else ms
  { s with mstatus := putField ms 11 privU, priv := s.mpp }

def sret (s : CsrFile) : CsrFile :=
  { s with
    mstatus := put (put (put (put s.mstatus 1 s.spie) 5 true) 17 false) 8 false
    priv := if s.spp then privS else privU }

/-- A CSR write reads the registers as they were before the cycle (`s`) and overrides what the
rest of the cycle does to them (`t`). -/
def csrWrite (s t : CsrFile) (i : CsrIn) : CsrFile :=
  let op (cur : Word) : Word := applyOp i.writeOp cur i.writeData
  let dirty : Word := putField t.mstatus 13 0b11#2
  if i.writeAddr = csrFflags then
    { t with fflags := (s.csrOpFflags i).extractLsb' 0 5, mstatus := dirty }
  else if i.writeAddr = csrFrm then
    { t with frm := (s.csrOpFrm i).extractLsb' 0 3, mstatus := dirty }
  else if i.writeAddr = csrFcsr then
    { t with
      fflags := (s.csrOpFcsr i).extractLsb' 0 5
      frm := (s.csrOpFcsr i).extractLsb' 5 3
      mstatus := dirty }
  else if i.writeAddr = csrSstatus then
    { t with mstatus := normMstatus (s.sstatusApplied i.writeOp i.writeData) }
  else if i.writeAddr = csrSie then
    { t with mie := (s.mie &&& ~~~s.mideleg) ||| (op s.mie &&& s.mideleg) }
  else if i.writeAddr = csrStvec then { t with stvec := op s.stvec }
  else if i.writeAddr = csrScounteren then { t with scounteren := op s.scounteren }
  else if i.writeAddr = csrSenvcfg then { t with senvcfg := op s.senvcfg }
  else if i.writeAddr = csrSscratch then { t with sscratch := op s.sscratch }
  else if i.writeAddr = csrSepc then { t with sepc := op s.sepc }
  else if i.writeAddr = csrScause then { t with scause := op s.scause }
  else if i.writeAddr = csrStval then { t with stval := op s.stval }
  else if i.writeAddr = csrSip then
    { t with mip := (s.mip &&& ~~~s.mideleg) ||| (op s.mip &&& s.mideleg) }
  else if i.writeAddr = csrSatp then
    if s.csrOpSatpLegal i then { t with satp := s.csrOpSatp i } else t
  else if i.writeAddr = csrMstatus then { t with mstatus := normMstatus (op s.mstatus) }
  else if i.writeAddr = csrMedeleg then { t with medeleg := op s.medeleg }
  else if i.writeAddr = csrMideleg then { t with mideleg := op s.mideleg }
  else if i.writeAddr = csrMie then { t with mie := op s.mie }
  else if i.writeAddr = csrMtvec then { t with mtvec := op s.mtvec }
  else if i.writeAddr = csrMcounteren then { t with mcounteren := op s.mcounteren }
  else if i.writeAddr = csrMcountinhibit then { t with mcountinhibit := op s.mcountinhibit }
  else if i.writeAddr = csrMscratch then { t with mscratch := op s.mscratch }
  else if i.writeAddr = csrMepc then { t with mepc := op s.mepc }
  else if i.writeAddr = csrMcause then { t with mcause := op s.mcause }
  else if i.writeAddr = csrMtval then { t with mtval := op s.mtval }
  else if i.writeAddr = csrMip then { t with mip := op s.mip }
  else if i.writeAddr = csrPmpcfg0 then { t with pmpcfg0 := op s.pmpcfg0 }
  else if i.writeAddr = csrPmpaddr0 then { t with pmpaddr0 := op s.pmpaddr0 }
  else if i.writeAddr = csrTcontrol then { t with tcontrol := op s.tcontrol }
  else if i.writeAddr = csrMcycle || i.writeAddr = csrCycle then { t with mcycle := op s.mcycle }
  else if i.writeAddr = csrMinstret || i.writeAddr = csrInstret then
    { t with minstret := op s.minstret }
  else t

/-- The accumulated floating-point flags and the dirty mark of retired instructions. -/
def accrueFp (s : CsrFile) (i : CsrIn) : CsrFile :=
  { s with
    mstatus := if i.fpStateDirty then putField s.mstatus 13 0b11#2 else s.mstatus
    fflags := if i.fflagsAccValid then s.fflags ||| i.fflagsAccBits else s.fflags }

def next (s : CsrFile) (i : CsrIn) : CsrFile :=
  let counted := s.count i
  if i.trapValid then counted.trapEntry i
  else if i.mretValid then counted.mret
  else if i.sretValid then counted.sret
  else
    let accrued := counted.accrueFp i
    if i.writeValid then s.csrWrite accrued i else accrued

end CsrFile

end Rv64gc.Csr
