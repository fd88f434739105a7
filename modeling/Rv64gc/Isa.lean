import Mathlib.Data.Nat.Basic
import Rv64gc.Hdl.Index

/-!
# Architectural constants

The encodings `isa_pkg` names: privilege levels, opcode fields, CSR addresses, exception and
interrupt codes.
-/

namespace Rv64gc

abbrev privU : BitVec 2 := 0b00#2
abbrev privS : BitVec 2 := 0b01#2
abbrev privM : BitVec 2 := 0b11#2

-- ---------------------------------------------------------------------
-- Major opcodes
-- ---------------------------------------------------------------------

abbrev opLui : BitVec 7 := 0b0110111#7
abbrev opAuipc : BitVec 7 := 0b0010111#7
abbrev opJal : BitVec 7 := 0b1101111#7
abbrev opJalr : BitVec 7 := 0b1100111#7
abbrev opBranch : BitVec 7 := 0b1100011#7
abbrev opLoad : BitVec 7 := 0b0000011#7
abbrev opLoadFp : BitVec 7 := 0b0000111#7
abbrev opStore : BitVec 7 := 0b0100011#7
abbrev opStoreFp : BitVec 7 := 0b0100111#7
abbrev opOpImm : BitVec 7 := 0b0010011#7
abbrev opOp : BitVec 7 := 0b0110011#7
abbrev opOpImm32 : BitVec 7 := 0b0011011#7
abbrev opOp32 : BitVec 7 := 0b0111011#7
abbrev opAmo : BitVec 7 := 0b0101111#7
abbrev opMiscMem : BitVec 7 := 0b0001111#7
abbrev opSystem : BitVec 7 := 0b1110011#7
abbrev opFp : BitVec 7 := 0b1010011#7
abbrev opFmadd : BitVec 7 := 0b1000011#7
abbrev opFmsub : BitVec 7 := 0b1000111#7
abbrev opFnmsub : BitVec 7 := 0b1001011#7
abbrev opFnmadd : BitVec 7 := 0b1001111#7

-- ---------------------------------------------------------------------
-- funct3
-- ---------------------------------------------------------------------

abbrev f3Beq : BitVec 3 := 0b000#3
abbrev f3Bne : BitVec 3 := 0b001#3
abbrev f3Blt : BitVec 3 := 0b100#3
abbrev f3Bge : BitVec 3 := 0b101#3
abbrev f3Bltu : BitVec 3 := 0b110#3
abbrev f3Bgeu : BitVec 3 := 0b111#3
abbrev f3Lb : BitVec 3 := 0b000#3
abbrev f3Lh : BitVec 3 := 0b001#3
abbrev f3Lw : BitVec 3 := 0b010#3
abbrev f3Ld : BitVec 3 := 0b011#3
abbrev f3Lbu : BitVec 3 := 0b100#3
abbrev f3Lhu : BitVec 3 := 0b101#3
abbrev f3Lwu : BitVec 3 := 0b110#3
abbrev f3Sb : BitVec 3 := 0b000#3
abbrev f3Sh : BitVec 3 := 0b001#3
abbrev f3Sw : BitVec 3 := 0b010#3
abbrev f3Sd : BitVec 3 := 0b011#3
abbrev f3AddSub : BitVec 3 := 0b000#3
abbrev f3Sll : BitVec 3 := 0b001#3
abbrev f3Slt : BitVec 3 := 0b010#3
abbrev f3Sltu : BitVec 3 := 0b011#3
abbrev f3Xor : BitVec 3 := 0b100#3
abbrev f3SrlSra : BitVec 3 := 0b101#3
abbrev f3Or : BitVec 3 := 0b110#3
abbrev f3And : BitVec 3 := 0b111#3
abbrev f3Mul : BitVec 3 := 0b000#3
abbrev f3Mulh : BitVec 3 := 0b001#3
abbrev f3Mulhsu : BitVec 3 := 0b010#3
abbrev f3Mulhu : BitVec 3 := 0b011#3
abbrev f3Div : BitVec 3 := 0b100#3
abbrev f3Divu : BitVec 3 := 0b101#3
abbrev f3Rem : BitVec 3 := 0b110#3
abbrev f3Remu : BitVec 3 := 0b111#3
abbrev f3Fsgnj : BitVec 3 := 0b000#3
abbrev f3Fsgnjn : BitVec 3 := 0b001#3
abbrev f3Fsgnjx : BitVec 3 := 0b010#3
abbrev f3Fmin : BitVec 3 := 0b000#3
abbrev f3Fmax : BitVec 3 := 0b001#3
abbrev f3Fle : BitVec 3 := 0b000#3
abbrev f3Flt : BitVec 3 := 0b001#3
abbrev f3Feq : BitVec 3 := 0b010#3
abbrev f3Fclass : BitVec 3 := 0b001#3
abbrev f3Fmv : BitVec 3 := 0b000#3
abbrev f3Priv : BitVec 3 := 0b000#3
abbrev f3Csrrw : BitVec 3 := 0b001#3
abbrev f3Csrrs : BitVec 3 := 0b010#3
abbrev f3Csrrc : BitVec 3 := 0b011#3
abbrev f3Csrrwi : BitVec 3 := 0b101#3
abbrev f3Csrrsi : BitVec 3 := 0b110#3
abbrev f3Csrrci : BitVec 3 := 0b111#3
abbrev f3Fence : BitVec 3 := 0b000#3
abbrev f3FenceI : BitVec 3 := 0b001#3
abbrev f3Sh1add : BitVec 3 := 0b010#3
abbrev f3Sh2add : BitVec 3 := 0b100#3
abbrev f3Sh3add : BitVec 3 := 0b110#3
abbrev f3Min : BitVec 3 := 0b100#3
abbrev f3Max : BitVec 3 := 0b110#3
abbrev f3Minu : BitVec 3 := 0b101#3
abbrev f3Maxu : BitVec 3 := 0b111#3
abbrev f3Zexth : BitVec 3 := 0b100#3
abbrev f3Bclr : BitVec 3 := 0b001#3
abbrev f3Bext : BitVec 3 := 0b101#3
abbrev f3Binv : BitVec 3 := 0b001#3
abbrev f3Bset : BitVec 3 := 0b001#3
abbrev f3CzeroEqz : BitVec 3 := 0b101#3
abbrev f3CzeroNez : BitVec 3 := 0b111#3

-- ---------------------------------------------------------------------
-- funct7
-- ---------------------------------------------------------------------

abbrev f7Normal : BitVec 7 := 0b0000000#7
abbrev f7SubSra : BitVec 7 := 0b0100000#7
abbrev f7Muldiv : BitVec 7 := 0b0000001#7
abbrev f7FaddS : BitVec 7 := 0b0000000#7
abbrev f7FaddD : BitVec 7 := 0b0000001#7
abbrev f7FsubS : BitVec 7 := 0b0000100#7
abbrev f7FsubD : BitVec 7 := 0b0000101#7
abbrev f7FmulS : BitVec 7 := 0b0001000#7
abbrev f7FmulD : BitVec 7 := 0b0001001#7
abbrev f7FdivS : BitVec 7 := 0b0001100#7
abbrev f7FdivD : BitVec 7 := 0b0001101#7
abbrev f7FsgnjS : BitVec 7 := 0b0010000#7
abbrev f7FsgnjD : BitVec 7 := 0b0010001#7
abbrev f7FminmaxS : BitVec 7 := 0b0010100#7
abbrev f7FminmaxD : BitVec 7 := 0b0010101#7
abbrev f7FsqrtS : BitVec 7 := 0b0101100#7
abbrev f7FsqrtD : BitVec 7 := 0b0101101#7
abbrev f7FcvtSD : BitVec 7 := 0b0100000#7
abbrev f7FcvtDS : BitVec 7 := 0b0100001#7
abbrev f7FcmpS : BitVec 7 := 0b1010000#7
abbrev f7FcmpD : BitVec 7 := 0b1010001#7
abbrev f7FcvtToIntS : BitVec 7 := 0b1100000#7
abbrev f7FcvtToIntD : BitVec 7 := 0b1100001#7
abbrev f7FcvtFromIntS : BitVec 7 := 0b1101000#7
abbrev f7FcvtFromIntD : BitVec 7 := 0b1101001#7
abbrev f7FmvXW : BitVec 7 := 0b1110000#7
abbrev f7FmvXD : BitVec 7 := 0b1110001#7
abbrev f7FmvWX : BitVec 7 := 0b1111000#7
abbrev f7FmvDX : BitVec 7 := 0b1111001#7
abbrev f7SfenceVma : BitVec 7 := 0b0001001#7
abbrev f7Zba : BitVec 7 := 0b0010000#7
abbrev f7ZbaUw : BitVec 7 := 0b0000100#7
abbrev f7Slliuw : BitVec 7 := 0b0000100#7
abbrev f7ZbbMinmax : BitVec 7 := 0b0000101#7
abbrev f7ZbbRot : BitVec 7 := 0b0110000#7
abbrev f7Zexth : BitVec 7 := 0b0000100#7
abbrev f7ZbsBclrBext : BitVec 7 := 0b0100100#7
abbrev f7ZbsBinv : BitVec 7 := 0b0110100#7
abbrev f7ZbsBset : BitVec 7 := 0b0010100#7
abbrev f7Zicond : BitVec 7 := 0b0000111#7

-- ---------------------------------------------------------------------
-- funct12
-- ---------------------------------------------------------------------

abbrev f12Ecall : BitVec 12 := 0x000#12
abbrev f12Ebreak : BitVec 12 := 0x001#12
abbrev f12Mret : BitVec 12 := 0x302#12
abbrev f12Sret : BitVec 12 := 0x102#12
abbrev f12Wfi : BitVec 12 := 0x105#12
abbrev f12Rev8 : BitVec 12 := 0x6B8#12
abbrev f12Orcb : BitVec 12 := 0x287#12

-- ---------------------------------------------------------------------
-- The rs2 and funct5 fields as sub-opcodes
-- ---------------------------------------------------------------------

abbrev fpRs2Zero : BitVec 5 := 0#5
abbrev fpRs2S : BitVec 5 := 0#5
abbrev fpRs2D : BitVec 5 := 1#5
abbrev fpRs2W : BitVec 5 := 0#5
abbrev fpRs2Wu : BitVec 5 := 1#5
abbrev fpRs2L : BitVec 5 := 2#5
abbrev fpRs2Lu : BitVec 5 := 3#5
abbrev amoLr : BitVec 5 := 0b00010#5
abbrev zbbClz : BitVec 5 := 0b00000#5
abbrev zbbCtz : BitVec 5 := 0b00001#5
abbrev zbbCpop : BitVec 5 := 0b00010#5
abbrev zbbSextb : BitVec 5 := 0b00100#5
abbrev zbbSexth : BitVec 5 := 0b00101#5

-- ---------------------------------------------------------------------
-- CSR addresses
-- ---------------------------------------------------------------------

abbrev csrFflags : BitVec 12 := 0x001#12
abbrev csrFrm : BitVec 12 := 0x002#12
abbrev csrFcsr : BitVec 12 := 0x003#12
abbrev csrCycle : BitVec 12 := 0xC00#12
abbrev csrTime : BitVec 12 := 0xC01#12
abbrev csrInstret : BitVec 12 := 0xC02#12
abbrev csrSstatus : BitVec 12 := 0x100#12
abbrev csrSie : BitVec 12 := 0x104#12
abbrev csrStvec : BitVec 12 := 0x105#12
abbrev csrScounteren : BitVec 12 := 0x106#12
abbrev csrSenvcfg : BitVec 12 := 0x10A#12
abbrev csrSscratch : BitVec 12 := 0x140#12
abbrev csrSepc : BitVec 12 := 0x141#12
abbrev csrScause : BitVec 12 := 0x142#12
abbrev csrStval : BitVec 12 := 0x143#12
abbrev csrSip : BitVec 12 := 0x144#12
abbrev csrSatp : BitVec 12 := 0x180#12
abbrev csrMstatus : BitVec 12 := 0x300#12
abbrev csrMisa : BitVec 12 := 0x301#12
abbrev csrMedeleg : BitVec 12 := 0x302#12
abbrev csrMideleg : BitVec 12 := 0x303#12
abbrev csrMie : BitVec 12 := 0x304#12
abbrev csrMtvec : BitVec 12 := 0x305#12
abbrev csrMcounteren : BitVec 12 := 0x306#12
abbrev csrMcountinhibit : BitVec 12 := 0x320#12
abbrev csrMscratch : BitVec 12 := 0x340#12
abbrev csrMepc : BitVec 12 := 0x341#12
abbrev csrMcause : BitVec 12 := 0x342#12
abbrev csrMtval : BitVec 12 := 0x343#12
abbrev csrMip : BitVec 12 := 0x344#12
abbrev csrPmpcfg0 : BitVec 12 := 0x3A0#12
abbrev csrPmpaddr0 : BitVec 12 := 0x3B0#12
abbrev csrTselect : BitVec 12 := 0x7A0#12
abbrev csrTdata1 : BitVec 12 := 0x7A1#12
abbrev csrTdata2 : BitVec 12 := 0x7A2#12
abbrev csrTcontrol : BitVec 12 := 0x7A5#12
abbrev csrMcycle : BitVec 12 := 0xB00#12
abbrev csrMinstret : BitVec 12 := 0xB02#12
abbrev csrMvendorid : BitVec 12 := 0xF11#12
abbrev csrMarchid : BitVec 12 := 0xF12#12
abbrev csrMimpid : BitVec 12 := 0xF13#12
abbrev csrMhartid : BitVec 12 := 0xF14#12

-- ---------------------------------------------------------------------
-- Exception codes
-- ---------------------------------------------------------------------

abbrev excInsnMisalign : BitVec 4 := 0#4
abbrev excInsnAccess : BitVec 4 := 1#4
abbrev excIllegalInsn : BitVec 4 := 2#4
abbrev excBreakpoint : BitVec 4 := 3#4
abbrev excLoadMisalign : BitVec 4 := 4#4
abbrev excLoadAccess : BitVec 4 := 5#4
abbrev excStoreMisalign : BitVec 4 := 6#4
abbrev excStoreAccess : BitVec 4 := 7#4
abbrev excEcallU : BitVec 4 := 8#4
abbrev excEcallS : BitVec 4 := 9#4
abbrev excEcallM : BitVec 4 := 11#4
abbrev excInsnPageFault : BitVec 4 := 12#4
abbrev excLoadPageFault : BitVec 4 := 13#4

/-- Not architectural: a load that must be fetched and executed again. -/
abbrev excInternalReplay : BitVec 4 := 14#4
abbrev excStorePageFault : BitVec 4 := 15#4

-- ---------------------------------------------------------------------
-- Interrupt causes, which are also their bits in `mip`
-- ---------------------------------------------------------------------

abbrev irqSSoft : Nat := 1
abbrev irqMSoft : Nat := 3
abbrev irqSTimer : Nat := 5
abbrev irqMTimer : Nat := 7
abbrev irqSExt : Nat := 9
abbrev irqMExt : Nat := 11

end Rv64gc
