import Rv64gc.Decode.Insn

/-!
# The ALU

`alu.sv`: RV64 integer operations with the Zba, Zbb, Zbs and Zicond extensions. Word operations
work on the low halves of the operands and sign-extend the result.
-/

namespace Rv64gc.Execute

abbrev Word := BitVec 64

/-- A 32-bit result as the 64-bit value a W instruction writes. -/
def sext32 (v : BitVec 32) : Word := v.signExtend 64

def zext32 (v : BitVec 32) : Word := v.setWidth 64

/-- A condition as a register value. -/
def ofBool (b : Bool) : Word := if b then 1 else 0

structure AluIn where
  a : Word
  b : Word
  isWOp : Bool
  isUnsigned : Bool

namespace AluIn

def shamt (x : AluIn) : BitVec 6 :=
  if x.isWOp then (x.b.setWidth 5).setWidth 6 else x.b.setWidth 6

def shamt32 (x : AluIn) : BitVec 5 := x.shamt.setWidth 5

def a32 (x : AluIn) : BitVec 32 := x.a.setWidth 32
def b32 (x : AluIn) : BitVec 32 := x.b.setWidth 32

/-- The width the count operations look at. -/
def width (x : AluIn) : Nat := if x.isWOp then 32 else 64

def clz (x : AluIn) : Nat :=
  ((List.range x.width).find? fun k => x.a.getLsbD (x.width - 1 - k)).getD x.width

def ctz (x : AluIn) : Nat := ((List.range x.width).find? fun k => x.a.getLsbD k).getD x.width

def cpop (x : AluIn) : Nat := (List.range x.width).countP fun k => x.a.getLsbD k

/-- The first operand of the shifted adds: their W forms zero-extend it. -/
def zbaSrc (x : AluIn) : Word := if x.isWOp then zext32 x.a32 else x.a

def rol (x : AluIn) : Word :=
  if x.isWOp then
    sext32 ((x.a32 <<< x.shamt32.toNat) ||| (x.a32 >>> (0 - x.shamt32).toNat))
  else (x.a <<< x.shamt.toNat) ||| (x.a >>> (0 - x.shamt).toNat)

def ror (x : AluIn) : Word :=
  if x.isWOp then
    sext32 ((x.a32 >>> x.shamt32.toNat) ||| (x.a32 <<< (0 - x.shamt32).toNat))
  else (x.a >>> x.shamt.toNat) ||| (x.a <<< (0 - x.shamt).toNat)

def byte (x : AluIn) (k : Nat) : BitVec 8 := x.a.extractLsb' (8 * k) 8

def rev8 (x : AluIn) : Word :=
  x.byte 0 ++ x.byte 1 ++ x.byte 2 ++ x.byte 3 ++ x.byte 4 ++ x.byte 5 ++ x.byte 6 ++ x.byte 7

def orcb (x : AluIn) : Word :=
  let spread (k : Nat) : BitVec 8 := if x.byte k = 0 then 0 else 0xFF#8
  spread 7 ++ spread 6 ++ spread 5 ++ spread 4 ++ spread 3 ++ spread 2 ++ spread 1 ++ spread 0

def bitMask (x : AluIn) : Word := 1#64 <<< x.shamt.toNat

end AluIn

def alu (op : AluOp) (x : AluIn) : Word :=
  match op with
  | .add =>
    if x.isWOp && x.isUnsigned then zext32 x.a32 + x.b
    else if x.isWOp then sext32 (x.a32 + x.b32)
    else x.a + x.b
  | .sub => if x.isWOp then sext32 (x.a32 - x.b32) else x.a - x.b
  | .and => x.a &&& x.b
  | .or => x.a ||| x.b
  | .xor => x.a ^^^ x.b
  | .slt => ofBool (x.a.slt x.b)
  | .sltu => ofBool (x.a.ult x.b)
  | .sll =>
    if x.isWOp && x.isUnsigned then zext32 x.a32 <<< (x.b.setWidth 6).toNat
    else if x.isWOp then sext32 (x.a32 <<< x.shamt32.toNat)
    else x.a <<< x.shamt.toNat
  | .srl => if x.isWOp then sext32 (x.a32 >>> x.shamt32.toNat) else x.a >>> x.shamt.toNat
  | .sra =>
    if x.isWOp then sext32 (x.a32.sshiftRight x.shamt32.toNat) else x.a.sshiftRight x.shamt.toNat
  | .lui => x.b
  | .pass2 => x.a + x.b
  | .sh1add => (x.zbaSrc <<< 1) + x.b
  | .sh2add => (x.zbaSrc <<< 2) + x.b
  | .sh3add => (x.zbaSrc <<< 3) + x.b
  | .min => if x.a.slt x.b then x.a else x.b
  | .max => if x.b.sle x.a then x.a else x.b
  | .minu => if x.a.ult x.b then x.a else x.b
  | .maxu => if x.b.ule x.a then x.a else x.b
  | .clz => BitVec.ofNat 64 x.clz
  | .ctz => BitVec.ofNat 64 x.ctz
  | .cpop => BitVec.ofNat 64 x.cpop
  | .andn => x.a &&& ~~~x.b
  | .orn => x.a ||| ~~~x.b
  | .xnor => ~~~(x.a ^^^ x.b)
  | .rol => x.rol
  | .ror => x.ror
  | .sextb => (x.a.setWidth 8).signExtend 64
  | .sexth => (x.a.setWidth 16).signExtend 64
  | .rev8 => x.rev8
  | .orcb => x.orcb
  | .bset => x.a ||| x.bitMask
  | .bclr => x.a &&& ~~~x.bitMask
  | .binv => x.a ^^^ x.bitMask
  | .bext => ofBool (x.a.getLsbD x.shamt.toNat)
  | .czeroEqz => if x.b = 0 then 0 else x.a
  | .czeroNez => if x.b ≠ 0 then 0 else x.a

end Rv64gc.Execute
