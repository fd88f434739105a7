import Mathlib.Data.Nat.Log
import Rv64gc.Hdl.Bits
import Rv64gc.Hdl.Machine
import Rv64gc.Lsu.AmoUnit

/-!
# The timer

`clint.sv`: `mtime` counts every so many cycles, and the timer interrupt is raised from the cycle
on in which it reaches `mtimecmp`. Both may be written a few bytes at a time.
-/

namespace Rv64gc.Platform

open Hdl Lsu

structure ClintReq where
  we : Bool
  addr : BitVec 16
  wdata : Word
  wmask : BitVec 8
deriving DecidableEq

abbrev msipOffset : BitVec 16 := 0x0000
abbrev mtimecmpOffset : BitVec 16 := 0x4000
abbrev mtimeOffset : BitVec 16 := 0xBFF8

inductive ClintReg where
  | msip
  | mtimecmp
  | mtime
deriving DecidableEq

/-- The register at an address. -/
def clintReg (addr : BitVec 16) : Option ClintReg :=
  if addr.extractLsb' 2 14 = msipOffset.extractLsb' 2 14 then some .msip
  else if addr.extractLsb' 3 13 = mtimecmpOffset.extractLsb' 3 13 then some .mtimecmp
  else if addr.extractLsb' 3 13 = mtimeOffset.extractLsb' 3 13 then some .mtime
  else none

/-- The place of the first byte in its register. -/
def byteOffset (addr : BitVec 16) : Nat := (addr.extractLsb' 0 3).toNat

/-- `for (b = 0; b < n; b++)`: a byte behind the end of the register is lost. -/
def writeBytes (x : ClintReq) (reg : Word) : Nat → Word
  | 0 => reg
  | b + 1 =>
    let reg := writeBytes x reg b
    if x.wmask.getLsbD b && decide (byteOffset x.addr + b < 8) then
      putField reg ((byteOffset x.addr + b) * 8) (x.wdata.extractLsb' (b * 8) 8)
    else reg

/-- `MTIME_DIV_EFF_P` -/
def mtimeDivEff (div : Nat) : Nat := if div < 1 then 1 else div

/-- `MTIME_DIV_W` -/
def mtimeDivW (div : Nat) : Nat := if mtimeDivEff div ≤ 1 then 1 else Nat.clog 2 (mtimeDivEff div)

structure Clint (div : Nat) where
  mtime : Word
  mtimecmp : Word
  mtimeDivCount : BitVec (mtimeDivW div)
  msip : Bool

namespace Clint

variable {div : Nat}

def reset : Clint div := ⟨0, 0xFFFFFFFFFFFFFFFF, 0, false⟩

variable (s : Clint div) (x : Option ClintReq)

/-- `mtime_tick` -/
def tick : Bool :=
  mtimeDivEff div == 1 || s.mtimeDivCount == BitVec.ofNat (mtimeDivW div) (mtimeDivEff div - 1)

def readRaw (x : ClintReq) : Word :=
  if x.we then 0
  else match clintReg x.addr with
    | some .msip => (BitVec.ofBool s.msip).setWidth 64
    | some .mtimecmp => s.mtimecmp
    | some .mtime => s.mtime
    | none => 0

/-- `resp_rdata_o` -/
def respRdata (x : ClintReq) : Word := s.readRaw x >>> (byteOffset x.addr * 8)

/-- The write that goes to a register. -/
def writeTo (x : Option ClintReq) (reg : ClintReg) : Option ClintReq :=
  x.filter fun x => x.we && clintReg x.addr == some reg

/-- The bytes of `mtime` that are not written count on. -/
def next : Clint div where
  mtime :=
    let mtime := if s.tick then s.mtime + 1 else s.mtime
    (writeTo x .mtime).elim mtime fun x => writeBytes x mtime 8
  mtimecmp := (writeTo x .mtimecmp).elim s.mtimecmp fun x => writeBytes x s.mtimecmp 8
  mtimeDivCount := if s.tick then 0 else s.mtimeDivCount + 1
  msip := (writeTo x .msip).elim s.msip fun x => if x.wmask.getLsbD 0 then x.wdata.getLsbD 0 else s.msip

/-- `mtip_o` -/
def mtip : Bool := decide (s.mtimecmp ≤ s.mtime)

end Clint

/-- Any request may come in any cycle. -/
def clints (div : Nat) : Machine (Clint div) (Option ClintReq) :=
  ⟨.reset, Clint.next, fun _ _ => True⟩

-- ---------------------------------------------------------------------
-- Bytes
-- ---------------------------------------------------------------------

theorem getLsbD_writeBytes (x : ClintReq) (reg : Word) (n : Nat) (few : n ≤ 8) (j : Nat)
    (inside : j < 64) : (writeBytes x reg n).getLsbD j =
      if byteOffset x.addr * 8 ≤ j ∧ j < (byteOffset x.addr + n) * 8 ∧
          x.wmask.getLsbD (j / 8 - byteOffset x.addr) = true then
        x.wdata.getLsbD (j - byteOffset x.addr * 8)
      else reg.getLsbD j := by
  induction n with
  | zero =>
    rw [writeBytes, if_neg]
    omega
  | succ n ih =>
    have before := ih (Nat.le_of_succ_le few)
    unfold writeBytes
    dsimp only
    by_cases here : byteOffset x.addr + n = j / 8
    · have place : j / 8 - byteOffset x.addr = n := by omega
      have ahead : ¬ j < (byteOffset x.addr + n) * 8 := by omega
      have lies : (byteOffset x.addr + n) * 8 ≤ j ∧ j < (byteOffset x.addr + n) * 8 + 8 := by omega
      have kept : (writeBytes x reg n).getLsbD j = reg.getLsbD j := by
        rw [before, if_neg]
        omega
      cases mask : x.wmask.getLsbD n with
      | true =>
        rw [if_pos (by simp; omega), getLsbD_putField _ _ _ _ inside, if_pos lies,
          if_pos ⟨by omega, by omega, by rw [place, mask]⟩, BitVec.getLsbD_extractLsb']
        have low : j - (byteOffset x.addr + n) * 8 < 8 := by omega
        rw [decide_eq_true low, Bool.true_and]
        congr 1
        omega
      | false =>
        rw [if_neg (by simp), kept, if_neg]
        rw [place, mask]
        simp
    · have off : ¬ ((byteOffset x.addr + n) * 8 ≤ j ∧ j < (byteOffset x.addr + n) * 8 + 8) := by omega
      have kept : (writeBytes x reg n).getLsbD j =
          if byteOffset x.addr * 8 ≤ j ∧ j < (byteOffset x.addr + (n + 1)) * 8 ∧
              x.wmask.getLsbD (j / 8 - byteOffset x.addr) = true then
            x.wdata.getLsbD (j - byteOffset x.addr * 8)
          else reg.getLsbD j := by
        rw [before]
        refine if_congr (and_congr_right fun _ => and_congr_left fun _ => ?_) rfl rfl
        omega
      split
      next => rw [getLsbD_putField _ _ _ _ inside, if_neg off, kept]
      next => exact kept

-- ---------------------------------------------------------------------
-- The clock
-- ---------------------------------------------------------------------

theorem mtimeDivEff_pos (div : Nat) : 0 < mtimeDivEff div := by
  unfold mtimeDivEff
  split <;> omega

theorem mtimeDivEff_le (div : Nat) : mtimeDivEff div ≤ 2 ^ mtimeDivW div := by
  unfold mtimeDivW
  split
  next one => exact one.trans (by decide)
  next => exact Nat.le_pow_clog (by decide) _

namespace Clint

variable {div : Nat} {s : Clint div} {x : Option ClintReq}

/-- The count stays below what it is compared with. -/
def Counts (s : Clint div) : Prop := s.mtimeDivCount.toNat < mtimeDivEff div

theorem tick_iff (counts : s.Counts) :
    s.tick = true ↔ s.mtimeDivCount.toNat + 1 = mtimeDivEff div := by
  have fits := mtimeDivEff_le div
  have pos := mtimeDivEff_pos div
  unfold Counts at counts
  have last : (BitVec.ofNat (mtimeDivW div) (mtimeDivEff div - 1)).toNat = mtimeDivEff div - 1 := by
    rw [BitVec.toNat_ofNat, Nat.mod_eq_of_lt (by omega)]
  simp only [tick, Bool.or_eq_true, beq_iff_eq, ← BitVec.toNat_inj, last]
  omega

theorem count_next (counts : s.Counts) :
    (s.next x).mtimeDivCount.toNat = (s.mtimeDivCount.toNat + 1) % mtimeDivEff div := by
  have fits := mtimeDivEff_le div
  have last := tick_iff counts
  unfold Counts at counts
  cases ticks : s.tick with
  | true => simp [next, ticks, last.mp ticks]
  | false =>
    have more : s.mtimeDivCount.toNat + 1 < mtimeDivEff div := by
      have : s.mtimeDivCount.toNat + 1 ≠ mtimeDivEff div := fun same => by
        cases ticks.symm.trans (last.mpr same)
      omega
    have one : 1 % 2 ^ mtimeDivW div = 1 := Nat.mod_eq_of_lt (by omega)
    rw [Nat.mod_eq_of_lt more]
    simp only [next, ticks, Bool.false_eq_true, if_false, BitVec.toNat_add, BitVec.ofNat_eq_ofNat,
      BitVec.toNat_ofNat, one]
    exact Nat.mod_eq_of_lt (by omega)

theorem counts_next (counts : s.Counts) : (s.next x).Counts := by
  unfold Counts
  rw [count_next counts]
  exact Nat.mod_lt _ (mtimeDivEff_pos div)

theorem mtime_next (counts : s.Counts) (kept : writeTo x .mtime = none) :
    (s.next x).mtime =
      s.mtime + BitVec.ofNat 64 ((s.mtimeDivCount.toNat + 1) / mtimeDivEff div) := by
  have last := tick_iff counts
  have pos := mtimeDivEff_pos div
  unfold Counts at counts
  simp only [next, kept, Option.elim_none]
  cases ticks : s.tick with
  | true =>
    rw [if_pos rfl, last.mp ticks, Nat.div_self pos]
    rfl
  | false =>
    have more : s.mtimeDivCount.toNat + 1 < mtimeDivEff div := by
      have : s.mtimeDivCount.toNat + 1 ≠ mtimeDivEff div := fun same => by
        cases ticks.symm.trans (last.mpr same)
      omega
    rw [if_neg Bool.false_ne_true, Nat.div_eq_of_lt more]
    exact (BitVec.add_zero _).symm

theorem counts_of_reachable (reach : (clints div).Reachable s) : s.Counts := by
  refine reach.invariant Counts ?_ fun s x _ counts _ _ => counts_next counts
  show (0#_).toNat < _
  rw [BitVec.toNat_zero]
  exact mtimeDivEff_pos div

/-- Until it is written, `mtime` counts the cycles through the divider. -/
theorem mtime_run (counts : s.Counts) (inputs : List (Option ClintReq))
    (kept : ∀ x ∈ inputs, writeTo x .mtime = none) :
    ((clints div).run s inputs).mtime = s.mtime +
      BitVec.ofNat 64 ((s.mtimeDivCount.toNat + inputs.length) / mtimeDivEff div) := by
  induction inputs generalizing s with
  | nil =>
    rw [List.length_nil, Nat.add_zero, Nat.div_eq_of_lt counts]
    exact (BitVec.add_zero _).symm
  | cons x rest ih =>
    have cycles := ih (counts_next (x := x) counts) fun y on => kept y (List.mem_cons_of_mem x on)
    show ((clints div).run (s.next x) rest).mtime = _
    rw [cycles, mtime_next counts (kept x List.mem_cons_self), count_next counts, BitVec.add_assoc,
      ← BitVec.ofNat_add]
    congr 2
    have split := Nat.mod_add_div (s.mtimeDivCount.toNat + 1) (mtimeDivEff div)
    rw [show s.mtimeDivCount.toNat + (x :: rest).length =
        (s.mtimeDivCount.toNat + 1) % mtimeDivEff div + rest.length +
          mtimeDivEff div * ((s.mtimeDivCount.toNat + 1) / mtimeDivEff div) by
      rw [List.length_cons]; omega, Nat.add_mul_div_left _ _ (mtimeDivEff_pos div), Nat.add_comm]

theorem mtimecmp_run (inputs : List (Option ClintReq))
    (kept : ∀ x ∈ inputs, writeTo x .mtimecmp = none) :
    ((clints div).run s inputs).mtimecmp = s.mtimecmp := by
  induction inputs generalizing s with
  | nil => rfl
  | cons x rest ih =>
    refine (ih fun y on => kept y (List.mem_cons_of_mem x on)).trans ?_
    show (s.next x).mtimecmp = _
    simp [next, kept x List.mem_cons_self]

end Clint

/-- While software leaves `mtime` and `mtimecmp` alone and the clock does not wrap, the timer
interrupt is raised from the very cycle on in which the divided cycles make up the difference. -/
theorem timer_interrupt_exact {div : Nat} {s : Clint div} (reach : (clints div).Reachable s)
    (inputs : List (Option ClintReq))
    (kept : ∀ x ∈ inputs, Clint.writeTo x .mtime = none ∧ Clint.writeTo x .mtimecmp = none)
    (early : s.mtime.toNat + (s.mtimeDivCount.toNat + inputs.length) / mtimeDivEff div < 2 ^ 64) :
    ((clints div).run s inputs).mtip = true ↔
      (s.mtimecmp.toNat - s.mtime.toNat) * mtimeDivEff div ≤
        s.mtimeDivCount.toNat + inputs.length := by
  have counts := Clint.counts_of_reachable reach
  have mtime := Clint.mtime_run counts inputs fun x on => (kept x on).1
  have mtimecmp := Clint.mtimecmp_run (s := s) inputs fun x on => (kept x on).2
  have value : (s.mtime + BitVec.ofNat 64
      ((s.mtimeDivCount.toNat + inputs.length) / mtimeDivEff div)).toNat =
        s.mtime.toNat + (s.mtimeDivCount.toNat + inputs.length) / mtimeDivEff div := by
    rw [BitVec.toNat_add, BitVec.toNat_ofNat, Nat.add_mod_mod, Nat.mod_eq_of_lt early]
  rw [Clint.mtip, decide_eq_true_eq, mtime, mtimecmp, BitVec.le_def, value,
    ← Nat.le_div_iff_mul_le (mtimeDivEff_pos div)]
  exact Nat.sub_le_iff_le_add'.symm

/-- In a cycle after reset software asks for an interrupt at time 2. -/
def armed : Clint 100 := Clint.next .reset (some ⟨true, mtimecmpOffset, 2, 0xFF⟩)

theorem armed_counts : armed.mtimeDivCount.toNat = 1 ∧ armed.mtime = 0 :=
  have counts := Clint.counts_of_reachable (Machine.Reach.reset (m := clints 100))
  ⟨Clint.count_next counts, Clint.mtime_next counts rfl⟩

/-- It comes in the 199th cycle after the write and not before. -/
theorem timer_interrupt_exact_armed :
    ((clints 100).run armed (List.replicate 199 none)).mtip = true ∧
      ¬ ((clints 100).run armed (List.replicate 198 none)).mtip = true := by
  have reach : (clints 100).Reachable armed := Machine.Reachable.cycle .reset trivial
  obtain ⟨count, mtime⟩ := armed_counts
  have mtimecmp : armed.mtimecmp = 2 := by decide
  constructor
  · refine (timer_interrupt_exact reach _ ?_ ?_).mpr ?_
    · intro x on
      rw [List.eq_of_mem_replicate on]
      exact ⟨rfl, rfl⟩
    · rw [mtime, count, List.length_replicate]
      decide
    · rw [mtime, mtimecmp, count, List.length_replicate]
      decide
  · refine mt (timer_interrupt_exact reach _ ?_ ?_).mp ?_
    · intro x on
      rw [List.eq_of_mem_replicate on]
      exact ⟨rfl, rfl⟩
    · rw [mtime, count, List.length_replicate]
      decide
    · rw [mtime, mtimecmp, count, List.length_replicate]
      decide

end Rv64gc.Platform
