import Rv64gc.Hdl.Bits
import Rv64gc.Hdl.Least
import Rv64gc.Hdl.Machine
import Rv64gc.Hdl.Recent
import Rv64gc.Hdl.Select
import Rv64gc.Frontend.PredChecker

/-!
# The branch target buffer

`btb.sv`: eight branches a set, by the line they are in and their offset in it. A lookup gives the
next branch of the line.
-/

namespace Rv64gc.Frontend

open Hdl

structure BtbUpdate where
  pc : Addr
  target : Addr
  type : BitVec 3
deriving DecidableEq

structure BtbIn where
  flush : Bool
  update : Option BtbUpdate
deriving DecidableEq

deriving instance DecidableEq for BtbHit

structure BtbEntry where
  valid : Bool
  tag : BitVec 50
  target : Addr
  type : BitVec 3
  boff : BitVec 6

structure BtbSet where
  ways : Fin 8 → BtbEntry
  victimRr : Fin 8

def btbIdx (pc : Addr) : BitVec 8 := pc.extractLsb' 6 8
def btbTag (pc : Addr) : BitVec 50 := pc.extractLsb' 14 50
def btbOff (pc : Addr) : BitVec 6 := pc.extractLsb' 0 6

namespace BtbSet

variable (s : BtbSet) (u : BtbUpdate)

/-- `upd_hit_way`, when `upd_hit` -/
def updHit : Option (Fin 8) :=
  lastOf fun w => (s.ways w).valid && (s.ways w).tag == btbTag u.pc && (s.ways w).boff == btbOff u.pc

/-- `victim_way`: the first free one. -/
def victimWay : Fin 8 := (firstOf fun w => !(s.ways w).valid).getD s.victimRr

def update : BtbSet :=
  match s.updHit u with
  | some hit =>
    { s with ways := fun w =>
        if w = hit then { s.ways w with target := u.target, type := u.type, boff := btbOff u.pc }
        else s.ways w }
  | none =>
    { ways := fun w =>
        if w = s.victimWay then ⟨true, btbTag u.pc, u.target, u.type, btbOff u.pc⟩ else s.ways w
      victimRr := s.victimWay + 1 }

/-- A branch of the line, at the place of the lookup or behind it. -/
def ahead (pc : Addr) (w : Fin 8) : Bool :=
  (s.ways w).valid && (s.ways w).tag == btbTag pc && decide (btbOff pc ≤ (s.ways w).boff)

def hitAt (w : Fin 8) : BtbHit := ⟨(s.ways w).target, (s.ways w).type, (s.ways w).boff⟩

/-- The loop keeps the first way with the lowest offset. -/
def nearest (sel : Fin 8 → Bool) : Option BtbHit :=
  (leastOf sel fun w => (s.ways w).boff.toNat).map s.hitAt

end BtbSet

abbrev Btb := BitVec 8 → BtbSet

namespace Btb

def reset : Btb := fun _ => ⟨fun _ => ⟨false, 0, 0, 0, 0⟩, 0⟩

variable (s : Btb)

def next (x : BtbIn) : Btb :=
  if x.flush then fun i => ⟨fun w => { (s i).ways w with valid := false }, 0⟩
  else match x.update with
    | some u => fun i => if i = btbIdx u.pc then (s i).update u else s i
    | none => s

/-- `hit` with `target`, `branch_type` and `branch_offset`, and the same for the auxiliary lookup -/
def hit (pc : Addr) : Option BtbHit := (s (btbIdx pc)).nearest ((s (btbIdx pc)).ahead pc)

/-- `alt_hit`: the next branch that is not conditional. -/
def altHit (pc : Addr) : Option BtbHit :=
  (s (btbIdx pc)).nearest fun w =>
    (s (btbIdx pc)).ahead pc w && ((s (btbIdx pc)).ways w).type != btCond

end Btb

/-- Any branch may be recorded in any cycle. -/
def btbs : Machine Btb BtbIn := ⟨.reset, Btb.next, fun _ _ => True⟩

end Rv64gc.Frontend
