import Rv64gc.Decode.Insn
import Rv64gc.Hdl.Machine
import Rv64gc.Pkg

/-!
# The uop cache

`uop_cache.sv`, with `UOP_CACHE_ENABLE`: a builder strings decoded operations together until an entry
is full or an operation seals it, and installs the entry under the PC of its first operation. The set
of the predicted next PC is looked up in every cycle, and a hit can replace the decoder.
-/

namespace Rv64gc.Frontend

open Hdl

/-- `UOC_PER_ENTRY` -/
abbrev uocPerEntry : Nat := pipeWidth

abbrev UocIndex := BitVec 5

abbrev UocTag := BitVec 58

abbrev UocWay := Fin 8

def pcIndex (pc : BitVec 64) : UocIndex := pc.extractLsb' 1 5

def pcTag (pc : BitVec 64) : UocTag := pc.extractLsb' 6 58

-- ---------------------------------------------------------------------
-- Operations
-- ---------------------------------------------------------------------

/-- What comes behind the operation, as it is predicted; `next_group_pc` of a group that ends in it. -/
def nextPc (op : DecodedInsn) : BitVec 64 :=
  if op.bp.taken then op.bp.target else op.pc + if op.isRvc then 2 else 4

def opSeals (op : DecodedInsn) : Bool :=
  op.isJalr || op.isCsr || op.isFence || op.isFenceI || op.isEcall || op.isEbreak || op.isMret ||
    op.isSret || op.isSfenceVma || op.isWfi || op.isAmo || op.hasException

def opSealsAfter (op : DecodedInsn) : Bool := opSeals op || op.isFused

-- ---------------------------------------------------------------------
-- The builder
-- ---------------------------------------------------------------------

/-- `build_ops_r`, as many as `build_count_r` says, with `build_head_pc_r`, `build_valid_r` and
`build_next_pc_r`. -/
structure TraceBuild where
  ops : List DecodedInsn
  head : BitVec 64
  valid : Bool
  next : BitVec 64

/-- `install_c` with what is installed -/
structure Sealed where
  head : BitVec 64
  ops : List DecodedInsn

namespace TraceBuild

variable (b : TraceBuild)

/-- `group_contig`; a build in progress that is not continued is installed. -/
def restart (pc : BitVec 64) : TraceBuild × Option Sealed :=
  if b.valid && pc == b.next then (b, none)
  else ({ b with ops := [], head := pc, valid := true },
    if b.valid && !b.ops.isEmpty then some ⟨b.head, b.ops⟩ else none)

/-- One turn of the loop; nothing is appended behind an install. -/
def append (x : TraceBuild × Option Sealed) (op : DecodedInsn) : TraceBuild × Option Sealed :=
  match x.2 with
  | some _ => x
  | none =>
    let ops := x.1.ops ++ [op]
    if ops.length == uocPerEntry || opSealsAfter op then
      (⟨[], nextPc op, !opSeals op, nextPc op⟩, some ⟨x.1.head, ops⟩)
    else ({ x.1 with ops := ops, next := nextPc op }, none)

/-- A group that is fed to the builder. -/
def accumulate (group : List DecodedInsn) : TraceBuild × Option Sealed :=
  match group with
  | [] => (b, none)
  | op :: rest => (op :: rest).foldl append (b.restart op.pc)

end TraceBuild

-- ---------------------------------------------------------------------
-- Replacement
-- ---------------------------------------------------------------------

def UopCache.plruVictim (p : Fin 7 → Bool) : UocWay :=
  if !p 0 then
    if !p 1 then if p 3 then 1 else 0
    else if p 4 then 3 else 2
  else
    if !p 2 then if p 5 then 5 else 4
    else if p 6 then 7 else 6

def UopCache.plruUpdate (p : Fin 7 → Bool) (w : UocWay) : Fin 7 → Bool :=
  let bit := w.val.testBit
  fun k =>
    match k with
    | 0 => !bit 2
    | 1 => if bit 2 then p 1 else !bit 1
    | 2 => if bit 2 then !bit 1 else p 2
    | 3 => if !bit 2 && !bit 1 then !bit 0 else p 3
    | 4 => if !bit 2 && bit 1 then !bit 0 else p 4
    | 5 => if bit 2 && !bit 1 then !bit 0 else p 5
    | 6 => if bit 2 && bit 1 then !bit 0 else p 6

-- ---------------------------------------------------------------------
-- The cache
-- ---------------------------------------------------------------------

/-- The plusargs of a simulation; a synthesized cache has neither. -/
structure UocPolicy where
  allowPartialGroups : Bool
  allowControlGroups : Bool

structure UopCache where
  /-- `valid_arr`, `tag_arr` and, as long as the count says, `insn_arr` -/
  valid : UocIndex → UocWay → Bool
  tag : UocIndex → UocWay → UocTag
  data : UocIndex → UocWay → List DecodedInsn
  plru : UocIndex → Fin 7 → Bool
  /-- What the RAMs have read for `lookup_pc_r`. -/
  validOut : UocWay → Bool
  tagOut : UocWay → UocTag
  rdata : UocWay → List DecodedInsn
  lookupPc : BitVec 64
  lookupValid : Bool
  predictedNextPc : BitVec 64
  /-- `state_r` is `UOC_PLAYING`. -/
  playing : Bool
  build : TraceBuild

structure UopIn where
  /-- The first `fused_count` of `fused_insn` -/
  fused : List DecodedInsn
  redirect : Option (BitVec 64)
  invalidate : Bool
  stall : Bool

namespace UopCache

def reset : UopCache where
  valid _ _ := false
  tag _ _ := 0
  data _ _ := []
  plru _ _ := false
  validOut _ := false
  tagOut _ := 0
  rdata _ := []
  lookupPc := 0
  lookupValid := false
  predictedNextPc := 0x80000000
  playing := false
  build := ⟨[], 0, false, 0⟩

variable (policy : UocPolicy) (s : UopCache) (i : UopIn)

-- ---------------------------------------------------------------------
-- The lookup
-- ---------------------------------------------------------------------

/-- `hit_way_oh_c` -/
def hitWayOh (w : UocWay) : Bool := s.validOut w && s.tagOut w == pcTag s.lookupPc

def hit : Bool := s.lookupValid && (List.finRange 8).any s.hitWayOh

/-- The last way that hits. -/
def hitWay : UocWay := ((List.finRange 8).filter s.hitWayOh).getLast?.getD 0

def hitData : List DecodedInsn := s.rdata s.hitWay

/-- `hit_data_unplayable_c` -/
def hitDataUnplayable : Bool :=
  s.hitData.isEmpty || !policy.allowPartialGroups && s.hitData.length != pipeWidth ||
    s.hitData.any fun op =>
      op.isFused || !policy.allowControlGroups && (op.isBranch || op.isJal || op.isJalr) ||
        op.isCsr || op.isFence || op.isFenceI || op.isEcall || op.isEbreak || op.isMret ||
        op.isSret || op.isSfenceVma || op.isWfi || op.isAmo || op.hasException || !op.valid

/-- `emit_valid_c` -/
def active : Bool :=
  s.hit && !s.hitDataUnplayable policy && i.redirect.isNone && !i.invalidate

/-- `uoc_insn` and `uoc_count` -/
def uocInsn : List DecodedInsn := if s.active policy i then s.hitData else []

def emit : Bool := s.active policy i && !i.stall

def nextGroupPc (group : List DecodedInsn) : BitVec 64 :=
  (group.getLast?.map nextPc).getD s.predictedNextPc

/-- `predicted_next_pc_c` -/
def predictedNext : BitVec 64 :=
  match i.redirect with
  | some pc => pc
  | none =>
    if s.emit policy i then s.nextGroupPc s.hitData
    else if !s.playing && !i.fused.isEmpty then s.nextGroupPc i.fused
    else s.predictedNextPc

-- ---------------------------------------------------------------------
-- The install
-- ---------------------------------------------------------------------

/-- `fill_feed_c` -/
def fillFeed : Bool :=
  !s.playing && !s.active policy i && !i.fused.isEmpty && i.redirect.isNone && !i.invalidate

/-- What the builder makes of the cycle. -/
def built : TraceBuild × Option Sealed :=
  if i.redirect.isSome || i.invalidate then ({ s.build with ops := [], valid := false }, none)
  else if s.fillFeed policy i then s.build.accumulate i.fused
  else (s.build, none)

def dupSkip (x : Sealed) : Bool :=
  pcIndex x.head == pcIndex s.lookupPc && s.hit && s.lookupPc == x.head

/-- `do_fill_c` with what is filled -/
def doFill : Option Sealed := (s.built policy i).2.filter fun x => !s.dupSkip x

def victimWay (x : Sealed) : UocWay := plruVictim (s.plru (pcIndex x.head))

def filled (x : Sealed) : UopCache := { s with
  valid set w := if set = pcIndex x.head ∧ w = s.victimWay x then true else s.valid set w
  tag set w := if set = pcIndex x.head ∧ w = s.victimWay x then pcTag x.head else s.tag set w
  data set w := if set = pcIndex x.head ∧ w = s.victimWay x then x.ops else s.data set w
  plru set :=
    if set = pcIndex x.head then plruUpdate (s.plru set) (s.victimWay x) else s.plru set }

/-- The arrays behind the fill. -/
def arrays : UopCache := (s.doFill policy i).elim s s.filled

/-- A hit is used, unless its set is filled. -/
def plruNext (set : UocIndex) : Fin 7 → Bool :=
  if set = pcIndex s.lookupPc && s.hit &&
      !(s.doFill policy i).any fun x => pcIndex x.head == pcIndex s.lookupPc then
    plruUpdate (s.plru set) s.hitWay
  else (s.arrays policy i).plru set

def next : UopCache where
  valid set w := !i.invalidate && (s.arrays policy i).valid set w
  tag := (s.arrays policy i).tag
  data := (s.arrays policy i).data
  plru := s.plruNext policy i
  validOut := s.valid (pcIndex (s.predictedNext policy i))
  tagOut := s.tag (pcIndex (s.predictedNext policy i))
  rdata := s.data (pcIndex (s.predictedNext policy i))
  lookupPc := s.predictedNext policy i
  lookupValid := i.redirect.isNone && !i.invalidate
  predictedNextPc := s.predictedNext policy i
  playing :=
    i.redirect.isNone && !i.invalidate && (s.emit policy i || s.playing && i.stall)
  build := (s.built policy i).1

end UopCache

end Rv64gc.Frontend
