import Mathlib.Logic.Function.Basic
import Rv64gc.Hdl.Bits
import Rv64gc.Hdl.Select

/-!
# The instruction cache

`icache`: a tag and a data RAM with synchronous reads, a tree-PLRU victim for each set and two
miss registers. The contents of a line are left open: nothing in the cache looks inside one.
-/

namespace Rv64gc.Frontend

open Hdl

abbrev Addr := BitVec 64

/-- `addr[63:LINE_BITS]` -/
def lineOf (a : Addr) : BitVec 58 := a.extractLsb' 6 58
def setOf (a : Addr) : BitVec 6 := a.extractLsb' 6 6
def tagOf (a : Addr) : BitVec 52 := a.extractLsb' 12 52

/-- `{line, {LINE_BITS{1'b0}}}` -/
def lineAddr (line : BitVec 58) : Addr := line ++ (0 : BitVec 6)

-- ---------------------------------------------------------------------
-- Tree PLRU
-- ---------------------------------------------------------------------

/-- `plru_touch`: the nodes on the path to the way point away from it. -/
def plruTouch (ps : BitVec 7) (acc : Fin 8) : BitVec 7 :=
  let way := BitVec.ofFin (w := 3) acc
  let a0 := way.getLsbD 2
  let a1 := way.getLsbD 1
  let a2 := way.getLsbD 0
  let ns := put ps 0 (!a0)
  let ns := if a0 then put ns 2 (!a1) else put ns 1 (!a1)
  if a0 then if a1 then put ns 6 (!a2) else put ns 5 (!a2)
  else if a1 then put ns 4 (!a2) else put ns 3 (!a2)

/-- `victim_way`: from the root along each node's bit. -/
def plruVictim (ps : BitVec 7) : Fin 8 :=
  let vb0 := ps.getLsbD 0
  let vb1 := if vb0 then ps.getLsbD 2 else ps.getLsbD 1
  let vb2 := if vb0 then if ps.getLsbD 2 then ps.getLsbD 6 else ps.getLsbD 5
    else if ps.getLsbD 1 then ps.getLsbD 4 else ps.getLsbD 3
  (BitVec.ofBool vb0 ++ BitVec.ofBool vb1 ++ BitVec.ofBool vb2).toFin

-- ---------------------------------------------------------------------
-- State
-- ---------------------------------------------------------------------

structure Mshr (α : Type) where
  valid : Bool
  addr : Addr
  victim : Fin 8
  reqSent : Bool
  fillDone : Bool
  fillData : α

structure Icache (α : Type) where
  s1Valid : Bool
  s1Addr : Addr
  s1Pa : Addr
  validArr : BitVec 6 → Fin 8 → Bool
  tagArr : BitVec 6 → Fin 8 → BitVec 52
  dataArr : Fin 8 → BitVec 6 → α
  validOut : Fin 8 → Bool
  tagOut : Fin 8 → BitVec 52
  rdata : Fin 8 → α
  plruState : BitVec 6 → BitVec 7
  mshr : Fin 2 → Mshr α

/-- A line the L2 answers with. -/
structure Fill (α : Type) where
  addr : Addr
  data : α

structure IcacheIn (α : Type) where
  reqValid : Bool
  reqAddr : Addr
  reqPa : Addr
  fillReqAccepted : Bool
  fillResp : Option (Fill α)
  invalidateAll : Bool

structure IcacheResp (α : Type) where
  data : α
  hit : Bool

/-- A write of one way of the tag and data RAMs. -/
structure Install (α : Type) where
  addr : Addr
  victim : Fin 8
  data : α

namespace Icache

variable (s : Icache α) (i : IcacheIn α)

-- ---------------------------------------------------------------------
-- Lookup
-- ---------------------------------------------------------------------

/-- `hit_way`, when `cache_hit` -/
def hitWay : Option (Fin 8) := lastOf fun w => s.validOut w && s.tagOut w == tagOf s.s1Pa

def freeIdx : Option (Fin 2) := firstOf fun m => !(s.mshr m).valid

def addrMatch : Bool :=
  (List.finRange 2).any fun m => (s.mshr m).valid && lineOf (s.mshr m).addr == lineOf s.s1Pa

/-- `ic_mshr_req_idx`, when `ic_mshr_need_req` -/
def reqIdx : Option (Fin 2) :=
  firstOf fun m => (s.mshr m).valid && !(s.mshr m).reqSent && !(s.mshr m).fillDone

/-- `fill_req_addr`, when `fill_req_valid` -/
def fillReq : Option Addr := s.reqIdx.map fun m => lineAddr (lineOf (s.mshr m).addr)

/-- `ic_mshr_install_idx`, when `ic_mshr_install_avail` -/
def installIdx : Option (Fin 2) := firstOf fun m => (s.mshr m).valid && (s.mshr m).fillDone

/-- The miss register waits for the line of the answer. -/
def awaits (f : Fill α) (m : Fin 2) : Bool :=
  (s.mshr m).valid && !(s.mshr m).fillDone && lineOf f.addr == lineOf (s.mshr m).addr

/-- `sc_install_idx` and the answer, when `sc_install_valid` -/
def scInstall : Option (Fin 2 × Fill α) := do
  let f ← i.fillResp
  let m ← lastOf (s.awaits f)
  return (m, f)

/-- What `tr_we` writes: the answer of this cycle before a stored one. -/
def install : Option (Install α) :=
  match s.scInstall i with
  | some (m, f) => some ⟨(s.mshr m).addr, (s.mshr m).victim, f.data⟩
  | none => s.installIdx.map fun m => ⟨(s.mshr m).addr, (s.mshr m).victim, (s.mshr m).fillData⟩

-- ---------------------------------------------------------------------
-- Response
-- ---------------------------------------------------------------------

/-- The answer of this cycle is forwarded to the request of stage 1. Any miss register that has
sent a request will do: it need not be the one for the line. -/
def forwards (f : Fill α) : Bool :=
  s.s1Valid && ((List.finRange 2).any fun m => (s.mshr m).valid && (s.mshr m).reqSent) &&
    lineOf f.addr == lineOf s.s1Pa

/-- `mshr_fwd_data`, when `mshr_fwd_valid` -/
def mshrFwd : Option α :=
  match i.fillResp.filter s.forwards with
  | some f => some f.data
  | none =>
    if s.s1Valid then
      (lastOf fun m => (s.mshr m).valid && (s.mshr m).fillDone &&
        lineOf (s.mshr m).addr == lineOf s.s1Pa).map fun m => (s.mshr m).fillData
    else none

def resp : Option (IcacheResp α) :=
  match s.mshrFwd i with
  | some d => some ⟨d, false⟩
  | none =>
    if s.s1Valid && !i.invalidateAll then s.hitWay.map fun w => ⟨s.rdata w, true⟩ else none

-- ---------------------------------------------------------------------
-- The clock edge
-- ---------------------------------------------------------------------

def allocates : Bool := s.s1Valid && s.hitWay.isNone && !i.invalidateAll && !s.addrMatch

/-- The assignments to one miss register, in the order of the source. -/
def mshrNext (m : Fin 2) : Mshr α :=
  if i.invalidateAll then
    { s.mshr m with valid := false, reqSent := false, fillDone := false }
  else
    let e := if s.allocates i && s.freeIdx == some m then
        { s.mshr m with
          valid := true, addr := s.s1Pa, victim := plruVictim (s.plruState (setOf s.s1Addr))
          reqSent := false, fillDone := false }
      else s.mshr m
    let e := if i.fillReqAccepted && s.reqIdx == some m then { e with reqSent := true } else e
    match s.scInstall i with
    | some (k, _) => if k = m then { e with valid := false } else e
    | none =>
      let e := match i.fillResp with
        | some f =>
          if s.awaits f m && (s.mshr m).reqSent then
            { e with fillDone := true, fillData := f.data }
          else e
        | none => e
      if s.installIdx = some m then { e with valid := false } else e

def plruNext : BitVec 6 → BitVec 7 :=
  let touch (set : BitVec 6) (way : Fin 8) :=
    Function.update s.plruState set (plruTouch (s.plruState set) way)
  if i.invalidateAll then s.plruState
  else match (if s.s1Valid then s.hitWay else none), s.install i with
    | some w, _ => touch (setOf s.s1Addr) w
    | none, some e => touch (setOf e.addr) e.victim
    | none, none => s.plruState

def validArrNext : BitVec 6 → Fin 8 → Bool :=
  if i.invalidateAll then fun _ _ => false
  else match s.install i with
    | some e => fun set way =>
      if set = setOf e.addr ∧ way = e.victim then true else s.validArr set way
    | none => s.validArr

def tagArrNext : BitVec 6 → Fin 8 → BitVec 52 :=
  if i.invalidateAll then s.tagArr
  else match s.install i with
    | some e => fun set way =>
      if set = setOf e.addr ∧ way = e.victim then tagOf e.addr else s.tagArr set way
    | none => s.tagArr

/-- The data RAM has no invalidation: a line can be written under a tag that is being cleared. -/
def dataArrNext : Fin 8 → BitVec 6 → α :=
  match s.install i with
  | some e => fun way set =>
    if set = setOf e.addr ∧ way = e.victim then e.data else s.dataArr way set
  | none => s.dataArr

def next : Icache α where
  s1Valid := i.reqValid
  s1Addr := i.reqAddr
  s1Pa := i.reqPa
  validArr := s.validArrNext i
  tagArr := s.tagArrNext i
  dataArr := s.dataArrNext i
  validOut := s.validArr (setOf i.reqAddr)
  tagOut := s.tagArr (setOf i.reqAddr)
  rdata w := s.dataArr w (setOf i.reqAddr)
  plruState := s.plruNext i
  mshr := s.mshrNext i

def reset [Inhabited α] : Icache α where
  s1Valid := false
  s1Addr := 0
  s1Pa := 0
  validArr _ _ := false
  tagArr _ _ := 0
  dataArr _ _ := default
  validOut _ := false
  tagOut _ := 0
  rdata _ := default
  plruState _ := 0
  mshr _ := ⟨false, 0, 0, false, false, default⟩

-- ---------------------------------------------------------------------
-- What the cache holds
-- ---------------------------------------------------------------------

/-- Every line the cache can still hand out has the property. -/
structure Holds (P : α → Prop) (s : Icache α) : Prop where
  ways : ∀ set way, s.validArr set way = true → P (s.dataArr way set)
  read : s.s1Valid = true → ∀ way, s.validOut way = true → P (s.rdata way)
  mshrs : ∀ m, (s.mshr m).valid = true → (s.mshr m).fillDone = true → P (s.mshr m).fillData

variable {s : Icache α} {i : IcacheIn α} {P : α → Prop}

theorem holds_reset [Inhabited α] : (reset : Icache α).Holds P where
  ways := nofun
  read := nofun
  mshrs := nofun

theorem valid_of_hitWay (hit : s.hitWay = some w) : s.validOut w = true := by
  have found := lastOf_some hit
  simp only [Bool.and_eq_true] at found
  exact found.1

theorem mshrFwd_arriving (arrives : i.fillResp = some f) (forwarded : s.forwards f = true) :
    s.mshrFwd i = some f.data := by
  simp [mshrFwd, arrives, forwarded, Option.filter]

/-- Where forwarded data comes from. -/
theorem mshrFwd_cases (fwd : s.mshrFwd i = some d) :
    (∃ f, i.fillResp = some f ∧ s.forwards f = true ∧ d = f.data) ∨
      ∃ m, (s.mshr m).valid = true ∧ (s.mshr m).fillDone = true ∧ d = (s.mshr m).fillData := by
  unfold mshrFwd at fwd
  split at fwd
  next f arriving =>
    obtain ⟨arrives, forwarded⟩ := Option.filter_eq_some_iff.mp arriving
    exact .inl ⟨f, arrives, forwarded, (Option.some.inj fwd).symm⟩
  next =>
    split at fwd
    · obtain ⟨m, last, rfl⟩ := Option.map_eq_some_iff.mp fwd
      have found := lastOf_some last
      simp only [Bool.and_eq_true] at found
      exact .inr ⟨m, found.1.1, found.1.2, rfl⟩
    · cases fwd

theorem resp_arriving (arrives : i.fillResp = some f) (forwarded : s.forwards f = true) :
    s.resp i = some ⟨f.data, false⟩ := by
  simp [resp, mshrFwd_arriving arrives forwarded]

theorem Holds.resp (held : s.Holds P)
    (arriving : ∀ f, i.fillResp = some f → s.forwards f = true → P f.data)
    (answer : s.resp i = some r) : P r.data := by
  unfold Icache.resp at answer
  split at answer
  next d fwd =>
    cases answer
    obtain ⟨f, arrives, forwarded, rfl⟩ | ⟨m, valid, done, rfl⟩ := mshrFwd_cases fwd
    · exact arriving f arrives forwarded
    · exact held.mshrs m valid done
  next =>
    split at answer
    next looked =>
      obtain ⟨w, hit, rfl⟩ := Option.map_eq_some_iff.mp answer
      simp only [Bool.and_eq_true] at looked
      exact held.read looked.1 w (valid_of_hitWay hit)
    next => cases answer

theorem scInstall_cases (sc : s.scInstall i = some (m, f)) :
    i.fillResp = some f ∧ s.awaits f m = true := by
  simp only [scInstall, Option.bind_eq_bind, Option.bind_eq_some_iff] at sc
  obtain ⟨f', arrives, m', last, eq⟩ := sc
  cases eq
  exact ⟨arrives, lastOf_some last⟩

/-- An awaited answer is written in the cycle it arrives, whatever else waits to be. -/
theorem install_arriving (arrives : i.fillResp = some f) (awaited : s.awaits f m = true) :
    ∃ e, s.install i = some e ∧ e.data = f.data := by
  cases last : lastOf (s.awaits f) with
  | none => exact absurd (lastOf_none.mp last m) (by simp [awaited])
  | some k => exact ⟨_, by simp [install, scInstall, arrives, last]; rfl, rfl⟩

theorem Holds.install (held : s.Holds P)
    (arriving : ∀ f m, i.fillResp = some f → s.awaits f m = true → P f.data)
    (writes : s.install i = some e) : P e.data := by
  unfold Icache.install at writes
  split at writes
  next m f sc =>
    cases writes
    obtain ⟨arrives, awaited⟩ := scInstall_cases sc
    exact arriving f m arrives awaited
  next =>
    obtain ⟨m, first, rfl⟩ := Option.map_eq_some_iff.mp writes
    have found := firstOf_some first
    simp only [Bool.and_eq_true] at found
    exact held.mshrs m found.1 found.2

/-- A miss register that holds an answer after the edge held it before, or takes it now. -/
theorem mshrNext_done (valid : (s.mshrNext i m).valid = true)
    (done : (s.mshrNext i m).fillDone = true) :
    ((s.mshr m).valid = true ∧ (s.mshr m).fillDone = true ∧
        (s.mshrNext i m).fillData = (s.mshr m).fillData) ∨
      ∃ f, i.fillResp = some f ∧ s.awaits f m = true ∧ (s.mshrNext i m).fillData = f.data := by
  unfold mshrNext at *
  grind

theorem Holds.next (held : s.Holds P)
    (arriving : ∀ f m, i.fillResp = some f → s.awaits f m = true → P f.data) :
    (s.next i).Holds P where
  ways set way valid := by
    simp only [Icache.next, validArrNext, dataArrNext] at valid ⊢
    split at valid
    · cases valid
    · cases writes : s.install i with
      | none => exact held.ways set way (by simpa [writes] using valid)
      | some e =>
        by_cases there : set = setOf e.addr ∧ way = e.victim
        · simpa [there] using held.install arriving writes
        · simpa [there] using held.ways set way (by simpa [writes, there] using valid)
  read _ way valid := held.ways _ way valid
  mshrs m valid done := by
    obtain ⟨wasValid, wasDone, same⟩ | ⟨f, arrives, awaited, taken⟩ := mshrNext_done valid done
    · exact same ▸ held.mshrs m wasValid wasDone
    · exact taken ▸ arriving f m arrives awaited

/-- After an invalidation nothing is left, unless a lookup has just read the RAMs. -/
theorem holds_invalidated (invalidates : i.invalidateAll = true) (quiet : i.reqValid = false) :
    (s.next i).Holds P where
  ways set way valid := by simp [next, validArrNext, invalidates] at valid
  read valid := by simp [next, quiet] at valid
  mshrs m valid := by simp [next, mshrNext, invalidates] at valid

/-- The awaited answer stays in the cache. -/
theorem Holds.arrived (held : (s.next i).Holds P) (keeps : i.invalidateAll = false)
    (arrives : i.fillResp = some f) (awaited : s.awaits f m = true) : P f.data := by
  obtain ⟨e, writes, same⟩ := install_arriving arrives awaited
  have there := held.ways (setOf e.addr) e.victim
    (by simp [Icache.next, validArrNext, keeps, writes])
  simpa [Icache.next, dataArrNext, writes, same] using there

end Icache

end Rv64gc.Frontend
