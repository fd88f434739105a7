import Rv64gc.Mmu.Tlb
import Rv64gc.Pkg

/-!
# The page-table walker

`ptw.sv`: one walk at a time for both TLBs, data misses first. It reads page-table entries through
the L2, writes A and D bits back through the D-cache, and drops whatever it is doing on a flush.
-/

namespace Rv64gc.Mmu

inductive WalkState where
  | idle | req | wait | fill | fault | adWriteback
deriving DecidableEq

structure Ptw where
  state : WalkState
  walkVa : Va
  walkIsStore : Bool
  walkIsItlb : Bool
  walkRobIdx : RobIdx
  walkPpn : Ppn
  walkLevel : BitVec 2
  walkAsid : Asid
  pte : BitVec 64
  pteAddr : Pa
  /-- The answer to a read of a dropped walk is still to come. -/
  staleRespPending : Bool
  dirtyWb : Option (Pa × BitVec 64)
  adWbPa : Pa
  adWbValue : BitVec 64
  adWbReturnFill : Bool
deriving DecidableEq

structure DtlbReq where
  va : Va
  robIdx : RobIdx
  isStore : Bool

structure L2Resp where
  addr : Pa
  data : BitVec 512

structure PtwIn where
  satp : BitVec 64
  dtlbReq : Option DtlbReq
  itlbReq : Option Va
  dirtyWb : Option (Pa × BitVec 64)
  l2ReqAccepted : Bool
  l2Resp : Option L2Resp
  dcacheStoreAck : Bool
  flush : Bool
  translationFlush : Bool

def PtwIn.flushes (x : PtwIn) : Bool := x.flush || x.translationFlush

def satpSv39 (satp : BitVec 64) : Bool := satp.extractLsb' 60 4 == 8#4
def satpSv48 (satp : BitVec 64) : Bool := satp.extractLsb' 60 4 == 9#4
def satpPpn (satp : BitVec 64) : Ppn := satp.extractLsb' 0 44
def satpAsid (satp : BitVec 64) : Asid := satp.extractLsb' 44 16

/-- The upper bits of the address repeat bit `n - 1`. -/
def canonicalAbove (n : Nat) (va : Va) : Bool :=
  va.extractLsb' n (64 - n) == if va.getLsbD (n - 1) then BitVec.allOnes (64 - n) else 0

def canonical (satp : BitVec 64) (va : Va) : Bool :=
  if satpSv48 satp then canonicalAbove 48 va
  else if satpSv39 satp then canonicalAbove 39 va
  else true

namespace Ptw

def reset : Ptw where
  state := .idle
  walkVa := 0
  walkIsStore := false
  walkIsItlb := false
  walkRobIdx := 0
  walkPpn := 0
  walkLevel := 0
  walkAsid := 0
  pte := 0
  pteAddr := 0
  staleRespPending := false
  dirtyWb := none
  adWbPa := 0
  adWbValue := 0
  adWbReturnFill := false

variable (s : Ptw) (x : PtwIn)

-- ---------------------------------------------------------------------
-- The page-table entry
-- ---------------------------------------------------------------------

/-- The page-table entry of the current level. -/
def pteAddrAt : Pa :=
  let vpn : BitVec 9 :=
    if s.walkLevel = 3 then s.walkVa.extractLsb' 39 9
    else if s.walkLevel = 2 then s.walkVa.extractLsb' 30 9
    else if s.walkLevel = 1 then s.walkVa.extractLsb' 21 9
    else s.walkVa.extractLsb' 12 9
  0#8 ++ s.walkPpn ++ vpn ++ 0#3

/-- `l2_req_addr` -/
def l2ReqAddr : Pa := s.pteAddrAt.extractLsb' 6 58 ++ 0#6

def pteOf (r : L2Resp) : BitVec 64 := r.data.extractLsb' (64 * (s.pteAddr.extractLsb' 3 3).toNat) 64

/-- `pte_resp_match` -/
def pteResp : Option (BitVec 64) :=
  (x.l2Resp.filter fun r => r.addr.extractLsb' 6 58 == s.pteAddr.extractLsb' 6 58).map s.pteOf

def pteInvalid (pte : BitVec 64) : Bool := !pte.getLsbD 0 || pte.getLsbD 2 && !pte.getLsbD 1

def pteLeaf (pte : BitVec 64) : Bool := pte.getLsbD 1 || pte.getLsbD 3

def ptePpn (pte : BitVec 64) : Ppn := pte.extractLsb' 10 44

/-- A is set, and D by a store. -/
def pteFill (pte : BitVec 64) : BitVec 64 := pte ||| 0x40 ||| if s.walkIsStore then 0x80 else 0

def pteAdUpdateNeeded (pte : BitVec 64) : Bool :=
  (s.pteFill pte).extractLsb' 6 2 != pte.extractLsb' 6 2

def superpageMisalign (pte : BitVec 64) : Bool :=
  if s.walkLevel = 3 then (ptePpn pte).extractLsb' 0 27 != 0
  else if s.walkLevel = 2 then (ptePpn pte).extractLsb' 0 18 != 0
  else if s.walkLevel = 1 then (ptePpn pte).extractLsb' 0 9 != 0
  else false

-- ---------------------------------------------------------------------
-- Outputs
-- ---------------------------------------------------------------------

def dirtyWbReady : Bool := s.dirtyWb.isNone

def l2ReqValid : Bool := s.state == .req

/-- `dtlb_fill_valid` and `itlb_fill_valid`, with what is filled. -/
def fillFor (itlb : Bool) : Option Translation :=
  if s.state = .fill ∧ s.walkIsItlb = itlb then
    some {
      vpn := s.walkVa.extractLsb' 12 36
      ppn := ptePpn s.pte
      asid := s.walkAsid
      pageSize := s.walkLevel
      perm := s.pte.extractLsb' 0 8
      ptePa := s.pteAddr }
  else none

def faultValid : Bool := s.state == .fault

def readInflight : Bool := s.state == .wait || s.state == .req && x.l2ReqAccepted

-- ---------------------------------------------------------------------
-- One cycle
-- ---------------------------------------------------------------------

/-- A walk for a data miss, or else for a fetch miss. -/
def start (va : Va) (robIdx : RobIdx) (isStore isItlb : Bool) : Ptw :=
  { s with
    walkVa := va
    walkRobIdx := robIdx
    walkIsStore := isStore
    walkIsItlb := isItlb
    walkPpn := satpPpn x.satp
    walkAsid := satpAsid x.satp
    walkLevel := if satpSv48 x.satp then 3 else 2
    state := if canonical x.satp va then .req else .fault }

/-- A page-table entry has arrived. -/
def step (pte : BitVec 64) : Ptw :=
  let s' := { s with pte := s.pteFill pte }
  if pteInvalid pte then { s' with state := .fault }
  else if pteLeaf pte then
    if s.superpageMisalign pte then { s' with state := .fault }
    else if s.pteAdUpdateNeeded pte then
      { s' with
        adWbPa := s.pteAddr, adWbValue := s.pteFill pte, adWbReturnFill := true
        state := .adWriteback }
    else { s' with state := .fill }
  else if s.walkLevel = 0 then { s' with state := .fault }
  else { s' with walkPpn := ptePpn pte, walkLevel := s.walkLevel - 1, state := .req }

def walk : Ptw :=
  match s.state with
  | .idle =>
    if s.staleRespPending then s
    else match s.dirtyWb, x.dtlbReq, x.itlbReq with
      | some (pa, value), _, _ =>
        { s with adWbPa := pa, adWbValue := value, adWbReturnFill := false, state := .adWriteback }
      | none, some r, _ => s.start x r.va r.robIdx r.isStore false
      | none, none, some va => s.start x va 0 false true
      | none, none, none => s
  | .req => if x.l2ReqAccepted then { s with pteAddr := s.pteAddrAt, state := .wait } else s
  | .wait => match s.pteResp x with
    | some pte => s.step pte
    | none => s
  | .adWriteback =>
    if x.dcacheStoreAck then
      { s with
        state := if s.adWbReturnFill then .fill else .idle
        adWbPa := 0, adWbValue := 0, adWbReturnFill := false }
    else s
  | .fill | .fault => { s with state := .idle }

/-- What the walk was for is dropped. -/
def drop : Ptw :=
  { s with state := .idle, pte := 0, pteAddr := 0, adWbPa := 0, adWbValue := 0,
           adWbReturnFill := false }

/-- The pending mark has been written. -/
def marked : Bool :=
  !x.flushes && s.state == .adWriteback && x.dcacheStoreAck && !s.adWbReturnFill

def next : Ptw :=
  { if x.flushes then s.drop else s.walk x with
    staleRespPending :=
      !x.l2Resp.isSome && (x.flushes && s.readInflight x || s.staleRespPending)
    dirtyWb := if s.marked x then none else s.dirtyWb.or x.dirtyWb }

-- ---------------------------------------------------------------------
-- Reads under way
-- ---------------------------------------------------------------------

/-- `sent` is the read the L2 has not answered: the walk waits for it, or its walk was dropped and
no other begins before the answer. -/
structure Reads (s : Ptw) (sent : Option Pa) : Prop where
  wait : s.state = .wait →
    ∃ pa, sent = some pa ∧ pa.extractLsb' 6 58 = s.pteAddr.extractLsb' 6 58
  out : ∀ pa, sent = some pa → s.state = .wait ∨ s.staleRespPending = true
  stale : s.staleRespPending = true → s.state = .idle

/-- The read that is out after a cycle. -/
def sentNext (sent : Option Pa) : Option Pa :=
  if x.l2ReqAccepted then some s.l2ReqAddr else if x.l2Resp.isSome then none else sent

variable {s x}

theorem next_state_of_flush (flush : x.flushes = true) : (s.next x).state = .idle := by
  simp [next, flush, drop]

theorem next_state (quiet : x.flushes = false) : (s.next x).state = (s.walk x).state := by
  simp [next, quiet]

theorem next_pteAddr (quiet : x.flushes = false) : (s.next x).pteAddr = (s.walk x).pteAddr := by
  simp [next, quiet]

theorem line_l2ReqAddr (s : Ptw) :
    s.l2ReqAddr.extractLsb' 6 58 = s.pteAddrAt.extractLsb' 6 58 := by
  refine BitVec.eq_of_getLsbD_eq fun k inside => ?_
  simp only [BitVec.getLsbD_extractLsb']
  refine congrArg (decide (k < 58) && ·) (BitVec.getLsbD_append.trans ?_)
  simp [inside, -BitVec.getLsbD_eq_getElem]

/-- A page-table entry ends the wait. -/
theorem step_state (pte : BitVec 64) : (s.step pte).state ≠ .wait ∧ (s.step pte).state ≠ .idle := by
  unfold step
  dsimp only
  split_ifs <;> simp

/-- What a cycle of the walk does: `t` is the walker after it. -/
inductive WalkCase (s : Ptw) (x : PtwIn) (t : Ptw) : Prop
  | stays (same : t = s) (read : s.state = .wait → s.pteResp x = none)
      (write : s.state = .adWriteback → x.dcacheStoreAck = false)
      (last : s.state ≠ .fill ∧ s.state ≠ .fault)
  | marks (pa : Pa) (value : BitVec 64) (idle : s.state = .idle)
      (pending : s.dirtyWb = some (pa, value))
      (same : t = { s with
        adWbPa := pa, adWbValue := value, adWbReturnFill := false, state := .adWriteback })
  | begins (va : Va) (robIdx : RobIdx) (isStore isItlb : Bool) (idle : s.state = .idle)
      (same : t = s.start x va robIdx isStore isItlb)
  | asks (req : s.state = .req) (accepted : x.l2ReqAccepted = true)
      (same : t = { s with pteAddr := s.pteAddrAt, state := .wait })
  | answered (pte : BitVec 64) (wait : s.state = .wait) (resp : s.pteResp x = some pte)
      (same : t = s.step pte)
  | acked (writes : s.state = .adWriteback) (ack : x.dcacheStoreAck = true)
      (same : t = { s with
        state := if s.adWbReturnFill then .fill else .idle
        adWbPa := 0, adWbValue := 0, adWbReturnFill := false })
  | ends (last : s.state = .fill ∨ s.state = .fault) (same : t = { s with state := .idle })

theorem walk_cases (s : Ptw) (x : PtwIn) : WalkCase s x (s.walk x) := by
  unfold walk
  cases state : s.state with
  | idle =>
    dsimp only
    have rests : WalkCase s x s := .stays rfl (by simp [state]) (by simp [state]) (by simp [state])
    split
    next => exact rests
    next =>
      split
      next pa value pending => exact .marks pa value state pending rfl
      next => exact .begins _ _ _ _ state rfl
      next => exact .begins _ _ _ _ state rfl
      next => exact rests
  | req =>
    dsimp only
    split
    next accepted => exact .asks state accepted rfl
    next => exact .stays rfl (by simp [state]) (by simp [state]) (by simp [state])
  | wait =>
    dsimp only
    cases resp : s.pteResp x with
    | some pte => exact .answered pte state resp rfl
    | none => exact .stays rfl (fun _ => resp) (by simp [state]) (by simp [state])
  | adWriteback =>
    dsimp only
    split
    next ack => exact .acked state ack rfl
    next waits => exact .stays rfl (by simp [state]) (fun _ => by simpa using waits) (by simp [state])
  | fill => exact .ends (.inl state) rfl
  | fault => exact .ends (.inr state) rfl

theorem start_state (va : Va) (robIdx : RobIdx) (isStore isItlb : Bool) :
    (s.start x va robIdx isStore isItlb).state = .req ∨
      (s.start x va robIdx isStore isItlb).state = .fault := by
  cases here : canonical x.satp va <;> simp [start, here]

/-- A walk waits only after its request was taken, and until the answer. -/
theorem walk_waits (waits : (s.walk x).state = .wait) :
    s.state = .req ∧ x.l2ReqAccepted = true ∧ (s.walk x).pteAddr = s.pteAddrAt ∨
      s.state = .wait ∧ s.pteResp x = none ∧ (s.walk x).pteAddr = s.pteAddr := by
  cases walk_cases s x with
  | stays same read =>
    rw [same] at waits ⊢
    exact .inr ⟨waits, read waits, rfl⟩
  | marks pa value idle pending same =>
    rw [same] at waits
    cases waits
  | begins va robIdx isStore isItlb idle same =>
    rw [same] at waits
    rcases start_state (s := s) (x := x) va robIdx isStore isItlb with req | fault
    · cases req.symm.trans waits
    · cases fault.symm.trans waits
  | asks req accepted same =>
    rw [same]
    exact .inl ⟨req, accepted, rfl⟩
  | answered pte wait resp same =>
    rw [same] at waits
    exact absurd waits (step_state pte).1
  | acked writes ack same =>
    rw [same] at waits
    dsimp only at waits
    split at waits <;> cases waits
  | ends last same =>
    rw [same] at waits
    cases waits

/-- The walker reads one entry at a time and lets no answer through to another walk. -/
theorem Reads.next {sent : Option Pa} (reads : s.Reads sent)
    (accepts : x.l2ReqAccepted = true → s.l2ReqValid = true)
    (answers : ∀ r, x.l2Resp = some r → sent = some r.addr) :
    (s.next x).Reads (s.sentNext x sent) := by
  have asks (accepted : x.l2ReqAccepted = true) : s.state = .req := by
    simpa [l2ReqValid] using accepts accepted
  -- while a request is made, nothing is out
  have free (accepted : x.l2ReqAccepted = true) : x.l2Resp = none := by
    by_contra some
    obtain ⟨r, resp⟩ := Option.ne_none_iff_exists'.mp some
    obtain waits | stale := reads.out _ (answers r resp)
    · cases (asks accepted).symm.trans waits
    · cases (asks accepted).symm.trans (reads.stale stale)
  have kept (pa : Pa) (out : s.sentNext x sent = some pa) (idle : x.l2ReqAccepted = false) :
      x.l2Resp = none ∧ sent = some pa := by
    cases resp : x.l2Resp <;> simp_all [sentNext]
  cases flush : x.flushes with
  | true =>
    refine ⟨by simp [next_state_of_flush flush], fun pa out => .inr ?_,
      fun _ => next_state_of_flush flush⟩
    cases accepted : x.l2ReqAccepted with
    | true => simp [Ptw.next, flush, readInflight, free accepted, asks accepted, accepted]
    | false =>
      obtain ⟨resp, sent⟩ := kept pa out accepted
      obtain waits | stale := reads.out pa sent
      · simp [Ptw.next, flush, readInflight, resp, waits]
      · simp [Ptw.next, flush, resp, stale]
  | false =>
    refine ⟨fun waits => ?_, fun pa out => ?_, fun stale => ?_⟩
    · rw [next_state flush] at waits
      rw [next_pteAddr flush]
      obtain ⟨-, accepted, addr⟩ | ⟨state, none, addr⟩ := walk_waits waits
      · refine ⟨s.l2ReqAddr, by simp [sentNext, accepted], ?_⟩
        rw [addr, line_l2ReqAddr]
      · obtain ⟨pa, sent, line⟩ := reads.wait state
        have idle : x.l2ReqAccepted = false := by
          by_contra accepted
          cases (asks (by simpa using accepted)).symm.trans state
        have resp : x.l2Resp = Option.none := by
          by_contra some
          obtain ⟨r, resp⟩ := Option.ne_none_iff_exists'.mp some
          obtain rfl := Option.some.inj (sent.symm.trans (answers r resp))
          simp [pteResp, resp, line] at none
        exact ⟨pa, by simp [sentNext, idle, resp, sent], by rw [addr, line]⟩
    · cases accepted : x.l2ReqAccepted with
      | true =>
        left
        rw [next_state flush]
        simp [walk, asks accepted, accepted]
      | false =>
        obtain ⟨resp, sent⟩ := kept pa out accepted
        obtain waits | stale := reads.out pa sent
        · left
          rw [next_state flush]
          simp [walk, waits, pteResp, resp]
        · right
          simp [Ptw.next, flush, resp, stale]
    · have stale : s.staleRespPending = true := by
        simp only [Ptw.next, flush, Bool.false_and, Bool.false_or, Bool.and_eq_true] at stale
        exact stale.2
      have idle := reads.stale stale
      rw [next_state flush]
      simp [walk, idle, stale]

-- ---------------------------------------------------------------------
-- Writes
-- ---------------------------------------------------------------------

/-- How the walker comes to write: it takes the mark, it has met a leaf, or it goes on writing. -/
theorem walk_writes (writes : (s.walk x).state = .adWriteback) :
    (s.state = .idle ∧ s.dirtyWb = some ((s.walk x).adWbPa, (s.walk x).adWbValue) ∧
      (s.walk x).adWbReturnFill = false) ∨
    (s.state = .wait ∧ ∃ pte, s.pteResp x = some pte ∧ pteLeaf pte = true ∧
      s.pteAdUpdateNeeded pte = true ∧ (s.walk x).adWbPa = s.pteAddr ∧
      (s.walk x).pteAddr = s.pteAddr ∧ (s.walk x).adWbValue = s.pteFill pte ∧
      (s.walk x).adWbReturnFill = true) ∨
    (s.state = .adWriteback ∧ x.dcacheStoreAck = false ∧ s.walk x = s) := by
  cases walk_cases s x with
  | stays same _ write =>
    rw [same] at writes ⊢
    exact .inr (.inr ⟨writes, write writes, rfl⟩)
  | marks pa value idle pending same =>
    rw [same]
    exact .inl ⟨idle, pending, rfl⟩
  | begins va robIdx isStore isItlb idle same =>
    rw [same] at writes
    rcases start_state (s := s) (x := x) va robIdx isStore isItlb with req | fault
    · cases req.symm.trans writes
    · cases fault.symm.trans writes
  | asks req accepted same =>
    rw [same] at writes
    cases writes
  | answered pte wait resp same =>
    rw [same] at writes ⊢
    refine .inr (.inl ⟨wait, pte, resp, ?_⟩)
    unfold step at writes ⊢
    dsimp only at writes ⊢
    split_ifs at writes ⊢ with invalid leaf skewed needed
    exact ⟨leaf, needed, rfl, rfl, rfl, rfl⟩
  | acked done ack same =>
    rw [same] at writes
    dsimp only at writes
    split at writes <;> cases writes
  | ends last same =>
    rw [same] at writes
    cases writes

/-- How the walker comes to fill: the leaf needs no write, or it has been written. -/
theorem walk_fills (fills : (s.walk x).state = .fill) :
    (s.state = .wait ∧ ∃ pte, s.pteResp x = some pte ∧ s.pteAdUpdateNeeded pte = false ∧
      (s.walk x).pteAddr = s.pteAddr ∧ (s.walk x).pte = s.pteFill pte) ∨
    (s.state = .adWriteback ∧ s.adWbReturnFill = true ∧ x.dcacheStoreAck = true ∧
      (s.walk x).pteAddr = s.pteAddr ∧ (s.walk x).pte = s.pte) := by
  cases walk_cases s x with
  | stays same _ _ last =>
    rw [same] at fills
    exact absurd fills last.1
  | marks pa value idle pending same =>
    rw [same] at fills
    cases fills
  | begins va robIdx isStore isItlb idle same =>
    rw [same] at fills
    rcases start_state (s := s) (x := x) va robIdx isStore isItlb with req | fault
    · cases req.symm.trans fills
    · cases fault.symm.trans fills
  | asks req accepted same =>
    rw [same] at fills
    cases fills
  | answered pte wait resp same =>
    rw [same] at fills ⊢
    refine .inl ⟨wait, pte, resp, ?_⟩
    unfold step at fills ⊢
    dsimp only at fills ⊢
    split_ifs at fills ⊢ with invalid leaf skewed needed
    exact ⟨by simpa using needed, rfl, rfl⟩
  | acked writes ack same =>
    rw [same] at fills ⊢
    dsimp only at fills
    split at fills
    next ret => exact .inr ⟨writes, ret, ack, rfl, rfl⟩
    next => cases fills
  | ends last same =>
    rw [same] at fills
    cases fills

theorem quiet_of_busy (busy : (s.next x).state ≠ .idle) : x.flushes = false := by
  by_contra flush
  exact busy (next_state_of_flush (by simpa using flush))

theorem next_of_busy (busy : (s.next x).state ≠ .idle) : s.next x =
    { s.walk x with
      staleRespPending := (s.next x).staleRespPending
      dirtyWb := (s.next x).dirtyWb } := by
  simp [next, quiet_of_busy busy]

theorem dirtyWb_next : (s.next x).dirtyWb = if s.marked x then none else s.dirtyWb.or x.dirtyWb :=
  rfl

/-- A write that answers nobody is the mark, which waits until it is written. -/
theorem mark_of_writes
    (again : s.state = .adWriteback → s.adWbReturnFill = false →
      s.dirtyWb = some (s.adWbPa, s.adWbValue))
    (writes : (s.next x).state = .adWriteback) (quiet : (s.next x).adWbReturnFill = false) :
    (s.next x).dirtyWb = some ((s.next x).adWbPa, (s.next x).adWbValue) := by
  have walks := next_of_busy (s := s) (x := x) (by simp [writes])
  rw [dirtyWb_next]
  rw [walks] at writes quiet ⊢
  obtain ⟨idle, taken, -⟩ | ⟨-, _, -, -, -, -, -, -, ret⟩ | ⟨writing, ack, same⟩ :=
    walk_writes writes
  · simp [marked, idle, taken]
  · cases ret.symm.trans quiet
  · rw [same] at quiet ⊢
    simp [marked, ack, again writing quiet]

end Ptw

end Rv64gc.Mmu
