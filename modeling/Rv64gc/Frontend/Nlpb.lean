import Rv64gc.Frontend.Icache

/-!
# The next-line prefetch buffer

`next_line_prefetch_buffer`: four lines and the state of the one prefetch that may be under way.
-/

namespace Rv64gc.Frontend

open Hdl

inductive PfState
  | idle
  | req
  | wait
deriving DecidableEq

structure NlpbEntry (α : Type) where
  valid : Bool
  tag : BitVec 58
  data : α

structure Nlpb (α : Type) where
  entry : Fin 4 → NlpbEntry α
  replacePtr : Fin 4
  pfState : PfState
  pfAddr : Addr

structure NlpbIn (α : Type) where
  /-- `trigger_addr`, when `trigger_valid` -/
  trigger : Option Addr
  flush : Bool
  fenceI : Bool
  pfReqReady : Bool
  pfResp : Option (Fill α)

namespace Nlpb

variable (s : Nlpb α) (i : NlpbIn α)

/-- `hit_data`, when an entry matches: the lowest one. -/
def lookup (addr : Addr) : Option α :=
  (firstOf fun k => (s.entry k).valid && (s.entry k).tag == lineOf addr).map
    fun k => (s.entry k).data

/-- `next_already_buffered` looks at the first two of the four entries. -/
def alreadyBuffered (line : BitVec 58) : Bool :=
  ((s.entry 0).valid && (s.entry 0).tag == line) || ((s.entry 1).valid && (s.entry 1).tag == line)

/-- `pf_req_addr`, when `pf_req_valid` -/
def pfReq : Option Addr := if s.pfState = .req then some s.pfAddr else none

/-- The answer is for the prefetch under way, which has not been given up. -/
def takes (f : Fill α) : Bool :=
  s.pfState == .wait && !i.flush && lineOf f.addr == lineOf s.pfAddr

/-- The line just delivered is dropped: the cache has it now. -/
def dropped (k : Fin 4) : Bool :=
  match i.trigger with
  | some addr => (s.entry k).valid && (s.entry k).tag == lineOf addr
  | none => false

/-- The answer written into the buffer. -/
def pfInstall : Option (Fill α) := i.pfResp.filter (s.takes i)

def pfStateNext : PfState :=
  if i.fenceI then .idle
  else match s.pfState with
    | .idle =>
      match i.trigger with
      | some addr => if !s.alreadyBuffered (lineOf addr + 1) && !i.flush then .req else .idle
      | none => .idle
    | .req => if i.flush then .idle else if i.pfReqReady then .wait else .req
    | .wait => if i.flush || (s.pfInstall i).isSome then .idle else .wait

def pfAddrNext : Addr :=
  match i.trigger with
  | some addr =>
    if !i.fenceI && s.pfState == .idle && !s.alreadyBuffered (lineOf addr + 1) && !i.flush then
      lineAddr (lineOf addr + 1)
    else s.pfAddr
  | none => s.pfAddr

def entryNext (k : Fin 4) : NlpbEntry α :=
  if i.fenceI then { s.entry k with valid := false }
  else
    let e := match s.pfInstall i with
      | some f => if k = s.replacePtr then ⟨true, lineOf s.pfAddr, f.data⟩ else s.entry k
      | none => s.entry k
    if s.dropped i k then { e with valid := false } else e

def next : Nlpb α where
  entry := s.entryNext i
  replacePtr :=
    if !i.fenceI && (s.pfInstall i).isSome then s.replacePtr + 1 else s.replacePtr
  pfState := s.pfStateNext i
  pfAddr := s.pfAddrNext i

def reset [Inhabited α] : Nlpb α := ⟨fun _ => ⟨false, 0, default⟩, 0, .idle, 0⟩

-- ---------------------------------------------------------------------
-- What the buffer holds
-- ---------------------------------------------------------------------

/-- Every line the buffer can still hand out has the property. -/
def Holds (P : α → Prop) (s : Nlpb α) : Prop :=
  ∀ k, (s.entry k).valid = true → P (s.entry k).data

variable {s : Nlpb α} {i : NlpbIn α} {P : α → Prop}

theorem holds_reset [Inhabited α] : (reset : Nlpb α).Holds P := nofun

theorem Holds.lookup (held : s.Holds P) (found : s.lookup addr = some d) : P d := by
  obtain ⟨k, first, rfl⟩ := Option.map_eq_some_iff.mp found
  have hit := firstOf_some first
  simp only [Bool.and_eq_true] at hit
  exact held k hit.1

/-- The answer is taken into an entry that is not dropped in the same cycle. -/
def Keeps (s : Nlpb α) (i : NlpbIn α) (f : Fill α) : Prop :=
  s.takes i f = true ∧ s.dropped i s.replacePtr = false

theorem Holds.next (held : s.Holds P)
    (arriving : ∀ f, i.pfResp = some f → s.Keeps i f → P f.data) : (s.next i).Holds P := by
  intro k valid
  simp only [Nlpb.next, entryNext] at valid ⊢
  by_cases fence : i.fenceI = true
  · simp [fence] at valid
  by_cases drop : s.dropped i k = true
  · simp [fence, drop] at valid
  cases installs : s.pfInstall i with
  | none =>
    simp only [fence, drop, installs] at valid ⊢
    exact held k valid
  | some f =>
    by_cases here : k = s.replacePtr
    · obtain ⟨arrives, taken⟩ := Option.filter_eq_some_iff.mp installs
      subst here
      simpa [fence, drop, installs] using arriving f arrives ⟨taken, by simpa using drop⟩
    · simp only [fence, drop, installs, here] at valid ⊢
      exact held k valid

theorem holds_fenced (fence : i.fenceI = true) : (s.next i).Holds P := by
  intro k valid
  simp [next, entryNext, fence] at valid

theorem Holds.arrived (held : (s.next i).Holds P) (fence : i.fenceI = false)
    (arrives : i.pfResp = some f) (keeps : s.Keeps i f) : P f.data := by
  have installs : s.pfInstall i = some f := Option.filter_eq_some_iff.mpr ⟨arrives, keeps.1⟩
  have there := held s.replacePtr
  simpa [Nlpb.next, entryNext, fence, installs, keeps.2] using there

end Nlpb

end Rv64gc.Frontend
