import Rv64gc.Frontend.LineFetch
import Rv64gc.Hdl.Machine

/-!
# FENCE.I and the lines fetch holds

A retiring FENCE.I redirects fetch and clears the cache, the miss registers, the prefetch buffer
and every line register. The L2 is not told: its answers to older requests still come, and they
are recognised by their address alone.
-/

namespace Rv64gc.Frontend

open Hdl

/-- A line with the number of FENCE.Is that had retired when the L2 took the request for it: its
bytes are at least as new as the last of them. -/
structure Line where
  bits : BitVec 512
  sent : Nat
deriving DecidableEq

instance : Inhabited Line := ⟨⟨0, 0⟩⟩

def Line.SinceFence (fences : Nat) (l : Line) : Prop := fences ≤ l.sent

/-- Line fetch, the FENCE.Is retired so far, and the requests the L2 has taken. -/
structure FetchState where
  lines : LineFetch Line
  fences : Nat
  icacheSent : List (BitVec 58 × Nat)
  prefetchSent : List (BitVec 58 × Nat)

namespace FetchState

variable (s : FetchState) (i : LineFetchIn Line)

def fencesNext : Nat := if i.fenceI then s.fences + 1 else s.fences

def sentNext (accepted : Bool) (req : Option Addr) (sent : List (BitVec 58 × Nat)) :
    List (BitVec 58 × Nat) :=
  match req with
  | some addr => if accepted then (lineOf addr, s.fencesNext i) :: sent else sent
  | none => sent

def next : FetchState where
  lines := s.lines.next i
  fences := s.fencesNext i
  icacheSent := s.sentNext i i.icacheFillReqAccepted s.lines.icache.fillReq s.icacheSent
  prefetchSent := s.sentNext i i.pfL2ReqReady s.lines.nlpb.pfReq s.prefetchSent

/-- The answer is to a request the L2 has taken; it may come at any time, and more than once, as
the hit pipeline replays. -/
def Answers (f : Fill Line) (sent : List (BitVec 58 × Nat)) : Prop :=
  (lineOf f.addr, f.data.sent) ∈ sent

/-- A FENCE.I retires with a redirect, and the L2 answers what it was asked. -/
structure Legal : Prop where
  redirects : i.fenceI = true → i.flush = true
  fill : ∀ f, i.icacheFillResp = some f → Answers f s.icacheSent
  prefetch : ∀ f, i.pfL2Resp = some f → Answers f s.prefetchSent

end FetchState

def fetchRuns : Machine FetchState (LineFetchIn Line) where
  reset := ⟨.reset, 0, [], []⟩
  next := FetchState.next
  legal := FetchState.Legal

-- ---------------------------------------------------------------------
-- Only new lines
-- ---------------------------------------------------------------------

namespace FetchState

/-- No line requested before the last FENCE.I is held anywhere in fetch. -/
def HoldsNew (s : FetchState) : Prop := s.lines.Holds (Line.SinceFence s.fences)

/-- The cycle uses no line requested before the last FENCE.I, and installs none. -/
def UsesNew (s : FetchState) (i : LineFetchIn Line) : Prop :=
  s.lines.Serves (Line.SinceFence s.fences) i ∧ (s.next i).HoldsNew

/-- No answer older than the last FENCE.I finds a taker: a miss register waiting for its line, the
request in stage 1 while any miss register has sent one, or the prefetch under way. -/
structure NoTaker (s : FetchState) (i : LineFetchIn Line) : Prop where
  fill : ∀ f, i.icacheFillResp = some f → f.data.sent < s.fences →
    (∀ m, s.lines.icache.awaits f m = false) ∧ ¬(i.flush = false ∧ s.lines.icache.forwards f = true)
  prefetch : ∀ f, i.pfL2Resp = some f → f.data.sent < s.fences →
    ¬s.lines.nlpb.Keeps (s.lines.nlpbIn i) f

/-- In a cycle that retires no FENCE.I, no old answer finds a taker. -/
def NoOldAnswer (s : FetchState) (i : LineFetchIn Line) : Prop := i.fenceI = false → s.NoTaker i

variable {s : FetchState} {i : LineFetchIn Line}

theorem fences_kept (fence : i.fenceI = false) : (s.next i).fences = s.fences := by
  simp [next, fencesNext, fence]

theorem NoTaker.usesNew (taker : s.NoTaker i) (held : s.HoldsNew) (fence : i.fenceI = false) :
    s.UsesNew i := by
  have serves : s.lines.Serves (Line.SinceFence s.fences) i := by
    refine LineFetch.Holds.serves held fun noFlush r answer => ?_
    refine held.icache.resp (fun f arrives forwarded => ?_) answer
    by_contra old
    exact (taker.fill f arrives (Nat.lt_of_not_le old)).2 ⟨noFlush, forwarded⟩
  refine ⟨serves, ?_⟩
  rw [HoldsNew, fences_kept fence]
  refine LineFetch.Holds.next held serves (fun f m arrives awaited => ?_) fun f arrives keeps => ?_
  · by_contra old
    have none := (taker.fill f arrives (Nat.lt_of_not_le old)).1 m
    rw [awaited] at none
    cases none
  · by_contra old
    exact taker.prefetch f arrives (Nat.lt_of_not_le old) keeps

/-- What is used or installed is what found a taker. -/
theorem UsesNew.noTaker (uses : s.UsesNew i) (fence : i.fenceI = false) : s.NoTaker i := by
  obtain ⟨serves, held⟩ := uses
  rw [HoldsNew, fences_kept fence] at held
  constructor
  · intro f arrives old
    refine ⟨fun m => Bool.eq_false_iff.mpr fun awaited => ?_, fun ⟨noFlush, forwarded⟩ => ?_⟩
    · exact Nat.not_lt_of_le (held.icache.arrived fence arrives awaited) old
    · exact Nat.not_lt_of_le
        (serves.icache noFlush _ (Icache.resp_arriving arrives forwarded)) old
  · intro f arrives old keeps
    exact Nat.not_lt_of_le (held.nlpb.arrived fence arrives keeps) old

/-- In the cycle of the FENCE.I nothing but the line registers is delivered, and all is cleared. -/
theorem usesNew_fence (held : s.HoldsNew) (fence : i.fenceI = true) (flush : i.flush = true) :
    s.UsesNew i :=
  ⟨LineFetch.Holds.serves held fun noFlush => by simp [flush] at noFlush,
    LineFetch.holds_fenced fence flush⟩

theorem usesNew_iff (held : s.HoldsNew) (legal : s.Legal i) : s.UsesNew i ↔ s.NoOldAnswer i := by
  cases fence : i.fenceI with
  | true => simp [NoOldAnswer, fence, usesNew_fence held fence (legal.redirects fence)]
  | false =>
    constructor
    · exact fun uses _ => uses.noTaker fence
    · exact fun taker => (taker fence).usesNew held fence

end FetchState

open FetchState

theorem holdsNew_of_reach (reach : fetchRuns.Reach NoOldAnswer s) : s.HoldsNew := by
  refine reach.invariant HoldsNew ?reset ?cycle
  case reset => exact LineFetch.holds_reset
  case cycle =>
    intro s i _ held legal taker
    exact ((usesNew_iff held legal).mpr taker).2

/-- As long as no old answer finds a taker, fetch holds and uses only lines requested since the
last FENCE.I; the first one that does is used or installed. -/
theorem lines_since_fence (reach : fetchRuns.Reach NoOldAnswer s) :
    s.HoldsNew ∧ ∀ i, fetchRuns.legal s i → (s.UsesNew i ↔ s.NoOldAnswer i) :=
  ⟨holdsNew_of_reach reach, fun _ legal => usesNew_iff (holdsNew_of_reach reach) legal⟩

-- ---------------------------------------------------------------------
-- A line asked for before the fence and again after it
-- ---------------------------------------------------------------------

/-- A cycle of bare fetch at `addr` while delivery works on its line. -/
def fetchAt (addr : Addr) : LineFetchIn Line where
  flush := false
  redirectScrub := false
  fenceI := false
  reqValid := true
  reqAddr := addr
  instrVmActive := false
  itlbHit := false
  itlbPa := 0
  itlbFault := false
  f1Valid := true
  stall := false
  workValid := true
  workLine := some (lineOf addr)
  currentEpoch := 0
  ftqWbOwner := some (0, 0)
  ftqNextOwner := none
  reqOwner := some ⟨0, 0, 0⟩
  icacheFillReqAccepted := false
  icacheFillResp := none
  pfL2ReqReady := false
  pfL2Resp := none

abbrev codeAddr : Addr := 0x80000000

def fetch : LineFetchIn Line := fetchAt codeAddr
def askL2 : LineFetchIn Line := { fetch with icacheFillReqAccepted := true }
def retireFenceI : LineFetchIn Line := { fetch with flush := true, fenceI := true }

/-- The L2 answers a request it took when `sent` FENCE.Is had retired. -/
def answer (sent : Nat) : LineFetchIn Line :=
  { fetch with icacheFillResp := some ⟨codeAddr, ⟨0x13, sent⟩⟩ }

theorem legal_quiet (s : FetchState) (redirects : i.fenceI = true → i.flush = true)
    (fill : i.icacheFillResp = none) (prefetch : i.pfL2Resp = none) :
    fetchRuns.legal s i ∧ s.NoOldAnswer i := by
  refine ⟨⟨redirects, ?_, ?_⟩, fun _ => ⟨?_, ?_⟩⟩
  all_goals
    intro f arrives
    simp [fill, prefetch] at arrives

theorem reach_quiet (inputs : List (LineFetchIn Line)) (reach : fetchRuns.Reach NoOldAnswer s)
    (quiet : ∀ i ∈ inputs, (i.fenceI = true → i.flush = true) ∧ i.icacheFillResp = none ∧
      i.pfL2Resp = none) : fetchRuns.Reach NoOldAnswer (fetchRuns.run s inputs) := by
  induction inputs generalizing s with
  | nil => exact reach
  | cons i rest ih =>
    obtain ⟨redirects, fill, prefetch⟩ := quiet i (List.mem_cons_self ..)
    obtain ⟨legal, taker⟩ := legal_quiet s redirects fill prefetch
    exact ih (.cycle reach legal taker) fun j mem => quiet j (List.mem_cons_of_mem _ mem)

theorem legal_answer (asked : (lineOf codeAddr, sent) ∈ s.icacheSent) :
    fetchRuns.legal s (answer sent) where
  redirects fence := by simp [answer, fetch, fetchAt] at fence
  fill f arrives := by
    simp only [answer, Option.some.injEq] at arrives
    subst arrives
    exact asked
  prefetch f arrives := by simp [answer, fetch, fetchAt] at arrives

/-- The line misses and is asked for, the FENCE.I retires, and the line misses again. -/
def missedAgain : FetchState :=
  fetchRuns.run fetchRuns.reset [fetch, fetch, askL2, retireFenceI, fetch, fetch]

def askedAgain : FetchState := fetchRuns.run missedAgain [askL2]

/-- The answer to the old request comes first, and then the line is fetched. -/
def servesOld : FetchState := fetchRuns.run missedAgain [answer 0, fetch]

theorem reach_missedAgain : fetchRuns.Reach NoOldAnswer missedAgain :=
  reach_quiet _ .reset (by simp [fetch, askL2, retireFenceI, fetchAt])

theorem lines_since_fence_asked : askedAgain.UsesNew (answer 1) := by
  have reach : fetchRuns.Reach NoOldAnswer askedAgain :=
    reach_quiet _ reach_missedAgain (by simp [fetch, askL2, fetchAt])
  have fences : askedAgain.fences = 1 := by decide +kernel
  refine ((lines_since_fence reach).2 (answer 1) (legal_answer (by decide +kernel))).mpr ?_
  refine fun _ => ⟨fun f arrives old => ?_, fun f arrives => ?_⟩
  · simp only [answer, Option.some.injEq] at arrives
    subst arrives
    rw [fences] at old
    exact absurd old (Nat.lt_irrefl 1)
  · simp [answer, fetch, fetchAt] at arrives

theorem old_line_delivered :
    fetchRuns.Reachable servesOld ∧ fetchRuns.legal servesOld fetch ∧ servesOld.fences = 1 ∧
      servesOld.lines.dataLine fetch = some ⟨0x13, 0⟩ ∧ ¬servesOld.UsesNew fetch := by
  have legalOld : fetchRuns.legal missedAgain (answer 0) := legal_answer (by decide +kernel)
  have legalNext (s : FetchState) : fetchRuns.legal s fetch := 
    (legal_quiet s (by simp [fetch, fetchAt]) rfl rfl).1
  have fences : servesOld.fences = 1 := by decide +kernel
  have delivered : servesOld.lines.dataLine fetch = some ⟨0x13, 0⟩ := by decide +kernel
  refine ⟨(reach_missedAgain.reachable.cycle legalOld).cycle (legalNext _), legalNext _, fences,
    delivered, fun uses => ?_⟩
  have new : servesOld.fences ≤ 0 := uses.1.delivered _ delivered
  rw [fences] at new
  exact absurd new (Nat.not_succ_le_zero 0)

end Rv64gc.Frontend
