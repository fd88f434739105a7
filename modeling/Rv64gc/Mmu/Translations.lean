import Rv64gc.Hdl.Machine
import Rv64gc.Mmu.PageTables

/-!
# Translations in a run

The TLBs and the walker in front of the memory that holds the page tables. A hit is answered from
what an earlier walk has left, without another look at the address or the table.
-/

namespace Rv64gc.Mmu

open Hdl

structure MmuRun where
  satp : BitVec 64
  itlb : Tlb itlbDepth
  dtlb : Tlb dtlbDepth
  ptw : Ptw
  /-- The read that the L2 has not answered. -/
  sent : Option Pa
  /-- The doublewords of memory, by their addresses. -/
  mem : Pa → Pte

structure MmuIn where
  satpWrite : Option (BitVec 64)
  sfence : Bool
  flush : Bool
  /-- A load or a store that is translated in this cycle. -/
  data : Option Access
  robIdx : RobIdx
  itlbReq : Option Va
  l2ReqAccepted : Bool
  l2Resp : Option L2Resp
  dcacheStoreAck : Bool
  /-- A store of the program, by its doubleword. -/
  store : Option (Pa × Pte)

def writeWord (mem : Pa → Pte) (pa : Pa) (word : Pte) : Pa → Pte :=
  fun a => if a = pa then word else mem a

namespace MmuRun

variable (s : MmuRun) (i : MmuIn)

def invalidates (i : MmuIn) : Bool := i.satpWrite.isSome || i.sfence

/-- What the DTLB sees of an access. -/
def dataLookup (a : Access) : DataLookup :=
  ⟨a.va, a.kind == .store, a.priv, satpAsid s.satp, a.sum, a.mxr⟩

def lookup : Option DataLookup :=
  if i.flush || invalidates i then none else i.data.map s.dataLookup

/-- What comes of a lookup; a store that has to mark its page waits for the walker. -/
def outcome (a : Access) : Option (Except (BitVec 4) Pa) :=
  match a.kind with
  | .fetch =>
    (s.itlb.find a.va (satpAsid s.satp)).map fun e =>
      if e.2.fetchFault a.priv then .error excInsnPageFault else .ok (e.2.pa a.va)
  | .load | .store =>
    (s.dtlb.find a.va (satpAsid s.satp)).bind fun e =>
      if e.2.dataFault (s.dataLookup a) then
        some (.error (if a.kind = .store then excStorePageFault else excLoadPageFault))
      else (s.dtlb.dataPa (s.dataLookup a) s.ptw.dirtyWbReady).map .ok

/-- The page fault of a walk for the access. -/
def walkFault (a : Access) : Option (Except (BitVec 4) Pa) :=
  if s.ptw.faultValid = true ∧ s.ptw.walkVa = a.va ∧ s.ptw.walkIsItlb = (a.kind == .fetch) ∧
      (s.ptw.walkIsItlb = false → s.ptw.walkIsStore = (a.kind == .store)) then
    some (.error (
      if s.ptw.walkIsItlb then excInsnPageFault
      else if s.ptw.walkIsStore then excStorePageFault
      else excLoadPageFault))
  else none

/-- `dtlb_lookup_miss` -/
def dtlbReq : Option DtlbReq :=
  (s.lookup i).bind fun l =>
    match s.dtlb.find l.va l.asid with
    | some e =>
      if !e.2.dataFault l && (s.dtlb.dataPa l s.ptw.dirtyWbReady).isNone then
        some ⟨l.va, i.robIdx, l.isStore⟩
      else none
    | none => some ⟨l.va, i.robIdx, l.isStore⟩

def ptwIn : PtwIn where
  satp := s.satp
  dtlbReq := s.dtlbReq i
  itlbReq := i.itlbReq
  dirtyWb := s.dtlb.dirtyWb (s.lookup i) s.ptw.dirtyWbReady
  l2ReqAccepted := i.l2ReqAccepted
  l2Resp := i.l2Resp
  dcacheStoreAck := i.dcacheStoreAck
  flush := i.flush
  translationFlush := invalidates i

/-- The D-cache takes what the walker writes. -/
def writes : Option (Pa × Pte) :=
  if s.ptw.state = .adWriteback ∧ i.dcacheStoreAck = true then some (s.ptw.adWbPa, s.ptw.adWbValue)
  else none

def next : MmuRun where
  satp := i.satpWrite.getD s.satp
  itlb := s.itlb.next (invalidates i) (s.ptw.fillFor true)
  dtlb := s.dtlb.dataNext (s.lookup i) s.ptw.dirtyWbReady (invalidates i) (s.ptw.fillFor false)
  ptw := s.ptw.next (s.ptwIn i)
  sent := s.ptw.sentNext (s.ptwIn i) s.sent
  mem :=
    let mem := i.store.elim s.mem fun w => writeWord s.mem w.1 w.2
    (s.writes i).elim mem fun w => writeWord mem w.1 w.2

/-- The doubleword of an answer at an address of its line. -/
def respWord (r : L2Resp) (a : Pa) : Pte := r.data.extractLsb' (64 * (a.extractLsb' 3 3).toNat) 64

/-- The L2 takes the walker's requests and answers each once, with the tables' entries, in which the
A and D bits set last may be missing. -/
structure Keeps : Prop where
  accepts : i.l2ReqAccepted = true → s.ptw.l2ReqValid = true
  answers : ∀ r, i.l2Resp = some r → s.sent = some r.addr
  entries : ∀ r, i.l2Resp = some r → ∀ a, a.extractLsb' 6 58 = r.addr.extractLsb' 6 58 →
    a.extractLsb' 0 3 = 0 → SamePte (respWord r a) (s.mem a)

end MmuRun

def mmuRuns (mem : Pa → Pte) : Machine MmuRun MmuIn where
  reset := ⟨0, .reset, .reset, .reset, none, mem⟩
  next s i := s.next i
  legal s i := s.Keeps i

namespace MmuRun

/-- The program leaves the tables alone. -/
def Fixed (_ : MmuRun) (i : MmuIn) : Prop := i.store = none

-- ---------------------------------------------------------------------
-- The invariant
-- ---------------------------------------------------------------------

/-- A translation is what the walk of some address has found. -/
structure Found (mem : Pa → Pte) (satp : BitVec 64) (t : Translation) (va : Va) (leaf : Leaf) :
    Prop where
  walk : walk mem va (startLevel satp) (satpPpn satp) = some leaf
  vpn : t.vpn = va.extractLsb' 12 36
  size : t.pageSize = BitVec.ofNat 2 leaf.level
  ptePa : t.ptePa = leaf.addr
  ppn : t.ppn = Ptw.ptePpn (mem leaf.addr)
  flags : t.perm.extractLsb' 0 6 = (mem leaf.addr).extractLsb' 0 6
  a : t.a = true
  asid : t.asid = satpAsid satp

/-- How far a walk is. -/
structure Walked (mem : Pa → Pte) (satp : BitVec 64) (w : Ptw) : Prop where
  rest : w.state = .req ∨ w.state = .wait →
    walk mem w.walkVa w.walkLevel.toNat w.walkPpn =
      walk mem w.walkVa (startLevel satp) (satpPpn satp)
  addr : w.state = .wait → w.pteAddr = w.pteAddrAt
  found : w.state = .fill ∨ w.state = .adWriteback ∧ w.adWbReturnFill = true →
    walk mem w.walkVa (startLevel satp) (satpPpn satp) = some ⟨w.walkLevel.toNat, w.pteAddr⟩ ∧
      SamePte w.pte (mem w.pteAddr) ∧ w.pte.getLsbD 6 = true
  lost : w.state = .fault → signExtended (vaBits satp) w.walkVa = false ∨
    walk mem w.walkVa (startLevel satp) (satpPpn satp) = none
  asid : w.state ≠ .idle → (w.state = .adWriteback → w.adWbReturnFill = true) →
    w.walkAsid = satpAsid satp

/-- What is to be written agrees with what is there. -/
structure Written (mem : Pa → Pte) (w : Ptw) : Prop where
  write : w.state = .adWriteback → SamePte w.adWbValue (mem w.adWbPa)
  mark : ∀ pa v, w.dirtyWb = some (pa, v) → SamePte v (mem pa)

structure Consistent (s : MmuRun) : Prop where
  reads : s.ptw.Reads s.sent
  itlb : ∀ k t, s.itlb.entry k = some t → ∃ va leaf, Found s.mem s.satp t va leaf
  dtlb : ∀ k t, s.dtlb.entry k = some t → ∃ va leaf, Found s.mem s.satp t va leaf
  walked : Walked s.mem s.satp s.ptw
  written : Written s.mem s.ptw

-- ---------------------------------------------------------------------
-- Entries and addresses
-- ---------------------------------------------------------------------

theorem canonicalAbove_of_signExtended {n : Nat} {va : Va} (pos : 0 < n) (less : n < 64)
    (extended : signExtended n va = true) : canonicalAbove n va = true := by
  simp only [signExtended, beq_iff_eq] at extended
  have high (k : Nat) (from_ : n ≤ k) (below : k < 64) :
      va.getLsbD k = va.getLsbD (n - 1) := by
    rw [← extended, BitVec.getLsbD_signExtend, BitVec.getLsbD_signExtend]
    simp only [below, decide_true, Bool.true_and, Nat.not_lt.mpr from_, if_false,
      BitVec.msb_eq_getLsbD_last, BitVec.getLsbD_setWidth]
    simp [show n - 1 < n by omega, show n - 1 < 64 by omega]
  simp only [canonicalAbove, beq_iff_eq]
  refine BitVec.eq_of_getLsbD_eq fun k inside => ?_
  rw [BitVec.getLsbD_extractLsb', high (n + k) (by omega) (by omega)]
  cases sign : va.getLsbD (n - 1) <;> simp [inside]

theorem not_signExtended {satp : BitVec 64} {va : Va} (far : canonical satp va = false) :
    signExtended (vaBits satp) va = false := by
  by_contra extended
  simp only [Bool.not_eq_false] at extended
  unfold canonical at far
  unfold vaBits at extended
  split_ifs at far extended
  · cases far.symm.trans (canonicalAbove_of_signExtended (by decide) (by decide) extended)
  · cases far.symm.trans (canonicalAbove_of_signExtended (by decide) (by decide) extended)

theorem level_cases (l : BitVec 2) : l = 0 ∨ l = 1 ∨ l = 2 ∨ l = 3 := by
  revert l
  decide

theorem pteAddrAt_eq (w : Ptw) : w.pteAddrAt = entryAddr w.walkVa w.walkLevel.toNat w.walkPpn := by
  unfold Ptw.pteAddrAt entryAddr
  rcases level_cases w.walkLevel with h | h | h | h <;> rw [h] <;> rfl

theorem extractLsb'_eq_zero_iff (ppn : Ppn) (n : Nat) :
    (ppn.extractLsb' 0 n != 0) = decide (ppn.toNat % 2 ^ n ≠ 0) := by
  rw [Bool.eq_iff_iff, bne_iff_ne, decide_eq_true_iff, Ne, Ne, BitVec.toNat_eq]
  simp

theorem superpageMisalign_eq (w : Ptw) (pte : Pte) :
    w.superpageMisalign pte = misaligned w.walkLevel.toNat (Ptw.ptePpn pte) := by
  unfold Ptw.superpageMisalign misaligned
  simp only [extractLsb'_eq_zero_iff]
  rcases level_cases w.walkLevel with h | h | h | h <;> rw [h]
  · simp [Nat.mod_one]
  · rfl
  · rfl
  · rfl

theorem pteAddrAt_aligned (w : Ptw) : w.pteAddrAt.extractLsb' 0 3 = 0 := by
  unfold Ptw.pteAddrAt
  refine BitVec.eq_of_getLsbD_eq fun k inside => ?_
  simp only [BitVec.getLsbD_extractLsb', inside, decide_true, Bool.true_and, Nat.zero_add]
  rw [BitVec.getLsbD_append]
  simp [inside, -BitVec.getLsbD_eq_getElem]

/-- Setting A and D does not change what an entry means. -/
theorem samePte_fill (w : Ptw) (pte : Pte) : SamePte (w.pteFill pte) pte := by
  constructor
  · unfold Ptw.pteFill
    simp only [BitVec.extractLsb'_or]
    cases w.walkIsStore <;> simp
  · unfold Ptw.pteFill Ptw.ptePpn
    simp only [BitVec.extractLsb'_or]
    cases w.walkIsStore <;> simp

theorem pteFill_a (w : Ptw) (pte : Pte) : (w.pteFill pte).getLsbD 6 = true := by
  unfold Ptw.pteFill
  simp

-- ---------------------------------------------------------------------
-- The walker
-- ---------------------------------------------------------------------

variable {mem : Pa → Pte} {satp : BitVec 64}

theorem Walked.same {w : Ptw} (walked : Walked mem satp w) {mem' : Pa → Pte}
    (same : ∀ a, SamePte (mem' a) (mem a)) : Walked mem' satp w where
  rest walks := by
    rw [walk_same same, walk_same same]
    exact walked.rest walks
  addr := walked.addr
  found fills := by
    obtain ⟨found, pte, a⟩ := walked.found fills
    exact ⟨by rw [walk_same same, found], pte.trans (same _).symm, a⟩
  lost faults := by
    rw [walk_same same]
    exact walked.lost faults
  asid := walked.asid

/-- A walker that is back where it was, or idle, has nothing to show. -/
theorem walked_idle {w : Ptw} (idle : w.state = .idle) : Walked mem satp w := by
  constructor <;> simp [idle]

theorem walked_start (w : Ptw) (x : PtwIn) (va : Va) (robIdx : RobIdx) (isStore isItlb : Bool) :
    Walked mem x.satp (w.start x va robIdx isStore isItlb) := by
  cases near : canonical x.satp va with
  | true =>
    constructor
    case rest =>
      intro _
      unfold Ptw.start startLevel
      cases satpSv48 x.satp <;> rfl
    case asid => exact fun _ _ => rfl
    all_goals simp [Ptw.start, near]
  | false =>
    constructor
    case lost => exact fun _ => .inl (not_signExtended near)
    case asid => exact fun _ _ => rfl
    all_goals simp [Ptw.start, near]

/-- One entry further. -/
theorem walked_step {w : Ptw} (walked : Walked mem satp w) (waits : w.state = .wait)
    (read : SamePte pte (mem w.pteAddr)) : Walked mem satp (w.step pte) := by
  have rest := walked.rest (.inr waits)
  have asid := walked.asid (by simp [waits]) (by simp [waits])
  have addr : w.pteAddr = entryAddr w.walkVa w.walkLevel.toNat w.walkPpn := by
    rw [walked.addr waits, pteAddrAt_eq]
  have fill : SamePte (w.pteFill pte) (mem w.pteAddr) := (samePte_fill w pte).trans read
  rw [walk_eq, ← addr, ← read.invalid, ← read.leaf, ← read.ppn] at rest
  unfold Ptw.step
  dsimp only
  cases invalid : Ptw.pteInvalid pte with
  | true =>
    rw [if_pos invalid] at rest
    constructor
    case lost => exact fun _ => .inr rest.symm
    case asid => exact fun _ _ => asid
    all_goals simp
  | false =>
    rw [if_neg (by simp [invalid])] at rest
    cases isLeaf : Ptw.pteLeaf pte with
    | true =>
      rw [if_pos isLeaf, ← superpageMisalign_eq] at rest
      cases skewed : w.superpageMisalign pte with
      | true =>
        rw [if_pos skewed] at rest
        constructor
        case lost => exact fun _ => .inr rest.symm
        case asid => exact fun _ _ => asid
        all_goals simp
      | false =>
        rw [if_neg (by simp [skewed])] at rest
        cases w.pteAdUpdateNeeded pte with
        | true =>
          constructor
          case found => exact fun _ => ⟨rest.symm, fill, pteFill_a w pte⟩
          case asid => exact fun _ _ => asid
          all_goals simp
        | false =>
          constructor
          case found => exact fun _ => ⟨rest.symm, fill, pteFill_a w pte⟩
          case asid => exact fun _ _ => asid
          all_goals simp
    | false =>
      rw [if_neg (by simp [isLeaf])] at rest
      by_cases last : w.walkLevel = 0
      · rw [if_pos (by simp [last])] at rest
        simp only [Bool.false_eq_true, if_false, if_pos last]
        constructor
        case lost => exact fun _ => .inr rest.symm
        case asid => exact fun _ _ => asid
        all_goals simp
      · have below : (w.walkLevel - 1).toNat = w.walkLevel.toNat - 1 := by
          rcases level_cases w.walkLevel with h | h | h | h
          · exact absurd h last
          · rw [h]; rfl
          · rw [h]; rfl
          · rw [h]; rfl
        rw [if_neg (by simpa [BitVec.toNat_eq] using last), ← below] at rest
        simp only [Bool.false_eq_true, if_false, if_neg last]
        constructor
        case rest => exact fun _ => rest
        case asid => exact fun _ _ => asid
        all_goals simp

/-- The word of an answer at the address of the walk. -/
theorem answer_entry {s : MmuRun} {i : MmuIn} (walked : Walked s.mem s.satp s.ptw)
    (keeps : s.Keeps i) (waits : s.ptw.state = .wait)
    (resp : s.ptw.pteResp (s.ptwIn i) = some pte) : SamePte pte (s.mem s.ptw.pteAddr) := by
  unfold Ptw.pteResp at resp
  obtain ⟨r, out, rfl⟩ := Option.map_eq_some_iff.mp resp
  obtain ⟨answer, line⟩ := Option.filter_eq_some_iff.mp out
  refine keeps.entries r answer _ (beq_iff_eq.mp line).symm ?_
  rw [walked.addr waits]
  exact pteAddrAt_aligned s.ptw

theorem walked_walk {s : MmuRun} {i : MmuIn} (walked : Walked s.mem s.satp s.ptw)
    (keeps : s.Keeps i) : Walked s.mem s.satp (s.ptw.walk (s.ptwIn i)) := by
  cases Ptw.walk_cases s.ptw (s.ptwIn i) with
  | stays same =>
    rw [same]
    exact walked
  | marks pa value idle pending same =>
    rw [same]
    constructor <;> simp
  | begins va robIdx isStore isItlb idle same =>
    rw [same]
    exact walked_start s.ptw (s.ptwIn i) _ _ _ _
  | asks req accepted same =>
    rw [same]
    constructor
    case rest => exact fun _ => walked.rest (.inl req)
    case addr => exact fun _ => rfl
    case asid => exact fun _ _ => walked.asid (by simp [req]) (by simp [req])
    all_goals simp
  | answered pte wait resp same =>
    rw [same]
    exact walked_step walked wait (answer_entry walked keeps wait resp)
  | acked writes ack same =>
    rw [same]
    cases fills : s.ptw.adWbReturnFill with
    | true =>
      constructor
      case found => exact fun _ => walked.found (.inr ⟨writes, fills⟩)
      case asid => exact fun _ _ => walked.asid (by simp [writes]) fun _ => fills
      all_goals simp
    | false => exact walked_idle rfl
  | ends last same =>
    rw [same]
    exact walked_idle rfl

-- ---------------------------------------------------------------------
-- The entries
-- ---------------------------------------------------------------------

theorem Found.same (found : Found mem satp t va leaf) {mem' : Pa → Pte}
    (same : ∀ a, SamePte (mem' a) (mem a)) : Found mem' satp t va leaf where
  walk := by rw [walk_same same, found.walk]
  vpn := found.vpn
  size := found.size
  ptePa := found.ptePa
  ppn := found.ppn.trans (same leaf.addr).ppn.symm
  flags := found.flags.trans (same leaf.addr).flags.symm
  a := found.a
  asid := found.asid

theorem Found.fill {w : Ptw} (walked : Walked mem satp w) (fill : w.fillFor forItlb = some t) :
    ∃ va leaf, Found mem satp t va leaf := by
  unfold Ptw.fillFor at fill
  split_ifs at fill with fills
  obtain rfl := Option.some.inj fill
  obtain ⟨found, pte, a⟩ := walked.found (.inl fills.1)
  refine ⟨w.walkVa, _, found, rfl, ?_, rfl, pte.ppn, ?_, ?_, ?_⟩
  · exact BitVec.eq_of_toNat_eq (by simp)
  · rw [← pte.flags]
    refine BitVec.eq_of_getLsbD_eq fun k inside => ?_
    simp [BitVec.getLsbD_extractLsb', inside, -BitVec.getLsbD_eq_getElem]
  · simpa [Translation.a, BitVec.getLsbD_extractLsb'] using a
  · exact walked.asid (by simp [fills.1]) (by simp [fills.1])

/-- A page that is marked dirty. -/
theorem Found.marked (found : Found mem satp t va leaf) :
    Found mem satp { t with perm := t.perm ||| 0x80#8 } va leaf where
  walk := found.walk
  vpn := found.vpn
  size := found.size
  ptePa := found.ptePa
  ppn := found.ppn
  flags := by
    rw [← found.flags]
    simp [BitVec.extractLsb'_or]
  a := by
    have a := found.a
    simp only [Translation.a] at a ⊢
    simp [a]
  asid := found.asid

theorem Found.mark (found : Found mem satp t va leaf) :
    SamePte (0#10 ++ t.ppn ++ 0#2 ++ (t.perm ||| 0x80#8)) (mem t.ptePa) := by
  rw [found.ptePa]
  constructor
  · rw [← found.marked.flags]
    refine BitVec.eq_of_getLsbD_eq fun k inside => ?_
    simp only [BitVec.getLsbD_extractLsb', Nat.zero_add, BitVec.getLsbD_append,
      if_pos (Nat.lt_trans inside (by decide : 6 < 8))]
  · rw [← found.ppn]
    unfold Ptw.ptePpn
    refine BitVec.eq_of_getLsbD_eq fun k inside => ?_
    simp only [BitVec.getLsbD_extractLsb', BitVec.getLsbD_append]
    simp [inside, -BitVec.getLsbD_eq_getElem, show ¬ 10 + k < 8 by omega,
      show ¬ 10 + k - 8 < 2 by omega, show 10 + k - 8 - 2 = k by omega]

theorem next_found [NeZero n] {tlb : Tlb n} (present : (tlb.next invAll fill).entry k = some t)
    (found : ∀ k t, tlb.entry k = some t → ∃ va leaf, Found mem satp t va leaf)
    (filled : ∀ t, fill = some t → ∃ va leaf, Found mem satp t va leaf) :
    invAll = false ∧ ∃ va leaf, Found mem satp t va leaf := by
  unfold Tlb.next at present
  split at present
  next => cases present
  next keep =>
    refine ⟨by simpa using keep, ?_⟩
    split at present
    next t' fill =>
      dsimp only at present
      split at present
      next =>
        obtain rfl := Option.some.inj present
        exact filled _ rfl
      next => exact found k t present
    next => exact found k t present

theorem dataNext_found {tlb : Tlb dtlbDepth}
    (present : (tlb.dataNext l ready invAll fill).entry k = some t)
    (found : ∀ t', (tlb.next invAll fill).entry k = some t' → ∃ va leaf, Found mem satp t' va leaf) :
    ∃ va leaf, Found mem satp t va leaf := by
  unfold Tlb.dataNext at present
  dsimp only at present
  split at present
  next =>
    dsimp only at present
    split at present
    next =>
      obtain ⟨t', here, rfl⟩ := Option.map_eq_some_iff.mp present
      obtain ⟨va, leaf, found⟩ := found t' here
      exact ⟨va, leaf, found.marked⟩
    next => exact found t present
  next => exact found t present

-- ---------------------------------------------------------------------
-- One cycle
-- ---------------------------------------------------------------------

variable {s : MmuRun} {i : MmuIn}

/-- What is written to memory sets A and D at most. -/
theorem mem_next (written : Written s.mem s.ptw) (fixed : Fixed s i) (a : Pa) :
    SamePte ((s.next i).mem a) (s.mem a) := by
  have store : i.store = none := fixed
  simp only [next, store, Option.elim_none, writes]
  split_ifs with takes
  · simp only [Option.elim_some, writeWord]
    split
    next here =>
      rw [here]
      exact written.write takes.1
    next => exact .refl _
  · exact .refl _

theorem satp_next (keep : invalidates i = false) : (s.next i).satp = s.satp := by
  have none_ : i.satpWrite = none := by
    simpa using (Bool.or_eq_false_iff.mp keep).1
  simp [next, none_]

theorem ptw_next : (s.next i).ptw = s.ptw.next (s.ptwIn i) := rfl

theorem written_walk (consistent : Consistent s) (keeps : s.Keeps i)
    (writes : (s.ptw.walk (s.ptwIn i)).state = .adWriteback) :
    SamePte (s.ptw.walk (s.ptwIn i)).adWbValue (s.mem (s.ptw.walk (s.ptwIn i)).adWbPa) := by
  obtain ⟨-, mark, -⟩ | ⟨waits, pte, resp, -, -, place, -, value, -⟩ | ⟨writing, -, stays⟩ :=
    Ptw.walk_writes writes
  · exact consistent.written.mark _ _ mark
  · rw [place, value]
    exact (samePte_fill s.ptw pte).trans (answer_entry consistent.walked keeps waits resp)
  · rw [stays]
    exact consistent.written.write writing

theorem written_mark (consistent : Consistent s)
    (mark : s.dtlb.dirtyWb l ready = some (pa, v)) : SamePte v (s.mem pa) := by
  unfold Tlb.dirtyWb Tlb.dirtyUpgradeNow at mark
  obtain ⟨e, upgrade, same⟩ := Option.map_eq_some_iff.mp mark
  obtain ⟨rfl, rfl⟩ := Prod.mk.inj same
  split_ifs at upgrade
  obtain ⟨l, -, upgrade⟩ := Option.bind_eq_some_iff.mp upgrade
  obtain ⟨hit, -⟩ := Option.filter_eq_some_iff.mp upgrade
  obtain ⟨va, leaf, found⟩ := consistent.dtlb _ _ (Tlb.find_some hit)
  exact found.mark

theorem written_next (consistent : Consistent s) (keeps : s.Keeps i) :
    Written s.mem (s.ptw.next (s.ptwIn i)) where
  write writes := by
    unfold Ptw.next at writes ⊢
    dsimp only at writes ⊢
    split at writes
    next => simp [Ptw.drop] at writes
    next walks =>
      rw [if_neg walks]
      exact written_walk consistent keeps writes
  mark pa v pending := by
    unfold Ptw.next at pending
    dsimp only at pending
    split at pending
    next => cases pending
    next =>
      obtain old | ⟨-, new⟩ := Option.or_eq_some_iff.mp pending
      · exact consistent.written.mark pa v old
      · exact written_mark consistent new

theorem consistent_next (consistent : Consistent s) (keeps : s.Keeps i) (fixed : Fixed s i) :
    Consistent (s.next i) := by
  have same := mem_next consistent.written fixed
  have filled (forItlb : Bool) (t : Translation) (fill : s.ptw.fillFor forItlb = some t) :
      ∃ va leaf, Found s.mem s.satp t va leaf :=
    Found.fill consistent.walked fill
  -- an entry that is left was in use under the same satp
  have kept (keep : invalidates i = false) {t : Translation}
      (found : ∃ va leaf, Found s.mem s.satp t va leaf) :
      ∃ va leaf, Found (s.next i).mem (s.next i).satp t va leaf := by
    obtain ⟨va, leaf, found⟩ := found
    rw [satp_next keep]
    exact ⟨va, leaf, found.same same⟩
  constructor
  case reads => exact consistent.reads.next keeps.accepts keeps.answers
  case itlb =>
    intro k t present
    obtain ⟨keep, found⟩ := next_found present consistent.itlb (filled true)
    exact kept keep found
  case dtlb =>
    intro k t present
    obtain ⟨t', here⟩ := Tlb.dataNext_entry present
    have keep := (next_found here consistent.dtlb (filled false)).1
    refine kept keep (dataNext_found present fun t' here => ?_)
    exact (next_found here consistent.dtlb (filled false)).2
  case walked =>
    change Walked _ _ (s.ptw.next (s.ptwIn i))
    cases flush : (s.ptwIn i).flushes with
    | true => exact walked_idle (Ptw.next_state_of_flush flush)
    | false =>
      rw [satp_next (Bool.or_eq_false_iff.mp flush).2]
      have walked := (walked_walk consistent.walked keeps).same same
      unfold Ptw.next
      rw [flush]
      exact ⟨walked.rest, walked.addr, walked.found, walked.lost, walked.asid⟩
  case written =>
    have written := written_next consistent keeps
    exact ⟨fun writes => (written.write writes).trans (same _).symm,
      fun pa v mark => (written.mark pa v mark).trans (same _).symm⟩

theorem consistent_of_reach (reach : (mmuRuns mem).Reach Fixed s) : Consistent s := by
  refine reach.invariant Consistent ?_ fun s i _ consistent keeps fixed =>
    consistent_next consistent keeps fixed
  constructor
  case reads => exact ⟨by simp [mmuRuns, Ptw.reset], by simp [mmuRuns], by simp [mmuRuns, Ptw.reset]⟩
  case walked => exact walked_idle rfl
  case written => exact ⟨by simp [mmuRuns, Ptw.reset], by simp [mmuRuns, Ptw.reset]⟩
  all_goals simp [mmuRuns, Tlb.reset]

/-- Nothing but A and D changes in memory. -/
theorem mem_of_reach (reach : (mmuRuns mem).Reach Fixed s) (a : Pa) : SamePte (s.mem a) (mem a) :=
  reach.invariant (fun s => SamePte (s.mem a) (mem a)) (.refl _) fun _ _ before same _ fixed =>
    (mem_next (consistent_of_reach before).written fixed a).trans same

-- ---------------------------------------------------------------------
-- A hit
-- ---------------------------------------------------------------------

theorem Found.level_le (found : Found mem satp t va leaf) : leaf.level ≤ 3 := by
  have upTo := walk_level found.walk
  unfold startLevel at upTo
  split at upTo
  · exact upTo
  · exact Nat.le_succ_of_le upTo

/-- The parts of the address that select the page are those of the walk. -/
theorem Found.parts (found : Found mem satp t va leaf) (hit : t.vpnMatch va' = true)
    (from_ : leaf.level ≤ k) (upTo : k ≤ 3) :
    va'.extractLsb' (12 + 9 * k) 9 = va.extractLsb' (12 + 9 * k) 9 := by
  have bits (j : Nat) (above : 9 * leaf.level ≤ j) (below : j < 36) :
      va'.getLsbD (12 + j) = va.getLsbD (12 + j) := by
    have level := found.level_le
    have at_ (n len : Nat) (same : (va'.extractLsb' 12 36).extractLsb' n len =
        (va.extractLsb' 12 36).extractLsb' n len) (after : n ≤ j) (inside : j < n + len) :
        va'.getLsbD (12 + j) = va.getLsbD (12 + j) := by
      have bit := congrArg (·.getLsbD (j - n)) same
      simpa [BitVec.getLsbD_extractLsb', show j - n < len by omega, below,
        Nat.add_sub_cancel' after, -BitVec.getLsbD_eq_getElem] using bit
    unfold Translation.vpnMatch at hit
    rw [found.size, found.vpn] at hit
    dsimp only at hit
    obtain h | h | h | h : leaf.level = 0 ∨ leaf.level = 1 ∨ leaf.level = 2 ∨ leaf.level = 3 := by
      omega
    · rw [h] at hit
      refine at_ 0 36 ?_ (Nat.zero_le j) (by omega)
      rw [show va'.extractLsb' 12 36 = va.extractLsb' 12 36 by simpa using hit]
    · rw [h] at hit
      exact at_ 9 27 (by simpa using hit) (by omega) (by omega)
    · rw [h] at hit
      exact at_ 18 18 (by simpa using hit) (by omega) (by omega)
    · rw [h] at hit
      exact at_ 27 9 (by simpa using hit) (by omega) (by omega)
  refine BitVec.eq_of_getLsbD_eq fun j inside => ?_
  simp only [BitVec.getLsbD_extractLsb', inside, decide_true, Bool.true_and]
  rw [Nat.add_assoc]
  exact bits (9 * k + j) (by omega) (by omega)

theorem Found.walk_hit (found : Found mem satp t va leaf) (hit : t.vpnMatch va' = true) :
    Mmu.walk mem va' (startLevel satp) (satpPpn satp) = some leaf := by
  refine walk_congr_va found.walk fun k from_ upTo => found.parts hit from_ ?_
  unfold startLevel at upTo
  split at upTo
  · exact upTo
  · exact Nat.le_succ_of_le upTo

theorem page_toNat (page : BitVec p) (offset : BitVec o) :
    (0#8 ++ page ++ offset).toNat = page.toNat * 2 ^ o + offset.toNat := by
  rw [BitVec.toNat_append, ← Nat.shiftLeft_add_eq_or_of_lt offset.isLt, Nat.shiftLeft_eq]
  simp [BitVec.toNat_append]

/-- A page number without its lowest parts, and an offset. -/
theorem assembled_toNat (ppn : Ppn) (va : Va) (n : Nat) (less : n ≤ 3) :
    (0#8 ++ ppn.extractLsb' (9 * n) (44 - 9 * n) ++ va.extractLsb' 0 (12 + 9 * n)).toNat =
      ppn.toNat / 2 ^ (9 * n) * 2 ^ (12 + 9 * n) + va.toNat % 2 ^ (12 + 9 * n) := by
  have small : ppn.toNat / 2 ^ (9 * n) < 2 ^ (44 - 9 * n) := by
    refine Nat.div_lt_of_lt_mul ?_
    rw [← Nat.pow_add, show 9 * n + (44 - 9 * n) = 44 by omega]
    exact ppn.isLt
  rw [page_toNat, BitVec.extractLsb'_toNat, BitVec.extractLsb'_toNat, Nat.shiftRight_eq_div_pow,
    Nat.shiftRight_zero, Nat.mod_eq_of_lt small]

theorem Found.pa (found : Found mem satp t va leaf) (va' : Va) :
    t.pa va' = leaf.pa (mem leaf.addr) va' := by
  have of_toNat (whole : BitVec 64) (same : whole.toNat = t.ppn.toNat / 2 ^ (9 * leaf.level) *
      2 ^ (12 + 9 * leaf.level) + va'.toNat % 2 ^ (12 + 9 * leaf.level)) :
      whole = leaf.pa (mem leaf.addr) va' := by
    refine BitVec.eq_of_toNat_eq ?_
    rw [Leaf.pa, BitVec.toNat_ofNat, ← found.ppn, ← same, Nat.mod_eq_of_lt whole.isLt]
  refine of_toNat _ ?_
  have level := found.level_le
  unfold Translation.pa
  rw [found.size]
  obtain h | h | h | h : leaf.level = 0 ∨ leaf.level = 1 ∨ leaf.level = 2 ∨ leaf.level = 3 := by
    omega
  · rw [h]
    refine Eq.trans ?_ (assembled_toNat t.ppn va' 0 (by decide))
    simp
  · rw [h]
    exact assembled_toNat t.ppn va' 1 (by decide)
  · rw [h]
    exact assembled_toNat t.ppn va' 2 (by decide)
  · rw [h]
    exact assembled_toNat t.ppn va' 3 (by decide)

/-- The permissions of the entry are those of its leaf. -/
theorem Found.perm (found : Found mem satp t va leaf) {n : Nat} (low : n < 6) :
    t.perm.getLsbD n = (mem leaf.addr).getLsbD n := by
  have bit := congrArg (·.getLsbD n) found.flags
  simpa [BitVec.getLsbD_extractLsb', low, -BitVec.getLsbD_eq_getElem] using bit

theorem Found.valid (found : Found mem satp t va leaf) : t.v = true := by
  have valid := (walk_leaf found.walk).1
  unfold Ptw.pteInvalid at valid
  rw [Translation.v, found.perm (by decide)]
  simpa using (Bool.or_eq_false_iff.mp valid).1

theorem Found.fetchFault (found : Found mem satp t va leaf) (a : Access)
    (fetch : a.kind = .fetch) : t.fetchFault a.priv = !a.permitted (mem leaf.addr) := by
  unfold Translation.fetchFault Access.permitted
  rw [found.valid, fetch, Translation.x, Translation.u, found.perm (by decide),
    found.perm (by decide)]
  cases (mem leaf.addr).getLsbD 3 <;> cases (mem leaf.addr).getLsbD 4 <;> simp [bne]

theorem Found.dataFault (found : Found mem satp t va leaf) (a : Access)
    (data : a.kind ≠ .fetch) (s : MmuRun) :
    t.dataFault (s.dataLookup a) = !a.permitted (mem leaf.addr) := by
  unfold Translation.dataFault Access.permitted
  rw [found.valid, found.a, Translation.r, Translation.w, Translation.x, Translation.u,
    found.perm (by decide), found.perm (by decide), found.perm (by decide),
    found.perm (by decide)]
  cases kind : a.kind with
  | fetch => exact absurd kind data
  | load =>
    have load : (AccessKind.load == AccessKind.store) = false := rfl
    have data : (AccessKind.load == AccessKind.fetch) = false := rfl
    cases (mem leaf.addr).getLsbD 1 <;> cases (mem leaf.addr).getLsbD 4 <;>
      simp [dataLookup, kind, load, data, bne]
  | store =>
    have data : (AccessKind.store == AccessKind.fetch) = false := rfl
    cases (mem leaf.addr).getLsbD 2 <;> cases (mem leaf.addr).getLsbD 4 <;>
      simp [dataLookup, kind, data, bne]

-- ---------------------------------------------------------------------
-- What comes of an access
-- ---------------------------------------------------------------------

theorem outcome_fetch (fetch : a.kind = .fetch) :
    s.outcome a = (s.itlb.find a.va (satpAsid s.satp)).map fun e =>
      if e.2.fetchFault a.priv then .error excInsnPageFault else .ok (e.2.pa a.va) := by
  unfold outcome
  rw [fetch]

theorem outcome_data (data : a.kind ≠ .fetch) :
    s.outcome a = (s.dtlb.find a.va (satpAsid s.satp)).bind fun e =>
      if e.2.dataFault (s.dataLookup a) then some (.error a.kind.cause)
      else (s.dtlb.dataPa (s.dataLookup a) s.ptw.dirtyWbReady).map .ok := by
  unfold outcome
  cases kind : a.kind with
  | fetch => exact absurd kind data
  | load => rfl
  | store => rfl

/-- The entry that is hit comes from the walk of the address. -/
theorem hit_found [NeZero n] {tlb : Tlb n} {e : Fin n × Translation}
    (entries : ∀ k t, tlb.entry k = some t → ∃ va leaf, Found mem satp t va leaf)
    (find : tlb.find va' (satpAsid satp) = some e) :
    ∃ va leaf, Found mem satp e.2 va leaf ∧
      Mmu.walk mem va' (startLevel satp) (satpPpn satp) = some leaf := by
  obtain ⟨va, leaf, found⟩ := entries e.1 e.2 (Tlb.find_some find)
  exact ⟨va, leaf, found, found.walk_hit (Tlb.find_match find)⟩

/-- What a hit returns is what the walk that passes over reserved bits says. -/
theorem outcome_eq (consistent : Consistent s) (outcome : s.outcome a = some out) :
    out = a.through s.mem (Mmu.walk s.mem a.va (startLevel s.satp) (satpPpn s.satp)) := by
  by_cases fetch : a.kind = .fetch
  · rw [outcome_fetch fetch] at outcome
    obtain ⟨e, find, rfl⟩ := Option.map_eq_some_iff.mp outcome
    obtain ⟨va, leaf, found, walks⟩ := hit_found consistent.itlb find
    rw [walks, Access.through, found.fetchFault a fetch, ← found.pa, fetch]
    cases a.permitted (s.mem leaf.addr) with
    | true => rfl
    | false => rfl
  · rw [outcome_data fetch] at outcome
    obtain ⟨e, find, outcome⟩ := Option.bind_eq_some_iff.mp outcome
    obtain ⟨va, leaf, found, walks⟩ := hit_found consistent.dtlb find
    rw [walks, Access.through, ← found.pa]
    rw [found.dataFault a fetch s] at outcome
    cases allows : a.permitted (s.mem leaf.addr) with
    | true =>
      simp only [allows, Bool.not_true, Bool.false_eq_true, if_false] at outcome
      obtain ⟨pa, translated, rfl⟩ := Option.map_eq_some_iff.mp outcome
      rw [if_pos rfl]
      exact congrArg _ (Tlb.dataPa_eq (l := s.dataLookup a) find translated)
    | false =>
      simp only [allows, Bool.not_false, if_true] at outcome
      exact (Option.some.inj outcome).symm

theorem walkFault_eq (consistent : Consistent s) (fault : s.walkFault a = some out) :
    out = reference s.mem s.satp a := by
  unfold walkFault at fault
  split_ifs at fault with faults itlb store
  all_goals
    obtain ⟨valid, va, isItlb, isStore⟩ := faults
    obtain rfl := Option.some.inj fault
    have lost := consistent.walked.lost (by simpa [Ptw.faultValid] using valid)
    rw [va] at lost
    rw [reference_of_lost lost]
  · rw [itlb] at isItlb
    rw [beq_iff_eq.mp isItlb.symm]
    rfl
  · simp only [Bool.not_eq_true] at itlb
    have isStore := isStore itlb
    rw [store] at isStore
    rw [beq_iff_eq.mp isStore.symm]
    rfl
  · simp only [Bool.not_eq_true] at itlb store
    have isStore := isStore itlb
    rw [itlb] at isItlb
    rw [store] at isStore
    cases kind : a.kind with
    | fetch => simp [kind] at isItlb
    | load => rfl
    | store => simp [kind] at isStore

/-- A hit on a plain access and every fault of the walker agree with the manual, and no other hit
does. -/
theorem translations_right (reach : (mmuRuns mem).Reach Fixed s) :
    (∀ a out, s.outcome a = some out → (out = reference s.mem s.satp a ↔ Plain s.mem s.satp a)) ∧
      ∀ a out, s.walkFault a = some out → out = reference s.mem s.satp a := by
  have consistent := consistent_of_reach reach
  refine ⟨fun a out outcome => ?_, fun a out => walkFault_eq consistent⟩
  rw [outcome_eq consistent outcome]
  exact through_eq_reference_iff s.satp a

end MmuRun

-- ---------------------------------------------------------------------
-- A table of one page
-- ---------------------------------------------------------------------

open MmuRun

/-- The root, at 0x1000, maps the lowest gigabyte. -/
def rootOf (leaf : Pte) : Pa → Pte := fun a => if a = 0x1000 then leaf else 0

def restIn : MmuIn where
  satpWrite := none
  sfence := false
  flush := false
  data := none
  robIdx := 0
  itlbReq := none
  l2ReqAccepted := false
  l2Resp := none
  dcacheStoreAck := false
  store := none

def readZero : Access := ⟨.load, 0, privS, false, false⟩

/-- Sv39 is turned on, and a load misses. -/
def missed (leaf : Pte) : MmuRun :=
  (mmuRuns (rootOf leaf)).run (mmuRuns (rootOf leaf)).reset
    [{ restIn with satpWrite := some 0x8000000000000001 }, { restIn with data := some readZero }]

/-- The L2 takes the read of its walk. -/
def asked (leaf : Pte) : MmuRun :=
  (mmuRuns (rootOf leaf)).next (missed leaf) { restIn with l2ReqAccepted := true }

/-- The answer comes, and the entry is filled. -/
def filledBy (leaf : Pte) : MmuRun :=
  (mmuRuns (rootOf leaf)).run (asked leaf)
    [{ restIn with l2Resp := some ⟨0x1000, leaf.setWidth 512⟩ }, restIn]

theorem word_of_line (a : Pa) :
    a = a.extractLsb' 6 58 ++ a.extractLsb' 3 3 ++ a.extractLsb' 0 3 := by
  refine BitVec.eq_of_getLsbD_eq fun k inside => ?_
  simp only [BitVec.getLsbD_append, BitVec.getLsbD_extractLsb']
  by_cases low : k < 3
  · simp [low]
  · by_cases mid : k - 3 < 3
    · simp [low, mid, show 3 + (k - 3) = k by omega]
    · simp [low, mid, show 6 + (k - 3 - 3) = k by omega, show k - 3 - 3 < 58 by omega]

/-- The answer holds the line of the root. -/
theorem root_line (leaf : Pte) (a : Pa)
    (line : a.extractLsb' 6 58 = (0x1000 : Pa).extractLsb' 6 58) (aligned : a.extractLsb' 0 3 = 0) :
    respWord ⟨0x1000, leaf.setWidth 512⟩ a = rootOf leaf a := by
  have parts := word_of_line a
  rw [line, aligned] at parts
  unfold respWord rootOf
  by_cases first : a.extractLsb' 3 3 = 0
  · rw [first] at parts ⊢
    rw [if_pos (parts.trans (by decide))]
    refine BitVec.eq_of_getLsbD_eq fun k inside => ?_
    simp [BitVec.getLsbD_extractLsb', inside, show k < 512 by omega, -BitVec.getLsbD_eq_getElem]
  · rw [if_neg fun here => first (by rw [here]; decide)]
    refine BitVec.eq_of_getLsbD_eq fun k inside => ?_
    have after : 0 < (a.extractLsb' 3 3).toNat := by
      refine Nat.pos_of_ne_zero fun zero => first ?_
      exact BitVec.eq_of_toNat_eq zero
    have beyond : leaf.getLsbD (64 * (a.extractLsb' 3 3).toNat + k) = false :=
      BitVec.getLsbD_of_ge _ _ (by omega)
    rw [BitVec.getLsbD_extractLsb', BitVec.getLsbD_setWidth, beyond]
    simp

theorem keeps_quiet {s : MmuRun} {i : MmuIn} (accepts : i.l2ReqAccepted = false)
    (resp : i.l2Resp = none) : s.Keeps i := ⟨by simp [accepts], by simp [resp], by simp [resp]⟩

theorem missed_reach (leaf : Pte) : (mmuRuns (rootOf leaf)).Reach Fixed (missed leaf) := by
  refine .cycle (.cycle .reset ?_ ?_) ?_ ?_
  · exact keeps_quiet rfl rfl
  · rfl
  · exact keeps_quiet rfl rfl
  · rfl

theorem asked_reach {leaf : Pte} (asks : (missed leaf).ptw.l2ReqValid = true) :
    (mmuRuns (rootOf leaf)).Reach Fixed (asked leaf) := by
  refine (missed_reach leaf).cycle ?_ ?_
  · exact ⟨fun _ => asks, by simp [restIn], by simp [restIn]⟩
  · rfl

theorem filled_reach {leaf : Pte} (asks : (missed leaf).ptw.l2ReqValid = true)
    (sent : (asked leaf).sent = some 0x1000) :
    (mmuRuns (rootOf leaf)).Reach Fixed (filledBy leaf) := by
  refine .cycle (.cycle (asked_reach asks) ⟨?_, fun r resp => ?_, fun r resp a line aligned => ?_⟩
    ?_) ?_ ?_
  · simp [restIn]
  · obtain rfl := Option.some.inj resp
    rw [sent]
  · obtain rfl := Option.some.inj resp
    rw [root_line leaf a line aligned]
    exact (mem_of_reach (asked_reach asks) a).symm
  · rfl
  · exact keeps_quiet rfl rfl
  · rfl

theorem outcome_plain : (filledBy 0xC7).outcome readZero = some (.ok 0) := by
  decide +kernel

theorem outcome_reserved : (filledBy 0x400000000000C7).outcome readZero = some (.ok 0) := by
  decide +kernel

/-- The load of an ordinary page goes where the manual says. -/
theorem translations_right_plain :
    .ok 0 = reference (filledBy 0xC7).mem (filledBy 0xC7).satp readZero := by
  refine ((translations_right (filled_reach ?_ ?_)).1 readZero _ outcome_plain).mpr ?_
  · decide +kernel
  · decide +kernel
  · intro leaf walks allows
    decide +kernel

/-- A leaf with a reserved bit is a page fault to the manual, not to the walker. -/
theorem reserved_bit_passed : ∃ s, (mmuRuns (rootOf 0x400000000000C7)).Reach Fixed s ∧
    s.outcome readZero = some (.ok 0) ∧
    reference s.mem s.satp readZero = .error excLoadPageFault := by
  refine ⟨filledBy 0x400000000000C7, filled_reach ?_ ?_, outcome_reserved, ?_⟩
  · decide +kernel
  · decide +kernel
  · decide +kernel

end Rv64gc.Mmu
