import Rv64gc.Lsu.LoadUnit
import Rv64gc.Lsu.StoreBuffer
import Rv64gc.Mmu.Translations

/-!
# Accesses across two lines

A load or store across two lines is done in two parts, by the physical address of its first byte.
The parts make up its bytes. The second part goes to the next physical line: when it is on the next
page, that page's own translation is never asked for.
-/

namespace Rv64gc.Lsu

open Hdl Mmu

-- ---------------------------------------------------------------------
-- The physical address of an access and of its bytes
-- ---------------------------------------------------------------------

/-- `load_mem_addr[0]` and `sta_mem_addr`, when the lookup does not hold the access back. -/
def memAddr (s : MmuRun) (vm : Bool) (a : Access) : Option (Except (BitVec 4) Pa) :=
  if vm then s.outcome a else some (.ok a.va)

/-- Where the page tables put a byte of the access, if its own page allows it. -/
def byteAddr (s : MmuRun) (vm : Bool) (a : Access) (k : Nat) : Except (BitVec 4) Pa :=
  let b := { a with va := a.va + BitVec.ofNat 64 k }
  if vm then b.through s.mem (walk s.mem b.va (startLevel s.satp) (satpPpn s.satp)) else .ok b.va

/-- The bytes of the access on this page. -/
def pageBytes (a : Access) : Nat := 4096 - a.va.toNat % 4096

/-- The second page allows the access and is the physical page after the first. -/
def SecondPageFollows (s : MmuRun) (vm : Bool) (a : Access) (pa : Pa) (n : Nat) : Prop :=
  vm = true → pageBytes a < n →
    byteAddr s vm a (pageBytes a) = .ok (pa + BitVec.ofNat 64 (pageBytes a))

variable {s : MmuRun} {vm : Bool} {a : Access} {pa : Pa} {j k n : Nat}

theorem byteAddr_zero (s : MmuRun) (vm : Bool) (a : Access) :
    byteAddr s vm a 0 =
      if vm then a.through s.mem (walk s.mem a.va (startLevel s.satp) (satpPpn s.satp))
      else .ok a.va := by
  simp [byteAddr]

theorem byteAddr_add (s : MmuRun) (vm : Bool) (a : Access) (j k : Nat) :
    byteAddr s vm a (j + k) = byteAddr s vm { a with va := a.va + BitVec.ofNat 64 j } k := by
  simp [byteAddr, BitVec.ofNat_add, BitVec.add_assoc]

/-- In one page the offset above its start is added to the address. -/
theorem add_toNat {va : Va} (inside : va.toNat % 4096 + k < 4096) :
    (va + BitVec.ofNat 64 k).toNat = va.toNat + k := by
  have small := va.isLt
  rw [BitVec.toNat_add, BitVec.toNat_ofNat]
  omega

theorem same_above {va : Va} (inside : va.toNat % 4096 + k < 4096) (l : Nat) :
    (va + BitVec.ofNat 64 k).extractLsb' (12 + 9 * l) 9 = va.extractLsb' (12 + 9 * l) 9 := by
  apply BitVec.eq_of_toNat_eq
  rw [BitVec.extractLsb'_toNat, BitVec.extractLsb'_toNat, Nat.shiftRight_eq_div_pow,
    Nat.shiftRight_eq_div_pow, add_toNat inside, Nat.pow_add, ← Nat.div_div_eq_div_mul,
    ← Nat.div_div_eq_div_mul]
  congr 2
  omega

theorem leaf_pa_add (leaf : Leaf) (pte : Pte) {va : Va} (inside : va.toNat % 4096 + k < 4096) :
    leaf.pa pte (va + BitVec.ofNat 64 k) = leaf.pa pte va + BitVec.ofNat 64 k := by
  have size : 2 ^ (12 + 9 * leaf.level) = 4096 * 2 ^ (9 * leaf.level) := Nat.pow_add 2 12 _
  have part : (va.toNat + k) % 2 ^ (12 + 9 * leaf.level) =
      va.toNat % 2 ^ (12 + 9 * leaf.level) + k := by
    rw [size, Nat.mod_mul, Nat.mod_mul]
    have here : (va.toNat + k) / 4096 = va.toNat / 4096 := by omega
    rw [here]
    omega
  unfold Leaf.pa
  rw [add_toNat inside, part, ← Nat.add_assoc, BitVec.ofNat_add]

/-- A byte of the page of the first one is as far from it as its address. -/
theorem byteAddr_page (first : byteAddr s vm a 0 = .ok pa) (inside : a.va.toNat % 4096 + k < 4096) :
    byteAddr s vm a k = .ok (pa + BitVec.ofNat 64 k) := by
  rw [byteAddr_zero] at first
  cases vm with
  | false =>
    cases first
    rfl
  | true =>
    simp only [if_true] at first
    simp only [byteAddr, if_true]
    cases ends : walk s.mem a.va (startLevel s.satp) (satpPpn s.satp) with
    | none => simp [ends, Access.through] at first
    | some leaf =>
      have same := walk_congr_va ends fun l _ _ => same_above inside l
      rw [ends, Access.through] at first
      rw [same, Access.through]
      split at first
      next allows =>
        cases first
        have allows' : Access.permitted { a with va := a.va + BitVec.ofNat 64 k }
            (s.mem leaf.addr) = true := allows
        rw [if_pos allows', leaf_pa_add _ _ inside]
      next => cases first

/-- The second page starts behind the bytes of the first one. -/
theorem page_start (a : Access) :
    (a.va + BitVec.ofNat 64 (pageBytes a)).toNat % 4096 = 0 := by
  have small := a.va.isLt
  rw [BitVec.toNat_add, BitVec.toNat_ofNat, pageBytes]
  omega

/-- All bytes are where the first address puts them just when the second page follows. -/
theorem bytes_follow_iff (first : byteAddr s vm a 0 = .ok pa) (few : n ≤ 4096) :
    (∀ k < n, byteAddr s vm a k = .ok (pa + BitVec.ofNat 64 k)) ↔
      SecondPageFollows s vm a pa n := by
  constructor
  · intro all _ past
    exact all _ past
  · intro follows k less
    by_cases here : a.va.toNat % 4096 + k < 4096
    · exact byteAddr_page first here
    · cases vm with
      | false =>
        rw [byteAddr_zero] at first
        cases first
        rfl
      | true =>
        have past : pageBytes a ≤ k := by
          unfold pageBytes
          omega
        have second := follows rfl (by omega)
        obtain ⟨j, rfl⟩ := Nat.exists_eq_add_of_le past
        rw [byteAddr_add, BitVec.ofNat_add, ← BitVec.add_assoc]
        refine byteAddr_page ?_ ?_
        · rw [← byteAddr_add, Nat.add_zero]
          exact second
        · rw [page_start]
          omega

-- ---------------------------------------------------------------------
-- A load in two parts
-- ---------------------------------------------------------------------

/-- The doubleword of memory from an address on. -/
def dwordOf (mem : Pa → BitVec 8) (addr : Pa) : Word :=
  tabulate fun b : Fin 64 => (mem (addr + BitVec.ofNat 64 (b.val / 8))).getLsbD (b.val % 8)

/-- What the splitter sees in a cycle: memory, whether its own request is answered, and an answer of
load port 0 to a re-probe, which has the port when the splitter only waits. -/
structure SplitCycle where
  mem : Pa → BitVec 8
  responds : Bool
  reprobe : Option Word

/-- `split_load_resp_data`: whatever the port answers is taken. -/
def SplitCycle.resp (c : SplitCycle) (waitAddr : Pa) : Option Word :=
  c.reprobe.or (if c.responds then some (dwordOf c.mem waitAddr) else none)

namespace SplitLoad

def cycle (x : SplitLoad) (c : SplitCycle) : SplitLoad := (x.turn (c.resp x.waitAddr) false).getD x

/-- So the load unit goes on with a split load that is neither taken back nor written back. -/
theorem nextSplit_cycle {u : LoadUnit} {i : LoadIn} {x : SplitLoad} {c : SplitCycle}
    (splits : u.split = some x) (kept : u.clears i (some x.load.robIdx) = false)
    (stays : u.splitLoadWbFire i = none) (answer : LoadUnit.splitLoadResp i x = c.resp x.waitAddr) :
    u.nextSplit i = some (x.cycle c) := by
  unfold LoadUnit.nextSplit cycle
  rw [splits, Option.map_some, kept, stays]
  simp only [Bool.false_eq_true, if_false]
  rw [answer]
  unfold turn
  cases x.state with
  | req0 => rfl
  | wait0 => rfl
  | req1 => rfl
  | wait1 => rfl
  | wb => rfl

def start (l : MmioLoad) : SplitLoad := ⟨.req0, l, 0, 0, 0⟩

def run (l : MmioLoad) (cycles : List SplitCycle) : SplitLoad :=
  cycles.foldl cycle (start l)

/-- `split_load_first_bytes` -/
def firstBytes (l : MmioLoad) : Nat := 64 - l.addr.toNat % 64

def firstAddr (l : MmioLoad) : Pa := l.addr.extractLsb' 3 61 ++ 0#3
def secondAddr (l : MmioLoad) : Pa := (l.addr.extractLsb' 6 58 + 1) ++ 0#6

/-- What the splitter has read. -/
structure Good (l : MmioLoad) (cycles : List SplitCycle) (x : SplitLoad) : Prop where
  load : x.load = l
  first : x.state = .wait0 → x.waitAddr = firstAddr l
  second : x.state = .wait1 → x.waitAddr = secondAddr l
  firstDword : x.state = .req1 ∨ x.state = .wait1 ∨ x.state = .wb →
    ∃ c ∈ cycles, x.firstDword = dwordOf c.mem (firstAddr l)
  secondDword : x.state = .wb → ∃ c ∈ cycles, x.secondDword = dwordOf c.mem (secondAddr l)

theorem good_start (l : MmioLoad) : (start l).Good l [] where
  load := rfl
  first := nofun
  second := nofun
  firstDword := by simp [start]
  secondDword := nofun

theorem Good.cycle {l : MmioLoad} {x : SplitLoad} (good : x.Good l cycles) {c : SplitCycle}
    (own : c.reprobe = none) : (x.cycle c).Good l (cycles ++ [c]) := by
  obtain ⟨load, first, second, firstDword, secondDword⟩ := good
  have here : c ∈ cycles ++ [c] := List.mem_append_right _ List.mem_cons_self
  unfold SplitLoad.cycle turn SplitCycle.resp
  rw [own, Option.none_or]
  cases state : x.state with
  | req0 =>
    exact ⟨load, fun _ => by simp [reqAddr, state, firstAddr, load], nofun, by simp, nofun⟩
  | wait0 =>
    cases c.responds with
    | false =>
      exact ⟨load, fun _ => first state, by simp [state], by simp [state], by simp [state]⟩
    | true =>
      exact ⟨load, nofun, nofun, fun _ => ⟨c, here, by simp [first state]⟩, nofun⟩
  | req1 =>
    obtain ⟨d, on, same⟩ := firstDword (.inl state)
    exact ⟨load, nofun, fun _ => by simp [reqAddr, state, secondAddr, load],
      fun _ => ⟨d, List.mem_append_left _ on, same⟩, nofun⟩
  | wait1 =>
    obtain ⟨d, on, same⟩ := firstDword (.inr (.inl state))
    have kept : ∃ e ∈ cycles ++ [c], x.firstDword = dwordOf e.mem (firstAddr l) :=
      ⟨d, List.mem_append_left _ on, same⟩
    cases c.responds with
    | false => exact ⟨load, by simp [state], fun _ => second state, fun _ => kept, by simp [state]⟩
    | true =>
      exact ⟨load, nofun, nofun, fun _ => kept, fun _ => ⟨c, here, by simp [second state]⟩⟩
  | wb =>
    obtain ⟨d, on, same⟩ := firstDword (.inr (.inr state))
    obtain ⟨e, on', same'⟩ := secondDword state
    exact ⟨load, by simp [state], by simp [state],
      fun _ => ⟨d, List.mem_append_left _ on, same⟩,
      fun _ => ⟨e, List.mem_append_left _ on', same'⟩⟩

theorem good_run (l : MmioLoad) (cycles : List SplitCycle)
    (own : ∀ c ∈ cycles, c.reprobe = none) : (run l cycles).Good l cycles := by
  induction cycles using List.reverseRecOn with
  | nil => exact good_start l
  | append_singleton before c ih =>
    rw [run, List.foldl_append]
    exact (ih fun d on => own d (List.mem_append_left _ on)).cycle
      (own c (List.mem_append_right _ List.mem_cons_self))

end SplitLoad

-- ---------------------------------------------------------------------
-- Its bytes
-- ---------------------------------------------------------------------

theorem byte_dwordOf (mem : Pa → BitVec 8) (addr : Pa) (inside : j < 8) :
    (dwordOf mem addr).extractLsb' (8 * j) 8 = mem (addr + BitVec.ofNat 64 j) := by
  apply BitVec.eq_of_getLsbD_eq
  intro b less
  rw [BitVec.getLsbD_extractLsb', dwordOf,
    getLsbD_tabulate (n := 64) _ ⟨8 * j + b, by omega⟩]
  simp [less, show (8 * j + b) / 8 = j by omega, show (8 * j + b) % 8 = b by omega]

/-- A byte of the bits that are kept, whichever way they are extended. -/
theorem byte_narrowed (raw : Word) (isUnsigned : Bool) {m : Nat} (less : 8 * k + 8 ≤ m)
    (narrow : m ≤ 64) :
    (if isUnsigned then (raw.setWidth m).setWidth 64
      else (raw.setWidth m).signExtend 64).extractLsb' (8 * k) 8 =
      raw.extractLsb' (8 * k) 8 := by
  apply BitVec.eq_of_getLsbD_eq
  intro b inside
  have below : 8 * k + b < m := by omega
  have fits : 8 * k + b < 64 := by omega
  cases isUnsigned with
  | true =>
    simp [BitVec.getLsbD_extractLsb', BitVec.getLsbD_setWidth, inside, below, fits,
      -BitVec.getLsbD_eq_getElem]
  | false =>
    simp [BitVec.getLsbD_extractLsb', BitVec.getLsbD_signExtend, BitVec.getLsbD_setWidth, inside,
      below, fits, -BitVec.getLsbD_eq_getElem]

/-- A load keeps the bytes of its size. -/
theorem byte_extended (o : LoadOp) (raw : Word) (less : k < o.sizeBytes) :
    (o.load.extended raw).extractLsb' (8 * k) 8 = raw.extractLsb' (8 * k) 8 := by
  unfold MmioLoad.extended
  split
  next byte =>
    have one : k < 1 := by simpa [LoadOp.sizeBytes, byte] using less
    exact byte_narrowed raw _ (by omega) (by decide)
  next =>
    split
    next half =>
      have two : k < 2 := by simpa [LoadOp.sizeBytes, half] using less
      exact byte_narrowed raw _ (by omega) (by decide)
    next =>
      split
      next word_ =>
        have four : k < 4 := by simpa [LoadOp.sizeBytes, word_] using less
        exact byte_narrowed raw _ (by omega) (by decide)
      next => rfl

theorem sizeBytes_le (o : LoadOp) : o.sizeBytes ≤ 8 := by
  unfold LoadOp.sizeBytes
  split_ifs
  all_goals decide

namespace SplitLoad

/-- The two doublewords are put together where the lines meet. -/
theorem byte_mergedRaw (x : SplitLoad) (crosses : 56 < x.load.addr.toNat % 64) (inside : k < 8) :
    x.mergedRaw.extractLsb' (8 * k) 8 =
      if k < firstBytes x.load then
        x.firstDword.extractLsb' (8 * (x.load.addr.toNat % 8 + k)) 8
      else x.secondDword.extractLsb' (8 * (k - firstBytes x.load)) 8 := by
  have low : (x.load.addr.extractLsb' 0 3).toNat = x.load.addr.toNat % 8 := by
    simp [BitVec.extractLsb'_toNat]
  have line : (x.load.addr.extractLsb' 0 6).toNat = x.load.addr.toNat % 64 := by
    simp [BitVec.extractLsb'_toNat]
  have few : (64 - x.load.addr.toNat % 64) % 16 = firstBytes x.load := by
    unfold firstBytes
    omega
  have whole : x.load.addr.toNat % 8 + firstBytes x.load = 8 := by
    unfold firstBytes
    omega
  unfold mergedRaw
  rw [low, line, few]
  generalize firstBytes x.load = n at *
  apply BitVec.eq_of_getLsbD_eq
  intro b less
  simp only [BitVec.getLsbD_extractLsb', less, decide_true, Bool.true_and, BitVec.getLsbD_or,
    BitVec.getLsbD_ushiftRight, BitVec.getLsbD_shiftLeft]
  split
  next first =>
    have before : 8 * k + b < 8 * n := by omega
    simp only [before, decide_true, Bool.not_true, Bool.and_false, Bool.false_and, Bool.or_false,
      BitVec.getLsbD_extractLsb', less, Bool.true_and]
    congr 1
    omega
  next second =>
    have past : 64 ≤ 8 * (x.load.addr.toNat % 8) + (8 * k + b) := by omega
    rw [BitVec.getLsbD_of_ge _ _ past]
    simp [less, show 8 * k + b < 64 by omega, show ¬8 * k + b < 8 * n by omega,
      -BitVec.getLsbD_eq_getElem]
    congr 1
    omega

theorem firstAddr_byte (l : MmioLoad) (k : Nat) :
    firstAddr l + BitVec.ofNat 64 (l.addr.toNat % 8 + k) = l.addr + BitVec.ofNat 64 k := by
  have aligned : firstAddr l + BitVec.ofNat 64 (l.addr.toNat % 8) = l.addr := by
    apply BitVec.eq_of_toNat_eq
    have small := l.addr.isLt
    have part : (firstAddr l).toNat = l.addr.toNat / 8 * 8 := by
      unfold firstAddr
      rw [BitVec.toNat_append]
      simp [Nat.shiftLeft_eq, BitVec.extractLsb'_toNat, Nat.shiftRight_eq_div_pow]
      omega
    rw [BitVec.toNat_add, part, BitVec.toNat_ofNat]
    omega
  rw [BitVec.ofNat_add, ← BitVec.add_assoc, aligned]

theorem secondAddr_byte (l : MmioLoad) (past : firstBytes l ≤ k) :
    secondAddr l + BitVec.ofNat 64 (k - firstBytes l) = l.addr + BitVec.ofNat 64 k := by
  have start : secondAddr l = l.addr + BitVec.ofNat 64 (firstBytes l) := next_line l.addr
  rw [start, BitVec.add_assoc, ← BitVec.ofNat_add, Nat.add_sub_cancel' past]

/-- A load that is done has the bytes behind its first address, those of each line as they were
when the line was read. -/
theorem byte_result {o : LoadOp} {cycles : List SplitCycle} (crosses : o.crossLine = true)
    (own : ∀ c ∈ cycles, c.reprobe = none) (done : (run o.load cycles).state = .wb) :
    ∃ c ∈ cycles, ∃ d ∈ cycles, ∀ k < o.sizeBytes,
      (run o.load cycles).result.extractLsb' (8 * k) 8 =
        (if k < firstBytes o.load then c else d).mem (o.load.addr + BitVec.ofNat 64 k) := by
  have good := good_run o.load cycles own
  obtain ⟨c, on, first⟩ := good.firstDword (.inr (.inr done))
  obtain ⟨d, on', second⟩ := good.secondDword done
  have size : o.sizeBytes ≤ 8 := sizeBytes_le o
  have far : 56 < o.load.addr.toNat % 64 := by
    simp only [LoadOp.crossLine, decide_eq_true_eq, BitVec.extractLsb'_toNat,
      Nat.shiftRight_zero] at crosses
    omega
  refine ⟨c, on, d, on', fun k less => ?_⟩
  rw [result, good.load, byte_extended o _ less, byte_mergedRaw _ (by rw [good.load]; exact far)
    (by omega), good.load, first, second]
  split
  next before =>
    have whole : o.load.addr.toNat % 8 + k < 8 := by
      unfold firstBytes at before
      omega
    rw [byte_dwordOf _ _ whole, firstAddr_byte]
  next past =>
    rw [byte_dwordOf _ _ (by omega), secondAddr_byte _ (by omega)]

end SplitLoad

-- ---------------------------------------------------------------------
-- Byte by byte
-- ---------------------------------------------------------------------

/-- A split load that is done, with no re-probe answered meanwhile, has the bytes a byte-by-byte
load would read, each where its own page puts it. -/
def LoadRight (own : Nat → Except (BitVec 4) Pa) (o : LoadOp) : Prop :=
  ∀ cycles, (∀ c ∈ cycles, c.reprobe = none) → (SplitLoad.run o.load cycles).state = .wb →
    ∃ p : Nat → Pa, (∀ k < o.sizeBytes, own k = .ok (p k)) ∧
      ∃ c ∈ cycles, ∃ d ∈ cycles, ∀ k < o.sizeBytes,
        (SplitLoad.run o.load cycles).result.extractLsb' (8 * k) 8 =
          (if k < SplitLoad.firstBytes o.load then c else d).mem (p k)

/-- The two requests of a split store write the bytes a byte-by-byte store would write, each where
its own page puts it and once. -/
def StoreRight (own : Nat → Except (BitVec 4) Pa) (o : StoreOp) : Prop :=
  ∃ p : Nat → Pa, (∀ k < o.sizeBytes, own k = .ok (p k)) ∧
    o.first.bytes ++ o.second.bytes =
      (List.range o.sizeBytes).map fun k => (p k, o.data.extractLsb' (8 * k) 8)

variable {own : Nat → Except (BitVec 4) Pa}

/-- Four cycles that answer at once. -/
def prompt (mem : Pa → BitVec 8) : List SplitCycle := List.replicate 4 ⟨mem, true, none⟩

theorem prompt_own (mem : Pa → BitVec 8) : ∀ c ∈ prompt mem, c.reprobe = none := by
  intro c on
  rw [List.eq_of_mem_replicate on]

theorem prompt_done (l : MmioLoad) (mem : Pa → BitVec 8) :
    (SplitLoad.run l (prompt mem)).state = .wb := rfl

theorem loadRight_iff {o : LoadOp} (crosses : o.crossLine = true) :
    LoadRight own o ↔
      ∀ k < o.sizeBytes, own k = .ok (o.load.addr + BitVec.ofNat 64 k) := by
  constructor
  · intro right k less
    -- Memory tells the byte's own place from all others.
    obtain ⟨q, owned, -⟩ := right (prompt fun _ => 0) (prompt_own _) (prompt_done _ _)
    let mem : Pa → BitVec 8 := fun x => if x = q k then 1 else 0
    have done := prompt_done o.load mem
    obtain ⟨p, owned', c, on, d, on', bytes⟩ := right (prompt mem) (prompt_own mem) done
    obtain ⟨c', onC, d', onD, bytes'⟩ := SplitLoad.byte_result crosses (prompt_own mem) done
    have all : ∀ c ∈ prompt mem, c.mem = mem := by
      intro c on
      rw [List.eq_of_mem_replicate on]
    have same : p k = q k := Except.ok.inj ((owned' k less).symm.trans (owned k less))
    have here : mem (p k) = mem (o.load.addr + BitVec.ofNat 64 k) := by
      have read := (bytes k less).symm.trans (bytes' k less)
      rw [apply_ite SplitCycle.mem, all c on, all d on', ite_self, apply_ite SplitCycle.mem,
        all c' onC, all d' onD, ite_self] at read
      exact read
    have place : o.load.addr + BitVec.ofNat 64 k = q k := by
      by_contra other
      simp [mem, same, other] at here
    rw [owned k less, place]
  · intro follow cycles own done
    exact ⟨_, follow, SplitLoad.byte_result crosses own done⟩

theorem storeRight_iff {o : StoreOp} (crosses : o.crossLine = true) :
    StoreRight own o ↔ ∀ k < o.sizeBytes, own k = .ok (o.addr + BitVec.ofNat 64 k) := by
  have parts : o.first.bytes ++ o.second.bytes = (List.range o.sizeBytes).map fun k =>
      (o.addr + BitVec.ofNat 64 k, o.data.extractLsb' (8 * k) 8) := by
    have both := StoreOp.bytes_of_parts (o := { o with byteMask := StoreOp.lowMask o.sizeBytes })
      crosses rfl
    exact both.symm.trans (StoreReq.bytes_of_lowMask rfl (StoreOp.sizeBytes_le o))
  constructor
  · rintro ⟨p, owned, bytes⟩ k less
    have place := List.map_inj_left.mp (parts.symm.trans bytes) k (List.mem_range.mpr less)
    rw [owned k less, (Prod.mk.inj place).1]
  · intro follow
    exact ⟨_, follow, parts⟩

-- ---------------------------------------------------------------------
-- The second page
-- ---------------------------------------------------------------------

/-- The address an access goes to is that of its first byte. -/
theorem memAddr_first {mem : Pa → Pte} (reach : (mmuRuns mem).Reach MmuRun.Fixed s)
    (goes : memAddr s vm a = some (.ok pa)) : byteAddr s vm a 0 = .ok pa := by
  rw [byteAddr_zero]
  cases vm with
  | false => exact Option.some.inj goes
  | true => exact (MmuRun.outcome_eq (MmuRun.consistent_of_reach reach) goes).symm

/-- A doubleword at an address, for both kinds of access. -/
def dwordLoad (addr : Pa) : LoadOp := ⟨⟨0, 0, addr, memDword, false⟩, none⟩

def dwordStore (addr : Pa) : StoreOp := ⟨addr, 0x1122334455667788, 0xFF, memDword⟩

def readAt (va : Va) : Access := { readZero with va := va }

def writeAt (va : Va) : Access := { readAt va with kind := .store }

theorem reach_filled : (mmuRuns (rootOf 0xC7)).Reach MmuRun.Fixed (filledBy 0xC7) := by
  refine filled_reach ?_ ?_
  · decide +kernel
  · decide +kernel

/-- The answer to a re-probe comes while the splitter waits for its first line. -/
def mixedUp : List SplitCycle :=
  [⟨fun _ => 0, false, none⟩, ⟨fun _ => 0, false, some 0x5555555555555555⟩,
    ⟨fun _ => 0, false, none⟩, ⟨fun _ => 0, true, none⟩]

end Rv64gc.Lsu
