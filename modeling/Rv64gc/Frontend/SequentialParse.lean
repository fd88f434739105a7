import Rv64gc.Frontend.InstrBoundary

/-!
# The parse of the byte stream

Memory from an address on is a sequence of instructions, each starting where the one before ends. The
slots fetch takes, over any cycles in which the caller goes on at `seq_next_pc`, are that sequence. A
half instruction that is kept is one the parse of its line still comes to, so the line that is joined
to it is the next one.
-/

namespace Rv64gc.Frontend

open Hdl

-- ---------------------------------------------------------------------
-- The sequence
-- ---------------------------------------------------------------------

abbrev Image := Addr → BitVec 8

/-- An instruction as it stands in memory. -/
structure RawInsn where
  pc : Addr
  insn : BitVec 32
  isRvc : Bool
deriving DecidableEq

namespace Image

variable (mem : Image)

def half (pc : Addr) : BitVec 16 := mem (pc + 1) ++ mem pc

def insnAt (pc : Addr) : RawInsn :=
  if isShort (mem.half pc) then ⟨pc, 0#16 ++ mem.half pc, true⟩
  else ⟨pc, mem.half (pc + 2) ++ mem.half pc, false⟩

/-- Where the instruction at `pc` ends. -/
def behind (pc : Addr) : Addr := fallthrough pc (mem.insnAt pc).isRvc

/-- The first `n` instructions. -/
def parse : Nat → Addr → List RawInsn
  | 0, _ => []
  | n + 1, pc => mem.insnAt pc :: parse n (mem.behind pc)

/-- Where the first `n` instructions end. -/
def after : Nat → Addr → Addr
  | 0, pc => pc
  | n + 1, pc => after n (mem.behind pc)

theorem length_parse (n : Nat) (pc : Addr) : (mem.parse n pc).length = n := by
  induction n generalizing pc with
  | zero => rfl
  | succ n ih => simp [parse, ih]

theorem parse_add (m n : Nat) (pc : Addr) :
    mem.parse (m + n) pc = mem.parse m pc ++ mem.parse n (mem.after m pc) := by
  induction m generalizing pc with
  | zero => simp [parse, after]
  | succ m ih => simp [parse, after, Nat.succ_add, ih]

theorem after_add (m n : Nat) (pc : Addr) :
    mem.after (m + n) pc = mem.after n (mem.after m pc) := by
  induction m generalizing pc with
  | zero => simp [after]
  | succ m ih => simp [after, Nat.succ_add, ih]

theorem take_parse (m n : Nat) (pc : Addr) (few : m ≤ n) :
    (mem.parse n pc).take m = mem.parse m pc := by
  obtain ⟨k, rfl⟩ := Nat.exists_eq_add_of_le few
  rw [parse_add]
  exact List.take_left' (length_parse mem m pc)

end Image

def RawSlot.toInsn (x : RawSlot) : RawInsn := ⟨x.pc, x.insn, x.isRvc⟩

-- ---------------------------------------------------------------------
-- Positions in a line
-- ---------------------------------------------------------------------

/-- The address of a position in a line, or of the next line. -/
def place (line : BitVec 58) (pos : Nat) : Addr := lineAddr line + BitVec.ofNat 64 pos

/-- The bytes of a line. -/
def Image.line (mem : Image) (line : BitVec 58) : LineData :=
  tabulate fun b : Fin 512 => (mem (place line (b.val / 8))).getLsbD (b.val % 8)

variable {mem : Image} {line : BitVec 58} {pos j k n : Nat}

theorem lineByte_line (inside : pos < 64) : lineByte (mem.line line) pos = mem (place line pos) := by
  apply BitVec.eq_of_getLsbD_eq
  intro b less
  rw [lineByte, BitVec.getLsbD_extractLsb', Image.line,
    getLsbD_tabulate (n := 512) _ ⟨8 * pos + b, by omega⟩]
  simp [less, show (8 * pos + b) / 8 = pos by omega, show (8 * pos + b) % 8 = b by omega]

theorem place_add (line : BitVec 58) (j k : Nat) :
    place line j + BitVec.ofNat 64 k = place line (j + k) := by
  rw [place, place, BitVec.ofNat_add, BitVec.add_assoc]

theorem lineHalf_line (inside : pos ≤ 62) :
    lineHalf (mem.line line) pos = mem.half (place line pos) := by
  rw [lineHalf, lineByte_line (by omega), lineByte_line (by omega), ← place_add]
  rfl

theorem toNat_lineAddr (line : BitVec 58) : (lineAddr line).toNat = line.toNat * 64 := by
  rw [lineAddr, BitVec.toNat_append]
  simp [Nat.shiftLeft_eq]

theorem toNat_place (inside : pos < 64) : (place line pos).toNat = line.toNat * 64 + pos := by
  have small := line.isLt
  rw [place, BitVec.toNat_add, toNat_lineAddr, BitVec.toNat_ofNat]
  omega

theorem slot_pc (workPc : Addr) (inside : pos < 64) :
    workPc.extractLsb' 6 58 ++ BitVec.ofNat 6 pos = place (lineOf workPc) pos := by
  apply BitVec.eq_of_toNat_eq
  rw [toNat_place inside, BitVec.toNat_append, ← Nat.shiftLeft_add_eq_or_of_lt (BitVec.isLt _),
    Nat.shiftLeft_eq, BitVec.toNat_ofNat, Nat.mod_eq_of_lt (by omega)]
  rfl

theorem place_next (line : BitVec 58) : place line 64 = place (line + 1) 0 := by
  apply BitVec.eq_of_toNat_eq
  have small := line.isLt
  simp only [place, BitVec.toNat_add, toNat_lineAddr, BitVec.toNat_ofNat, BitVec.ofNat_eq_ofNat,
    Nat.reducePow, Nat.reduceMod]
  omega

theorem lineOf_place (inside : pos < 64) : lineOf (place line pos) = line := by
  apply BitVec.eq_of_toNat_eq
  have small := line.isLt
  rw [lineOf, BitVec.extractLsb'_toNat, toNat_place inside, Nat.shiftRight_eq_div_pow]
  omega

theorem offset_place (inside : pos < 64) : (place line pos).toNat % 64 = pos := by
  rw [toNat_place inside]
  omega

theorem place_self (pc : Addr) : place (lineOf pc) (pc.toNat % 64) = pc := by
  apply BitVec.eq_of_toNat_eq
  have small := pc.isLt
  rw [toNat_place (by omega), lineOf, BitVec.extractLsb'_toNat, Nat.shiftRight_eq_div_pow]
  omega

theorem behind_short (short : isShort (mem.half (place line pos)) = true) :
    mem.behind (place line pos) = place line (pos + 2) := by
  simp only [Image.behind, Image.insnAt, short, if_true, fallthrough]
  exact place_add line pos 2

theorem behind_long (long : isShort (mem.half (place line pos)) = false) :
    mem.behind (place line pos) = place line (pos + 4) := by
  simp only [Image.behind, Image.insnAt, long, Bool.false_eq_true, if_false, fallthrough]
  exact place_add line pos 4

-- ---------------------------------------------------------------------
-- Cutting a line
-- ---------------------------------------------------------------------

/-- The parse from a position comes to half an instruction at the end of the line. -/
inductive Reaches (mem : Image) (line : BitVec 58) : Nat → Prop
  | here : isShort (mem.half (place line 62)) = false → Reaches mem line 62
  | short {p : Nat} : isShort (mem.half (place line p)) = true → Reaches mem line (p + 2) →
      Reaches mem line p
  | long {p : Nat} : isShort (mem.half (place line p)) = false → Reaches mem line (p + 4) →
      Reaches mem line p

theorem Reaches.le (reaches : Reaches mem line pos) : pos ≤ 62 := by
  induction reaches with
  | here => decide
  | short _ _ ih => omega
  | long _ _ ih => omega

theorem Reaches.of_short (reaches : Reaches mem line pos)
    (short : isShort (mem.half (place line pos)) = true) : Reaches mem line (pos + 2) := by
  cases reaches with
  | here long => simp [short] at long
  | short _ rest => exact rest
  | long long _ => simp [short] at long

theorem Reaches.of_long (reaches : Reaches mem line pos) (inside : pos ≤ 60)
    (long : isShort (mem.half (place line pos)) = false) : Reaches mem line (pos + 4) := by
  cases reaches with
  | here _ => omega
  | short short _ => simp [long] at short
  | long _ rest => exact rest

/-- What the loop makes of a line, from a position on. -/
structure Cuts (mem : Image) (line : BitVec 58) (k pos : Nat) (e : Extracted) : Prop where
  parses : e.slots.map RawSlot.toInsn = mem.parse e.slots.length (place line pos)
  /-- Wherever the caller stops, it is in the line or at its end. -/
  stops : ∀ n ≤ e.slots.length, ∃ q, mem.after n (place line pos) = place line q ∧ q ≤ 64 ∧
    q % 2 = 0 ∧ pos + 2 * n ≤ q ∧ (Reaches mem line pos → Reaches mem line q)
  straddle : ∀ r, e.straddle = some r → r = ⟨mem.half (place line 62), place line 62⟩ ∧
    Reaches mem line pos ∧ 66 ≤ pos + 4 * k ∧ (e.slots = [] → pos = 62)
  goesOn : 0 < k → pos ≤ 62 → e.slots = [] → e.straddle.isSome

theorem Cuts.nothing (inside : pos ≤ 64) (even : pos % 2 = 0) (past : k = 0 ∨ 62 < pos) :
    Cuts mem line k pos ⟨[], none⟩ where
  parses := rfl
  stops n few := by
    obtain rfl := Nat.le_zero.mp few
    exact ⟨pos, rfl, inside, even, by omega, id⟩
  straddle := nofun
  goesOn some_ here := by omega

/-- One more instruction before the others. -/
theorem Cuts.cons {e : Extracted} {x : RawSlot} {next : Nat} (rest : Cuts mem line k next e)
    (insn : x.toInsn = mem.insnAt (place line pos))
    (behind : mem.behind (place line pos) = place line next) (longer : pos + 2 ≤ next)
    (few : next ≤ pos + 4) (inside : pos ≤ 64) (even : pos % 2 = 0)
    (on : Reaches mem line pos → Reaches mem line next)
    (back : Reaches mem line next → Reaches mem line pos) :
    Cuts mem line (k + 1) pos { e with slots := x :: e.slots } where
  parses := by
    show x.toInsn :: e.slots.map RawSlot.toInsn = mem.insnAt _ :: mem.parse e.slots.length _
    rw [insn, behind, rest.parses]
  stops n few := by
    cases n with
    | zero => exact ⟨pos, rfl, inside, even, by omega, id⟩
    | succ n =>
      obtain ⟨q, after, bound, evenQ, far, reaches⟩ := rest.stops n (by simpa using few)
      refine ⟨q, ?_, bound, evenQ, by omega, fun from_ => reaches (on from_)⟩
      rw [Image.after, behind, after]
  straddle r found := by
    obtain ⟨same, reaches, far, -⟩ := rest.straddle r found
    exact ⟨same, back reaches, by omega, by simp⟩
  goesOn := by simp

/-- The loop cuts the line where the parse does. -/
theorem cuts_extractFrom (mem : Image) (workPc : Addr) (k pos : Nat) (inside : pos ≤ 64)
    (even : pos % 2 = 0) :
    Cuts mem (lineOf workPc) k pos (extractFrom (mem.line (lineOf workPc)) workPc k pos) := by
  induction k generalizing pos with
  | zero => exact .nothing inside even (.inl rfl)
  | succ k ih =>
    unfold extractFrom
    by_cases here : pos ≤ 62
    · rw [if_pos here, lineHalf_line here, slot_pc workPc (by omega)]
      dsimp only
      cases short : isShort (mem.half (place (lineOf workPc) pos)) with
      | true =>
        rw [if_pos rfl]
        refine (ih (pos + 2) (by omega) (by omega)).cons ?_ (behind_short short) (by omega)
          (by omega) inside even (fun reaches => reaches.of_short short) (.short short)
        simp [RawSlot.toInsn, Image.insnAt, short]
      | false =>
        rw [if_neg Bool.false_ne_true]
        by_cases whole : pos ≤ 60
        · rw [if_pos whole]
          refine (ih (pos + 4) (by omega) (by omega)).cons ?_ (behind_long short) (by omega)
            (by omega) inside even (fun reaches => reaches.of_long whole short) (.long short)
          rw [lineHalf_line (by omega), ← place_add]
          simp [RawSlot.toInsn, Image.insnAt, short]
        · obtain rfl : pos = 62 := by omega
          rw [if_neg whole]
          exact {
            parses := rfl
            stops := fun n few => by
              obtain rfl := Nat.le_zero.mp few
              exact ⟨62, rfl, by decide, rfl, by decide, id⟩
            straddle := fun r found => by
              cases found
              exact ⟨rfl, .here short, by omega, fun _ => rfl⟩
            goesOn := fun _ _ _ => rfl }
    · rw [if_neg here]
      exact .nothing inside even (.inr (by omega))

-- ---------------------------------------------------------------------
-- The caller
-- ---------------------------------------------------------------------

/-- The boundary unit, the cursor of its caller, and the slots the caller has taken since it started
at `start`. -/
structure ParseRun where
  boundary : InstrBoundary
  pc : Addr
  start : Addr
  log : List RawSlot

structure ParseIn where
  redirect : Option Addr
  stall : Bool
  workValid : Bool
  /-- The line of the cursor is there. -/
  dataValid : Bool
  finalCount : Nat

namespace ParseRun

variable (mem : Image) (s : ParseRun) (i : ParseIn)

def boundaryIn : BoundaryIn where
  redirect := i.redirect.isSome
  stall := i.stall
  workValid := i.workValid
  workPc := s.pc
  dataLine := if i.dataValid then some (mem.line (lineOf s.pc)) else none
  finalCount := i.finalCount

def extracted : Extracted := s.boundary.extracted (s.boundaryIn mem i)

def next : ParseRun :=
  let boundary := s.boundary.next (s.boundaryIn mem i)
  match i.redirect with
  | some target => ⟨boundary, target, target, []⟩
  | none =>
    if i.stall then { s with boundary := boundary }
    else
      { s with
        boundary := boundary
        pc := (s.boundary.seqNextPc (s.boundaryIn mem i)).getD s.pc
        log := s.log ++ (s.extracted mem i).slots.take i.finalCount }

/-- A packet keeps one of its slots at least, and instructions start at even addresses. -/
structure Legal : Prop where
  few : i.finalCount ≤ (s.extracted mem i).slots.length
  some_ : (s.extracted mem i).slots ≠ [] → i.finalCount ≠ 0
  even : ∀ target, i.redirect = some target → target.toNat % 2 = 0

/-- The address of the next instruction. -/
def cursor : Addr :=
  match if s.pc.toNat % 64 = 0 then s.boundary.remainder else none with
  | some r => r.pc
  | none => s.pc

end ParseRun

def parseRuns (mem : Image) (start : Addr) : Machine ParseRun ParseIn where
  reset := ⟨.reset, start, start, []⟩
  next := ParseRun.next mem
  legal := ParseRun.Legal mem

/-- The count of the prediction checker is one the caller may take. -/
theorem legal_finalCount {s : ParseRun} {i : ParseIn} {x : PredIn}
    (count : x.extractCount = (s.extracted mem i).slots.length)
    (valid : ∀ j < pipeWidth, (x.slot j).valid = true → j < x.extractCount)
    (takes : i.finalCount = x.finalCount) (noRedirect : i.redirect = none) : s.Legal mem i where
  few := by
    rw [takes, ← count]
    exact PredIn.finalCount_le valid
  some_ more := by
    rw [takes]
    refine PredIn.finalCount_ne_zero fun none_ => more ?_
    exact List.eq_nil_of_length_eq_zero (count.symm.trans none_)
  even target redirects := by
    rw [noRedirect] at redirects
    cases redirects

/-- The half that is kept belongs in front of the cursor's line, or the parse from the cursor comes to
it at the end of the line. -/
structure Follows (mem : Image) (pc : Addr) (r : Remainder) : Prop where
  half : r.hw = mem.half r.pc
  long : isShort r.hw = false
  next : pc.toNat % 64 = 0 → r.pc + 2 = pc
  ahead : pc.toNat % 64 ≠ 0 →
    r.pc = place (lineOf pc) 62 ∧ Reaches mem (lineOf pc) (pc.toNat % 64)

structure InStep (mem : Image) (s : ParseRun) : Prop where
  even : s.pc.toNat % 2 = 0
  log : s.log.map RawSlot.toInsn = mem.parse s.log.length s.start
  cursor : mem.after s.log.length s.start = s.cursor
  kept : ∀ r, s.boundary.remainder = some r → Follows mem s.pc r

theorem Reaches.half_long (reaches : Reaches mem line pos) :
    isShort (mem.half (place line 62)) = false := by
  induction reaches with
  | here long => exact long
  | short _ _ ih => exact ih
  | long _ _ ih => exact ih

theorem getElem_parse (mem : Image) (n k : Nat) (pc : Addr) (less : k < n) :
    (mem.parse n pc)[k]? = some (mem.insnAt (mem.after k pc)) := by
  induction n generalizing k pc with
  | zero => omega
  | succ n ih =>
    cases k with
    | zero => rfl
    | succ k => exact ih k (mem.behind pc) (by omega)

theorem insnAt_pc (mem : Image) (pc : Addr) : (mem.insnAt pc).pc = pc := by
  unfold Image.insnAt
  split
  · rfl
  · rfl

/-- The slot before the next address ends there. -/
theorem fallthrough_slot {slots : List RawSlot} {pc : Addr}
    (parses : slots.map RawSlot.toInsn = mem.parse slots.length pc) (some_ : n ≠ 0)
    (few : n ≤ slots.length) :
    slots[n - 1]?.map (fun x => fallthrough x.pc x.isRvc) = some (mem.after n pc) := by
  have less : n - 1 < slots.length := by omega
  have same : slots[n - 1]?.map RawSlot.toInsn = some (mem.insnAt (mem.after (n - 1) pc)) := by
    rw [← List.getElem?_map, parses, getElem_parse mem _ _ _ less]
  rw [List.getElem?_eq_getElem less, Option.map_some, Option.some.injEq] at same
  rw [List.getElem?_eq_getElem less, Option.map_some]
  have last : mem.after n pc = mem.behind (mem.after (n - 1) pc) := by
    conv_lhs => rw [show n = (n - 1) + 1 by omega, Image.after_add]
    rfl
  have pc_ := congrArg RawInsn.pc same
  rw [insnAt_pc] at pc_
  rw [last, Image.behind, ← same, ← pc_]
  rfl

-- ---------------------------------------------------------------------
-- One cycle
-- ---------------------------------------------------------------------

/-- What a line that is taken leads to: the slots are the next instructions, and the caller goes on
behind the ones it keeps. -/
structure Taken (mem : Image) (s : ParseRun) (e : Extracted) (kept : Option Remainder)
    (n : Nat) (pc : Addr) : Prop where
  parses : e.slots.map RawSlot.toInsn = mem.parse e.slots.length s.cursor
  even : pc.toNat % 2 = 0
  cursor : mem.after n s.cursor = ({ s with boundary := ⟨kept⟩, pc := pc } : ParseRun).cursor
  kept : ∀ r, kept = some r → Follows mem pc r
  goesOn : n ≠ 0 ∨ pc = place (lineOf s.pc + 1) 0

namespace ParseRun

variable {s : ParseRun} {i : ParseIn}

/-- The next position in the line, or the start of the next line. -/
theorem even_place {q : Nat} (bound : q ≤ 64) (even : q % 2 = 0) :
    (place line q).toNat % 2 = 0 := by
  by_cases inside : q < 64
  · rw [toNat_place inside]
    omega
  · obtain rfl : q = 64 := by omega
    rw [place_next, toNat_place (by decide)]
    omega

theorem cursor_none (s : ParseRun) (pc : Addr) :
    ({ s with boundary := ⟨none⟩, pc := pc } : ParseRun).cursor = pc := by
  simp [cursor]

theorem cursor_inside (s : ParseRun) (kept : Option Remainder) {q : Nat} (some_ : q ≠ 0)
    (inside : q < 64) :
    ({ s with boundary := ⟨kept⟩, pc := place line q } : ParseRun).cursor = place line q := by
  simp [cursor, offset_place inside, some_]

theorem cursor_next (s : ParseRun) (r : Remainder) :
    ({ s with boundary := ⟨some r⟩, pc := place line 0 } : ParseRun).cursor = r.pc := by
  simp [cursor, offset_place]

/-- A half that the parse comes to, seen from a later position of the line. -/
theorem follows_inside {r : Remainder} {q : Nat} (half : r.hw = mem.half (place line 62))
    (pc : r.pc = place line 62) (reaches : Reaches mem line q) (some_ : q ≠ 0) :
    Follows mem (place line q) r where
  half := by rw [half, pc]
  long := by
    rw [half]
    exact reaches.half_long
  next zero := by
    have inside := reaches.le
    rw [offset_place (by omega)] at zero
    exact absurd zero some_
  ahead _ := by
    have inside := reaches.le
    rw [lineOf_place (by omega), offset_place (by omega)]
    exact ⟨pc, reaches⟩

/-- The kept half is joined to its line. -/
theorem taken_pending (follows : Follows mem s.pc r) (zero : s.pc.toNat % 64 = 0)
    (kept : s.boundary.remainder = some r) {e : Extracted}
    (cuts : Cuts mem (lineOf s.pc) 3 2 e)
    {x : RawSlot} (insn : x.toInsn = ⟨r.pc, lineHalf (mem.line (lineOf s.pc)) 0 ++ r.hw, false⟩)
    (some_ : n ≠ 0) (few : n ≤ e.slots.length + 1) :
    e.straddle = none ∧
      Taken mem s { e with slots := x :: e.slots } none n (mem.after n r.pc) := by
  have start : place (lineOf s.pc) 0 = s.pc := by
    have self := place_self s.pc
    rwa [zero] at self
  have cursor : s.cursor = r.pc := by simp [ParseRun.cursor, zero, kept]
  have long : isShort (mem.half r.pc) = false := follows.half ▸ follows.long
  have behind : mem.behind r.pc = place (lineOf s.pc) 2 := by
    rw [← place_add (lineOf s.pc) 0 2, start, ← follows.next zero]
    simp only [Image.behind, Image.insnAt, long, Bool.false_eq_true, if_false, fallthrough]
    rw [BitVec.add_assoc]
    rfl
  have first : x.toInsn = mem.insnAt r.pc := by
    rw [insn, lineHalf_line (by decide), start, follows.half, ← follows.next zero]
    simp [Image.insnAt, long]
  have none_ : e.straddle = none := by
    cases found : e.straddle with
    | none => rfl
    | some r' =>
      have far := (cuts.straddle r' found).2.2.1
      omega
  obtain ⟨m, rfl⟩ := Nat.exists_eq_succ_of_ne_zero some_
  obtain ⟨q, after, bound, evenQ, -, -⟩ := cuts.stops m (by omega)
  have goes : mem.after (m + 1) r.pc = place (lineOf s.pc) q := by
    rw [Image.after, behind, after]
  refine ⟨none_, ?_, ?_, ?_, nofun, .inl some_⟩
  · show x.toInsn :: e.slots.map RawSlot.toInsn = mem.parse (e.slots.length + 1) s.cursor
    rw [cursor, Image.parse, behind, first, cuts.parses]
  · rw [goes]
    exact even_place bound evenQ
  · rw [cursor_none, cursor]

/-- A line is cut up from the cursor on. -/
theorem taken_line (inStep : InStep mem s) (idle : s.pc.toNat % 64 = 0 → s.boundary.remainder = none)
    {e : Extracted} (cuts : Cuts mem (lineOf s.pc) 4 (s.pc.toNat % 64) e)
    (some_ : e.slots ≠ [] → n ≠ 0) (few : n ≤ e.slots.length) :
    Taken mem s e (e.straddle.or s.boundary.remainder) n
      (if n = 0 then place (lineOf s.pc + 1) 0 else mem.after n s.pc) := by
  have cursor : s.cursor = s.pc := by
    unfold ParseRun.cursor
    by_cases zero : s.pc.toNat % 64 = 0
    · simp [zero, idle zero]
    · simp [zero]
  have self := place_self s.pc
  have even := inStep.even
  generalize pos : s.pc.toNat % 64 = p at *
  obtain ⟨q, after, bound, evenQ, far, on⟩ := cuts.stops n few
  rw [self] at after
  by_cases none_ : n = 0
  · have empty : e.slots = [] := by
      by_contra more
      exact some_ more none_
    obtain ⟨r, found⟩ := Option.isSome_iff_exists.mp (cuts.goesOn (by decide) (by omega) empty)
    obtain ⟨rfl, reaches, -, last⟩ := cuts.straddle r found
    obtain rfl := last empty
    subst none_
    rw [if_pos rfl, found, Option.some_or]
    refine ⟨by simp [empty, Image.parse], ?_, ?_, ?_, .inr rfl⟩
    · rw [toNat_place (by decide)]
      omega
    · rw [cursor_next, cursor, Image.after, self]
    · rintro r same
      cases same
      exact {
        half := rfl
        long := reaches.half_long
        next := fun _ => (place_add (lineOf s.pc) 62 2).trans (place_next _)
        ahead := fun other => absurd (offset_place (by decide)) other }
  · rw [if_neg none_, after]
    have keeps : Reaches mem (lineOf s.pc) p → ∀ r : Remainder,
        r.hw = mem.half (place (lineOf s.pc) 62) → r.pc = place (lineOf s.pc) 62 →
        q < 64 ∧ Follows mem (place (lineOf s.pc) q) r := by
      intro reaches r half pc
      have inside := (on reaches).le
      exact ⟨by omega, follows_inside half pc (on reaches) (by omega)⟩
    have parts : ∀ r, e.straddle.or s.boundary.remainder = some r →
        q < 64 ∧ Follows mem (place (lineOf s.pc) q) r := by
      intro r kept
      cases found : e.straddle with
      | some r' =>
        rw [found, Option.some_or, Option.some.injEq] at kept
        subst kept
        obtain ⟨same, reaches, -, -⟩ := cuts.straddle r' found
        exact keeps reaches r' (by rw [same]) (by rw [same])
      | none =>
        rw [found, Option.none_or] at kept
        have follows := inStep.kept r kept
        have other : p ≠ 0 := by
          intro zero
          simp [idle zero] at kept
        obtain ⟨pc, reaches⟩ := follows.ahead (by rw [pos]; exact other)
        rw [pos] at reaches
        exact keeps reaches r (by rw [follows.half, pc]) pc
    refine ⟨by rw [cursor, cuts.parses, self], even_place bound evenQ, ?_,
      fun r kept => (parts r kept).2, .inl none_⟩
    rw [cursor, after]
    cases kept : e.straddle.or s.boundary.remainder with
    | none => rw [cursor_none]
    | some r => rw [cursor_inside _ _ (by omega) (parts r kept).1]

end ParseRun

open ParseRun

variable {s : ParseRun} {i : ParseIn}

/-- The slots that are taken continue the sequence. -/
theorem InStep.taken {e : Extracted} {kept : Option Remainder} {pc : Addr}
    (inStep : InStep mem s) (taken : Taken mem s e kept n pc) (few : n ≤ e.slots.length) :
    InStep mem { s with boundary := ⟨kept⟩, pc := pc, log := s.log ++ e.slots.take n } where
  even := taken.even
  log := by
    show (s.log ++ e.slots.take n).map RawSlot.toInsn =
      mem.parse (s.log ++ e.slots.take n).length s.start
    rw [List.length_append, List.length_take_of_le few, Image.parse_add, inStep.cursor,
      List.map_append, inStep.log, List.map_take, taken.parses, Image.take_parse _ _ _ _ few]
  cursor := by
    show mem.after (s.log ++ e.slots.take n).length s.start = _
    rw [List.length_append, List.length_take_of_le few, Image.after_add, inStep.cursor,
      taken.cursor]
    rfl
  kept := taken.kept

theorem startOffset_boundaryIn (s : ParseRun) (i : ParseIn) :
    InstrBoundary.startOffset (s.boundaryIn mem i) = s.pc.toNat % 64 := by
  simp [InstrBoundary.startOffset, boundaryIn, BitVec.extractLsb'_toNat]

theorem workLine_boundaryIn (present : i.workValid = true ∧ i.dataValid = true) :
    InstrBoundary.workLine (s.boundaryIn mem i) = some (mem.line (lineOf s.pc)) := by
  simp [InstrBoundary.workLine, boundaryIn, present]

/-- The kept half waits at the start of its line only. -/
theorem pending_boundaryIn (s : ParseRun) (i : ParseIn) :
    s.boundary.pending (s.boundaryIn mem i) =
      if s.pc.toNat % 64 = 0 then s.boundary.remainder else none := by
  simp [InstrBoundary.pending, startOffset_boundaryIn]

theorem extracted_joined (line : InstrBoundary.workLine (s.boundaryIn mem i) =
      some (mem.line (lineOf s.pc)))
    (waits : s.boundary.pending (s.boundaryIn mem i) = some r) :
    s.extracted mem i =
      { extractFrom (mem.line (lineOf s.pc)) s.pc 3 2 with
        slots := ⟨0, lineHalf (mem.line (lineOf s.pc)) 0 ++ r.hw, false, r.pc⟩ ::
          (extractFrom (mem.line (lineOf s.pc)) s.pc 3 2).slots } := by
  simp only [extracted, InstrBoundary.extracted, line, waits]
  rfl

theorem extracted_cut (line : InstrBoundary.workLine (s.boundaryIn mem i) =
      some (mem.line (lineOf s.pc)))
    (waits : s.boundary.pending (s.boundaryIn mem i) = none) :
    s.extracted mem i = extractFrom (mem.line (lineOf s.pc)) s.pc 4 (s.pc.toNat % 64) := by
  simp only [extracted, InstrBoundary.extracted, line, waits, startOffset_boundaryIn]
  rfl

/-- Fetch runs on and nothing redirects it. -/
def Flows (i : ParseIn) : Prop := i.redirect = none ∧ i.stall = false

theorem Flows.boundaryIn (flows : Flows i) :
    (s.boundaryIn mem i).redirect = false ∧ (s.boundaryIn mem i).stall = false := by
  simp [ParseRun.boundaryIn, flows.1, flows.2]

theorem remainder_joined (flows : Flows i)
    (line : InstrBoundary.workLine (s.boundaryIn mem i) = some (mem.line (lineOf s.pc)))
    (waits : s.boundary.pending (s.boundaryIn mem i) = some r)
    (none_ : (s.extracted mem i).straddle = none) :
    (s.boundary.next (s.boundaryIn mem i)).remainder = none := by
  have straddle : (s.boundary.extracted (s.boundaryIn mem i)).straddle = none := none_
  have counts : s.boundary.extractCount (s.boundaryIn mem i) ≠ 0 := by
    have same : s.boundary.extracted (s.boundaryIn mem i) = _ := extracted_joined line waits
    simp [InstrBoundary.extractCount, same]
  simp [InstrBoundary.next, flows.boundaryIn, straddle, InstrBoundary.consumeRemainder, line,
    waits, counts]

theorem remainder_cut (flows : Flows i)
    (waits : s.boundary.pending (s.boundaryIn mem i) = none) :
    (s.boundary.next (s.boundaryIn mem i)).remainder =
      (s.extracted mem i).straddle.or s.boundary.remainder := by
  have consumes : s.boundary.consumeRemainder (s.boundaryIn mem i) = false := by
    simp [InstrBoundary.consumeRemainder, waits]
  simp only [InstrBoundary.next, flows.boundaryIn, consumes, Bool.false_eq_true, if_false]
  unfold extracted
  cases (s.boundary.extracted (s.boundaryIn mem i)).straddle with
  | some r => rfl
  | none => rfl

/-- The line taken with the kept half. -/
theorem joined_cycle (inStep : InStep mem s) (legal : s.Legal mem i) (flows : Flows i)
    (line : InstrBoundary.workLine (s.boundaryIn mem i) = some (mem.line (lineOf s.pc)))
    (waits : s.boundary.pending (s.boundaryIn mem i) = some r) :
    Taken mem s (s.extracted mem i) (s.boundary.next (s.boundaryIn mem i)).remainder i.finalCount
      ((s.boundary.seqNextPc (s.boundaryIn mem i)).getD s.pc) := by
  obtain ⟨few, some_, -⟩ := legal
  have zero : s.pc.toNat % 64 = 0 ∧ s.boundary.remainder = some r := by
    simpa [pending_boundaryIn] using waits
  have cut := extracted_joined line waits
  have keeps : i.finalCount ≠ 0 := some_ (by simp [cut])
  rw [cut] at few
  obtain ⟨none_, taken⟩ := taken_pending (inStep.kept r zero.2) zero.1 zero.2
    (cuts_extractFrom mem s.pc 3 2 (by decide) rfl)
    (x := ⟨0, lineHalf (mem.line (lineOf s.pc)) 0 ++ r.hw, false, r.pc⟩) rfl keeps few
  have cursor : s.cursor = r.pc := by simp [ParseRun.cursor, zero.1, zero.2]
  have parses := taken.parses
  rw [← cut, cursor] at parses
  rw [← cut] at taken few
  have goes : s.boundary.seqNextPc (s.boundaryIn mem i) = some (mem.after i.finalCount r.pc) :=
    (if_pos keeps).trans (fallthrough_slot parses keeps few)
  have straddle : (s.extracted mem i).straddle = none := by rw [cut, none_]
  rw [goes, remainder_joined flows line waits straddle]
  exact taken

/-- Where fetch goes on after the slots of a line, or behind a line that holds only a half. -/
theorem seqNextPc_cut (legal : s.Legal mem i)
    (cuts : Cuts mem (lineOf s.pc) 4 (s.pc.toNat % 64) (s.extracted mem i))
    (even : s.pc.toNat % 2 = 0) :
    (s.boundary.seqNextPc (s.boundaryIn mem i)).getD s.pc =
      if i.finalCount = 0 then place (lineOf s.pc + 1) 0 else mem.after i.finalCount s.pc := by
  have count : (s.boundaryIn mem i).finalCount = i.finalCount := rfl
  obtain ⟨few, some_, -⟩ := legal
  by_cases none_ : i.finalCount = 0
  · have empty : (s.extracted mem i).slots = [] := by
      by_contra more
      exact some_ more none_
    obtain ⟨r, found⟩ := Option.isSome_iff_exists.mp (cuts.goesOn (by decide) (by omega) empty)
    have found' : (s.boundary.extracted (s.boundaryIn mem i)).straddle = some r := found
    rw [InstrBoundary.seqNextPc, count, if_neg (by simp [none_]), found', if_pos none_]
    simp [place, boundaryIn, lineAddr, lineOf]
  · have parses := cuts.parses
    rw [place_self s.pc] at parses
    have next_ := fallthrough_slot parses none_ few
    rw [InstrBoundary.seqNextPc, count, if_pos none_, if_neg none_]
    exact congrArg (·.getD s.pc) next_

/-- A cycle that takes a line. -/
theorem taken_cycle (inStep : InStep mem s) (legal : s.Legal mem i)
    (present : i.workValid = true ∧ i.dataValid = true) (noRedirect : i.redirect = none)
    (runs : i.stall = false) :
    Taken mem s (s.extracted mem i) (s.boundary.next (s.boundaryIn mem i)).remainder i.finalCount
      ((s.boundary.seqNextPc (s.boundaryIn mem i)).getD s.pc) := by
  have line : InstrBoundary.workLine (s.boundaryIn mem i) = some (mem.line (lineOf s.pc)) :=
    workLine_boundaryIn present
  have flows : Flows i := ⟨noRedirect, runs⟩
  cases waits : s.boundary.pending (s.boundaryIn mem i) with
  | some r => exact joined_cycle inStep legal flows line waits
  | none =>
    have idle : s.pc.toNat % 64 = 0 → s.boundary.remainder = none := by
      intro zero
      simpa [pending_boundaryIn, zero] using waits
    have even := inStep.even
    have cuts := cuts_extractFrom mem s.pc 4 (s.pc.toNat % 64) (by omega) (by omega)
    rw [← extracted_cut line waits] at cuts
    rw [seqNextPc_cut legal cuts even, remainder_cut flows waits]
    exact taken_line inStep idle cuts legal.some_ legal.few

/-- Without a line, or while fetch stalls, nothing is taken and the half is kept. -/
theorem next_idle (noRedirect : i.redirect = none)
    (idle : i.stall = true ∨ InstrBoundary.workLine (s.boundaryIn mem i) = none)
    (legal : s.Legal mem i) : s.next mem i = s := by
  have quiet : (s.boundaryIn mem i).redirect = false := by simp [boundaryIn, noRedirect]
  by_cases stalls : i.stall = true
  · have waits : (s.boundaryIn mem i).stall = true := stalls
    simp [ParseRun.next, noRedirect, stalls, InstrBoundary.next, quiet, waits]
  · have line := idle.resolve_left stalls
    have runs : (s.boundaryIn mem i).stall = false := by simpa [boundaryIn] using stalls
    have nothing : s.boundary.extracted (s.boundaryIn mem i) = ⟨[], none⟩ := by
      simp [InstrBoundary.extracted, line]
    have few := legal.few
    have taken : s.extracted mem i = ⟨[], none⟩ := nothing
    rw [taken] at few
    have none_ : (s.boundaryIn mem i).finalCount = 0 := Nat.le_zero.mp few
    simp [ParseRun.next, noRedirect, stalls, InstrBoundary.next, quiet, runs, nothing, taken,
      InstrBoundary.consumeRemainder, InstrBoundary.seqNextPc, line, none_]

theorem InStep.next (inStep : InStep mem s) (legal : s.Legal mem i) : InStep mem (s.next mem i) := by
  cases redirects : i.redirect with
  | some target =>
    have clears : (s.boundaryIn mem i).redirect = true := by simp [boundaryIn, redirects]
    have cleared : s.next mem i = ⟨⟨none⟩, target, target, []⟩ := by
      simp [ParseRun.next, redirects, InstrBoundary.next, clears]
    rw [cleared]
    exact ⟨legal.even target redirects, rfl, (cursor_none ⟨⟨none⟩, target, target, []⟩ target).symm,
      nofun⟩
  | none =>
    by_cases idle : i.stall = true ∨ InstrBoundary.workLine (s.boundaryIn mem i) = none
    · rw [next_idle redirects idle legal]
      exact inStep
    · obtain ⟨runs, line⟩ := not_or.mp idle
      have present : i.workValid = true ∧ i.dataValid = true := by
        cases work : i.workValid with
        | false => simp [InstrBoundary.workLine, boundaryIn, work] at line
        | true =>
          cases data : i.dataValid with
          | false => simp [InstrBoundary.workLine, boundaryIn, data] at line
          | true => exact ⟨rfl, rfl⟩
      have taken := taken_cycle inStep legal present redirects (by simpa using runs)
      have goes : s.next mem i =
          { s with
            boundary := ⟨(s.boundary.next (s.boundaryIn mem i)).remainder⟩
            pc := (s.boundary.seqNextPc (s.boundaryIn mem i)).getD s.pc
            log := s.log ++ (s.extracted mem i).slots.take i.finalCount } := by
        simp [ParseRun.next, redirects, runs]
      rw [goes]
      exact inStep.taken taken legal.few

-- ---------------------------------------------------------------------
-- All runs
-- ---------------------------------------------------------------------

theorem inStep_of_reach {start : Addr} (even : start.toNat % 2 = 0)
    (reach : (parseRuns mem start).Reachable s) : InStep mem s := by
  refine reach.invariant (InStep mem) ?_ fun s i _ inStep legal _ => inStep.next legal
  exact ⟨even, rfl, (cursor_none ⟨⟨none⟩, start, start, []⟩ start).symm, nofun⟩

/-- The slots taken since the last start are the sequence of instructions from there. A half that is
joined to a line comes right before it, and a line that is taken brings the caller on. -/
theorem slots_parse (mem : Image) (start : Addr) (even : start.toNat % 2 = 0) (s : ParseRun)
    (reach : (parseRuns mem start).Reachable s) :
    s.log.map RawSlot.toInsn = mem.parse s.log.length s.start ∧
      (∀ i r, s.boundary.consumeRemainder (s.boundaryIn mem i) = true →
        s.boundary.pending (s.boundaryIn mem i) = some r →
          r.hw = mem.half r.pc ∧ r.pc + 2 = lineAddr (lineOf s.pc)) ∧
      ∀ i, s.Legal mem i → i.workValid = true → i.dataValid = true → i.redirect = none →
        i.stall = false → i.finalCount ≠ 0 ∨ (s.next mem i).pc = lineAddr (lineOf s.pc + 1) := by
  have inStep := inStep_of_reach even reach
  refine ⟨inStep.log, ?_, ?_⟩
  · intro i r _ waits
    have zero : s.pc.toNat % 64 = 0 ∧ s.boundary.remainder = some r := by
      simpa [InstrBoundary.pending, startOffset_boundaryIn] using waits
    have follows := inStep.kept r zero.2
    have self := place_self s.pc
    rw [zero.1] at self
    refine ⟨follows.half, (follows.next zero.1).trans (self.symm.trans ?_)⟩
    simp [place]
  · intro i legal work data noRedirect runs
    obtain taken | goes := (taken_cycle inStep legal ⟨work, data⟩ noRedirect runs).goesOn
    · exact .inl taken
    · right
      simp only [ParseRun.next, noRedirect, runs, Bool.false_eq_true, if_false]
      rw [goes]
      simp [place]

/-- Instructions of four bytes, none aligned. -/
def wide : Image := fun a => if a.toNat % 4 = 2 then 0x13 else 0

def take (n : Nat) : ParseIn := ⟨none, false, true, true, n⟩

/-- The first instruction lies across the first two lines. -/
def acrossLines : ParseRun := (parseRuns wide 62).run (parseRuns wide 62).reset [take 0, take 3]

theorem reach_acrossLines : (parseRuns wide 62).Reachable acrossLines := by
  refine Machine.Reachable.run .reset ⟨⟨?_, ?_, nofun⟩, ⟨?_, ?_, nofun⟩, trivial⟩
  · decide +kernel
  · decide +kernel
  · decide +kernel
  · decide +kernel

theorem slots_parse_across : acrossLines.log.map RawSlot.toInsn = wide.parse 3 62 := by
  have parses := (slots_parse wide 62 (by decide) acrossLines reach_acrossLines).1
  have length : acrossLines.log.length = 3 := by decide +kernel
  have start : acrossLines.start = 62 := by decide +kernel
  rw [length, start] at parses
  exact parses

end Rv64gc.Frontend
