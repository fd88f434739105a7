import Rv64gc.Lsu.AmoUpdates

/-!
# Loads after atomics

Atomics go around the store queue, so no load is given their data before it is in the cache and no
ordering check sees a load that came too early. What keeps a load behind an older atomic are gates:
the load queue offers its two oldest ready entries, an atomic on a port holds back the other port,
and a busy AMO unit holds back both.
-/

namespace Rv64gc.Lsu

open Hdl Mmu

/-- The bytes an access is about. -/
structure Span where
  first : Nat
  size : Nat
deriving DecidableEq

def Span.covers (x : Span) (b : Nat) : Prop := x.first ≤ b ∧ b < x.first + x.size

instance (x : Span) (b : Nat) : Decidable (x.covers b) := inferInstanceAs (Decidable (_ ∧ _))

def Span.overlaps (x y : Span) : Bool :=
  decide (x.first < y.first + y.size ∧ y.first < x.first + x.size)

def AmoOp.span (a : AmoOp Tag) : Span := ⟨a.addr.toNat, if a.size = memWord then 4 else 8⟩

/-- The instruction stands for a store: an AMO, or an SC whose reservation held. -/
def AmoLife.writes (m : AmoLife) : Prop := m.op.op ≠ amoLr ∧ (m.op.op = amoSc → m.reserved = true)

/-- A load or a store, from the cycle it takes its slot in the reorder buffer. -/
structure MemLife where
  isStore : Bool
  span : Span
  /-- Loads: the queue has let it go. -/
  issued : Bool
  /-- Loads: whose write each byte it returned was, if it was one of the run's. -/
  read : Option (Nat → Option Nat)
  /-- Stores: neither the store queue nor the committed store buffer has it any more. -/
  gone : Bool
  fate : Fate

structure OrderIn where
  amo : AmoRunIn
  /-- The entries of the load queue whose operands are there. -/
  ready : Nat → Bool
  /-- Whatever else holds a port back. -/
  suppress0 : Bool
  suppress1 : Bool
  /-- The entries that come into the load queue. -/
  enq : List Nat
  /-- The loads that get their bytes, with whose write each is. -/
  reads : Nat → Option (Nat → Option Nat)
  /-- The store of the committed store buffer that the data cache takes. -/
  drain : Option Nat
  /-- The stores that leave the committed store buffer. -/
  leaves : Nat → Bool
  retires : Nat → Bool
  squashes : Nat → Bool
  /-- The loads (`false`) and stores that take their slot in the reorder buffer. -/
  enters : Nat → Option (Bool × Span)

structure OrderRun where
  amo : AmoRun
  /-- The load queue. -/
  queue : List Nat
  /-- The loads and stores of the run by their place in the program. -/
  lives : Nat → Option MemLife
  /-- Whose write each byte of memory is, if it is one of the run's. -/
  memory : Nat → Option Nat

namespace OrderRun

variable (s : OrderRun) (i : OrderIn)

-- ---------------------------------------------------------------------
-- The load queue
-- ---------------------------------------------------------------------

/-- Port 0 has the oldest ready entry. -/
def select0 : Option Nat := (s.queue.filter i.ready).min?

/-- Port 1 has the oldest of the others. -/
def select1 : Option Nat :=
  ((s.queue.filter i.ready).filter fun n => s.select0 i != some n).min?

def isAtomic (n : Nat) : Bool := (s.amo.lives n).isSome

/-- The load leaves the queue: `load_issue_suppress` for the two ports. -/
def issues (n : Nat) : Bool :=
  !s.amo.unit.busy && !s.isAtomic n &&
    (s.select0 i == some n && !i.suppress0 ||
      s.select1 i == some n && !(s.select0 i).any s.isAtomic && !i.suppress1)

def inFlight (n : Nat) : Bool :=
  ((s.lives n).any fun m => m.fate == .inFlight) ||
    (s.amo.lives n).any fun m => m.fate == .inFlight

/-- `rob_idx == rob_head` -/
def oldest (n : Nat) : Bool := (List.range n).all fun k => !s.inFlight k

/-- `amo_forward_block`, and the committed stores that `amo_serial_block` waits for -/
def storeBlocks (n : Nat) (x : Span) : Bool :=
  (List.range n).any fun k => (s.lives k).any fun m =>
    m.isStore && m.fate != .squashed && !m.gone && m.span.overlaps x

/-- The atomic that leaves the queue: only port 0 has the AMO unit behind it. -/
def issueAtomic : Option AmoInsn := do
  let n ← s.select0 i
  let m ← s.amo.lives n
  if !s.amo.unit.busy && s.oldest n && !s.storeBlocks n m.op.span && !i.suppress0 then
    some m.op
  else none

-- ---------------------------------------------------------------------
-- A cycle
-- ---------------------------------------------------------------------

def nextLife (n : Nat) (m : MemLife) : MemLife where
  isStore := m.isStore
  span := m.span
  issued := m.issued || s.issues i n
  read := m.read.or (i.reads n)
  gone := m.gone || i.leaves n
  fate :=
    if m.fate = .inFlight then
      if i.retires n then .retired else if i.squashes n then .squashed else .inFlight
    else m.fate

def nextLives (n : Nat) : Option MemLife :=
  match s.lives n with
  | some m => some (s.nextLife i n m)
  | none => (i.enters n).map fun x => ⟨x.1, x.2, false, none, false, .inFlight⟩

/-- The entry still waits to issue. -/
def waits (amo : AmoRun) (lives : Nat → Option MemLife) (n : Nat) : Bool :=
  ((amo.lives n).any fun m => m.fate == .inFlight && !m.issued) ||
    (lives n).any fun m => m.fate == .inFlight && !m.issued && !m.isStore

/-- The atomic whose update the data cache takes. -/
def updates : Option Nat :=
  match s.amo.lookup with
  | some (some n, _) => if i.amo.unit.storeAck then some n else none
  | _ => none

/-- Whose write a byte is: an atomic's or a drained store's. -/
def nextMemory (b : Nat) : Option Nat :=
  if (s.updates i).any fun n => (s.amo.lives n).any fun m => m.op.span.covers b then s.updates i
  else if i.drain.any fun n => (s.lives n).any fun m => m.span.covers b then i.drain
  else s.memory b

def next : OrderRun where
  amo := s.amo.next i.amo
  queue := (s.queue ++ i.enq).filter (waits (s.amo.next i.amo) (s.nextLives i))
  lives := s.nextLives i
  memory := s.nextMemory i

/-- The instruction with this place retires in the cycle. -/
def retiresNow (n : Nat) : Bool :=
  ((s.lives n).any fun m => m.fate == .inFlight && i.retires n) ||
    (s.amo.lives n).any fun m => m.fate == .inFlight && i.amo.retires m.op.tag.robIdx

/-- No instruction has had this place or a later one. -/
def Fresh (n : Nat) : Prop :=
  ∀ k, n ≤ k → s.lives k = none ∧ s.amo.lives k = none

/-- What the rest of the core keeps to. -/
structure Keeps : Prop where
  amo : s.amo.Keeps i.amo
  issue : i.amo.unit.issue = s.issueAtomic i
  /-- Instructions come in program order, each a load, a store or an atomic. -/
  enters : ∀ n, (i.enters n).isSome = true ∨ (i.amo.enters n).isSome = true → s.Fresh n
  apart : ∀ n, (i.enters n).isSome = true → i.amo.enters n = none
  /-- They retire in program order. -/
  order : ∀ n k, s.retiresNow i n = true → k < n → s.inFlight k = true → s.retiresNow i k = true
  /-- A flush takes back all that is younger than some instruction. -/
  flush : (∀ k n, k < n → i.squashes k = true → i.squashes n = true) ∧
    ∀ n m, s.amo.lives n = some m → m.fate = .inFlight →
      i.amo.squashes m.op.tag.robIdx = i.squashes n
  /-- The dispatch queue is a FIFO. -/
  enq : ∀ n, n ∈ i.enq → waits s.amo s.lives n = true ∧
    ∀ k, k < n → waits s.amo s.lives k = true → k ∈ s.queue ∨ k ∈ i.enq
  /-- A load that has issued reads what the cache has, or an older store on its way there. -/
  reads : ∀ n src, i.reads n = some src → ∃ m, s.lives n = some m ∧ m.isStore = false ∧
    m.issued = true ∧ m.fate = .inFlight ∧
    ∀ b, m.span.covers b → src b = s.memory b ∨
      ∃ k st, src b = some k ∧ k < n ∧ s.lives k = some st ∧ st.isStore = true ∧
        st.fate ≠ .squashed ∧ st.gone = false ∧ st.span.covers b
  /-- Retired stores drain when no atomic has the store port. -/
  drain : ∀ n, i.drain = some n → s.amo.unit.storeReq = none ∧
    ∃ m, s.lives n = some m ∧ m.isStore = true ∧ m.fate = .retired ∧ m.gone = false

end OrderRun

def orderRuns : Machine OrderRun OrderIn where
  reset := ⟨⟨.reset, none, fun _ => none⟩, [], fun _ => none, fun _ => none⟩
  next s i := s.next i
  legal s i := s.Keeps i

namespace OrderRun

/-- The instruction writes the byte: a store that was not taken back, or an atomic that updated. -/
def Wrote (s : OrderRun) (k b : Nat) : Prop :=
  (∃ m, s.lives k = some m ∧ m.isStore = true ∧ m.fate ≠ .squashed ∧ m.span.covers b) ∨
    ∃ m, s.amo.lives k = some m ∧ m.fate = .retired ∧ m.updates ≠ [] ∧ m.op.span.covers b

/-- A load returns, in each byte, the write of the last atomic before it or of something in
between. -/
def ReadsAfterAtomics (s : OrderRun) : Prop :=
  ∀ l m src a am b, s.lives l = some m → m.isStore = false → m.read = some src →
    m.fate ≠ .squashed → s.amo.lives a = some am → am.fate ≠ .squashed → a < l → am.writes →
    m.span.covers b → am.op.span.covers b →
    ∃ k, src b = some k ∧ a ≤ k ∧ k < l ∧ s.Wrote k b

/-- Whenever a load leaves the load queue, the older AMOs and SCs there to its bytes have their
operands. -/
def AtomicsReady (s : OrderRun) (i : OrderIn) : Prop :=
  ∀ l m a am b, s.issues i l = true → s.lives l = some m → a ∈ s.queue →
    s.amo.lives a = some am → a < l → am.op.op ≠ amoLr → m.span.covers b →
    am.op.span.covers b → i.ready a = true

/-- A cycle in which no load overtakes an atomic, and no re-probe finds its read answered. -/
structure Ordered (s : OrderRun) (i : OrderIn) : Prop where
  asked : s.amo.Asked i.amo
  ready : s.AtomicsReady i

end OrderRun

end Rv64gc.Lsu
