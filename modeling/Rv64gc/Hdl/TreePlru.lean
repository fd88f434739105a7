import Mathlib.Data.Finset.Card
import Mathlib.Data.Fintype.Basic
import Mathlib.Data.List.Basic
import Mathlib.Tactic.FinCases
import Rv64gc.Hdl.Index

/-!
# Tree PLRU

A complete binary tree of depth `d` with a bit in each inner node. The ways are its leaves, each
named by the path to it; the victim is where the bits lead, and a touch turns every bit on the path
to the way away from it. A way that has been touched is the victim again only after `d` other ways
have been.
-/

namespace Rv64gc.Hdl.TreePlru

/-- The bits, by the path to their node. -/
abbrev Tree := List Bool → Bool

variable {t : Tree} {w : List Bool} {d : Nat}

def sub (t : Tree) (b : Bool) : Tree := fun n => t (b :: n)

/-- From the root along each node's bit. -/
def victim : Nat → Tree → List Bool
  | 0, _ => []
  | d + 1, t => t [] :: victim d (sub t (t []))

/-- The nodes on the path to the way point away from it. -/
def touch (t : Tree) : List Bool → Tree
  | [] => t
  | b :: w => fun
    | [] => !b
    | c :: n => if c = b then touch (sub t b) w n else t (c :: n)

def touches (t : Tree) (ws : List (List Bool)) : Tree := ws.foldl touch t

/-- The part of a path below a child of the root. -/
def below (b : Bool) : List Bool → Option (List Bool)
  | [] => none
  | c :: w => if c = b then some w else none

-- ---------------------------------------------------------------------
-- One touch
-- ---------------------------------------------------------------------

theorem below_eq_some {u : List Bool} (inside : below b u = some w) : u = b :: w := by
  cases u with
  | nil => cases inside
  | cons c u =>
    by_cases same : c = b
    · rw [below, if_pos same] at inside
      rw [same, Option.some.inj inside]
    · rw [below, if_neg same] at inside
      cases inside

@[simp] theorem below_cons (b : Bool) (w : List Bool) : below b (b :: w) = some w := if_pos rfl

theorem sub_touch (t : Tree) (b : Bool) (u : List Bool) :
    sub (touch t u) b = (below b u).elim (sub t b) (touch (sub t b)) := by
  funext n
  cases u with
  | nil => rfl
  | cons c u =>
    by_cases same : b = c
    · subst same
      simp [sub, touch]
    · simp [sub, touch, below, same, Ne.symm same]

-- ---------------------------------------------------------------------
-- Many touches
-- ---------------------------------------------------------------------

theorem touches_cons (t : Tree) (u : List Bool) (us : List (List Bool)) :
    touches t (u :: us) = touches (touch t u) us := rfl

/-- A subtree sees the touches of its own ways. -/
theorem sub_touches (t : Tree) (b : Bool) (us : List (List Bool)) :
    sub (touches t us) b = touches (sub t b) (us.filterMap (below b)) := by
  induction us generalizing t with
  | nil => rfl
  | cons u us ih =>
    rw [touches_cons, ih, sub_touch]
    cases part : below b u with
    | none => rw [List.filterMap_cons_none part]; rfl
    | some w => rw [List.filterMap_cons_some part]; rfl

/-- The root points to a child only if it did or a way below the other one was touched. -/
theorem root_touches (us : List (List Bool)) (points : touches t us [] = b) :
    t [] = b ∨ ∃ u, (!b) :: u ∈ us := by
  induction us generalizing t with
  | nil => exact .inl points
  | cons u us ih =>
    rcases ih points with now | ⟨v, on⟩
    · cases u with
      | nil => exact .inl now
      | cons c u =>
        have turned : c = !b := by
          rw [← now]
          exact (Bool.not_not c).symm
        exact .inr ⟨u, turned ▸ List.mem_cons_self⟩
    · exact .inr ⟨v, List.mem_cons_of_mem u on⟩

/-- The other ways that are touched. -/
def others (w : List Bool) (us : List (List Bool)) : Finset (List Bool) :=
  (us.filter (· ≠ w)).toFinset

theorem mem_others {u : List Bool} {us : List (List Bool)} : u ∈ others w us ↔ u ∈ us ∧ u ≠ w := by
  simp [others]

/-- A touched way is the victim only after `d` others have been touched. -/
theorem le_card_of_victim (us : List (List Bool)) (goes : victim d (touches t (w :: us)) = w) :
    d ≤ (others w us).card := by
  induction d generalizing t w us with
  | zero => exact Nat.zero_le _
  | succ d ih =>
    cases w with
    | nil => cases goes
    | cons b w =>
      obtain ⟨root, rest⟩ := List.cons.inj goes
      rw [root, sub_touches, List.filterMap_cons_some (below_cons b w)] at rest
      have deeper := ih _ rest
      -- The root has turned back, so a way of the other side was touched.
      obtain ⟨u, on⟩ : ∃ u, (!b) :: u ∈ us := by
        rcases root_touches us root with points | other
        · exact absurd points (Bool.not_ne_self b)
        · exact other
      let inside := (others w (us.filterMap (below b))).map ⟨List.cons b, List.cons_injective⟩
      have apart : (!b) :: u ∉ inside := by
        intro within
        obtain ⟨v, -, same⟩ := Finset.mem_map.mp within
        exact Bool.self_ne_not b (List.cons.inj same).1
      have among : insert ((!b) :: u) inside ⊆ others (b :: w) us := by
        intro v within
        rcases Finset.mem_insert.mp within with rfl | within
        · exact mem_others.mpr ⟨on, fun same => Bool.not_ne_self b (List.cons.inj same).1⟩
        · obtain ⟨x, touched, rfl⟩ := Finset.mem_map.mp within
          obtain ⟨there, other⟩ := mem_others.mp touched
          obtain ⟨y, on, part⟩ := List.mem_filterMap.mp there
          rw [below_eq_some part] at on
          exact mem_others.mpr ⟨on, fun same => other (List.cons.inj same).2⟩
      calc d + 1 ≤ inside.card + 1 := by rw [Finset.card_map]; exact Nat.succ_le_succ deeper
        _ = (insert ((!b) :: u) inside).card := (Finset.card_insert_of_notMem apart).symm
        _ ≤ (others (b :: w) us).card := Finset.card_le_card among

-- ---------------------------------------------------------------------
-- Replacement by a tree
-- ---------------------------------------------------------------------

/-- A replacement state whose uses and victims are those of a tree of depth `d`. -/
structure Follows {S W : Type} (d : Nat) (path : W → List Bool) (bits : S → Tree)
    (use : S → W → S) (victim : S → W) : Prop where
  path_injective : Function.Injective path
  bits_use : ∀ p w, bits (use p w) = touch (bits p) (path w)
  path_victim : ∀ p, path (victim p) = TreePlru.victim d (bits p)

section Follows

variable {S W : Type} {path : W → List Bool} {bits : S → Tree}
  {use : S → W → S} {vic : S → W}

theorem Follows.bits_uses (follows : Follows d path bits use vic) (p : S) (us : List W) :
    bits (us.foldl use p) = touches (bits p) (us.map path) := by
  induction us generalizing p with
  | nil => rfl
  | cons u us ih =>
    rw [List.foldl_cons, ih, follows.bits_use]
    rfl

/-- A used way is not the victim as long as fewer than `d` others are used. -/
theorem Follows.spared [DecidableEq W] (follows : Follows d path bits use vic) (p : S) {w : W}
    {us : List W} (few : ((us.filter (· ≠ w)).toFinset).card < d) : vic (us.foldl use (use p w)) ≠ w := by
  intro goes
  have leads : victim d (touches (bits p) (path w :: us.map path)) = path w := by
    have step := follows.path_victim ((w :: us).foldl use p)
    rw [follows.bits_uses] at step
    exact step.symm.trans (congrArg path goes)
  have many := le_card_of_victim _ leads
  have same : others (path w) (us.map path) ⊆
      ((us.filter (· ≠ w)).toFinset).map ⟨path, follows.path_injective⟩ := by
    intro v on
    obtain ⟨mapped, other⟩ := mem_others.mp on
    obtain ⟨u, used, rfl⟩ := List.mem_map.mp mapped
    have apart : u ≠ w := fun same => other (congrArg path same)
    exact Finset.mem_map.mpr ⟨u, by simp [used, apart], rfl⟩
  have atMost := Finset.card_le_card same
  rw [Finset.card_map] at atMost
  omega

end Follows

-- ---------------------------------------------------------------------
-- Eight ways
-- ---------------------------------------------------------------------

/-- A tree of depth 3 whose bits are held level by level. -/
def ofSeven (p : Fin 7 → Bool) : Tree
  | [] => p 0
  | [a] => if a then p 2 else p 1
  | [a, b] => if a then if b then p 6 else p 5 else if b then p 4 else p 3
  | _ => false

/-- The bits of a way's number lead to it. -/
def wayPath (w : Fin 8) : List Bool := [w.val.testBit 2, w.val.testBit 1, w.val.testBit 0]

theorem wayPath_injective : Function.Injective wayPath := by
  have all : ∀ v w, wayPath v = wayPath w → v = w := by decide
  exact fun v w => all v w

/-- A touch of one of eight ways. -/
def turn (p : Fin 7 → Bool) (w : Fin 8) : Fin 7 → Bool :=
  let bit := w.val.testBit
  fun k =>
    match k with
    | 0 => !bit 2
    | 1 => if bit 2 then p 1 else !bit 1
    | 2 => if bit 2 then !bit 1 else p 2
    | 3 => if !bit 2 && !bit 1 then !bit 0 else p 3
    | 4 => if !bit 2 && bit 1 then !bit 0 else p 4
    | 5 => if bit 2 && !bit 1 then !bit 0 else p 5
    | 6 => if bit 2 && bit 1 then !bit 0 else p 6

/-- The victim of eight ways. -/
def lead (p : Fin 7 → Bool) : Fin 8 :=
  if !p 0 then
    if !p 1 then if p 3 then 1 else 0
    else if p 4 then 3 else 2
  else
    if !p 2 then if p 5 then 5 else 4
    else if p 6 then 7 else 6

theorem follows_seven : Follows 3 wayPath ofSeven turn lead where
  path_injective := wayPath_injective
  bits_use p w := by
    funext n
    match n with
    | [] => fin_cases w <;> rfl
    | [a] => fin_cases w <;> cases a <;> rfl
    | [a, b] => fin_cases w <;> cases a <;> cases b <;> rfl
    | a :: b :: c :: n => fin_cases w <;> cases a <;> cases b <;> cases c <;> rfl
  path_victim p := by
    simp only [lead, victim, sub, ofSeven]
    by_cases root : p 0 = true <;> by_cases left : p 1 = true <;> by_cases right : p 2 = true
    all_goals
      simp only [root, left, right]
      simp only [Bool.not_false, Bool.not_true, if_true, if_false, Bool.false_eq_true]
      split <;> simp_all [wayPath] <;> decide

/-- Any other form of the seven bits follows the tree too. -/
theorem Follows.of_seven {S : Type} {get : S → Fin 7 → Bool} {use : S → Fin 8 → S}
    {vic : S → Fin 8} (turns : ∀ p w, get (use p w) = turn (get p) w)
    (leads : ∀ p, vic p = lead (get p)) :
    Follows 3 wayPath (fun p => ofSeven (get p)) use vic where
  path_injective := wayPath_injective
  bits_use p w := by
    rw [turns]
    exact follows_seven.bits_use (get p) w
  path_victim p := by
    rw [leads]
    exact follows_seven.path_victim (get p)

end Rv64gc.Hdl.TreePlru
