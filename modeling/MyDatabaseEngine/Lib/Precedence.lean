/-
**Operators and how tightly they bind.**

A `Surface` is a text of operands, parentheses, operators in front of an operand and operators
between two, with a structure on it. Given how strongly each operator binds, `Grouped` says that the
structure is the one precedence gives the text, operators between two grouping to the left: an
operand of an operator binds at least as tightly as that operator, a right operand more tightly.
`explicit` puts parentheses around every operand that is itself an operator's: that is grouped
whatever the strengths, and means the same (`grouped_explicit`, `eval_explicit`). When the operators
in front all bind alike, and tighter than those between, every text has a grouping
(`exists_grouped`).
-/

import Mathlib.Data.List.Basic
import Mathlib.Order.Basic

namespace Precedence

variable {α π ω τ : Type}

/-- A text with its structure. -/
inductive Surface (α π ω : Type)
  | atom (a : α)
  | group (inner : Surface α π ω)
  | front (op : π) (operand : Surface α π ω)
  | between (op : ω) (left right : Surface α π ω)

/-- What a text is made of. -/
inductive Symbol (α π ω : Type)
  | atom (a : α)
  | opening
  | closing
  | front (op : π)
  | between (op : ω)

/-- How strongly each operator binds. -/
structure Strengths (π ω : Type) where
  front : π → Nat
  between : ω → Nat

namespace Surface

/-- **The text**, without its structure. -/
def symbols : Surface α π ω → List (Symbol α π ω)
  | atom a => [.atom a]
  | group inner => .opening :: (inner.symbols ++ [.closing])
  | front op operand => .front op :: operand.symbols
  | between op left right => left.symbols ++ .between op :: right.symbols

/-- What the text means under an interpretation of its operands and operators. -/
def eval (atomValue : α → τ) (frontValue : π → τ → τ) (betweenValue : ω → τ → τ → τ) :
    Surface α π ω → τ
  | atom a => atomValue a
  | group inner => inner.eval atomValue frontValue betweenValue
  | front op operand => frontValue op (operand.eval atomValue frontValue betweenValue)
  | between op left right => betweenValue op (left.eval atomValue frontValue betweenValue)
      (right.eval atomValue frontValue betweenValue)

/-- The outermost operator binds at least this strongly; an operand does, and parentheses. -/
def Binds (strengths : Strengths π ω) (n : Nat) : Surface α π ω → Prop
  | atom _ => True
  | group _ => True
  | front op _ => n ≤ strengths.front op
  | between op _ _ => n ≤ strengths.between op

/-- **The structure is the one precedence gives the text.** -/
def Grouped (strengths : Strengths π ω) : Surface α π ω → Prop
  | atom _ => True
  | group inner => inner.Grouped strengths
  | front op operand => operand.Grouped strengths ∧ operand.Binds strengths (strengths.front op)
  | between op left right => left.Grouped strengths ∧ right.Grouped strengths ∧
      left.Binds strengths (strengths.between op) ∧ right.Binds strengths (strengths.between op + 1)

instance decidableBinds (strengths : Strengths π ω) (n : Nat) :
    ∀ s : Surface α π ω, Decidable (s.Binds strengths n)
  | atom _ => .isTrue trivial
  | group _ => .isTrue trivial
  | front op _ => inferInstanceAs (Decidable (n ≤ strengths.front op))
  | between op _ _ => inferInstanceAs (Decidable (n ≤ strengths.between op))

instance decidableGrouped (strengths : Strengths π ω) :
    ∀ s : Surface α π ω, Decidable (s.Grouped strengths)
  | atom _ => .isTrue trivial
  | group inner => decidableGrouped strengths inner
  | front _ operand => @instDecidableAnd _ _ (decidableGrouped strengths operand) _
  | between _ left right => @instDecidableAnd _ _ (decidableGrouped strengths left)
      (@instDecidableAnd _ _ (decidableGrouped strengths right) _)

/-! ### All parentheses -/

section Explicit

/-- In parentheses when it is an operator's. -/
def enclose : Surface α π ω → Surface α π ω
  | atom a => atom a
  | group inner => group inner
  | front op operand => group (front op operand)
  | between op left right => group (between op left right)

/-- **The same text with all parentheses made explicit.** -/
def explicit : Surface α π ω → Surface α π ω
  | atom a => atom a
  | group inner => group inner.explicit
  | front op operand => front op operand.explicit.enclose
  | between op left right => between op left.explicit.enclose right.explicit.enclose

variable {strengths : Strengths π ω} {s : Surface α π ω}

theorem binds_enclose (s : Surface α π ω) (n : Nat) : s.enclose.Binds strengths n := by
  cases s <;> exact trivial

theorem grouped_enclose (grouped : s.Grouped strengths) : s.enclose.Grouped strengths := by
  cases s <;> exact grouped

/-- **With all parentheses there is nothing left to precedence.** -/
theorem grouped_explicit (strengths : Strengths π ω) (s : Surface α π ω) :
    s.explicit.Grouped strengths := by
  induction s with
  | atom a => trivial
  | group inner ih => exact ih
  | front op operand ih => exact ⟨grouped_enclose ih, binds_enclose _ _⟩
  | between op left right ihLeft ihRight =>
    exact ⟨grouped_enclose ihLeft, grouped_enclose ihRight, binds_enclose _ _, binds_enclose _ _⟩

variable {atomValue : α → τ} {frontValue : π → τ → τ} {betweenValue : ω → τ → τ → τ}

theorem eval_enclose (s : Surface α π ω) :
    s.enclose.eval atomValue frontValue betweenValue =
      s.eval atomValue frontValue betweenValue := by
  cases s <;> rfl

theorem eval_explicit (s : Surface α π ω) :
    s.explicit.eval atomValue frontValue betweenValue =
      s.eval atomValue frontValue betweenValue := by
  induction s with
  | atom a => rfl
  | group inner ih => exact ih
  | front op operand ih => simp only [explicit, eval, eval_enclose, ih]
  | between op left right ihLeft ihRight =>
    simp only [explicit, eval, eval_enclose, ihLeft, ihRight]

/-- A property of the operands and operators of a text is one of the text with all parentheses. -/
theorem forall_symbols_explicit {good : Symbol α π ω → Prop} (opening : good .opening)
    (closing : good .closing) (all : ∀ x ∈ s.symbols, good x) : ∀ x ∈ s.explicit.symbols,
      good x := by
  have enclosed : ∀ s : Surface α π ω, (∀ x ∈ s.symbols, good x) → ∀ x ∈ s.enclose.symbols,
      good x := by
    intro s all
    cases s with
    | atom | group => exact all
    | front | between =>
      simp only [enclose, symbols, List.forall_mem_cons, List.forall_mem_append] at all ⊢
      exact ⟨opening, all, closing, fun x member => absurd member List.not_mem_nil⟩
  induction s with
  | atom a => exact all
  | group inner ih =>
    simp only [symbols, List.forall_mem_cons, List.forall_mem_append] at all
    simp only [explicit, symbols, List.forall_mem_cons, List.forall_mem_append]
    exact ⟨opening, ih all.2.1, closing, all.2.2.2⟩
  | front op operand ih =>
    simp only [symbols, List.forall_mem_cons] at all
    simp only [explicit, symbols, List.forall_mem_cons]
    exact ⟨all.1, enclosed _ (ih all.2)⟩
  | between op left right ihLeft ihRight =>
    simp only [symbols, List.forall_mem_cons, List.forall_mem_append] at all
    simp only [explicit, symbols, List.forall_mem_cons, List.forall_mem_append]
    exact ⟨enclosed _ (ihLeft all.1), all.2.1, enclosed _ (ihRight all.2.2)⟩

end Explicit

/-! ### Finding the structure -/

section Regroup

variable {strengths : Strengths π ω} {s unit : Surface α π ω} {op : ω} {n : Nat}

/-- An operand behind operators in front of it. -/
def fronts (ops : List π) (operand : Surface α π ω) : Surface α π ω := ops.foldr front operand

/-- One more operator and operand at the right end: they take the operands that bind more
strongly. -/
def extend (strengths : Strengths π ω) (s : Surface α π ω) (op : ω) (unit : Surface α π ω) :
    Surface α π ω :=
  match s with
  | between op' left right =>
    if strengths.between op ≤ strengths.between op' then between op (between op' left right) unit
    else between op' left (right.extend strengths op unit)
  | atom a => between op (atom a) unit
  | group inner => between op (group inner) unit
  | front op' operand => between op (front op' operand) unit

theorem symbols_fronts (ops : List π) (operand : Surface α π ω) :
    (fronts ops operand).symbols = ops.map .front ++ operand.symbols := by
  induction ops with
  | nil => rfl
  | cons op ops ih =>
    show .front op :: (fronts ops operand).symbols = _
    rw [ih]
    rfl

theorem symbols_extend (s : Surface α π ω) (op : ω) (unit : Surface α π ω) :
    (s.extend strengths op unit).symbols = s.symbols ++ .between op :: unit.symbols := by
  induction s with
  | atom | group | front => rfl
  | between op' left right _ ih =>
    unfold extend
    split
    · rfl
    · simp only [symbols, ih, List.append_assoc, List.cons_append]

theorem Binds.mono {m : Nat} (binds : s.Binds strengths n) (le : m ≤ n) : s.Binds strengths m := by
  cases s with
  | atom | group => trivial
  | front | between => exact Nat.le_trans le binds

/-- What an extended text binds like: as the text did and as the new operator does. -/
theorem binds_extend (binds : s.Binds strengths n) (le : n ≤ strengths.between op) :
    (s.extend strengths op unit).Binds strengths n := by
  cases s with
  | atom | group | front => exact le
  | between op' left right =>
    unfold extend
    split
    · exact le
    · exact binds

variable (tight : ∀ (p : π) (op : ω), strengths.between op < strengths.front p)
  (level : ∀ p q : π, strengths.front p = strengths.front q)

/-- It binds as strongly as every operator in front, and more strongly than every operator between
two. -/
def IsUnit (strengths : Strengths π ω) (s : Surface α π ω) : Prop :=
  s.Grouped strengths ∧ (∀ p, s.Binds strengths (strengths.front p)) ∧
    ∀ op, s.Binds strengths (strengths.between op + 1)

include tight level in
theorem isUnit_fronts (ops : List π) {operand : Surface α π ω} (isUnit : operand.IsUnit strengths) :
    (fronts ops operand).IsUnit strengths := by
  induction ops with
  | nil => exact isUnit
  | cons p ops ih =>
    obtain ⟨grouped, binds, -⟩ := ih
    exact ⟨⟨grouped, binds p⟩, fun q => Nat.le_of_eq (level q p), fun op => tight p op⟩

include tight in
theorem grouped_extend (grouped : s.Grouped strengths) (isUnit : unit.IsUnit strengths) :
    (s.extend strengths op unit).Grouped strengths := by
  induction s with
  | atom | group => exact ⟨grouped, isUnit.1, trivial, isUnit.2.2 op⟩
  | front p operand => exact ⟨grouped, isUnit.1, Nat.le_of_lt (tight p op), isUnit.2.2 op⟩
  | between op' left right _ ih =>
    unfold extend
    split
    · rename_i weaker
      exact ⟨grouped, isUnit.1, weaker, isUnit.2.2 op⟩
    · rename_i stronger
      obtain ⟨groupedLeft, groupedRight, bindsLeft, bindsRight⟩ := grouped
      exact ⟨groupedLeft, ih groupedRight, bindsLeft,
        binds_extend bindsRight (Nat.lt_of_not_le stronger)⟩

/-- The text to the left of an operand: another with an operator behind it, or nothing. -/
def leftSymbols : Option (Surface α π ω × ω) → List (Symbol α π ω)
  | none => []
  | some (s, op) => s.symbols ++ [.between op]

include tight level in
/-- **Every text has a grouping.** By induction on any structure of it, with what is to the left of
it grouped already and the operators in front that are not yet applied. -/
theorem exists_grouped_behind (u : Surface α π ω) :
    ∀ (left : Option (Surface α π ω × ω)) (ops : List π), (∀ s ∈ left, s.1.Grouped strengths) →
    ∃ s : Surface α π ω, s.Grouped strengths ∧
      s.symbols = leftSymbols left ++ ops.map .front ++ u.symbols := by
  -- an operand behind operators in front of it, at the right end of the text
  have placed : ∀ (left : Option (Surface α π ω × ω)) (ops : List π) (operand : Surface α π ω),
      (∀ s ∈ left, s.1.Grouped strengths) → operand.IsUnit strengths →
      ∃ s : Surface α π ω, s.Grouped strengths ∧
        s.symbols = leftSymbols left ++ ops.map .front ++ operand.symbols := by
    intro left ops operand grouped isUnit
    have isUnit := isUnit_fronts tight level ops isUnit
    cases left with
    | none => exact ⟨fronts ops operand, isUnit.1, symbols_fronts ops operand⟩
    | some left =>
      refine ⟨left.1.extend strengths left.2 (fronts ops operand),
        grouped_extend tight (grouped left rfl) isUnit, ?_⟩
      rw [symbols_extend, symbols_fronts]
      simp [leftSymbols]
  induction u with
  | atom a =>
    intro left ops grouped
    exact placed left ops (atom a) grouped ⟨trivial, fun _ => trivial, fun _ => trivial⟩
  | group inner ih =>
    intro left ops grouped
    obtain ⟨inner', groupedInner, same⟩ :=
      ih none [] fun s member => absurd member (Option.not_mem_none s)
    obtain ⟨s, groupedS, text⟩ := placed left ops (group inner') grouped
      ⟨groupedInner, fun _ => trivial, fun _ => trivial⟩
    refine ⟨s, groupedS, text.trans ?_⟩
    rw [symbols, same]
    rfl
  | front p operand ih =>
    intro left ops grouped
    obtain ⟨s, groupedS, text⟩ := ih left (ops ++ [p]) grouped
    refine ⟨s, groupedS, text.trans ?_⟩
    simp [symbols]
  | between op l r ihLeft ihRight =>
    intro left ops grouped
    obtain ⟨l', groupedL, textL⟩ := ihLeft left ops grouped
    obtain ⟨s, groupedS, text⟩ := ihRight (some (l', op)) [] fun s member =>
      Option.mem_some.mp member ▸ groupedL
    refine ⟨s, groupedS, text.trans ?_⟩
    simp [leftSymbols, symbols, textL]

include tight level in
theorem exists_grouped (u : Surface α π ω) :
    ∃ s : Surface α π ω, s.Grouped strengths ∧ s.symbols = u.symbols :=
  exists_grouped_behind tight level u none [] fun s member => absurd member (Option.not_mem_none s)

end Regroup

end Surface

end Precedence
