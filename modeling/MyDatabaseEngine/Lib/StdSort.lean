/-
**`std::sort` by its contract.**

`std::sort` asks that its comparator is a strict weak order on the elements to be sorted
(`StrictWeakOn`), and then leaves a sorted permutation of them; where the comparator is none, it
promises nothing, and elements that compare equal come in any order. A `StdSort` is any function
with that contract. The insertion sort at the end is one, so there are some.

Strict weak orders come from keys (`StrictWeakOn.of_key`) and from three-way comparisons, which may
be reversed and put one behind the other (`ThreeWayOn.neg`, `ThreeWayOn.lex`): a list of criteria
that each are consistent on the elements makes a comparator that is.
-/

import Mathlib.Data.List.Perm.Basic
import Mathlib.Order.Lattice

variable {α β : Type*}

/-- **A strict weak order on the elements of a list**: irreflexive, transitive, with transitive
incomparability. -/
structure StrictWeakOn (less : α → α → Bool) (l : List α) : Prop where
  irrefl : ∀ a ∈ l, less a a = false
  trans : ∀ a ∈ l, ∀ b ∈ l, ∀ c ∈ l, less a b = true → less b c = true → less a c = true
  incomparable : ∀ a ∈ l, ∀ b ∈ l, ∀ c ∈ l, less a b = false → less b a = false →
    less b c = false → less c b = false → less a c = false ∧ less c a = false

/-- A function that sorts whenever the comparator is a strict weak order. -/
structure StdSort (α : Type*) where
  sort : (α → α → Bool) → List α → List α
  sorts : ∀ less l, StrictWeakOn less l →
    (sort less l).Perm l ∧ (sort less l).Pairwise fun a b => less b a = false

namespace StrictWeakOn

/-- Comparing keys in a linear order, of what the elements were made from. -/
theorem of_key [LinearOrder β] {γ : Type*} {less : α → α → Bool} {l : List γ} (f : γ → α)
    (key : γ → β) (agree : ∀ a ∈ l, ∀ b ∈ l, less (f a) (f b) = true ↔ key a < key b) :
    StrictWeakOn less (l.map f) := by
  have notLess : ∀ a ∈ l, ∀ b ∈ l, less (f a) (f b) = false ↔ key b ≤ key a := fun a ha b hb => by
    rw [← not_lt, ← agree a ha b hb, Bool.not_eq_true]
  refine ⟨?_, ?_, ?_⟩ <;> simp only [List.forall_mem_map]
  · exact fun a ha => (notLess a ha a ha).mpr (le_refl _)
  · intro a ha b hb c hc first second
    exact (agree a ha c hc).mpr
      (lt_trans ((agree a ha b hb).mp first) ((agree b hb c hc).mp second))
  · intro a ha b hb c hc hab hba hbc hcb
    rw [notLess a ha c hc, notLess c hc a ha]
    rw [notLess a ha b hb] at hab
    rw [notLess b hb a ha] at hba
    rw [notLess b hb c hc] at hbc
    rw [notLess c hc b hb] at hcb
    exact ⟨le_trans hbc hab, le_trans hba hcb⟩

theorem mono {less : α → α → Bool} {l l' : List α} (order : StrictWeakOn less l)
    (inside : ∀ a ∈ l', a ∈ l) : StrictWeakOn less l' where
  irrefl := fun a ha => order.irrefl a (inside a ha)
  trans := fun a ha b hb c hc => order.trans a (inside a ha) b (inside b hb) c (inside c hc)
  incomparable := fun a ha b hb c hc =>
    order.incomparable a (inside a ha) b (inside b hb) c (inside c hc)

/-- "Not after" is transitive. -/
theorem not_less_trans {less : α → α → Bool} {l : List α} (order : StrictWeakOn less l) {a b c : α}
    (ha : a ∈ l) (hb : b ∈ l) (hc : c ∈ l) (hba : less b a = false) (hcb : less c b = false) :
    less c a = false := by
  by_contra before
  rw [Bool.not_eq_false] at before
  cases hab : less a b with
  | true => exact absurd (order.trans c hc a ha b hb before hab) (by simp [hcb])
  | false =>
    cases hbc : less b c with
    | true => exact absurd (order.trans b hb c hc a ha hbc before) (by simp [hba])
    | false => exact absurd (order.incomparable a ha b hb c hc hab hba hbc hcb).2 (by simp [before])

/-- An element is not after another or not before it. -/
theorem asymm {less : α → α → Bool} {l : List α} (order : StrictWeakOn less l) {a b : α}
    (ha : a ∈ l) (hb : b ∈ l) (before : less a b = true) : less b a = false := by
  by_contra after
  rw [Bool.not_eq_false] at after
  exact absurd (order.trans a ha b hb a ha before after) (by simp [order.irrefl a ha])

/-- A comparator of which no two elements are both before each other, and whose "not before" is
transitive. -/
theorem of_not_less_trans {less : α → α → Bool} {l : List α}
    (asymm : ∀ a ∈ l, ∀ b ∈ l, less a b = true → less b a = false)
    (trans : ∀ a ∈ l, ∀ b ∈ l, ∀ c ∈ l, less a b = false → less b c = false → less a c = false) :
    StrictWeakOn less l where
  irrefl := fun a ha => by
    by_contra before
    rw [Bool.not_eq_false] at before
    exact absurd (asymm a ha a ha before) (by simp [before])
  trans := fun a ha b hb c hc first second => by
    by_contra notBefore
    rw [Bool.not_eq_true] at notBefore
    exact absurd (trans a ha c hc b hb notBefore (asymm b hb c hc second)) (by simp [first])
  incomparable := fun a ha b hb c hc hab hba hbc hcb =>
    ⟨trans a ha b hb c hc hab hbc, trans c hc b hb a ha hcb hba⟩

end StrictWeakOn

/-- **A three-way comparison of the elements of a list**: negative, zero or positive as the first
comes before the second, with it or after it. -/
structure ThreeWayOn (cmp : α → α → Int) (l : List α) : Prop where
  flip : ∀ a ∈ l, ∀ b ∈ l, cmp a b < 0 ↔ 0 < cmp b a
  trans : ∀ a ∈ l, ∀ b ∈ l, ∀ c ∈ l, cmp a b ≤ 0 → cmp b c ≤ 0 → cmp a c ≤ 0

namespace ThreeWayOn

theorem not_after {cmp : α → α → Int} {l : List α} (three : ThreeWayOn cmp l) {a b : α} (ha : a ∈ l)
    (hb : b ∈ l) : 0 ≤ cmp a b ↔ cmp b a ≤ 0 := by
  rw [← not_lt, three.flip a ha b hb, not_lt]

/-- The other way round. -/
theorem neg {cmp : α → α → Int} {l : List α} (three : ThreeWayOn cmp l) :
    ThreeWayOn (fun a b => -cmp a b) l where
  flip := fun a ha b hb => by
    have flipped := three.flip b hb a ha
    constructor <;> intro before <;> omega
  trans := fun a ha b hb c hc hab hbc => by
    have downBA := (three.not_after ha hb).mp (by omega)
    have downCB := (three.not_after hb hc).mp (by omega)
    have up := (three.not_after ha hc).mpr (three.trans c hc b hb a ha downCB downBA)
    omega

/-- Keys in a linear order, compared both ways. -/
theorem of_key [LinearOrder β] {cmp : α → α → Int} {l : List α} (key : α → β)
    (compares : ∀ a ∈ l, ∀ b ∈ l,
      cmp a b = if key a < key b then -1 else if key b < key a then 1 else 0) : ThreeWayOn cmp
        l := by
  have before : ∀ a ∈ l, ∀ b ∈ l, cmp a b < 0 ↔ key a < key b := fun a ha b hb => by
    rw [compares a ha b hb]
    split_ifs with less more <;> simp [less]
  have after : ∀ a ∈ l, ∀ b ∈ l, 0 < cmp a b ↔ key b < key a := fun a ha b hb => by
    rw [compares a ha b hb]
    split_ifs with less more
    · exact iff_of_false (by decide) (lt_asymm less)
    · exact iff_of_true (by decide) more
    · exact iff_of_false (by decide) more
  refine ⟨fun a ha b hb => (before a ha b hb).trans (after b hb a ha).symm,
    fun a ha b hb c hc hab hbc => ?_⟩
  rw [← not_lt, after a ha b hb, not_lt] at hab
  rw [← not_lt, after b hb c hc, not_lt] at hbc
  rw [← not_lt, after a ha c hc, not_lt]
  exact le_trans hab hbc

/-- **One comparison, and where it is zero another order**, is a strict weak order. -/
theorem lex {cmp : α → α → Int} {less less' : α → α → Bool} {l : List α} (three : ThreeWayOn cmp l)
    (order : StrictWeakOn less l)
    (first : ∀ a ∈ l, ∀ b ∈ l, less' a b = true ↔ cmp a b < 0 ∨ cmp a b = 0 ∧ less a b = true) :
    StrictWeakOn less' l := by
  have notBefore : ∀ a ∈ l, ∀ b ∈ l, less' a b = false ↔
      0 < cmp a b ∨ cmp a b = 0 ∧ less a b = false := fun a ha b hb => by
    rw [← Bool.not_eq_true, first a ha b hb, ← Bool.not_eq_true, not_or, not_and, not_lt,
      le_iff_lt_or_eq]
    constructor
    · rintro ⟨above | level, notLess⟩
      · exact .inl above
      · exact .inr ⟨level.symm, notLess level.symm⟩
    · rintro (above | ⟨level, notLess⟩)
      · exact ⟨.inl above, fun level => absurd level above.ne'⟩
      · exact ⟨.inr level.symm, fun _ => notLess⟩
  refine StrictWeakOn.of_not_less_trans (fun a ha b hb before => ?_) fun a ha b hb c hc hab hbc =>
    ?_
  · have flip := three.flip a ha b hb
    have flip' := three.flip b hb a ha
    rw [notBefore b hb a ha]
    rcases (first a ha b hb).mp before with below | ⟨same, before⟩
    · exact .inl (flip.mp below)
    · exact .inr ⟨by omega, order.asymm ha hb before⟩
  · -- neither step goes up, so going up at once needs both to be level
    have downBA : cmp b a ≤ 0 := (three.not_after ha hb).mp
      (((notBefore a ha b hb).mp hab).elim le_of_lt fun level => level.1.ge)
    have downCB : cmp c b ≤ 0 := (three.not_after hb hc).mp
      (((notBefore b hb c hc).mp hbc).elim le_of_lt fun level => level.1.ge)
    have downCA := (three.not_after ha hc).mpr (three.trans c hc b hb a ha downCB downBA)
    rw [notBefore a ha c hc]
    rcases lt_or_eq_of_le downCA with above | level
    · exact .inl above
    · have upAB := three.trans a ha c hc b hb level.ge downCB
      have upBC := three.trans b hb a ha c hc downBA level.ge
      have notLessAB := ((notBefore a ha b hb).mp hab).resolve_left (not_lt_of_ge upAB)
      have notLessBC := ((notBefore b hb c hc).mp hbc).resolve_left (not_lt_of_ge upBC)
      exact .inr ⟨level.symm, order.not_less_trans hc hb ha notLessBC.2 notLessAB.2⟩

end ThreeWayOn

namespace StdSort

/-- Insert before the first element that is not before it. -/
def insert (less : α → α → Bool) (a : α) : List α → List α
  | [] => [a]
  | b :: rest => if less b a then b :: insert less a rest else a :: b :: rest

def insertionSort (less : α → α → Bool) (l : List α) : List α := l.foldr (insert less) []

theorem insert_perm (less : α → α → Bool) (a : α) (l : List α) :
    (insert less a l).Perm (a :: l) := by
  induction l with
  | nil => exact List.Perm.refl _
  | cons b rest ih =>
    unfold insert
    split
    · exact (ih.cons b).trans (List.Perm.swap a b rest)
    · exact List.Perm.refl _

theorem insertionSort_perm (less : α → α → Bool) (l : List α) : (insertionSort less l).Perm l := by
  induction l with
  | nil => exact List.Perm.refl _
  | cons a rest ih => exact (insert_perm less a _).trans (ih.cons a)

theorem insert_sorted {less : α → α → Bool} {a : α} {l : List α}
    (order : StrictWeakOn less (a :: l)) (sorted : l.Pairwise fun a b => less b a = false) :
    (insert less a l).Pairwise fun a b => less b a = false := by
  induction l with
  | nil => exact List.pairwise_singleton _ a
  | cons b rest ih =>
    have hb : b ∈ a :: b :: rest := List.mem_cons_of_mem a List.mem_cons_self
    obtain ⟨first, sortedRest⟩ := List.pairwise_cons.mp sorted
    unfold insert
    split
    · rename_i before
      have inside : ∀ c ∈ a :: rest, c ∈ a :: b :: rest := fun c member =>
        (List.mem_cons.mp member).elim (fun same => same ▸ List.mem_cons_self)
          fun member => List.mem_cons_of_mem a (List.mem_cons_of_mem b member)
      refine List.pairwise_cons.mpr ⟨fun c member => ?_, ih (order.mono inside) sortedRest⟩
      rcases List.mem_cons.mp ((insert_perm less a rest).mem_iff.mp member) with rfl | member
      · exact order.asymm hb List.mem_cons_self before
      · exact first c member
    · rename_i notBefore
      rw [Bool.not_eq_true] at notBefore
      refine List.pairwise_cons.mpr ⟨fun c member => ?_, sorted⟩
      rcases List.mem_cons.mp member with rfl | member
      · exact notBefore
      · exact order.not_less_trans List.mem_cons_self hb
          (List.mem_cons_of_mem a (List.mem_cons_of_mem b member)) notBefore (first c member)

theorem insertionSort_sorted {less : α → α → Bool} {l : List α} (order : StrictWeakOn less l) :
    (insertionSort less l).Pairwise fun a b => less b a = false := by
  induction l with
  | nil => exact List.Pairwise.nil
  | cons a rest ih =>
    refine insert_sorted (order.mono fun b member => ?_)
      (ih (order.mono fun b member => List.mem_cons_of_mem a member))
    exact List.mem_cons.mpr ((List.mem_cons.mp member).imp_right
      (insertionSort_perm less rest).mem_iff.mp)

instance : Inhabited (StdSort α) :=
  ⟨⟨insertionSort, fun less l order => ⟨insertionSort_perm less l, insertionSort_sorted order⟩⟩⟩

end StdSort
