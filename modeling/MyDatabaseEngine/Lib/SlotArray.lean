/-
**Slots that are never used twice.**

A store gives every entry a slot behind all slots it ever gave; removing the entry leaves the slot
empty. So an entry is found in its slot until the slot is removed (`read_after_add`), whatever else
happens, and two entries never get the same slot (`length_after_lt`).

A store is a list of slots, each with an entry or none, and a run is a list of changes. What a slot
holds after a run is decided by the change that made it and the changes that remove it
(`read_after_eq_some_iff`). As a bag, the entries gain what is added and lose what is removed.
-/

import Mathlib.Data.List.Induction
import Mathlib.Data.List.ReduceOption
import Mathlib.Data.Multiset.ZeroCons
import Mathlib.Order.Nat

namespace SlotArray

variable {α : Type*}

/-- What can happen to a store. -/
inductive Change (α : Type*)
  | add (a : α)
  | remove (i : Nat)

/-- The slots after a change. -/
def apply (slots : List (Option α)) : Change α → List (Option α)
  | .add a => slots ++ [some a]
  | .remove i => slots.set i none

/-- The slots after some changes. -/
def after (slots : List (Option α)) (changes : List (Change α)) : List (Option α) :=
  changes.foldl apply slots

/-- What a slot holds; a slot that was never given holds nothing. -/
def read (slots : List (Option α)) (i : Nat) : Option α := slots[i]?.join

variable {slots : List (Option α)} {change : Change α} {changes : List (Change α)} {i : Nat}

theorem after_append (slots : List (Option α)) (front back : List (Change α)) :
    after slots (front ++ back) = after (after slots front) back := List.foldl_append

theorem after_concat (slots : List (Option α)) (front : List (Change α)) (change : Change α) :
    after slots (front ++ [change]) = apply (after slots front) change :=
      after_append slots front [change]

/-! ### One change -/

theorem length_le_apply : slots.length ≤ (apply slots change).length := by
  cases change with
  | add a =>
    unfold apply
    rw [List.length_append]
    exact Nat.le_add_right _ _
  | remove i =>
    unfold apply
    exact (List.length_set ..).ge

theorem read_add_self (slots : List (Option α)) (a : α) :
    read (apply slots (.add a)) slots.length = some a := by
  unfold read apply
  rw [List.getElem?_concat_length]
  rfl

theorem read_remove_self (slots : List (Option α)) (i : Nat) :
    read (apply slots (.remove i)) i = none := by
  unfold read apply
  rw [List.getElem?_set_self']
  cases slots[i]? <;> rfl

/-- Nothing is removed from an empty slot. -/
theorem apply_remove_of_empty (empty : read slots i = none) : apply slots (.remove i) = slots := by
  unfold read at empty
  unfold apply
  refine List.ext_getElem? fun j => ?_
  rw [List.getElem?_set]
  by_cases same : i = j
  · subst same
    rw [if_pos rfl]
    by_cases inside : i < slots.length
    · rw [if_pos inside]
      rw [List.getElem?_eq_getElem inside] at empty ⊢
      exact congrArg some empty.symm
    · rw [if_neg inside, List.getElem?_eq_none (Nat.not_lt.mp inside)]
  · rw [if_neg same]

/-- **A change leaves the other slots alone.** -/
theorem read_apply_of_ne (isRemoved : ∀ j, change = .remove j → j ≠ i)
    (isAdded : ∀ a, change = .add a → i ≠ slots.length) :
    read (apply slots change) i = read slots i := by
  unfold read apply
  cases change with
  | add a =>
    have apart := isAdded a rfl
    rcases Nat.lt_or_gt_of_ne apart with old | beyond
    · rw [List.getElem?_append_left old]
    · rw [List.getElem?_eq_none (Nat.le_of_lt beyond), List.getElem?_eq_none]
      rw [List.length_append]
      exact beyond
  | remove j =>
    rw [List.getElem?_set_ne (isRemoved j rfl)]

/-! ### The entries as a bag -/

/-- The entries, in no order. -/
def entries (slots : List (Option α)) : Multiset α := slots.reduceOption

theorem entries_add (slots : List (Option α)) (a : α) :
    entries (apply slots (.add a)) = a ::ₘ entries slots := by
  show ((slots ++ [some a]).reduceOption : Multiset α) = a ::ₘ entries slots
  rw [← List.concat_eq_append, List.reduceOption_concat_of_some, List.concat_eq_append]
  exact Multiset.coe_eq_coe.mpr (List.perm_append_singleton a _)

theorem entries_remove {a : α} (found : read slots i = some a) :
    entries slots = a ::ₘ entries (apply slots (.remove i)) := by
  show (slots.reduceOption : Multiset α) = a ::ₘ ((slots.set i none).reduceOption : Multiset α)
  induction slots generalizing i with
  | nil => exact nomatch found
  | cons slot rest ih =>
    cases i with
    | zero =>
      obtain rfl : slot = some a := found
      rw [List.set_cons_zero, List.reduceOption_cons_of_some, List.reduceOption_cons_of_none,
        Multiset.cons_coe]
    | succ i =>
      have below := ih found
      cases slot with
      | none => exact below
      | some b =>
        rw [List.set_cons_succ, List.reduceOption_cons_of_some, List.reduceOption_cons_of_some,
          ← Multiset.cons_coe, below, ← Multiset.cons_coe, Multiset.cons_swap]

/-! ### Runs -/

theorem length_le_after (slots : List (Option α)) (changes : List (Change α)) :
    slots.length ≤ (after slots changes).length := by
  induction changes generalizing slots with
  | nil => exact Nat.le_refl _
  | cons change rest ih => exact length_le_apply.trans (ih (apply slots change))

/-- **The slot of an entry is behind the slots of all earlier ones.** -/
theorem length_after_lt (slots : List (Option α)) (front middle : List (Change α)) (a : α) :
    (after slots front).length < (after slots (front ++ .add a :: middle)).length := by
  rw [after_append]
  have grown : (after slots front).length < (apply (after slots front) (.add a)).length := by
    unfold apply
    rw [List.length_append]
    exact Nat.lt_succ_self _
  exact grown.trans_le (length_le_after _ middle)

/-- A slot that is not removed holds what it held. -/
theorem read_after_of_kept (given : i < slots.length) (kept : .remove i ∉ changes) :
    read (after slots changes) i = read slots i := by
  induction changes generalizing slots with
  | nil => rfl
  | cons change rest ih =>
    have keptFirst : change ≠ .remove i := fun same => kept (same ▸ List.mem_cons_self)
    have keptRest : .remove i ∉ rest := fun member => kept (List.mem_cons_of_mem _ member)
    refine (ih (given.trans_le length_le_apply) keptRest).trans (read_apply_of_ne ?_ ?_)
    · exact fun j same equal => keptFirst (same.trans (congrArg Change.remove equal))
    · exact fun _ _ => given.ne

/-- A slot that holds nothing is not used again. -/
theorem read_after_of_empty (given : i < slots.length) (empty : read slots i = none) :
    read (after slots changes) i = none := by
  induction changes generalizing slots with
  | nil => exact empty
  | cons change rest ih =>
    refine ih (given.trans_le length_le_apply) ?_
    by_cases removes : change = .remove i
    · rw [removes]
      exact read_remove_self slots i
    · refine (read_apply_of_ne ?_ ?_).trans empty
      · exact fun j same equal => removes (same.trans (congrArg Change.remove equal))
      · exact fun _ _ => given.ne

/-- A slot that is removed holds nothing ever after. -/
theorem read_after_of_removed (given : i < slots.length) (removed : .remove i ∈ changes) :
    read (after slots changes) i = none := by
  obtain ⟨front, back, rfl⟩ := List.append_of_mem removed
  rw [after_append]
  have given' : i < (after slots front).length := given.trans_le (length_le_after slots front)
  refine @read_after_of_empty _ (apply (after slots front) (.remove i)) back i
    (given'.trans_le length_le_apply) ?_
  exact read_remove_self _ i

open scoped Classical in
/-- **An entry is found in its slot until it is removed**, and nothing is found there ever after. -/
theorem read_after_add (slots : List (Option α)) (front back : List (Change α)) (a : α) :
    read (after slots (front ++ .add a :: back)) (after slots front).length =
      if .remove (after slots front).length ∈ back then none else some a := by
  have given : (after slots front).length < (apply (after slots front) (.add a)).length :=
    length_after_lt slots front [] a |>.trans_eq (by rw [after_concat])
  rw [after_append]
  show read (after (apply (after slots front) (.add a)) back) _ = _
  split
  · rename_i removed
    exact read_after_of_removed given removed
  · rename_i kept
    rw [read_after_of_kept given kept]
    exact read_add_self _ a

/-- **Whatever is found was added, and not removed since.** -/
theorem read_after_eq_some_iff {a : α} :
    read (after [] changes) i = some a ↔
      ∃ front back, changes = front ++ .add a :: back ∧ i = (after [] front).length ∧
        .remove i ∉ back := by
  constructor
  · intro found
    induction changes using List.reverseRecOn with
    | nil => exact nomatch found
    | append_singleton changes change ih =>
      rw [after_concat] at found
      have earlier : read (after [] changes) i = some a → change ≠ .remove i →
          ∃ front back, changes ++ [change] = front ++ .add a :: back ∧
            i = (after [] front).length ∧ .remove i ∉ back := by
        intro found kept
        obtain ⟨front, back, rfl, slot, notRemoved⟩ := ih found
        refine ⟨front, back ++ [change], by rw [List.append_assoc]; rfl, slot, fun member => ?_⟩
        rcases List.mem_append.mp member with member | member
        · exact notRemoved member
        · exact kept (List.mem_singleton.mp member).symm
      cases change with
      | add b =>
        by_cases new : i = (after [] changes).length
        · rw [new, read_add_self] at found
          obtain rfl := Option.some.inj found
          exact ⟨changes, [], rfl, new, nofun⟩
        · have kept : ∀ j, (.add b : Change α) ≠ .remove j := fun _ equal => nomatch equal
          rw [read_apply_of_ne (fun j equal => absurd equal (kept j)) fun _ _ => new] at found
          exact earlier found (kept i)
      | remove j =>
        by_cases same : j = i
        · rw [same, read_remove_self] at found
          exact nomatch found
        · have kept : Change.remove j ≠ (.remove i : Change α) :=
            fun equal => same (Change.remove.inj equal)
          have added : ∀ a : α, Change.remove j = .add a → i ≠ (after [] changes).length :=
            fun _ equal => nomatch equal
          refine earlier ((read_apply_of_ne (fun k equal => ?_) added).symm.trans found) kept
          exact Change.remove.inj equal ▸ same
  · rintro ⟨front, back, rfl, rfl, kept⟩
    rw [read_after_add, if_neg kept]

end SlotArray
