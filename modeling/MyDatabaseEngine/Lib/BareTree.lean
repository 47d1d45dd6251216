/-
**B+-trees without their pages.**

Which pages the nodes of a tree are on depends on what else is in the file. `Tree.bare` forgets
them; what an insertion makes of a tree, and where a search in it ends, depends on the bare tree
only (`insert_bare`, `seek_bare`). So indexes that are the same but for their pages stay so when one
entry is put into both (`Index.bare_insert`), whatever page is next in either, and answer alike
(`Index.seek_of_bare`).
-/

import MyDatabaseEngine.Lib.TreeLayout

set_option linter.unusedSectionVars false

namespace BPlusTree

variable {κ ν : Type} [LinearOrder κ]

namespace Tree

/-- The tree on page 0 throughout. -/
def bare : {h : Nat} → Tree κ ν h → Tree κ ν h
  | 0, t => .leaf 0 t.2
  | _ + 1, t => .node 0 (bare t.2.1) (t.2.2.map fun child => (child.1, bare child.2))

end Tree

open BPlusTree.Tree

variable {h : Nat}

/-- The children behind their separators, without pages. -/
def bareRest (rest : List (κ × Tree κ ν h)) : List (κ × Tree κ ν h) :=
  rest.map fun child => (child.1, child.2.bare)

def bareRow (row : Row κ ν h) : Row κ ν h := (row.1.bare, bareRest row.2)

def Outcome.bare : Outcome κ (Tree κ ν h) → Outcome κ (Tree κ ν h)
  | .whole t => .whole t.bare
  | .split left key right => .split left.bare key right.bare

theorem bare_node {page : Nat} {first : Tree κ ν h} {rest : List (κ × Tree κ ν h)} :
    (Tree.node page first rest).bare = Tree.node 0 first.bare (bareRest rest) := rfl

theorem bareRow_eq_iff {row row' : Row κ ν h} :
    bareRow row = bareRow row' ↔ row.1.bare = row'.1.bare ∧ bareRest row.2 = bareRest row'.2 :=
      Prod.mk_inj

theorem bareRest_cons (child : κ × Tree κ ν h) (rest : List (κ × Tree κ ν h)) :
    bareRest (child :: rest) = (child.1, child.2.bare) :: bareRest rest := rfl

/-- The same row of children comes from the same outcome before the same children. -/
theorem bareRow_row {outcome outcome' : Outcome κ (Tree κ ν h)} {rest rest' : List (κ × Tree κ ν h)}
    (same : outcome.bare = outcome'.bare) (sameRest : bareRest rest = bareRest rest') :
    bareRow (outcome.row rest) = bareRow (outcome'.row rest') := by
  cases outcome with
  | whole t =>
    cases outcome' with
    | whole t' => exact bareRow_eq_iff.mpr ⟨Outcome.whole.inj same, sameRest⟩
    | split => exact nomatch same
  | split left key right =>
    cases outcome' with
    | whole => exact nomatch same
    | split left' key' right' =>
      obtain ⟨sameLeft, rfl, sameRight⟩ := Outcome.split.inj same
      refine bareRow_eq_iff.mpr ⟨sameLeft, ?_⟩
      show bareRest ((key, right) :: rest) = bareRest ((key, right') :: rest')
      rw [bareRest_cons, bareRest_cons, sameRight, sameRest]

/-! ### What a tree has -/

theorem entries_bare (t : Tree κ ν h) : t.bare.entries = t.entries := by
  induction h with
  | zero => rfl
  | succ h ih =>
    rw [entries_node, entries_node]
    obtain ⟨page, first, rest⟩ := t
    show across entries (first.bare, bareRest rest) = across entries (first, rest)
    unfold across bareRest
    rw [ih, List.flatMap_map]
    simp only [ih]

theorem across_entries_bare (first : Tree κ ν h) (rest : List (κ × Tree κ ν h)) :
    across entries (first.bare, bareRest rest) = across entries (first, rest) := by
  have same := entries_bare (.node 0 first rest)
  rw [bare_node, entries_node, entries_node] at same
  exact same

variable {order : Nat} {key : κ} {value : ν}

theorem childFor_bare (first : Tree κ ν h) (rest : List (κ × Tree κ ν h)) :
    childFor key first.bare (bareRest rest) = (childFor key first rest).bare := by
  induction rest generalizing first with
  | nil => rfl
  | cons child rest ih =>
    obtain ⟨s, child⟩ := child
    rw [bareRest_cons]
    by_cases le : s ≤ key
    · rw [childFor_of_le le, childFor_of_le le, ih]
    · rw [childFor_of_not_le le, childFor_of_not_le le]

/-- **A search ends in the same leaf**, up to its page. -/
theorem seek_bare (key : κ) (t : Tree κ ν h) : seek key t.bare = (0, (seek key t).2) := by
  induction h with
  | zero => rfl
  | succ h ih =>
    obtain ⟨page, first, rest⟩ := t
    show seek key (childFor key first.bare (bareRest rest)) = _
    rw [childFor_bare, ih]
    rfl

/-! ### Insertion -/

theorem cutLeaf_bare (order page page' : Nat) (entries : List (κ × ν)) (fresh fresh' : Nat) :
    (cutLeaf order page entries fresh).1.bare = (cutLeaf order page' entries fresh').1.bare := by
  unfold cutLeaf
  split
  · rfl
  · split <;> rfl

theorem cutNode_bare (order page page' : Nat) {row row' : Row κ ν h}
    (same : bareRow row = bareRow row') (fresh fresh' : Nat) :
    (cutNode order page row fresh).1.bare = (cutNode order page' row' fresh').1.bare := by
  obtain ⟨sameFirst, sameRest⟩ := bareRow_eq_iff.mp same
  have sameLength : row.2.length = row'.2.length := by
    have lengths := congrArg List.length sameRest
    unfold bareRest at lengths
    rwa [List.length_map, List.length_map] at lengths
  have sameLeft : bareRest (row.2.take (row.2.length / 2)) =
      bareRest (row'.2.take (row'.2.length / 2)) := by
    unfold bareRest at sameRest ⊢
    rw [List.map_take, List.map_take, sameRest, sameLength]
  have sameRight : bareRest (row.2.drop (row.2.length / 2)) =
      bareRest (row'.2.drop (row'.2.length / 2)) := by
    unfold bareRest at sameRest ⊢
    rw [List.map_drop, List.map_drop, sameRest, sameLength]
  have whole : (Outcome.whole (.node page row.1 row.2) : Outcome κ (Tree κ ν (h + 1))).bare =
      (Outcome.whole (.node page' row'.1 row'.2)).bare :=
        congrArg (fun row => Outcome.whole (0, row)) same
  unfold cutNode
  rw [← sameLength] at sameLeft sameRight ⊢
  by_cases few : row.2.length ≤ order
  · rw [if_pos few, if_pos few]
    exact whole
  · rw [if_neg few, if_neg few]
    cases right : row.2.drop (row.2.length / 2) with
    | nil =>
      rw [right] at sameRight
      rw [List.map_eq_nil_iff.mp sameRight.symm]
      exact whole
    | cons child rest =>
      rw [right] at sameRight
      obtain ⟨child', rest', right', sameChild, sameRest'⟩ := List.map_eq_cons_iff.mp sameRight.symm
      obtain ⟨sameKey, sameTree⟩ := Prod.mk.inj sameChild
      rw [right']
      show Outcome.split (0, row.1.bare, bareRest (row.2.take _)) child.1
        (0, child.2.bare, bareRest rest) =
        Outcome.split (0, row'.1.bare, bareRest (row'.2.take _)) child'.1
          (0, child'.2.bare, bareRest rest')
      rw [sameFirst, sameLeft, sameKey, sameTree]
      exact congrArg (fun rest => Outcome.split _ _ (0, child.2.bare, rest)) sameRest'.symm

/-- The key goes to the same child of both rows. -/
theorem insertAmong_bare {insertChild : Tree κ ν h → Nat → Outcome κ (Tree κ ν h) × Nat}
    (below : ∀ t t' : Tree κ ν h, t.bare = t'.bare → ∀ fresh fresh',
      (insertChild t fresh).1.bare = (insertChild t' fresh').1.bare) (fresh fresh' : Nat)
    {rest : List (κ × Tree κ ν h)} : ∀ {first first' : Tree κ ν h} {rest' : List (κ × Tree κ ν h)},
      first.bare = first'.bare → bareRest rest = bareRest rest' →
      bareRow (insertAmong insertChild key first rest fresh).1 =
        bareRow (insertAmong insertChild key first' rest' fresh').1 := by
  induction rest with
  | nil =>
    intro first first' rest' sameFirst sameRest
    rw [List.map_eq_nil_iff.mp sameRest.symm]
    exact bareRow_row (below first first' sameFirst fresh fresh') rfl
  | cons child rest more =>
    intro first first' rest' sameFirst sameRest
    obtain ⟨⟨s', child'⟩, rest', rfl, sameChild, sameRest'⟩ := List.map_eq_cons_iff.mp sameRest.symm
    obtain ⟨s, child⟩ := child
    obtain ⟨rfl, sameTree⟩ := Prod.mk.inj sameChild
    by_cases le : s' ≤ key
    · rw [insertAmong_of_le le, insertAmong_of_le le]
      obtain ⟨sameChild, sameMore⟩ := bareRow_eq_iff.mp (more sameTree.symm sameRest'.symm)
      refine bareRow_eq_iff.mpr ⟨sameFirst, ?_⟩
      rw [bareRest_cons, bareRest_cons, sameChild, sameMore]
    · rw [insertAmong_of_not_le le, insertAmong_of_not_le le]
      exact bareRow_row (below first first' sameFirst fresh fresh') sameRest

/-- **An insertion makes the same of it**, up to pages. -/
theorem insert_bare {t t' : Tree κ ν h} (same : t.bare = t'.bare) (fresh fresh' : Nat) :
    (insert order key value t fresh).1.bare = (insert order key value t' fresh').1.bare := by
  induction h generalizing fresh fresh' with
  | zero =>
    have sameEntries : t.2 = t'.2 := (Prod.mk.inj same).2
    show (cutLeaf order t.1 (put (key, value) t.2) fresh).1.bare =
      (cutLeaf order t'.1 (put (key, value) t'.2) fresh').1.bare
    rw [sameEntries]
    exact cutLeaf_bare ..
  | succ h ih =>
    obtain ⟨page, first, rest⟩ := t
    obtain ⟨page', first', rest'⟩ := t'
    obtain ⟨sameFirst, sameRest⟩ := Prod.mk.inj (Prod.mk.inj same).2
    rw [insert_node, insert_node]
    exact cutNode_bare order page page'
      (insertAmong_bare (fun _ _ => ih) fresh fresh' sameFirst sameRest) _ _

/-! ### Indexes -/

namespace Index

/-- The index without its pages. -/
def bare (x : Index κ ν) : Index κ ν := ⟨x.height, x.root.bare, 0⟩

variable {x x' : Index κ ν}

/-- The entries of the leaf that a search ends in, and of those behind it. -/
theorem seek_of_bare (same : x.bare = x'.bare) (key : κ) :
    (seek key x.root).2 = (seek key x'.root).2 := by
  have leaf := congrArg (fun x : Index κ ν => (seek key x.root).2) same
  simp only [bare, seek_bare] at leaf
  exact leaf

theorem bare_insert (same : x.bare = x'.bare) (entry : κ × ν) :
    (x.insert order entry).bare = (x'.insert order entry).bare := by
  obtain ⟨height, root, fresh⟩ := x
  obtain ⟨height', root', fresh'⟩ := x'
  obtain ⟨rfl, sameRoot, -⟩ := Index.mk.inj same
  have below := @insert_bare _ _ _ _ order entry.1 entry.2 _ _ (eq_of_heq sameRoot) fresh fresh'
  unfold Index.insert
  rcases outcome : BPlusTree.insert order entry.1 entry.2 root fresh with
    ⟨t | ⟨left, key, right⟩, next⟩ <;>
    rcases outcome' : BPlusTree.insert order entry.1 entry.2 root' fresh' with
      ⟨t' | ⟨left', key', right'⟩, next'⟩ <;>
    rw [outcome, outcome'] at below
  · exact congrArg (fun t => Index.mk height t 0) (Outcome.whole.inj below)
  · exact nomatch below
  · exact nomatch below
  · obtain ⟨sameLeft, rfl, sameRight⟩ := Outcome.split.inj below
    show Index.mk (height + 1) (0, left.bare, [(key, right.bare)]) 0 =
      Index.mk (height + 1) (0, left'.bare, [(key, right'.bare)]) 0
    rw [sameLeft, sameRight]

end Index

end BPlusTree
