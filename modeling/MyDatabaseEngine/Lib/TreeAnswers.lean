/-
**What searches in a B+-tree find.**

A search for a key looks in the leaf it ends in (`lookup`), a scan of a range goes on from there
along the leaves (`range`). Neither depends on the pages (`lookup_of_bare`, `range_of_bare`). With
distinct keys they are the sorted map of the entries (`lookup_eq_some_iff`, `range_eq_filter`).

`onward` are the entries from the leaf of a descent on: a suffix of all entries, in order. In a
sorted tree with distinct keys every entry that is left out has a smaller key than the one sought,
so nothing is missed. Without distinct keys this may fail, and then the answers are still a function
of the tree.
-/

import MyDatabaseEngine.Lib.BareTree

set_option linter.unusedSectionVars false

namespace BPlusTree

open BPlusTree.Tree

variable {κ ν : Type} [LinearOrder κ] {h : Nat}

/-- The first entry with the key, in the leaf where the search for it ends. -/
def lookup (key : κ) (t : Tree κ ν h) : Option ν :=
  ((seek key t).2.find? fun e => e.1 = key).map Prod.snd

/-- What `onward` is for a row of children. -/
def onwardAmong (below : Tree κ ν h → List (κ × ν)) (key : κ) :
    Tree κ ν h → List (κ × Tree κ ν h) → List (κ × ν)
  | first, [] => below first
  | first, (s, child) :: rest =>
    if s ≤ key then onwardAmong below key child rest
      else below first ++ across entries (child, rest)

/-- The entries of the leaf where the search for the key ends, and of the leaves behind it. -/
def onward (key : κ) : {h : Nat} → Tree κ ν h → List (κ × ν)
  | 0, t => t.2
  | _ + 1, t => onwardAmong (onward key) key t.2.1 t.2.2

/-- The entries of a range, from the leaf on where the search for its start ends. -/
def range (fromKey toKey : κ) (t : Tree κ ν h) : List (κ × ν) :=
  (onward fromKey t).filter fun e => fromKey ≤ e.1 ∧ e.1 ≤ toKey

/-! ### On any pages -/

theorem onward_bare (key : κ) (t : Tree κ ν h) : onward key t.bare = onward key t := by
  induction h with
  | zero => rfl
  | succ h ih =>
    obtain ⟨page, first, rest⟩ := t
    show onwardAmong (onward key) key first.bare (bareRest rest) =
      onwardAmong (onward key) key first rest
    induction rest generalizing first with
    | nil => exact ih first
    | cons child rest more =>
      obtain ⟨s, child⟩ := child
      rw [bareRest_cons, onwardAmong, onwardAmong]
      split
      · exact more child
      · rw [ih first]
        exact congrArg (onward key first ++ ·) (across_entries_bare child rest)

namespace Index

variable {x x' : Index κ ν}

theorem lookup_of_bare (same : x.bare = x'.bare) (key : κ) :
    lookup key x.root = lookup key x'.root := by
  unfold lookup
  rw [seek_of_bare same]

theorem range_of_bare (same : x.bare = x'.bare) (fromKey toKey : κ) :
    range fromKey toKey x.root = range fromKey toKey x'.root := by
  unfold range
  rw [← onward_bare fromKey x.root, ← onward_bare fromKey x'.root]
  exact congrArg (fun x : Index κ ν => (onward fromKey x.root).filter _) same

end Index

/-! ### Where the leaf stands -/

theorem leaves_flatMap (row : Row κ ν h) :
    (across leaves row).flatMap Prod.snd = across entries row :=
  entries_node (.node 0 row.1 row.2)

/-- **The leaf is one of the leaves**, and what follows it is what the scan goes through. -/
theorem onward_split (key : κ) (t : Tree κ ν h) :
    ∃ before after, t.leaves = before ++ seek key t :: after ∧
      onward key t = (seek key t :: after).flatMap Prod.snd := by
  induction h with
  | zero => exact ⟨[], [], rfl, (List.append_nil _).symm⟩
  | succ h ih =>
    obtain ⟨page, first, rest⟩ := t
    show ∃ before after,
      across leaves (first, rest) = before ++ seek key (childFor key first rest) :: after ∧
      onwardAmong (onward key) key first rest =
        (seek key (childFor key first rest) :: after).flatMap Prod.snd
    induction rest generalizing first with
    | nil =>
      rw [across_nil]
      exact ih first
    | cons child rest more =>
      obtain ⟨s, child⟩ := child
      rw [across_cons, onwardAmong]
      by_cases le : s ≤ key
      · rw [if_pos le, childFor_of_le le]
        obtain ⟨before, after, split, goesOn⟩ := more child
        exact ⟨first.leaves ++ before, after, by rw [split, List.append_assoc], goesOn⟩
      · rw [if_neg le, childFor_of_not_le le]
        obtain ⟨before, after, split, goesOn⟩ := ih first
        refine ⟨before, after ++ across leaves (child, rest), ?_, ?_⟩
        · rw [split, List.append_assoc, List.cons_append]
        · rw [goesOn, ← leaves_flatMap, ← List.flatMap_append, List.cons_append]

/-- What is in a list once stands in one place. -/
theorem append_cons_inj_of_nodup {α : Type} {a : α} {before before' after after' : List α}
    (nodup : (before ++ a :: after).Nodup) (same : before ++ a :: after = before' ++ a :: after') :
    after = after' := by
  have apart := List.disjoint_of_nodup_append nodup
  have apart' := List.disjoint_of_nodup_append (same ▸ nodup)
  rcases List.append_eq_append_iff.mp same with ⟨between, rfl, back⟩ | ⟨between, rfl, back⟩
  · cases between with
    | nil => exact (List.cons.inj back).2
    | cons b between =>
      obtain rfl := (List.cons.inj back).1
      exact (apart' (List.mem_append_right _ List.mem_cons_self) List.mem_cons_self).elim
  · cases between with
    | nil => exact (List.cons.inj back).2.symm
    | cons b between =>
      obtain rfl := (List.cons.inj back).1
      exact (apart (List.mem_append_right _ List.mem_cons_self) List.mem_cons_self).elim

/-- Where the leaves have different pages, the leaf stands in one place. -/
theorem onward_eq_of_split {key : κ} {t : Tree κ ν h} (nodup : t.pages.Nodup)
    {before after : List (Nat × List (κ × ν))} (split : t.leaves = before ++ seek key t :: after) :
    onward key t = (seek key t :: after).flatMap Prod.snd := by
  obtain ⟨before', after', split', goesOn⟩ := onward_split key t
  have leaves : t.leaves.Nodup := List.Nodup.of_map _ (nodup.sublist t.leaves_sublist)
  rw [goesOn, append_cons_inj_of_nodup (split' ▸ leaves) (split'.symm.trans split)]

/-! ### Distinct keys -/

theorem found_key {key : κ} {entries : List (κ × ν)} {e : κ × ν}
    (found : entries.find? (fun e => e.1 = key) = some e) : e.1 = key := by
  have holds := List.find?_some found
  exact of_decide_eq_true holds

section Distinct

variable {order least : Nat} {t : Tree κ ν h} {key fromKey toKey : κ} {value : ν}
  (two : 2 ≤ order) (shaped : Shaped order t least) (sorted : Sorted t.entries)
  (distinct : (t.entries.map Prod.fst).Nodup)

include two shaped sorted distinct

/-- **With distinct keys**, in front of the leaf where the search ends there are only smaller keys,
and behind it only larger ones. -/
theorem exists_split (key : κ) : ∃ before after, t.leaves = before ++ seek key t :: after ∧
    (∀ e ∈ before.flatMap Prod.snd, e.1 < key) ∧ ∀ e ∈ after.flatMap Prod.snd, key < e.1 := by
  obtain ⟨before, after, split, front, back⟩ := seek_spec two key shaped sorted
  refine ⟨before, after, split, fun e member => ?_, fun e member => ?_⟩
  · rcases front with rfl | ⟨first, rest, starts, le⟩
    · exact nomatch member
    · have increasing : t.entries.Pairwise fun e e' => e.1 < e'.1 :=
        (sorted.and (List.pairwise_map.mp distinct)).imp fun both => lt_of_le_of_ne both.1 both.2
      unfold entries at increasing
      rw [split, List.flatMap_append, List.flatMap_cons, starts] at increasing
      exact ((List.pairwise_append.mp increasing).2.2 e member first List.mem_cons_self).trans_le le
  · obtain ⟨leaf, among, member⟩ := List.mem_flatMap.mp member
    exact back leaf among e member

/-- **`lookup` finds the value of the key.** -/
theorem lookup_eq_some_iff : lookup key t = some value ↔ (key, value) ∈ t.entries := by
  obtain ⟨before, after, split, front, back⟩ := exists_split two shaped sorted distinct key
  have whole : t.entries = before.flatMap Prod.snd ++
      ((seek key t).2 ++ after.flatMap Prod.snd) := by
    unfold entries
    rw [split, List.flatMap_append, List.flatMap_cons]
  have inside : ∀ e ∈ (seek key t).2, e ∈ t.entries := fun e member => by
    rw [whole]
    exact List.mem_append_right _ (List.mem_append_left _ member)
  unfold lookup
  rw [Option.map_eq_some_iff]
  constructor
  · rintro ⟨e, found, rfl⟩
    rw [← found_key found]
    exact inside e (List.mem_of_find?_eq_some found)
  · intro member
    have inLeaf : (key, value) ∈ (seek key t).2 := by
      rw [whole] at member
      rcases List.mem_append.mp member with member | member
      · exact absurd (front _ member) (lt_irrefl key)
      · exact (List.mem_append.mp member).resolve_right fun member => lt_irrefl key (back _ member)
    have there : ((seek key t).2.find? fun e => e.1 = key).isSome :=
      List.find?_isSome.mpr ⟨_, inLeaf, decide_eq_true rfl⟩
    obtain ⟨e, found⟩ := Option.isSome_iff_exists.mp there
    have unique := List.inj_on_of_nodup_map distinct (inside e (List.mem_of_find?_eq_some found))
      (inside _ inLeaf) (found_key found)
    exact ⟨e, found, congrArg Prod.snd unique⟩

/-- **`range` finds the entries of the range**, in the order of their keys. -/
theorem range_eq_filter (nodup : t.pages.Nodup) :
    range fromKey toKey t = t.entries.filter fun e => fromKey ≤ e.1 ∧ e.1 ≤ toKey := by
  obtain ⟨before, after, split, front, -⟩ := exists_split two shaped sorted distinct fromKey
  have whole : t.entries = before.flatMap Prod.snd ++ onward fromKey t := by
    unfold entries
    rw [onward_eq_of_split nodup split, split, List.flatMap_append]
  have none : (before.flatMap Prod.snd).filter (fun e => fromKey ≤ e.1 ∧ e.1 ≤ toKey) = [] := by
    refine List.filter_eq_nil_iff.mpr fun e member within => ?_
    exact absurd (front e member) (not_lt.mpr (of_decide_eq_true within).1)
  rw [whole, List.filter_append, none]
  rfl

end Distinct

end BPlusTree
