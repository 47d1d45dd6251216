/-
**The B-tree as a sorted map.**

With pairwise distinct keys the entries are strictly sorted, and nothing that a search looks for
lies in front of the leaf it ends in (`mem_behind`). So `search` finds the value inserted with a
key, and `rangeScan` the pairs of the range (`tree_agrees_with_map`).

The theorem is about any run of insertions into a new tree, in any order, as long as the keys and
values are tokens and the nodes fit their pages. The run returns, unless the file is at its limit of
pages; then `search` and `rangeScan` answer as the map of the inserted pairs does.
-/

import MyDatabaseEngine.Index.BTreeInvariant

namespace MyDb

open Outcome BPlusTree

namespace BTree

open BufferPool BTreeNode

/-- Entries in strictly increasing order of their keys. -/
def Increasing (entries : List (Str × Str)) : Prop := entries.Pairwise fun e e' => e.1 < e'.1

theorem increasing_of_distinct {entries : List (Str × Str)} (sorted : Sorted entries)
    (distinct : (entries.map Prod.fst).Nodup) : Increasing entries := by
  have apart : entries.Pairwise fun e e' => e.1 ≠ e'.1 := List.pairwise_map.mp distinct
  exact (sorted.and apart).imp fun both => lt_of_le_of_ne both.1 both.2

/-- **What is not too small lies in the leaf a search ends in, or behind it.** -/
theorem mem_behind {before after : List (Nat × List (Str × Str))} {leaf : Nat × List (Str × Str)}
    {key : Str} (increasing : Increasing ((before ++ leaf :: after).flatMap Prod.snd))
    (front : before = [] ∨ ∃ e rest, leaf.2 = e :: rest ∧ e.1 ≤ key) {e : Str × Str}
    (reached : key ≤ e.1) :
    e ∈ (before ++ leaf :: after).flatMap Prod.snd ↔ e ∈ (leaf :: after).flatMap Prod.snd := by
  rw [List.flatMap_append] at increasing ⊢
  rw [List.mem_append]
  refine or_iff_right fun member => ?_
  rcases front with rfl | ⟨first, rest, entries, le⟩
  · exact nomatch member
  · have there : first ∈ (leaf :: after).flatMap Prod.snd := by
      rw [List.flatMap_cons, entries]
      exact List.mem_append_left _ List.mem_cons_self
    have before := (List.pairwise_append.mp increasing).2.2 e member first there
    exact absurd (before.trans_le le) (not_lt.mpr reached)

variable {pool : BufferPool} {tree : BTree} {pairs : List (Str × Str)} {firstPage : Nat}

theorem increasing_indexOf (firstPage : Nat) (distinct : (pairs.map Prod.fst).Nodup) :
    Increasing (indexOf firstPage pairs).root.entries := by
  obtain ⟨ok, perm, -⟩ := indexOf_spec firstPage pairs
  exact increasing_of_distinct ok.sorted ((perm.map Prod.fst).nodup_iff.mpr distinct)

/-- **`search` finds the value inserted with the key.** -/
theorem search_of_distinct (ready : pool.Ready) (holds : Holds pool tree (indexOf firstPage pairs))
    (distinct : (pairs.map Prod.fst).Nodup) (key : Str) :
    Ends (tree.search key) pool
      (fun found pool' => (∀ value, found = some value ↔ (key, value) ∈ pairs) ∧
        Moves pool pool' pool.content)
      (fun _ _ => False) := by
  obtain ⟨ok, perm, -⟩ := indexOf_spec firstPage pairs
  refine (search_ends ready ok holds key).mono ?_ fun _ _ never => never
  rintro found pool' ⟨rfl, moves⟩
  refine ⟨fun value => ?_, moves⟩
  obtain ⟨before, after, split, -, front, back⟩ := holds.sought ok key
  have increasing := increasing_indexOf firstPage distinct
  have inPairs : (key, value) ∈ pairs ↔
      (key, value) ∈ (before ++ seek key (indexOf firstPage pairs).root :: after).flatMap
        Prod.snd := by
    rw [← perm.mem_iff, Tree.entries, split]
  unfold Tree.entries at increasing
  rw [split] at increasing
  have inLeaf : (key, value) ∈ pairs ↔
      (key, value) ∈ (seek key (indexOf firstPage pairs).root).2 := by
    rw [inPairs, mem_behind increasing front (le_refl key), List.flatMap_cons, List.mem_append]
    refine or_iff_left fun member => ?_
    obtain ⟨other, among, member⟩ := List.mem_flatMap.mp member
    exact lt_irrefl _ (back other among _ member)
  rw [inLeaf, Option.map_eq_some_iff]
  constructor
  · rintro ⟨e, foundIt, rfl⟩
    have same : e.1 = key := by simpa using List.find?_some foundIt
    have member := List.mem_of_find?_eq_some foundIt
    rw [← Prod.mk.eta (p := e), same] at member
    exact member
  · intro member
    obtain ⟨e, foundIt⟩ := Option.isSome_iff_exists.mp
      (List.find?_isSome (p := fun e => e.1 = key) |>.mpr ⟨_, member, by simp⟩)
    have same : e.1 = key := by simpa using List.find?_some foundIt
    have inside : ∀ e ∈ (seek key (indexOf firstPage pairs).root).2, e ∈ pairs := fun e member => by
      rw [← perm.mem_iff, Tree.entries, split, List.mem_flatMap]
      exact ⟨_, List.mem_append_right _ List.mem_cons_self, member⟩
    have unique := List.inj_on_of_nodup_map distinct
      (inside e (List.mem_of_find?_eq_some foundIt)) (inside _ member) same
    exact ⟨e, foundIt, congrArg Prod.snd unique⟩

/-- **`rangeScan` finds the pairs of the range**, in increasing order. -/
theorem rangeScan_of_distinct (ready : pool.Ready)
    (holds : Holds pool tree (indexOf firstPage pairs)) (distinct : (pairs.map Prod.fst).Nodup)
    (fromKey toKey : Str) :
    Ends (tree.rangeScan fromKey toKey) pool
      (fun found pool' => Increasing found ∧
        (∀ e, e ∈ found ↔ e ∈ pairs ∧ fromKey ≤ e.1 ∧ e.1 ≤ toKey) ∧ Moves pool pool' pool.content)
      (fun _ _ => False) := by
  obtain ⟨ok, perm, -⟩ := indexOf_spec firstPage pairs
  obtain ⟨before, after, split, front, ends⟩ := rangeScan_ends ready ok holds fromKey toKey
  refine ends.mono ?_ fun _ _ never => never
  rintro found pool' ⟨rfl, moves⟩
  have increasing := increasing_indexOf firstPage distinct
  unfold Tree.entries at increasing
  rw [split] at increasing
  refine ⟨?_, fun e => ?_, moves⟩
  · have behind := increasing
    rw [List.flatMap_append] at behind
    exact (List.pairwise_append.mp behind).2.1.sublist List.filter_sublist
  · rw [List.mem_filter, decide_eq_true_eq, ← perm.mem_iff, Tree.entries, split]
    refine and_congr_left fun range => ?_
    exact (mem_behind increasing front range.1).symm

/-- **The tree agrees with a sorted map.** After insertions with distinct keys, and however much is
read in between: `search` finds the value inserted with a key, if any, and `rangeScan` exactly the
pairs of the range, in increasing order of their keys. -/
theorem tree_agrees_with_map (ready : pool.Ready) (distinct : (pairs.map Prod.fst).Nodup)
    (tokens : EntryTokens pairs) (short : Short pairs) :
    Ends (build pairs) pool
      (fun tree pool' => ∀ later, Moves pool' later pool'.content →
        (∀ key, Ends (tree.search key) later
          (fun found after => (∀ value, found = some value ↔ (key, value) ∈ pairs) ∧
            Moves pool' after pool'.content)
          (fun _ _ => False)) ∧
        ∀ fromKey toKey, Ends (tree.rangeScan fromKey toKey) later
          (fun found after => Increasing found ∧
            (∀ e, e ∈ found ↔ e ∈ pairs ∧ fromKey ≤ e.1 ∧ e.1 ≤ toKey) ∧
            Moves pool' after pool'.content)
          (fun _ _ => False))
      (Exhausted pool.disk.maxPages (indexOf pool.disk.pageCount pairs).fresh) := by
  refine (build_ends ready tokens (nodesFit_of_short _ short)).mono ?_ fun _ _ failed => failed
  rintro tree pool' ⟨moves, holds⟩ later reads
  have ready' := reads.ready (moves.ready ready)
  have holds' := holds.later moves.consistent reads
  refine ⟨fun key => ?_, fun fromKey toKey => ?_⟩
  · refine (search_of_distinct ready' holds' distinct key).mono ?_ fun _ _ never => never
    rintro found after ⟨finds, moves'⟩
    exact ⟨finds, reads.trans (reads.content ▸ moves')⟩
  · refine (rangeScan_of_distinct ready' holds' distinct fromKey toKey).mono ?_ fun _ _ never =>
      never
    rintro found after ⟨increasing, finds, moves'⟩
    exact ⟨increasing, finds, reads.trans (reads.content ▸ moves')⟩

/-- Three keys, out of order. -/
def distinctPairs : List (Str × Str) :=
  [(str "c", str "3"), (str "a", str "1"), (str "b", str "2")]

/-- **The tree of these pairs is built** in a pool of one frame: it fits one page. -/
theorem tree_agrees_with_map_distinct :
    ∃ tree pool', build distinctPairs onePagePool = .ok tree pool' ∧
      ∀ later, Moves pool' later pool'.content →
        (∀ key, Ends (tree.search key) later
          (fun found after => (∀ value, found = some value ↔ (key, value) ∈ distinctPairs) ∧
            Moves pool' after pool'.content)
          (fun _ _ => False)) ∧
        ∀ fromKey toKey, Ends (tree.rangeScan fromKey toKey) later
          (fun found after => Increasing found ∧
            (∀ e, e ∈ found ↔ e ∈ distinctPairs ∧ fromKey ≤ e.1 ∧ e.1 ≤ toKey) ∧
            Moves pool' after pool'.content)
          (fun _ _ => False) := by
  have tokens : EntryTokens distinctPairs := by
    unfold EntryTokens
    decide +kernel
  have short : Short distinctPairs := by
    unfold Short
    decide +kernel
  have ready := ready_onePagePool
  have room : (indexOf onePagePool.disk.pageCount distinctPairs).fresh ≤
      onePagePool.disk.maxPages := by
    decide +kernel
  -- on a variable, since the elaborator would run the call on the pool itself
  generalize onePagePool = pool at ready room ⊢
  exact exists_ok_of_room (tree_agrees_with_map ready (by decide +kernel) tokens short) room

end BTree

end MyDb
