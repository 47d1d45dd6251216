/-
**Reading the tree on the pages.**

`findLeaf` ends in the leaf where `BPlusTree.seek` ends, `search` looks through that leaf, and
`rangeScan` goes from it along the chain of leaves. None of them changes a page, leaves an array, or
fails to end.

The descent is an induction on the height: the slot that `childIndex` finds is that of the child
into which `seek` goes. The walk is one along the leaves that are left: each names the next one, and
the last one `INVALID_PAGE_ID`. A tree has fewer levels and fewer leaves than the file has pages, so
neither comes back to a page (`Holds.fuel`). `search_ends` and `rangeScan_ends` are what callers
use.
-/

import MyDatabaseEngine.Index.BTreeRefine

namespace MyDb

open Outcome BPlusTree

namespace BTree

open BufferPool BTreeNode

variable {pool : BufferPool} {next : Nat} {tree : BTree} {x : Index Str Str}

/-- **`findLeaf`**, on a tree of height `h`. -/
theorem findLeafFrom_ends (key : Str) {h : Nat} :
    ∀ {t : Tree Str Str h} {next fuel : Nat} {pool : BufferPool}, pool.Ready →
      (held pool.content).Holds t next → h < fuel →
      Ends (findLeafFrom key fuel t.id) pool
        (fun leafId pool' => leafId = (seek key t).1 ∧ Moves pool pool' pool.content)
        (fun _ _ => False) := by
  induction h with
  | zero =>
    intro t next fuel pool ready holds enough
    obtain ⟨fuel, rfl⟩ := Nat.exists_eq_succ_of_ne_zero (Nat.ne_of_gt enough)
    obtain ⟨page, onPage, terminated, node, reads, is⟩ := holds
    unfold findLeafFrom
    refine Ends.bind (loadNode_ends ready onPage reads) ?_
    rintro _ loaded ⟨rfl, moves, -⟩
    rw [if_pos is.isLeaf, ends_pure]
    exact ⟨rfl, moves⟩
  | succ h ih =>
    intro t next fuel pool ready holds enough
    obtain ⟨fuel, rfl⟩ := Nat.exists_eq_succ_of_ne_zero (Nat.ne_of_gt (Nat.zero_lt_of_lt enough))
    obtain ⟨id, first, rest⟩ := t
    obtain ⟨⟨page, onPage, terminated, node, reads, is⟩, below⟩ := Layout.holds_node.mp holds
    unfold findLeafFrom
    refine Ends.bind (loadNode_ends ready onPage reads) ?_
    rintro _ loaded ⟨rfl, moves, -⟩
    rw [is.isLeaf, if_neg Bool.false_ne_true]
    unfold inMemory
    rw [is.childIndex key, ends_pure_bind, arrayGet_of_isPrefix is.children (ids_slot first rest),
      ends_pure_bind]
    have row : (held loaded.content).Row (first, rest) next := moves.content ▸ below
    refine (ih (moves.ready ready) (row.childFor key) (Nat.lt_of_succ_lt_succ enough)).mono ?_
      fun _ _ never => never
    rintro leafId pool' ⟨same, moves'⟩
    exact ⟨same, moves.trans (moves.content ▸ moves')⟩

/-- There are enough pages for every path and for the whole chain of leaves. -/
theorem Holds.fuel (holds : Holds pool tree x) (ok : x.Ok btreeOrder) :
    x.height < pool.disk.pageCount + 1 ∧ x.root.leaves.length ≤ pool.disk.pageCount + 1 := by
  have used : ∀ id ∈ x.root.pages, id < pool.disk.pageCount := by
    rw [holds.fresh]
    exact ok.used
  have pages := length_le_of_nodup ok.nodup used
  have leaves := x.root.leaves_sublist.length_le
  rw [List.length_map] at leaves
  exact ⟨Nat.lt_succ_of_lt (x.root.height_lt_pages.trans_le pages),
    Nat.le_succ_of_le (leaves.trans pages)⟩

theorem findLeaf_ends (ready : pool.Ready) (ok : x.Ok btreeOrder) (holds : Holds pool tree x)
    (key : Str) :
    Ends (tree.findLeaf key) pool
      (fun leafId pool' => leafId = (seek key x.root).1 ∧ Moves pool pool' pool.content)
      (fun _ _ => False) := by
  unfold findLeaf
  rw [ends_get_bind, holds.root]
  exact findLeafFrom_ends key ready holds.pages (holds.fuel ok).1

/-- The leaf a search ends in, on its page. -/
theorem Holds.sought (holds : Holds pool tree x) (ok : x.Ok btreeOrder) (key : Str) :
    ∃ before after, x.root.leaves = before ++ seek key x.root :: after ∧
      (held pool.content).Linked (seek key x.root :: after) invalidPageId ∧
      (before = [] ∨ ∃ e rest, (seek key x.root).2 = e :: rest ∧ e.1 ≤ key) ∧
      ∀ other ∈ after, ∀ e ∈ other.2, key < e.1 := by
  obtain ⟨before, after, split, front, back⟩ := seek_spec (by decide) key ok.shaped ok.sorted
  have linked := holds.pages.linked
  rw [split, Layout.linked_append] at linked
  exact ⟨before, after, split, linked.2, front, back⟩

/-- **`search`** finds the first entry with the key in the leaf it ends in. -/
theorem search_ends (ready : pool.Ready) (ok : x.Ok btreeOrder) (holds : Holds pool tree x)
    (key : Str) :
    Ends (tree.search key) pool
      (fun found pool' => found = ((seek key x.root).2.find? fun e => e.1 = key).map Prod.snd ∧
        Moves pool pool' pool.content)
      (fun _ _ => False) := by
  obtain ⟨before, after, -, linked, -⟩ := holds.sought ok key
  obtain ⟨page, onPage, terminated, node, reads, is⟩ := linked.1
  unfold search
  refine Ends.bind (findLeaf_ends ready ok holds key) ?_
  rintro _ found ⟨rfl, moves⟩
  refine Ends.bind (loadNode_ends (moves.ready ready) (moves.content ▸ onPage) reads) ?_
  rintro _ loaded ⟨rfl, moves', -⟩
  unfold inMemory
  rw [is.lookFor key, ends_pure]
  exact ⟨rfl, moves.trans (moves.content ▸ moves')⟩

/-- What the inner loop of `rangeScan` does, for the entries of several leaves. -/
theorem collected_append (fromKey toKey : Str) (front back : List (Str × Str)) :
    collected fromKey toKey (front ++ back) =
      if (collected fromKey toKey front).1 then collected fromKey toKey front
      else ((collected fromKey toKey back).1,
        (collected fromKey toKey front).2 ++ (collected fromKey toKey back).2) := by
  induction front with
  | nil => rfl
  | cons e front ih =>
    rw [List.cons_append, collected, collected, ih]
    by_cases past : e.1 > toKey
    · rw [if_pos past, if_pos past]
      rfl
    · rw [if_neg past, if_neg past]
      by_cases reached : e.1 ≥ fromKey
      · rw [if_pos reached, if_pos reached]
        cases stopped : (collected fromKey toKey front).1
        · simp only [Bool.false_eq_true, if_false, List.cons_append]
        · simp only [if_true, stopped]
      · rw [if_neg reached, if_neg reached]

/-- In sorted entries the loop finds exactly the range. -/
theorem collected_of_sorted (fromKey toKey : Str) {entries : List (Str × Str)}
    (sorted : Sorted entries) :
    (collected fromKey toKey entries).2 =
      entries.filter fun e => fromKey ≤ e.1 ∧ e.1 ≤ toKey := by
  induction entries with
  | nil => rfl
  | cons e entries ih =>
    obtain ⟨least, sorted⟩ := List.pairwise_cons.mp sorted
    rw [collected]
    by_cases past : e.1 > toKey
    · rw [if_pos past]
      refine (List.filter_eq_nil_iff.mpr fun e' member => ?_).symm
      have above : toKey < e'.1 := by
        rcases List.mem_cons.mp member with rfl | member
        · exact past
        · exact past.trans_le (least e' member)
      simp only [decide_eq_true_eq, not_and, not_le]
      exact fun _ => above
    · rw [if_neg past]
      by_cases reached : e.1 ≥ fromKey
      · rw [if_pos reached, List.filter_cons_of_pos, ih sorted]
        exact decide_eq_true ⟨reached, not_lt.mp past⟩
      · rw [if_neg reached, List.filter_cons_of_neg, ih sorted]
        simp only [decide_eq_true_eq, not_and]
        exact fun reaches => absurd reaches reached

/-- **The walk along the leaves** collects from each of them, until a key is too large. -/
theorem walkLeaves_ends (fromKey toKey : Str) {leaves : List (Nat × List (Str × Str))} :
    ∀ {fuel : Nat} {result : List (Str × Str)} {pool : BufferPool}, pool.Ready →
      (held pool.content).Linked leaves invalidPageId → leaves.length ≤ fuel →
      Ends (walkLeaves fromKey toKey fuel
          ((leaves.head?.map Prod.fst).getD invalidPageId) result) pool
        (fun found pool' =>
          found = result ++ (collected fromKey toKey (leaves.flatMap Prod.snd)).2 ∧
          Moves pool pool' pool.content)
        (fun _ _ => False) := by
  induction leaves with
  | nil =>
    intro fuel result pool ready _ _
    unfold walkLeaves
    simp only [List.head?_nil, Option.map_none, Option.getD_none, if_true, ends_pure]
    exact ⟨(List.append_nil _).symm, ⟨ready.consistent, rfl, rfl, rfl, rfl⟩⟩
  | cons leaf leaves ih =>
    intro fuel result pool ready linked enough
    obtain ⟨fuel, rfl⟩ := Nat.exists_eq_succ_of_ne_zero (Nat.ne_of_gt (Nat.zero_lt_of_lt enough))
    obtain ⟨⟨page, onPage, terminated, node, reads, is⟩, rest⟩ := Layout.linked_cons.mp linked
    have apart : leaf.1 ≠ invalidPageId :=
      ((lt_pageCount ready.consistent onPage).trans_le (pageCount_small ready.consistent)).ne
    unfold walkLeaves
    simp only [List.head?_cons, Option.map_some, Option.getD_some, apart, if_false]
    refine Ends.bind (loadNode_ends ready onPage reads) ?_
    rintro _ loaded ⟨rfl, moves, -⟩
    unfold inMemory
    rw [is.collect fromKey toKey result, ends_pure_bind, List.flatMap_cons, collected_append]
    by_cases done : (collected fromKey toKey leaf.2).1 = true
    · simp only [done, if_true, ends_pure]
      exact ⟨trivial, moves⟩
    · simp only [done, is.nextLeaf]
      refine (ih (moves.ready ready) (moves.content ▸ rest) (Nat.le_of_succ_le_succ enough)).mono ?_
        fun _ _ never => never
      rintro found pool' ⟨same, moves'⟩
      refine ⟨?_, moves.trans (moves.content ▸ moves')⟩
      rw [same, List.append_assoc]
      rfl

/-- **`rangeScan`** finds the pairs of the range in the leaf its search ends in and behind it. -/
theorem rangeScan_ends (ready : pool.Ready) (ok : x.Ok btreeOrder) (holds : Holds pool tree x)
    (fromKey toKey : Str) :
    ∃ before after, x.root.leaves = before ++ seek fromKey x.root :: after ∧
      (before = [] ∨ ∃ e rest, (seek fromKey x.root).2 = e :: rest ∧ e.1 ≤ fromKey) ∧
      Ends (tree.rangeScan fromKey toKey) pool
        (fun found pool' => found = ((seek fromKey x.root :: after).flatMap Prod.snd).filter
            (fun e => fromKey ≤ e.1 ∧ e.1 ≤ toKey) ∧ Moves pool pool' pool.content)
        (fun _ _ => False) := by
  obtain ⟨before, after, split, linked, front, -⟩ := holds.sought ok fromKey
  refine ⟨before, after, split, front, ?_⟩
  have sorted : Sorted ((seek fromKey x.root :: after).flatMap Prod.snd) := by
    have sorted := ok.sorted
    unfold Tree.entries at sorted
    rw [split, List.flatMap_append] at sorted
    exact (List.pairwise_append.mp sorted).2.1
  have enough := (holds.fuel ok).2
  rw [split, List.length_append] at enough
  unfold rangeScan
  refine Ends.bind (findLeaf_ends ready ok holds fromKey) ?_
  rintro _ found ⟨rfl, moves⟩
  have count := ready.consistent.pageCount_eq moves.consistent moves.content
  rw [ends_get_bind, count]
  refine (walkLeaves_ends fromKey toKey (moves.ready ready) (moves.content ▸ linked)
    (Nat.le_of_add_left_le enough)).mono ?_ fun _ _ never => never
  rintro result pool' ⟨same, moves'⟩
  rw [List.nil_append, collected_of_sorted fromKey toKey sorted] at same
  exact ⟨same, moves.trans (moves.content ▸ moves')⟩

end BTree

end MyDb
