/-
**The B-tree invariant.**

After any run of insertions into a new tree the pages hold a B+-tree (`reachable_invariant`). The
assumption is that keys and values are tokens and that every node on the way fits its page
(`NodesFit`), which strings of at most 500 bytes see to (`nodesFit_of_short`). A full disk is all
that can stop the run.

`Invariant` says of the pages that they hold a tree, each node on a page of its own; that its leaves
are equally deep, its nodes have at most `ORDER` keys and all but the root at least two, in order
and between the separators around them; that the leaves are chained from left to right; and that the
entries are the pairs inserted, those with one key in the order of their insertion. `indexOf` is the
tree that the library's insertions make, and the pages hold it after each step.
-/

import MyDatabaseEngine.Index.BTreeSearch

namespace MyDb

open Outcome BPlusTree

namespace BTree

open BufferPool BTreeNode

/-- The index that insertions make of a new tree. -/
def indexOf (firstPage : Nat) (pairs : List (Str × Str)) : Index Str Str :=
  (Index.empty firstPage).insertAll btreeOrder pairs

/-- **The nodes fit their pages**, after every insertion. -/
def NodesFit (firstPage : Nat) (pairs : List (Str × Str)) : Prop :=
  ∀ front, front <+: pairs → fitting.Holds (indexOf firstPage front).root invalidPageId

/-- A tree made by insertions, in terms of the pairs. -/
theorem indexOf_spec (firstPage : Nat) (pairs : List (Str × Str)) :
    (indexOf firstPage pairs).Ok btreeOrder ∧
      (indexOf firstPage pairs).root.entries.Perm pairs ∧
      ∀ key, (indexOf firstPage pairs).root.entries.filter (fun e => e.1 = key) =
        pairs.filter fun e => e.1 = key := by
  obtain ⟨ok, entries⟩ := @Index.Ok.insertAll Str Str _ btreeOrder (by decide) pairs _
    (Index.ok_empty btreeOrder firstPage)
  obtain ⟨-, perm, stable⟩ := @foldl_put_spec Str Str _ pairs [] List.Pairwise.nil
  have start : (Index.empty firstPage : Index Str Str).root.entries = [] := Tree.entries_leaf _
  simp only [List.nil_append] at perm stable
  refine ⟨ok, ?_, fun key => ?_⟩
  · show (Index.insertAll _ _ _).root.entries.Perm pairs
    rw [entries, start]
    exact perm
  · show (Index.insertAll _ _ _).root.entries.filter _ = _
    rw [entries, start]
    convert stable key

theorem legible_of_tokens (firstPage : Nat) {pairs : List (Str × Str)}
    (tokens : EntryTokens pairs) :
    legible.Holds (indexOf firstPage pairs).root invalidPageId := by
  obtain ⟨ok, perm, -⟩ := indexOf_spec firstPage pairs
  refine Layout.holds_of_entries (P := fun e => Token e.1 ∧ Token e.2) (fun _ _ _ _ all => all) ?_
    ok.shaped fun e member => tokens e (perm.mem_iff.mp member)
  rintro _ keys _ - - all key member
  obtain ⟨e, token, rfl⟩ := all key member
  exact token.1

/-- What is written on the way is writable. -/
theorem writable_of_fits {firstPage : Nat} {pairs : List (Str × Str)} (tokens : EntryTokens pairs)
    (fits : NodesFit firstPage pairs) : ∀ front, front <+: pairs →
      writable.Holds (indexOf firstPage front).root invalidPageId := fun front isPrefix =>
  (fits front isPrefix).both (legible_of_tokens firstPage fun e member =>
    tokens e (isPrefix.mem member))

/-! ### Short keys and values -/

section Short

theorem length_toString10 {n : Nat} (small : n ≤ 2 ^ 32 - 1) : (toString10 n).length ≤ 10 := by
  unfold toString10
  rw [List.length_map, Nat.length_toDigits_le_iff (by decide) (by decide)]
  omega

theorem length_lines {most : Nat} (toks : List Str) (short : ∀ s ∈ toks, s.length ≤ most) :
    (toks.flatMap line).length ≤ toks.length * (most + 1) := by
  induction toks with
  | nil => exact Nat.zero_le _
  | cons s toks ih =>
    obtain ⟨first, rest⟩ := List.forall_mem_cons.mp short
    have more := ih rest
    have here : (line s).length = s.length + 1 := List.length_append
    rw [List.flatMap_cons, List.length_append, List.length_cons, Nat.add_mul, here]
    omega

/-- Keys and values of at most 500 bytes. -/
def Short (pairs : List (Str × Str)) : Prop := ∀ e ∈ pairs, e.1.length ≤ 500 ∧ e.2.length ≤ 500

theorem fits_leafText {entries : List (Str × Str)} {next : Nat} (short : Short entries)
    (few : entries.length ≤ btreeOrder) (small : next ≤ 2 ^ 32 - 1) :
    Fits (leafText entries next) := by
  have keys := length_lines (entries.map Prod.fst) <|
    List.forall_mem_map.mpr fun e among => (short e among).1
  have values := length_lines (entries.map Prod.snd) <|
    List.forall_mem_map.mpr fun e among => (short e among).2
  have bound : btreeOrder = 4 := rfl
  have count : (toString10 entries.length).length ≤ 10 := length_toString10 (by omega)
  have last := length_toString10 small
  rw [List.length_map] at keys values
  have kind : (str "L").length = 1 := rfl
  unfold Fits leafText
  simp only [List.length_append, line, List.length_singleton, pageSize, headerSize] at keys values ⊢
  omega

theorem fits_nodeText {keys : List Str} {children : List Nat}
    (short : ∀ key ∈ keys, key.length ≤ 500) (few : keys.length ≤ btreeOrder)
    (length : children.length = keys.length + 1) (small : ∀ child ∈ children, child ≤ 2 ^ 32 - 1) :
    Fits (nodeText keys children) := by
  have keysLength := length_lines keys short
  have childrenLength := length_lines (children.map toString10) <|
    List.forall_mem_map.mpr fun child among => length_toString10 (small child among)
  have bound : btreeOrder = 4 := rfl
  have count : (toString10 keys.length).length ≤ 10 := length_toString10 (by omega)
  rw [List.length_map, List.flatMap_map] at childrenLength
  have kind : (str "I").length = 1 := rfl
  unfold Fits nodeText
  simp only [List.length_append, line, List.length_singleton, pageSize, headerSize]
    at keysLength childrenLength ⊢
  omega

/-- **Short keys and values fit.** -/
theorem nodesFit_of_short (firstPage : Nat) {pairs : List (Str × Str)} (short : Short pairs) :
    NodesFit firstPage pairs := by
  intro front isPrefix
  obtain ⟨ok, perm, -⟩ := indexOf_spec firstPage front
  refine Layout.holds_of_entries (P := fun e => e.1.length ≤ 500 ∧ e.2.length ≤ 500) ?_ ?_ ok.shaped
    fun e member => short e (isPrefix.mem (perm.mem_iff.mp member))
  · exact fun _ entries next few all small => fits_leafText all few small
  · intro _ keys children few length all small
    refine fits_nodeText (fun key member => ?_) few length small
    obtain ⟨e, bounds, rfl⟩ := all key member
    exact bounds.1

end Short

/-! ### The invariant -/

/-- **The pages hold the B-tree of these pairs**, with all its leaves at depth `h`. -/
structure Invariant (content : Nat → Option Page) (rootId : Nat)
    (pairs : List (Str × Str)) {h : Nat} (t : Tree Str Str h) : Prop where
  root : rootId = t.id
  pages : (held content).Holds t invalidPageId
  distinct : t.pages.Nodup
  /-- At most 4 keys in every node and at least 2 in every one but the root, in order, and
  separators between what they separate. -/
  nodes : WellFormed 4 t 0
  /-- `nextLeaf` leads from the leftmost leaf through every leaf once, then to `INVALID_PAGE_ID`. -/
  chain : (held content).Linked t.leaves invalidPageId
  once : (t.leaves.map Prod.fst).Nodup
  sorted : Sorted t.entries
  exactly : t.entries.Perm pairs
  stable : ∀ key, t.entries.filter (fun e => e.1 = key) = pairs.filter fun e => e.1 = key

theorem invariant_of_holds {pool : BufferPool} {tree : BTree} {firstPage : Nat}
    {pairs : List (Str × Str)} (holds : Holds pool tree (indexOf firstPage pairs)) :
    Invariant pool.content tree.rootId pairs (indexOf firstPage pairs).root := by
  obtain ⟨ok, perm, stable⟩ := indexOf_spec firstPage pairs
  exact
    { root := holds.root
      pages := holds.pages
      distinct := ok.nodup
      nodes := wellFormed_of_shaped ok.shaped ok.sorted
      chain := holds.pages.linked
      once := (Tree.leaves_sublist _).nodup ok.nodup
      sorted := ok.sorted
      exactly := perm
      stable := stable }

/-- A new tree with these pairs inserted. -/
def build (pairs : List (Str × Str)) : EStateM Fault BufferPool BTree := do
  let tree ← create
  insertAll pairs tree

theorem build_ends {pool : BufferPool} (ready : pool.Ready) {pairs : List (Str × Str)}
    (tokens : EntryTokens pairs) (fits : NodesFit pool.disk.pageCount pairs) :
    Ends (build pairs) pool
      (fun tree pool' => Moves pool pool' pool'.content ∧
        Holds pool' tree (indexOf pool.disk.pageCount pairs))
      (Exhausted pool.disk.maxPages (indexOf pool.disk.pageCount pairs).fresh) := by
  unfold build
  refine Ends.bind ((create_ends ready).mono (fun _ _ done => done) fun _ _ exhausted =>
    ⟨exhausted.1, exhausted.2.trans_le (Index.le_fresh_insertAll btreeOrder pairs
      (Index.empty pool.disk.pageCount))⟩) ?_
  rintro tree pool' ⟨moves, holds, -⟩
  refine (insertAll_ends (moves.ready ready) (Index.ok_empty btreeOrder _) holds
    (writable_of_fits tokens fits)).mono ?_ ?_
  · rintro tree' pool'' ⟨moves', holds'⟩
    exact ⟨moves.trans moves', holds'⟩
  · intro fault full failed
    rwa [moves.maxPages] at failed

/-- **The reachable trees satisfy the B-tree invariant**, so reading them ends, with every array
access inside its array. This holds in every pool with fewer pages pinned than it has frames, hence
in every pool of at least one frame in which nothing is pinned. -/
theorem reachable_invariant {pool : BufferPool} (ready : pool.Ready) {pairs : List (Str × Str)}
    (tokens : EntryTokens pairs) (fits : NodesFit pool.disk.pageCount pairs) :
    Ends (build pairs) pool
      (fun tree pool' =>
        (∃ (h : Nat) (t : Tree Str Str h), Invariant pool'.content tree.rootId pairs t) ∧
        (∀ key, Ends (tree.findLeaf key) pool' (fun _ _ => True) (fun _ _ => False)) ∧
        (∀ key, Ends (tree.search key) pool' (fun _ _ => True) (fun _ _ => False)) ∧
        ∀ fromKey toKey,
          Ends (tree.rangeScan fromKey toKey) pool' (fun _ _ => True) (fun _ _ => False))
      (Exhausted pool.disk.maxPages (indexOf pool.disk.pageCount pairs).fresh) := by
  refine (build_ends ready tokens fits).mono ?_ fun _ _ failed => failed
  rintro tree pool' ⟨moves, holds⟩
  have ready' := moves.ready ready
  have ok := (indexOf_spec pool.disk.pageCount pairs).1
  refine ⟨⟨_, _, invariant_of_holds holds⟩, fun key => ?_, fun key => ?_, fun fromKey toKey => ?_⟩
  · exact (findLeaf_ends ready' ok holds key).mono (fun _ _ _ => trivial) fun _ _ never => never
  · exact (search_ends ready' ok holds key).mono (fun _ _ _ => trivial) fun _ _ never => never
  · obtain ⟨_, _, -, -, ends⟩ := rangeScan_ends ready' ok holds fromKey toKey
    exact ends.mono (fun _ _ _ => trivial) fun _ _ never => never

/-- A key given three times. -/
def repeatedPairs : List (Str × Str) :=
  [(str "b", str "1"), (str "a", str "2"), (str "b", str "3"), (str "c", str "4"),
    (str "b", str "5")]

/-- **The tree of these pairs is built** in a pool of one frame: it needs 3 of the 8 pages. -/
theorem reachable_invariant_repeated :
    ∃ tree pool', build repeatedPairs onePagePool = .ok tree pool' ∧
      (∃ (h : Nat) (t : Tree Str Str h), Invariant pool'.content tree.rootId repeatedPairs t) ∧
      (∀ key, Ends (tree.findLeaf key) pool' (fun _ _ => True) (fun _ _ => False)) ∧
      (∀ key, Ends (tree.search key) pool' (fun _ _ => True) (fun _ _ => False)) ∧
      ∀ fromKey toKey,
        Ends (tree.rangeScan fromKey toKey) pool' (fun _ _ => True) (fun _ _ => False) := by
  have tokens : EntryTokens repeatedPairs := by
    unfold EntryTokens
    decide +kernel
  have short : Short repeatedPairs := by
    unfold Short
    decide +kernel
  have ready := ready_onePagePool
  have room : (indexOf onePagePool.disk.pageCount repeatedPairs).fresh ≤
      onePagePool.disk.maxPages := by
    decide +kernel
  -- on a variable, since the elaborator would run the call on the pool itself
  generalize onePagePool = pool at ready room ⊢
  exact exists_ok_of_room (reachable_invariant ready tokens (nodesFit_of_short _ short)) room

end BTree

end MyDb
