/-
**How many pages a B-tree reads.**

After any run of insertions into a new tree a search looks at one page for each level, at most one
more than the logarithm to base 3 of the number of pairs, and a scan at one more page for every two
pairs that it finds (`reads_few`). What is on other pages does not matter (`ReadsOnly`).

The pages that a call reads are those whose content it depends on: the call does the same in any two
pools that agree on them. The walk along the leaves passes over leaves that are at least half full,
two entries each, so the pairs it finds pay for them. Nodes other than the root have two keys or
more, which bounds the height.
-/

import MyDatabaseEngine.Index.BTreeInvariant
import MyDatabaseEngine.Lib.TreeReads

namespace MyDb

open Outcome BPlusTree

namespace BTree

open BufferPool BTreeNode

/-- **The call reads these pages only**, and changes none: in every pool that holds the same on
them, it returns this. -/
def ReadsOnly {α : Type} (content : Nat → Option Page) (pages : List Nat)
    (call : EStateM Fault BufferPool α) (value : α) : Prop :=
  ∀ pool : BufferPool, pool.Ready → (∀ id ∈ pages, pool.content id = content id) →
    Ends call pool (fun found pool' => found = value ∧ Moves pool pool' pool.content)
      (fun _ _ => False)

/-! ### Walks over some of the pages -/

section Walks

variable {pages : List Nat}

/-- **The way down reads its path.** -/
theorem findLeafFrom_reads (key : Str) {h : Nat} :
    ∀ {t : Tree Str Str h} {next fuel : Nat} {pool : BufferPool}, pool.Ready →
      ((held pool.content).within pages).Holds t next → (∀ id ∈ seekPath key t, id ∈ pages) →
      h < fuel →
      Ends (findLeafFrom key fuel t.id) pool
        (fun leafId pool' => leafId = (seek key t).1 ∧ Moves pool pool' pool.content)
        (fun _ _ => False) := by
  induction h with
  | zero =>
    intro t next fuel pool ready holds inside enough
    obtain ⟨fuel, rfl⟩ := Nat.exists_eq_succ_of_ne_zero (Nat.ne_of_gt enough)
    obtain ⟨page, onPage, terminated, node, reads, is⟩ :=
      holds (inside _ (List.mem_singleton_self _))
    unfold findLeafFrom
    refine Ends.bind (loadNode_ends ready onPage reads) ?_
    rintro _ loaded ⟨rfl, moves, -⟩
    rw [if_pos is.isLeaf, ends_pure]
    exact ⟨rfl, moves⟩
  | succ h ih =>
    intro t next fuel pool ready holds inside enough
    obtain ⟨fuel, rfl⟩ := Nat.exists_eq_succ_of_ne_zero (Nat.ne_of_gt (Nat.zero_lt_of_lt enough))
    obtain ⟨id, first, rest⟩ := t
    obtain ⟨here, inside'⟩ := List.forall_mem_cons.mp inside
    obtain ⟨onThis, below⟩ := Layout.holds_node.mp holds
    obtain ⟨page, onPage, terminated, node, reads, is⟩ := onThis here
    unfold findLeafFrom
    refine Ends.bind (loadNode_ends ready onPage reads) ?_
    rintro _ loaded ⟨rfl, moves, -⟩
    rw [is.isLeaf, if_neg Bool.false_ne_true]
    unfold inMemory
    rw [is.childIndex key, ends_pure_bind, arrayGet_of_isPrefix is.children (ids_slot first rest),
      ends_pure_bind]
    have row : ((held loaded.content).within pages).Row (first, rest) next := moves.content ▸ below
    refine (ih (moves.ready ready) (row.childFor key) inside' (Nat.lt_of_succ_lt_succ enough)).mono
      ?_
      fun _ _ never => never
    rintro leafId pool' ⟨same, moves'⟩
    exact ⟨same, moves.trans (moves.content ▸ moves')⟩

/-- A leaf where the inner loop of `rangeScan` returns. -/
theorem collected_fst_iff (fromKey toKey : Str) (entries : List (Str × Str)) :
    (collected fromKey toKey entries).1 = true ↔ ∃ e ∈ entries, toKey < e.1 := by
  induction entries with
  | nil => simp [collected]
  | cons e entries ih =>
    rw [collected, List.exists_mem_cons_iff, ← ih]
    by_cases past : e.1 > toKey
    · simp [past]
    · by_cases reached : e.1 ≥ fromKey <;> simp [past, reached]

/-- **The walk along the leaves reads them up to the first key that is too large.** -/
theorem walkLeaves_reads (fromKey toKey : Str) {leaves : List (Nat × List (Str × Str))} :
    ∀ {fuel : Nat} {result : List (Str × Str)} {pool : BufferPool}, pool.Ready →
      ((held pool.content).within pages).Linked leaves invalidPageId →
      (∀ leaf ∈ walked toKey leaves, leaf.1 ∈ pages) → (walked toKey leaves).length ≤ fuel →
      Ends (walkLeaves fromKey toKey fuel
          ((leaves.head?.map Prod.fst).getD invalidPageId) result) pool
        (fun found pool' =>
          found = result ++ (collected fromKey toKey (leaves.flatMap Prod.snd)).2 ∧
          Moves pool pool' pool.content)
        (fun _ _ => False) := by
  induction leaves with
  | nil =>
    intro fuel result pool ready _ _ _
    unfold walkLeaves
    simp only [List.head?_nil, Option.map_none, Option.getD_none, if_true, ends_pure]
    exact ⟨(List.append_nil _).symm, ⟨ready.consistent, rfl, rfl, rfl, rfl⟩⟩
  | cons leaf leaves ih =>
    intro fuel result pool ready linked inside enough
    have first : leaf ∈ walked toKey (leaf :: leaves) := by
      rw [walked]
      split
      · exact List.mem_cons_self
      · exact List.mem_cons_self
    have some := List.length_pos_of_mem first
    obtain ⟨fuel, rfl⟩ :=
      Nat.exists_eq_succ_of_ne_zero (Nat.ne_of_gt (Nat.lt_of_lt_of_le some enough))
    obtain ⟨onThis, rest⟩ := Layout.linked_cons.mp linked
    obtain ⟨page, onPage, terminated, node, reads, is⟩ := onThis (inside leaf first)
    have apart : leaf.1 ≠ invalidPageId :=
      ((lt_pageCount ready.consistent onPage).trans_le (pageCount_small ready.consistent)).ne
    unfold walkLeaves
    simp only [List.head?_cons, Option.map_some, Option.getD_some, apart, if_false]
    refine Ends.bind (loadNode_ends ready onPage reads) ?_
    rintro _ loaded ⟨rfl, moves, -⟩
    unfold inMemory
    rw [is.collect fromKey toKey result, ends_pure_bind, List.flatMap_cons, collected_append]
    by_cases done : (collected fromKey toKey leaf.2).1 = true
    · simp only [done, if_true, ends_pure]
      exact ⟨trivial, moves⟩
    · have goesOn : walked toKey (leaf :: leaves) = leaf :: walked toKey leaves := by
        rw [walked, if_neg ((collected_fst_iff fromKey toKey leaf.2).not.mp done)]
      rw [goesOn] at inside enough
      simp only [done, is.nextLeaf]
      refine (ih (moves.ready ready) (moves.content ▸ rest)
        (fun other member => inside other (List.mem_cons_of_mem _ member))
        (Nat.le_of_succ_le_succ enough)).mono ?_ fun _ _ never => never
      rintro found pool' ⟨same, moves'⟩
      refine ⟨?_, moves.trans (moves.content ▸ moves')⟩
      rw [same, List.append_assoc]
      rfl

end Walks

/-! ### Calls -/

section Calls

variable {content : Nat → Option Page} {x : Index Str Str} {tree : BTree}

/-- The tree holds in every pool that holds the same on some pages, as far as these go. -/
theorem within_of_same {pool : BufferPool} {pages : List Nat}
    (holds : (held content).Holds x.root invalidPageId)
    (same : ∀ id ∈ pages, pool.content id = content id) :
    ((held pool.content).within pages).Holds x.root invalidPageId :=
  holds.within fun id inside => agree_held (same id inside)

/-- Distinct pages that a pool holds are no more than there are pages in its file. -/
theorem length_le_pageCount {pool : BufferPool} {pages part : List Nat} (ready : pool.Ready)
    (there : ∀ id ∈ pages, (content id).isSome) (same : ∀ id ∈ pages, pool.content id = content id)
    (nodup : part.Nodup) (inside : ∀ id ∈ part, id ∈ pages) :
    part.length ≤ pool.disk.pageCount := by
  refine length_le_of_nodup nodup fun id member => ?_
  rw [← ready.consistent.content_isSome, same id (inside id member)]
  exact there id (inside id member)

/-- The pages of a tree hold something. -/
theorem pages_isSome {h : Nat} {t : Tree Str Str h} {next : Nat}
    (holds : (held content).Holds t next) :
    ∀ id ∈ t.pages, (content id).isSome :=
  holds.forall_pages (fun _ _ _ ⟨_, there, _⟩ => there ▸ rfl) fun _ _ _ ⟨_, there, _⟩ => there ▸ rfl

/-- **A search reads its path.** -/
theorem search_readsOnly (ok : x.Ok btreeOrder) (root : tree.rootId = x.root.id)
    (holds : (held content).Holds x.root invalidPageId) (key : Str) :
    ReadsOnly content (seekPath key x.root) (tree.search key)
      (((seek key x.root).2.find? fun e => e.1 = key).map Prod.snd) := by
  intro pool ready same
  have there : ∀ id ∈ seekPath key x.root, (content id).isSome := fun id member =>
    pages_isSome holds id ((seekPath_sublist key x.root).mem member)
  have onPath := within_of_same holds same
  have enough := length_le_pageCount ready there same
    (ok.nodup.sublist (seekPath_sublist key x.root)) fun _ member => member
  rw [length_seekPath] at enough
  obtain ⟨before, after, split, -⟩ := seek_spec (by decide) key ok.shaped ok.sorted
  have linked := onPath.linked
  rw [split, Layout.linked_append] at linked
  obtain ⟨page, onPage, terminated, node, reads, is⟩ := linked.2.1 (seek_mem_seekPath key x.root)
  unfold search findLeaf
  rw [bind_assoc, ends_get_bind, root]
  refine Ends.bind (findLeafFrom_reads key ready onPath (fun _ member => member)
    (Nat.lt_succ_of_lt enough)) ?_
  rintro _ found ⟨rfl, moves⟩
  refine Ends.bind (loadNode_ends (moves.ready ready) (moves.content ▸ onPage) reads) ?_
  rintro _ loaded ⟨rfl, moves', -⟩
  unfold inMemory
  rw [is.lookFor key, ends_pure]
  exact ⟨rfl, moves.trans (moves.content ▸ moves')⟩

/-- **A scan reads the path to its first leaf, and the leaves behind it** up to the first key that
is too large. -/
theorem rangeScan_readsOnly (ok : x.Ok btreeOrder) (root : tree.rootId = x.root.id)
    (holds : (held content).Holds x.root invalidPageId) (fromKey toKey : Str) :
    ∃ pages found, pages.length ≤ x.height + found.length / 2 + 2 ∧
      ReadsOnly content pages (tree.rangeScan fromKey toKey) found := by
  obtain ⟨before, after, split, front, back⟩ := seek_spec (by decide) fromKey ok.shaped ok.sorted
  have sorted : Sorted ((seek fromKey x.root :: after).flatMap Prod.snd) := by
    have sorted := ok.sorted
    unfold Tree.entries at sorted
    rw [split, List.flatMap_append] at sorted
    exact (List.pairwise_append.mp sorted).2.1
  have part : (walked toKey (seek fromKey x.root :: after)).Sublist x.root.leaves := by
    rw [split]
    exact (walked_sublist toKey _).trans (List.sublist_append_right before _)
  obtain ⟨behind, begins⟩ : ∃ behind, walked toKey (seek fromKey x.root :: after) =
      seek fromKey x.root :: behind := by
    rw [walked]
    split
    · exact ⟨[], rfl⟩
    · exact ⟨walked toKey after, rfl⟩
  refine ⟨seekPath fromKey x.root ++ behind.map Prod.fst,
    ((seek fromKey x.root :: after).flatMap Prod.snd).filter fun e => fromKey ≤ e.1 ∧ e.1 ≤ toKey,
    ?_, fun pool ready same => ?_⟩
  · have few := @length_walked Str Str _ _ fromKey toKey (seek fromKey x.root) after
      (ok.shaped.leaves_full_behind split) back
    have two : btreeOrder / 2 = 2 := by decide
    rw [begins, List.length_cons, two] at few
    rw [List.length_append, length_seekPath, List.length_map]
    omega
  have onPages := within_of_same holds same
  have inside : ∀ leaf ∈ walked toKey (seek fromKey x.root :: after),
      leaf.1 ∈ seekPath fromKey x.root ++ behind.map Prod.fst := by
    rw [begins]
    refine List.forall_mem_cons.mpr ⟨List.mem_append_left _ (seek_mem_seekPath fromKey x.root), ?_⟩
    exact fun leaf member => List.mem_append_right _ (List.mem_map_of_mem member)
  have leaves : ((walked toKey (seek fromKey x.root :: after)).map Prod.fst).Sublist x.root.pages :=
    (part.map Prod.fst).trans x.root.leaves_sublist
  have there : ∀ id ∈ seekPath fromKey x.root ++ behind.map Prod.fst, (content id).isSome := by
    intro id member
    refine pages_isSome holds id ?_
    rcases List.mem_append.mp member with member | member
    · exact (seekPath_sublist fromKey x.root).mem member
    · refine leaves.mem ?_
      rw [begins]
      exact List.mem_cons_of_mem _ member
  have high :=
    length_le_pageCount ready there same (ok.nodup.sublist (seekPath_sublist fromKey x.root))
    fun _ member => List.mem_append_left _ member
  have enough := length_le_pageCount ready there same (ok.nodup.sublist leaves)
    (List.forall_mem_map.mpr inside)
  rw [length_seekPath] at high
  rw [List.length_map] at enough
  have linked := onPages.linked
  rw [split, Layout.linked_append] at linked
  unfold rangeScan findLeaf
  rw [bind_assoc, ends_get_bind, root]
  refine Ends.bind (findLeafFrom_reads fromKey ready onPages
    (fun _ member => List.mem_append_left _ member) (Nat.lt_succ_of_lt high)) ?_
  rintro _ loaded ⟨rfl, moves⟩
  have count := ready.consistent.pageCount_eq moves.consistent moves.content
  rw [ends_get_bind, count]
  refine (walkLeaves_reads fromKey toKey (moves.ready ready) (moves.content ▸ linked.2) inside
    (Nat.le_succ_of_le enough)).mono ?_ fun _ _ never => never
  rintro found pool' ⟨is, moves'⟩
  rw [List.nil_append, collected_of_sorted fromKey toKey sorted] at is
  exact ⟨is, moves.trans (moves.content ▸ moves')⟩

end Calls

/-! ### Trees made by insertions -/

/-- The index of some pairs is logarithmically high. -/
theorem height_indexOf (firstPage : Nat) (pairs : List (Str × Str)) :
    (indexOf firstPage pairs).height ≤ Nat.log 3 pairs.length := by
  have two : 2 ≤ btreeOrder := by decide
  have bushy : (indexOf firstPage pairs).Bushy btreeOrder :=
    Index.Bushy.insertAll two (.inl rfl) (Index.ok_empty btreeOrder firstPage)
  obtain ⟨-, perm, -⟩ := indexOf_spec firstPage pairs
  have low := bushy.height_le two
  rwa [perm.length_eq] at low

/-- **Reading a tree looks at few of its pages**: a search at one for each level, a scan at one more
for every two pairs that it finds, where the number of levels is at most one more than the logarithm
to base 3 of the number of pairs inserted. -/
theorem reads_few {pool : BufferPool} (ready : pool.Ready) {pairs : List (Str × Str)}
    (tokens : EntryTokens pairs) (fits : NodesFit pool.disk.pageCount pairs) :
    Ends (build pairs) pool
      (fun tree pool' =>
        (∀ key, ∃ pages found, pages.length ≤ Nat.log 3 pairs.length + 1 ∧
          ReadsOnly pool'.content pages (tree.search key) found) ∧
        ∀ fromKey toKey, ∃ pages found,
          pages.length ≤ Nat.log 3 pairs.length + found.length / 2 + 2 ∧
          ReadsOnly pool'.content pages (tree.rangeScan fromKey toKey) found)
      (Exhausted pool.disk.maxPages (indexOf pool.disk.pageCount pairs).fresh) := by
  refine (build_ends ready tokens fits).mono ?_ fun _ _ failed => failed
  rintro tree pool' ⟨-, holds⟩
  have ok := (indexOf_spec pool.disk.pageCount pairs).1
  have low := height_indexOf pool.disk.pageCount pairs
  refine ⟨fun key => ⟨_, _, ?_, search_readsOnly ok holds.root holds.pages key⟩,
    fun fromKey toKey => ?_⟩
  · rw [length_seekPath]
    exact Nat.succ_le_succ low
  · obtain ⟨pages, found, few, reads⟩ := rangeScan_readsOnly ok holds.root holds.pages fromKey toKey
    refine ⟨pages, found, few.trans ?_, reads⟩
    omega

theorem reads_few_repeated :
    ∃ tree pool', build repeatedPairs onePagePool = .ok tree pool' ∧
      (∀ key, ∃ pages found, pages.length ≤ Nat.log 3 repeatedPairs.length + 1 ∧
        ReadsOnly pool'.content pages (tree.search key) found) ∧
      ∀ fromKey toKey, ∃ pages found,
        pages.length ≤ Nat.log 3 repeatedPairs.length + found.length / 2 + 2 ∧
        ReadsOnly pool'.content pages (tree.rangeScan fromKey toKey) found := by
  have tokens : EntryTokens repeatedPairs := by
    unfold EntryTokens
    decide +kernel
  have short : Short repeatedPairs := by
    unfold Short
    decide +kernel
  have ready := ready_onePagePool
  have room : (indexOf onePagePool.disk.pageCount repeatedPairs).fresh ≤
      onePagePool.disk.maxPages := by
    decide +kernel
  -- on a variable, since the elaborator would run the call on the pool itself
  generalize onePagePool = pool at ready room ⊢
  exact exists_ok_of_room (reads_few ready tokens (nodesFit_of_short _ short)) room

end BTree

end MyDb
