/-
**Trees and heaps on one pool: every call has an outcome.**

Trees and heaps that were made on a pool keep out of each other's way: a tree's pages hold no slots,
and all other pages are well-slotted (`Shared`). So none of their calls accesses memory outside a
page or an array, and none runs forever, as long as the keys and values are tokens, the nodes fit
their pages and the rows are small enough. With `PinNeutral` this is `calls_release_pins`.

The heap's scan is why both kinds of pages must be looked at: it reads the trees' pages as slotted
ones. A node's text stands behind the header and leaves the record count zero (`Counts`), so the
scan finds no slot there. Each call of a tree or a heap has a lemma that it keeps `Shared` or fails
safely: it throws that a page does not exist and the pool is still `Shared`, or the file is at its
limit (`FailsSafely`).
-/

import MyDatabaseEngine.Heap.HeapScan
import MyDatabaseEngine.Index.InsertAtomic
import MyDatabaseEngine.Shared.PinNeutral
import MyDatabaseEngine.Storage.LruOrder

namespace MyDb

open Outcome BufferPool BPlusTree

/-! ### A tree leaves the slots alone -/

theorem Page.recordCount_overwriteData (page : Page) (bytes : Str) :
    (page.overwriteData bytes).recordCount = page.recordCount := by
  have length : (page.bytes.take headerSize).length = headerSize := by
    rw [List.length_take, page.length_eq]
    rfl
  have header : ∀ rest : Str, FileStream.readAt (page.bytes.take headerSize ++ rest) 6 2 =
      FileStream.readAt page.bytes 6 2 := by
    intro rest
    unfold FileStream.readAt
    rw [List.drop_append_of_le_length (by rw [length]; decide), List.drop_take,
      List.take_append_of_le_length]
    · rw [List.take_take]
      rfl
    · rw [List.length_take, List.length_drop, page.length_eq]
      decide
  unfold recordCount overwriteData
  rw [header]

/-- **The pages have these numbers of slots**; a page that is not there has none. -/
structure Counts (counts : Nat → Nat) (pool : BufferPool) : Prop where
  consistent : pool.Consistent
  same : ∀ id page, pool.content id = some page → page.recordCount = counts id
  new : ∀ id, pool.disk.pageCount ≤ id → counts id = 0

namespace Counts

variable {counts : Nat → Nat} {pool pool' : BufferPool} {id : Nat} {page page' : Page}

theorem of_moves (has : Counts counts pool) (moves : Moves pool pool' pool.content) :
    Counts counts pool' where
  consistent := moves.consistent
  same := moves.content ▸ has.same
  new := has.consistent.pageCount_eq moves.consistent moves.content ▸ has.new

/-- A page is written with as many slots. -/
theorem of_update (has : Counts counts pool)
    (moves : Moves pool pool' (Function.update pool.content id (some page')))
    (there : id ≤ pool.disk.pageCount) (same : page'.recordCount = counts id) :
    Counts counts pool' where
  consistent := moves.consistent
  same := by
    intro other page holds
    rw [moves.content] at holds
    by_cases isIt : other = id
    · subst isIt
      rw [Function.update_self] at holds
      rw [← Option.some.inj holds, same]
    · rw [Function.update_of_ne isIt] at holds
      exact has.same other page holds
  new := by
    rw [moves.pageCount_update has.consistent there]
    exact fun other beyond => has.new other ((Nat.le_max_left _ _).trans beyond)

/-- The numbers of slots that the pages have. -/
theorem exists_counts (ok : pool.Consistent) :
    Counts (fun id => (pool.content id).elim 0 Page.recordCount) pool where
  consistent := ok
  same := by
    intro id page holds
    rw [holds]
    rfl
  new := by
    intro id beyond
    have none : pool.content id = none := by
      rw [← Option.not_isSome_iff_eq_none, ok.content_isSome]
      exact Nat.not_lt.mpr beyond
    rw [none]
    rfl

/-- **What is not on a page of `pool` is empty**, and what is has as many slots as before. -/
theorem recordCount_eq_zero
    (has : Counts (fun id => (pool.content id).elim 0 Page.recordCount) pool')
    (blank : ∀ page, pool.content id = some page → page.recordCount = 0)
    (holds : pool'.content id = some page') : page'.recordCount = 0 := by
  rw [has.same id page' holds]
  cases before : pool.content id with
  | none => rfl
  | some page => exact blank page before

end Counts

/-- **The calls of a tree keep the numbers of slots.** -/
theorem BTree.nodeWise_counts (counts : Nat → Nat) : NodeWise (Counts counts) fun _ _ => True where
  load := by
    intro id pool has
    refine Ends.bind ((fetchPage_fetches has.consistent id).mono (fun _ _ done => done)
      fun _ _ _ => trivial) ?_
    rintro page pinned ⟨-, fetched⟩
    cases BTreeNode.deserialize page with
    | ok node => exact has.of_moves (fetched.release has.consistent).toMoves
    | error fault => trivial
  save := by
    intro id node pool has
    refine Ends.bind ((fetchPage_fetches has.consistent id).mono (fun _ _ done => done)
      fun _ _ _ => trivial) ?_
    rintro page pinned ⟨holds, fetched⟩
    unfold BTreeNode.serialize
    cases node.text with
    | ok text =>
      refine has.of_update (fetched.releaseWritten _).toMoves
        (lt_pageCount has.consistent holds).le ?_
      rw [Page.recordCount_overwriteData]
      exact has.same id page holds
    | error fault => trivial
  alloc := by
    intro pool has
    refine Ends.bind
      ((newPage_makes has.consistent).mono (fun _ _ done => done) fun _ _ _ => trivial) ?_
    rintro page pinned ⟨rfl, isNext, -, -, -, moves⟩
    simp only [ends_modify_bind, ends_pure]
    rw [isNext]
    refine has.of_update moves (Nat.le_refl _) ?_
    rw [Page.recordCount_new, has.new _ (Nat.le_refl _)]
  undefined := fun _ _ => trivial
  diverges := fun _ _ => trivial

/-! ### The trees and heaps of a pool -/

/-- **The trees and heaps** that are in use, and the index of each tree. -/
structure Stores where
  trees : Set BTree
  index : BTree → Index Str Str
  heaps : Set TableHeap

namespace Stores

/-- The index of a tree; its next page is the next page of the file. -/
def indexOn (stores : Stores) (pool : BufferPool) (tree : BTree) : Index Str Str :=
  { stores.index tree with fresh := pool.disk.pageCount }

/-- The pages of a tree. -/
def pages (stores : Stores) (tree : BTree) : List Nat := (stores.index tree).root.pages

/-- The trees `rest`, and a tree with an index. -/
def withTree (stores : Stores) (rest : Set BTree) (tree : BTree) (x : Index Str Str) : Stores :=
  { stores with trees := Insert.insert tree rest, index := Function.update stores.index tree x }

variable {stores : Stores} {rest : Set BTree} {tree other : BTree} {x : Index Str Str}

theorem index_withTree_self : (stores.withTree rest tree x).index tree = x :=
  Function.update_self ..

theorem index_withTree_of_ne (apart : other ≠ tree) :
    (stores.withTree rest tree x).index other = stores.index other := Function.update_of_ne apart ..

theorem pages_withTree_self : (stores.withTree rest tree x).pages tree = x.root.pages := by
  unfold pages
  rw [index_withTree_self]

theorem pages_withTree_of_ne (apart : other ≠ tree) :
    (stores.withTree rest tree x).pages other = stores.pages other := by
  unfold pages
  rw [index_withTree_of_ne apart]

end Stores

/-- **The trees and heaps keep out of each other's way.** -/
structure Shared (pool : BufferPool) (stores : Stores) : Prop where
  ready : pool.Ready
  slotted : ∀ id page, pool.content id = some page → page.WellSlotted
  sound : ∀ tree ∈ stores.trees, BTree.Sound pool tree (stores.indexOn pool tree)
  blank : ∀ tree ∈ stores.trees, ∀ id ∈ stores.pages tree, ∀ page, pool.content id = some page →
    page.recordCount = 0
  apart : ∀ tree ∈ stores.trees, ∀ other ∈ stores.trees, tree ≠ other →
    ∀ id ∈ stores.pages tree, id ∉ stores.pages other
  heaps : ∀ heap ∈ stores.heaps, heap.firstPageId < pool.disk.pageCount ∧
    ∀ tree ∈ stores.trees, heap.firstPageId ∉ stores.pages tree

namespace Shared

variable {pool pool' : BufferPool} {stores : Stores} {content : Nat → Option Page} {id : Nat}
  {page page' : Page} {tree tree' : BTree} {heap : TableHeap} {rid : RowId} {order : RowOrder}
  {padding : Byte} {row : Row}

/-- **What happens beside the trees.** -/
theorem frame (shared : Shared pool stores) (moves : Moves pool pool' content)
    (grown : pool.disk.pageCount ≤ pool'.disk.pageCount)
    (slotted : ∀ id page, pool'.content id = some page → page.WellSlotted)
    (same : ∀ tree ∈ stores.trees, ∀ id ∈ stores.pages tree, pool'.content id = pool.content id) :
    Shared pool' stores where
  ready := moves.ready shared.ready
  slotted := slotted
  sound := fun tree member => (shared.sound tree member).others moves.consistent (same tree member)
  blank := by
    intro tree member id onTree page holds
    rw [same tree member id onTree] at holds
    exact shared.blank tree member id onTree page holds
  apart := shared.apart
  heaps := fun heap member => (shared.heaps heap member).imp_left grown.trans_lt'

theorem of_moves (shared : Shared pool stores) (moves : Moves pool pool' pool.content) :
    Shared pool' stores := by
  have count := shared.ready.consistent.pageCount_eq moves.consistent moves.content
  refine shared.frame moves count.ge ?_ fun _ _ id _ => congrFun moves.content id
  rw [moves.content]
  exact shared.slotted

/-- A page beside the trees is written. -/
theorem of_update (shared : Shared pool stores)
    (moves : Moves pool pool' (Function.update pool.content id (some page')))
    (there : id ≤ pool.disk.pageCount) (well : page'.WellSlotted)
    (beside : ∀ tree ∈ stores.trees, id ∈ stores.pages tree → pool.content id = some page') :
    Shared pool' stores := by
  have count := moves.pageCount_update shared.ready.consistent there
  refine shared.frame moves (count ▸ Nat.le_max_left _ _) ?_ ?_
  · intro other page holds
    rw [moves.content] at holds
    by_cases isIt : other = id
    · rw [isIt, Function.update_self] at holds
      exact Option.some.inj holds ▸ well
    · rw [Function.update_of_ne isIt] at holds
      exact shared.slotted other page holds
  · intro tree member other onTree
    rw [moves.content]
    by_cases isIt : other = id
    · rw [isIt, Function.update_self]
      exact (beside tree member (isIt ▸ onTree)).symm
    · exact Function.update_of_ne isIt ..

/-- **A tree comes in**, on pages of its own, for one of the trees or none. -/
theorem withTree (shared : Shared pool stores) {rest : Set BTree} {x : Index Str Str}
    (sub : rest ⊆ stores.trees) (moves : Moves pool pool' content)
    (grown : pool.disk.pageCount ≤ pool'.disk.pageCount)
    (slotted : ∀ id page, pool'.content id = some page → page.WellSlotted)
    (same : ∀ other ∈ rest, ∀ id ∈ stores.pages other, pool'.content id = pool.content id)
    (sound : BTree.Sound pool' tree x)
    (blank : ∀ id ∈ x.root.pages, ∀ page, pool'.content id = some page → page.recordCount = 0)
    (own : ∀ id ∈ x.root.pages, (∀ other ∈ rest, id ∉ stores.pages other) ∧
      ∀ heap ∈ stores.heaps, heap.firstPageId ≠ id) :
    Shared pool' (stores.withTree rest tree x) := by
  have isOther : ∀ other ∈ rest, other ≠ tree := by
    rintro other member rfl
    refine (own other.rootId ?_).1 other member ?_
    · rw [sound.holds.root]
      exact x.root.id_mem_pages
    · rw [(shared.sound other (sub member)).holds.root]
      exact (stores.index other).root.id_mem_pages
  refine ⟨moves.ready shared.ready, slotted, ?_, ?_, ?_, ?_⟩
  · rintro other (rfl | member)
    · unfold Stores.indexOn
      rw [Stores.index_withTree_self]
      exact sound.others moves.consistent fun _ _ => rfl
    · unfold Stores.indexOn
      rw [Stores.index_withTree_of_ne (isOther other member)]
      exact (shared.sound other (sub member)).others moves.consistent (same other member)
  · rintro other (rfl | member) id onTree page holds
    · rw [Stores.pages_withTree_self] at onTree
      exact blank id onTree page holds
    · rw [Stores.pages_withTree_of_ne (isOther other member)] at onTree
      rw [same other member id onTree] at holds
      exact shared.blank other (sub member) id onTree page holds
  · rintro first (rfl | member) second (rfl | member') apart id onTree
    · exact absurd rfl apart
    · rw [Stores.pages_withTree_self] at onTree
      rw [Stores.pages_withTree_of_ne (isOther second member')]
      exact (own id onTree).1 second member'
    · rw [Stores.pages_withTree_of_ne (isOther first member)] at onTree
      rw [Stores.pages_withTree_self]
      exact fun onNew => (own id onNew).1 first member onTree
    · rw [Stores.pages_withTree_of_ne (isOther first member)] at onTree
      rw [Stores.pages_withTree_of_ne (isOther second member')]
      exact shared.apart first (sub member) second (sub member') apart id onTree
  · intro heap member
    refine ⟨(shared.heaps heap member).1.trans_le grown, ?_⟩
    rintro other (rfl | member')
    · rw [Stores.pages_withTree_self]
      exact fun onTree => (own _ onTree).2 heap member rfl
    · rw [Stores.pages_withTree_of_ne (isOther other member')]
      exact (shared.heaps heap member).2 other (sub member')

/-! ### The calls of trees -/

/-- **How a call may fail**: for want of a page, with nothing changed, or because the disk is
full. -/
def FailsSafely (pool : BufferPool) (stores : Stores) (fault : Fault) (pool' : BufferPool) : Prop :=
  (∃ id, fault = DiskManager.noSuchPage id) ∧ Shared pool' stores ∨
    DiskFull pool.disk.maxPages fault pool'

/-- The pages are well-slotted where they are as before or a tree's. -/
theorem slotted_after (shared : Shared pool stores)
    (has : Counts (fun id => (pool.content id).elim 0 Page.recordCount) pool')
    (kept : ∀ id < pool.disk.pageCount, pool'.content id = pool.content id ∨
      ∀ page, pool.content id = some page → page.recordCount = 0) (id : Nat) (page : Page)
    (holds : pool'.content id = some page) : page.WellSlotted := by
  by_cases old : id < pool.disk.pageCount
  · rcases kept id old with same | blank
    · exact shared.slotted id page (same ▸ holds)
    · exact Page.wellSlotted_of_empty (Counts.recordCount_eq_zero has blank holds)
  · have nothing : pool.content id = none := by
      rw [← Option.not_isSome_iff_eq_none, shared.ready.consistent.content_isSome]
      exact old
    refine Page.wellSlotted_of_empty (Counts.recordCount_eq_zero has (fun page there => ?_) holds)
    exact nomatch nothing.symm.trans there

/-- The pages in use are pages of the file. -/
theorem lt_pageCount (shared : Shared pool stores) (member : tree ∈ stores.trees)
    (onTree : id ∈ stores.pages tree) : id < pool.disk.pageCount :=
  (shared.sound tree member).ok.used id onTree

theorem createTree (shared : Shared pool stores) :
    Ends BTree.create pool
      (fun tree pool' =>
        Shared pool' (stores.withTree stores.trees tree (Index.empty pool.disk.pageCount)))
      (FailsSafely pool stores) := by
  have ok := shared.ready.consistent
  refine ((BTree.create_ends shared.ready).and ((BTree.nodeWise_counts _).create pool
    (Counts.exists_counts ok))).mono ?_ fun _ _ fails => .inr fails.1.1
  rintro tree pool' ⟨⟨moves, holds, same⟩, has⟩
  have grown : pool.disk.pageCount ≤ pool'.disk.pageCount := by
    rw [holds.fresh]
    exact Nat.le_succ _
  refine shared.withTree subset_rfl moves grown
    (shared.slotted_after has fun id old => .inl (same id old)) ?_
    ⟨moves.consistent, Index.ok_empty btreeOrder _, nofun, holds⟩ ?_ ?_
  · exact fun other member id onTree => same id (shared.lt_pageCount member onTree)
  · intro id onTree page
    have isNew : id = pool.disk.pageCount := List.mem_singleton.mp onTree
    refine Counts.recordCount_eq_zero has fun page there => ?_
    rw [isNew, ok.content_pageCount] at there
    exact nomatch there
  · intro id onTree
    have isNew : id = pool.disk.pageCount := List.mem_singleton.mp onTree
    rw [isNew]
    refine ⟨fun other member onOther => ?_, fun heap member => (shared.heaps heap member).1.ne⟩
    exact Nat.lt_irrefl _ (shared.lt_pageCount member onOther)

theorem insert (shared : Shared pool stores) (member : tree ∈ stores.trees) {entry : Str × Str}
    (insertable : BTree.Insertable (stores.indexOn pool tree) entry) :
    Ends (tree.insert entry.1 entry.2) pool
      (fun tree' pool' => Shared pool' (stores.withTree (stores.trees \ {tree}) tree'
        ((stores.indexOn pool tree).insert btreeOrder entry)))
      (FailsSafely pool stores) := by
  have ok := shared.ready.consistent
  have sound := shared.sound tree member
  have ends := BTree.insert_ends shared.ready sound.ok sound.holds entry (sound.writable insertable)
  refine ((ends.and (sound.insert insertable)).and
    ((BTree.nodeWise_counts _).insert tree entry.1 entry.2 pool
    (Counts.exists_counts ok))).mono ?_ fun _ _ fails => .inr fails.1.1.1
  rintro tree' pool' ⟨⟨⟨moves, holds, same⟩, sound'⟩, has⟩
  have grown : pool.disk.pageCount ≤ pool'.disk.pageCount := by
    rw [holds.fresh]
    exact Index.le_fresh_insert btreeOrder (stores.indexOn pool tree) entry
  have others : ∀ other ∈ stores.trees \ {tree}, ∀ id ∈ stores.pages other,
      id ∉ stores.pages tree :=
    fun other among => shared.apart other among.1 tree member among.2
  refine shared.withTree Set.sdiff_subset moves grown ?_ ?_ sound' ?_ ?_
  · refine shared.slotted_after has fun id old => ?_
    by_cases onTree : id ∈ stores.pages tree
    · exact .inr (shared.blank tree member id onTree)
    · exact .inl (same id old onTree)
  · intro other among id onOther
    exact same id (shared.lt_pageCount among.1 onOther) (others other among id onOther)
  · intro id onTree page
    refine Counts.recordCount_eq_zero has fun page there => ?_
    rcases Index.mem_pages_insert onTree with old | new
    · exact shared.blank tree member id old page there
    · exact absurd (BufferPool.lt_pageCount ok there) (Nat.not_lt.mpr new)
  · intro id onTree
    rcases Index.mem_pages_insert onTree with old | new
    · refine ⟨fun other among onOther => others other among id onOther old, ?_⟩
      rintro heap among rfl
      exact (shared.heaps heap among).2 tree member old
    · refine ⟨fun other among onOther => ?_, fun heap among isPage => ?_⟩
      · exact absurd (shared.lt_pageCount among.1 onOther) (Nat.not_lt.mpr new)
      · exact absurd (isPage ▸ (shared.heaps heap among).1) (Nat.not_lt.mpr new)

theorem search (shared : Shared pool stores) (member : tree ∈ stores.trees) (key : Str) :
    Ends (tree.search key) pool (fun _ pool' => Shared pool' stores) (FailsSafely pool stores) := by
  have sound := shared.sound tree member
  refine (BTree.search_ends shared.ready sound.ok sound.holds key).mono ?_ fun _ _ never =>
    never.elim
  exact fun _ _ found => shared.of_moves found.2

theorem rangeScan (shared : Shared pool stores) (member : tree ∈ stores.trees)
    (fromKey toKey : Str) :
    Ends (tree.rangeScan fromKey toKey) pool (fun _ pool' => Shared pool' stores)
      (FailsSafely pool stores) := by
  have sound := shared.sound tree member
  obtain ⟨_, _, -, -, ends⟩ := BTree.rangeScan_ends shared.ready sound.ok sound.holds fromKey toKey
  refine ends.mono ?_ fun _ _ never => never.elim
  exact fun _ _ found => shared.of_moves found.2

/-! ### The calls of heaps -/

theorem createHeap (shared : Shared pool stores) :
    Ends TableHeap.create pool
      (fun heap pool' => Shared pool' { stores with heaps := Insert.insert heap stores.heaps })
      (FailsSafely pool stores) := by
  have ok := shared.ready.consistent
  refine (TableHeap.create_ends ok).mono ?_ ?_
  · rintro heap pool' ⟨isNext, moves⟩
    have fresh : ∀ tree ∈ stores.trees, heap.firstPageId ∉ stores.pages tree := by
      rw [isNext]
      exact fun tree member onTree => Nat.lt_irrefl _ (shared.lt_pageCount member onTree)
    have count := moves.pageCount_update ok isNext.le
    have after := shared.of_update moves isNext.le
      (Page.wellSlotted_of_empty (Page.recordCount_new _)) fun tree member onTree =>
        (fresh tree member onTree).elim
    refine ⟨after.ready, after.slotted, after.sound, after.blank, after.apart, ?_⟩
    rintro other (rfl | member)
    · exact ⟨count ▸ Nat.le_max_right _ _, fresh⟩
    · exact after.heaps other member
  · rintro fault pool' (refused | full)
    · exact (shared.ready.not_refused refused).elim
    · exact .inr full

/-- A page that is not there. -/
theorem fetching_fails {α : Type} {next : Page → EStateM Fault BufferPool α}
    {returns : α → BufferPool → Prop} (shared : Shared pool stores)
    (nothing : pool.content id = none) :
    Ends (fetchPage id >>= next) pool returns (FailsSafely pool stores) := by
  refine Ends.bind ((fetchPage_fetches shared.ready.consistent id).mono (fun _ _ done => done) ?_)
    ?_
  · rintro fault pool' (missed | ⟨isMissing, -, moves⟩)
    · exact (shared.ready.not_missed missed).elim
    · exact .inl ⟨⟨id, isMissing⟩, shared.of_moves moves⟩
  · rintro page pinned ⟨there, -⟩
    exact nomatch nothing.symm.trans there

theorem getRow (shared : Shared pool stores) (rid : RowId) :
    Ends (TableHeap.getRow rid) pool (fun _ pool' => Shared pool' stores)
      (FailsSafely pool stores) := by
  cases there : pool.content rid.pageId with
  | none => exact shared.fetching_fails there
  | some page =>
    have ends := TableHeap.getRow_ends shared.ready.consistent there (shared.slotted _ page there)
    exact ends.mono (fun _ _ found => shared.of_moves found.2)
      fun _ _ missed => (shared.ready.not_missed missed).elim

/-- On a tree's page there is nothing to delete. -/
theorem of_deletes (shared : Shared pool stores) (there : pool.content id = some page) {i : Nat}
    {done : Bool} (deletes : TableHeap.Deletes page i done page')
    (moves : Moves pool pool' (Function.update pool.content id (some page'))) :
    Shared pool' stores := by
  have inFile := BufferPool.lt_pageCount shared.ready.consistent there
  refine shared.of_update moves inFile.le (deletes.kept (shared.slotted id page there)).1 ?_
  intro tree member onTree
  have blank := shared.blank tree member id onTree page there
  rcases deletes with ⟨-, live, -⟩ | ⟨-, -, rfl⟩
  · exact absurd (blank ▸ live.1) (Nat.not_lt_zero i)
  · exact there

theorem deleteRow (shared : Shared pool stores) (rid : RowId) :
    Ends (TableHeap.deleteRow rid) pool (fun _ pool' => Shared pool' stores)
      (FailsSafely pool stores) := by
  cases there : pool.content rid.pageId with
  | none => exact shared.fetching_fails there
  | some page =>
    have ends :=
      TableHeap.deleteRow_ends shared.ready.consistent there (shared.slotted _ page there)
    refine ends.mono ?_ fun _ _ missed => (shared.ready.not_missed missed).elim
    rintro done pool' ⟨page', deletes, moves⟩
    exact shared.of_deletes there deletes moves

/-- A heap has its page. -/
theorem heapPage (shared : Shared pool stores) (member : heap ∈ stores.heaps) :
    ∃ page, pool.content heap.firstPageId = some page := by
  refine Option.isSome_iff_exists.mp ?_
  rw [shared.ready.consistent.content_isSome]
  exact (shared.heaps heap member).1

theorem insertRow (shared : Shared pool stores) (member : heap ∈ stores.heaps)
    (fits : ∀ page, pool.content heap.firstPageId = some page →
      (TableHeap.storedText order row).length ≤ page.dataStart) :
    Ends (heap.insertRow order padding row) pool
    (fun _ pool' => Shared pool' stores) fun _ _ => False := by
  obtain ⟨page, there⟩ := shared.heapPage member
  have well := shared.slotted _ page there
  have ends :=
    @TableHeap.insertRow_ends pool page order padding row heap shared.ready.consistent there well
    (fits page there)
  refine ends.mono ?_ fun _ _ => shared.ready.not_missed
  rintro rid pool' ⟨page', inserts, moves⟩
  refine shared.of_update moves (shared.heaps heap member).1.le (inserts.kept well).1 ?_
  exact fun tree among onTree => ((shared.heaps heap member).2 tree among onTree).elim

theorem updateRow (shared : Shared pool stores) (member : heap ∈ stores.heaps)
    (fits : ∀ page, pool.content heap.firstPageId = some page →
      (TableHeap.storedText order row).length ≤
      (if rid.pageId = heap.firstPageId then page.withoutSlot rid.slotIndex else page).dataStart) :
    Ends (heap.updateRow order padding rid row) pool (fun _ pool' => Shared pool' stores)
      (FailsSafely pool stores) := by
  cases there : pool.content rid.pageId with
  | none =>
    unfold TableHeap.updateRow TableHeap.deleteRow
    rw [bind_assoc]
    exact shared.fetching_fails there
  | some page =>
    have ends :=
      TableHeap.deleteRow_ends shared.ready.consistent there (shared.slotted _ page there)
    refine Ends.bind (ends.mono (fun _ _ done => done) fun _ _ missed =>
      (shared.ready.not_missed missed).elim) ?_
    rintro done freed ⟨page', deletes, moves⟩
    have shared' := shared.of_deletes there deletes moves
    rcases deletes with ⟨rfl, live, rfl⟩ | ⟨rfl, -, rfl⟩
    · have fits' : ∀ page'', freed.content heap.firstPageId = some page'' →
          (TableHeap.storedText order row).length ≤ page''.dataStart := by
        intro page'' holds
        rw [moves.content] at holds
        by_cases onPage : rid.pageId = heap.firstPageId
        · rw [← onPage, Function.update_self] at holds
          have fits := fits page (onPage ▸ there)
          rw [if_pos onPage] at fits
          exact Option.some.inj holds ▸ fits
        · rw [Function.update_of_ne (Ne.symm onPage)] at holds
          have fits := fits page'' holds
          rwa [if_neg onPage] at fits
      refine Ends.bind ((shared'.insertRow member fits').mono (fun _ _ done => done)
        fun _ _ never => never.elim) ?_
      exact fun _ _ after => after
    · exact shared'

theorem scan (shared : Shared pool stores) (heap : TableHeap) (snapshot : Option MvccSnapshot) :
    Ends (heap.scan snapshot) pool (fun _ pool' => Shared pool' stores) (FailsSafely pool stores) :=
  (TableHeap.scanPages_slotted snapshot _ shared.ready shared.slotted).mono
    (fun _ _ moves => shared.of_moves moves) fun _ _ fails =>
      .inl ⟨fails.1, shared.of_moves fails.2⟩

end Shared

/-! ### Runs -/

namespace StoreCall

variable {α : Type}

/-- **The arguments fit**: trees and heaps that are in use, keys and values that can be inserted,
and rows that are no longer than the part of the page that is free of other rows. -/
def Fits (pool : BufferPool) (stores : Stores) : StoreCall α → Prop
  | insert tree key value =>
    tree ∈ stores.trees ∧ BTree.Insertable (stores.indexOn pool tree) (key, value)
  | search tree _ => tree ∈ stores.trees
  | rangeScan tree _ _ => tree ∈ stores.trees
  | insertRow heap order _ row =>
    heap ∈ stores.heaps ∧ ∀ page, pool.content heap.firstPageId = some page →
      (TableHeap.storedText order row).length ≤ page.dataStart
  | updateRow heap order _ rid row =>
    heap ∈ stores.heaps ∧ ∀ page, pool.content heap.firstPageId = some page →
      (TableHeap.storedText order row).length ≤
        (if rid.pageId = heap.firstPageId then page.withoutSlot rid.slotIndex else page).dataStart
  | _ => True

/-- The trees and heaps after a call that returned. -/
def after (pool : BufferPool) (stores : Stores) : {α : Type} → StoreCall α → α → Stores
  | _, createTree, tree => stores.withTree stores.trees tree (Index.empty pool.disk.pageCount)
  | _, insert tree key value, tree' =>
    stores.withTree (stores.trees \ {tree}) tree'
      ((stores.indexOn pool tree).insert btreeOrder (key, value))
  | _, createHeap, heap => { stores with heaps := Insert.insert heap stores.heaps }
  | _, _, _ => stores

variable {pool : BufferPool} {stores : Stores}

/-- **Step lemma**: a call that fits is safe. -/
theorem ends_run (shared : Shared pool stores) (call : StoreCall α) (fits : call.Fits pool stores) :
    Ends call.run pool (fun value pool' => Shared pool' (after pool stores call value))
      (Shared.FailsSafely pool stores) := by
  cases call with
  | createTree => exact shared.createTree
  | insert tree key value => exact @Shared.insert _ _ _ shared fits.1 (key, value) fits.2
  | search tree key => exact shared.search fits key
  | rangeScan tree fromKey toKey => exact shared.rangeScan fits fromKey toKey
  | createHeap => exact shared.createHeap
  | insertRow heap order padding row =>
    exact (shared.insertRow fits.1 fits.2).mono (fun _ _ done => done) fun _ _ never => never.elim
  | getRow rid => exact shared.getRow rid
  | updateRow heap order padding rid row => exact shared.updateRow fits.1 fits.2
  | deleteRow rid => exact shared.deleteRow rid
  | scan heap snapshot => exact shared.scan heap snapshot

end StoreCall

/-- **A run on a shared pool**, from a file of well-slotted pages on. The heaps of the file may be
in use at once; trees are made. -/
inductive SharedRun (start : BufferPool) : BufferPool → Stores → Prop
  | start : start.Consistent → (∀ id page, start.content id = some page → page.WellSlotted) →
      SharedRun start start
        ⟨∅, fun _ => Index.empty 0, {heap | heap.firstPageId < start.disk.pageCount}⟩
  | returned {α : Type} {call : StoreCall α} {value : α} {pool pool' : BufferPool}
    {stores : Stores} :
      SharedRun start pool stores → call.Fits pool stores → call.run pool = .ok value pool' →
      SharedRun start pool' (call.after pool stores value)
  | threw {α : Type} {call : StoreCall α} {id : Nat} {pool pool' : BufferPool} {stores : Stores} :
      SharedRun start pool stores → call.Fits pool stores →
      call.run pool = .error (DiskManager.noSuchPage id) pool' → SharedRun start pool' stores

/-- The two failures differ. -/
theorem noSuchPage_ne_failedToWrite (id other : Nat) :
    DiskManager.noSuchPage id ≠ DiskManager.failedToWrite other := by
  intro same
  have head := congrArg List.head? (Fault.runtimeError.inj same)
  rw [List.append_assoc, List.head?_append_of_ne_nil _ (by decide),
    List.head?_append_of_ne_nil _ (by decide)] at head
  exact absurd head (by decide)

/-- **Run lemma.** -/
theorem SharedRun.shared {start pool : BufferPool} {stores : Stores}
    (run : SharedRun start pool stores) (frames : 0 < start.poolSize)
    (unpinned : ∀ id, start.pinned id = 0) : Shared pool stores := by
  induction run with
  | start ok slotted =>
    refine ⟨ready_of_unpinned ok frames unpinned, slotted, nofun, nofun, nofun, ?_⟩
    exact fun heap there => ⟨there, nofun⟩
  | @returned _ call _ _ _ _ _ fits ran ih => exact (call.ends_run ih fits).of_ok ran
  | @threw _ call _ _ _ _ _ fits ran ih =>
    rcases (call.ends_run ih fits).of_error ran with ⟨-, shared⟩ | ⟨isFull, -⟩
    · exact shared
    · exact absurd isFull (noSuchPage_ne_failedToWrite _ _)

/-- It is a run of calls. -/
theorem SharedRun.afterCalls {start pool : BufferPool} {stores : Stores}
    (run : SharedRun start pool stores) :
    AfterCalls start pool := by
  induction run with
  | start => exact .start
  | returned _ _ ran ih => exact ih.returned ran
  | threw _ _ ran ih => exact ih.threw ran nofun

/-- A pool after any calls of any clients. -/
def usedPool {C : Type} (poolSize : Nat) (disk : DiskManager) (events : List (PoolEvent C)) :
    BufferPool :=
  (events.foldl UsedPool.step { pool := { poolSize, disk } }).pool

/-- Nobody has pinned a page. -/
def Unpinned (pool : BufferPool) : Prop := ∀ id, pool.pinned id = 0

theorem neutral_usedPool {C : Type} {poolSize : Nat} (frames : 0 < poolSize) {disk : DiskManager}
    {events : List (PoolEvent C)} (unpinned : Unpinned (usedPool poolSize disk events)) :
    (usedPool poolSize disk events).Neutral := by
  have tracked := (UsedPool.tracked_start poolSize disk).run events
  exact ⟨tracked.indexed, frames.trans_eq tracked.poolSize.symm, unpinned⟩

/-- **Every call of a tree or a heap releases what it pins.** On a pool of any size with no page
pinned, after any calls by its clients and then any sequence of calls of trees and heaps, whether
they returned or threw: no page is pinned; the next call leaves none pinned, when it returns and
when it throws, and does not throw because all pages are pinned. The one reservation is undefined
behaviour, which has no outcome. Calls with arguments that fit, on the file's heaps and on trees and
heaps made on the pool, are free of it, and end. -/
theorem calls_release_pins {C : Type} {poolSize : Nat} (frames : 0 < poolSize) (disk : DiskManager)
    (events : List (PoolEvent C)) (unpinned : Unpinned (usedPool poolSize disk events)) :
    (∀ pool, AfterCalls (usedPool poolSize disk events) pool →
      Unpinned pool ∧ ∀ (α : Type) (call : StoreCall α),
        Ends call.run pool (fun _ pool' => Unpinned pool')
          (fun fault pool' => fault ≠ poolFull ∧ (fault = .undefinedBehaviour ∨ Unpinned pool'))) ∧
    ∀ pool stores, SharedRun (usedPool poolSize disk events) pool stores →
      ∀ (α : Type) (call : StoreCall α), call.Fits pool stores →
        Ends call.run pool (fun _ pool' => Unpinned pool')
          (fun fault pool' => fault ≠ poolFull ∧ fault ≠ .undefinedBehaviour ∧ fault ≠ .diverges ∧
            Unpinned pool') := by
  have neutral := neutral_usedPool frames unpinned
  constructor
  · intro pool after
    have neutral' := after.neutral neutral
    refine ⟨neutral'.unpinned, fun α call => (call.keeps_run pool neutral').mono ?_ ?_⟩
    · exact fun _ _ released => released.unpinned
    · exact fun fault pool' throws => ⟨throws.1, throws.2.imp_right Neutral.unpinned⟩
  · intro pool stores run α call fits
    have neutral' := run.afterCalls.neutral neutral
    have safe := call.ends_run (run.shared neutral.frames unpinned) fits
    refine (safe.and (call.keeps_run pool neutral')).mono ?_ ?_
    · exact fun _ _ both => both.2.unpinned
    · rintro fault pool' ⟨fails, notFull, released⟩
      have defined : fault ≠ .undefinedBehaviour ∧ fault ≠ .diverges := by
        rcases fails with ⟨⟨id, rfl⟩, -⟩ | ⟨rfl, -⟩
        · exact ⟨nofun, nofun⟩
        · exact ⟨nofun, nofun⟩
      exact ⟨notFull, defined.1, defined.2, (released.resolve_left defined.1).unpinned⟩

/-- `{c: "x"}`. -/
def smallRow : Row := (∅ : Row).insert (str "c") (str "x")

/-- A tree and a heap are made, the tree gets a pair and the heap a row; the answer tells where the
heap's rows began before. -/
def treeAndHeap : EStateM Fault BufferPool (TableHeap × Option Nat) := do
  let tree ← BTree.create
  let heap ← TableHeap.create
  let _ ← tree.insert (str "a") (str "1")
  let pool ← get
  let _ ← heap.insertRow default 0 smallRow
  return (heap, (pool.content heap.firstPageId).map Page.dataStart)

/-- A pool of one frame over an empty file, used by no one so far. -/
def oneFrame : BufferPool := usedPool 1 onePagePool.disk ([] : List (PoolEvent Nat))

theorem treeAndHeap_returns {start : BufferPool} (isStart : start = oneFrame) :
    Ends treeAndHeap start (fun answer _ => answer.2 = some 4096) (fun _ _ => False) := by
  rw [isStart]
  decide +kernel

theorem treeAndHeap_scan {start : BufferPool} (isStart : start = oneFrame) :
    Ends (treeAndHeap >>= fun answer => answer.1.scan .none) start (fun _ _ => False)
      (fun fault _ => fault = DiskManager.noSuchPage 2) := by
  rw [isStart]
  decide +kernel

/-- **A tree and a heap share one frame**; the scan of the heap throws at the end of the file, and
after it the heap is scanned once more. -/
theorem calls_release_pins_scan : ∃ (tree tree' : BTree) (heap : TableHeap) (rid : RowId)
    (pool₁ pool₂ pool₃ pool₄ pool₅ : BufferPool),
    BTree.create oneFrame = .ok tree pool₁ ∧ TableHeap.create pool₁ = .ok heap pool₂ ∧
      tree.insert (str "a") (str "1") pool₂ = .ok tree' pool₃ ∧
      heap.insertRow default 0 smallRow pool₃ = .ok rid pool₄ ∧
      heap.scan none pool₄ = .error (DiskManager.noSuchPage 2) pool₅ ∧ Unpinned pool₅ ∧
      Ends (heap.scan none) pool₅ (fun _ pool' => Unpinned pool')
        (fun fault pool' => fault ≠ poolFull ∧ fault ≠ .undefinedBehaviour ∧ fault ≠ .diverges ∧
          Unpinned pool') := by
  have unpinned : Unpinned oneFrame := fun _ => rfl
  obtain ⟨released, defined⟩ :
      (∀ pool, AfterCalls oneFrame pool → Unpinned pool ∧ _) ∧ ∀ pool stores,
        SharedRun oneFrame pool stores → _ :=
    calls_release_pins Nat.one_pos onePagePool.disk [] unpinned
  have ok : oneFrame.Consistent := ready_onePagePool.consistent
  have empty : oneFrame.disk.pageCount = 0 := rfl
  have short : BTree.Short [(str "a", str "1")] := by
    unfold BTree.Short
    decide +kernel
  have tokens : Token (str "a") ∧ Token (str "1") := by decide +kernel
  have length : (TableHeap.storedText default smallRow).length ≤ 4096 := by decide +kernel
  -- on a variable, since the elaborator would run the calls
  obtain ⟨start, isStart⟩ : ∃ start, start = oneFrame := ⟨_, rfl⟩
  rw [← isStart] at released defined ok empty ⊢
  have scans := treeAndHeap_scan isStart
  obtain ⟨⟨heap, room⟩, pool₄, ran, isRoom⟩ := (treeAndHeap_returns isStart).exists_ok
  have scanned := (ends_bind_of_ok ran).mp scans
  obtain ⟨tree, pool₁, created, ran⟩ := exists_of_bind_eq_ok ran
  obtain ⟨heap', pool₂, made, ran⟩ := exists_of_bind_eq_ok ran
  obtain ⟨tree', pool₃, inserted, ran⟩ := exists_of_bind_eq_ok ran
  obtain ⟨pool₃', _, got, ran⟩ := exists_of_bind_eq_ok ran
  cases got
  obtain ⟨rid, _, stored, ran⟩ := exists_of_bind_eq_ok ran
  cases ran
  have begins : SharedRun start start
      ⟨∅, fun _ => Index.empty 0, {heap | heap.firstPageId < start.disk.pageCount}⟩ :=
    .start ok fun id page there => absurd (empty ▸ lt_pageCount ok there) (Nat.not_lt_zero id)
  have run := @SharedRun.returned start _ .createTree _ _ _ _ begins trivial created
  have run := @SharedRun.returned start _ .createHeap _ _ _ _ run trivial made
  have run := @SharedRun.returned start _ (.insert tree (str "a") (str "1")) _ _ _ _ run (by
    refine ⟨.inl rfl, tokens.1, tokens.2, ?_⟩
    unfold Stores.indexOn StoreCall.after
    dsimp only
    rw [Stores.index_withTree_self]
    exact BTree.nodesFit_of_short start.disk.pageCount short _ List.prefix_rfl) inserted
  have run := @SharedRun.returned start _ (.insertRow heap default 0 smallRow) _ _ _ _ run (by
    refine ⟨.inl rfl, fun page holds => ?_⟩
    rw [holds] at isRoom
    exact length.trans_eq (Option.some.inj isRoom).symm) stored
  cases ended : heap.scan .none pool₄ with
  | ok found pool₅ => exact (scanned.of_ok ended).elim
  | error fault pool₅ =>
    obtain rfl := scanned.of_error ended
    have run := @SharedRun.threw start _ (.scan heap .none) _ _ _ _ run trivial ended
    exact ⟨tree, tree', heap, rid, pool₁, pool₂, pool₃, pool₄, pool₅, created, made, inserted,
      stored, ended,
      (released pool₅ run.afterCalls).1, defined pool₅ _ run _ (.scan heap .none) trivial⟩

end MyDb
